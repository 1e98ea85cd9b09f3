import Diamond.Unwind.Handlers
import Diamond.Lib.Transition

/-!
# The interpreter, as far as control goes

Model of the exception and ensure opcodes of `run_chunk` in `src/vm_run_chunk.c`, of the macros
`VM_RETURN` and `VM_PROPAGATE` there, and of `nonlocal_exit_arrives` in `src/vm_exceptions.c`, over
a stack of frames.

Registers are left out: what an instruction reads from them is a choice of the step.  Instructions
that do not touch the handlers are one instruction, `other`, which completes, fails, or calls a
function and then goes on.  Before any instruction a signal may raise an exception, so a failure is
possible anywhere.  A failure whose status no rescue can match (`exception_class_for_status`) ends
the program and is not a step here, except `DIAMOND_VM_INVALID_BYTECODE` for the reasons that the
opcodes below check.  Addresses count instructions, not bytes.
-/

namespace Diamond.Unwind

open Cleanup (Event)

variable {V : Type}

/-- `handlers[16]`. -/
def handlerCapacity : ℕ := 16

inductive Instruction
  | other (canLand : Bool)
  | jump (target : ℕ)
  | branch (target : ℕ)
  | ret
  | raise
  | blockReturn
  | blockBreak
  | pushRescue (types : List ℕ) (enabled : Bool) (target : ℕ)
  | popRescue
  | pushEnsure (target : ℕ)
  | unwindJump (levels target : ℕ)
  | runEnsure (continuation : ℕ)
  | endEnsure
  deriving DecidableEq, Repr

/-- A program: the code of its functions, and `value_matches_type`. -/
structure Program (V : Type) where
  code : List (List Instruction)
  matchesType : V → ℕ → Bool

/-- `DiamondFrame`, with the targets of the closure it runs, if it runs a block. -/
structure DiamondFrame (V : Type) where
  function : ℕ
  ip : ℕ
  handlers : List (UnwindHandler V)
  pending : PendingUnwind V
  serial : ℕ
  returnTarget : Option ℕ
  breakTarget : Option ℕ
  breakCall : Option ℕ
  deriving DecidableEq, Repr

/-- The frames, innermost first; the exit that has left the frame before them, if one has; and
whether the program was stopped for invalid bytecode. -/
structure DiamondVm (V : Type) where
  frames : List (DiamondFrame V)
  leaving : Option (Exit V)
  stopped : Bool
  log : List Event
  clock : ℕ
  deriving DecidableEq, Repr

/-- What the registers decide: go on, with `value` for what the instruction reads or fails with;
take a branch; call a function; or fail. -/
inductive Choice (V : Type)
  | next (value : V)
  | taken
  | call (function : ℕ) (returnTarget breakTarget breakCall : Option ℕ)
  | fail (value : V)
  deriving DecidableEq, Repr

def Program.instruction (P : Program V) (frame : DiamondFrame V) : Option Instruction :=
  (P.code.getD frame.function [])[frame.ip]?

def DiamondVm.stop (vm : DiamondVm V) : DiamondVm V :=
  { vm with frames := [], leaving := none, stopped := true }

def DiamondVm.start (vm : DiamondVm V) : DiamondVm V :=
  { vm with log := .started vm.clock :: vm.log, clock := vm.clock + 1 }

/-- The innermost frame goes on at `ip` with the handlers of `u`. -/
def DiamondVm.resume (vm : DiamondVm V) (frame : DiamondFrame V) (rest : List (DiamondFrame V))
    (u : Unwinder V) (ip : ℕ) : DiamondVm V :=
  { vm with
    frames := { frame with ip := ip, handlers := u.handlers, pending := u.pending } :: rest
    leaving := none
    log := u.log }

/-- The innermost frame goes on at `ip` with the handlers it has. -/
def DiamondVm.goOn (vm : DiamondVm V) (frame : DiamondFrame V) (rest : List (DiamondFrame V))
    (ip : ℕ) : DiamondVm V :=
  vm.resume frame rest ⟨frame.handlers, frame.pending, vm.log⟩ ip

/-- The innermost frame ends; `leaving` is passed on to the next one. -/
def DiamondVm.leave (vm : DiamondVm V) (rest : List (DiamondFrame V)) (log : List Event)
    (leaving : Option (Exit V)) : DiamondVm V :=
  { vm with frames := rest, leaving := leaving, log := log }

/-- An exception in a frame: `RAISE`, and `VM_PROPAGATE` and `VM_RETURN` with a failure. -/
def DiamondVm.raise (P : Program V) (vm : DiamondVm V) (frame : DiamondFrame V)
    (rest : List (DiamondFrame V)) (value : V) (number : ℕ) : DiamondVm V :=
  match catchException P.matchesType value number frame.handlers frame.pending vm.log with
  | (u, some ip) => vm.resume frame rest u ip
  | (u, none) => vm.leave rest u.log (some ⟨.exception value, number⟩)

/-- A return from a frame: `RETURN`, and `END_ENSURE` with `PENDING_RETURN`. -/
def DiamondVm.return (vm : DiamondVm V) (frame : DiamondFrame V) (rest : List (DiamondFrame V))
    (value : V) (number : ℕ) : DiamondVm V :=
  let u := discardToEnsure number frame.handlers frame.pending vm.log
  match u.handlers with
  | [] => vm.leave rest (.took number :: u.log) none
  | handler :: below =>
    let entered := enterEnsure handler below u.pending u.log ⟨.ret value, number⟩
    vm.resume frame rest entered.1 entered.2

/-- `nonlocal_exit_arrives`, and what `VM_RETURN` makes of it; `error` is the TypeError of an exit
that has nowhere to go. -/
def DiamondVm.nonlocalExitArrives (P : Program V) (vm : DiamondVm V) (frame : DiamondFrame V)
    (rest : List (DiamondFrame V)) (value : V) (target : ℕ) (isBreak : Bool) (number : ℕ)
    (error : V) : DiamondVm V :=
  if target = frame.serial ∧ isBreak then
    if P.instruction frame = some (.other true) then
      vm.resume frame rest ⟨frame.handlers, frame.pending, .took number :: vm.log⟩ (frame.ip + 1)
    else
      vm.raise P frame rest error number
  else
    let u := discardToEnsure number frame.handlers frame.pending vm.log
    match u.handlers with
    | handler :: below =>
      let next := if target = frame.serial then .ret value else .nonlocal value target isBreak
      let entered := enterEnsure handler below u.pending u.log ⟨next, number⟩
      vm.resume frame rest entered.1 entered.2
    | [] =>
      if target = frame.serial then
        vm.leave rest (.took number :: u.log) none
      else if rest = [] then
        vm.leave rest u.log (some ⟨.exception error, number⟩)
      else
        vm.leave rest u.log (some ⟨.nonlocal value target isBreak, number⟩)

/-- `UNWIND_JUMP`, and `END_ENSURE` with `PENDING_JUMP`. -/
def DiamondVm.jump (vm : DiamondVm V) (frame : DiamondFrame V) (rest : List (DiamondFrame V))
    (levels target number : ℕ) : DiamondVm V :=
  match unwindForJump number target levels frame.handlers frame.pending vm.log with
  | some (u, ip) => vm.resume frame rest u ip
  | none => vm.stop

/-- The block's `break` is still inside the call it was passed to. -/
def breakIsLive (target : ℕ) (call : Option ℕ) : List (DiamondFrame V) → Bool
  | callee :: caller :: rest =>
    if caller.serial = target then
      callee.serial ≠ target ∧ call = some caller.ip
    else if callee.serial = target then
      false
    else
      breakIsLive target call (caller :: rest)
  | _ => false

/-- The target of a block's exit is on the stack, and a `break` can land there. -/
def exitIsLive (target : ℕ) (isBreak : Bool) (call : Option ℕ) (frames : List (DiamondFrame V)) :
    Bool :=
  if isBreak then breakIsLive target call frames else frames.any fun f => f.serial = target

/-- `BLOCK_RETURN` and `BLOCK_BREAK`: a dead target is a failure, a live one an exit. -/
def DiamondVm.blockExit (P : Program V) (vm : DiamondVm V) (frame : DiamondFrame V)
    (rest : List (DiamondFrame V)) (target : Option ℕ) (isBreak : Bool) (value : V) :
    DiamondVm V :=
  match target with
  | none => vm.start.raise P frame rest value vm.clock
  | some target =>
    if exitIsLive target isBreak frame.breakCall (frame :: rest) then
      vm.start.nonlocalExitArrives P frame rest value target isBreak vm.clock value
    else
      vm.start.raise P frame rest value vm.clock

/-- `END_ENSURE`: the exit that was pending goes on. -/
def DiamondVm.endEnsure (P : Program V) (vm : DiamondVm V) (frame : DiamondFrame V)
    (rest : List (DiamondFrame V)) (error : V) : DiamondVm V :=
  match frame.handlers, frame.pending with
  | handler :: below, some exit =>
    if handler.kind = .activeEnsure then
      let frame := { frame with handlers := below, pending := handler.savedPending }
      match exit.outcome with
      | .normal continuation =>
        vm.resume frame rest ⟨below, handler.savedPending, .took exit.number :: vm.log⟩ continuation
      | .jump continuation levels => vm.jump frame rest levels continuation exit.number
      | .ret value => vm.return frame rest value exit.number
      | .nonlocal value target isBreak =>
        vm.nonlocalExitArrives P frame rest value target isBreak exit.number error
      | .exception value => vm.raise P frame rest value exit.number
    else
      vm.stop
  | _, _ => vm.stop

def DiamondVm.call (vm : DiamondVm V) (function : ℕ)
    (returnTarget breakTarget breakCall : Option ℕ) : DiamondVm V :=
  { vm with
    frames := ⟨function, 0, [], none, vm.clock, returnTarget, breakTarget, breakCall⟩ :: vm.frames
    clock := vm.clock + 1 }

/-- `PUSH_RESCUE`, with room for the handler. -/
def DiamondVm.pushRescue (vm : DiamondVm V) (frame : DiamondFrame V) (rest : List (DiamondFrame V))
    (types : List ℕ) (enabled : Bool) (target : ℕ) : DiamondVm V :=
  vm.resume frame rest
    ⟨⟨.rescue, target, types, enabled, none, 0⟩ :: frame.handlers, frame.pending, vm.log⟩
    (frame.ip + 1)

/-- `PUSH_ENSURE`, with room for the handler. -/
def DiamondVm.pushEnsure (vm : DiamondVm V) (frame : DiamondFrame V) (rest : List (DiamondFrame V))
    (target : ℕ) : DiamondVm V :=
  { vm.resume frame rest
      ⟨⟨.ensure, target, [], true, none, vm.clock⟩ :: frame.handlers, frame.pending,
        .opened vm.clock :: vm.log⟩ (frame.ip + 1) with clock := vm.clock + 1 }

/-- `RUN_ENSURE`, with the ensure of the block on top. -/
def DiamondVm.runEnsure (vm : DiamondVm V) (frame : DiamondFrame V) (rest : List (DiamondFrame V))
    (handler : UnwindHandler V) (below : List (UnwindHandler V)) (continuation : ℕ) : DiamondVm V :=
  let entered :=
    enterEnsure handler below frame.pending vm.start.log ⟨.normal continuation, vm.clock⟩
  vm.start.resume frame rest entered.1 entered.2

def DiamondVm.execute (P : Program V) (vm : DiamondVm V) (frame : DiamondFrame V)
    (rest : List (DiamondFrame V)) : Instruction → Choice V → Option (DiamondVm V)
  | _, .fail value => some (vm.start.raise P frame rest value vm.clock)
  | .other _, .next _ => some (vm.goOn frame rest (frame.ip + 1))
  | .other _, .call function returnTarget breakTarget breakCall =>
    some (vm.call function returnTarget breakTarget breakCall)
  | .jump target, .next _ => some (vm.goOn frame rest target)
  | .branch _, .next _ => some (vm.goOn frame rest (frame.ip + 1))
  | .branch target, .taken => some (vm.goOn frame rest target)
  | .ret, .next value => some (vm.start.return frame rest value vm.clock)
  | .raise, .next value => some (vm.start.raise P frame rest value vm.clock)
  | .blockReturn, .next value => some (vm.blockExit P frame rest frame.returnTarget false value)
  | .blockBreak, .next value => some (vm.blockExit P frame rest frame.breakTarget true value)
  | .pushRescue types enabled target, .next _ =>
    if frame.handlers.length = handlerCapacity then
      some vm.stop
    else
      some (vm.pushRescue frame rest types enabled target)
  | .popRescue, .next _ =>
    match frame.handlers with
    | handler :: below =>
      if handler.kind = .rescue then
        some (vm.resume frame rest ⟨below, frame.pending, vm.log⟩ (frame.ip + 1))
      else
        some vm.stop
    | [] => some vm.stop
  | .pushEnsure target, .next _ =>
    if frame.handlers.length = handlerCapacity then
      some vm.stop
    else
      some (vm.pushEnsure frame rest target)
  | .unwindJump levels target, .next _ => some (vm.start.jump frame rest levels target vm.clock)
  | .runEnsure continuation, .next _ =>
    match frame.handlers with
    | handler :: below =>
      if handler.kind = .ensure then
        some (vm.runEnsure frame rest handler below continuation)
      else
        some vm.stop
    | [] => some vm.stop
  | .endEnsure, .next value => some (vm.endEnsure P frame rest value)
  | _, _ => none

/-- An exit that has left a frame reaches the frame that called it, or the end of the program. -/
def DiamondVm.deliver (P : Program V) (vm : DiamondVm V) (exit : Exit V) (error : V) : DiamondVm V :=
  match vm.frames with
  | [] => vm.leave [] (.took exit.number :: vm.log) none
  | frame :: rest =>
    match exit.outcome with
    | .nonlocal value target isBreak =>
      vm.nonlocalExitArrives P frame rest value target isBreak exit.number error
    | .exception value => vm.raise P frame rest value exit.number
    | _ => vm.stop

def DiamondVm.step (P : Program V) (vm : DiamondVm V) (choice : Choice V) : Option (DiamondVm V) :=
  match vm.leaving, vm.frames, choice with
  | some exit, _, .next error => some (vm.deliver P exit error)
  | none, frame :: rest, choice =>
    match P.instruction frame with
    | some instruction => vm.execute P frame rest instruction choice
    | none => none
  | _, _, _ => none

def startVm (function : ℕ) : DiamondVm V :=
  ⟨[⟨function, 0, [], none, 0, none, none, none⟩], none, false, [], 1⟩

/-! ## The steps by what they do -/

variable {P : Program V} {vm vm' : DiamondVm V} {frame : DiamondFrame V}
  {rest : List (DiamondFrame V)}

inductive Executes (P : Program V) (vm : DiamondVm V) (frame : DiamondFrame V)
    (rest : List (DiamondFrame V)) : Instruction → DiamondVm V → Prop
  | fails {instruction} (value : V) :
      Executes P vm frame rest instruction (vm.start.raise P frame rest value vm.clock)
  | completes {canLand} :
      Executes P vm frame rest (.other canLand) (vm.goOn frame rest (frame.ip + 1))
  | calls {canLand} (function : ℕ) (returnTarget breakTarget breakCall : Option ℕ) :
      Executes P vm frame rest (.other canLand)
        (vm.call function returnTarget breakTarget breakCall)
  | jumps {target} : Executes P vm frame rest (.jump target) (vm.goOn frame rest target)
  | falls {target} : Executes P vm frame rest (.branch target) (vm.goOn frame rest (frame.ip + 1))
  | branches {target} : Executes P vm frame rest (.branch target) (vm.goOn frame rest target)
  | returns (value : V) : Executes P vm frame rest .ret (vm.start.return frame rest value vm.clock)
  | exits {instruction} (target : Option ℕ) (isBreak : Bool) (value : V) :
      Executes P vm frame rest instruction (vm.blockExit P frame rest target isBreak value)
  | pushesRescue {types enabled target} (hroom : frame.handlers.length ≠ handlerCapacity) :
      Executes P vm frame rest (.pushRescue types enabled target)
        (vm.pushRescue frame rest types enabled target)
  | popsRescue {handler below} (hhandlers : frame.handlers = handler :: below)
      (hkind : handler.kind = .rescue) :
      Executes P vm frame rest .popRescue
        (vm.resume frame rest ⟨below, frame.pending, vm.log⟩ (frame.ip + 1))
  | pushesEnsure {target} (hroom : frame.handlers.length ≠ handlerCapacity) :
      Executes P vm frame rest (.pushEnsure target) (vm.pushEnsure frame rest target)
  | unwinds {levels target} :
      Executes P vm frame rest (.unwindJump levels target)
        (vm.start.jump frame rest levels target vm.clock)
  | runsEnsure {handler below continuation} (hhandlers : frame.handlers = handler :: below)
      (hkind : handler.kind = .ensure) :
      Executes P vm frame rest (.runEnsure continuation)
        (vm.runEnsure frame rest handler below continuation)
  | endsEnsure (error : V) : Executes P vm frame rest .endEnsure (vm.endEnsure P frame rest error)
  | fullRescue {types enabled target} (hfull : frame.handlers.length = handlerCapacity) :
      Executes P vm frame rest (.pushRescue types enabled target) vm.stop
  | fullEnsure {target} (hfull : frame.handlers.length = handlerCapacity) :
      Executes P vm frame rest (.pushEnsure target) vm.stop
  | noRescue (hnone : ∀ handler below, frame.handlers = handler :: below → handler.kind ≠ .rescue) :
      Executes P vm frame rest .popRescue vm.stop
  | noEnsure {continuation}
      (hnone : ∀ handler below, frame.handlers = handler :: below → handler.kind ≠ .ensure) :
      Executes P vm frame rest (.runEnsure continuation) vm.stop

lemma executes_of_execute {instruction choice}
    (h : vm.execute P frame rest instruction choice = some vm') :
    Executes P vm frame rest instruction vm' := by
  unfold DiamondVm.execute at h
  split at h
  case h_1 value => cases h; exact .fails value
  case h_2 => cases h; exact .completes
  case h_3 => cases h; exact .calls ..
  case h_4 => cases h; exact .jumps
  case h_5 => cases h; exact .falls
  case h_6 => cases h; exact .branches
  case h_7 value => cases h; exact .returns value
  case h_8 value => cases h; exact .fails value
  case h_9 | h_10 => cases h; exact .exits ..
  case h_11 =>
    split at h
    case isTrue hfull => cases h; exact .fullRescue hfull
    case isFalse hroom => cases h; exact .pushesRescue hroom
  case h_12 =>
    split at h
    case h_1 hhandlers =>
      split at h
      case isTrue hkind => cases h; exact .popsRescue hhandlers hkind
      case isFalse hkind =>
        cases h
        refine .noRescue fun handler' _ heq => ?_
        rw [hhandlers] at heq
        cases heq
        exact hkind
    case h_2 hhandlers =>
      cases h
      exact .noRescue fun handler _ heq => (by rw [hhandlers] at heq; cases heq)
  case h_13 =>
    split at h
    case isTrue hfull => cases h; exact .fullEnsure hfull
    case isFalse hroom => cases h; exact .pushesEnsure hroom
  case h_14 => cases h; exact .unwinds
  case h_15 =>
    split at h
    case h_1 hhandlers =>
      split at h
      case isTrue hkind => cases h; exact .runsEnsure hhandlers hkind
      case isFalse hkind =>
        cases h
        refine .noEnsure fun handler' _ heq => ?_
        rw [hhandlers] at heq
        cases heq
        exact hkind
    case h_2 hhandlers =>
      cases h
      exact .noEnsure fun handler _ heq => (by rw [hhandlers] at heq; cases heq)
  case h_16 value => cases h; exact .endsEnsure value
  case h_17 => cases h

/-- A step of the interpreter executes an instruction or delivers an exit. -/
inductive Steps (P : Program V) (vm : DiamondVm V) : DiamondVm V → Prop
  | executes {frame rest instruction vm'} (hleaving : vm.leaving = none)
      (hframes : vm.frames = frame :: rest) (hinstruction : P.instruction frame = some instruction)
      (hexecutes : Executes P vm frame rest instruction vm') : Steps P vm vm'
  | delivers {exit} (error : V) (hleaving : vm.leaving = some exit) :
      Steps P vm (vm.deliver P exit error)

lemma steps_of_step {choice} (h : vm.step P choice = some vm') : Steps P vm vm' := by
  unfold DiamondVm.step at h
  split at h
  case h_1 error hleaving =>
    cases h
    exact .delivers error hleaving
  case h_2 hleaving hframes =>
    split at h
    case h_1 hinstruction =>
      exact .executes hleaving hframes hinstruction (executes_of_execute h)
    case h_2 => cases h
  case h_3 => cases h

end Diamond.Unwind
