import Diamond.Unwind.Machine

/-!
# Handlers at each instruction

A `Context` is the handler stack an instruction should find, without what only the run decides.
`Verified` says, instruction by instruction, that a table of contexts fits the code, as a bytecode
verifier would check it.  If the instructions a run executes are verified and its pushes find room,
then every frame has the handlers of its instruction and the interpreter never gives up.
-/

namespace Diamond.Unwind

open List

open Cleanup (Event)

variable {V : Type}

/-- What is static of a handler. -/
structure Slot where
  kind : HandlerKind
  target : ℕ
  types : List ℕ
  enabled : Bool
  deriving DecidableEq, Repr

abbrev Context := List Slot

def UnwindHandler.slot (handler : UnwindHandler V) : Slot :=
  ⟨handler.kind, handler.target, handler.types, handler.enabled⟩

def slots (handlers : List (UnwindHandler V)) : Context := handlers.map UnwindHandler.slot

/-- The context outside the innermost `levels` begin blocks. -/
def leaveLevels : ℕ → Context → Option Context
  | 0, context => some context
  | _ + 1, [] => none
  | levels + 1, slot :: rest =>
    if slot.kind = .rescue then leaveLevels (levels + 1) rest else leaveLevels levels rest

/-- Each handler leads to code for what is left of the stack when it is used. -/
def Targets (table : ℕ → Context) : Context → Prop
  | [] => True
  | slot :: rest =>
    (match slot.kind with
      | .rescue => table slot.target = rest
      | .ensure => table slot.target = { slot with kind := .activeEnsure } :: rest
      | .activeEnsure => True) ∧ Targets table rest

/-- An instruction at address `i` fits the table. -/
def Verified (table : ℕ → Context) (i : ℕ) : Instruction → Prop
  | .other _ => table (i + 1) = table i
  | .jump target => table target = table i
  | .branch target => table target = table i ∧ table (i + 1) = table i
  | .pushRescue types enabled target =>
    table (i + 1) = ⟨.rescue, target, types, enabled⟩ :: table i ∧ table target = table i
  | .popRescue => ∃ slot : Slot, slot.kind = .rescue ∧ table i = slot :: table (i + 1)
  | .pushEnsure target =>
    table (i + 1) = ⟨.ensure, target, [], true⟩ :: table i ∧
      table target = ⟨.activeEnsure, target, [], true⟩ :: table i
  | .unwindJump levels target => leaveLevels levels (table i) = some (table target)
  | .runEnsure continuation =>
    ∃ slot : Slot, slot.kind = .ensure ∧ table i = slot :: table continuation
  | .endEnsure => ∃ slot : Slot, slot.kind = .activeEnsure ∧ ∃ rest, table i = slot :: rest
  | .ret | .raise | .blockReturn | .blockBreak => True

/-- An exit that waits above the handlers `below` goes on to code for them. -/
def Lands (table : ℕ → Context) (below : Context) : Outcome V → Prop
  | .normal continuation => table continuation = below
  | .jump continuation levels => leaveLevels levels below = some (table continuation)
  | _ => True

/-- Every active handler has an exit that lands. -/
def Resumes (table : ℕ → Context) : List (UnwindHandler V) → PendingUnwind V → Prop
  | [], _ => True
  | handler :: rest, pending =>
    if handler.kind = .activeEnsure then
      (∃ exit, pending = some exit ∧ Lands table (slots rest) exit.outcome) ∧
        Resumes table rest handler.savedPending
    else
      Resumes table rest pending

/-- The handlers and the pending exit fit the table, and are those of the instruction at `ip`. -/
structure Fits (table : ℕ → Context) (handlers : List (UnwindHandler V))
    (pending : PendingUnwind V) (ip : ℕ) : Prop where
  context : slots handlers = table ip
  targets : Targets table (slots handlers)
  resumes : Resumes table handlers pending

section Unwinding

variable {table : ℕ → Context} {handler : UnwindHandler V} {rest handlers : List (UnwindHandler V)}
  {pending : PendingUnwind V} {log : List Event} {number : ℕ} {u : Unwinder V}

lemma targets_tail (h : Targets table (slots (handler :: rest))) : Targets table (slots rest) := h.2

lemma resumes_of_ne (hkind : handler.kind ≠ .activeEnsure)
    (h : Resumes table (handler :: rest) pending) : Resumes table rest pending := by
  rwa [Resumes, if_neg hkind] at h

lemma resumes_of_active (hkind : handler.kind = .activeEnsure)
    (h : Resumes table (handler :: rest) pending) :
    (∃ exit, pending = some exit ∧ Lands table (slots rest) exit.outcome) ∧
      Resumes table rest handler.savedPending := by
  rwa [Resumes, if_pos hkind] at h

lemma exists_of_slots {slot context} (h : slots handlers = slot :: context) :
    ∃ handler below, handlers = handler :: below ∧ handler.slot = slot := by
  cases handlers with
  | nil => cases h
  | cons handler below => exact ⟨handler, below, rfl, (List.cons.inj h).1⟩

/-- The ensure body is code for the handlers below it, with the ensure active. -/
lemma fits_enterEnsure (hkind : handler.kind = .ensure)
    (htargets : Targets table (slots (handler :: rest)))
    (hresumes : Resumes table (handler :: rest) pending) (next : Exit V)
    (hlands : Lands table (slots rest) next.outcome) :
    Fits table (enterEnsure handler rest pending log next).1.handlers
      (enterEnsure handler rest pending log next).1.pending
      (enterEnsure handler rest pending log next).2 := by
  have hslot : handler.slot.kind = .ensure := hkind
  obtain ⟨htarget, hrest⟩ := htargets
  rw [hslot] at htarget
  constructor
  case context => exact htarget.symm
  case targets => exact ⟨trivial, hrest⟩
  case resumes =>
    rw [enterEnsure, Resumes, if_pos rfl]
    exact ⟨⟨next, rfl, hlands⟩, resumes_of_ne (by simp [hkind]) hresumes⟩

section
variable (htargets : Targets table (slots handlers)) (hresumes : Resumes table handlers pending)
include htargets hresumes

lemma discardToEnsure_fits (hu : discardToEnsure number handlers pending log = u) :
    Targets table (slots u.handlers) ∧ Resumes table u.handlers u.pending ∧
      ∀ h below, u.handlers = h :: below → h.kind = .ensure := by
  induction handlers generalizing pending log with
  | nil =>
    cases hu
    exact ⟨htargets, hresumes, fun _ _ h => by cases h⟩
  | cons handler _ ih =>
    rw [discardToEnsure] at hu
    cases hkind : handler.kind with rw [hkind] at hu
    | rescue => exact ih (targets_tail htargets) (resumes_of_ne (by simp [hkind]) hresumes) hu
    | ensure =>
      cases hu
      refine ⟨htargets, hresumes, fun h below heq => ?_⟩
      cases heq
      exact hkind
    | activeEnsure => exact ih (targets_tail htargets) (resumes_of_active hkind hresumes).2 hu

lemma catchException_fits {matchesType value ip}
    (hcatch : catchException matchesType value number handlers pending log = (u, some ip)) :
    Fits table u.handlers u.pending ip := by
  induction handlers generalizing pending log with
  | nil => cases hcatch
  | cons handler _ ih =>
    rw [catchException] at hcatch
    cases hkind : handler.kind with rw [hkind] at hcatch
    | rescue =>
      have hrest := resumes_of_ne (by simp [hkind]) hresumes
      dsimp only at hcatch
      split at hcatch
      · cases hcatch
        have hslot : handler.slot.kind = .rescue := hkind
        obtain ⟨htarget, hbelow⟩ := htargets
        rw [hslot] at htarget
        exact ⟨htarget.symm, hbelow, hrest⟩
      · exact ih (targets_tail htargets) hrest hcatch
    | ensure =>
      cases hcatch
      exact fits_enterEnsure hkind htargets hresumes _ trivial
    | activeEnsure =>
      exact ih (targets_tail htargets) (resumes_of_active hkind hresumes).2 hcatch

/-- A jump finds the levels it leaves, and ends where they are left or in an ensure body. -/
lemma unwindForJump_fits {levels target}
    (hlevels : leaveLevels levels (slots handlers) = some (table target)) :
    ∃ u ip, unwindForJump number target levels handlers pending log = some (u, ip) ∧
      Fits table u.handlers u.pending ip := by
  induction handlers generalizing levels pending log with
  | nil =>
    cases levels with
    | zero => exact ⟨_, _, rfl, Option.some.inj hlevels, htargets, hresumes⟩
    | succ => cases hlevels
  | cons handler rest ih =>
    cases levels with
    | zero => exact ⟨_, _, rfl, Option.some.inj hlevels, htargets, hresumes⟩
    | succ levels =>
      have hlevels : (if handler.kind = .rescue then leaveLevels (levels + 1) (slots rest)
          else leaveLevels levels (slots rest)) = some (table target) := hlevels
      rw [unwindForJump]
      cases hkind : handler.kind with
      | rescue =>
        rw [hkind, if_pos rfl] at hlevels
        exact ih (targets_tail htargets) (resumes_of_ne (by simp [hkind]) hresumes) hlevels
      | ensure =>
        rw [hkind, if_neg (by decide)] at hlevels
        exact ⟨_, _, rfl, fits_enterEnsure hkind htargets hresumes _ hlevels⟩
      | activeEnsure =>
        rw [hkind, if_neg (by decide)] at hlevels
        exact ih (targets_tail htargets) (resumes_of_active hkind hresumes).2 hlevels

end

end Unwinding

/-! ## All frames -/

/-- Every frame has the handlers of its instruction, and the interpreter has not given up. -/
structure VmFits (tables : ℕ → ℕ → Context) (vm : DiamondVm V) : Prop where
  running : vm.stopped = false
  frames : ∀ f ∈ vm.frames, Fits (tables f.function) f.handlers f.pending f.ip
  leaving : ∀ exit, vm.leaving = some exit →
    (∃ value, exit.outcome = .exception value) ∨
      ∃ value target isBreak, exit.outcome = .nonlocal value target isBreak

/-- All code but its plain jumps is verified. -/
structure Checks (P : Program V) (tables : ℕ → ℕ → Context) : Prop where
  entry : ∀ function, tables function 0 = []
  verified : ∀ frame instruction, P.instruction frame = some instruction →
    (∀ target, instruction ≠ .jump target) → Verified (tables frame.function) frame.ip instruction

/-- What a run must meet where it executes an instruction: a plain jump stays within the same begin
blocks, and a handler is pushed where there is room for it. -/
def Allowed (tables : ℕ → ℕ → Context) (frame : DiamondFrame V) : Instruction → Prop
  | .jump target => tables frame.function target = tables frame.function frame.ip
  | .pushRescue _ _ _ => (tables frame.function frame.ip).length ≠ handlerCapacity
  | .pushEnsure _ => (tables frame.function frame.ip).length ≠ handlerCapacity
  | _ => True

section Vm

variable {P : Program V} {tables : ℕ → ℕ → Context} {vm vm' : DiamondVm V}
  {frame : DiamondFrame V} {rest : List (DiamondFrame V)} {u : Unwinder V} {number ip : ℕ} {value : V}

lemma vmFits_resume (hrunning : vm.stopped = false)
    (hrest : ∀ f ∈ rest, Fits (tables f.function) f.handlers f.pending f.ip)
    (hu : Fits (tables frame.function) u.handlers u.pending ip) :
    VmFits tables (vm.resume frame rest u ip) := by
  refine ⟨hrunning, fun f hf => ?_, fun _ h => by cases h⟩
  rcases mem_cons.1 hf with rfl | hf
  · exact hu
  · exact hrest f hf

section Frame

variable (hrunning : vm.stopped = false)
  (htargets : Targets (tables frame.function) (slots frame.handlers))
  (hresumes : Resumes (tables frame.function) frame.handlers frame.pending)
  (hrest : ∀ f ∈ rest, Fits (tables f.function) f.handlers f.pending f.ip)
include hrunning htargets hresumes hrest

lemma vmFits_raise : VmFits tables (vm.raise P frame rest value number) := by
  unfold DiamondVm.raise
  split
  case h_1 hcatch =>
    exact vmFits_resume hrunning hrest (catchException_fits htargets hresumes hcatch)
  case h_2 =>
    refine ⟨hrunning, hrest, fun _ hexit => ?_⟩
    cases hexit
    exact .inl ⟨value, rfl⟩

lemma vmFits_return : VmFits tables (vm.return frame rest value number) := by
  unfold DiamondVm.return
  generalize hu : discardToEnsure number frame.handlers frame.pending vm.log = u
  obtain ⟨htop, hpending, hensure⟩ := discardToEnsure_fits htargets hresumes hu
  obtain ⟨handlers, pending, log⟩ := u
  cases handlers with
  | nil => exact ⟨hrunning, hrest, fun _ h => by cases h⟩
  | cons handler below =>
    exact vmFits_resume hrunning hrest
      (fits_enterEnsure (hensure handler below rfl) htop hpending _ trivial)

lemma vmFits_nonlocal (hchecks : Checks P tables)
    (hcontext : P.instruction frame = some (.other true) →
      slots frame.handlers = tables frame.function frame.ip) {target isBreak error} :
    VmFits tables (vm.nonlocalExitArrives P frame rest value target isBreak number error) := by
  unfold DiamondVm.nonlocalExitArrives
  split
  · split
    case isTrue hlands =>
      have hverified := hchecks.verified frame _ hlands (by simp)
      refine vmFits_resume hrunning hrest ⟨?_, htargets, hresumes⟩
      exact (hcontext hlands).trans (Eq.symm hverified)
    case isFalse => exact vmFits_raise hrunning htargets hresumes hrest
  · generalize hu : discardToEnsure number frame.handlers frame.pending vm.log = u
    obtain ⟨htop, hpending, hensure⟩ := discardToEnsure_fits htargets hresumes hu
    obtain ⟨handlers, pending, log⟩ := u
    dsimp only
    cases handlers with
    | nil =>
      dsimp only
      split
      · exact ⟨hrunning, hrest, fun _ h => by cases h⟩
      split
      · refine ⟨hrunning, hrest, fun _ hexit => ?_⟩
        cases hexit
        exact .inl ⟨error, rfl⟩
      · refine ⟨hrunning, hrest, fun _ hexit => ?_⟩
        cases hexit
        exact .inr ⟨value, target, isBreak, rfl⟩
    | cons handler below =>
      refine vmFits_resume hrunning hrest
        (fits_enterEnsure (hensure handler below rfl) htop hpending _ ?_)
      dsimp only
      split <;> trivial

lemma vmFits_jump {levels target} (hlevels : leaveLevels levels (slots frame.handlers) =
      some (tables frame.function target)) :
    VmFits tables (vm.jump frame rest levels target number) := by
  obtain ⟨u, ip, hjump, hu⟩ :=
    @unwindForJump_fits V _ _ frame.pending vm.log number htargets hresumes _ _ hlevels
  unfold DiamondVm.jump
  rw [hjump]
  exact vmFits_resume hrunning hrest hu

end Frame

section Steps

variable (hchecks : Checks P tables) (hrunning : vm.stopped = false)
  (hframe : Fits (tables frame.function) frame.handlers frame.pending frame.ip)
  (hrest : ∀ f ∈ rest, Fits (tables f.function) f.handlers f.pending f.ip)
include hchecks hrunning hframe hrest

lemma vmFits_endEnsure {error} (hinstruction : P.instruction frame = some .endEnsure) :
    VmFits tables (vm.endEnsure P frame rest error) := by
  obtain ⟨hcontext, htargets, hresumes⟩ := hframe
  obtain ⟨_, hslot, _, hbelow⟩ := hchecks.verified frame _ hinstruction (by simp)
  rw [hbelow] at hcontext
  unfold DiamondVm.endEnsure
  cases hhandlers : frame.handlers with
  | nil =>
    rw [hhandlers] at hcontext
    cases hcontext
  | cons handler =>
    rw [hhandlers] at hcontext htargets hresumes
    have hkind : handler.kind = .activeEnsure := by
      cases hcontext
      exact hslot
    obtain ⟨⟨_, hpending, hlands⟩, hsaved⟩ := resumes_of_active hkind hresumes
    have hbelow := targets_tail htargets
    rw [hpending]
    dsimp only
    rw [if_pos hkind]
    split
    case h_1 hnormal =>
      rw [hnormal] at hlands
      exact vmFits_resume hrunning hrest ⟨Eq.symm hlands, hbelow, hsaved⟩
    case h_2 hjump =>
      rw [hjump] at hlands
      exact vmFits_jump hrunning hbelow hsaved hrest hlands
    case h_3 => exact vmFits_return hrunning hbelow hsaved hrest
    case h_4 =>
      -- The frame is at the end of an ensure body, not at a call.
      refine vmFits_nonlocal hrunning hbelow hsaved hrest hchecks fun hother => ?_
      have hother : P.instruction frame = some (.other true) := hother
      rw [hinstruction] at hother
      cases hother
    case h_5 => exact vmFits_raise hrunning hbelow hsaved hrest

lemma vmFits_blockExit {target isBreak} :
    VmFits tables (vm.blockExit P frame rest target isBreak value) := by
  have hstart : vm.start.stopped = false := hrunning
  have hraise : VmFits tables (vm.start.raise P frame rest value vm.clock) :=
    vmFits_raise hstart hframe.targets hframe.resumes hrest
  unfold DiamondVm.blockExit
  cases target with
  | none => exact hraise
  | some =>
    dsimp only
    split
    · exact vmFits_nonlocal hstart hframe.targets hframe.resumes hrest hchecks
        fun _ => hframe.context
    · exact hraise

lemma vmFits_pushRescue {types enabled target}
    (hinstruction : P.instruction frame = some (.pushRescue types enabled target)) :
    VmFits tables (vm.pushRescue frame rest types enabled target) := by
  obtain ⟨hcontext, htargets, hresumes⟩ := hframe
  obtain ⟨hnext, htarget⟩ := hchecks.verified frame _ hinstruction (by simp)
  refine vmFits_resume hrunning hrest ⟨?_, ⟨?_, htargets⟩, ?_⟩
  · rw [hnext, ← hcontext]
    rfl
  · exact htarget.trans hcontext.symm
  · rwa [Resumes, if_neg (by simp)]

lemma vmFits_pushEnsure {target} (hinstruction : P.instruction frame = some (.pushEnsure target)) :
    VmFits tables (vm.pushEnsure frame rest target) := by
  obtain ⟨hcontext, htargets, hresumes⟩ := hframe
  obtain ⟨hnext, htarget⟩ := hchecks.verified frame _ hinstruction (by simp)
  refine ⟨hrunning, fun f hf => ?_, fun _ h => by cases h⟩
  rcases mem_cons.1 hf with rfl | hf
  · refine ⟨?_, ⟨?_, htargets⟩, ?_⟩
    · rw [hnext, ← hcontext]
      rfl
    · exact htarget.trans (congrArg _ hcontext.symm)
    · rwa [Resumes, if_neg (by simp)]
  · exact hrest f hf

lemma vmFits_popRescue {handler below} (hinstruction : P.instruction frame = some .popRescue)
    (hhandlers : frame.handlers = handler :: below) (hkind : handler.kind = .rescue) :
    VmFits tables (vm.resume frame rest ⟨below, frame.pending, vm.log⟩ (frame.ip + 1)) := by
  obtain ⟨hcontext, htargets, hresumes⟩ := hframe
  obtain ⟨_, hslot, hbelow⟩ := hchecks.verified frame _ hinstruction (by simp)
  rw [hbelow] at hcontext
  rw [hhandlers] at hcontext htargets hresumes
  refine vmFits_resume hrunning hrest
    ⟨(List.cons.inj hcontext).2, targets_tail htargets, resumes_of_ne ?_ hresumes⟩
  rw [hkind]
  decide

lemma vmFits_runEnsure {handler below continuation}
    (hinstruction : P.instruction frame = some (.runEnsure continuation))
    (hhandlers : frame.handlers = handler :: below) (hkind : handler.kind = .ensure) :
    VmFits tables (vm.runEnsure frame rest handler below continuation) := by
  obtain ⟨hcontext, htargets, hresumes⟩ := hframe
  obtain ⟨_, hslot, hbelow⟩ := hchecks.verified frame _ hinstruction (by simp)
  rw [hbelow] at hcontext
  rw [hhandlers] at hcontext htargets hresumes
  have hstart : vm.start.stopped = false := hrunning
  exact vmFits_resume hstart hrest
    (fits_enterEnsure hkind htargets hresumes _ (Eq.symm (List.cons.inj hcontext).2))

lemma vmFits_executes {instruction} (hleaving : vm.leaving = none)
    (hframes : vm.frames = frame :: rest) (hinstruction : P.instruction frame = some instruction)
    (hallowed : Allowed tables frame instruction)
    (hexecutes : Executes P vm frame rest instruction vm') : VmFits tables vm' := by
  have hstart : vm.start.stopped = false := hrunning
  have hverified := hchecks.verified frame instruction hinstruction
  have hlength : frame.handlers.length = (tables frame.function frame.ip).length := by
    rw [← hframe.context, slots, length_map]
  cases hexecutes with
  | fails => exact vmFits_raise hstart hframe.targets hframe.resumes hrest
  | completes =>
    have hnext := hverified (by simp)
    exact vmFits_resume hrunning hrest
      ⟨hframe.context.trans (Eq.symm hnext), hframe.targets, hframe.resumes⟩
  | calls function =>
    refine ⟨hrunning, fun f hf => ?_, fun _ hexit => ?_⟩
    · rcases mem_cons.1 hf with rfl | hf
      · exact ⟨(hchecks.entry function).symm, trivial, trivial⟩
      · rw [hframes] at hf
        rcases mem_cons.1 hf with rfl | hf
        · exact hframe
        · exact hrest f hf
    · rw [DiamondVm.call, hleaving] at hexit
      cases hexit
  | jumps =>
    exact vmFits_resume hrunning hrest
      ⟨hframe.context.trans (Eq.symm hallowed), hframe.targets, hframe.resumes⟩
  | falls =>
    have hnext := (hverified (by simp)).2
    exact vmFits_resume hrunning hrest
      ⟨hframe.context.trans hnext.symm, hframe.targets, hframe.resumes⟩
  | branches =>
    have hnext := (hverified (by simp)).1
    exact vmFits_resume hrunning hrest
      ⟨hframe.context.trans hnext.symm, hframe.targets, hframe.resumes⟩
  | returns => exact vmFits_return hstart hframe.targets hframe.resumes hrest
  | exits => exact vmFits_blockExit hchecks hrunning hframe hrest
  | pushesRescue => exact vmFits_pushRescue hchecks hrunning hframe hrest hinstruction
  | popsRescue hhandlers hkind =>
    exact vmFits_popRescue hchecks hrunning hframe hrest hinstruction hhandlers hkind
  | pushesEnsure => exact vmFits_pushEnsure hchecks hrunning hframe hrest hinstruction
  | unwinds =>
    have hlevels := hverified (by simp)
    refine vmFits_jump hstart hframe.targets hframe.resumes hrest ?_
    rw [hframe.context]
    exact hlevels
  | runsEnsure hhandlers hkind =>
    exact vmFits_runEnsure hchecks hrunning hframe hrest hinstruction hhandlers hkind
  | endsEnsure => exact vmFits_endEnsure hchecks hrunning hframe hrest hinstruction
  | fullRescue hfull | fullEnsure hfull =>
    rw [hlength] at hfull
    exact absurd hfull hallowed
  | noRescue hnone | noEnsure hnone =>
    obtain ⟨_, hslot, hcontext⟩ := hverified (by simp)
    rw [← hframe.context] at hcontext
    obtain ⟨handler, below, hhandlers, rfl⟩ := exists_of_slots hcontext
    exact absurd hslot (hnone handler below hhandlers)

lemma vmFits_deliver {exit error} (houtcome : (∃ value, exit.outcome = .exception value) ∨
      ∃ value target isBreak, exit.outcome = .nonlocal value target isBreak)
    (hframes : vm.frames = frame :: rest) : VmFits tables (vm.deliver P exit error) := by
  unfold DiamondVm.deliver
  rw [hframes]
  dsimp only
  rcases houtcome with ⟨value, hvalue⟩ | ⟨value, target, isBreak, hvalue⟩
  · rw [hvalue]
    exact vmFits_raise hrunning hframe.targets hframe.resumes hrest
  · rw [hvalue]
    exact vmFits_nonlocal hrunning hframe.targets hframe.resumes hrest hchecks
      fun _ => hframe.context

end Steps

/-- The instruction that a step executes is allowed. -/
def StepAllowed (P : Program V) (tables : ℕ → ℕ → Context) (vm : DiamondVm V) : Prop :=
  ∀ frame rest instruction, vm.leaving = none → vm.frames = frame :: rest →
    P.instruction frame = some instruction → Allowed tables frame instruction

lemma Steps.vmFits (h : Steps P vm vm') (hchecks : Checks P tables)
    (hallowed : StepAllowed P tables vm) (hfits : VmFits tables vm) : VmFits tables vm' := by
  cases h with
  | @executes frame rest instruction _ hleaving hframes hinstruction hexecutes =>
    apply vmFits_executes hchecks hfits.running _ _ hleaving hframes hinstruction
      (hallowed frame rest instruction hleaving hframes hinstruction) hexecutes
    · exact hfits.frames frame (by rw [hframes]; exact mem_cons_self)
    · exact fun f hf => hfits.frames f (by rw [hframes]; exact mem_cons_of_mem _ hf)
  | @delivers exit _ hleaving =>
    have houtcome := hfits.leaving exit hleaving
    cases hframes : vm.frames with
    | nil =>
      unfold DiamondVm.deliver
      rw [hframes]
      exact ⟨hfits.running, fun f hf => (by cases hf), fun exit hexit => (by cases hexit)⟩
    | cons frame =>
      apply vmFits_deliver hchecks hfits.running _ _ houtcome hframes
      · exact hfits.frames frame (by rw [hframes]; exact mem_cons_self)
      · exact fun f hf => hfits.frames f (by rw [hframes]; exact mem_cons_of_mem _ hf)

lemma breaks_of_not_allowed {instruction} (hfits : VmFits tables vm)
    (hleaving : vm.leaving = none) (hframes : vm.frames = frame :: rest)
    (hinstruction : P.instruction frame = some instruction)
    (hnot : ¬Allowed tables frame instruction) (value : V) :
    ∃ vm', vm.step P (.next value) = some vm' ∧
      (vm'.stopped = true ∨ ∃ f ∈ vm'.frames, slots f.handlers ≠ tables f.function f.ip) := by
  have hframe := hfits.frames frame (by rw [hframes]; exact mem_cons_self)
  have hlength : frame.handlers.length = (tables frame.function frame.ip).length := by
    rw [← hframe.context, slots, length_map]
  have hstep : vm.step P (.next value) = vm.execute P frame rest instruction (.next value) := by
    unfold DiamondVm.step
    rw [hleaving, hframes]
    dsimp only
    rw [hinstruction]
  rw [hstep]
  cases instruction with
  | jump =>
    refine ⟨_, rfl, .inr ⟨_, mem_cons_self, fun h => hnot ?_⟩⟩
    exact h.symm.trans hframe.context
  | pushRescue | pushEnsure =>
    have hfull : frame.handlers.length = handlerCapacity := hlength.trans (not_not.1 hnot)
    exact ⟨vm.stop, if_pos hfull, .inl rfl⟩
  | other | branch | ret | raise | blockReturn | blockBreak | popRescue | unwindJump | runEnsure
  | endEnsure => exact absurd trivial hnot

end Vm

end Diamond.Unwind
