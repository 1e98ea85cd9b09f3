import Diamond.Unwind.Compile
import Diamond.Unwind.Ledger

/-!
# Ensure bodies run, and handlers match the code

The two halves together: compiled programs are verified but for some retries, and every run keeps
the ledger of cleanups.  Two things can go wrong.  A ninth begin block finds the handler stack full
and ends the program without running the ensure bodies around it; and a `retry` in a begin block
inside its rescue clause leaves that block's handlers behind.  Where neither happens, the promises
hold.
-/

namespace Diamond.Unwind

open List Option

open Cleanup (Event Sound Innermost MostRecent Settled runs)
open Relation (ReflTransGen)

variable {V : Type}

structure FunctionBody where
  inBlock : Bool
  body : Source .statement
  accepted : body.accepts inBlock false false = true

def FunctionBody.code (function : FunctionBody) : List Emitted :=
  compile ⟨function.inBlock, none, none, 0, 0, []⟩ 0 function.body ++ [(.ret, [])]

def programOf (functions : List FunctionBody) (matchesType : V → ℕ → Bool) : Program V :=
  ⟨functions.map fun f => f.code.map Prod.fst, matchesType⟩

/-- The handlers of the begin blocks around an instruction. -/
def contextOf (code : List Emitted) (ip : ℕ) : Context := (code[ip]?.map Prod.snd).getD []

def contexts (functions : List FunctionBody) (function ip : ℕ) : Context :=
  contextOf ((functions[function]?.map FunctionBody.code).getD []) ip

/-! ## Compiled programs -/

lemma each_contextOf (before code : List Emitted) :
    Agrees (contextOf (before ++ code)) before.length code := by
  induction code generalizing before with
  | nil => trivial
  | cons emitted _ ih =>
    constructor
    · simp [contextOf]
    · have hrest := ih (before ++ [emitted])
      rwa [append_assoc, singleton_append, length_append] at hrest

variable (function : FunctionBody)

lemma FunctionBody.good :
    Each (Good (contextOf function.code) (function.body.direct false)) 0 function.code := by
  have hagrees : Agrees (contextOf function.code) 0 function.code := each_contextOf [] function.code
  have hparts := hagrees
  unfold FunctionBody.code at hparts ⊢
  rw [Agrees, each_append, length_compile] at hparts
  obtain ⟨hbody, hret, -⟩ := hparts
  rw [each_append]
  refine ⟨compile_verified function.body hbody hret ?_ (by simp), .inl trivial, trivial⟩
  exact ⟨trivial, fun l hl => (by cases hl), by simp⟩

lemma FunctionBody.entry : contextOf function.code 0 = [] := by
  have hagrees : Agrees (contextOf function.code) 0 function.code := each_contextOf [] function.code
  unfold FunctionBody.code at hagrees ⊢
  rw [Agrees, each_append, length_compile] at hagrees
  exact compile_entry function.body hagrees.1 hagrees.2.1

lemma FunctionBody.room (hshallow : function.body.shallow 0 = true) :
    Each HasRoom 0 function.code := by
  unfold FunctionBody.code
  rw [each_append]
  exact ⟨compile_room function.body hshallow, trivial, trivial⟩

variable {functions : List FunctionBody} {matchesType : V → ℕ → Bool} {frame : DiamondFrame V}
  {instruction : Instruction} {vm vm' : DiamondVm V}

lemma exists_function (h : (programOf functions matchesType).instruction frame = some instruction) :
    ∃ function ∈ functions, ∃ context, function.code[frame.ip]? = some (instruction, context) ∧
      contexts functions frame.function = contextOf function.code := by
  unfold Program.instruction programOf at h
  rw [getD_eq_getElem?_getD, getElem?_map] at h
  cases hfunction : functions[frame.function]? with
  | none =>
    rw [hfunction] at h
    cases h
  | some function =>
    rw [hfunction, map_some, getD_some, getElem?_map, map_eq_some_iff] at h
    obtain ⟨⟨_, context⟩, hemitted, rfl⟩ := h
    refine ⟨function, mem_of_getElem? hfunction, context, hemitted, ?_⟩
    funext ip
    unfold contexts
    rw [hfunction]
    rfl

lemma checks_programOf : Checks (programOf functions matchesType) (contexts functions) := by
  constructor
  case entry =>
    intro g
    unfold contexts
    cases functions[g]? with
    | none => rfl
    | some function => exact function.entry
  case verified =>
    intro _ _ hinstruction hjump
    obtain ⟨function, -, context, hemitted, htable⟩ := exists_function hinstruction
    have hgood := each_getElem? function.good hemitted
    rw [Nat.zero_add] at hgood
    rw [htable]
    exact hgood.resolve_right fun h => hjump _ h.1.choose_spec

/-! ## Runs -/

def machine (functions : List FunctionBody) (matchesType : V → ℕ → Bool) : Machine (DiamondVm V) where
  initial vm := ∃ function, vm = startVm function
  step vm vm' := ∃ choice, vm.step (programOf functions matchesType) choice = some vm'

/-- The runs whose steps are all allowed: a `retry` stands directly in its rescue clause, and a
begin block is entered with room for its handlers. -/
def allowedMachine (functions : List FunctionBody) (matchesType : V → ℕ → Bool) :
    Machine (DiamondVm V) where
  initial vm := ∃ function, vm = startVm function
  step vm vm' :=
    StepAllowed (programOf functions matchesType) (contexts functions) vm ∧
      ∃ choice, vm.step (programOf functions matchesType) choice = some vm'

section
variable (h : (allowedMachine functions matchesType).Reachable vm)
include h

lemma vmFits_of_reachable : VmFits (contexts functions) vm := by
  apply h.invariant
  · rintro _ ⟨function, rfl⟩
    refine ⟨rfl, fun f hf => ?_, fun _ h => by cases h⟩
    rw [mem_singleton.1 hf]
    have hentry := (@checks_programOf V functions matchesType).entry function
    exact ⟨hentry.symm, trivial, trivial⟩
  · rintro vm _ _ hfits ⟨hallowed, _, hstep⟩
    exact (steps_of_step hstep).vmFits checks_programOf hallowed hfits

/-- The ledger of a run is sound as long as the interpreter does not give up. -/
lemma sound_of_reachable : vm.Chained ∧ Sound vm.ledger := by
  apply h.invariant
  · rintro _ ⟨function, rfl⟩
    refine ⟨fun f hf => ?_, Cleanup.sound_empty 1⟩
    rw [mem_singleton.1 hf]
    rfl
  rintro vm _ hreachable ⟨hchained, hsound⟩ ⟨hallowed, choice, hstep⟩
  have hrunning := (vmFits_of_reachable (hreachable.next ⟨hallowed, choice, hstep⟩)).running
  rcases (steps_of_step hstep).keeps hchained with hstopped | ⟨hchained', hmoves⟩
  · rw [hrunning] at hstopped
    cases hstopped
  · exact ⟨hchained', Cleanup.sound_of_moves hmoves hsound⟩

end

/-! ## Handlers and begin blocks -/

/-- Every frame has the handlers of the begin blocks around its instruction, and no handler was
pushed on a full stack. -/
def HandlersMatch (functions : List FunctionBody) (vm : DiamondVm V) : Prop :=
  vm.stopped = false ∧ ∀ f ∈ vm.frames, slots f.handlers = contexts functions f.function f.ip

lemma handlersMatch_of_reachable (h : (allowedMachine functions matchesType).Reachable vm) :
    HandlersMatch functions vm := by
  have hfits := vmFits_of_reachable h
  exact ⟨hfits.running, fun f hf => (hfits.frames f hf).context⟩

lemma allowed_of_reachable (hallowed : ∀ vm, (machine functions matchesType).Reachable vm →
      StepAllowed (programOf functions matchesType) (contexts functions) vm)
    (h : (machine functions matchesType).Reachable vm) :
    (allowedMachine functions matchesType).Reachable vm := by
  apply h.invariant
  · rintro _ ⟨function, rfl⟩
    exact .start ⟨function, rfl⟩
  · intro vm _ hreachable hrun hstep
    exact hrun.next ⟨hallowed vm hreachable, hstep⟩

lemma stepAllowed_of_matches [Inhabited V]
    (hmatches : ∀ vm, (machine functions matchesType).Reachable vm → HandlersMatch functions vm)
    (h : (machine functions matchesType).Reachable vm) :
    StepAllowed (programOf functions matchesType) (contexts functions) vm := by
  have hstep : ∀ vm, (machine functions matchesType).Reachable vm →
      (allowedMachine functions matchesType).Reachable vm →
      StepAllowed (programOf functions matchesType) (contexts functions) vm := by
    intro vm hreachable hrun _ _ _ hleaving hframes hinstruction
    by_contra hnot
    obtain ⟨vm', hnext, hbroken⟩ := breaks_of_not_allowed (vmFits_of_reachable hrun) hleaving hframes
      hinstruction hnot default
    obtain ⟨hrunning, hcontexts⟩ := hmatches vm' (hreachable.next ⟨_, hnext⟩)
    rcases hbroken with hstopped | ⟨f, hf, hne⟩
    · rw [hrunning] at hstopped
      cases hstopped
    · exact hne (hcontexts f hf)
  -- A run is allowed up to its first step that is not.
  apply hstep vm h
  apply h.invariant
  · rintro _ ⟨function, rfl⟩
    exact .start ⟨function, rfl⟩
  · intro vm vm' hreachable hrun hnext
    exact hrun.next ⟨hstep vm hreachable hrun, hnext⟩

/-- Retries that are direct and begin blocks that are not nested too deeply make every step allowed.
-/
lemma stepAllowed_of_direct_shallow (h : ∀ function ∈ functions, function.body.direct false = true ∧
      function.body.shallow 0 = true) :
    StepAllowed (programOf functions matchesType) (contexts functions) vm := by
  intro frame _ instruction hleaving hframes hinstruction
  obtain ⟨function, hmem, context, hemitted, htable⟩ := exists_function hinstruction
  obtain ⟨hdirect, hshallow⟩ := h function hmem
  have hgood := each_getElem? function.good hemitted
  have hroom := each_getElem? (function.room hshallow) hemitted
  have hcontext : contexts functions frame.function frame.ip = context := by
    rw [htable, contextOf, hemitted]
    rfl
  cases instruction with
  | jump =>
    rw [Nat.zero_add] at hgood
    rw [Allowed, htable]
    exact hgood.resolve_right fun h => Bool.false_ne_true (h.2.symm.trans hdirect)
  | pushRescue | pushEnsure =>
    rw [Allowed, hcontext]
    exact Nat.ne_of_lt hroom
  | other | branch | ret | raise | blockReturn | blockBreak | popRescue | unwindJump | runEnsure
  | endEnsure => trivial

def DiamondVm.run (P : Program V) (vm : DiamondVm V) : List (Choice V) → Option (DiamondVm V)
  | [] => some vm
  | choice :: rest => (vm.step P choice).bind fun vm' => vm'.run P rest

lemma reachable_of_run (choices : List (Choice V))
    (h : (machine functions matchesType).Reachable vm)
    (hrun : vm.run (programOf functions matchesType) choices = some vm') :
    (machine functions matchesType).Reachable vm' := by
  induction choices generalizing vm with
  | nil =>
    cases hrun
    exact h
  | cons choice _ ih =>
    obtain ⟨next, hstep, hrest⟩ := bind_eq_some_iff.1 hrun
    exact ih (h.next ⟨choice, hstep⟩) hrest

/-- Where every step is allowed, the handlers of every frame are those of the begin blocks around
its instruction and a push never finds the stack full.  All states of a program are like that
exactly if all its steps are allowed; and they are if its retries are direct and its begin blocks
not nested too deeply. -/
theorem handlers_match_begins [Inhabited V] (functions : List FunctionBody)
    (matchesType : V → ℕ → Bool) :
    (∀ vm, (allowedMachine functions matchesType).Reachable vm → HandlersMatch functions vm) ∧
    ((∀ vm, (machine functions matchesType).Reachable vm → HandlersMatch functions vm) ↔
      ∀ vm, (machine functions matchesType).Reachable vm →
        StepAllowed (programOf functions matchesType) (contexts functions) vm) ∧
    ((∀ function ∈ functions, function.body.direct false = true ∧ function.body.shallow 0 = true) →
      ∀ vm, (machine functions matchesType).Reachable vm → HandlersMatch functions vm) := by
  refine ⟨fun vm h => handlersMatch_of_reachable h, ⟨fun hmatches vm h => ?_, fun hallowed vm h => ?_⟩,
    fun hplain vm h => ?_⟩
  · exact stepAllowed_of_matches hmatches h
  · exact handlersMatch_of_reachable (allowed_of_reachable hallowed h)
  · apply handlersMatch_of_reachable
    exact allowed_of_reachable (fun vm _ => stepAllowed_of_direct_shallow hplain) h

/-- `begin raise; rescue; retry; end` -/
def directRetry : FunctionBody where
  inBlock := false
  body := .begin .raise (.catchAll .retry) .skip .skip
  accepted := rfl

theorem handlers_match_begins_retry : ∀ vm : DiamondVm Unit,
    (machine [directRetry] fun _ _ => true).Reachable vm → HandlersMatch [directRetry] vm :=
  (handlers_match_begins [directRetry] fun _ _ => true).2.2 (by decide)

/-- `begin raise; rescue; begin retry; end; end` -/
def nestedRetry : FunctionBody where
  inBlock := false
  body := .begin .raise (.catchAll (.begin .retry .noRescue .skip .skip)) .skip .skip
  accepted := rfl

/-- Begin blocks with an ensure body, one in the other. -/
def nestedBegins : ℕ → Source .statement
  | 0 => .other false
  | depth + 1 => .begin (nestedBegins depth) .noRescue .skip (.other false)

def nineBegins : FunctionBody where
  inBlock := false
  body := nestedBegins 9
  accepted := rfl

/-- A `retry` in a begin block leaves its handlers behind, and the ninth begin block finds the
handler stack full. -/
theorem handlers_left_over_and_full :
    (∃ vm : DiamondVm Unit, (machine [nestedRetry] fun _ _ => true).Reachable vm ∧
      ∃ f ∈ vm.frames, (slots f.handlers).length = 3 ∧
        (contexts [nestedRetry] f.function f.ip).length = 1) ∧
    ∃ vm : DiamondVm Unit, (machine [nineBegins] fun _ _ => true).Reachable vm ∧
      vm.stopped = true := by
  constructor
  · exact ⟨_, reachable_of_run (List.replicate 6 (.next ())) (.start ⟨0, rfl⟩) rfl, _,
      List.mem_cons_self, rfl, rfl⟩
  · exact ⟨_, reachable_of_run (List.replicate 17 (.next ())) (.start ⟨0, rfl⟩) rfl, rfl⟩

/-! ## Ensure bodies -/

/-- The ensure body is in scope: some frame is in its begin block. -/
def DiamondVm.Waits (vm : DiamondVm V) (cleanup : ℕ) : Prop :=
  ∃ f ∈ vm.frames, ∃ handler ∈ f.handlers, handler.kind = .ensure ∧ handler.cleanup = cleanup

lemma waits_iff {cleanup : ℕ} : vm.Waits cleanup ↔ cleanup ∈ vm.ledger.waiting := by
  unfold DiamondVm.Waits DiamondVm.ledger
  simp only [mem_flatMap, mem_waitingOf]

/-- Where every step is allowed: an ensure body that came into scope runs once, and it is in scope
until then, with its frame in the begin block; it runs after those that came into scope later; the
exit that takes effect is the one that started last, except for those that took effect or were
replaced before; an exit is replaced only by a later one, and then it does not take effect.  So at
the end all ensure bodies have run and no exit is under way. -/
theorem ensure_bodies_run_once (h : (allowedMachine functions matchesType).Reachable vm) :
    (∀ c, .opened c ∈ vm.log → vm.Waits c ∧ runs c vm.log = 0 ∨ ¬vm.Waits c ∧ runs c vm.log = 1) ∧
    HandlersMatch functions vm ∧ Innermost vm.log ∧ MostRecent vm.log ∧
    (∀ n m, .replaced n m ∈ vm.log → n < m ∧ .took n ∉ vm.log) ∧
    (vm.frames = [] → (∀ c, .opened c ∈ vm.log → runs c vm.log = 1) ∧
      (vm.leaving = none → ∀ n, .started n ∈ vm.log → Settled n vm.log)) := by
  obtain ⟨-, hsound⟩ := sound_of_reachable h
  have honce : ∀ c, .opened c ∈ vm.log →
      vm.Waits c ∧ runs c vm.log = 0 ∨ ¬vm.Waits c ∧ runs c vm.log = 1 := by
    intro c hopened
    rw [waits_iff]
    exact hsound.once c hopened
  refine ⟨honce, handlersMatch_of_reachable h, hsound.innermost, hsound.mostRecent, hsound.later,
    fun hframes => ⟨fun c hopened => ?_, fun hleaving n hstarted => ?_⟩⟩
  · rcases honce c hopened with ⟨⟨f, hf, -⟩, -⟩ | ⟨-, hran⟩
    · rw [hframes] at hf
      cases hf
    · exact hran
  · apply hsound.settled_of_not_mem hstarted
    unfold DiamondVm.ledger
    rw [hframes, hleaving]
    exact List.not_mem_nil

/-- `begin raise; ensure …; end` -/
def raiseInBegin : FunctionBody where
  inBlock := false
  body := .begin .raise .noRescue .skip (.other false)
  accepted := rfl

/-- Its end: the ensure body ran on the way of the exception. -/
def raisedVm : DiamondVm Unit := ⟨[], none, false, [.took 2, .ran 1 2, .started 2, .opened 1], 3⟩

theorem ensure_bodies_run_once_raise :
    (allowedMachine [raiseInBegin] fun _ _ => true).Reachable raisedVm ∧
      .opened 1 ∈ raisedVm.log ∧ runs 1 raisedVm.log = 1 := by
  have hplain : ∀ function ∈ [raiseInBegin], function.body.direct false = true ∧
      function.body.shallow 0 = true := by decide
  have hrun : (startVm 0).run (programOf [raiseInBegin] fun _ _ => true)
      (List.replicate 6 (.next ())) = some raisedVm := rfl
  have hreachable := allowed_of_reachable (fun _ _ => stepAllowed_of_direct_shallow hplain)
    (reachable_of_run _ (.start ⟨0, rfl⟩) hrun)
  have hopened : .opened 1 ∈ raisedVm.log := by decide
  obtain ⟨-, -, -, -, -, hend⟩ := ensure_bodies_run_once hreachable
  exact ⟨hreachable, hopened, (hend rfl).1 1 hopened⟩

/-- Nine begin blocks end the program: eight ensure bodies came into scope, and none of them runs.
-/
theorem ensure_bodies_skipped :
    ∃ vm : DiamondVm Unit, (machine [nineBegins] fun _ _ => true).Reachable vm ∧ vm.frames = [] ∧
      vm.log = [8, 7, 6, 5, 4, 3, 2, 1].map .opened ∧ runs 1 vm.log = 0 :=
  ⟨_, reachable_of_run (List.replicate 17 (.next ())) (.start ⟨0, rfl⟩) rfl, rfl, rfl, rfl⟩

end Diamond.Unwind
