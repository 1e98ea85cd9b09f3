import Diamond.Budget.Allowance
import Diamond.Unwind.Machine

/-!
# The grace allowance of one VM

A VM that runs any program, with the checks of its budgets before each instruction.  The model adds
to the interpreter of `Diamond.Unwind` what it leaves out: a failure is a status that goes from
frame to frame (`VM_RETURN`), and a frame with handlers catches it if an exception class stands for
it (`catch_runtime_error`).

The other VMs, the clock, and the memory in use are inputs of each step.
-/

namespace Diamond.Budget

open Unwind (Program Choice Instruction catchException)

variable {V : Type}

inductive ErrorClass
  | resourceLimitError
  deriving DecidableEq, Repr

/-- `exception_class_for_status`, for the statuses of the budget checks. -/
def exceptionClassForStatus (limits : DiamondVm) : Status → Option ErrorClass
  | .outOfMemory =>
    if limits.memoryLimitTripped = true ∧ limits.memoryHardStopped = false then
      some .resourceLimitError
    else none
  | .resourceLimitError => some .resourceLimitError
  | .ok | .interrupted | .resourceExhausted => none

/-- The VM and its budgets.  `failing` is the status that is on its way through the frames, with the
number of its exit.  `raised` counts the ResourceLimitErrors of the instruction and wall-clock
budgets, `executedAfter` the instructions executed after the first of them, and `exhausted` says
whether the allowance is used up. -/
structure Run (V : Type) where
  vm : Unwind.DiamondVm V
  limits : DiamondVm
  failing : Option (Status × ℕ)
  raised : ℕ
  executedAfter : ℕ
  exhausted : Bool

def Run.fail (r : Run V) (status : Status) : Run V :=
  { r with
    vm := r.vm.start
    failing := some (status, r.vm.clock)
    raised := if status = .resourceLimitError then r.raised + 1 else r.raised
    exhausted := r.exhausted || decide (status = .resourceExhausted) }

attribute [local simp] Run.fail

def Run.execute (r : Run V) : Run V :=
  { r with executedAfter := if r.raised ≠ 0 then r.executedAfter + 1 else r.executedAfter }

/-- What happens next, with what it reads from outside the VM. -/
inductive Input (V : Type)
  /-- The next instruction. -/
  | instruction (counters : Counters) (nowNs : ℤ) (interrupt : Bool) (choice : Choice V)
  /-- The next instruction waits, until `endNs`.  With `taken` it is a rendezvous send whose value
  has been taken by then: `channel_send_helper` drops the status of the wait. -/
  | wait (counters : Counters) (nowNs : ℤ) (interrupt : Bool) (endNs : ℤ) (taken : Bool)
  /-- An exit reaches the calling frame. -/
  | deliver (error : V)
  /-- An allocation checks the memory budget. -/
  | collect (counters : Counters) (bytes : ℕ)
  /-- A failure reaches a frame; `value` is the exception that is built for it. -/
  | unwind (counters : Counters) (bytes : ℕ) (value : V)

/-- A failure in a frame: `VM_RETURN` with a status that is not `ok`. -/
def Run.unwind (P : Program V) (r : Run V) (frame : Unwind.DiamondFrame V)
    (rest : List (Unwind.DiamondFrame V)) (status : Status) (number : ℕ) (counters : Counters)
    (bytes : ℕ) (value : V) : Run V :=
  let (limits, _, allocated) := maybeCollect r.limits counters bytes
  if frame.handlers ≠ [] ∧ (exceptionClassForStatus r.limits status).isSome then
    if allocated then
      match catchException P.matchesType value number frame.handlers frame.pending r.vm.log with
      | (u, some ip) => { r with vm := r.vm.resume frame rest u ip, limits, failing := none }
      | (u, none) => { r with vm := r.vm.leave rest u.log none, limits }
    else { r with vm := r.vm.leave rest r.vm.log none, limits }
  else { r with vm := r.vm.leave rest r.vm.log none }

def Run.step (P : Program V) (r : Run V) : Input V → Option (Run V)
  | .instruction counters nowNs interrupt choice =>
    match r.failing, r.vm.leaving, r.vm.frames with
    | none, none, frame :: rest =>
      if r.limits.instructionsExecuted + 1 < sizeMod then
        let (limits, _, status) := dispatchCheck r.limits counters nowNs interrupt
        if status = .ok then
          match P.instruction frame with
          | some instruction =>
            (r.vm.execute P frame rest instruction choice).map fun vm =>
              { r.execute with vm, limits }
          | none => none
        else some (Run.fail { r with limits } status)
      else none
    | _, _, _ => none
  | .wait counters nowNs interrupt endNs taken =>
    match r.failing, r.vm.leaving, r.vm.frames with
    | none, none, _ :: _ =>
      if r.limits.instructionsExecuted + 1 < sizeMod then
        let (limits, _, status) := dispatchCheck r.limits counters nowNs interrupt
        if status = .ok then
          let (waited, after) := wallBudgetAfterWait limits endNs
          if after = .ok ∨ taken then some { r.execute with limits := waited }
          else some (Run.fail { r.execute with limits := waited } after)
        else some (Run.fail { r with limits } status)
      else none
    | _, _, _ => none
  | .deliver error =>
    match r.failing, r.vm.leaving with
    | none, some exit => some { r with vm := r.vm.deliver P exit error }
    | _, _ => none
  | .collect counters bytes =>
    match r.failing, r.vm.frames with
    | none, _ :: _ =>
      let (limits, _, ok) := maybeCollect r.limits counters bytes
      if ok then some { r with limits } else some (Run.fail { r with limits } .outOfMemory)
    | _, _ => none
  | .unwind counters bytes value =>
    match r.failing, r.vm.frames with
    | some (status, number), frame :: rest =>
      some (r.unwind P frame rest status number counters bytes value)
    | _, _ => none

/-- A program in a VM with the budgets `config`, from any function. -/
def runMachine (P : Program V) (config : Config) : Machine (Run V) where
  initial r := ∃ function startNs, r =
    ⟨Unwind.startVm function,
      { vmInit config with budgetsRegistered := true, startTimeNs := startNs }, none, 0, 0, false⟩
  step r r' := ∃ input, r.step P input = some r'

/-- The VM heeds its hard stop: if the status of a wait is dropped, it is not `resourceExhausted`,
with which `resource_hard_stop` takes back the limits of the allowance. -/
def Run.Heeds (r : Run V) : Input V → Prop
  | .wait counters nowNs interrupt endNs true =>
    (wallBudgetAfterWait (dispatchCheck r.limits counters nowNs interrupt).1 endNs).2 ≠
      .resourceExhausted
  | _ => True

instance (r : Run V) (input : Input V) : Decidable (r.Heeds input) := by
  unfold Run.Heeds
  split <;> infer_instance

/-- The runs in which the VM heeds its hard stop. -/
def heedingMachine (P : Program V) (config : Config) : Machine (Run V) where
  initial := (runMachine P config).initial
  step r r' := ∃ input, r.Heeds input ∧ r.step P input = some r'

/-! ## The phases of a VM -/

variable {P : Program V} {config : Config} {r r' : Run V} {vm : DiamondVm} {counters : Counters}
  {nowNs : ℤ}

/-- The instructions a VM may execute after its ResourceLimitError. -/
def Config.grace (config : Config) : ℕ :=
  if config.graceInstructions ≠ 0 then config.graceInstructions else instructionGrace

lemma Configured.grace_eq (h : Configured config vm) : vm.grace = config.grace := by
  rw [DiamondVm.grace, h.grace, Config.grace]

structure Soft (config : Config) (vm : DiamondVm) : Prop where
  configured : Configured config vm
  soft : vm.resourceGraceActive = false

/-- A VM in its grace allowance, with at most `left` instructions to go. -/
structure InGrace (config : Config) (left : ℕ) (vm : DiamondVm) : Prop where
  configured : Configured config vm
  active : vm.resourceGraceActive = true
  potential_le : vm.potential ≤ left

inductive SoftOutcome (config : Config) (vm : DiamondVm) : Status → Prop
  | goes {status} (hstatus : status = .ok ∨ status = .interrupted) (h : Soft config vm) :
      SoftOutcome config vm status
  | trips (h : InGrace config config.grace vm) : SoftOutcome config vm .resourceLimitError

/-- What a check of a VM in its grace allowance may return, with `left` instructions to go, if going
on costs `cost` of them. -/
inductive GraceOutcome (config : Config) (left cost : ℕ) (vm : DiamondVm) : Status → Prop
  | goes (after : ℕ) (hcost : after + cost ≤ left) (h : InGrace config after vm) :
      GraceOutcome config left cost vm .ok
  | interrupted (h : InGrace config left vm) : GraceOutcome config left cost vm .interrupted
  | exhausted : GraceOutcome config left cost vm .resourceExhausted

section
variable (h : Soft config vm)
include h

lemma softOutcome_trip (hbudget : config.maxInstructions ≠ 0) :
    SoftOutcome config (resourceLimitTrip vm nowNs) .resourceLimitError := by
  have hset : vm.maxInstructions ≠ 0 := h.configured.soft h.soft ▸ hbudget
  exact .trips ⟨configured_resourceLimitTrip h.configured hset, rfl,
    (potential_resourceLimitTrip hset).trans h.configured.grace_eq.le⟩

lemma softOutcome_wallCheck (hbudget : config.maxInstructions ≠ 0) :
    SoftOutcome config (wallCheck vm nowNs).1 (wallCheck vm nowNs).2 := by
  rw [wallCheck]
  split
  · exact softOutcome_trip h hbudget
  · exact .goes (.inl rfl) h

/-- A VM in its soft phase that counts an instruction or a flush stays in it. -/
lemma Soft.counted {vm'} (hgrace : vm'.graceInstructions = vm.graceInstructions)
    (hmax : vm'.maxInstructions = vm.maxInstructions)
    (hactive : vm'.resourceGraceActive = vm.resourceGraceActive) : Soft config vm' := by
  have hsoft : vm'.resourceGraceActive = false := hactive.trans h.soft
  exact ⟨configured_soft (hgrace.trans h.configured.grace) hsoft
    (hmax.trans (h.configured.soft h.soft)), hsoft⟩

lemma softOutcome_dispatchCheck (hbudget : config.maxInstructions ≠ 0)
    (counters : Counters) (nowNs : ℤ) (interrupt : Bool) :
    SoftOutcome config (dispatchCheck vm counters nowNs interrupt).1
      (dispatchCheck vm counters nowNs interrupt).2.2 := by
  rw [dispatchCheck]
  split
  · exact .goes (.inr rfl) (h.counted rfl rfl rfl)
  rw [if_neg (by simp [h.soft]), softCheck]
  split
  · dsimp only [instructionBudgetExceeded]
    split
    · exact softOutcome_trip (h.counted rfl rfl rfl) hbudget
    · exact softOutcome_wallCheck (h.counted rfl rfl rfl) hbudget
  · exact softOutcome_wallCheck (h.counted rfl rfl rfl) hbudget

lemma softOutcome_wallBudgetAfterWait (hbudget : config.maxInstructions ≠ 0) (nowNs : ℤ) :
    SoftOutcome config (wallBudgetAfterWait vm nowNs).1 (wallBudgetAfterWait vm nowNs).2 := by
  rw [wallBudgetAfterWait]
  split
  · exact .goes (.inl rfl) h
  · next hover =>
    split
    · exact softOutcome_trip h hbudget
    · next hunset =>
      -- Without a wall-clock budget there is no limit to be past.
      refine absurd (.inl ?_) hover
      rw [wallBudgetLimitNs, if_neg hunset, if_neg (by simp [h.soft])]

end

lemma maybeCollect_active (vm : DiamondVm) (counters : Counters) (bytes : ℕ) :
    (maybeCollect vm counters bytes).1.resourceGraceActive = vm.resourceGraceActive := by
  rw [Budget.maybeCollect]
  split
  · dsimp only
    split
    · rfl
    · split <;> rfl
  · rfl

/-- The grace checks let an instruction through and leave the allowance as it is, or stop the VM. -/
lemma graceCheck_cases (vm : DiamondVm) (nowNs : ℤ) :
    graceCheck vm nowNs = (vm, .ok) ∨ (graceCheck vm nowNs).2 = .resourceExhausted := by
  rw [graceCheck]
  split
  · exact .inr rfl
  · split
    · exact .inr rfl
    · exact .inl rfl

lemma graceOutcome_dispatchCheck {left} (h : InGrace config left vm)
    (hbelow : vm.instructionsExecuted + 1 < sizeMod) (counters : Counters) (nowNs : ℤ)
    (interrupt : Bool) : GraceOutcome config left 1 (dispatchCheck vm counters nowNs interrupt).1
      (dispatchCheck vm counters nowNs interrupt).2.2 := by
  rw [dispatchCheck]
  split
  · have hpotential : ({ vm with instructionsExecuted := vm.instructionsExecuted + 1 } :
        DiamondVm).potential ≤ vm.potential := by
      simp only [DiamondVm.potential, DiamondVm.graceEnd, h.active, if_true]
      omega
    exact .interrupted ⟨h.configured.of_fields rfl rfl rfl rfl hpotential, h.active,
      hpotential.trans h.potential_le⟩
  · rw [if_pos h.active]
    have hpays := pays_graceCheck h.configured h.active hbelow True nowNs
    rcases graceCheck_cases
      { vm with instructionsExecuted := vm.instructionsExecuted + 1 } nowNs with hok | hstop
    · rw [hok] at hpays ⊢
      exact .goes _ ((hpays.paid rfl trivial).trans h.potential_le)
        ⟨hpays.configured rfl, h.active, le_rfl⟩
    · dsimp only
      rw [hstop]
      exact .exhausted

lemma graceOutcome_wallBudgetAfterWait {left} (h : InGrace config left vm) (nowNs : ℤ) :
    GraceOutcome config left 0 (wallBudgetAfterWait vm nowNs).1
      (wallBudgetAfterWait vm nowNs).2 := by
  rw [wallBudgetAfterWait]
  split
  · exact .goes left le_rfl h
  · rw [if_neg (by simp [h.configured.disarmed h.active])]
    exact .exhausted

lemma Soft.maybeCollect (h : Soft config vm) (counters : Counters) (bytes : ℕ) :
    Soft config (maybeCollect vm counters bytes).1 :=
  ⟨(configured_maybeCollect h.configured counters bytes).1,
    (maybeCollect_active vm counters bytes).trans h.soft⟩

lemma InGrace.maybeCollect {left} (h : InGrace config left vm) (counters : Counters)
    (bytes : ℕ) : InGrace config left (maybeCollect vm counters bytes).1 :=
  ⟨(configured_maybeCollect h.configured counters bytes).1,
    (maybeCollect_active vm counters bytes).trans h.active,
    (configured_maybeCollect h.configured counters bytes).2.le.trans h.potential_le⟩

/-! ## The invariant -/

inductive Standing (config : Config) (r : Run V) : Prop
  | soft (h : Soft config r.limits) (hraised : r.raised = 0) (hafter : r.executedAfter = 0)
      (hexhausted : r.exhausted = false)
  | grace (left : ℕ) (h : InGrace config left r.limits) (hraised : r.raised ≤ 1)
      (hexhausted : r.exhausted = false) (hleft : r.executedAfter + left ≤ config.grace)
  | exhausted (number : ℕ) (hraised : r.raised ≤ 1) (hexhausted : r.exhausted = true)
      (hafter : r.executedAfter ≤ config.grace)
      (hfailing : r.failing = some (.resourceExhausted, number))

lemma standing_initial (h : (runMachine P config).initial r) : Standing config r := by
  obtain ⟨function, startNs, rfl⟩ := h
  exact .soft ⟨configured_soft rfl rfl rfl, rfl⟩ rfl rfl rfl

/-- After a check: the VM goes on with the status `ok`, or fails with another one. -/
lemma standing_fail {limits status cost} (h : Standing config r) (hfailing : r.failing = none)
    (hsoft : Soft config r.limits → SoftOutcome config limits status)
    (hgrace : ∀ left, InGrace config left r.limits → GraceOutcome config left cost limits status)
    (hstatus : status ≠ .ok) : Standing config (Run.fail { r with limits } status) := by
  cases h with
  | soft h hraised hafter hexhausted =>
    cases hsoft h with
    | goes hgoes hlimits =>
      rcases hgoes with rfl | rfl
      · exact absurd rfl hstatus
      · exact .soft hlimits hraised hafter (by simp [hexhausted])
    | trips hlimits =>
      refine .grace config.grace hlimits (by simp [hraised]) (by simp [hexhausted]) ?_
      simp [hafter]
  | grace left h hraised hexhausted hleft =>
    cases hgrace left h with
    | goes => exact absurd rfl hstatus
    | interrupted hlimits =>
      exact .grace left hlimits hraised (by simp [hexhausted]) hleft
    | exhausted =>
      exact .exhausted r.vm.clock hraised (by simp) ((Nat.le_add_right ..).trans hleft)
        rfl
  | exhausted _ _ _ _ hfails =>
    rw [hfailing] at hfails
    cases hfails

/-- The VM goes on after a check that lets it, or whose ResourceLimitError is dropped. -/
lemma standing_goes {limits status cost executedAfter} {vm : Unwind.DiamondVm V}
    (h : Standing config r) (hfailing : r.failing = none)
    (hgoes : status = .ok ∨ status = .resourceLimitError)
    (hsoft : Soft config r.limits → SoftOutcome config limits status)
    (hgrace : ∀ left, InGrace config left r.limits → GraceOutcome config left cost limits status)
    (hafter : executedAfter = if r.raised ≠ 0 then r.executedAfter + cost else r.executedAfter) :
    Standing config { r with vm, limits, executedAfter } := by
  subst hafter
  cases h with
  | soft h hraised hafter hexhausted =>
    cases hsoft h with
    | goes _ hlimits => exact .soft hlimits hraised (by simp [hraised, hafter]) hexhausted
    | trips hlimits =>
      exact .grace config.grace hlimits (by simp [hraised]) hexhausted (by simp [hraised, hafter])
  | grace left h hraised hexhausted =>
    cases hgrace left h with
    | goes after _ hlimits =>
      refine .grace after hlimits hraised hexhausted ?_
      dsimp only
      split <;> omega
    | interrupted | exhausted => rcases hgoes with hgoes | hgoes <;> cases hgoes
  | exhausted _ _ _ _ hfails =>
    rw [hfailing] at hfails
    cases hfails

lemma wallBudgetAfterWait_status (vm : DiamondVm) (nowNs : ℤ) :
    (wallBudgetAfterWait vm nowNs).2 = .ok ∨
      (wallBudgetAfterWait vm nowNs).2 = .resourceLimitError ∨
      (wallBudgetAfterWait vm nowNs).2 = .resourceExhausted := by
  rw [wallBudgetAfterWait]
  split
  · exact .inl rfl
  · split
    · exact .inr (.inl rfl)
    · exact .inr (.inr rfl)

lemma standing_instruction {choice interrupt}
    (hbudget : config.maxInstructions ≠ 0) (h : Standing config r)
    (hstep : r.step P (.instruction counters nowNs interrupt choice) = some r') :
    Standing config r' := by
  simp only [Run.step] at hstep
  split at hstep
  case h_1 hfailing _ _ =>
    rw [Option.ite_none_right_eq_some] at hstep
    obtain ⟨hbelow, hstep⟩ := hstep
    have hsoft := fun hlimits : Soft config r.limits =>
      softOutcome_dispatchCheck hlimits hbudget counters nowNs interrupt
    have hgrace := fun left (hlimits : InGrace config left r.limits) =>
      graceOutcome_dispatchCheck hlimits hbelow counters nowNs interrupt
    split at hstep
    · next hok =>
      rw [hok] at hsoft hgrace
      split at hstep
      · obtain ⟨_, -, rfl⟩ := Option.map_eq_some_iff.1 hstep
        exact standing_goes (r := r) h hfailing (.inl rfl) hsoft hgrace rfl
      · cases hstep
    · next hstatus =>
      cases hstep
      exact standing_fail h hfailing hsoft hgrace hstatus
  case h_2 => cases hstep

lemma standing_wait {interrupt endNs taken} (hbudget : config.maxInstructions ≠ 0)
    (h : Standing config r) (hheeds : r.Heeds (.wait counters nowNs interrupt endNs taken))
    (hstep : r.step P (.wait counters nowNs interrupt endNs taken) = some r') :
    Standing config r' := by
  simp only [Run.step] at hstep
  split at hstep
  case h_1 hfailing _ _ =>
    rw [Option.ite_none_right_eq_some] at hstep
    obtain ⟨hbelow, hstep⟩ := hstep
    have hsoft := fun hlimits : Soft config r.limits =>
      softOutcome_dispatchCheck hlimits hbudget counters nowNs interrupt
    have hgrace := fun left (hlimits : InGrace config left r.limits) =>
      graceOutcome_dispatchCheck hlimits hbelow counters nowNs interrupt
    split at hstep
    · next hok =>
      rw [hok] at hsoft hgrace
      have hstanding : Standing config { r.execute with limits := _ } :=
        standing_goes (r := r) h hfailing (.inl rfl) hsoft hgrace rfl
      have hsoft' := fun limits (hlimits : Soft config limits) =>
        softOutcome_wallBudgetAfterWait hlimits hbudget endNs
      have hgrace' := fun limits left (hlimits : InGrace config left limits) =>
        graceOutcome_wallBudgetAfterWait hlimits endNs
      split at hstep
      · next hafter =>
        cases hstep
        have hgoes : (wallBudgetAfterWait (dispatchCheck r.limits counters nowNs interrupt).1
            endNs).2 ≠ .resourceExhausted := by
          rcases hafter with hafter | rfl
          · simp [hafter]
          · exact hheeds
        have hstatus := wallBudgetAfterWait_status
          (dispatchCheck r.limits counters nowNs interrupt).1 endNs
        exact standing_goes
          (r := { r.execute with limits := (dispatchCheck r.limits counters nowNs interrupt).1 })
          hstanding hfailing (hstatus.imp_right fun h => h.resolve_right hgoes) (hsoft' _)
          (hgrace' _) (by simp)
      · next hafter =>
        cases hstep
        exact standing_fail
          (r := { r.execute with limits := (dispatchCheck r.limits counters nowNs interrupt).1 })
          hstanding hfailing (hsoft' _) (hgrace' _) (fun hok => hafter (.inl hok))
    · next hstatus =>
      cases hstep
      exact standing_fail h hfailing hsoft hgrace hstatus
  case h_2 => cases hstep

lemma standing_collect {bytes} (h : Standing config r)
    (hstep : r.step P (.collect counters bytes) = some r') : Standing config r' := by
  simp only [Run.step] at hstep
  split at hstep
  case h_1 hfailing _ =>
    -- The memory check keeps the phase; a failure of it is not one of the other two budgets.
    have hlimits : Standing config { r with limits := (maybeCollect r.limits counters bytes).1 } := by
      cases h with
      | soft h hraised hafter hexhausted =>
        exact .soft (h.maybeCollect counters bytes) hraised hafter hexhausted
      | grace left h hraised hexhausted hleft =>
        exact .grace left (h.maybeCollect counters bytes) hraised hexhausted hleft
      | exhausted _ _ _ _ hfails =>
        rw [hfailing] at hfails
        cases hfails
    split at hstep
    · cases hstep
      exact hlimits
    cases hstep
    cases hlimits with
    | soft h hraised hafter hexhausted =>
      exact .soft h hraised hafter (by simpa using hexhausted)
    | grace left h hraised hexhausted hleft =>
      exact .grace left h hraised (by simpa using hexhausted) hleft
    | exhausted number _ _ _ hfails =>
      have hnone : r.failing = some (.resourceExhausted, number) := hfails
      rw [hfailing] at hnone
      cases hnone
  case h_2 => cases hstep

/-- A failure that no class stands for leaves the frame without running any of its handlers. -/
lemma unwind_uncatchable {frame rest status number bytes value}
    (hclass : exceptionClassForStatus r.limits status = none) :
    r.unwind P frame rest status number counters bytes value =
      { r with vm := r.vm.leave rest r.vm.log none } := by
  simp [Run.unwind, hclass]

lemma standing_unwind {bytes value} (h : Standing config r)
    (hstep : r.step P (.unwind counters bytes value) = some r') : Standing config r' := by
  simp only [Run.step] at hstep
  split at hstep
  case h_1 number _ _ hfailing _ =>
    cases hstep
    cases h with
    | soft h hraised hafter hexhausted =>
      have hcollected := h.maybeCollect counters bytes
      simp only [Run.unwind]
      split
      · split
        · split <;> exact .soft hcollected hraised hafter hexhausted
        · exact .soft hcollected hraised hafter hexhausted
      · exact .soft h hraised hafter hexhausted
    | grace left h hraised hexhausted hleft =>
      have hcollected := h.maybeCollect counters bytes
      simp only [Run.unwind]
      split
      · split
        · split <;> exact .grace left hcollected hraised hexhausted hleft
        · exact .grace left hcollected hraised hexhausted hleft
      · exact .grace left h hraised hexhausted hleft
    | exhausted _ hraised hexhausted hafter hfails =>
      rw [hfailing] at hfails
      cases hfails
      rw [unwind_uncatchable rfl]
      exact .exhausted number hraised hexhausted hafter hfailing
  case h_2 => cases hstep

lemma standing_step (hbudget : config.maxInstructions ≠ 0) (h : Standing config r)
    (hstep : (heedingMachine P config).step r r') : Standing config r' := by
  obtain ⟨input, hheeds, hstep⟩ := hstep
  cases input with
  | instruction => exact standing_instruction hbudget h hstep
  | wait => exact standing_wait hbudget h hheeds hstep
  | deliver =>
    simp only [Run.step] at hstep
    split at hstep
    case h_1 hfailing _ =>
      cases hstep
      exact standing_goes (r := r) h hfailing (.inl rfl) (fun hl => .goes (.inl rfl) hl)
        (fun left hl => .goes left (by rw [Nat.add_zero]) hl) (by simp)
    case h_2 => cases hstep
  | collect => exact standing_collect h hstep
  | unwind => exact standing_unwind h hstep

lemma heedingMachine_standing (hbudget : config.maxInstructions ≠ 0)
    (h : (heedingMachine P config).Reachable r) : Standing config r :=
  h.invariant (fun _ => standing_initial (P := P)) fun _ _ _ => standing_step hbudget

/-! ## After the allowance -/

/-- What is left of a VM whose allowance is used up: it has executed nothing more, and has left
frames without running a rescue or an ensure body (the log records each). -/
structure Dying (r r' : Run V) : Prop where
  executed : r'.executedAfter = r.executedAfter
  log : r'.vm.log = r.vm.log
  frames : r'.vm.frames <:+ r.vm.frames

lemma dying_step {number} (hfailing : r.failing = some (.resourceExhausted, number))
    (hstep : (runMachine P config).step r r') :
    Dying r r' ∧ r'.failing = some (.resourceExhausted, number) := by
  obtain ⟨input, hstep⟩ := hstep
  cases input with
  | unwind =>
    simp only [Run.step, hfailing] at hstep
    split at hstep
    case h_1 frame rest hsame hframes =>
      cases hsame
      cases hstep
      rw [unwind_uncatchable rfl]
      refine ⟨⟨rfl, rfl, ?_⟩, hfailing⟩
      rw [hframes]
      exact List.suffix_cons frame rest
    case h_2 => cases hstep
  | instruction | wait | deliver | collect => simp [Run.step, hfailing] at hstep

lemma dying_run {number} (hfailing : r.failing = some (.resourceExhausted, number))
    (hrun : Relation.ReflTransGen (runMachine P config).step r r') :
    Dying r r' ∧ r'.failing = some (.resourceExhausted, number) := by
  induction hrun with
  | refl => exact ⟨⟨rfl, rfl, List.suffix_rfl⟩, hfailing⟩
  | tail _ hlast ih =>
    obtain ⟨hdying, hsame⟩ := ih
    obtain ⟨hstep, hsame'⟩ := dying_step hsame hlast
    exact ⟨⟨hstep.executed.trans hdying.executed, hstep.log.trans hdying.log,
      hstep.frames.trans hdying.frames⟩, hsame'⟩

/-- Whatever the program does, as long as it heeds its hard stop a VM with an instruction budget
raises the ResourceLimitError of its instruction and wall-clock budgets at most once, executes at
most its grace allowance of further instructions after it, and once the allowance is used up
executes nothing and only leaves frames, without running a rescue or an ensure body of any of
them. -/
theorem grace_enforced (hbudget : config.maxInstructions ≠ 0)
    (h : (heedingMachine P config).Reachable r) : r.raised ≤ 1 ∧ r.executedAfter ≤ config.grace ∧
      (r.exhausted = true →
        ∀ r', Relation.ReflTransGen (runMachine P config).step r r' → Dying r r') := by
  cases heedingMachine_standing hbudget h with
  | soft _ _ _ hexhausted | grace _ _ _ hexhausted =>
    refine ⟨by omega, by omega, fun htrue => ?_⟩
    rw [hexhausted] at htrue
    cases htrue
  | exhausted _ hraised _ hafter hfailing =>
    exact ⟨hraised, hafter, fun _ r' hrun => (dying_run hfailing hrun).1⟩

/-- A rescue whose body never ends. -/
def stubborn : Program Unit := ⟨[[.pushRescue [] true 2, .other false, .jump 2]], fun _ _ => true⟩

def stubbornBudget : Config := ⟨1000, 2, 10, 0, 0, 0⟩

def stubbornRun : Run Unit :=
  ⟨Unwind.startVm 0,
    { vmInit stubbornBudget with budgetsRegistered := true, startTimeNs := 0 }, none, 0, 0, false⟩

/-- A wait goes over the wall-clock budget; the rescue body executes its two instructions, and the
frame is left without running it again. -/
theorem grace_enforced_stubborn :
    ∃ r : Run Unit, r.exhausted = true ∧ r.raised = 1 ∧ r.executedAfter = 2 ∧
      ∀ r', Relation.ReflTransGen (runMachine stubborn stubbornBudget).step r r' → Dying r r' := by
  have hrun : (List.foldlM (fun (r : Run Unit) (input : Input Unit) =>
      if r.Heeds input then r.step stubborn input else none) stubbornRun
      [.instruction ⟨1, 0, 0, 0⟩ 0 false (.next ()), .wait ⟨1, 0, 0, 0⟩ 0 false 20 false,
        .unwind ⟨1, 0, 0, 0⟩ 0 (), .instruction ⟨1, 0, 0, 0⟩ 20 false (.next ()),
        .instruction ⟨1, 0, 0, 0⟩ 20 false (.next ()),
        .instruction ⟨1, 0, 0, 0⟩ 20 false (.next ())]).any
      (fun r => r.exhausted && decide (r.raised = 1) && decide (r.executedAfter = 2)) = true := by
    decide +kernel
  obtain ⟨r, hr, hfacts⟩ := (Option.any_eq_true _ _).1 hrun
  have hstart : (heedingMachine stubborn stubbornBudget).Reachable stubbornRun :=
    .start ⟨0, 0, rfl⟩
  have hreachable : (heedingMachine stubborn stubbornBudget).Reachable r := by
    refine hstart.run (fun _ input _ hstep => ?_) hr
    rw [Option.ite_none_right_eq_some] at hstep
    exact ⟨input, hstep⟩
  simp only [Bool.and_eq_true, decide_eq_true_eq] at hfacts
  obtain ⟨⟨hexhausted, hraised⟩, hafter⟩ := hfacts
  exact ⟨r, hexhausted, hraised, hafter, (grace_enforced (by decide) hreachable).2.2 hexhausted⟩

/-- The rescue body waits in a rendezvous send until its wall-clock allowance is over, but the value
has been taken by then.  The hard stop is dropped with its limits, and the body runs on. -/
theorem hard_stop_dropped :
    ∃ r : Run Unit, (runMachine stubborn stubbornBudget).Reachable r ∧ r.raised = 1 ∧
      stubbornBudget.grace < r.executedAfter := by
  have hrun : (List.foldlM (Run.step stubborn) stubbornRun
      [.instruction ⟨1, 0, 0, 0⟩ 0 false (.next ()), .wait ⟨1, 0, 0, 0⟩ 0 false 20 false,
        .unwind ⟨1, 0, 0, 0⟩ 0 (), .wait ⟨1, 0, 0, 0⟩ 20 false (2 ^ 60) true,
        .instruction ⟨1, 0, 0, 0⟩ (2 ^ 60) false (.next ()),
        .instruction ⟨1, 0, 0, 0⟩ (2 ^ 60) false (.next ()),
        .instruction ⟨1, 0, 0, 0⟩ (2 ^ 60) false (.next ())]).any
      (fun r => decide (r.raised = 1) && decide (stubbornBudget.grace < r.executedAfter)) = true := by
    decide +kernel
  obtain ⟨r, hr, hfacts⟩ := (Option.any_eq_true _ _).1 hrun
  have hstart : (runMachine stubborn stubbornBudget).Reachable stubbornRun := .start ⟨0, 0, rfl⟩
  simp only [Bool.and_eq_true, decide_eq_true_eq] at hfacts
  exact ⟨r, hstart.run (fun _ input _ hstep => ⟨input, hstep⟩) hr, hfacts⟩

end Diamond.Budget
