import Diamond.Budget.Conservation
import Mathlib.Algebra.BigOperators.Ring.Finset

/-!
# How far a process runs on when its instruction budget is exceeded

A VM learns that the total is over the budget at its next flush and has its grace allowance from
then on.  What it can still execute is bounded (`potential`), so a process that starts no VM any
more runs on for at most this much times the number of its live threads (`executedAfter_bounded`).
Nothing stops a VM that is started later, and each has an allowance of its own.
-/

namespace Diamond.Budget

open Function Nat Finset DiamondVm Status Process Phase Option

attribute [local simp] Process.dispatch

variable {config : Config} {limit : ℕ} {s t : Process} {v : ℕ} {vm : DiamondVm}
  {counters : Counters} {nowNs : ℤ}

/-! ## What one VM can still execute -/

/-- The instruction at which the grace allowance ends; the count of a VM's instructions stays below
`sizeMod`. -/
def DiamondVm.graceEnd (vm : DiamondVm) : ℕ :=
  if vm.hardStopInstructionCount = 0 then sizeMod - 1 else vm.hardStopInstructionCount

/-- The instructions a VM can execute while the total is over the budget: those up to its next flush
and its grace allowance, or what is left of the allowance. -/
def DiamondVm.potential (vm : DiamondVm) : ℕ :=
  if vm.resourceGraceActive then vm.graceEnd - vm.instructionsExecuted
  else clockCheckInterval - 1 - vm.instructionsExecuted % clockCheckInterval + vm.grace

def Config.allowance (config : Config) : ℕ :=
  clockCheckInterval - 1 +
    if config.graceInstructions ≠ 0 then config.graceInstructions else instructionGrace

/-- A VM that took its budgets from `config`, in its soft phase or in its grace allowance. -/
structure Configured (config : Config) (vm : DiamondVm) : Prop where
  grace : vm.graceInstructions = config.graceInstructions
  soft : vm.resourceGraceActive = false → vm.maxInstructions = config.maxInstructions
  disarmed : vm.resourceGraceActive = true → vm.maxWallNanoseconds = 0
  potential_le : vm.potential ≤ config.allowance

lemma Configured.of_fields {vm'} (h : Configured config vm)
    (hgrace : vm'.graceInstructions = vm.graceInstructions)
    (hmax : vm'.maxInstructions = vm.maxInstructions)
    (hwall : vm'.maxWallNanoseconds = vm.maxWallNanoseconds)
    (hactive : vm'.resourceGraceActive = vm.resourceGraceActive)
    (hpotential : vm'.potential ≤ vm.potential) : Configured config vm' where
  grace := hgrace.trans h.grace
  soft := by
    rw [hactive, hmax]
    exact h.soft
  disarmed := by
    rw [hactive, hwall]
    exact h.disarmed
  potential_le := hpotential.trans h.potential_le

lemma configured_vmInit : Configured config (vmInit config) where
  grace := rfl
  soft := fun _ => rfl
  disarmed := by simp [vmInit]
  potential_le := le_rfl

lemma DiamondVm.grace_pos (vm : DiamondVm) : 0 < vm.grace := by
  rw [grace]
  split
  · next hset => exact pos_of_ne_zero hset
  · decide

lemma potential_resourceLimitTrip (hmax : vm.maxInstructions ≠ 0) :
    (resourceLimitTrip vm nowNs).potential ≤ vm.grace := by
  have htrip : (resourceLimitTrip vm nowNs).potential =
      (if (vm.instructionsExecuted + vm.grace) % sizeMod = 0 then sizeMod - 1
        else (vm.instructionsExecuted + vm.grace) % sizeMod) - vm.instructionsExecuted := by
    simp [potential, graceEnd, resourceLimitTrip, hmax]
  have hpos := vm.grace_pos
  rw [htrip]
  split
  · next hzero =>
    -- The sum wrapped to zero, which disarms the hard stop; the count itself ends before that.
    have hle : sizeMod ≤ vm.instructionsExecuted + vm.grace :=
      le_of_dvd (by omega) (dvd_of_mod_eq_zero hzero)
    omega
  · have hle := mod_le (vm.instructionsExecuted + vm.grace) sizeMod
    omega

lemma grace_le_potential (hsoft : vm.resourceGraceActive = false) : vm.grace ≤ vm.potential := by
  rw [potential, if_neg (by simp [hsoft])]
  exact Nat.le_add_left ..

lemma grace_le_allowance (h : vm.graceInstructions = config.graceInstructions) :
    vm.grace ≤ config.allowance := by
  rw [grace, h, Config.allowance]
  exact Nat.le_add_left ..

lemma configured_resourceLimitTrip (h : Configured config vm) (hmax : vm.maxInstructions ≠ 0) :
    Configured config (resourceLimitTrip vm nowNs) where
  grace := h.grace
  soft := fun hsoft => absurd hsoft (by simp [resourceLimitTrip])
  disarmed := fun _ => rfl
  potential_le := (potential_resourceLimitTrip hmax).trans (grace_le_allowance h.grace)

/-! ## The checks before an instruction -/

/-- What a check does to a VM that goes on: it may trip; over the budget it pays for the instruction
it lets through. -/
structure Pays (config : Config) (exceeded : Prop) (vm vm' : DiamondVm) (status : Status) :
    Prop where
  configured : status.next = .running → Configured config vm'
  paid : status.next = .running → exceeded →
    vm'.potential + (if status = .ok then 1 else 0) ≤ vm.potential

lemma pays_graceCheck (h : Configured config vm) (hactive : vm.resourceGraceActive = true)
    (hbelow : vm.instructionsExecuted + 1 < sizeMod) (exceeded : Prop) (nowNs : ℤ) :
    Pays config exceeded vm
      (graceCheck { vm with instructionsExecuted := vm.instructionsExecuted + 1 } nowNs).1
      (graceCheck { vm with instructionsExecuted := vm.instructionsExecuted + 1 } nowNs).2 := by
  rw [graceCheck]
  split
  · exact ⟨by simp [next], by simp [next]⟩
  · next hstop =>
    split
    · exact ⟨by simp [next], by simp [next]⟩
    have hroom : vm.instructionsExecuted + 1 ≤ vm.graceEnd := by
      rw [graceEnd]
      split
      · omega
      · next hset =>
        by_contra hover
        exact hstop ⟨hset, not_le.1 hover⟩
    have hpotential : ({ vm with instructionsExecuted := vm.instructionsExecuted + 1 } :
        DiamondVm).potential + 1 ≤ vm.potential := by
      simp only [potential, graceEnd, hactive, if_true] at hroom ⊢
      omega
    refine ⟨fun _ => h.of_fields rfl rfl rfl rfl (le_of_succ_le hpotential), fun _ _ => ?_⟩
    simpa using hpotential

lemma potential_counted (hsoft : vm.resourceGraceActive = false)
    (hbetween : (vm.instructionsExecuted + 1) % clockCheckInterval ≠ 0) :
    ({ vm with instructionsExecuted := vm.instructionsExecuted + 1 } : DiamondVm).potential + 1 ≤
      vm.potential := by
  simp only [potential, hsoft, Bool.false_eq_true, if_false, grace,
    clockCheckInterval] at hbetween ⊢
  omega

lemma configured_soft (hgrace : vm.graceInstructions = config.graceInstructions)
    (hsoft : vm.resourceGraceActive = false) (hmax : vm.maxInstructions = config.maxInstructions) :
    Configured config vm where
  grace := hgrace
  soft := fun _ => hmax
  disarmed := by simp [hsoft]
  potential_le := by
    rw [potential, if_neg (by simp [hsoft]), grace, hgrace, Config.allowance]
    exact Nat.add_le_add_right (sub_le ..) _

lemma configured_wallCheck (h : Configured config vm) (hmax : vm.maxInstructions ≠ 0) :
    Configured config (wallCheck vm nowNs).1 := by
  rw [wallCheck]
  split
  · exact configured_resourceLimitTrip h hmax
  · exact h

lemma wallCheck_between (hbetween : vm.instructionsExecuted % clockCheckInterval ≠ 0) :
    wallCheck vm nowNs = (vm, .ok) := by
  rw [wallCheck, if_neg]
  rintro ⟨-, hcheck, -⟩
  exact hbetween hcheck

section
variable (h : Configured config vm)
include h

/-- In the soft phase a VM pays for an instruction, or it trips if the total is over the budget. -/
lemma pays_softCheck (hsoft : vm.resourceGraceActive = false)
    (hbudget : config.maxInstructions ≠ 0) :
    Pays config (counters.budgetInstructions > config.maxInstructions) vm
      (softCheck { vm with instructionsExecuted := vm.instructionsExecuted + 1 } counters nowNs).1
      (softCheck { vm with
        instructionsExecuted := vm.instructionsExecuted + 1 } counters nowNs).2.2 := by
  have hmax := h.soft hsoft
  have hset : vm.maxInstructions ≠ 0 := hmax ▸ hbudget
  have hcounted : Configured config { vm with
      instructionsExecuted := vm.instructionsExecuted + 1
      instructionsFlushed := vm.instructionsExecuted + 1 } := configured_soft h.grace hsoft hmax
  by_cases hcheck : (vm.instructionsExecuted + 1) % clockCheckInterval = 0
  · rw [softCheck, if_pos ⟨hset, hcheck⟩]
    dsimp only [instructionBudgetExceeded]
    split
    · refine ⟨fun _ => configured_resourceLimitTrip hcounted hset, fun _ _ => ?_⟩
      simp only [reduceCtorEq, if_false, add_zero]
      exact le_trans (potential_resourceLimitTrip hset) (grace_le_potential hsoft)
    · next hwithin =>
      refine ⟨fun _ => configured_wallCheck hcounted hset, fun _ hexceeded => ?_⟩
      -- The total was over the budget before this VM added to it.
      rw [decide_eq_true_eq, hmax] at hwithin
      omega
  · rw [softCheck, if_neg (fun hboth => hcheck hboth.2), wallCheck_between hcheck]
    have hpotential := potential_counted hsoft hcheck
    refine ⟨fun _ => h.of_fields rfl rfl rfl rfl (le_of_succ_le hpotential), fun _ _ => ?_⟩
    simpa using hpotential

lemma pays_dispatchCheck (hbudget : config.maxInstructions ≠ 0)
    (hbelow : vm.instructionsExecuted + 1 < sizeMod) (counters : Counters) (nowNs : ℤ)
    (interrupt : Bool) : Pays config (counters.budgetInstructions > config.maxInstructions) vm
      (dispatchCheck vm counters nowNs interrupt).1
      (dispatchCheck vm counters nowNs interrupt).2.2 := by
  rw [dispatchCheck]
  split
  · exact ⟨by simp [next], by simp [next]⟩
  · split
    · next hactive => exact pays_graceCheck h hactive hbelow _ _
    · next hsoft => exact pays_softCheck h (by simpa using hsoft) hbudget

lemma pays_wallBudgetAfterWait (hbudget : config.maxInstructions ≠ 0)
    (hgoes : (wallBudgetAfterWait vm nowNs).2 ≠ .resourceExhausted) :
    Configured config (wallBudgetAfterWait vm nowNs).1 ∧
      (wallBudgetAfterWait vm nowNs).1.potential ≤ vm.potential := by
  rw [wallBudgetAfterWait] at hgoes ⊢
  split
  · exact ⟨h, le_rfl⟩
  · next hover =>
    rw [if_neg hover] at hgoes
    split
    · next hwall =>
      have hsoft : vm.resourceGraceActive = false := by
        by_contra hactive
        exact hwall (h.disarmed (by simpa using hactive))
      have hset : vm.maxInstructions ≠ 0 := h.soft hsoft ▸ hbudget
      exact ⟨configured_resourceLimitTrip h hset,
        (potential_resourceLimitTrip hset).trans (grace_le_potential hsoft)⟩
    · next hdisarmed =>
      rw [if_neg hdisarmed] at hgoes
      exact absurd rfl hgoes

lemma configured_maybeCollect (counters : Counters) (bytes : ℕ) :
    Configured config (maybeCollect vm counters bytes).1 ∧
      (maybeCollect vm counters bytes).1.potential = vm.potential := by
  rw [maybeCollect]
  split
  · dsimp only
    split
    · exact ⟨h.of_fields rfl rfl rfl rfl le_rfl, rfl⟩
    · split
      all_goals exact ⟨h.of_fields rfl rfl rfl rfl le_rfl, rfl⟩
  · exact ⟨h.of_fields rfl rfl rfl rfl le_rfl, rfl⟩

end

/-! ## What the process can still execute -/

def Phase.active : Phase → Bool
  | .entering _ | .running => true
  | _ => false

def Process.weight (s : Process) (v : ℕ) : ℕ :=
  if (s.phases v).active then (s.vms v).potential else 0

attribute [local simp] Process.weight

def Process.thread (s : Process) (v : ℕ) : ℕ := if (s.phases v).active then 1 else 0

attribute [local simp] Process.thread

/-- The VM heeds its hard stop: if the status of a wait is dropped, it is not `resourceExhausted`,
with which `resource_hard_stop` takes back the limits of the allowance. -/
def Process.Heeds (s : Process) (v : ℕ) : Action → Prop
  | .wait nowNs true => (wallBudgetAfterWait (s.vms v) nowNs).2 ≠ .resourceExhausted
  | _ => True

instance (s : Process) (v : ℕ) (action : Action) : Decidable (s.Heeds v action) := by
  unfold Process.Heeds
  split <;> infer_instance

structure Alone (v : ℕ) (s t : Process) : Prop where
  count : t.count = s.count
  vms : ∀ u ≠ v, t.vms u = s.vms u
  phases : ∀ u ≠ v, t.phases u = s.phases u

lemma Changes.alone (h : Changes v s t) : Alone v s t := ⟨h.count, h.vms, h.phases⟩

/-- A step of VM `v`: it pays for what it executes over the budget. -/
structure Spends (config : Config) (v : ℕ) (s t : Process) : Prop where
  configured : (t.phases v).active = true → Configured config (t.vms v)
  threads : t.liveThreads + s.thread v = s.liveThreads + t.thread v
  paid : s.Exceeded config → t.executedAfter + t.weight v ≤ s.executedAfter + s.weight v
  unpaid : ¬s.Exceeded config → t.executedAfter = s.executedAfter

/-- What holds in every state of a process that starts no VM over its budget. -/
structure Bounded (config : Config) (limit : ℕ) (s : Process) : Prop where
  configured : ∀ v < s.count, (s.phases v).active = true → Configured config (s.vms v)
  threads : s.liveThreads = ∑ v ∈ Finset.range s.count, s.thread v
  limited : s.liveThreads ≤ limit
  resets : ∀ v < s.count, s.phases v = .entering true → ¬s.Exceeded config
  paid : s.Exceeded config →
    s.executedAfter + ∑ v ∈ Finset.range s.count, s.weight v ≤ limit * config.allowance
  unpaid : ¬s.Exceeded config → s.executedAfter = 0

/-- The threads that run can together execute at most their number times the allowance. -/
lemma sum_weight_le (hconfigured : ∀ v < s.count, (s.phases v).active = true →
    Configured config (s.vms v)) (hthreads : s.liveThreads = ∑ v ∈ range s.count, s.thread v) :
    ∑ v ∈ range s.count, s.weight v ≤ s.liveThreads * config.allowance := by
  rw [hthreads, sum_mul]
  apply sum_le_sum
  intro v hv
  rw [weight, thread]
  split
  · next hactive =>
    rw [one_mul]
    exact (hconfigured v (mem_range.1 hv) hactive).potential_le
  · exact zero_le _

lemma Alone.weight (h : Alone v s t) {u} (hu : u ≠ v) : t.weight u = s.weight u := by
  rw [Process.weight, Process.weight, h.vms u hu, h.phases u hu]

lemma Alone.thread (h : Alone v s t) {u} (hu : u ≠ v) : t.thread u = s.thread u := by
  rw [Process.thread, Process.thread, h.phases u hu]

lemma Bounded.step (h : Bounded config limit s) (hv : v < s.count) (halone : Alone v s t)
    (hspends : Spends config v s t) (hlimited : t.liveThreads ≤ s.liveThreads)
    (hmono : s.Exceeded config → t.Exceeded config)
    (hresets : ∀ u < t.count, t.phases u = .entering true → ¬t.Exceeded config) :
    Bounded config limit t := by
  have hmem : v ∈ range s.count := mem_range.2 hv
  have hconfigured : ∀ u < t.count, (t.phases u).active = true → Configured config (t.vms u) := by
    intro u hu hactive
    by_cases hsame : u = v
    · subst hsame
      exact hspends.configured hactive
    · rw [halone.phases u hsame] at hactive
      rw [halone.vms u hsame]
      exact h.configured u (halone.count ▸ hu) hactive
  have hthreads : t.liveThreads = ∑ u ∈ range t.count, t.thread u := by
    have hsum := sum_change hmem fun u _ hu => halone.thread hu
    have hbefore := h.threads
    have hone := hspends.threads
    rw [halone.count]
    omega
  refine ⟨hconfigured, hthreads, hlimited.trans h.limited, hresets, ?_, ?_⟩
  · intro hexceeded
    by_cases hbefore : s.Exceeded config
    · have hsum := sum_change hmem fun u _ hu => halone.weight hu
      have hpaid := hspends.paid hbefore
      have hall := h.paid hbefore
      rw [halone.count]
      omega
    · rw [hspends.unpaid hbefore, h.unpaid hbefore, zero_add]
      refine (sum_weight_le hconfigured hthreads).trans ?_
      exact mul_le_mul_right _ (hlimited.trans h.limited)
  · intro hwithin
    have hbefore : ¬s.Exceeded config := fun hexceeded => hwithin (hmono hexceeded)
    rw [hspends.unpaid hbefore, h.unpaid hbefore]

/-! ## The steps of one VM -/

lemma Bounded.live_pos (h : Bounded config limit s) (hv : v < s.count)
    (hactive : (s.phases v).active = true) : 0 < s.liveThreads := by
  have hle := single_le_sum (f := s.thread) (fun u _ => zero_le _) (mem_range.2 hv)
  have hone : s.thread v = 1 := by simp [hactive]
  have hthreads := h.threads
  omega

lemma Status.next_cases (status : Status) : status.next = .running ∨
    status.next = .ended ∧ status ≠ .ok := by
  cases status <;> simp [next]

section
variable (h : Bounded config limit s)
include h

lemma spends_of_next {status : Status} (hv : v < s.count)
    (hphase : s.phases v = .running) (hnext : t.phases v = status.next) (hthreads : t.liveThreads =
      if status.next = .ended then s.liveThreads - 1 else s.liveThreads)
    (hconfigured : status.next = .running → Configured config (t.vms v))
    (hpaid : status.next = .running → s.Exceeded config →
      t.executedAfter + (t.vms v).potential ≤ s.executedAfter + (s.vms v).potential)
    (hstopped : status.next = .ended → t.executedAfter = s.executedAfter)
    (hunpaid : ¬s.Exceeded config → t.executedAfter = s.executedAfter) : Spends config v s t := by
  have hactive : (s.phases v).active = true := by simp [hphase, active]
  have hlive := h.live_pos hv hactive
  rcases status.next_cases with hrunning | ⟨hended, -⟩
  · rw [hrunning] at hnext
    refine ⟨fun _ => hconfigured hrunning, ?_, fun hexceeded => ?_, hunpaid⟩
    · simp [hthreads, hrunning, hnext, hphase]
    · simpa [hnext, hphase, active] using hpaid hrunning hexceeded
  rw [hended] at hnext
  refine ⟨?_, ?_, fun _ => ?_, hunpaid⟩
  · simp [hnext, active]
  · simp [hthreads, hended, hnext, hphase, active]
    omega
  · simp [hnext, active, hstopped hended]

section
variable (hbudget : config.maxInstructions ≠ 0) (hv : v < s.count) (hphase : s.phases v = .running)
include hbudget hv hphase

lemma spends_dispatch (hbelow : (s.vms v).instructionsExecuted + 1 < sizeMod) (interrupt : Bool) :
    Spends config v s (s.dispatch config v nowNs interrupt) := by
  have hpays := pays_dispatchCheck (h.configured v hv (by simp [hphase, active])) hbudget
    hbelow s.counters nowNs interrupt
  have hvm : (s.dispatch config v nowNs interrupt).vms v =
      (dispatchCheck (s.vms v) s.counters nowNs interrupt).1 := update_self ..
  have hnext : (s.dispatch config v nowNs interrupt).phases v =
      (dispatchCheck (s.vms v) s.counters nowNs interrupt).2.2.next := update_self ..
  refine spends_of_next h hv hphase hnext rfl ?_ ?_ ?_ ?_
  · rw [hvm]
    exact hpays.configured
  · intro hrunning hexceeded
    have hpaid := hpays.paid hrunning hexceeded
    rw [hvm]
    simp only [dispatch, hexceeded, and_true]
    split
    · next hok =>
      rw [if_pos hok] at hpaid
      omega
    · next hok =>
      rw [if_neg hok] at hpaid
      omega
  · intro hended
    have hstatus : (dispatchCheck (s.vms v) s.counters nowNs interrupt).2.2 ≠ .ok := by
      intro hok
      rw [hok] at hended
      cases hended
    simp [hstatus]
  · intro hwithin
    simp [hwithin]

lemma spends_wait {taken} (hheeds : s.Heeds v (.wait nowNs taken)) :
    Spends config v s (s.wait v nowNs taken) := by
  have hconfigured := h.configured v hv (by simp [hphase, active])
  have hvm : (s.wait v nowNs taken).vms v = (wallBudgetAfterWait (s.vms v) nowNs).1 :=
    update_self ..
  have hnext : (s.wait v nowNs taken).phases v =
      (if taken then .ok else (wallBudgetAfterWait (s.vms v) nowNs).2 : Status).next :=
    update_self ..
  have hgoes : (if taken then .ok else (wallBudgetAfterWait (s.vms v) nowNs).2 : Status).next =
      .running → (wallBudgetAfterWait (s.vms v) nowNs).2 ≠ .resourceExhausted := by
    cases taken with
    | true => exact fun _ => hheeds
    | false =>
      intro hrunning hstop
      rw [if_neg (by simp), hstop] at hrunning
      cases hrunning
  refine spends_of_next h hv hphase hnext rfl ?_ ?_ (fun _ => rfl) (fun _ => rfl)
  · intro hrunning
    rw [hvm]
    exact (pays_wallBudgetAfterWait hconfigured hbudget (hgoes hrunning)).1
  · intro hrunning _
    rw [hvm]
    exact Nat.add_le_add_left (pays_wallBudgetAfterWait hconfigured hbudget (hgoes hrunning)).2 _

end

lemma spends_collect (hv : v < s.count)
    (hphase : s.phases v = .running) (bytes : ℕ) : Spends config v s (s.collect v bytes) := by
  obtain ⟨hconfigured, hpotential⟩ := configured_maybeCollect
    (h.configured v hv (by simp [hphase, active])) s.counters bytes
  have hvm : (s.collect v bytes).vms v = (maybeCollect (s.vms v) s.counters bytes).1 :=
    update_self ..
  have hphases : (s.collect v bytes).phases = s.phases := rfl
  refine ⟨fun _ => hvm ▸ hconfigured, ?_, fun _ => ?_, fun _ => rfl⟩
  · simp [hphases]
    rfl
  · simp only [weight, hphases, hvm, hpotential]
    exact le_rfl

end

lemma spends_of_inactive (hbefore : (s.phases v).active = false)
    (hafter : (t.phases v).active = false) (hthreads : t.liveThreads = s.liveThreads)
    (hexecuted : t.executedAfter = s.executedAfter) : Spends config v s t := by
  refine ⟨?_, ?_, fun _ => ?_, fun _ => hexecuted⟩
  · simp [hafter]
  · simp [hbefore, hafter, hthreads]
  · simp [hbefore, hafter, hexecuted]

/-! ## Processes that start no VM over their budget -/

def StartsWithin (config : Config) (s : Process) (action : Action) : Prop :=
  action = .enter → ¬s.Exceeded config

instance (config : Config) (s : Process) (action : Action) :
    Decidable (StartsWithin config s action) :=
  inferInstanceAs (Decidable (_ → _))

def startingMachine (config : Config) (limit : ℕ) : Machine Process where
  initial := (machine config limit).initial
  step s t := ∃ v action, StartsWithin config s action ∧ s.Heeds v action ∧
    perform config limit s v action = some t

lemma bounded_start : Bounded config limit (start config) := by
  constructor <;> simp [start, Process.Exceeded]

lemma bounded_enter (h : Bounded config limit s) (hlimit : s.liveThreads < limit)
    (hwithin : ¬s.Exceeded config) : Bounded config limit (s.enter config) := by
  have hsame : ¬(s.enter config).Exceeded config := hwithin
  refine ⟨?_, ?_, hlimit, fun _ _ _ => hsame, fun hexceeded => absurd hexceeded hsame,
    fun _ => h.unpaid hwithin⟩
  · intro u hu hactive
    by_cases hnew : u = s.count
    · subst hnew
      rw [enter_vm]
      exact configured_vmInit
    · rw [(enter_other s hnew).2] at hactive
      rw [(enter_other s hnew).1]
      exact h.configured u (lt_of_le_of_ne (le_of_lt_succ hu) hnew) hactive
  · have hsum : ∑ u ∈ range s.count, (s.enter config).thread u =
        ∑ u ∈ range s.count, s.thread u := by
      apply sum_congr rfl
      intro u hu
      rw [thread, thread, (enter_other s (mem_range.1 hu).ne).2]
    change s.liveThreads + 1 = ∑ u ∈ range (s.count + 1), _
    rw [sum_range_succ, hsum, ← h.threads]
    simp [Phase.active]

/-- A registration changes neither what a VM may execute nor, unless it is the first, the total. -/
lemma spends_register (h : Bounded config limit s) (hv : v < s.count) {first}
    (hphase : s.phases v = .entering first) : Spends config v s (s.register v first nowNs) := by
  have hconfigured := h.configured v hv (by simp [hphase, Phase.active])
  have hrunning : (s.register v first nowNs).phases v = .running := update_self ..
  have hpotential : ((s.register v first nowNs).vms v).potential = (s.vms v).potential := by
    simp [register, potential, graceEnd, grace]
  refine ⟨fun _ => ?_, ?_, fun _ => ?_, fun _ => rfl⟩
  · refine hconfigured.of_fields ?_ ?_ ?_ ?_ hpotential.le <;> simp [register]
  · simp [hrunning, hphase, Phase.active]
    rfl
  · simp [hrunning, hphase, Phase.active, hpotential]
    rfl

lemma softCheck_mono :
    counters.budgetInstructions ≤ (softCheck vm counters nowNs).2.1.budgetInstructions := by
  rw [softCheck]
  split
  · dsimp only [instructionBudgetExceeded]
    split
    all_goals exact Nat.le_add_right ..
  · exact le_rfl

lemma dispatchCheck_mono (vm : DiamondVm) (counters : Counters) (nowNs : ℤ) (interrupt : Bool) :
    counters.budgetInstructions ≤
      (dispatchCheck vm counters nowNs interrupt).2.1.budgetInstructions := by
  rw [dispatchCheck]
  split
  · exact le_rfl
  · split
    · exact le_rfl
    · exact softCheck_mono

lemma Performed.spends {action} (hbudget : config.maxInstructions ≠ 0)
    (h : Bounded config limit s) (hheeds : s.Heeds v action)
    (hperformed : Performed config limit s v action t) (henter : action ≠ .enter) :
    Spends config v s t ∧ t.liveThreads ≤ s.liveThreads ∧
      (s.phases v ≠ .entering true →
        s.counters.budgetInstructions ≤ t.counters.budgetInstructions) := by
  cases hperformed with
  | enter => exact absurd rfl henter
  | @register nowNs first hv hphase =>
    refine ⟨spends_register h hv hphase, le_rfl, fun hother => ?_⟩
    cases first with
    | true => exact absurd hphase hother
    | false => exact (registerCounters_spec (s.vms v) s.counters false nowNs).2.1.ge
  | dispatch hv hphase hbelow =>
    refine ⟨spends_dispatch h hbudget hv hphase hbelow _, ?_, fun _ => dispatchCheck_mono ..⟩
    dsimp only [Process.dispatch]
    split <;> omega
  | wait hv hphase =>
    refine ⟨spends_wait h hbudget hv hphase hheeds, ?_, fun _ => le_rfl⟩
    simp only [Process.wait]
    generalize Status.next _ = phase
    split <;> omega
  | @collect bytes hv hphase =>
    exact ⟨spends_collect h hv hphase _, le_rfl,
      fun _ => (maybeCollect_spec (s.vms v) s.counters bytes).2.2.1.ge⟩
  | finish hv hphase =>
    refine ⟨?_, sub_le .., fun _ => le_rfl⟩
    have hlive := h.live_pos hv (by simp [hphase, Phase.active])
    refine ⟨by simp [Phase.active], ?_, fun _ => ?_, fun _ => rfl⟩
    · simp [hphase, Phase.active]
      omega
    · simp only [weight, setPhase_phases, Phase.active, Bool.false_eq_true, if_false]
      exact Nat.le_add_right ..
  | releaseInstructions _ hphase =>
    refine ⟨spends_of_inactive ?_ ?_ rfl rfl, le_rfl, fun _ => Nat.le_add_right ..⟩
    · simp [hphase, Phase.active]
    · simp [Process.releaseInstructions, Phase.active]
  | releaseBytes _ hphase =>
    refine ⟨spends_of_inactive ?_ ?_ rfl rfl, le_rfl, fun _ => le_rfl⟩
    · simp [hphase, Phase.active]
    · simp [Process.releaseBytes, Phase.active]
  | unregisterInstructions _ hphase =>
    refine ⟨spends_of_inactive ?_ ?_ rfl rfl, le_rfl, fun _ => Nat.le_add_right ..⟩
    · rcases hphase with hphase | hphase <;> simp [hphase, Phase.active]
    · simp [Phase.active]
  | unregisterBytes _ hphase | unregister _ hphase =>
    refine ⟨spends_of_inactive ?_ ?_ rfl rfl, le_rfl, fun _ => le_rfl⟩
    · simp [hphase, Phase.active]
    · simp [Phase.active]

lemma Changes.no_reset (h : Changes v s t) (haccounted : Accounted s) (hv : v < s.count)
    (hphase : s.phases v ≠ .entering true) {u} (hu : u < t.count) :
    t.phases u ≠ .entering true := by
  intro hentering
  have hne : u ≠ v := by
    rintro rfl
    exact h.settled true hentering
  rw [h.phases u hne] at hentering
  obtain ⟨hlast, hgone⟩ := haccounted.first (h.count ▸ hu) hentering
  exact h.present (hgone v (by omega))

lemma bounded_step {action} (hbudget : config.maxInstructions ≠ 0)
    (h : Bounded config limit s) (hsane : Sane s) (haccounted : Accounted s)
    (hstarts : StartsWithin config s action) (hheeds : s.Heeds v action)
    (hperformed : Performed config limit s v action t) : Bounded config limit t := by
  by_cases henter : action = .enter
  · subst henter
    cases hperformed with
    | enter _ hlimit => exact bounded_enter h hlimit (hstarts rfl)
  obtain ⟨hspends, hlive, hmono⟩ := hperformed.spends hbudget h hheeds henter
  cases hperformed.accounts hsane with
  | enter haction => exact absurd haction henter
  | first nowNs hv hphase ht =>
    subst ht
    have hwithin := h.resets v hv hphase
    have hother {u : ℕ} (hu : u ≠ v) : (s.register v true nowNs).vms u = s.vms u ∧
        (s.register v true nowNs).phases u = s.phases u :=
      ⟨update_of_ne hu .., update_of_ne hu ..⟩
    have hreset : ¬(s.register v true nowNs).Exceeded config := by
      have htotal := (registerCounters_spec (s.vms v) s.counters true nowNs).2.1
      intro hexceeded
      change config.maxInstructions <
        (registerCounters (s.vms v) s.counters true nowNs).budgetInstructions at hexceeded
      rw [htotal] at hexceeded
      exact not_lt_zero _ hexceeded
    exact h.step hv ⟨rfl, fun u hu => (hother hu).1, fun u hu => (hother hu).2⟩ hspends hlive
      (fun hexceeded => absurd hexceeded hwithin) (fun _ _ _ => hreset)
  | changes hv hphase hchanges =>
    refine h.step hv hchanges.alone hspends hlive (fun hexceeded => ?_) ?_
    · exact lt_of_lt_of_le hexceeded (hmono hphase)
    · exact fun u hu hentering => absurd hentering (hchanges.no_reset haccounted hv hphase hu)

lemma startingMachine_bounded (hbudget : config.maxInstructions ≠ 0)
    (h : (startingMachine config limit).Reachable s) :
    Sane s ∧ Accounted s ∧ Bounded config limit s := by
  apply h.invariant
  · rintro s rfl
    exact ⟨sane_start, accounted_start, bounded_start⟩
  · rintro s t - ⟨hsane, haccounted, hbounded⟩ ⟨v, _, hstarts, hheeds, hstep⟩
    have hperformed := perform_cases hstep
    obtain ⟨hsane', haccounted'⟩ := performed_accounted hsane haccounted hperformed
    exact ⟨hsane', haccounted',
      bounded_step hbudget hbounded hsane haccounted hstarts hheeds hperformed⟩

/-- A budget of one instruction and an allowance of five. -/
def tinyBudget : Config := ⟨1, 5, 0, 0, 0, 0⟩

/-- The total is over the budget, and only the program itself is being run. -/
structure Idle (s : Process) : Prop where
  exceeded : s.Exceeded tinyBudget
  alone : s.liveThreads = 1
  live : 0 < s.counters.budgetLiveVms
  registered : ∀ v < s.count, s.phases v ≠ .entering true

/-- A new VM executes its first instruction whatever the total is. -/
lemma dispatchCheck_fresh (counters : Counters) (nowNs : ℤ) (hnew : vm.instructionsExecuted = 0)
    (hsoft : vm.resourceGraceActive = false) : dispatchCheck vm counters nowNs false =
      ({ vm with instructionsExecuted := vm.instructionsExecuted + 1 }, counters, .ok) := by
  have hbetween : (vm.instructionsExecuted + 1) % clockCheckInterval ≠ 0 := by
    rw [hnew]
    decide
  rw [dispatchCheck, if_neg (by simp), if_neg (by simp [hsoft]), softCheck,
    if_neg (fun hboth => hbetween hboth.2), wallCheck_between hbetween]

/-- The total is over the budget, and the VM with the last number is being run beside the program.
-/
structure Attempting (v : ℕ) (s : Process) : Prop where
  exceeded : s.Exceeded tinyBudget
  threads : s.liveThreads = 2
  live : 1 < s.counters.budgetLiveVms
  last : s.count = v + 1
  running : s.phases v = .running
  registered : ∀ u < v, s.phases u ≠ .entering true

lemma attempting_register (h : Idle s) : ∃ t, [(s.count, .enter), (s.count, .register 0)].foldlM
      (fun s (step : ℕ × Action) => perform tinyBudget 2 s step.1 step.2) s = some t ∧
    Attempting s.count t ∧ t.executedAfter = s.executedAfter ∧
    (t.vms s.count).instructionsExecuted = 0 ∧ (t.vms s.count).resourceGraceActive = false := by
  have hphase : (s.enter tinyBudget).phases s.count = .entering false := by
    simp [h.live.ne']
  have henter : perform tinyBudget 2 s s.count .enter = some (s.enter tinyBudget) := by
    simp only [perform, h.alone]
    rw [if_pos ⟨trivial, by decide, h.registered⟩]
  have hregister : perform tinyBudget 2 (s.enter tinyBudget) s.count (.register 0) =
      some ((s.enter tinyBudget).register s.count false 0) := by
    have hcount : s.count < (s.enter tinyBudget).count := lt_succ_self _
    simp only [perform, hphase, hcount, if_true]
  have hcounters := registerCounters_spec ((s.enter tinyBudget).vms s.count)
    (s.enter tinyBudget).counters false 0
  refine ⟨(s.enter tinyBudget).register s.count false 0, ?_, ?_, rfl, ?_, ?_⟩
  · simp [henter, hregister]
  · refine ⟨?_, congrArg (· + 1) h.alone, ?_, rfl, update_self .., ?_⟩
    · exact lt_of_lt_of_eq h.exceeded hcounters.2.1.symm
    · exact lt_of_lt_of_eq (succ_lt_succ h.live) hcounters.1.symm
    · intro u hu
      simp only [register]
      rw [update_of_ne hu.ne, (enter_other s hu.ne).2]
      exact h.registered u hu
  all_goals simp [register, vmInit]

lemma attempting_dispatch (h : Attempting v s) (hnew : (s.vms v).instructionsExecuted = 0)
    (hsoft : (s.vms v).resourceGraceActive = false) : ∃ t,
    perform tinyBudget 2 s v (.dispatch 0 false) = some t ∧ Attempting v t ∧
      t.executedAfter = s.executedAfter + 1 := by
  have hv : v < s.count := by
    rw [h.last]
    exact lt_succ_self v
  have hbelow : (s.vms v).instructionsExecuted + 1 < sizeMod := by
    rw [hnew]
    decide
  have hcheck := dispatchCheck_fresh s.counters 0 hnew hsoft
  refine ⟨s.dispatch tinyBudget v 0 false, ?_, ⟨?_, ?_, ?_, h.last, ?_, ?_⟩, ?_⟩
  · simp only [perform, hv, h.running, hbelow, and_self, if_true]
  · simpa [Process.Exceeded, hcheck] using h.exceeded
  · simp [hcheck, next, h.threads]
  · simpa [hcheck] using h.live
  · simp [hcheck, next]
  · intro u hu
    simp only [dispatch]
    rw [update_of_ne hu.ne]
    exact h.registered u hu
  · simp [hcheck, h.exceeded]

lemma attempting_leave (h : Attempting v s) : ∃ t,
    [(v, .finish), (v, .unregisterInstructions), (v, .unregisterBytes), (v, .unregister)].foldlM
      (fun s (step : ℕ × Action) => perform tinyBudget 2 s step.1 step.2) s = some t ∧
    Idle t ∧ t.executedAfter = s.executedAfter := by
  have hv : v < s.count := by
    rw [h.last]
    exact lt_succ_self v
  refine ⟨{ s with
    counters := { (s.counters.addInstructions (s.vms v).unflushed).subBytes
        (s.vms v).memoryPublished with budgetLiveVms := s.counters.budgetLiveVms - 1 }
    phases := Function.update s.phases v .gone
    liveThreads := s.liveThreads - 1 }, ?_, ⟨?_, ?_, ?_, ?_⟩, rfl⟩
  · simp [perform, hv, h.running, setPhase]
    rfl
  · exact lt_of_lt_of_le h.exceeded (Nat.le_add_right ..)
  · simp [h.threads]
  · exact Nat.sub_pos_of_lt h.live
  · intro u hu
    by_cases hsame : u = v
    · simp [hsame]
    have hlt : u < v := by
      have : u < s.count := hu
      have := h.last
      omega
    simpa [hsame] using h.registered u hlt

/-- Every attempt of a supervised child executes instructions, however far the total is over the
budget. -/
lemma idle_attempt (h : Idle s) (hreachable : (machine tinyBudget 2).Reachable s) :
    ∃ t, (machine tinyBudget 2).Reachable t ∧ Idle t ∧ t.executedAfter = s.executedAfter + 1 := by
  have hsteps : ∀ s (step : ℕ × Action) t, perform tinyBudget 2 s step.1 step.2 = some t →
      (machine tinyBudget 2).step s t := fun _ step _ hstep => ⟨step.1, step.2, hstep⟩
  obtain ⟨p, hp, hattempting, hexecuted, hnew, hsoft⟩ := attempting_register h
  obtain ⟨q, hq, hattempting', hexecuted'⟩ := attempting_dispatch hattempting hnew hsoft
  obtain ⟨t, ht, hidle, hexecuted''⟩ := attempting_leave hattempting'
  have hreachable' := (hreachable.run hsteps hp).next (hsteps p (_, _) q hq)
  exact ⟨t, hreachable'.run hsteps ht, hidle, by omega⟩

/-- A thread takes the total over the budget; the program waits for a supervisor. -/
lemma idle_reachable : ∃ s, (machine tinyBudget 2).Reachable s ∧ Idle s := by
  have hrun : (runOf tinyBudget 2
      [(0, .enter), (0, .register 0), (1, .enter), (1, .register 0), (1, .dispatch 0 false),
        (1, .dispatch 0 false), (1, .finish), (1, .releaseInstructions)]).any
      (fun s => decide (s.Exceeded tinyBudget) && decide (s.liveThreads = 1) &&
        (decide (0 < s.counters.budgetLiveVms) &&
          decide (∀ v < s.count, s.phases v ≠ .entering true))) = true := by
    decide +kernel
  obtain ⟨s, hs, hfacts⟩ := (any_eq_true _ _).1 hrun
  simp only [Bool.and_eq_true, decide_eq_true_eq] at hfacts
  obtain ⟨⟨hexceeded, halone⟩, hlive, hregistered⟩ := hfacts
  exact ⟨s, runOf_reachable hs, hexceeded, halone, hlive, hregistered⟩

end Diamond.Budget
