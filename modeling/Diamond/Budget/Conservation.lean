import Diamond.Budget.Process

/-!
# Nothing is counted twice or lost

Each VM has put some of its instructions into the process's total (`credited`) and some of its bytes
(`held`).  A step changes these amounts for one VM and the counters by as much (`Changes`), so the
counters stay the sums over all VMs registered since they were reset.
-/

namespace Diamond.Budget

open Function Finset Status Process DiamondVm

attribute [local simp] Counters.subBytes

variable {config : Config} {limit : ℕ} {s t : Process} {v : ℕ}

lemma sum_change {A : Type*} [AddCommMonoid A] {terms} {f g : ℕ → A}
    (hv : v ∈ terms) (hother : ∀ u ∈ terms, u ≠ v → g u = f u) :
    ∑ u ∈ terms, g u + f v = ∑ u ∈ terms, f u + g v := by
  have hrest : ∑ u ∈ terms.erase v, g u = ∑ u ∈ terms.erase v, f u := by
    apply sum_congr rfl
    intro u hu
    exact hother u (mem_of_mem_erase hu) (ne_of_mem_erase hu)
  rw [← add_sum_erase terms g hv, ← add_sum_erase terms f hv, hrest,
    add_right_comm, add_comm (g v), add_right_comm, add_comm (f v)]

/-! ## What a VM has put into the counters -/

/-- `budget_unregister` has added the VM's remaining instructions. -/
def Phase.instructionsAdded : Phase → Bool
  | .leaving | .left | .gone => true
  | _ => false

/-- `budget_unregister` has taken back the VM's memory. -/
def Phase.bytesReturned : Phase → Bool
  | .left | .gone => true
  | _ => false

def Process.credited (s : Process) (v : ℕ) : ℕ :=
  if (s.phases v).instructionsAdded then (s.vms v).instructionsExecuted
  else (s.vms v).instructionsFlushed

attribute [local simp] Process.credited

def Process.held (s : Process) (v : ℕ) : ℤ :=
  if (s.phases v).bytesReturned then 0 else (s.vms v).memoryPublished

attribute [local simp] Process.held

def Process.present (s : Process) (v : ℕ) : ℕ := if s.phases v = .gone then 0 else 1

attribute [local simp] Process.present

/-- What holds of the VMs apart from the totals. -/
structure Sane (s : Process) : Prop where
  flushed_le : ∀ v < s.count, (s.vms v).instructionsFlushed ≤ (s.vms v).instructionsExecuted
  fresh : ∀ v < s.count, ∀ first, s.phases v = .entering first →
    (s.vms v).instructionsExecuted = 0 ∧ (s.vms v).memoryPublished = 0
  old_gone : ∀ v < s.epoch, s.phases v = .gone
  epoch_le : s.epoch ≤ s.count
  live : s.counters.budgetLiveVms = ∑ v ∈ Finset.range s.count, s.present v

/-- The totals are the sums of what the VMs registered since the reset have put into them. -/
structure Balanced (s : Process) : Prop where
  instructions : s.counters.budgetInstructions = ∑ v ∈ Finset.Ico s.epoch s.count, s.credited v
  bytes : s.counters.budgetBytes = ∑ v ∈ Finset.Ico s.epoch s.count, s.held v

/-- Either the totals are right, or the only VM that is not gone is about to reset them. -/
inductive Accounted (s : Process) : Prop
  | balanced (hnone : ∀ v < s.count, s.phases v ≠ .entering true) (h : Balanced s)
  | resetting (v : ℕ) (hlast : v + 1 = s.count) (hentering : s.phases v = .entering true)
      (hothers : ∀ u < v, s.phases u = .gone)

/-! ## Steps that change one VM -/

/-- A step of VM `v` that changes only its fields, its phase, and the counters by as much. -/
structure Changes (v : ℕ) (s t : Process) : Prop where
  count : t.count = s.count
  epoch : t.epoch = s.epoch
  vms : ∀ u ≠ v, t.vms u = s.vms u
  phases : ∀ u ≠ v, t.phases u = s.phases u
  flushed_le : (t.vms v).instructionsFlushed ≤ (t.vms v).instructionsExecuted
  settled : ∀ first, t.phases v ≠ .entering first
  present : s.phases v ≠ .gone
  instructions : t.counters.budgetInstructions + s.credited v =
    s.counters.budgetInstructions + t.credited v
  bytes : t.counters.budgetBytes + s.held v = s.counters.budgetBytes + t.held v
  live : t.counters.budgetLiveVms + s.present v = s.counters.budgetLiveVms + t.present v

lemma Changes.credited (h : Changes v s t) {u} (hu : u ≠ v) : t.credited u = s.credited u := by
  rw [Process.credited, Process.credited, h.vms u hu, h.phases u hu]

lemma Changes.held (h : Changes v s t) {u} (hu : u ≠ v) : t.held u = s.held u := by
  rw [Process.held, Process.held, h.vms u hu, h.phases u hu]

lemma Changes.present_other (h : Changes v s t) {u} (hu : u ≠ v) : t.present u = s.present u := by
  rw [Process.present, Process.present, h.phases u hu]

section
variable (h : Changes v s t) (hv : v < s.count) (hsane : Sane s)
include h hv hsane

lemma Changes.sane : Sane t where
  flushed_le := by
    intro u hu
    by_cases hsame : u = v
    · subst hsame
      exact h.flushed_le
    · rw [h.vms u hsame]
      exact hsane.flushed_le u (h.count ▸ hu)
  fresh := by
    intro u hu first hphase
    by_cases hsame : u = v
    · subst hsame
      exact absurd hphase (h.settled first)
    · rw [h.phases u hsame] at hphase
      rw [h.vms u hsame]
      exact hsane.fresh u (h.count ▸ hu) first hphase
  old_gone := by
    intro u hu
    rw [h.epoch] at hu
    have hsame : u ≠ v := by
      rintro rfl
      exact h.present (hsane.old_gone u hu)
    rw [h.phases u hsame]
    exact hsane.old_gone u hu
  epoch_le := by
    rw [h.epoch, h.count]
    exact hsane.epoch_le
  live := by
    have hsum : ∑ u ∈ range s.count, t.present u + s.present v =
        ∑ u ∈ range s.count, s.present u + t.present v :=
      sum_change (mem_range.2 hv) fun u _ hu => h.present_other hu
    have hlive := h.live
    rw [h.count]
    have hbefore := hsane.live
    omega

lemma Changes.balanced (hbalanced : Balanced s) : Balanced t := by
  have hmem : v ∈ Finset.Ico s.epoch s.count := by
    refine mem_Ico.2 ⟨?_, hv⟩
    by_contra hlt
    exact h.present (hsane.old_gone v (not_le.1 hlt))
  have hcredited := sum_change hmem fun u _ hu => h.credited hu
  have hheld := sum_change hmem fun u _ hu => h.held hu
  have hinstructions := h.instructions
  have hbytes := h.bytes
  constructor
  · rw [h.epoch, h.count]
    have hbefore := hbalanced.instructions
    omega
  · rw [h.epoch, h.count]
    have hbefore := hbalanced.bytes
    omega

/-- A VM that is present and not about to reset the counters acts only while they are right. -/
lemma Changes.accounted (hphase : s.phases v ≠ .entering true) (haccounted : Accounted s) :
    Accounted t := by
  cases haccounted with
  | balanced hnone hbalanced =>
    refine .balanced ?_ (h.balanced hv hsane hbalanced)
    intro u hu
    by_cases hsame : u = v
    · subst hsame
      exact h.settled true
    · rw [h.phases u hsame]
      exact hnone u (h.count ▸ hu)
  | resetting w _ hentering hothers =>
    have hw : v ≠ w := by
      rintro rfl
      exact hphase hentering
    have hgone := hothers v (by omega)
    exact absurd hgone h.present

end

/-! ## The steps of a registered VM -/

/-- The phases in which a VM's flushed instructions and its published memory are in the totals. -/
structure Phase.Counts (phase : Phase) : Prop where
  instructions : phase.instructionsAdded = false
  bytes : phase.bytesReturned = false
  present : phase ≠ .gone

lemma Process.credited_of_counts (h : (s.phases v).Counts) :
    s.credited v = (s.vms v).instructionsFlushed := by
  simp [h.instructions]

lemma Process.held_of_counts (h : (s.phases v).Counts) : s.held v = (s.vms v).memoryPublished := by
  simp [h.bytes]

lemma Process.present_of_counts (h : (s.phases v).Counts) : s.present v = 1 := by
  simp [h.present]

lemma Status.next_settled (status : Status) (first : Bool) : status.next ≠ .entering first := by
  cases status <;> simp [next]

lemma Status.next_counts (status : Status) : status.next.Counts := by
  cases status <;> exact ⟨rfl, rfl, by simp [next]⟩

lemma changes_of_counts {vm phase} (hbefore : (s.phases v).Counts)
    (hafter : phase.Counts) (hsettled : ∀ first, phase ≠ .entering first)
    (hcount : t.count = s.count) (hepoch : t.epoch = s.epoch)
    (hvms : t.vms = update s.vms v vm)
    (hphases : t.phases = update s.phases v phase)
    (hle : vm.instructionsFlushed ≤ vm.instructionsExecuted)
    (hinstructions : t.counters.budgetInstructions + (s.vms v).instructionsFlushed =
      s.counters.budgetInstructions + vm.instructionsFlushed)
    (hbytes : t.counters.budgetBytes + (s.vms v).memoryPublished =
      s.counters.budgetBytes + vm.memoryPublished)
    (hlive : t.counters.budgetLiveVms = s.counters.budgetLiveVms) : Changes v s t := by
  have hvm : t.vms v = vm := by rw [hvms, update_self]
  have hphase : t.phases v = phase := by rw [hphases, update_self]
  have hcounts : (t.phases v).Counts := hphase ▸ hafter
  constructor
  case count => exact hcount
  case epoch => exact hepoch
  case vms =>
    intro u hu
    rw [hvms, update_of_ne hu]
  case phases =>
    intro u hu
    rw [hphases, update_of_ne hu]
  case flushed_le => rwa [hvm]
  case settled => rwa [hphase]
  case present => exact hbefore.present
  case instructions =>
    rw [credited_of_counts hbefore, credited_of_counts hcounts, hvm]
    exact hinstructions
  case bytes =>
    rw [held_of_counts hbefore, held_of_counts hcounts, hvm]
    exact hbytes
  case live =>
    rw [present_of_counts hbefore, present_of_counts hcounts, hlive]

lemma counts_running : Phase.running.Counts := ⟨rfl, rfl, by simp⟩

lemma counts_ended : Phase.ended.Counts := ⟨rfl, rfl, by simp⟩

section
variable (hsane : Sane s) (hv : v < s.count) (hphase : s.phases v = .running)
include hsane hv hphase

lemma changes_dispatch (nowNs : ℤ) (interrupt : Bool) :
    Changes v s (s.dispatch config v nowNs interrupt) := by
  have hcounted := counted_dispatchCheck (s.vms v) s.counters nowNs interrupt
  have hle := Nat.le_succ_of_le (hsane.flushed_le v hv)
  exact changes_of_counts (hphase ▸ counts_running) (next_counts _)
    (next_settled _) rfl rfl rfl rfl (hcounted.flushed hle) (hcounted.credited hle)
    (congrArg₂ (· + ·) hcounted.bytes hcounted.published.symm) hcounted.live

lemma changes_wait (nowNs : ℤ) (taken : Bool) : Changes v s (s.wait v nowNs taken) := by
  have hcounted : Counted (s.vms v) (wallBudgetAfterWait (s.vms v) nowNs).1 s.counters
      s.counters := counted_wallBudgetAfterWait
  have hle := hsane.flushed_le v hv
  exact changes_of_counts (hphase ▸ counts_running) (next_counts _)
    (next_settled _) rfl rfl rfl rfl (hcounted.flushed hle) (hcounted.credited hle)
    (congrArg (s.counters.budgetBytes + ·) hcounted.published.symm) rfl

lemma changes_collect (bytes : ℕ) : Changes v s (s.collect v bytes) := by
  obtain ⟨hexecuted, hflushed, hinstructions, hlive, hbytes⟩ :=
    maybeCollect_spec (s.vms v) s.counters bytes
  have hle : (maybeCollect (s.vms v) s.counters bytes).1.instructionsFlushed ≤
      (maybeCollect (s.vms v) s.counters bytes).1.instructionsExecuted := by
    rw [hexecuted, hflushed]
    exact hsane.flushed_le v hv
  have hphases : s.phases = update s.phases v .running := by
    rw [← hphase, update_eq_self]
  exact changes_of_counts (hphase ▸ counts_running) counts_running (by simp) rfl rfl rfl hphases hle
    (congrArg₂ (· + ·) hinstructions hflushed.symm) hbytes hlive

lemma changes_finish : Changes v s { s.setPhase v .ended with liveThreads := s.liveThreads - 1 } :=
  changes_of_counts (hphase ▸ counts_running) counts_ended (by simp) rfl rfl
    (update_eq_self v s.vms).symm rfl (hsane.flushed_le v hv) rfl rfl rfl

end

lemma changes_releaseInstructions (hsane : Sane s) (hv : v < s.count)
    (hphase : s.phases v = .ended) : Changes v s (s.releaseInstructions v) := by
  have hle := hsane.flushed_le v hv
  refine changes_of_counts (hphase ▸ counts_ended) ⟨rfl, rfl, by simp⟩ (by simp) rfl rfl rfl rfl
    le_rfl ?_ rfl rfl
  change s.counters.budgetInstructions + (s.vms v).unflushed + (s.vms v).instructionsFlushed =
    s.counters.budgetInstructions + (s.vms v).instructionsExecuted
  rw [unflushed]
  omega

lemma changes_releaseBytes (hsane : Sane s) (hv : v < s.count)
    (hphase : s.phases v = .releasing) : Changes v s (s.releaseBytes v) := by
  refine changes_of_counts (hphase ▸ ⟨rfl, rfl, by simp⟩) ⟨rfl, rfl, by simp⟩ (by simp) rfl rfl
    rfl rfl (hsane.flushed_le v hv) rfl ?_ rfl
  change s.counters.budgetBytes - (s.vms v).memoryPublished + (s.vms v).memoryPublished =
    s.counters.budgetBytes + 0
  omega

lemma registerCounters_spec (vm : DiamondVm) (counters : Counters) (first : Bool) (nowNs : ℤ) :
    (registerCounters vm counters first nowNs).budgetLiveVms = counters.budgetLiveVms ∧
    (registerCounters vm counters first nowNs).budgetInstructions =
      (if first then 0 else counters.budgetInstructions) ∧
    (registerCounters vm counters first nowNs).budgetBytes =
      (if first then 0 else counters.budgetBytes) := by
  cases first with
  | true =>
    simp only [registerCounters, if_true]
    split <;> exact ⟨rfl, rfl, rfl⟩
  | false =>
    simp only [registerCounters, Bool.false_eq_true, if_false]
    split <;> exact ⟨rfl, rfl, rfl⟩

lemma changes_register (hsane : Sane s) (hv : v < s.count) (hphase : s.phases v = .entering false)
    (nowNs : ℤ) : Changes v s (s.register v false nowNs) := by
  obtain ⟨hlive, hinstructions, hbytes⟩ := registerCounters_spec (s.vms v) s.counters false nowNs
  exact changes_of_counts (hphase ▸ ⟨rfl, rfl, by simp⟩) counts_running (by simp) rfl rfl rfl rfl
    (hsane.flushed_le v hv) (congrArg (· + _) hinstructions) (congrArg (· + _) hbytes) hlive

/-! ## The steps that take a VM away -/

lemma changes_setPhase {phase counters} (hsane : Sane s) (hv : v < s.count)
    (hpresent : s.phases v ≠ .gone) (hsettled : ∀ first, phase ≠ .entering first)
    (hinstructions : counters.budgetInstructions + s.credited v =
      s.counters.budgetInstructions + (s.setPhase v phase).credited v)
    (hbytes : counters.budgetBytes + s.held v =
      s.counters.budgetBytes + (s.setPhase v phase).held v)
    (hlive : counters.budgetLiveVms + s.present v =
      s.counters.budgetLiveVms + (s.setPhase v phase).present v) :
    Changes v s { s.setPhase v phase with counters := counters } where
  count := rfl
  epoch := rfl
  vms := fun _ _ => rfl
  phases := fun u hu => update_of_ne hu ..
  flushed_le := hsane.flushed_le v hv
  settled := by
    intro first
    dsimp only [setPhase]
    rw [update_self]
    exact hsettled first
  present := hpresent
  instructions := hinstructions
  bytes := hbytes
  live := hlive

@[simp] lemma setPhase_phases (s : Process) (v : ℕ) (phase : Phase) :
    (s.setPhase v phase).phases v = phase :=
  update_self ..

@[simp] lemma setPhase_vms (s : Process) (v : ℕ) (phase : Phase) :
    (s.setPhase v phase).vms = s.vms := rfl

lemma changes_unregisterInstructions (hsane : Sane s) (hv : v < s.count)
    (hphase : s.phases v = .ended ∨ s.phases v = .finished) :
    Changes v s { s.setPhase v .leaving with
      counters := s.counters.addInstructions (s.vms v).unflushed } := by
  have hcounts : (s.phases v).Counts := by
    rcases hphase with hphase | hphase <;> rw [hphase] <;> exact ⟨rfl, rfl, by simp⟩
  have hle := hsane.flushed_le v hv
  refine changes_setPhase hsane hv hcounts.present (by simp) ?_ ?_ ?_
  · rw [credited_of_counts hcounts]
    simp only [Counters.addInstructions, unflushed, credited, setPhase_phases,
      setPhase_vms, Phase.instructionsAdded, if_true]
    omega
  · rw [held_of_counts hcounts]
    simp [Phase.bytesReturned, Counters.addInstructions]
  · rw [present_of_counts hcounts]
    simp [Counters.addInstructions]

lemma changes_unregisterBytes (hsane : Sane s) (hv : v < s.count) (hphase : s.phases v = .leaving) :
    Changes v s { s.setPhase v .left with
      counters := s.counters.subBytes (s.vms v).memoryPublished } := by
  refine changes_setPhase hsane hv (by simp [hphase]) (by simp) ?_ ?_ ?_
  · simp [hphase, Phase.instructionsAdded]
  · simp [hphase, Phase.bytesReturned]
  · simp [hphase]

lemma changes_unregister (hsane : Sane s) (hv : v < s.count) (hphase : s.phases v = .left) :
    Changes v s { s.setPhase v .gone with
      counters := { s.counters with budgetLiveVms := s.counters.budgetLiveVms - 1 } } := by
  -- The VM is one of those `budget_live_vms` counts, so the count is not zero.
  have hpos : 0 < s.counters.budgetLiveVms := by
    rw [hsane.live]
    have hle := single_le_sum (f := s.present) (fun u _ => Nat.zero_le _) (mem_range.2 hv)
    have hone : s.present v = 1 := by simp [hphase]
    omega
  refine changes_setPhase hsane hv (by simp [hphase]) (by simp) ?_ ?_ ?_
  · simp [hphase, Phase.instructionsAdded]
  · simp [hphase, Phase.bytesReturned]
  · simp only [present, hphase, setPhase_phases]
    simp
    omega

/-! ## Registration -/

lemma sane_start : Sane (start config) := by
  constructor <;> simp [start]

lemma accounted_start : Accounted (start config) := by
  refine .balanced (by simp [start]) ⟨?_, ?_⟩ <;> simp [start]

lemma enter_other (s : Process) {u} (hu : u ≠ s.count) :
    (s.enter config).vms u = s.vms u ∧ (s.enter config).phases u = s.phases u :=
  ⟨update_of_ne hu .., update_of_ne hu ..⟩

@[simp] lemma enter_vm (s : Process) : (s.enter config).vms s.count = vmInit config :=
  update_self ..

@[simp] lemma enter_phase (s : Process) :
    (s.enter config).phases s.count = .entering (decide (s.counters.budgetLiveVms = 0)) :=
  update_self ..

lemma sane_enter (h : Sane s) : Sane (s.enter config) where
  flushed_le := by
    intro u hu
    by_cases hsame : u = s.count
    · subst hsame
      simp [vmInit]
    · rw [(enter_other s hsame).1]
      exact h.flushed_le u (lt_of_le_of_ne (Nat.le_of_lt_succ hu) hsame)
  fresh := by
    intro u hu first hphase
    by_cases hsame : u = s.count
    · subst hsame
      simp [vmInit]
    · rw [(enter_other s hsame).2] at hphase
      rw [(enter_other s hsame).1]
      exact h.fresh u (lt_of_le_of_ne (Nat.le_of_lt_succ hu) hsame) first hphase
  old_gone := by
    intro u hu
    have hne : u ≠ s.count := (lt_of_lt_of_le hu h.epoch_le).ne
    rw [(enter_other s hne).2]
    exact h.old_gone u hu
  epoch_le := Nat.le_succ_of_le h.epoch_le
  live := by
    have hsum : ∑ u ∈ range s.count, (s.enter config).present u =
        ∑ u ∈ range s.count, s.present u := by
      apply sum_congr rfl
      intro u hu
      rw [present, present, (enter_other s (mem_range.1 hu).ne).2]
    change s.counters.budgetLiveVms + 1 = ∑ u ∈ range (s.count + 1), _
    rw [sum_range_succ, hsum, ← h.live]
    simp

lemma Sane.all_gone (h : Sane s) (hlive : s.counters.budgetLiveVms = 0) :
    ∀ u < s.count, s.phases u = .gone := by
  intro u hu
  rw [h.live, sum_eq_zero_iff] at hlive
  have hzero := hlive u (mem_range.2 hu)
  by_contra hne
  simp [hne] at hzero

lemma accounted_enter (h : Sane s) (hnone : ∀ u < s.count, s.phases u ≠ .entering true)
    (haccounted : Accounted s) : Accounted (s.enter config) := by
  by_cases hlive : s.counters.budgetLiveVms = 0
  · refine .resetting s.count rfl (by simp [hlive]) ?_
    intro u hu
    rw [(enter_other s hu.ne).2]
    exact h.all_gone hlive u hu
  cases haccounted with
  | resetting w _ hentering => exact absurd hentering (hnone w (by omega))
  | balanced _ hbalanced =>
    have hnew : (s.enter config).credited s.count = 0 ∧ (s.enter config).held s.count = 0 := by
      simp [Phase.instructionsAdded, Phase.bytesReturned, vmInit]
    have hsum {A : Type} [AddCommMonoid A] {f g : ℕ → A} (hfg : ∀ u < s.count, g u = f u)
        (hzero : g s.count = 0) :
        ∑ u ∈ Finset.Ico s.epoch (s.count + 1), g u = ∑ u ∈ Finset.Ico s.epoch s.count, f u := by
      rw [sum_Ico_succ_top h.epoch_le, hzero, add_zero]
      exact sum_congr rfl fun u hu => hfg u (mem_Ico.1 hu).2
    refine .balanced ?_ ⟨?_, ?_⟩
    · intro u hu
      by_cases hsame : u = s.count
      · subst hsame
        simp [hlive]
      · rw [(enter_other s hsame).2]
        exact hnone u (lt_of_le_of_ne (Nat.le_of_lt_succ hu) hsame)
    · change s.counters.budgetInstructions = ∑ u ∈ Finset.Ico s.epoch (s.count + 1), _
      rw [hbalanced.instructions]
      refine (hsum (fun u hu => ?_) hnew.1).symm
      rw [credited, credited, (enter_other s hu.ne).1, (enter_other s hu.ne).2]
    · change s.counters.budgetBytes = ∑ u ∈ Finset.Ico s.epoch (s.count + 1), _
      rw [hbalanced.bytes]
      refine (hsum (fun u hu => ?_) hnew.2).symm
      rw [held, held, (enter_other s hu.ne).1, (enter_other s hu.ne).2]

/-- The VM that resets the counters is the last one, and the others are gone. -/
lemma Accounted.first (h : Accounted s) (hv : v < s.count) (hphase : s.phases v = .entering true) :
    v + 1 = s.count ∧ ∀ u < v, s.phases u = .gone := by
  cases h with
  | balanced hnone => exact absurd hphase (hnone v hv)
  | resetting w hlast _ hothers =>
    have hsame : v = w := by
      by_contra hne
      have hgone := hothers v (by omega)
      rw [hphase] at hgone
      cases hgone
    subst hsame
    exact ⟨hlast, hothers⟩

lemma sane_register_first (h : Sane s) (hv : v < s.count) (hphase : s.phases v = .entering true)
    (hfirst : v + 1 = s.count ∧ ∀ u < v, s.phases u = .gone) (nowNs : ℤ) :
    Sane (s.register v true nowNs) := by
  have hother {u : ℕ} (hu : u ≠ v) : (s.register v true nowNs).vms u = s.vms u ∧
      (s.register v true nowNs).phases u = s.phases u :=
    ⟨update_of_ne hu .., update_of_ne hu ..⟩
  have hrunning : (s.register v true nowNs).phases v = .running := update_self ..
  constructor
  case flushed_le =>
    intro u hu
    by_cases hsame : u = v
    · subst hsame
      simpa [register] using h.flushed_le u hv
    · rw [(hother hsame).1]
      exact h.flushed_le u hu
  case fresh =>
    intro u hu first hentering
    by_cases hsame : u = v
    · subst hsame
      rw [hrunning] at hentering
      cases hentering
    · rw [(hother hsame).2] at hentering
      rw [(hother hsame).1]
      exact h.fresh u hu first hentering
  case old_gone =>
    intro u hu
    have hlt : u < v := hu
    rw [(hother hlt.ne).2]
    exact hfirst.2 u hlt
  case epoch_le => exact hv.le
  case live =>
    have hsum : ∑ u ∈ range s.count, (s.register v true nowNs).present u =
        ∑ u ∈ range s.count, s.present u := by
      apply sum_congr rfl
      intro u _
      by_cases hsame : u = v
      · subst hsame
        simp [hrunning, hphase]
      · rw [present, present, (hother hsame).2]
    change (registerCounters (s.vms v) s.counters true nowNs).budgetLiveVms =
      ∑ u ∈ range s.count, (s.register v true nowNs).present u
    rw [(registerCounters_spec ..).1, hsum]
    exact h.live

/-- The first registration resets the counters; nothing has been put into them since. -/
lemma balanced_register_first (h : Sane s) (hv : v < s.count) (hphase : s.phases v = .entering true)
    (hfirst : v + 1 = s.count ∧ ∀ u < v, s.phases u = .gone) (nowNs : ℤ) :
    Accounted (s.register v true nowNs) := by
  obtain ⟨hlive, hinstructions, hbytes⟩ := registerCounters_spec (s.vms v) s.counters true nowNs
  obtain ⟨hexecuted, hpublished⟩ := h.fresh v hv true hphase
  have hflushed := h.flushed_le v hv
  have hrunning : (s.register v true nowNs).phases v = .running := update_self ..
  have honly : Finset.Ico (s.register v true nowNs).epoch (s.register v true nowNs).count = {v} := by
    change Finset.Ico v s.count = {v}
    rw [← hfirst.1, Nat.Ico_succ_singleton]
  refine .balanced ?_ ⟨?_, ?_⟩
  · intro u hu
    by_cases hsame : u = v
    · subst hsame
      simp [hrunning]
    have hlt : u < v := by
      have : u < s.count := hu
      omega
    change update s.phases v .running u ≠ _
    rw [update_of_ne hsame, hfirst.2 u hlt]
    simp
  · rw [honly, sum_singleton, credited_of_counts (hrunning ▸ counts_running)]
    change (registerCounters (s.vms v) s.counters true nowNs).budgetInstructions = _
    simp only [register, update_self]
    rw [hinstructions]
    simp
    omega
  · rw [honly, sum_singleton, held_of_counts (hrunning ▸ counts_running)]
    change (registerCounters (s.vms v) s.counters true nowNs).budgetBytes = _
    simp only [register, update_self]
    rw [hbytes, hpublished]
    rfl

variable {action : Action}

/-- Every step but a VM's entry and a first registration changes one VM and the counters by as
much. -/
lemma Performed.changes (h : Sane s)
    (hperformed : Performed config limit s v action t) (henter : action ≠ .enter)
    (hfirst : ∀ nowNs, action = .register nowNs → s.phases v ≠ .entering true) :
    v < s.count ∧ s.phases v ≠ .entering true ∧ Changes v s t := by
  cases hperformed with
  | enter => exact absurd rfl henter
  | register first hv hphase =>
    cases first with
    | true => exact absurd hphase (hfirst _ rfl)
    | false => exact ⟨hv, hfirst _ rfl, changes_register h hv hphase _⟩
  | dispatch hv hphase => exact ⟨hv, by simp [hphase], changes_dispatch h hv hphase ..⟩
  | wait hv hphase => exact ⟨hv, by simp [hphase], changes_wait h hv hphase ..⟩
  | collect hv hphase => exact ⟨hv, by simp [hphase], changes_collect h hv hphase _⟩
  | finish hv hphase => exact ⟨hv, by simp [hphase], changes_finish h hv hphase⟩
  | releaseInstructions hv hphase =>
    exact ⟨hv, by simp [hphase], changes_releaseInstructions h hv hphase⟩
  | releaseBytes hv hphase => exact ⟨hv, by simp [hphase], changes_releaseBytes h hv hphase⟩
  | unregisterInstructions hv hphase =>
    have hentering : s.phases v ≠ .entering true := by
      rcases hphase with hphase | hphase <;> simp [hphase]
    exact ⟨hv, hentering, changes_unregisterInstructions h hv hphase⟩
  | unregisterBytes hv hphase =>
    exact ⟨hv, by simp [hphase], changes_unregisterBytes h hv hphase⟩
  | unregister hv hphase => exact ⟨hv, by simp [hphase], changes_unregister h hv hphase⟩

/-- A VM's entry, a first registration, or a step that changes one VM and the counters by as much.
-/
inductive Accounts (config : Config) (s : Process) (v : ℕ) (action : Action) (t : Process) : Prop
  | enter (haction : action = .enter)
      (hnone : ∀ u < s.count, s.phases u ≠ .entering true) (h : t = s.enter config)
  | first (nowNs : ℤ) (hv : v < s.count) (hphase : s.phases v = .entering true)
      (h : t = s.register v true nowNs)
  | changes (hv : v < s.count) (hphase : s.phases v ≠ .entering true) (h : Changes v s t)

lemma Performed.accounts (h : Sane s)
    (hperformed : Performed config limit s v action t) : Accounts config s v action t := by
  by_cases henter : action = .enter
  · subst henter
    cases hperformed with
    | enter _ _ hnone => exact .enter rfl hnone rfl
  by_cases hphase : s.phases v = .entering true
  · cases hperformed with
    | register _ hv hentering =>
      rw [hphase] at hentering
      cases hentering
      exact .first _ hv hphase rfl
    | enter => exact absurd rfl henter
    | unregisterInstructions hv hended => rcases hended with hended | hended <;> simp [hphase] at hended
    | _ => simp_all
  · obtain ⟨hv, hother, hchanges⟩ := hperformed.changes h henter fun _ _ => hphase
    exact .changes hv hother hchanges

lemma performed_accounted (h : Sane s) (haccounted : Accounted s)
    (hperformed : Performed config limit s v action t) : Sane t ∧ Accounted t := by
  cases hperformed.accounts h with
  | enter _ hnone ht =>
    subst ht
    exact ⟨sane_enter h, accounted_enter h hnone haccounted⟩
  | first _ hv hphase ht =>
    subst ht
    have hfirst := haccounted.first hv hphase
    exact ⟨sane_register_first h hv hphase hfirst _, balanced_register_first h hv hphase hfirst _⟩
  | changes hv hphase hchanges =>
    exact ⟨hchanges.sane hv h, hchanges.accounted hv h hphase haccounted⟩

lemma machine_accounted (h : (machine config limit).Reachable s) : Sane s ∧ Accounted s := by
  apply h.invariant
  · rintro s rfl
    exact ⟨sane_start, accounted_start⟩
  · rintro s t - ⟨hsane, haccounted⟩ ⟨v, _, hstep⟩
    exact performed_accounted hsane haccounted (perform_cases hstep)

/-- Over any interleaving of registrations, flushes, memory publishing, releases and
unregistrations, while no first registration is under way: the instruction total and what the live
VMs have not flushed are the instructions executed by all VMs registered since the counters were
reset, and the byte total is the sum of what the live VMs have published. -/
theorem budgets_conserved (h : (machine config limit).Reachable s)
    (hregistered : ∀ v < s.count, s.phases v ≠ .entering true) : s.counters.budgetInstructions +
        ∑ v ∈ (Finset.Ico s.epoch s.count).filter fun v => ¬(s.phases v).instructionsAdded,
          (s.vms v).unflushed = ∑ v ∈ Finset.Ico s.epoch s.count, (s.vms v).instructionsExecuted ∧
    s.counters.budgetBytes =
      ∑ v ∈ (Finset.Ico s.epoch s.count).filter fun v => ¬(s.phases v).bytesReturned,
        (s.vms v).memoryPublished := by
  obtain ⟨hsane, haccounted⟩ := machine_accounted h
  cases haccounted with
  | resetting w _ hentering => exact absurd hentering (hregistered w (by omega))
  | balanced _ hbalanced =>
    constructor
    · rw [hbalanced.instructions, sum_filter, ← sum_add_distrib]
      apply sum_congr rfl
      intro v hv
      have hle := hsane.flushed_le v (mem_Ico.1 hv).2
      by_cases hadded : (s.phases v).instructionsAdded = true
      · simp [hadded]
      · simp only [credited, hadded, unflushed]
        simp
        omega
    · rw [hbalanced.bytes, sum_filter]
      apply sum_congr rfl
      intro v hv
      by_cases hreturned : (s.phases v).bytesReturned = true
      all_goals simp [hreturned]

/-- A budget of ten instructions and a hundred bytes. -/
def smallBudgets : Config := ⟨10, 5, 0, 0, 100, 50⟩

/-- The program and one thread: the program executes two instructions, the thread one; the thread
has released its budgets, and the program has published its memory. -/
theorem budgets_conserved_thread :
    ∃ s : Process, s.counters.budgetInstructions = 1 ∧ (s.vms 0).unflushed = 2 ∧
      s.counters.budgetInstructions +
          ∑ v ∈ (Finset.Ico s.epoch s.count).filter fun v => ¬(s.phases v).instructionsAdded,
            (s.vms v).unflushed = ∑ v ∈ Finset.Ico s.epoch s.count, (s.vms v).instructionsExecuted ∧
      s.counters.budgetBytes =
        ∑ v ∈ (Finset.Ico s.epoch s.count).filter fun v => ¬(s.phases v).bytesReturned,
          (s.vms v).memoryPublished := by
  have hrun : (runOf smallBudgets 2
      [(0, .enter), (0, .register 0), (0, .dispatch 0 false), (1, .enter), (1, .register 0),
        (0, .dispatch 0 false), (1, .collect 30), (1, .dispatch 0 false), (1, .finish),
        (1, .releaseInstructions), (0, .collect 20), (1, .releaseBytes)]).any
      (fun s => decide (s.counters.budgetInstructions = 1) && decide ((s.vms 0).unflushed = 2) &&
        decide (∀ v < s.count, s.phases v ≠ .entering true)) = true := by
    decide +kernel
  obtain ⟨s, hs, hfacts⟩ := (Option.any_eq_true _ _).1 hrun
  simp only [Bool.and_eq_true, decide_eq_true_eq] at hfacts
  obtain ⟨⟨htotal, hunflushed⟩, hregistered⟩ := hfacts
  exact ⟨s, htotal, hunflushed, budgets_conserved (runOf_reachable hs) hregistered⟩

end Diamond.Budget
