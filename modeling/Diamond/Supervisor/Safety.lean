import Diamond.Supervisor.Children

/-!
# Stopping a supervisor

What holds in every state that the children of a supervisor and its owner reach.

A child reads `stop_requested` when an attempt has ended and after its pause, but not at the top of
its loop, where the next attempt begins and where its interrupt flag is cleared.  A request that
comes between the two is missed.  `Settled` says that no child stands there; while a stop is
requested it is kept by every step.
-/

namespace Diamond.Supervisor

open Option

attribute [local simp] freshChild supervisorInterruptChild supervisorNew

variable {s t : DiamondSupervisor} {σ τ : State} {index : ℕ}

/-! ## What one section does to the other children -/

/-- What a section of another thread may do to a child: raise its interrupt flag and arm its VM. -/
structure Nudged (c d : DiamondSupervisorChild) : Prop where
  point : d.point = c.point
  done : d.done = c.done
  flag : c.interrupt = true → d.interrupt = true
  vm : c.runningVm.isSome → d.runningVm.isSome
  armed : c.runningVm = some ⟨true⟩ → d.runningVm = some ⟨true⟩

lemma Nudged.refl (c : DiamondSupervisorChild) : Nudged c c := ⟨rfl, rfl, id, id, id⟩

variable {c d : DiamondSupervisorChild}

lemma Nudged.trans {e} (h : Nudged c d) (h' : Nudged d e) : Nudged c e where
  point := h'.point.trans h.point
  done := h'.done.trans h.done
  flag := h'.flag ∘ h.flag
  vm := h'.vm ∘ h.vm
  armed := h'.armed ∘ h.armed

lemma Nudged.interrupt (c : DiamondSupervisorChild) : Nudged c (supervisorInterruptChild c) where
  point := rfl
  done := rfl
  flag := fun _ => rfl
  vm := by simp
  armed := by
    intro harmed
    simp [harmed]

/-- What a section run by child `index` does to the rest of the supervisor. -/
structure Frame (index : ℕ) (s t : DiamondSupervisor) : Prop where
  count : t.childCount = s.childCount
  stopped : t.stopped = s.stopped
  forced : t.stopForced = s.stopForced
  failed : s.failed = true → t.failed = true
  requested : s.stopRequested = true → t.stopRequested = true
  gaveUp : t.stopRequested = true → s.stopRequested = true ∨ t.failed = true
  gaveUp_requested : t.failed = true → s.failed = true ∨ t.stopRequested = true
  others : ∀ other ≠ index, Nudged (s.children other) (t.children other)

lemma Frame.refl (index : ℕ) (s : DiamondSupervisor) : Frame index s s :=
  ⟨rfl, rfl, rfl, id, id, .inl, .inl, fun _ _ => .refl _⟩

lemma Frame.trans {u} (h : Frame index s t) (h' : Frame index t u) : Frame index s u where
  count := h'.count.trans h.count
  stopped := h'.stopped.trans h.stopped
  forced := h'.forced.trans h.forced
  failed := h'.failed ∘ h.failed
  requested := h'.requested ∘ h.requested
  gaveUp := by
    intro hu
    rcases h'.gaveUp hu with ht | hfailed
    · exact (h.gaveUp ht).imp_right h'.failed
    · exact .inr hfailed
  gaveUp_requested := by
    intro hu
    rcases h'.gaveUp_requested hu with ht | hrequested
    · exact (h.gaveUp_requested ht).imp_right h'.requested
    · exact .inr hrequested
  others := fun other hother => (h.others other hother).trans (h'.others other hother)

@[simp] lemma setChild_same (s : DiamondSupervisor) (index : ℕ) (child : DiamondSupervisorChild) :
    (s.setChild index child).children index = child :=
  Function.update_self ..

lemma setChild_other {other} (child : DiamondSupervisorChild) (h : other ≠ index) :
    (s.setChild index child).children other = s.children other :=
  Function.update_of_ne h ..

section
variable (s)

lemma Frame.setChild (index : ℕ) (child : DiamondSupervisorChild) :
    Frame index s (s.setChild index child) where
  count := rfl
  stopped := rfl
  forced := rfl
  failed := id
  requested := id
  gaveUp := .inl
  gaveUp_requested := .inl
  others := by
    intro _ hother
    rw [setChild_other child hother]
    exact .refl _

lemma interruptWhere_nudged (reached : ℕ → Prop) [DecidablePred reached]
    (other : ℕ) : Nudged (s.children other) ((interruptWhere s reached).children other) := by
  dsimp only [interruptWhere]
  split
  · exact .interrupt _
  · exact .refl _

lemma interruptWhere_unreached {reached} [DecidablePred reached] (h : ¬reached index) :
    (interruptWhere s reached).children index = s.children index := by
  simp [interruptWhere, h]

lemma Frame.interruptWhere (reached : ℕ → Prop) [DecidablePred reached] :
    Frame index s (interruptWhere s reached) :=
  ⟨rfl, rfl, rfl, id, id, .inl, .inl, fun other _ => interruptWhere_nudged s reached other⟩

lemma Frame.giveUp (index : ℕ) : Frame index s (Supervisor.giveUp s index) := by
  refine ⟨rfl, rfl, rfl, fun _ => rfl, fun _ => rfl, fun _ => .inr rfl, fun _ => .inr rfl, ?_⟩
  intro other hother
  have hset : (Supervisor.giveUp s index).children other =
      (Supervisor.interruptWhere s (fun other => other ≠ index)).children other := by
    simp [Supervisor.giveUp, Supervisor.interruptWhere, DiamondSupervisor.setChild, hother]
  rw [hset]
  exact interruptWhere_nudged s _ other

lemma Frame.countCrash (index : ℕ) (nowNs : ℤ) :
    Frame index s (countCrashAgainstIntensity s index nowNs) := by
  dsimp only [countCrashAgainstIntensity]
  split
  · exact .refl index s
  · split
    · refine .trans ?_ (.giveUp _ index)
      exact ⟨rfl, rfl, rfl, id, id, .inl, .inl, fun _ _ => .refl _⟩
    · exact ⟨rfl, rfl, rfl, id, id, .inl, .inl, fun _ _ => .refl _⟩

lemma countCrash_point (index : ℕ) (nowNs : ℤ) :
    ((countCrashAgainstIntensity s index nowNs).children index).point = (s.children index).point ∧
    ((countCrashAgainstIntensity s index nowNs).children index).done = (s.children index).done := by
  dsimp only [countCrashAgainstIntensity]
  split
  · exact ⟨rfl, rfl⟩
  · split
    · simp [giveUp, interruptWhere_unreached]
    · exact ⟨rfl, rfl⟩

lemma recordAttemptFailure_done (child : DiamondSupervisorChild)
    (failure : Failure) : (recordAttemptFailure s child failure).done = child.done := by
  cases failure with
  | interrupted =>
    dsimp only [recordAttemptFailure]
    split
    · rfl
    · split <;> rfl
  | exception | internal => rfl

end

/-- The section after a failed attempt: the child is about to read `stop_requested`, the others may
have been interrupted, and a stop is requested only by giving up. -/
abbrev Ended (index : ℕ) (s t : DiamondSupervisor) : Prop :=
  Frame index s t ∧ (∃ interrupted delay, (t.children index).point = .ended interrupted delay) ∧
    (t.children index).done = (s.children index).done

lemma endAttempt_spec (s : DiamondSupervisor) (index : ℕ) (startedNs nowNs : ℤ)
    (failure : Failure) : Ended index s (endAttempt s index startedNs nowNs failure) := by
  have hcrashed (child : DiamondSupervisorChild) (hdone : child.done = (s.children index).done) :
      Ended index s (crashRestartDelay (s.setChild index child) index startedNs nowNs) := by
    dsimp only [crashRestartDelay]
    refine ⟨((Frame.setChild s index child).trans (.setChild _ index _)).trans (.countCrash _ _ _),
      ?_, ?_⟩
    · rw [(countCrash_point _ _ _).1, setChild_same]
      exact ⟨_, _, rfl⟩
    · rw [(countCrash_point _ _ _).2, setChild_same]
      simpa using hdone
  have hsiblings (u : DiamondSupervisor) (hu : Ended index s u) :
      Ended index s (interruptStrategySiblings u index) := by
    have hsame : (interruptStrategySiblings u index).children index = u.children index :=
      interruptWhere_unreached u (by simp)
    refine ⟨hu.1.trans (.interruptWhere _ _), ?_⟩
    rw [hsame]
    exact hu.2
  cases failure with
  | interrupted =>
    refine ⟨.setChild s index _, ⟨true, s.backoffMs, ?_⟩, ?_⟩
    · simp [endAttempt]
    · simp [endAttempt, recordAttemptFailure_done]
  | exception | internal =>
    dsimp only [endAttempt]
    split
    · exact hsiblings _ (hcrashed _ (recordAttemptFailure_done ..))
    · exact hcrashed _ (recordAttemptFailure_done ..)

/-! ## The steps of a child -/

/-- What the thread of a child does in one step: the points it leaves and reaches. -/
inductive Moved (s : DiamondSupervisor) (c d : DiamondSupervisorChild) : Prop
  | begun (hpoint : c.point = .loopTop) (hfailed : s.failed = false) (hdone : d.done = c.done)
      (hnext : d.point = .preparing)
  | published (startedNs : ℤ) (hpoint : c.point = .preparing) (hdone : d.done = c.done)
      (hnext : d.point = .running startedNs) (hflag : d.interrupt = c.interrupt)
      (hvm : ∃ vm, d.runningVm = some vm ∧ (s.stopForced = true → vm = ⟨true⟩))
  | recorded (startedNs : ℤ) (interrupted : Bool) (delay : ℤ) (hpoint : c.point = .running startedNs)
      (hdone : d.done = c.done) (hnext : d.point = .ended interrupted delay)
  | passed (hrequested : s.stopRequested = false) (hdone : d.done = c.done)
      (hnext : d.point = .loopTop ∨ ∃ delay, d.point = .pausing delay)
  | stopping (hdone : d.done = c.done) (hnext : d.point = .stopping)
  | finished (hnext : d.point = .finished)

/-- One step of a child's thread: what it does to its own slot, and the frame. -/
abbrev MovedAt (index : ℕ) (s t : DiamondSupervisor) : Prop :=
  Moved s (s.children index) (t.children index) ∧ Frame index s t ∧
    (s.children index).point ≠ .created ∧ (s.children index).point ≠ .finished

lemma childStep_cases {move} (h : childStep s index move = some t) : MovedAt index s t := by
  have hslot {child : DiamondSupervisorChild} {point : Point}
      (hpoint : (s.children index).point = point) (hbusy : point ≠ .created ∧ point ≠ .finished)
      (h : some (s.setChild index child) = some t) (hmoved : Moved s (s.children index) child) :
      MovedAt index s t := by
    cases h
    rw [MovedAt, setChild_same, hpoint]
    exact ⟨hmoved, .setChild .., hbusy⟩
  dsimp only [childStep] at h
  split at h
  case h_1 hpoint =>
    refine hslot hpoint (by simp) h ?_
    rw [loopTopSection]
    split
    · exact .finished rfl
    · next hfailed => exact .begun hpoint (by simpa using hfailed) rfl rfl
  case h_2 hpoint => exact hslot hpoint (by simp) h (.finished rfl)
  case h_3 nowNs hpoint =>
    refine hslot hpoint (by simp) h (.published nowNs hpoint rfl rfl rfl ⟨_, rfl, ?_⟩)
    intro hforced
    simp [hforced]
  case h_4 hpoint => exact hslot hpoint (by simp) h (.finished rfl)
  case h_5 startedNs failure nowNs hpoint =>
    cases h
    obtain ⟨hframe, ⟨interrupted, delay, hnext⟩, hdone⟩ :=
      endAttempt_spec s index startedNs nowNs failure
    exact ⟨.recorded startedNs interrupted delay hpoint hdone hnext, hframe, by simp [hpoint],
      by simp [hpoint]⟩
  case h_6 interrupted _ hpoint =>
    refine hslot hpoint (by simp) h ?_
    by_cases hrequested : s.stopRequested = true
    · exact .stopping rfl (by simp [hrequested])
    · refine .passed (by simpa using hrequested) rfl ?_
      cases interrupted <;> simp [hrequested]
  case h_7 hpoint =>
    refine hslot hpoint (by simp) h ?_
    by_cases hrequested : s.stopRequested = true
    · exact .stopping rfl (by simp [hrequested])
    · exact .passed (by simpa using hrequested) rfl (.inl (by simp [hrequested]))
  case h_8 hpoint => exact hslot hpoint (by simp) h (.finished rfl)
  case h_9 => cases h

/-! ## The steps of the owner -/

/-- A step that touches no child and neither `failed` nor `stop_forced`. -/
structure Unmoved (s t : DiamondSupervisor) : Prop where
  children : t.children = s.children
  count : t.childCount = s.childCount
  failed : t.failed = s.failed
  forced : t.stopForced = s.stopForced

/-- What such a step of the owner does: it sets up a call, leaves one, or takes a call of `stop`
further. -/
inductive OwnerMoved (σ : State) (action : Action) (τ : State) : Prop
  | left (hstopped : τ.supervisor.stopped = σ.supervisor.stopped)
      (hrequested : τ.supervisor.stopRequested = σ.supervisor.stopRequested)
      (hfrom : σ.owner ≠ .counted ∧ σ.owner ≠ .released)
      (howner : τ.owner = .idle ∨ τ.owner = .joining)
  | admitted (hstopped : τ.supervisor.stopped = σ.supervisor.stopped)
      (hrequested : τ.supervisor.stopRequested = σ.supervisor.stopRequested)
      (hidle : σ.owner = .idle) (hfree : σ.supervisor.stopped = false ∧ σ.supervisor.failed = false)
      (howner : τ.owner = .adding)
  | marked (timed : Bool) (hstopped : τ.supervisor.stopped = true)
      (hrequested : τ.supervisor.stopRequested = σ.supervisor.stopRequested)
      (hidle : σ.owner = .idle) (howner : τ.owner = .stopping timed)
  | requested (timed : Bool) (haction : action = .requestStop)
      (hstopped : τ.supervisor.stopped = σ.supervisor.stopped)
      (hrequested : τ.supervisor.stopRequested = true) (hmarked : σ.owner = .stopping timed)
      (howner : τ.owner = .waiting ∨ τ.owner = .joining)
  | released (haction : action = .release)
      (hstopped : τ.supervisor.stopped = σ.supervisor.stopped)
      (hrequested : τ.supervisor.stopRequested = true) (hidle : σ.owner = .idle)
      (howner : τ.owner = .released)

inductive Performed (σ : State) : Action → State → Prop
  | owner {action τ} (hsame : Unmoved σ.supervisor τ.supervisor) (hmoved : OwnerMoved σ action τ) :
      Performed σ action τ
  | counted (hadding : σ.owner = .adding) :
      Performed σ .countChild
        ⟨{ σ.supervisor.setChild σ.supervisor.childCount freshChild with
          childCount := σ.supervisor.childCount + 1 }, .counted⟩
  | started (hcounted : σ.owner = .counted) :
      Performed σ (.startChild true)
        ⟨σ.supervisor.setChild (σ.supervisor.childCount - 1)
          { σ.supervisor.children (σ.supervisor.childCount - 1) with point := .loopTop }, .idle⟩
  | rolledBack (hcounted : σ.owner = .counted) :
      Performed σ (.startChild false)
        ⟨{ σ.supervisor.setChild (σ.supervisor.childCount - 1) freshChild with
          childCount := σ.supervisor.childCount - 1 }, .idle⟩
  | forced (hwaiting : σ.owner = .waiting) :
      Performed σ .force ⟨forceSection σ.supervisor, .joining⟩
  | child (index : ℕ) (move : Move) (t : DiamondSupervisor) (hindex : index < σ.supervisor.childCount)
      (hmoved : Moved σ.supervisor (σ.supervisor.children index) (t.children index))
      (hframe : Frame index σ.supervisor t)
      (hpoint : (σ.supervisor.children index).point ≠ .created ∧
        (σ.supervisor.children index).point ≠ .finished) :
      Performed σ (.child index move) ⟨t, σ.owner⟩

variable {action : Action}

lemma perform_cases (h : perform σ action = some τ) : Performed σ action τ := by
  cases action
  case startChild created =>
    simp only [perform, ite_none_right_eq_some] at h
    obtain ⟨hcounted, h⟩ := h
    cases created with
    | true =>
      cases h
      exact .started hcounted
    | false =>
      cases h
      exact .rolledBack hcounted
  case requestStop =>
    simp only [perform] at h
    split at h
    · next timed hmarked =>
      cases h
      refine .owner ⟨rfl, rfl, rfl, rfl⟩ (.requested timed rfl rfl rfl hmarked ?_)
      cases timed <;> simp
    · cases h
  case child index move =>
    simp only [perform, ite_none_right_eq_some, map_eq_some_iff] at h
    obtain ⟨hindex, t, ht, rfl⟩ := h
    obtain ⟨hmoved, hframe, hpoint⟩ := childStep_cases ht
    exact .child index move t hindex hmoved hframe hpoint
  all_goals simp only [perform, ite_none_right_eq_some, Option.some.injEq] at h
  case restartPolicy =>
    obtain ⟨⟨hidle, -⟩, rfl⟩ := h
    exact .owner ⟨rfl, rfl, rfl, rfl⟩ (.left rfl rfl (by simp [hidle]) (.inl hidle))
  case addChild =>
    obtain ⟨⟨hidle, hstopped, hfailed, -⟩, rfl⟩ := h
    exact .owner ⟨rfl, rfl, rfl, rfl⟩ (.admitted rfl rfl hidle ⟨hstopped, hfailed⟩ rfl)
  case refuseChild =>
    obtain ⟨hadding, rfl⟩ := h
    exact .owner ⟨rfl, rfl, rfl, rfl⟩ (.left rfl rfl (by simp [hadding]) (.inl rfl))
  case countChild =>
    obtain ⟨hadding, rfl⟩ := h
    exact .counted hadding
  case stop timed =>
    obtain ⟨hidle, rfl⟩ := h
    exact .owner ⟨rfl, rfl, rfl, rfl⟩ (.marked timed rfl rfl hidle rfl)
  case force =>
    obtain ⟨hwaiting, rfl⟩ := h
    exact .forced hwaiting
  case join =>
    obtain ⟨hidle, rfl⟩ := h
    exact .owner ⟨rfl, rfl, rfl, rfl⟩ (.left rfl rfl (by simp [hidle]) (.inr rfl))
  case returned =>
    obtain ⟨⟨hjoining, -⟩, rfl⟩ := h
    exact .owner ⟨rfl, rfl, rfl, rfl⟩ (.left rfl rfl (by simp [hjoining]) (.inl rfl))
  case release =>
    obtain ⟨hidle, rfl⟩ := h
    exact .owner ⟨rfl, rfl, rfl, rfl⟩ (.released rfl rfl rfl hidle rfl)

/-! ## What holds in every run -/

/-- A slot in use: a child that is done has left its loop, and a running attempt has published its
VM. -/
structure Tidy (c : DiamondSupervisorChild) : Prop where
  done_finished : c.done = true → c.point = .finished
  running_vm : ∀ startedNs, c.point = .running startedNs → c.runningVm.isSome

lemma Tidy.nudged (h : Tidy c) (hnudged : Nudged c d) : Tidy d where
  done_finished := by
    intro hdone
    rw [hnudged.done] at hdone
    rw [hnudged.point]
    exact h.done_finished hdone
  running_vm := by
    intro startedNs hpoint
    rw [hnudged.point] at hpoint
    exact hnudged.vm (h.running_vm startedNs hpoint)

lemma Tidy.moved (h : Tidy c) (hrunning : c.point ≠ .finished) (hmoved : Moved s c d) : Tidy d := by
  -- A child that moves has not left its loop, so it is not done.
  have hnot : d.done = c.done → d.done = true → d.point = .finished := by
    intro hsame hd
    exact absurd (h.done_finished (hsame ▸ hd)) hrunning
  cases hmoved with
  | begun _ _ hdone hnext | recorded _ _ _ _ hdone hnext | stopping hdone hnext =>
    exact ⟨hnot hdone, by simp [hnext]⟩
  | published _ _ hdone _ _ hvm =>
    obtain ⟨_, hvm, -⟩ := hvm
    exact ⟨hnot hdone, by simp [hvm]⟩
  | passed _ hdone hnext =>
    rcases hnext with hnext | ⟨delay, hnext⟩
    all_goals exact ⟨hnot hdone, by simp [hnext]⟩
  | finished hnext => exact ⟨fun _ => hnext, by simp [hnext]⟩

lemma Moved.not_created (h : Moved s c d) : d.point ≠ .created := by
  cases h with
  | begun _ _ _ hnext | published _ _ _ hnext | recorded _ _ _ _ _ hnext | stopping _ hnext
  | finished hnext =>
    simp [hnext]
  | passed _ _ hnext => rcases hnext with hnext | ⟨delay, hnext⟩ <;> simp [hnext]

/-- What holds in every state of a run. -/
structure Orderly (σ : State) : Prop where
  tidy : ∀ index < σ.supervisor.childCount, Tidy (σ.supervisor.children index)
  /-- A child without a thread is the one that `add_child` is about to start. -/
  created_counted : ∀ index < σ.supervisor.childCount,
    (σ.supervisor.children index).point = .created →
      σ.owner = .counted ∧ index = σ.supervisor.childCount - 1
  counted_created : σ.owner = .counted →
    (σ.supervisor.children (σ.supervisor.childCount - 1)).point = .created
  failed_requested : σ.supervisor.failed = true → σ.supervisor.stopRequested = true
  requested_source : σ.supervisor.stopRequested = true →
    σ.supervisor.failed = true ∨ σ.supervisor.stopped = true ∨ σ.owner = .released
  marked_stopped : ∀ timed, σ.owner = .stopping timed → σ.supervisor.stopped = true
  waiting_requested : σ.owner = .waiting → σ.supervisor.stopRequested = true
  forced_requested : σ.supervisor.stopForced = true → σ.supervisor.stopRequested = true

lemma orderly_initial (h : machine.initial σ) : Orderly σ := by
  obtain ⟨⟨_, hnew⟩, howner⟩ := h
  constructor <;> simp [hnew, howner]

lemma tidy_fresh : Tidy freshChild := ⟨by simp, by simp⟩

lemma forceSection_nudged (s : DiamondSupervisor) (index : ℕ) :
    Nudged (s.children index) ((forceSection s).children index) := by
  dsimp only [forceSection, interruptWhere]
  split
  · exact .interrupt _
  · exact .refl _

/-- Such a step is not next to a counted child, and leads to `add_child` only before a stop. -/
lemma OwnerMoved.owners (h : OwnerMoved σ action τ) :
    σ.owner ≠ .counted ∧ τ.owner ≠ .counted ∧ (τ.owner = .adding →
      σ.owner = .idle ∧ σ.supervisor.stopped = false ∧ σ.supervisor.failed = false) := by
  cases h with
  | left _ _ hfrom howner =>
    rcases howner with howner | howner <;> simp [howner, hfrom.1]
  | admitted _ _ hidle hfree howner => simp [hidle, hfree, howner]
  | marked _ _ _ hidle howner | released _ _ _ hidle howner => simp [hidle, howner]
  | requested _ _ _ _ hmarked howner =>
    rcases howner with howner | howner <;> simp [hmarked, howner]

section
variable (h : Orderly σ)
include h

/-- A step of the owner that touches no child keeps the invariant. -/
lemma Orderly.owner_step (hsame : Unmoved σ.supervisor τ.supervisor)
    (hmoved : OwnerMoved σ action τ) : Orderly τ := by
  obtain ⟨htidy, hcreated, -, hfailed, hsource, hmarked, hwaiting, hforced⟩ := h
  rw [← hsame.children, ← hsame.count] at htidy hcreated
  rw [← hsame.failed] at hfailed hsource
  rw [← hsame.forced] at hforced
  have hnone : ∀ index < τ.supervisor.childCount,
      (τ.supervisor.children index).point = .created →
        τ.owner = .counted ∧ index = τ.supervisor.childCount - 1 := by
    intro index hindex hpoint
    exact absurd (hcreated index hindex hpoint).1 hmoved.owners.1
  have hcounted := hmoved.owners.2.1
  cases hmoved with
  | left hstopped hrequested hfrom howner =>
    rw [← hrequested] at hfailed hsource hforced
    refine ⟨htidy, hnone, (absurd · hcounted), hfailed, ?_, ?_, ?_, hforced⟩
    · intro hreq
      rw [hstopped]
      exact (hsource hreq).imp_right fun hor => .inl (hor.resolve_right hfrom.2)
    all_goals rcases howner with howner | howner <;> simp [howner]
  | admitted hstopped hrequested hidle _ howner =>
    rw [← hrequested] at hfailed hsource hforced
    refine ⟨htidy, hnone, (absurd · hcounted), hfailed, ?_, by simp [howner], by simp [howner], hforced⟩
    intro hreq
    rw [hstopped]
    exact (hsource hreq).imp_right fun hor => .inl (hor.resolve_right (by simp [hidle]))
  | marked _ hstopped hrequested _ howner =>
    rw [← hrequested] at hfailed hforced
    exact ⟨htidy, hnone, (absurd · hcounted), hfailed, fun _ => .inr (.inl hstopped),
      fun _ _ => hstopped, by simp [howner], hforced⟩
  | requested timed _ hstopped hrequested hmark howner =>
    refine ⟨htidy, hnone, (absurd · hcounted), fun _ => hrequested, ?_, ?_, fun _ => hrequested,
      fun _ => hrequested⟩
    · intro _
      exact .inr (.inl (hstopped.trans (hmarked timed hmark)))
    · rcases howner with howner | howner <;> simp [howner]
  | released _ _ hrequested _ howner =>
    exact ⟨htidy, hnone, (absurd · hcounted), fun _ => hrequested, fun _ => .inr (.inr howner),
      by simp [howner], by simp [howner], fun _ => hrequested⟩

lemma Orderly.source_of_adding (howner : σ.owner ≠ .released)
    (hrequested : σ.supervisor.stopRequested = true) (P : Prop) :
    σ.supervisor.failed = true ∨ σ.supervisor.stopped = true ∨ P :=
  (h.requested_source hrequested).imp_right fun hor => .inl (hor.resolve_right howner)

lemma Orderly.count_step (hadding : σ.owner = .adding) :
    Orderly ⟨{ σ.supervisor.setChild σ.supervisor.childCount freshChild with
      childCount := σ.supervisor.childCount + 1 }, .counted⟩ := by
  have hold : ∀ index < σ.supervisor.childCount + 1, index ≠ σ.supervisor.childCount →
      index < σ.supervisor.childCount := by
    intro index hindex hne
    omega
  refine ⟨?_, ?_, fun _ => ?_, h.failed_requested, ?_, by simp, by simp, h.forced_requested⟩
  · intro index hindex
    by_cases hlast : index = σ.supervisor.childCount
    · subst hlast
      simpa using tidy_fresh
    · dsimp only
      rw [setChild_other freshChild hlast]
      exact h.tidy index (hold index hindex hlast)
  · intro index hindex hpoint
    refine ⟨rfl, ?_⟩
    by_cases hlast : index = σ.supervisor.childCount
    · exact hlast
    · dsimp only at hpoint
      rw [setChild_other freshChild hlast] at hpoint
      have hcounted := (h.created_counted index (hold index hindex hlast) hpoint).1
      simp [hadding] at hcounted
  · simp
  · exact fun hrequested => h.source_of_adding (by simp [hadding]) hrequested _

lemma Orderly.start_step (hcounted : σ.owner = .counted) :
    Orderly ⟨σ.supervisor.setChild (σ.supervisor.childCount - 1)
      { σ.supervisor.children (σ.supervisor.childCount - 1) with point := .loopTop }, .idle⟩ := by
  refine ⟨?_, ?_, by simp, h.failed_requested, ?_, by simp, by simp, h.forced_requested⟩
  · intro index hindex
    by_cases hlast : index = σ.supervisor.childCount - 1
    · subst hlast
      rw [setChild_same]
      refine ⟨fun hdone => ?_, by simp⟩
      have hfinished := (h.tidy _ hindex).done_finished hdone
      rw [h.counted_created hcounted] at hfinished
      cases hfinished
    · rw [setChild_other _ hlast]
      exact h.tidy index hindex
  · intro index hindex hpoint
    by_cases hlast : index = σ.supervisor.childCount - 1
    · subst hlast
      simp at hpoint
    · dsimp only at hpoint
      rw [setChild_other _ hlast] at hpoint
      exact absurd (h.created_counted index hindex hpoint).2 hlast
  · exact fun hrequested => h.source_of_adding (by simp [hcounted]) hrequested _

lemma Orderly.rollBack_step (hcounted : σ.owner = .counted) :
    Orderly ⟨{ σ.supervisor.setChild (σ.supervisor.childCount - 1) freshChild with
      childCount := σ.supervisor.childCount - 1 }, .idle⟩ := by
  have hold : ∀ index < σ.supervisor.childCount - 1,
      index < σ.supervisor.childCount ∧ index ≠ σ.supervisor.childCount - 1 := by
    intro index hindex
    omega
  refine ⟨?_, ?_, by simp, h.failed_requested, ?_, by simp, by simp, h.forced_requested⟩
  · intro index hindex
    dsimp only
    rw [setChild_other freshChild (hold index hindex).2]
    exact h.tidy index (hold index hindex).1
  · intro index hindex hpoint
    dsimp only at hpoint
    rw [setChild_other freshChild (hold index hindex).2] at hpoint
    exact absurd (h.created_counted index (hold index hindex).1 hpoint).2 (hold index hindex).2
  · exact fun hrequested => h.source_of_adding (by simp [hcounted]) hrequested _

lemma Orderly.force_step (hwaiting : σ.owner = .waiting) :
    Orderly ⟨forceSection σ.supervisor, .joining⟩ := by
  have hrequested := h.waiting_requested hwaiting
  refine ⟨?_, ?_, by simp, fun _ => hrequested, ?_, by simp, by simp, fun _ => hrequested⟩
  · intro index hindex
    exact (h.tidy index hindex).nudged (forceSection_nudged _ index)
  · intro index hindex hpoint
    rw [(forceSection_nudged σ.supervisor index).point] at hpoint
    have hcounted := (h.created_counted index hindex hpoint).1
    simp [hwaiting] at hcounted
  · exact fun _ => h.source_of_adding (by simp [hwaiting]) hrequested _

lemma Orderly.child_step {t} (hpoint : (σ.supervisor.children index).point ≠ .created ∧
      (σ.supervisor.children index).point ≠ .finished)
    (hmoved : Moved σ.supervisor (σ.supervisor.children index) (t.children index))
    (hframe : Frame index σ.supervisor t) : Orderly ⟨t, σ.owner⟩ := by
  refine ⟨?_, ?_, ?_, ?_, ?_, ?_, ?_, ?_⟩
  · intro other hother
    rw [hframe.count] at hother
    by_cases hsame : other = index
    · subst hsame
      exact (h.tidy other hother).moved hpoint.2 hmoved
    · exact (h.tidy other hother).nudged (hframe.others other hsame)
  · intro other hother hcreated
    dsimp only at hother hcreated ⊢
    rw [hframe.count] at hother ⊢
    by_cases hsame : other = index
    · subst hsame
      exact absurd hcreated hmoved.not_created
    · rw [(hframe.others other hsame).point] at hcreated
      exact h.created_counted other hother hcreated
  · intro hcounted
    have hcreated := h.counted_created hcounted
    have hother : σ.supervisor.childCount - 1 ≠ index := by
      rintro rfl
      exact hpoint.1 hcreated
    dsimp only
    rw [hframe.count, (hframe.others _ hother).point]
    exact hcreated
  · intro hfailed
    rcases hframe.gaveUp_requested hfailed with hbefore | hrequested
    · exact hframe.requested (h.failed_requested hbefore)
    · exact hrequested
  · intro hrequested
    rcases hframe.gaveUp hrequested with hbefore | hfailed
    · dsimp only
      rw [hframe.stopped]
      exact (h.requested_source hbefore).imp_left hframe.failed
    · exact .inl hfailed
  · intro timed howner
    dsimp only
    rw [hframe.stopped]
    exact h.marked_stopped timed howner
  · exact fun howner => hframe.requested (h.waiting_requested howner)
  · intro hforced
    dsimp only at hforced
    rw [hframe.forced] at hforced
    exact hframe.requested (h.forced_requested hforced)

lemma orderly_step (hstep : perform σ action = some τ) : Orderly τ := by
  cases perform_cases hstep with
  | owner hsame hmoved => exact h.owner_step hsame hmoved
  | counted hadding => exact h.count_step hadding
  | started hcounted => exact h.start_step hcounted
  | rolledBack hcounted => exact h.rollBack_step hcounted
  | forced hwaiting => exact h.force_step hwaiting
  | child _ _ _ _ hmoved hframe hpoint => exact h.child_step hpoint hmoved hframe

end

/-- In every interleaving of the children and the owner, children and flags are in order. -/
theorem machine_orderly (h : machine.Reachable σ) : Orderly σ := by
  apply h.invariant (fun σ => orderly_initial)
  rintro σ τ - horderly ⟨_, hstep⟩
  exact orderly_step horderly hstep

/-! ## Requests that no child misses -/

/-- No child stands between its last reading of `stop_requested` and the top of its loop, and none
is being added; a supervisor that gave up is settled anyway, since the top of the loop reads
`failed`. -/
def Settled (σ : State) : Prop :=
  σ.supervisor.failed = true ∨
    (σ.owner ≠ .adding ∧ σ.owner ≠ .counted ∧
      ∀ index < σ.supervisor.childCount, (σ.supervisor.children index).point ≠ .loopTop)

lemma Moved.not_loopTop (h : Moved s c d) (hrequested : s.stopRequested = true) :
    d.point ≠ .loopTop := by
  cases h with
  | begun _ _ _ hnext | published _ _ _ hnext | recorded _ _ _ _ _ hnext | stopping _ hnext
  | finished hnext =>
    simp [hnext]
  | passed hno => simp [hrequested] at hno

lemma Moved.not_begun (h : Moved s c d) (hfailed : s.failed = true) (hnext : d.point = .preparing) :
    c.point ≠ .loopTop := by
  cases h with
  | begun _ hgoing => simp [hfailed] at hgoing
  | published _ hpoint | recorded _ _ _ hpoint => simp [hpoint]
  | passed _ _ hpassed => rcases hpassed with h | ⟨delay, h⟩ <;> simp [h] at hnext
  | stopping _ hstopping => simp [hstopping] at hnext
  | finished hfinished => simp [hfinished] at hnext

lemma settled_step (h : Orderly σ) (hrequested : σ.supervisor.stopRequested = true)
    (hsettled : Settled σ) (hstep : perform σ action = some τ) : Settled τ := by
  cases perform_cases hstep with
  | owner hsame hmoved =>
    rw [Settled, hsame.failed, hsame.children, hsame.count]
    refine hsettled.imp_right fun hrest => ⟨fun hadding => ?_, hmoved.owners.2.1, hrest.2.2⟩
    obtain ⟨hidle, hstopped, hfailed⟩ := hmoved.owners.2.2 hadding
    simpa [hidle, hstopped, hfailed] using h.requested_source hrequested
  | counted hadding => exact hsettled.imp_right fun hrest => absurd hadding hrest.1
  | started hcounted | rolledBack hcounted =>
    exact hsettled.imp_right fun hrest => absurd hcounted hrest.2.1
  | forced =>
    refine hsettled.imp_right fun hrest => ⟨by simp, by simp, fun index hindex => ?_⟩
    rw [(forceSection_nudged σ.supervisor index).point]
    exact hrest.2.2 index hindex
  | child index _ _ _ hmoved hframe =>
    refine hsettled.imp hframe.failed fun hrest => ⟨hrest.1, hrest.2.1, fun other hother => ?_⟩
    by_cases hsame : other = index
    · subst hsame
      exact hmoved.not_loopTop hrequested
    · dsimp only at hother ⊢
      rw [hframe.count] at hother
      rw [(hframe.others other hsame).point]
      exact hrest.2.2 other hother

/-- Child `index` begins an attempt: it passes the section at the top of its loop. -/
def Begins (index : ℕ) (σ τ : State) : Prop :=
  (σ.supervisor.children index).point = .loopTop ∧ (τ.supervisor.children index).point = .preparing

instance (index : ℕ) (σ τ : State) : Decidable (Begins index σ τ) :=
  inferInstanceAs (Decidable (_ ∧ _))

/-- The owner's stores to `stop_requested`. -/
def Action.requests : Action → Bool
  | .requestStop | .release => true
  | _ => false

/-- A step that requests a stop while no child has passed its last reading of `stop_requested`
without having begun the attempt that follows. -/
def RequestsSettled (σ : State) (action : Action) : Prop :=
  action.requests = true → σ.supervisor.stopRequested = true ∨
    ∀ index < σ.supervisor.childCount, (σ.supervisor.children index).point ≠ .loopTop

instance (σ : State) (action : Action) : Decidable (RequestsSettled σ action) :=
  inferInstanceAs (Decidable (_ → _ ∨ _))

/-- The runs in which every request comes at such a moment. -/
def requestingMachine : Machine State where
  initial := machine.initial
  step σ τ := ∃ action, RequestsSettled σ action ∧ perform σ action = some τ

/-- A step that sets `stop_requested` leaves a settled state: by giving up, or because the request
was made at the right moment. -/
lemma requested_step (hbefore : σ.supervisor.stopRequested = false)
    (hguard : RequestsSettled σ action) (hstep : perform σ action = some τ)
    (hafter : τ.supervisor.stopRequested = true) : Settled τ := by
  have hpoints (haction : action.requests = true) :
      ∀ index < σ.supervisor.childCount, (σ.supervisor.children index).point ≠ .loopTop :=
    (hguard haction).resolve_left (by simp [hbefore])
  cases perform_cases hstep with
  | owner hsame hmoved =>
    rw [Settled, hsame.failed, hsame.children, hsame.count]
    cases hmoved with
    | left _ hreq | admitted _ hreq | marked _ _ hreq => simp [hreq, hbefore] at hafter
    | requested _ haction _ _ _ howner =>
      have hrest := hpoints (by simp [haction, Action.requests])
      rcases howner with howner | howner <;> exact .inr ⟨by simp [howner], by simp [howner], hrest⟩
    | released haction _ _ _ howner =>
      exact .inr ⟨by simp [howner], by simp [howner], hpoints (by simp [haction, Action.requests])⟩
  | counted | started | rolledBack | forced =>
    exact absurd hafter (ne_true_of_eq_false hbefore)
  | child _ _ _ _ _ hframe =>
    exact .inl ((hframe.gaveUp hafter).resolve_left (ne_true_of_eq_false hbefore))

lemma requestingMachine_settled (h : requestingMachine.Reachable σ) :
    Orderly σ ∧ (σ.supervisor.stopRequested = true → Settled σ) := by
  apply h.invariant
  · rintro σ hinitial
    refine ⟨orderly_initial hinitial, fun hrequested => ?_⟩
    obtain ⟨⟨_, hnew⟩, -⟩ := hinitial
    simp [hnew] at hrequested
  · rintro σ τ - ⟨horderly, hsettled⟩ ⟨_, hguard, hstep⟩
    refine ⟨orderly_step horderly hstep, fun hafter => ?_⟩
    by_cases hbefore : σ.supervisor.stopRequested = true
    · exact settled_step horderly hbefore (hsettled hbefore) hstep
    · exact requested_step (by simpa using hbefore) hguard hstep hafter

lemma begins_unsettled (hstep : perform σ action = some τ) (hbegins : Begins index σ τ)
    (hindex : index < σ.supervisor.childCount) : ¬Settled σ := by
  obtain ⟨htop, hpreparing⟩ := hbegins
  -- The child's slot is not the same before and after the step.
  have hmoves : ∀ d : DiamondSupervisorChild, Nudged (σ.supervisor.children index) d →
      d.point ≠ .preparing := by
    intro d hnudged
    rw [hnudged.point, htop]
    simp
  cases perform_cases hstep with
  | owner hsame =>
    rw [hsame.children] at hpreparing
    exact absurd hpreparing (hmoves _ (.refl _))
  | counted =>
    dsimp only at hpreparing
    rw [setChild_other freshChild hindex.ne] at hpreparing
    exact absurd hpreparing (hmoves _ (.refl _))
  | started =>
    dsimp only at hpreparing
    by_cases hlast : index = σ.supervisor.childCount - 1
    · subst hlast
      simp at hpreparing
    · rw [setChild_other _ hlast] at hpreparing
      exact absurd hpreparing (hmoves _ (.refl _))
  | rolledBack =>
    dsimp only at hpreparing
    by_cases hlast : index = σ.supervisor.childCount - 1
    · subst hlast
      simp at hpreparing
    · rw [setChild_other _ hlast] at hpreparing
      exact absurd hpreparing (hmoves _ (.refl _))
  | forced => exact absurd hpreparing (hmoves _ (forceSection_nudged _ index))
  | child mover _ _ _ hmoved hframe =>
    by_cases hsame : index = mover
    · subst hsame
      rintro (hfailed | ⟨-, -, hpoints⟩)
      · exact hmoved.not_begun hfailed hpreparing htop
      · exact hpoints index hindex htop
    · exact absurd hpreparing (hmoves _ (hframe.others index hsame))

/-- In every run whose requests to stop come while no child stands between its last reading of
`stop_requested` and the top of its loop, no child begins an attempt after `stop_requested` has been
set. -/
theorem no_attempt_after_stop (h : requestingMachine.Reachable σ)
    (hrequested : σ.supervisor.stopRequested = true) (hstep : requestingMachine.step σ τ)
    (hindex : index < σ.supervisor.childCount) : ¬Begins index σ τ := by
  obtain ⟨_, -, hperform⟩ := hstep
  intro hbegins
  exact begins_unsettled hperform hbegins hindex ((requestingMachine_settled h).2 hrequested)

/-- The run of a new supervisor through `actions`, each of which must satisfy `guard`. -/
def runOf (guard : State → Action → Prop) [∀ σ action, Decidable (guard σ action)]
    (actions : List Action) : Option State :=
  actions.foldlM (fun σ action => if guard σ action then perform σ action else none)
    ⟨supervisorNew .oneForOne, .idle⟩

lemma runOf_reachable {M : Machine State} {guard}
    [∀ σ action, Decidable (guard σ action)] {actions found}
    (hinitial : M.initial ⟨supervisorNew .oneForOne, .idle⟩)
    (hstep : ∀ σ action τ, guard σ action → perform σ action = some τ → M.step σ τ)
    (h : (runOf guard actions).any found = true) : ∃ σ, M.Reachable σ ∧ found σ = true := by
  obtain ⟨σ, hσ, hfound⟩ := (any_eq_true _ _).1 h
  refine ⟨σ, (Machine.Reachable.start hinitial).run ?_ hσ, hfound⟩
  intro σ action τ hperform
  rw [ite_none_right_eq_some] at hperform
  exact hstep σ action τ hperform.1 hperform.2

/-- A supervisor gets its first child and creates its thread. -/
def oneChild : List Action := [.addChild, .countChild, .startChild true]

lemma initial_oneForOne : machine.initial ⟨supervisorNew .oneForOne, .idle⟩ :=
  ⟨⟨.oneForOne, rfl⟩, rfl⟩

/-- A stop that is requested while the only child runs: its crash is not followed by an attempt. -/
theorem no_attempt_after_stop_running :
    ∃ σ τ, σ.supervisor.stopRequested = true ∧ requestingMachine.step σ τ ∧ ¬Begins 0 σ τ := by
  let crash : Action := .child 0 (.fail (.exception "") 1)
  have hrun : (runOf RequestsSettled
      (oneChild ++ [.child 0 .enter, .child 0 (.publish 0), .stop false, .requestStop])).any
      (fun σ => σ.supervisor.stopRequested && decide (0 < σ.supervisor.childCount) &&
        (decide (RequestsSettled σ crash) && (perform σ crash).isSome)) = true := by
    decide +kernel
  obtain ⟨σ, hreachable, hfacts⟩ := runOf_reachable (M := requestingMachine) initial_oneForOne
    (fun _ action _ hok h => ⟨action, hok, h⟩) hrun
  simp only [Bool.and_eq_true, decide_eq_true_eq] at hfacts
  obtain ⟨⟨hrequested, hindex⟩, hguard, hsome⟩ := hfacts
  obtain ⟨τ, hτ⟩ := Option.isSome_iff_exists.1 hsome
  have hstep : requestingMachine.step σ τ := ⟨crash, hguard, hτ⟩
  exact ⟨σ, τ, hrequested, hstep, no_attempt_after_stop hreachable hrequested hstep hindex⟩

theorem machine_orderly_forced : ∃ σ, σ.supervisor.stopForced = true ∧ Orderly σ := by
  have hrun : (runOf (fun _ _ => True) (oneChild ++ [.stop true, .requestStop, .force])).any
      (·.supervisor.stopForced) = true := by
    decide +kernel
  obtain ⟨σ, hreachable, hforced⟩ := runOf_reachable (M := machine) initial_oneForOne
    (fun _ action _ _ h => ⟨action, h⟩) hrun
  exact ⟨σ, hforced, machine_orderly hreachable⟩

/-- The request comes after the child's thread was created and before it enters its loop: the
attempt begins all the same. -/
theorem attempt_begins_after_stop :
    ∃ σ τ, machine.Reachable σ ∧ σ.supervisor.stopRequested = true ∧ machine.step σ τ ∧
      0 < σ.supervisor.childCount ∧ Begins 0 σ τ := by
  have hrun : (runOf (fun _ _ => True) (oneChild ++ [.stop false, .requestStop])).any
      (fun σ => σ.supervisor.stopRequested && decide (0 < σ.supervisor.childCount) &&
        (perform σ (.child 0 .enter)).any fun τ => decide (Begins 0 σ τ)) = true := by
    decide +kernel
  obtain ⟨σ, hreachable, hfacts⟩ := runOf_reachable (M := machine) initial_oneForOne
    (fun _ action _ _ h => ⟨action, h⟩) hrun
  simp only [Bool.and_eq_true, decide_eq_true_eq, Option.any_eq_true] at hfacts
  obtain ⟨⟨hrequested, hindex⟩, τ, hτ, hbegins⟩ := hfacts
  exact ⟨σ, τ, hreachable, hrequested, ⟨_, hτ⟩, hindex, hbegins⟩

/-! ## Forced stops -/

/-- An attempt that is being set up or runs has been interrupted; one that runs looks at its
flag. -/
structure Flagged (c : DiamondSupervisorChild) : Prop where
  preparing : c.point = .preparing → c.interrupt = true
  running : ∀ startedNs, c.point = .running startedNs →
    c.interrupt = true ∧ c.runningVm = some ⟨true⟩

lemma Flagged.of_point (hpreparing : c.point ≠ .preparing)
    (hrunning : ∀ startedNs, c.point ≠ .running startedNs) : Flagged c :=
  ⟨fun h => absurd h hpreparing, fun _ h => absurd h (hrunning _)⟩

lemma Flagged.nudged (h : Flagged c) (hnudged : Nudged c d) : Flagged d where
  preparing := by
    intro hpoint
    rw [hnudged.point] at hpoint
    exact hnudged.flag (h.preparing hpoint)
  running := by
    intro startedNs hpoint
    rw [hnudged.point] at hpoint
    obtain ⟨hflag, hvm⟩ := h.running startedNs hpoint
    exact ⟨hnudged.flag hflag, hnudged.armed hvm⟩

lemma Flagged.moved (h : Flagged c) (hforced : s.stopForced = true)
    (htop : s.failed = true ∨ c.point ≠ .loopTop) (hmoved : Moved s c d) : Flagged d := by
  cases hmoved with
  | begun hpoint hfailed => simp [hpoint, hfailed] at htop
  | published _ hpoint _ hnext hflag hvm =>
    obtain ⟨_, hvm, harmed⟩ := hvm
    refine ⟨by simp [hnext], fun _ _ => ⟨?_, ?_⟩⟩
    · rw [hflag]
      exact h.preparing hpoint
    · rw [hvm, harmed hforced]
  | recorded _ _ _ _ _ hnext | stopping _ hnext | finished hnext =>
    exact .of_point (by simp [hnext]) (by simp [hnext])
  | passed _ _ hnext =>
    rcases hnext with hnext | ⟨delay, hnext⟩ <;> exact .of_point (by simp [hnext]) (by simp [hnext])

lemma forceSection_flagged (h : Orderly σ) (hindex : index < σ.supervisor.childCount) :
    Flagged ((forceSection σ.supervisor).children index) := by
  have htidy := h.tidy index hindex
  by_cases hdone : (σ.supervisor.children index).done = true
  · have hpoint : ((forceSection σ.supervisor).children index).point = .finished := by
      rw [(forceSection_nudged σ.supervisor index).point]
      exact htidy.done_finished hdone
    exact .of_point (by simp [hpoint]) (by simp [hpoint])
  have hreached : (forceSection σ.supervisor).children index =
      supervisorInterruptChild (σ.supervisor.children index) := by
    simp [forceSection, interruptWhere, hindex, hdone]
  rw [hreached]
  refine ⟨fun _ => rfl, fun startedNs hpoint => ⟨rfl, ?_⟩⟩
  obtain ⟨_, hvm⟩ := isSome_iff_exists.1 (htidy.running_vm startedNs hpoint)
  simp [hvm]

/-- The owner's section that sets `stop_forced`. -/
def Action.forces : Action → Bool
  | .force => true
  | _ => false

/-- A forced stop that comes while no child is about to begin an attempt. -/
def ForcesSettled (σ : State) (action : Action) : Prop :=
  action.forces = true → σ.supervisor.failed = true ∨
    ∀ index < σ.supervisor.childCount, (σ.supervisor.children index).point ≠ .loopTop

instance (σ : State) (action : Action) : Decidable (ForcesSettled σ action) :=
  inferInstanceAs (Decidable (_ → _ ∨ _))

/-- The runs in which every forced stop comes at such a moment. -/
def forcingMachine : Machine State where
  initial := machine.initial
  step σ τ := ∃ action, ForcesSettled σ action ∧ perform σ action = some τ

/-- After a forced stop: no attempt begins, and those that go on are interrupted. -/
structure Forced (σ : State) : Prop where
  settled : Settled σ
  flagged : ∀ index < σ.supervisor.childCount, Flagged (σ.supervisor.children index)

lemma flagged_step (hforced : σ.supervisor.stopForced = true) (horderly : Orderly σ) (h : Forced σ)
    (hstep : perform σ action = some τ) :
    ∀ index < τ.supervisor.childCount, Flagged (τ.supervisor.children index) := by
  intro index hindex
  cases perform_cases hstep with
  | owner hsame =>
    rw [hsame.children]
    rw [hsame.count] at hindex
    exact h.flagged index hindex
  | counted =>
    dsimp only at hindex ⊢
    by_cases hlast : index = σ.supervisor.childCount
    · subst hlast
      exact .of_point (by simp) (by simp)
    · rw [setChild_other freshChild hlast]
      exact h.flagged index (by omega)
  | started =>
    dsimp only at hindex ⊢
    by_cases hlast : index = σ.supervisor.childCount - 1
    · subst hlast
      exact .of_point (by simp) (by simp)
    · rw [setChild_other _ hlast]
      exact h.flagged index hindex
  | rolledBack =>
    dsimp only at hindex ⊢
    rw [setChild_other freshChild hindex.ne]
    exact h.flagged index (by omega)
  | forced => exact forceSection_flagged horderly hindex
  | child mover _ _ _ hmoved hframe =>
    dsimp only at hindex ⊢
    rw [hframe.count] at hindex
    by_cases hsame : index = mover
    · subst hsame
      exact (h.flagged index hindex).moved hforced
        (h.settled.imp_right fun hrest => hrest.2.2 index hindex) hmoved
    · exact (h.flagged index hindex).nudged (hframe.others index hsame)

lemma forced_of_step (hbefore : σ.supervisor.stopForced = false) (hstep : perform σ action = some τ)
    (hafter : τ.supervisor.stopForced = true) :
    action = .force ∧ σ.owner = .waiting ∧ τ = ⟨forceSection σ.supervisor, .joining⟩ := by
  have hnot : ¬σ.supervisor.stopForced = true := ne_true_of_eq_false hbefore
  cases perform_cases hstep with
  | owner hsame => exact absurd (hsame.forced ▸ hafter) hnot
  | counted | started | rolledBack => exact absurd hafter hnot
  | forced hwaiting => exact ⟨rfl, hwaiting, rfl⟩
  | child _ _ _ _ _ hframe => exact absurd (hframe.forced ▸ hafter) hnot

lemma forced_step (h : Orderly σ) (hguard : ForcesSettled σ action)
    (hbefore : σ.supervisor.stopForced = false) (hstep : perform σ action = some τ)
    (hafter : τ.supervisor.stopForced = true) : Forced τ := by
  obtain ⟨rfl, hwaiting, rfl⟩ := forced_of_step hbefore hstep hafter
  refine ⟨?_, fun index hindex => forceSection_flagged h hindex⟩
  refine (hguard rfl).imp_right fun hpoints => ⟨by simp, by simp, fun index hindex => ?_⟩
  rw [(forceSection_nudged σ.supervisor index).point]
  exact hpoints index hindex

lemma forcingMachine_forced (h : forcingMachine.Reachable σ) :
    Orderly σ ∧ (σ.supervisor.stopForced = true → Forced σ) := by
  apply h.invariant
  · rintro σ hinitial
    refine ⟨orderly_initial hinitial, fun hforced => ?_⟩
    obtain ⟨⟨_, hnew⟩, -⟩ := hinitial
    simp [hnew] at hforced
  rintro σ τ - ⟨horderly, hforced⟩ ⟨_, hguard, hstep⟩
  refine ⟨orderly_step horderly hstep, fun hafter => ?_⟩
  by_cases hbefore : σ.supervisor.stopForced = true
  · have hσ := hforced hbefore
    exact ⟨settled_step horderly (horderly.forced_requested hbefore) hσ.settled hstep,
      flagged_step hbefore horderly hσ hstep⟩
  · exact forced_step horderly hguard (by simpa using hbefore) hstep hafter

/-- In every run whose forced stops come while no child stands between its last reading of
`stop_requested` and the top of its loop, once `stop_forced` is set every attempt that is being set
up or runs has its interrupt flag set, and one that runs looks at it. -/
theorem forced_attempts_interrupted (h : forcingMachine.Reachable σ)
    (hforced : σ.supervisor.stopForced = true) (hindex : index < σ.supervisor.childCount) :
    ((σ.supervisor.children index).point = .preparing →
      (σ.supervisor.children index).interrupt = true) ∧
    ∀ startedNs, (σ.supervisor.children index).point = .running startedNs →
      (σ.supervisor.children index).interrupt = true ∧
      (σ.supervisor.children index).runningVm = some ⟨true⟩ := by
  have hflagged := ((forcingMachine_forced h).2 hforced).flagged index hindex
  exact ⟨hflagged.preparing, hflagged.running⟩

/-- A stop whose time runs out while the VM of the first attempt is being set up: the attempt runs
with its flag set. -/
theorem forced_attempts_interrupted_starting :
    ∃ σ, forcingMachine.Reachable σ ∧ σ.supervisor.stopForced = true ∧
      (σ.supervisor.children 0).point = .running 1 ∧ (σ.supervisor.children 0).interrupt = true ∧
      (σ.supervisor.children 0).runningVm = some ⟨true⟩ := by
  have hrun : (runOf ForcesSettled
      (oneChild ++ [.child 0 .enter, .stop true, .requestStop, .force, .child 0 (.publish 1)])).any
      (fun σ => σ.supervisor.stopForced && decide (0 < σ.supervisor.childCount) &&
        decide ((σ.supervisor.children 0).point = .running 1)) = true := by
    decide +kernel
  obtain ⟨σ, hreachable, hfacts⟩ := runOf_reachable (M := forcingMachine) initial_oneForOne
    (fun _ action _ hok h => ⟨action, hok, h⟩) hrun
  simp only [Bool.and_eq_true, decide_eq_true_eq] at hfacts
  obtain ⟨⟨hforced, hindex⟩, hpoint⟩ := hfacts
  exact ⟨σ, hreachable, hforced, hpoint,
    (forced_attempts_interrupted hreachable hforced hindex).2 1 hpoint⟩

/-- The forced stop interrupts the child before it enters its loop; the top of the loop clears the
flag, and the attempt runs uninterrupted. -/
theorem forced_stop_missed :
    ∃ σ, machine.Reachable σ ∧ σ.supervisor.stopForced = true ∧ 0 < σ.supervisor.childCount ∧
      (σ.supervisor.children 0).point = .running 1 ∧ (σ.supervisor.children 0).done = false ∧
      (σ.supervisor.children 0).interrupt = false := by
  have hrun : (runOf (fun _ _ => True)
      (oneChild ++ [.stop true, .requestStop, .force, .child 0 .enter, .child 0 (.publish 1)])).any
      (fun σ => σ.supervisor.stopForced && decide (0 < σ.supervisor.childCount) &&
        decide ((σ.supervisor.children 0).point = .running 1 ∧
          (σ.supervisor.children 0).done = false ∧
          (σ.supervisor.children 0).interrupt = false)) = true := by
    decide +kernel
  obtain ⟨σ, hreachable, hfacts⟩ := runOf_reachable (M := machine) initial_oneForOne
    (fun _ action _ _ h => ⟨action, h⟩) hrun
  simp only [Bool.and_eq_true, decide_eq_true_eq] at hfacts
  obtain ⟨⟨hforced, hindex⟩, hchild⟩ := hfacts
  exact ⟨σ, hreachable, hforced, hindex, hchild⟩

end Diamond.Supervisor
