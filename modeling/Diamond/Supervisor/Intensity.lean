import Diamond.Supervisor.Safety

/-!
# Restart intensity

The buffer of crash times keeps the crashes of the window of the last one, so the supervisor gives
up at the first crash whose window holds too many of all crashes there were.  The slot of a child
counts its crashes in a row, by which the pauses double.
-/

namespace Diamond.Supervisor

open List

/-- The crashes in the window of the last one, of a history with the last crash first. -/
def Policy.window (policy : Policy) : List ℤ → List ℤ
  | [] => []
  | nowNs :: earlier =>
    ((nowNs :: earlier).filter fun time => nowNs - time ≤ policy.withinMs * 1000000).reverse

/-- At some crash there were more than `max_restarts` in its window. -/
def Policy.Exceeded (policy : Policy) (history : List ℤ) : Prop :=
  ∃ part, part <:+ history ∧ policy.maxRestarts < (policy.window part).length

/-- A crash of a child at `nowNs`, of an attempt that began at `startedNs`. -/
structure Crash where
  child : ℕ
  startedNs : ℤ
  nowNs : ℤ

/-- The times of the crashes. -/
abbrev times (history : List Crash) : List ℤ := history.map Crash.nowNs

/-- The crashes of the child in a row at the end of the history: an attempt that ran for longer than
the longest pause begins a new row. -/
def Policy.inARow (policy : Policy) (child : ℕ) : List Crash → ℕ
  | [] => 0
  | crash :: earlier =>
    if crash.child = child then
      if (crash.nowNs - crash.startedNs).tdiv 1000000 > policy.maxBackoffMs then 1
      else policy.inARow child earlier + 1
    else policy.inARow child earlier

/-- A supervisor with the policy after these crashes of its children, the last one first; between
them its children and the calls of its owner go on, but for a `stop`.  Only a crash changes what
`consecutive_crashes` counts. -/
inductive Crashed (policy : Policy) : List Crash → DiamondSupervisor → Prop
  | start (strategy : Strategy) :
      Crashed policy [] { supervisorNew strategy with
        maxRestarts := policy.maxRestarts
        withinMs := policy.withinMs
        backoffMs := policy.backoffMs
        maxBackoffMs := policy.maxBackoffMs }
  | crash {history s failure} (crash : Crash) (hs : Crashed policy history s)
      (hnow : ∀ time ∈ times history, time ≤ crash.nowNs) (hcrash : failure ≠ .interrupted) :
      Crashed policy (crash :: history)
        (endAttempt s crash.child crash.startedNs crash.nowNs failure)
  | other {history s} (children : ℕ → DiamondSupervisorChild) (childCount : ℕ)
      (hs : Crashed policy history s) (hkept : ∀ child,
        (children child).consecutiveCrashes = (s.children child).consecutiveCrashes) :
      Crashed policy history { s with children := children, childCount := childCount }

/-- What holds after crashes at these times. -/
structure Accounts (policy : Policy) (history : List ℤ) (s : DiamondSupervisor) : Prop where
  settings : s.maxRestarts = policy.maxRestarts ∧ s.withinMs = policy.withinMs ∧
    s.backoffMs = policy.backoffMs ∧ s.maxBackoffMs = policy.maxBackoffMs
  stopped : s.stopRequested = s.failed
  room : (s.crashTimesNs.length : ℤ) ≤ policy.maxRestarts + 1
  counts : s.failed = false → s.crashTimesNs = policy.window history
  gaveUp : s.failed = true ↔ policy.Exceeded history

variable {policy : Policy} {history : List ℤ} {crashes : List Crash} {s : DiamondSupervisor}
  {index : ℕ} {startedNs nowNs : ℤ} {failure : Failure}

lemma window_cons (hnow : ∀ time ∈ history, time ≤ nowNs) : policy.window (nowNs :: history) =
      (policy.window history).filter (fun time => nowNs - time ≤ policy.withinMs * 1000000) ++
        [nowNs] := by
  have hwithin := policy.within_range.1
  rw [Policy.window, filter_cons_of_pos (by simp; omega), reverse_cons]
  congr 1
  cases history with
  | nil => rfl
  | cons last earlier =>
    -- what is in the window now was in it at the last crash
    have hlast := hnow last mem_cons_self
    rw [Policy.window, filter_reverse, filter_filter]
    congr 2
    funext time
    simp
    omega

/-- The delay is doubled at most until it passes the longest pause. -/
lemma doubleDelay_spec (limit : ℤ) (doublings : ℕ) {delay : ℤ} (hdelay : 1 ≤ delay)
    (hlimit : delay ≤ 2 * limit) : doubleDelay limit doublings delay ≤ 2 * limit ∧
      min (doubleDelay limit doublings delay) limit = min limit (delay * 2 ^ doublings) := by
  induction doublings generalizing delay with
  | zero => exact ⟨hlimit, by simp [doubleDelay, min_comm]⟩
  | succ doublings ih =>
    rw [doubleDelay]
    split
    · rw [pow_succ', ← mul_assoc]
      exact ih (by omega) (by omega)
    · have hpow : (1 : ℤ) ≤ 2 ^ (doublings + 1) := one_le_pow₀ (by omega)
      have hgrown := le_mul_of_one_le_right (by omega : 0 ≤ delay) hpow
      exact ⟨hlimit, by rw [min_eq_right (by omega), min_eq_left (by omega)]⟩

lemma interruptWhere_crashes (s : DiamondSupervisor) (reached : ℕ → Prop) [DecidablePred reached]
    (child : ℕ) : ((interruptWhere s reached).children child).consecutiveCrashes =
      (s.children child).consecutiveCrashes := by
  dsimp only [interruptWhere]
  split <;> rfl

lemma countCrash_crashes (s : DiamondSupervisor) (index : ℕ) (nowNs : ℤ) (child : ℕ) :
    ((countCrashAgainstIntensity s index nowNs).children child).consecutiveCrashes =
      (s.children child).consecutiveCrashes := by
  dsimp only [countCrashAgainstIntensity]
  split
  · rfl
  · split
    · rw [giveUp, interruptWhere_crashes]
      by_cases heq : child = index
      · simp [heq]
      · simp [heq, DiamondSupervisor.setChild]
    · rfl

/-- A crash is counted in the child's slot, with the pause that follows, and then against the
intensity. -/
lemma endAttempt_crash (hcrash : failure ≠ .interrupted) :
    ∃ children others u, u = countCrashAgainstIntensity { s with children := children } index nowNs ∧
      (children index).restartCount = (s.children index).restartCount + 1 ∧
      (children index).point = .ended false
        (restartDelayMs s (crashesInARow s (s.children index) startedNs nowNs)) ∧
      others index = u.children index ∧
      (∀ child, (others child).consecutiveCrashes =
        if child = index then crashesInARow s (s.children index) startedNs nowNs
        else (s.children child).consecutiveCrashes) ∧
      endAttempt s index startedNs nowNs failure = { u with children := others } := by
  have hsiblings (u : DiamondSupervisor) : ∃ others, others index = u.children index ∧
      (∀ child, (others child).consecutiveCrashes = (u.children child).consecutiveCrashes) ∧
      (if u.failed = false ∧ u.strategy ≠ .oneForOne ∧ u.stopRequested = false then
        interruptStrategySiblings u index else u) = { u with children := others } := by
    split
    · exact ⟨_, interruptWhere_unreached _ (by simp), interruptWhere_crashes u _, rfl⟩
    · exact ⟨_, rfl, fun _ => rfl, rfl⟩
  cases failure with
  | interrupted => exact absurd rfl hcrash
  | exception | internal =>
    obtain ⟨others, hothers, hcrashes, heq⟩ :=
      hsiblings (crashRestartDelay (s.setChild index _) index startedNs nowNs)
    refine ⟨_, others, _, rfl, ?_, ?_, hothers, fun child => ?_, heq⟩
    · simp [recordAttemptFailure]
    · simp [recordAttemptFailure, restartDelayMs, crashesInARow, DiamondSupervisor.setChild]
    · rw [hcrashes, crashRestartDelay, countCrash_crashes]
      by_cases hchild : child = index
      · simp [hchild, recordAttemptFailure, crashesInARow, DiamondSupervisor.setChild]
      · simp [hchild, DiamondSupervisor.setChild]

lemma countCrash_restartCount (s : DiamondSupervisor) (index : ℕ) (nowNs : ℤ) :
    ((countCrashAgainstIntensity s index nowNs).children index).restartCount =
      (s.children index).restartCount -
        if (countCrashAgainstIntensity s index nowNs).failed = s.failed then 0 else 1 := by
  dsimp only [countCrashAgainstIntensity]
  split
  · simp
  · next hcounts =>
    split
    · have hfailed : s.failed = false := by simp_all
      simp [giveUp, interruptWhere, DiamondSupervisor.setChild, hfailed]
    · simp

lemma Accounts.children (h : Accounts policy history s) (children : ℕ → DiamondSupervisorChild)
    (childCount : ℕ) :
    Accounts policy history { s with children := children, childCount := childCount } :=
  ⟨h.settings, h.stopped, h.room, h.counts, h.gaveUp⟩

/-- Counting a crash: once the supervisor gave up nothing changes, before that the crash joins its
window. -/
lemma Accounts.count (hlimit : 0 ≤ policy.maxRestarts) (h : Accounts policy history s)
    (hnow : ∀ time ∈ history, time ≤ nowNs) :
    Accounts policy (nowNs :: history) (countCrashAgainstIntensity s index nowNs) := by
  obtain ⟨hsettings, hstopped, hroom, hcounts, hgaveUp⟩ := h
  rw [countCrashAgainstIntensity]
  by_cases hfailed : s.failed = true
  · obtain ⟨part, hpart, hmany⟩ := hgaveUp.1 hfailed
    rw [if_pos (.inr (.inl hfailed))]
    exact ⟨hsettings, hstopped, hroom, fun h => by simp [hfailed] at h,
      fun _ => ⟨part, hpart.trans (suffix_cons ..), hmany⟩, fun _ => hfailed⟩
  have hnot : ∀ part, part <:+ history → ¬policy.maxRestarts < (policy.window part).length :=
    fun part hpart hmany => hfailed (hgaveUp.2 ⟨part, hpart, hmany⟩)
  have htimes : s.crashTimesNs.filter (fun time => nowNs - time ≤ s.withinMs * 1000000) ++
      [nowNs] = policy.window (nowNs :: history) := by
    rw [hcounts (by simpa using hfailed), hsettings.2.1, window_cons hnow]
  have hsize : ((policy.window (nowNs :: history)).length : ℤ) ≤ policy.maxRestarts + 1 := by
    have hbefore := hnot history suffix_rfl
    have hkept := length_filter_le
      (fun time => decide (nowNs - time ≤ policy.withinMs * 1000000)) (policy.window history)
    rw [window_cons hnow, length_append, length_singleton]
    omega
  rw [if_neg (by simp [hsettings.1, hstopped, hfailed, hlimit])]
  dsimp only
  rw [htimes]
  split
  · next hmany =>
    rw [hsettings.1] at hmany
    exact ⟨hsettings, rfl, hsize, nofun, fun _ => ⟨_, suffix_rfl, hmany⟩, fun _ => rfl⟩
  · next hfew =>
    rw [hsettings.1] at hfew
    refine ⟨hsettings, hstopped, hsize, fun _ => rfl, fun h => absurd h hfailed, ?_⟩
    rintro ⟨part, hpart, hmany⟩
    rcases suffix_cons_iff.1 hpart with rfl | hpart
    · exact absurd hmany hfew
    · exact absurd hmany (hnot part hpart)

lemma Crashed.accounts (hlimit : 0 ≤ policy.maxRestarts) (h : Crashed policy crashes s) :
    Accounts policy (times crashes) s ∧
      ∀ child, (s.children child).consecutiveCrashes = policy.inARow child crashes := by
  induction h with
  | start =>
    refine ⟨⟨⟨rfl, rfl, rfl, rfl⟩, rfl, ?_, fun _ => rfl, ?_⟩, fun _ => rfl⟩
    · simp [supervisorNew]
      omega
    · simp [supervisorNew, Policy.Exceeded, Policy.window, hlimit]
  | other children childCount _ hkept ih =>
    exact ⟨ih.1.children children childCount, fun child => (hkept child).trans (ih.2 child)⟩
  | crash crash hs hnow hcrash ih =>
    obtain ⟨children, others, _, rfl, -, -, -, hcrashes, heq⟩ := endAttempt_crash hcrash
    rw [heq]
    refine ⟨((ih.1.children children _).count hlimit hnow).children others _, fun child => ?_⟩
    dsimp only
    rw [hcrashes, Policy.inARow]
    by_cases hchild : child = crash.child
    · rw [if_pos hchild, if_pos hchild.symm, crashesInARow, ih.1.settings.2.2.2, ih.2, hchild]
    · rw [if_neg hchild, if_neg (Ne.symm hchild), ih.2]

/-- The supervisor gives up exactly at the first crash with more than `max_restarts` crashes in its
window, the buffer has room, a crash takes back no restart but its own, and the pauses double up to
the longest with each crash of the child in a row. -/
theorem intensity_exact (h : Crashed policy crashes s) (hlimit : 0 ≤ policy.maxRestarts) :
    (s.failed = true ↔ policy.Exceeded (times crashes)) ∧
    (s.crashTimesNs.length : ℤ) ≤ maxSupervisorRestarts + 1 ∧ policy.withinMs * 1000000 < 2 ^ 63 ∧
    (∀ doublings, doubleDelay policy.maxBackoffMs doublings policy.backoffMs < 2 ^ 63) ∧
    ∀ crash failure t, failure ≠ .interrupted →
      t = endAttempt s crash.child crash.startedNs crash.nowNs failure →
      (t.children crash.child).restartCount =
        (s.children crash.child).restartCount + (if t.failed = s.failed then 1 else 0) ∧
      (t.children crash.child).point = .ended false (min policy.maxBackoffMs
        (policy.backoffMs * 2 ^ (policy.inARow crash.child (crash :: crashes) - 1))) := by
  obtain ⟨⟨⟨-, -, hbackoff, hlongest⟩, -, hroom, -, hgaveUp⟩, hrow⟩ := h.accounts hlimit
  obtain ⟨⟨-, hrestarts⟩, ⟨-, hwithin⟩, hshort, hless, hlong⟩ :=
    And.intro policy.restarts_range (And.intro policy.within_range policy.backoff_range)
  have hint : int32Max = 2147483647 := rfl
  have hdelay doublings := doubleDelay_spec policy.maxBackoffMs doublings hshort (by omega)
  refine ⟨hgaveUp, by omega, by omega, fun doublings => ?_, ?_⟩
  · have hdouble := (hdelay doublings).1
    omega
  rintro crash failure t hcrash rfl
  obtain ⟨children, others, _, rfl, hcount, hpoint, hothers, -, heq⟩ := endAttempt_crash hcrash
  rw [heq]
  dsimp only
  rw [hothers, countCrash_restartCount, (countCrash_point _ _ _).1]
  dsimp only
  rw [hcount, hpoint, restartDelayMs, hbackoff, hlongest, (hdelay _).2, Policy.inARow, if_pos rfl,
    crashesInARow, hlongest, hrow]
  refine ⟨?_, rfl⟩
  split <;> rfl

/-- Two crashes in a second, and pauses of 20 to 100 milliseconds. -/
def twoInASecond : Policy := ⟨2, 1000, 20, 100, by decide, by decide, by decide⟩

def threeCrashes : List Crash :=
  [⟨0, 1120000000, 1150000000⟩, ⟨0, 150000000, 200000000⟩, ⟨0, 0, 100000000⟩]

/-- The first of the three crashes has left the window of the last, so the supervisor goes on; the
pause after the third in a row is four times the shortest. -/
theorem intensity_exact_window : ∃ s t, Crashed twoInASecond threeCrashes.tail s ∧
    Crashed twoInASecond threeCrashes t ∧ t.failed = false ∧
    t = endAttempt s 0 1120000000 1150000000 (.exception "") ∧
    (t.children 0).point = .ended false 80 := by
  have hcrash : Failure.exception "" ≠ .interrupted := by simp
  obtain ⟨s, hs⟩ : ∃ s, Crashed twoInASecond threeCrashes.tail s :=
    ⟨_, .crash _ (.crash _ (.start .oneForOne) (by simp) hcrash) (by simp) hcrash⟩
  have ht : Crashed twoInASecond threeCrashes _ := .crash _ hs (by simp) hcrash
  obtain ⟨-, hpause⟩ := (intensity_exact hs (by decide)).2.2.2.2 ⟨0, 1120000000, 1150000000⟩
    (.exception "") _ hcrash rfl
  have hnot : ¬twoInASecond.Exceeded (times threeCrashes) := by
    rintro ⟨part, hpart, hmany⟩
    simp only [times, threeCrashes, map_cons, map_nil, suffix_cons_iff, suffix_nil] at hpart
    rcases hpart with rfl | rfl | rfl | rfl <;> exact absurd hmany (by decide)
  exact ⟨s, _, hs, ht, Bool.eq_false_iff.2 (mt (intensity_exact ht (by decide)).1.1 hnot), rfl,
    hpause.trans (by decide)⟩

end Diamond.Supervisor
