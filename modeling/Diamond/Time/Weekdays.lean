import Mathlib.Tactic.IntervalCases

/-!
# Moving by weekdays

`Time#next_weekday` and `#previous_weekday` move by a number of days that is computed in closed form.
-/

namespace Diamond.Time

/-- `weekday_calendar_distance`, with Sunday as 0.  The method refuses negative counts, and no
subtraction here goes below zero. -/
def weekdayCalendarDistance (wday count : ℕ) (future : Bool) : ℕ :=
  if count = 0 then 0
  else if future then
    let (days, count, wday) :=
      if wday = 6 then (2, count - 1, 1)
      else if wday = 0 then (1, count - 1, 1)
      else (0, count, wday)
    if count = 0 then days
    else if count ≤ 5 - wday then days + count
    else days + (8 - wday) + (count - (6 - wday)) / 5 * 7 + (count - (6 - wday)) % 5
  else
    let (days, count, wday) :=
      if wday = 6 then (1, count - 1, 5)
      else if wday = 0 then (2, count - 1, 5)
      else (0, count, wday)
    if count = 0 then days
    else if count ≤ wday - 1 then days + count
    else days + (wday + 2) + (count - wday) / 5 * 7 + (count - wday) % 5

/-- The largest count that the methods accept. -/
def maxWeekdayCount : ℕ := 2610000

def stepDay (future : Bool) (wday : ℕ) : ℕ := (if future then wday + 1 else wday + 6) % 7

abbrev IsWeekday (wday : ℕ) : Prop := 1 ≤ wday ∧ wday ≤ 5

/-- From a day, `count` weekdays are passed in `days` days, one day at a time. -/
inductive Steps (future : Bool) : ℕ → ℕ → ℕ → Prop
  | arrived {wday} : Steps future wday 0 0
  | weekday {wday count days} (h : IsWeekday (stepDay future wday)) :
      Steps future (stepDay future wday) count days → Steps future wday (count + 1) (days + 1)
  | weekend {wday count days} (h : ¬IsWeekday (stepDay future wday)) :
      Steps future (stepDay future wday) (count + 1) days →
      Steps future wday (count + 1) (days + 1)

variable {future : Bool} {wday count days : ℕ}

lemma stepDay_lt : stepDay future wday < 7 := Nat.mod_lt _ (by decide)

/-- The closed form, one day further. -/
lemma distance_step (hwday : wday < 7) (count : ℕ) :
    weekdayCalendarDistance wday (count + 1) future = weekdayCalendarDistance (stepDay future wday)
        (if IsWeekday (stepDay future wday) then count else count + 1) future + 1 := by
  cases future <;> interval_cases wday <;>
    simp only [weekdayCalendarDistance, stepDay, IsWeekday] <;> simp <;> split_ifs <;> omega

lemma Steps.eq_distance (h : Steps future wday count days) (hwday : wday < 7) :
    days = weekdayCalendarDistance wday count future := by
  induction h with
  | arrived => rfl
  | weekday hday _ ih => rw [distance_step hwday, if_pos hday, ih stepDay_lt]
  | weekend hday _ ih => rw [distance_step hwday, if_neg hday, ih stepDay_lt]

/-- The next weekday is at most three days away. -/
lemma exists_steps (hwday : wday < 7) (count : ℕ) : ∃ days, Steps future wday count days := by
  induction count generalizing wday with
  | zero => exact ⟨0, .arrived⟩
  | succ count ih =>
    by_cases h₁ : IsWeekday (stepDay future wday)
    · obtain ⟨days, hsteps⟩ := ih stepDay_lt
      exact ⟨_, .weekday h₁ hsteps⟩
    by_cases h₂ : IsWeekday (stepDay future (stepDay future wday))
    · obtain ⟨days, hsteps⟩ := ih stepDay_lt
      exact ⟨_, .weekend h₁ (.weekday h₂ hsteps)⟩
    have h₃ : IsWeekday (stepDay future (stepDay future (stepDay future wday))) := by
      revert h₁ h₂
      cases future <;> interval_cases wday <;> decide
    obtain ⟨days, hsteps⟩ := ih stepDay_lt
    exact ⟨_, .weekend h₁ (.weekend h₂ (.weekday h₃ hsteps))⟩

/-- The closed form is the number of days reached by stepping, and for the counts that are accepted
it is an `int64_t`. -/
theorem weekday_distance_exact (future : Bool) (wday count days : ℕ) (hwday : wday < 7) :
    (Steps future wday count days ↔ days = weekdayCalendarDistance wday count future) ∧
    (count ≤ maxWeekdayCount → weekdayCalendarDistance wday count future < 2 ^ 63) := by
  refine ⟨⟨fun h => h.eq_distance hwday, ?_⟩, fun hcount => ?_⟩
  · rintro rfl
    obtain ⟨days, h⟩ := exists_steps hwday count
    rwa [h.eq_distance hwday] at h
  · rw [maxWeekdayCount] at hcount
    simp only [weekdayCalendarDistance]
    split_ifs <;> omega

/-- The weekday after a Friday is three days away. -/
theorem weekday_distance_friday : Steps true 5 1 3 :=
  (weekday_distance_exact true 5 1 3 (by decide)).1.2 rfl

end Diamond.Time
