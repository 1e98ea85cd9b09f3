import Mathlib.Tactic

/-!
# Ranges of a comparison

Optional bounds over any transitive comparison.  A bound is a lower one; an upper bound is a lower
bound of the opposite comparison, so each fact is stated once.
-/

namespace Diamond.Ranges
open Std (TransCmp OrientedCmp)

structure Bound (α : Type) where
  value : α
  inclusive : Bool
  deriving DecidableEq, Repr

variable {α : Type}

/-- The value meets the bound. -/
def meets (cmp : α → α → Ordering) (bound : Option (Bound α)) (v : α) : Bool :=
  match bound with
  | none => true
  | some b =>
    match cmp v b.value with
    | .lt => false
    | .eq => b.inclusive
    | .gt => true

/-- The bound that two bounds amount to. -/
def tighter (cmp : α → α → Ordering) : Option (Bound α) → Option (Bound α) → Option (Bound α)
  | some a, some b =>
    match cmp a.value b.value with
    | .gt => some a
    | .lt => some b
    | .eq => some ⟨a.value, a.inclusive && b.inclusive⟩
  | some a, none => some a
  | none, b => b

/-- A lower and an upper bound leave room for a value. -/
def compatible (cmp : α → α → Ordering) : Option (Bound α) → Option (Bound α) → Bool
  | some a, some b =>
    match cmp a.value b.value with
    | .lt => true
    | .eq => a.inclusive && b.inclusive
    | .gt => false
  | _, _ => true

variable {cmp : α → α → Ordering} [TransCmp cmp] {v : α}

/-- What meets a bound meets every bound below it. -/
lemma meets_of_gt {a b} (hab : cmp a.value b.value = .gt)
    (h : meets cmp (some a) v = true) : meets cmp (some b) v = true := by
  have hv : cmp v b.value = .gt := by
    rw [meets] at h
    cases hva : cmp v a.value with
    | lt => simp [hva] at h
    | eq => exact TransCmp.gt_of_isGE_of_gt (by simp [hva]) hab
    | gt => exact TransCmp.gt_trans hva hab
  rw [meets, hv]

lemma meets_tighter (a b : Option (Bound α)) :
    meets cmp (tighter cmp a b) v = (meets cmp a v && meets cmp b v) := by
  cases a with
  | none => rfl
  | some a =>
    cases b with
    | none => exact (Bool.and_true _).symm
    | some b =>
      rw [tighter]
      cases hab : cmp a.value b.value with
      | gt =>
        by_cases ha : meets cmp (some a) v = true
        · simp [ha, meets_of_gt hab ha]
        · simp [Bool.eq_false_iff.2 ha]
      | lt =>
        by_cases hb : meets cmp (some b) v = true
        · simp [hb, meets_of_gt (OrientedCmp.gt_of_lt hab) hb]
        · simp [Bool.eq_false_iff.2 hb]
      | eq =>
        have hv : cmp v a.value = cmp v b.value := TransCmp.congr_right hab
        simp only [meets, ← hv]
        cases cmp v a.value <;> simp

/-- Bounds that leave no room have no value between them. -/
lemma not_meets_of_not_compatible {a b} (h : compatible cmp a b = false)
    (ha : meets cmp a v = true) : meets (fun x y => cmp y x) b v = false := by
  cases a with
  | none => simp [compatible] at h
  | some a =>
    cases b with
    | none => simp [compatible] at h
    | some b =>
      rw [compatible] at h
      rw [meets] at ha ⊢
      cases hab : cmp a.value b.value with
      | lt => simp [hab] at h
      | gt =>
        have hbv : cmp b.value v = .lt := by
          cases hva : cmp v a.value with
          | lt => simp [hva] at ha
          | eq =>
            exact OrientedCmp.lt_of_gt (TransCmp.gt_of_isGE_of_gt (by simp [hva]) hab)
          | gt => exact OrientedCmp.lt_of_gt (TransCmp.gt_trans hva hab)
        rw [hbv]
      | eq =>
        have hbv : cmp b.value v = cmp a.value v := TransCmp.congr_left (OrientedCmp.eq_symm hab)
        rw [hbv]
        cases hva : cmp v a.value with
        | lt => simp [hva] at ha
        | eq =>
          rw [OrientedCmp.eq_symm hva]
          simp only [hva] at ha
          simpa [hab, ha] using h
        | gt => rw [OrientedCmp.lt_of_gt hva]

end Diamond.Ranges
