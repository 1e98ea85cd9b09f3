import Mathlib.Algebra.Order.Ring.Nat
import Mathlib.Data.List.Basic

/-!
# Sorting with a block

Model of `diamond_sort_with` in `lib/core.d6`, for a block that gives an Int for every two items: passes
that merge neighbouring runs, whose width doubles.
-/

namespace Diamond.Prelude

open List

variable {V : Type*} (callback : V → V → ℤ)

/-- The inner loops: the right item goes first if the block says so, and what is left over last. -/
def mergeRuns (left right : List V) : List V :=
  left.merge right fun x y => !decide (callback x y > 0)

/-- A pass over runs of `2 ^ k` items. -/
def sortPass (k : ℕ) (items : List V) : List V :=
  if items = [] then []
  else
    mergeRuns callback (items.take (2 ^ k)) ((items.drop (2 ^ k)).take (2 ^ k)) ++
      sortPass k (items.drop (2 ^ k + 2 ^ k))
termination_by items.length
decreasing_by
  have hwidth := Nat.two_pow_pos k
  have hitems := List.length_pos_iff.2 ‹_›
  simp only [List.length_drop]
  omega

def sortLoop (count k : ℕ) (items : List V) : List V :=
  if 2 ^ k < count then sortLoop count (k + 1) (sortPass callback k items) else items
termination_by count - 2 ^ k
decreasing_by
  have hwidth := Nat.two_pow_pos k
  rw [Nat.pow_succ]
  omega

def diamondSortWith (values : List V) : List V := sortLoop callback values.length 0 values

/-- Two items that the block calls equal. -/
def same (x y : V) : Bool := callback x y ≤ 0 ∧ callback y x ≤ 0

/-- The run has the items of the source, ascending, and those that are equal in their order. -/
structure StableSort (source run : List V) : Prop where
  perm : run.Perm source
  ascending : run.Pairwise (callback · · ≤ 0)
  order : ∀ x, run.filter (same callback x) = source.filter (same callback x)

/-- The list is made of sorted runs of this width, of which the last may be shorter. -/
inductive Runs (width : ℕ) : List V → List V → Prop
  | last {s r} (hlength : s.length ≤ width) (h : StableSort callback s r) : Runs width s r
  | cons {s r s' r'} (hlength : s.length = width) (h : StableSort callback s r)
      (hrest : Runs width s' r') : Runs width (s ++ s') (r ++ r')

variable {callback} {s r s' r' : List V} {k width : ℕ}

/-- One run is all of the list. -/
lemma Runs.stable (h : Runs callback width s r) (hlength : s.length ≤ width) :
    StableSort callback s r := by
  induction h with
  | last _ h => exact h
  | @cons s r s' r' _ _ _ ih =>
    rw [length_append] at hlength
    obtain rfl : s' = [] := length_eq_zero_iff.1 (by omega)
    obtain rfl : r' = [] := perm_nil.1 (ih (Nat.zero_le _)).perm
    rwa [append_nil, append_nil]

section
variable (htrans : ∀ x y z, callback x y ≤ 0 → callback y z ≤ 0 → callback x z ≤ 0)
  (htotal : ∀ x y, callback x y ≤ 0 ∨ callback y x ≤ 0)
include htrans

/-- An item of the right run that goes first is equal to none of the left run. -/
lemma filter_mergeRuns (x : V) (hr : r.Pairwise (callback · · ≤ 0)) :
    (mergeRuns callback r r').filter (same callback x) =
      r.filter (same callback x) ++ r'.filter (same callback x) := by
  unfold mergeRuns
  fun_induction List.merge r r' fun x y => !decide (callback x y > 0) with
  | case1 => rfl
  | case2 => simp
  | case3 _ _ _ _ _ ih =>
    simp only [filter_cons, ih hr.of_cons]
    split <;> rfl
  | case4 a left b _ hle ih =>
    have hab : ¬callback a b ≤ 0 := by simpa using hle
    rw [filter_cons, ih hr, filter_cons (x := b)]
    split
    · next hb =>
      have hnone : (a :: left).filter (same callback x) = [] := by
        rw [filter_eq_nil_iff]
        intro y hy hyx
        simp only [same, decide_eq_true_eq] at hb hyx
        have hyb := htrans y x b hyx.2 hb.1
        rcases mem_cons.1 hy with rfl | hy
        · exact hab hyb
        · exact hab (htrans a y b (rel_of_pairwise_cons hr hy) hyb)
      rw [hnone]
      rfl
    · rfl

include htotal

lemma StableSort.merge (h : StableSort callback s r) (h' : StableSort callback s' r') :
    StableSort callback (s ++ s') (mergeRuns callback r r') := by
  refine ⟨(merge_perm_append _).trans (h.perm.append h'.perm), ?_, fun x => ?_⟩
  · have hmerge : (mergeRuns callback r r').Pairwise fun x y => !decide (callback x y > 0) :=
      pairwise_merge (fun x y z => by simpa using htrans x y z)
        (fun x y => by simpa using htotal x y) r r' (by simpa using h.ascending)
        (by simpa using h'.ascending)
    simpa using hmerge
  · rw [filter_mergeRuns htrans x h.ascending, h.order, h'.order, filter_append]

lemma Runs.pass (h : Runs callback (2 ^ k) s r) :
    Runs callback (2 ^ (k + 1)) s (sortPass callback k r) := by
  have hpow : 2 ^ (k + 1) = 2 ^ k + 2 ^ k := by rw [Nat.pow_succ]; omega
  have hwidth := Nat.two_pow_pos k
  -- A pass takes two runs at a time.
  induction hn : r.length using Nat.strongRecOn generalizing s r with
  | ind n ih =>
    cases h with
    | last hlength h =>
      have hr : r.length ≤ 2 ^ k := h.perm.length_eq ▸ hlength
      have hpass : sortPass callback k r = r := by
        rw [sortPass, take_of_length_le hr, drop_of_length_le hr,
          drop_of_length_le (Nat.le_add_left_of_le hr), sortPass]
        split <;> simp_all [mergeRuns]
      rw [hpass]
      exact .last (by omega) h
    | @cons _ r _ r' hlength h hrest =>
      have hr : r.length = 2 ^ k := h.perm.length_eq.trans hlength
      have hne : r ++ r' ≠ [] := append_ne_nil_of_left_ne_nil (length_pos_iff.1 (by omega)) _
      rw [sortPass, if_neg hne, take_left' hr, ← drop_drop, drop_left' hr]
      cases hrest with
      | last hlength' h' =>
        have hr' : r'.length ≤ 2 ^ k := h'.perm.length_eq ▸ hlength'
        rw [take_of_length_le hr', drop_of_length_le hr', sortPass, if_pos rfl, append_nil]
        exact .last (by rw [length_append]; omega) (h.merge htrans htotal h')
      | @cons _ r₁ _ _ hlength' h' hrest =>
        have hr' : r₁.length = 2 ^ k := h'.perm.length_eq.trans hlength'
        rw [take_left' hr', drop_left' hr', ← append_assoc]
        simp only [length_append] at hn
        exact .cons (by rw [length_append]; omega) (h.merge htrans htotal h')
          (ih _ (by omega) hrest rfl)

lemma sortLoop_stable {count : ℕ} (h : Runs callback (2 ^ k) s r) (hcount : s.length = count) :
    StableSort callback s (sortLoop callback count k r) := by
  fun_induction sortLoop callback count k r with
  | case1 k r _ ih => exact ih (h.pass htrans htotal)
  | case2 => exact h.stable (by omega)

end

/-- For a block that is a total preorder, the result has the items of the Array in ascending order, and
equal items in the order they had. -/
theorem sort_with_stable (callback : V → V → ℤ)
    (htrans : ∀ x y z, callback x y ≤ 0 → callback y z ≤ 0 → callback x z ≤ 0)
    (htotal : ∀ x y, callback x y ≤ 0 ∨ callback y x ≤ 0) (values : List V) :
    StableSort callback values (diamondSortWith callback values) := by
  have hruns : ∀ values : List V, Runs callback (2 ^ 0) values values := by
    intro values
    induction values with
    | nil => exact .last (Nat.zero_le _) ⟨.refl _, .nil, fun _ => rfl⟩
    | cons x _ ih =>
      exact .cons (s := [x]) rfl ⟨.refl _, List.pairwise_singleton _ x, fun _ => rfl⟩ ih
  exact sortLoop_stable htrans htotal (hruns values) rfl

theorem sort_with_stable_ints :
    StableSort (fun x y : ℤ => x - y) [2, 1] (diamondSortWith (fun x y : ℤ => x - y) [2, 1]) :=
  sort_with_stable _ (fun x y z => by omega) (fun x y => by omega) [2, 1]

end Diamond.Prelude
