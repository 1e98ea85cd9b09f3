import Diamond.Bignum.Value

/-!
# Bignum addition, subtraction, negation and multiplication

Model of the sign-aware entry points of `src/bignum.c` on `DiamondIntView`s. The specifications take
any view `⟨s, digits base m⟩`, including the negative zero that `diamond_bignum_subtract` makes when
it flips the sign of its right operand.
-/

namespace Diamond.Bignum
open Nat (ofDigits digits)
open Positional

def diamondBignumAdd (mem : Alloc) (left right : IntView) : DiamondValue :=
  if !mem 0 then .nil
  else if left.negative == right.negative then
    bignumCanonicalize (mem.after 1) left.negative (magnitudeAdd left.limbs right.limbs)
  else
    match magnitudeCompare left.limbs right.limbs with
    | .eq => .int 0
    | .gt =>
      bignumCanonicalize (mem.after 1) left.negative (magnitudeSubtract left.limbs right.limbs)
    | .lt =>
      bignumCanonicalize (mem.after 1) right.negative (magnitudeSubtract right.limbs left.limbs)

def diamondBignumSubtract (mem : Alloc) (left right : IntView) : DiamondValue :=
  diamondBignumAdd mem left { right with negative := !right.negative }

def diamondBignumNegate (mem : Alloc) (value : IntView) : DiamondValue :=
  bignumCanonicalize mem (!value.negative) value.limbs

def diamondBignumMultiply (mem : Alloc) (left right : IntView) : DiamondValue :=
  if !mem 0 then .nil
  else bignumCanonicalize (mem.after 1) (left.negative != right.negative)
    (magnitudeMultiply left.limbs right.limbs)

def diamondBignumCompare (left right : IntView) : Ordering :=
  if left.negative != right.negative then
    if left.negative then .lt else .gt
  else
    let magnitudeComparison := magnitudeCompare left.limbs right.limbs
    if left.negative then magnitudeComparison.swap else magnitudeComparison

lemma signed_not (s : Bool) (m : ℕ) : signed (!s) m = -signed s m := by
  cases s <;> simp [signed]

lemma signed_bne (s t : Bool) (m n : ℕ) : signed (s != t) (m * n) = signed s m * signed t n := by
  cases s <;> cases t <;> simp [signed]

lemma signed_add (s : Bool) (m n : ℕ) : signed s (m + n) = signed s m + signed s n := by
  cases s <;> simp [signed]
  ring

/-- Magnitudes of opposite sign: the larger one keeps its sign. -/
lemma signed_sub {s t} (hst : s ≠ t) {m n} (h : n ≤ m) :
    signed s (m - n) = signed s m + signed t n := by
  cases s <;> cases t <;> simp_all [signed] <;> omega

/-- A request the operation makes before any result fails: `DIAMOND_NIL`. -/
lemma Returns.nil_of_not {mem k n} (h : (!mem k) = true) : Returns mem .nil n :=
  .inr ⟨rfl, k, by simpa using h⟩

lemma bignum_add_returns (mem : Alloc) (s t : Bool) (m n : ℕ) :
    Returns mem (diamondBignumAdd mem ⟨s, digits base m⟩ ⟨t, digits base n⟩)
      (signed s m + signed t n) := by
  simp only [diamondBignumAdd, magnitude_compare_digits, beq_iff_eq]
  split_ifs with hmem hst
  · exact .nil_of_not hmem
  · subst hst
    rw [magnitude_add_digits, ← signed_add]
    exact (canonicalize_returns _ s (m + n)).of_after
  rcases lt_trichotomy m n with hlt | rfl | hgt
  · rw [Nat.compare_eq_lt.2 hlt, magnitude_subtract_digits hlt.le, add_comm,
      ← signed_sub (Ne.symm hst) hlt.le]
    exact (canonicalize_returns _ t (n - m)).of_after
  · have hzero : signed s m + signed t m = (0 : Int64).toInt := by
      rw [← signed_sub hst le_rfl, Nat.sub_self]
      cases s <;> rfl
    rw [Nat.compare_eq_eq.2 rfl, hzero]
    exact .inl (.int 0)
  · rw [Nat.compare_eq_gt.2 hgt, magnitude_subtract_digits hgt.le, ← signed_sub hst hgt.le]
    exact (canonicalize_returns _ s (m - n)).of_after

lemma bignum_multiply_returns (mem : Alloc) (s t : Bool) (m n : ℕ) :
    Returns mem (diamondBignumMultiply mem ⟨s, digits base m⟩ ⟨t, digits base n⟩)
      (signed s m * signed t n) := by
  rw [diamondBignumMultiply]
  split_ifs with hmem
  · exact .nil_of_not hmem
  · rw [magnitude_multiply_digits, ← signed_bne]
    exact (canonicalize_returns _ (s != t) (m * n)).of_after

section Exact

variable (mem : Alloc) (m n : ℤ)

lemma add_view_returns : Returns mem (diamondBignumAdd mem (viewOf m) (viewOf n)) (m + n) := by
  have := bignum_add_returns mem (decide (m < 0)) (decide (n < 0)) m.natAbs n.natAbs
  rwa [signed_natAbs, signed_natAbs] at this

lemma subtract_view_returns :
    Returns mem (diamondBignumSubtract mem (viewOf m) (viewOf n)) (m - n) := by
  have := bignum_add_returns mem (decide (m < 0)) (!decide (n < 0)) m.natAbs n.natAbs
  rwa [signed_not, signed_natAbs, signed_natAbs, ← sub_eq_add_neg] at this

lemma negate_view_returns : Returns mem (diamondBignumNegate mem (viewOf m)) (-m) := by
  have := canonicalize_returns mem (!decide (m < 0)) m.natAbs
  rwa [signed_not, signed_natAbs] at this

lemma multiply_view_returns :
    Returns mem (diamondBignumMultiply mem (viewOf m) (viewOf n)) (m * n) := by
  have := bignum_multiply_returns mem (decide (m < 0)) (decide (n < 0)) m.natAbs n.natAbs
  rwa [signed_natAbs, signed_natAbs] at this

lemma compare_view : diamondBignumCompare (viewOf m) (viewOf n) = compare m n := by
  simp only [diamondBignumCompare, viewOf, magnitude_compare_digits]
  rcases lt_or_ge m 0 with hm | hm <;> rcases lt_or_ge n 0 with hn | hn
  · simp only [hm, hn, decide_true, bne_self_eq_false, Bool.false_eq_true, if_false, if_true,
      Nat.compare_swap]
    rcases lt_trichotomy m n with h | rfl | h
    · rw [compare_lt_iff_lt.2 h, Nat.compare_eq_lt]
      omega
    · simp
    · rw [compare_gt_iff_gt.2 h, Nat.compare_eq_gt]
      omega
  · simp [hm, hn.not_gt, compare_lt_iff_lt.2 (lt_of_lt_of_le hm hn)]
  · simp [hm.not_gt, hn, compare_gt_iff_gt.2 (lt_of_lt_of_le hn hm)]
  · simp only [hm.not_gt, hn.not_gt, decide_false, bne_self_eq_false, Bool.false_eq_true, if_false]
    rcases lt_trichotomy m n with h | rfl | h
    · rw [compare_lt_iff_lt.2 h, Nat.compare_eq_lt]
      omega
    · simp
    · rw [compare_gt_iff_gt.2 h, Nat.compare_eq_gt]
      omega

end Exact

/-- Addition, subtraction, multiplication and negation of any two Ints give the exact integer in
canonical form, or `DIAMOND_NIL` after a failed allocation. -/
theorem bignum_arithmetic_exact (mem : Alloc) (a b : IntValue) :
    Returns mem (diamondBignumAdd mem (diamondIntView a.raw) (diamondIntView b.raw))
        (a.toInt + b.toInt) ∧
      Returns mem (diamondBignumSubtract mem (diamondIntView a.raw) (diamondIntView b.raw))
        (a.toInt - b.toInt) ∧
      Returns mem (diamondBignumMultiply mem (diamondIntView a.raw) (diamondIntView b.raw))
        (a.toInt * b.toInt) ∧
      Returns mem (diamondBignumNegate mem (diamondIntView a.raw)) (-a.toInt) := by
  rw [a.canonical.view, b.canonical.view]
  exact ⟨add_view_returns mem _ _, subtract_view_returns mem _ _, multiply_view_returns mem _ _,
    negate_view_returns mem _⟩

end Diamond.Bignum
