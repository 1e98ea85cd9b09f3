import Diamond.Bignum.Arithmetic

/-!
# Bignum division

Model of `magnitude_divide`, `diamond_bignum_divide_floored` and `diamond_bignum_modulo_floored`
(`src/bignum.c`): long division, most significant limb first, with a binary search for each quotient
digit. Diamond's floored `/` and `%` are Lean's `Int.fdiv` and `Int.fmod`.
-/

namespace Diamond.Bignum
open Nat (ofDigits digits)
open Positional Nat Int

/-- The binary search of `magnitude_divide` for the largest `digit` with `b * digit ≤ remainder`.
Its bounds never leave `0 .. DIAMOND_BIGNUM_BASE - 1`, so `uint32_t` arithmetic does not wrap. -/
def quotientDigitLoop (b remainder : List ℕ) (low high digit : ℕ) : ℕ :=
  if low ≤ high then
    let mid := low + (high - low) / 2
    if magnitudeCompare (magnitudeMultiplyScalar b mid) remainder ≠ .gt then
      if mid = base - 1 then mid else quotientDigitLoop b remainder (mid + 1) high mid
    else
      if mid = 0 then digit else quotientDigitLoop b remainder low (mid - 1) digit
  else digit
termination_by high + 1 - low
decreasing_by all_goals omega

/-- Quotient and remainder limbs (the loop of C `magnitude_divide`). The limbs above `x` are divided
before it; their remainder is then shifted up by one limb to take `x` in. -/
def magnitudeDivideLoop (b : List ℕ) : List ℕ → List ℕ × List ℕ
  | [] => ([], [])
  | x :: a =>
    let (quotient, remainder) := magnitudeDivideLoop b a
    let remainder := magnitudeTrim (x :: remainder)
    let digit := quotientDigitLoop b remainder 0 (base - 1) 0
    (digit :: quotient, magnitudeSubtract remainder (magnitudeMultiplyScalar b digit))

/-- C `magnitude_divide`; its one allocation is the scratch buffer. -/
def magnitudeDivide (mem : Alloc) (a b : List ℕ) : Option (List ℕ × List ℕ) :=
  if !mem 0 then none
  else
    let (quotient, remainder) := magnitudeDivideLoop b a
    some (magnitudeTrim quotient, remainder)

def diamondBignumDivideFloored (mem : Alloc) (left right : IntView) : DiamondValue :=
  if !mem 0 || !mem 1 then .nil
  else
    match magnitudeDivide (mem.after 2) left.limbs right.limbs with
    | none => .nil
    | some (quotient, remainder) =>
      let negative := left.negative != right.negative
      let quotient :=
        if negative && (magnitudeTrim remainder).length != 0 then magnitudeAdd quotient [1]
        else quotient
      bignumCanonicalize (mem.after 3) negative quotient

def diamondBignumModuloFloored (mem : Alloc) (left right : IntView) : DiamondValue :=
  if !mem 0 || !mem 1 || !mem 2 then .nil
  else
    match magnitudeDivide (mem.after 3) left.limbs right.limbs with
    | none => .nil
    | some (_, remainder) =>
      let remainder := magnitudeTrim remainder
      if remainder.length == 0 then .int 0
      else if left.negative == right.negative then
        bignumCanonicalize (mem.after 4) right.negative remainder
      else
        bignumCanonicalize (mem.after 4) right.negative (magnitudeSubtract right.limbs remainder)

@[simp]
lemma magnitude_trim_digits (k : ℕ) : magnitudeTrim (digits base k) = digits base k := by
  rw [magnitude_trim_eq_digits (normal_digits one_lt_base k).below, ofDigits_digits]

variable {n : ℕ}

lemma quotient_digit_loop_eq {r low high digit} (hn : 0 < n) (hq : r / n < base)
    (hlow : low = 0 ∧ digit = 0 ∨ low = digit + 1 ∧ digit ≤ r / n) (hhigh : r / n ≤ high)
    (hbase : high < base) :
    quotientDigitLoop (digits base n) (digits base r) low high digit = r / n := by
  induction hk : high + 1 - low using Nat.strong_induction_on generalizing low high digit with
  | _ k ih =>
    unfold quotientDigitLoop
    split_ifs with hle
    · have hmid : low + (high - low) / 2 ≤ high := by omega
      -- the probe succeeds exactly up to the quotient digit
      have hprobe : magnitudeCompare
          (magnitudeMultiplyScalar (digits base n) (low + (high - low) / 2)) (digits base r) ≠ .gt ↔
            low + (high - low) / 2 ≤ r / n := by
        rw [magnitude_multiply_scalar_digits _ (by omega), magnitude_compare_digits, ne_eq,
          Nat.compare_eq_gt, Nat.le_div_iff_mul_le hn, not_lt, mul_comm]
      dsimp only
      split_ifs with hsome htop hzero
      · have := hprobe.1 hsome
        omega
      · have := hprobe.1 hsome
        exact ih _ (by omega) (.inr ⟨rfl, this⟩) hhigh hbase rfl
      · exact absurd (hprobe.2 (hzero ▸ Nat.zero_le (r / n))) hsome
      · have := mt hprobe.2 hsome
        exact ih _ (by omega) hlow (by omega) (by omega) rfl
    · omega

lemma magnitude_divide_loop_value (hn : 0 < n) {a} (ha : Below base a) :
    Below base (magnitudeDivideLoop (digits base n) a).1 ∧
      ofDigits base (magnitudeDivideLoop (digits base n) a).1 = ofDigits base a / n ∧
        (magnitudeDivideLoop (digits base n) a).2 = digits base (ofDigits base a % n) := by
  induction a with
  | nil => simp [magnitudeDivideLoop, below_nil]
  | cons x a ih =>
    obtain ⟨hx, ha⟩ := below_cons.1 ha
    obtain ⟨hbelow, hquot, hrem⟩ := ih ha
    set A := ofDigits base a with hA
    -- the remainder with the next limb shifted in
    set r := x + base * (A % n) with hr
    have hAn : A % n < n := mod_lt A hn
    have htrim : magnitudeTrim (x :: digits base (A % n)) = digits base r := by
      rw [magnitude_trim_eq_digits (below_cons.2 ⟨hx, (normal_digits one_lt_base _).below⟩),
        ofDigits_cons, ofDigits_digits]
    have hq : r / n < base := by
      rw [Nat.div_lt_iff_lt_mul hn]
      nlinarith
    have hdigit : quotientDigitLoop (digits base n) (digits base r) 0 (base - 1) 0 = r / n :=
      quotient_digit_loop_eq hn hq (.inl ⟨rfl, rfl⟩) (by omega) (by omega)
    have hsub : magnitudeSubtract (digits base r) (magnitudeMultiplyScalar (digits base n) (r / n))
        = digits base (r % n) := by
      rw [magnitude_multiply_scalar_digits _ hq, magnitude_subtract_digits (mul_div_le r n)]
      congr 1
      have := mod_add_div r n
      omega
    have htotal : x + base * A = r + n * (base * (A / n)) := by
      rw [hr]
      nth_rewrite 1 [← mod_add_div A n]
      ring
    simp only [magnitudeDivideLoop, hrem, htrim, hdigit, hsub, ofDigits_cons, hquot, ← hA, htotal]
    refine ⟨below_cons.2 ⟨hq, hbelow⟩, ?_, ?_⟩
    · rw [add_mul_div_left _ _ hn]
    · rw [add_mul_mod_self_left]

lemma magnitude_divide_digits {mem} (hmem : mem 0) (m : ℕ) (hn : 0 < n) :
    magnitudeDivide mem (digits base m) (digits base n)
      = some (digits base (m / n), digits base (m % n)) := by
  obtain ⟨hbelow, hquot, hrem⟩ := magnitude_divide_loop_value hn (normal_digits one_lt_base m).below
  simp only [ofDigits_digits] at hquot hrem
  simp [magnitudeDivide, hmem, magnitude_trim_eq_digits hbelow, hquot, hrem]

/-- Floored division of signed magnitudes: a negative quotient with a remainder is one further from
zero. -/
lemma signed_fdiv (s t : Bool) (m : ℕ) (hn : 0 < n) :
    signed (s != t) (m / n + if (s != t) && m % n != 0 then 1 else 0)
      = (signed s m).fdiv (signed t n) := by
  have hn0 : (n : ℤ) ≠ 0 := by omega
  have hdvd : (n : ℤ) ∣ m ↔ m % n = 0 := by rw [natCast_dvd_natCast, dvd_iff_mod_eq_zero]
  by_cases hrem : m % n = 0 <;> cases s <;> cases t <;>
    simp [signed, neg_fdiv, fdiv_neg hn0, hdvd, hrem, hn.ne', ← ofNat_fdiv]
  all_goals ring

lemma signed_fmod (s t : Bool) (m : ℕ) (hn : 0 < n) :
    signed t (if m % n = 0 then 0 else if s = t then m % n else n - m % n)
      = (signed s m).fmod (signed t n) := by
  rw [fmod_def, ← signed_fdiv s t m hn]
  have hlt := mod_lt m hn
  have hdiv : (m : ℤ) = (m % n : ℕ) + n * (m / n : ℕ) := by
    exact_mod_cast (mod_add_div m n).symm
  generalize m % n = k at *
  generalize m / n = q at *
  rcases Nat.eq_zero_or_pos k with rfl | hk
  · cases s <;> cases t <;> simp [signed, hdiv]
  · have hcast : ((n - k : ℕ) : ℤ) = n - k := by omega
    cases s <;> cases t <;> simp [signed, hdiv, hk.ne', hcast] <;> ring

variable (mem : Alloc)

/-- The division of a view by a nonzero one, when its scratch buffer is there. -/
lemma magnitude_divide_cases (m : ℕ) (hn : 0 < n) :
    mem 0 = false ∧ magnitudeDivide mem (digits base m) (digits base n) = none ∨
      magnitudeDivide mem (digits base m) (digits base n)
        = some (digits base (m / n), digits base (m % n)) := by
  cases hmem : mem 0 with
  | false => exact .inl ⟨rfl, by simp [magnitudeDivide, hmem]⟩
  | true => exact .inr (magnitude_divide_digits hmem m hn)

lemma length_digits_bne_zero (k : ℕ) : ((digits base k).length != 0) = (k != 0) := by
  rw [Bool.eq_iff_iff, bne_iff_ne, bne_iff_ne, ne_eq, List.length_eq_zero_iff,
    digits_eq_nil_iff_eq_zero]

lemma bignum_divide_returns (s t : Bool) (m : ℕ) (hn : 0 < n) :
    Returns mem (diamondBignumDivideFloored mem ⟨s, digits base m⟩ ⟨t, digits base n⟩)
      ((signed s m).fdiv (signed t n)) := by
  have hone : [1] = digits base 1 := (digits_of_lt base 1 one_ne_zero one_lt_base).symm
  rw [diamondBignumDivideFloored, ← signed_fdiv s t m hn]
  split
  case isTrue hmem => rcases Bool.or_eq_true_iff.1 hmem with h | h <;> exact .nil_of_not h
  case isFalse =>
    rcases magnitude_divide_cases (mem.after 2) m hn with ⟨hscratch, h⟩ | h
    · simp only [h]
      exact .inr ⟨rfl, 2, hscratch⟩
    · simp only [h, magnitude_trim_digits, length_digits_bne_zero, hone, magnitude_add_digits]
      split_ifs
      all_goals exact (canonicalize_returns _ _ _).of_after

lemma bignum_modulo_returns (s t : Bool) (m : ℕ) (hn : 0 < n) :
    Returns mem (diamondBignumModuloFloored mem ⟨s, digits base m⟩ ⟨t, digits base n⟩)
      ((signed s m).fmod (signed t n)) := by
  rw [diamondBignumModuloFloored, ← signed_fmod s t m hn]
  split
  case isTrue hmem =>
    rcases Bool.or_eq_true_iff.1 hmem with h | h
    · rcases Bool.or_eq_true_iff.1 h with h | h <;> exact .nil_of_not h
    · exact .nil_of_not h
  case isFalse =>
    rcases magnitude_divide_cases (mem.after 3) m hn with ⟨hscratch, h⟩ | h
    · simp only [h]
      exact .inr ⟨rfl, 3, hscratch⟩
    simp only [h, magnitude_trim_digits, magnitude_subtract_digits (mod_lt m hn).le,
      beq_iff_eq, List.length_eq_zero_iff, digits_eq_nil_iff_eq_zero]
    split_ifs
    · have h0 : signed t 0 = (0 : Int64).toInt := by cases t <;> rfl
      rw [h0]
      exact .inl (.int 0)
    all_goals exact (canonicalize_returns _ _ _).of_after

lemma divide_view_returns (a : ℤ) {b} (hb : b ≠ 0) :
    Returns mem (diamondBignumDivideFloored mem (viewOf a) (viewOf b)) (a.fdiv b) := by
  have := bignum_divide_returns mem (decide (a < 0)) (decide (b < 0)) a.natAbs (natAbs_pos.2 hb)
  rwa [signed_natAbs, signed_natAbs] at this

lemma modulo_view_returns (a : ℤ) {b} (hb : b ≠ 0) :
    Returns mem (diamondBignumModuloFloored mem (viewOf a) (viewOf b)) (a.fmod b) := by
  have := bignum_modulo_returns mem (decide (a < 0)) (decide (b < 0)) a.natAbs (natAbs_pos.2 hb)
  rwa [signed_natAbs, signed_natAbs] at this

end Diamond.Bignum
