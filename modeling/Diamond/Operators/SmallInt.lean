import Diamond.Bignum.Bitwise

/-!
# Int operators on `int64_t`

The fast paths of the Int opcodes (`src/vm_run_chunk.c`, `src/vm_internal.h`), on two immediates.
C's `/` and `%` truncate and are Lean's on `Int64`; the corrections for a remainder of the wrong
sign make them the floored `Int.fdiv` and `Int.fmod`.
-/

namespace Diamond.Operators
open Bignum TwosComplement Int64 Int

/-- The value a checked `ckd_add`, `ckd_sub` or `ckd_mul` stores, or `none` when it reports
overflow. -/
def checked (n : ℤ) : Option Int64 := if FitsInt64 n then some (Int64.ofInt n) else none

def ckdAdd (a b : Int64) : Option Int64 := checked (a.toInt + b.toInt)

def ckdSub (a b : Int64) : Option Int64 := checked (a.toInt - b.toInt)

def ckdMul (a b : Int64) : Option Int64 := checked (a.toInt * b.toInt)

def diamondIntFloorDivide (left right : Int64) : Int64 :=
  let quotient := left / right
  quotient - (if left % right ≠ 0 ∧ (left ^^^ right) < 0 then 1 else 0)

/-- The remainder of the `MODULO` handlers, for a divisor other than 0 and -1. -/
def floorRemainder (left right : Int64) : Int64 :=
  let remainder := left % right
  if remainder ≠ 0 ∧ (remainder < 0 ↔ ¬ right < 0) then remainder + right else remainder

/-- `(int64_t)((uint64_t)left << amount)`: the product with `2^amount` modulo `2^64`. -/
def shiftLeftWrap (left : Int64) (amount : ℕ) : Int64 := Int64.ofInt (left.toInt * 2 ^ amount)

/-- `left >> amount`, sign-extending. -/
def shiftRightArithmetic (left : Int64) (amount : ℕ) : Int64 := Int64.ofInt (left.toInt >>> amount)

def bitwiseInt64 : BitwiseOp → Int64 → Int64 → Int64
  | .and, a, b => a &&& b
  | .or, a, b => a ||| b
  | .xor, a, b => a ^^^ b

lemma toInt_ofInt {n} (h : FitsInt64 n) : (ofInt n).toInt = n := toInt_ofInt_of_le h.1 h.2

lemma canonical_int {v n} (h : v.toInt = n) : Canonical (.int v) n := h ▸ .int v

lemma lt_zero_iff (a : Int64) : a < 0 ↔ a.toInt < 0 := by
  rw [lt_iff_toInt_lt, toInt_zero]

lemma ne_zero_iff (a : Int64) : a ≠ 0 ↔ a.toInt ≠ 0 := by
  rw [ne_eq, ← toInt_inj, toInt_zero]

lemma xor_lt_zero_iff (a b : Int64) : (a ^^^ b) < 0 ↔ (a.toInt < 0 ↔ ¬ b.toInt < 0) := by
  have msb (x : Int64) : x.toInt < 0 ↔ x.toBitVec.msb = true := by
    rw [BitVec.msb_eq_toInt, decide_eq_true_eq, Int64.toInt_toBitVec]
  rw [lt_zero_iff, msb, msb, msb, Int64.toBitVec_xor, BitVec.msb_xor]
  cases a.toBitVec.msb <;> cases b.toBitVec.msb <;> simp

lemma tdiv_bounds {a b} (ha : FitsInt64 a) (hb : 2 ≤ b.natAbs) :
    -2 ^ 62 ≤ a.tdiv b ∧ a.tdiv b ≤ 2 ^ 62 := by
  have hle : (a.tdiv b).natAbs ≤ a.natAbs / 2 := by
    rw [natAbs_tdiv]
    exact Nat.div_le_div_left hb (by decide)
  obtain ⟨hlo, hhi⟩ := ha
  omega

variable {a b : Int64}

lemma toInt_sub_of_fits (h : FitsInt64 (a.toInt - b.toInt)) :
    (a - b).toInt = a.toInt - b.toInt := by
  obtain ⟨hlo, hhi⟩ := h
  rw [toInt_sub]
  exact bmod_eq_of_le (by omega) (by omega)

lemma toInt_add_of_fits (h : FitsInt64 (a.toInt + b.toInt)) :
    (a + b).toInt = a.toInt + b.toInt := by
  obtain ⟨hlo, hhi⟩ := h
  rw [toInt_add]
  exact bmod_eq_of_le (by omega) (by omega)

lemma mod_ne_zero_iff (a b : Int64) : a % b ≠ 0 ↔ ¬ b.toInt ∣ a.toInt := by
  rw [ne_zero_iff, toInt_mod, ne_eq, dvd_iff_tmod_eq_zero]

lemma floor_divide_toInt (hb : b ≠ 0) (hmin : ¬ (a = minValue ∧ b = -1)) :
    (diamondIntFloorDivide a b).toInt = a.toInt.fdiv b.toInt := by
  have hdiv : (a / b).toInt = a.toInt.tdiv b.toInt := by
    by_cases ha : a = minValue
    · exact toInt_div_of_ne_right a b (fun h => hmin ⟨ha, h⟩)
    · exact toInt_div_of_ne_left a b ha
  have hb0 : b.toInt ≠ 0 := (ne_zero_iff b).1 hb
  simp only [diamondIntFloorDivide, fdiv_eq_tdiv, mod_ne_zero_iff, xor_lt_zero_iff]
  by_cases hdvd : b.toInt ∣ a.toInt
  · simp [hdvd, hdiv]
  -- a divisor that leaves a remainder is not a unit
  have hb2 : 2 ≤ b.toInt.natAbs := by
    by_contra hlt
    have : b.toInt.natAbs = 1 := by omega
    exact hdvd (natAbs_dvd_natAbs.1 (this ▸ one_dvd _))
  have hbounds := tdiv_bounds (int64_fits a) hb2
  have hone : (a / b - 1).toInt = a.toInt.tdiv b.toInt - 1 := by
    rw [← hdiv, toInt_sub_of_fits (by rw [hdiv, FitsInt64, toInt_one]; omega), toInt_one]
  rcases lt_or_ge a.toInt 0 with ha | ha <;> rcases lt_or_gt_of_ne hb0 with hb' | hb'
  · simp [hdvd, ha, hb', ha.not_ge, hb'.not_ge, sign_eq_neg_one_of_neg hb', hdiv]
  · simp [hdvd, ha, hb'.not_gt, hb'.le, ha.not_ge, sign_eq_one_of_pos hb', hone]
  · simp [hdvd, ha.not_gt, hb', ha, hb'.not_ge, hone]
  · simp [hdvd, ha.not_gt, hb'.not_gt, ha, hb'.le, hdiv]

lemma floor_remainder_toInt (hb : b ≠ 0) : (floorRemainder a b).toInt = a.toInt.fmod b.toInt := by
  have hb0 : b.toInt ≠ 0 := (ne_zero_iff b).1 hb
  have hfits := int64_fits (a % b)
  have hfitsb := int64_fits b
  simp only [floorRemainder, fmod_eq_tmod, mod_ne_zero_iff, lt_zero_iff, toInt_mod]
  rw [toInt_mod] at hfits
  by_cases hdvd : b.toInt ∣ a.toInt
  · simp [hdvd]
  -- the truncated remainder takes the sign of the dividend
  have hsign := sign_tmod a.toInt b.toInt
  rw [if_neg hdvd] at hsign
  have hneg : a.toInt.tmod b.toInt < 0 ↔ a.toInt < 0 := by
    rw [← sign_eq_neg_one_iff_neg, hsign, sign_eq_neg_one_iff_neg]
  have hadd (hs : a.toInt < 0 ↔ ¬ b.toInt < 0) :
      (a % b + b).toInt = a.toInt.tmod b.toInt + b.toInt := by
    rw [← toInt_mod]
    apply toInt_add_of_fits
    rw [toInt_mod]
    simp only [FitsInt64] at *
    omega
  simp only [hneg, hdvd, not_false_eq_true, true_and, if_false]
  split_ifs with hs ha hb' hb'
  · omega
  · rw [hadd hs]
  · rw [hadd hs, natAbs_of_nonneg hb']
  · omega
  · rw [toInt_mod, Int.add_zero]
  · omega
  · omega
  · rw [toInt_mod, toNat_of_nonpos (by omega)]
    omega

lemma fits_shiftRight {a} (h : FitsInt64 a) (n : ℕ) : FitsInt64 (a >>> n) := by
  obtain ⟨hlo, hhi⟩ := h
  have hpos : (0 : ℤ) < 2 ^ n := by positivity
  have hone : (1 : ℤ) ≤ 2 ^ n := hpos
  rw [Int.shiftRight_eq_div_pow]
  push_cast
  refine ⟨Int.le_ediv_of_mul_le hpos ?_, Int.ediv_lt_of_lt_mul hpos ?_⟩
  · nlinarith
  · nlinarith

lemma shift_right_arithmetic_toInt (a : Int64) (n : ℕ) :
    (shiftRightArithmetic a n).toInt = a.toInt.fdiv (2 ^ n) := by
  rw [shiftRightArithmetic, toInt_ofInt (fits_shiftRight (int64_fits a) n), shiftRight_eq_div_pow,
    fdiv_eq_ediv_of_nonneg _ (by positivity)]
  push_cast
  rfl

lemma shift_left_wrap_toInt {a n} (hn : n < 64)
    (h : shiftRightArithmetic (shiftLeftWrap a n) n = a) :
    (shiftLeftWrap a n).toInt = a.toInt * 2 ^ n := by
  have hpos : (0 : ℤ) < 2 ^ n := by positivity
  have hlt : (2 : ℤ) ^ n < 2 ^ 64 := pow_lt_pow_right₀ (by decide) hn
  set w := (shiftLeftWrap a n).toInt with hw
  have hquot : w / 2 ^ n = a.toInt := by
    rw [← h, shift_right_arithmetic_toInt, fdiv_eq_ediv_of_nonneg _ hpos.le]
  -- the wrapped product differs from the exact one by a multiple of `2^64` below `2^n`
  have hmod : (2 ^ 64 : ℤ) ∣ w - a.toInt * 2 ^ n := by
    rw [hw, shiftLeftWrap, Int64.toInt_ofInt]
    exact dvd_bmod_sub_self
  have hrem := emod_add_mul_ediv w (2 ^ n)
  have hnonneg := emod_nonneg w hpos.ne'
  have hsmall := emod_lt_of_pos w hpos
  rw [hquot] at hrem
  have hdiff : w - a.toInt * 2 ^ n = w % 2 ^ n := by linarith
  rw [hdiff] at hmod
  have := eq_zero_of_dvd_of_nonneg_of_lt hnonneg (by omega) hmod
  linarith

lemma fdiv_two_pow_of_le (a : Int64) {n} (hn : 64 ≤ n) :
    a.toInt.fdiv (2 ^ n) = if a.toInt < 0 then -1 else 0 := by
  obtain ⟨hlo, hhi⟩ := int64_fits a
  have hle : (2 : ℤ) ^ 64 ≤ 2 ^ n := pow_le_pow_right₀ (by decide) hn
  rw [fdiv_eq_ediv_of_nonneg _ (by positivity)]
  split_ifs with h
  · exact ediv_eq_neg_one_of_neg_of_le h (by omega)
  · exact ediv_eq_zero_of_lt (by omega) (by omega)

lemma fits_code (a : Int64) : Fits 64 a.toInt := int64_fits a

lemma toBitVec_toNat (a : Int64) : a.toBitVec.toNat = encode 64 a.toInt := by
  have hcast : (2 : ℤ) ^ 64 = (2 ^ 64 : ℕ) := by norm_num
  rw [encode, ← toInt_toBitVec, BitVec.toInt_eq_toNat_bmod, hcast, bmod_emod,
    emod_eq_of_lt (by positivity) (by exact_mod_cast a.toBitVec.isLt), toNat_natCast]

lemma toInt_eq_decode (a : Int64) : a.toInt = decode 64 a.toBitVec.toNat := by
  rw [toBitVec_toNat, decode_encode (by decide) (fits_code a)]

lemma bitwise_int64_toInt (op : BitwiseOp) (a b : Int64) :
    (bitwiseInt64 op a b).toInt = Int.bitwise op.bit a.toInt b.toInt := by
  have hbits : (bitwiseInt64 op a b).toBitVec.toNat
      = Nat.bitwise op.bit a.toBitVec.toNat b.toBitVec.toNat := by
    cases op with
    | and => exact BitVec.toNat_and _ _
    | or => exact BitVec.toNat_or _ _
    | xor => exact BitVec.toNat_xor _ _
  rw [toInt_eq_decode, hbits, toBitVec_toNat, toBitVec_toNat,
    decode_bitwise_encode (by decide) (fits_code a) (fits_code b) (bit_false_false op)]

end Diamond.Operators
