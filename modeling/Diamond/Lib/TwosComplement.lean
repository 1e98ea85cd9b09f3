import Diamond.Lib.Positional
import Mathlib.Data.Int.Bitwise

/-!
# Two's complement

The `w`-bit two's complement code of an integer, and its inverse on the integers that fit. Bitwise
operations commute with the code, and an operation on fitting integers fits, so a machine may compute
them on codes of any sufficient width.
-/

namespace Diamond.TwosComplement

/-- The residue of an integer modulo `2 ^ w`, which is its two's complement code. -/
def encode (w : ℕ) (a : ℤ) : ℕ := (a % 2 ^ w).toNat

/-- The integer a `w`-bit code stands for. -/
def decode (w : ℕ) (x : ℕ) : ℤ := if x < 2 ^ (w - 1) then x else x - 2 ^ w

/-- The integers that have a `w`-bit code. -/
def Fits (w : ℕ) (a : ℤ) : Prop := -2 ^ (w - 1) ≤ a ∧ a < 2 ^ (w - 1)

lemma encode_lt (w : ℕ) (a : ℤ) : encode w a < 2 ^ w := by
  have hpos : (0 : ℤ) < 2 ^ w := by positivity
  have := Int.emod_lt_of_pos a hpos
  have := Int.emod_nonneg a hpos.ne'
  rw [encode]
  zify
  rwa [Int.toNat_of_nonneg this]

variable {w : ℕ} {f : Bool → Bool → Bool}

/-- A natural number is its own code. -/
lemma encode_natCast {m : ℕ} (h : m < 2 ^ w) : encode w m = m := by
  rw [encode, Int.emod_eq_of_lt (by positivity) (by exact_mod_cast h), Int.toNat_natCast]

/-- The code of a negative integer is the complement. -/
lemma encode_negSucc {m} (h : m < 2 ^ w) : encode w (Int.negSucc m) = 2 ^ w - (m + 1) := by
  have hmod : Int.negSucc m % 2 ^ w = (2 ^ w - (m + 1) : ℕ) := by
    rw [← Int.add_emod_right, Int.emod_eq_of_lt] <;> push_cast [Nat.succ_le_of_lt h] <;>
      simp only [Int.negSucc_eq] <;> zify at h <;> omega
  rw [encode, hmod, Int.toNat_natCast]

lemma pow_pred_mul_two (hw : 0 < w) : 2 ^ w = 2 * 2 ^ (w - 1) := by
  rw [← pow_succ', Nat.sub_add_cancel hw]

/-- Nonnegative integers that fit are below the sign bit. -/
lemma fits_natCast {m : ℕ} : Fits w m ↔ m < 2 ^ (w - 1) := by
  have : (-2 ^ (w - 1) : ℤ) ≤ 0 := by simp
  refine ⟨fun h => by exact_mod_cast h.2, fun h => ⟨by omega, by exact_mod_cast h⟩⟩

/-- So are the complements of negative integers that fit. -/
lemma fits_negSucc {m} : Fits w (Int.negSucc m) ↔ m < 2 ^ (w - 1) := by
  have : (0 : ℤ) < 2 ^ (w - 1) := by positivity
  zify
  rw [Fits, Int.negSucc_eq]
  omega

/-- An integer that fits is recovered from its code. -/
lemma decode_encode (hw : 0 < w) {a} (h : Fits w a) : decode w (encode w a) = a := by
  have hpow := pow_pred_mul_two hw
  cases a with
  | ofNat =>
    have hm := fits_natCast.1 h
    rw [Int.ofNat_eq_natCast, encode_natCast (by omega), decode, if_pos hm]
  | negSucc m =>
    have hm := fits_negSucc.1 h
    rw [encode_negSucc (by omega), decode, if_neg (by omega), Int.negSucc_eq]
    push_cast [show m + 1 ≤ 2 ^ w by omega]
    ring

/-- Bits below the width are bits of the integer. -/
lemma testBit_encode {i} (hi : i < w) {a} (h : Fits w a) :
    (encode w a).testBit i = a.testBit i := by
  have hpow := pow_pred_mul_two (Nat.zero_lt_of_lt hi)
  cases a with
  | ofNat =>
    have hm := fits_natCast.1 h
    rw [Int.ofNat_eq_natCast, encode_natCast (by omega)]
    rfl
  | negSucc =>
    have hm := fits_negSucc.1 h
    rw [encode_negSucc (by omega), Nat.testBit_two_pow_sub_succ (by omega)]
    simp [hi, Int.testBit]

/-- A bitwise operation on integers that fit gives one that fits. -/
lemma Fits.bitwise {a b} (ha : Fits w a) (hb : Fits w b) (f : Bool → Bool → Bool) :
    Fits w (Int.bitwise f a b) := by
  have natural (g : Bool → Bool → Bool) {m n : ℕ} (hm : m < 2 ^ (w - 1)) (hn : n < 2 ^ (w - 1)) :
      Fits w (Int.natBitwise g m n) := by
    unfold Int.natBitwise
    cases g false false with
    | false => exact fits_natCast.2 (Nat.bitwise_lt_two_pow hm hn)
    | true => exact fits_negSucc.2 (Nat.bitwise_lt_two_pow hm hn)
  cases a with
  | ofNat =>
    cases b with
    | ofNat => exact natural f (fits_natCast.1 ha) (fits_natCast.1 hb)
    | negSucc =>
      exact natural (fun x y => f x (!y)) (fits_natCast.1 ha) (fits_negSucc.1 hb)
  | negSucc =>
    cases b with
    | ofNat => exact natural (fun x y => f (!x) y) (fits_negSucc.1 ha) (fits_natCast.1 hb)
    | negSucc =>
      exact natural (fun x y => f (!x) (!y)) (fits_negSucc.1 ha) (fits_negSucc.1 hb)

/-- A bitwise operation may be computed on the codes. -/
lemma encode_bitwise {a b} (ha : Fits w a) (hb : Fits w b) (hf : f false false = false) :
    encode w (Int.bitwise f a b) = Nat.bitwise f (encode w a) (encode w b) := by
  apply Nat.eq_of_testBit_eq
  intro i
  rw [Nat.testBit_bitwise hf]
  by_cases hi : i < w
  · rw [testBit_encode hi (ha.bitwise hb f), testBit_encode hi ha, testBit_encode hi hb,
      Int.testBit_bitwise]
  -- above the width all codes are zero
  have hzero (c : ℤ) : (encode w c).testBit i = false :=
    Nat.testBit_lt_two_pow (lt_of_lt_of_le (encode_lt w c)
      (Nat.pow_le_pow_right two_pos (Nat.not_lt.1 hi)))
  rw [hzero, hzero, hzero, hf]

/-- Bitwise operations through the code and back. -/
lemma decode_bitwise_encode (hw : 0 < w) {a b} (ha : Fits w a) (hb : Fits w b)
    (hf : f false false = false) :
    decode w (Nat.bitwise f (encode w a) (encode w b)) = Int.bitwise f a b := by
  rw [← encode_bitwise ha hb hf, decode_encode hw (ha.bitwise hb f)]

/-- A bitwise operation may be computed digit by digit in a base that is a power of two. -/
lemma ofDigits_zipWith_bitwise {k} (hf : f false false = false) {a b}
    (hlen : a.length = b.length) (ha : Positional.Below (2 ^ k) a) (hb : Positional.Below (2 ^ k) b) :
    Nat.ofDigits (2 ^ k) (List.zipWith (Nat.bitwise f) a b)
      = Nat.bitwise f (Nat.ofDigits (2 ^ k) a) (Nat.ofDigits (2 ^ k) b) := by
  induction a generalizing b with
  | nil =>
    obtain rfl : b = [] := List.length_eq_zero_iff.1 hlen.symm
    simp
  | cons x a ih =>
    cases b with
    | nil => simp at hlen
    | cons y =>
      obtain ⟨hx, ha⟩ := Positional.below_cons.1 ha
      obtain ⟨hy, hb⟩ := Positional.below_cons.1 hb
      rw [List.zipWith_cons_cons, Nat.ofDigits_cons, Nat.ofDigits_cons, Nat.ofDigits_cons,
        ih (by simpa using hlen) ha hb]
      apply Nat.eq_of_testBit_eq
      intro i
      rw [add_comm, add_comm x, add_comm y, Nat.testBit_bitwise hf,
        Nat.testBit_two_pow_mul_add _ (Nat.bitwise_lt_two_pow hx hy),
        Nat.testBit_two_pow_mul_add _ hx, Nat.testBit_two_pow_mul_add _ hy]
      split_ifs <;> rw [Nat.testBit_bitwise hf]

end Diamond.TwosComplement
