import Diamond.Bignum.Magnitude

/-!
# Int values

Model of the two representations of an Int, `DIAMOND_VALUE_INT` and `DiamondBignum`
(`src/object.h`), of the views the arithmetic works on, and of canonicalization (`src/bignum.c`).
`Canonical v n` says that `v` is the canonical representation of the integer `n`: an immediate
exactly when `n` fits `int64_t`, otherwise a Bignum with limbs below `10^9` and a nonzero top limb.
`IntValue` bundles a value with that proof, so that an operand of the arithmetic is canonical by
construction.

Every allocation of an operation is one request to an `Alloc`, numbered in program order; the
operations answer `DIAMOND_NIL` when a request they make fails. `Returns mem v n` is the
specification they all share.
-/

namespace Diamond.Bignum
open Nat (ofDigits digits)
open Positional List Nat

/-- The kinds of `DiamondValue` that Int operations read and write; a Bignum object is immutable and
stands for its contents. -/
inductive DiamondValue where
  | nil
  | bool (boolean : Bool)
  | int (integer : Int64)
  | bignum (negative : Bool) (limbs : List ℕ)
  deriving DecidableEq, Repr

/-- Does the `k`-th allocation request of an operation succeed? -/
abbrev Alloc := ℕ → Bool

def Alloc.after (mem : Alloc) (k : ℕ) : Alloc := fun i => mem (k + i)

structure IntView where
  negative : Bool
  limbs : List ℕ
  deriving DecidableEq, Repr

/-- The loop `while (magnitude > 0)` that writes a number out in limbs; it ends `int64_to_magnitude`
and `magnitude_multiply_add`. -/
def limbsOf (magnitude : ℕ) : List ℕ :=
  if magnitude > 0 then
    u32 (magnitude % base) :: limbsOf (magnitude / base)
  else []
termination_by magnitude
decreasing_by exact Nat.div_lt_self ‹_› one_lt_base

/-- Limbs of the magnitude of an `int64_t` (C `int64_to_magnitude`). -/
def int64ToMagnitude (value : Int64) : List ℕ :=
  limbsOf
    (if value < 0 then u64 (u64 (-(value.toInt + 1)).toNat + 1) else u64 value.toInt.toNat)

/-- The accumulation loop of `magnitude_to_int64`, most significant limb first. -/
def magnitudeToUint64 : List ℕ → ℕ → Option ℕ
  | [], magnitude => some magnitude
  | limb :: limbs, magnitude =>
    if magnitude > (2 ^ 64 - 1 - limb) / base then none
    else magnitudeToUint64 limbs (u64 (u64 (magnitude * base) + limb))

/-- The `int64_t` with this sign and magnitude, if it fits (C `magnitude_to_int64`). -/
def magnitudeToInt64 (limbs : List ℕ) (negative : Bool) : Option Int64 :=
  if limbs.length > 3 then none
  else
    match magnitudeToUint64 limbs.reverse 0 with
    | none => none
    | some magnitude =>
      if negative then
        if magnitude > 2 ^ 63 then none
        else some (if magnitude = 2 ^ 63 then Int64.minValue else Int64.ofInt (-magnitude))
      else
        if magnitude > 2 ^ 63 - 1 then none
        else some (Int64.ofInt magnitude)

/-- A computed sign and magnitude as a value (C `bignum_canonicalize`). -/
def bignumCanonicalize (mem : Alloc) (negative : Bool) (limbs : List ℕ) : DiamondValue :=
  if limbs.length = 0 then .int 0
  else
    match magnitudeToInt64 limbs negative with
    | some small => .int small
    | none => if mem 0 then .bignum negative limbs else .nil

def diamondIntViewInt64 (value : Int64) : IntView where
  negative := value < 0
  limbs := int64ToMagnitude value

/-- The view of an Int of either representation (C `diamond_int_view`). -/
def diamondIntView : DiamondValue → IntView
  | .bignum negative limbs => ⟨negative, limbs⟩
  | .int integer => diamondIntViewInt64 integer
  | _ => diamondIntViewInt64 0

/-! ## Canonical values -/

def FitsInt64 (n : ℤ) : Prop := -2 ^ 63 ≤ n ∧ n < 2 ^ 63

instance (n : ℤ) : Decidable (FitsInt64 n) := inferInstanceAs (Decidable (_ ∧ _))

def signed (negative : Bool) (magnitude : ℕ) : ℤ := if negative then -magnitude else magnitude

/-- `v` is the canonical representation of `n`. -/
inductive Canonical : DiamondValue → ℤ → Prop where
  | int (integer : Int64) : Canonical (.int integer) integer.toInt
  | bignum {negative limbs t} :
    (∀ l ∈ limbs, l < 10 ^ 9) →
    limbs.getLast? = some t → t ≠ 0 →
    ¬ FitsInt64 (signed negative (ofDigits (10 ^ 9) limbs)) →
    Canonical (.bignum negative limbs) (signed negative (ofDigits (10 ^ 9) limbs))

/-- An Int of the program: a value with the proof that it is canonical. -/
structure IntValue where
  raw : DiamondValue
  toInt : ℤ
  canonical : Canonical raw toInt

/-- What an operation that computes the integer `n` returns: `n` in canonical form, or `DIAMOND_NIL`
after a failed allocation. -/
def Returns (mem : Alloc) (v : DiamondValue) (n : ℤ) : Prop :=
  Canonical v n ∨ v = .nil ∧ ∃ k, mem k = false

def viewOf (n : ℤ) : IntView := ⟨decide (n < 0), digits base n.natAbs⟩

lemma int64_fits (i : Int64) : FitsInt64 i.toInt := ⟨i.le_toInt, i.toInt_lt⟩

/-- A canonical value is an immediate exactly when its integer fits `int64_t`. -/
lemma Canonical.int_iff {v n} (h : Canonical v n) : (∃ i, v = .int i) ↔ FitsInt64 n := by
  cases h with
  | int i => exact ⟨fun _ => int64_fits i, fun _ => ⟨i, rfl⟩⟩
  | bignum _ _ _ hout => exact ⟨fun ⟨_, hi⟩ => (nomatch hi), fun hfits => absurd hfits hout⟩

lemma Canonical.toInt_eq {i n} (h : Canonical (.int i) n) : i.toInt = n := by
  cases h
  rfl

lemma signed_natAbs (n : ℤ) : signed (decide (n < 0)) n.natAbs = n := by
  unfold signed
  split_ifs with h <;> simp only [decide_eq_true_eq] at h <;> omega

lemma natAbs_signed (negative : Bool) (k : ℕ) : (signed negative k).natAbs = k := by
  unfold signed
  split_ifs <;> omega

lemma limbs_of_eq (k : ℕ) : limbsOf k = digits base k := by
  induction k using Nat.strong_induction_on with
  | _ k ih =>
    unfold limbsOf
    split_ifs with h
    · rw [ih _ (Nat.div_lt_self h one_lt_base), u32_mod_base, ← Nat.digits_def' one_lt_base h]
    · obtain rfl : k = 0 := by omega
      simp

/-- `int64_to_magnitude` also handles `INT64_MIN`, whose magnitude is no `int64_t`. -/
lemma int64_to_magnitude_eq (i : Int64) : int64ToMagnitude i = digits base i.toInt.natAbs := by
  have hlo := i.le_toInt
  have hhi := i.toInt_lt
  have hneg : i < 0 ↔ i.toInt < 0 := by simp [Int64.lt_iff_toInt_lt]
  rw [int64ToMagnitude, limbs_of_eq]
  congr 1
  by_cases h : i.toInt < 0
  · rw [if_pos (hneg.2 h), u64_of_lt (by omega : (-(i.toInt + 1)).toNat < 2 ^ 64),
      u64_of_lt (by omega)]
    omega
  · rw [if_neg (mt hneg.1 h), u64_of_lt (by omega)]
    omega

lemma Canonical.view {v n} (h : Canonical v n) : diamondIntView v = viewOf n := by
  cases h with
  | int i =>
    have hneg : i < 0 ↔ i.toInt < 0 := by simp [Int64.lt_iff_toInt_lt]
    simp [diamondIntView, diamondIntViewInt64, viewOf, int64_to_magnitude_eq, hneg]
  | @bignum negative limbs t hbelow hlast ht hout =>
    have hbase : (10 ^ 9 : ℕ) = base := rfl
    rw [hbase] at hbelow hout ⊢
    have hnormal : Normal base limbs := by
      refine ⟨hbelow, fun hne => ?_⟩
      rw [getLast?_eq_some_getLast hne, Option.some.injEq] at hlast
      exact hlast ▸ ht
    have hpos : 0 < ofDigits base limbs := by
      rcases Nat.eq_zero_or_pos (ofDigits base limbs) with h0 | h0
      · exact absurd (by simp [h0, signed, FitsInt64]) hout
      · exact h0
    have hsign : decide (signed negative (ofDigits base limbs) < 0) = negative := by
      cases negative <;> simp [signed]
      omega
    rw [viewOf, natAbs_signed, hsign, ← hnormal.eq_digits one_lt_base]
    rfl

lemma Canonical.exists_bignum {v n} (h : Canonical v n) (hout : ¬ FitsInt64 n) :
    ∃ negative limbs, v = .bignum negative limbs := by
  cases h with
  | int i => exact absurd (int64_fits i) hout
  | bignum => exact ⟨_, _, rfl⟩

lemma Canonical.unique {v v' n} (h : Canonical v n) (h' : Canonical v' n) : v = v' := by
  by_cases hfits : FitsInt64 n
  · obtain ⟨i, rfl⟩ := h.int_iff.2 hfits
    obtain ⟨j, rfl⟩ := h'.int_iff.2 hfits
    rw [Int64.toInt_inj.1 (h.toInt_eq.trans h'.toInt_eq.symm)]
  · obtain ⟨negative, limbs, rfl⟩ := h.exists_bignum hfits
    obtain ⟨negative', limbs', rfl⟩ := h'.exists_bignum hfits
    have hview : IntView.mk negative limbs = ⟨negative', limbs'⟩ := h.view.trans h'.view.symm
    injection hview with hnegative hlimbs
    rw [hnegative, hlimbs]

/-! ## Canonicalization -/

/-- The accumulation loop returns the magnitude exactly when it fits `uint64_t`. -/
lemma magnitude_to_uint64_eq {limbs} (h : Below base limbs) {magnitude} (hm : magnitude < 2 ^ 64) :
    magnitudeToUint64 limbs magnitude =
      if magnitude * base ^ limbs.length + ofDigits base limbs.reverse < 2 ^ 64 then
        some (magnitude * base ^ limbs.length + ofDigits base limbs.reverse) else none := by
  induction limbs generalizing magnitude with
  | nil =>
    rw [magnitudeToUint64, if_pos (by simpa using hm)]
    simp
  | cons limb limbs ih =>
    obtain ⟨hlimb, hlimbs⟩ := below_cons.1 h
    have hguard : magnitude > (2 ^ 64 - 1 - limb) / base ↔ 2 ^ 64 ≤ magnitude * base + limb := by
      rw [gt_iff_lt, Nat.div_lt_iff_lt_mul base_pos]
      simp only [base] at hlimb ⊢
      omega
    have htotal : magnitude * base ^ (limb :: limbs).length + ofDigits base (limb :: limbs).reverse
        = (magnitude * base + limb) * base ^ limbs.length + ofDigits base limbs.reverse := by
      rw [reverse_cons, Nat.ofDigits_append, Nat.ofDigits_singleton, length_reverse,
        length_cons, pow_succ]
      ring
    rw [magnitudeToUint64, htotal]
    by_cases hover : 2 ^ 64 ≤ magnitude * base + limb
    · have hpow : 0 < base ^ limbs.length := Nat.pow_pos base_pos
      rw [if_pos (hguard.2 hover), if_neg]
      have := Nat.le_mul_of_pos_right (magnitude * base + limb) hpow
      omega
    · have hu : u64 (u64 (magnitude * base) + limb) = magnitude * base + limb := by
        rw [u64_of_lt (by omega : magnitude * base < 2 ^ 64), u64_of_lt (by omega)]
      rw [if_neg (mt hguard.1 hover), hu, ih hlimbs (by omega)]

lemma length_digits_le_three {k} (h : k < 2 ^ 64) : (digits base k).length ≤ 3 :=
  (digits_length_le_iff one_lt_base k).2 (lt_trans h (by decide))

/-- `magnitude_to_int64` succeeds exactly on the range of `int64_t`, `INT64_MIN` included. -/
lemma magnitude_to_int64_eq (negative : Bool) (k : ℕ) : magnitudeToInt64 (digits base k) negative =
      if FitsInt64 (signed negative k) then some (Int64.ofInt (signed negative k)) else none := by
  have hloop := magnitude_to_uint64_eq (below_reverse.2 (normal_digits one_lt_base k).below)
    (by decide : 0 < 2 ^ 64)
  simp only [zero_mul, Nat.zero_add, reverse_reverse, ofDigits_digits] at hloop
  have hfits : FitsInt64 (signed negative k) ↔ k ≤ if negative then 2 ^ 63 else 2 ^ 63 - 1 := by
    cases negative <;> simp [FitsInt64, signed] <;> omega
  by_cases hk : k < 2 ^ 64
  · rw [magnitudeToInt64, if_neg (by simpa using length_digits_le_three hk), hloop, if_pos hk]
    cases negative with
    | false =>
      change (if k > 2 ^ 63 - 1 then none else some (Int64.ofInt k)) = _
      by_cases hle : k ≤ 2 ^ 63 - 1
      · rw [if_neg (Nat.not_lt.2 hle), if_pos (hfits.2 hle)]
        rfl
      · rw [if_pos (Nat.not_le.1 hle), if_neg (mt hfits.1 hle)]
    | true =>
      change (if k > 2 ^ 63 then none
        else some (if k = 2 ^ 63 then Int64.minValue else Int64.ofInt (-k))) = _
      by_cases hle : k ≤ 2 ^ 63
      · rw [if_neg (Nat.not_lt.2 hle), if_pos (hfits.2 hle)]
        split_ifs with hmin
        · subst hmin
          rfl
        · rfl
      · rw [if_pos (Nat.not_le.1 hle), if_neg (mt hfits.1 hle)]
  · have hout : ¬ FitsInt64 (signed negative k) := by
      rw [hfits]
      split_ifs <;> omega
    rw [magnitudeToInt64, hloop, if_neg hk, if_neg hout, ite_self]

/-- The value `bignum_canonicalize` builds for a trimmed magnitude is the canonical one. -/
lemma canonicalize_returns (mem : Alloc) (negative : Bool) (k : ℕ) :
    Returns mem (bignumCanonicalize mem negative (digits base k)) (signed negative k) := by
  rcases Nat.eq_zero_or_pos k with rfl | hk
  · have h0 : signed negative 0 = (0 : Int64).toInt := by cases negative <;> rfl
    simp only [bignumCanonicalize, digits_zero, length_nil, if_true, h0]
    exact .inl (.int 0)
  have hne : digits base k ≠ [] := digits_ne_nil_iff_ne_zero.2 hk.ne'
  rw [bignumCanonicalize, if_neg (by simpa using hne), magnitude_to_int64_eq]
  by_cases hfits : FitsInt64 (signed negative k)
  · have hcanonical := Canonical.int (Int64.ofInt (signed negative k))
    rw [Int64.toInt_ofInt_of_le hfits.1 hfits.2] at hcanonical
    rw [if_pos hfits]
    exact .inl hcanonical
  rw [if_neg hfits]
  dsimp only
  split_ifs with hmem
  · have hval : ofDigits (10 ^ 9) (digits base k) = k := ofDigits_digits base k
    have hcanonical : Canonical (.bignum negative (digits base k))
        (signed negative (ofDigits (10 ^ 9) (digits base k))) :=
      .bignum (fun l hl => digits_lt_base one_lt_base hl)
        (getLast?_eq_some_getLast hne) (getLast_digit_ne_zero base hk.ne')
        (by rwa [hval])
    rw [hval] at hcanonical
    exact .inl hcanonical
  · exact .inr ⟨rfl, 0, by simpa using hmem⟩

/-- A failed request of a later part of an operation is one of the operation. -/
lemma Returns.of_after {mem k v n} (h : Returns (mem.after k) v n) : Returns mem v n := by
  rcases h with h | ⟨hv, i, hi⟩
  · exact .inl h
  · exact .inr ⟨hv, k + i, hi⟩

end Diamond.Bignum
