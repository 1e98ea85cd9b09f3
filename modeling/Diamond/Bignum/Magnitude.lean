import Diamond.Lib.Positional

/-!
# Magnitudes

Model of the sign-less `magnitude_*` helpers of `src/bignum.c`: little-endian limb lists in base
`10^9`. The limbs are `uint32_t` and the intermediate sums and products `uint64_t`, written with
explicit truncations `u32`/`u64`; that none of them loses anything is part of what is proved.

C loops over an index become recursion over the limb lists; a read guarded by `index < count` is
`headD 0`. Where the C code would write past its buffer the list model drops the limb, so an
out-of-bounds write would show up as a wrong value.
-/

namespace Diamond.Bignum
open Nat (ofDigits digits)
open Positional List

/-- `DIAMOND_BIGNUM_BASE`. -/
def base : ℕ := 1000000000

/-- Conversion to `uint32_t`. -/
def u32 (n : ℕ) : ℕ := n % 2 ^ 32

/-- Conversion to, or arithmetic in, `uint64_t`. -/
def u64 (n : ℕ) : ℕ := n % 2 ^ 64

lemma one_lt_base : 1 < base := by decide

lemma base_pos : 0 < base := by decide

lemma u32_of_lt {n} (h : n < 2 ^ 32) : u32 n = n := Nat.mod_eq_of_lt h

lemma u32_of_lt_base {n} (h : n < base) : u32 n = n := u32_of_lt (by simp only [base] at h; omega)

lemma u64_of_lt {n} (h : n < 2 ^ 64) : u64 n = n := Nat.mod_eq_of_lt h

/-- The digit a carry loop stores is a limb, and nothing is lost in the two conversions. -/
lemma u32_mod_base (n : ℕ) : u32 (n % base) = n % base := u32_of_lt_base (Nat.mod_lt _ base_pos)

def magnitudeTrim (limbs : List ℕ) : List ℕ := trim limbs

def magnitudeCompare (a b : List ℕ) : Ordering :=
  if a.length ≠ b.length then
    if a.length < b.length then .lt else .gt
  else compareTop a.reverse b.reverse

/-- The loop of `magnitude_add`: `count` positions still to go, the rest of `a` and `b`, the carry.
-/
def magnitudeAddLoop : ℕ → List ℕ → List ℕ → ℕ → List ℕ
  | 0, _, _, carry => if carry ≠ 0 then [u32 carry] else []
  | count + 1, a, b, carry =>
    let sum := u64 (u64 (carry + a.headD 0) + b.headD 0)
    u32 (sum % base) :: magnitudeAddLoop count a.tail b.tail (sum / base)

def magnitudeAdd (a b : List ℕ) : List ℕ :=
  magnitudeAddLoop (if a.length > b.length then a.length else b.length) a b 0

/-- The loop of `magnitude_subtract`, with `borrow` an `int64_t` that is 0 or 1. -/
def magnitudeSubtractLoop : List ℕ → List ℕ → ℤ → List ℕ
  | [], _, _ => []
  | x :: a, b, borrow =>
    let diff : ℤ := x - borrow - b.headD 0
    if diff < 0 then
      u32 (diff + base).toNat :: magnitudeSubtractLoop a b.tail 1
    else
      u32 diff.toNat :: magnitudeSubtractLoop a b.tail 0

/-- Difference of two magnitudes, the first at least the second (C `magnitude_subtract`). -/
def magnitudeSubtract (a b : List ℕ) : List ℕ := magnitudeTrim (magnitudeSubtractLoop a b 0)

def magnitudeMultiplyScalarLoop (scalar : ℕ) : List ℕ → ℕ → List ℕ
  | [], carry => if carry ≠ 0 then [u32 carry] else []
  | x :: a, carry =>
    let product := u64 (u64 (x * scalar) + carry)
    u32 (product % base) :: magnitudeMultiplyScalarLoop scalar a (product / base)

def magnitudeMultiplyScalar (a : List ℕ) (scalar : ℕ) : List ℕ :=
  magnitudeTrim (magnitudeMultiplyScalarLoop scalar a 0)

/-- The `while (carry)` loop that ends a row of `magnitude_multiply`; `result` starts at index `k`.
-/
def propagateCarry : List ℕ → ℕ → List ℕ
  | [], _ => []
  | d :: result, carry =>
    if carry = 0 then d :: result
    else
      let sum := u64 (d + carry)
      u32 (sum % base) :: propagateCarry result (sum / base)

/-- One row of `magnitude_multiply`: adds `x * b` into `result`, which starts at index `i + j`. -/
def multiplyRow (x : ℕ) : List ℕ → List ℕ → ℕ → List ℕ
  | [], result, carry => propagateCarry result carry
  | _ :: _, [], _ => []
  | y :: b, d :: result, carry =>
    let product := u64 (u64 (u64 (x * y) + d) + carry)
    u32 (product % base) :: multiplyRow x b result (product / base)

/-- The outer loop of `magnitude_multiply`; `result` starts at index `i`, whose limb no later row
touches. -/
def multiplyRows : List ℕ → List ℕ → List ℕ → List ℕ
  | [], _, result => result
  | x :: a, b, result =>
    match multiplyRow x b result 0 with
    | [] => []
    | d :: result => d :: multiplyRows a b result

def magnitudeMultiply (a b : List ℕ) : List ℕ :=
  magnitudeTrim (multiplyRows a b (List.replicate (a.length + b.length) 0))

lemma magnitude_trim_eq_digits {L} (h : Below base L) :
    magnitudeTrim L = digits base (ofDigits base L) :=
  trim_eq_digits one_lt_base h

variable (m n : ℕ)

lemma magnitude_compare_digits :
    magnitudeCompare (digits base m) (digits base n) = compare m n := by
  have below (k : ℕ) : Below base (digits base k) := (normal_digits one_lt_base k).below
  unfold magnitudeCompare
  split_ifs with hne hlt
  · -- a shorter trimmed magnitude is the smaller one
    symm
    rw [Nat.compare_eq_lt]
    by_contra hmn
    have := Nat.le_length_digits_le base n m (by omega)
    omega
  · symm
    rw [Nat.compare_eq_gt]
    by_contra hmn
    have := Nat.le_length_digits_le base m n (by omega)
    omega
  · rw [compareTop_reverse one_lt_base (by simpa using not_not.1 hne) (below_reverse.2 (below m))
      (below_reverse.2 (below n))]
    simp only [reverse_reverse, Nat.ofDigits_digits]

lemma add_step {a b c} (ha : Below base a) (hb : Below base b) (hc : c ≤ 1) :
    u64 (u64 (c + a.headD 0) + b.headD 0) = c + a.headD 0 + b.headD 0 ∧
      (c + a.headD 0 + b.headD 0) / base ≤ 1 := by
  have hx := ha.headD base_pos
  have hy := hb.headD base_pos
  simp only [base] at hx hy ⊢
  rw [u64_of_lt (by omega : c + a.headD 0 < 2 ^ 64), u64_of_lt (by omega)]
  exact ⟨rfl, by omega⟩

lemma add_loop_value {count a b carry} (ha : Below base a) (hb : Below base b) (hc : carry ≤ 1)
    (la : a.length ≤ count) (lb : b.length ≤ count) :
    ofDigits base (magnitudeAddLoop count a b carry) = ofDigits base a + ofDigits base b + carry := by
  induction count generalizing a b carry with
  | zero =>
    obtain rfl : a = [] := by simpa using la
    obtain rfl : b = [] := by simpa using lb
    rcases Nat.le_one_iff_eq_zero_or_eq_one.1 hc with rfl | rfl <;> simp [magnitudeAddLoop, u32]
  | succ count ih =>
    obtain ⟨hsum, hcarry⟩ := add_step ha hb hc
    have lat : a.tail.length ≤ count := by simp; omega
    have lbt : b.tail.length ≤ count := by simp; omega
    simp only [magnitudeAddLoop, hsum, u32_mod_base, Nat.ofDigits_cons]
    rw [ih ha.tail hb.tail hcarry lat lbt, ofDigits_headD_tail base a, ofDigits_headD_tail base b]
    have := Nat.mod_add_div (carry + a.headD 0 + b.headD 0) base
    linarith

lemma add_loop_below (count : ℕ) {a b carry} (ha : Below base a) (hb : Below base b) (hc : carry ≤ 1) :
    Below base (magnitudeAddLoop count a b carry) := by
  induction count generalizing a b carry with
  | zero =>
    rcases Nat.le_one_iff_eq_zero_or_eq_one.1 hc with rfl | rfl
    · exact below_nil
    · exact below_cons.2 ⟨by decide, below_nil⟩
  | succ _ ih =>
    obtain ⟨hsum, hcarry⟩ := add_step ha hb hc
    simp only [magnitudeAddLoop, hsum, u32_mod_base]
    exact below_cons.2 ⟨Nat.mod_lt _ base_pos, ih ha.tail hb.tail hcarry⟩

/-- The addition loop writes one limb per position, and one more only for a final carry. -/
lemma add_loop_length (count : ℕ) {a b carry} (ha : Below base a) (hb : Below base b) (hc : carry ≤ 1) :
    (magnitudeAddLoop count a b carry).length = count ∨
      (magnitudeAddLoop count a b carry).length = count + 1 ∧
        base ^ count ≤ ofDigits base (magnitudeAddLoop count a b carry) := by
  induction count generalizing a b carry with
  | zero =>
    rcases Nat.le_one_iff_eq_zero_or_eq_one.1 hc with rfl | rfl
    · exact .inl rfl
    · exact .inr ⟨rfl, by simp [magnitudeAddLoop, u32]⟩
  | succ _ ih =>
    obtain ⟨hsum, hcarry⟩ := add_step ha hb hc
    simp only [magnitudeAddLoop, hsum, length_cons, Nat.ofDigits_cons]
    rcases ih ha.tail hb.tail hcarry with h | ⟨h, hle⟩
    · exact .inl (by omega)
    · refine .inr ⟨by omega, ?_⟩
      rw [pow_succ, mul_comm]
      exact le_trans (Nat.mul_le_mul_left base hle) (Nat.le_add_left _ _)

/-- The limb count `magnitude_add` loops over is reached by one of its operands. -/
lemma pow_count_le_add {count} (h0 : count ≠ 0)
    (h : count = (digits base m).length ∨ count = (digits base n).length) :
    base ^ (count - 1) ≤ m + n := by
  have pow_le (k : ℕ) (hk : count = (digits base k).length) : base ^ (count - 1) ≤ k := by
    have hne : digits base k ≠ [] := by
      rw [← length_pos_iff]
      omega
    have := (normal_digits one_lt_base k).pow_le one_lt_base hne
    rwa [← hk, Nat.ofDigits_digits] at this
  rcases h with h | h
  · exact le_trans (pow_le m h) (Nat.le_add_right m n)
  · exact le_trans (pow_le n h) (Nat.le_add_left n m)

lemma magnitude_add_digits :
    magnitudeAdd (digits base m) (digits base n) = digits base (m + n) := by
  have hm := normal_digits one_lt_base m
  have hn := normal_digits one_lt_base n
  unfold magnitudeAdd
  set count := if (digits base m).length > (digits base n).length then (digits base m).length
    else (digits base n).length with hcount
  have lm : (digits base m).length ≤ count := by rw [hcount]; split_ifs <;> omega
  have ln : (digits base n).length ≤ count := by rw [hcount]; split_ifs <;> omega
  have hmax : count = (digits base m).length ∨ count = (digits base n).length := by
    rw [hcount]; split_ifs <;> simp
  have hval := add_loop_value hm.below hn.below (Nat.zero_le 1) lm ln
  have hbelow := add_loop_below count hm.below hn.below (Nat.zero_le 1)
  simp only [Nat.ofDigits_digits, Nat.add_zero] at hval
  have hnormal : Normal base (magnitudeAddLoop count (digits base m) (digits base n) 0) := by
    apply Normal.of_pow_le one_lt_base hbelow
    intro hne
    rcases add_loop_length count hm.below hn.below (Nat.zero_le 1) with h | ⟨h, hle⟩
    · rw [h, hval]
      have hpos := length_pos_iff.2 hne
      exact pow_count_le_add m n (by omega) hmax
    · rw [h]
      exact hle
  have := hnormal.eq_digits one_lt_base
  rwa [hval] at this

/-- The subtraction loop leaves the difference, as long as there is something to borrow from. -/
lemma subtract_loop_value {a b borrow} (ha : Below base a) (hb : Below base b)
    (h1 : borrow ≤ 1) (hle : borrow + ofDigits base b ≤ ofDigits base a) :
    Below base (magnitudeSubtractLoop a b borrow) ∧
      ofDigits base (magnitudeSubtractLoop a b borrow) + borrow + ofDigits base b
        = ofDigits base a := by
  induction a generalizing b borrow with
  | nil =>
    refine ⟨below_nil, ?_⟩
    simp only [magnitudeSubtractLoop, Nat.ofDigits_nil] at hle ⊢
    omega
  | cons x a ih =>
    obtain ⟨hx, ha⟩ := below_cons.1 ha
    have hy := hb.headD base_pos
    rw [ofDigits_headD_tail base b, Nat.ofDigits_cons] at hle ⊢
    simp only [magnitudeSubtractLoop]
    split_ifs with hneg
    · -- the limb is too small: borrow one from the next position
      have hd : ((x : ℤ) - borrow - b.headD 0 + base).toNat < base := by omega
      have hle' : 1 + ofDigits base b.tail ≤ ofDigits base a := by
        simp only [base] at *
        omega
      obtain ⟨hbelow, hval⟩ := ih ha hb.tail (le_refl 1) hle'
      rw [u32_of_lt_base hd, Nat.ofDigits_cons]
      refine ⟨below_cons.2 ⟨hd, hbelow⟩, ?_⟩
      simp only [base, Nat.cast_one] at *
      omega
    · have hd : ((x : ℤ) - borrow - b.headD 0).toNat < base := by omega
      have hle' : 0 + ofDigits base b.tail ≤ ofDigits base a := by
        simp only [base] at *
        omega
      obtain ⟨hbelow, hval⟩ := ih ha hb.tail (Nat.zero_le 1) hle'
      rw [u32_of_lt_base hd, Nat.ofDigits_cons]
      refine ⟨below_cons.2 ⟨hd, hbelow⟩, ?_⟩
      simp only [base, Nat.cast_zero] at *
      omega

lemma magnitude_subtract_digits {m n} (h : n ≤ m) :
    magnitudeSubtract (digits base m) (digits base n) = digits base (m - n) := by
  have hle : 0 + ofDigits base (digits base n) ≤ ofDigits base (digits base m) := by
    simpa only [Nat.ofDigits_digits, Nat.zero_add] using h
  obtain ⟨hbelow, hval⟩ := subtract_loop_value (normal_digits one_lt_base m).below
    (normal_digits one_lt_base n).below zero_le_one hle
  simp only [Nat.ofDigits_digits, Nat.cast_zero] at hval hbelow
  rw [magnitudeSubtract, magnitude_trim_eq_digits hbelow]
  congr 1
  omega

lemma scalar_step_u64 {x scalar carry} (hx : x < base) (hs : scalar < base) (hc : carry < base) :
    u64 (u64 (x * scalar) + carry) = x * scalar + carry ∧ x * scalar + carry < base * base := by
  have hmul : x * scalar ≤ (base - 1) * (base - 1) := Nat.mul_le_mul (by omega) (by omega)
  simp only [base] at *
  refine ⟨?_, by omega⟩
  rw [u64_of_lt (by omega : x * scalar < 2 ^ 64), u64_of_lt (by omega)]

lemma multiply_scalar_loop_value {scalar a carry} (ha : Below base a) (hs : scalar < base)
    (hc : carry < base) : Below base (magnitudeMultiplyScalarLoop scalar a carry) ∧
      ofDigits base (magnitudeMultiplyScalarLoop scalar a carry)
        = ofDigits base a * scalar + carry := by
  induction a generalizing carry with
  | nil =>
    simp only [magnitudeMultiplyScalarLoop, u32_of_lt_base hc, Nat.ofDigits_nil]
    split_ifs with h0
    · exact ⟨below_cons.2 ⟨hc, below_nil⟩, by simp⟩
    · exact ⟨below_nil, by simp only [Nat.ofDigits_nil]; omega⟩
  | cons x a ih =>
    obtain ⟨hx, ha⟩ := below_cons.1 ha
    obtain ⟨hu, hlt⟩ := scalar_step_u64 hx hs hc
    obtain ⟨hbelow, hval⟩ := ih ha (Nat.div_lt_of_lt_mul hlt)
    simp only [magnitudeMultiplyScalarLoop, hu, u32_mod_base, Nat.ofDigits_cons]
    refine ⟨below_cons.2 ⟨Nat.mod_lt _ base_pos, hbelow⟩, ?_⟩
    have := Nat.mod_add_div (x * scalar + carry) base
    rw [hval]
    linear_combination this

lemma magnitude_multiply_scalar_digits (m : ℕ) {scalar} (hs : scalar < base) :
    magnitudeMultiplyScalar (digits base m) scalar = digits base (m * scalar) := by
  obtain ⟨hbelow, hval⟩ := multiply_scalar_loop_value (normal_digits one_lt_base m).below hs base_pos
  rw [magnitudeMultiplyScalar, magnitude_trim_eq_digits hbelow, hval, Nat.ofDigits_digits,
    Nat.add_zero]

lemma propagate_carry_value {result carry} (hr : Below base result) (hc : carry < base)
    (hroom : ofDigits base result + carry < base ^ result.length) :
    (propagateCarry result carry).length = result.length ∧
      Below base (propagateCarry result carry) ∧
        ofDigits base (propagateCarry result carry) = ofDigits base result + carry := by
  induction result generalizing carry with
  | nil =>
    simp only [Nat.ofDigits_nil, length_nil, pow_zero] at hroom
    refine ⟨rfl, below_nil, ?_⟩
    simp only [propagateCarry, Nat.ofDigits_nil]
    omega
  | cons d result ih =>
    obtain ⟨hd, hr⟩ := below_cons.1 hr
    unfold propagateCarry
    split_ifs with h0
    · exact ⟨rfl, below_cons.2 ⟨hd, hr⟩, by omega⟩
    have hu : u64 (d + carry) = d + carry := by
      apply u64_of_lt
      simp only [base] at hd hc
      omega
    have hmod := Nat.mod_add_div (d + carry) base
    rw [Nat.ofDigits_cons, length_cons, pow_succ] at hroom
    -- what is left over fits the limbs above
    have hroom' : ofDigits base result + (d + carry) / base < base ^ result.length := by
      have : base * (ofDigits base result + (d + carry) / base) < base * base ^ result.length := by
        nlinarith [Nat.zero_le ((d + carry) % base)]
      exact Nat.lt_of_mul_lt_mul_left this
    have hc' : (d + carry) / base < base := by
      simp only [base] at hd hc ⊢
      omega
    obtain ⟨hlen, hbelow, hval⟩ := ih hr hc' hroom'
    simp only [hu, u32_mod_base, length_cons, Nat.ofDigits_cons]
    refine ⟨by omega, below_cons.2 ⟨Nat.mod_lt _ base_pos, hbelow⟩, ?_⟩
    rw [hval]
    linear_combination hmod

lemma row_step_u64 {x y d carry} (hx : x < base) (hy : y < base) (hd : d < base)
    (hc : carry < base) : u64 (u64 (u64 (x * y) + d) + carry) = x * y + d + carry ∧
      x * y + d + carry < base * base := by
  have hmul : x * y ≤ (base - 1) * (base - 1) := Nat.mul_le_mul (by omega) (by omega)
  simp only [base] at *
  refine ⟨?_, by omega⟩
  rw [u64_of_lt (by omega : x * y < 2 ^ 64), u64_of_lt (by omega : x * y + d < 2 ^ 64),
    u64_of_lt (by omega)]

lemma multiply_row_value {x b result carry} (hx : x < base) (hb : Below base b)
    (hr : Below base result) (hc : carry < base) (hlen : b.length ≤ result.length)
    (hroom : ofDigits base result + x * ofDigits base b + carry < base ^ result.length) :
    (multiplyRow x b result carry).length = result.length ∧
      Below base (multiplyRow x b result carry) ∧ ofDigits base (multiplyRow x b result carry)
          = ofDigits base result + x * ofDigits base b + carry := by
  induction b generalizing result carry with
  | nil =>
    simp only [Nat.ofDigits_nil, Nat.mul_zero, Nat.add_zero] at hroom ⊢
    exact propagate_carry_value hr hc hroom
  | cons y b ih =>
    cases result with
    | nil => simp at hlen
    | cons d result =>
      obtain ⟨hy, hb⟩ := below_cons.1 hb
      obtain ⟨hd, hr⟩ := below_cons.1 hr
      obtain ⟨hu, hlt⟩ := row_step_u64 hx hy hd hc
      have hmod := Nat.mod_add_div (x * y + d + carry) base
      simp only [Nat.ofDigits_cons, length_cons, pow_succ] at hroom
      have hroom' : ofDigits base result + x * ofDigits base b + (x * y + d + carry) / base
          < base ^ result.length := by
        have : base * (ofDigits base result + x * ofDigits base b + (x * y + d + carry) / base)
            < base * base ^ result.length := by
          nlinarith [Nat.zero_le ((x * y + d + carry) % base)]
        exact Nat.lt_of_mul_lt_mul_left this
      obtain ⟨hl, hbelow, hval⟩ := ih hb hr (Nat.div_lt_of_lt_mul hlt) (by simpa using hlen) hroom'
      simp only [multiplyRow, hu, u32_mod_base, length_cons, Nat.ofDigits_cons]
      refine ⟨by omega, below_cons.2 ⟨Nat.mod_lt _ base_pos, hbelow⟩, ?_⟩
      rw [hval]
      linear_combination hmod

lemma multiply_rows_value {a b result} (ha : Below base a) (hb : Below base b)
    (hr : Below base result) (hlen : a.length + b.length ≤ result.length)
    (hroom : ofDigits base result + ofDigits base a * ofDigits base b < base ^ result.length) :
    Below base (multiplyRows a b result) ∧ ofDigits base (multiplyRows a b result)
        = ofDigits base result + ofDigits base a * ofDigits base b := by
  induction a generalizing result with
  | nil => exact ⟨hr, by simp [multiplyRows]⟩
  | cons x a ih =>
    obtain ⟨hx, ha⟩ := below_cons.1 ha
    rw [Nat.ofDigits_cons] at hroom ⊢
    simp only [length_cons] at hlen
    have hrow : ofDigits base result + x * ofDigits base b + 0 < base ^ result.length := by
      nlinarith [Nat.zero_le (base * ofDigits base a * ofDigits base b)]
    obtain ⟨hl, hbelow, hval⟩ := multiply_row_value hx hb hr base_pos (by omega) hrow
    unfold multiplyRows
    split
    · -- the row cannot run off the end: the result has as many limbs as before
      rename_i heq
      rw [heq] at hl
      simp only [length_nil] at hl
      omega
    · rename_i d rest heq
      rw [heq] at hl hbelow hval
      obtain ⟨hd, hrest⟩ := below_cons.1 hbelow
      simp only [length_cons] at hl
      rw [Nat.ofDigits_cons] at hval
      have hroom' : ofDigits base rest + ofDigits base a * ofDigits base b
          < base ^ rest.length := by
        rw [← hl, pow_succ] at hroom
        have : base * (ofDigits base rest + ofDigits base a * ofDigits base b)
            < base * base ^ rest.length := by
          nlinarith
        exact Nat.lt_of_mul_lt_mul_left this
      obtain ⟨hbelow', hval'⟩ := ih ha hrest (by omega) hroom'
      refine ⟨below_cons.2 ⟨hd, hbelow'⟩, ?_⟩
      rw [Nat.ofDigits_cons, hval']
      linear_combination hval

lemma magnitude_multiply_digits :
    magnitudeMultiply (digits base m) (digits base n) = digits base (m * n) := by
  have hm := (normal_digits one_lt_base m).below
  have hn := (normal_digits one_lt_base n).below
  have lm := hm.ofDigits_lt one_lt_base
  have ln := hn.ofDigits_lt one_lt_base
  set zeros := List.replicate ((digits base m).length + (digits base n).length) 0 with hzeros
  have hlen : zeros.length = (digits base m).length + (digits base n).length := by simp [hzeros]
  have hzero : ofDigits base zeros = 0 := Nat.ofDigits_replicate_zero
  have hroom : ofDigits base zeros + ofDigits base (digits base m) * ofDigits base (digits base n)
      < base ^ zeros.length := by
    rw [hzero, Nat.zero_add, hlen, pow_add]
    exact Nat.mul_lt_mul'' lm ln
  obtain ⟨hbelow, hval⟩ := multiply_rows_value hm hn (below_replicate_zero base_pos) hlen.ge hroom
  rw [magnitudeMultiply, ← hzeros, magnitude_trim_eq_digits hbelow, hval, hzero, Nat.zero_add,
    Nat.ofDigits_digits, Nat.ofDigits_digits]

end Diamond.Bignum
