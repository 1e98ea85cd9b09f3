import Diamond.Bignum.Arithmetic

/-!
# Base `2^32` words

Model of the conversions between base `10^9` limbs and base `2^32` words in `src/bignum.c`, which
the bitwise operators and the shifts go through.
-/

namespace Diamond.Bignum
open Nat (ofDigits digits)
open Positional Nat

def wordBase : ℕ := 2 ^ 32

lemma one_lt_wordBase : 1 < wordBase := by decide

lemma wordBase_pos : 0 < wordBase := by decide

lemma shiftRight_word (n : ℕ) : n >>> 32 = n / wordBase := shiftRight_eq_div_pow n 32

lemma and_mask (n : ℕ) : n &&& 0xFFFFFFFF = n % wordBase := by
  rw [wordBase, ← and_two_pow_sub_one_eq_mod]

/-- The loop of `magnitude_divide_word`: quotient limbs and the remainder so far. -/
def magnitudeDivideWordLoop : List ℕ → List ℕ × ℕ
  | [] => ([], 0)
  | x :: limbs =>
    let (quotient, remainder) := magnitudeDivideWordLoop limbs
    let current := u64 (u64 (remainder * base) + x)
    (u32 (current >>> 32) :: quotient, current &&& 0xFFFFFFFF)

/-- Quotient and remainder by `2^32` (C `magnitude_divide_word`). -/
def magnitudeDivideWord (limbs : List ℕ) : List ℕ × ℕ :=
  let (quotient, remainder) := magnitudeDivideWordLoop limbs
  (magnitudeTrim quotient, u32 remainder)

/-- The `while (remaining > 0)` loop of `magnitude_to_words`, with `room` words left in the buffer.
-/
def magnitudeToWordsLoop : ℕ → List ℕ → List ℕ
  | 0, _ => []
  | room + 1, limbs =>
    if limbs.length > 0 then
      let (quotient, word) := magnitudeDivideWord limbs
      word :: magnitudeToWordsLoop room quotient
    else []

/-- The words of a magnitude, unless one of its two buffers cannot be allocated
(C `magnitude_to_words`). -/
def magnitudeToWords (mem : Alloc) (limbs : List ℕ) : Option (List ℕ) :=
  if !mem 0 || !mem 1 then none
  else some (magnitudeToWordsLoop ((limbs.length * 30 + 31) / 32 + 2) (magnitudeTrim limbs))

/-- The limbs `limbs * scalar + carry` (C `magnitude_multiply_add`). -/
def magnitudeMultiplyAdd (scalar : ℕ) : List ℕ → ℕ → List ℕ
  | [], carry => limbsOf carry
  | x :: limbs, carry =>
    let product := u64 (u64 (x * scalar) + carry)
    u32 (product % base) :: magnitudeMultiplyAdd scalar limbs (product / base)

/-- The `while (carry > 0)` loop of `words_to_value` that adds a word to the limbs. Past the last
limb it appends a zero and goes on, which writes out what is left of the carry. -/
def addWord : List ℕ → ℕ → List ℕ
  | [], carry => limbsOf carry
  | x :: limbs, carry =>
    if carry > 0 then
      let sum := u64 (x + carry)
      u32 (sum % base) :: addWord limbs (sum / base)
    else x :: limbs

def wordsToLimbs : List ℕ → List ℕ
  | [] => []
  | word :: words =>
    addWord (magnitudeMultiplyAdd 65536 (magnitudeMultiplyAdd 65536 (wordsToLimbs words) 0) 0) word

def wordsToValue (mem : Alloc) (negative : Bool) (words : List ℕ) : DiamondValue :=
  let words := trim words
  if words.length = 0 then .int 0
  else if !mem 0 then .nil
  else bignumCanonicalize (mem.after 1) negative (magnitudeTrim (wordsToLimbs words))

/-! ## From limbs to words -/

/-- The division by a single word, as `diamond_bignum_to_radix_string` writes it. -/
def divideLoop (divisor : ℕ) : List ℕ → List ℕ × ℕ
  | [] => ([], 0)
  | x :: limbs =>
    let (quotient, carry) := divideLoop divisor limbs
    let current := u64 (u64 (carry * base) + x)
    (u32 (current / divisor) :: quotient, current % divisor)

/-- `magnitude_divide_word` divides in the same way, by shifting and masking. -/
lemma divide_word_loop_eq (limbs : List ℕ) :
    magnitudeDivideWordLoop limbs = divideLoop wordBase limbs := by
  induction limbs with
  | nil => rfl
  | cons _ _ ih =>
    simp only [magnitudeDivideWordLoop, divideLoop, ih, shiftRight_word, and_mask]

/-- One step of the division stays within `uint64_t`, and its quotient digit is a limb. -/
lemma divide_step {divisor x r} (hword : divisor ≤ wordBase) (hx : x < base) (hr : r < divisor) :
    u64 (u64 (r * base) + x) = r * base + x ∧ (r * base + x) / divisor < base := by
  have hmul : (r + 1) * base ≤ divisor * base := mul_le_mul_right base hr
  have hdivisor : divisor * base ≤ wordBase * base := mul_le_mul_right base hword
  have hbound : wordBase * base < 2 ^ 64 := by decide
  rw [add_mul, one_mul] at hmul
  refine ⟨?_, ?_⟩
  · rw [u64_of_lt (by omega : r * base < 2 ^ 64), u64_of_lt (by omega)]
  · exact Nat.div_lt_of_lt_mul (by omega)

lemma divide_loop_value {divisor} (hpos : 0 < divisor) (hword : divisor ≤ wordBase)
    {limbs} (h : Below base limbs) : Below base (divideLoop divisor limbs).1 ∧
      ofDigits base (divideLoop divisor limbs).1 = ofDigits base limbs / divisor ∧
        (divideLoop divisor limbs).2 = ofDigits base limbs % divisor := by
  induction limbs with
  | nil => simp [divideLoop, below_nil]
  | cons x limbs ih =>
    obtain ⟨hx, hlimbs⟩ := below_cons.1 h
    obtain ⟨hbelow, hquot, hrem⟩ := ih hlimbs
    set A := ofDigits base limbs with hA
    obtain ⟨hu, hq⟩ := divide_step hword hx (mod_lt A hpos)
    have hstep : divideLoop divisor (x :: limbs) =
        ((A % divisor * base + x) / divisor :: (divideLoop divisor limbs).1,
          (A % divisor * base + x) % divisor) := by
      simp only [divideLoop, hrem, hu, u32_of_lt_base hq]
    have hvalue : ofDigits base (x :: limbs)
        = A % divisor * base + x + divisor * (base * (A / divisor)) := by
      rw [ofDigits_cons, ← hA]
      nth_rewrite 1 [← mod_add_div A divisor]
      ring
    rw [hstep, hvalue]
    refine ⟨below_cons.2 ⟨hq, hbelow⟩, ?_, ?_⟩
    · rw [ofDigits_cons, hquot, add_mul_div_left _ _ hpos]
    · rw [add_mul_mod_self_left]

variable (m : ℕ)

lemma magnitude_divide_word_digits :
    magnitudeDivideWord (digits base m) = (digits base (m / wordBase), m % wordBase) := by
  obtain ⟨hbelow, hquot, hrem⟩ :=
    divide_loop_value wordBase_pos le_rfl (normal_digits one_lt_base m).below
  rw [ofDigits_digits] at hquot hrem
  simp only [magnitudeDivideWord, divide_word_loop_eq, magnitude_trim_eq_digits hbelow, hquot, hrem,
    u32_of_lt (n := m % wordBase) (mod_lt m wordBase_pos)]

lemma magnitude_to_words_loop_digits {room m} (h : m < wordBase ^ room) :
    magnitudeToWordsLoop room (digits base m) = digits wordBase m := by
  induction room generalizing m with
  | zero =>
    obtain rfl : m = 0 := by simpa using h
    simp [magnitudeToWordsLoop]
  | succ room ih =>
    rcases Nat.eq_zero_or_pos m with rfl | hm
    · simp [magnitudeToWordsLoop]
    have hne : digits base m ≠ [] := digits_ne_nil_iff_ne_zero.2 hm.ne'
    have hroom : m / wordBase < wordBase ^ room := by
      rw [div_lt_iff_lt_mul wordBase_pos, ← pow_succ]
      exact h
    rw [magnitudeToWordsLoop, if_pos (List.length_pos_iff.2 hne),
      magnitude_divide_word_digits, digits_def' one_lt_wordBase hm]
    dsimp only
    rw [ih hroom]

lemma lt_two_pow_limbs : m < 2 ^ ((digits base m).length * 30) := by
  calc m = ofDigits base (digits base m) := (ofDigits_digits base m).symm
    _ < base ^ (digits base m).length := (normal_digits one_lt_base m).below.ofDigits_lt one_lt_base
    _ ≤ (2 ^ 30) ^ (digits base m).length := Nat.pow_le_pow_left (by decide) _
    _ = 2 ^ ((digits base m).length * 30) := by rw [← pow_mul, mul_comm]

lemma lt_wordBase_pow : m < wordBase ^ (((digits base m).length * 30 + 31) / 32) := by
  rw [wordBase, ← pow_mul]
  exact (lt_two_pow_limbs m).trans_le (Nat.pow_le_pow_right two_pos (by omega))

lemma exists_failed {mem : Alloc} (h : (!mem 0 || !mem 1) = true) : ∃ k, mem k = false := by
  rcases Bool.or_eq_true_iff.1 h with h | h
  · exact ⟨0, by simpa using h⟩
  · exact ⟨1, by simpa using h⟩

lemma magnitude_to_words_digits (mem : Alloc) (m : ℕ) :
    (∃ k, mem k = false) ∧ magnitudeToWords mem (digits base m) = none ∨
      magnitudeToWords mem (digits base m) = some (digits wordBase m) := by
  rw [magnitudeToWords, magnitude_trim_eq_digits (normal_digits one_lt_base m).below,
    ofDigits_digits, magnitude_to_words_loop_digits]
  · split_ifs with hmem
    · exact .inl ⟨exists_failed hmem, rfl⟩
    · exact .inr rfl
  · exact lt_of_lt_of_le (lt_wordBase_pow m) (Nat.pow_le_pow_right wordBase_pos (by omega))

/-! ## From words to limbs -/

lemma multiply_add_step {x scalar carry} (hx : x < base) (hs : scalar < wordBase)
    (hc : carry < wordBase) : u64 (u64 (x * scalar) + carry) = x * scalar + carry ∧
      (x * scalar + carry) / base < wordBase := by
  have hmul : x * scalar ≤ (base - 1) * (wordBase - 1) := Nat.mul_le_mul (by omega) (by omega)
  simp only [base, wordBase] at *
  refine ⟨?_, by omega⟩
  rw [u64_of_lt (by omega : x * scalar < 2 ^ 64), u64_of_lt (by omega)]

/-- `magnitude_multiply_add` multiplies and adds, and leaves no leading zero. -/
lemma multiply_add_digits {scalar} (hpos : 0 < scalar) (hs : scalar < wordBase) (m : ℕ)
    {carry} (hc : carry < wordBase) :
    magnitudeMultiplyAdd scalar (digits base m) carry = digits base (m * scalar + carry) := by
  induction m using Nat.strong_induction_on generalizing carry with
  | _ m ih =>
    rcases Nat.eq_zero_or_pos m with rfl | hm
    · rw [digits_zero, magnitudeMultiplyAdd, limbs_of_eq, zero_mul, zero_add]
    obtain ⟨hu, hcarry⟩ := multiply_add_step (mod_lt m base_pos) hs hc
    have hsplit : m * scalar + carry = m % base * scalar + carry + base * (m / base * scalar) := by
      nth_rewrite 1 [← mod_add_div m base]
      ring
    have hne : 0 < m * scalar + carry := Nat.add_pos_left (Nat.mul_pos hm hpos) carry
    rw [digits_def' one_lt_base hm, digits_def' one_lt_base hne, magnitudeMultiplyAdd, hu,
      u32_mod_base, ih (m / base) (div_lt_self hm one_lt_base) hcarry, hsplit,
      add_mul_mod_self_left, add_mul_div_left _ _ base_pos, add_comm (m / base * _)]

lemma add_word_digits {carry} (hc : carry < wordBase) :
    addWord (digits base m) carry = digits base (m + carry) := by
  induction m using Nat.strong_induction_on generalizing carry with
  | _ m ih =>
    rcases Nat.eq_zero_or_pos m with rfl | hm
    · rw [digits_zero, addWord, limbs_of_eq, zero_add]
    have hx : m % base < base := mod_lt m base_pos
    have hsplit : m + carry = m % base + carry + base * (m / base) := by
      nth_rewrite 1 [← mod_add_div m base]
      ring
    rw [digits_def' one_lt_base hm, addWord]
    split_ifs with hpos
    · have hsum : m % base + carry < wordBase + wordBase := Nat.add_lt_add (hx.trans (by decide)) hc
      have hu : u64 (m % base + carry) = m % base + carry := u64_of_lt (hsum.trans (by decide))
      have hcarry : (m % base + carry) / base < wordBase :=
        Nat.div_lt_of_lt_mul (hsum.trans_le (by decide))
      dsimp only
      rw [Nat.digits_def' one_lt_base (Nat.add_pos_left hm carry), hu, u32_mod_base,
        ih (m / base) (div_lt_self hm one_lt_base) hcarry, hsplit,
        add_mul_mod_self_left, add_mul_div_left _ _ base_pos, add_comm (m / base)]
    · rw [Nat.eq_zero_of_not_pos hpos, Nat.add_zero, Nat.digits_def' one_lt_base hm]

lemma words_to_limbs_digits {words} (h : Below wordBase words) :
    wordsToLimbs words = digits base (ofDigits wordBase words) := by
  induction words with
  | nil => exact (digits_zero base).symm
  | cons _ _ ih =>
    obtain ⟨hword, hwords⟩ := below_cons.1 h
    have hs : 65536 < wordBase := by decide
    -- two multiplications by `2^16` make one by `2^32`
    rw [wordsToLimbs, ih hwords, multiply_add_digits (by decide) hs _ wordBase_pos,
      multiply_add_digits (by decide) hs _ wordBase_pos, add_word_digits _ hword, ofDigits_cons,
      wordBase]
    congr 1
    ring

lemma words_to_value_returns (mem : Alloc) (negative : Bool) {words} (h : Below wordBase words) :
    Returns mem (wordsToValue mem negative words) (signed negative (ofDigits wordBase words)) := by
  rw [wordsToValue]
  split_ifs with h0 hmem
  · have hzero : ofDigits wordBase words = 0 := by
      rw [← ofDigits_trim, List.length_eq_zero_iff.1 h0, ofDigits_nil]
    have hint : signed negative 0 = (0 : Int64).toInt := by cases negative <;> rfl
    rw [hzero, hint]
    exact .inl (.int 0)
  · exact .nil_of_not hmem
  · rw [words_to_limbs_digits h.trim, ofDigits_trim,
      magnitude_trim_eq_digits (normal_digits one_lt_base _).below, ofDigits_digits]
    exact (canonicalize_returns _ _ _).of_after

end Diamond.Bignum
