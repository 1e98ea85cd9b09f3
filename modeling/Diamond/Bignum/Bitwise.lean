import Diamond.Bignum.Division
import Diamond.Bignum.Words
import Diamond.Lib.TwosComplement

/-!
# Bitwise operators and shifts of Bignums

Model of `diamond_bignum_bitwise`, `diamond_bignum_shift_left` and `diamond_bignum_shift_right`
(`src/bignum.c`). The bitwise operators work on two's complement words wide enough for both operands
and a sign word; the library of `Lib/TwosComplement.lean` says that this is the operator on infinite
two's complement. A right shift of a negative value rounds down.
-/

namespace Diamond.Bignum
open Nat (ofDigits digits)
open Positional TwosComplement List Nat

/-- C `DiamondBignumBitwiseOp`. -/
inductive BitwiseOp where
  | and
  | or
  | xor
  deriving DecidableEq, Repr

def BitwiseOp.word : BitwiseOp → ℕ → ℕ → ℕ
  | .and, x, y => x &&& y
  | .or, x, y => x ||| y
  | .xor, x, y => x ^^^ y

def BitwiseOp.bit : BitwiseOp → Bool → Bool → Bool
  | .and, x, y => x && y
  | .or, x, y => x || y
  | .xor, x, y => Bool.xor x y

/-- The loop that negates a two's complement number in place: inverts every word and adds `carry`.
-/
def negateWords : List ℕ → ℕ → List ℕ
  | [], _ => []
  | word :: words, carry =>
    let sum := u64 (u32 (2 ^ 32 - 1 - word) + carry)
    u32 sum :: negateWords words (sum >>> 32)

/-- Two's complement form in exactly `width` words (C `value_to_twos_complement`). -/
def valueToTwosComplement (mem : Alloc) (view : IntView) (width : ℕ) : Option (List ℕ) :=
  match magnitudeToWords mem view.limbs with
  | none => none
  | some words =>
    let out := words.take width ++ List.replicate (width - words.length) 0
    some (if view.negative then negateWords out 1 else out)

/-- 30 bits for each limb, and the sign (C `view_word_count`). -/
def viewWordCount (view : IntView) : ℕ := (view.limbs.length * 30 + 31) / 32 + 2

def diamondBignumBitwise (mem : Alloc) (op : BitwiseOp) (left right : IntView) : DiamondValue :=
  let aWidth := viewWordCount left
  let bWidth := viewWordCount right
  let width := if aWidth > bWidth then aWidth else bWidth
  if !mem 0 || !mem 1 then .nil
  else
    match valueToTwosComplement (mem.after 2) left width,
        valueToTwosComplement (mem.after 4) right width with
    | some a, some b =>
      let a := List.zipWith op.word a b
      let negative := a.getD (width - 1) 0 &&& 0x80000000 != 0
      wordsToValue (mem.after 6) negative (if negative then negateWords a 1 else a)
    | _, _ => .nil

/-- The loop of `diamond_bignum_shift_left`; `high` is what the word below left in this place. -/
def shiftLeftLoop (part : ℕ) : List ℕ → ℕ → List ℕ
  | [], high => [high, 0]
  | word :: words, high =>
    let spread := u64 (word <<< part)
    (high ||| u32 spread) :: shiftLeftLoop part words (u32 (spread >>> 32))

def diamondBignumShiftLeft (mem : Alloc) (value : IntView) (bits : ℕ) : DiamondValue :=
  match magnitudeToWords mem value.limbs with
  | none => .nil
  | some words =>
    if words.length = 0 then .int 0
    else if !mem 2 then .nil
    else wordsToValue (mem.after 3) value.negative
      (List.replicate (bits / 32) 0 ++ shiftLeftLoop (bits % 32) words 0)

/-- The loop of `diamond_bignum_shift_right` over the words from `whole` on. -/
def shiftRightLoop (part : ℕ) : List ℕ → List ℕ
  | [] => []
  | word :: words =>
    let current := word >>> part
    let current :=
      if part ≠ 0 ∧ words ≠ [] then
        current ||| (u64 (words.headD 0 <<< (32 - part)) &&& 0xFFFFFFFF)
      else current
    u32 current :: shiftRightLoop part words

/-- Adds one to the words (the loop of `diamond_bignum_shift_right` that rounds down). -/
def incrementWords : List ℕ → List ℕ
  | [] => [1]
  | word :: words =>
    if u32 (word + 1) ≠ 0 then u32 (word + 1) :: words else u32 (word + 1) :: incrementWords words

/-- Was a bit set among those shifted out of `words`? -/
def lostBits (words : List ℕ) (whole part : ℕ) : Bool :=
  (words.take whole).any (· != 0) ||
    (whole < words.length && part != 0 && words.getD whole 0 &&& (1 <<< part - 1) != 0)

def diamondBignumShiftRight (mem : Alloc) (value : IntView) (bits : ℕ) : DiamondValue :=
  match magnitudeToWords mem value.limbs with
  | none => .nil
  | some words =>
    if words.length = 0 then .int 0
    else
      let whole := if bits / 32 > words.length then words.length else bits / 32
      let part := bits % 32
      if !mem 2 then .nil
      else
        let result := shiftRightLoop part (words.drop whole)
        wordsToValue (mem.after 3) value.negative
          (if value.negative && lostBits words whole part then incrementWords result else result)

/-! ## Bitwise operators -/

lemma word_eq_bitwise (op : BitwiseOp) : op.word = Nat.bitwise op.bit := by
  cases op <;> rfl

lemma bit_false_false (op : BitwiseOp) : op.bit false false = false := by
  cases op <;> rfl

variable {words : List ℕ} {width part : ℕ}

lemma negate_words_value (h : Below wordBase words) {carry} (hc : carry ≤ 1) :
    (negateWords words carry).length = words.length ∧ Below wordBase (negateWords words carry) ∧
      ∃ top, ofDigits wordBase (negateWords words carry) + wordBase ^ words.length * top
        + ofDigits wordBase words + 1 = wordBase ^ words.length + carry := by
  induction words generalizing carry with
  | nil => exact ⟨rfl, below_nil, carry, by simp [negateWords]; ring⟩
  | cons word _ ih =>
    obtain ⟨hword, hwords⟩ := below_cons.1 h
    set sum := wordBase - 1 - word + carry with hsum
    have hu : u64 (u32 (2 ^ 32 - 1 - word) + carry) = sum := by
      rw [u32_of_lt (by omega)]
      exact u64_of_lt (by simp only [wordBase] at hsum; omega)
    have hlow : u32 sum = sum % wordBase := rfl
    have hcarry : sum / wordBase ≤ 1 := by
      simp only [wordBase] at hsum hword ⊢
      omega
    obtain ⟨hlen, hbelow, top, hval⟩ := ih hwords hcarry
    have hmod := mod_add_div sum wordBase
    have hflip : sum + word + 1 = wordBase + carry := by omega
    rw [negateWords, hu, hlow, shiftRight_word]
    refine ⟨by simpa using hlen, below_cons.2 ⟨mod_lt _ wordBase_pos, hbelow⟩, top, ?_⟩
    rw [ofDigits_cons, ofDigits_cons, length_cons, pow_succ]
    linear_combination wordBase * hval + hmod + hflip

/-- Negating words gives the complement to `2^(32 width)`, and zero for zero. -/
lemma negate_words_one (h : Below wordBase words) : ofDigits wordBase (negateWords words 1)
      = if ofDigits wordBase words = 0 then 0
        else wordBase ^ words.length - ofDigits wordBase words := by
  obtain ⟨hlen, hbelow, top, hval⟩ := negate_words_value h le_rfl
  have hlt := hbelow.ofDigits_lt one_lt_wordBase
  rw [hlen] at hlt
  have hle := h.ofDigits_lt one_lt_wordBase
  -- the carry out of the top word is one exactly when all words are zero
  rcases lt_or_ge top 1 with htop | htop
  · obtain rfl : top = 0 := by omega
    split_ifs <;> omega
  · have := Nat.le_mul_of_pos_right (wordBase ^ words.length) htop
    split_ifs <;> omega

lemma wordBase_pow (width : ℕ) : wordBase ^ width = 2 ^ (32 * width) := by
  rw [wordBase, ← pow_mul]

lemma padded_words {m} (h : m < wordBase ^ width) :
    ∃ out, (digits wordBase m).take width ++ replicate (width - (digits wordBase m).length) 0
        = out ∧ out.length = width ∧ Below wordBase out ∧ ofDigits wordBase out = m := by
  have hlen : (digits wordBase m).length ≤ width := (digits_length_le_iff one_lt_wordBase m).2 h
  refine ⟨_, rfl, ?_, ?_, ?_⟩
  · simp only [length_append, length_take, length_replicate]
    omega
  · rw [take_of_length_le hlen]
    exact below_append.2 ⟨(normal_digits one_lt_wordBase m).below, below_replicate_zero wordBase_pos⟩
  · rw [take_of_length_le hlen, ofDigits_append, ofDigits_digits,
      ofDigits_replicate_zero, mul_zero, add_zero]

variable (mem : Alloc) (s : Bool)

/-- `value_to_twos_complement` writes the two's complement code of its value. -/
lemma value_to_twos_complement_eq {m} (h : m < wordBase ^ width) :
    (∃ k, mem k = false) ∧ valueToTwosComplement mem ⟨s, digits base m⟩ width = none ∨
      ∃ out, valueToTwosComplement mem ⟨s, digits base m⟩ width = some out ∧
        out.length = width ∧ Below wordBase out ∧
          ofDigits wordBase out = encode (32 * width) (signed s m) := by
  rcases magnitude_to_words_digits mem m with ⟨hmem, hwords⟩ | hwords
  · exact .inl ⟨hmem, by simp only [valueToTwosComplement, hwords]⟩
  obtain ⟨out, hout, hlen, hbelow, hval⟩ := padded_words h
  simp only [valueToTwosComplement, hwords, hout]
  have h' : m < 2 ^ (32 * width) := wordBase_pow width ▸ h
  cases s with
  | false => exact .inr ⟨out, rfl, hlen, hbelow, by rw [hval]; exact (encode_natCast h').symm⟩
  | true =>
    obtain ⟨hlen', hbelow', -⟩ := negate_words_value hbelow le_rfl
    refine .inr ⟨negateWords out 1, rfl, hlen'.trans hlen, hbelow', ?_⟩
    rw [negate_words_one hbelow, hval, hlen, wordBase_pow]
    cases m with
    | zero => simp [signed, encode]
    | succ m =>
      have hneg : signed true (m + 1) = Int.negSucc m := rfl
      rw [if_neg (succ_ne_zero m), hneg, encode_negSucc (by omega)]

lemma and_top_bit {word} (h : word < wordBase) :
    (word &&& 0x80000000 != 0) = decide (2 ^ 31 ≤ word) := by
  have hand : word &&& 0x80000000 = (word.testBit 31).toNat * 2 ^ 31 := and_two_pow word 31
  rw [hand]
  by_cases hle : 2 ^ 31 ≤ word
  · rw [testBit_of_two_pow_le_and_two_pow_add_one_gt hle h, decide_eq_true hle]
    rfl
  · rw [testBit_lt_two_pow (not_le.1 hle), decide_eq_false hle]
    rfl

/-- The sign test of `diamond_bignum_bitwise` looks at the top bit of the words. -/
lemma sign_bit_eq {a} (h : Below wordBase a) (hwidth : 0 < width) (hlen : a.length = width) :
    (a.getD (width - 1) 0 &&& 0x80000000 != 0)
      = decide (2 ^ (32 * width - 1) ≤ ofDigits wordBase a) := by
  rcases eq_nil_or_concat' a with rfl | ⟨low, top, rfl⟩
  · simp only [length_nil] at hlen
    omega
  obtain ⟨hlow, htop⟩ := below_append.1 h
  have htop := (below_cons.1 htop).1
  have hlast : low.length = width - 1 := by
    rw [← hlen, length_append, length_singleton, Nat.add_sub_cancel]
  have hget : (low ++ [top]).getD (width - 1) 0 = top := by simp [← hlast]
  have hlt := hlow.ofDigits_lt one_lt_wordBase
  have hpow : 2 ^ (32 * width - 1) = wordBase ^ low.length * 2 ^ 31 := by
    rw [wordBase_pow, ← pow_add, hlast]
    congr 1
    omega
  rw [hget, and_top_bit htop, decide_eq_decide, ofDigits_append, ofDigits_singleton, hpow]
  constructor
  · intro hle
    have := mul_le_mul_left (wordBase ^ low.length) hle
    omega
  · intro hle
    by_contra hcon
    have := mul_le_mul_left (wordBase ^ low.length) (show top + 1 ≤ 2 ^ 31 by omega)
    rw [mul_add, mul_one] at this
    omega

/-- The words of a bitwise operation, with the sign taken off, spell its decoded result. -/
lemma signed_words_eq_decode {a} (h : Below wordBase a) (hlen : a.length = width)
    {negative} (hneg : negative = decide (2 ^ (32 * width - 1) ≤ ofDigits wordBase a)) :
    Below wordBase (if negative then negateWords a 1 else a) ∧
      signed negative (ofDigits wordBase (if negative then negateWords a 1 else a))
        = decode (32 * width) (ofDigits wordBase a) := by
  have hlt := h.ofDigits_lt one_lt_wordBase
  rw [hlen, wordBase_pow] at hlt
  cases negative with
  | false =>
    have hsmall : ofDigits wordBase a < 2 ^ (32 * width - 1) := by
      simpa using hneg.symm
    refine ⟨h, ?_⟩
    rw [decode, if_pos hsmall]
    rfl
  | true =>
    have hbig : 2 ^ (32 * width - 1) ≤ ofDigits wordBase a := of_decide_eq_true hneg.symm
    have hpos : 0 < 2 ^ (32 * width - 1) := by positivity
    refine ⟨(negate_words_value h le_rfl).2.1, ?_⟩
    rw [decode, if_neg (not_lt.2 hbig)]
    simp only [if_true, negate_words_one h, hlen, wordBase_pow, signed,
      if_neg (show ofDigits wordBase a ≠ 0 by omega)]
    push_cast [hlt.le]
    ring

/-- The width `diamond_bignum_bitwise` computes has room for its operands and their sign. -/
lemma fits_view_word_count (s t : Bool) (m : ℕ) (h : viewWordCount ⟨t, digits base m⟩ ≤ width) :
    m < wordBase ^ width ∧ Fits (32 * width) (signed s m) := by
  have hlt : m < 2 ^ (32 * width - 1) := by
    refine lt_of_lt_of_le (lt_wordBase_pow m) ?_
    rw [wordBase_pow]
    simp only [viewWordCount] at h
    exact Nat.pow_le_pow_right two_pos (by omega)
  refine ⟨?_, ?_⟩
  · rw [wordBase_pow]
    exact lt_of_lt_of_le hlt (Nat.pow_le_pow_right two_pos (by omega))
  cases s with
  | false => exact fits_natCast.2 hlt
  | true =>
    have hlt' : (m : ℤ) < 2 ^ (32 * width - 1) := by exact_mod_cast hlt
    simp only [Fits, signed, if_true]
    omega

lemma zipWith_word_value (op : BitwiseOp) {a b} (hlen : a.length = b.length)
    (ha : Below wordBase a) (hb : Below wordBase b) : Below wordBase (zipWith op.word a b) ∧
      ofDigits wordBase (zipWith op.word a b)
        = Nat.bitwise op.bit (ofDigits wordBase a) (ofDigits wordBase b) := by
  rw [word_eq_bitwise]
  refine ⟨?_, ofDigits_zipWith_bitwise (bit_false_false op) hlen ha hb⟩
  intro x hx
  obtain ⟨i, hi, rfl⟩ := mem_iff_getElem.1 hx
  rw [getElem_zipWith]
  exact bitwise_lt_two_pow (ha _ (getElem_mem _)) (hb _ (getElem_mem _))

lemma bignum_bitwise_returns (op : BitwiseOp) (s t : Bool) (m n : ℕ) :
    Returns mem (diamondBignumBitwise mem op ⟨s, digits base m⟩ ⟨t, digits base n⟩)
      (Int.bitwise op.bit (signed s m) (signed t n)) := by
  rw [diamondBignumBitwise]
  generalize hwidth : (if viewWordCount ⟨s, digits base m⟩ > viewWordCount ⟨t, digits base n⟩
    then viewWordCount ⟨s, digits base m⟩ else viewWordCount ⟨t, digits base n⟩) = width
  have hle : viewWordCount ⟨s, digits base m⟩ ≤ width ∧ viewWordCount ⟨t, digits base n⟩ ≤ width := by
    rw [← hwidth]
    split_ifs <;> omega
  have hpos : 0 < width := lt_of_lt_of_le (succ_pos _) hle.1
  obtain ⟨hm, hfitm⟩ := fits_view_word_count s s m hle.1
  obtain ⟨hn, hfitn⟩ := fits_view_word_count t t n hle.2
  dsimp only
  split_ifs with hmem
  · rcases Bool.or_eq_true_iff.1 hmem with h | h <;> exact .nil_of_not h
  rcases value_to_twos_complement_eq (mem.after 2) s hm with ⟨⟨k, hk⟩, ha⟩ | ⟨a, ha, alen, abelow, aval⟩
  · rw [ha]
    exact .inr ⟨rfl, 2 + k, hk⟩
  rcases value_to_twos_complement_eq (mem.after 4) t hn with ⟨⟨k, hk⟩, hb⟩ | ⟨b, hb, blen, bbelow, bval⟩
  · rw [ha, hb]
    exact .inr ⟨rfl, 4 + k, hk⟩
  rw [ha, hb]
  dsimp only
  obtain ⟨cbelow, cval⟩ := zipWith_word_value op (alen.trans blen.symm) abelow bbelow
  have clen : (zipWith op.word a b).length = width := by
    rw [length_zipWith, alen, blen, min_self]
  have hneg := sign_bit_eq cbelow hpos clen
  obtain ⟨rbelow, rval⟩ := signed_words_eq_decode cbelow clen hneg
  rw [← decode_bitwise_encode (by omega) hfitm hfitn (bit_false_false op), ← aval, ← bval, ← cval,
    ← rval]
  exact (words_to_value_returns _ _ rbelow).of_after

/-! ## Shifts -/

/-- Disjoint bits: `or` is `+` when the low part is below the bit the high part starts at. -/
lemma or_eq_add {low high} (hlow : low < 2 ^ part) (hhigh : 2 ^ part ∣ high) :
    low ||| high = low + high := by
  obtain ⟨k, rfl⟩ := hhigh
  rw [lor_comm, ← two_pow_add_eq_or_of_lt hlow, add_comm]

lemma shift_left_loop_value (hpart : part < 32) (h : Below wordBase words) {high}
    (hhigh : high < 2 ^ part) : Below wordBase (shiftLeftLoop part words high) ∧
      ofDigits wordBase (shiftLeftLoop part words high)
        = ofDigits wordBase words * 2 ^ part + high := by
  have hpow : 2 ^ part < wordBase := Nat.pow_lt_pow_right one_lt_two hpart
  induction words generalizing high with
  | nil =>
    refine ⟨below_cons.2 ⟨hhigh.trans hpow, below_cons.2 ⟨wordBase_pos, below_nil⟩⟩, ?_⟩
    simp [shiftLeftLoop, ofDigits_cons]
  | cons word _ ih =>
    obtain ⟨hword, hwords⟩ := below_cons.1 h
    have hspread : word * 2 ^ part < wordBase * 2 ^ part := mul_lt_mul_of_pos_right hword (by positivity)
    have hu : u64 (word <<< part) = word * 2 ^ part := by
      rw [shiftLeft_eq]
      apply u64_of_lt
      simp only [wordBase] at *
      omega
    have hnext : word * 2 ^ part / wordBase < 2 ^ part := Nat.div_lt_of_lt_mul hspread
    have hu' : u32 (word * 2 ^ part / wordBase) = word * 2 ^ part / wordBase :=
      u32_of_lt (hnext.trans hpow)
    have hlow : u32 (word * 2 ^ part) = word * 2 ^ part % wordBase := rfl
    have hdvd : 2 ^ part ∣ word * 2 ^ part % wordBase :=
      (dvd_mod_iff (pow_dvd_pow 2 hpart.le)).2 (dvd_mul_left _ _)
    have hmod := mod_add_div (word * 2 ^ part) wordBase
    obtain ⟨hbelow, hval⟩ := ih hwords hnext
    rw [shiftLeftLoop, hu, shiftRight_word, hu', hlow, ofDigits_cons, ofDigits_cons, hval]
    refine ⟨below_cons.2 ⟨or_lt_two_pow (hhigh.trans hpow) (mod_lt _ wordBase_pos), hbelow⟩, ?_⟩
    rw [or_eq_add hhigh hdvd]
    linear_combination hmod

variable (m bits : ℕ)

lemma bignum_shift_left_returns :
    Returns mem (diamondBignumShiftLeft mem ⟨s, digits base m⟩ bits) (signed s m * 2 ^ bits) := by
  have hsigned : signed s m * 2 ^ bits = signed s (m * 2 ^ bits) := by
    cases s <;> simp [signed]
  rw [diamondBignumShiftLeft, hsigned]
  rcases magnitude_to_words_digits mem m with ⟨⟨k, hk⟩, hwords⟩ | hwords
  · rw [hwords]
    exact .inr ⟨rfl, k, hk⟩
  rw [hwords]
  dsimp only
  split_ifs with h0 hmem
  · obtain rfl := digits_eq_nil_iff_eq_zero.1 (length_eq_zero_iff.1 h0)
    have hzero : signed s (0 * 2 ^ bits) = (0 : Int64).toInt := by cases s <;> simp [signed]
    rw [hzero]
    exact .inl (.int 0)
  · exact .nil_of_not hmem
  obtain ⟨hbelow, hval⟩ := shift_left_loop_value (mod_lt bits (by decide))
    (normal_digits one_lt_wordBase m).below (Nat.two_pow_pos (bits % 32))
  have hwhole : ofDigits wordBase (replicate (bits / 32) 0
      ++ shiftLeftLoop (bits % 32) (digits wordBase m) 0) = m * 2 ^ bits := by
    rw [ofDigits_append, ofDigits_replicate_zero, length_replicate, hval,
      ofDigits_digits, wordBase_pow, zero_add, add_zero]
    nth_rewrite 3 [← div_add_mod bits 32]
    ring
  rw [← hwhole]
  exact (words_to_value_returns _ _
    (below_append.2 ⟨below_replicate_zero wordBase_pos, hbelow⟩)).of_after

lemma wordBase_split (hpart : part < 32) : wordBase = 2 ^ (32 - part) * 2 ^ part := by
  rw [← pow_add, Nat.sub_add_cancel hpart.le, wordBase]

lemma ofDigits_mod_part (hpart : part < 32) (words : List ℕ) :
    ofDigits wordBase words % 2 ^ part = words.headD 0 % 2 ^ part := by
  rw [ofDigits_headD_tail, wordBase_split hpart, mul_comm (2 ^ (32 - part)), mul_assoc,
    add_mul_mod_self_left]

lemma shift_right_current (hpart : part < 32) {word} (hword : word < wordBase)
    (h : Below wordBase words) : (if part ≠ 0 ∧ words ≠ [] then
      word >>> part ||| (u64 (words.headD 0 <<< (32 - part)) &&& 0xFFFFFFFF) else word >>> part)
      = word / 2 ^ part + 2 ^ (32 - part) * (ofDigits wordBase words % 2 ^ part) := by
  have hsplit := wordBase_split hpart
  have hquot : word / 2 ^ part < 2 ^ (32 - part) := by
    apply Nat.div_lt_of_lt_mul
    rwa [mul_comm, ← hsplit]
  rw [Nat.shiftRight_eq_div_pow]
  split_ifs with hnext
  · have hhead := h.headD wordBase_pos
    have hle : 2 ^ (32 - part) ≤ wordBase := Nat.pow_le_pow_right two_pos (Nat.sub_le 32 part)
    have hu : u64 (words.headD 0 <<< (32 - part)) = 2 ^ (32 - part) * words.headD 0 := by
      rw [Nat.shiftLeft_eq, mul_comm]
      apply u64_of_lt
      calc 2 ^ (32 - part) * words.headD 0 ≤ wordBase * words.headD 0 := Nat.mul_le_mul_right _ hle
        _ < wordBase * wordBase := Nat.mul_lt_mul_of_pos_left hhead wordBase_pos
        _ = 2 ^ 64 := by rw [wordBase, ← pow_add]
    have hmask : 2 ^ (32 - part) * words.headD 0 % wordBase
        = 2 ^ (32 - part) * (words.headD 0 % 2 ^ part) := by
      rw [hsplit, Nat.mul_mod_mul_left]
    rw [hu, and_mask, hmask, or_eq_add hquot (Nat.dvd_mul_right _ _), ofDigits_mod_part hpart]
  · have hzero : ofDigits wordBase words % 2 ^ part = 0 := by
      by_cases h0 : part = 0
      · simp [h0, Nat.mod_one]
      · have hnil : words = [] := by
          by_contra hne
          exact hnext ⟨h0, hne⟩
        simp [hnil]
    rw [hzero, Nat.mul_zero, Nat.add_zero]

lemma shift_right_loop_value (hpart : part < 32) (h : Below wordBase words) :
    Below wordBase (shiftRightLoop part words) ∧
      ofDigits wordBase (shiftRightLoop part words) = ofDigits wordBase words / 2 ^ part := by
  induction words with
  | nil => exact ⟨below_nil, by simp [shiftRightLoop]⟩
  | cons word words ih =>
    obtain ⟨hword, hwords⟩ := below_cons.1 h
    obtain ⟨hbelow, hval⟩ := ih hwords
    have hsplit := wordBase_split hpart
    have hpos : 0 < 2 ^ part := by positivity
    set T := ofDigits wordBase words with hT
    have hlt : word / 2 ^ part + 2 ^ (32 - part) * (T % 2 ^ part) < wordBase := by
      have hquot : word / 2 ^ part < 2 ^ (32 - part) := by
        apply Nat.div_lt_of_lt_mul
        rwa [mul_comm, ← hsplit]
      have hmod : T % 2 ^ part + 1 ≤ 2 ^ part := Nat.mod_lt T hpos
      have := Nat.mul_le_mul_left (2 ^ (32 - part)) hmod
      rw [← hsplit, Nat.mul_add, Nat.mul_one] at this
      omega
    have hdiv : (word + wordBase * T) / 2 ^ part
        = word / 2 ^ part + 2 ^ (32 - part) * (T % 2 ^ part) + wordBase * (T / 2 ^ part) := by
      have harrange : word + wordBase * T = word + 2 ^ part * (2 ^ (32 - part) * T) := by
        rw [hsplit]
        ring
      rw [harrange, Nat.add_mul_div_left _ _ hpos, hsplit]
      nth_rewrite 1 [← Nat.mod_add_div T (2 ^ part)]
      ring
    rw [shiftRightLoop, shift_right_current hpart hword hwords, u32_of_lt hlt, Nat.ofDigits_cons,
      Nat.ofDigits_cons, hval, hdiv]
    exact ⟨below_cons.2 ⟨hlt, hbelow⟩, rfl⟩

lemma increment_words_value (h : Below wordBase words) : Below wordBase (incrementWords words) ∧
      ofDigits wordBase (incrementWords words) = ofDigits wordBase words + 1 := by
  induction words with
  | nil => exact ⟨below_cons.2 ⟨one_lt_wordBase, below_nil⟩, by simp [incrementWords]⟩
  | cons word _ ih =>
    obtain ⟨hword, hwords⟩ := below_cons.1 h
    obtain ⟨hbelow, hval⟩ := ih hwords
    rw [incrementWords]
    rcases lt_or_ge (word + 1) wordBase with hlt | hge
    · rw [u32_of_lt hlt, if_pos (succ_ne_zero word), ofDigits_cons, ofDigits_cons]
      exact ⟨below_cons.2 ⟨hlt, hwords⟩, by ring⟩
    -- the word wraps to zero and carries
    have hmax : word + 1 = wordBase := by omega
    have hwrap : u32 (word + 1) = 0 := by rw [hmax]; rfl
    rw [hwrap, if_neg (by simp), ofDigits_cons, ofDigits_cons, hval]
    refine ⟨below_cons.2 ⟨wordBase_pos, hbelow⟩, ?_⟩
    linear_combination -hmax

lemma any_ne_zero_eq (words : List ℕ) :
    words.any (· != 0) = decide (ofDigits wordBase words ≠ 0) := by
  induction words with
  | nil => simp
  | cons _ _ ih =>
    have hpos := wordBase_pos
    rw [any_cons, ih, Nat.ofDigits_cons, Bool.eq_iff_iff]
    simp only [Bool.or_eq_true, bne_iff_ne, decide_eq_true_eq, ne_eq, Nat.add_eq_zero_iff,
      Nat.mul_eq_zero]
    omega

/-- `lost` says whether the division by the shifted-out power leaves a remainder. -/
lemma lost_bits_eq (h : Below wordBase words) {whole} (hpart : part < 32)
    (hwhole : whole ≤ words.length) : lostBits words whole part
      = decide (ofDigits wordBase words % (wordBase ^ whole * 2 ^ part) ≠ 0) := by
  have hlow : ofDigits wordBase (words.take whole) < wordBase ^ whole := by
    have := (below_append.1 (take_append_drop whole words ▸ h)).1.ofDigits_lt one_lt_wordBase
    rwa [length_take, min_eq_left hwhole] at this
  have hvalue : ofDigits wordBase words = ofDigits wordBase (words.take whole)
      + wordBase ^ whole * ofDigits wordBase (words.drop whole) := by
    conv_lhs => rw [← take_append_drop whole words]
    rw [Nat.ofDigits_append, length_take, min_eq_left hwhole]
  have hmod : ofDigits wordBase words % (wordBase ^ whole * 2 ^ part)
      = ofDigits wordBase (words.take whole)
        + wordBase ^ whole * (words.getD whole 0 % 2 ^ part) := by
    have hhead : (words.drop whole).headD 0 = words.getD whole 0 := by
      rw [headD_eq_head?_getD, head?_drop, getD_eq_getElem?_getD]
    rw [Nat.mod_mul, hvalue, Nat.add_mul_mod_self_left, Nat.mod_eq_of_lt hlow,
      Nat.add_mul_div_left _ _ (Nat.pow_pos wordBase_pos), Nat.div_eq_of_lt hlow, Nat.zero_add,
      ofDigits_mod_part hpart, hhead]
  have hsecond : (whole < words.length && part != 0 &&
      words.getD whole 0 &&& (1 <<< part - 1) != 0) = (words.getD whole 0 % 2 ^ part != 0) := by
    rw [Nat.one_shiftLeft, Nat.and_two_pow_sub_one_eq_mod]
    by_cases hlt : whole < words.length
    · by_cases h0 : part = 0
      · simp [h0, Nat.mod_one]
      · simp [hlt, h0]
    · simp [hlt]
  have hpos : wordBase ^ whole ≠ 0 := (Nat.pow_pos wordBase_pos).ne'
  rw [lostBits, any_ne_zero_eq, hsecond, hmod, Bool.eq_iff_iff]
  simp only [Bool.or_eq_true, bne_iff_ne, decide_eq_true_eq, ne_eq, Nat.add_eq_zero_iff,
    Nat.mul_eq_zero, hpos, false_or]
  tauto

/-- Clamping the word count of a shift to the words there are does not change quotient or
remainder. -/
lemma shift_amount {m used} (h : m < wordBase ^ used) (bits : ℕ) {whole}
    (hwhole : whole = if bits / 32 > used then used else bits / 32) :
    m / (wordBase ^ whole * 2 ^ (bits % 32)) = m / 2 ^ bits ∧
      m % (wordBase ^ whole * 2 ^ (bits % 32)) = m % 2 ^ bits := by
  split_ifs at hwhole with hclamp
  · subst hwhole
    have hle : wordBase ^ whole ≤ wordBase ^ whole * 2 ^ (bits % 32) :=
      Nat.le_mul_of_pos_right _ (by positivity)
    have hle' : wordBase ^ whole ≤ 2 ^ bits := by
      rw [wordBase_pow]
      exact Nat.pow_le_pow_right two_pos (by omega)
    rw [div_eq_of_lt (by omega), div_eq_of_lt (by omega), mod_eq_of_lt (by omega),
      mod_eq_of_lt (by omega)]
    exact ⟨rfl, rfl⟩
  · have : wordBase ^ whole * 2 ^ (bits % 32) = 2 ^ bits := by
      rw [wordBase_pow, ← pow_add, hwhole, div_add_mod]
    rw [this]
    exact ⟨rfl, rfl⟩

lemma shift_right_words {whole}
    (hwhole : whole = if bits / 32 > (digits wordBase m).length then (digits wordBase m).length
      else bits / 32) : ∃ result, (if s && lostBits (digits wordBase m) whole (bits % 32) then
        incrementWords (shiftRightLoop (bits % 32) ((digits wordBase m).drop whole))
        else shiftRightLoop (bits % 32) ((digits wordBase m).drop whole)) = result ∧
      Below wordBase result ∧
        signed s (ofDigits wordBase result) = (signed s m).fdiv (2 ^ bits) := by
  set words := digits wordBase m
  have hbelow : Below wordBase words := (normal_digits one_lt_wordBase m).below
  have hm : ofDigits wordBase words = m := Nat.ofDigits_digits wordBase m
  have hpart : bits % 32 < 32 := Nat.mod_lt bits (by decide)
  have hle : whole ≤ words.length := by
    rw [hwhole]
    split_ifs <;> omega
  obtain ⟨hdiv, hmod⟩ := shift_amount (hm ▸ hbelow.ofDigits_lt one_lt_wordBase) bits hwhole
  have hdrop : Below wordBase (words.drop whole) := fun l hl => hbelow l (mem_of_mem_drop hl)
  obtain ⟨rbelow, rval⟩ := shift_right_loop_value hpart hdrop
  rw [← Nat.ofDigits_div_pow_eq_ofDigits_drop whole wordBase_pos words hbelow, hm,
    Nat.div_div_eq_div_mul, hdiv] at rval
  obtain ⟨ibelow, ival⟩ := increment_words_value rbelow
  have hlost : lostBits words whole (bits % 32) = (m % 2 ^ bits != 0) := by
    rw [lost_bits_eq hbelow hpart hle, hm, hmod, Bool.eq_iff_iff, decide_eq_true_eq, bne_iff_ne]
  have hspec := signed_fdiv s false m (Nat.two_pow_pos bits)
  have hpow : signed false (2 ^ bits) = 2 ^ bits := by simp [signed]
  rw [Bool.bne_false, hpow] at hspec
  refine ⟨_, rfl, ?_⟩
  rw [hlost, ← hspec]
  split_ifs
  · exact ⟨ibelow, by rw [ival, rval]⟩
  · exact ⟨rbelow, by rw [rval, Nat.add_zero]⟩

lemma bignum_shift_right_returns : Returns mem (diamondBignumShiftRight mem ⟨s, digits base m⟩ bits)
      ((signed s m).fdiv (2 ^ bits)) := by
  rw [diamondBignumShiftRight]
  rcases magnitude_to_words_digits mem m with ⟨⟨k, hk⟩, hwords⟩ | hwords
  · rw [hwords]
    exact .inr ⟨rfl, k, hk⟩
  rw [hwords]
  dsimp only
  by_cases h0 : (digits wordBase m).length = 0
  · obtain rfl := digits_eq_nil_iff_eq_zero.1 (length_eq_zero_iff.1 h0)
    have hzero : (signed s 0).fdiv (2 ^ bits) = (0 : Int64).toInt := by cases s <;> simp [signed]
    rw [if_pos h0, hzero]
    exact .inl (.int 0)
  rw [if_neg h0]
  by_cases hmem : (!mem 2) = true
  · rw [if_pos hmem]
    exact .nil_of_not hmem
  obtain ⟨_, hresult, hbelow, hval⟩ := shift_right_words s m bits rfl
  rw [if_neg hmem, hresult, ← hval]
  exact (words_to_value_returns _ _ hbelow).of_after

section Exact

variable (mem : Alloc) (a b : ℤ)

lemma bitwise_view_returns (op : BitwiseOp) :
    Returns mem (diamondBignumBitwise mem op (viewOf a) (viewOf b)) (Int.bitwise op.bit a b) := by
  have := bignum_bitwise_returns mem op (decide (a < 0)) (decide (b < 0)) a.natAbs b.natAbs
  rwa [signed_natAbs, signed_natAbs] at this

lemma shift_left_view_returns (bits : ℕ) :
    Returns mem (diamondBignumShiftLeft mem (viewOf a) bits) (a * 2 ^ bits) := by
  have := bignum_shift_left_returns mem (decide (a < 0)) a.natAbs bits
  rwa [signed_natAbs] at this

lemma shift_right_view_returns (bits : ℕ) :
    Returns mem (diamondBignumShiftRight mem (viewOf a) bits) (a.fdiv (2 ^ bits)) := by
  have := bignum_shift_right_returns mem (decide (a < 0)) a.natAbs bits
  rwa [signed_natAbs] at this

end Exact

/-- Every bit of the result, in two's complement without end, is the operator on the bits of the
operands. -/
theorem bitwise_twos_complement (mem : Alloc) (op : BitwiseOp) (a b : IntValue) : ∃ n : ℤ,
      Returns mem (diamondBignumBitwise mem op (diamondIntView a.raw) (diamondIntView b.raw)) n ∧
      ∀ k, n.testBit k = op.bit (a.toInt.testBit k) (b.toInt.testBit k) := by
  rw [a.canonical.view, b.canonical.view]
  refine ⟨_, bitwise_view_returns mem _ _ op, fun k => ?_⟩
  exact Int.testBit_bitwise _ _ _ _

/-- The shifts multiply by a power of two, and divide by it rounding down. -/
theorem shifts_exact (mem : Alloc) (value : IntValue) (bits : UInt64) :
    Returns mem (diamondBignumShiftLeft mem (diamondIntView value.raw) bits.toNat)
        (value.toInt * 2 ^ bits.toNat) ∧
      Returns mem (diamondBignumShiftRight mem (diamondIntView value.raw) bits.toNat)
        ⌊(value.toInt : ℚ) / 2 ^ bits.toNat⌋ := by
  have hfloor : ⌊(value.toInt : ℚ) / 2 ^ bits.toNat⌋ = value.toInt.fdiv (2 ^ bits.toNat) := by
    have hcast : (2 : ℚ) ^ bits.toNat = ((2 ^ bits.toNat : ℕ) : ℚ) := by push_cast; rfl
    rw [hcast, Rat.floor_intCast_div_natCast, Int.fdiv_eq_ediv_of_nonneg _ (by positivity)]
    push_cast
    rfl
  rw [hfloor, value.canonical.view]
  exact ⟨shift_left_view_returns mem _ _, shift_right_view_returns mem _ _⟩

end Diamond.Bignum
