import Diamond.Bignum.Value

/-!
# Decimal numerals

Model of the conversions between an Int and its decimal text: `format_int_decimal`
(`src/vm_format.c`), `diamond_bignum_to_string` and `diamond_bignum_from_decimal_digits`
(`src/bignum.c`).  `decimal` is the number that a run of digits denotes; leading zeros do not change
it.
-/

namespace Diamond.Bignum
open Nat (ofDigits digits)
open Positional List Nat

/-- `'0' + digit`. -/
def asciiDigit (digit : ℕ) : UInt8 := UInt8.ofNat (48 + digit)

/-- `c - '0'`. -/
def digitValue (c : UInt8) : ℕ := c.toNat - 48

def isDigit (c : UInt8) : Bool := 48 ≤ c && c ≤ 57

/-- The number denoted by a run of digits, the most significant one first. -/
def decimal (text : List UInt8) : ℕ := text.foldl (fun n c => n * 10 + digitValue c) 0

/-- The loop `do … while (magnitude != 0)` of `format_int_decimal`, least significant digit first.
-/
def decimalLoop (magnitude : ℕ) : List UInt8 :=
  asciiDigit (magnitude % 10) :: if h : magnitude / 10 ≠ 0 then decimalLoop (magnitude / 10) else []
termination_by magnitude
decreasing_by
  have : magnitude ≠ 0 := fun h0 => h (by rw [h0])
  omega

/-- The conversion `%u`. -/
def printUnsigned (n : ℕ) : List UInt8 := (decimalLoop n).reverse

/-- The conversion `%09u`. -/
def printPadded (n : ℕ) : List UInt8 :=
  List.replicate (9 - (printUnsigned n).length) (asciiDigit 0) ++ printUnsigned n

def minus (negative : Bool) : List UInt8 := if negative then [45] else []

/-- `format_int_decimal`: the magnitude is computed in `uint64_t`, where `INT64_MIN` has one. -/
def formatIntDecimal (value : Int64) : List UInt8 :=
  let magnitude := if value < 0 then u64 (2 ^ 64 - value.toUInt64.toNat) else value.toUInt64.toNat
  minus (value < 0) ++ printUnsigned magnitude

def printLimbs : List ℕ → List UInt8
  | [] => []
  | limb :: limbs => printPadded limb ++ printLimbs limbs

def diamondBignumToString (negative : Bool) (limbs : List ℕ) : List UInt8 :=
  match limbs.reverse with
  | [] => minus negative
  | top :: below => minus negative ++ (printUnsigned top ++ printLimbs below)

/-- The loop of `diamond_bignum_from_decimal_digits` over the digits from the least significant end,
nine at a time. -/
def decimalChunks : ℕ → List UInt8 → List ℕ
  | 0, _ => []
  | _ + 1, [] => []
  | fuel + 1, reversed =>
    (reversed.take 9).reverse.foldl (fun chunk c => u32 (u32 (chunk * 10) + digitValue c)) 0 ::
      decimalChunks fuel (reversed.drop 9)

def diamondBignumFromDecimalDigits (mem : Alloc) (text : List UInt8) (negative : Bool) :
    DiamondValue :=
  if mem 0 then
    bignumCanonicalize (mem.after 1) negative
      (magnitudeTrim (decimalChunks text.length text.reverse))
  else .nil

/-! ## Runs of digits -/

/-- A nonempty run of digits. -/
structure Digits (text : List UInt8) : Prop where
  ne_nil : text ≠ []
  digit : ∀ c ∈ text, isDigit c = true

lemma digitValue_lt {c} (h : isDigit c = true) : digitValue c < 10 := by
  rw [isDigit, Bool.and_eq_true, decide_eq_true_eq, decide_eq_true_eq, UInt8.le_iff_toNat_le,
    UInt8.le_iff_toNat_le] at h
  have hhigh : c.toNat ≤ 57 := h.2
  rw [digitValue]
  omega

lemma toNat_asciiDigit {d} (h : d < 10) : (asciiDigit d).toNat = 48 + d :=
  UInt8.toNat_ofNat_of_lt (show 48 + d < 256 by omega)

@[simp]
lemma digitValue_asciiDigit {d} (h : d < 10) : digitValue (asciiDigit d) = d := by
  rw [digitValue, toNat_asciiDigit h, Nat.add_sub_cancel_left]

@[simp]
lemma isDigit_asciiDigit {d} (h : d < 10) : isDigit (asciiDigit d) = true := by
  rw [isDigit, Bool.and_eq_true, decide_eq_true_eq, decide_eq_true_eq, UInt8.le_iff_toNat_le,
    UInt8.le_iff_toNat_le, toNat_asciiDigit h]
  exact ⟨Nat.le_add_right _ _, show 48 + d ≤ 57 by omega⟩

lemma decimal_eq_ofDigits (text : List UInt8) :
    decimal text = ofDigits 10 (text.reverse.map digitValue) := by
  rw [map_reverse, ← horner_eq_ofDigits]
  exact foldl_map.symm

lemma decimal_append (text text' : List UInt8) :
    decimal (text ++ text') = decimal text * 10 ^ text'.length + decimal text' := by
  rw [decimal_eq_ofDigits, reverse_append, map_append, ofDigits_append,
    ← decimal_eq_ofDigits, ← decimal_eq_ofDigits, length_map, length_reverse]
  ring

/-! ## Printing -/

variable (n : ℕ)

lemma decimalLoop_spec :
    (∀ c ∈ decimalLoop n, isDigit c = true) ∧ ofDigits 10 ((decimalLoop n).map digitValue) = n := by
  induction n using Nat.strong_induction_on with
  | _ n ih =>
    have hlt : n % 10 < 10 := Nat.mod_lt _ (by decide)
    rw [decimalLoop]
    split_ifs with h
    · obtain ⟨hdigits, hvalue⟩ := ih (n / 10) (by omega)
      refine ⟨forall_mem_cons.2 ⟨isDigit_asciiDigit hlt, hdigits⟩, ?_⟩
      rw [map_cons, Nat.ofDigits_cons, hvalue, digitValue_asciiDigit hlt]
      exact Nat.mod_add_div n 10
    · refine ⟨forall_mem_cons.2 ⟨isDigit_asciiDigit hlt, nofun⟩, ?_⟩
      rw [map_cons, map_nil, Nat.ofDigits_singleton, digitValue_asciiDigit hlt]
      omega

lemma digits_printUnsigned : Digits (printUnsigned n) where
  ne_nil := by
    rw [printUnsigned, Ne, reverse_eq_nil_iff, decimalLoop]
    exact cons_ne_nil _ _
  digit := by
    intro c hc
    exact (decimalLoop_spec n).1 c (mem_reverse.1 hc)

lemma decimal_printUnsigned : decimal (printUnsigned n) = n := by
  rw [decimal_eq_ofDigits, printUnsigned, reverse_reverse]
  exact (decimalLoop_spec n).2

lemma length_decimalLoop_le (k n : ℕ) (h : n < 10 ^ (k + 1)) : (decimalLoop n).length ≤ k + 1 := by
  induction k generalizing n with
  | zero =>
    have hlt : n / 10 = 0 := Nat.div_eq_of_lt (by simpa using h)
    rw [decimalLoop, dif_neg (not_not.2 hlt)]
    exact le_rfl
  | succ k ih =>
    rw [decimalLoop]
    split_ifs with hdiv
    · exact Nat.succ_le_succ (ih _ (Nat.div_lt_of_lt_mul (by rwa [pow_succ'] at h)))
    · exact Nat.succ_le_succ (Nat.zero_le _)

lemma length_printPadded {n} (h : n < base) : (printPadded n).length = 9 := by
  have hle : (printUnsigned n).length ≤ 9 := by
    rw [printUnsigned, length_reverse]
    exact length_decimalLoop_le 8 n h
  rw [printPadded, length_append, length_replicate]
  omega

lemma decimal_replicate_zero : decimal (List.replicate n (asciiDigit 0)) = 0 := by
  rw [decimal_eq_ofDigits, reverse_replicate, map_replicate]
  exact ofDigits_replicate_zero

lemma decimal_printPadded : decimal (printPadded n) = n := by
  rw [printPadded, decimal_append, decimal_replicate_zero, decimal_printUnsigned, zero_mul, zero_add]

lemma printPadded_digit {n} : ∀ c ∈ printPadded n, isDigit c = true := by
  intro c hc
  rcases mem_append.1 hc with hc | hc
  · rw [eq_of_mem_replicate hc]
    rfl
  · exact (digits_printUnsigned n).digit c hc

lemma printLimbs_digit (limbs : List ℕ) : ∀ c ∈ printLimbs limbs, isDigit c = true := by
  induction limbs with
  | nil => exact nofun
  | cons _ _ ih =>
    intro c hc
    rcases mem_append.1 hc with hc | hc
    · exact printPadded_digit c hc
    · exact ih c hc

lemma printLimbs_spec {limbs} (h : Below base limbs) :
    (printLimbs limbs).length = 9 * limbs.length ∧
      decimal (printLimbs limbs) = ofDigits base limbs.reverse := by
  induction limbs with
  | nil => exact ⟨rfl, rfl⟩
  | cons _ limbs ih =>
    obtain ⟨hlimb, hlimbs⟩ := below_cons.1 h
    obtain ⟨hlength, hvalue⟩ := ih hlimbs
    refine ⟨?_, ?_⟩
    · rw [printLimbs, length_append, length_printPadded hlimb, hlength, length_cons]
      ring
    · have hpow : 10 ^ (9 * limbs.length) = base ^ limbs.length := pow_mul 10 9 _
      rw [printLimbs, decimal_append, decimal_printPadded, hvalue, hlength, reverse_cons,
        ofDigits_append, ofDigits_singleton, length_reverse, hpow]
      ring

lemma diamondBignumToString_spec {limbs} (negative : Bool) (h : Below base limbs)
    {top} (hlast : limbs.getLast? = some top) :
    ∃ text, diamondBignumToString negative limbs = minus negative ++ text ∧ Digits text ∧
      decimal text = ofDigits base limbs := by
  rw [diamondBignumToString]
  cases hrev : limbs.reverse with
  | nil =>
    rw [reverse_eq_nil_iff.1 hrev] at hlast
    cases hlast
  | cons top below =>
    obtain rfl : limbs = below.reverse ++ [top] := by
      rw [← reverse_reverse limbs, hrev, reverse_cons]
    obtain ⟨hlength, hvalue⟩ := printLimbs_spec (below_reverse.1 (below_append.1 h).1)
    refine ⟨_, rfl, ⟨?_, ?_⟩, ?_⟩
    · exact append_ne_nil_of_left_ne_nil (digits_printUnsigned top).ne_nil _
    · intro c hc
      rcases mem_append.1 hc with hc | hc
      · exact (digits_printUnsigned top).digit c hc
      · exact printLimbs_digit below c hc
    · have hpow : 10 ^ (9 * below.length) = base ^ below.length := pow_mul 10 9 _
      rw [decimal_append, decimal_printUnsigned, hvalue, hlength, ofDigits_append,
        ofDigits_singleton, length_reverse, hpow]
      ring

lemma int64_magnitude (value : Int64) :
    (if value < 0 then u64 (2 ^ 64 - value.toUInt64.toNat) else value.toUInt64.toNat) =
      value.toInt.natAbs := by
  have hneg : value < 0 ↔ value.toInt < 0 := by simp [Int64.lt_iff_toInt_lt]
  have hcond : value.toInt = _ := BitVec.toInt_eq_toNat_cond value.toBitVec
  have hlt : value.toUInt64.toNat < 2 ^ 64 := value.toUInt64.toNat_lt
  have hbits : value.toBitVec.toNat = value.toUInt64.toNat := rfl
  rw [hbits] at hcond
  by_cases hsign : value < 0
  · have hlt0 := hneg.1 hsign
    rw [if_pos hsign, u64_of_lt (by omega)]
    omega
  · have hge0 := mt hneg.2 hsign
    rw [if_neg hsign]
    omega

lemma formatIntDecimal_spec (value : Int64) :
    ∃ text, formatIntDecimal value = minus (value.toInt < 0) ++ text ∧ Digits text ∧
      decimal text = value.toInt.natAbs := by
  have hneg : value < 0 ↔ value.toInt < 0 := by simp [Int64.lt_iff_toInt_lt]
  refine ⟨_, ?_, digits_printUnsigned value.toInt.natAbs, decimal_printUnsigned _⟩
  rw [formatIntDecimal, int64_magnitude]
  simp only [hneg]

/-! ## Reading -/

lemma foldl_decimal (text : List UInt8) :
    text.foldl (fun n c => n * 10 + digitValue c) n = n * 10 ^ text.length + decimal text := by
  induction text generalizing n with
  | nil => simp [decimal]
  | cons c text ih =>
    have hcons : decimal (c :: text) = digitValue c * 10 ^ text.length + decimal text := by
      rw [← singleton_append, decimal_append]
      simp [decimal]
    rw [foldl_cons, ih, hcons, length_cons, pow_succ]
    ring

variable {text : List UInt8}

lemma foldl_u32_eq {n} (h : n * 10 ^ text.length + decimal text < 2 ^ 32) :
    text.foldl (fun chunk c => u32 (u32 (chunk * 10) + digitValue c)) n =
      n * 10 ^ text.length + decimal text := by
  induction text generalizing n with
  | nil => simp [decimal]
  | cons c text ih =>
    have hstep : n * 10 ^ (c :: text).length + decimal (c :: text) =
        (n * 10 + digitValue c) * 10 ^ text.length + decimal text := by
      rw [← foldl_decimal, foldl_cons, foldl_decimal]
    rw [hstep] at h ⊢
    have hlt : n * 10 + digitValue c < 2 ^ 32 := by
      have hle := Nat.le_mul_of_pos_right (n * 10 + digitValue c)
        (Nat.pow_pos (n := text.length) (by decide : 0 < 10))
      omega
    rw [foldl_cons, u32_of_lt (by omega : n * 10 < 2 ^ 32), u32_of_lt hlt]
    exact ih h

lemma decimal_lt (h : ∀ c ∈ text, isDigit c = true) : decimal text < 10 ^ text.length := by
  have hbelow : Below 10 (text.reverse.map digitValue) := by
    intro d hd
    obtain ⟨c, hc, rfl⟩ := mem_map.1 hd
    exact digitValue_lt (h c (mem_reverse.1 hc))
  have hlt := hbelow.ofDigits_lt (by decide)
  rwa [← decimal_eq_ofDigits, length_map, length_reverse] at hlt

lemma chunk_spec (h : ∀ c ∈ text, isDigit c = true) (hlength : text.length ≤ 9) :
    text.foldl (fun chunk c => u32 (u32 (chunk * 10) + digitValue c)) 0 = decimal text ∧
      decimal text < base := by
  have hlt : decimal text < base :=
    (decimal_lt h).trans_le (Nat.pow_le_pow_right (by decide) hlength)
  have hfits : 0 * 10 ^ text.length + decimal text < 2 ^ 32 := by
    rw [zero_mul, zero_add]
    exact hlt.trans (by decide)
  have hfold := foldl_u32_eq hfits
  rw [zero_mul, zero_add] at hfold
  exact ⟨hfold, hlt⟩

lemma decimal_reverse_split (reversed : List UInt8) : decimal reversed.reverse =
      decimal (reversed.take 9).reverse + base * decimal (reversed.drop 9).reverse := by
  have hsplit : decimal reversed.reverse = decimal (reversed.drop 9).reverse *
      10 ^ (reversed.take 9).length + decimal (reversed.take 9).reverse := by
    conv_lhs => rw [← take_append_drop 9 reversed]
    rw [reverse_append, decimal_append, length_reverse]
  rw [hsplit]
  by_cases hfull : 9 ≤ reversed.length
  · rw [length_take_of_le hfull]
    show decimal (reversed.drop 9).reverse * base + _ = _
    ring
  · rw [drop_eq_nil_of_le (by omega)]
    simp [decimal]

lemma decimalChunks_spec (fuel : ℕ) {reversed} (hfuel : reversed.length ≤ fuel)
    (h : ∀ c ∈ reversed, isDigit c = true) : Below base (decimalChunks fuel reversed) ∧
      ofDigits base (decimalChunks fuel reversed) = decimal reversed.reverse := by
  induction fuel generalizing reversed with
  | zero =>
    obtain rfl := eq_nil_of_length_eq_zero (le_zero.1 hfuel)
    exact ⟨below_nil, rfl⟩
  | succ fuel ih =>
    cases reversed with
    | nil => exact ⟨below_nil, rfl⟩
    | cons c rest =>
      have hlength : ((c :: rest).take 9).reverse.length ≤ 9 := by
        rw [length_reverse]
        exact length_take_le _ _
      obtain ⟨hchunk, hlt⟩ := chunk_spec (fun c hc =>
        h c (mem_of_mem_take (mem_reverse.1 hc))) hlength
      have hfuel' : ((c :: rest).drop 9).length ≤ fuel := by
        rw [length_drop]
        rw [length_cons] at hfuel ⊢
        omega
      obtain ⟨hbelow, hvalue⟩ := ih hfuel' fun c hc => h c (mem_of_mem_drop hc)
      rw [decimalChunks]
      · rw [hchunk, ofDigits_cons, hvalue]
        exact ⟨below_cons.2 ⟨hlt, hbelow⟩, (decimal_reverse_split _).symm⟩
      · exact cons_ne_nil c rest

lemma diamondBignumFromDecimalDigits_returns (mem : Alloc) (h : Digits text) (negative : Bool) :
    Returns mem (diamondBignumFromDecimalDigits mem text negative)
      (signed negative (decimal text)) := by
  rw [diamondBignumFromDecimalDigits]
  split_ifs with hmem
  · obtain ⟨hbelow, hvalue⟩ := decimalChunks_spec text.length (length_reverse.le)
      fun c hc => h.digit c (mem_reverse.1 hc)
    rw [reverse_reverse] at hvalue
    rw [magnitudeTrim, trim_eq_digits one_lt_base hbelow, hvalue]
    exact (canonicalize_returns (mem.after 1) negative (decimal text)).of_after
  · exact .inr ⟨rfl, 0, by simpa using hmem⟩

end Diamond.Bignum
