import Diamond.Bignum.Decimal
import Diamond.Operators.SmallInt

/-!
# The text of an Int in a radix

Model of `Int#to_s` and `String#to_i`, with and without a radix (`src/vm_string.c`,
`src/vm_collections.c`, `src/vm_format.c`), and of the two conversions of `src/bignum.c` that they
use for a large Int.  A loop that fills a buffer gets the size of the buffer as its fuel, so a text
shorter than the buffer is complete.
-/

namespace Diamond.Operators
open Nat (ofDigits digits)
open Bignum Positional List

/-! ## Printing -/

/-- `"0123456789abcdefghijklmnopqrstuvwxyz"[digit]`. -/
def radixChar (digit : ℕ) : UInt8 :=
  ("0123456789abcdefghijklmnopqrstuvwxyz".toList.getD digit '0').toUInt8

/-- The loop `while (remaining > 0)` of `diamond_bignum_to_radix_string`. -/
def radixLoop (radix : ℕ) : ℕ → List ℕ → List UInt8
  | 0, _ => []
  | room + 1, limbs =>
    if limbs.length > 0 then
      let (quotient, carry) := divideLoop radix limbs
      radixChar carry :: radixLoop radix room (magnitudeTrim quotient)
    else []

def radixCapacity (limbs : List ℕ) : ℕ := limbs.length * 30 + 3

def diamondBignumToRadixString (mem : Alloc) (value : IntView) (radix : ℕ) : Option (List UInt8) :=
  if !mem 0 || !mem 1 then none
  else
    let produced := radixLoop radix (radixCapacity value.limbs) (magnitudeTrim value.limbs)
    let produced := if produced.length = 0 then [48] else produced
    some (produced ++ minus value.negative).reverse

/-- The loop `do … while (magnitude > 0)` of `int_to_s_radix_method`. -/
def smallRadixLoop (radix : ℕ) : ℕ → ℕ → List UInt8
  | 0, _ => []
  | room + 1, magnitude =>
    radixChar (magnitude % radix) ::
      if magnitude / radix > 0 then smallRadixLoop radix room (magnitude / radix) else []

def intToSRadixMethod (integer : Int64) (radix : ℕ) : List UInt8 :=
  let magnitude :=
    if integer < 0 then u64 (2 ^ 64 - integer.toUInt64.toNat) else integer.toUInt64.toNat
  (smallRadixLoop radix 72 magnitude ++ minus (integer < 0)).reverse

/-- `Int#to_s(radix)` -/
def intToSRadix (mem : Alloc) (radix : ℕ) : DiamondValue → Option (List UInt8)
  | .int integer => some (intToSRadixMethod integer radix)
  | value => diamondBignumToRadixString mem (diamondIntView value) radix

/-- The size of the buffer that `Int#to_s(radix)` writes. -/
def radixBuffer : DiamondValue → ℕ
  | .int _ => 72
  | value => radixCapacity (diamondIntView value).limbs

/-- `Int#to_s` -/
def intToS : DiamondValue → List UInt8
  | .bignum negative limbs => diamondBignumToString negative limbs
  | .int integer => formatIntDecimal integer
  | _ => []

def diamondBignumStringLength (negative : Bool) (limbs : List ℕ) : ℕ :=
  (if negative then 1 else 0) + limbs.length * 9 + 1

/-- The size of the buffer that `Int#to_s` writes; `format_int_decimal` asks for 21 bytes. -/
def decimalBuffer : DiamondValue → ℕ
  | .bignum negative limbs => diamondBignumStringLength negative limbs
  | _ => 21

/-! ## Reading -/

/-- The digit in `string_to_i_radix_method`. -/
def radixValue (c : UInt8) : ℕ :=
  if 48 ≤ c ∧ c ≤ 57 then c.toNat - 48
  else if 97 ≤ c ∧ c ≤ 122 then c.toNat - 87
  else if 65 ≤ c ∧ c ≤ 90 then c.toNat - 55
  else 99

/-- The digit in `diamond_bignum_from_radix_digits`, where anything else is an upper case letter. -/
def radixDigit (c : UInt8) : ℕ :=
  if 48 ≤ c ∧ c ≤ 57 then c.toNat - 48
  else if 97 ≤ c ∧ c ≤ 122 then c.toNat - 87
  else ((c.toInt8.toInt - 55) % 2 ^ 32).toNat

/-- The limbs after some digits. -/
def radixLimbs (radix : ℕ) (text : List UInt8) : List ℕ :=
  text.foldl (fun limbs c => magnitudeMultiplyAdd radix limbs (radixDigit c)) []

def diamondBignumFromRadixDigits (mem : Alloc) (text : List UInt8) (radix : ℕ) (negative : Bool) :
    DiamondValue :=
  if mem 0 then bignumCanonicalize (mem.after 1) negative (magnitudeTrim (radixLimbs radix text))
  else .nil

/-- One more digit, unless `overflowed`. -/
def accumulate (radix : ℕ) (value : Option Int64) (digit : ℕ) : Option Int64 :=
  value.bind fun value =>
    (ckdMul value (Int64.ofNat radix)).bind fun widened => ckdAdd widened (Int64.ofNat digit)

def splitSign : List UInt8 → Bool × List UInt8
  | [] => (false, [])
  | c :: text => if c = 45 ∨ c = 43 then (c = 45, text) else (false, c :: text)

/-- The value that was read, or the large Int if it has overflowed. -/
def parsedInt (value : Option Int64) (negative : Bool) (big : DiamondValue) : DiamondValue :=
  match value with
  | some value => .int (if negative then -value else value)
  | none => big

def stringToIRadixMethod (mem : Alloc) (radix : ℕ) (source : List UInt8) : DiamondValue :=
  let (negative, text) := splitSign (source.dropWhile fun c => c = 32 ∨ c = 9)
  let clean := (text.takeWhile fun c => c = 95 ∨ radixValue c < radix).filter (· ≠ 95)
  parsedInt ((clean.map radixValue).foldl (accumulate radix) (some 0)) negative
    (if mem 0 then diamondBignumFromRadixDigits (mem.after 1) clean radix negative else .nil)

def stringToIMethod (mem : Alloc) (source : List UInt8) : DiamondValue :=
  let (negative, text) := splitSign source
  let run := text.takeWhile isDigit
  if run = [] then .int 0
  else
    parsedInt ((run.map digitValue).foldl (accumulate 10) (some 0)) negative
      (diamondBignumFromDecimalDigits mem run negative)

/-! ## Numerals -/

/-- A text without a sign that denotes `n`. -/
structure Numeral (radix : ℕ) (text : List UInt8) (n : ℕ) : Prop where
  ne_nil : text ≠ []
  digit : ∀ c ∈ text, radixValue c < radix
  value : horner radix (text.map radixValue) = n

lemma radixValue_radixChar : ∀ d < 36, radixValue (radixChar d) = d := by
  decide +kernel

/-- On digits the two readings agree, and no digit is a blank, a sign or an underscore. -/
lemma radixDigit_eq {c} (h : radixValue c < 36) :
    radixDigit c = radixValue c ∧ c ≠ 32 ∧ c ≠ 9 ∧ c ≠ 45 ∧ c ≠ 43 ∧ c ≠ 95 := by
  have hall : ∀ n : Fin 256, radixValue (.ofFin n) < 36 → radixDigit (.ofFin n) =
      radixValue (.ofFin n) ∧ UInt8.ofFin n ≠ 32 ∧ UInt8.ofFin n ≠ 9 ∧ UInt8.ofFin n ≠ 45 ∧
      UInt8.ofFin n ≠ 43 ∧ UInt8.ofFin n ≠ 95 := by
    decide +kernel
  exact hall c.toFin h

lemma isDigit_ne_sign {c} (h : isDigit c = true) : c ≠ 45 ∧ c ≠ 43 := by
  constructor
  all_goals
    rintro rfl
    cases h

lemma splitSign_minus (negative : Bool) (h : ∀ c ∈ text, c ≠ 45 ∧ c ≠ 43) :
    splitSign (minus negative ++ text) = (negative, text) := by
  cases negative with
  | true => rfl
  | false =>
    cases text with
    | nil => rfl
    | cons c =>
      obtain ⟨hminus, hplus⟩ := h c (mem_cons_self ..)
      exact if_neg (not_or.2 ⟨hminus, hplus⟩)

/-! ## Reading a numeral -/

lemma accumulate_checked {radix digit} (hpos : 0 < radix) (h36 : radix ≤ 36)
    (hdigit : digit < radix) (n : ℕ) :
    accumulate radix (checked n) digit = checked ((n * radix + digit : ℕ) : ℤ) := by
  have hle : n ≤ n * radix := Nat.le_mul_of_pos_right n hpos
  have hradix : (Int64.ofNat radix).toInt = radix := Int64.toInt_ofNat_of_lt (by omega)
  have hvalue : (Int64.ofNat digit).toInt = digit := Int64.toInt_ofNat_of_lt (by omega)
  have hfits (k : ℕ) : FitsInt64 k ↔ k < 2 ^ 63 := by
    rw [FitsInt64]
    omega
  have hcast : (n * radix : ℤ) = (n * radix : ℕ) := (Nat.cast_mul n radix).symm
  by_cases hmul : n * radix < 2 ^ 63
  · have hn : FitsInt64 n := (hfits n).2 (by omega)
    have hprod : FitsInt64 ((n * radix : ℕ) : ℤ) := (hfits _).2 hmul
    simp only [accumulate, checked, ckdMul, ckdAdd, if_pos hn, Option.bind_some, toInt_ofInt hn,
      hradix, hcast, if_pos hprod, toInt_ofInt hprod, hvalue, Nat.cast_add]
  have hnext : ¬FitsInt64 ((n * radix + digit : ℕ) : ℤ) := fun h => hmul (by
    have hlt := (hfits _).1 h
    omega)
  have hprod : ¬FitsInt64 ((n * radix : ℕ) : ℤ) := fun h => hmul ((hfits _).1 h)
  by_cases hn : FitsInt64 n
  · simp only [accumulate, checked, ckdMul, if_pos hn, Option.bind_some, toInt_ofInt hn, hradix,
      hcast, if_neg hprod, Option.bind_none, if_neg hnext]
  · simp only [accumulate, checked, if_neg hn, Option.bind_none, if_neg hnext]

lemma foldl_accumulate {radix} (hpos : 0 < radix) (h36 : radix ≤ 36) {run}
    (h : ∀ d ∈ run, d < radix) :
    run.foldl (accumulate radix) (some 0) = checked (horner radix run) := by
  induction run using List.reverseRecOn with
  | nil => simp [horner, checked, FitsInt64]
  | append_singleton run d ih =>
    have hrun : ∀ d ∈ run, d < radix := fun d hd => h d (mem_append_left _ hd)
    have hd : d < radix := h d (mem_append_right _ (mem_singleton_self d))
    rw [foldl_append, ih hrun, foldl_cons, foldl_nil,
      accumulate_checked hpos h36 hd, horner, horner, foldl_append, foldl_cons,
      foldl_nil]

lemma parsedInt_returns {mem n negative big} (h : Returns mem big (signed negative n)) :
    Returns mem (parsedInt (checked n) negative big) (signed negative n) := by
  by_cases hn : FitsInt64 n
  · have hvalue := toInt_ofInt hn
    rw [checked, if_pos hn, parsedInt]
    refine .inl (canonical_int ?_)
    cases negative with
    | false => exact hvalue
    | true =>
      rw [if_pos rfl, Int64.toInt_neg, hvalue]
      obtain ⟨hlo, hhi⟩ := hn
      exact Int.bmod_eq_of_le (by omega) (by omega)
  · rw [checked, if_neg hn]
    exact h

section
variable {radix : ℕ} (h2 : 2 ≤ radix) (h36 : radix ≤ 36)
include h2 h36

lemma radixLimbs_eq (h : ∀ c ∈ text, radixValue c < radix) :
    radixLimbs radix text = digits base (horner radix (text.map radixValue)) := by
  induction text using List.reverseRecOn with
  | nil => exact (Nat.digits_zero base).symm
  | append_singleton text c ih =>
    have hc := h c (mem_append_right _ (mem_singleton_self c))
    have hword : 36 < wordBase := by decide
    rw [radixLimbs, foldl_append, map_append, horner, foldl_append]
    show magnitudeMultiplyAdd radix (radixLimbs radix text) (radixDigit c) = _
    rw [ih fun c hc => h c (mem_append_left _ hc), (radixDigit_eq (hc.trans_le h36)).1,
      multiply_add_digits (by omega) (by omega) _ (by omega)]
    rfl

lemma length_radixLimbs {seen} (h : ∀ c ∈ text, radixValue c < radix)
    (hseen : seen <+: text) : (radixLimbs radix seen).length ≤ text.length * 6 / 29 + 3 := by
  have hdigit : Below radix (seen.map radixValue).reverse := by
    intro d hd
    obtain ⟨c, hc, rfl⟩ := mem_map.1 (mem_reverse.1 hd)
    exact h c (hseen.subset hc)
  have hlt := hdigit.ofDigits_lt h2
  rw [← horner_eq_ofDigits, length_reverse, length_map] at hlt
  have hlength := hseen.length_le
  rw [radixLimbs_eq h2 h36 fun c hc => h c (hseen.subset hc), Nat.digits_length_le_iff one_lt_base]
  calc horner radix (seen.map radixValue) < radix ^ seen.length := hlt
    _ ≤ (2 ^ 6) ^ seen.length := Nat.pow_le_pow_left (by omega) _
    _ ≤ (2 ^ 29) ^ (text.length * 6 / 29 + 3) := by
      rw [← pow_mul, ← pow_mul]
      exact Nat.pow_le_pow_right two_pos (by omega)
    _ ≤ base ^ (text.length * 6 / 29 + 3) := Nat.pow_le_pow_left (by decide) _

lemma stringToIRadixMethod_returns (mem : Alloc) (negative : Bool) {n} (h : Numeral radix text n) :
    Returns mem (stringToIRadixMethod mem radix (minus negative ++ text)) (signed negative n) := by
  have hchar : ∀ c ∈ text, _ := fun c hc => (radixDigit_eq ((h.digit c hc).trans_le h36)).2
  have hblank : (minus negative ++ text).dropWhile (fun c => c = 32 ∨ c = 9) =
      minus negative ++ text := by
    cases negative with
    | true => rfl
    | false =>
      cases text with
      | nil => rfl
      | cons c =>
        obtain ⟨h32, h9, -⟩ := hchar c (mem_cons_self ..)
        exact dropWhile_cons_of_neg (by simp [h32, h9])
  have hsign := splitSign_minus negative fun c hc =>
    ⟨(hchar c hc).2.2.1, (hchar c hc).2.2.2.1⟩
  have htake : text.takeWhile (fun c => c = 95 ∨ radixValue c < radix) = text :=
    takeWhile_eq_self_iff.2 fun c hc => decide_eq_true (.inr (h.digit c hc))
  have hfilter : text.filter (· ≠ 95) = text :=
    filter_eq_self.2 fun c hc => decide_eq_true (hchar c hc).2.2.2.2
  have hdigit : ∀ d ∈ text.map radixValue, d < radix := by
    intro d hd
    obtain ⟨c, hc, rfl⟩ := mem_map.1 hd
    exact h.digit c hc
  simp only [stringToIRadixMethod, hblank, hsign, htake, hfilter]
  rw [foldl_accumulate (by omega) h36 hdigit, h.value]
  apply parsedInt_returns
  split_ifs with hmem
  · rw [diamondBignumFromRadixDigits]
    split_ifs with hmem'
    · rw [radixLimbs_eq h2 h36 h.digit, h.value,
        magnitude_trim_eq_digits (normal_digits one_lt_base n).below, Nat.ofDigits_digits]
      exact (canonicalize_returns _ _ _).of_after.of_after
    · exact (Returns.nil_of_not (by simpa using hmem')).of_after
  · exact .nil_of_not (by simpa using hmem)

/-! ## Printing a numeral -/

/-- The digits of a number, where zero has one. -/
def numeral (radix m : ℕ) : List ℕ := if m = 0 then [0] else digits radix m

lemma numeral_text (m : ℕ) : Numeral radix ((numeral radix m).map radixChar).reverse m := by
  have hbelow : Below radix (numeral radix m) := by
    rw [numeral]
    split_ifs with hm
    · exact below_cons.2 ⟨by omega, below_nil⟩
    · exact (normal_digits h2 m).below
  have hchar : ∀ d ∈ numeral radix m, radixValue (radixChar d) = d := fun d hd =>
    radixValue_radixChar d ((hbelow d hd).trans_le h36)
  refine ⟨?_, ?_, ?_⟩
  · rw [numeral]
    split_ifs with hm
    · simp
    · simpa [Nat.digits_ne_nil_iff_ne_zero] using hm
  · intro c hc
    obtain ⟨d, hd, rfl⟩ := mem_map.1 (mem_reverse.1 hc)
    rw [hchar d hd]
    exact hbelow d hd
  · rw [horner_eq_ofDigits, ← map_reverse, reverse_reverse, map_map,
      map_congr_left (f := radixValue ∘ radixChar) (g := id) hchar, map_id, numeral]
    split_ifs with hm
    · simp [hm]
    · exact Nat.ofDigits_digits radix m

omit h36 in
lemma length_numeral {m k} (h : m < 2 ^ k) : (numeral radix m).length ≤ k + 1 := by
  rw [numeral]
  split_ifs with hm
  · exact Nat.succ_le_succ (Nat.zero_le k)
  · have hlt : m < radix ^ k := h.trans_le (Nat.pow_le_pow_left h2 k)
    exact ((Nat.digits_length_le_iff h2 m).2 hlt).trans k.le_succ

omit h36 in
lemma smallRadixLoop_eq (room : ℕ) {m} (h : m < 2 ^ (room + 1)) :
    smallRadixLoop radix (room + 1) m = (numeral radix m).map radixChar := by
  induction room generalizing m with
  | zero =>
    have hdiv : m / radix = 0 := Nat.div_eq_of_lt (by omega)
    rw [smallRadixLoop, hdiv, if_neg (lt_irrefl 0), Nat.mod_eq_of_lt (by omega), numeral]
    split_ifs with hm
    · rw [hm, map_singleton]
    · rw [Nat.digits_of_lt radix m hm (by omega), map_singleton]
  | succ room ih =>
    have hroom : m / radix < 2 ^ (room + 1) := by
      rw [Nat.div_lt_iff_lt_mul (by omega)]
      calc m < 2 ^ (room + 1) * 2 := h
        _ ≤ 2 ^ (room + 1) * radix := Nat.mul_le_mul_left _ h2
    rw [smallRadixLoop, ih hroom]
    rcases Nat.eq_zero_or_pos m with rfl | hm
    · simp [numeral]
    rw [numeral, numeral, if_neg hm.ne', Nat.digits_def' h2 hm, map_cons]
    split_ifs with hpos hzero
    · omega
    · rfl
    · rw [Nat.eq_zero_of_not_pos hpos, Nat.digits_zero, map_nil]

lemma radixLoop_eq {room m} (h : m < 2 ^ room) :
    radixLoop radix room (digits base m) = (digits radix m).map radixChar := by
  induction room generalizing m with
  | zero =>
    obtain rfl : m = 0 := by simpa using h
    simp [radixLoop]
  | succ room ih =>
    rcases Nat.eq_zero_or_pos m with rfl | hm
    · simp [radixLoop]
    have hne : digits base m ≠ [] := Nat.digits_ne_nil_iff_ne_zero.2 hm.ne'
    have hword : 36 ≤ wordBase := by decide
    obtain ⟨hbelow, hquot, hrem⟩ := divide_loop_value (by omega : 0 < radix) (by omega)
      (normal_digits one_lt_base m).below
    rw [Nat.ofDigits_digits] at hquot hrem
    have hroom : m / radix < 2 ^ room := by
      rw [Nat.div_lt_iff_lt_mul (by omega)]
      calc m < 2 ^ room * 2 := h
        _ ≤ 2 ^ room * radix := Nat.mul_le_mul_left _ h2
    rw [radixLoop, if_pos (length_pos_iff.2 hne), Nat.digits_def' h2 hm, map_cons]
    simp only [magnitude_trim_eq_digits hbelow, hquot, hrem, ih hroom]

lemma diamondBignumToRadixString_eq (mem : Alloc) (n : ℤ) :
    (∃ k, mem k = false) ∧ diamondBignumToRadixString mem (viewOf n) radix = none ∨
      diamondBignumToRadixString mem (viewOf n) radix =
        some ((numeral radix n.natAbs).map radixChar ++ minus (n < 0)).reverse := by
  rw [diamondBignumToRadixString]
  split_ifs with hmem
  · exact .inl ⟨exists_failed hmem, rfl⟩
  right
  have hroom : n.natAbs < 2 ^ radixCapacity (viewOf n).limbs :=
    (lt_two_pow_limbs n.natAbs).trans_le (Nat.pow_le_pow_right two_pos (Nat.le_add_right _ 3))
  have hloop : radixLoop radix (radixCapacity (viewOf n).limbs) (magnitudeTrim (viewOf n).limbs) =
      (digits radix n.natAbs).map radixChar := by
    rw [viewOf, magnitude_trim_eq_digits (normal_digits one_lt_base _).below, Nat.ofDigits_digits]
    exact radixLoop_eq h2 h36 hroom
  dsimp only
  rw [hloop, length_map, numeral]
  rcases Nat.eq_zero_or_pos n.natAbs with hzero | hpos
  · rw [hzero, Nat.digits_zero]
    rfl
  · have hne := Nat.digits_ne_nil_iff_ne_zero (b := radix).2 hpos.ne'
    rw [if_neg (length_pos_iff.2 hne).ne', if_neg hpos.ne']
    rfl

/-- `Int#to_s(radix)` writes a sign and a numeral, and leaves room in its buffer. -/
lemma intToSRadix_eq (mem : Alloc) {raw n} (h : Canonical raw n) :
    (∃ k, mem k = false) ∧ intToSRadix mem radix raw = none ∨
      ∃ run, intToSRadix mem radix raw = some (minus (n < 0) ++ run) ∧
        Numeral radix run n.natAbs ∧ (minus (n < 0) ++ run).length < radixBuffer raw := by
  have hminus : (minus (n < 0)).reverse = minus (n < 0) := by cases decide (n < 0) <;> rfl
  have hbuffer {m k : ℕ} (hm : m < 2 ^ k) :
      (minus (n < 0) ++ ((numeral radix m).map radixChar).reverse).length < k + 3 := by
    have hlength := length_numeral h2 hm
    have hsign : (minus (n < 0)).length ≤ 1 := by cases decide (n < 0) <;> decide
    rw [length_append, length_reverse, length_map]
    omega
  cases h with
  | int i =>
    have hneg : i < 0 ↔ i.toInt < 0 := lt_zero_iff i
    have hlt : i.toInt.natAbs < 2 ^ 64 := by
      obtain ⟨hlo, hhi⟩ := int64_fits i
      omega
    refine .inr ⟨_, ?_, numeral_text h2 h36 i.toInt.natAbs,
      (hbuffer hlt).trans (by decide : 64 + 3 < 72)⟩
    rw [intToSRadix, intToSRadixMethod, int64_magnitude,
      smallRadixLoop_eq h2 71 (hlt.trans (by decide)), reverse_append]
    simp only [hneg, hminus]
  | @bignum negative limbs t hbelow hlast ht hout =>
    have hview := (Canonical.bignum hbelow hlast ht hout).view
    set n := signed negative (ofDigits (10 ^ 9) limbs)
    have htext : intToSRadix mem radix (.bignum negative limbs) =
      diamondBignumToRadixString mem (diamondIntView _) radix := rfl
    have hroom : radixBuffer (.bignum negative limbs) = radixCapacity (diamondIntView _).limbs := rfl
    rw [htext, hroom, hview]
    rcases diamondBignumToRadixString_eq h2 h36 mem n with hnone | hsome
    · exact .inl hnone
    · rw [reverse_append, hminus] at hsome
      exact .inr ⟨_, hsome, numeral_text h2 h36 _, hbuffer (lt_two_pow_limbs _)⟩

end

/-! ## Decimal numerals -/

lemma stringToIMethod_returns (mem : Alloc) (negative : Bool) (h : Digits text) :
    Returns mem (stringToIMethod mem (minus negative ++ text)) (signed negative (decimal text)) := by
  have hsign := splitSign_minus negative fun c hc => isDigit_ne_sign (h.digit c hc)
  have htake : text.takeWhile isDigit = text := takeWhile_eq_self_iff.2 h.digit
  have hdigit : ∀ d ∈ text.map digitValue, d < 10 := by
    intro d hd
    obtain ⟨c, hc, rfl⟩ := mem_map.1 hd
    exact digitValue_lt (h.digit c hc)
  have hvalue : horner 10 (text.map digitValue) = decimal text := foldl_map
  simp only [stringToIMethod, hsign, htake, if_neg h.ne_nil]
  rw [foldl_accumulate (by decide) (by decide) hdigit, hvalue]
  exact parsedInt_returns (diamondBignumFromDecimalDigits_returns mem h negative)

lemma length_diamondBignumToString (negative : Bool) {limbs} (h : Below base limbs) :
    (diamondBignumToString negative limbs).length < diamondBignumStringLength negative limbs := by
  have hminus : (minus negative).length = if negative then 1 else 0 := by cases negative <;> rfl
  rw [diamondBignumToString, diamondBignumStringLength]
  cases hrev : limbs.reverse with
  | nil =>
    rw [hminus]
    omega
  | cons top below =>
    have hall : Below base (top :: below) := hrev ▸ below_reverse.2 h
    obtain ⟨htop, hbelow⟩ := below_cons.1 hall
    have hlength : limbs.length = below.length + 1 := by
      rw [← length_reverse, hrev, length_cons]
    have hprint : (printUnsigned top).length ≤ 9 := by
      rw [printUnsigned, length_reverse]
      exact length_decimalLoop_le 8 top htop
    rw [length_append, length_append, (printLimbs_spec hbelow).1, hminus, hlength]
    omega

lemma length_formatIntDecimal (value : Int64) : (formatIntDecimal value).length < 21 := by
  have hlt : value.toInt.natAbs < 10 ^ (18 + 1) := by
    obtain ⟨hlo, hhi⟩ := int64_fits value
    omega
  have hdigits := length_decimalLoop_le 18 _ hlt
  have hsign : (minus (value < 0)).length ≤ 1 := by cases decide (value < 0) <;> decide
  rw [formatIntDecimal, int64_magnitude, length_append, printUnsigned, length_reverse]
  omega

lemma length_decimalChunks (fuel : ℕ) (reversed : List UInt8) :
    (decimalChunks fuel reversed).length ≤ reversed.length / 9 + 1 := by
  have hle : 9 * (decimalChunks fuel reversed).length ≤ reversed.length + 8 := by
    induction fuel generalizing reversed with
    | zero => exact Nat.zero_le _
    | succ _ ih =>
      cases reversed with
      | nil => exact Nat.zero_le _
      | cons c rest =>
        have hrest := ih ((c :: rest).drop 9)
        rw [length_drop] at hrest
        rw [decimalChunks, length_cons]
        · rw [length_cons] at hrest ⊢
          omega
        · exact cons_ne_nil c rest
  omega

/-- The text of an Int reads back as that Int, in every radix and in decimal, and every buffer on the
way is large enough for what is written to it. -/
theorem radix_round_trip (mem : Alloc) (value : IntValue) {radix : ℕ} (h2 : 2 ≤ radix)
    (h36 : radix ≤ 36) : (∀ text, intToSRadix mem radix value.raw = some text →
      Returns mem (stringToIRadixMethod mem radix text) value.toInt ∧
        text.length < radixBuffer value.raw) ∧
    (intToSRadix mem radix value.raw = none → ∃ k, mem k = false) ∧
    Returns mem (stringToIMethod mem (intToS value.raw)) value.toInt ∧
    (intToS value.raw).length < decimalBuffer value.raw ∧
    (∀ digits seen, (∀ c ∈ digits, radixValue c < radix) → seen <+: digits →
      (radixLimbs radix seen).length ≤ digits.length * 6 / 29 + 3) ∧ ∀ digits : List UInt8,
      (decimalChunks digits.length digits.reverse).length ≤ digits.length / 9 + 1 := by
  obtain ⟨raw, n, hraw⟩ := value
  refine ⟨?_, ?_, ?_, ?_, ?_, ?_⟩
  · intro text htext
    rcases intToSRadix_eq h2 h36 mem hraw with ⟨-, hnone⟩ | ⟨_, hsome, hrun, hlength⟩
    · cases hnone.symm.trans htext
    · obtain rfl := Option.some.inj (hsome.symm.trans htext)
      have hreturns := stringToIRadixMethod_returns h2 h36 mem (n < 0) hrun
      rw [signed_natAbs] at hreturns
      exact ⟨hreturns, hlength⟩
  · intro hnone
    rcases intToSRadix_eq h2 h36 mem hraw with ⟨hmem, -⟩ | ⟨_, hsome, -⟩
    · exact hmem
    · cases hsome.symm.trans hnone
  · cases hraw with
    | int i =>
      obtain ⟨text, heq, htext, hvalue⟩ := formatIntDecimal_spec i
      have hreturns := stringToIMethod_returns mem (i.toInt < 0) htext
      rw [hvalue, signed_natAbs, ← heq] at hreturns
      exact hreturns
    | @bignum negative _ _ hbelow hlast _ _ =>
      obtain ⟨text, heq, htext, hvalue⟩ := diamondBignumToString_spec negative hbelow hlast
      have hreturns := stringToIMethod_returns mem negative htext
      rw [hvalue, ← heq] at hreturns
      exact hreturns
  · cases hraw with
    | int i => exact length_formatIntDecimal i
    | bignum hbelow => exact length_diamondBignumToString _ hbelow
  · exact fun digits seen => length_radixLimbs h2 h36
  · intro digits
    have hlength := length_decimalChunks digits.length digits.reverse
    rwa [List.length_reverse] at hlength

theorem radix_round_trip_min : Returns (fun _ => true) (stringToIRadixMethod (fun _ => true) 36
      (intToSRadixMethod Int64.minValue 36)) Int64.minValue.toInt :=
  ((radix_round_trip (fun _ => true) ⟨.int Int64.minValue, _, .int _⟩ (by decide)
    (by decide)).1 _ rfl).1

end Diamond.Operators
