import Diamond.Operators.Radix

/-!
# Formatting an Int in a radix

Model of the directives `%x`, `%X`, `%o` and `%b` of `string_format_helper` in `src/vm_string.c`, with
any flags and width.  The specification that it builds for `snprintf` has no length modifier, so that
the conversions other than `%b` take an `unsigned int`: of the 64-bit argument they get the low 32
bits, where an argument fills a register (in the C standard this is undefined).
-/

namespace Diamond.Operators
open Bignum Positional

inductive Conversion
  | x
  | X
  | o
  | b
  deriving DecidableEq

def Conversion.radix : Conversion → ℕ
  | .x | .X => 16
  | .o => 8
  | .b => 2

def toupper (c : UInt8) : UInt8 := if 97 ≤ c ∧ c ≤ 122 then c - 32 else c

/-- The digits that `printf` gives an `unsigned int`. -/
def printfDigits (conversion : Conversion) (value : ℕ) : List UInt8 :=
  let digits := ((numeral conversion.radix value).map radixChar).reverse
  if conversion = .X then digits.map toupper else digits

def formatDigits (conversion : Conversion) (integer : Int64) : List UInt8 :=
  if conversion = .b then (smallRadixLoop 2 65 integer.toUInt64.toNat).reverse
  else printfDigits conversion (integer.toUInt64.toNat % 2 ^ 32)

/-- The piece for a directive, if it fits the buffer; `%b` is printed as a string, without zeros. -/
def formatPiece (leftJustify zeroPad : Bool) (width : ℕ) (conversion : Conversion)
    (integer : Int64) : Option (List UInt8) :=
  let digits := formatDigits conversion integer
  let fill := List.replicate (width - digits.length)
  let piece :=
    if leftJustify then digits ++ fill 32
    else fill (if zeroPad ∧ conversion ≠ .b then 48 else 32) ++ digits
  if piece.length < 512 then some piece else none

lemma Numeral.toupper {radix n text} (h : Numeral radix text n) :
    Numeral radix (text.map toupper) n := by
  have hall : ∀ n : Fin 256, radixValue (Operators.toupper (.ofNat n)) = radixValue (.ofNat n) := by
    decide +kernel
  have hvalue : radixValue ∘ Operators.toupper = radixValue :=
    funext fun c => by simpa using hall ⟨c.toNat, c.toNat_lt⟩
  refine ⟨by simpa using h.ne_nil, ?_, ?_⟩
  · intro c hc
    obtain ⟨d, hd, rfl⟩ := List.mem_map.1 hc
    exact (congrFun hvalue d).trans_lt (h.digit d hd)
  · rw [List.map_map, hvalue, h.value]

lemma Conversion.radix_bounds (conversion : Conversion) :
    2 ≤ conversion.radix ∧ conversion.radix ≤ 36 := by
  cases conversion <;> decide

lemma formatDigits_numeral (conversion : Conversion) {integer} (h : 0 ≤ integer.toInt) :
    Numeral conversion.radix (formatDigits conversion integer)
      (if conversion = .b then integer.toInt.natAbs else integer.toInt.natAbs % 2 ^ 32) := by
  obtain ⟨h2, h36⟩ := conversion.radix_bounds
  have hbits : integer.toUInt64.toNat = integer.toInt.natAbs := by
    rw [← int64_magnitude, if_neg (mt (lt_zero_iff integer).1 (not_lt.2 h))]
  have hlt := integer.toUInt64.toNat_lt
  rw [formatDigits, ← hbits]
  split_ifs with hb
  · subst hb
    rw [smallRadixLoop_eq (le_refl 2) 64 (hlt.trans (by decide))]
    exact numeral_text h2 h36 _
  · have htext := numeral_text h2 h36 (integer.toUInt64.toNat % 2 ^ 32)
    unfold printfDigits
    split_ifs
    · exact htext.toupper
    · exact htext

/-- What is printed for an Int that is not negative are its digits in the radix, padded with blanks or
zeros, exactly for `%b` or for an Int below `2 ^ 32`; then reading them gives the Int. -/
theorem format_digits_iff (mem : Alloc) (conversion : Conversion) (integer : Int64)
    (h : 0 ≤ integer.toInt) : (∀ leftJustify zeroPad width piece,
      formatPiece leftJustify zeroPad width conversion integer = some piece → ∃ before after,
        piece = before ++ formatDigits conversion integer ++ after ∧
          ∀ c ∈ before ++ after, c = 32 ∨ c = 48) ∧
    (Numeral conversion.radix (formatDigits conversion integer) integer.toInt.natAbs ↔
      conversion = .b ∨ integer.toInt < 2 ^ 32) ∧
    (conversion = .b ∨ integer.toInt < 2 ^ 32 → Returns mem
      (stringToIRadixMethod mem conversion.radix (formatDigits conversion integer))
      integer.toInt) := by
  have hnumeral := formatDigits_numeral conversion h
  have hiff : Numeral conversion.radix (formatDigits conversion integer) integer.toInt.natAbs ↔
      conversion = .b ∨ integer.toInt < 2 ^ 32 := by
    constructor
    · intro hexact
      have hvalue := hexact.value.symm.trans hnumeral.value
      split_ifs at hvalue with hb
      · exact .inl hb
      · have := Nat.mod_lt integer.toInt.natAbs (by decide : 0 < 2 ^ 32)
        exact .inr (by omega)
    · intro hor
      split_ifs at hnumeral with hb
      · exact hnumeral
      · have := hor.resolve_left hb
        rwa [Nat.mod_eq_of_lt (by omega)] at hnumeral
  refine ⟨fun leftJustify zeroPad width piece hpiece => ?_, hiff, fun hor => ?_⟩
  · unfold formatPiece at hpiece
    dsimp only at hpiece
    split_ifs at hpiece <;> cases hpiece
    · exact ⟨[], _, rfl, fun c hc => .inl (List.eq_of_mem_replicate hc)⟩
    · refine ⟨_, [], (List.append_nil _).symm, fun c hc => .inr ?_⟩
      exact List.eq_of_mem_replicate (by simpa using hc)
    · refine ⟨_, [], (List.append_nil _).symm, fun c hc => .inl ?_⟩
      exact List.eq_of_mem_replicate (by simpa using hc)
  · obtain ⟨h2, h36⟩ := conversion.radix_bounds
    have hreturns := stringToIRadixMethod_returns h2 h36 mem false (hiff.2 hor)
    have hsigned : signed false integer.toInt.natAbs = integer.toInt := Int.natAbs_of_nonneg h
    rwa [hsigned] at hreturns

theorem format_digits_iff_binary : Returns (fun _ => true) (stringToIRadixMethod (fun _ => true) 2
      (formatDigits .b (2 ^ 32))) (2 ^ 32 : Int64).toInt :=
  (format_digits_iff (fun _ => true) .b (2 ^ 32) (by decide)).2.2 (.inl rfl)

/-- `"%x" % 4294967296` is `"0"`. -/
theorem format_hex_truncates : formatPiece false false 0 .x (2 ^ 32) = some [48] ∧
      ¬Numeral 16 [48] (2 ^ 32 : Int64).toInt.natAbs :=
  ⟨by decide +kernel, fun h => absurd h.value (by decide +kernel)⟩

end Diamond.Operators
