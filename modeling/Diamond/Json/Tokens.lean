import Diamond.Json.Grammar
import Diamond.Lib.Fallible

/-!
# Recognising scalars

The functions of the parser that read strings, numbers and literals recognise the productions of the
dialect `withAnyBytes`, in both directions: what they read off the front of their input is a text of
the production, and a text of the production in front of their input is what they read.
-/

namespace Diamond.Json

open List

open Codec (Bytes)
open Bignum (Digits decimal signed minus Canonical isDigit digitValue)

section
variable {α β : Type}

/-- A parser that fails returns nothing. -/
@[simp]
lemma fail_eq_ok (message : String) (a : α) : (fail message = .ok a) ↔ False := by
  rw [fail, iff_false]
  exact nofun

/-- Two parsers in a row succeed if the second does on what the first returns. -/
@[simp]
lemma bind_eq_ok (x : Result α) (f : α → Result β) (b : β) :
    (x >>= f) = .ok b ↔ ∃ a, x = .ok a ∧ f a = .ok b :=
  Fallible.except_bind_eq_ok

/-- A parser that has succeeded hands on its value. -/
lemma bind_ok (a : α) (f : α → Result β) : (Except.ok a >>= f) = f a := rfl

end

/-! ## Whitespace -/

/-- What is skipped is whitespace. -/
lemma exists_ws_append_skip (input : Bytes) : ∃ w, Ws w ∧ input = w ++ jsonSkipWhitespace input :=
  ⟨input.takeWhile isWhitespace, fun _ hc => mem_takeWhile_imp hc, takeWhile_append_dropWhile.symm⟩

variable {rest input bytes text fraction exponent : Bytes} {c : UInt8}

/-- Whitespace is skipped. -/
lemma skip_append {w} (hw : Ws w) : jsonSkipWhitespace (w ++ rest) = jsonSkipWhitespace rest :=
  dropWhile_append_of_pos hw

/-- Nothing else is skipped. -/
lemma skip_cons (hc : isWhitespace c = false) (rest : Bytes) :
    jsonSkipWhitespace (c :: rest) = c :: rest :=
  dropWhile_cons_of_neg (by rw [hc]; decide)

/-- There is no whitespace left behind the whitespace. -/
lemma skip_skip (input : Bytes) :
    jsonSkipWhitespace (jsonSkipWhitespace input) = jsonSkipWhitespace input :=
  dropWhile_idempotent _ input

/-- Before the byte that is found there is only whitespace. -/
lemma eq_of_skip_eq (h : jsonSkipWhitespace input = c :: rest) :
    ∃ w, Ws w ∧ input = w ++ c :: rest := by
  obtain ⟨w, hw, heq⟩ := exists_ws_append_skip input
  exact ⟨w, hw, h ▸ heq⟩

/-! ## Strings -/

/-- Four hexadecimal digits are read as their code. -/
lemma jsonHex4_eq_ok {code} :
    jsonHex4 input = .ok (code, rest) ↔ ∃ text, Hex4 text code ∧ input = text ++ rest := by
  rw [jsonHex4]
  constructor
  · intro h
    split_ifs at h with hlength
    · simp at h
    split at h
    · simp at h
    case h_2 digits hdigits =>
      obtain ⟨rfl, rfl⟩ : hexValue digits = code ∧ input.drop 4 = rest := by
        simpa using h
      exact ⟨input.take 4, ⟨length_take_of_le (not_lt.1 hlength), digits, hdigits, rfl⟩,
        (take_append_drop 4 input).symm⟩
  · rintro ⟨text, ⟨hlength, digits, hdigits, rfl⟩, rfl⟩
    rw [if_neg (by rw [length_append, hlength]; exact Nat.not_lt.2 (Nat.le_add_right _ _)),
      take_left' hlength, drop_left' hlength, hdigits]

/-- What is read behind `\u` is an escape of the grammar. -/
lemma jsonUnicodeEscape_sound {d} (h : jsonUnicodeEscape input = .ok (bytes, rest)) :
    ∃ text, Character d (ascii '\\' :: ascii 'u' :: text) bytes ∧ input = text ++ rest := by
  simp only [jsonUnicodeEscape, bind_eq_ok, Prod.exists] at h
  obtain ⟨_, rest', hhex, h⟩ := h
  obtain ⟨text, htext, rfl⟩ := jsonHex4_eq_ok.1 hhex
  split_ifs at h with hhigh htake hlow
  · simp only [bind_eq_ok, Prod.exists] at h
    obtain ⟨_, _, hhex', h⟩ := h
    obtain ⟨_, htext', heq⟩ := jsonHex4_eq_ok.1 hhex'
    split_ifs at h with hrange
    · simp at h
    rw [not_or, not_lt, not_lt] at hrange
    obtain ⟨rfl, rfl⟩ := Prod.mk.inj (Except.ok.inj h)
    refine ⟨_, .pair htext hhigh.1 hhigh.2 htext' hrange.1 hrange.2, ?_⟩
    rw [append_assoc, cons_append, cons_append, ← heq]
    conv_lhs => rw [← take_append_drop 2 rest', htake]
    rfl
  · simp at h
  · simp at h
  · cases h
    exact ⟨text, .unicode htext (by omega), rfl⟩

/-- A code that is not a surrogate is read as its character. -/
lemma jsonUnicodeEscape_unicode {code} (htext : Hex4 text code)
    (hcode : code < 0xD800 ∨ 0xDFFF < code) :
    jsonUnicodeEscape (text ++ rest) = .ok (jsonUtf8Append code, rest) := by
  rw [jsonUnicodeEscape, jsonHex4_eq_ok.2 ⟨text, htext, rfl⟩, bind_ok]
  dsimp only
  rw [if_neg (by omega), if_neg (by omega)]
  rfl

/-- Two surrogates are read as one character. -/
lemma jsonUnicodeEscape_pair {text' high low} (htext : Hex4 text high)
    (hlo : 0xD800 ≤ high) (hhi : high ≤ 0xDBFF) (htext' : Hex4 text' low) (hlo' : 0xDC00 ≤ low)
    (hhi' : low ≤ 0xDFFF) : jsonUnicodeEscape (text ++ ascii '\\' :: ascii 'u' :: (text' ++ rest)) =
      .ok (jsonUtf8Append (0x10000 + (high - 0xD800) * 0x400 + (low - 0xDC00)), rest) := by
  rw [jsonUnicodeEscape, jsonHex4_eq_ok.2 ⟨text, htext, rfl⟩, bind_ok]
  dsimp only
  have htake : (ascii '\\' :: ascii 'u' :: (text' ++ rest)).take 2 = [ascii '\\', ascii 'u'] := rfl
  rw [if_pos ⟨hlo, hhi⟩, if_pos htake, drop_succ_cons, drop_succ_cons, drop_zero,
    jsonHex4_eq_ok.2 ⟨text', htext', rfl⟩, bind_ok]
  dsimp only
  rw [if_neg (by omega)]
  rfl

/-- The escapes of one letter are those of the table. -/
lemma simpleEscape_eq_some {byte} :
    simpleEscape c = some byte ↔ ∃ c', ascii c' = c ∧ (c', byte) ∈ escapes := by
  constructor
  · intro h
    rw [simpleEscape] at h
    split_ifs at h with h1 h2 h3 h4 h5 h6 h7 h8
    all_goals cases h
    · exact ⟨'"', h1.symm, by decide⟩
    · exact ⟨'\\', h2.symm, by decide⟩
    · exact ⟨'/', h3.symm, by decide⟩
    · exact ⟨'n', h4.symm, by decide⟩
    · exact ⟨'r', h5.symm, by decide⟩
    · exact ⟨'t', h6.symm, by decide⟩
    · exact ⟨'b', h7.symm, by decide⟩
    · exact ⟨'f', h8.symm, by decide⟩
  · rintro ⟨c', rfl, h⟩
    have hall : ∀ e ∈ escapes, simpleEscape (ascii e.1) = some e.2 := by decide
    exact hall _ h

variable {builder : Bytes}

/-- What the loop reads are characters of the grammar and a quote. -/
lemma stringLoop_sound {fuel} (h : stringLoop fuel builder input = .ok (bytes, rest)) :
    ∃ text bytes', Characters withAnyBytes text bytes' ∧ bytes = builder ++ bytes' ∧
      input = text ++ ascii '"' :: rest := by
  induction fuel generalizing builder input with
  | zero => simp [stringLoop] at h
  | succ _ ih =>
    cases input with
    | nil => simp [stringLoop] at h
    | cons ch input =>
      rw [stringLoop.eq_def] at h
      dsimp only at h
      split_ifs at h with hquote hbackslash
      · cases h
        exact ⟨[], [], .nil, (append_nil _).symm, by rw [hquote]; rfl⟩
      · cases input with
        | nil => simp at h
        | cons =>
          dsimp only at h
          split_ifs at h with hunicode
          · simp only [bind_eq_ok, Prod.exists] at h
            obtain ⟨_, _, hescape, h⟩ := h
            obtain ⟨text, hcharacter, rfl⟩ := jsonUnicodeEscape_sound hescape
            obtain ⟨_, bytes', hcharacters, rfl, rfl⟩ := ih h
            refine ⟨_, _, .cons hcharacter hcharacters, append_assoc _ _ _, ?_⟩
            rw [hbackslash, hunicode]
            simp
          · split at h
            case h_2 => simp at h
            case h_1 hbyte =>
              obtain ⟨c, rfl, hc⟩ := simpleEscape_eq_some.1 hbyte
              obtain ⟨_, bytes', hcharacters, rfl, rfl⟩ := ih h
              refine ⟨_, _, .cons (.escape hc) hcharacters, append_assoc _ _ _, ?_⟩
              rw [hbackslash]
              rfl
      · obtain ⟨_, bytes', hcharacters, rfl, rfl⟩ := ih h
        exact ⟨_, _, .cons (.raw ⟨ch, hquote, hbackslash, rfl⟩) hcharacters,
          append_assoc _ _ _, rfl⟩

/-- A character has a byte. -/
lemma character_ne_nil {d} (hd : ¬d.raw []) (h : Character d text bytes) : text ≠ [] := by
  cases h with
  | raw h => exact fun heq => hd (heq ▸ h)
  | escape | unicode | pair => exact cons_ne_nil _ _

/-- The loop reads one character in a turn. -/
lemma stringLoop_character {fuel} (h : Character withAnyBytes text bytes) :
    stringLoop (fuel + 1) builder (text ++ rest) = stringLoop fuel (builder ++ bytes) rest := by
  cases h with
  | raw h =>
    obtain ⟨_, hquote, hbackslash, rfl⟩ := h
    rw [singleton_append, stringLoop.eq_def]
    dsimp only
    rw [if_neg hquote, if_neg hbackslash]
  | @escape c _ h =>
    have hescape := simpleEscape_eq_some.2 ⟨c, rfl, h⟩
    have hall : ∀ e ∈ escapes, ascii e.1 ≠ ascii 'u' := by decide
    rw [cons_append, cons_append, nil_append, stringLoop.eq_def]
    dsimp only
    rw [if_neg (by decide), if_pos rfl, if_neg (hall _ h), hescape]
  | @unicode _ _ htext hcode =>
    rw [cons_append, cons_append, stringLoop.eq_def]
    dsimp only
    rw [if_neg (by decide), if_pos rfl, if_pos rfl, jsonUnicodeEscape_unicode htext hcode, bind_ok]
  | pair htext hlo hhi htext' hlo' hhi' =>
    rw [cons_append, cons_append, append_assoc, cons_append, cons_append, stringLoop.eq_def]
    dsimp only
    rw [if_neg (by decide), if_pos rfl, if_pos rfl,
      jsonUnicodeEscape_pair htext hlo hhi htext' hlo' hhi', bind_ok]

/-- The loop reads all characters up to the quote. -/
lemma stringLoop_complete {fuel} (h : Characters withAnyBytes text bytes)
    (hfuel : text.length < fuel) :
    stringLoop fuel builder (text ++ ascii '"' :: rest) = .ok (builder ++ bytes, rest) := by
  induction h generalizing fuel builder with
  | nil =>
    obtain ⟨fuel, rfl⟩ := Nat.exists_eq_succ_of_ne_zero (Nat.ne_of_gt hfuel)
    rw [nil_append, stringLoop.eq_def, append_nil]
    dsimp only
    rw [if_pos rfl]
  | @cons _ _ _ _ hcharacter _ ih =>
    obtain ⟨fuel, rfl⟩ := Nat.exists_eq_succ_of_ne_zero (Nat.ne_of_gt (Nat.zero_lt_of_lt hfuel))
    have hpos := length_pos_iff.2 (character_ne_nil (by simp [withAnyBytes]) hcharacter)
    rw [length_append] at hfuel
    rw [append_assoc, stringLoop_character hcharacter, ih (by omega), append_assoc]

/-- What is read is a string of the grammar. -/
lemma jsonParseString_sound (hquote : input.head? = some (ascii '"'))
    (h : jsonParseString input = .ok (bytes, rest)) :
    ∃ text, StringText withAnyBytes text bytes ∧ input = text ++ rest := by
  obtain ⟨text, _, hcharacters, rfl, htail⟩ := stringLoop_sound h
  refine ⟨_, .quoted hcharacters, ?_⟩
  rw [← cons_head?_tail hquote, htail]
  simp

/-- Every string of the grammar is read. -/
lemma jsonParseString_complete (h : StringText withAnyBytes text bytes) :
    jsonParseString (text ++ rest) = .ok (bytes, rest) := by
  cases h with
  | @quoted _ _ hcharacters =>
    rw [jsonParseString, cons_append, tail_cons, append_assoc, singleton_append]
    exact stringLoop_complete hcharacters (by simp)

/-! ## Numbers -/

/-- The number read with `ckd_mul` and `ckd_add` is the one the digits denote. -/
lemma int64Loop_eq_some {value m} (hvalue : value < 2 ^ 63) (h : int64Loop text value = some m) :
    m = value * 10 ^ text.length + decimal text ∧ m < 2 ^ 63 := by
  induction text generalizing value with
  | nil =>
    obtain rfl := Option.some.inj h
    exact ⟨by simp [decimal], hvalue⟩
  | cons _ _ ih =>
    rw [int64Loop] at h
    split_ifs at h with hover
    rw [not_or, not_le, not_le] at hover
    obtain ⟨hm, hlt⟩ := ih hover.2 h
    refine ⟨?_, hlt⟩
    rw [hm, ← Bignum.foldl_decimal, ← Bignum.foldl_decimal, foldl_cons]

/-- Digits are read as the Int they denote, whether or not it fits `int64_t`. -/
lemma parseInt_canonical (h : Digits text) (negative : Bool) :
    Canonical (parseInt negative text) (signed negative (decimal text)) := by
  rw [parseInt]
  cases hloop : int64Loop text 0 with
  | some =>
    obtain ⟨hm, hlt⟩ := int64Loop_eq_some (by decide) hloop
    rw [zero_mul, zero_add] at hm
    subst hm
    have hcanonical := Canonical.int (Int64.ofInt (signed negative (decimal text)))
    rw [Int64.toInt_ofInt_of_le] at hcanonical
    · exact hcanonical
    all_goals
      rw [signed]
      split_ifs <;> omega
  | none =>
    rcases Bignum.diamondBignumFromDecimalDigits_returns (fun _ => true) h negative with hc | hc
    · exact hc
    · obtain ⟨-, _, hfail⟩ := hc
      cases hfail

/-- The bytes after a number do not continue it. -/
def Ends (rest : Bytes) : Prop :=
  ∀ c, rest.head? = some c → isDigit c = false ∧ c ≠ ascii '.' ∧ c ≠ ascii 'e' ∧ c ≠ ascii 'E'

/-- The rest of the input does not begin with a digit. -/
def NoDigit (rest : Bytes) : Prop := ∀ c, rest.head? = some c → isDigit c = false

/-- Behind a number there is no digit. -/
lemma Ends.noDigit (h : Ends rest) : NoDigit rest := fun c hc => (h c hc).1

/-- The digits at the front of an input. -/
lemma digits_takeWhile (h : input.takeWhile isDigit ≠ []) :
    Digits (input.takeWhile isDigit) := ⟨h, fun _ hc => mem_takeWhile_imp hc⟩

/-- Digits are taken up to where they end. -/
lemma span_digits (h : Digits text) (hrest : NoDigit rest) :
    (text ++ rest).takeWhile isDigit = text ∧ (text ++ rest).dropWhile isDigit = rest := by
  have hnone : rest.takeWhile isDigit = [] ∧ rest.dropWhile isDigit = rest := by
    cases rest with
    | nil => exact ⟨rfl, rfl⟩
    | cons c =>
      have hc : ¬isDigit c = true := by
        rw [hrest c rfl]
        decide
      exact ⟨takeWhile_cons_of_neg hc, dropWhile_cons_of_neg hc⟩
  refine ⟨?_, ?_⟩
  · rw [takeWhile_append_of_pos h.digit, hnone.1, append_nil]
  · rw [dropWhile_append_of_pos h.digit, hnone.2]

/-- What is scanned is a fraction of the grammar. -/
lemma scanFraction_sound (h : scanFraction input = some (fraction, rest)) :
    Fraction fraction ∧ input = fraction ++ rest := by
  rw [scanFraction] at h
  dsimp only at h
  split_ifs at h with hdot hdigits
  · cases h
    refine ⟨.digits (digits_takeWhile hdigits), ?_⟩
    rw [cons_append, takeWhile_append_dropWhile, cons_head?_tail hdot]
  · cases h
    exact ⟨.none, rfl⟩

/-- Every fraction of the grammar is scanned. -/
lemma scanFraction_complete (h : Fraction fraction) (hrest : NoDigit rest)
    (hdot : rest.head? ≠ some (ascii '.')) :
    scanFraction (fraction ++ rest) = some (fraction, rest) := by
  cases h with
  | none => rw [scanFraction, nil_append, if_neg hdot]
  | @digits _ htext =>
    obtain ⟨htake, hdrop⟩ := span_digits htext hrest
    rw [scanFraction, cons_append, if_pos head?_cons, tail_cons, htake, hdrop]
    exact if_neg htext.ne_nil

/-- What is scanned is a sign or nothing. -/
lemma scanSign_sound (input : Bytes) :
    ((scanSign input).1 = [] ∨ (scanSign input).1 = [ascii '+'] ∨ (scanSign input).1 = [ascii '-']) ∧
      input = (scanSign input).1 ++ (scanSign input).2 := by
  rw [scanSign.eq_def]
  split
  · split_ifs with hsign
    · rcases hsign with rfl | rfl
      · exact ⟨.inr (.inl rfl), rfl⟩
      · exact ⟨.inr (.inr rfl), rfl⟩
    · exact ⟨.inl rfl, rfl⟩
  · exact ⟨.inl rfl, rfl⟩

/-- The sign before digits is scanned. -/
lemma scanSign_complete {sign} (hsign : sign = [] ∨ sign = [ascii '+'] ∨ sign = [ascii '-'])
    (htext : Digits text) : scanSign (sign ++ (text ++ rest)) = (sign, text ++ rest) := by
  rcases hsign with rfl | rfl | rfl
  · cases text with
    | nil => exact absurd rfl htext.ne_nil
    | cons c =>
      have hc := htext.digit c mem_cons_self
      have hsign : ¬(c = ascii '+' ∨ c = ascii '-') := by
        rintro (rfl | rfl) <;> exact absurd hc (by decide)
      rw [nil_append, cons_append, scanSign, if_neg hsign]
  all_goals rfl

/-- What is scanned is an exponent of the grammar. -/
lemma scanExponent_sound (h : scanExponent input = some (exponent, rest)) :
    Exponent exponent ∧ input = exponent ++ rest := by
  rw [scanExponent.eq_def] at h
  split at h
  case h_1 tail =>
    split_ifs at h with he
    · obtain ⟨hsign, hsplit⟩ := scanSign_sound tail
      dsimp only at h
      split_ifs at h with hdigits
      cases h
      refine ⟨.digits he hsign (digits_takeWhile hdigits), ?_⟩
      rw [cons_append, append_assoc, takeWhile_append_dropWhile, ← hsplit]
    · cases h
      exact ⟨.none, rfl⟩
  case h_2 =>
    cases h
    exact ⟨.none, rfl⟩

/-- Every exponent of the grammar is scanned. -/
lemma scanExponent_complete (h : Exponent exponent) (hrest : Ends rest) :
    scanExponent (exponent ++ rest) = some (exponent, rest) := by
  cases h with
  | none =>
    cases rest with
    | nil => rfl
    | cons c =>
      obtain ⟨-, -, hlower, hupper⟩ := hrest c rfl
      rw [nil_append, scanExponent, if_neg (not_or.2 ⟨hlower, hupper⟩)]
  | @digits _ _ _ he hsign htext =>
    obtain ⟨htake, hdrop⟩ := span_digits htext hrest.noDigit
    rw [cons_append, append_assoc, scanExponent, if_pos he, scanSign_complete hsign htext]
    dsimp only
    rw [htake, hdrop, if_neg htext.ne_nil]

/-- An exponent begins with no digit and no dot. -/
lemma head_exponent (h : Exponent exponent) (hrest : Ends rest) :
    NoDigit (exponent ++ rest) ∧ (exponent ++ rest).head? ≠ some (ascii '.') := by
  cases h with
  | none => exact ⟨hrest.noDigit, fun hdot => (hrest _ hdot).2.1 rfl⟩
  | digits he =>
    refine ⟨fun c hc => ?_, fun hdot => ?_⟩
    · obtain rfl := Option.some.inj hc
      rcases he with rfl | rfl <;> rfl
    · obtain rfl := Option.some.inj hdot
      exact absurd he (by decide)

/-- A fraction does not begin with a digit. -/
lemma head_fraction (h : Fraction fraction) (hrest : NoDigit rest) :
    NoDigit (fraction ++ rest) := by
  cases h with
  | none => exact hrest
  | digits =>
    intro c hc
    obtain rfl := Option.some.inj hc
    rfl

section
variable {F : Type} {strtod : Bytes → F} {length : ℕ}

/-- The sign and what follows it make up the input. -/
lemma minus_append (input : Bytes) : minus (input.head? == some (ascii '-')) ++
      (if (input.head? == some (ascii '-')) = true then input.tail else input) = input := by
  by_cases h : input.head? = some (ascii '-')
  · rw [h, beq_self_eq_true, if_pos rfl]
    exact cons_head?_tail h
  · rw [beq_eq_false_iff_ne.2 h]
    rfl

variable {v : Value F}

/-- What is read is a number of the grammar. -/
lemma jsonParseNumber_sound (h : jsonParseNumber strtod length input = .ok (v, rest)) :
    ∃ text, Number strtod withAnyBytes text v ∧ input = text ++ rest := by
  have hsign := minus_append input
  simp only [jsonParseNumber] at h
  generalize (input.head? == some (ascii '-')) = negative at h hsign
  generalize (if negative = true then input.tail else input) = unsigned at h hsign
  have hsplit := takeWhile_append_dropWhile (p := isDigit) (l := unsigned)
  split_ifs at h with hdigits
  · simp at h
  have hinteger : Integer withAnyBytes (unsigned.takeWhile isDigit) :=
    ⟨digits_takeWhile hdigits, .inl trivial⟩
  split at h
  · simp at h
  case h_2 hfraction =>
    obtain ⟨hf, hrest⟩ := scanFraction_sound hfraction
    split at h
    · simp at h
    case h_2 hexponent =>
      obtain ⟨he, hrest'⟩ := scanExponent_sound hexponent
      split_ifs at h with hfloat
      · cases h
        refine ⟨_, .float hinteger hf he hfloat, ?_⟩
        simp only [append_assoc, ← hrest', ← hrest, hsplit, hsign]
      cases h
      rw [not_or, not_not, not_not] at hfloat
      refine ⟨_, .int hinteger (parseInt_canonical hinteger.digits negative), ?_⟩
      rw [hfloat.2, nil_append] at hrest'
      rw [hfloat.1, nil_append] at hrest
      rw [append_assoc, ← hrest', ← hrest, hsplit, hsign]

/-- A number in front of something that does not continue it is split as it was put together. -/
lemma head_minus (negative : Bool) (rest : Bytes) (h : Digits text) :
    ((minus negative ++ (text ++ rest)).head? == some (ascii '-')) = negative ∧
      (if negative = true then (minus negative ++ (text ++ rest)).tail
        else minus negative ++ (text ++ rest)) = text ++ rest := by
  cases negative with
  | true => exact ⟨rfl, rfl⟩
  | false =>
    refine ⟨?_, rfl⟩
    cases text with
    | nil => exact absurd rfl h.ne_nil
    | cons c =>
      have hc := h.digit c mem_cons_self
      apply beq_eq_false_iff_ne.2
      intro hminus
      obtain rfl := Option.some.inj hminus
      exact absurd hc (by decide)

/-- The parts of a number are found one after the other. -/
lemma jsonParseNumber_parts (strtod : Bytes → F) (length : ℕ) (negative : Bool) {digits}
    (hdigits : Digits digits) (hf : Fraction fraction) (he : Exponent exponent) (hrest : Ends rest) :
    jsonParseNumber strtod length (minus negative ++ (digits ++ (fraction ++ (exponent ++ rest)))) =
      if fraction ≠ [] ∨ exponent ≠ [] then
        .ok (.float (strtod (minus negative ++ (digits ++ (fraction ++ exponent)))), rest)
      else .ok (.scalar (parseInt negative digits), rest) := by
  obtain ⟨hnegative, htail⟩ := head_minus negative (fraction ++ (exponent ++ rest)) hdigits
  obtain ⟨hnoDigit, hdot⟩ := head_exponent he hrest
  obtain ⟨htake, hdrop⟩ := span_digits hdigits (head_fraction hf hnoDigit)
  simp only [jsonParseNumber, hnegative, htail, htake, hdrop, if_neg hdigits.ne_nil,
    scanFraction_complete hf hnoDigit hdot, scanExponent_complete he hrest]

/-- Every number of the grammar is read. -/
lemma jsonParseNumber_complete (h : Number strtod withAnyBytes text v) (hrest : Ends rest) :
    jsonParseNumber strtod length (text ++ rest) = .ok (v, rest) := by
  cases h with
  | @int negative _ _ htext hraw =>
    have hread := jsonParseNumber_parts strtod length negative htext.digits .none .none hrest
    rw [append_assoc]
    rw [nil_append, nil_append, if_neg (by simp)] at hread
    rw [hread, hraw.unique (parseInt_canonical htext.digits negative)]
  | @float negative _ _ _ htext hf he hfloat =>
    simp only [append_assoc]
    rw [jsonParseNumber_parts strtod length negative htext.digits hf he hrest, if_pos hfloat]

/-! ## Scalars -/

/-- A literal is read if the input begins with it. -/
lemma jsonParseLiteral_eq_ok {literal value} :
    jsonParseLiteral length literal value input = .ok (v, rest) ↔
      v = value ∧ input = literal ++ rest := by
  rw [jsonParseLiteral]
  constructor
  · intro h
    split_ifs at h with hliteral
    · simp at h
    rw [not_or, not_not] at hliteral
    cases h
    refine ⟨rfl, ?_⟩
    conv_lhs => rw [← take_append_drop literal.length input, hliteral.2]
  · rintro ⟨rfl, rfl⟩
    rw [if_neg, drop_left]
    rw [not_or, not_not, take_left]
    exact ⟨by simp, rfl⟩

/-- A value that is no object and no array is a scalar of the grammar. -/
lemma parseValueWith_sound_scalar {element input tail rest ch v}
    (hskip : jsonSkipWhitespace input = ch :: tail) (hobject : ch ≠ ascii '\x7b')
    (harray : ch ≠ ascii '[') (h : parseValueWith strtod length element input = .ok (v, rest)) :
    ∃ text, Scalar strtod withAnyBytes text v ∧ ch :: tail = text ++ rest := by
  rw [parseValueWith, hskip] at h
  dsimp only at h
  rw [if_neg hobject, if_neg harray] at h
  split_ifs at h with hstring htrue hfalse hnull hnumber
  · simp only [bind_eq_ok, Prod.exists] at h
    obtain ⟨_, _, hparse, h⟩ := h
    cases h
    obtain ⟨text, htext, heq⟩ := jsonParseString_sound (by rw [hstring]; rfl) hparse
    exact ⟨text, .string htext, heq⟩
  · obtain ⟨rfl, heq⟩ := jsonParseLiteral_eq_ok.1 h
    exact ⟨_, .true, heq⟩
  · obtain ⟨rfl, heq⟩ := jsonParseLiteral_eq_ok.1 h
    exact ⟨_, .false, heq⟩
  · obtain ⟨rfl, heq⟩ := jsonParseLiteral_eq_ok.1 h
    exact ⟨_, .null, heq⟩
  · obtain ⟨text, htext, heq⟩ := jsonParseNumber_sound h
    exact ⟨text, .number htext, heq⟩
  · simp at h

/-- A number begins with a minus or a digit. -/
lemma digits_head (negative : Bool) (rest : Bytes) {digits} (h : Digits digits) :
    ∃ c text, minus negative ++ (digits ++ rest) = c :: text ∧
      (c = ascii '-' ∨ isDigit c = true) := by
  cases negative with
  | true => exact ⟨_, _, rfl, .inl rfl⟩
  | false =>
    cases digits with
    | nil => exact absurd rfl h.ne_nil
    | cons c => exact ⟨c, _, rfl, .inr (h.digit c mem_cons_self)⟩

/-- So does a number of the grammar. -/
lemma number_head (h : Number strtod withAnyBytes text v) :
    ∃ c text', text = c :: text' ∧ (c = ascii '-' ∨ isDigit c = true) := by
  cases h with
  | @int negative _ _ hdigits _ =>
    have hhead := digits_head negative [] hdigits.digits
    rwa [append_nil] at hhead
  | float hdigits => exact digits_head _ _ hdigits.digits

/-- The first byte of a number is none that begins another value. -/
lemma starts_ne (hc : c = ascii '-' ∨ isDigit c = true) (x : Char)
    (hx : ¬(ascii x = ascii '-' ∨ isDigit (ascii x) = true)) : c ≠ ascii x :=
  fun h => hx (h ▸ hc)

/-- The four bytes of whitespace. -/
lemma not_whitespace_iff : isWhitespace c = false ↔
    c ≠ ascii ' ' ∧ c ≠ ascii '\t' ∧ c ≠ ascii '\n' ∧ c ≠ ascii '\r' := by
  simp [isWhitespace, and_assoc]

/-- No number begins with whitespace. -/
lemma number_not_whitespace (hc : c = ascii '-' ∨ isDigit c = true) : isWhitespace c = false :=
  not_whitespace_iff.2 ⟨starts_ne hc _ (by decide), starts_ne hc _ (by decide),
    starts_ne hc _ (by decide), starts_ne hc _ (by decide)⟩

/-- Every scalar of the grammar is read. -/
lemma parseValueWith_scalar {element} (h : Scalar strtod withAnyBytes text v) (hrest : Ends rest) :
    parseValueWith strtod length element (text ++ rest) = .ok (v, rest) := by
  have hparse : ∀ {c : UInt8} {tail : Bytes}, text = c :: tail → isWhitespace c = false →
      jsonSkipWhitespace (text ++ rest) = c :: (tail ++ rest) := by
    rintro c tail rfl hc
    exact skip_cons hc _
  cases h with
  | null | true | false =>
    rw [parseValueWith, hparse rfl rfl]
    dsimp only
    -- past the branches for other first characters
    repeat rw [if_neg (by decide)]
    rw [if_pos rfl]
    exact jsonParseLiteral_eq_ok.2 ⟨rfl, rfl⟩
  | @string _ bytes htext =>
    have hread : jsonParseString (text ++ rest) = .ok (bytes, rest) :=
      jsonParseString_complete htext
    cases htext with
    | quoted =>
      rw [parseValueWith, hparse rfl rfl]
      dsimp only
      rw [if_neg (by decide), if_neg (by decide), if_pos rfl]
      rw [cons_append] at hread
      rw [hread]
      rfl
  | number hnumber =>
    obtain ⟨c, tail, rfl, hc⟩ := number_head hnumber
    rw [parseValueWith, hparse rfl (number_not_whitespace hc)]
    dsimp only
    iterate 6 rw [if_neg (starts_ne hc _ (by decide))]
    rw [if_pos hc]
    exact jsonParseNumber_complete hnumber hrest

end

end Diamond.Json
