import Diamond.Json.Parse

/-!
# JSON texts

The grammar of RFC 8259 over bytes, with the value that a text denotes.  What the parser relaxes is
a parameter, `Dialect`: whether the integer part of a number may have leading zeros, and which byte
strings may stand for themselves inside a string.  Escapes of surrogates come in pairs in every
dialect.

A list of items between commas is `Separated`, over any kind of item, and the values inside a
container are those of a predicate, so that the nesting is counted by `IsValue` alone.
-/

namespace Diamond.Json
open Codec (Bytes)
open Bignum (Digits decimal signed minus Canonical)
open Hash (Key)

structure Dialect where
  leadingZeros : Prop
  raw : Bytes → Prop

/-- RFC 8259: no leading zeros, and a character of a string is the UTF-8 encoding of any one from
the space on but the quote and the backslash.  The grammar of the RFC also has escapes of unpaired
surrogates, which denote no character; here they come in pairs (`Character`). -/
def rfc8259 : Dialect where
  leadingZeros := False
  raw text := ∃ c : Char, 0x20 ≤ c.toNat ∧ c ≠ '"' ∧ c ≠ '\\' ∧ text = String.utf8EncodeChar c

/-- RFC 8259 with leading zeros and control bytes in strings. -/
def withControlBytes : Dialect where
  leadingZeros := True
  raw text := rfc8259.raw text ∨ ∃ byte : UInt8, byte < 0x20 ∧ text = [byte]

/-- RFC 8259 with leading zeros and any bytes in strings. -/
def withAnyBytes : Dialect where
  leadingZeros := True
  raw text := ∃ byte : UInt8, byte ≠ ascii '"' ∧ byte ≠ ascii '\\' ∧ text = [byte]

def Ws (text : Bytes) : Prop := ∀ c ∈ text, isWhitespace c = true

/-! ## Strings -/

def Hex4 (text : Bytes) (code : ℕ) : Prop :=
  text.length = 4 ∧ ∃ digits, text.mapM hexDigit = some digits ∧ code = hexValue digits

def escapes : List (Char × UInt8) :=
  [('"', 0x22), ('\\', 0x5C), ('/', 0x2F), ('b', 0x08), ('f', 0x0C), ('n', 0x0A), ('r', 0x0D),
    ('t', 0x09)]

inductive Character (d : Dialect) : Bytes → Bytes → Prop
  | raw {text} : d.raw text → Character d text text
  | escape {c byte} : (c, byte) ∈ escapes → Character d [ascii '\\', ascii c] [byte]
  | unicode {text code} : Hex4 text code → code < 0xD800 ∨ 0xDFFF < code →
    Character d (ascii '\\' :: ascii 'u' :: text) (jsonUtf8Append code)
  | pair {text text' high low} : Hex4 text high → 0xD800 ≤ high → high ≤ 0xDBFF →
    Hex4 text' low → 0xDC00 ≤ low → low ≤ 0xDFFF →
    Character d (ascii '\\' :: ascii 'u' :: (text ++ ascii '\\' :: ascii 'u' :: text'))
      (jsonUtf8Append (0x10000 + (high - 0xD800) * 0x400 + (low - 0xDC00)))

inductive Characters (d : Dialect) : Bytes → Bytes → Prop
  | nil : Characters d [] []
  | cons {text text' bytes bytes'} : Character d text bytes → Characters d text' bytes' →
    Characters d (text ++ text') (bytes ++ bytes')

inductive StringText (d : Dialect) : Bytes → Bytes → Prop
  | quoted {text bytes} : Characters d text bytes →
    StringText d (ascii '"' :: (text ++ [ascii '"'])) bytes

/-! ## Numbers -/

inductive Fraction : Bytes → Prop
  | none : Fraction []
  | digits {text} : Digits text → Fraction (ascii '.' :: text)

inductive Exponent : Bytes → Prop
  | none : Exponent []
  | digits {e sign text} : e = ascii 'e' ∨ e = ascii 'E' →
    sign = [] ∨ sign = [ascii '+'] ∨ sign = [ascii '-'] → Digits text →
    Exponent (e :: (sign ++ text))

structure Integer (d : Dialect) (text : Bytes) : Prop where
  digits : Digits text
  leading : d.leadingZeros ∨ text = [ascii '0'] ∨ text.head? ≠ some (ascii '0')

section
variable {F : Type} (strtod : Bytes → F) (d : Dialect)

/-- A number without fraction and exponent denotes an Int of any size. -/
inductive Number : Bytes → Value F → Prop
  | int {negative text raw} : Integer d text → Canonical raw (signed negative (decimal text)) →
    Number (minus negative ++ text) (.scalar raw)
  | float {negative text fraction exponent} : Integer d text → Fraction fraction →
    Exponent exponent → fraction ≠ [] ∨ exponent ≠ [] →
    Number (minus negative ++ (text ++ (fraction ++ exponent)))
      (.float (strtod (minus negative ++ (text ++ (fraction ++ exponent)))))

/-! ## Values -/

inductive Separated {α : Type} (item : Bytes → α → Prop) : Bytes → List α → Prop
  | one {text a} : item text a → Separated item text [a]
  | cons {text text' a as} : item text a → Separated item text' as →
    Separated item (text ++ ascii ',' :: text') (a :: as)

/-- A value with whitespace around it. -/
inductive Element (value : Bytes → Value F → Prop) : Bytes → Value F → Prop
  | padded {before text after v} : Ws before → value text v → Ws after →
    Element value (before ++ (text ++ after)) v

inductive Member (value : Bytes → Value F → Prop) : Bytes → Bytes × Value F → Prop
  | padded {before key after text name v} : Ws before → StringText d key name → Ws after →
    Element value text v →
    Member value (before ++ (key ++ (after ++ ascii ':' :: text))) (name, v)

inductive Scalar : Bytes → Value F → Prop
  | null : Scalar (['n', 'u', 'l', 'l'].map ascii) (.scalar .nil)
  | true : Scalar (['t', 'r', 'u', 'e'].map ascii) (.scalar (.bool true))
  | false : Scalar (['f', 'a', 'l', 's', 'e'].map ascii) (.scalar (.bool false))
  | string {text bytes} : StringText d text bytes → Scalar text (.string bytes)
  | number {text v} : Number strtod d text v → Scalar text v

/-- The Hash with these members: a later value for a key replaces the earlier one. -/
def hashOf (members : List (Bytes × Value F)) : List (Key × Value F) :=
  members.foldl (fun entries m => hashSet entries m.1 m.2) []

inductive Container (value : Bytes → Value F → Prop) : Bytes → Value F → Prop
  | emptyArray {ws} : Ws ws → Container value (ascii '[' :: (ws ++ [ascii ']'])) (.array [])
  | array {text vs} : Separated (Element value) text vs →
    Container value (ascii '[' :: (text ++ [ascii ']'])) (.array vs)
  | emptyObject {ws} : Ws ws → Container value (ascii '\x7b' :: (ws ++ [ascii '\x7d'])) (.hash [])
  | object {text ms} : Separated (Member d value) text ms →
    Container value (ascii '\x7b' :: (text ++ [ascii '\x7d'])) (.hash (hashOf ms))

/-- A value with at most this many levels of containers. -/
def IsValue : ℕ → Bytes → Value F → Prop
  | 0 => Scalar strtod d
  | levels + 1 => fun text v =>
    Scalar strtod d text v ∨ Container d (IsValue levels) text v

/-- One value within the nesting limit with whitespace around it. -/
def Document (text : Bytes) (v : Value F) : Prop := Element (IsValue strtod d maxCallDepth) text v

end

end Diamond.Json
