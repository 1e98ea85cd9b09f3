import Diamond.Bignum.Decimal
import Diamond.Hash.Key
import Diamond.Lib.Codec

/-!
# Parsing JSON

Model of the parser in `src/vm_json.c`.  The parser's position is the part of the source that is
left, and its depth is the number of levels that may still be opened below `DIAMOND_MAX_CALL_DEPTH`,
on which the recursion is structural.  A loop runs on the length of what is left: each round takes
at least a byte, and with nothing left it fails as the source does.  Allocations succeed.
-/

namespace Diamond.Json
open Codec (Bytes)
open Bignum (isDigit digitValue minus diamondBignumFromDecimalDigits)
open Hash (Key hashValue keyMatch assocLookup assocSet)

def maxCallDepth : ℕ := 150

/-- The values that JSON is read into and written from, as trees.  `other` stands for the kinds that
have no JSON text. -/
inductive Value (F : Type)
  | scalar (value : Bignum.DiamondValue)
  | float (real : F)
  | string (bytes : Bytes)
  | array (values : List (Value F))
  | hash (entries : List (Key × Value F))
  | other

/-- What the functions return instead of `DIAMOND_VM_OK`. -/
inductive DiamondVmStatus
  | jsonError (message : String)
  | typeError (message : String)
  | stackOverflow
  deriving DecidableEq, Repr

def ascii (c : Char) : UInt8 := c.toUInt8

abbrev Result := Except DiamondVmStatus

def fail {α : Type} (message : String) : Result α := .error (.jsonError message)

def isWhitespace (c : UInt8) : Bool :=
  c == ascii ' ' || c == ascii '\t' || c == ascii '\n' || c == ascii '\r'

def jsonSkipWhitespace (rest : Bytes) : Bytes := rest.dropWhile isWhitespace

/-! ## Strings -/

def jsonUtf8Append (codepoint : ℕ) : Bytes :=
  if codepoint < 0x80 then [UInt8.ofNat codepoint]
  else if codepoint < 0x800 then
    [UInt8.ofNat (0xC0 ||| codepoint >>> 6), UInt8.ofNat (0x80 ||| (codepoint &&& 0x3F))]
  else if codepoint < 0x10000 then
    [UInt8.ofNat (0xE0 ||| codepoint >>> 12), UInt8.ofNat (0x80 ||| (codepoint >>> 6 &&& 0x3F)),
      UInt8.ofNat (0x80 ||| (codepoint &&& 0x3F))]
  else
    [UInt8.ofNat (0xF0 ||| codepoint >>> 18), UInt8.ofNat (0x80 ||| (codepoint >>> 12 &&& 0x3F)),
      UInt8.ofNat (0x80 ||| (codepoint >>> 6 &&& 0x3F)), UInt8.ofNat (0x80 ||| (codepoint &&& 0x3F))]

def hexDigit (c : UInt8) : Option ℕ :=
  if ascii '0' ≤ c ∧ c ≤ ascii '9' then some (c.toNat - (ascii '0').toNat)
  else if ascii 'a' ≤ c ∧ c ≤ ascii 'f' then some (c.toNat - (ascii 'a').toNat + 10)
  else if ascii 'A' ≤ c ∧ c ≤ ascii 'F' then some (c.toNat - (ascii 'A').toNat + 10)
  else none

def hexValue (digits : List ℕ) : ℕ := digits.foldl (fun value digit => value * 16 + digit) 0

def jsonHex4 (rest : Bytes) : Result (ℕ × Bytes) :=
  if rest.length < 4 then fail "truncated unicode escape"
  else
    match (rest.take 4).mapM hexDigit with
    | none => fail "invalid unicode escape hex digit"
    | some digits => .ok (hexValue digits, rest.drop 4)

def jsonUnicodeEscape (rest : Bytes) : Result (Bytes × Bytes) := do
  let (code, rest) ← jsonHex4 rest
  if 0xD800 ≤ code ∧ code ≤ 0xDBFF then
    if rest.take 2 = [ascii '\\', ascii 'u'] then
      let (low, rest) ← jsonHex4 (rest.drop 2)
      if low < 0xDC00 ∨ 0xDFFF < low then
        fail "high surrogate not followed by a low surrogate in unicode escape"
      else
        return (jsonUtf8Append (0x10000 + (code - 0xD800) * 0x400 + (low - 0xDC00)), rest)
    else fail "unpaired high surrogate in unicode escape"
  else if 0xDC00 ≤ code ∧ code ≤ 0xDFFF then fail "unpaired low surrogate in unicode escape"
  else return (jsonUtf8Append code, rest)

def simpleEscape (c : UInt8) : Option UInt8 :=
  if c = ascii '"' then some (ascii '"')
  else if c = ascii '\\' then some (ascii '\\')
  else if c = ascii '/' then some (ascii '/')
  else if c = ascii 'n' then some (ascii '\n')
  else if c = ascii 'r' then some (ascii '\r')
  else if c = ascii 't' then some (ascii '\t')
  else if c = ascii 'b' then some 8
  else if c = ascii 'f' then some 12
  else none

def stringLoop : ℕ → Bytes → Bytes → Result (Bytes × Bytes)
  | 0, _, _ => fail "unterminated string"
  | _ + 1, _, [] => fail "unterminated string"
  | fuel + 1, builder, ch :: rest =>
    if ch = ascii '"' then .ok (builder, rest)
    else if ch = ascii '\\' then
      match rest with
      | [] => fail "unterminated escape sequence"
      | escape :: rest =>
        if escape = ascii 'u' then do
          let (bytes, rest) ← jsonUnicodeEscape rest
          stringLoop fuel (builder ++ bytes) rest
        else
          match simpleEscape escape with
          | some byte => stringLoop fuel (builder ++ [byte]) rest
          | none => fail "invalid escape character"
    else stringLoop fuel (builder ++ [ch]) rest

def jsonParseString (rest : Bytes) : Result (Bytes × Bytes) := stringLoop rest.length [] rest.tail

/-! ## Numbers -/

def scanFraction (rest : Bytes) : Option (Bytes × Bytes) :=
  if rest.head? = some (ascii '.') then
    let digits := rest.tail.takeWhile isDigit
    if digits = [] then none else some (ascii '.' :: digits, rest.tail.dropWhile isDigit)
  else some ([], rest)

def scanSign (rest : Bytes) : Bytes × Bytes :=
  match rest with
  | ch :: tail => if ch = ascii '+' ∨ ch = ascii '-' then ([ch], tail) else ([], rest)
  | [] => ([], [])

def scanExponent (rest : Bytes) : Option (Bytes × Bytes) :=
  match rest with
  | ch :: tail =>
    if ch = ascii 'e' ∨ ch = ascii 'E' then
      let (sign, tail) := scanSign tail
      let digits := tail.takeWhile isDigit
      if digits = [] then none
      else some (ch :: (sign ++ digits), tail.dropWhile isDigit)
    else some ([], rest)
  | [] => some ([], [])

/-- The loop with `ckd_mul` and `ckd_add`: the number as an `int64_t`, if it does not overflow. -/
def int64Loop : Bytes → ℕ → Option ℕ
  | [], value => some value
  | c :: text, value =>
    if 2 ^ 63 ≤ value * 10 ∨ 2 ^ 63 ≤ value * 10 + digitValue c then none
    else int64Loop text (value * 10 + digitValue c)

def parseInt (negative : Bool) (digits : Bytes) : Bignum.DiamondValue :=
  match int64Loop digits 0 with
  | some value => .int (Int64.ofInt (if negative then -value else value))
  | none => diamondBignumFromDecimalDigits (fun _ => true) digits negative

section
variable {F : Type} (strtod : Bytes → F) (length : ℕ)

/-- `json_parse_number`.  `strtod` reads the bytes the scan has passed over. -/
def jsonParseNumber (rest : Bytes) : Result (Value F × Bytes) :=
  let invalid := fail ("invalid number at position " ++ toString (length - rest.length))
  let negative := rest.head? == some (ascii '-')
  let unsigned := if negative then rest.tail else rest
  let digits := unsigned.takeWhile isDigit
  if digits = [] then invalid
  else
    match scanFraction (unsigned.dropWhile isDigit) with
    | none => invalid
    | some (fraction, rest) =>
      match scanExponent rest with
      | none => invalid
      | some (exponent, rest) =>
        if fraction ≠ [] ∨ exponent ≠ [] then
          .ok (.float (strtod (minus negative ++ (digits ++ (fraction ++ exponent)))), rest)
        else .ok (.scalar (parseInt negative digits), rest)

def jsonParseLiteral (literal : Bytes) (value : Value F) (rest : Bytes) : Result (Value F × Bytes) :=
  if rest.length < literal.length ∨ rest.take literal.length ≠ literal then
    fail ("invalid literal at position " ++ toString (length - rest.length))
  else .ok (value, rest.drop literal.length)

/-! ## Arrays and objects -/

/-- The loop of `json_parse_array_body`; `element` is `json_parse_value` one level down. -/
def arrayLoop (element : Bytes → Result (Value F × Bytes)) :
    ℕ → List (Value F) → Bytes → Result (Value F × Bytes)
  | 0, _, _ => fail "unexpected end of input"
  | fuel + 1, values, rest => do
    let (value, rest) ← element rest
    match jsonSkipWhitespace rest with
    | [] => fail "unterminated array"
    | ch :: rest =>
      if ch = ascii ',' then
        arrayLoop element fuel (values ++ [value]) (jsonSkipWhitespace rest)
      else if ch = ascii ']' then .ok (.array (values ++ [value]), rest)
      else fail "expected ',' or ']' in array"

def jsonParseArrayBody (element : Bytes → Result (Value F × Bytes)) (rest : Bytes) :
    Result (Value F × Bytes) :=
  let rest := jsonSkipWhitespace rest
  if rest.head? = some (ascii ']') then .ok (.array [], rest.tail)
  else arrayLoop element rest.length [] rest

/-- `hash_set`, on the entries of the Hash. -/
def hashSet (entries : List (Key × Value F)) (key : Bytes) (value : Value F) :
    List (Key × Value F) :=
  assocSet (keyMatch hashValue Hash.valuesEqual) entries (.string key) value

/-- The loop of `json_parse_object_body`.  The key is entered with `nil` before its value is read.
-/
def objectLoop (element : Bytes → Result (Value F × Bytes)) :
    ℕ → List (Key × Value F) → Bytes → Result (Value F × Bytes)
  | 0, _, _ => fail "expected string key in object"
  | fuel + 1, entries, rest => do
    let rest := jsonSkipWhitespace rest
    if rest.head? ≠ some (ascii '"') then fail "expected string key in object"
    else
      let (key, rest) ← jsonParseString rest
      let entries := hashSet entries key (.scalar .nil)
      let rest := jsonSkipWhitespace rest
      if rest.head? ≠ some (ascii ':') then fail "expected ':' after object key"
      else
        let (value, rest) ← element (jsonSkipWhitespace rest.tail)
        let entries := hashSet entries key value
        match jsonSkipWhitespace rest with
        | [] => fail "unterminated object"
        | ch :: rest =>
          if ch = ascii ',' then objectLoop element fuel entries rest
          else if ch = ascii '\x7d' then .ok (.hash entries, rest)
          else fail "expected ',' or '\x7d' in object"

def jsonParseObjectBody (element : Bytes → Result (Value F × Bytes)) (rest : Bytes) :
    Result (Value F × Bytes) :=
  let rest := jsonSkipWhitespace rest
  if rest.head? = some (ascii '\x7d') then .ok (.hash [], rest.tail)
  else objectLoop element rest.length [] rest

/-! ## Values -/

/-- `json_parse_value`, with the guards of `json_parse_array` and `json_parse_object`: there is no
parser for the elements at the depth limit. -/
def parseValueWith (element : Option (Bytes → Result (Value F × Bytes))) (rest : Bytes) :
    Result (Value F × Bytes) :=
  match jsonSkipWhitespace rest with
  | [] => fail "unexpected end of input"
  | ch :: rest =>
    if ch = ascii '\x7b' then
      match element with
      | none => .error .stackOverflow
      | some element => jsonParseObjectBody element rest
    else if ch = ascii '[' then
      match element with
      | none => .error .stackOverflow
      | some element => jsonParseArrayBody element rest
    else if ch = ascii '"' then do
      let (bytes, rest) ← jsonParseString (ch :: rest)
      return (.string bytes, rest)
    else if ch = ascii 't' then
      jsonParseLiteral length (['t', 'r', 'u', 'e'].map ascii) (.scalar (.bool true)) (ch :: rest)
    else if ch = ascii 'f' then
      jsonParseLiteral length (['f', 'a', 'l', 's', 'e'].map ascii) (.scalar (.bool false)) (ch :: rest)
    else if ch = ascii 'n' then
      jsonParseLiteral length (['n', 'u', 'l', 'l'].map ascii) (.scalar .nil) (ch :: rest)
    else if ch = ascii '-' ∨ isDigit ch = true then jsonParseNumber strtod length (ch :: rest)
    else fail ("unexpected character at position " ++ toString (length - (ch :: rest).length))

def jsonParseValue : ℕ → Bytes → Result (Value F × Bytes)
  | 0 => parseValueWith strtod length none
  | levels + 1 => parseValueWith strtod length (some (jsonParseValue levels))

end

def jsonParseDocument {F : Type} (strtod : Bytes → F) (source : Bytes) : Result (Value F) := do
  let (value, rest) ← jsonParseValue strtod source.length maxCallDepth source
  if jsonSkipWhitespace rest ≠ [] then fail "trailing content after JSON value"
  else return value

end Diamond.Json
