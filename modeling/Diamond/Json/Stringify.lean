import Diamond.Bignum.Arithmetic
import Diamond.Json.Parse

/-!
# Writing JSON

Model of `JSON.stringify` in `src/vm_json.c` and of `values_equal` (`src/vm_values.c`) on the values
it writes.  The writer's nesting is counted down from `DIAMOND_MAX_CALL_DEPTH`, like the parser's
depth. What depends on the Floats, and the text of a Hash key that is neither a String nor a Symbol,
are parameters.
-/

namespace Diamond.Json
open Codec (Bytes)
open Bignum (formatIntDecimal diamondBignumToString)
open Hash (Key hashValue keyMatch assocLookup)

/-- What the functions below take from the Floats and from the string conversion of keys. -/
structure Environment (F : Type) where
  formatFloat : F → Bytes
  nonFinite : F → Option String
  floatsEqual : F → F → Bool
  intEqualsFloat : Int64 → F → Bool
  keyToString : Key → Bytes

structure JsonWriter where
  indent : Bytes
  sortKeys : Bool
  deriving DecidableEq, Repr

def jsonMaxIndent : ℕ := 16

def jsonWriteBreak (writer : JsonWriter) (level : ℕ) : Bytes :=
  if writer.indent = [] then []
  else ascii '\n' :: (List.replicate level writer.indent).flatten

/-! ## Strings -/

def hexChar (digit : ℕ) : UInt8 :=
  if digit < 10 then UInt8.ofNat (48 + digit) else UInt8.ofNat (87 + digit)

/-- What `json_write_string` appends for a byte; bytes without an escape are copied in runs. -/
def writeByte (c : UInt8) : Bytes :=
  if 0x20 ≤ c ∧ c ≠ ascii '"' ∧ c ≠ ascii '\\' then [c]
  else if c = ascii '"' then [ascii '\\', ascii '"']
  else if c = ascii '\\' then [ascii '\\', ascii '\\']
  else if c = ascii '\n' then [ascii '\\', ascii 'n']
  else if c = ascii '\r' then [ascii '\\', ascii 'r']
  else if c = ascii '\t' then [ascii '\\', ascii 't']
  else [ascii '\\', ascii 'u', ascii '0', ascii '0', hexChar (c.toNat >>> 4), hexChar (c.toNat &&& 15)]

def jsonWriteString (chars : Bytes) : Bytes := ascii '"' :: (chars.flatMap writeByte ++ [ascii '"'])

/-! ## Keys -/

def keyText {F : Type} (env : Environment F) : Key → Bytes
  | .string chars => chars
  | .symbol chars => chars
  | key => env.keyToString key

/-- `memcmp` on blocks of one length. -/
def memcmp : Bytes → Bytes → Ordering
  | x :: xs, y :: ys => if x = y then memcmp xs ys else if x < y then .lt else .gt
  | _, _ => .eq

def jsonKeyCompare (left right : Bytes × ℕ) : Ordering :=
  let shared := min left.1.length right.1.length
  match memcmp (left.1.take shared) (right.1.take shared) with
  | .eq =>
    if left.1.length ≠ right.1.length then
      if left.1.length < right.1.length then .lt else .gt
    else compare left.2 right.2
  | order => order

section
variable {F : Type} (env : Environment F)

/-- `json_sorted_order`, as the entries in that order.  Keys of one text are told apart by position,
so any sorting algorithm gives this list. -/
def jsonSortedOrder (entries : List (Key × Value F)) : List (Key × Value F) :=
  (entries.zipIdx.insertionSort fun left right =>
    jsonKeyCompare (keyText env left.1.1, left.2) (keyText env right.1.1, right.2) ≠ .gt).map Prod.fst

/-! ## Values -/

/-- Items with a break before each and a comma before each but the first. -/
def separate (before : Bytes) : List Bytes → Bytes
  | [] => []
  | [item] => before ++ item
  | item :: items => before ++ item ++ ascii ',' :: separate before items

/-- The items of a container between its brackets. -/
def bracket (writer : JsonWriter) (nesting : ℕ) (opening closing : UInt8) (items : List Bytes) :
    Bytes :=
  opening :: (separate (jsonWriteBreak writer (nesting + 1)) items ++
    ((if items = [] then [] else jsonWriteBreak writer nesting) ++ [closing]))

def writeEntry (writer : JsonWriter) (element : Value F → Result Bytes) (entry : Key × Value F) :
    Result Bytes := do
  let value ← element entry.2
  return jsonWriteString (keyText env entry.1) ++
    ((if writer.indent = [] then [ascii ':'] else [ascii ':', ascii ' ']) ++ value)

/-- `json_write_value` inside `nesting` containers; there is no writer for the elements at the depth
limit. -/
def writeValueWith (writer : JsonWriter) (nesting : ℕ) (element : Option (Value F → Result Bytes)) :
    Value F → Result Bytes
  | .scalar .nil => .ok (['n', 'u', 'l', 'l'].map ascii)
  | .scalar (.bool true) => .ok (['t', 'r', 'u', 'e'].map ascii)
  | .scalar (.bool false) => .ok (['f', 'a', 'l', 's', 'e'].map ascii)
  | .scalar (.int integer) => .ok (formatIntDecimal integer)
  | .scalar (.bignum negative limbs) => .ok (diamondBignumToString negative limbs)
  | .float real =>
    match env.nonFinite real with
    | some name => fail ("cannot convert " ++ name ++ " to JSON")
    | none => .ok (env.formatFloat real)
  | .string bytes => .ok (jsonWriteString bytes)
  | .other => fail "cannot convert this value to JSON"
  | .array values =>
    match element with
    | none => .error .stackOverflow
    | some element => do
      let items ← values.mapM element
      return bracket writer nesting (ascii '[') (ascii ']') items
  | .hash entries =>
    match element with
    | none => .error .stackOverflow
    | some element => do
      let order := if writer.sortKeys ∧ 1 < entries.length then jsonSortedOrder env entries else entries
      let items ← order.mapM (writeEntry env writer element)
      return bracket writer nesting (ascii '\x7b') (ascii '\x7d') items

def jsonWriteValue (writer : JsonWriter) : ℕ → Value F → Result Bytes
  | 0 => writeValueWith env writer maxCallDepth none
  | levels + 1 =>
    writeValueWith env writer (maxCallDepth - (levels + 1)) (some (jsonWriteValue writer levels))

/-! ## Options -/

def optionName : Key → Option Bytes
  | .string chars => some chars
  | .symbol chars => some chars
  | _ => none

def readIndent (writer : JsonWriter) : Value F → Result JsonWriter
  | .scalar .nil => .ok writer
  | .scalar (.int integer) =>
    if integer.toInt < 0 ∨ jsonMaxIndent < integer.toInt then
      .error (.typeError "JSON.stringify indent must be between 0 and 16 spaces")
    else .ok { writer with indent := List.replicate integer.toInt.toNat (ascii ' ') }
  | .string chars =>
    if jsonMaxIndent < chars.length then
      .error (.typeError "JSON.stringify indent is longer than 16 characters")
    else if chars.any fun c => c ≠ ascii ' ' ∧ c ≠ ascii '\t' then
      .error (.typeError "JSON.stringify indent must be spaces or tabs")
    else .ok { writer with indent := chars }
  | _ => .error (.typeError "JSON.stringify indent must be an Int or a String")

def readSortKeys (writer : JsonWriter) : Value F → Result JsonWriter
  | .scalar .nil => .ok writer
  | .scalar (.bool boolean) => .ok { writer with sortKeys := boolean }
  | _ => .error (.typeError "JSON.stringify sort_keys must be true or false")

def readOption (writer : JsonWriter) (entry : Key × Value F) : Result JsonWriter :=
  if optionName entry.1 = some (['i', 'n', 'd', 'e', 'n', 't'].map ascii) then
    readIndent writer entry.2
  else if optionName entry.1 = some (['s', 'o', 'r', 't', '_', 'k', 'e', 'y', 's'].map ascii) then
    readSortKeys writer entry.2
  else
    .error (.typeError "unknown JSON.stringify option (expected indent or sort_keys)")

def jsonReadOptions : Value F → Result JsonWriter
  | .scalar .nil => .ok ⟨[], false⟩
  | .hash entries => entries.foldlM readOption ⟨[], false⟩
  | _ => .error (.typeError "JSON.stringify options must be a Hash")

def jsonStringifyDocument (value options : Value F) : Result Bytes := do
  let writer ← jsonReadOptions options
  jsonWriteValue env writer maxCallDepth value

/-! ## Equality -/

def scalarsEqual : Bignum.DiamondValue → Bignum.DiamondValue → Bool
  | .nil, .nil => true
  | .bool left, .bool right => left == right
  | .int left, .int right => left == right
  | .bignum negative limbs, right@(.bignum _ _) =>
    Bignum.diamondBignumCompare ⟨negative, limbs⟩ (Bignum.diamondIntView right) == .eq
  | .bignum negative limbs, right@(.int _) =>
    Bignum.diamondBignumCompare ⟨negative, limbs⟩ (Bignum.diamondIntView right) == .eq
  | .int left, right@(.bignum _ _) =>
    Bignum.diamondBignumCompare (Bignum.diamondIntView (.int left)) (Bignum.diamondIntView right) == .eq
  | _, _ => false

mutual

/-- `values_equal`.  Hashes are compared without regard to the order of their entries. -/
def valuesEqual : Value F → Value F → Bool
  | .scalar left, .scalar right => scalarsEqual left right
  | .scalar (.int left), .float right => env.intEqualsFloat left right
  | .float left, .scalar (.int right) => env.intEqualsFloat right left
  | .float left, .float right => env.floatsEqual left right
  | .string left, .string right => left == right
  | .array left, .array right => left.length == right.length && elementsEqual left right
  | .hash left, .hash right => left.length == right.length && entriesFound left right
  | _, _ => false

def elementsEqual : List (Value F) → List (Value F) → Bool
  | v :: left, w :: right => valuesEqual v w && elementsEqual left right
  | _, _ => true

/-- Every entry of the first Hash is found in the second with an equal value. -/
def entriesFound : List (Key × Value F) → List (Key × Value F) → Bool
  | (key, v) :: left, right =>
    (match assocLookup (keyMatch hashValue Hash.valuesEqual) right key with
      | some w => valuesEqual v w
      | none => false) && entriesFound left right
  | [], _ => true

end

end

end Diamond.Json
