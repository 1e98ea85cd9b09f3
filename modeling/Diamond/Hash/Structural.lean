import Diamond.Bignum.Arithmetic
import Diamond.Hash.Key

/-!
# Equality and hash of nested values

Model of `values_equal` and `hash_value` in `src/vm_values.c` on keys, Bignums, and Arrays and
Hashes that can contain each other and themselves; Times are left out.  `values_equal` recurses to a
small depth, and does what is deeper again on a stack of pairs; there, deep pairs that were met
before count as equal.  Hashing stops at a depth.

A Hash is the list of its entries: entries with one hash are probed in the order they were added, so
that a lookup finds the first that matches.  An entry keeps the hash its key had when it was added,
which a change of the key does not update.  `values_equal` and lookups call each other, and run on
fuel; that memory for the stack can run out is left out.
-/

namespace Diamond.Hash
open Bignum (IntView diamondBignumCompare diamondIntViewInt64)

/-- A value: one without parts, a Bignum, or a container. -/
inductive Value
  | leaf (key : Key)
  | bignum (negative : Bool) (limbs : List ℕ)
  | ref (r : ℕ)
  deriving DecidableEq, Repr

/-- An entry, with the hash its key had when it was added. -/
structure Entry where
  hash : UInt64
  key : Value
  value : Value
  deriving DecidableEq, Repr

inductive Object
  | array (values : List Value)
  | hash (entries : List Entry)
  deriving DecidableEq, Repr

abbrev Heap := List Object

def structuralMaxDepth : ℕ := 256

def equalFastDepth : ℕ := 32

/-! ## Hashes -/

def diamondBignumHash (negative : Bool) (limbs : List ℕ) : UInt64 :=
  limbs.foldl (fun hash limb =>
    let hash := (hash ^^^ UInt64.ofNat limb) * 0xff51afd7ed558ccd
    hash ^^^ (hash >>> 33)) (if negative then 0x9e3779b97f4a7c15 else 0xd6e8feb86659fd93)

/-- The Array case of `hash_value_at_depth`, with the hash of an element. -/
def hashArray (element : Value → UInt64) (values : List Value) : UInt64 :=
  values.foldl (fun running x => hashMix64 (running ^^^ element x))
    (hashMix64 (UInt64.ofNat values.length))

/-- What an entry adds to the hash of its Hash. -/
def hashEntry (element : Value → UInt64) (e : Entry) : UInt64 :=
  hashMix64 (element e.key ^^^ hashMix64 (element e.value))

def hashEntries (element : Value → UInt64) (entries : List Entry) : UInt64 :=
  hashMix64 ((entries.map (hashEntry element)).foldl (· ^^^ ·) 0 ^^^ UInt64.ofNat entries.length)

variable (heap : Heap)

def hashAtDepth : ℕ → Value → UInt64
  | _, .leaf key => hashValue key
  | _, .bignum negative limbs => diamondBignumHash negative limbs
  | 0, .ref r =>
    match heap[r]? with
    | some (.array values) => hashMix64 (UInt64.ofNat values.length)
    | some (.hash entries) => hashMix64 (0 ^^^ UInt64.ofNat entries.length)
    | none => 0
  | left + 1, .ref r =>
    match heap[r]? with
    | some (.array values) => hashArray (hashAtDepth left) values
    | some (.hash entries) => hashEntries (hashAtDepth left) entries
    | none => 0

/-- `hash_value`. -/
def hashOf (v : Value) : UInt64 := hashAtDepth heap structuralMaxDepth v

/-! ## Equality -/

/-- `values_equal_at_depth` on values that are not both containers. -/
def leavesEqual : Value → Value → Bool
  | .bignum negative limbs, .bignum negative' limbs' =>
    diamondBignumCompare ⟨negative, limbs⟩ ⟨negative', limbs'⟩ == .eq
  | .bignum negative limbs, .leaf (.int integer) =>
    diamondBignumCompare ⟨negative, limbs⟩ (diamondIntViewInt64 integer) == .eq
  | .leaf (.int integer), .bignum negative limbs =>
    diamondBignumCompare (diamondIntViewInt64 integer) ⟨negative, limbs⟩ == .eq
  | .leaf key, .leaf key' => valuesEqual key key'
  | _, _ => false

/-- `hash_find`: the index of the entry, with `same` for `values_equal`. -/
def findEntry (same : Value → Value → Option Bool) (keyHash : UInt64) (key : Value) :
    ℕ → List Entry → Option (Option ℕ)
  | _, [] => some none
  | index, e :: rest =>
    if e.hash = keyHash then
      match same e.key key with
      | some true => some (some index)
      | some false => findEntry same keyHash key (index + 1) rest
      | none => none
    else findEntry same keyHash key (index + 1) rest

/-- The loop over the entries in `values_equal_iterative`: the pairs of values to compare, if each
key is found. -/
def matchEntries (same : Value → Value → Option Bool) (entries : List Entry) :
    List Entry → Option (Option (List (Value × Value)))
  | [] => some (some [])
  | e :: rest =>
    match findEntry same (hashOf heap e.key) e.key 0 entries with
    | some (some index) =>
      match entries[index]?, matchEntries same entries rest with
      | some found, some (some pairs) => some (some ((e.value, found.value) :: pairs))
      | some _, some none => some none
      | _, _ => none
    | some none => some none
    | none => none

/-- What a comparison says: equal, unequal, or too deep to tell. -/
inductive Verdict
  | equal
  | unequal
  | tooDeep
  deriving DecidableEq, Repr

/-- A loop of comparisons, up to the first that does not say equal. -/
def compareAll (compare : Value → Value → Option Verdict) : List (Value × Value) → Option Verdict
  | [] => some .equal
  | pair :: rest =>
    match compare pair.1 pair.2 with
    | some .equal => compareAll compare rest
    | verdict => verdict

/-- The loop over the entries in `values_equal_at_depth`: a key is looked up when the values of the
entries before it are equal. -/
def compareEntries (same : Value → Value → Option Bool) (compare : Value → Value → Option Verdict)
    (entries : List Entry) : List Entry → Option Verdict
  | [] => some .equal
  | e :: rest =>
    match findEntry same (hashOf heap e.key) e.key 0 entries with
    | some (some index) =>
      match entries[index]? with
      | some found =>
        match compare e.value found.value with
        | some .equal => compareEntries same compare entries rest
        | verdict => verdict
      | none => none
    | some none => some .unequal
    | none => none

/-- The containers of two values that are not one object but of one kind. -/
inductive Containers
  | arrays (left right : List Value)
  | hashes (left right : List Entry)
  | none

def containersOf : Value → Value → Containers
  | .ref r, .ref r' =>
    if r = r' then .none
    else
      match heap[r]?, heap[r']? with
      | some (.array left), some (.array right) => .arrays left right
      | some (.hash left), some (.hash right) => .hashes left right
      | _, _ => .none
  | _, _ => .none

/-- The comparison of values that are not two containers of one kind. -/
def atomsEqual : Value → Value → Bool
  | .ref r, .ref r' => r == r'
  | left, right => leavesEqual left right

def equalAtDepth (same : Value → Value → Option Bool) : ℕ → Value → Value → Option Verdict
  | 0, left, right =>
    match containersOf heap left right with
    | .none => some (if atomsEqual left right then .equal else .unequal)
    | _ => some .tooDeep
  | levels + 1, left, right =>
    match containersOf heap left right with
    | .arrays values values' =>
      if values.length = values'.length then
        compareAll (equalAtDepth same levels) (values.zip values')
      else some .unequal
    | .hashes entries entries' =>
      if entries.length = entries'.length then
        compareEntries heap same (equalAtDepth same levels) entries' entries
      else some .unequal
    | .none => some (if atomsEqual left right then .equal else .unequal)

/-- A pair of values to compare, with its depth. -/
structure EqualPair where
  left : Value
  right : Value
  depth : ℕ

/-- The pairs that the parts of two containers give, on top of the stack. -/
def pushPairs (pairs : List (Value × Value)) (depth : ℕ) (stack : List EqualPair) :
    List EqualPair :=
  (pairs.map fun pair => ⟨pair.1, pair.2, depth + 1⟩).reverse ++ stack

/-- The loop of `values_equal_iterative`; `seen` has the deep pairs that were met. -/
def equalLoop (same : Value → Value → Option Bool) :
    ℕ → List (Value × Value) → List EqualPair → Option Bool
  | 0, _, _ => none
  | _ + 1, _, [] => some true
  | fuel + 1, seen, pair :: stack =>
    match containersOf heap pair.left pair.right with
    | .none =>
      if atomsEqual pair.left pair.right then equalLoop same fuel seen stack else some false
    | .arrays values values' =>
      if structuralMaxDepth ≤ pair.depth ∧ (pair.left, pair.right) ∈ seen then
        equalLoop same fuel seen stack
      else if values.length = values'.length then
        equalLoop same fuel
          (if structuralMaxDepth ≤ pair.depth then (pair.left, pair.right) :: seen else seen)
          (pushPairs (values.zip values') pair.depth stack)
      else some false
    | .hashes entries entries' =>
      if structuralMaxDepth ≤ pair.depth ∧ (pair.left, pair.right) ∈ seen then
        equalLoop same fuel seen stack
      else if entries.length = entries'.length then
        match matchEntries heap same entries' entries with
        | some (some pairs) =>
          equalLoop same fuel
            (if structuralMaxDepth ≤ pair.depth then (pair.left, pair.right) :: seen else seen)
            (pushPairs pairs pair.depth stack)
        | some none => some false
        | none => none
      else some false

/-- `values_equal`; `reentry` is `equal_reentry`. -/
def equalValues : ℕ → ℕ → Value → Value → Option Bool
  | 0, _, _, _ => none
  | fuel + 1, reentry, left, right =>
    match equalAtDepth heap (equalValues fuel reentry) equalFastDepth left right with
    | some .equal => some true
    | some .unequal => some false
    | some .tooDeep =>
      if structuralMaxDepth ≤ reentry then some false
      else equalLoop heap (equalValues fuel (reentry + 1)) fuel [] [⟨left, right, 0⟩]
    | none => none

/-! ## Lookups by bytes -/

/-- The comparison of `hash_find_string_bytes`. -/
def matchesBytes {V : Type*} (h : DiamondHash Value V) (bytes : List UInt8) (index : ℕ) : Bool :=
  match h.entries[index]? with
  | some entry =>
    entry.hash == hashBytes bytes &&
      match entry.key with
      | .leaf (.string chars) => chars.length == bytes.length && chars == bytes
      | _ => false
  | none => false

def hashFindStringBytes {V : Type*} (h : DiamondHash Value V) (bytes : List UInt8) : Option ℕ :=
  if h.bucketCapacity = 0 then none
  else Probing.search h.buckets (nextSlot h.bucketCapacity) (matchesBytes h bytes) h.bucketCapacity
    (homeSlot h.bucketCapacity (hashBytes bytes))

/-- A String is equal to the Strings with its bytes; no container is entered to find out. -/
lemma equalValues_string (fuel reentry : ℕ) (v : Value) (bytes : List UInt8) :
    equalValues heap (fuel + 1) reentry v (.leaf (.string bytes)) =
      some (v == .leaf (.string bytes)) := by
  have hcontainers : containersOf heap v (.leaf (.string bytes)) = .none := by
    cases v <;> rfl
  have hatoms : atomsEqual v (.leaf (.string bytes)) = (v == .leaf (.string bytes)) := by
    cases v with
    | leaf key =>
      cases key with
      | string =>
        rw [Bool.eq_iff_iff, beq_iff_eq, Value.leaf.injEq, Key.string.injEq]
        exact beq_iff_eq
      | _ => rfl
    | _ => rfl
  rw [equalValues, equalFastDepth, equalAtDepth, hcontainers, ← hatoms]
  cases atomsEqual v (.leaf (.string bytes)) <;> rfl

/-- Looking up bytes and looking up a String with these bytes visit the same buckets and stop at the
same entry, in any table and whatever else its keys are. -/
theorem hash_find_string_bytes_eq {V : Type*} (fuel reentry : ℕ) (h : DiamondHash Value V)
    (bytes : List UInt8) : hashFindStringBytes h bytes = hashFind (hashOf heap)
      (fun left right => equalValues heap (fuel + 1) reentry left right == some true) h
      (.leaf (.string bytes)) := by
  have hmatches : matchesBytes h bytes = matchesKey (hashOf heap)
      (fun left right => equalValues heap (fuel + 1) reentry left right == some true) h
      (.leaf (.string bytes)) := by
    funext index
    unfold matchesBytes matchesKey
    cases h.entries[index]? with
    | none => rfl
    | some entry =>
      have hkey : (equalValues heap (fuel + 1) reentry entry.key (.leaf (.string bytes)) ==
          some true) = (entry.key == .leaf (.string bytes)) := by
        rw [equalValues_string]
        cases entry.key == .leaf (.string bytes) <;> rfl
      simp only [hkey]
      refine congrArg₂ (· && ·) rfl ?_
      split
      · next _ hchars =>
        rw [hchars, Bool.eq_iff_iff]
        simp only [Bool.and_eq_true, beq_iff_eq, Value.leaf.injEq, Key.string.injEq]
        exact ⟨fun hand => hand.2, fun heq => ⟨congrArg List.length heq, heq⟩⟩
      · next hother =>
        refine (beq_eq_false_iff_ne.2 fun heq => ?_).symm
        exact hother bytes heq
  rw [hashFindStringBytes, hashFind, hmatches]
  rfl

end Diamond.Hash
