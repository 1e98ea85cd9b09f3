import Diamond.Lib.Probing
import Mathlib.Data.UInt

/-!
# The hash table

Model of `hash_rehash`, `hash_find`, `hash_set`, `hash_delete` and `hash_clone_contents` in
`src/vm_values.c`, and of `Hash#clear` in `src/vm_collections.c`.

The table is generic in its keys: `hash` stands for `hash_value` and `equal` for `values_equal`, any
functions of the key.  The first `count` entries are a list and the bucket table is a list of
optional indices (`SIZE_MAX` is `none`).  A loop that looks for an empty bucket is followed once
round the table; `none` says that it would go round for ever.

A call may run out of memory at each of its allocations.  `Memory` tells which of them succeed, and
the operations return the table they leave with the source's `bool`.
-/

namespace Diamond.Hash
open Probing

structure DiamondHashEntry (K V : Type*) where
  key : K
  value : V
  hash : UInt64
  deriving DecidableEq, Repr

structure DiamondHash (K V : Type*) where
  entries : List (DiamondHashEntry K V)
  capacity : ℕ
  buckets : List (Option ℕ)
  deriving DecidableEq, Repr

/-- The allocations of a call that succeed: of the entries, of the bucket table, and of the dirty
cards or the remembered set in the write barrier. -/
structure Memory where
  entries : Bool
  buckets : Bool
  barrier : Bool
  deriving DecidableEq, Repr

variable {K V : Type*}

def DiamondHash.count (h : DiamondHash K V) : ℕ := h.entries.length

def DiamondHash.bucketCapacity (h : DiamondHash K V) : ℕ := h.buckets.length

def allocateHash : DiamondHash K V := ⟨[], 0, []⟩

/-- `(slot+1)&(capacity-1)`. -/
def nextSlot (capacity slot : ℕ) : ℕ := (slot + 1) &&& (capacity - 1)

/-- `hash&(capacity-1)`. -/
def homeSlot (capacity : ℕ) (hash : UInt64) : ℕ := hash.toNat &&& (capacity - 1)

/-- Puts `index` into the first empty bucket from the home of `hash`. -/
def placeIndex (buckets : List (Option ℕ)) (hash : UInt64) (index : ℕ) : Option (List (Option ℕ)) :=
  match firstFree buckets (nextSlot buckets.length) buckets.length (homeSlot buckets.length hash) with
  | none => none
  | some slot => some (buckets.set slot (some index))

def rehashLoop : List (DiamondHashEntry K V) → ℕ → List (Option ℕ) → Option (List (Option ℕ))
  | [], _, buckets => some buckets
  | entry :: rest, index, buckets =>
    match placeIndex buckets entry.hash index with
    | none => none
    | some buckets => rehashLoop rest (index + 1) buckets

def hashRehash (mem : Memory) (h : DiamondHash K V) (newCapacity : ℕ) :
    Option (DiamondHash K V × Bool) :=
  if mem.buckets then
    match rehashLoop h.entries 0 (List.replicate newCapacity none) with
    | none => none
    | some buckets => some ({ h with buckets := buckets }, true)
  else
    some (h, false)

variable (hash : K → UInt64) (equal : K → K → Bool)

/-- The comparison of `hash_find`: the entry at `index` is the one for `key`. -/
def matchesKey (h : DiamondHash K V) (key : K) (index : ℕ) : Bool :=
  match h.entries[index]? with
  | some entry => entry.hash == hash key && equal entry.key key
  | none => false

/-- `hash_find`; `none` is `-1`. -/
def hashFind (h : DiamondHash K V) (key : K) : Option ℕ :=
  if h.bucketCapacity = 0 then none
  else search h.buckets (nextSlot h.bucketCapacity) (matchesKey hash equal h key) h.bucketCapacity
    (homeSlot h.bucketCapacity (hash key))

/-- The value at a key, as `diamond_jit_index_get` reads it. -/
def hashLookup (h : DiamondHash K V) (key : K) : Option V :=
  match hashFind hash equal h key with
  | none => none
  | some index => (h.entries[index]?).map DiamondHashEntry.value

/-- `hash_set` when the entries are full: `realloc` to twice the capacity, or to eight. -/
def growEntries (mem : Memory) (h : DiamondHash K V) : DiamondHash K V × Bool :=
  if h.count = h.capacity then
    if mem.entries then ({ h with capacity := if h.capacity < 8 then 8 else h.capacity * 2 }, true)
    else (h, false)
  else
    (h, true)

/-- `hash_set` when the new entry would fill three quarters of the buckets. -/
def growBuckets (mem : Memory) (h : DiamondHash K V) : Option (DiamondHash K V × Bool) :=
  if h.bucketCapacity = 0 ∨ (h.count + 1) * 4 ≥ h.bucketCapacity * 3 then
    hashRehash mem h (if h.bucketCapacity = 0 then 8 else h.bucketCapacity * 2)
  else
    some (h, true)

/-- `hash_set` from the point where there is room. -/
def hashAppend (mem : Memory) (h : DiamondHash K V) (key : K) (value : V) :
    Option (DiamondHash K V × Bool) :=
  match placeIndex h.buckets (hash key) h.count with
  | none => none
  | some buckets =>
    some ({ h with entries := h.entries ++ [⟨key, value, hash key⟩], buckets := buckets },
      mem.barrier)

def hashSet (mem : Memory) (h : DiamondHash K V) (key : K) (value : V) :
    Option (DiamondHash K V × Bool) :=
  match hashFind hash equal h key with
  | some existing =>
    some ({ h with entries := h.entries.modify existing fun e => { e with value := value } },
      mem.barrier)
  | none =>
    match growEntries mem h with
    | (h, false) => some (h, false)
    | (h, true) =>
      match growBuckets mem h with
      | none => none
      | some (h, false) => some (h, false)
      | some (h, true) => hashAppend hash mem h key value

/-- `hash_delete`, with the removed value. -/
def hashDelete (mem : Memory) (h : DiamondHash K V) (key : K) :
    Option (DiamondHash K V × Option V × Bool) :=
  match hashFind hash equal h key with
  | none => some (h, none, true)
  | some index =>
    match hashRehash mem { h with entries := h.entries.eraseIdx index } h.bucketCapacity with
    | none => none
    | some (h', ok) => some (h', (h.entries[index]?).map DiamondHashEntry.value, ok && mem.barrier)

def hashClear (h : DiamondHash K V) : DiamondHash K V :=
  { h with entries := [], buckets := List.replicate h.bucketCapacity none }

def hashCloneContents (mem : Memory) (source : DiamondHash K V) : DiamondHash K V × Bool :=
  if source.count = 0 then (allocateHash, true)
  else if mem.entries ∧ mem.buckets then
    (⟨source.entries, source.count, source.buckets⟩, true)
  else
    (allocateHash, false)

end Diamond.Hash
