import Diamond.Hash.Table
import Diamond.Lib.Transition

/-!
# Objects that can be frozen

The objects with a meaningful `frozen` flag (`src/object.h`): Arrays, Hashes and Instances.  Model
of `array_push`, `array_value_satisfies_constraints`, `hash_entry_satisfies_constraints` and
`resolve_array_range` in `src/vm_collections.c`, and of `diamond_jit_dup`, `diamond_jit_freeze` and
`diamond_deep_freeze` in `src/vm_values.c`.

The heap is a list that allocation extends; an address is a position in it.  What the functions read
of the program and of the values is an `Environment`.  `Memory` tells which allocations of a call
succeed.  The Hash is the table of `Diamond.Hash.Table`.
-/

namespace Diamond.Freeze

open Hash (DiamondHash hashSet hashDelete hashClear hashCloneContents placeIndex homeSlot nextSlot)
open Probing (search)

abbrev Address := ℕ

/-- `DiamondValue`; `other` stands for Floats and the like. -/
inductive DiamondValue
  | nil
  | boolean (value : Bool)
  | integer (value : ℤ)
  | other (bits : UInt64)
  | object (address : Address)
  deriving DecidableEq, Repr

/-- `DiamondArray`; a constraint is a type set. -/
structure DiamondArray where
  values : List DiamondValue
  capacity : ℕ
  constraints : List ℕ
  deriving DecidableEq, Repr

/-- What an object holds; only the kinds that the functions here tell apart. -/
inductive Payload
  | string
  | bignum
  | array (array : DiamondArray)
  | hash (table : DiamondHash DiamondValue DiamondValue) (constraints : List (ℕ × ℕ))
  | inst (cls : ℕ) (fields : List DiamondValue)
  | other
  deriving DecidableEq, Repr

structure DiamondObject where
  frozen : Bool
  payload : Payload
  deriving DecidableEq, Repr

structure DiamondVm where
  heap : List DiamondObject
  deriving DecidableEq, Repr

/-- The allocations of a call that succeed: those of the table and the write barrier, and those of
new objects. -/
structure Memory extends Hash.Memory where
  object : Bool

/-- The methods of Arrays and Hashes that are native, and those that every object has. -/
inductive Method
  | push
  | pop
  | clear
  | delete
  | dup
  | freeze
  | deepFreeze
  deriving DecidableEq, Repr

inductive CollectionKind
  | array
  | hash
  deriving DecidableEq, Repr

structure Environment where
  hashValue : DiamondVm → DiamondValue → UInt64
  valuesEqual : DiamondVm → DiamondValue → DiamondValue → Bool
  /-- `value_matches_set` -/
  matchesSet : DiamondVm → DiamondValue → ℕ → Bool
  /-- `diamond_format_value_type` -/
  formatType : DiamondVm → DiamondValue → String
  rangeClass : Option ℕ
  /-- The payload of a value read as `as.integer` and as `as.boolean`, whatever its kind. -/
  asInteger : DiamondValue → ℤ
  asBoolean : DiamondValue → Bool
  isException : ℕ → Bool
  /-- `lookup_method` finds a method of the class. -/
  hasMethod : ℕ → String → Bool
  fieldIndex : ℕ → String → Option ℕ
  hasSuperclass : ℕ → Bool
  superHasMethod : ℕ → String → Bool
  superIsException : ℕ → Bool
  /-- A function of the program or of the prelude stands for the method. -/
  extension : CollectionKind → Method → Bool
  extensionCached : CollectionKind → Method → Bool
  /-- What `diamond_append_method_suggestion` adds to the text for an undefined method. -/
  suggestion : CollectionKind → Method → String

inductive Status
  | typeError
  | indexError
  | arityError
  | frozenError
  | integerOverflow
  | invalidBytecode
  | outOfMemory
  | exception
  deriving DecidableEq, Repr

/-- What an operation comes to: it completes, with the value for its destination if it has one; it
fails, with the text of `vm->error` if it sets one; or it leaves the call to a function of the
program, whose operations follow, or to a method of another kind of receiver. -/
inductive Outcome
  | ok (result : Option DiamondValue)
  | failed (status : Status) (error : Option String)
  | calls
  deriving DecidableEq, Repr

/-! ## The heap -/

def DiamondVm.object? (vm : DiamondVm) : DiamondValue → Option (Address × DiamondObject)
  | .object a => (vm.heap[a]?).map fun o => (a, o)
  | _ => none

def DiamondVm.store (vm : DiamondVm) (a : Address) (payload : Payload) : DiamondVm :=
  ⟨vm.heap.modify a fun o => { o with payload := payload }⟩

def DiamondVm.setFrozen (vm : DiamondVm) (a : Address) : DiamondVm :=
  ⟨vm.heap.modify a fun o => { o with frozen := true }⟩

/-- A new object, at the address `vm.heap.length`. -/
def DiamondVm.allocate (vm : DiamondVm) (payload : Payload) : DiamondVm :=
  ⟨vm.heap ++ [⟨false, payload⟩]⟩

/-- The end of a call whose last step is a write barrier. -/
def afterBarrier (mem : Memory) (result : Option DiamondValue) : Outcome :=
  if mem.barrier then .ok result else .failed .outOfMemory none

/-! ## Arrays and Hashes -/

section

variable (env : Environment) (mem : Memory) (vm : DiamondVm)

def arrayValueSatisfiesConstraints (array : DiamondArray) (value : DiamondValue) : Bool :=
  array.constraints.all fun set => env.matchesSet vm value set

def hashEntrySatisfiesConstraints (constraints : List (ℕ × ℕ)) (key value : DiamondValue) : Bool :=
  constraints.all fun sets => env.matchesSet vm key sets.1 && env.matchesSet vm value sets.2

/-- `SIZE_MAX/2/sizeof(DiamondValue)`. -/
def arrayCapacityLimit : ℕ := (2 ^ 64 - 1) / 2 / 16

def arrayPush (a : Address) (array : DiamondArray) (value : DiamondValue) : DiamondVm × Bool :=
  if array.values.length = array.capacity then
    if array.capacity > arrayCapacityLimit ∨ ¬mem.entries then
      (vm, false)
    else
      (vm.store a (.array { array with
        values := array.values ++ [value]
        capacity := if array.capacity < 8 then 8 else array.capacity * 2 }), mem.barrier)
  else
    (vm.store a (.array { array with values := array.values ++ [value] }), mem.barrier)

/-- The end of a call whose last step is an `array_push`. -/
def afterPush (result : DiamondValue) (pushed : DiamondVm × Bool) : Outcome × DiamondVm :=
  (if pushed.2 then .ok (some result) else .failed .outOfMemory none, pushed.1)

def outOfBounds (index : ℤ) (count : ℕ) : String :=
  "index " ++ toString index ++ " out of bounds for Array of length " ++ toString count

/-- `resolve_array_range` for an Array: `none` if the index is no Range, else the start and the
length or the text of the error. -/
def resolveArrayRange (index : DiamondValue) (count : ℕ) : Option (Except String (ℕ × ℕ)) :=
  match vm.object? index with
  | some (_, ⟨_, .inst cls fields⟩) =>
    if env.rangeClass ≠ some cls then
      none
    else
      let originalStart := env.asInteger (fields.getD 0 .nil)
      let bound := fields.getD 1 .nil
      let endless := match bound with
        | .integer _ => false
        | _ => true
      let originalStop := if endless then -1 else env.asInteger bound
      let exclusive := !endless && env.asBoolean (fields.getD 2 .nil)
      let start := if originalStart < 0 then originalStart + count else originalStart
      let stop := if originalStop < 0 then originalStop + count else originalStop
      if start < 0 ∨ start > count then
        some (.error (outOfBounds originalStart count))
      else
        let available := count - start.toNat
        let requested :=
          if stop < start then 0 else (stop - start).toNat + if exclusive then 0 else 1
        some (.ok (start.toNat, min requested available))
  | _ => none

/-! ## `dup`, `freeze` and `deep_freeze` -/

def diamondJitDup (receiver : DiamondValue) : Outcome × DiamondVm :=
  match vm.object? receiver with
  | none => (.ok (some receiver), vm)
  | some (_, object) =>
    match object.payload with
    | .string => (.ok (some receiver), vm)
    | .array array =>
      if mem.object then
        (.ok (some (.object vm.heap.length)),
          vm.allocate (.array ⟨array.values, array.values.length, []⟩))
      else
        (.failed .outOfMemory none, vm)
    | .hash table _ =>
      if mem.object then
        match hashCloneContents mem.toMemory table with
        | (copy, true) => (.ok (some (.object vm.heap.length)), vm.allocate (.hash copy []))
        | (copy, false) => (.failed .outOfMemory none, vm.allocate (.hash copy []))
      else
        (.failed .outOfMemory none, vm)
    | .inst cls fields =>
      if env.hasMethod cls "dup" then
        (.calls, vm)
      else if mem.object then
        (.ok (some (.object vm.heap.length)), vm.allocate (.inst cls fields))
      else
        (.failed .outOfMemory none, vm)
    | .bignum | .other => (.failed .typeError none, vm)

def diamondJitFreeze (receiver : DiamondValue) : Outcome × DiamondVm :=
  match vm.object? receiver with
  | none => (.ok (some receiver), vm)
  | some (a, object) =>
    match object.payload with
    | .string => (.ok (some receiver), vm)
    | .array _ | .hash _ _ => (.ok (some receiver), vm.setFrozen a)
    | .inst cls _ =>
      if env.hasMethod cls "freeze" then (.calls, vm) else (.ok (some receiver), vm.setFrozen a)
    | .bignum | .other => (.failed .typeError none, vm)

/-- The values a deep freeze visits from an object; `none` for the kinds it skips. -/
def Payload.visited : Payload → Option (List DiamondValue)
  | .array elements => some elements.values
  | .hash table _ => some (table.entries.flatMap fun entry => [entry.key, entry.value])
  | .inst _ fields => some fields
  | .string | .bignum | .other => none

/-- The two tables of a walk: an open-addressing table of the objects seen, and a stack. -/
structure DeepFreezeWalk where
  visited : List (Option Address)
  visitedCount : ℕ
  stack : List Address
  stackCapacity : ℕ
  deriving DecidableEq, Repr

/-- Where the objects are in memory, and for which sizes the two tables can be allocated. -/
structure WalkMemory where
  pointer : Address → UInt64
  visited : ℕ → Bool
  stack : ℕ → Bool
  deriving Inhabited

/-- Why a visit does not return: a search for a slot goes on for ever, or it returns `-1`. -/
inductive WalkStop
  | endless
  | outOfMemory
  deriving DecidableEq, Repr

/-- The product in `deep_freeze_slot`; the slot is `homeSlot` of it. -/
def deepFreezeHash (memory : WalkMemory) (a : Address) : UInt64 :=
  (memory.pointer a >>> 4) * 11400714819323198485

/-- The objects of the old table are put into an empty one of the new capacity. -/
def deepFreezeRehash (memory : WalkMemory) (capacity : ℕ) (visited : List (Option Address)) :
    Option (List (Option Address)) :=
  (visited.filterMap id).foldlM (fun grown a => placeIndex grown (deepFreezeHash memory a) a)
    (List.replicate capacity none)

def deepFreezeGrow (memory : WalkMemory) (walk : DeepFreezeWalk) : Except WalkStop DeepFreezeWalk :=
  if walk.visitedCount * 2 ≥ walk.visited.length then
    let capacity := if walk.visited.length = 0 then 64 else walk.visited.length * 2
    if memory.visited capacity then
      match deepFreezeRehash memory capacity walk.visited with
      | none => .error .endless
      | some visited => .ok { walk with visited }
    else .error .outOfMemory
  else .ok walk

def deepFreezePush (memory : WalkMemory) (walk : DeepFreezeWalk) (a : Address) :
    Except WalkStop DeepFreezeWalk :=
  if walk.stack.length = walk.stackCapacity then
    let capacity := if walk.stackCapacity = 0 then 64 else walk.stackCapacity * 2
    if memory.stack capacity then
      .ok { walk with stack := a :: walk.stack, stackCapacity := capacity }
    else .error .outOfMemory
  else .ok { walk with stack := a :: walk.stack }

/-- The end of `deep_freeze_visit`: an object that is not in the table yet is put into it and onto the
stack. -/
def deepFreezeEnter (memory : WalkMemory) (walk : DeepFreezeWalk) (a : Address) :
    Except WalkStop DeepFreezeWalk :=
  let capacity := walk.visited.length
  if (search walk.visited (nextSlot capacity) (· == a) capacity
      (homeSlot capacity (deepFreezeHash memory a))).isSome then
    .ok walk
  else
    match placeIndex walk.visited (deepFreezeHash memory a) a with
    | none => .error .endless
    | some visited =>
      deepFreezePush memory { walk with visited, visitedCount := walk.visitedCount + 1 } a

def deepFreezeVisit (memory : WalkMemory) (walk : DeepFreezeWalk) (value : DiamondValue) :
    Except WalkStop DeepFreezeWalk :=
  match vm.object? value with
  | none => .ok walk
  | some (a, object) =>
    if object.payload.visited = none then
      .ok walk
    else
      match deepFreezeGrow memory walk with
      | .error stop => .error stop
      | .ok walk => deepFreezeEnter memory walk a

end

/-- The loop of `diamond_deep_freeze`; `none` says that it has not come to its end. -/
def deepFreezeLoop (memory : WalkMemory) :
    ℕ → DiamondVm → DeepFreezeWalk → Option (Bool × DiamondVm)
  | 0, _, _ => none
  | fuel + 1, vm, walk =>
    match walk.stack with
    | [] => some (true, vm)
    | a :: stack =>
      let vm := vm.setFrozen a
      let values := ((vm.heap[a]?).bind fun o => o.payload.visited).getD []
      match values.foldlM (deepFreezeVisit vm memory) { walk with stack := stack } with
      | .error .endless => none
      | .error .outOfMemory => some (false, vm)
      | .ok walk => deepFreezeLoop memory fuel vm walk

def diamondDeepFreeze (memory : WalkMemory) (vm : DiamondVm) (receiver : DiamondValue) :
    Option (Outcome × DiamondVm) :=
  match deepFreezeVisit vm memory ⟨[], 0, [], 0⟩ receiver with
  | .error .endless => none
  | .error .outOfMemory => some (.failed .outOfMemory none, vm)
  | .ok walk =>
    match deepFreezeLoop memory (vm.heap.length + 1) vm walk with
    | none => none
    | some (true, vm) => some (.ok (some receiver), vm)
    | some (false, vm) => some (.failed .outOfMemory none, vm)

end Diamond.Freeze
