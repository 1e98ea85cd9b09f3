import Diamond.Lib.Marking
import Diamond.Lib.Transition

/-!
# The generational heap

Model of the collector in `src/vm_gc.c`: `mark_object`, `mark_remembered_set`, `mark_roots`,
`sweep_list`, the two collections and the write barriers; and of the writes that use the barriers:
`array_push` and `diamond_jit_index_set` in `src/vm_collections.c`, `hash_set` and `hash_delete` in
`src/vm_values.c` (for what they do to the entries), and `diamond_jit_set_ivar` in `src/vm.c`.

An object is its header and the references it holds.  A value is the address of an object, or `none`
for everything that is not an object.  The kinds other than String, Symbol, Array and Hash differ
only in how `mark_object_children` finds their references; they are one case with a list of them.

A write names the slot it changes: an index is the one left after counting from the end and the
bounds check, and for a Hash the one `hash_find` returns.  A value that `pop` or `delete` takes out
is in a register, so among the roots, before the write.

An allocation that a barrier or a growing container needs and does not get ends the program with
`DIAMOND_VM_OUT_OF_MEMORY`; the runs here are the others.  Growth of the mark stack may fail at any
time, which only changes the order of marking.
-/

namespace Diamond.Gc

abbrev Address := ℕ

abbrev Value := Option Address

/-- `DIAMOND_GC_CARD_SIZE`. -/
def cardSize : ℕ := 64

/-- The storage of an Array or Hash: its capacity, and its card table once it has one. -/
structure Storage where
  capacity : ℕ
  dirtyCards : Option (List Bool)
  deriving DecidableEq, Repr

inductive Payload
  | string
  | slots (values : List Value)
  | array (values : List Value) (storage : Storage)
  | hash (entries : List (Value × Value)) (storage : Storage)
  deriving DecidableEq, Repr

structure DiamondObject where
  payload : Payload
  marked : Bool
  old : Bool
  remembered : Bool
  deriving DecidableEq, Repr

/-- `DiamondVm`, with the root values of `mark_roots` as one list. -/
structure DiamondVm where
  heap : Address → Option DiamondObject
  youngObjects : List Address
  oldObjects : List Address
  rememberedSet : List Address
  roots : List Value

def Payload.rows : Payload → List (List Value)
  | .array values _ => values.map fun v => [v]
  | .hash entries _ => entries.map fun e => [e.1, e.2]
  | _ => []

/-- `mark_object_children`: the values it marks. -/
def Payload.children : Payload → List Value
  | .string => []
  | .slots values => values
  | .array values _ => values
  | .hash entries _ => entries.flatMap fun e => [e.1, e.2]

def Payload.storage? : Payload → Option Storage
  | .array _ storage => some storage
  | .hash _ storage => some storage
  | _ => none

def Storage.cardCount (storage : Storage) : ℕ := (storage.capacity + cardSize - 1) / cardSize

/-! ## Write barriers -/

def DiamondVm.update (vm : DiamondVm) (a : Address) (f : DiamondObject → DiamondObject) : DiamondVm :=
  { vm with heap := Function.update vm.heap a ((vm.heap a).map f) }

def Storage.markCardDirty (storage : Storage) (index : ℕ) : Storage :=
  let cards :=
    match storage.dirtyCards with
    | none => List.replicate (if storage.cardCount = 0 then 1 else storage.cardCount) false
    | some cards =>
      if storage.cardCount > cards.length then
        cards ++ List.replicate (storage.cardCount - cards.length) false
      else
        cards
  { storage with dirtyCards := some (cards.set (index / cardSize) true) }

def Payload.mapStorage (f : Storage → Storage) : Payload → Payload
  | .array values storage => .array values (f storage)
  | .hash entries storage => .hash entries (f storage)
  | p => p

def DiamondVm.gcWriteBarrier (vm : DiamondVm) (owner : Address) : DiamondVm :=
  match vm.heap owner with
  | none => vm
  | some object =>
    if object.old ∧ ¬object.remembered then
      { vm.update owner (fun o => { o with remembered := true }) with
        rememberedSet := vm.rememberedSet ++ [owner] }
    else
      vm

def DiamondVm.markCardDirty (vm : DiamondVm) (owner : Address) (index : ℕ) : DiamondVm :=
  vm.update owner fun o => { o with payload := o.payload.mapStorage (·.markCardDirty index) }

def DiamondVm.isOld (vm : DiamondVm) (a : Address) : Bool :=
  match vm.heap a with
  | some object => object.old
  | none => false

def DiamondVm.gcWriteBarrierIndex (vm : DiamondVm) (owner : Address) (index : ℕ) : DiamondVm :=
  if vm.isOld owner then (vm.gcWriteBarrier owner).markCardDirty owner index else vm

/-- The loop of `gc_write_barrier_range`: the cards from `card`, `count` of them. -/
def DiamondVm.markCardsDirty (vm : DiamondVm) (owner : Address) : ℕ → ℕ → DiamondVm
  | _, 0 => vm
  | card, count + 1 =>
    (vm.markCardDirty owner (card * cardSize)).markCardsDirty owner (card + 1) count

def DiamondVm.gcWriteBarrierRange (vm : DiamondVm) (owner : Address) (start count : ℕ) : DiamondVm :=
  if vm.isOld owner then
    if count = 0 then vm.gcWriteBarrier owner
    else
      let first := start / cardSize
      let last := (start + count - 1) / cardSize
      (vm.gcWriteBarrier owner).markCardsDirty owner first (last + 1 - first)
  else
    vm

/-! ## Writes -/

/-- The growth of `array_push` and of `hash_set` when the container is full. -/
def Storage.grow (storage : Storage) (count : ℕ) : Storage :=
  if count = storage.capacity then
    { storage with capacity := if storage.capacity < 8 then 8 else storage.capacity * 2 }
  else
    storage

def DiamondVm.setPayload (vm : DiamondVm) (a : Address) (payload : Payload) : DiamondVm :=
  vm.update a fun o => { o with payload := payload }

inductive Write
  | field (index : ℕ) (value : Value)
  | arraySet (index : ℕ) (value : Value)
  | arrayRange (start : ℕ) (values : List Value)
  | arrayPush (value : Value)
  | arrayPop
  | hashOverwrite (index : ℕ) (value : Value)
  | hashInsert (key value : Value)
  | hashDelete (index : ℕ)
  | hashClear

def Write.values : Write → List Value
  | .field _ value => [value]
  | .arraySet _ value => [value]
  | .arrayRange _ values => values
  | .arrayPush value => [value]
  | .arrayPop => []
  | .hashOverwrite _ value => [value]
  | .hashInsert key value => [key, value]
  | .hashDelete _ => []
  | .hashClear => []

def setRange (values : List Value) (start : ℕ) : List Value → List Value
  | [] => values
  | v :: rest => setRange (values.set start v) (start + 1) rest

/-- A write with its barrier; `none` if the object is of another kind or has no such slot. -/
def DiamondVm.write (vm : DiamondVm) (a : Address) (w : Write) : Option DiamondVm :=
  match vm.heap a with
  | none => none
  | some object =>
    match object.payload, w with
    | .slots values, .field index value =>
      if index < values.length then
        some ((vm.setPayload a (.slots (values.set index value))).gcWriteBarrier a)
      else none
    | .array values storage, .arraySet index value =>
      if index < values.length then
        some ((vm.setPayload a (.array (values.set index value) storage)).gcWriteBarrierIndex a index)
      else none
    | .array values storage, .arrayRange start replacement =>
      if start + replacement.length ≤ values.length then
        some ((vm.setPayload a (.array (setRange values start replacement) storage)).gcWriteBarrierRange
          a start replacement.length)
      else none
    | .array values storage, .arrayPush value =>
      some ((vm.setPayload a
        (.array (values ++ [value]) (storage.grow values.length))).gcWriteBarrierIndex a values.length)
    | .array values storage, .arrayPop =>
      some (vm.setPayload a (.array values.dropLast storage))
    | .hash entries storage, .hashOverwrite index value =>
      if index < entries.length then
        some ((vm.setPayload a (.hash (entries.modify index fun e => (e.1, value))
          storage)).gcWriteBarrierIndex a index)
      else none
    | .hash entries storage, .hashInsert key value =>
      some ((vm.setPayload a (.hash (entries ++ [(key, value)])
        (storage.grow entries.length))).gcWriteBarrierIndex a entries.length)
    | .hash entries storage, .hashDelete index =>
      if index < entries.length then
        some ((vm.setPayload a (.hash (entries.eraseIdx index) storage)).gcWriteBarrierRange a index
          (entries.length - 1 - index))
      else none
    | .hash _ storage, .hashClear => some (vm.setPayload a (.hash [] storage))
    | _, _ => none

end Diamond.Gc
