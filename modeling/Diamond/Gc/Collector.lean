import Diamond.Gc.Heap

/-!
# The two collections

Model of `mark_roots`, `sweep_list`, `diamond_vm_collect_impl` and `diamond_vm_collect_minor_impl`
in `src/vm_gc.c`, and the machine whose steps are allocations, writes, changes of the roots and
collections.

The program can only name what it can reach, so an allocation, a write or a new root uses values
reachable from the roots.  The marking of a collection is a finished run of the traversal of
`Diamond.Lib.Marking`.
-/

namespace Diamond.Gc

/-! ## Marking -/

def DiamondVm.references (vm : DiamondVm) (a : Address) : List Address :=
  match vm.heap a with
  | some object => object.payload.children.reduceOption
  | none => []

def DiamondVm.isString (vm : DiamondVm) (a : Address) : Bool :=
  match vm.heap a with
  | some object => object.payload = .string
  | none => false

lemma references_of_isString {vm : DiamondVm} {a} (h : vm.isString a = true) :
    vm.references a = [] := by
  unfold DiamondVm.isString at h
  unfold DiamondVm.references
  cases hobject : vm.heap a with
  | none => rfl
  | some object =>
    rw [hobject] at h
    have hpayload : object.payload = .string := of_decide_eq_true h
    dsimp only
    rw [hpayload]
    rfl

/-- The graph that `mark_object` walks; a minor collection does not enter old objects. -/
def DiamondVm.graph (vm : DiamondVm) (minor : Bool) : Marking.Graph Address where
  succ := vm.references
  skip a := minor && vm.isOld a
  leaf := vm.isString
  succ_leaf _ h := references_of_isString h

def dirtyValues (rows : List (List Value)) (cardCount : ℕ) (cards : List Bool) : List Value :=
  (List.range (min cardCount cards.length)).flatMap fun card =>
    if cards.getD card false then ((rows.drop (card * cardSize)).take cardSize).flatten else []

/-- `mark_remembered_set` on one object: the values it marks. -/
def Payload.rememberedValues (payload : Payload) : List Value :=
  match payload.storage? with
  | none => payload.children
  | some storage =>
    match storage.dirtyCards with
    | none => payload.children
    | some cards => dirtyValues payload.rows storage.cardCount cards

def DiamondVm.rememberedValues (vm : DiamondVm) (a : Address) : List Value :=
  match vm.heap a with
  | some object => object.payload.rememberedValues
  | none => []

/-- `mark_remembered_set`: the cards it scans are clean afterwards. -/
def Storage.clearCards (storage : Storage) : Storage :=
  { storage with
    dirtyCards := storage.dirtyCards.map fun cards =>
      cards.mapIdx fun card dirty => if card < storage.cardCount then false else dirty }

def DiamondVm.rootValues (vm : DiamondVm) (minor : Bool) : List Value :=
  vm.roots ++ if minor then vm.rememberedSet.flatMap vm.rememberedValues else []

def DiamondVm.isMarked (vm : DiamondVm) (a : Address) : Bool :=
  match vm.heap a with
  | some object => object.marked
  | none => false

def DiamondVm.markStart (vm : DiamondVm) (minor : Bool) : Marking.Trace Address :=
  ⟨vm.isMarked, [], false, (vm.rootValues minor).reduceOption.map .visit⟩

/-- The mark bits with which `mark_roots` can end. -/
def DiamondVm.Marks (vm : DiamondVm) (minor : Bool) (marked : Address → Bool) : Prop :=
  ∃ t, Marking.Run (vm.graph minor) (vm.markStart minor) t ∧ t.tasks = [] ∧ t.marked = marked

def DiamondVm.markRoots (vm : DiamondVm) (minor : Bool) (marked : Address → Bool) : DiamondVm :=
  { vm with
    heap := fun a => (vm.heap a).map fun o =>
      { o with
        marked := marked a
        payload :=
          if minor ∧ a ∈ vm.rememberedSet then o.payload.mapStorage Storage.clearCards
          else o.payload } }

/-! ## Sweeping -/

/-- The result of `sweep_list`: the heap, what is left of the list and the list promoted to. -/
structure Swept where
  heap : Address → Option DiamondObject
  kept : List Address
  promoted : List Address

/-- `sweep_list`; `promote` tells whether there is a list to promote to. -/
def sweepList (promote : Bool) (heap : Address → Option DiamondObject) (promoteTo : List Address) :
    List Address → Swept
  | [] => ⟨heap, [], promoteTo⟩
  | a :: rest =>
    match heap a with
    | none => sweepList promote heap promoteTo rest
    | some object =>
      if object.marked then
        if promote then
          sweepList promote
            (Function.update heap a (some { object with marked := false, old := true }))
            (a :: promoteTo) rest
        else
          let swept := sweepList promote
            (Function.update heap a (some { object with marked := false })) promoteTo rest
          { swept with kept := a :: swept.kept }
      else
        sweepList promote (Function.update heap a none) promoteTo rest

/-- `diamond_vm_collect_impl`. -/
def DiamondVm.collectMajor (vm : DiamondVm) (marked : Address → Bool) : DiamondVm :=
  let vm := vm.markRoots false marked
  let young := sweepList false vm.heap [] vm.youngObjects
  let old := sweepList false young.heap [] vm.oldObjects
  { vm with
    heap := old.heap
    youngObjects := young.kept
    oldObjects := old.kept
    rememberedSet := vm.rememberedSet.filter vm.isMarked }

/-- `diamond_vm_collect_minor_impl`. -/
def DiamondVm.collectMinor (vm : DiamondVm) (marked : Address → Bool) : DiamondVm :=
  let vm := vm.markRoots true marked
  let young := sweepList true vm.heap vm.oldObjects vm.youngObjects
  { vm with heap := young.heap, youngObjects := young.kept, oldObjects := young.promoted }

/-! ## The machine -/

inductive DiamondVm.Reachable (vm : DiamondVm) : Address → Prop
  | root {a} (ha : some a ∈ vm.roots) : vm.Reachable a
  | child {a b object} (ha : vm.Reachable a) (hobject : vm.heap a = some object)
      (hb : some b ∈ object.payload.children) : vm.Reachable b

/-- The program can name a value: it is no object, or one that can be reached. -/
def DiamondVm.Names (vm : DiamondVm) (value : Value) : Prop := ∀ a, value = some a → vm.Reachable a

def Payload.Fits (payload : Payload) : Prop :=
  ∀ storage, payload.storage? = some storage → payload.rows.length ≤ storage.capacity

/-- A payload as the allocation functions build it. -/
def Payload.Fresh (payload : Payload) : Prop :=
  payload.Fits ∧ ∀ storage, payload.storage? = some storage → storage.dirtyCards = none

def DiamondVm.allocate (vm : DiamondVm) (a : Address) (payload : Payload) : DiamondVm :=
  { vm with
    heap := Function.update vm.heap a (some ⟨payload, false, false, false⟩)
    youngObjects := a :: vm.youngObjects
    roots := some a :: vm.roots }

inductive Step (vm : DiamondVm) : DiamondVm → Prop
  | allocate (a : Address) (payload : Payload) (hfree : vm.heap a = none) (hfresh : payload.Fresh)
      (hnames : ∀ v ∈ payload.children, vm.Names v) : Step vm (vm.allocate a payload)
  | write {vm'} (a : Address) (w : Write) (ha : vm.Reachable a) (hnames : ∀ v ∈ w.values, vm.Names v)
      (hwrite : vm.write a w = some vm') : Step vm vm'
  | setRoots (roots : List Value) (hnames : ∀ v ∈ roots, vm.Names v) :
      Step vm { vm with roots := roots }
  | minor (marked : Address → Bool) (hmarks : vm.Marks true marked) : Step vm (vm.collectMinor marked)
  | major (marked : Address → Bool) (hmarks : vm.Marks false marked) : Step vm (vm.collectMajor marked)

def emptyVm : DiamondVm := ⟨fun _ => none, [], [], [], []⟩

def machine : Machine DiamondVm where
  initial vm := vm = emptyVm
  step := Step

end Diamond.Gc
