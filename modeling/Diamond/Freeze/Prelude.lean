import Diamond.Freeze.Writes

/-!
# The prelude's methods that change an Array or Hash

Model of `array_delete_at`, `array_swap_first_two`, `diamond_array_insert`, `diamond_array_unshift`,
`diamond_array_shift`, `diamond_array_clear`, `diamond_array_replace`, `diamond_array_delete`,
`diamond_array_fill` and `diamond_hash_update` in `lib/core.d6`, as scripts of the operations they
are made of.  `delete_if` and `keep_if` are `replace` with an Array that a block has chosen.

A loop has fuel for one more turn than it can make.  A script ends where an operation fails, and
where the program has its own `push` or `pop`, which it calls instead.
-/

namespace Diamond.Freeze

open List DiamondVm

open Relation (ReflTransGen)

inductive Primitive
  | push (values value : DiamondValue)
  | pop (values : DiamondValue)
  | set (values index value : DiamondValue)
  | newArray
  | dup (values : DiamondValue)

def Primitive.operation : Primitive → Operation
  | .push values value => .invoke default values .push [value]
  | .pop values => .invoke default values .pop []
  | .set values index value => .indexSet values index value
  | .newArray => .allocate (.array ⟨[], 0, []⟩)
  | .dup values => .invoke default values .dup []

/-- A function of the prelude: it writes, reads a length, an element or an entry in range, compares,
and comes to a value or raises. -/
inductive Script
  | done (value : DiamondValue)
  | raises (status : Status) (text : String)
  | outOfFuel
  | perform (primitive : Primitive) (next : DiamondValue → Script)
  | length (values : DiamondValue) (next : ℕ → Script)
  | element (values : DiamondValue) (index : ℕ) (next : DiamondValue → Script)
  | entry (values : DiamondValue) (index : ℕ) (next : DiamondValue → DiamondValue → Script)
  | equal (left right : DiamondValue) (next : Bool → Script)

def DiamondVm.count? (vm : DiamondVm) (values : DiamondValue) : Option ℕ :=
  match vm.object? values with
  | some (_, ⟨_, .array array⟩) => some array.values.length
  | some (_, ⟨_, .hash table _⟩) => some table.count
  | _ => none

def DiamondVm.element? (vm : DiamondVm) (values : DiamondValue) (index : ℕ) : Option DiamondValue :=
  match vm.object? values with
  | some (_, ⟨_, .array array⟩) => array.values[index]?
  | _ => none

def DiamondVm.entry? (vm : DiamondVm) (values : DiamondValue) (index : ℕ) :
    Option (DiamondValue × DiamondValue) :=
  match vm.object? values with
  | some (_, ⟨_, .hash table _⟩) => (table.entries[index]?).map fun e => (e.key, e.value)
  | _ => none

def Script.run (env : Environment) (mem : Memory) : Script → DiamondVm → Option (Outcome × DiamondVm)
  | .done value, vm => some (.ok (some value), vm)
  | .raises status text, vm => some (.failed status (some text), vm)
  | .outOfFuel, _ => none
  | .perform primitive next, vm =>
    match execute env mem vm primitive.operation with
    | none => none
    | some (.ok result, vm) => (next (result.getD .nil)).run env mem vm
    | some (outcome, vm) => some (outcome, vm)
  | .length values next, vm =>
    match vm.count? values with
    | some count => (next count).run env mem vm
    | none => some (.failed .typeError none, vm)
  | .element values index next, vm =>
    match vm.element? values index with
    | some value => (next value).run env mem vm
    | none => some (.failed .indexError none, vm)
  | .entry values index next, vm =>
    match vm.entry? values index with
    | some (key, value) => (next key value).run env mem vm
    | none => some (.failed .indexError none, vm)
  | .equal left right next, vm => (next (env.valuesEqual vm left right)).run env mem vm

/-! ## The methods -/

/-- `while values.length() > at: tail.push(values.pop())` -/
def moveTail (values tail : DiamondValue) (position : ℕ) (after : Script) : ℕ → Script
  | 0 => .outOfFuel
  | fuel + 1 => .length values fun count =>
    if count > position then
      .perform (.pop values) fun value => .perform (.push tail value) fun _ =>
        moveTail values tail position after fuel
    else
      after

/-- `while tail.length() > 0: values.push(tail.pop())` -/
def restoreTail (values tail : DiamondValue) : ℕ → Script
  | 0 => .outOfFuel
  | fuel + 1 => .length tail fun count =>
    if count > 0 then
      .perform (.pop tail) fun value => .perform (.push values value) fun _ =>
        restoreTail values tail fuel
    else
      .done values

def arrayInsert (values : DiamondValue) (index : ℤ) (item : DiamondValue) : Script :=
  .length values fun length =>
    let position := if index < 0 then index + length + 1 else index
    if position < 0 ∨ position > length then
      .raises .indexError ("index " ++ toString index ++
        " out of bounds for insert into Array of length " ++ toString length)
    else
      .perform .newArray fun tail =>
        moveTail values tail position.toNat
          (.perform (.push values item) fun _ => restoreTail values tail (length + 1)) (length + 1)

def arrayUnshift (values item : DiamondValue) : Script := arrayInsert values 0 item

/-- `while shift < length - 1: values[shift] = values[shift + 1]` -/
def shiftDown (values removed : DiamondValue) (length : ℕ) : ℕ → ℕ → Script
  | 0, _ => .outOfFuel
  | fuel + 1, shift =>
    if shift < length - 1 then
      .element values (shift + 1) fun value => .perform (.set values (.integer shift) value) fun _ =>
        shiftDown values removed length fuel (shift + 1)
    else
      .perform (.pop values) fun _ => .done removed

def arrayDeleteAt (values : DiamondValue) (index : ℤ) : Script :=
  .length values fun length =>
    if index < 0 ∨ index ≥ length then
      .done .nil
    else
      .element values index.toNat fun removed =>
        shiftDown values removed length (length + 1) index.toNat

def arrayShift (values : DiamondValue) : Script :=
  .length values fun length => if length = 0 then .done .nil else arrayDeleteAt values 0

def arraySwapFirstTwo (values : DiamondValue) : Script :=
  .element values 0 fun first => .element values 1 fun second =>
    .perform (.set values (.integer 0) second) fun _ =>
      .perform (.set values (.integer 1) first) fun _ => .done values

/-- `while values.length() > 0: values.pop()` -/
def clearLoop (values : DiamondValue) (after : Script) : ℕ → Script
  | 0 => .outOfFuel
  | fuel + 1 => .length values fun count =>
    if count > 0 then .perform (.pop values) fun _ => clearLoop values after fuel else after

def arrayClearThen (values : DiamondValue) (after : Script) : Script :=
  .length values fun length => clearLoop values after (length + 1)

def arrayClear (values : DiamondValue) : Script := arrayClearThen values (.done values)

/-- `while index < copy.length(): values.push(copy[index])` -/
def pushAll (values copy : DiamondValue) (after : Script) : ℕ → ℕ → Script
  | 0, _ => .outOfFuel
  | fuel + 1, index => .length copy fun count =>
    if index < count then
      .element copy index fun value => .perform (.push values value) fun _ =>
        pushAll values copy after fuel (index + 1)
    else
      after

def arrayReplaceThen (values other : DiamondValue) (after : Script) : Script :=
  .perform (.dup other) fun copy =>
    arrayClearThen values (.length copy fun count => pushAll values copy after (count + 1) 0)

def arrayReplace (values other : DiamondValue) : Script :=
  arrayReplaceThen values other (.done values)

def keepOthers (values target kept : DiamondValue) : ℕ → ℕ → Bool → Script
  | 0, _, _ => .outOfFuel
  | fuel + 1, index, found => .length values fun count =>
    if index < count then
      .element values index fun item => .equal item target fun same =>
        if same then
          keepOthers values target kept fuel (index + 1) true
        else
          .perform (.push kept item) fun _ => keepOthers values target kept fuel (index + 1) found
    else
      arrayReplaceThen values kept (.done (if found then target else .nil))

def arrayDelete (values target : DiamondValue) : Script :=
  .perform .newArray fun kept => .length values fun length =>
    keepOthers values target kept (length + 1) 0 false

def fillLoop (values item : DiamondValue) : ℕ → ℕ → Script
  | 0, _ => .outOfFuel
  | fuel + 1, index => .length values fun count =>
    if index < count then
      .perform (.set values (.integer index) item) fun _ => fillLoop values item fuel (index + 1)
    else
      .done values

def arrayFill (values item : DiamondValue) : Script :=
  .length values fun length => fillLoop values item (length + 1) 0

def updateLoop (values other : DiamondValue) : ℕ → ℕ → Script
  | 0, _ => .outOfFuel
  | fuel + 1, index => .length other fun count =>
    if index < count then
      .entry other index fun key value => .perform (.set values key value) fun _ =>
        updateLoop values other fuel (index + 1)
    else
      .done values

def hashUpdate (values other : DiamondValue) : Script :=
  .length other fun count => updateLoop values other (count + 1) 0

/-! ## Scripts on frozen objects -/

section

variable {env : Environment} {mem : Memory} {vm vm' : DiamondVm} {script : Script}
  {outcome : Outcome} {a b : Address} {array : DiamondArray} {values value : DiamondValue}
  {primitive : Primitive} {n fuel index : ℕ}

lemma Primitive.spares (primitive : Primitive) : Spares env vm primitive.operation := by
  cases primitive with
  | push | pop | set | newArray | dup => trivial

open Script

lemma Script.moves (h : script.run env mem vm = some (outcome, vm')) : ReflTransGen Moves vm vm' := by
  induction script generalizing vm with
  | done | raises =>
    cases h
    exact .refl
  | outOfFuel => cases h
  | perform primitive _ ih =>
    rw [run] at h
    split at h
    case h_1 => cases h
    case h_2 hexecute => exact (moves_of_execute primitive.spares hexecute).trans (ih _ h)
    case h_3 hexecute =>
      cases h
      exact moves_of_execute primitive.spares hexecute
  | length _ _ ih | element _ _ _ ih =>
    rw [run] at h
    split at h
    · exact ih _ h
    · cases h
      exact .refl
  | entry _ _ _ ih =>
    rw [run] at h
    split at h
    · exact ih _ _ h
    · cases h
      exact .refl
  | equal _ _ _ ih => exact ih _ h

/-- The script raises FrozenError, unless it runs out of memory first. -/
def Refused (env : Environment) (mem : Memory) (script : Script) (vm : DiamondVm) : Prop :=
  ∃ outcome vm', script.run env mem vm = some (outcome, vm') ∧
    (outcome = .failed .frozenError none ∨ outcome = .failed .outOfMemory none)

variable {next : DiamondValue → Script}

lemma refused_failed
    (h : execute env mem vm primitive.operation = some (.failed .frozenError none, vm') ∨
      execute env mem vm primitive.operation = some (.failed .outOfMemory none, vm')) :
    Refused env mem (.perform primitive next) vm := by
  rcases h with h | h
  · refine ⟨_, vm', ?_, .inl rfl⟩
    rw [run, h]
  · refine ⟨_, vm', ?_, .inr rfl⟩
    rw [run, h]

lemma refused_next {result} (h : execute env mem vm primitive.operation = some (.ok result, vm'))
    (hnext : Refused env mem (next (result.getD .nil)) vm') :
    Refused env mem (.perform primitive next) vm := by
  obtain ⟨outcome, vm'', hrun, hfailed⟩ := hnext
  refine ⟨outcome, vm'', ?_, hfailed⟩
  rw [run, h]
  exact hrun

lemma refused_length {next} (h : vm.count? values = some n)
    (hnext : Refused env mem (next n) vm) : Refused env mem (.length values next) vm := by
  unfold Refused at hnext ⊢
  rw [run, h]
  exact hnext

lemma refused_element (h : vm.element? values index = some value)
    (hnext : Refused env mem (next value) vm) :
    Refused env mem (.element values index next) vm := by
  unfold Refused at hnext ⊢
  rw [run, h]
  exact hnext

lemma refused_equal {left right next}
    (h : Refused env mem (next (env.valuesEqual vm left right)) vm) :
    Refused env mem (.equal left right next) vm := by
  unfold Refused at h ⊢
  rw [run]
  exact h

variable {frozen : Bool}

lemma count?_of_heap (ho : vm.heap[a]? = some ⟨frozen, .array array⟩) :
    vm.count? (.object a) = some array.values.length := by
  unfold count?
  rw [object?_of_heap ho]

lemma element?_of_heap (ho : vm.heap[a]? = some ⟨frozen, .array array⟩)
    (hlt : index < array.values.length) : ∃ value, vm.element? (.object a) index = some value := by
  unfold element?
  rw [object?_of_heap ho]
  exact ⟨_, getElem?_eq_getElem hlt⟩

open Primitive

lemma execute_newArray : execute env mem vm newArray.operation =
        some (.ok (some (.object vm.heap.length)), vm.allocate (.array ⟨[], 0, []⟩)) ∨
      execute env mem vm newArray.operation = some (.failed .outOfMemory none, vm) := by
  rw [operation, execute]
  split
  · exact .inl rfl
  · exact .inr rfl

lemma execute_dup (hb : vm.heap[b]? = some ⟨frozen, .array array⟩) :
    execute env mem vm (dup (.object b)).operation =
        some (.ok (some (.object vm.heap.length)),
          vm.allocate (.array ⟨array.values, array.values.length, []⟩)) ∨
      execute env mem vm (dup (.object b)).operation =
        some (.failed .outOfMemory none, vm) := by
  have hobject := object?_of_heap hb
  have hexecute : execute env mem vm (dup (.object b)).operation =
      some (diamondJitDup env mem vm (.object b)) := by
    rw [operation, execute, invoke, universalInvoke, hobject]
    rfl
  rw [hexecute, diamondJitDup, hobject]
  dsimp only
  split
  · exact .inl rfl
  · exact .inr rfl

lemma heap_allocate_new (payload : Payload) :
    (vm.allocate payload).heap[vm.heap.length]? = some ⟨false, payload⟩ := by
  unfold allocate
  rw [getElem?_append_right le_rfl, Nat.sub_self]
  rfl

/-- A push on an Array without constraints, which is not frozen. -/
lemma execute_push (hpush : env.extension .array .push = false)
    (hb : vm.heap[b]? = some ⟨false, .array array⟩) (hfree : array.constraints = []) :
    ∃ pushed vm', pushed.constraints = [] ∧ vm'.heap[b]? = some ⟨false, .array pushed⟩ ∧
      (execute env mem vm (push (.object b) value).operation =
          some (.ok (some (.object b)), vm') ∨
        execute env mem vm (push (.object b) value).operation =
          some (.failed .outOfMemory none, vm')) := by
  have hexecute : execute env mem vm (push (.object b) value).operation =
      some (afterPush (.object b) (arrayPush mem vm b array value)) := by
    cases hcached : env.extensionCached .array .push with
    | true =>
      simp [operation, execute, invoke, object?_of_heap hb, collectionInvoke,
        collectionInvokeFast, hcached, hpush, arrayValueSatisfiesConstraints, hfree]
    | false =>
      simp [operation, execute, invoke, object?_of_heap hb, collectionInvoke,
        collectionInvokeFast, hcached, hpush, arrayInvoke, arrayValueSatisfiesConstraints, hfree]
  have hend : ∀ vm', some (afterPush (.object b) (vm', mem.barrier)) =
      some (Outcome.ok (some (.object b)), vm') ∨
        some (afterPush (.object b) (vm', mem.barrier)) =
          some (Outcome.failed .outOfMemory none, vm') := by
    intro vm'
    cases hbarrier : mem.barrier with
    | true => exact .inl rfl
    | false => exact .inr rfl
  rw [hexecute, arrayPush]
  split
  · split
    · exact ⟨array, vm, hfree, hb, .inr rfl⟩
    · refine ⟨_, _, ?_, heap_store _ hb, hend _⟩
      exact hfree
  · refine ⟨_, _, ?_, heap_store _ hb, hend _⟩
    exact hfree

section Frozen

variable (ho : vm.heap[a]? = some ⟨true, .array array⟩)
  (hpush : env.extension .array .push = false)
  (hpop : env.extension .array .pop = false)
include ho

include hpop in
lemma refused_pop : Refused env mem (.perform (.pop (.object a)) next) vm :=
  refused_failed (.inl (execute_of_mutator (.pop ho hpop default) ho rfl))

include hpush in
lemma refused_push : Refused env mem (.perform (.push (.object a) value) next) vm :=
  refused_failed (.inl (execute_of_mutator (.push ho hpush default value) ho rfl))

lemma refused_set {position} :
    Refused env mem (.perform (.set (.object a) position value) next) vm :=
  refused_failed (.inl (execute_of_mutator (.indexSetArray ho position value) ho rfl))

include hpop in
lemma refused_clearThen (hne : array.values ≠ [])
    {after} : Refused env mem (arrayClearThen (.object a) after) vm := by
  have hcount := count?_of_heap ho
  apply refused_length hcount
  rw [clearLoop]
  apply refused_length hcount
  rw [if_pos (length_pos_iff.2 hne)]
  exact refused_pop ho hpop

include hpush hpop in
lemma refused_insert {index item}
    (hrange : -(array.values.length + 1 : ℤ) ≤ index ∧ index ≤ array.values.length) :
    Refused env mem (arrayInsert (.object a) index item) vm := by
  apply refused_length (count?_of_heap ho)
  dsimp only
  generalize hposition :
    (if index < 0 then index + (array.values.length : ℤ) + 1 else index) = position
  rw [if_neg (by split at hposition <;> omega)]
  rcases execute_newArray with hnew | hnew
  · apply refused_next hnew
    have ho' := heap_allocate (.array ⟨[], 0, []⟩) ho
    rw [moveTail]
    apply refused_length (count?_of_heap ho')
    split
    · exact refused_pop ho' hpop
    · exact refused_push ho' hpush
  · exact refused_failed (.inr hnew)

include hpop in
lemma refused_deleteAt {index : ℤ} (hrange : 0 ≤ index ∧ index < array.values.length) :
    Refused env mem (arrayDeleteAt (.object a) index) vm := by
  apply refused_length (count?_of_heap ho)
  rw [if_neg (by omega)]
  obtain ⟨_, hremoved⟩ := element?_of_heap ho ((Int.toNat_lt hrange.1).2 hrange.2)
  apply refused_element hremoved
  rw [shiftDown]
  split
  case isTrue hshift =>
    obtain ⟨_, hnext⟩ := element?_of_heap ho (Nat.add_lt_of_lt_sub hshift)
    apply refused_element hnext
    exact refused_set ho
  case isFalse => exact refused_pop ho hpop

include hpop in
lemma refused_shift (hne : array.values ≠ []) : Refused env mem (arrayShift (.object a)) vm := by
  have hpos := length_pos_iff.2 hne
  apply refused_length (count?_of_heap ho)
  rw [if_neg (Nat.ne_of_gt hpos)]
  exact refused_deleteAt ho hpop ⟨le_rfl, Int.natCast_pos.2 hpos⟩

lemma refused_swapFirstTwo (htwo : 2 ≤ array.values.length) :
    Refused env mem (arraySwapFirstTwo (.object a)) vm := by
  obtain ⟨_, hfirst⟩ := element?_of_heap ho (Nat.lt_of_succ_lt htwo)
  obtain ⟨_, hsecond⟩ := element?_of_heap ho htwo
  apply refused_element hfirst
  apply refused_element hsecond
  exact refused_set ho

lemma refused_fill (hne : array.values ≠ []) {item} :
    Refused env mem (arrayFill (.object a) item) vm := by
  have hcount := count?_of_heap ho
  apply refused_length hcount
  rw [fillLoop]
  apply refused_length hcount
  rw [if_pos (length_pos_iff.2 hne)]
  exact refused_set ho

include hpush hpop in
/-- To replace the contents is refused, unless both are empty. -/
lemma refused_replaceThen {other after}
    (hb : vm.heap[b]? = some ⟨frozen, .array other⟩) (hne : array.values ≠ [] ∨ other.values ≠ []) :
    Refused env mem (arrayReplaceThen (.object a) (.object b) after) vm := by
  rcases execute_dup hb with hdup | hdup
  · apply refused_next hdup
    have ho' := heap_allocate (.array ⟨other.values, other.values.length, []⟩) ho
    by_cases hempty : array.values = []
    · -- Nothing is cleared, and the first push is refused.
      have hother := hne.resolve_left (not_not.2 hempty)
      have hcount := count?_of_heap ho'
      rw [hempty] at hcount
      have hnew := @heap_allocate_new vm (.array ⟨other.values, other.values.length, []⟩)
      have hcopy := count?_of_heap hnew
      have hpos := length_pos_iff.2 hother
      obtain ⟨_, hvalue⟩ := element?_of_heap hnew hpos
      apply refused_length hcount
      apply refused_length hcount
      apply refused_length hcopy
      apply refused_length hcopy
      rw [if_pos hpos]
      apply refused_element hvalue
      exact refused_push ho' hpush
    · exact refused_clearThen ho' hpop hempty
  · exact refused_failed (.inr hdup)

include hpush hpop in
lemma refused_keepOthers (hne : array.values ≠ []) {kept target found}
    (hb : vm.heap[b]? = some ⟨false, .array kept⟩)
    (hfree : kept.constraints = []) (hindex : index ≤ array.values.length)
    (hfuel : array.values.length < fuel + index) :
    Refused env mem (keepOthers (.object a) target (.object b) fuel index found) vm := by
  induction fuel generalizing vm index found kept with
  | zero => exact absurd hfuel (by omega)
  | succ fuel ih =>
    rw [keepOthers]
    apply refused_length (count?_of_heap ho)
    split
    case isTrue hlt =>
      have hfuel' : array.values.length < fuel + (index + 1) := by omega
      obtain ⟨item, hitem⟩ := element?_of_heap ho hlt
      apply refused_element hitem
      apply refused_equal
      split
      · exact ih ho hb hfree hlt hfuel'
      obtain ⟨_, _, hfree', hb', hok | hmemory⟩ :=
        @execute_push env mem vm b kept item hpush hb hfree
      · have ho' := keeps_of_moves (moves_of_execute (spares _) hok) ho rfl
        exact refused_next hok (ih ho' hb' hfree' hlt hfuel')
      · exact refused_failed (.inr hmemory)
    case isFalse => exact refused_replaceThen ho hpush hpop hb (.inl hne)

include hpush hpop in
lemma refused_delete (hne : array.values ≠ []) {target} :
    Refused env mem (arrayDelete (.object a) target) vm := by
  rcases execute_newArray with hnew | hnew
  · apply refused_next hnew
    have ho' := heap_allocate (.array ⟨[], 0, []⟩) ho
    apply refused_length (count?_of_heap ho')
    exact refused_keepOthers ho' hpush hpop hne (heap_allocate_new _) rfl (Nat.zero_le _)
      (Nat.lt_succ_self _)
  · exact refused_failed (.inr hnew)

end Frozen

lemma refused_update {table other constraints constraints'}
    (ho : vm.heap[a]? = some ⟨true, .hash table constraints⟩)
    (hb : vm.heap[b]? = some ⟨frozen, .hash other constraints'⟩) (hne : other.entries ≠ []) :
    Refused env mem (hashUpdate (.object a) (.object b)) vm := by
  have hcount : vm.count? (.object b) = some other.count := by
    unfold count?
    rw [object?_of_heap hb]
  obtain ⟨entry, _, hentries⟩ := exists_cons_of_ne_nil hne
  have hentry : vm.entry? (.object b) 0 = some (entry.key, entry.value) := by
    unfold entry?
    rw [object?_of_heap hb]
    dsimp only
    rw [hentries]
    rfl
  have hset : execute env mem vm (set (.object a) entry.key entry.value).operation =
      some (.failed .frozenError none, vm) :=
    execute_of_mutator (.indexSetHash ho entry.key entry.value) ho rfl
  apply refused_length hcount
  rw [updateLoop]
  apply refused_length hcount
  have hpos : 0 < other.count := length_pos_iff.2 hne
  rw [if_pos hpos]
  unfold Refused
  rw [run, hentry]
  exact refused_failed (.inl hset)

end

/-! ## All of them -/

/-- A call of a method of the prelude that changes its receiver. -/
inductive PreludeCall
  | insert (index : ℤ) (item : DiamondValue)
  | unshift (item : DiamondValue)
  | shift
  | deleteAt (index : ℤ)
  | swapFirstTwo
  | clear
  | replace (other : Address)
  | delete (target : DiamondValue)
  | fill (item : DiamondValue)
  | update (other : Address)

def PreludeCall.script (values : DiamondValue) : PreludeCall → Script
  | .insert index item => arrayInsert values index item
  | .unshift item => arrayUnshift values item
  | .shift => arrayShift values
  | .deleteAt index => arrayDeleteAt values index
  | .swapFirstTwo => arraySwapFirstTwo values
  | .clear => arrayClear values
  | .replace other => arrayReplace values (.object other)
  | .delete target => arrayDelete values target
  | .fill item => arrayFill values item
  | .update other => hashUpdate values (.object other)

/-- The call has something to write: its index is in range, and there are elements to remove, to
write over or to add. -/
def PreludeCall.Applies (vm : DiamondVm) : PreludeCall → Payload → Prop
  | .insert index _, .array array =>
    -(array.values.length + 1 : ℤ) ≤ index ∧ index ≤ array.values.length
  | .unshift _, .array _ => True
  | .shift, .array array | .clear, .array array | .delete _, .array array | .fill _, .array array =>
    array.values ≠ []
  | .deleteAt index, .array array => 0 ≤ index ∧ index < array.values.length
  | .swapFirstTwo, .array array => 2 ≤ array.values.length
  | .replace other, .array array => ∃ frozen source,
    vm.heap[other]? = some ⟨frozen, .array source⟩ ∧ (array.values ≠ [] ∨ source.values ≠ [])
  | .update other, .hash _ _ => ∃ frozen source constraints,
    vm.heap[other]? = some ⟨frozen, .hash source constraints⟩ ∧ source.entries ≠ []
  | _, _ => False

/-- On a frozen Array or Hash the prelude's methods raise FrozenError, if they have anything to
write and the program does not have its own `push` or `pop`. -/
lemma PreludeCall.refused {env mem vm a o} (call : PreludeCall) (ho : vm.heap[a]? = some o)
    (hfrozen : o.frozen = true)
    (hpush : env.extension .array .push = false) (hpop : env.extension .array .pop = false)
    (happlies : call.Applies vm o.payload) : Refused env mem (call.script (.object a)) vm := by
  obtain ⟨frozen, payload⟩ := o
  cases hfrozen
  cases payload with
  | array =>
    cases call with
    | insert => exact refused_insert ho hpush hpop happlies
    | unshift =>
      exact refused_insert ho hpush hpop ⟨by omega, by omega⟩
    | shift => exact refused_shift ho hpop happlies
    | deleteAt => exact refused_deleteAt ho hpop happlies
    | swapFirstTwo => exact refused_swapFirstTwo ho happlies
    | clear => exact refused_clearThen ho hpop happlies
    | replace =>
      obtain ⟨frozen, _, hother, hne⟩ := happlies
      exact refused_replaceThen ho hpush hpop hother hne
    | delete => exact refused_delete ho hpush hpop happlies
    | fill => exact refused_fill ho happlies
    | update => exact happlies.elim
  | hash =>
    cases call with
    | update =>
      obtain ⟨frozen, _, _, hother, hne⟩ := happlies
      exact refused_update ho hother hne
    | insert | unshift | shift | deleteAt | swapFirstTwo | clear | replace | delete | fill =>
      exact happlies.elim
  | string | bignum | inst | other => cases call <;> exact happlies.elim

end Diamond.Freeze
