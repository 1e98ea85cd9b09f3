import Diamond.Freeze.Operations

/-!
# What the operations write

Every operation comes down to writing objects that are not frozen, setting `frozen`, and allocating,
except for the three that do not test `frozen`: `<<` on an Array, the constructor of Exception
called by `super`, and the backtrace that `raise` installs.  `Spares` says that these three are not
given a frozen object.
-/

namespace Diamond.Freeze

open List DiamondVm

open Relation (ReflTransGen)

/-- The objects that may be written: those that are not frozen. -/
inductive Moves (vm : DiamondVm) : DiamondVm → Prop
  | stores {a o} (payload : Payload) (ho : vm.heap[a]? = some o) (hnot : o.frozen = false) :
      Moves vm (vm.store a payload)
  | freezes (a : Address) : Moves vm (vm.setFrozen a)
  | allocates (payload : Payload) : Moves vm (vm.allocate payload)

/-- Any number of such writes. -/
abbrev Leads : DiamondVm → DiamondVm → Prop := ReflTransGen Moves

/-- What a run of the program must meet where it executes an operation: the three that do not test
`frozen` are not given a frozen object to write to. -/
def Spares (env : Environment) (vm : DiamondVm) : Operation → Prop
  | .shiftLeft left _ => ∀ a o array, vm.object? left = some (a, o) → o.payload = .array array →
      o.frozen = false
  | .superCall self owner name _ => ∀ a o, vm.object? self = some (a, o) →
      env.superHasMethod owner name = false → env.superIsException owner = true → o.frozen = false
  | .raise exception _ => ∀ a o cls fields, vm.object? exception = some (a, o) →
      o.payload = .inst cls fields → env.isException cls = true → hasBacktrace vm fields = false →
        o.frozen = false
  | _ => True

section

variable {env : Environment} {mem : Memory} {vm vm' : DiamondVm} {a : Address} {o : DiamondObject}
  {value : DiamondValue} {outcome : Outcome}

lemma heap_of_object? (h : vm.object? value = some (a, o)) : vm.heap[a]? = some o := by
  cases value with
  | object =>
    obtain ⟨_, ho, heq⟩ := Option.map_eq_some_iff.1 h
    cases heq
    exact ho
  | nil | boolean | integer | other => cases h

variable (payload : Payload)

lemma heap_allocate (ho : vm.heap[a]? = some o) : (vm.allocate payload).heap[a]? = some o := by
  obtain ⟨hlt, -⟩ := List.getElem?_eq_some_iff.1 ho
  unfold allocate
  rw [getElem?_append_left hlt, ho]

lemma heap_store (ho : vm.heap[a]? = some o) :
    (vm.store a payload).heap[a]? = some { o with payload := payload } := by
  unfold store
  rw [getElem?_modify_eq, ho]
  rfl

lemma leads_of_some {r} (hleads : Leads vm r.2) (h : some r = some (outcome, vm')) :
    Leads vm vm' := by
  cases h
  exact hleads

lemma moves_store (ho : vm.heap[a]? = some o) (hnot : ¬o.frozen = true) :
    Leads vm (vm.store a payload) :=
  .single (.stores payload ho (Bool.eq_false_of_not_eq_true hnot))

variable {array : DiamondArray} {index source receiver : DiamondValue}
  {arguments : List DiamondValue} {method : Method}

lemma moves_arrayPush (ho : vm.heap[a]? = some o) (hnot : ¬o.frozen = true) :
    Leads vm (arrayPush mem vm a array value).1 := by
  unfold arrayPush
  split
  · split
    · exact .refl
    · exact moves_store _ ho hnot
  · exact moves_store _ ho hnot

lemma moves_arrayIndexSet (ho : vm.heap[a]? = some o) :
    Leads vm (arrayIndexSet env mem vm a o.frozen array index source).2 := by
  unfold arrayIndexSet
  dsimp only
  split
  case isTrue => exact .refl
  case isFalse hnot =>
    split
    case h_1 => exact .refl
    case h_2 =>
      split
      · split
        · exact .refl
        · split
          · exact .refl
          · exact moves_store _ ho hnot
      · exact .refl
    case h_3 =>
      split
      case h_1 original _ =>
        generalize (if original < 0 then original + array.values.length else original) = position
        split
        · exact .refl
        · split
          · exact .refl
          · exact moves_store _ ho hnot
      case h_2 => exact .refl

lemma moves_diamondJitIndexSet
    (h : diamondJitIndexSet env mem vm receiver index source = some (outcome, vm')) :
    Leads vm vm' := by
  unfold diamondJitIndexSet at h
  dsimp only at h
  split at h
  case h_1 =>
    cases h
    exact .refl
  case h_2 a o hobject =>
    have ho := heap_of_object? hobject
    split at h
    case h_1 =>
      split at h
      case isTrue =>
        cases h
        exact .refl
      case isFalse hnot =>
        split at h
        · cases h
          exact .refl
        split at h
        · cases h
        all_goals
          cases h
          exact moves_store _ ho hnot
    case h_2 =>
      cases h
      exact .refl
    case h_3 =>
      split at h
      all_goals
        cases h
        exact .refl
    case h_4 array _ =>
      have hmoves := @moves_arrayIndexSet env mem vm a o array index source ho
      rw [Option.some.inj h] at hmoves
      exact hmoves
    case h_5 | h_6 =>
      cases h
      exact .refl

lemma moves_indexSet (h : indexSet env mem vm receiver index source = some (outcome, vm')) :
    Leads vm vm' := by
  unfold indexSet at h
  split at h
  case h_1 hobject =>
    split at h
    case isTrue hfast =>
      cases h
      exact moves_store _ (heap_of_object? hobject) hfast.2.2.1
    case isFalse => exact moves_diamondJitIndexSet h
  case h_2 => exact moves_diamondJitIndexSet h

lemma moves_shiftInts {left right} : Leads vm (shiftInts mem vm left right).2 := by
  have hpromoted : Leads vm
      (if mem.object then (Outcome.ok (some (.object vm.heap.length)), vm.allocate .bignum)
        else (.failed .outOfMemory none, vm)).2 := by
    split
    · exact .single (.allocates _)
    · exact .refl
  unfold shiftInts
  dsimp only
  split
  · split
    · exact .refl
    split
    · split
      · exact .refl
      · exact hpromoted
    · exact hpromoted
  · exact .refl

lemma moves_shiftLeft {left right} (hspares : Spares env vm (.shiftLeft left right)) :
    Leads vm (shiftLeft env mem vm left right).2 := by
  unfold shiftLeft
  split
  · exact moves_shiftInts
  split
  case h_1 a _ array hobject =>
    have hnot := hspares a _ array hobject rfl
    split
    · exact .refl
    · exact moves_arrayPush (heap_of_object? hobject) (Bool.not_eq_true _ ▸ hnot)
  case h_2 => exact .refl

lemma moves_diamondJitSetIvar {field} :
    Leads vm (diamondJitSetIvar mem vm receiver field value).2 := by
  unfold diamondJitSetIvar
  split
  case h_1 hobject =>
    split
    case isTrue => exact .refl
    case isFalse hnot =>
      split
      · exact .refl
      · exact moves_store _ (heap_of_object? hobject) hnot
  case h_2 => exact .refl

lemma moves_setIvarName {name} : Leads vm (setIvarName env mem vm receiver name value).2 := by
  unfold setIvarName
  split
  case h_1 hobject =>
    split
    · split
      · exact .refl
      · split
        case isTrue => exact .refl
        case isFalse hnot => exact moves_store _ (heap_of_object? hobject) hnot
    · exact .refl
  case h_2 => exact .refl

lemma moves_setterCall {field passes} :
    Leads vm (setterCall mem vm receiver field value passes).2 := by
  have hset := @moves_diamondJitSetIvar mem vm value receiver field
  unfold setterCall
  split
  · split
    · exact .refl
    split
    case h_1 heq | h_2 heq =>
      rw [heq] at hset
      exact hset
  · exact .refl

lemma moves_superCall {self owner name}
    (hspares : Spares env vm (.superCall self owner name arguments)) :
    Leads vm (superCall env mem vm self owner name arguments).2 := by
  unfold superCall
  split
  case h_1 a _ _ _ hobject =>
    split
    · exact .refl
    split
    case isTrue => exact .refl
    case isFalse hmethod =>
      split
      case isTrue hexception =>
        have hnot := hspares a _ hobject (Bool.eq_false_of_not_eq_true hmethod) hexception.1
        have hstore := fun payload => ReflTransGen.single
          (Moves.stores payload (heap_of_object? hobject) hnot)
        split
        · exact .refl
        · exact hstore _
        · exact hstore _
        · exact .refl
      case isFalse => exact .refl
  case h_2 => exact .refl

/-- A push on an Array that is not frozen leaves an object there that is not. -/
lemma exists_heap_arrayPush (ho : vm.heap[a]? = some o) :
    ∃ o', (arrayPush mem vm a array value).1.heap[a]? = some o' ∧ o'.frozen = o.frozen := by
  unfold arrayPush
  split
  · split
    · exact ⟨o, ho, rfl⟩
    · exact ⟨_, heap_store _ ho, rfl⟩
  · exact ⟨_, heap_store _ ho, rfl⟩

lemma moves_backtraceAppendLiveFrames {backtrace frames}
    (ho : vm.heap[backtrace]? = some o) (hnot : ¬o.frozen = true) :
    Leads vm (backtraceAppendLiveFrames mem backtrace frames vm) := by
  induction frames generalizing vm o with
  | zero => exact .refl
  | succ _ ih =>
    rw [backtraceAppendLiveFrames]
    have hallocate : Leads vm (vm.allocate .string) := .single (.allocates _)
    have ho' := heap_allocate .string ho
    rw [ho']
    split
    case h_1 array heq =>
      cases heq
      obtain ⟨_, ho'', hfrozen⟩ :=
        @exists_heap_arrayPush mem _ _ _ (.object vm.heap.length) array ho'
      exact (hallocate.trans (moves_arrayPush ho' hnot)).trans (ih ho'' (hfrozen ▸ hnot))
    case h_2 => exact hallocate

lemma moves_installBacktrace {cls fields frames}
    (ho : vm.heap[a]? = some o) (hnot : env.isException cls = true → o.frozen = false) :
    Leads vm (installBacktrace env mem vm a cls fields frames) := by
  unfold installBacktrace
  split
  case isTrue => exact .refl
  case isFalse hinstall =>
    have hexception : env.isException cls = true := by
      by_contra hnone
      exact hinstall (.inl (by simpa using hnone))
    have hallocate : Leads vm (vm.allocate (.array ⟨[], 0, []⟩)) := .single (.allocates _)
    have hstore := hallocate.tail (.stores (.inst cls (fields.set 2 (.object vm.heap.length)))
      (heap_allocate _ ho) (hnot hexception))
    dsimp only
    split
    · -- The new Array is not the exception, so it is still the one just allocated.
      have hlt := (List.getElem?_eq_some_iff.1 ho).1
      refine hstore.trans (moves_backtraceAppendLiveFrames (o := ⟨false, .array ⟨[], 0, []⟩⟩) ?_ ?_)
      · unfold store allocate
        rw [getElem?_modify_ne _ _ (Nat.ne_of_lt hlt), getElem?_append_right le_rfl, Nat.sub_self]
        rfl
      · exact Bool.false_ne_true
    · exact hstore

lemma moves_raise {exception frames} (hspares : Spares env vm (.raise exception frames)) :
    Leads vm (raise env mem vm exception frames).2 := by
  unfold raise
  split
  case h_1 a _ cls fields hobject =>
    split
    case isTrue => exact .refl
    case isFalse hnone =>
      exact moves_installBacktrace (heap_of_object? hobject) fun hexception =>
        hspares a _ cls fields hobject rfl hexception (Bool.eq_false_of_not_eq_true hnone)
  case h_2 => exact .refl

lemma moves_diamondJitDup : Leads vm (diamondJitDup env mem vm receiver).2 := by
  unfold diamondJitDup
  split
  · exact .refl
  split
  · exact .refl
  · split
    · exact .single (.allocates _)
    · exact .refl
  · split
    · split
      all_goals exact .single (.allocates _)
    · exact .refl
  · split
    · exact .refl
    · split
      · exact .single (.allocates _)
      · exact .refl
  all_goals exact .refl

lemma moves_diamondJitFreeze : Leads vm (diamondJitFreeze env vm receiver).2 := by
  unfold diamondJitFreeze
  split
  · exact .refl
  split
  · exact .refl
  · exact .single (.freezes _)
  · exact .single (.freezes _)
  · split
    · exact .refl
    · exact .single (.freezes _)
  all_goals exact .refl

lemma moves_deepFreezeLoop {memory fuel walk finished}
    (h : deepFreezeLoop memory fuel vm walk = some (finished, vm')) : Leads vm vm' := by
  induction fuel generalizing vm walk with
  | zero => cases h
  | succ _ ih =>
    rw [deepFreezeLoop] at h
    split at h
    · cases h
      exact .refl
    dsimp only at h
    split at h
    · cases h
    · cases h
      exact .single (.freezes _)
    · exact .head (.freezes _) (ih h)

lemma moves_diamondDeepFreeze {memory}
    (h : diamondDeepFreeze memory vm receiver = some (outcome, vm')) : Leads vm vm' := by
  unfold diamondDeepFreeze at h
  split at h
  · cases h
  · cases h
    exact .refl
  split at h
  case h_1 => cases h
  case h_2 hloop | h_3 hloop =>
    cases h
    exact moves_deepFreezeLoop hloop

section
variable (ho : vm.heap[a]? = some o)
include ho

lemma moves_arrayInvoke :
    Leads vm (arrayInvoke env mem vm a o.frozen array method arguments).2 := by
  unfold arrayInvoke
  split
  case h_1 =>
    split
    case isTrue => exact .refl
    case isFalse hnot =>
      split
      · exact .refl
      · exact moves_arrayPush ho hnot
  case h_2 =>
    split
    case isTrue => exact .refl
    case isFalse hnot => exact moves_store _ ho hnot
  all_goals exact .refl

lemma moves_hashInvoke {table constraints}
    (h : hashInvoke env mem vm a o.frozen table constraints method arguments =
      some (outcome, vm')) : Leads vm vm' := by
  unfold hashInvoke at h
  split at h
  case h_1 =>
    split at h
    case isTrue =>
      cases h
      exact .refl
    case isFalse hnot =>
      cases h
      exact moves_store _ ho hnot
  case h_2 =>
    split at h
    case isTrue =>
      cases h
      exact .refl
    case isFalse hnot =>
      split at h
      · cases h
      all_goals
        cases h
        exact moves_store _ ho hnot
  all_goals
    cases h
    exact .refl

lemma moves_collectionInvokeFast (h : collectionInvokeFast env mem vm a o method arguments =
    some (outcome, vm')) : Leads vm vm' := by
  unfold collectionInvokeFast at h
  split at h
  case h_1 =>
    split at h
    case isTrue => cases h
    case isFalse hfast =>
      cases h
      exact moves_arrayPush ho fun hfrozen => hfast (.inl hfrozen)
  case h_2 => cases h

lemma moves_collectionInvoke (h : collectionInvoke env mem vm a o method arguments =
    some (outcome, vm')) : Leads vm vm' := by
  unfold collectionInvoke at h
  split at h
  case h_1 hfast =>
    cases h
    exact moves_collectionInvokeFast ho hfast
  case h_2 =>
    split at h
    case h_1 =>
      split at h
      · cases h
        exact .refl
      · exact leads_of_some (moves_arrayInvoke ho) h
    case h_2 =>
      split at h
      · cases h
        exact .refl
      · exact moves_hashInvoke ho h
    case h_3 =>
      cases h
      exact .refl

end

lemma moves_universalInvoke {name native}
    (hnative : ∀ outcome vm', native = some (outcome, vm') → Leads vm vm')
    (h : universalInvoke env vm receiver name arguments native = some (outcome, vm')) :
    Leads vm vm' := by
  unfold universalInvoke at h
  split at h
  · split at h
    · cases h
      exact .refl
    · split at h
      · cases h
        exact .refl
      · exact hnative _ _ h
  · cases h
    exact .refl
  · cases h
    exact .refl
  · split at h
    · cases h
      exact .refl
    · exact hnative _ _ h

lemma moves_invoke {memory}
    (h : invoke env mem vm memory receiver method arguments = some (outcome, vm')) :
    Leads vm vm' := by
  unfold invoke at h
  split at h
  case h_1 =>
    refine moves_universalInvoke (fun outcome vm' heq => ?_) h
    have hdup := @moves_diamondJitDup env mem vm receiver
    rw [Option.some.inj heq] at hdup
    exact hdup
  case h_2 =>
    refine moves_universalInvoke (fun outcome vm' heq => ?_) h
    have hfreeze := @moves_diamondJitFreeze env vm receiver
    rw [Option.some.inj heq] at hfreeze
    exact hfreeze
  case h_3 => exact moves_universalInvoke (fun _ _ => moves_diamondDeepFreeze) h
  case h_4 =>
    split at h
    case h_1 hobject => exact moves_collectionInvoke (heap_of_object? hobject) h
    case h_2 =>
      cases h
      exact .refl

/-- An operation that spares the frozen objects writes only to objects that are not frozen. -/
lemma moves_of_execute {operation} (hspares : Spares env vm operation)
    (h : execute env mem vm operation = some (outcome, vm')) : Leads vm vm' := by
  cases operation with
  | indexSet => exact moves_indexSet h
  | shiftLeft =>
    exact leads_of_some (moves_shiftLeft hspares) h
  | setIvar =>
    exact leads_of_some moves_diamondJitSetIvar h
  | setIvarName =>
    exact leads_of_some moves_setIvarName h
  | setterCall =>
    exact leads_of_some moves_setterCall h
  | superCall =>
    exact leads_of_some (moves_superCall hspares) h
  | raise =>
    exact leads_of_some (moves_raise hspares) h
  | invoke => exact moves_invoke h
  | allocate payload =>
    rw [execute] at h
    split at h
    · cases h
      exact .single (.allocates payload)
    · cases h
      exact .refl

lemma Moves.keeps (h : Moves vm vm') (ho : vm.heap[a]? = some o) (hfrozen : o.frozen = true) :
    vm'.heap[a]? = some o := by
  cases h with
  | @stores b _ _ hb hnot =>
    have hne : b ≠ a := by
      rintro rfl
      rw [ho] at hb
      cases hb
      exact Bool.false_ne_true (hnot.symm.trans hfrozen)
    unfold store
    rw [getElem?_modify_ne _ _ hne, ho]
  | freezes b =>
    unfold setFrozen
    by_cases heq : b = a
    · rw [heq, getElem?_modify_eq, ho, ← hfrozen]
      rfl
    · rw [getElem?_modify_ne _ _ heq, ho]
  | allocates payload => exact heap_allocate payload ho

lemma keeps_of_moves (h : Leads vm vm') (ho : vm.heap[a]? = some o)
    (hfrozen : o.frozen = true) : vm'.heap[a]? = some o := by
  induction h with
  | refl => exact ho
  | tail _ hlast ih => exact hlast.keeps ih hfrozen

/-! ## Writes to a frozen object -/

/-- The operations that would write to the object at `a`: index assignment to an Array or Hash, the
native methods that change one unless the program has its own, and writes to a field. -/
inductive Mutator (env : Environment) (vm : DiamondVm) (a : Address) : Operation → Prop
  | indexSetArray {frozen array} (ho : vm.heap[a]? = some ⟨frozen, .array array⟩)
      (index source : DiamondValue) : Mutator env vm a (.indexSet (.object a) index source)
  | indexSetHash {frozen table constraints} (ho : vm.heap[a]? = some ⟨frozen, .hash table constraints⟩)
      (index source : DiamondValue) : Mutator env vm a (.indexSet (.object a) index source)
  | push {frozen array} (ho : vm.heap[a]? = some ⟨frozen, .array array⟩)
      (hnative : env.extension .array .push = false) (memory : WalkMemory) (value : DiamondValue) :
      Mutator env vm a (.invoke memory (.object a) .push [value])
  | pop {frozen array} (ho : vm.heap[a]? = some ⟨frozen, .array array⟩)
      (hnative : env.extension .array .pop = false) (memory : WalkMemory) :
      Mutator env vm a (.invoke memory (.object a) .pop [])
  | clear {frozen table constraints} (ho : vm.heap[a]? = some ⟨frozen, .hash table constraints⟩)
      (hnative : env.extension .hash .clear = false) (memory : WalkMemory) :
      Mutator env vm a (.invoke memory (.object a) .clear [])
  | delete {frozen table constraints} (ho : vm.heap[a]? = some ⟨frozen, .hash table constraints⟩)
      (hnative : env.extension .hash .delete = false) (memory : WalkMemory) (key : DiamondValue) :
      Mutator env vm a (.invoke memory (.object a) .delete [key])
  | setIvar {frozen cls fields} (ho : vm.heap[a]? = some ⟨frozen, .inst cls fields⟩) (field : ℕ)
      (value : DiamondValue) : Mutator env vm a (.setIvar (.object a) field value)
  | setIvarName {frozen cls fields field name} (ho : vm.heap[a]? = some ⟨frozen, .inst cls fields⟩)
      (hfield : env.fieldIndex cls name = some field) (hlt : field < fields.length)
      (value : DiamondValue) : Mutator env vm a (.setIvarName (.object a) name value)

lemma object?_of_heap (ho : vm.heap[a]? = some o) : vm.object? (.object a) = some (a, o) := by
  rw [object?, ho]
  rfl

lemma indexSet_of_frozen (hobject : vm.object? receiver = some (a, o)) (hfrozen : o.frozen = true) :
    indexSet env mem vm receiver index source =
      diamondJitIndexSet env mem vm receiver index source := by
  unfold indexSet
  split
  case h_1 hobject' =>
    cases hobject.symm.trans hobject'
    exact if_neg fun hfast => hfast.2.2.1 hfrozen
  case h_2 => rfl

lemma execute_of_mutator {operation} (h : Mutator env vm a operation)
    (ho : vm.heap[a]? = some o) (hfrozen : o.frozen = true) :
    execute env mem vm operation = some (.failed .frozenError none, vm) := by
  cases h with
  | @indexSetArray _ _ ho' _ _ | @indexSetHash _ _ _ ho' _ _ =>
    cases ho.symm.trans ho'
    cases hfrozen
    have hobject := object?_of_heap ho
    rw [execute, indexSet_of_frozen hobject rfl, diamondJitIndexSet, hobject]
    rfl
  | @push _ _ ho' hnative _ _ | @pop _ _ ho' hnative _ =>
    cases ho.symm.trans ho'
    cases hfrozen
    simp [execute, invoke, object?_of_heap ho, collectionInvoke, collectionInvokeFast, hnative,
      arrayInvoke]
  | @clear _ _ _ ho' hnative _ | @delete _ _ _ ho' hnative _ _ =>
    cases ho.symm.trans ho'
    cases hfrozen
    simp [execute, invoke, object?_of_heap ho, collectionInvoke, collectionInvokeFast, hnative,
      hashInvoke]
  | @setIvar _ _ _ ho' _ _ =>
    cases ho.symm.trans ho'
    cases hfrozen
    simp [execute, diamondJitSetIvar, object?_of_heap ho]
  | @setIvarName _ _ _ _ _ ho' hfield hlt _ =>
    cases ho.symm.trans ho'
    cases hfrozen
    simp [execute, setIvarName, object?_of_heap ho, hfield, Nat.not_le.2 hlt]

end

end Diamond.Freeze
