import Diamond.Freeze.Prelude

/-!
# Frozen objects stay as they are

The three operations that do not test `frozen` do change frozen objects; no other does.
-/

namespace Diamond.Freeze

open Relation (ReflTransGen)

/-- The runs from a state by any operations with any operands, as long as those that do not test
`frozen` are not given a frozen object. -/
def sparingMachine (env : Environment) (start : DiamondVm) : Machine DiamondVm where
  initial vm := vm = start
  step vm vm' := ∃ mem operation outcome, Spares env vm operation ∧
    execute env mem vm operation = some (outcome, vm')

variable {env : Environment} {start vm : DiamondVm} {a : Address} {o : DiamondObject}

lemma kept_of_reachable (ho : start.heap[a]? = some o) (hfrozen : o.frozen = true)
    (h : (sparingMachine env start).Reachable vm) : vm.heap[a]? = some o := by
  apply h.invariant
  · rintro _ rfl
    exact ho
  · rintro vm _ _ hkept ⟨_, operation, _, hspares, hexecute⟩
    exact keeps_of_moves (moves_of_execute hspares hexecute) hkept hfrozen

/-- Once an object is frozen, it stays as it is in every run that spares it where `frozen` is not
tested.  In every state of such a run, an operation that would write to it raises FrozenError and
changes nothing, a method of the prelude that would is refused, and no method of the prelude changes
it. -/
theorem frozen_object_kept (ho : start.heap[a]? = some o) (hfrozen : o.frozen = true)
    (h : (sparingMachine env start).Reachable vm) : vm.heap[a]? = some o ∧
    (∀ mem operation, Mutator env vm a operation →
      execute env mem vm operation = some (.failed .frozenError none, vm)) ∧
    (∀ mem (call : PreludeCall), env.extension .array .push = false →
      env.extension .array .pop = false → call.Applies vm o.payload →
        Refused env mem (call.script (.object a)) vm) ∧
    ∀ mem (call : PreludeCall) values outcome vm',
      (call.script values).run env mem vm = some (outcome, vm') → vm'.heap[a]? = some o := by
  have hkept := kept_of_reachable ho hfrozen h
  refine ⟨hkept, fun mem operation hmutator => ?_, fun mem call hpush hpop happlies => ?_,
    fun mem call values outcome vm' hrun => ?_⟩
  · exact execute_of_mutator hmutator hkept hfrozen
  · exact call.refused hkept hfrozen hpush hpop happlies
  · exact keeps_of_moves (Script.moves hrun) hkept hfrozen

/-- A program without classes and functions of its own, in which every class is an Exception's. -/
def plainEnvironment : Environment where
  hashValue _ _ := 0
  valuesEqual _ left right := left = right
  matchesSet _ _ _ := true
  formatType _ _ := "Object"
  rangeClass := none
  asInteger _ := 0
  asBoolean _ := false
  isException _ := true
  hasMethod _ _ := false
  fieldIndex _ _ := none
  hasSuperclass _ := true
  superHasMethod _ _ := false
  superIsException _ := true
  extension _ _ := false
  extensionCached _ _ := false
  suggestion _ _ := ""

def enoughMemory : Memory := ⟨⟨true, true, true⟩, true⟩

/-- `[1].freeze()`, and a frozen exception. -/
def frozenVm : DiamondVm where
  heap := [⟨true, .array ⟨[.integer 1], 1, []⟩⟩, ⟨true, .inst 0 [.nil, .nil, .nil]⟩]

theorem frozen_object_kept_push :
    execute plainEnvironment enoughMemory frozenVm (.invoke default (.object 0) .push [.integer 2]) =
      some (.failed .frozenError none, frozenVm) := by
  have hreachable : (sparingMachine plainEnvironment frozenVm).Reachable frozenVm := .start rfl
  exact (frozen_object_kept (a := 0) rfl rfl hreachable).2.1 _ _ (.push rfl rfl default _)

/-- `<<` pushes onto a frozen Array, `super` sets the message of a frozen exception, and `raise`
gives it a backtrace. -/
theorem frozen_objects_changed :
    (execute plainEnvironment enoughMemory frozenVm (.shiftLeft (.object 0) (.integer 2))).map
        (fun r => (r.1, r.2.heap[0]?)) =
      some (.ok (some (.object 0)), some ⟨true, .array ⟨[.integer 1, .integer 2], 8, []⟩⟩) ∧
    (execute plainEnvironment enoughMemory frozenVm
        (.superCall (.object 1) 0 "initialize" [.integer 7])).map (fun r => (r.1, r.2.heap[1]?)) =
      some (.ok (some .nil), some ⟨true, .inst 0 [.integer 7, .nil, .nil]⟩) ∧
    (execute plainEnvironment enoughMemory frozenVm (.raise (.object 1) 0)).map
        (fun r => (r.1, r.2.heap[1]?)) =
      some (.failed .exception none, some ⟨true, .inst 0 [.nil, .nil, .object 2]⟩) := by
  refine ⟨rfl, ?_, rfl⟩
  decide

end Diamond.Freeze
