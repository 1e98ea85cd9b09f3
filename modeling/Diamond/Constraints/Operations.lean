import Diamond.Constraints.Pinned
import Diamond.Lib.Transition

/-!
# Operations on constrained containers

Model of the writers of Arrays and Hashes: `push` of `collection_invoke_helper`, `<<` of
`run_chunk`, index, range and key assignment of `diamond_jit_index_set`, the removals, `dup`, and
the type check that attaches constraints.

Each writer checks a value against every constraint of its container before the first write.  The
loop reads the constraints as it goes, since the check can add to them.
-/

namespace Diamond.Constraints

inductive Status
  | ok
  | typeError (message : String)
  | frozenError
  | indexError (message : String)
  | outOfMemory
  deriving DecidableEq, Repr

def arrayViolation : Status := .typeError "array element violates its type annotation"

def hashViolation : Status := .typeError "hash entry violates its type annotation"

section
variable {L P : Type}

/-- What a program does next.  `allocated` says whether the storage can grow. -/
inductive Operation (L P : Type)
  | newArray (values : List (Value L))
  | newHash
  /-- A type check of a value, in a parameter, a variable or a return. -/
  | checkType (context : Context P) (set : TypeSet P) (v : Value L)
  | push (r : ℕ) (v : Value L) (allocated : Bool)
  | shiftLeft (r : ℕ) (v : Value L) (allocated : Bool)
  | setIndex (r : ℕ) (index : ℤ) (v : Value L)
  | setRange (r : ℕ) (start : ℤ) (stop : Option ℤ) (exclusive : Bool) (source : Value L)
  | setKey (r : ℕ) (key value : Value L) (allocated : Bool)
  | pop (r : ℕ)
  | delete (r : ℕ) (key : Value L)
  | clear (r : ℕ)
  | dup (r : ℕ)
  | freeze (r : ℕ)

variable [DecidableEq P] (types : Types L P)

/-! ## Checks against all constraints -/

def arrayConstraints (h : Heap L P) (r : ℕ) : List (ArrayConstraint P) :=
  match h[r]? with
  | some (.array _ _ constraints) => constraints
  | _ => []

def hashConstraints (h : Heap L P) (r : ℕ) : List (HashConstraint P) :=
  match h[r]? with
  | some (.hash _ _ constraints) => constraints
  | _ => []

omit [DecidableEq P] in
/-- The loop over the constraints of a container, from an index; there are at most four. -/
def constraintLoop {C : Type} (constraints : Heap L P → List C)
    (check : C → Heap L P → Bool × Heap L P) : ℕ → ℕ → Heap L P → Bool × Heap L P
  | 0, _, h => (true, h)
  | fuel + 1, index, h =>
    match (constraints h)[index]? with
    | some c => andThen (check c h) (constraintLoop constraints check fuel (index + 1))
    | none => (true, h)

def arrayValueSatisfiesConstraints (r : ℕ) (v : Value L) (h : Heap L P) : Bool × Heap L P :=
  constraintLoop (fun h => arrayConstraints h r)
    (fun c h => attachSet types ⟨c.table, c.bindings⟩ c.set h v) 4 0 h

def hashEntrySatisfiesConstraints (r : ℕ) (key value : Value L) (h : Heap L P) : Bool × Heap L P :=
  constraintLoop (fun h => hashConstraints h r)
    (fun c h => andThen (attachSet types ⟨c.table, c.bindings⟩ c.keySet h key)
      fun h => attachSet types ⟨c.table, c.bindings⟩ c.valueSet h value) 4 0 h

/-! ## Writers -/

omit [DecidableEq P] in
def writeArray (h : Heap L P) (r : ℕ) (f : List (Value L) → List (Value L)) : Heap L P :=
  match h[r]? with
  | some (.array frozen values constraints) => h.set r (.array frozen (f values) constraints)
  | _ => h

omit [DecidableEq P] in
def writeHash (h : Heap L P) (r : ℕ)
    (f : List (Value L × Value L) → List (Value L × Value L)) : Heap L P :=
  match h[r]? with
  | some (.hash frozen entries constraints) => h.set r (.hash frozen (f entries) constraints)
  | _ => h

omit [DecidableEq P] in
/-- What follows a check: the rest of the operation, or a refusal. -/
def orRefuse (check : Bool × Heap L P) (status : Status) (next : Heap L P → Heap L P × Status) :
    Heap L P × Status :=
  match check with
  | (true, h) => next h
  | (false, h) => (h, status)

def checkedPush (h : Heap L P) (r : ℕ) (v : Value L) (allocated : Bool) : Heap L P × Status :=
  orRefuse (arrayValueSatisfiesConstraints types r v h) arrayViolation fun h =>
    if allocated then (writeArray h r (· ++ [v]), .ok) else (h, .outOfMemory)

/-- `resolve_array_range`: where a range starts in an Array of this many elements, and its length.
-/
def resolveArrayRange (count : ℕ) (start : ℤ) (stop : Option ℤ) (exclusive : Bool) :
    Option (ℕ × ℕ) :=
  let start := if start < 0 then start + count else start
  let last := stop.getD (-1)
  let last := if last < 0 then last + count else last
  if start < 0 ∨ (count : ℤ) < start then none
  else
    let requested := if last < start then 0
      else last - start + if stop.isSome ∧ exclusive then 0 else 1
    some (start.toNat, min requested.toNat (count - start.toNat))

omit [DecidableEq P] in
/-- `hash_set` on the pairs in their order. -/
def hashSet (same : Value L → Value L → Bool) (key value : Value L) :
    List (Value L × Value L) → List (Value L × Value L)
  | [] => [(key, value)]
  | e :: rest => if same e.1 key then (e.1, value) :: rest else e :: hashSet same key value rest

def perform (h : Heap L P) : Operation L P → Heap L P × Status
  | .newArray values => (h ++ [.array false values []], .ok)
  | .newHash => (h ++ [.hash false [] []], .ok)
  | .checkType context set v =>
    orRefuse (attachSet types context set h v) (.typeError "") fun h => (h, .ok)
  | .push r v allocated =>
    match h[r]? with
    | some (.array frozen _ _) => if frozen then (h, .frozenError) else checkedPush types h r v allocated
    | _ => (h, .typeError "")
  | .shiftLeft r v allocated =>
    match h[r]? with
    | some (.array ..) => checkedPush types h r v allocated
    | _ => (h, .typeError "'<<' expects an Int shift amount or a value to push onto an Array")
  | .setIndex r index v =>
    match h[r]? with
    | some (.array frozen values _) =>
      if frozen then (h, .frozenError)
      else
        let position := if index < 0 then index + values.length else index
        if position < 0 ∨ (values.length : ℤ) ≤ position then
          (h, .indexError ("index " ++ toString index ++ " out of bounds for Array of length " ++
            toString values.length))
        else
          orRefuse (arrayValueSatisfiesConstraints types r v h) arrayViolation fun h =>
            (writeArray h r (·.set position.toNat v), .ok)
    | _ => (h, .typeError "")
  | .setRange r start stop exclusive source =>
    match h[r]? with
    | some (.array frozen values _) =>
      if frozen then (h, .frozenError)
      else
        match resolveArrayRange values.length start stop exclusive with
        | none => (h, .indexError ("index " ++ toString start ++
            " out of bounds for Array of length " ++ toString values.length))
        | some (first, length) =>
          match valuesOf h source with
          | some replacement =>
            if replacement.length = length then
              orRefuse (checkAll (fun h x => arrayValueSatisfiesConstraints types r x h) replacement h)
                arrayViolation fun h => (writeArray h r fun values =>
                  values.take first ++ replacement ++ values.drop (first + length), .ok)
            else (h, .typeError ("range assignment requires a replacement Array of exactly " ++
              toString length ++ " element(s)"))
          | none => (h, .typeError ("range assignment requires a replacement Array of exactly " ++
              toString length ++ " element(s)"))
    | _ => (h, .typeError "")
  | .setKey r key value allocated =>
    match h[r]? with
    | some (.hash frozen _ _) =>
      if frozen then (h, .frozenError)
      else
        orRefuse (hashEntrySatisfiesConstraints types r key value h) hashViolation fun h =>
          if allocated then (writeHash h r (hashSet (types.sameKey h) key value), .ok)
          else (h, .outOfMemory)
    | _ => (h, .typeError "")
  | .pop r =>
    match h[r]? with
    | some (.array frozen _ _) =>
      if frozen then (h, .frozenError) else (writeArray h r List.dropLast, .ok)
    | _ => (h, .typeError "")
  | .delete r key =>
    match h[r]? with
    | some (.hash frozen _ _) =>
      if frozen then (h, .frozenError)
      else (writeHash h r (List.eraseP fun e => types.sameKey h e.1 key), .ok)
    | _ => (h, .typeError "")
  | .clear r =>
    match h[r]? with
    | some (.hash frozen _ _) =>
      if frozen then (h, .frozenError) else (writeHash h r fun _ => [], .ok)
    | _ => (h, .typeError "")
  | .dup r =>
    match h[r]? with
    | some (.array _ values _) => (h ++ [.array false values []], .ok)
    | some (.hash _ entries _) => (h ++ [.hash false entries []], .ok)
    | none => (h, .ok)
  | .freeze r =>
    match h[r]? with
    | some (.array _ values constraints) => (h.set r (.array true values constraints), .ok)
    | some (.hash _ entries constraints) => (h.set r (.hash true entries constraints), .ok)
    | none => (h, .ok)

def machine : Machine (Heap L P) where
  initial h := h = []
  step h h' := ∃ operation, (perform types h operation).1 = h'

/-- Type variables are only on their own in a type check, or stand for types without arguments
directly in the outermost container; and no range assignment succeeds whose check of the replacement
gave the Array that is written to a new constraint. -/
def Operation.Closed (h : Heap L P) : Operation L P → Prop
  | .checkType context set _ => set.all (outerMember context.bindings) = true
  | .setRange r _ _ _ source => ∀ replacement h', valuesOf h source = some replacement →
      checkAll (fun h x => arrayValueSatisfiesConstraints types r x h) replacement h = (true, h') →
      arrayConstraints h' r = arrayConstraints h r
  | _ => True

def closedMachine : Machine (Heap L P) where
  initial h := h = []
  step h h' := ∃ operation : Operation L P,
    operation.Closed types h ∧ (perform types h operation).1 = h'

end

end Diamond.Constraints
