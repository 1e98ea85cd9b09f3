import Mathlib.Tactic

/-!
# Type sets and the constraints of containers

Model of `value_matches_set` in `src/vm_types.c`.  With `attach` it does not only test a value:
every Array or Hash that a type with arguments accepts gets a constraint, so that it keeps to the
type from then on.

The class and interface tables are a parameter, as is the equality of Hash keys.  An index into a
table of type sets is the set itself, with the table it is from.
-/

namespace Diamond.Constraints

/-- A type without arguments: one of the containers, or another one of the program. -/
inductive TypeId (P : Type)
  | array
  | hash
  | other (id : P)
  deriving DecidableEq, Repr

/-- `DiamondTypeMember`, without native kinds, classes with arguments and typed callables. -/
inductive TypeMember (P : Type)
  | plain (id : TypeId P)
  | typeVariable (index : ℕ)
  | array (elements : List (TypeMember P))
  | hash (keys values : List (TypeMember P))

abbrev TypeSet (P : Type) := List (TypeMember P)

inductive Value (L : Type)
  | leaf (l : L)
  | ref (r : ℕ)
  deriving DecidableEq, Repr

inductive Kind (L : Type)
  | leaf (l : L)
  | array
  | hash
  | missing
  deriving DecidableEq, Repr

/-- A constraint of an Array: a set from a table, and what its type variables are bound to. -/
structure ArrayConstraint (P : Type) where
  table : ℕ
  set : TypeSet P
  bindings : List (TypeSet P)

structure HashConstraint (P : Type) where
  table : ℕ
  keySet : TypeSet P
  valueSet : TypeSet P
  bindings : List (TypeSet P)

inductive Object (L P : Type)
  | array (frozen : Bool) (values : List (Value L)) (constraints : List (ArrayConstraint P))
  | hash (frozen : Bool) (entries : List (Value L × Value L))
      (constraints : List (HashConstraint P))

abbrev Heap (L P : Type) := List (Object L P)

/-- The tables of the program.  `satisfies` is `runtime_type_id_satisfies`. -/
structure Types (L P : Type) where
  accepts : P → Kind L → Bool
  satisfies : TypeId P → TypeId P → Bool
  /-- Whether two values are one Hash key. -/
  sameKey : Heap L P → Value L → Value L → Bool

/-- The chunk that a check is made in: its table of type sets, and its bound type variables. -/
structure Context (P : Type) where
  table : ℕ
  bindings : List (TypeSet P)

section
variable {L P : Type}

def kindOf (h : Heap L P) : Value L → Kind L
  | .leaf l => .leaf l
  | .ref r =>
    match h[r]? with
    | some (.array ..) => .array
    | some (.hash ..) => .hash
    | none => .missing

def valuesOf (h : Heap L P) : Value L → Option (List (Value L))
  | .leaf _ => none
  | .ref r =>
    match h[r]? with
    | some (.array _ values _) => some values
    | _ => none

def entriesOf (h : Heap L P) : Value L → Option (List (Value L × Value L))
  | .leaf _ => none
  | .ref r =>
    match h[r]? with
    | some (.hash _ entries _) => some entries
    | _ => none

variable (types : Types L P)

/-- `value_matches_type`, but for type variables. -/
def matchesId : TypeId P → Kind L → Bool
  | .array, .array => true
  | .hash, .hash => true
  | .other _, .missing => false
  | .other id, kind => types.accepts id kind
  | _, _ => false

/-! ## Tests -/

mutual

/-- `value_matches_member` without `attach`; `vars` decides for the type variables. -/
def matchesMember (h : Heap L P) (vars : ℕ → Value L → Bool) : TypeMember P → Value L → Bool
  | .plain id, v => matchesId types id (kindOf h v)
  | .typeVariable index, v => vars index v
  | .array elements, v =>
    match valuesOf h v with
    | some values => values.all fun x => matchesSet h vars elements x
    | none => false
  | .hash keys vals, v =>
    match entriesOf h v with
    | some entries => entries.all fun e => matchesSet h vars keys e.1 && matchesSet h vars vals e.2
    | none => false

/-- `value_matches_set` without `attach`. -/
def matchesSet (h : Heap L P) (vars : ℕ → Value L → Bool) : TypeSet P → Value L → Bool
  | [], _ => false
  | member :: rest, v => matchesMember h vars member v || matchesSet h vars rest v

end

/-- `value_matches_bound_node`, for what a type variable is bound to. -/
def matchesBound (h : Heap L P) (set : TypeSet P) (v : Value L) : Bool :=
  matchesSet types h (fun _ _ => true) set v

def matchesVariable (h : Heap L P) (bindings : List (TypeSet P)) (index : ℕ) (v : Value L) : Bool :=
  match bindings[index]? with
  | some set => matchesBound types h set v
  | none => true

/-! ## Constraints that say enough -/

mutual

/-- `runtime_member_satisfies`. -/
def memberSatisfies : TypeMember P → TypeMember P → Bool
  | .typeVariable _, _ => true
  | .plain _, .typeVariable _ => true
  | .array _, .typeVariable _ => true
  | .hash _ _, .typeVariable _ => true
  | .plain known, .plain expected => types.satisfies known expected
  | .array _, .plain expected => types.satisfies .array expected
  | .hash _ _, .plain expected => types.satisfies .hash expected
  | .array known, .array expected => setSatisfies known expected
  | .hash keys vals, .hash keys' vals' => setSatisfies keys keys' && setSatisfies vals vals'
  | .plain _, .array _ => false
  | .plain _, .hash _ _ => false
  | .array _, .hash _ _ => false
  | .hash _ _, .array _ => false

/-- `runtime_set_satisfies`. -/
def setSatisfies : TypeSet P → TypeSet P → Bool
  | [], _ => true
  | known :: rest, expected =>
    (expected.any fun member => memberSatisfies known member) && setSatisfies rest expected

end

def constraintAlreadyImplies (held context : List (TypeSet P)) (known wanted : TypeSet P) : Bool :=
  held.isEmpty && context.isEmpty && setSatisfies types known wanted

mutual

def sameMember [DecidableEq P] : TypeMember P → TypeMember P → Bool
  | .plain id, .plain id' => id == id'
  | .typeVariable index, .typeVariable index' => index == index'
  | .array elements, .array elements' => sameSet elements elements'
  | .hash keys vals, .hash keys' vals' => sameSet keys keys' && sameSet vals vals'
  | _, _ => false

def sameSet [DecidableEq P] : TypeSet P → TypeSet P → Bool
  | [], [] => true
  | member :: rest, member' :: rest' => sameMember member member' && sameSet rest rest'
  | _, _ => false

end

/-! ## Attaching -/

variable [DecidableEq P]

/-- The part of `value_matches_member` that records a constraint of an Array. -/
def addArrayConstraint (context : Context P) (set : TypeSet P) (r : ℕ) (h : Heap L P) :
    Bool × Heap L P :=
  match h[r]? with
  | some (.array frozen values constraints) =>
    if constraints.any fun c => c.table == context.table && sameSet c.set set then (true, h)
    else if constraints.any fun c =>
        constraintAlreadyImplies types c.bindings context.bindings c.set set then (true, h)
    else if constraints.length = 4 then (false, h)
    else (true, h.set r (.array frozen values
      (constraints ++ [⟨context.table, set, context.bindings⟩])))
  | _ => (false, h)

/-- The part of `value_matches_member` that records a constraint of a Hash. -/
def addHashConstraint (context : Context P) (keySet valueSet : TypeSet P) (r : ℕ) (h : Heap L P) :
    Bool × Heap L P :=
  match h[r]? with
  | some (.hash frozen entries constraints) =>
    if constraints.any fun c => c.table == context.table && sameSet c.keySet keySet &&
        sameSet c.valueSet valueSet then (true, h)
    else if constraints.any fun c =>
        constraintAlreadyImplies types c.bindings context.bindings c.keySet keySet &&
          constraintAlreadyImplies types c.bindings context.bindings c.valueSet valueSet then (true, h)
    else if constraints.length = 4 then (false, h)
    else (true, h.set r (.hash frozen entries
      (constraints ++ [⟨context.table, keySet, valueSet, context.bindings⟩])))
  | _ => (false, h)

omit [DecidableEq P] in
/-- A check of one item after the other, up to the first that fails. -/
def checkAll {α : Type} (check : Heap L P → α → Bool × Heap L P) :
    List α → Heap L P → Bool × Heap L P
  | [], h => (true, h)
  | x :: rest, h =>
    match check h x with
    | (true, h) => checkAll check rest h
    | (false, h) => (false, h)

omit [DecidableEq P] in
def andThen (check : Bool × Heap L P) (next : Heap L P → Bool × Heap L P) : Bool × Heap L P :=
  match check with
  | (true, h) => next h
  | (false, h) => (false, h)

mutual

/-- `value_matches_member` with `attach`. -/
def attachMember (context : Context P) : TypeMember P → Heap L P → Value L → Bool × Heap L P
  | .plain id, h, v => (matchesId types id (kindOf h v), h)
  | .typeVariable index, h, v => (matchesVariable types h context.bindings index v, h)
  | .array elements, h, .ref r =>
    match valuesOf h (.ref r) with
    | some values =>
      if values.all fun x => matchesSet types h (matchesVariable types h context.bindings) elements x
      then
        andThen (checkAll (fun h x => attachSet context elements h x) values h)
          (addArrayConstraint types context elements r)
      else (false, h)
    | none => (false, h)
  | .hash keys vals, h, .ref r =>
    match entriesOf h (.ref r) with
    | some entries =>
      if entries.all fun e =>
          matchesSet types h (matchesVariable types h context.bindings) keys e.1 &&
            matchesSet types h (matchesVariable types h context.bindings) vals e.2
      then
        andThen (checkAll (fun h e => andThen (attachSet context keys h e.1)
            fun h => attachSet context vals h e.2) entries h)
          (addHashConstraint types context keys vals r)
      else (false, h)
    | none => (false, h)
  | .array _, h, .leaf _ => (false, h)
  | .hash _ _, h, .leaf _ => (false, h)

/-- `value_matches_set` with `attach`. -/
def attachSet (context : Context P) : TypeSet P → Heap L P → Value L → Bool × Heap L P
  | [], h, _ => (false, h)
  | member :: rest, h, v =>
    match attachMember context member h v with
    | (true, h) => (true, h)
    | (false, h) => attachSet context rest h v

end

end

end Diamond.Constraints
