import Diamond.Constraints.Matching

/-!
# What a constraint keeps in place

A container that a type with arguments accepts is `Pinned` to it by a constraint of its own.  This
does not change when containers do, as long as every write keeps to the constraints of its
container; so what a constraint admitted once it admits for good.

It is so for types without type variables: a value is tested against what a variable is bound to,
and not pinned to it.  Directly in the outermost container a variable may stand for types without
arguments: such a type has nothing to be pinned to.
-/

namespace Diamond.Constraints

open List Bool

open Relation (ReflTransGen)

attribute [local simp] memberSatisfies

section
variable {L P : Type}

mutual

/-- No type variable occurs in a member. -/
def closedMember : TypeMember P → Bool
  | .plain _ => true
  | .typeVariable _ => false
  | .array elements => closedSet elements
  | .hash keys vals => closedSet keys && closedSet vals

def closedSet : TypeSet P → Bool
  | [] => true
  | member :: rest => closedMember member && closedSet rest

end

variable {s : TypeSet P}

lemma closedSet_iff : closedSet s = true ↔ ∀ m ∈ s, closedMember m = true := by
  induction s with
  | nil => simp [closedSet]
  | cons _ _ ih => simp [closedSet, ih]

def TypeMember.isPlain : TypeMember P → Bool
  | .plain _ => true
  | _ => false

/-- A member without type variables, or a variable that is bound to types without arguments. -/
def shallowMember (bindings : List (TypeSet P)) : TypeMember P → Bool
  | .typeVariable index => (bindings[index]?).any fun set => set.all TypeMember.isPlain
  | member => closedMember member

def shallowSet (bindings : List (TypeSet P)) (s : TypeSet P) : Bool := s.all (shallowMember bindings)

/-- A type variable on its own, or a type with a shallow set in it. -/
def outerMember (bindings : List (TypeSet P)) : TypeMember P → Bool
  | .plain _ | .typeVariable _ => true
  | .array elements => shallowSet bindings elements
  | .hash keys vals => shallowSet bindings keys && shallowSet bindings vals

lemma closedSet.shallow (hclosed : closedSet s = true) (bindings : List (TypeSet P)) :
    shallowSet bindings s = true := by
  refine all_eq_true.2 fun m hm => ?_
  have hmember := closedSet_iff.1 hclosed m hm
  cases m with
  | typeVariable => cases hmember
  | plain | array | hash => exact hmember

lemma outer_of_shallow {bindings} {m : TypeMember P} (h : shallowMember bindings m = true) :
    outerMember bindings m = true := by
  cases m with
  | plain | typeVariable => rfl
  | array => exact closedSet.shallow h bindings
  | hash =>
    have hboth := (and_eq_true _ _).mp h
    rw [outerMember, closedSet.shallow hboth.1, closedSet.shallow hboth.2, Bool.and_self]

/-- Without bindings there are no variables in a shallow set. -/
lemma closedSet_of_shallow_nil (hshallow : shallowSet [] s = true) : closedSet s = true := by
  refine closedSet_iff.2 fun m hm => ?_
  have hmember := all_eq_true.1 hshallow m hm
  cases m with
  | typeVariable => cases hmember
  | plain | array | hash => exact hmember

/-- A type that satisfies another accepts no more. -/
def Types.Sound (types : Types L P) : Prop :=
  ∀ id id' kind, types.satisfies id id' = true → matchesId types id kind = true →
    matchesId types id' kind = true

variable (types : Types L P)

/-- A set that is reached from another one without variables by tests that it says enough. -/
def Implies (s s' : TypeSet P) : Prop := closedSet s = true ∧
  ReflTransGen (fun s s' => setSatisfies types s s' = true ∧ closedSet s' = true) s s'

/-- A value that a member accepts, and that stays so. -/
def PinnedMember (h : Heap L P) : TypeMember P → Value L → Prop
  | .plain id, v => matchesId types id (kindOf h v) = true
  | .typeVariable _, _ => False
  | .array elements, v => ∃ (r : ℕ) (frozen : Bool) (values : List (Value L))
      (constraints : List (ArrayConstraint P)), v = .ref r ∧
      h[r]? = some (.array frozen values constraints) ∧
      ∃ c ∈ constraints, Implies types c.set elements
  | .hash keys vals, v => ∃ (r : ℕ) (frozen : Bool) (entries : List (Value L × Value L))
      (constraints : List (HashConstraint P)), v = .ref r ∧
      h[r]? = some (.hash frozen entries constraints) ∧
      ∃ c ∈ constraints, Implies types c.keySet keys ∧ Implies types c.valueSet vals

def Pinned (h : Heap L P) (s : TypeSet P) (v : Value L) : Prop := ∃ m ∈ s, PinnedMember types h m v

/-- A value that is pinned to a set, or of a type without arguments that a variable is bound to. -/
def Admitted (h : Heap L P) (bindings : List (TypeSet P)) (s : TypeSet P) (v : Value L) : Prop :=
  Pinned types h s v ∨ ∃ index set id, .typeVariable index ∈ s ∧ bindings[index]? = some set ∧
    .plain id ∈ set ∧ PinnedMember types h (.plain id) v

/-- A container has a constraint by which a value in it is in the set. -/
inductive Object.Obliges : Object L P → List (TypeSet P) → TypeSet P → Value L → Prop
  | element {frozen values constraints c x} : c ∈ constraints → x ∈ values →
      Object.Obliges (.array frozen values constraints) c.bindings c.set x
  | key {frozen entries constraints c e} : c ∈ constraints → e ∈ entries →
      Object.Obliges (.hash frozen entries constraints) c.bindings c.keySet e.1
  | value {frozen entries constraints c e} : c ∈ constraints → e ∈ entries →
      Object.Obliges (.hash frozen entries constraints) c.bindings c.valueSet e.2

def Object.Closed : Object L P → Prop
  | .array _ _ constraints =>
    constraints.length ≤ 4 ∧ ∀ c ∈ constraints, shallowSet c.bindings c.set = true
  | .hash _ _ constraints =>
    constraints.length ≤ 4 ∧ ∀ c ∈ constraints, shallowSet c.bindings c.keySet = true ∧
      shallowSet c.bindings c.valueSet = true

/-- The invariant of the heap. -/
structure Good (h : Heap L P) : Prop where
  closed : ∀ (r : ℕ) o, h[r]? = some o → o.Closed
  admitted : ∀ (r : ℕ) o, h[r]? = some o → ∀ bindings s x, o.Obliges bindings s x →
    Admitted types h bindings s x

/-! ## Pinned values match -/

variable {types} {h h' h'' : Heap L P} {v : Value L} {S : ℕ → Prop}

lemma setSatisfies_iff {known expected : TypeSet P} : setSatisfies types known expected = true ↔
      ∀ m ∈ known, ∃ m' ∈ expected, memberSatisfies types m m' = true := by
  induction known with
  | nil => simp [setSatisfies]
  | cons _ _ ih => simp [setSatisfies, ih]

lemma PinnedMember.satisfies (hsound : types.Sound) {m m' : TypeMember P}
    (hpinned : PinnedMember types h m v) (hsatisfies : memberSatisfies types m m' = true)
    (hclosed : closedMember m' = true) : PinnedMember types h m' v := by
  cases m with
  | typeVariable => exact hpinned.elim
  | plain =>
    cases m' with
    | plain => exact hsound _ _ _ (by simpa using hsatisfies) hpinned
    | typeVariable => simp [closedMember] at hclosed
    | array | hash => simp at hsatisfies
  | array known =>
    obtain ⟨r, frozen, values, constraints, rfl, hr, c, hc, himplies⟩ := hpinned
    cases m' with
    | plain =>
      refine hsound .array _ _ (by simpa using hsatisfies) ?_
      simp [kindOf, hr, matchesId]
    | typeVariable => simp [closedMember] at hclosed
    | array elements =>
      have hsatisfies : setSatisfies types known elements = true := by
        simpa using hsatisfies
      exact ⟨r, frozen, values, constraints, rfl, hr, c, hc, himplies.1, himplies.2.tail
        ⟨hsatisfies, by simpa [closedMember] using hclosed⟩⟩
    | hash => simp at hsatisfies
  | hash keys vals =>
    obtain ⟨r, frozen, entries, constraints, rfl, hr, c, hc, hkeys, hvals⟩ := hpinned
    cases m' with
    | plain =>
      refine hsound .hash _ _ (by simpa using hsatisfies) ?_
      simp [kindOf, hr, matchesId]
    | typeVariable => simp [closedMember] at hclosed
    | array => simp at hsatisfies
    | hash keys' vals' =>
      have hsatisfies : setSatisfies types keys keys' = true ∧
          setSatisfies types vals vals' = true := by
        simpa using hsatisfies
      have hclosed : closedSet keys' = true ∧ closedSet vals' = true := by
        simpa [closedMember] using hclosed
      exact ⟨r, frozen, entries, constraints, rfl, hr, c, hc,
        ⟨hkeys.1, hkeys.2.tail ⟨hsatisfies.1, hclosed.1⟩⟩,
        hvals.1, hvals.2.tail ⟨hsatisfies.2, hclosed.2⟩⟩

lemma Pinned.implies (hsound : types.Sound) {s s' : TypeSet P} (hpinned : Pinned types h s v)
    (himplies : Implies types s s') : Pinned types h s' v := by
  obtain ⟨-, hchain⟩ := himplies
  induction hchain with
  | refl => exact hpinned
  | tail _ hlast ih =>
    obtain ⟨m, hm, hpinned⟩ := ih
    obtain ⟨m', hm', hsatisfies⟩ := setSatisfies_iff.1 hlast.1 m hm
    exact ⟨m', hm', hpinned.satisfies hsound hsatisfies (closedSet_iff.1 hlast.2 m' hm')⟩

lemma Admitted.pinned {bindings} (h₁ : Admitted types h bindings s v) (hclosed : closedSet s = true) :
    Pinned types h s v := by
  rcases h₁ with hpinned | ⟨_, _, _, hmem, _⟩
  · exact hpinned
  · cases closedSet_iff.1 hclosed _ hmem

lemma Admitted.cons {bindings} (h₁ : Admitted types h bindings s v) (m : TypeMember P) :
    Admitted types h bindings (m :: s) v := by
  rcases h₁ with ⟨m', hm', hpinned⟩ | ⟨index, set, id, hmem, hbound⟩
  · exact .inl ⟨m', mem_cons_of_mem _ hm', hpinned⟩
  · exact .inr ⟨index, set, id, mem_cons_of_mem _ hmem, hbound⟩

mutual

/-- What is pinned to a type is accepted by it, whatever its elements are by now. -/
theorem matchesMember_of_pinned (hsound : types.Sound) (hgood : Good types h)
    (vars : ℕ → Value L → Bool) : ∀ (m : TypeMember P) (v : Value L), PinnedMember types h m v →
    matchesMember types h vars m v = true
  | .plain id, v, hpinned => by
    rw [matchesMember]
    exact hpinned
  | .typeVariable index, v, hpinned => hpinned.elim
  | .array elements, v, ⟨r, frozen, values, constraints, hv, hr, c, hc, himplies⟩ => by
    subst hv
    simp only [matchesMember, valuesOf, hr, all_eq_true]
    intro x hx
    exact matchesSet_of_pinned hsound hgood vars elements x
      (((hgood.admitted _ _ hr _ _ _ (.element hc hx)).pinned himplies.1).implies hsound himplies)
  | .hash keys vals, v, ⟨r, frozen, entries, constraints, hv, hr, c, hc, hkeys, hvals⟩ => by
    subst hv
    simp only [matchesMember, entriesOf, hr, all_eq_true, and_eq_true]
    intro e he
    exact ⟨matchesSet_of_pinned hsound hgood vars keys e.1
        (((hgood.admitted _ _ hr _ _ _ (.key hc he)).pinned hkeys.1).implies hsound hkeys),
      matchesSet_of_pinned hsound hgood vars vals e.2
        (((hgood.admitted _ _ hr _ _ _ (.value hc he)).pinned hvals.1).implies hsound hvals)⟩

theorem matchesSet_of_pinned (hsound : types.Sound) (hgood : Good types h)
    (vars : ℕ → Value L → Bool) : ∀ (s : TypeSet P) (v : Value L), Pinned types h s v →
    matchesSet types h vars s v = true
  | [], v, ⟨m, hm, _⟩ => absurd hm not_mem_nil
  | m :: rest, v, ⟨m', hm', hpinned⟩ => by
    rw [matchesSet, or_eq_true]
    rcases mem_cons.1 hm' with heq | hrest
    · left
      exact matchesMember_of_pinned hsound hgood vars m v (heq ▸ hpinned)
    · right
      exact matchesSet_of_pinned hsound hgood vars rest v ⟨m', hrest, hpinned⟩

end

lemma matchesSet_iff {vars} : matchesSet types h vars s v = true ↔
      ∃ m ∈ s, matchesMember types h vars m v = true := by
  induction s with
  | nil => simp [matchesSet]
  | cons _ _ ih => simp [matchesSet, ih]

/-- What a set admits for good it accepts. -/
lemma matchesSet_of_admitted (hsound : types.Sound) (hgood : Good types h) {bindings}
    (h₁ : Admitted types h bindings s v) :
    matchesSet types h (matchesVariable types h bindings) s v = true := by
  rcases h₁ with hpinned | ⟨index, set, id, hmem, hset, hid, hplain⟩
  · exact matchesSet_of_pinned hsound hgood _ s v hpinned
  · refine matchesSet_iff.2 ⟨_, hmem, ?_⟩
    rw [matchesMember, matchesVariable, hset]
    refine matchesSet_iff.2 ⟨_, hid, ?_⟩
    rw [matchesMember]
    exact hplain

/-! ## Heaps that differ in constraints -/

inductive Object.Extends : Object L P → Object L P → Prop
  | array {frozen values constraints} (more : List (ArrayConstraint P)) :
      Object.Extends (.array frozen values constraints) (.array frozen values (constraints ++ more))
  | hash {frozen entries constraints} (more : List (HashConstraint P)) :
      Object.Extends (.hash frozen entries constraints) (.hash frozen entries (constraints ++ more))

lemma Object.Extends.refl (o : Object L P) : o.Extends o := by
  cases o with
  | array frozen values constraints =>
    have hsame : Object.Extends (.array frozen values constraints)
        (.array frozen values (constraints ++ [])) := .array []
    simpa using hsame
  | hash frozen entries constraints =>
    have hsame : Object.Extends (.hash frozen entries constraints)
        (.hash frozen entries (constraints ++ [])) := .hash []
    simpa using hsame

lemma Object.Extends.trans {o o' o'' : Object L P} (h : o.Extends o') (h' : o'.Extends o'') :
    o.Extends o'' := by
  cases h with
  | array =>
    cases h' with
    | array =>
      rw [append_assoc]
      exact .array _
  | hash =>
    cases h' with
    | hash =>
      rw [append_assoc]
      exact .hash _

/-- The containers in `S` may have more constraints; nothing else is different. -/
structure Extends (S : ℕ → Prop) (h h' : Heap L P) : Prop where
  outside : ∀ r : ℕ, ¬S r → h'[r]? = h[r]?
  missing : ∀ r : ℕ, h[r]? = none → h'[r]? = none
  object : ∀ (r : ℕ) o, h[r]? = some o → ∃ o', h'[r]? = some o' ∧ o.Extends o'

lemma Extends.refl (S : ℕ → Prop) (h : Heap L P) : Extends S h h :=
  ⟨fun _ _ => rfl, fun _ hr => hr, fun _ o hr => ⟨o, hr, .refl o⟩⟩

section
variable (h₁ : Extends S h h')
include h₁

lemma Extends.trans (h₂ : Extends S h' h'') : Extends S h h'' := by
  refine ⟨fun r hr => (h₂.outside r hr).trans (h₁.outside r hr),
    fun r hr => h₂.missing r (h₁.missing r hr), fun r o hr => ?_⟩
  obtain ⟨o', hr', ho'⟩ := h₁.object r o hr
  obtain ⟨o'', hr'', ho''⟩ := h₂.object r o' hr'
  exact ⟨o'', hr'', ho'.trans ho''⟩

lemma Extends.array {r : ℕ} {frozen values constraints}
    (hr : h[r]? = some (.array frozen values constraints)) :
    ∃ more, h'[r]? = some (.array frozen values (constraints ++ more)) := by
  obtain ⟨_, hr', ho'⟩ := h₁.object r _ hr
  cases ho' with
  | array more => exact ⟨more, hr'⟩

lemma Extends.hash {r : ℕ} {frozen entries constraints}
    (hr : h[r]? = some (.hash frozen entries constraints)) :
    ∃ more, h'[r]? = some (.hash frozen entries (constraints ++ more)) := by
  obtain ⟨_, hr', ho'⟩ := h₁.object r _ hr
  cases ho' with
  | hash more => exact ⟨more, hr'⟩

lemma Extends.contents_eq (v : Value L) :
    valuesOf h' v = valuesOf h v ∧ entriesOf h' v = entriesOf h v := by
  cases v with
  | leaf => exact ⟨rfl, rfl⟩
  | ref r =>
    cases hr : h[r]? with
    | none => simp [valuesOf, entriesOf, hr, h₁.missing r hr]
    | some o =>
      cases o with
      | array =>
        obtain ⟨_, hr'⟩ := h₁.array hr
        simp [valuesOf, entriesOf, hr, hr']
      | hash =>
        obtain ⟨_, hr'⟩ := h₁.hash hr
        simp [valuesOf, entriesOf, hr, hr']

end

/-- A container of the same kind with at least the constraints of another. -/
inductive Object.Keeps : Object L P → Object L P → Prop
  | array {frozen values constraints frozen' values' constraints'} : constraints ⊆ constraints' →
      Object.Keeps (.array frozen values constraints) (.array frozen' values' constraints')
  | hash {frozen entries constraints frozen' entries' constraints'} : constraints ⊆ constraints' →
      Object.Keeps (.hash frozen entries constraints) (.hash frozen' entries' constraints')

variable {o o' : Object L P}

lemma Object.Extends.keeps (h : o.Extends o') : o.Keeps o' := by
  cases h with
  | array => exact .array (subset_append_left _ _)
  | hash => exact .hash (subset_append_left _ _)

lemma PinnedMember.keeps {m : TypeMember P} (hpinned : PinnedMember types h m v)
    (hkeeps : ∀ (r : ℕ) o, h[r]? = some o → ∃ o', h'[r]? = some o' ∧ o.Keeps o') :
    PinnedMember types h' m v := by
  cases m with
  | plain id =>
    cases v with
    | leaf => exact hpinned
    | ref r =>
      cases hr : h[r]? with
      | none =>
        rw [PinnedMember, kindOf, hr] at hpinned
        cases id <;> cases hpinned
      | some o =>
        obtain ⟨o', hr', ho⟩ := hkeeps r o hr
        rw [PinnedMember, kindOf, hr] at hpinned
        rw [PinnedMember, kindOf, hr']
        cases ho with
        | array | hash => exact hpinned
  | typeVariable => exact hpinned
  | array =>
    obtain ⟨r, _, _, _, hv, hr, c, hc, himplies⟩ := hpinned
    obtain ⟨o', hr', ho⟩ := hkeeps r _ hr
    cases ho with
    | array hsub => exact ⟨r, _, _, _, hv, hr', c, hsub hc, himplies⟩
  | hash =>
    obtain ⟨r, _, _, _, hv, hr, c, hc, himplies⟩ := hpinned
    obtain ⟨o', hr', ho⟩ := hkeeps r _ hr
    cases ho with
    | hash hsub => exact ⟨r, _, _, _, hv, hr', c, hsub hc, himplies⟩

lemma Pinned.keeps (hpinned : Pinned types h s v)
    (hkeeps : ∀ (r : ℕ) o, h[r]? = some o → ∃ o', h'[r]? = some o' ∧ o.Keeps o') :
    Pinned types h' s v := by
  obtain ⟨m, hm, hpinned⟩ := hpinned
  exact ⟨m, hm, hpinned.keeps hkeeps⟩

lemma Admitted.keeps {bindings} (h₁ : Admitted types h bindings s v)
    (hkeeps : ∀ (r : ℕ) o, h[r]? = some o → ∃ o', h'[r]? = some o' ∧ o.Keeps o') :
    Admitted types h' bindings s v := by
  rcases h₁ with hpinned | ⟨index, set, id, hmem, hset, hid, hplain⟩
  · exact .inl (hpinned.keeps hkeeps)
  · exact .inr ⟨index, set, id, hmem, hset, hid, hplain.keeps hkeeps⟩

lemma Admitted.extends {bindings} (h₁ : Admitted types h bindings s v) (h₂ : Extends S h h') :
    Admitted types h' bindings s v := by
  refine h₁.keeps fun r o hr => ?_
  obtain ⟨o', hr', ho⟩ := h₂.object r o hr
  exact ⟨o', hr', ho.keeps⟩

inductive Reaches (h : Heap L P) : Value L → ℕ → Prop
  | here {r} : Reaches h (.ref r) r
  | element {v values x r} : valuesOf h v = some values → x ∈ values → Reaches h x r → Reaches h v r
  | key {v entries e r} : entriesOf h v = some entries → e ∈ entries → Reaches h e.1 r → Reaches h v r
  | value {v entries e r} : entriesOf h v = some entries → e ∈ entries → Reaches h e.2 r →
      Reaches h v r

variable {r : ℕ}

lemma Reaches.of_extends (h₁ : Extends S h h') (hreaches : Reaches h' v r) : Reaches h v r := by
  induction hreaches with
  | here => exact .here
  | element hvalues hx _ ih => exact .element ((h₁.contents_eq _).1 ▸ hvalues) hx ih
  | key hentries he _ ih => exact .key ((h₁.contents_eq _).2 ▸ hentries) he ih
  | value hentries he _ ih => exact .value ((h₁.contents_eq _).2 ▸ hentries) he ih

/-! ## Writes to one container -/

lemma getElem?_set_of_some (hr : h[r]? = some o) (r' : ℕ) :
    (h.set r o')[r']? = if r' = r then some o' else h[r']? := by
  have hlt : r < h.length := (List.getElem?_eq_some_iff.1 hr).1
  rw [List.getElem?_set]
  by_cases heq : r' = r
  · simp [heq, hlt]
  · simp [heq, Ne.symm heq]

lemma Extends.of_set (hr : h[r]? = some o) (ho : o.Extends o')
    (hS : S r) : Extends S h (h.set r o') := by
  constructor
  · intro r' hr'
    rw [getElem?_set_of_some hr, if_neg fun heq : r' = r => hr' (heq ▸ hS)]
  · intro r' hr'
    rw [getElem?_set_of_some hr]
    split_ifs with heq
    · rw [heq, hr] at hr'
      cases hr'
    · exact hr'
  · intro r' p hr'
    rw [getElem?_set_of_some hr]
    split_ifs with heq
    · rw [heq, hr] at hr'
      cases hr'
      exact ⟨o', rfl, ho⟩
    · exact ⟨p, hr', .refl p⟩

lemma Good.set (hgood : Good types h) (hr : h[r]? = some o)
    (hkeeps : o.Keeps o') (hclosed : o'.Closed)
    (hobliges : ∀ bindings s x, o'.Obliges bindings s x → Admitted types h bindings s x) :
    Good types (h.set r o') := by
  have hstays : ∀ (r' : ℕ) p, h[r']? = some p → ∃ p', (h.set r o')[r']? = some p' ∧ p.Keeps p' := by
    intro r' p hr'
    rw [getElem?_set_of_some hr]
    split_ifs with heq
    · rw [heq, hr] at hr'
      cases hr'
      exact ⟨o', rfl, hkeeps⟩
    · exact ⟨p, hr', (Object.Extends.refl p).keeps⟩
  constructor
  · intro r' p hr'
    rw [getElem?_set_of_some hr] at hr'
    split_ifs at hr'
    · cases hr'
      exact hclosed
    · exact hgood.closed r' p hr'
  · intro r' p hr' bindings s x hp
    rw [getElem?_set_of_some hr] at hr'
    split_ifs at hr'
    · cases hr'
      exact (hobliges bindings s x hp).keeps hstays
    · exact (hgood.admitted r' p hr' bindings s x hp).keeps hstays

/-! ## Attaching keeps the invariant -/

variable (types S)

/-- A check keeps the invariant and only adds constraints in `S`; if it succeeds, `post` holds. -/
structure Safe (h : Heap L P) (result : Bool × Heap L P) (post : Heap L P → Prop) : Prop where
  good : Good types result.2
  extends_ : Extends S h result.2
  holds : result.1 = true → post result.2

variable {types S} {post post' : Heap L P → Prop}

lemma Safe.keep (hgood : Good types h) {ok} (hpost : ok = true → post h) :
    Safe types S h (ok, h) post :=
  ⟨hgood, .refl S h, hpost⟩

lemma Safe.imp {result} (hsafe : Safe types S h result post) (himp : ∀ h', post h' → post' h') :
    Safe types S h result post' :=
  ⟨hsafe.good, hsafe.extends_, fun hok => himp _ (hsafe.holds hok)⟩

lemma Safe.andThen {result next} (hfirst : Safe types S h result post)
    (hnext : ∀ h', Good types h' → Extends S h h' → post h' → Safe types S h' (next h') post') :
    Safe types S h (andThen result next) post' := by
  obtain ⟨ok, h'⟩ := result
  cases ok with
  | true =>
    obtain ⟨hgood, hextends, hholds⟩ := hnext h' hfirst.good hfirst.extends_ (hfirst.holds rfl)
    exact ⟨hgood, hfirst.extends_.trans hextends, hholds⟩
  | false => exact ⟨hfirst.good, hfirst.extends_, nofun⟩

lemma checkAll_safe {α : Type} {check} {items : List α}
    {F : Heap L P → α → Prop} (hgood : Good types h)
    (hstays : ∀ h h' x, Extends S h h' → F h x → F h' x)
    (hcheck : ∀ x ∈ items, ∀ h', Good types h' → Extends S h h' →
      Safe types S h' (check h' x) fun h'' => F h'' x) :
    Safe types S h (checkAll check items h) fun h' => ∀ x ∈ items, F h' x := by
  induction items generalizing h with
  | nil => exact .keep hgood fun _ => nofun
  | cons x _ ih =>
    have hx := hcheck x mem_cons_self h hgood (.refl S h)
    rw [checkAll]
    generalize hrun : check h x = result at hx
    obtain ⟨ok, h'⟩ := result
    cases ok with
    | true =>
      have hrest := ih hx.good fun y hy h'' hgood' hextends =>
        hcheck y (mem_cons_of_mem _ hy) h'' hgood' (hx.extends_.trans hextends)
      refine ⟨hrest.good, hx.extends_.trans hrest.extends_, fun hok => ?_⟩
      exact forall_mem_cons.2 ⟨hstays h' _ x hrest.extends_ (hx.holds rfl), hrest.holds hok⟩
    | false => exact ⟨hx.good, hx.extends_, nofun⟩

variable [DecidableEq P]

mutual

theorem eq_of_sameMember : ∀ m m' : TypeMember P, sameMember m m' = true → m = m'
  | .plain _, .plain _, h | .typeVariable _, .typeVariable _, h => by simpa [sameMember] using h
  | .array elements, .array elements', h => by
    rw [sameMember] at h
    rw [eq_of_sameSet elements elements' h]
  | .hash keys vals, .hash keys' vals', h => by
    rw [sameMember, and_eq_true] at h
    rw [eq_of_sameSet keys keys' h.1, eq_of_sameSet vals vals' h.2]
  | .plain _, .typeVariable _, h | .plain _, .array _, h | .plain _, .hash _ _, h
  | .typeVariable _, .plain _, h | .typeVariable _, .array _, h | .typeVariable _, .hash _ _, h
  | .array _, .plain _, h | .array _, .typeVariable _, h | .array _, .hash _ _, h
  | .hash _ _, .plain _, h | .hash _ _, .typeVariable _, h | .hash _ _, .array _, h => by
    simp [sameMember] at h

theorem eq_of_sameSet : ∀ s s' : TypeSet P, sameSet s s' = true → s = s'
  | [], [], _ => rfl
  | m :: rest, m' :: rest', h => by
    rw [sameSet, and_eq_true] at h
    rw [eq_of_sameMember m m' h.1, eq_of_sameSet rest rest' h.2]
  | [], _ :: _, h | _ :: _, [], h => by simp [sameSet] at h

end

variable {context : Context P}

lemma addArrayConstraint_safe {set : TypeSet P} {frozen values constraints}
    (hshallow : shallowSet context.bindings set = true) (hgood : Good types h)
    (hr : h[r]? = some (.array frozen values constraints)) (hS : S r)
    (hvalues : ∀ x ∈ values, Admitted types h context.bindings set x) :
    Safe types S h (addArrayConstraint types context set r h)
      fun h' => closedSet set = true → PinnedMember types h' (.array set) (.ref r) := by
  obtain ⟨hlength, hall⟩ := hgood.closed r _ hr
  rw [addArrayConstraint, hr]
  dsimp only
  split_ifs with hsame himplied hfull
  · refine .keep hgood fun _ hclosed => ?_
    obtain ⟨c, hc, hsame⟩ := any_eq_true.1 hsame
    rw [and_eq_true] at hsame
    obtain rfl := eq_of_sameSet _ _ hsame.2
    exact ⟨r, _, _, _, rfl, hr, c, hc, hclosed, .refl⟩
  · refine .keep hgood fun _ hclosed => ?_
    obtain ⟨c, hc, himplied⟩ := any_eq_true.1 himplied
    simp only [constraintAlreadyImplies, and_eq_true, List.isEmpty_iff] at himplied
    have hknown := hall c hc
    rw [himplied.1.1] at hknown
    exact ⟨r, _, _, _, rfl, hr, c, hc, closedSet_of_shallow_nil hknown,
      .single ⟨himplied.2, hclosed⟩⟩
  · exact .keep hgood nofun
  · have hextends : Extends S h (h.set r (.array frozen values
        (constraints ++ [⟨context.table, set, context.bindings⟩]))) := .of_set hr (.array _) hS
    refine ⟨hgood.set hr (Object.Extends.array _).keeps ?_ ?_, hextends, fun _ hclosed => ?_⟩
    · refine ⟨?_, forall_mem_append.2 ⟨hall, forall_mem_singleton.2 hshallow⟩⟩
      rw [length_append, length_singleton]
      omega
    · intro bindings s x hobliges
      cases hobliges with
      | element hc hx =>
        rcases mem_append.1 hc with hold | hnew
        · exact hgood.admitted r _ hr _ _ _ (.element hold hx)
        · rw [mem_singleton.1 hnew]
          exact hvalues x hx
    · exact ⟨r, frozen, values, _, rfl, (getElem?_set_of_some hr r).trans (if_pos rfl),
        ⟨context.table, set, context.bindings⟩,
        mem_append_right _ (mem_singleton_self _), hclosed, .refl⟩

lemma addHashConstraint_safe {keySet valueSet : TypeSet P} {frozen entries constraints}
    (hkeySet : shallowSet context.bindings keySet = true)
    (hvalueSet : shallowSet context.bindings valueSet = true) (hgood : Good types h)
    (hr : h[r]? = some (.hash frozen entries constraints)) (hS : S r)
    (hentries : ∀ e ∈ entries, Admitted types h context.bindings keySet e.1 ∧
      Admitted types h context.bindings valueSet e.2) :
    Safe types S h (addHashConstraint types context keySet valueSet r h)
      fun h' => closedSet keySet = true ∧ closedSet valueSet = true →
        PinnedMember types h' (.hash keySet valueSet) (.ref r) := by
  obtain ⟨hlength, hall⟩ := hgood.closed r _ hr
  rw [addHashConstraint, hr]
  dsimp only
  split_ifs with hsame himplied hfull
  · refine .keep hgood fun _ ⟨hkeys, hvals⟩ => ?_
    obtain ⟨c, hc, hsame⟩ := any_eq_true.1 hsame
    rw [and_eq_true, and_eq_true] at hsame
    obtain rfl := eq_of_sameSet _ _ hsame.1.2
    obtain rfl := eq_of_sameSet _ _ hsame.2
    exact ⟨r, _, _, _, rfl, hr, c, hc, ⟨hkeys, .refl⟩, hvals, .refl⟩
  · refine .keep hgood fun _ ⟨hkeys, hvals⟩ => ?_
    obtain ⟨c, hc, himplied⟩ := any_eq_true.1 himplied
    simp only [constraintAlreadyImplies, and_eq_true, List.isEmpty_iff] at himplied
    have hknown := hall c hc
    rw [himplied.1.1.1] at hknown
    exact ⟨r, _, _, _, rfl, hr, c, hc,
      ⟨closedSet_of_shallow_nil hknown.1, .single ⟨himplied.1.2, hkeys⟩⟩,
      closedSet_of_shallow_nil hknown.2, .single ⟨himplied.2.2, hvals⟩⟩
  · exact .keep hgood nofun
  · have hextends : Extends S h (h.set r (.hash frozen entries
        (constraints ++ [⟨context.table, keySet, valueSet, context.bindings⟩]))) :=
      .of_set hr (.hash _) hS
    refine ⟨hgood.set hr (Object.Extends.hash _).keeps ?_ ?_, hextends, fun _ ⟨hkeys, hvals⟩ => ?_⟩
    · refine ⟨?_, forall_mem_append.2 ⟨hall, forall_mem_singleton.2 ⟨hkeySet, hvalueSet⟩⟩⟩
      rw [length_append, length_singleton]
      omega
    · intro bindings s x hobliges
      cases hobliges with
      | key hc he =>
        rcases mem_append.1 hc with hold | hnew
        · exact hgood.admitted r _ hr _ _ _ (.key hold he)
        · rw [mem_singleton.1 hnew]
          exact (hentries _ he).1
      | value hc he =>
        rcases mem_append.1 hc with hold | hnew
        · exact hgood.admitted r _ hr _ _ _ (.value hold he)
        · rw [mem_singleton.1 hnew]
          exact (hentries _ he).2
    · exact ⟨r, frozen, entries, _, rfl, (getElem?_set_of_some hr r).trans (if_pos rfl),
        ⟨context.table, keySet, valueSet, context.bindings⟩,
        mem_append_right _ (mem_singleton_self _), ⟨hkeys, .refl⟩, hvals, .refl⟩

omit [DecidableEq P] in
lemma exists_of_valuesOf {values} (hvalues : valuesOf h (.ref r) = some values) :
    ∃ frozen constraints, h[r]? = some (.array frozen values constraints) := by
  rw [valuesOf] at hvalues
  split at hvalues
  · next frozen _ constraints hr =>
    cases hvalues
    exact ⟨frozen, constraints, hr⟩
  · cases hvalues

omit [DecidableEq P] in
lemma exists_of_entriesOf {entries} (hentries : entriesOf h (.ref r) = some entries) :
    ∃ frozen constraints, h[r]? = some (.hash frozen entries constraints) := by
  rw [entriesOf] at hentries
  split at hentries
  · next frozen _ constraints hr =>
    cases hentries
    exact ⟨frozen, constraints, hr⟩
  · cases hentries

/-- The members of a set are tried one after the other. -/
lemma attachSet_cons_safe {m : TypeMember P} {rest}
    (hmember : Safe types S h (attachMember types context m h v) post)
    (hrest : ∀ h', Good types h' → Extends S h h' →
      Safe types S h' (attachSet types context rest h' v) post) :
    Safe types S h (attachSet types context (m :: rest) h v) post := by
  rw [attachSet]
  generalize attachMember types context m h v = result at hmember
  obtain ⟨ok, h'⟩ := result
  cases ok with
  | true => exact hmember
  | false =>
    have hlater := hrest h' hmember.good hmember.extends_
    exact ⟨hlater.good, hmember.extends_.trans hlater.extends_, hlater.holds⟩

/-- What a shallow member accepts is pinned, or of a type that the variable is bound to. -/
lemma attachMember_admits {m : TypeMember P} {rest}
    (hshallow : shallowMember context.bindings m = true)
    (hsafe : Safe types S h (attachMember types context m h v) fun h' =>
      closedMember m = true → PinnedMember types h' m v) :
    Safe types S h (attachMember types context m h v) fun h' =>
      Admitted types h' context.bindings (m :: rest) v := by
  cases m with
  | plain | array | hash =>
    exact hsafe.imp fun _ hpinned => .inl ⟨_, mem_cons_self, hpinned hshallow⟩
  | typeVariable index =>
    rw [attachMember] at hsafe ⊢
    refine .keep hsafe.good fun hok => .inr ?_
    obtain ⟨set, hset, hplain⟩ := (Option.any_eq_true _ _).1 hshallow
    rw [matchesVariable, hset] at hok
    obtain ⟨m, hm, hmatches⟩ := matchesSet_iff.1 hok
    cases m with
    | plain id =>
      rw [matchesMember] at hmatches
      exact ⟨index, set, id, mem_cons_self, hset, hm, hmatches⟩
    | typeVariable | array | hash => cases all_eq_true.1 hplain _ hm

mutual

/-- A check of a value against a type pins the value if it succeeds and there are no variables. -/
theorem attachMember_safe : ∀ (m : TypeMember P), outerMember context.bindings m = true →
    ∀ (h : Heap L P) (v : Value L), Good types h → (∀ r, Reaches h v r → S r) →
    Safe types S h (attachMember types context m h v) fun h' =>
      closedMember m = true → PinnedMember types h' m v
  | .plain id, _, h, v, hgood, _ => by
    rw [attachMember]
    exact .keep hgood fun hok _ => hok
  | .typeVariable index, _, h, v, hgood, _ => by
    rw [attachMember]
    exact .keep hgood fun _ => nofun
  | .array _, _, _, .leaf _, hgood, _ | .hash _ _, _, _, .leaf _, hgood, _ => by
    rw [attachMember]
    exact .keep hgood nofun
  | .array elements, houter, h, .ref r, hgood, hS => by
    rw [attachMember]
    cases hvalues : valuesOf h (.ref r) with
    | none => exact .keep hgood nofun
    | some =>
      dsimp only
      split_ifs
      · obtain ⟨_, _, hr⟩ := exists_of_valuesOf hvalues
        refine .andThen (checkAll_safe
          (F := fun h x => Admitted types h context.bindings elements x) hgood
          (fun _ _ _ hextends hadmitted => hadmitted.extends hextends) ?_) ?_
        · intro x hx h' hgood' hextends
          exact attachSet_safe elements houter h' x hgood' fun r' hreaches =>
            hS r' (.element hvalues hx (hreaches.of_extends hextends))
        · intro h' hgood' hextends hadmitted
          obtain ⟨_, hr'⟩ := hextends.array hr
          exact addArrayConstraint_safe houter hgood' hr' (hS r .here) hadmitted
      · exact .keep hgood nofun
  | .hash keys vals, houter, h, .ref r, hgood, hS => by
    rw [outerMember, and_eq_true] at houter
    rw [attachMember]
    cases hentries : entriesOf h (.ref r) with
    | none => exact .keep hgood nofun
    | some =>
      dsimp only
      split_ifs
      · obtain ⟨_, _, hr⟩ := exists_of_entriesOf hentries
        refine .andThen (checkAll_safe (F := fun h (e : Value L × Value L) =>
          Admitted types h context.bindings keys e.1 ∧ Admitted types h context.bindings vals e.2)
          hgood (fun _ _ _ hextends hadmitted =>
            ⟨hadmitted.1.extends hextends, hadmitted.2.extends hextends⟩) ?_) ?_
        · intro e he h' hgood' hextends
          refine .andThen (attachSet_safe keys houter.1 h' e.1 hgood' fun r' hreaches =>
            hS r' (.key hentries he (hreaches.of_extends hextends))) ?_
          intro h'' hgood'' hextends' hkey
          have hvalue := attachSet_safe vals houter.2 h'' e.2 hgood''
            fun r' hreaches => hS r' (.value hentries he
              (hreaches.of_extends (hextends.trans hextends')))
          exact ⟨hvalue.good, hvalue.extends_,
            fun hok => ⟨hkey.extends hvalue.extends_, hvalue.holds hok⟩⟩
        · intro h' hgood' hextends hadmitted
          obtain ⟨_, hr'⟩ := hextends.hash hr
          rw [closedMember, and_eq_true]
          exact addHashConstraint_safe houter.1 houter.2 hgood' hr' (hS r .here) hadmitted
      · exact .keep hgood nofun

theorem attachSet_safe : ∀ (s : TypeSet P), shallowSet context.bindings s = true →
    ∀ (h : Heap L P) (v : Value L), Good types h → (∀ r, Reaches h v r → S r) →
    Safe types S h (attachSet types context s h v) fun h' =>
      Admitted types h' context.bindings s v
  | [], _, h, v, hgood, _ => by
    rw [attachSet]
    exact .keep hgood nofun
  | m :: rest, hshallow, h, v, hgood, hS => by
    rw [shallowSet, all_cons, and_eq_true] at hshallow
    refine attachSet_cons_safe (attachMember_admits hshallow.1
      (attachMember_safe m (outer_of_shallow hshallow.1) h v hgood hS)) ?_
    intro h' hgood' hextends
    exact (attachSet_safe rest hshallow.2 h' v hgood' fun r hreaches =>
      hS r (hreaches.of_extends hextends)).imp fun _ hadmitted => hadmitted.cons m

end

/-- A check of a type keeps the invariant. -/
lemma attachSet_good {s : TypeSet P} (houter : s.all (outerMember context.bindings) = true)
    (hgood : Good types h) (hS : ∀ r, Reaches h v r → S r) :
    Safe types S h (attachSet types context s h v) fun _ => True := by
  induction s generalizing h with
  | nil =>
    rw [attachSet]
    exact .keep hgood nofun
  | cons m rest ih =>
    rw [all_cons, and_eq_true] at houter
    exact attachSet_cons_safe ((attachMember_safe m houter.1 h v hgood hS).imp fun _ _ => trivial)
      fun h' hgood' hextends =>
        ih houter.2 hgood' fun r hreaches => hS r (hreaches.of_extends hextends)

end

end Diamond.Constraints
