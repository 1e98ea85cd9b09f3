import Diamond.Constraints.Operations

/-!
# Containers keep to their constraints

Every operation keeps the invariant of the heap, so in a program whose type variables stand for types
without arguments, directly in the checked container, no container ever holds a value that one of its
constraints does not admit.

With other type variables it is otherwise: a value in the place of the variable is tested and not
pinned.
-/

namespace Diamond.Constraints

open List

section
variable {L P : Type} {types : Types L P} {h h' : Heap L P} {S : ℕ → Prop}

/-! ## Checks against all constraints -/

lemma constraintLoop_safe {C : Type} {constraints check} {F : Heap L P → C → Prop}
    (hlonger : ∀ h h', Extends S h h' → constraints h <+: constraints h')
    (hstays : ∀ h h' c, Extends S h h' → F h c → F h' c)
    (hlength : ∀ h, Good types h → (constraints h).length ≤ 4) {h₀}
    (hcheck : ∀ h c, Good types h → Extends S h₀ h → c ∈ constraints h →
      Safe types S h (check c h) fun h' => F h' c)
    {fuel index} (hfuel : fuel + index = 4) (hgood : Good types h) (hextends : Extends S h₀ h)
    (hbefore : ∀ i < index, ∀ c, (constraints h)[i]? = some c → F h c) :
    Safe types S h (constraintLoop constraints check fuel index h)
      fun h' => ∀ c ∈ constraints h', F h' c := by
  induction fuel generalizing index h with
  | zero =>
    refine .keep hgood fun _ c hc => ?_
    obtain ⟨i, hi, rfl⟩ := getElem_of_mem hc
    have hle := hlength h hgood
    exact hbefore i (by omega) _ (getElem?_eq_getElem hi)
  | succ _ ih =>
    rw [constraintLoop]
    cases hc : (constraints h)[index]? with
    | none =>
      refine .keep hgood fun _ c hc' => ?_
      obtain ⟨i, hi, rfl⟩ := getElem_of_mem hc'
      have hle := getElem?_eq_none_iff.1 hc
      exact hbefore i (by omega) _ (getElem?_eq_getElem hi)
    | some c =>
      refine .andThen (hcheck h c hgood hextends (mem_of_getElem? hc)) ?_
      intro h' hgood' hextends' hfound
      refine ih (by omega) hgood' (hextends.trans hextends') fun i hi c' hc' => ?_
      -- The constraints that were there are still where they were.
      obtain ⟨_, hmore⟩ := hlonger h h' hextends'
      have hindex : index < (constraints h).length := (List.getElem?_eq_some_iff.1 hc).1
      rw [← hmore, getElem?_append_left (by omega)] at hc'
      rcases Nat.lt_succ_iff_lt_or_eq.1 hi with hlt | rfl
      · exact hstays h h' c' hextends' (hbefore i hlt c' hc')
      · rw [hc] at hc'
        cases hc'
        exact hfound

lemma Extends.arrayConstraints_prefix (h₁ : Extends S h h') (r : ℕ) :
    arrayConstraints h r <+: arrayConstraints h' r := by
  rw [arrayConstraints]
  split
  · next _ _ _ hr =>
    obtain ⟨_, hr'⟩ := h₁.array hr
    simp [arrayConstraints, hr']
  · exact nil_prefix

lemma Extends.hashConstraints_prefix (h₁ : Extends S h h') (r : ℕ) :
    hashConstraints h r <+: hashConstraints h' r := by
  rw [hashConstraints]
  split
  · next _ _ _ hr =>
    obtain ⟨_, hr'⟩ := h₁.hash hr
    simp [hashConstraints, hr']
  · exact nil_prefix

lemma Good.arrayConstraints_closed (hgood : Good types h) (r : ℕ) :
    (arrayConstraints h r).length ≤ 4 ∧
      ∀ c ∈ arrayConstraints h r, shallowSet c.bindings c.set = true := by
  rw [arrayConstraints]
  split
  · next _ _ _ hr =>
    exact hgood.closed r _ hr
  · exact ⟨Nat.zero_le 4, nofun⟩

lemma Good.hashConstraints_closed (hgood : Good types h) (r : ℕ) :
    (hashConstraints h r).length ≤ 4 ∧
      ∀ c ∈ hashConstraints h r, shallowSet c.bindings c.keySet = true ∧
        shallowSet c.bindings c.valueSet = true := by
  rw [hashConstraints]
  split
  · next _ _ _ hr =>
    exact hgood.closed r _ hr
  · exact ⟨Nat.zero_le 4, nofun⟩

variable [DecidableEq P]

variable {r : ℕ}

lemma arrayValueSatisfiesConstraints_safe {v} (hgood : Good types h)
    (hS : ∀ r', Reaches h v r' → S r') : Safe types S h (arrayValueSatisfiesConstraints types r v h)
      fun h' => ∀ c ∈ arrayConstraints h' r, Admitted types h' c.bindings c.set v := by
  refine constraintLoop_safe (F := fun h (c : ArrayConstraint P) => Admitted types h c.bindings c.set v)
    (fun _ _ hextends => hextends.arrayConstraints_prefix r)
    (fun _ _ _ hextends hadmitted => hadmitted.extends hextends)
    (fun _ hgood => (hgood.arrayConstraints_closed r).1) ?_ rfl hgood (.refl S h)
    fun i hi => absurd hi (Nat.not_lt_zero i)
  intro h₁ c hgood₁ hextends hc
  have hclosed := (hgood₁.arrayConstraints_closed r).2 c hc
  exact attachSet_safe c.set hclosed h₁ v hgood₁ fun r' hreaches =>
    hS r' (hreaches.of_extends hextends)

variable {key value : Value L}

lemma hashEntrySatisfiesConstraints_safe (hgood : Good types h)
    (hkey : ∀ r', Reaches h key r' → S r') (hvalue : ∀ r', Reaches h value r' → S r') :
    Safe types S h (hashEntrySatisfiesConstraints types r key value h)
      fun h' => ∀ c ∈ hashConstraints h' r, Admitted types h' c.bindings c.keySet key ∧
        Admitted types h' c.bindings c.valueSet value := by
  refine constraintLoop_safe
    (F := fun h (c : HashConstraint P) =>
      Admitted types h c.bindings c.keySet key ∧ Admitted types h c.bindings c.valueSet value)
    (fun _ _ hextends => hextends.hashConstraints_prefix r)
    (fun _ _ _ hextends hadmitted => ⟨hadmitted.1.extends hextends, hadmitted.2.extends hextends⟩)
    (fun _ hgood => (hgood.hashConstraints_closed r).1) ?_ rfl hgood (.refl S h)
    fun i hi => absurd hi (Nat.not_lt_zero i)
  intro h₁ c hgood₁ hextends hc
  obtain ⟨hkeys, hvalues⟩ := (hgood₁.hashConstraints_closed r).2 c hc
  refine .andThen (attachSet_safe c.keySet hkeys h₁ key hgood₁ fun r' hreaches =>
    hkey r' (hreaches.of_extends hextends)) ?_
  intro h₂ hgood₂ hextends₂ hadmitted
  have hsafe : Safe types S h₂ (attachSet types ⟨c.table, c.bindings⟩ c.valueSet h₂ value)
      fun h' => Admitted types h' c.bindings c.valueSet value :=
    attachSet_safe c.valueSet hvalues h₂ value hgood₂ fun r' hreaches =>
      hvalue r' (hreaches.of_extends (hextends.trans hextends₂))
  exact ⟨hsafe.good, hsafe.extends_, fun hok => ⟨hadmitted.extends hsafe.extends_, hsafe.holds hok⟩⟩

/-! ## Writes -/

section
omit [DecidableEq P]

section
variable (hgood : Good types h)
include hgood

lemma Good.writeArray {f} (hf : ∀ values, ∀ x ∈ f values, x ∈ values ∨
      ∀ c ∈ arrayConstraints h r, Admitted types h c.bindings c.set x) : Good types (writeArray h r f) := by
  rw [Constraints.writeArray]
  split
  · next _ values constraints hr =>
    have hconstraints : arrayConstraints h r = constraints := by rw [arrayConstraints, hr]
    have hclosed := hgood.closed r _ hr
    refine hgood.set hr (.array fun _ hc => hc) hclosed ?_
    intro _ s x hobliges
    cases hobliges with
    | element hc hx =>
      rcases hf values x hx with hold | hnew
      · exact hgood.admitted r _ hr _ _ _ (.element hc hold)
      · exact hnew _ (hconstraints ▸ hc)
  · exact hgood

lemma Good.writeHash {f} (hkeys : ∀ entries, ∀ e ∈ f entries, (∃ e' ∈ entries, e'.1 = e.1) ∨
      ∀ c ∈ hashConstraints h r, Admitted types h c.bindings c.keySet e.1)
    (hvalues : ∀ entries, ∀ e ∈ f entries, (∃ e' ∈ entries, e'.2 = e.2) ∨
      ∀ c ∈ hashConstraints h r, Admitted types h c.bindings c.valueSet e.2) : Good types (writeHash h r f) := by
  rw [Constraints.writeHash]
  split
  · next _ entries constraints hr =>
    have hconstraints : hashConstraints h r = constraints := by rw [hashConstraints, hr]
    have hclosed := hgood.closed r _ hr
    refine hgood.set hr (.hash fun _ hc => hc) hclosed ?_
    intro _ s x hobliges
    cases hobliges with
    | key hc he =>
      rcases hkeys entries _ he with ⟨e', he', heq⟩ | hnew
      · exact heq ▸ hgood.admitted r _ hr _ _ _ (.key hc he')
      · exact hnew _ (hconstraints ▸ hc)
    | value hc he =>
      rcases hvalues entries _ he with ⟨e', he', heq⟩ | hnew
      · exact heq ▸ hgood.admitted r _ hr _ _ _ (.value hc he')
      · exact hnew _ (hconstraints ▸ hc)
  · exact hgood

lemma Good.append {o} (hclosed : o.Closed)
    (hfree : ∀ bindings s x, ¬o.Obliges bindings s x) : Good types (h ++ [o]) := by
  have hsplit : ∀ (r : ℕ) p, (h ++ [o])[r]? = some p → h[r]? = some p ∨ p = o := by
    intro r p hr
    rw [getElem?_append] at hr
    split_ifs at hr
    · exact .inl hr
    · exact .inr (mem_singleton.1 (mem_of_getElem? hr))
  have hstays : ∀ (r : ℕ) p, h[r]? = some p → ∃ p', (h ++ [o])[r]? = some p' ∧ p.Keeps p' := by
    intro r p hr
    rw [List.getElem?_append_left (List.getElem?_eq_some_iff.1 hr).1]
    exact ⟨p, hr, (Object.Extends.refl p).keeps⟩
  constructor
  · intro r p hr
    rcases hsplit r p hr with hr | rfl
    · exact hgood.closed r p hr
    · exact hclosed
  · intro r p hr bindings s x hobliges
    rcases hsplit r p hr with hr | rfl
    · exact (hgood.admitted r p hr bindings s x hobliges).keeps hstays
    · exact absurd hobliges (hfree bindings s x)

lemma Good.newArray (values : List (Value L)) : Good types (h ++ [.array false values []]) := by
  refine hgood.append ⟨Nat.zero_le 4, nofun⟩ ?_
  intro _ s x hobliges
  cases hobliges with
  | element hc => exact not_mem_nil hc

lemma Good.newHash (entries : List (Value L × Value L)) :
    Good types (h ++ [.hash false entries []]) := by
  refine hgood.append ⟨Nat.zero_le 4, nofun⟩ ?_
  intro _ s x hobliges
  cases hobliges with
  | key hc | value hc => exact not_mem_nil hc

end

lemma hashSet_mem {same entries e} (he : e ∈ hashSet same key value entries) :
    ((∃ e' ∈ entries, e'.1 = e.1) ∨ e.1 = key) ∧ ((∃ e' ∈ entries, e'.2 = e.2) ∨ e.2 = value) := by
  induction entries with
  | nil =>
    rw [hashSet, mem_singleton] at he
    rw [he]
    exact ⟨.inr rfl, .inr rfl⟩
  | cons first _ ih =>
    rw [hashSet] at he
    split_ifs at he
    · rcases mem_cons.1 he with rfl | hrest
      · exact ⟨.inl ⟨first, mem_cons_self, rfl⟩, .inr rfl⟩
      · exact ⟨.inl ⟨e, mem_cons_of_mem _ hrest, rfl⟩, .inl ⟨e, mem_cons_of_mem _ hrest, rfl⟩⟩
    · rcases mem_cons.1 he with rfl | hrest
      · exact ⟨.inl ⟨e, mem_cons_self, rfl⟩, .inl ⟨e, mem_cons_self, rfl⟩⟩
      · obtain ⟨hkey, hvalue⟩ := ih hrest
        exact ⟨hkey.imp_left fun ⟨e', he', heq⟩ => ⟨e', mem_cons_of_mem _ he', heq⟩,
          hvalue.imp_left fun ⟨e', he', heq⟩ => ⟨e', mem_cons_of_mem _ he', heq⟩⟩

end

/-! ## Operations -/

def Operation.written : Operation L P → List (Value L)
  | .push _ v _ => [v]
  | .shiftLeft _ v _ => [v]
  | .setIndex _ _ v => [v]
  | .setRange _ _ _ _ source => [source]
  | .setKey _ key value _ => [key, value]
  | _ => []

def Leads (h : Heap L P) (written : List (Value L)) (r : ℕ) : Prop := ∃ v ∈ written, Reaches h v r

variable (types) in
structure Outcome (h : Heap L P) (written : List (Value L)) (result : Heap L P × Status) :
    Prop where
  good : Good types result.1
  refused : result.2 = arrayViolation ∨ result.2 = hashViolation →
    Extends (Leads h written) h result.1

variable {written : List (Value L)} {status : Status}

section
omit [DecidableEq P]

lemma Outcome.same (hgood : Good types h) : Outcome types h written (h, status) :=
  ⟨hgood, fun _ => .refl _ h⟩

lemma Outcome.ok (hgood : Good types h') : Outcome types h written (h', .ok) :=
  ⟨hgood, by rintro (h | h) <;> cases h⟩

lemma Outcome.checked {post result next} (hsafe : Safe types (Leads h written) h result post)
    (hnext : ∀ h', Good types h' → Extends (Leads h written) h h' → post h' →
      Outcome types h written (next h')) :
    Outcome types h written (orRefuse result status next) := by
  obtain ⟨ok, h'⟩ := result
  cases ok with
  | true => exact hnext h' hsafe.good hsafe.extends_ (hsafe.holds rfl)
  | false => exact ⟨hsafe.good, fun _ => hsafe.extends_⟩

end

section
variable (hgood : Good types h)
include hgood

lemma checkedPush_outcome {v allocated} (hv : v ∈ written) :
    Outcome types h written (checkedPush types h r v allocated) := by
  refine .checked (arrayValueSatisfiesConstraints_safe hgood fun _ hr' => ⟨v, hv, hr'⟩) ?_
  intro h' hgood' hextends hadmitted
  split_ifs
  · refine .ok (hgood'.writeArray fun _ x hx => ?_)
    rcases mem_append.1 hx with hold | hnew
    · exact .inl hold
    · rw [mem_singleton.1 hnew]
      exact .inr hadmitted
  · exact ⟨hgood', fun _ => hextends⟩

/-- The checks of a range assignment, when they give the Array no new constraint. -/
lemma setRange_outcome {first length replacement source} (hsource : valuesOf h source = some replacement)
    (hsame : ∀ h', checkAll (fun h x => arrayValueSatisfiesConstraints types r x h) replacement h =
      (true, h') → arrayConstraints h' r = arrayConstraints h r) :
    Outcome types h [source] (orRefuse
      (checkAll (fun h x => arrayValueSatisfiesConstraints types r x h) replacement h)
      arrayViolation fun h => (writeArray h r fun values =>
        values.take first ++ replacement ++ values.drop (first + length), .ok)) := by
  -- Every element meets the constraints that the Array had before the first check.
  have hloop : Safe types (Leads h [source]) h
      (checkAll (fun h x => arrayValueSatisfiesConstraints types r x h) replacement h)
      fun h' => ∀ x ∈ replacement, ∀ c ∈ arrayConstraints h r, Admitted types h' c.bindings c.set x := by
    refine checkAll_safe (F := fun h' x => ∀ c ∈ arrayConstraints h r, Admitted types h' c.bindings c.set x) hgood
      (fun _ _ _ hextends hadmitted c hc => (hadmitted c hc).extends hextends) ?_
    intro x hx h₁ hgood₁ hextends
    have hcheck : Safe types (Leads h [source]) h₁ (arrayValueSatisfiesConstraints types r x h₁)
        fun h' => ∀ c ∈ arrayConstraints h' r, Admitted types h' c.bindings c.set x :=
      arrayValueSatisfiesConstraints_safe hgood₁ fun _ hr' =>
        ⟨source, mem_singleton_self _, .element hsource hx (hr'.of_extends hextends)⟩
    have hmore := hextends.trans hcheck.extends_
    have hlonger := hmore.arrayConstraints_prefix r
    exact ⟨hcheck.good, hcheck.extends_, fun hok c hc => hcheck.holds hok c (hlonger.subset hc)⟩
  have hchecked : Safe types (Leads h [source]) h
      (checkAll (fun h x => arrayValueSatisfiesConstraints types r x h) replacement h)
      fun h' => ∀ x ∈ replacement, ∀ c ∈ arrayConstraints h' r, Admitted types h' c.bindings c.set x := by
    refine ⟨hloop.good, hloop.extends_, fun hok => ?_⟩
    rw [hsame _ (Prod.ext hok rfl)]
    exact hloop.holds hok
  refine .checked hchecked ?_
  intro h' hgood' _ hadmitted
  refine .ok (hgood'.writeArray fun values x hx => ?_)
  rcases mem_append.1 hx with hx | hx
  · rcases mem_append.1 hx with hx | hx
    · exact .inl (mem_of_mem_take hx)
    · exact .inr (hadmitted x hx)
  · exact .inl (mem_of_mem_drop hx)

lemma setKey_outcome {allocated : Bool} :
    Outcome types h [key, value] (orRefuse (hashEntrySatisfiesConstraints types r key value h)
      hashViolation fun h =>
        if allocated then (writeHash h r (hashSet (types.sameKey h) key value), .ok)
        else (h, .outOfMemory)) := by
  refine .checked (hashEntrySatisfiesConstraints_safe hgood
    (fun _ hr' => ⟨key, mem_cons_self, hr'⟩)
    fun _ hr' => ⟨value, mem_cons_of_mem _ (mem_singleton_self _), hr'⟩) ?_
  intro h' hgood' hextends hadmitted
  split_ifs
  · refine .ok (hgood'.writeHash (fun _ e he => ?_) fun _ e he => ?_)
    · refine (hashSet_mem he).1.imp_right fun hkey c hc => ?_
      rw [hkey]
      exact (hadmitted c hc).1
    · refine (hashSet_mem he).2.imp_right fun hvalue c hc => ?_
      rw [hvalue]
      exact (hadmitted c hc).2
  · exact ⟨hgood', fun _ => hextends⟩

lemma perform_outcome {operation} (hclosed : operation.Closed types h) :
    Outcome types h operation.written (perform types h operation) := by
  cases operation with rw [perform]
  | newArray values => exact .ok (hgood.newArray values)
  | newHash => exact .ok (hgood.newHash [])
  | checkType context set v =>
    have hsafe : Safe types (fun _ => True) h (attachSet types context set h v) fun _ => True :=
      attachSet_good hclosed hgood fun _ _ => trivial
    generalize attachSet types context set h v = result at hsafe
    obtain ⟨ok, h'⟩ := result
    cases ok with
    | true => exact .ok hsafe.good
    | false =>
      refine ⟨hsafe.good, fun hstatus => ?_⟩
      have hother : Status.typeError "" ≠ arrayViolation ∧ Status.typeError "" ≠ hashViolation := by
        decide
      exact (hstatus.elim hother.1 hother.2).elim
  | push r v =>
    split
    · split_ifs
      · exact .same hgood
      · exact checkedPush_outcome hgood (mem_singleton_self v)
    · exact .same hgood
  | shiftLeft r v =>
    split
    · exact checkedPush_outcome hgood (mem_singleton_self v)
    · exact .same hgood
  | setIndex r index v =>
    split
    · next frozen values _ _ =>
      dsimp only
      generalize (if index < 0 then index + (values.length : ℤ) else index) = position
      split_ifs
      · exact .same hgood
      · exact .same hgood
      · refine .checked (arrayValueSatisfiesConstraints_safe hgood
          fun _ hr' => ⟨v, mem_singleton_self v, hr'⟩) ?_
        intro h' hgood' _ hadmitted
        refine .ok (hgood'.writeArray fun values x hx => ?_)
        rcases mem_or_eq_of_mem_set hx with hold | rfl
        · exact .inl hold
        · exact .inr hadmitted
    · exact .same hgood
  | setRange =>
    split
    · split_ifs
      · exact .same hgood
      · split
        · exact .same hgood
        · split
          · next _ hsource =>
            split_ifs
            · exact setRange_outcome hgood hsource fun h' => hclosed _ h' hsource
            · exact .same hgood
          · exact .same hgood
    · exact .same hgood
  | setKey =>
    split
    · next frozen _ _ _ =>
      cases frozen with
      | true => exact .same hgood
      | false => exact setKey_outcome hgood
    · exact .same hgood
  | pop =>
    split
    · split_ifs
      · exact .same hgood
      · exact .ok (hgood.writeArray fun values x hx => .inl (mem_of_mem_dropLast hx))
    · exact .same hgood
  | delete =>
    split
    · split_ifs
      · exact .same hgood
      · exact .ok (hgood.writeHash
          (fun _ e he => .inl ⟨e, mem_of_mem_eraseP he, rfl⟩)
          fun _ e he => .inl ⟨e, mem_of_mem_eraseP he, rfl⟩)
    · exact .same hgood
  | clear =>
    split
    · split_ifs
      · exact .same hgood
      · exact .ok (hgood.writeHash (fun _ e he => absurd he not_mem_nil)
          fun _ e he => absurd he not_mem_nil)
    · exact .same hgood
  | dup =>
    split
    · exact .ok (hgood.newArray _)
    · exact .ok (hgood.newHash _)
    · exact .same hgood
  | freeze r =>
    split
    · next frozen values _ hr =>
      have hclosed := hgood.closed r _ hr
      refine .ok (hgood.set hr (.array fun _ hc => hc) hclosed ?_)
      intro _ s x hobliges
      cases hobliges with
      | element hc hx => exact hgood.admitted r _ hr _ _ _ (.element hc hx)
    · next frozen _ _ hr =>
      have hclosed := hgood.closed r _ hr
      refine .ok (hgood.set hr (.hash fun _ hc => hc) hclosed ?_)
      intro _ s x hobliges
      cases hobliges with
      | key hc he => exact hgood.admitted r _ hr _ _ _ (.key hc he)
      | value hc he => exact hgood.admitted r _ hr _ _ _ (.value hc he)
    · exact .same hgood

end

lemma closedMachine_good (hreachable : (closedMachine types).Reachable h) : Good types h := by
  refine hreachable.invariant ?_ ?_
  · rintro h rfl
    exact ⟨nofun, nofun⟩
  · rintro h h' _ hgood ⟨operation, hclosed, rfl⟩
    exact (perform_outcome hgood hclosed).good

end

/-! ## Programs that go wrong -/

inductive Basic
  | int
  | string
  deriving DecidableEq, Repr

def basicTypes : Types Basic Basic where
  accepts id kind := decide (kind = .leaf id)
  satisfies id id' := decide (id = id')
  sameKey _ v v' := decide (v = v')

lemma basicTypes_sound : basicTypes.Sound := by
  intro _ _ _ hsatisfies hmatches
  rwa [of_decide_eq_true hsatisfies] at hmatches

def intMember : TypeMember Basic := .plain (.other .int)

def stringMember : TypeMember Basic := .plain (.other .string)

def heapAfter (operations : List (Operation Basic Basic)) : Heap Basic Basic :=
  operations.foldl (fun h operation => (perform basicTypes h operation).1) []

lemma heapAfter_reachable (operations : List (Operation Basic Basic)) :
    (machine basicTypes).Reachable (heapAfter operations) := by
  induction operations using reverseRecOn with
  | nil => exact .start rfl
  | append_singleton _ operation ih =>
    refine ih.next ⟨operation, ?_⟩
    rw [heapAfter, heapAfter, foldl_append]
    rfl

/-- An Array of Arrays of Int is passed for a parameter `Array[T]`, and a String is pushed onto its
element. -/
def genericCall : List (Operation Basic Basic) :=
  [.newArray [.leaf .int], .newArray [.ref 0],
    .checkType ⟨0, [[.array [intMember]]]⟩ [.array [.typeVariable 0]] (.ref 1),
    .push 0 (.leaf .string) true]

/-- An Array of Strings and Arrays of Arrays of Arrays, and a replacement that has the Array in it:
its check makes it an Array of Arrays, after the String was checked. -/
def selfReplacement : List (Operation Basic Basic) :=
  [.newArray [], .newArray [.ref 0, .ref 0],
    .checkType ⟨0, []⟩ [.array [stringMember, .array [.array [.plain .array]]]] (.ref 1),
    .newArray [.ref 1], .newArray [.leaf .string, .ref 2],
    .setRange 1 0 (some 1) false (.ref 3)]

/-- The range assignment has put the String into an Array of Arrays. -/
theorem range_constraint_violated :
    ∃ h : Heap Basic Basic, (machine basicTypes).Reachable h ∧ ∃ o, h[1]? = some o ∧
      ∃ bindings s x, o.Obliges bindings s x ∧
        matchesSet basicTypes h (matchesVariable basicTypes h bindings) s x = false :=
  ⟨heapAfter selfReplacement, heapAfter_reachable selfReplacement, _, rfl, _, _, .leaf .string,
    .element (mem_cons_of_mem _ mem_cons_self) mem_cons_self, by decide⟩

end Diamond.Constraints
