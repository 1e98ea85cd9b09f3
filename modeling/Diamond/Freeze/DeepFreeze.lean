import Diamond.Freeze.Objects
import Diamond.Hash.WellFormed

/-!
# What a deep freeze freezes

`diamond_deep_freeze` follows elements, keys, values and fields.  Its table of the objects seen stands
for a list of them (`Tracks`), so every search for a slot ends, and the walk visits each object once.
-/

namespace Diamond.Freeze

open List Option Hash Probing

/-- There is an Array, Hash or Instance at the address, with these values in it. -/
def Contains (vm : DiamondVm) (a : Address) (values : List DiamondValue) : Prop :=
  ∃ o, vm.heap[a]? = some o ∧ o.payload.visited = some values

/-- The Arrays, Hashes and Instances that can be reached from a value. -/
inductive Reached (vm : DiamondVm) (receiver : DiamondValue) : Address → Prop
  | root {a values} (hreceiver : receiver = .object a) (ha : Contains vm a values) :
      Reached vm receiver a
  | part {a b values parts} (ha : Reached vm receiver a) (hvalues : Contains vm a values)
      (hmem : .object b ∈ values) (hb : Contains vm b parts) : Reached vm receiver b

def freezeAll (vm : DiamondVm) (done : List Address) : DiamondVm :=
  done.foldr (fun a vm => vm.setFrozen a) vm

/-- The invariant of the walk: `done` have been frozen, `pending` are the values of the last of them
that are still to be visited. -/
structure Walking (vm : DiamondVm) (receiver : DiamondValue) (done visited stack : List Address)
    (pending : List DiamondValue) : Prop where
  nodup : visited.Nodup
  perm : visited.Perm (done ++ stack)
  reached : ∀ a ∈ visited, Reached vm receiver a
  pendingReached : ∀ b parts, .object b ∈ pending → Contains vm b parts → Reached vm receiver b
  seen : ∀ b parts, Contains vm b parts →
    receiver = .object b ∨ (∃ a ∈ done, ∃ values, Contains vm a values ∧ .object b ∈ values) →
    b ∈ visited ∨ .object b ∈ pending

variable {vm : DiamondVm} {receiver value : DiamondValue} {memory : WalkMemory}
  {walk : DeepFreezeWalk}
variable {done visited stack : List Address} {pending : List DiamondValue} {a : Address}

lemma Reached.contains (h : Reached vm receiver a) : ∃ values, Contains vm a values := by
  cases h with
  | root _ ha => exact ⟨_, ha⟩
  | part _ _ _ hb => exact ⟨_, hb⟩

lemma heap_freezeAll (done : List Address) (b : Address) : (freezeAll vm done).heap[b]? =
    (vm.heap[b]?).map fun o => if b ∈ done then { o with frozen := true } else o := by
  induction done with
  | nil => simp [freezeAll]
  | cons a done ih =>
    change (List.modify (freezeAll vm done).heap a _)[b]? = _
    rw [getElem?_modify, ih]
    cases vm.heap[b]? with
    | none => rfl
    | some => by_cases hab : a = b <;> by_cases hb : b ∈ done <;> simp [hab, hb, Ne.symm]

lemma contains_freezeAll {values} :
    Contains (freezeAll vm done) a values ↔ Contains vm a values := by
  unfold Contains
  rw [heap_freezeAll]
  cases vm.heap[a]? with
  | none => simp
  | some => by_cases ha : a ∈ done <;> simp [ha]

/-! ## The table of a walk -/

/-- The table of the walk, empty or of `2 ^ k` slots, stands for the list of objects. -/
structure Tracks (memory : WalkMemory) (walk : DeepFreezeWalk) (visited : List Address) : Prop where
  shape : walk.visited = [] ∨ ∃ k, walk.visited.length = 2 ^ k
  holds : Holds walk.visited (nextSlot walk.visited.length)
    (fun a => homeSlot walk.visited.length (deepFreezeHash memory a)) visited
  count : walk.visitedCount = visited.length

/-- An object that the table does not hold finds a slot in a table that is not full. -/
lemma placeIndex_holds {table : List (Option Address)} {k : ℕ} (hlength : table.length = 2 ^ k)
    (hroom : visited.length < 2 ^ k) (hnew : a ∉ visited)
    (h : Holds table (nextSlot (2 ^ k)) (fun a => homeSlot (2 ^ k) (deepFreezeHash memory a))
      visited) :
    ∃ table', placeIndex table (deepFreezeHash memory a) a = some table' ∧
      table'.length = 2 ^ k ∧ Holds table' (nextSlot (2 ^ k))
        (fun a => homeSlot (2 ^ k) (deepFreezeHash memory a)) (a :: visited) := by
  have hround : Round (nextSlot (2 ^ k)) table.length := by
    rw [hlength]
    exact round_nextSlot k
  have hs : homeSlot (2 ^ k) (deepFreezeHash memory a) < table.length := by
    rw [hlength]
    exact homeSlot_lt k _
  obtain ⟨t, ht⟩ := exists_firstFree hround (by rwa [h.occupied, hlength]) hs
  have hlt : t < table.length := by
    refine firstFree_lt (fun s _ => ?_) hs ht
    rw [nextSlot_two_pow, hlength]
    exact Nat.mod_lt _ (Nat.two_pow_pos k)
  refine ⟨table.set t (some a), ?_, by rw [length_set, hlength], h.insert hnew ht hlt⟩
  rw [hlength] at ht
  rw [placeIndex, hlength, ht]

/-- The loop of a rehash puts every object into the new table. -/
lemma rehash_holds {k : ℕ} {table : List (Option Address)} {before : List Address}
    (hlength : table.length = 2 ^ k) (hnodup : (visited ++ before).Nodup)
    (hroom : (visited ++ before).length ≤ 2 ^ k)
    (h : Holds table (nextSlot (2 ^ k)) (fun a => homeSlot (2 ^ k) (deepFreezeHash memory a))
      before) :
    ∃ table', visited.foldlM (fun grown a => placeIndex grown (deepFreezeHash memory a) a) table =
        some table' ∧ table'.length = 2 ^ k ∧ Holds table' (nextSlot (2 ^ k))
        (fun a => homeSlot (2 ^ k) (deepFreezeHash memory a)) (visited.reverse ++ before) := by
  induction visited generalizing table before with
  | nil => exact ⟨table, rfl, hlength, h⟩
  | cons a rest ih =>
    have hnew : a ∉ before := fun hmem => (nodup_cons.1 hnodup).1 (mem_append_right _ hmem)
    have hless : before.length < 2 ^ k := by
      simp only [cons_append, length_cons, length_append] at hroom
      omega
    obtain ⟨placed, hplace, hlength', hplaced⟩ := placeIndex_holds hlength hless hnew h
    have hmiddle : (rest ++ a :: before).Perm (a :: rest ++ before) := perm_middle
    obtain ⟨table', hfold, hlength'', hholds⟩ := ih hlength' (hmiddle.nodup_iff.2 hnodup)
      (hmiddle.length_eq ▸ hroom) hplaced
    refine ⟨table', ?_, hlength'', by simpa using hholds⟩
    rw [foldlM_cons, hplace]
    exact hfold

/-- After the check of the load the table stands for the same objects and is not full. -/
lemma deepFreezeGrow_cases (h : Tracks memory walk visited) (hnodup : visited.Nodup) :
    deepFreezeGrow memory walk = .error .outOfMemory ∨
    ∃ walk', deepFreezeGrow memory walk = .ok walk' ∧ walk'.stack = walk.stack ∧
      Tracks memory walk' visited ∧ visited.length < walk'.visited.length := by
  have hle : visited.length ≤ walk.visited.length := by
    rw [← h.holds.occupied]
    exact countP_le_length
  obtain ⟨k, hk, hroom⟩ : ∃ k, (if walk.visited.length = 0 then 64
      else walk.visited.length * 2) = 2 ^ k ∧ visited.length < 2 ^ k := by
    rcases h.shape with hnil | ⟨k, hk⟩
    · rw [hnil] at hle ⊢
      exact ⟨6, rfl, lt_of_le_of_lt hle (by decide)⟩
    · have hpos := Nat.two_pow_pos k
      refine ⟨k + 1, ?_, ?_⟩
      · rw [if_neg (by omega), hk, pow_succ]
      · rw [pow_succ]
        omega
  simp only [deepFreezeGrow, hk]
  split
  · split
    · have hperm := h.holds.filterMap_perm hnodup
      obtain ⟨table, hrehash, hlength, hholds⟩ := rehash_holds
        (length_replicate (a := none)) (by rw [append_nil]; exact hperm.nodup_iff.2 hnodup)
        (by rw [append_nil, hperm.length_eq]; exact hroom.le) (.empty (2 ^ k))
      rw [append_nil] at hholds
      rw [deepFreezeRehash, hrehash]
      refine .inr ⟨_, rfl, rfl, ⟨.inr ⟨k, hlength⟩, ?_, h.count⟩, ?_⟩
      · dsimp only
        rw [hlength]
        exact hholds.perm ((reverse_perm _).trans hperm)
      · dsimp only
        rwa [hlength]
    · exact .inl rfl
  · next hfree =>
    rw [h.count] at hfree
    exact .inr ⟨walk, rfl, rfl, h, by omega⟩

lemma deepFreezePush_cases (memory : WalkMemory) (walk : DeepFreezeWalk) (a : Address) :
    deepFreezePush memory walk a = .error .outOfMemory ∨
    ∃ walk', deepFreezePush memory walk a = .ok walk' ∧ walk'.visited = walk.visited ∧
      walk'.visitedCount = walk.visitedCount ∧ walk'.stack = a :: walk.stack := by
  unfold deepFreezePush
  extract_lets capacity
  split
  · split
    · exact .inr ⟨_, rfl, rfl, rfl, rfl⟩
    · exact .inl rfl
  · exact .inr ⟨_, rfl, rfl, rfl, rfl⟩

/-- An object is found in the table, or it is put into it and onto the stack. -/
lemma deepFreezeEnter_cases (h : Tracks memory walk visited)
    (hroom : visited.length < walk.visited.length) (a : Address) :
    deepFreezeEnter memory walk a = .error .outOfMemory ∨
    ∃ walk', deepFreezeEnter memory walk a = .ok walk' ∧ (a ∈ visited ∧ walk' = walk ∨
      a ∉ visited ∧ Tracks memory walk' (a :: visited) ∧ walk'.stack = a :: walk.stack) := by
  obtain ⟨k, hk⟩ := h.shape.resolve_left (by
    rintro hnil
    simp [hnil] at hroom)
  have hfound := h.holds.search_isSome a
  simp only [deepFreezeEnter]
  split
  · next hsome => exact .inr ⟨walk, rfl, .inl ⟨hfound.1 hsome, rfl⟩⟩
  · next hnone =>
    have hnew : a ∉ visited := fun hmem => hnone (hfound.2 hmem)
    have hholds := h.holds
    rw [hk] at hholds hroom
    obtain ⟨table, hplace, hlength, hplaced⟩ := placeIndex_holds hk hroom hnew hholds
    rw [hplace]
    rcases deepFreezePush_cases memory { walk with
      visited := table
      visitedCount := walk.visitedCount + 1 } a with hfail | ⟨walk', hpush, htable, hcount, hstack⟩
    · exact .inl hfail
    · have htracks : Tracks memory walk' (a :: visited) := by
        refine ⟨.inr ⟨k, by rw [htable, hlength]⟩, ?_, ?_⟩
        · rw [htable, hlength]
          exact hplaced
        · rw [hcount, length_cons, h.count]
      exact .inr ⟨walk', hpush, .inr ⟨hnew, htracks, hstack⟩⟩

/-- A value is skipped, or its object is new to the walk; the search for a slot always ends. -/
lemma deepFreezeVisit_cases (vm : DiamondVm) (h : Tracks memory walk visited)
    (hnodup : visited.Nodup) (value : DiamondValue) :
    deepFreezeVisit vm memory walk value = .error .outOfMemory ∨
    ∃ walk', deepFreezeVisit vm memory walk value = .ok walk' ∧
      ((Tracks memory walk' visited ∧ walk'.stack = walk.stack ∧
        ∀ b parts, value = .object b → Contains vm b parts → b ∈ visited) ∨
      ∃ b parts, value = .object b ∧ Contains vm b parts ∧ b ∉ visited ∧
        Tracks memory walk' (b :: visited) ∧ walk'.stack = b :: walk.stack) := by
  unfold deepFreezeVisit
  cases value with
  | object b =>
    rcases hb : vm.heap[b]? with _ | o
    · simp only [DiamondVm.object?, hb, map_none]
      exact .inr ⟨walk, rfl, .inl ⟨h, rfl, fun _ parts heq hcontains => by
        cases heq
        simp [Contains, hb] at hcontains⟩⟩
    simp only [DiamondVm.object?, hb, map_some]
    split
    · next hnone =>
      exact .inr ⟨walk, rfl, .inl ⟨h, rfl, fun _ parts heq hcontains => by
        cases heq
        simp [Contains, hb, hnone] at hcontains⟩⟩
    · next hvisited =>
      obtain ⟨parts, hparts⟩ := ne_none_iff_exists'.1 hvisited
      rcases deepFreezeGrow_cases h hnodup with hfail | ⟨grown, hgrow, hstack, htracks, hroom⟩
      · rw [hfail]
        exact .inl rfl
      rw [hgrow]
      rcases deepFreezeEnter_cases htracks hroom b with hfail | ⟨walk', henter, hcases⟩
      · exact .inl hfail
      refine .inr ⟨walk', henter, ?_⟩
      rcases hcases with ⟨hmem, rfl⟩ | ⟨hnew, htracks', hpushed⟩
      · exact .inl ⟨htracks, hstack, fun _ _ heq _ => by
          cases heq
          exact hmem⟩
      · exact .inr ⟨b, parts, rfl, ⟨o, hb, hparts⟩, hnew, htracks', by rw [hpushed, hstack]⟩
  | _ => exact .inr ⟨walk, rfl, .inl ⟨h, rfl, fun b parts heq _ => by cases heq⟩⟩

/-! ## The walk -/

/-- The walk stands for a walk over lists. -/
def Walks (memory : WalkMemory) (vm : DiamondVm) (receiver : DiamondValue) (done : List Address)
    (walk : DeepFreezeWalk) (pending : List DiamondValue) : Prop :=
  ∃ visited, Tracks memory walk visited ∧ Walking vm receiver done visited walk.stack pending

lemma Walking.skip (h : Walking vm receiver done visited stack (value :: pending))
    (hskip : ∀ b parts, value = .object b → Contains vm b parts → b ∈ visited) :
    Walking vm receiver done visited stack pending := by
  refine ⟨h.nodup, h.perm, h.reached,
    fun b parts hmem => h.pendingReached b parts (mem_cons_of_mem _ hmem),
    fun b parts hb hdue => ?_⟩
  rcases h.seen b parts hb hdue with hmem | hmem
  · exact .inl hmem
  · rcases mem_cons.1 hmem with heq | hmem
    · exact .inl (hskip b parts heq.symm hb)
    · exact .inr hmem

lemma Walking.enter {parts} (h : Walking vm receiver done visited stack (.object a :: pending))
    (ha : Contains vm a parts) (hnew : a ∉ visited) :
    Walking vm receiver done (a :: visited) (a :: stack) pending := by
  refine ⟨nodup_cons.2 ⟨hnew, h.nodup⟩, (h.perm.cons a).trans perm_middle.symm, ?_,
    fun c parts hmem => h.pendingReached c parts (mem_cons_of_mem _ hmem),
    fun c parts hc hdue => ?_⟩
  · intro c hc
    rcases mem_cons.1 hc with rfl | hc
    · exact h.pendingReached c parts mem_cons_self ha
    · exact h.reached c hc
  · have hseen := h.seen c parts hc hdue
    simp only [mem_cons, DiamondValue.object.injEq] at hseen ⊢
    tauto

lemma Walks.visit (h : Walks memory vm receiver done walk (value :: pending)) :
    deepFreezeVisit (freezeAll vm done) memory walk value = .error .outOfMemory ∨
    ∃ walk', deepFreezeVisit (freezeAll vm done) memory walk value = .ok walk' ∧
      Walks memory vm receiver done walk' pending := by
  obtain ⟨visited, htracks, hwalking⟩ := h
  rcases deepFreezeVisit_cases (freezeAll vm done) htracks hwalking.nodup value with
    hfail | ⟨walk', hvisit, ⟨htracks', hstack, hskip⟩ | ⟨b, parts, rfl, hb, hnew, htracks', hstack⟩⟩
  · exact .inl hfail
  · simp only [contains_freezeAll] at hskip
    exact .inr ⟨walk', hvisit, visited, htracks', hstack ▸ hwalking.skip hskip⟩
  · rw [contains_freezeAll] at hb
    exact .inr ⟨walk', hvisit, b :: visited, htracks', hstack ▸ hwalking.enter hb hnew⟩

lemma Walks.visits (h : Walks memory vm receiver done walk pending) :
    pending.foldlM (deepFreezeVisit (freezeAll vm done) memory) walk = .error .outOfMemory ∨
    ∃ walk', pending.foldlM (deepFreezeVisit (freezeAll vm done) memory) walk = .ok walk' ∧
      Walks memory vm receiver done walk' [] := by
  induction pending generalizing walk with
  | nil => exact .inr ⟨walk, rfl, h⟩
  | cons _ _ ih =>
    rw [foldlM_cons]
    rcases h.visit with hfail | ⟨walk', hvisit, hwalks⟩
    · rw [hfail]
      exact .inl rfl
    · rw [hvisit]
      exact ih hwalks

/-- An object is taken off the stack and frozen; its parts are to be visited. -/
lemma Walking.pop (h : Walking vm receiver done visited (a :: stack) []) :
    Walking vm receiver (a :: done) visited stack
      (((freezeAll vm (a :: done)).heap[a]?.bind fun o => o.payload.visited).getD []) := by
  have hperm : visited.Perm (a :: (done ++ stack)) := h.perm.trans perm_middle
  have ha := h.reached a (hperm.mem_iff.2 mem_cons_self)
  obtain ⟨values, hvalues⟩ := ha.contains
  obtain ⟨o, ho, hparts⟩ : Contains (freezeAll vm (a :: done)) a values :=
    contains_freezeAll.2 hvalues
  simp only [ho, bind_some, hparts, getD_some]
  refine ⟨h.nodup, hperm, h.reached, fun b parts hmem hb => ha.part hvalues hmem hb, ?_⟩
  rintro b parts hb (hreceiver | ⟨c, hc, values', hvalues', hmem⟩)
  · exact .inl ((h.seen b parts hb (.inl hreceiver)).resolve_right (by simp))
  rcases mem_cons.1 hc with rfl | hc
  · obtain ⟨_, ho', hparts'⟩ := hvalues'
    obtain ⟨_, ho₂, hparts₂⟩ := hvalues
    cases ho'.symm.trans ho₂
    cases hparts'.symm.trans hparts₂
    exact .inr hmem
  · exact .inl ((h.seen b parts hb (.inr ⟨c, hc, values', hvalues', hmem⟩)).resolve_right (by simp))

lemma Walking.mem_done_iff (h : Walking vm receiver done visited [] []) :
    a ∈ done ↔ Reached vm receiver a := by
  have hmem : ∀ b, b ∈ visited ↔ b ∈ done := by
    intro b
    rw [h.perm.mem_iff, append_nil]
  rw [← hmem]
  refine ⟨h.reached a, fun ha => ?_⟩
  induction ha with
  | root hreceiver ha => exact (h.seen _ _ ha (.inl hreceiver)).resolve_right (by simp)
  | part _ hvalues hpart hb ih =>
    exact (h.seen _ _ hb (.inr ⟨_, (hmem _).1 ih, _, hvalues, hpart⟩)).resolve_right (by simp)

lemma Walking.length_done (h : Walking vm receiver done visited stack pending) :
    done.length ≤ vm.heap.length := by
  have hnodup := (nodup_append.1 (h.perm.nodup_iff.1 h.nodup)).1
  rw [← toFinset_card_of_nodup hnodup, ← Finset.card_range vm.heap.length]
  refine Finset.card_le_card fun a ha => Finset.mem_range.2 ?_
  obtain ⟨_, o, ho, _⟩ :=
    (h.reached a (h.perm.mem_iff.2 (mem_append_left _ (mem_toFinset.1 ha)))).contains
  exact (List.getElem?_eq_some_iff.1 ho).1

/-- Each turn of the loop freezes another object. -/
lemma deepFreezeLoop_spec (fuel : ℕ) (h : Walks memory vm receiver done walk [])
    (hfuel : vm.heap.length < fuel + done.length) :
    ∃ finished vm', deepFreezeLoop memory fuel (freezeAll vm done) walk = some (finished, vm') ∧
      (finished = true → ∃ all, vm' = freezeAll vm all ∧ ∀ a, a ∈ all ↔ Reached vm receiver a) := by
  induction fuel generalizing done walk with
  | zero =>
    obtain ⟨_, -, hwalking⟩ := h
    exact absurd hwalking.length_done (by omega)
  | succ _ ih =>
    obtain ⟨visited, htracks, hwalking⟩ := h
    rw [deepFreezeLoop]
    split
    · next hstack =>
      rw [hstack] at hwalking
      exact ⟨true, _, rfl, fun _ => ⟨done, rfl, fun a => hwalking.mem_done_iff⟩⟩
    · next a stack hstack =>
      rw [hstack] at hwalking
      have hpop : Walks memory vm receiver (a :: done) { walk with stack := stack } _ :=
        ⟨visited, ⟨htracks.shape, htracks.holds, htracks.count⟩, hwalking.pop⟩
      have hfrozen : (freezeAll vm done).setFrozen a = freezeAll vm (a :: done) := rfl
      dsimp only
      rw [hfrozen]
      rcases hpop.visits with hfail | ⟨walk', hvisits, hwalks⟩
      · rw [hfail]
        exact ⟨false, _, rfl, by simp⟩
      · rw [hvisits]
        exact ih hwalks (by simp only [length_cons]; omega)

/-- A deep freeze ends.  If it succeeds, the Arrays, Hashes and Instances that can be reached from the
receiver are frozen and otherwise as they were, and all other objects are as they were. -/
theorem deep_freeze_exact (memory : WalkMemory) (vm : DiamondVm) (receiver : DiamondValue) :
    ∃ outcome vm', diamondDeepFreeze memory vm receiver = some (outcome, vm') ∧
      ∀ result, outcome = .ok result → ∀ a,
        (Reached vm receiver a →
          vm'.heap[a]? = (vm.heap[a]?).map fun o => { o with frozen := true }) ∧
        (¬Reached vm receiver a → vm'.heap[a]? = vm.heap[a]?) := by
  have hstart : Walks memory vm receiver [] ⟨[], 0, [], 0⟩ [receiver] :=
    ⟨[], ⟨.inl rfl, .empty 0, rfl⟩, List.nodup_nil, .refl _, by simp,
      fun b _ hmem hb => .root (List.mem_singleton.1 hmem).symm hb, fun a _ _ hdue => by simp_all⟩
  have hvisit : deepFreezeVisit vm memory ⟨[], 0, [], 0⟩ receiver = .error .outOfMemory ∨ _ :=
    hstart.visit
  unfold diamondDeepFreeze
  rcases hvisit with hfail | ⟨walk, hvisit, hwalks⟩
  · rw [hfail]
    exact ⟨_, _, rfl, fun result h => by cases h⟩
  · rw [show deepFreezeVisit vm memory ⟨[], 0, [], 0⟩ receiver = .ok walk from hvisit]
    obtain ⟨finished, vm', hloop, hall⟩ := deepFreezeLoop_spec (vm.heap.length + 1) hwalks (by simp)
    change deepFreezeLoop memory (vm.heap.length + 1) vm walk = _ at hloop
    dsimp only
    rw [hloop]
    cases finished with
    | false => exact ⟨_, _, rfl, fun result h => by cases h⟩
    | true =>
      obtain ⟨_, rfl, hreached⟩ := hall rfl
      refine ⟨_, _, rfl, fun result _ a => ⟨fun ha => ?_, fun ha => ?_⟩⟩
      · simp only [heap_freezeAll, (hreached a).2 ha, if_true]
      · simp only [heap_freezeAll, mt (hreached a).1 ha, if_false, Option.map_id']

end Diamond.Freeze
