import Diamond.Gc.Invariant
import Mathlib.Data.List.ReduceOption

/-!
# What a collection does

From a well-formed heap, a major collection keeps the marked objects as they are, and a minor one
keeps the old objects, clears the cards it scanned and promotes the marked young ones.  Both keep
the heap well formed, and keep every reachable object with its references.
-/

namespace Diamond.Gc

open List Function DiamondVm Option

attribute [local simp] DiamondVm.markRoots

variable {vm : DiamondVm} {a b : Address} {o p : DiamondObject} {minor : Bool}
  {marked : Address → Bool}

/-! ## Sweeping -/

section Sweep

variable {promote : Bool} {heap : Address → Option DiamondObject} {promoteTo objects : List Address}

def sweepObject (promote : Bool) (object : DiamondObject) : Option DiamondObject :=
  if object.marked then some { object with marked := false, old := object.old || promote } else none

def marks (heap : Address → Option DiamondObject) (a : Address) : Bool := (heap a).any (·.marked)

/-- One object of the list, whatever its mark: it is swept, and it goes where it belongs. -/
lemma sweepList_cons (rest : List Address) (hobject : heap a = some o) :
    sweepList promote heap promoteTo (a :: rest) =
      let swept := sweepList promote (update heap a (sweepObject promote o))
        (if promote && o.marked then a :: promoteTo else promoteTo) rest
      { swept with kept := if !promote && o.marked then a :: swept.kept else swept.kept } := by
  rw [sweepList, hobject]
  unfold sweepObject
  cases hmarked : o.marked <;> cases promote <;> simp [hmarked]

section
variable (hnodup : objects.Nodup) (hobjects : ∀ a ∈ objects, ∃ o, heap a = some o)
include hnodup hobjects

lemma heap_sweepList : (sweepList promote heap promoteTo objects).heap b =
      if b ∈ objects then (heap b).bind (sweepObject promote) else heap b := by
  induction objects generalizing heap promoteTo with
  | nil => rfl
  | cons a rest ih =>
    obtain ⟨hnew, hrest⟩ := nodup_cons.1 hnodup
    obtain ⟨o, ho⟩ := hobjects a mem_cons_self
    have hothers : ∀ d ∈ rest, ∃ o', update heap a (sweepObject promote o) d = some o' := by
      intro d hd
      rw [update_of_ne (by rintro rfl; exact hnew hd)]
      exact hobjects d (mem_cons_of_mem _ hd)
    rw [sweepList_cons _ ho]
    dsimp only
    rw [ih hrest hothers]
    by_cases hba : b = a
    · subst hba
      rw [if_neg hnew, update_self, if_pos mem_cons_self, ho]
      rfl
    · rw [update_of_ne hba]
      simp [hba]

/-- A list that is swept keeps its marked objects, or loses them to the other list. -/
lemma lists_sweepList : (sweepList promote heap promoteTo objects).kept =
        (if promote then [] else objects.filter (marks heap)) ∧
      (sweepList promote heap promoteTo objects).promoted =
        if promote then (objects.filter (marks heap)).reverse ++ promoteTo else promoteTo := by
  induction objects generalizing heap promoteTo with
  | nil => cases promote <;> exact ⟨rfl, rfl⟩
  | cons a rest ih =>
    obtain ⟨hnew, hrest⟩ := nodup_cons.1 hnodup
    obtain ⟨o, ho⟩ := hobjects a mem_cons_self
    have hne : ∀ d ∈ rest, d ≠ a := by
      rintro d hd rfl
      exact hnew hd
    have hothers : ∀ d ∈ rest, ∃ o', update heap a (sweepObject promote o) d = some o' := by
      intro d hd
      rw [update_of_ne (hne d hd)]
      exact hobjects d (mem_cons_of_mem _ hd)
    have hsame : rest.filter (marks (update heap a (sweepObject promote o))) =
        rest.filter (marks heap) := by
      apply filter_congr
      intro d hd
      unfold marks
      rw [update_of_ne (hne d hd)]
    have hmark : marks heap a = o.marked := by
      unfold marks
      rw [ho]
      rfl
    rw [sweepList_cons _ ho]
    dsimp only
    obtain ⟨hkept, hpromoted⟩ :=
      @ih _ (if promote && o.marked then a :: promoteTo else promoteTo) hrest hothers
    rw [hkept, hpromoted, hsame, filter_cons, hmark]
    cases promote <;> cases o.marked <;> simp

end

end Sweep

/-! ## Marking -/

lemma mem_references_iff (ha : vm.heap a = some o) :
    b ∈ vm.references a ↔ some b ∈ o.payload.children := by
  unfold references
  rw [ha]
  exact reduceOption_mem_iff

lemma skip_of_heap (ha : vm.heap a = some o) : (vm.graph true).skip a = o.old := by
  have hold : vm.isOld a = o.old := by
    unfold isOld
    rw [ha]
  exact hold

lemma WellFormed.markStart_eq (h : WellFormed vm) (minor : Bool) :
    vm.markStart minor = Marking.start (vm.rootValues minor).reduceOption := by
  have hnone : vm.isMarked = fun _ => false := by
    funext a
    unfold isMarked
    cases ha : vm.heap a with
    | none => rfl
    | some o => exact h.unmarked a o ha
  unfold markStart Marking.start
  rw [hnone]

lemma WellFormed.marked_iff (h : WellFormed vm) (hmarks : vm.Marks minor marked) :
    marked a = true ↔ Marking.Reach (vm.graph minor) (vm.rootValues minor).reduceOption a := by
  obtain ⟨t, hrun, hdone, rfl⟩ := hmarks
  rw [h.markStart_eq] at hrun
  exact Marking.marked_iff_reach hrun hdone a

lemma mem_dirtyValues {rows : List (List Value)} {row} {storage : Storage}
    {cards i v} (hfits : rows.length ≤ storage.capacity)
    (hcard : cards[i / cardSize]? = some true) (hrow : rows[i]? = some row) (hv : v ∈ row) :
    v ∈ dirtyValues rows storage.cardCount cards := by
  have hi : i < rows.length := (List.getElem?_eq_some_iff.1 hrow).1
  have hlength : i / cardSize < cards.length := (List.getElem?_eq_some_iff.1 hcard).1
  have hcount := div_lt_cardCount (hi.trans_le hfits)
  refine mem_flatMap.2 ⟨i / cardSize, mem_range.2 (lt_min hcount hlength), ?_⟩
  rw [getD_eq_getElem?_getD, hcard]
  refine mem_flatten.2 ⟨row, mem_iff_getElem?.2 ⟨i % cardSize, ?_⟩, hv⟩
  have hmod : i % cardSize < cardSize := Nat.mod_lt _ (by decide)
  rw [getElem?_take_of_lt hmod, getElem?_drop, Nat.div_add_mod', hrow]

variable {payload : Payload}

lemma mem_rememberedValues (hfits : payload.Fits) (hcovers : payload.Covers b)
    (hb : some b ∈ payload.children) : some b ∈ payload.rememberedValues := by
  unfold Payload.rememberedValues
  cases hstorage : payload.storage? with
  | none => exact hb
  | some storage =>
    obtain ⟨row, hmem, hb⟩ := (mem_children_iff hstorage).1 hb
    obtain ⟨i, hrow⟩ := mem_iff_getElem?.1 hmem
    obtain ⟨_, hcards, hcard⟩ := hcovers storage hstorage i row hrow hb
    dsimp only
    rw [hcards]
    exact mem_dirtyValues (hfits storage hstorage) hcard hrow hb

lemma mem_children_of_rememberedValues {v}
    (h : v ∈ payload.rememberedValues) : v ∈ payload.children := by
  unfold Payload.rememberedValues at h
  cases hstorage : payload.storage? with rw [hstorage] at h
  | none =>
    exact h
  | some storage =>
    dsimp only at h
    cases hcards : storage.dirtyCards with rw [hcards] at h
    | none =>
      exact h
    | some =>
      obtain ⟨_, -, hv⟩ := mem_flatMap.1 h
      split at hv
      · obtain ⟨row, hrow, hv⟩ := mem_flatten.1 hv
        exact (mem_children_iff hstorage).2 ⟨row, mem_of_mem_drop (mem_of_mem_take hrow), hv⟩
      · cases hv

/-- A value that marking starts from is a root, or held by a remembered object. -/
lemma WellFormed.heap_of_rootValues (h : WellFormed vm) (ha : some a ∈ vm.rootValues minor) :
    ∃ o, vm.heap a = some o := by
  rcases mem_append.1 ha with ha | ha
  · exact h.rooted a ha
  cases minor with
  | false => cases ha
  | true =>
    obtain ⟨b, hb, ha⟩ := mem_flatMap.1 ha
    obtain ⟨p, hp, -⟩ := (h.remembered b).1 hb
    unfold rememberedValues at ha
    rw [hp] at ha
    exact h.closed b p a hp (mem_children_of_rememberedValues ha)

lemma WellFormed.marked_iff_reachable (h : WellFormed vm) (hmarks : vm.Marks false marked) :
    marked a = true ↔ vm.Reachable a := by
  rw [h.marked_iff hmarks]
  constructor
  · intro hreach
    induction hreach with
    | root ha =>
      have ha := reduceOption_mem_iff.1 ha
      rw [rootValues, mem_append] at ha
      exact .root (ha.resolve_right (by simp))
    | @step a b _ hb _ ih =>
      obtain ⟨o, ho⟩ := h.heap_of_reachable ih
      exact .child ih ho ((mem_references_iff ho).1 hb)
  · intro hreach
    induction hreach with
    | root ha =>
      exact .root (reduceOption_mem_iff.2 (mem_append_left _ ha)) rfl
    | child _ hobject hb ih => exact .step ih ((mem_references_iff hobject).2 hb) rfl

section
variable (h : WellFormed vm) (hmarks : vm.Marks true marked)
include h hmarks

lemma WellFormed.not_marked_old (ha : vm.heap a = some o) (hold : o.old = true) :
    marked a = false := by
  cases hmarked : marked a with
  | false => rfl
  | true =>
    have hskip : (vm.graph true).skip a = false := by
      cases (h.marked_iff hmarks).1 hmarked with
      | root _ hskip | step _ _ hskip => exact hskip
    rw [skip_of_heap ha, hold] at hskip
    cases hskip

/-- A minor collection marks the young objects that an old or a marked object refers to. -/
lemma WellFormed.marked_child (ha : vm.heap a = some o) (hsurvives : o.old = true ∨ marked a = true)
    (hmem : some b ∈ o.payload.children) (hb : vm.heap b = some p) (hyoung : p.old = false) :
    marked b = true := by
  have hskip : (vm.graph true).skip b = false := by
    rw [skip_of_heap hb, hyoung]
  rw [h.marked_iff hmarks]
  cases hold : o.old with
  | false =>
    have hmarked : marked a = true := hsurvives.resolve_left (by rw [hold]; decide)
    exact .step ((h.marked_iff hmarks).1 hmarked) ((mem_references_iff ha).2 hmem) hskip
  | true =>
    obtain ⟨hremembered, hcovers⟩ := h.covers a o b p ha hb hold hyoung hmem
    have hset : a ∈ vm.rememberedSet := (h.remembered a).2 ⟨o, ha, hremembered⟩
    refine .root (reduceOption_mem_iff.2 (mem_append_right _ ?_)) hskip
    refine mem_flatMap.2 ⟨a, hset, ?_⟩
    unfold rememberedValues
    rw [ha]
    exact mem_rememberedValues (h.fits a o ha) hcovers hmem

lemma WellFormed.survives_of_reachable (hreach : vm.Reachable a) (ha : vm.heap a = some o) :
    o.old = true ∨ marked a = true := by
  induction hreach generalizing o with
  | @root a hroot =>
    cases hold : o.old with
    | true => exact .inl rfl
    | false =>
      rw [h.marked_iff hmarks]
      refine .inr (.root (reduceOption_mem_iff.2 (mem_append_left _ hroot)) ?_)
      rw [skip_of_heap ha, hold]
  | child _ hobject hmem ih =>
    cases hold : o.old with
    | true => exact .inl rfl
    | false => exact .inr (h.marked_child hmarks hobject (ih hobject) hmem ha hold)

end

/-! ## Major collections -/

lemma WellFormed.not_mem_both (h : WellFormed vm) (hyoung : a ∈ vm.youngObjects) :
    a ∉ vm.oldObjects := by
  intro hold
  obtain ⟨o, ho, hyoung⟩ := (h.young a).1 hyoung
  obtain ⟨p, hp, hold⟩ := (h.old a).1 hold
  rw [ho] at hp
  cases hp
  rw [hyoung] at hold
  cases hold

lemma heap_markRoots_false (a : Address) :
    (vm.markRoots false marked).heap a = (vm.heap a).map fun o => { o with marked := marked a } := by
  simp

lemma exists_heap_markRoots (h : ∃ o, vm.heap a = some o) :
    ∃ o, (vm.markRoots minor marked).heap a = some o := by
  obtain ⟨o, ho⟩ := h
  simp [ho]

lemma WellFormed.young_markRoots (h : WellFormed vm) :
    ∀ a ∈ vm.youngObjects, ∃ o, (vm.markRoots minor marked).heap a = some o := by
  intro a ha
  obtain ⟨o, ho, -⟩ := (h.young a).1 ha
  exact exists_heap_markRoots ⟨o, ho⟩

/-- Sweeping a marked object whose mark was the collection's own gives the object back. -/
lemma sweepObject_marked (hunmarked : o.marked = false) :
    sweepObject false { o with marked := marked a } = if marked a then some o else none := by
  obtain ⟨_, m, _, _⟩ := o
  cases hunmarked
  unfold sweepObject
  cases marked a <;> simp

lemma WellFormed.old_sweepList (h : WellFormed vm) : ∀ a ∈ vm.oldObjects, ∃ o,
    (sweepList false (vm.markRoots false marked).heap [] vm.youngObjects).heap a = some o := by
  intro a ha
  obtain ⟨o, ho, -⟩ := (h.old a).1 ha
  rw [heap_sweepList h.youngNodup h.young_markRoots, if_neg fun hy => h.not_mem_both hy ha]
  exact exists_heap_markRoots ⟨o, ho⟩

lemma WellFormed.heap_collectMajor (h : WellFormed vm) (a : Address) :
    (vm.collectMajor marked).heap a = if marked a then vm.heap a else none := by
  have hheap : (vm.collectMajor marked).heap a = (sweepList false
      (sweepList false (vm.markRoots false marked).heap [] vm.youngObjects).heap []
        vm.oldObjects).heap a := rfl
  rw [hheap, heap_sweepList h.oldNodup h.old_sweepList, heap_sweepList h.youngNodup h.young_markRoots,
    heap_markRoots_false]
  cases ho : vm.heap a with
  | none => cases marked a <;> simp
  | some o =>
    have hswept := @sweepObject_marked a o marked (h.unmarked a o ho)
    cases hold : o.old with
    | false =>
      have hyoung : a ∈ vm.youngObjects := (h.young a).2 ⟨o, ho, hold⟩
      rw [if_neg (h.not_mem_both hyoung), if_pos hyoung]
      exact hswept
    | true =>
      have hmem : a ∈ vm.oldObjects := (h.old a).2 ⟨o, ho, hold⟩
      rw [if_pos hmem, if_neg fun hy => h.not_mem_both hy hmem]
      exact hswept

lemma WellFormed.heap_collectMajor_iff (h : WellFormed vm) :
    (vm.collectMajor marked).heap a = some o ↔ marked a = true ∧ vm.heap a = some o := by
  rw [h.heap_collectMajor]
  cases marked a <;> simp

/-- The mark bits that `sweep_list` and the filter of the remembered set read. -/
lemma marks_markRoots (h : ∃ o, vm.heap a = some o) :
    marks (vm.markRoots minor marked).heap a = marked a := by
  obtain ⟨o, ho⟩ := h
  simp [marks, ho]

section
variable (h : WellFormed vm)
include h

lemma WellFormed.youngObjects_collectMajor :
    (vm.collectMajor marked).youngObjects = vm.youngObjects.filter marked := by
  have hkept : (vm.collectMajor marked).youngObjects =
      vm.youngObjects.filter (marks (vm.markRoots false marked).heap) :=
    (lists_sweepList h.youngNodup h.young_markRoots).1
  rw [hkept]
  apply filter_congr
  intro a ha
  obtain ⟨o, ho, -⟩ := (h.young a).1 ha
  exact marks_markRoots ⟨o, ho⟩

lemma WellFormed.oldObjects_collectMajor :
    (vm.collectMajor marked).oldObjects = vm.oldObjects.filter marked := by
  have hkept : (vm.collectMajor marked).oldObjects = vm.oldObjects.filter
      (marks (sweepList false (vm.markRoots false marked).heap [] vm.youngObjects).heap) :=
    (lists_sweepList h.oldNodup h.old_sweepList).1
  rw [hkept]
  apply filter_congr
  intro a ha
  obtain ⟨o, ho, -⟩ := (h.old a).1 ha
  rw [← @marks_markRoots vm a false marked ⟨o, ho⟩]
  unfold marks
  rw [heap_sweepList h.youngNodup h.young_markRoots, if_neg fun hy => h.not_mem_both hy ha]

lemma WellFormed.rememberedSet_collectMajor :
    (vm.collectMajor marked).rememberedSet = vm.rememberedSet.filter marked := by
  apply filter_congr
  intro a ha
  obtain ⟨o, ho, -⟩ := (h.remembered a).1 ha
  simp [isMarked, ho]

lemma WellFormed.mem_filter_iff {objects : List Address}
    {P : DiamondObject → Prop} (hmem : a ∈ objects ↔ ∃ o, vm.heap a = some o ∧ P o) :
    a ∈ objects.filter marked ↔ ∃ o, (vm.collectMajor marked).heap a = some o ∧ P o := by
  rw [mem_filter, hmem]
  constructor
  · rintro ⟨⟨o, ho, hp⟩, hmarked⟩
    exact ⟨o, h.heap_collectMajor_iff.2 ⟨hmarked, ho⟩, hp⟩
  · rintro ⟨o, ho, hp⟩
    obtain ⟨hmarked, ho⟩ := h.heap_collectMajor_iff.1 ho
    exact ⟨⟨o, ho, hp⟩, hmarked⟩

lemma WellFormed.collectMajor (hmarks : vm.Marks false marked) :
    WellFormed (vm.collectMajor marked) := by
  have hreach : ∀ {a}, marked a = true ↔ vm.Reachable a := h.marked_iff_reachable hmarks
  constructor
  case unmarked => exact fun a o ho => h.unmarked a o (h.heap_collectMajor_iff.1 ho).2
  case young =>
    intro a
    rw [h.youngObjects_collectMajor]
    exact h.mem_filter_iff (h.young a)
  case old =>
    intro a
    rw [h.oldObjects_collectMajor]
    exact h.mem_filter_iff (h.old a)
  case youngNodup =>
    rw [h.youngObjects_collectMajor]
    exact h.youngNodup.filter _
  case oldNodup =>
    rw [h.oldObjects_collectMajor]
    exact h.oldNodup.filter _
  case closed =>
    intro a o b ho hb
    obtain ⟨hmarked, ho⟩ := h.heap_collectMajor_iff.1 ho
    obtain ⟨p, hp⟩ := h.closed a o b ho hb
    exact ⟨p, h.heap_collectMajor_iff.2 ⟨hreach.2 (.child (hreach.1 hmarked) ho hb), hp⟩⟩
  case rooted =>
    intro a ha
    obtain ⟨o, ho⟩ := h.rooted a ha
    exact ⟨o, h.heap_collectMajor_iff.2 ⟨hreach.2 (.root ha), ho⟩⟩
  case remembered =>
    intro a
    rw [h.rememberedSet_collectMajor]
    exact h.mem_filter_iff (h.remembered a)
  case rememberedOld => exact fun a o ho => h.rememberedOld a o (h.heap_collectMajor_iff.1 ho).2
  case fits => exact fun a o ho => h.fits a o (h.heap_collectMajor_iff.1 ho).2
  case covers =>
    exact fun a o b p ho hp =>
      h.covers a o b p (h.heap_collectMajor_iff.1 ho).2 (h.heap_collectMajor_iff.1 hp).2

end

/-! ## Minor collections -/

/-- What a minor collection makes of an object it keeps: it is old, and its cards may be clean. -/
structure Survivor (o o' : DiamondObject) : Prop where
  old : o'.old = true
  marked : o'.marked = false
  remembered : o'.remembered = o.remembered
  children : o'.payload.children = o.payload.children
  fits : o.payload.Fits → o'.payload.Fits

lemma Payload.Fits.clearCards (h : payload.Fits) :
    (payload.mapStorage Storage.clearCards).Fits := by
  intro _ hstorage'
  rw [storage_mapStorage, map_eq_some_iff] at hstorage'
  obtain ⟨storage, hstorage, rfl⟩ := hstorage'
  rw [rows_mapStorage]
  exact h storage hstorage

lemma survivor_markRoots (o' : DiamondObject) (ho : vm.heap a = some o)
    (ho' : (vm.markRoots true marked).heap a = some o') :
    o'.old = o.old ∧ Survivor o { o' with marked := false, old := true } := by
  simp only [markRoots, ho, map_some, some.injEq] at ho'
  subst ho'
  refine ⟨rfl, rfl, rfl, rfl, ?_, ?_⟩
  · dsimp only
    split
    · exact children_mapStorage ..
    · rfl
  · intro hfits
    dsimp only
    split
    · exact hfits.clearCards
    · exact hfits

section
variable (h : WellFormed vm)
include h

lemma WellFormed.heap_collectMinor (hmarks : vm.Marks true marked) (ho : vm.heap a = some o) :
    (o.old = true ∨ marked a = true) ∧
        (∃ o', (vm.collectMinor marked).heap a = some o' ∧ Survivor o o') ∨
      ¬(o.old = true ∨ marked a = true) ∧ (vm.collectMinor marked).heap a = none := by
  obtain ⟨o', ho'⟩ := @exists_heap_markRoots vm a true marked ⟨o, ho⟩
  obtain ⟨hage, hsurvivor⟩ := survivor_markRoots o' ho ho'
  have hmark : o'.marked = marked a := by
    have := @marks_markRoots vm a true marked ⟨o, ho⟩
    rwa [marks, ho'] at this
  have hheap : (vm.collectMinor marked).heap a =
      if a ∈ vm.youngObjects then sweepObject true o' else some o' := by
    have := @heap_sweepList a true (vm.markRoots true marked).heap vm.oldObjects _ h.youngNodup
      h.young_markRoots
    rw [ho'] at this
    exact this
  rw [hheap]
  cases hold : o.old with
  | true =>
    -- An old object is not swept; it was not marked either.
    have hyoung : a ∉ vm.youngObjects := fun hy => h.not_mem_both hy ((h.old a).2 ⟨o, ho, hold⟩)
    rw [if_neg hyoung]
    rw [h.not_marked_old hmarks ho hold] at hmark
    refine .inl ⟨.inl rfl, o', rfl, ?_⟩
    rw [hold] at hage
    rwa [← hmark, ← hage] at hsurvivor
  | false =>
    have hyoung : a ∈ vm.youngObjects := (h.young a).2 ⟨o, ho, hold⟩
    rw [if_pos hyoung]
    unfold sweepObject
    rw [hmark, Bool.or_true]
    cases marked a with
    | true => exact .inl ⟨.inr rfl, _, rfl, hsurvivor⟩
    | false => exact .inr ⟨by simp, rfl⟩

lemma heap_collectMinor_none (ha : vm.heap a = none) : (vm.collectMinor marked).heap a = none := by
  have hnone : (vm.markRoots true marked).heap a = none := by simp [ha]
  have hyoung : a ∉ vm.youngObjects := by
    intro hy
    obtain ⟨o, ho, -⟩ := (h.young a).1 hy
    rw [ha] at ho
    cases ho
  have := @heap_sweepList a true (vm.markRoots true marked).heap vm.oldObjects _ h.youngNodup
    h.young_markRoots
  rw [if_neg hyoung, hnone] at this
  exact this

lemma WellFormed.survivor_of_heap (hmarks : vm.Marks true marked)
    {o'} (ho' : (vm.collectMinor marked).heap a = some o') :
    ∃ o, vm.heap a = some o ∧ (o.old = true ∨ marked a = true) ∧ Survivor o o' := by
  cases ho : vm.heap a with
  | none =>
    rw [heap_collectMinor_none h ho] at ho'
    cases ho'
  | some o =>
    rcases h.heap_collectMinor hmarks ho with ⟨hkept, q, hq, hsurvivor⟩ | ⟨-, hnone⟩
    · rw [hq] at ho'
      cases ho'
      exact ⟨o, rfl, hkept, hsurvivor⟩
    · rw [hnone] at ho'
      cases ho'

lemma WellFormed.exists_survivor (hmarks : vm.Marks true marked)
    (ho : vm.heap a = some o) (hkept : o.old = true ∨ marked a = true) :
    ∃ o', (vm.collectMinor marked).heap a = some o' ∧ Survivor o o' := by
  rcases h.heap_collectMinor hmarks ho with ⟨-, hsurvivor⟩ | ⟨hnot, -⟩
  · exact hsurvivor
  · exact absurd hkept hnot

lemma WellFormed.lists_collectMinor : (vm.collectMinor marked).youngObjects = [] ∧
      (vm.collectMinor marked).oldObjects =
        (vm.youngObjects.filter (marks (vm.markRoots true marked).heap)).reverse ++ vm.oldObjects :=
  lists_sweepList h.youngNodup h.young_markRoots

lemma WellFormed.mem_oldObjects_collectMinor : a ∈ (vm.collectMinor marked).oldObjects ↔
      ∃ o, vm.heap a = some o ∧ (o.old = true ∨ marked a = true) := by
  rw [h.lists_collectMinor.2, mem_append, mem_reverse, mem_filter]
  constructor
  · rintro (⟨hy, hmark⟩ | hold)
    · obtain ⟨o, ho, -⟩ := (h.young a).1 hy
      rw [marks_markRoots ⟨o, ho⟩] at hmark
      exact ⟨o, ho, .inr hmark⟩
    · obtain ⟨o, ho, hold⟩ := (h.old a).1 hold
      exact ⟨o, ho, .inl hold⟩
  · rintro ⟨o, ho, hkept⟩
    cases hold : o.old with
    | true => exact .inr ((h.old a).2 ⟨o, ho, hold⟩)
    | false =>
      refine .inl ⟨(h.young a).2 ⟨o, ho, hold⟩, ?_⟩
      rw [marks_markRoots ⟨o, ho⟩]
      exact hkept.resolve_left (by rw [hold]; decide)

lemma WellFormed.collectMinor (hmarks : vm.Marks true marked) :
    WellFormed (vm.collectMinor marked) := by
  have hkept : ∀ {a o b}, vm.heap a = some o → (o.old = true ∨ marked a = true) →
      some b ∈ o.payload.children → ∃ p', (vm.collectMinor marked).heap b = some p' := by
    intro a o b ho hs hb
    obtain ⟨p, hp⟩ := h.closed a o b ho hb
    have hsurvives : p.old = true ∨ marked b = true := by
      cases hage : p.old with
      | true => exact .inl rfl
      | false => exact .inr (h.marked_child hmarks ho hs hb hp hage)
    obtain ⟨p', hp', -⟩ := h.exists_survivor hmarks hp hsurvives
    exact ⟨p', hp'⟩
  constructor
  case unmarked =>
    intro a o' ho'
    obtain ⟨o, -, -, hsurvivor⟩ := h.survivor_of_heap hmarks ho'
    exact hsurvivor.marked
  case young =>
    intro a
    rw [h.lists_collectMinor.1]
    refine ⟨by simp, fun ⟨o', ho', hyoung⟩ => ?_⟩
    obtain ⟨o, -, -, hsurvivor⟩ := h.survivor_of_heap hmarks ho'
    rw [hsurvivor.old] at hyoung
    cases hyoung
  case old =>
    intro a
    rw [h.mem_oldObjects_collectMinor]
    constructor
    · rintro ⟨o, ho, hs⟩
      obtain ⟨o', ho', hsurvivor⟩ := h.exists_survivor hmarks ho hs
      exact ⟨o', ho', hsurvivor.old⟩
    · rintro ⟨o', ho', -⟩
      obtain ⟨o, ho, hs, -⟩ := h.survivor_of_heap hmarks ho'
      exact ⟨o, ho, hs⟩
  case youngNodup =>
    rw [h.lists_collectMinor.1]
    exact nodup_nil
  case oldNodup =>
    rw [h.lists_collectMinor.2]
    refine nodup_append.2 ⟨nodup_reverse.2 (h.youngNodup.filter _), h.oldNodup, ?_⟩
    rintro a ha b hb rfl
    exact h.not_mem_both (mem_filter.1 (mem_reverse.1 ha)).1 hb
  case closed =>
    intro a o' b ho' hb
    obtain ⟨o, ho, hs, hsurvivor⟩ := h.survivor_of_heap hmarks ho'
    rw [hsurvivor.children] at hb
    exact hkept ho hs hb
  case rooted =>
    intro a ha
    obtain ⟨o, ho⟩ := h.rooted a ha
    obtain ⟨o', ho', -⟩ :=
      h.exists_survivor hmarks ho (h.survives_of_reachable hmarks (.root ha) ho)
    exact ⟨o', ho'⟩
  case remembered =>
    intro a
    refine (h.remembered a).trans ⟨?_, ?_⟩
    · rintro ⟨o, ho, hremembered⟩
      obtain ⟨o', ho', hsurvivor⟩ :=
        h.exists_survivor hmarks ho (.inl (h.rememberedOld a o ho hremembered))
      exact ⟨o', ho', hsurvivor.remembered.trans hremembered⟩
    · rintro ⟨o', ho', hremembered⟩
      obtain ⟨o, ho, -, hsurvivor⟩ := h.survivor_of_heap hmarks ho'
      exact ⟨o, ho, hsurvivor.remembered.symm.trans hremembered⟩
  case rememberedOld =>
    intro a o' ho' _
    obtain ⟨o, -, -, hsurvivor⟩ := h.survivor_of_heap hmarks ho'
    exact hsurvivor.old
  case fits =>
    intro a o' ho'
    obtain ⟨o, ho, -, hsurvivor⟩ := h.survivor_of_heap hmarks ho'
    exact hsurvivor.fits (h.fits a o ho)
  case covers =>
    -- No young object is left to refer to.
    intro a o' b p' _ hp' _ hyoung
    obtain ⟨p, -, -, hsurvivor⟩ := h.survivor_of_heap hmarks hp'
    rw [hsurvivor.old] at hyoung
    cases hyoung

end

end Diamond.Gc
