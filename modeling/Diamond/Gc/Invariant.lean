import Diamond.Gc.Barrier

/-!
# The invariant of the heap

`WellFormed` ties the object lists, the mark bits, the remembered set and the card tables together:
between collections nothing is marked, every reference of every object (reachable or not) leads to
an object, and a reference from an old object to a young one is recorded.  Allocations, writes and
root changes keep it.
-/

namespace Diamond.Gc

open Function

variable {vm vm' : DiamondVm} {a b : Address} {o p : DiamondObject} {payload : Payload}

/-- Every slot with a reference to `b` has a dirty card, if the payload is that of a container. -/
def Payload.Covers (payload : Payload) (b : Address) : Prop :=
  ∀ storage, payload.storage? = some storage → ∀ i row, payload.rows[i]? = some row →
    some b ∈ row → storage.Dirty i

structure WellFormed (vm : DiamondVm) : Prop where
  unmarked : ∀ a o, vm.heap a = some o → o.marked = false
  young : ∀ a, a ∈ vm.youngObjects ↔ ∃ o, vm.heap a = some o ∧ o.old = false
  old : ∀ a, a ∈ vm.oldObjects ↔ ∃ o, vm.heap a = some o ∧ o.old = true
  youngNodup : vm.youngObjects.Nodup
  oldNodup : vm.oldObjects.Nodup
  closed : ∀ a o b, vm.heap a = some o → some b ∈ o.payload.children → ∃ p, vm.heap b = some p
  rooted : ∀ a, some a ∈ vm.roots → ∃ o, vm.heap a = some o
  remembered : ∀ a, a ∈ vm.rememberedSet ↔ ∃ o, vm.heap a = some o ∧ o.remembered = true
  rememberedOld : ∀ a o, vm.heap a = some o → o.remembered = true → o.old = true
  fits : ∀ a o, vm.heap a = some o → o.payload.Fits
  covers : ∀ a o b p, vm.heap a = some o → vm.heap b = some p → o.old = true → p.old = false →
    some b ∈ o.payload.children → o.remembered = true ∧ o.payload.Covers b

lemma wellFormed_emptyVm : WellFormed emptyVm := by
  constructor <;> simp [emptyVm]

lemma WellFormed.heap_of_reachable (h : WellFormed vm) (ha : vm.Reachable a) :
    ∃ o, vm.heap a = some o := by
  cases ha with
  | root ha => exact h.rooted a ha
  | child _ hobject hb => exact h.closed _ _ _ hobject hb

lemma WellFormed.heap_of_names {v} (h : WellFormed vm) (hv : vm.Names v) (hb : v = some b) :
    ∃ p, vm.heap b = some p :=
  h.heap_of_reachable (hv b hb)

/-! ## Writes -/

section Store

variable {values : List Value} {remember : Bool}

lemma heap_store_self : (vm.store a o payload remember).heap a =
    some { o with payload := payload, remembered := o.remembered || remember } :=
  update_self ..

lemma heap_store_of_ne (hb : b ≠ a) : (vm.store a o payload remember).heap b = vm.heap b :=
  update_of_ne hb ..

lemma heap_store_cases (hb : (vm.store a o payload remember).heap b = some p) :
    b = a ∧ p = { o with payload := payload, remembered := o.remembered || remember } ∨
      b ≠ a ∧ vm.heap b = some p := by
  by_cases hba : b = a
  · rw [hba, heap_store_self] at hb
    exact .inl ⟨hba, (Option.some.inj hb).symm⟩
  · rw [heap_store_of_ne hba] at hb
    exact .inr ⟨hba, hb⟩

lemma heap_store_old (ho : vm.heap a = some o) (old : Bool) :
    (∃ p, (vm.store a o payload remember).heap b = some p ∧ p.old = old) ↔
      ∃ p, vm.heap b = some p ∧ p.old = old := by
  by_cases hba : b = a
  · rw [hba, heap_store_self, ho]
    simp
  · rw [heap_store_of_ne hba]

lemma heap_store_isSome (h : ∃ p, vm.heap b = some p) :
    ∃ p, (vm.store a o payload remember).heap b = some p := by
  by_cases hba : b = a
  · rw [hba]
    exact ⟨_, heap_store_self⟩
  · rwa [heap_store_of_ne hba]

section
variable (h : WellFormed vm) (ho : vm.heap a = some o)
include h ho

lemma mem_rememberedSet_store : b ∈ (vm.store a o payload remember).rememberedSet ↔
      ∃ p, (vm.store a o payload remember).heap b = some p ∧ p.remembered = true := by
  have hself := h.remembered a
  rw [ho] at hself
  by_cases hba : b = a
  · subst hba
    rw [heap_store_self]
    cases hr : o.remembered <;> cases remember <;> simp [DiamondVm.store, hr, hself]
  · rw [heap_store_of_ne hba, ← h.remembered b]
    cases hr : o.remembered <;> cases remember <;> simp [DiamondVm.store, hr, hba]

/-- A barriered write records the references it makes from an old object to young ones. -/
lemma Written.covers (hw : Written o values payload remember) (hold : o.old = true)
    (hp : vm.heap b = some p) (hyoung : p.old = false) (hb : some b ∈ payload.children) :
    (o.remembered || remember) = true ∧ payload.Covers b := by
  constructor
  · cases hremember : remember with
    | true => exact Bool.or_true _
    | false =>
      have hkept := hw.forgets hold hremember _ hb
      rw [(h.covers a o b p ho hp hold hyoung hkept).1]
      rfl
  · intro storage' hstorage' i row hrow hmem
    rcases hw.cards hold (h.fits a o ho) storage' hstorage' i row hrow with
      hdirty | ⟨storage, hstorage, hsame, hkeeps⟩
    · exact hdirty
    · have hkept : some b ∈ o.payload.children :=
        (mem_children_iff hstorage).2 ⟨row, List.mem_of_getElem? hsame, hmem⟩
      have hcovers := (h.covers a o b p ho hp hold hyoung hkept).2
      exact hkeeps (hcovers storage hstorage i row hsame hmem)

lemma WellFormed.store (hw : Written o values payload remember)
    (hvalues : ∀ b, some b ∈ values → ∃ p, vm.heap b = some p) :
    WellFormed (vm.store a o payload remember) := by
  constructor
  case unmarked =>
    intro b p hb
    rcases heap_store_cases hb with ⟨rfl, rfl⟩ | ⟨-, hb⟩
    · exact h.unmarked b o ho
    · exact h.unmarked b p hb
  case young => exact fun b => (h.young b).trans (heap_store_old ho false).symm
  case old => exact fun b => (h.old b).trans (heap_store_old ho true).symm
  case youngNodup => exact h.youngNodup
  case oldNodup => exact h.oldNodup
  case closed =>
    intro b p d hb hd
    apply heap_store_isSome
    rcases heap_store_cases hb with ⟨rfl, rfl⟩ | ⟨-, hb⟩
    · rcases hw.values _ hd with hd | hd
      · exact h.closed b o d ho hd
      · exact hvalues d hd
    · exact h.closed b p d hb hd
  case rooted => exact fun b hb => heap_store_isSome (h.rooted b hb)
  case remembered => exact fun b => mem_rememberedSet_store h ho
  case rememberedOld =>
    intro b p hb hremembered
    rcases heap_store_cases hb with ⟨rfl, rfl⟩ | ⟨-, hb⟩
    · rcases Bool.or_eq_true_iff.1 hremembered with hr | hr
      · exact h.rememberedOld b o ho hr
      · exact hw.remembers hr
    · exact h.rememberedOld b p hb hremembered
  case fits =>
    intro b p hb
    rcases heap_store_cases hb with ⟨rfl, rfl⟩ | ⟨-, hb⟩
    · exact hw.fits (h.fits b o ho)
    · exact h.fits b p hb
  case covers =>
    intro b p d q hb hd hold hyoung hmem
    -- The age of what is referred to is its age before the write.
    obtain ⟨q', hq', hyoung'⟩ := (heap_store_old ho false).1 ⟨q, hd, hyoung⟩
    rcases heap_store_cases hb with ⟨rfl, rfl⟩ | ⟨-, hb⟩
    · exact hw.covers h ho hold hq' hyoung' hmem
    · exact h.covers b p d q' hb hq' hold hyoung' hmem

end

end Store

lemma WellFormed.write {w} (h : WellFormed vm) (hnames : ∀ v ∈ w.values, vm.Names v)
    (hwrite : vm.write a w = some vm') : WellFormed vm' := by
  obtain ⟨o, _, _, ho, hw, rfl⟩ := written_of_write hwrite
  exact h.store ho hw fun b hb => h.heap_of_names (hnames _ hb) rfl

/-! ## Allocations and root changes -/

lemma heap_allocate_self : (vm.allocate a payload).heap a = some ⟨payload, false, false, false⟩ :=
  update_self ..

lemma heap_allocate_of_ne (hb : b ≠ a) : (vm.allocate a payload).heap b = vm.heap b :=
  update_of_ne hb ..

lemma heap_allocate_cases (hb : (vm.allocate a payload).heap b = some p) :
    b = a ∧ p = ⟨payload, false, false, false⟩ ∨ b ≠ a ∧ vm.heap b = some p := by
  by_cases hba : b = a
  · rw [hba, heap_allocate_self] at hb
    exact .inl ⟨hba, (Option.some.inj hb).symm⟩
  · rw [heap_allocate_of_ne hba] at hb
    exact .inr ⟨hba, hb⟩

lemma heap_allocate_of_some (hfree : vm.heap a = none) (hb : vm.heap b = some p) :
    (vm.allocate a payload).heap b = some p := by
  have hba : b ≠ a := by
    rintro rfl
    rw [hfree] at hb
    cases hb
  rwa [heap_allocate_of_ne hba]

/-- The objects of a kind other than that of a new object are those there were. -/
lemma exists_allocate_iff (hfree : vm.heap a = none) {P : DiamondObject → Prop}
    (hnew : ¬P ⟨payload, false, false, false⟩) :
    (∃ p, (vm.allocate a payload).heap b = some p ∧ P p) ↔ ∃ p, vm.heap b = some p ∧ P p := by
  constructor
  · rintro ⟨p, hb, hp⟩
    rcases heap_allocate_cases hb with ⟨-, rfl⟩ | ⟨-, hb⟩
    · exact absurd hp hnew
    · exact ⟨p, hb, hp⟩
  · rintro ⟨p, hb, hp⟩
    exact ⟨p, heap_allocate_of_some hfree hb, hp⟩

lemma WellFormed.allocate (h : WellFormed vm) (hfree : vm.heap a = none) (hfresh : payload.Fresh)
    (hnames : ∀ v ∈ payload.children, vm.Names v) : WellFormed (vm.allocate a payload) := by
  have hkept : ∀ {b}, (∃ p, vm.heap b = some p) → ∃ p, (vm.allocate a payload).heap b = some p :=
    fun ⟨p, hp⟩ => ⟨p, heap_allocate_of_some hfree hp⟩
  constructor
  case unmarked =>
    intro b p hb
    rcases heap_allocate_cases hb with ⟨-, rfl⟩ | ⟨-, hb⟩
    · rfl
    · exact h.unmarked b p hb
  case young =>
    intro b
    constructor
    · intro hb
      rcases List.mem_cons.1 hb with rfl | hb
      · exact ⟨_, heap_allocate_self, rfl⟩
      · obtain ⟨p, hp, hyoung⟩ := (h.young b).1 hb
        exact ⟨p, heap_allocate_of_some hfree hp, hyoung⟩
    · rintro ⟨p, hb, hyoung⟩
      rcases heap_allocate_cases hb with ⟨rfl, -⟩ | ⟨-, hb⟩
      · exact List.mem_cons_self
      · exact List.mem_cons_of_mem _ ((h.young b).2 ⟨p, hb, hyoung⟩)
  case old => exact fun b => (h.old b).trans (exists_allocate_iff hfree Bool.false_ne_true).symm
  case youngNodup =>
    refine List.nodup_cons.2 ⟨fun hmem => ?_, h.youngNodup⟩
    obtain ⟨p, hp, -⟩ := (h.young a).1 hmem
    rw [hfree] at hp
    cases hp
  case oldNodup => exact h.oldNodup
  case closed =>
    intro b p d hb hd
    apply hkept
    rcases heap_allocate_cases hb with ⟨-, rfl⟩ | ⟨-, hb⟩
    · exact h.heap_of_names (hnames _ hd) rfl
    · exact h.closed b p d hb hd
  case rooted =>
    intro b hb
    rcases List.mem_cons.1 hb with heq | hb
    · cases heq
      exact ⟨_, heap_allocate_self⟩
    · exact hkept (h.rooted b hb)
  case remembered =>
    exact fun b => (h.remembered b).trans (exists_allocate_iff hfree Bool.false_ne_true).symm
  case rememberedOld =>
    intro b p hb hremembered
    rcases heap_allocate_cases hb with ⟨-, rfl⟩ | ⟨-, hb⟩
    · cases hremembered
    · exact h.rememberedOld b p hb hremembered
  case fits =>
    intro b p hb
    rcases heap_allocate_cases hb with ⟨-, rfl⟩ | ⟨-, hb⟩
    · exact hfresh.1
    · exact h.fits b p hb
  case covers =>
    intro b p d q hb hd hold hyoung hmem
    rcases heap_allocate_cases hb with ⟨-, rfl⟩ | ⟨-, hb⟩
    · cases hold
    -- An object that was there does not refer to the new one.
    obtain ⟨_, hq'⟩ := h.closed b p d hb hmem
    rw [heap_allocate_of_some hfree hq'] at hd
    cases hd
    exact h.covers b p d q hb hq' hold hyoung hmem

lemma WellFormed.setRoots {roots} (h : WellFormed vm)
    (hnames : ∀ v ∈ roots, vm.Names v) : WellFormed { vm with roots := roots } :=
  { h with rooted := fun _ hb => h.heap_of_names (hnames _ hb) rfl }

end Diamond.Gc
