import Diamond.Gc.Collections

/-!
# Safety of the collector

In every run of the VM the heap stays well formed.  What the collector is for follows from that.
-/

namespace Diamond.Gc

open List

variable {vm vm' : DiamondVm} {a b : Address} {o p : DiamondObject} {marked : Address → Bool}

lemma WellFormed.step (h : WellFormed vm) (hstep : Step vm vm') : WellFormed vm' := by
  cases hstep with
  | allocate _ _ hfree hfresh hnames => exact h.allocate hfree hfresh hnames
  | write a w _ hnames hwrite => exact h.write hnames hwrite
  | setRoots _ hnames => exact h.setRoots hnames
  | minor _ hmarks => exact h.collectMinor hmarks
  | major _ hmarks => exact h.collectMajor hmarks

lemma wellFormed_of_reachable (h : machine.Reachable vm) : WellFormed vm := by
  apply h.invariant
  · rintro _ rfl
    exact wellFormed_emptyVm
  · intro s t _ hs hstep
    exact hs.step hstep

section
variable (h : WellFormed vm)
include h

lemma WellFormed.step_keeps (hstep : Step vm vm') (ha : vm.Reachable a) :
    ∃ o, vm'.heap a = some o := by
  obtain ⟨o, ho⟩ := h.heap_of_reachable ha
  cases hstep with
  | allocate _ _ hfree => exact ⟨o, heap_allocate_of_some hfree ho⟩
  | write b w _ _ hwrite =>
    obtain ⟨p, _, _, -, -, rfl⟩ := written_of_write hwrite
    exact heap_store_isSome ⟨o, ho⟩
  | setRoots => exact ⟨o, ho⟩
  | minor _ hmarks =>
    obtain ⟨o', ho', -⟩ := h.exists_survivor hmarks ho (h.survives_of_reachable hmarks ha ho)
    exact ⟨o', ho'⟩
  | major _ hmarks =>
    exact ⟨o, h.heap_collectMajor_iff.2 ⟨(h.marked_iff_reachable hmarks).2 ha, ho⟩⟩

lemma reachable_collectMajor (hmarks : vm.Marks false marked) :
    (vm.collectMajor marked).Reachable a ↔ vm.Reachable a := by
  constructor
  · intro ha
    induction ha with
    | root ha => exact .root ha
    | child _ hobject hb ih => exact .child ih (h.heap_collectMajor_iff.1 hobject).2 hb
  intro ha
  induction ha with
  | root ha => exact .root ha
  | child ha hobject hb ih =>
    exact .child ih (h.heap_collectMajor_iff.2 ⟨(h.marked_iff_reachable hmarks).2 ha, hobject⟩) hb

lemma WellFormed.heap_iff_reachable (hmarks : vm.Marks false marked) :
    (∃ o, (vm.collectMajor marked).heap a = some o) ↔ (vm.collectMajor marked).Reachable a := by
  rw [reachable_collectMajor h hmarks]
  constructor
  · rintro ⟨o, ho⟩
    exact (h.marked_iff_reachable hmarks).1 (h.heap_collectMajor_iff.1 ho).1
  · intro ha
    obtain ⟨o, ho⟩ := h.heap_of_reachable ha
    exact ⟨o, h.heap_collectMajor_iff.2 ⟨(h.marked_iff_reachable hmarks).2 ha, ho⟩⟩

lemma WellFormed.mem_lists_iff :
    a ∈ vm.youngObjects ++ vm.oldObjects ↔ ∃ o, vm.heap a = some o := by
  rw [mem_append, h.young, h.old]
  constructor
  · rintro (⟨o, ho, -⟩ | ⟨o, ho, -⟩) <;> exact ⟨o, ho⟩
  · rintro ⟨o, ho⟩
    cases hold : o.old with
    | false => exact .inl ⟨o, ho, hold⟩
    | true => exact .inr ⟨o, ho, hold⟩

lemma WellFormed.references_mem :
    ∀ a ∈ (vm.youngObjects ++ vm.oldObjects).toFinset, ∀ b ∈ vm.references a,
      b ∈ (vm.youngObjects ++ vm.oldObjects).toFinset := by
  intro a ha b hb
  rw [mem_toFinset, h.mem_lists_iff] at ha ⊢
  obtain ⟨o, ho⟩ := ha
  exact h.closed a o b ho ((mem_references_iff ho).1 hb)

variable (minor : Bool)

lemma WellFormed.rootValues_mem :
    ∀ a ∈ (vm.rootValues minor).reduceOption, a ∈ (vm.youngObjects ++ vm.oldObjects).toFinset := by
  intro a ha
  rw [mem_toFinset, h.mem_lists_iff]
  exact h.heap_of_rootValues (reduceOption_mem_iff.1 ha)

/-- Marking comes to an end, however the mark stack grows. -/
lemma WellFormed.marking_terminates :
    Acc (fun t' t => ∃ push, Marking.step (vm.graph minor) push t = some t') (vm.markStart minor) := by
  rw [h.markStart_eq]
  apply Marking.acc_step h.references_mem
  · exact (Marking.tracing_start (g := vm.graph minor)).drains
  · refine ⟨fun a ha => ?_, fun a ha => (by cases ha)⟩
    obtain ⟨b, hb, heq⟩ := mem_map.1 ha
    cases heq
    exact h.rootValues_mem minor _ hb

lemma WellFormed.exists_marks : ∃ marked, vm.Marks minor marked := by
  obtain ⟨t, hrun, hdone⟩ :=
    Marking.exists_finished (g := vm.graph minor) h.references_mem (h.rootValues_mem minor)
  rw [← h.markStart_eq] at hrun
  exact ⟨t.marked, t, hrun, hdone, rfl⟩

end

def arrayVm : DiamondVm := emptyVm.allocate 0 (.array [] ⟨0, none⟩)

lemma reachable_arrayVm : machine.Reachable arrayVm := by
  apply Machine.Reachable.next (.start rfl)
  exact .allocate 0 _ rfl ⟨by simp [Payload.Fits, Payload.storage?, Payload.rows],
    by simp [Payload.storage?]⟩ (by simp [Payload.children])

/-- The marks of a minor collection then: the Array is pushed, popped and has no references. -/
lemma marks_arrayVm : arrayVm.Marks true (Function.update arrayVm.isMarked 0 true) := by
  refine ⟨⟨_, [], false, []⟩, ?_, rfl, rfl⟩
  apply Relation.ReflTransGen.head (b := ⟨_, [0], true, [.drain]⟩) ⟨true, rfl⟩
  apply Relation.ReflTransGen.head (b := ⟨_, [], true, [.drain]⟩) ⟨true, rfl⟩
  exact .single ⟨true, rfl⟩

/-- The Array, promoted by a minor collection, with a new String pushed to it. -/
lemma exists_old_to_young : ∃ vm o p storage, machine.Reachable vm ∧ vm.heap 0 = some o ∧
    vm.heap 1 = some p ∧ o.old = true ∧ p.old = false ∧ o.payload = .array [some 1] storage ∧
      vm.Reachable 0 := by
  have hminor : machine.Reachable
      (arrayVm.collectMinor (Function.update arrayVm.isMarked 0 true)) :=
    reachable_arrayVm.next (.minor _ marks_arrayVm)
  have hstring := hminor.next (.allocate 1 .string rfl
    ⟨fun _ hs => (by cases hs), fun _ hs => (by cases hs)⟩ fun _ hv => (by cases hv))
  refine ⟨_, _, _, _, hstring.next (.write 0 (.arrayPush (some 1)) ?_ ?_ rfl), rfl, rfl, rfl, rfl, rfl,
    ?_⟩
  · apply DiamondVm.Reachable.root
    simp [DiamondVm.allocate, DiamondVm.collectMinor, DiamondVm.markRoots, arrayVm]
  · intro v hv b hb
    apply DiamondVm.Reachable.root
    rw [mem_singleton.1 hv] at hb
    cases hb
    exact mem_cons_self
  · exact .root (mem_cons_of_mem _ mem_cons_self)

/-- In every run, no step frees an object that can be reached, right after a major collection the
heap and its lists hold exactly the objects that can be, a collection keeps the references of what
it keeps, and every collection comes to an end. -/
theorem reachable_objects_kept (h : machine.Reachable vm) :
    (∀ a, vm.Reachable a → ∃ o, vm.heap a = some o) ∧
    (∀ vm' a, Step vm vm' → vm.Reachable a → ∃ o, vm'.heap a = some o) ∧
    (∀ marked, vm.Marks false marked → ∀ a,
      ((∃ o, (vm.collectMajor marked).heap a = some o) ↔ (vm.collectMajor marked).Reachable a) ∧
      (a ∈ (vm.collectMajor marked).youngObjects ++ (vm.collectMajor marked).oldObjects ↔
        (vm.collectMajor marked).Reachable a) ∧
      ((vm.collectMajor marked).Reachable a ↔ vm.Reachable a) ∧
      (vm.Reachable a → (vm.collectMajor marked).heap a = vm.heap a)) ∧
    (∀ marked, vm.Marks true marked → ∀ a o, vm.Reachable a → vm.heap a = some o →
      ∃ o', (vm.collectMinor marked).heap a = some o' ∧ o'.payload.children = o.payload.children) ∧
    ∀ minor, (∃ marked, vm.Marks minor marked) ∧
      Acc (fun t' t => ∃ push, Marking.step (vm.graph minor) push t = some t')
        (vm.markStart minor) := by
  have hwf := wellFormed_of_reachable h
  refine ⟨fun a ha => hwf.heap_of_reachable ha, fun vm' a hstep ha => hwf.step_keeps hstep ha,
    fun marked hmarks a => ?_, fun marked hmarks a o ha ho => ?_,
    fun minor => ⟨hwf.exists_marks minor, hwf.marking_terminates minor⟩⟩
  · refine ⟨hwf.heap_iff_reachable hmarks, ?_, reachable_collectMajor hwf hmarks, fun ha => ?_⟩
    · rw [(hwf.collectMajor hmarks).mem_lists_iff]
      exact hwf.heap_iff_reachable hmarks
    · rw [hwf.heap_collectMajor, (hwf.marked_iff_reachable hmarks).2 ha]
      rfl
  · obtain ⟨o', ho', hsurvivor⟩ :=
      hwf.exists_survivor hmarks ho (hwf.survives_of_reachable hmarks ha ho)
    exact ⟨o', ho', hsurvivor.children⟩

theorem reachable_objects_kept_array : ∃ vm p, machine.Reachable vm ∧ vm.heap 1 = some p ∧
    p.old = false ∧ ∀ vm', Step vm vm' → ∃ p', vm'.heap 1 = some p' := by
  obtain ⟨vm, o, p, _, h, ho, hp, -, hyoung, hpayload, hroot⟩ := exists_old_to_young
  have hreachable : vm.Reachable 1 := .child hroot ho (by
    rw [hpayload]
    exact List.mem_singleton_self _)
  exact ⟨vm, p, h, hp, hyoung,
    fun vm' hstep => (reachable_objects_kept h).2.1 vm' 1 hstep hreachable⟩

/-- In every run, a minor collection does not change what can be reached, whatever it promotes and
frees and whichever cards it clears. -/
theorem minor_keeps_reachable (h : machine.Reachable vm) (hmarks : vm.Marks true marked) :
    (vm.collectMinor marked).Reachable a ↔ vm.Reachable a := by
  have hwf := wellFormed_of_reachable h
  constructor
  · intro ha
    induction ha with
    | root ha => exact .root ha
    | child _ ho' hb ih =>
      obtain ⟨_, ho, -, hsurvivor⟩ := hwf.survivor_of_heap hmarks ho'
      exact .child ih ho (hsurvivor.children ▸ hb)
  · intro ha
    induction ha with
    | root ha => exact .root ha
    | child ha ho hb ih =>
      obtain ⟨_, ho', hsurvivor⟩ :=
        hwf.exists_survivor hmarks ho (hwf.survives_of_reachable hmarks ha ho)
      exact .child ih ho' (hsurvivor.children.symm ▸ hb)

theorem minor_keeps_reachable_array : ∃ vm o p marked, machine.Reachable vm ∧ vm.heap 0 = some o ∧
    o.old = true ∧ vm.heap 1 = some p ∧ p.old = false ∧ vm.Marks true marked ∧
      (vm.collectMinor marked).Reachable 1 := by
  obtain ⟨vm, o, p, _, h, ho, hp, hold, hyoung, hpayload, hroot⟩ := exists_old_to_young
  have hreachable : vm.Reachable 1 := .child hroot ho (by
    rw [hpayload]
    exact List.mem_singleton_self _)
  obtain ⟨marked, hmarks⟩ := (wellFormed_of_reachable h).exists_marks true
  exact ⟨vm, o, p, marked, h, ho, hold, hp, hyoung, hmarks,
    (minor_keeps_reachable h hmarks).2 hreachable⟩

/-- In every run, an old object that refers to a young one is in the remembered set, and if it is an
Array or Hash, the card of each slot with that reference is dirty. -/
theorem old_to_young_recorded (h : machine.Reachable vm) (ho : vm.heap a = some o)
    (hp : vm.heap b = some p) (hold : o.old = true) (hyoung : p.old = false)
    (href : some b ∈ o.payload.children) :
    a ∈ vm.rememberedSet ∧ ∀ storage, o.payload.storage? = some storage →
      ∀ i row, o.payload.rows[i]? = some row → some b ∈ row → storage.Dirty i := by
  have hwf := wellFormed_of_reachable h
  obtain ⟨hremembered, hcovers⟩ := hwf.covers a o b p ho hp hold hyoung href
  exact ⟨(hwf.remembered a).2 ⟨o, ho, hremembered⟩, hcovers⟩

theorem old_to_young_recorded_push : ∃ vm o p, machine.Reachable vm ∧ vm.heap 0 = some o ∧
    vm.heap 1 = some p ∧ o.old = true ∧ p.old = false ∧ some 1 ∈ o.payload.children ∧
      0 ∈ vm.rememberedSet := by
  obtain ⟨vm, o, p, _, h, ho, hp, hold, hyoung, hpayload, -⟩ := exists_old_to_young
  have href : some 1 ∈ o.payload.children := by
    rw [hpayload]
    exact List.mem_singleton_self _
  exact ⟨vm, o, p, h, ho, hp, hold, hyoung, href,
    (old_to_young_recorded h ho hp hold hyoung href).1⟩

end Diamond.Gc
