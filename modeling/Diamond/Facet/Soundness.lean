import Diamond.Facet.Host

/-!
# A resolution that succeeds is sound

The tables of one attempt keep `Invariant`, function by function.  When the walk ends, nothing is
pending and nothing is queued, so what is covered is answered by a package.
-/

namespace Diamond.Facet

open List

open Codec (Bytes)
open Fallible (get_bind modify_bind bind_eq_ok state_bind_apply)

/-- The source of a dependency is compared by its kind and address. -/
lemma sameSource_iff {d source git registry} : sameSource d source git registry = true ↔
      source = d.source ∧ (d.source = .git → git = d.git) ∧
        (d.source = .registry → registry = d.registry) := by
  rw [sameSource, Bool.and_eq_true_iff, beq_iff_eq]
  cases d.source with
  | git | registry => simp

lemma Reachable.mono {available root l l' name} (h : Reachable available root l name) (hsub : l ⊆ l') :
    Reachable available root l' name := by
  induction h with
  | direct hd => exact .direct hd
  | through hr _ hd ih => exact .through (hsub hr) ih hd

/-- A pending name is resolved to what a dependency asks for. -/
structure Pends (d : FacetDependency) (p : FacetPendingSemver) : Prop where
  name : p.name = d.name
  uses : d.usesVersion = true
  source : sameSource d p.source p.git p.registry = true
  implied : ∃ c, semverConstraintParse d.versionText = some c ∧
    ∀ v, semverSatisfies v p.constraint = true → semverSatisfies v c = true

/-- A dependency that is asked for, by the root or by a selected package. -/
structure Sought (available : Available) (root : List FacetDependency)
    (resolution : List FacetResolved) (d : FacetDependency) : Prop where
  reachable : Reachable available root resolution d.name
  wanted : Wanted available root d

lemma Sought.mono {available root l l' d} (h : Sought available root l d) (hsub : l ⊆ l') :
    Sought available root l' d :=
  ⟨h.reachable.mono hsub, h.wanted⟩

/-- A package that serves a sought dependency is in play. -/
lemma InPlay.of_sought {available root l r} (h : ∃ d, Sought available root l d ∧ Serves d r) :
    InPlay available root r.name := by
  obtain ⟨d, hsought, hserves⟩ := h
  exact ⟨d, hsought.wanted, hserves.name.symm⟩

section
variable {σ : Type}

/-- The tables have an answer to a dependency, or will have one once they resolve a pending name. -/
inductive Covered (s : Session σ) (d : FacetDependency) : Prop
  | resolved {r} : r ∈ s.resolution → r.name = d.name → Agrees d r → Covered s d
  | pending {p} : p ∈ s.pending → Pends d p → Covered s d

/-- Packages stay, and what is covered stays covered. -/
structure Grows (s s' : Session σ) : Prop where
  resolution : s.resolution ⊆ s'.resolution
  covered : ∀ d, Covered s d → Covered s' d

lemma Grows.refl (s : Session σ) : Grows s s := ⟨fun _ h => h, fun _ h => h⟩

lemma Grows.trans {s s' s'' : Session σ} (h : Grows s s') (h' : Grows s' s'') : Grows s s'' :=
  ⟨fun _ hr => h'.resolution (h.resolution hr), fun d hd => h'.covered d (h.covered d hd)⟩

lemma Grows.of_tables {s s' : Session σ} (hr : s'.resolution = s.resolution)
    (hp : s'.pending = s.pending) : Grows s s' := by
  refine ⟨fun _ h => hr ▸ h, fun d hd => ?_⟩
  cases hd with
  | resolved hmem hname hagrees => exact .resolved (hr ▸ hmem) hname hagrees
  | pending hmem hpends => exact .pending (hp ▸ hmem) hpends

variable (scratchRoot : Bytes) (available : Available) (At : σ → Bytes → Bytes → Bytes → Prop)
  (root : List FacetDependency)

/-- What the tables keep during an attempt.  The packages whose names are exempt may have
dependencies that have not been met yet. -/
structure Invariant (exempt : List Bytes) (s : Session σ) : Prop where
  nodup : (s.resolution.map FacetResolved.name ++ s.pending.map FacetPendingSemver.name).Nodup
  exact_git : ∀ r ∈ s.resolution, r.version = [] → r.source = .git
  staged : ∀ r ∈ s.resolution, r.source = .git → At s.world r.name r.git r.ref
  accumulated : ∀ p ∈ s.pending, accumulatedOf s p.name = some p.constraint
  sought : ∀ r ∈ s.resolution, ∃ d, Sought available root s.resolution d ∧ Serves d r
  pending_sought : ∀ p ∈ s.pending, ∃ d, Sought available root s.resolution d ∧ Pends d p
  queued : ∀ item ∈ s.queue, ∃ r ∈ s.resolution, r.name = item.cutName ∧ r.source = .git ∧
    Found scratchRoot r.name (available.checkout r.git r.ref) item.path
  met : ∀ r ∈ s.resolution, r.name ∈ exempt ∨ (∃ item ∈ s.queue, item.cutName = r.name) ∨
    ∀ d ∈ available.dependencies r, Covered s d

end

section
variable {σ : Type} {os : Os σ} {scratchRoot : Bytes} {available : Available}
  {At : σ → Bytes → Bytes → Bytes → Prop} {root : List FacetDependency} {exempt : List Bytes}
  {s s' : Session σ}

/-- No two packages have one name. -/
lemma Invariant.unique (h : Invariant scratchRoot available At root exempt s) {r r'}
    (hr : r ∈ s.resolution) (hr' : r' ∈ s.resolution) (hname : r.name = r'.name) : r = r' :=
  inj_on_of_nodup_map (nodup_append.1 h.nodup).1 hr hr' hname

/-- The dependencies of a package are sought. -/
lemma Invariant.sought_through {r d} (h : Invariant scratchRoot available At root exempt s)
    (hr : r ∈ s.resolution) (hd : d ∈ available.dependencies r) :
    Sought available root s.resolution d := by
  obtain ⟨d', hsought, hserves⟩ := h.sought r hr
  exact ⟨.through hr (hserves.name ▸ hsought.reachable) hd, .through hsought.wanted hserves hd⟩

/-- A change of the world that keeps the checkouts keeps the invariant. -/
lemma Invariant.world (h : Invariant scratchRoot available At root exempt s) {w}
    (hw : ∀ n url ref, At s.world n url ref → At w n url ref) :
    Invariant scratchRoot available At root exempt { s with world := w } where
  nodup := h.nodup
  exact_git := h.exact_git
  staged := fun r hr hgit => hw _ _ _ (h.staged r hr hgit)
  accumulated := h.accumulated
  sought := h.sought
  pending_sought := h.pending_sought
  queued := h.queued
  met := by
    have hgrows : Grows s { s with world := w } := .of_tables rfl rfl
    exact fun r hr => (h.met r hr).imp_right (Or.imp_right fun hd d hmem =>
      hgrows.covered d (hd d hmem))

/-- The package is one that the entry allows. -/
structure Chosen (p : FacetPendingSemver) (r : FacetResolved) : Prop where
  name : r.name = p.name
  source : r.source = p.source
  git : r.source = .git → r.git = p.git
  registry : r.source = .registry → r.registry = p.registry
  version : ∃ v, semverParse r.version = some v ∧ semverSatisfies v p.constraint = true
  ref : r.source = .git → r.ref = r.version

variable {r : FacetResolved}

/-- What a pending entry covers is served by the package that is chosen for it. -/
lemma Chosen.serves {p d} (h : Chosen p r) (hpends : Pends d p) : Serves d r := by
  obtain ⟨hs, hgit, hregistry⟩ := sameSource_iff.1 hpends.source
  obtain ⟨v, hv, hsat⟩ := h.version
  obtain ⟨c, hparse, himp⟩ := hpends.implied
  refine ⟨h.name.trans hpends.name, ?_, fun _ => h.ref⟩
  rw [Agrees, if_pos hpends.uses, sameSource_iff]
  refine ⟨⟨h.source.trans hs, fun hd => ?_, fun hd => ?_⟩, v, c, hv, hparse, himp v hsat⟩
  · exact (h.git ((h.source.trans hs).trans hd)).trans (hgit hd)
  · exact (h.registry ((h.source.trans hs).trans hd)).trans (hregistry hd)

section
variable {r : FacetResolved} {dropped rest : List FacetPendingSemver} {w : σ}

/-- A chosen package covers what its entry covered. -/
lemma Grows.add (hpending : s.pending = dropped ++ rest) (hdropped : ∀ p ∈ dropped, Chosen p r) :
    Grows s { s with resolution := s.resolution ++ [r], pending := rest, world := w } := by
  refine ⟨subset_append_left _ _, fun d hd => ?_⟩
  cases hd with
  | resolved hmem hname hagrees => exact .resolved (mem_append_left _ hmem) hname hagrees
  | @pending p hmem hpends =>
    rw [hpending, mem_append] at hmem
    rcases hmem with hmem | hmem
    · have hserves := (hdropped p hmem).serves hpends
      exact .resolved (mem_append_right _ (mem_singleton_self r)) hserves.name hserves.agrees
    · exact .pending hmem hpends

/-- A new package keeps the invariant, its own dependencies still open. -/
lemma Invariant.add (h : Invariant scratchRoot available At root exempt s)
    (hpending : s.pending = dropped ++ rest) (hdropped : ∀ p ∈ dropped, Chosen p r)
    (hnew : ∀ r' ∈ s.resolution, r'.name ≠ r.name) (hrest : ∀ p ∈ rest, p.name ≠ r.name)
    (hgit : r.version = [] → r.source = .git)
    (hsought : ∃ d, Sought available root s.resolution d ∧ Serves d r)
    (hstaged : ∀ r' ∈ s.resolution ++ [r], r'.source = .git → At w r'.name r'.git r'.ref) :
    Invariant scratchRoot available At root (r.name :: exempt)
      { s with resolution := s.resolution ++ [r], pending := rest, world := w } := by
  have hgrows : Grows s { s with resolution := s.resolution ++ [r], pending := rest, world := w } :=
    .add hpending hdropped
  have hsub : rest ⊆ s.pending := hpending ▸ subset_append_right dropped rest
  constructor
  case nodup =>
    have hnodup := h.nodup
    rw [hpending, map_append] at hnodup
    rw [map_append, append_assoc, map_singleton, singleton_append,
      nodup_middle, nodup_cons, mem_append]
    refine ⟨?_, hnodup.sublist ?_⟩
    · rintro (hmem | hmem)
      · obtain ⟨r', hr', hname⟩ := mem_map.1 hmem
        exact hnew r' hr' hname
      · obtain ⟨p, hp, hname⟩ := mem_map.1 hmem
        exact hrest p hp hname
    · exact (List.Sublist.refl _).append (sublist_append_right _ _)
  case exact_git =>
    exact forall_mem_append.2 ⟨h.exact_git, forall_mem_singleton.2 hgit⟩
  case staged => exact hstaged
  case accumulated => exact fun p hp => h.accumulated p (hsub hp)
  case sought =>
    have hkeeps : ∀ r', (∃ d, Sought available root s.resolution d ∧ Serves d r') →
        ∃ d, Sought available root (s.resolution ++ [r]) d ∧ Serves d r' :=
      fun _ ⟨d, hd, hserves⟩ => ⟨d, hd.mono hgrows.resolution, hserves⟩
    exact forall_mem_append.2 ⟨fun r' hr' => hkeeps r' (h.sought r' hr'),
      forall_mem_singleton.2 (hkeeps r hsought)⟩
  case pending_sought =>
    intro p hp
    obtain ⟨d, hd, hpends⟩ := h.pending_sought p (hsub hp)
    exact ⟨d, hd.mono hgrows.resolution, hpends⟩
  case queued =>
    intro item hitem
    obtain ⟨r', hr', hfound⟩ := h.queued item hitem
    exact ⟨r', hgrows.resolution hr', hfound⟩
  case met =>
    refine forall_mem_append.2 ⟨fun r' hr' => ?_, forall_mem_singleton.2 ?_⟩
    · rcases h.met r' hr' with hexempt | hqueued | hcovered
      · exact .inl (mem_cons_of_mem _ hexempt)
      · exact .inr (.inl hqueued)
      · exact .inr (.inr fun d hd => hgrows.covered d (hcovered d hd))
    · exact .inl mem_cons_self

end

section
variable (h : Invariant scratchRoot available At root (r.name :: exempt) s) (hr : r ∈ s.resolution)
include h hr

/-- Its queued manifest stands for its dependencies. -/
lemma Invariant.enqueue {path}
    (hgit : r.source = .git) (hfound : Found scratchRoot r.name (available.checkout r.git r.ref) path) :
    Invariant scratchRoot available At root exempt
      { s with queue := s.queue ++ [⟨path, r.name⟩] } := by
  have hgrows : Grows s { s with queue := s.queue ++ [⟨path, r.name⟩] } := .of_tables rfl rfl
  refine { h with queued := ?_, met := ?_ }
  · exact forall_mem_append.2 ⟨h.queued, forall_mem_singleton.2 ⟨r, hr, rfl, hgit, hfound⟩⟩
  intro r' hr'
  rcases h.met r' hr' with hexempt | ⟨item, hitem, hname⟩ | hcovered
  · rcases mem_cons.1 hexempt with hname | hexempt
    · exact .inr (.inl ⟨⟨path, r.name⟩, by simp, hname.symm⟩)
    · exact .inl hexempt
  · exact .inr (.inl ⟨item, mem_append_left _ hitem, hname⟩)
  · exact .inr (.inr fun d hd => hgrows.covered d (hcovered d hd))

/-- A package whose dependencies are covered is no longer open. -/
lemma Invariant.close (hmet : ∀ d ∈ available.dependencies r, Covered s d) :
    Invariant scratchRoot available At root exempt s := by
  refine { h with met := fun r' hr' => ?_ }
  rcases h.met r' hr' with hexempt | hopen
  · rcases mem_cons.1 hexempt with hname | hexempt
    · rw [h.unique hr' hr hname]
      exact .inr (.inr hmet)
    · exact .inl hexempt
  · exact .inr hopen

end

/-- A manifest that is taken off the queue opens its package. -/
lemma Invariant.dequeue {item rest}
    (h : Invariant scratchRoot available At root exempt s) (hqueue : s.queue = item :: rest) :
    Invariant scratchRoot available At root (item.cutName :: exempt) { s with queue := rest } := by
  have hgrows : Grows s { s with queue := rest } := .of_tables rfl rfl
  refine { h with queued := ?_, met := ?_ }
  · exact fun item' hitem' => h.queued item' (hqueue ▸ mem_cons_of_mem _ hitem')
  intro r hr
  rcases h.met r hr with hexempt | ⟨item', hitem', hname⟩ | hcovered
  · exact .inl (mem_cons_of_mem _ hexempt)
  · rw [hqueue] at hitem'
    rcases mem_cons.1 hitem' with rfl | hitem'
    · exact .inl (hname ▸ mem_cons_self)
    · exact .inr (.inl ⟨item', hitem', hname⟩)
  · exact .inr (.inr fun d hd => hgrows.covered d (hcovered d hd))

/-- New pending entries for sought dependencies keep the invariant. -/
lemma Invariant.repend (h : Invariant scratchRoot available At root exempt s)
    (hresolution : s'.resolution = s.resolution) (hqueue : s'.queue = s.queue)
    (hworld : s'.world = s.world) (hgrows : Grows s s')
    (hnodup : (s.resolution.map FacetResolved.name ++ s'.pending.map FacetPendingSemver.name).Nodup)
    (hpending : ∀ p ∈ s'.pending, accumulatedOf s' p.name = some p.constraint ∧
      ∃ d, Sought available root s.resolution d ∧ Pends d p) :
    Invariant scratchRoot available At root exempt s' where
  nodup := hresolution ▸ hnodup
  exact_git := hresolution ▸ h.exact_git
  staged := by
    rw [hresolution, hworld]
    exact h.staged
  accumulated := fun p hp => (hpending p hp).1
  sought := hresolution ▸ h.sought
  pending_sought := by
    rw [hresolution]
    exact fun p hp => (hpending p hp).2
  queued := by
    rw [hresolution, hqueue]
    exact h.queued
  met := by
    rw [hresolution, hqueue]
    exact fun r hr => (h.met r hr).imp_right (Or.imp_right fun hd d hmem =>
      hgrows.covered d (hd d hmem))

/-- A walk begins with the invariant. -/
lemma Invariant.start (hempty : s.resolution = []) :
    Invariant scratchRoot available At root [] { s with pending := [], queue := [] } where
  nodup := by simp [hempty]
  exact_git := by simp [hempty]
  staged := by simp [hempty]
  accumulated := nofun
  sought := by simp [hempty]
  pending_sought := nofun
  queued := nofun
  met := by simp [hempty]

/-- The first pending name has no package and no other entry. -/
lemma Invariant.first_fresh (h : Invariant scratchRoot available At root exempt s)
    {entry rest} (hpending : s.pending = entry :: rest) :
    (∀ r ∈ s.resolution, r.name ≠ entry.name) ∧ ∀ p ∈ rest, p.name ≠ entry.name := by
  have hnodup := h.nodup
  rw [hpending, map_cons, nodup_middle, nodup_cons, mem_append, not_or] at hnodup
  obtain ⟨⟨hresolution, hrest⟩, _⟩ := hnodup
  exact ⟨fun r hr heq => hresolution (heq ▸ mem_map_of_mem hr),
    fun p hp heq => hrest (heq ▸ mem_map_of_mem hp)⟩

/-- When nothing is queued or pending the packages are a sound solution. -/
lemma Invariant.sound (h : Invariant scratchRoot available At root [] s) (hqueue : s.queue = [])
    (hpending : s.pending = []) (hroot : ∀ d ∈ root, Covered s d) :
    Sound available root s.resolution := by
  have hanswer : ∀ d, Covered s d → ∃ r ∈ s.resolution, r.name = d.name ∧ Agrees d r := by
    intro d hd
    cases hd with
    | resolved hmem hname hagrees => exact ⟨_, hmem, hname, hagrees⟩
    | pending hmem =>
      rw [hpending] at hmem
      cases hmem
  have hmet : ∀ r ∈ s.resolution, ∀ d ∈ available.dependencies r, Covered s d := by
    intro r hr
    rcases h.met r hr with hexempt | ⟨item, hitem, _⟩ | hcovered
    · cases hexempt
    · rw [hqueue] at hitem
      cases hitem
    · exact hcovered
  have hagrees : ∀ d, d ∈ root ∨ (∃ r ∈ s.resolution, d ∈ available.dependencies r) →
      ∃ r ∈ s.resolution, r.name = d.name ∧ Agrees d r := by
    rintro d (hd | ⟨r, hr, hd⟩)
    · exact hanswer d (hroot d hd)
    · exact hanswer d (hmet r hr d hd)
  refine ⟨(nodup_append.1 h.nodup).1, fun name => ⟨fun hname => ?_, fun hreach => ?_⟩, hagrees⟩
  · obtain ⟨r, hr, rfl⟩ := mem_map.1 hname
    obtain ⟨d, hsought, hserves⟩ := h.sought r hr
    exact hserves.name ▸ hsought.reachable
  cases hreach with
  | direct hd =>
    obtain ⟨r, hr, hname, _⟩ := hagrees _ (.inl hd)
    exact hname ▸ mem_map_of_mem hr
  | through hr _ hd =>
    obtain ⟨r, hr, hname, _⟩ := hagrees _ (.inr ⟨_, hr, hd⟩)
    exact hname ▸ mem_map_of_mem hr

/-! ## The functions -/

section
variable {d : FacetDependency} {requiredBy : Bytes} {u : Unit}

lemma Grows.append {t : Session σ} {added} (hresolution : t.resolution = s.resolution) :
    Grows s { t with pending := s.pending ++ added } := by
  refine ⟨by rw [hresolution]; exact fun _ hr => hr, fun _ hd => ?_⟩
  cases hd with
  | resolved hmem hname hagrees => exact .resolved (hresolution ▸ hmem) hname hagrees
  | pending hmem hpends => exact .pending (mem_append_left _ hmem) hpends

/-- A pending name that is narrowed still pends for what it pended for. -/
lemma Pends.constrain (requiredBy : Bytes) {merged constraint d' p}
    (h : Invariant scratchRoot available At root exempt s)
    (hmerged : semverConstraintIntersect ((accumulatedOf s d.name).getD ⟨none, none⟩) constraint =
      some merged) (hp : p ∈ s.pending) (hpends : Pends d' p) :
    Pends d' (constrain d.name merged requiredBy p) := by
  by_cases hname : p.name = d.name
  · obtain ⟨c, hparse, himp⟩ := hpends.implied
    rw [constrain_of_eq hname]
    refine ⟨hpends.name, hpends.uses, hpends.source, c, hparse, fun v hv => himp v ?_⟩
    rw [← hname, h.accumulated p hp, Option.getD_some] at hmerged
    rw [semverSatisfies_intersect hmerged, Bool.and_eq_true_iff] at hv
    exact hv.1
  · rwa [constrain_of_ne hname]

/-- A narrower constraint keeps what is covered. -/
lemma Accumulates.grows (requiredBy : Bytes) {merged constraint t}
    (h : Invariant scratchRoot available At root exempt s) (hacc : Accumulates d.name merged s t)
    (hmerged : semverConstraintIntersect ((accumulatedOf s d.name).getD ⟨none, none⟩) constraint =
      some merged) :
    Grows s { t with pending := s.pending.map (constrain d.name merged requiredBy) } := by
  refine ⟨by rw [hacc.resolution]; exact fun _ hr => hr, fun _ hd => ?_⟩
  cases hd with
  | resolved hmem hname hagrees => exact .resolved (hacc.resolution ▸ hmem) hname hagrees
  | @pending p hmem hpends =>
    exact .pending (mem_map_of_mem hmem) (hpends.constrain requiredBy h hmerged hmem)

/-- A dependency on a version is covered after it is handled. -/
lemma handleVersionDependency_sound (h : Invariant scratchRoot available At root exempt s)
    (huses : d.usesVersion = true) (hsought : Sought available root s.resolution d)
    (hok : handleVersionDependency d requiredBy s = .ok u s') :
    Invariant scratchRoot available At root exempt s' ∧ Grows s s' ∧ Covered s' d := by
  obtain ⟨constraint, merged, t, hparse, hmerged, hacc, hcase⟩ := handleVersionDependency_ok hok
  have himp {v : Semver} (hv : semverSatisfies v merged = true) :
      semverSatisfies v constraint = true := by
    rw [semverSatisfies_intersect hmerged, Bool.and_eq_true_iff] at hv
    exact hv.2
  rcases hcase with ⟨existing, hmem, hname, hsource, ⟨v, hv, hsat⟩, rfl⟩ | ⟨hnew, hadd⟩
  · -- The name is resolved, so no pending entry has it.
    have hgrows : Grows s s' := .of_tables hacc.resolution hacc.pending
    have hother : ∀ p ∈ s.pending, p.name ≠ d.name := by
      intro p hp hpname
      refine (nodup_append.1 h.nodup).2.2 existing.name (mem_map_of_mem hmem) p.name
        (mem_map_of_mem hp) ?_
      rw [hname, hpname]
    refine ⟨h.repend hacc.resolution hacc.queue hacc.world hgrows (hacc.pending ▸ h.nodup) ?_, hgrows,
      .resolved (hacc.resolution ▸ hmem) hname ?_⟩
    · rw [hacc.pending]
      intro p hp
      rw [hacc.elsewhere p.name (hother p hp)]
      exact ⟨h.accumulated p hp, h.pending_sought p hp⟩
    · rw [Agrees, if_pos huses]
      exact ⟨hsource, v, constraint, hv, hparse, himp hsat⟩
  · rcases addPending_ok hadd with ⟨existing, hmem, hname, hsource, rfl⟩ | ⟨hpending, rfl⟩
    · rw [hacc.pending] at hmem ⊢
      have hgrows := hacc.grows requiredBy h hmerged
      have hat : accumulatedOf { t with pending := s.pending.map (constrain d.name merged requiredBy) }
          d.name = some merged := hacc.at_name
      refine ⟨h.repend hacc.resolution hacc.queue hacc.world hgrows ?_ ?_, hgrows, ?_⟩
      · rw [constrain_names]
        exact h.nodup
      · intro _ hp'
        obtain ⟨p, hp, rfl⟩ := mem_map.1 hp'
        obtain ⟨d', hd', hpends⟩ := h.pending_sought p hp
        refine ⟨?_, d', hd', hpends.constrain requiredBy h hmerged hp⟩
        by_cases hpname : p.name = d.name
        · rw [constrain_of_eq hpname, hpname]
          exact hat
        · rw [constrain_of_ne hpname]
          exact (hacc.elsewhere p.name hpname).trans (h.accumulated p hp)
      · have hmap := mem_map_of_mem (f := constrain d.name merged requiredBy) hmem
        rw [constrain_of_eq hname] at hmap
        exact .pending hmap ⟨hname, huses, hsource, constraint, hparse, fun _ => himp⟩
    · rw [hacc.pending] at hpending ⊢
      have hgrows : Grows s { t with pending := s.pending ++ [⟨d.name, d.source, d.git, d.registry,
          merged, requiredBy⟩] } :=
        .append hacc.resolution
      have hpends : Pends d ⟨d.name, d.source, d.git, d.registry, merged, requiredBy⟩ := by
        refine ⟨rfl, huses, ?_, constraint, hparse, fun _ => himp⟩
        rw [sameSource_iff]
        exact ⟨rfl, fun _ => rfl, fun _ => rfl⟩
      refine ⟨h.repend hacc.resolution hacc.queue hacc.world hgrows ?_ ?_, hgrows, ?_⟩
      · rw [map_append, ← append_assoc, map_singleton, nodup_append]
        refine ⟨h.nodup, nodup_singleton _, fun name hmem _ hother hne => ?_⟩
        rw [mem_singleton.1 hother] at hne
        rcases mem_append.1 hmem with hmem | hmem
        · obtain ⟨r, hr, hrname⟩ := mem_map.1 hmem
          exact hnew r hr (hrname.trans hne)
        · obtain ⟨p, hp, hpname⟩ := mem_map.1 hmem
          exact hpending p hp (hpname.trans hne)
      · refine forall_mem_append.2 ⟨fun p hp => ?_, forall_mem_singleton.2 ?_⟩
        · exact ⟨(hacc.elsewhere p.name (hpending p hp)).trans (h.accumulated p hp),
            h.pending_sought p hp⟩
        · exact ⟨hacc.at_name, d, hsought, hpends⟩
      · exact .pending (mem_append_right _ (mem_singleton_self _)) hpends

end

variable (hos : Faithful os scratchRoot available At) {u : Unit}
include hos

/-- After its manifest is queued a package is no longer open. -/
lemma queueNestedManifest_sound (h : Invariant scratchRoot available At root (r.name :: exempt) s)
    (hr : r ∈ s.resolution) (hgit : r.source = .git)
    (hok : queueNestedManifest os (join scratchRoot r.name) r.name s = .ok u s') :
    Invariant scratchRoot available At root exempt s' ∧ Grows s s' := by
  obtain ⟨hmissing, hfound⟩ := hos.find (h.staged r hr hgit)
  have hworld := h.world fun n url ref =>
    diamondCutManifestFind_keeps (hos.quiet n url ref) (join scratchRoot r.name) s.world
  rcases queueNestedManifest_ok hok with ⟨hlookup, rfl⟩ | ⟨path, hlookup, rfl⟩
  · refine ⟨hworld.close hr fun d hd => ?_, .of_tables rfl rfl⟩
    obtain ⟨hcurrent, hlegacy⟩ := hmissing hlookup
    rw [Available.dependencies, hgit] at hd
    simp [Checkout.manifest, hcurrent, hlegacy] at hd
  · exact ⟨hworld.enqueue hr hgit (hfound path hlookup), .of_tables rfl rfl⟩

/-- The manifest that is read for a package is that of its checkout. -/
lemma Invariant.dependencies_of_read {path nested}
    (h : Invariant scratchRoot available At root exempt s) (hr : r ∈ s.resolution)
    (hgit : r.source = .git) (hfound : Found scratchRoot r.name (available.checkout r.git r.ref) path)
    (hread : (readManifest os path s.world).1 = .ok nested) :
    available.dependencies r = nested.dependencies := by
  rw [Available.dependencies, hgit]
  dsimp only
  rw [hos.read (h.staged r hr hgit) hfound hread]
  rfl

variable (hseparate : ∀ n m, InPlay available root n → InPlay available root m → n ≠ m →
  Separate scratchRoot n m)
include hseparate

/-- A package that is checked out is added with its manifest. -/
lemma checkout_sound (r : FacetResolved) (dropped : List FacetPendingSemver)
    {rest w₁ w₂ w₃ commit} (h : Invariant scratchRoot available At root exempt s)
    (hpending : s.pending = dropped ++ rest) (hdropped : ∀ p ∈ dropped, Chosen p r)
    (hnew : ∀ r' ∈ s.resolution, r'.name ≠ r.name) (hrest : ∀ p ∈ rest, p.name ≠ r.name)
    (hgit : r.source = .git) (hsought : ∃ d, Sought available root s.resolution d ∧ Serves d r)
    (hw : ∀ n url ref, At s.world n url ref → At w₁ n url ref)
    (hclone : gitClone os r.git r.ref (join scratchRoot r.name) w₁ = (.ok (), w₂))
    (hcommit : gitRevParseHead os (join scratchRoot r.name) w₂ = (.ok commit, w₃))
    (hok : queueNestedManifest os (join scratchRoot r.name) r.name
      { s with resolution := s.resolution ++ [r], pending := rest, world := w₃ } = .ok u s') :
    Invariant scratchRoot available At root exempt s' ∧ Grows s s' ∧ r ∈ s'.resolution := by
  have hhead {n url ref} (hat : At w₂ n url ref) : At w₃ n url ref := by
    have := gitRevParseHead_keeps (hos.quiet n url ref) (join scratchRoot r.name) w₂ hat
    rwa [hcommit] at this
  have hstaged : ∀ r' ∈ s.resolution ++ [r], r'.source = .git → At w₃ r'.name r'.git r'.ref := by
    refine forall_mem_append.2 ⟨fun r' hr' hgit' => ?_, forall_mem_singleton.2 ?_⟩
    · have happart := hseparate r'.name r.name (.of_sought (h.sought r' hr')) (.of_sought hsought)
        (hnew r' hr')
      have hat := hos.clone_keeps r.git r.ref r.name r'.name r'.git r'.ref happart w₁
        (hw _ _ _ (h.staged r' hr' hgit'))
      rw [hclone] at hat
      exact hhead hat
    · intro _
      have hat := hos.clone_delivers w₁ r.git r.ref r.name (by rw [hclone])
      rw [hclone] at hat
      exact hhead hat
  have hadd := h.add hpending hdropped hnew hrest (fun _ => hgit) hsought hstaged
  have hgrows : Grows s { s with resolution := s.resolution ++ [r], pending := rest, world := w₃ } :=
    .add hpending hdropped
  have hmem : r ∈ s.resolution ++ [r] := mem_append_right _ (mem_singleton_self r)
  obtain ⟨hinv, hgrows'⟩ := queueNestedManifest_sound hos hadd hmem hgit hok
  exact ⟨hinv, hgrows.trans hgrows', hgrows'.resolution hmem⟩

variable {d : FacetDependency} {requiredBy : Bytes}
  (h : Invariant scratchRoot available At root exempt s)
include h

/-- An exact dependency is covered after it is handled. -/
lemma handleExactDependency_sound (hexact : d.usesVersion = false)
    (hsought : Sought available root s.resolution d)
    (hok : handleExactDependency os scratchRoot d requiredBy s = .ok u s') :
    Invariant scratchRoot available At root exempt s' ∧ Grows s s' ∧ Covered s' d := by
  rcases handleExactDependency_ok hok with
    ⟨existing, hmem, hname, hversion, hgit, href, rfl⟩ | ⟨hnew, hpending, hresolve⟩
  · refine ⟨h, .refl _, .resolved hmem hname ?_⟩
    rw [Agrees, if_neg (by rw [hexact]; exact Bool.false_ne_true)]
    exact ⟨h.exact_git existing hmem hversion, hgit, href⟩
  obtain ⟨w, _, commit, hclone, hcommit, hqueue⟩ := resolveExact_ok hresolve
  have hserves : Serves d ⟨d.name, .git, d.git, [], [], 0, d.ref, commit, [], requiredBy⟩ := by
    refine ⟨rfl, ?_, by simp [hexact]⟩
    rw [Agrees, if_neg (by rw [hexact]; exact Bool.false_ne_true)]
    exact ⟨rfl, rfl, rfl⟩
  obtain ⟨hinv, hgrows, hmem⟩ := checkout_sound hos hseparate _ [] h rfl nofun hnew hpending rfl
    ⟨d, hsought, hserves⟩ (fun _ _ _ hat => hat) hclone hcommit hqueue
  exact ⟨hinv, hgrows, .resolved hmem rfl hserves.agrees⟩

/-- So are all dependencies of a manifest, by induction on them. -/
lemma resolveManifestDependencies_sound {deps}
    (hdeps : ∀ d ∈ deps, Sought available root s.resolution d)
    (hok : resolveManifestDependencies os scratchRoot requiredBy deps s = .ok u s') :
    Invariant scratchRoot available At root exempt s' ∧ Grows s s' ∧ ∀ d ∈ deps, Covered s' d := by
  induction deps generalizing s with
  | nil =>
    cases hok
    exact ⟨h, .refl _, nofun⟩
  | cons d rest ih =>
    obtain ⟨hd, hrest⟩ := forall_mem_cons.1 hdeps
    have hone : ∃ t, Invariant scratchRoot available At root exempt t ∧ Grows s t ∧ Covered t d ∧
        resolveManifestDependencies os scratchRoot requiredBy rest t = .ok u s' := by
      rw [resolveManifestDependencies] at hok
      split_ifs at hok with huses
      · obtain ⟨_, t, hrun, hok⟩ := bind_eq_ok.1 hok
        obtain ⟨hinv, hgrows, hcovered⟩ := handleVersionDependency_sound h huses hd hrun
        exact ⟨t, hinv, hgrows, hcovered, hok⟩
      · obtain ⟨_, t, hrun, hok⟩ := bind_eq_ok.1 hok
        obtain ⟨hinv, hgrows, hcovered⟩ :=
          handleExactDependency_sound hos hseparate h (Bool.eq_false_iff.2 huses) hd hrun
        exact ⟨t, hinv, hgrows, hcovered, hok⟩
    obtain ⟨t, hinv, hgrows, hcovered, hok⟩ := hone
    obtain ⟨hinv', hgrows', hrest'⟩ := ih hinv
      (fun d' hd' => (hrest d' hd').mono hgrows.resolution) hok
    exact ⟨hinv', hgrows.trans hgrows', forall_mem_cons.2 ⟨hgrows'.covered d hcovered, hrest'⟩⟩

/-- A queued manifest covers the dependencies of its package. -/
lemma processWorkItem_sound {item rest} (hqueue : s.queue = item :: rest)
    (hok : processWorkItem os scratchRoot item { s with queue := rest } = .ok u s') :
    Invariant scratchRoot available At root exempt s' ∧ Grows s s' := by
  obtain ⟨r, hr, hname, hgit, hfound⟩ := h.queued item (hqueue ▸ mem_cons_self)
  obtain ⟨nested, hread, _, hrun⟩ := processWorkItem_ok hok
  have hmanifest := h.dependencies_of_read hos hr hgit hfound hread
  have hworld := (h.dequeue hqueue).world fun n url ref =>
    readManifest_keeps (hos.quiet n url ref) item.path s.world
  have hdeps : ∀ d ∈ nested.dependencies, Sought available root s.resolution d :=
    fun d hd => h.sought_through hr (hmanifest ▸ hd)
  obtain ⟨hinv, hgrows, hcovered⟩ := resolveManifestDependencies_sound hos hseparate hworld hdeps hrun
  rw [← hname] at hinv
  refine ⟨hinv.close (hgrows.resolution hr) (hmanifest ▸ hcovered), ?_⟩
  have htables : Grows s { s with
      queue := rest, world := (readManifest os item.path s.world).2 } := .of_tables rfl rfl
  exact htables.trans hgrows

/-- The loop over the queue, by induction on its fuel. -/
lemma processWorkQueue_sound {fuel} (hok : processWorkQueue os scratchRoot fuel s = .ok u s') :
    Invariant scratchRoot available At root exempt s' ∧ Grows s s' ∧ s'.queue = [] := by
  induction fuel generalizing s with
  | zero => cases hok
  | succ _ ih =>
    cases hqueue : s.queue with
    | nil =>
      rw [processWorkQueue_of_nil hqueue] at hok
      cases hok
      exact ⟨h, .refl _, hqueue⟩
    | cons =>
      rw [processWorkQueue_of_cons hqueue] at hok
      obtain ⟨_, t, hitem, hok⟩ := bind_eq_ok.1 hok
      obtain ⟨hinv, hgrows⟩ := processWorkItem_sound hos hseparate h hqueue hitem
      obtain ⟨hinv', hgrows', hempty⟩ := ih hinv hok
      exact ⟨hinv', hgrows.trans hgrows', hempty⟩

/-! ## Pending names -/

variable {preference : List FacetResolved} {entry : FacetPendingSemver}
  {rest : List FacetPendingSemver}

section
variable (hpending : s.pending = entry :: rest)
include hpending

/-- A pending name of a repository is resolved soundly. -/
lemma resolveTag_sound (hgit : entry.source = .git)
    (hok : resolveTag os scratchRoot entry { s with pending := rest } = .ok u s') :
    Invariant scratchRoot available At root exempt s' ∧ Grows s s' := by
  obtain ⟨_, w₁, best, _, commit, _, htags, hbest, hclone, hcommit, hqueue⟩ := resolveTag_ok hok
  have hmem : entry ∈ s.pending := hpending ▸ mem_cons_self
  obtain ⟨hnew, hrest⟩ := h.first_fresh hpending
  have hchosen : Chosen entry ⟨entry.name, .git, entry.git, [], [], 0, best, commit, best,
      entry.firstRequester⟩ :=
    ⟨rfl, hgit.symm, fun _ => rfl, nofun, (pickBestMatchingTag_some hbest).2, fun _ => rfl⟩
  obtain ⟨d, hsought, hpends⟩ := h.pending_sought entry hmem
  have hw : ∀ n url ref, At s.world n url ref → At w₁ n url ref := by
    intro n url ref hat
    have hat' := gitListSemverTags_keeps (hos.quiet n url ref) entry.git s.world hat
    rwa [htags] at hat'
  obtain ⟨hinv, hgrows, _⟩ := checkout_sound hos hseparate _ [entry] h hpending
    (forall_mem_singleton.2 hchosen) hnew hrest rfl ⟨d, hsought, hchosen.serves hpends⟩ hw hclone
    hcommit hqueue
  exact ⟨hinv, hgrows⟩

/-- A pending name of a registry is resolved soundly. -/
lemma resolveRegistry_sound (hregistry : entry.source = .registry)
    (hok : resolveRegistry os scratchRoot preference entry { s with pending := rest } = .ok u s') :
    Invariant scratchRoot available At root exempt s' ∧ Grows s s' := by
  obtain ⟨best, w₁, r, deps, w₂, hbest, hrelease, hrun⟩ := resolveRegistry_ok hok
  obtain ⟨_, hindex, hversion⟩ := registryBestVersion_ok hbest
  obtain ⟨release, hfetch, hof⟩ := registryRelease_ok hrelease
  obtain ⟨hname, hsource, _, hreg, hbestVersion, hlisted⟩ := releaseOf_ok hof
  have hmem : entry ∈ s.pending := hpending ▸ mem_cons_self
  obtain ⟨d, hsought, hpends⟩ := h.pending_sought entry hmem
  obtain ⟨hnew, hrest⟩ := h.first_fresh hpending
  have hchosen : Chosen entry r := by
    refine ⟨hname, hsource.trans hregistry.symm, ?_, fun _ => hreg, ?_, ?_⟩
    · rw [hsource]
      exact nofun
    · rw [hbestVersion]
      exact bestVersion_ok hversion
    · rw [hsource]
      exact nofun
  have hserved : ∃ d, Sought available root s.resolution d ∧ Serves d r :=
    ⟨d, hsought, hchosen.serves hpends⟩
  have hstaged : ∀ r' ∈ s.resolution ++ [r], r'.source = .git → At w₂ r'.name r'.git r'.ref := by
    refine forall_mem_append.2 ⟨fun r' hr' hgit => ?_, forall_mem_singleton.2 ?_⟩
    · have happart := hseparate r'.name entry.name (.of_sought (h.sought r' hr'))
        (hname ▸ .of_sought hserved) (hnew r' hr')
      have hat₁ := hos.fetch_keeps (indexUrl entry.registry entry.name) entry.name
        (jsonPath scratchRoot entry.name indexStart) (by simp [metadataFiles]) _ _ _ happart s.world
        (h.staged r' hr' hgit)
      rw [hindex] at hat₁
      have hat₂ := hos.fetch_keeps (releaseUrl entry.registry entry.name best) entry.name
        (jsonPath scratchRoot entry.name releaseStart) (by simp [metadataFiles]) _ _ _ happart w₁ hat₁
      rwa [hfetch] at hat₂
    · rw [hsource]
      exact nofun
  have hexact : r.version = [] → r.source = .git := by
    intro hnil
    obtain ⟨v, hv, _⟩ := hchosen.version
    rw [hnil] at hv
    cases hv
  have hdropped : ∀ p ∈ [entry], Chosen p r := forall_mem_singleton.2 hchosen
  have hadd := h.add hpending hdropped (hname ▸ hnew) (hname ▸ hrest) hexact hserved hstaged
  have hr : r ∈ s.resolution ++ [r] := mem_append_right _ (mem_singleton_self r)
  have hmanifest : available.dependencies r = deps := by
    rw [Available.dependencies, hsource, hlisted]
    dsimp only
    rw [hreg, hname, hbestVersion, hos.fetch_metadata w₁ _ _ release (by rw [hfetch])]
  have hdeps : ∀ d ∈ deps, Sought available root (s.resolution ++ [r]) d :=
    fun d hd => hadd.sought_through hr (hmanifest ▸ hd)
  obtain ⟨hinv, hgrows, hcovered⟩ := resolveManifestDependencies_sound hos hseparate hadd hdeps hrun
  refine ⟨hinv.close (hgrows.resolution hr) (hmanifest ▸ hcovered), ?_⟩
  exact (Grows.add hpending hdropped).trans hgrows

/-- One turn of the loop over the pending names. -/
lemma resolveOnePending_sound (hok : resolveOnePending os scratchRoot preference entry rest s =
    .ok u s') : Invariant scratchRoot available At root exempt s' ∧ Grows s s' := by
  cases hsource : entry.source with
  | registry =>
    rw [resolveOnePending_of_registry hsource] at hok
    exact resolveRegistry_sound hos hseparate h hpending hsource hok
  | git =>
    rw [resolveOnePending_of_git hsource] at hok
    exact resolveTag_sound hos hseparate h hpending hsource hok

end

/-- The loop over the pending names, by induction on its fuel. -/
lemma resolvePending_sound {fuel} (hqueue : s.queue = [])
    (hok : resolvePending os scratchRoot preference fuel s = .ok u s') :
    Invariant scratchRoot available At root exempt s' ∧ Grows s s' ∧
      s'.queue = [] ∧ s'.pending = [] := by
  induction fuel generalizing s with
  | zero => cases hok
  | succ _ ih =>
    cases hpending : s.pending with
    | nil =>
      rw [resolvePending_of_nil hpending] at hok
      cases hok
      exact ⟨h, .refl _, hqueue, hpending⟩
    | cons =>
      rw [resolvePending_of_cons hpending] at hok
      obtain ⟨_, t, hone, hok⟩ := bind_eq_ok.1 hok
      obtain ⟨_, _, hwork, hok⟩ := bind_eq_ok.1 hok
      obtain ⟨hinv, hgrows⟩ := resolveOnePending_sound hos hseparate h hpending hone
      obtain ⟨hinv', hgrows', hempty⟩ := processWorkQueue_sound hos hseparate hinv hwork
      obtain ⟨hinv'', hgrows'', hends⟩ := ih hinv' hempty hok
      exact ⟨hinv'', (hgrows.trans hgrows').trans hgrows'', hends⟩

/-! ## Attempts -/

omit h in
/-- A walk that ends well has a sound solution. -/
lemma attemptResolveGraph_sound {manifest} (hroot : root = manifest.dependencies)
    (hempty : s.resolution = [])
    (hok : attemptResolveGraph os scratchRoot preference manifest s = .ok u s') :
    Sound available root s'.resolution := by
  rw [attemptResolveGraph, modify_bind] at hok
  obtain ⟨_, _, hdeps, hok⟩ := bind_eq_ok.1 hok
  obtain ⟨_, _, hwork, hok⟩ := bind_eq_ok.1 hok
  rw [← hroot] at hdeps
  have hstart : Invariant scratchRoot available At root [] { s with pending := [], queue := [] } :=
    .start hempty
  obtain ⟨h₁, _, hcovered⟩ := resolveManifestDependencies_sound hos hseparate hstart
    (fun d hd => ⟨.direct hd, .root hd⟩) hdeps
  obtain ⟨h₂, hgrows₂, hqueue₂⟩ := processWorkQueue_sound hos hseparate h₁ hwork
  obtain ⟨h₃, hgrows₃, hqueue₃, hpending₃⟩ := resolvePending_sound hos hseparate h₂ hqueue₂ hok
  exact h₃.sound hqueue₃ hpending₃ fun d hd => hgrows₃.covered d (hgrows₂.covered d (hcovered d hd))

omit h in
/-- So have the walks, by induction on how many are left. -/
lemma resolveAttempts_sound {manifest} (hroot : root = manifest.dependencies)
    {attempts} (hok : resolveAttempts os scratchRoot preference manifest attempts s = .ok u s') :
    Sound available root s'.resolution := by
  induction attempts generalizing s with
  | zero => cases hok
  | succ _ ih =>
    rcases onRestart_ok hok with hok | ⟨t, _, hok⟩
    · obtain ⟨t, ht, hok⟩ := attemptOnce_ok hok
      exact attemptResolveGraph_sound hos hseparate hroot ht hok
    · exact ih hok

end

def resolvedBy {σ : Type} : EStateM.Result Stop (Session σ) (List FacetResolved) →
    Option (List FacetResolved)
  | .ok resolution _ => some resolution
  | .error _ _ => none

lemma exists_of_resolvedBy {σ : Type} {run : EStateM.Result Stop (Session σ) (List FacetResolved)}
    {resolution} (h : resolvedBy run = some resolution) : ∃ s, run = .ok resolution s := by
  cases run with
  | ok _ s =>
    cases h
    exact ⟨s, rfl⟩
  | error => cases h

def facetTmp : Bytes :=
  text ['c', 'u', 't', 's', '/', '.', 'f', 'a', 'c', 'e', 't', '-', 't', 'm', 'p']

section
variable (name url tag versionText : Bytes) (dependencies : List (Bytes × ManifestValue))

def cutfile : ManifestValue :=
  .hash [(text ['n', 'a', 'm', 'e'], .string name),
    (text ['d', 'e', 'p', 'e', 'n', 'd', 'e', 'n', 'c', 'i', 'e', 's'], .hash dependencies)]

def onTag : Bytes × ManifestValue :=
  (name, .hash [(text ['g', 'i', 't'], .string url), (text ['t', 'a', 'g'], .string tag)])

def onVersion : Bytes × ManifestValue :=
  (name, .hash [(text ['g', 'i', 't'], .string url),
    (text ['v', 'e', 'r', 's', 'i', 'o', 'n'], .string versionText)])

def tagLine : Bytes :=
  text ['0', '\t', 'r', 'e', 'f', 's', '/', 't', 'a', 'g', 's', '/'] ++ tag ++ text ['\n']

def tagged : Snapshot := ⟨[tag], tag, [([cutManifest], .file (cutfile name dependencies))]⟩

end

/-- Package `b` needs a version of `c` that the root's own dependency on `c` does not ask for. -/
def nestedRemotes : List Remote :=
  [⟨text ['B'], [], [tagged (text ['b']) (text ['1', '.', '0', '.', '0'])
      [onVersion (text ['c']) (text ['C']) (text ['>', '=', '1', '.', '1', '.', '0'])]]⟩,
    ⟨text ['C'], tagLine (text ['1', '.', '0', '.', '0']) ++ tagLine (text ['1', '.', '2', '.', '0']) ++
      tagLine (text ['2', '.', '0', '.', '0']),
      [tagged (text ['c']) (text ['1', '.', '0', '.', '0']) [],
        tagged (text ['c']) (text ['1', '.', '2', '.', '0']) [],
        tagged (text ['c']) (text ['2', '.', '0', '.', '0']) []]⟩]

/-- The root, which depends on versions of `c` and on a tag of `b`. -/
def nestedManifest : FacetManifest :=
  ⟨text ['a'], none, [⟨text ['c'], .git, text ['C'], [], [], .tag, true,
      text ['^', '1', '.', '0', '.', '0'], nofun⟩,
    ⟨text ['b'], .git, text ['B'], [], text ['1', '.', '0', '.', '0'], .tag, false, [], fun _ => rfl⟩]⟩

def nestedResolution : List FacetResolved :=
  [⟨text ['b'], .git, text ['B'], [], [], 0, text ['1', '.', '0', '.', '0'],
      text ['1', '.', '0', '.', '0'], [], text ['a']⟩,
    ⟨text ['c'], .git, text ['C'], [], [], 0, text ['1', '.', '2', '.', '0'],
      text ['1', '.', '2', '.', '0'], text ['1', '.', '2', '.', '0'], text ['b']⟩]

/-- The repository of `.` has a file where the manifest of `b` is staged. -/
def dotRemotes : List Remote :=
  [⟨text ['B'], [], [tagged (text ['b']) (text ['1', '.', '0', '.', '0'])
      [onTag (text ['c']) (text ['C']) (text ['1', '.', '0', '.', '0'])]]⟩,
    ⟨text ['R'], [], [⟨[text ['1', '.', '0', '.', '0']], text ['r'],
      [([text ['b'], cutManifest], .file (cutfile (text ['b']) []))]⟩]⟩]

def dotManifest : FacetManifest :=
  ⟨text ['a'], none, [⟨text ['b'], .git, text ['B'], [], text ['1', '.', '0', '.', '0'], .tag, false, [],
      fun _ => rfl⟩,
    ⟨dot, .git, text ['R'], [], text ['1', '.', '0', '.', '0'], .tag, false, [], fun _ => rfl⟩]⟩

def dotResolution : List FacetResolved :=
  [⟨text ['b'], .git, text ['B'], [], [], 0, text ['1', '.', '0', '.', '0'],
      text ['1', '.', '0', '.', '0'], [], text ['a']⟩,
    ⟨dot, .git, text ['R'], [], [], 0, text ['1', '.', '0', '.', '0'], text ['r'], [], text ['a']⟩]

end Diamond.Facet
