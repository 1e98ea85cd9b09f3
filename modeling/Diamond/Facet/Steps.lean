import Diamond.Facet.Choice

/-!
# What the resolver's functions do when they succeed

One lemma per function of `Facet/Resolve`: the conditions under which it returns and the state it
leaves.
-/

namespace Diamond.Facet

open List

open Codec (Bytes)
open Fallible (bind_eq_ok except_bind_eq_ok get_bind modify_bind state_bind_apply)

section
variable {σ α : Type} {s s' : Session σ}

/-! ## Calls of the system -/

/-- A call of the system returns its answer and changes only the world. -/
lemma ask_ok {call : StateM σ α} {a : α} : ask call s = .ok a s' ↔
      (call s.world).1 = a ∧ s' = { s with world := (call s.world).2 } := by
  rw [ask]
  constructor
  · intro h
    cases h
    exact ⟨rfl, rfl⟩
  · rintro ⟨rfl, rfl⟩
    rfl

/-- A call that may fail returns the value of an answer that is not an error. -/
lemma attempt_ok {call : StateM σ (Checked α)} {a : α} (h : attempt call s = .ok a s') :
    (call s.world).1 = .ok a ∧ s' = { s with world := (call s.world).2 } := by
  rw [attempt, bind_eq_ok] at h
  obtain ⟨answer, t, hask, h⟩ := h
  obtain ⟨hanswer, rfl⟩ := ask_ok.1 hask
  cases answer with
  | ok =>
    cases h
    exact ⟨hanswer, rfl⟩
  | error => cases h

/-- A run that goes on behind a call goes on from the world that the call leaves. -/
lemma attempt_bind_ok {β call} {f : α → Resolve σ β} {b : β}
    (h : (attempt call >>= f) s = .ok b s') : ∃ a w, call s.world = (.ok a, w) ∧
      f a { s with world := w } = .ok b s' := by
  obtain ⟨a, _, hrun, h⟩ := bind_eq_ok.1 h
  obtain ⟨ha, rfl⟩ := attempt_ok hrun
  exact ⟨a, _, Prod.ext ha rfl, h⟩

/-! ## The queue -/

/-- A manifest is put at the end of the queue. -/
lemma workQueuePush_ok {path cutName u} (h : workQueuePush path cutName s = .ok u s') :
    s' = { s with queue := s.queue ++ [⟨path, cutName⟩] } := by
  rw [workQueuePush, get_bind] at h
  split_ifs at h
  · cases h
  · cases h
    rfl

variable {os : Os σ} {scratchRoot : Bytes}

/-- A checkout without a manifest changes nothing; one with a manifest puts it into the queue. -/
lemma queueNestedManifest_ok {directory cutName u}
    (h : queueNestedManifest os directory cutName s = .ok u s') :
    ((diamondCutManifestFind os directory s.world).1 = .missing ∧
      s' = { s with world := (diamondCutManifestFind os directory s.world).2 }) ∨
    ∃ path, (diamondCutManifestFind os directory s.world).1 = .found path ∧
      s' = { s with
        world := (diamondCutManifestFind os directory s.world).2
        queue := s.queue ++ [⟨path, cutName⟩] } := by
  rw [queueNestedManifest, bind_eq_ok] at h
  obtain ⟨lookup, t, hask, h⟩ := h
  obtain ⟨hlookup, rfl⟩ := ask_ok.1 hask
  cases lookup with
  | missing =>
    cases h
    exact .inl ⟨hlookup, rfl⟩
  | found path => exact .inr ⟨path, hlookup, workQueuePush_ok h⟩
  | ambiguous | pathTooLong => cases h

/-- The packages, the pending names and the history stay as they are. -/
lemma queueNestedManifest_tables {directory cutName u}
    (hok : queueNestedManifest os directory cutName s = .ok u s') :
    s'.resolution = s.resolution ∧ s'.pending = s.pending ∧ s'.history = s.history := by
  rcases queueNestedManifest_ok hok with ⟨_, rfl⟩ | ⟨_, _, rfl⟩
  all_goals exact ⟨rfl, rfl, rfl⟩

/-! ## Exact dependencies -/

variable {dependency : FacetDependency} {requiredBy : Bytes} {u : Unit}

/-- A new exact dependency is cloned, checked out and added, and its manifest is queued. -/
lemma resolveExact_ok (h : resolveExact os scratchRoot dependency requiredBy s = .ok u s') :
    ∃ w w' commit,
      gitClone os dependency.git dependency.ref (join scratchRoot dependency.name) s.world =
        (.ok (), w) ∧
      gitRevParseHead os (join scratchRoot dependency.name) w = (.ok commit, w') ∧
      queueNestedManifest os (join scratchRoot dependency.name) dependency.name
        { s with
          resolution := s.resolution ++ [⟨dependency.name, .git, dependency.git, [], [], 0,
            dependency.ref, commit, [], requiredBy⟩]
          world := w' } = .ok u s' := by
  rw [resolveExact, get_bind] at h
  split_ifs at h
  · cases h
  · dsimp only at h
    split_ifs at h
    · cases h
    · obtain ⟨_, w, hclone, h⟩ := attempt_bind_ok h
      obtain ⟨commit, w', hcommit, h⟩ := attempt_bind_ok h
      rw [modify_bind] at h
      exact ⟨w, w', commit, hclone, hcommit, h⟩

/-- An exact dependency is on a package that is there, at the same ref, or on a new name. -/
lemma handleExactDependency_ok
    (h : handleExactDependency os scratchRoot dependency requiredBy s = .ok u s') :
    (∃ existing ∈ s.resolution, existing.name = dependency.name ∧ existing.version = [] ∧
      existing.git = dependency.git ∧ existing.ref = dependency.ref ∧ s' = s) ∨
    ((∀ r ∈ s.resolution, r.name ≠ dependency.name) ∧ (∀ p ∈ s.pending, p.name ≠ dependency.name) ∧
      resolveExact os scratchRoot dependency requiredBy s = .ok u s') := by
  rw [handleExactDependency, get_bind] at h
  cases hfind : s.resolution.find? fun r => r.name == dependency.name with rw [hfind] at h
  | some existing =>
    dsimp only at h
    split_ifs at h with hversion hsame
    · cases h
    · cases h
      exact .inl ⟨existing, mem_of_find?_eq_some hfind,
        by simpa using find?_some hfind, not_not.1 hversion, hsame.1, hsame.2, rfl⟩
    · cases h
  | none =>
    dsimp only at h
    rw [get_bind] at h
    cases hpending : s.pending.find? fun p => p.name == dependency.name with rw [hpending] at h
    | some =>
      cases h
    | none =>
      refine .inr ⟨fun r hr => ?_, fun p hp => ?_, h⟩
      · simpa using find?_eq_none.1 hfind r hr
      · simpa using find?_eq_none.1 hpending p hp

/-! ## Dependencies on versions -/

/-- The constraint that the history has for a name. -/
def accumulatedOf (s : Session σ) (name : Bytes) : Option SemverConstraint :=
  (s.history.find? fun r => r.name == name).map FacetConstraintRecord.accumulated

/-- The history changes at one name only, and nothing else changes. -/
structure Accumulates (name : Bytes) (merged : SemverConstraint) (s s' : Session σ) : Prop where
  at_name : accumulatedOf s' name = some merged
  elsewhere : ∀ other, other ≠ name → accumulatedOf s' other = accumulatedOf s other
  resolution : s'.resolution = s.resolution
  pending : s'.pending = s.pending
  queue : s'.queue = s.queue
  world : s'.world = s.world

/-- The record is the name's own; a new one has no bounds. -/
lemma findOrCreateConstraintRecord_ok {record}
    (h : findOrCreateConstraintRecord dependency s = .ok record s') :
    (s'.history.find? fun r => r.name == dependency.name) = some record ∧
    record.accumulated = (accumulatedOf s dependency.name).getD ⟨none, none⟩ ∧
    (∀ other, other ≠ dependency.name → accumulatedOf s' other = accumulatedOf s other) ∧
    s' = { s with history := s'.history } := by
  rw [findOrCreateConstraintRecord, get_bind] at h
  cases hfind : s.history.find? fun r => r.name == dependency.name with rw [hfind] at h
  | some =>
    dsimp only at h
    split_ifs at h
    · cases h
      exact ⟨hfind, by rw [accumulatedOf, hfind]; rfl, fun _ _ => rfl, rfl⟩
    · cases h
  | none =>
    dsimp only at h
    rw [get_bind] at h
    split_ifs at h
    · cases h
    rw [modify_bind] at h
    cases h
    refine ⟨?_, ?_, fun other hother => ?_, rfl⟩
    · rw [find?_append, hfind]
      simp
    · rw [accumulatedOf, hfind]
      rfl
    · rw [accumulatedOf, accumulatedOf, find?_append]
      simp [hother.symm]

/-- What a change of one name's record does to the history. -/
lemma accumulatedOf_map (t : Session σ) (name other requester : Bytes) (merged : SemverConstraint) :
    accumulatedOf { t with history := t.history.map fun r =>
      if r.name = name then { r with accumulated := merged, mostRecentRequester := requester } else r }
      other = if other = name then (accumulatedOf t other).map fun _ => merged
        else accumulatedOf t other := by
  have hname : ((fun r : FacetConstraintRecord => r.name == other) ∘ fun r =>
      if r.name = name then { r with accumulated := merged, mostRecentRequester := requester } else r) =
      fun r => r.name == other := by
    funext r
    by_cases hr : r.name = name <;> simp [hr]
  rw [accumulatedOf, accumulatedOf, find?_map, hname, Option.map_map]
  cases hfind : t.history.find? fun r => r.name == other with
  | none => simp
  | some r =>
    have hr : r.name = other := by simpa using find?_some hfind
    by_cases hother : other = name
    all_goals simp [hr, hother]

variable {constraint merged : SemverConstraint} {root : ManifestValue}

/-- The constraint is intersected with what the history has for the name. -/
lemma accumulate_ok (h : accumulate dependency requiredBy constraint s = .ok merged s') :
    semverConstraintIntersect ((accumulatedOf s dependency.name).getD ⟨none, none⟩) constraint =
      some merged ∧ Accumulates dependency.name merged s s' := by
  rw [accumulate, bind_eq_ok] at h
  obtain ⟨record, t, hrecord, h⟩ := h
  obtain ⟨hfind, haccumulated, helsewhere, ht⟩ := findOrCreateConstraintRecord_ok hrecord
  cases hmerged : semverConstraintIntersect record.accumulated constraint with rw [hmerged] at h
  | none =>
    cases h
  | some =>
    cases h
    rw [← haccumulated]
    refine ⟨hmerged, ?_, fun other hother => ?_, ?_, ?_, ?_, ?_⟩
    · rw [accumulatedOf_map, if_pos rfl, accumulatedOf, hfind]
      rfl
    · rw [accumulatedOf_map, if_neg hother, helsewhere other hother]
    all_goals rw [ht]

/-- The package that is there has the same source and a version that is still allowed. -/
lemma checkResolved_ok {accumulated existing}
    (h : checkResolved dependency requiredBy accumulated existing s = .ok u s') :
    sameSource dependency existing.source existing.git existing.registry = true ∧
    (∃ v, semverParse existing.version = some v ∧ semverSatisfies v accumulated = true) ∧ s' = s := by
  rw [checkResolved] at h
  split_ifs at h with hsource hversion hany
  · cases h
  · cases h
    refine ⟨hsource, ?_, rfl⟩
    cases hparse : semverParse existing.version with
    | none => simp [hparse] at hany
    | some v => exact ⟨v, rfl, by simpa [hparse] using hany⟩
  all_goals cases h

/-- An entry of the name gets the new constraint. -/
lemma constrain_of_eq {name requiredBy p} (h : p.name = name) : constrain name merged requiredBy p =
      { p with constraint := merged, firstRequester := requiredBy } := if_pos h

/-- An entry of another name is left alone. -/
lemma constrain_of_ne {name requiredBy p} (h : p.name ≠ name) :
    constrain name merged requiredBy p = p := if_neg h

/-- A change of constraints keeps the names. -/
lemma constrain_names (name requiredBy : Bytes) (merged : SemverConstraint)
    (pending : List FacetPendingSemver) :
    (pending.map (constrain name merged requiredBy)).map FacetPendingSemver.name =
      pending.map FacetPendingSemver.name := by
  rw [map_map]
  refine map_congr_left fun p _ => ?_
  by_cases hp : p.name = name
  · rw [Function.comp, constrain_of_eq hp]
  · rw [Function.comp, constrain_of_ne hp]

/-- The name's entry is narrowed, or there was none and one is added. -/
lemma addPending_ok {accumulated} (h : addPending dependency requiredBy accumulated s = .ok u s') :
    (∃ existing ∈ s.pending, existing.name = dependency.name ∧
      sameSource dependency existing.source existing.git existing.registry = true ∧
      s' = { s with
        pending := s.pending.map (constrain dependency.name accumulated requiredBy) }) ∨
    ((∀ p ∈ s.pending, p.name ≠ dependency.name) ∧
      s' = { s with pending := s.pending ++ [⟨dependency.name, dependency.source, dependency.git,
        dependency.registry, accumulated, requiredBy⟩] }) := by
  rw [addPending, get_bind] at h
  cases hfind : s.pending.find? fun p => p.name == dependency.name with rw [hfind] at h
  | some existing =>
    dsimp only at h
    split_ifs at h with hsource
    · cases h
      exact .inl ⟨existing, mem_of_find?_eq_some hfind, by simpa using find?_some hfind,
        hsource, rfl⟩
    · cases h
  | none =>
    dsimp only at h
    rw [get_bind] at h
    split_ifs at h
    · cases h
    · cases h
      exact .inr ⟨fun p hp => by simpa using find?_eq_none.1 hfind p hp, rfl⟩

/-- A dependency on a version narrows the history, and meets a package that is allowed or an entry.
-/
lemma handleVersionDependency_ok (h : handleVersionDependency dependency requiredBy s = .ok u s') :
    ∃ constraint merged t, semverConstraintParse dependency.versionText = some constraint ∧
      semverConstraintIntersect ((accumulatedOf s dependency.name).getD ⟨none, none⟩) constraint =
        some merged ∧ Accumulates dependency.name merged s t ∧
      ((∃ existing ∈ s.resolution, existing.name = dependency.name ∧
        sameSource dependency existing.source existing.git existing.registry = true ∧
        (∃ v, semverParse existing.version = some v ∧ semverSatisfies v merged = true) ∧ s' = t) ∨
      ((∀ r ∈ s.resolution, r.name ≠ dependency.name) ∧
        addPending dependency requiredBy merged t = .ok u s')) := by
  rw [handleVersionDependency] at h
  cases hparse : semverConstraintParse dependency.versionText with rw [hparse] at h
  | none =>
    cases h
  | some constraint =>
    dsimp only at h
    obtain ⟨merged, t, haccumulate, h⟩ := bind_eq_ok.1 h
    obtain ⟨hmerged, haccumulates⟩ := accumulate_ok haccumulate
    refine ⟨constraint, merged, t, rfl, hmerged, haccumulates, ?_⟩
    rw [get_bind] at h
    rw [haccumulates.resolution] at h
    cases hfind : s.resolution.find? fun r => r.name == dependency.name with rw [hfind] at h
    | some existing =>
      obtain ⟨hsource, hversion, rfl⟩ := checkResolved_ok h
      exact .inl ⟨existing, mem_of_find?_eq_some hfind, by simpa using find?_some hfind,
        hsource, hversion, rfl⟩
    | none =>
      exact .inr ⟨fun r hr => by simpa using find?_eq_none.1 hfind r hr, h⟩

/-! ## Manifests -/

/-- The manifest that is read has the package's name, and its dependencies are handled. -/
lemma processWorkItem_ok {item} (h : processWorkItem os scratchRoot item s = .ok u s') :
    ∃ nested, (readManifest os item.path s.world).1 = .ok nested ∧ nested.name = item.cutName ∧
      resolveManifestDependencies os scratchRoot item.cutName nested.dependencies
        { s with world := (readManifest os item.path s.world).2 } = .ok u s' := by
  rw [processWorkItem, bind_eq_ok] at h
  obtain ⟨nested, t, hrun, h⟩ := h
  obtain ⟨hread, rfl⟩ := attempt_ok hrun
  split_ifs at h with hname
  · cases h
  · exact ⟨nested, hread, not_not.1 hname, h⟩

variable {fuel : ℕ}

lemma processWorkQueue_of_nil (h : s.queue = []) :
    processWorkQueue os scratchRoot (fuel + 1) s = .ok () s := by
  rw [processWorkQueue, Fallible.bind_apply, Fallible.get_apply]
  dsimp only
  rw [h]
  rfl

lemma processWorkQueue_of_cons {item rest} (h : s.queue = item :: rest) :
    processWorkQueue os scratchRoot (fuel + 1) s =
      (processWorkItem os scratchRoot item >>= fun _ => processWorkQueue os scratchRoot fuel)
        { s with queue := rest } := by
  rw [processWorkQueue, Fallible.bind_apply, Fallible.get_apply]
  dsimp only
  rw [h]
  rfl

/-! ## Pending names -/

variable {best : Bytes} {rest : List FacetPendingSemver}

/-- The tag picked is one of the tags, and a version that satisfies the constraint. -/
lemma pickBestMatchingTag_some {tags} (h : pickBestMatchingTag tags constraint = some best) :
    best ∈ tags ∧ ∃ v, semverParse best = some v ∧ semverSatisfies v constraint = true := by
  rw [pickBestMatchingTag, pickBestLoop_eq, Option.map_eq_some_iff] at h
  obtain ⟨b, hb, rfl⟩ := h
  obtain ⟨hmem, hparse, hsat⟩ := mem_matchingTags.1 (mem_of_chooseLoop hb)
  exact ⟨hmem, b.2, hparse, hsat⟩

variable {entry : FacetPendingSemver} {preference : List FacetResolved}

variable {version : Bytes}

/-- The version chosen from an index is in a record of it that is not yanked. -/
lemma bestVersion_from (h : bestVersion preference entry root = .ok best) :
    ∃ records, diamondManifestGet root (text ['v', 'e', 'r', 's', 'i', 'o', 'n', 's']) =
        some (.array records) ∧
      ∃ record ∈ records, ∃ v, versionRecord record = some (best, false, v) ∧
        semverSatisfies v entry.constraint = true := by
  rw [bestVersion.eq_def] at h
  split at h
  · next versions _ hversions =>
    obtain ⟨_, _, h⟩ := except_bind_eq_ok.1 h
    obtain ⟨chosen, hloop, h⟩ := except_bind_eq_ok.1 h
    cases chosen with
    | none => cases h
    | some c =>
      cases h
      obtain ⟨record, hmem, hrecord, hsat⟩ :=
        mem_matchingReleases.1 (mem_of_chooseLoop (bestVersionLoop_ok hloop).symm)
      exact ⟨versions, hversions, record, hmem, c.2, hrecord, hsat⟩
  · cases h

/-- The version that is chosen satisfies the constraint. -/
lemma bestVersion_ok (h : bestVersion preference entry root = .ok best) :
    ∃ v, semverParse best = some v ∧ semverSatisfies v entry.constraint = true := by
  obtain ⟨_, _, _, _, v, hrecord, hsat⟩ := bestVersion_from h
  exact ⟨v, (versionRecord_some hrecord).2.1, hsat⟩

/-- The choice is made from the index of the package. -/
lemma registryBestVersion_ok {w w'}
    (h : registryBestVersion os scratchRoot preference entry w = (.ok best, w')) :
    ∃ root, fetchRegistryHash os (indexUrl entry.registry entry.name)
        (jsonPath scratchRoot entry.name indexStart) w = (.ok root, w') ∧
      bestVersion preference entry root = .ok best := by
  rw [registryBestVersion] at h
  split_ifs at h
  · cases h
  rw [state_bind_apply] at h
  cases hfetch : fetchRegistryHash os (indexUrl entry.registry entry.name)
      (jsonPath scratchRoot entry.name indexStart) w with
  | mk answer =>
    rw [hfetch] at h
    cases answer with
    | error => cases h
    | ok root =>
      obtain ⟨hbest, rfl⟩ := Prod.mk.inj h
      exact ⟨root, rfl, hbest⟩

/-- The release is read from the metadata of the version. -/
lemma registryRelease_ok {w w' release}
    (h : registryRelease os scratchRoot entry version w = (.ok release, w')) :
    ∃ root, fetchRegistryHash os (releaseUrl entry.registry entry.name version)
        (jsonPath scratchRoot entry.name releaseStart) w = (.ok root, w') ∧
      releaseOf entry version root = .ok release := by
  rw [registryRelease] at h
  split_ifs at h
  · cases h
  rw [state_bind_apply] at h
  cases hfetch : fetchRegistryHash os (releaseUrl entry.registry entry.name version)
      (jsonPath scratchRoot entry.name releaseStart) w with
  | mk answer =>
    rw [hfetch] at h
    cases answer with
    | error => cases h
    | ok root =>
      obtain ⟨hrelease, rfl⟩ := Prod.mk.inj h
      exact ⟨root, rfl, hrelease⟩

/-- The dependencies that the metadata of a release lists, none if they cannot be read. -/
def listedDependencies (registry : Bytes) (root : ManifestValue) : List FacetDependency :=
  match diamondManifestGet root
      (text ['d', 'e', 'p', 'e', 'n', 'd', 'e', 'n', 'c', 'i', 'e', 's']) with
  | some (.hash children) => (releaseDependencies registry [] children).getD []
  | _ => []

/-- A release is a package of the registry at the version, with the dependencies that are listed. -/
lemma releaseOf_ok {resolved dependencies}
    (h : releaseOf entry version root = .ok (resolved, dependencies)) :
    resolved.name = entry.name ∧ resolved.source = .registry ∧ resolved.git = [] ∧
      resolved.registry = entry.registry ∧ resolved.version = version ∧
      dependencies = listedDependencies entry.registry root := by
  rw [releaseOf] at h
  obtain ⟨_, _, h⟩ := except_bind_eq_ok.1 h
  split at h
  · rename_i children fields _ hchildren _
    obtain ⟨_, _, h⟩ := except_bind_eq_ok.1 h
    split at h
    · rename_i hlisted
      obtain ⟨rfl, rfl⟩ := Prod.mk.inj (Except.ok.inj h)
      refine ⟨rfl, rfl, rfl, rfl, rfl, ?_⟩
      rw [listedDependencies, hchildren]
      dsimp only
      rw [hlisted, Option.getD_some]
    · cases h
  · cases h

/-- A pending name of a registry is resolved to the best version, and its dependencies are handled.
-/
lemma resolveRegistry_ok (h : resolveRegistry os scratchRoot preference entry s = .ok u s') :
    ∃ best w resolved dependencies w',
      registryBestVersion os scratchRoot preference entry s.world = (.ok best, w) ∧
      registryRelease os scratchRoot entry best w = (.ok (resolved, dependencies), w') ∧
      resolveManifestDependencies os scratchRoot entry.name dependencies
        { s with resolution := s.resolution ++ [resolved], world := w' } = .ok u s' := by
  rw [resolveRegistry] at h
  obtain ⟨best, w, hbest, h⟩ := attempt_bind_ok h
  rw [get_bind] at h
  split_ifs at h
  · cases h
  obtain ⟨⟨resolved, dependencies⟩, w', hrelease, h⟩ := attempt_bind_ok h
  exact ⟨best, w, resolved, dependencies, w', hbest, hrelease, h⟩

/-- A pending name of a repository is resolved to the best tag, which is checked out. -/
lemma resolveTag_ok (h : resolveTag os scratchRoot entry s = .ok u s') :
    ∃ tags w₁ best w₂ commit w₃, gitListSemverTags os entry.git s.world = (.ok tags, w₁) ∧
      pickBestMatchingTag tags entry.constraint = some best ∧
      gitClone os entry.git best (join scratchRoot entry.name) w₁ = (.ok (), w₂) ∧
      gitRevParseHead os (join scratchRoot entry.name) w₂ = (.ok commit, w₃) ∧
      queueNestedManifest os (join scratchRoot entry.name) entry.name
        { s with
          resolution := s.resolution ++ [⟨entry.name, .git, entry.git, [], [], 0, best, commit, best,
            entry.firstRequester⟩]
          world := w₃ } = .ok u s' := by
  rw [resolveTag] at h
  obtain ⟨tags, w₁, htags, h⟩ := attempt_bind_ok h
  cases hbest : pickBestMatchingTag tags entry.constraint with rw [hbest] at h
  | none =>
    cases h
  | some best =>
    dsimp only at h
    rw [get_bind] at h
    split_ifs at h
    · cases h
    · cases h
    obtain ⟨_, w₂, hclone, h⟩ := attempt_bind_ok h
    obtain ⟨commit, w₃, hcommit, h⟩ := attempt_bind_ok h
    rw [modify_bind] at h
    exact ⟨tags, w₁, best, w₂, commit, w₃, htags, hbest, hclone, hcommit, h⟩

lemma resolvePending_of_nil (h : s.pending = []) :
    resolvePending os scratchRoot preference (fuel + 1) s = .ok () s := by
  rw [resolvePending, Fallible.bind_apply, Fallible.get_apply]
  dsimp only
  rw [h]
  rfl

/-- The loop resolves the first name and then works off the queue. -/
lemma resolvePending_of_cons (h : s.pending = entry :: rest) :
    resolvePending os scratchRoot preference (fuel + 1) s =
      (resolveOnePending os scratchRoot preference entry rest >>= fun _ =>
        processWorkQueue os scratchRoot queueFuel >>= fun _ =>
        resolvePending os scratchRoot preference fuel) s := by
  rw [resolvePending, Fallible.bind_apply, Fallible.get_apply]
  dsimp only
  rw [h]

/-- A name of a registry is taken off the table and resolved there. -/
lemma resolveOnePending_of_registry (h : entry.source = .registry) :
    resolveOnePending os scratchRoot preference entry rest s =
      resolveRegistry os scratchRoot preference entry { s with pending := rest } := by
  rw [resolveOnePending, h, Fallible.bind_apply, Fallible.modify_apply]

/-- A name of a repository is taken off the table and resolved to a tag. -/
lemma resolveOnePending_of_git (h : entry.source = .git) :
    resolveOnePending os scratchRoot preference entry rest s =
      resolveTag os scratchRoot entry { s with pending := rest } := by
  rw [resolveOnePending, h, Fallible.bind_apply, Fallible.modify_apply]

/-! ## Attempts -/

/-- Only the world changes. -/
lemma recreateScratch_ok (h : recreateScratch os scratchRoot s = .ok u s') :
    s' = { s with world := s'.world } := by
  rw [recreateScratch, bind_eq_ok] at h
  obtain ⟨_, t, hask, h⟩ := h
  obtain ⟨_, rfl⟩ := ask_ok.1 hask
  obtain ⟨_, t, hask', h⟩ := bind_eq_ok.1 h
  obtain ⟨_, rfl⟩ := ask_ok.1 hask'
  split_ifs at h
  · cases h
    rfl
  · cases h

/-- A walk ends well, or it restarts and the next one does. -/
lemma onRestart_ok {walk again : Resolve σ α} {a : α} (h : onRestart walk again s = .ok a s') :
    walk s = .ok a s' ∨ ∃ t, walk s = .error .restart t ∧ again t = .ok a s' := by
  rw [onRestart] at h
  cases hwalk : walk s with rw [hwalk] at h
  | ok =>
    exact .inl h
  | error stop t =>
    cases stop with
    | restart => exact .inr ⟨t, rfl, h⟩
    | failed | spent => cases h

/-- An attempt begins without packages. -/
lemma attemptOnce_ok {manifest attempts}
    (h : attemptOnce os scratchRoot preference manifest attempts s = .ok u s') :
    ∃ t, t.resolution = [] ∧ attemptResolveGraph os scratchRoot preference manifest t = .ok u s' := by
  rw [attemptOnce, modify_bind] at h
  split_ifs at h
  · obtain ⟨_, t, hrecreate, h⟩ := bind_eq_ok.1 h
    exact ⟨t, by rw [recreateScratch_ok hrecreate], h⟩
  · exact ⟨_, rfl, h⟩

end

end Diamond.Facet
