import Diamond.Facet.Soundness

/-!
# What a report of no version means

The resolver picks the highest version that the constraints known so far allow and never tries
another one, and it keeps the constraints of packages that a later attempt drops.  So a report that
no version of a package satisfies its constraints is not about every assignment of versions: it is
about the constraints of the root and of the packages that were selected in some attempt.
-/

namespace Diamond.Facet

open List

open Codec (Bytes)
open Fallible (Answers Raises Fails bind_eq_ok bind_eq_error except_bind_eq_error)

/-! ## Other errors -/

/-- An error that is a message and not a report on versions. -/
def Plain (e : FacetError) : Prop := ∃ text, e = .message text

variable {α : Type}

/-- A refused manifest is a plain message. -/
lemma refuse_plain {text : String} : Raises Plain (refuse text : Checked α) := .error ⟨text, rfl⟩

section
variable {path name : Bytes}

lemma checkVersion_plain (version : Option Bytes) : Raises Plain (checkVersion name version) := by
  cases version with
  | none => exact .ok ()
  | some =>
    rw [checkVersion]
    split_ifs
    · exact refuse_plain
    · exact .ok ()
    · exact refuse_plain

lemma checkKeys_plain (hasRegistry : Bool) (spec : ManifestValue) :
    Raises Plain (checkKeys name hasRegistry spec) := by
  rw [checkKeys]
  split
  · exact refuse_plain
  · exact .ok ()

lemma makeDependency_plain (git registry version : Option Bytes) (ref : Bytes) (refKind : FacetRefKind)
    (refKeys : ℕ) : Raises Plain (makeDependency name git registry version ref refKind refKeys) := by
  rw [makeDependency]
  split
  · exact refuse_plain
  · split
    · exact refuse_plain
    · exact .ok _

lemma parseDependency_plain (spec : ManifestValue) : Raises Plain (parseDependency name spec) := by
  rw [parseDependency]
  refine .check refuse_plain fun _ => .check refuse_plain fun _ => .check refuse_plain
    fun _ => .check refuse_plain fun _ => .bind (checkVersion_plain _) fun _ =>
    .bind (checkKeys_plain _ _) fun _ => makeDependency_plain _ _ _ _ _ _

lemma parseDependencies_plain (fields : List (Bytes × ManifestValue))
    (dependencies : List FacetDependency) : Raises Plain (parseDependencies dependencies fields) := by
  induction fields generalizing dependencies with
  | nil => exact .ok _
  | cons field _ ih =>
    obtain ⟨_, spec⟩ := field
    cases spec with
    | hash =>
      rw [parseDependencies]
      exact .check refuse_plain fun _ => .bind (parseDependency_plain _) fun _ => ih _
    | _ => exact refuse_plain

lemma readDependencies_plain (hash : ManifestValue) : Raises Plain (readDependencies path hash) := by
  rw [readDependencies.eq_def]
  split
  · exact .ok _
  · exact parseDependencies_plain _ _
  · exact refuse_plain

lemma parseManifest_plain (hash : ManifestValue) : Raises Plain (parseManifest path hash) := by
  rw [parseManifest.eq_def]
  split
  · exact refuse_plain
  · split_ifs
    · exact .bind (readDependencies_plain _) fun _ => .ok _
    · exact refuse_plain

lemma onlyKeys_plain (hash : ManifestValue) (keys : List Bytes) : Raises Plain (onlyKeys hash keys) := by
  rw [onlyKeys]
  split
  · exact refuse_plain
  · exact .ok ()

lemma releaseOf_plain (entry : FacetPendingSemver) (version : Bytes) (root : ManifestValue) :
    Raises Plain (releaseOf entry version root) := by
  rw [releaseOf]
  refine .bind (onlyKeys_plain _ _) fun _ => ?_
  split
  · refine .bind (onlyKeys_plain _ _) fun _ => ?_
    split
    · exact .ok _
    · exact refuse_plain
  · exact refuse_plain

end

section
variable {σ : Type} (os : Os σ) (scratchRoot : Bytes)

lemma gitClone_plain (url ref destination : Bytes) :
    Answers (Raises Plain) (gitClone os url ref destination) := by
  refine .after fun _ => .after fun _ => ?_
  split_ifs
  · refine .after fun _ => ?_
    split_ifs
    · exact .pure (.ok ())
    · exact .pure refuse_plain
  · exact .pure refuse_plain

variable (path : Bytes)

lemma gitRevParseHead_plain : Answers (Raises Plain) (gitRevParseHead os path) := by
  refine .after fun answer => ?_
  cases answer with
  | some => exact .pure (.ok _)
  | none => exact .pure refuse_plain

lemma facetReadHash_plain : Answers (Raises Plain) (facetReadHash os path) := by
  refine .after fun answer => ?_
  cases answer with
  | ok => exact .pure (.ok _)
  | error => exact .pure refuse_plain

lemma readManifest_plain : Answers (Raises Plain) (readManifest os path) := by
  refine .bind (facetReadHash_plain os path) fun answer hanswer => ?_
  cases answer with
  | ok hash => exact .pure (parseManifest_plain hash)
  | error e => exact .pure (.error (hanswer e rfl))

lemma fetchRegistryHash_plain (url path : Bytes) :
    Answers (Raises Plain) (fetchRegistryHash os url path) := by
  refine .after fun _ => .after fun _ => ?_
  split_ifs
  · refine .after fun size => ?_
    cases size with
    | none => exact .after fun _ => .pure refuse_plain
    | some =>
      dsimp only
      split_ifs
      · exact .bind (facetReadHash_plain os path) fun _ hhash => .after fun _ => .pure hhash
      · exact .after fun _ => .pure refuse_plain
  · exact .pure refuse_plain

lemma gitListSemverTags_plain (url : Bytes) : Answers (Raises Plain) (gitListSemverTags os url) := by
  refine .after fun answer => ?_
  cases answer with
  | some => exact .pure (.ok _)
  | none => exact .pure refuse_plain

lemma registryRelease_plain (entry : FacetPendingSemver) (version : Bytes) :
    Answers (Raises Plain) (registryRelease os scratchRoot entry version) := by
  rw [registryRelease]
  split_ifs
  · exact .pure refuse_plain
  · refine .bind (fetchRegistryHash_plain os _ _) fun answer hanswer => ?_
    cases answer with
    | ok root => exact .pure (releaseOf_plain entry version root)
    | error e => exact .pure (.error (hanswer e rfl))

/-! ## Programs with plain errors -/

/-- A run that stops with a plain message. -/
def PlainStop (stop : Stop) : Prop := ∃ text, stop = .failed (.message text)

variable {α : Type}

/-- Giving up stops with a plain message. -/
lemma giveUp_plain {text : String} : Fails PlainStop (giveUp text : Resolve σ α) := .throw ⟨text, rfl⟩

lemma ask_plain (call : StateM σ α) : Fails PlainStop (ask call) := nofun

/-- A call with plain errors stops the run with a plain message. -/
lemma attempt_plain {call : StateM σ (Checked α)} (h : Answers (Raises Plain) call) :
    Fails PlainStop (attempt call) := by
  intro s stop t hrun
  rcases bind_eq_error.1 hrun with hrun | ⟨answer, t', hask, hrun⟩
  · exact ask_plain call s stop t hrun
  obtain ⟨hanswer, rfl⟩ := ask_ok.1 hask
  cases answer with
  | ok => cases hrun
  | error e =>
    cases hrun
    obtain ⟨text, rfl⟩ := h s.world e hanswer
    exact ⟨text, rfl⟩

lemma workQueuePush_plain (path cutName : Bytes) :
    Fails PlainStop (workQueuePush path cutName : Resolve σ Unit) := by
  refine .bind .get fun s => ?_
  split_ifs
  · exact giveUp_plain
  · exact .modify _

/-- Queueing a manifest stops with a plain message only. -/
lemma queueNestedManifest_plain (directory cutName : Bytes) :
    Fails PlainStop (queueNestedManifest os directory cutName) := by
  refine .bind (ask_plain _) fun lookup => ?_
  cases lookup with
  | missing => exact .pure ()
  | found path => exact workQueuePush_plain path cutName
  | ambiguous | pathTooLong => exact giveUp_plain

variable (d : FacetDependency) (requiredBy : Bytes)

/-- A new exact dependency stops with a plain message only. -/
lemma resolveExact_plain : Fails PlainStop (resolveExact os scratchRoot d requiredBy) := by
  refine .bind .get fun s => ?_
  split_ifs
  · exact giveUp_plain
  dsimp only
  split_ifs
  · exact giveUp_plain
  · exact .bind (attempt_plain (gitClone_plain os _ _ _)) fun _ =>
      .bind (attempt_plain (gitRevParseHead_plain os _)) fun _ => .bind (.modify _) fun _ =>
      queueNestedManifest_plain os _ _

/-- So does every exact dependency: none is reported as without a version. -/
lemma handleExactDependency_plain :
    Fails PlainStop (handleExactDependency os scratchRoot d requiredBy) := by
  refine .bind .get fun s => ?_
  split
  · split_ifs
    · exact giveUp_plain
    · exact .pure ()
    · exact giveUp_plain
  · refine .bind .get fun s => ?_
    split
    · exact giveUp_plain
    · exact resolveExact_plain os scratchRoot d requiredBy

lemma findOrCreateConstraintRecord_plain :
    Fails PlainStop (findOrCreateConstraintRecord d : Resolve σ FacetConstraintRecord) := by
  refine .bind .get fun s => ?_
  split
  · split_ifs
    · exact .pure _
    · exact giveUp_plain
  · refine .bind .get fun s => ?_
    split_ifs
    · exact giveUp_plain
    · exact .bind (.modify _) fun _ => .pure _

lemma addPending_plain (accumulated : SemverConstraint) :
    Fails PlainStop (addPending d requiredBy accumulated : Resolve σ Unit) := by
  refine .bind .get fun s => ?_
  split
  · split_ifs
    · exact .modify _
    · exact giveUp_plain
  · refine .bind .get fun s => ?_
    split_ifs
    · exact giveUp_plain
    · exact .modify _

lemma recreateScratch_plain : Fails PlainStop (recreateScratch os scratchRoot) := by
  refine .bind (ask_plain _) fun _ => .bind (ask_plain _) fun _ => ?_
  split_ifs
  · exact .pure ()
  · exact giveUp_plain

end

/-! ## Choices that find nothing -/

/-- If no tag is picked, none satisfies the constraint. -/
lemma pickBestMatchingTag_none {constraint tags} (h : pickBestMatchingTag tags constraint = none) :
    ∀ v ∈ tags.filterMap semverParse, semverSatisfies v constraint = false := by
  rw [pickBestMatchingTag, pickBestLoop_eq, Option.map_eq_none_iff] at h
  intro v hv
  obtain ⟨tag, hmem, hparse⟩ := mem_filterMap.1 hv
  have hnot : (tag, v) ∉ matchingTags constraint tags := by simp [(chooseLoop_eq_none h).2]
  simpa [mem_matchingTags, hmem, hparse] using hnot

/-- The versions in the records of an index. -/
def listedVersions (records : List ManifestValue) : List Semver :=
  records.filterMap fun record =>
    match versionRecord record with
    | some (_, false, version) => some version
    | _ => none

/-- If the loop finds no version, none that is listed satisfies the constraint. -/
lemma bestVersionLoop_none {entry preferred records}
    (h : bestVersionLoop entry preferred none records = .ok none) :
    ∀ v ∈ listedVersions records, semverSatisfies v entry.constraint = false := by
  intro v hv
  obtain ⟨record, hmem, hrecord⟩ := mem_filterMap.1 hv
  split at hrecord
  · next version _ hsome =>
    cases hrecord
    have hnot : (version, v) ∉ matchingReleases entry.constraint records := by
      simp [(chooseLoop_eq_none (bestVersionLoop_ok h).symm).2]
    rw [mem_matchingReleases] at hnot
    exact eq_false_of_ne_true fun hsat => hnot ⟨record, hmem, hsome, hsat⟩
  · cases hrecord

/-- A bad record is a plain message. -/
lemma bestVersionLoop_plain (entry : FacetPendingSemver) (preferred : Bytes)
    (records : List ManifestValue) (best : Option (Bytes × Semver)) :
    Raises Plain (bestVersionLoop entry preferred best records) := by
  induction records generalizing best with
  | nil => exact .ok _
  | cons _ _ ih =>
    rw [bestVersionLoop]
    split
    · exact refuse_plain
    · split_ifs
      · exact .ok _
      all_goals exact ih _

/-- The versions that the host of a dependency has for it. -/
def Available.versions (available : Available) (d : FacetDependency) : List Semver :=
  match d.source with
  | .git => (semverTags (available.tags d.git)).filterMap semverParse
  | .registry =>
    match diamondManifestGet (available.metadata (indexUrl d.registry d.name))
        (text ['v', 'e', 'r', 's', 'i', 'o', 'n', 's']) with
    | some (.array records) => listedVersions records
    | _ => []

/-- An index is reported without a version only if none that it lists is allowed. -/
lemma bestVersion_noVersion {preference entry root e} (h : bestVersion preference entry root = .error e) :
    Plain e ∨ (∃ message, e = .noVersion entry.name message) ∧
      ∃ records, diamondManifestGet root (text ['v', 'e', 'r', 's', 'i', 'o', 'n', 's']) =
        some (.array records) ∧
        ∀ v ∈ listedVersions records, semverSatisfies v entry.constraint = false := by
  rw [bestVersion.eq_def] at h
  split at h
  · rename_i records _ hrecords
    rcases except_bind_eq_error.1 h with hkeys | ⟨_, _, h⟩
    · exact .inl (onlyKeys_plain _ _ e hkeys)
    rcases except_bind_eq_error.1 h with hloop | ⟨best, hloop, h⟩
    · exact .inl (bestVersionLoop_plain _ _ _ _ e hloop)
    · cases best with
      | some => cases h
      | none =>
        cases h
        exact .inr ⟨⟨_, rfl⟩, records, hrecords, bestVersionLoop_none hloop⟩
  · cases h
    exact .inl ⟨_, rfl⟩

/-! ## Constraints that are placed -/

/-- The dependency's own constraint allows the version. -/
def Admits (d : FacetDependency) (v : Semver) : Prop :=
  ∃ c, semverConstraintParse d.versionText = some c ∧ semverSatisfies v c = true

section
variable (available : Available) (root : List FacetDependency) (selected : List FacetResolved)

/-- The dependency is the root's or that of a selected package. -/
def Placed (d : FacetDependency) : Prop := d ∈ root ∨ ∃ r ∈ selected, d ∈ available.dependencies r

/-- All dependencies on the name that are placed allow the version. -/
def AdmitsAll (name : Bytes) (v : Semver) : Prop :=
  ∀ d, Placed available root selected d → d.name = name → d.usesVersion = true → Admits d v

/-- No version that is listed for a package satisfies every constraint on it. -/
def NoVersion (name : Bytes) : Prop :=
  ∃ d, Placed available root selected d ∧ d.name = name ∧ d.usesVersion = true ∧
    ¬∃ v ∈ available.versions d, AdmitsAll available root selected name v

variable {σ : Type}

/-- The history has only what the root and the selected packages asked for. -/
structure Heard (earlier : List FacetResolved) (s : Session σ) : Prop where
  history : ∀ name c, accumulatedOf s name = some c →
    ∀ v, AdmitsAll available root (earlier ++ s.resolution) name v → semverSatisfies v c = true
  pending : ∀ p ∈ s.pending, ∃ d, Placed available root (earlier ++ s.resolution) d ∧
    d.name = p.name ∧ d.usesVersion = true ∧ sameSource d p.source p.git p.registry = true

/-- What a stop says: a restart hands on the history, and a name without a version has none. -/
def Reported (earlier : List FacetResolved) (t : Session σ) : Stop → Prop
  | .restart => Heard available root earlier t
  | .failed (.noVersion name _) => NoVersion available root (earlier ++ t.resolution) name
  | .failed (.message _) => True
  | .spent => True

end

section
variable {available : Available} {root : List FacetDependency} {selected selected' : List FacetResolved}
  {d : FacetDependency} {name : Bytes} {v : Semver}

/-- A dependency stays placed when more packages are selected. -/
lemma Placed.mono (h : Placed available root selected d) (hsub : selected ⊆ selected') :
    Placed available root selected' d :=
  h.imp_right fun ⟨r, hr, hd⟩ => ⟨r, hsub hr, hd⟩

/-- More packages allow fewer versions. -/
lemma AdmitsAll.anti (h : AdmitsAll available root selected' name v) (hsub : selected ⊆ selected') :
    AdmitsAll available root selected name v :=
  fun d hd => h d (hd.mono hsub)

variable {σ : Type} {earlier : List FacetResolved} {s s' t : Session σ} {stop : Stop}

/-- A plain message reports nothing. -/
lemma reported_of_plain (h : PlainStop stop) : Reported available root earlier t stop := by
  obtain ⟨_, rfl⟩ := h
  trivial

/-- The history stays justified while packages are added and names are taken off. -/
lemma Heard.mono (h : Heard available root earlier s) (hresolution : s.resolution ⊆ s'.resolution)
    (hhistory : s'.history = s.history) (hpending : s'.pending ⊆ s.pending) :
    Heard available root earlier s' := by
  have hsub : earlier ++ s.resolution ⊆ earlier ++ s'.resolution :=
    append_subset.2 ⟨subset_append_left _ _, fun _ hr => mem_append_right _ (hresolution hr)⟩
  constructor
  · intro name c hc v hv
    rw [accumulatedOf, hhistory] at hc
    exact h.history name c hc v (hv.anti hsub)
  · intro p hp
    obtain ⟨d, hd, hrest⟩ := h.pending p (hpending hp)
    exact ⟨d, hd.mono hsub, hrest⟩

/-! ## Exact dependencies -/

variable {os : Os σ} {scratchRoot requiredBy : Bytes} {u : Unit}

/-- An exact dependency only adds packages. -/
lemma handleExactDependency_tables
    (hok : handleExactDependency os scratchRoot d requiredBy s = .ok u s') :
    s.resolution ⊆ s'.resolution ∧ s'.pending = s.pending ∧ s'.history = s.history := by
  rcases handleExactDependency_ok hok with ⟨_, _, _, _, _, _, rfl⟩ | ⟨_, _, hresolve⟩
  · exact ⟨fun _ hr => hr, rfl, rfl⟩
  · obtain ⟨w, _, _, _, _, hqueue⟩ := resolveExact_ok hresolve
    obtain ⟨hresolution, hpending, hhistory⟩ := queueNestedManifest_tables hqueue
    exact ⟨hresolution ▸ subset_append_left _ _, hpending, hhistory⟩

/-! ## Dependencies on versions -/

section
variable {constraint merged : SemverConstraint}

/-- A version that a constraint allows is allowed without one. -/
lemma semverSatisfies_unconstrained (h : semverSatisfies v constraint = true) :
    semverSatisfies v ⟨none, none⟩ = true := by
  rw [semverSatisfies] at h ⊢
  split_ifs at h ⊢ with hprerelease
  rfl

/-- The history stops with the name only if the constraints have no version in common. -/
lemma accumulate_error (herror : accumulate d requiredBy constraint s = .error stop t) :
    PlainStop stop ∨ (∃ message, stop = .failed (.noVersion d.name message)) ∧
      t.resolution = s.resolution ∧
      semverConstraintIntersect ((accumulatedOf s d.name).getD ⟨none, none⟩) constraint = none := by
  rcases bind_eq_error.1 herror with hrecord | ⟨record, s₁, hrecord, herror⟩
  · exact .inl (findOrCreateConstraintRecord_plain d s stop t hrecord)
  obtain ⟨_, haccumulated, _, hs₁⟩ := findOrCreateConstraintRecord_ok hrecord
  cases hmerged : semverConstraintIntersect record.accumulated constraint with
  | none =>
    rw [hmerged] at herror
    cases herror
    refine .inr ⟨⟨_, rfl⟩, by rw [hs₁], ?_⟩
    rw [← haccumulated, hmerged]
  | some =>
    rw [hmerged] at herror
    cases herror

/-- A package that is no longer allowed starts the walk again. -/
lemma checkResolved_error {existing}
    (herror : checkResolved d requiredBy merged existing s = .error stop t) :
    PlainStop stop ∨ stop = .restart ∧ t = s := by
  rw [checkResolved] at herror
  split_ifs at herror
  · exact .inl (giveUp_plain s stop t herror)
  · cases herror
  · cases herror
    exact .inr ⟨rfl, rfl⟩
  · exact .inl (giveUp_plain s stop t herror)

variable (h : Heard available root earlier s)
  (hd : Placed available root (earlier ++ s.resolution) d) (huses : d.usesVersion = true)
include h hd huses

/-- A version that every constraint allows is in what the history has and in what is asked for now.
-/
lemma Heard.satisfies (hparse : semverConstraintParse d.versionText = some constraint)
    (hv : AdmitsAll available root (earlier ++ s.resolution) d.name v) :
    semverSatisfies v ((accumulatedOf s d.name).getD ⟨none, none⟩) = true ∧
      semverSatisfies v constraint = true := by
  obtain ⟨c, hc, hsat⟩ := hv d hd rfl huses
  rw [hparse] at hc
  cases hc
  refine ⟨?_, hsat⟩
  cases hold : accumulatedOf s d.name with
  | none => exact semverSatisfies_unconstrained hsat
  | some c => exact h.history d.name c hold v hv

/-- A placed dependency may narrow the history. -/
lemma Heard.accumulate (hparse : semverConstraintParse d.versionText = some constraint)
    (hmerged : semverConstraintIntersect ((accumulatedOf s d.name).getD ⟨none, none⟩) constraint =
      some merged) (hacc : Accumulates d.name merged s t) : Heard available root earlier t := by
  constructor
  · intro name c hc v hv
    rw [hacc.resolution] at hv
    by_cases hname : name = d.name
    · subst hname
      rw [hacc.at_name] at hc
      cases hc
      rw [semverSatisfies_intersect hmerged, Bool.and_eq_true_iff]
      exact h.satisfies hd huses hparse hv
    · rw [hacc.elsewhere name hname] at hc
      exact h.history name c hc v hv
  · rw [hacc.pending, hacc.resolution]
    exact h.pending

/-- A placed dependency keeps the history justified. -/
lemma handleVersionDependency_heard (hok : handleVersionDependency d requiredBy s = .ok u s') :
    Heard available root earlier s' ∧ s'.resolution = s.resolution := by
  obtain ⟨_, _, t, hparse, hmerged, hacc, hcase⟩ := handleVersionDependency_ok hok
  have ht := h.accumulate hd huses hparse hmerged hacc
  rcases hcase with ⟨_, _, _, _, _, rfl⟩ | ⟨_, hadd⟩
  · exact ⟨ht, hacc.resolution⟩
  rcases addPending_ok hadd with ⟨_, hmem, hname, hsource, rfl⟩ | ⟨_, rfl⟩
  · refine ⟨⟨ht.history, fun _ hp' => ?_⟩, hacc.resolution⟩
    obtain ⟨p, hp, rfl⟩ := mem_map.1 hp'
    by_cases hpname : p.name = d.name
    · rw [constrain_of_eq hpname]
      exact ht.pending p hp
    · rw [constrain_of_ne hpname]
      exact ht.pending p hp
  · refine ⟨⟨ht.history, forall_mem_append.2 ⟨ht.pending, ?_⟩⟩, hacc.resolution⟩
    refine forall_mem_singleton.2 ⟨d, ?_, rfl, huses, ?_⟩
    · rw [hacc.resolution]
      exact hd
    · rw [sameSource_iff]
      exact ⟨rfl, fun _ => rfl, fun _ => rfl⟩

/-- What a placed dependency stops with is justified. -/
lemma handleVersionDependency_reported
    (herror : handleVersionDependency d requiredBy s = .error stop t) :
    Reported available root earlier t stop := by
  rw [handleVersionDependency] at herror
  cases hparse : semverConstraintParse d.versionText with rw [hparse] at herror
  | none =>
    exact reported_of_plain (giveUp_plain s stop t herror)
  | some =>
    rcases bind_eq_error.1 herror with hacc | ⟨merged, s₁, hacc, herror⟩
    · rcases accumulate_error hacc with hplain | ⟨⟨message, rfl⟩, hresolution, hnone⟩
      · exact reported_of_plain hplain
      rw [Reported, hresolution]
      refine ⟨d, hd, rfl, huses, ?_⟩
      rintro ⟨v, _, hv⟩
      have hempty := not_satisfies_of_intersect_none hnone v
      obtain ⟨hold, hnew⟩ := h.satisfies hd huses hparse hv
      rw [hold, hnew] at hempty
      cases hempty
    · obtain ⟨hmerged, haccumulates⟩ := accumulate_ok hacc
      have h₁ := h.accumulate hd huses hparse hmerged haccumulates
      rcases bind_eq_error.1 herror with hget | ⟨s₂, s₂', hget, herror⟩
      · cases hget
      cases hget
      cases hfind : s₁.resolution.find? fun r => r.name == d.name with rw [hfind] at herror
      | some =>
        rcases checkResolved_error herror with hplain | ⟨rfl, rfl⟩
        · exact reported_of_plain hplain
        · exact h₁
      | none =>
        exact reported_of_plain (addPending_plain _ _ _ _ stop t herror)

end

/-! ## Runs -/

/-- A run hears only what is placed, and reports nothing else. -/
def Hears (available : Available) (root : List FacetDependency) (earlier : List FacetResolved)
    (s : Session σ) {α : Type} : EStateM.Result Stop (Session σ) α → Prop
  | .ok _ t => Heard available root earlier t ∧ s.resolution ⊆ t.resolution
  | .error stop t => Reported available root earlier t stop

/-- Two parts of a run in a row. -/
lemma Hears.bind {α β : Type} {x : Resolve σ α} {f : α → Resolve σ β}
    (hx : Hears available root earlier s (x s))
    (hf : ∀ a t, x s = .ok a t → Heard available root earlier t → s.resolution ⊆ t.resolution →
      Hears available root earlier t (f a t)) : Hears available root earlier s ((x >>= f) s) := by
  rw [Fallible.bind_apply]
  cases hrun : x s with rw [hrun] at hx
  | error =>
    exact hx
  | ok a t =>
    have hft := hf a t hrun hx.1 hx.2
    dsimp only
    cases hrun' : f a t with rw [hrun'] at hft
    | error =>
      exact hft
    | ok =>
      exact ⟨hft.1, fun r hr => hft.2 (hx.2 hr)⟩

/-- A part of a run may begin with more packages. -/
lemma Hears.start {run : EStateM.Result Stop (Session σ) α}
    (h : Hears available root earlier t run) (hsub : s.resolution ⊆ t.resolution) :
    Hears available root earlier s run := by
  cases run with
  | ok => exact ⟨h.1, fun r hr => h.2 (hsub hr)⟩
  | error => exact h

section
variable (h : Heard available root earlier s)
include h

/-- A part that leaves the tables alone and stops with plain messages only. -/
lemma hears_of_plain {x : Resolve σ α} (hplain : Fails PlainStop x)
    (htables : ∀ a t, x s = .ok a t →
      s.resolution ⊆ t.resolution ∧ t.pending ⊆ s.pending ∧ t.history = s.history) :
    Hears available root earlier s (x s) := by
  cases hrun : x s with
  | error stop t => exact reported_of_plain (hplain s stop t hrun)
  | ok a t =>
    obtain ⟨hresolution, hpending, hhistory⟩ := htables a t hrun
    exact ⟨h.mono hresolution hhistory hpending, hresolution⟩

lemma giveUp_hears {text} : Hears available root earlier s ((giveUp text : Resolve σ α) s) :=
  hears_of_plain h giveUp_plain fun _ _ hrun => by cases hrun

lemma attempt_hears {call : StateM σ (Checked α)} (hplain : Answers (Raises Plain) call) :
    Hears available root earlier s (attempt call s) := by
  refine hears_of_plain h (attempt_plain hplain) fun a t hrun => ?_
  obtain ⟨_, rfl⟩ := attempt_ok hrun
  exact ⟨fun _ hr => hr, fun _ hp => hp, rfl⟩

lemma queueNestedManifest_hears {directory cutName} :
    Hears available root earlier s (queueNestedManifest os directory cutName s) := by
  refine hears_of_plain h (queueNestedManifest_plain os _ _) fun a t hrun => ?_
  obtain ⟨hresolution, hpending, hhistory⟩ := queueNestedManifest_tables hrun
  exact ⟨hresolution ▸ fun _ hr => hr, hpending ▸ fun _ hp => hp, hhistory⟩

lemma handleExactDependency_hears :
    Hears available root earlier s (handleExactDependency os scratchRoot d requiredBy s) := by
  refine hears_of_plain h (handleExactDependency_plain os _ _ _) fun a t hrun => ?_
  obtain ⟨hresolution, hpending, hhistory⟩ := handleExactDependency_tables hrun
  exact ⟨hresolution, hpending ▸ fun _ hp => hp, hhistory⟩

/-- A placed dependency on a version, whether it ends or stops. -/
lemma handleVersionDependency_hears (hd : Placed available root (earlier ++ s.resolution) d)
    (huses : d.usesVersion = true) :
    Hears available root earlier s (handleVersionDependency d requiredBy s) := by
  cases hrun : handleVersionDependency d requiredBy s with
  | error => exact handleVersionDependency_reported h hd huses hrun
  | ok =>
    obtain ⟨ht, hresolution⟩ := handleVersionDependency_heard h hd huses hrun
    exact ⟨ht, hresolution ▸ fun _ hr => hr⟩

/-- All dependencies of a manifest, one after the other. -/
lemma resolveManifestDependencies_hears {deps}
    (hdeps : ∀ d ∈ deps, Placed available root (earlier ++ s.resolution) d) :
    Hears available root earlier s
      (resolveManifestDependencies os scratchRoot requiredBy deps s) := by
  induction deps generalizing s with
  | nil => exact ⟨h, fun _ hr => hr⟩
  | cons d rest ih =>
    obtain ⟨hd, hrest⟩ := forall_mem_cons.1 hdeps
    have hnext : ∀ t, Heard available root earlier t → s.resolution ⊆ t.resolution →
        Hears available root earlier t
          (resolveManifestDependencies os scratchRoot requiredBy rest t) := by
      intro t ht hsub
      refine ih ht fun d' hd' => (hrest d' hd').mono ?_
      exact append_subset.2 ⟨subset_append_left _ _, fun _ hr => mem_append_right _ (hsub hr)⟩
    rw [resolveManifestDependencies]
    split_ifs with huses
    · exact .bind (handleVersionDependency_hears h hd huses) fun _ t _ => hnext t
    · exact .bind (handleExactDependency_hears h) fun _ t _ => hnext t

end

variable {At : σ → Bytes → Bytes → Bytes → Prop} (hos : Faithful os scratchRoot available At)
  (hseparate : ∀ n m, InPlay available root n → InPlay available root m → n ≠ m →
    Separate scratchRoot n m)
include hos

/-- The dependencies of a queued manifest are those of its package, which is selected. -/
lemma processWorkItem_hears {item rest exempt}
    (hinv : Invariant scratchRoot available At root exempt s) (h : Heard available root earlier s)
    (hqueue : s.queue = item :: rest) :
    Hears available root earlier s (processWorkItem os scratchRoot item { s with queue := rest }) := by
  obtain ⟨r, hr, hname, hgit, hfound⟩ := hinv.queued item (hqueue ▸ mem_cons_self)
  have h' : Heard available root earlier { s with queue := rest } :=
    h.mono (fun _ hr => hr) rfl (fun _ hp => hp)
  refine .start (.bind (attempt_hears h' (readManifest_plain os item.path))
    fun nested t hrun ht hsub => ?_) fun _ hr => hr
  obtain ⟨hread, rfl⟩ := attempt_ok hrun
  have hmanifest : available.dependencies r = nested.dependencies := by
    rw [Available.dependencies, hgit]
    dsimp only
    rw [hos.read (hinv.staged r hr hgit) hfound hread]
    rfl
  split_ifs
  · exact giveUp_hears ht
  · refine resolveManifestDependencies_hears ht fun d hd => .inr ⟨r, ?_, hmanifest ▸ hd⟩
    exact mem_append_right _ hr

/-! ## Pending names -/

variable {preference : List FacetResolved} {entry : FacetPendingSemver}
  {rest : List FacetPendingSemver} {exempt : List Bytes}

omit hos in
/-- A pending name that no version satisfies has none that all placed dependencies allow. -/
lemma Heard.noVersion (h : Heard available root earlier s) (hpending : s.pending = entry :: rest)
    (hinv : Invariant scratchRoot available At root exempt s) (hnone : ∀ d, d.name = entry.name →
      sameSource d entry.source entry.git entry.registry = true →
      ∀ v ∈ available.versions d, semverSatisfies v entry.constraint = false) :
    NoVersion available root (earlier ++ s.resolution) entry.name := by
  have hmem : entry ∈ s.pending := hpending ▸ mem_cons_self
  obtain ⟨d, hd, hname, huses, hsource⟩ := h.pending entry hmem
  refine ⟨d, hd, hname, huses, ?_⟩
  rintro ⟨v, hv, hall⟩
  have hsat := h.history entry.name entry.constraint (hinv.accumulated entry hmem) v hall
  rw [hnone d hname hsource v hv] at hsat
  cases hsat

omit hos in
lemma add_hears {added} (h : Heard available root earlier s) : Hears available root earlier s
      ((modify fun s => { s with resolution := s.resolution ++ added } : Resolve σ PUnit) s) :=
  ⟨h.mono (subset_append_left _ _) rfl fun _ hp => hp, subset_append_left _ _⟩

omit hos in
/-- A run that stops at a call stops with its error. -/
lemma attempt_error {call : StateM σ (Checked α)} (h : attempt call s = .error stop t) :
    ∃ e, stop = .failed e ∧ (call s.world).1 = .error e ∧ t.resolution = s.resolution := by
  rcases bind_eq_error.1 h with h | ⟨answer, t', hask, h⟩
  · cases h
  obtain ⟨hanswer, rfl⟩ := ask_ok.1 hask
  cases answer with
  | ok => cases h
  | error e =>
    cases h
    exact ⟨e, rfl, hanswer, rfl⟩

/-- A registry reports a name only if none of its versions is allowed. -/
lemma registryBestVersion_error {w e}
    (h : (registryBestVersion os scratchRoot preference entry w).1 = .error e) :
    Plain e ∨ (∃ message, e = .noVersion entry.name message) ∧
      ∃ records, diamondManifestGet (available.metadata (indexUrl entry.registry entry.name))
        (text ['v', 'e', 'r', 's', 'i', 'o', 'n', 's']) = some (.array records) ∧
        ∀ v ∈ listedVersions records, semverSatisfies v entry.constraint = false := by
  rw [registryBestVersion] at h
  split_ifs at h
  · cases h
    exact .inl ⟨_, rfl⟩
  rw [Fallible.state_bind_apply] at h
  cases hfetch : (fetchRegistryHash os (indexUrl entry.registry entry.name)
      (jsonPath scratchRoot entry.name indexStart) w).1 with
  | error =>
    rw [hfetch] at h
    cases h
    exact .inl (fetchRegistryHash_plain os _ _ w e hfetch)
  | ok root' =>
    rw [hfetch] at h
    rw [← hos.fetch_metadata w _ _ root' hfetch]
    exact bestVersion_noVersion h

section
variable (hinv : Invariant scratchRoot available At root exempt s)
  (h : Heard available root earlier s) (hpending : s.pending = entry :: rest)
include hinv h hpending

/-- A pending name of a repository. -/
lemma resolveTag_hears (hgit : entry.source = .git) :
    Hears available root earlier s (resolveTag os scratchRoot entry { s with pending := rest }) := by
  have h' : Heard available root earlier { s with pending := rest } :=
    h.mono (fun _ hr => hr) rfl fun p hp => hpending ▸ mem_cons_of_mem entry hp
  refine .start (.bind (attempt_hears h' (gitListSemverTags_plain os _))
    fun tags t hrun ht _ => ?_) fun _ hr => hr
  obtain ⟨htags, rfl⟩ := attempt_ok hrun
  cases hbest : pickBestMatchingTag tags entry.constraint with
  | none =>
    refine h.noVersion hpending hinv fun d _ hsource v hv => ?_
    obtain ⟨hs, hurl, _⟩ := sameSource_iff.1 hsource
    have hd : d.source = .git := hs.symm.trans hgit
    rw [Available.versions, hd] at hv
    refine pickBestMatchingTag_none hbest v ?_
    rw [hos.tags htags, hurl hd]
    exact hv
  | some =>
    refine .bind ⟨ht, fun _ hr => hr⟩ fun _ _ hget h₁ _ => ?_
    split_ifs
    · exact giveUp_hears h₁
    dsimp only
    split_ifs
    · exact giveUp_hears h₁
    · refine .bind (attempt_hears h₁ (gitClone_plain os _ _ _)) fun _ _ _ h₂ _ => ?_
      refine .bind (attempt_hears h₂ (gitRevParseHead_plain os _)) fun _ _ _ h₃ _ => ?_
      refine .bind (add_hears h₃) fun _ _ _ h₄ _ => ?_
      exact queueNestedManifest_hears h₄

/-- A pending name of a registry. -/
lemma resolveRegistry_hears (hregistry : entry.source = .registry) : Hears available root earlier s
      (resolveRegistry os scratchRoot preference entry { s with pending := rest }) := by
  have h' : Heard available root earlier { s with pending := rest } :=
    h.mono (fun _ hr => hr) rfl fun p hp => hpending ▸ mem_cons_of_mem entry hp
  have hfirst : Hears available root earlier { s with pending := rest }
      (attempt (registryBestVersion os scratchRoot preference entry) { s with pending := rest }) := by
    cases hrun : attempt (registryBestVersion os scratchRoot preference entry)
        { s with pending := rest } with
    | ok =>
      obtain ⟨_, rfl⟩ := attempt_ok hrun
      exact ⟨h'.mono (fun _ hr => hr) rfl fun _ hp => hp, fun _ hr => hr⟩
    | error =>
      obtain ⟨e, rfl, herror, hresolution⟩ := attempt_error hrun
      rcases registryBestVersion_error hos herror with ⟨_, rfl⟩ | ⟨⟨_, rfl⟩, _, hget, hnone⟩
      · trivial
      rw [Hears, Reported, hresolution]
      refine h.noVersion hpending hinv fun d hname hsource v hv => ?_
      obtain ⟨hs, _, hurl⟩ := sameSource_iff.1 hsource
      have hd : d.source = .registry := hs.symm.trans hregistry
      rw [Available.versions, hd] at hv
      dsimp only at hv
      rw [← hurl hd, hname, hget] at hv
      exact hnone v hv
  refine .start (.bind hfirst fun _ t hrun ht _ => ?_) fun _ hr => hr
  refine .bind ⟨ht, fun _ hr => hr⟩ fun _ _ hget h₁ _ => ?_
  split_ifs
  · exact giveUp_hears h₁
  refine .bind (attempt_hears h₁ (registryRelease_plain os _ _ _)) fun release _ hrelease h₂ _ => ?_
  obtain ⟨r, deps⟩ := release
  obtain ⟨hanswer, rfl⟩ := attempt_ok hrelease
  obtain ⟨release, hfetch, hof⟩ := registryRelease_ok (Prod.ext hanswer rfl)
  obtain ⟨hname, hsource, _, hreg, hversion, hlisted⟩ := releaseOf_ok hof
  have hmanifest : available.dependencies r = deps := by
    rw [Available.dependencies, hsource, hlisted]
    dsimp only
    rw [hreg, hname, hversion, hos.fetch_metadata _ _ _ release (by rw [hfetch])]
  refine .bind (add_hears h₂) fun _ _ hadd h₃ _ => ?_
  cases hadd
  refine resolveManifestDependencies_hears h₃ fun d hd => .inr ⟨r, ?_, hmanifest ▸ hd⟩
  exact mem_append_right _ (mem_append_right _ (mem_singleton_self r))

/-- One turn of the loop over the pending names. -/
lemma resolveOnePending_hears : Hears available root earlier s
      (resolveOnePending os scratchRoot preference entry rest s) := by
  cases hsource : entry.source with
  | registry =>
    rw [resolveOnePending_of_registry hsource]
    exact resolveRegistry_hears hos hinv h hpending hsource
  | git =>
    rw [resolveOnePending_of_git hsource]
    exact resolveTag_hears hos hinv h hpending hsource

end

include hseparate

/-- The loop over the queue, by induction on its fuel. -/
lemma processWorkQueue_hears {fuel exempt}
    (hinv : Invariant scratchRoot available At root exempt s) (h : Heard available root earlier s) :
    Hears available root earlier s (processWorkQueue os scratchRoot fuel s) := by
  induction fuel generalizing s with
  | zero => trivial
  | succ _ ih =>
    cases hqueue : s.queue with
    | nil =>
      rw [processWorkQueue_of_nil hqueue]
      exact ⟨h, fun _ hr => hr⟩
    | cons =>
      rw [processWorkQueue_of_cons hqueue]
      have hitem := processWorkItem_hears hos hinv h hqueue
      refine .start (.bind (hitem.start fun _ hr => hr) fun _ t hrun ht _ => ?_) fun _ hr => hr
      exact ih (processWorkItem_sound hos hseparate hinv hqueue hrun).1 ht

/-- The loop over the pending names, by induction on its fuel. -/
lemma resolvePending_hears {fuel} (hinv : Invariant scratchRoot available At root exempt s)
    (h : Heard available root earlier s) :
    Hears available root earlier s (resolvePending os scratchRoot preference fuel s) := by
  induction fuel generalizing s with
  | zero => trivial
  | succ _ ih =>
    cases hpending : s.pending with
    | nil =>
      rw [resolvePending_of_nil hpending]
      exact ⟨h, fun _ hr => hr⟩
    | cons =>
      rw [resolvePending_of_cons hpending]
      refine .bind (resolveOnePending_hears hos hinv h hpending) fun _ t hone ht _ => ?_
      have hinv₁ := (resolveOnePending_sound hos hseparate hinv hpending hone).1
      refine .bind (processWorkQueue_hears hos hseparate hinv₁ ht) fun _ _ hwork ht' _ => ?_
      exact ih (processWorkQueue_sound hos hseparate hinv₁ hwork).1 ht'

/-! ## Attempts -/

variable {manifest : FacetManifest} (hroot : root = manifest.dependencies)
include hroot

/-- One walk over the graph. -/
lemma attemptResolveGraph_hears (hempty : s.resolution = []) (h : Heard available root earlier s) :
    Hears available root earlier s (attemptResolveGraph os scratchRoot preference manifest s) := by
  have hstart : Invariant scratchRoot available At root [] { s with pending := [], queue := [] } :=
    .start hempty
  have h' : Heard available root earlier { s with pending := [], queue := [] } :=
    h.mono (fun _ hr => hr) rfl fun _ hp => absurd hp not_mem_nil
  rw [attemptResolveGraph]
  refine .start (t := { s with pending := [], queue := [] }) (.bind ?_ fun _ _ hdeps h₁ _ => ?_)
    fun _ hr => hr
  · refine resolveManifestDependencies_hears h' fun d hd => .inl ?_
    rw [hroot]
    exact hd
  · have hinv₁ := (resolveManifestDependencies_sound hos hseparate hstart
      (fun d hd => ⟨.direct (hroot ▸ hd), .root (hroot ▸ hd)⟩) hdeps).1
    refine .bind (processWorkQueue_hears hos hseparate hinv₁ h₁) fun _ _ hwork h₂ _ => ?_
    exact resolvePending_hears hos hseparate (processWorkQueue_sound hos hseparate hinv₁ hwork).1 h₂

/-- One walk and what it leaves for the next one. -/
lemma attemptOnce_hears {attempts} (h : Heard available root earlier { s with resolution := [] }) :
    Hears available root earlier { s with resolution := [] }
      (attemptOnce os scratchRoot preference manifest attempts s) := by
  rw [attemptOnce, Fallible.bind_apply, Fallible.modify_apply]
  dsimp only
  split_ifs
  · have hrecreate : Hears available root earlier { s with resolution := [] }
        (recreateScratch os scratchRoot { s with resolution := [] }) := by
      refine hears_of_plain h (recreateScratch_plain os scratchRoot) fun _ t hrun => ?_
      rw [recreateScratch_ok hrun]
      exact ⟨fun _ hr => hr, fun _ hp => hp, rfl⟩
    refine .bind hrecreate fun _ t hrun ht _ => ?_
    refine attemptResolveGraph_hears hos hseparate hroot ?_ ht
    rw [recreateScratch_ok hrun]
  · exact attemptResolveGraph_hears hos hseparate hroot rfl h

end

/-- The packages that the walks have selected, those of the last walk at the end. -/
def selections {σ : Type} (os : Os σ) (scratchRoot : Bytes) (preference : List FacetResolved)
    (manifest : FacetManifest) : ℕ → Session σ → List FacetResolved
  | 0, _ => []
  | attempts + 1, s =>
    match attemptOnce os scratchRoot preference manifest (attempts + 1) s with
    | .ok _ t => t.resolution
    | .error .restart t => t.resolution ++ selections os scratchRoot preference manifest attempts t
    | .error _ t => t.resolution

section
variable {σ : Type} {os : Os σ} {scratchRoot : Bytes} {available : Available}
  {At : σ → Bytes → Bytes → Bytes → Prop} {preference earlier : List FacetResolved}
  {manifest : FacetManifest}

/-- The history of a walk is justified by the packages of all walks so far. -/
lemma Heard.next {root} {t : Session σ} (h : Heard available root earlier t) :
    Heard available root (earlier ++ t.resolution) { t with resolution := [] } := by
  constructor
  · intro name c hc v hv
    rw [append_nil] at hv
    exact h.history name c hc v hv
  · rw [append_nil]
    exact h.pending

/-- The walks, by induction on how many are left. -/
lemma resolveAttempts_noVersion (hos : Faithful os scratchRoot available At)
    (hseparate : ∀ n m, InPlay available manifest.dependencies n →
      InPlay available manifest.dependencies m → n ≠ m → Separate scratchRoot n m)
    {attempts s t name message}
    (h : Heard available manifest.dependencies earlier { s with resolution := [] })
    (herror : resolveAttempts os scratchRoot preference manifest attempts s =
      .error (.failed (.noVersion name message)) t) :
    NoVersion available manifest.dependencies
      (earlier ++ selections os scratchRoot preference manifest attempts s) name := by
  induction attempts generalizing s earlier with
  | zero => cases herror
  | succ attempts ih =>
    have hears : Hears available manifest.dependencies earlier { s with resolution := [] }
        (attemptOnce os scratchRoot preference manifest (attempts + 1) s) :=
      attemptOnce_hears hos hseparate rfl h
    rw [resolveAttempts, onRestart] at herror
    rw [selections]
    cases hrun : attemptOnce os scratchRoot preference manifest (attempts + 1) s with
    | ok =>
      rw [hrun] at herror
      cases herror
    | error stop =>
      rw [hrun] at herror hears
      cases stop with
      | restart =>
        dsimp only
        rw [← append_assoc]
        exact ih hears.next herror
      | failed =>
        cases herror
        exact hears
      | spent => cases herror

/-- A report that no version of a package satisfies its constraints is right about the constraints
of the root and of the packages selected in this or an earlier attempt. -/
theorem resolveFullGraph_noVersion (hos : Faithful os scratchRoot available At)
    (hseparate : ∀ n m, InPlay available manifest.dependencies n →
      InPlay available manifest.dependencies m → n ≠ m → Separate scratchRoot n m)
    {w : σ} {s : Session σ} {name : Bytes} {message : String}
    (herror : resolveFullGraph os scratchRoot preference manifest w =
      .error (.failed (.noVersion name message)) s) : NoVersion available manifest.dependencies
      (selections os scratchRoot preference manifest facetMaxDependencies ⟨[], [], [], [], w⟩)
      name := by
  have hstart : Heard available manifest.dependencies [] (⟨[], [], [], [], w⟩ : Session σ) :=
    ⟨by intros; contradiction, by intros; contradiction⟩
  rw [resolveFullGraph] at herror
  cases hrun : resolveAttempts os scratchRoot preference manifest facetMaxDependencies
      ⟨[], [], [], [], w⟩ with
  | ok =>
    rw [hrun] at herror
    cases herror
  | error =>
    rw [hrun] at herror
    cases herror
    exact resolveAttempts_noVersion hos hseparate hstart hrun

end

/-! ## A report that another choice would avoid -/

/-- The name that a run reports as without a version. -/
def reportedBy {σ α : Type} : EStateM.Result Stop (Session σ) α → Option Bytes
  | .error (.failed (.noVersion name _)) _ => some name
  | _ => none

/-- A run that reports a name has stopped with it. -/
lemma exists_of_reportedBy {σ α : Type} {run : EStateM.Result Stop (Session σ) α} {name}
    (h : reportedBy run = some name) : ∃ message s, run = .error (.failed (.noVersion name message)) s := by
  rw [reportedBy.eq_def] at h
  split at h
  · cases h
    exact ⟨_, _, rfl⟩
  · cases h

instance (d : FacetDependency) (r : FacetResolved) : Decidable (Agrees d r) :=
  decidable_of_iff (if d.usesVersion then
      sameSource d r.source r.git r.registry = true ∧
        ((semverParse r.version).any fun v => (semverConstraintParse d.versionText).any fun c =>
          semverSatisfies v c) = true
    else r.source = .git ∧ r.git = d.git ∧ r.ref = d.ref) <| by
  rw [Agrees]
  simp only [Option.any_eq_true]
  split_ifs
  · constructor
    · rintro ⟨hsource, v, hv, c, hc, hsat⟩
      exact ⟨hsource, v, c, hv, hc, hsat⟩
    · rintro ⟨hsource, v, c, hv, hc, hsat⟩
      exact ⟨hsource, v, hv, c, hc, hsat⟩
  · exact Iff.rfl

/-- A resolution of the root's own dependencies that answers those of its packages too. -/
lemma Sound.of_direct {available root resolution} (hnodup : (resolution.map FacetResolved.name).Nodup)
    (hdirect : ∀ r ∈ resolution, ∃ d ∈ root, d.name = r.name)
    (hagrees : ∀ d ∈ root ++ resolution.flatMap available.dependencies,
      ∃ r ∈ resolution, r.name = d.name ∧ Agrees d r) : Sound available root resolution := by
  have hall : ∀ d, d ∈ root ∨ (∃ r ∈ resolution, d ∈ available.dependencies r) →
      ∃ r ∈ resolution, r.name = d.name ∧ Agrees d r :=
    fun d hd => hagrees d (mem_append.2 (hd.imp_right mem_flatMap.2))
  refine ⟨hnodup, fun name => ⟨fun hname => ?_, fun hreach => ?_⟩, hall⟩
  · obtain ⟨r, hr, rfl⟩ := mem_map.1 hname
    obtain ⟨d, hd, hname⟩ := hdirect r hr
    exact hname ▸ .direct hd
  cases hreach with
  | direct hd =>
    obtain ⟨r, hr, hname, _⟩ := hall _ (.inl hd)
    exact hname ▸ mem_map_of_mem hr
  | through hr _ hd =>
    obtain ⟨r, hr, hname, _⟩ := hall _ (.inr ⟨_, hr, hd⟩)
    exact hname ▸ mem_map_of_mem hr

/-- The higher version of `a` does not go with the root's constraint on `b`, the lower one does. -/
def greedyRemotes : List Remote :=
  [⟨text ['A'], tagLine (text ['1', '.', '0', '.', '0']) ++ tagLine (text ['2', '.', '0', '.', '0']),
      [tagged (text ['a']) (text ['1', '.', '0', '.', '0'])
          [onVersion (text ['b']) (text ['B']) (text ['^', '1', '.', '0', '.', '0'])],
        tagged (text ['a']) (text ['2', '.', '0', '.', '0'])
          [onVersion (text ['b']) (text ['B']) (text ['^', '2', '.', '0', '.', '0'])]]⟩,
    ⟨text ['B'], tagLine (text ['1', '.', '0', '.', '0']) ++ tagLine (text ['2', '.', '0', '.', '0']),
      [tagged (text ['b']) (text ['1', '.', '0', '.', '0']) [],
        tagged (text ['b']) (text ['2', '.', '0', '.', '0']) []]⟩]

/-- A root that asks for two packages. -/
def greedyManifest : FacetManifest :=
  ⟨text ['r'], none, [⟨text ['a'], .git, text ['A'], [], [], .tag, true,
      text ['>', '=', '1', '.', '0', '.', '0'], fun _ => rfl⟩,
    ⟨text ['b'], .git, text ['B'], [], [], .tag, true, text ['^', '1', '.', '0', '.', '0'],
      fun _ => rfl⟩]⟩

/-- The packages that satisfy it with the lower version of the first one. -/
def lowerResolution : List FacetResolved :=
  [⟨text ['a'], .git, text ['A'], [], [], 0, text ['1', '.', '0', '.', '0'], [],
      text ['1', '.', '0', '.', '0'], []⟩,
    ⟨text ['b'], .git, text ['B'], [], [], 0, text ['1', '.', '0', '.', '0'], [],
      text ['1', '.', '0', '.', '0'], []⟩]

/-- The walk takes the higher version and reports the second package. -/
lemma greedyRemotes_reported :
    reportedBy (resolveFullGraph (hostOs greedyRemotes) facetTmp [] greedyManifest ⟨[], []⟩) =
      some (text ['b']) := by decide +kernel

/-- The report that no version of `b` satisfies its constraints, with an assignment of versions that
satisfies every constraint. -/
theorem report_with_assignment :
    reportedBy (resolveFullGraph (hostOs greedyRemotes) facetTmp [] greedyManifest ⟨[], []⟩) =
      some (text ['b']) ∧
    Sound (hostAvailable greedyRemotes) greedyManifest.dependencies lowerResolution :=
  ⟨greedyRemotes_reported, .of_direct (by decide) (by decide) (by decide +kernel)⟩

/-- The report names a package that no version is left for under the selected ones. -/
theorem resolveFullGraph_noVersion_greedy :
    NoVersion (hostAvailable greedyRemotes) greedyManifest.dependencies
      (selections (hostOs greedyRemotes) facetTmp [] greedyManifest facetMaxDependencies
        ⟨[], [], [], [], ⟨[], []⟩⟩) (text ['b']) := by
  have hcomponent : ∀ name, InPlay (hostAvailable greedyRemotes) greedyManifest.dependencies name →
      IsComponent name :=
    fun _ => InPlay.on_host (by decide +kernel) (by decide +kernel)
  obtain ⟨_, s, herror⟩ := exists_of_reportedBy greedyRemotes_reported
  exact resolveFullGraph_noVersion hostOs_faithful (fun n m hn hm hne =>
    .of_components (by decide) (hcomponent n hn) (hcomponent m hm) hne) herror

end Diamond.Facet
