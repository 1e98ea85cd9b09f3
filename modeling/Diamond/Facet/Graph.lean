import Diamond.Facet.Paths
import Diamond.Facet.Steps

/-!
# The graph that resolution selects

What is available is a function from refs to checkouts and from registry URLs to metadata.  A
resolution is `Sound` when it answers every dependency of the root and of the packages in it, and
has nothing else. `Faithful` says what the resolver relies on of `git` and the file system: a
checkout stays as it is while other packages are checked out in directories of their own.
-/

namespace Diamond.Facet

open List

open Codec (Bytes)
open Fallible (Keeps state_bind_apply)

/-! ## What is available -/

structure Checkout where
  current : Option (Except String ManifestValue)
  legacy : Option (Except String ManifestValue)

/-- The manifest of a checkout, when it has one that can be read. -/
def Checkout.manifest (c : Checkout) : Option FacetManifest :=
  match c.current, c.legacy with
  | some (.ok data), none => (parseManifest [] data).toOption
  | none, some (.ok data) => (parseManifest [] data).toOption
  | _, _ => none

structure Available where
  /-- The checkout of a repository at a ref. -/
  checkout : Bytes → Bytes → Checkout
  /-- The output of `git ls-remote --tags` for a repository. -/
  tags : Bytes → Bytes
  /-- The data that a registry serves at a URL. -/
  metadata : Bytes → ManifestValue

def Available.dependencies (available : Available) (r : FacetResolved) : List FacetDependency :=
  match r.source with
  | .git => ((available.checkout r.git r.ref).manifest.map FacetManifest.dependencies).getD []
  | .registry =>
    listedDependencies r.registry (available.metadata (releaseUrl r.registry r.name r.version))

/-- A name that the root or the manifest of a selected package that is reachable itself depends on.
-/
inductive Reachable (available : Available) (root : List FacetDependency)
    (resolution : List FacetResolved) : Bytes → Prop
  | direct {d} : d ∈ root → Reachable available root resolution d.name
  | through {r d} : r ∈ resolution → Reachable available root resolution r.name →
    d ∈ available.dependencies r → Reachable available root resolution d.name

def Agrees (d : FacetDependency) (r : FacetResolved) : Prop :=
  if d.usesVersion then
    sameSource d r.source r.git r.registry = true ∧
    ∃ v c, semverParse r.version = some v ∧ semverConstraintParse d.versionText = some c ∧
      semverSatisfies v c = true
  else r.source = .git ∧ r.git = d.git ∧ r.ref = d.ref

/-- A package that the resolver may select for a dependency: a version in a repository is its tag. -/
structure Serves (d : FacetDependency) (r : FacetResolved) : Prop where
  name : r.name = d.name
  agrees : Agrees d r
  ref : d.usesVersion = true → r.source = .git → r.ref = r.version

/-- A dependency of the root, or of a package that serves such a dependency. -/
inductive Wanted (available : Available) (root : List FacetDependency) : FacetDependency → Prop
  | root {d} : d ∈ root → Wanted available root d
  | through {d r d'} : Wanted available root d → Serves d r → d' ∈ available.dependencies r →
    Wanted available root d'

def InPlay (available : Available) (root : List FacetDependency) (name : Bytes) : Prop :=
  ∃ d, Wanted available root d ∧ d.name = name

/-- A resolution that answers every dependency of the root and of the packages in it, and nothing
else. -/
structure Sound (available : Available) (root : List FacetDependency)
    (resolution : List FacetResolved) : Prop where
  nodup : (resolution.map FacetResolved.name).Nodup
  reachable : ∀ name, name ∈ resolution.map FacetResolved.name ↔
    Reachable available root resolution name
  agrees : ∀ d, d ∈ root ∨ (∃ r ∈ resolution, d ∈ available.dependencies r) →
    ∃ r ∈ resolution, r.name = d.name ∧ Agrees d r

/-! ## What the resolver relies on -/

def staging (scratchRoot name : Bytes) : List Bytes := normal (join scratchRoot name)

def metadataFiles (scratchRoot name : Bytes) : List Bytes :=
  [jsonPath scratchRoot name indexStart, jsonPath scratchRoot name releaseStart]

/-- What is staged for `m` is not in the directory of `n`, and its directory is not around it. -/
structure Separate (scratchRoot n m : Bytes) : Prop where
  directory : FileTree.Apart (staging scratchRoot m) (staging scratchRoot n)
  file : ∀ path ∈ metadataFiles scratchRoot m,
    normal path = staging scratchRoot n ∨ ¬staging scratchRoot n <+: normal path
  below : dotdot ∉ staging scratchRoot n ∧ dotdot ∉ staging scratchRoot m
  file_below : ∀ path ∈ metadataFiles scratchRoot m, dotdot ∉ normal path

lemma isComponent_jsonFile {name} (hname : IsComponent name) {start}
    (hstart : start ∈ [indexStart, releaseStart]) :
    IsComponent (text start ++ name ++ text ['.', 'j', 's', 'o', 'n']) := by
  have hlength : 2 < (text start).length := by
    rcases mem_pair.1 hstart with rfl | rfl <;> decide
  have hslash : byte '/' ∉ text start := by
    rcases mem_pair.1 hstart with rfl | rfl <;> decide
  have hlong : 2 < (text start ++ name ++ text ['.', 'j', 's', 'o', 'n']).length := by
    rw [length_append, length_append]
    omega
  refine ⟨?_, ?_, ?_, ?_⟩
  · exact fun heq => absurd (heq ▸ hlong) (by decide)
  · rw [mem_append, mem_append, not_or, not_or]
    exact ⟨⟨hslash, hname.no_slash⟩, by decide⟩
  all_goals exact fun heq => absurd (heq ▸ hlong) (by decide)

lemma Separate.of_components {scratchRoot n m} (hroot : dotdot ∉ normal scratchRoot)
    (hn : IsComponent n) (hm : IsComponent m) (hne : n ≠ m) : Separate scratchRoot n m := by
  have hbelow {name : Bytes} (hname : IsComponent name) :
      dotdot ∉ normal (join scratchRoot name) := by
    rw [hname.normal_join, mem_append, mem_singleton, not_or]
    exact ⟨hroot, hname.ne_dotdot.symm⟩
  have hfile : ∀ path ∈ metadataFiles scratchRoot m,
      ∃ name, IsComponent name ∧ path = join scratchRoot name := by
    intro path hpath
    rcases mem_pair.1 hpath with rfl | rfl
    all_goals exact ⟨_, isComponent_jsonFile hm (by simp), rfl⟩
  constructor
  case directory =>
    rw [staging, staging, hn.normal_join, hm.normal_join, FileTree.Apart,
      prefix_append_right_inj, prefix_append_right_inj]
    simp [hne, hne.symm]
  case file =>
    intro path hpath
    obtain ⟨name, hname, rfl⟩ := hfile path hpath
    rw [staging, hn.normal_join, hname.normal_join, prefix_append_right_inj]
    by_cases heq : n = name
    · exact .inl (by rw [heq])
    · exact .inr (by simp [heq])
  case below => exact ⟨hbelow hn, hbelow hm⟩
  case file_below =>
    intro path hpath
    obtain ⟨name, hname, rfl⟩ := hfile path hpath
    exact hbelow hname

section
variable {σ : Type}

/-- `At w n url ref` stands for a world in which the directory of `n` is the checkout of `url` at
`ref`. -/
structure Faithful (os : Os σ) (scratchRoot : Bytes) (available : Available)
    (At : σ → Bytes → Bytes → Bytes → Prop) : Prop where
  quiet : ∀ n url ref, Quiet os fun w => At w n url ref
  fetch_keeps : ∀ url m path, path ∈ metadataFiles scratchRoot m → ∀ n url' ref',
    Separate scratchRoot n m → Keeps (fun w => At w n url' ref') (fetchRegistryHash os url path)
  clone_delivers : ∀ w url ref n, (gitClone os url ref (join scratchRoot n) w).1 = .ok () →
    At (gitClone os url ref (join scratchRoot n) w).2 n url ref
  clone_keeps : ∀ url ref m n url' ref', Separate scratchRoot n m →
    Keeps (fun w => At w n url' ref') (gitClone os url ref (join scratchRoot m))
  exists_current : ∀ w n url ref, At w n url ref →
    (os.fileExists (join (join scratchRoot n) cutManifest) w).1 =
      (available.checkout url ref).current.isSome
  exists_legacy : ∀ w n url ref, At w n url ref →
    (os.fileExists (join (join scratchRoot n) legacyCutManifest) w).1 =
      (available.checkout url ref).legacy.isSome
  read_current : ∀ w n url ref data, At w n url ref →
    (available.checkout url ref).current = some data →
    (os.readHash (join (join scratchRoot n) cutManifest) w).1 = data
  read_legacy : ∀ w n url ref data, At w n url ref →
    (available.checkout url ref).legacy = some data →
    (os.readHash (join (join scratchRoot n) legacyCutManifest) w).1 = data
  lists_tags : ∀ w url output, (os.gitLsRemote url w).1 = some output → output = available.tags url
  fetch_metadata : ∀ w url path data, (fetchRegistryHash os url path w).1 = .ok data →
    data = available.metadata url

inductive Found (scratchRoot name : Bytes) (c : Checkout) : Bytes → Prop
  | current {data} : c.current = some data → c.legacy = none →
    Found scratchRoot name c (join (join scratchRoot name) cutManifest)
  | legacy {data} : c.current = none → c.legacy = some data →
    Found scratchRoot name c (join (join scratchRoot name) legacyCutManifest)

lemma toOption_bind {α β : Type} (x : Checked α) (f : α → Checked β) :
    (x >>= f).toOption = x.toOption.bind fun a => (f a).toOption := by
  cases x <;> rfl

lemma parseManifest_toOption (path : Bytes) (data : ManifestValue) :
    (parseManifest path data).toOption = (parseManifest [] data).toOption := by
  have hdependencies : (readDependencies path data).toOption = (readDependencies [] data).toOption := by
    rw [readDependencies.eq_def, readDependencies.eq_def]
    split <;> rfl
  rw [parseManifest.eq_def, parseManifest.eq_def]
  split
  · rfl
  · split_ifs
    · rw [toOption_bind, toOption_bind, hdependencies]
    · rfl

section
variable {os : Os σ} {scratchRoot : Bytes} {available : Available}
  {At : σ → Bytes → Bytes → Bytes → Prop} (hos : Faithful os scratchRoot available At)
include hos

lemma Faithful.find {w n url ref} (hat : At w n url ref) :
    ((diamondCutManifestFind os (join scratchRoot n) w).1 = .missing →
      (available.checkout url ref).current = none ∧ (available.checkout url ref).legacy = none) ∧
    (∀ path, (diamondCutManifestFind os (join scratchRoot n) w).1 = .found path →
      Found scratchRoot n (available.checkout url ref) path) := by
  have hat' := (hos.quiet n url ref).fileExists (join (join scratchRoot n) legacyCutManifest) w hat
  rw [diamondCutManifestFind]
  split_ifs
  · exact ⟨by rintro ⟨⟩, by rintro _ ⟨⟩⟩
  · exact ⟨by rintro ⟨⟩, by rintro _ ⟨⟩⟩
  rw [state_bind_apply, state_bind_apply, hos.exists_legacy w n url ref hat,
    hos.exists_current _ n url ref hat']
  cases hc : (available.checkout url ref).current with
  | none =>
    cases hl : (available.checkout url ref).legacy with
    | none => exact ⟨fun _ => ⟨rfl, rfl⟩, fun _ h => by cases h⟩
    | some =>
      refine ⟨by rintro ⟨⟩, ?_⟩
      rintro path ⟨⟩
      exact .legacy hc hl
  | some =>
    cases hl : (available.checkout url ref).legacy with
    | none =>
      refine ⟨by rintro ⟨⟩, ?_⟩
      rintro path ⟨⟩
      exact .current hc hl
    | some => exact ⟨by rintro ⟨⟩, by rintro _ ⟨⟩⟩

lemma Faithful.tags {w url tags}
    (h : (gitListSemverTags os url w).1 = .ok tags) : tags = semverTags (available.tags url) := by
  rw [gitListSemverTags, state_bind_apply] at h
  cases hls : (os.gitLsRemote url w).1 with rw [hls] at h
  | none =>
    cases h
  | some output =>
    rw [← hos.lists_tags w url output hls]
    exact (Except.ok.inj h).symm

lemma Faithful.read {w n url ref path m} (hat : At w n url ref)
    (hfound : Found scratchRoot n (available.checkout url ref) path)
    (hread : (readManifest os path w).1 = .ok m) :
    (available.checkout url ref).manifest = some m := by
  have hparse : ∃ data, (os.readHash path w).1 = .ok data ∧ parseManifest path data = .ok m := by
    rw [readManifest, state_bind_apply, facetReadHash, state_bind_apply] at hread
    cases hdata : (os.readHash path w).1 with rw [hdata] at hread
    | ok data =>
      exact ⟨data, rfl, hread⟩
    | error =>
      cases hread
  obtain ⟨data, hdata, hm⟩ := hparse
  have hoption : (parseManifest [] data).toOption = some m := by
    rw [← parseManifest_toOption path, hm]
    rfl
  cases hfound with
  | current hcurrent hlegacy =>
    rw [hos.read_current w n url ref _ hat hcurrent] at hdata
    rw [Checkout.manifest, hcurrent, hlegacy, hdata]
    exact hoption
  | legacy hcurrent hlegacy =>
    rw [hos.read_legacy w n url ref _ hat hlegacy] at hdata
    rw [Checkout.manifest, hcurrent, hlegacy, hdata]
    exact hoption

end

end

end Diamond.Facet
