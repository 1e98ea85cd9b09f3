import Diamond.Facet.System

/-!
# Dependency resolution

Model of the resolver in `tools/facet_resolve.c`.  The tables that C passes around are the state of
the walk; a failed call leaves them as they are at that point, and `needs_restart` is a way to fail
of its own.  The loops run on fuel: the tables are bounded, so it never ends first.
-/

namespace Diamond.Facet
open Codec (Bytes)
open Fallible (Keeps)

structure FacetPendingSemver where
  name : Bytes
  source : FacetSource
  git : Bytes
  registry : Bytes
  constraint : SemverConstraint
  firstRequester : Bytes
  deriving DecidableEq, Repr

structure FacetConstraintRecord where
  name : Bytes
  source : FacetSource
  git : Bytes
  registry : Bytes
  accumulated : SemverConstraint
  mostRecentRequester : Bytes
  deriving DecidableEq, Repr

structure FacetWorkItem where
  path : Bytes
  cutName : Bytes
  deriving DecidableEq, Repr

structure Session (σ : Type) where
  resolution : List FacetResolved
  pending : List FacetPendingSemver
  queue : List FacetWorkItem
  history : List FacetConstraintRecord
  world : σ

/-- How a call can fail: by a restart of the walk, with an error, or for want of fuel. -/
inductive Stop
  | restart
  | failed (error : FacetError)
  | spent

abbrev Resolve (σ : Type) := EStateM Stop (Session σ)

section
variable {σ : Type}

def giveUp {α : Type} (text : String) : Resolve σ α := throw (.failed (.message text))

def ask {α : Type} (call : StateM σ α) : Resolve σ α := fun s =>
  .ok (call s.world).1 { s with world := (call s.world).2 }

def attempt {α : Type} (call : StateM σ (Checked α)) : Resolve σ α := do
  match ← ask call with
  | .ok a => return a
  | .error e => throw (.failed e)

def sameSource (dependency : FacetDependency) (source : FacetSource) (git registry : Bytes) : Bool :=
  source == dependency.source &&
    (match dependency.source with
      | .git => git == dependency.git
      | .registry => registry == dependency.registry)

def workQueuePush (path cutName : Bytes) : Resolve σ Unit := do
  if (← get).queue.length = facetMaxDependencies then giveUp "too many pending manifests (max 64)"
  else modify fun s => { s with queue := s.queue ++ [⟨path, cutName⟩] }

variable (os : Os σ) (scratchRoot : Bytes)

def queueNestedManifest (directory cutName : Bytes) : Resolve σ Unit := do
  match ← ask (diamondCutManifestFind os directory) with
  | .missing => return
  | .found path => workQueuePush path cutName
  | .ambiguous => giveUp ("cut '" ++ shown cutName ++ "' has both Cutfile and diamond.cut")
  | .pathTooLong => giveUp ("path too long while resolving '" ++ shown cutName ++ "'")

/-! ## Exact dependencies -/

/-- The part of `handle_exact_dependency` for a name that is not in the tables: the checkout, and
its manifest in the queue. -/
def resolveExact (dependency : FacetDependency) (requiredBy : Bytes) : Resolve σ Unit := do
  if (← get).resolution.length = facetMaxDependencies then
    giveUp "too many resolved dependencies (max 64)"
  else
    let scratchPath := join scratchRoot dependency.name
    if facetMaxPath ≤ scratchPath.length then
      giveUp ("path too long while resolving '" ++ shown dependency.name ++ "'")
    else
      attempt (gitClone os dependency.git dependency.ref scratchPath)
      let commit ← attempt (gitRevParseHead os scratchPath)
      modify fun s => { s with resolution := s.resolution ++
        [⟨dependency.name, .git, dependency.git, [], [], 0, dependency.ref, commit, [], requiredBy⟩] }
      queueNestedManifest os scratchPath dependency.name

def handleExactDependency (dependency : FacetDependency) (requiredBy : Bytes) : Resolve σ Unit := do
  match (← get).resolution.find? fun r => r.name == dependency.name with
  | some existing =>
    if existing.version ≠ [] then
      giveUp ("conflicting dependency '" ++ shown dependency.name ++ "': '" ++ shown requiredBy ++
        "' wants an exact " ++ shown dependency.git ++ "@" ++ shown dependency.ref ++
        ", but it was already resolved to version " ++ shown existing.version ++
        " via a semver constraint from '" ++ shown existing.requiredBy ++
        "' -- mixing an exact ref and a version constraint for the same dependency is not supported")
    else if existing.git = dependency.git ∧ existing.ref = dependency.ref then return
    else
      giveUp ("conflicting dependency '" ++ shown dependency.name ++ "': '" ++ shown requiredBy ++
        "' wants " ++ shown dependency.git ++ "@" ++ shown dependency.ref ++ ", but '" ++
        shown existing.requiredBy ++ "' wants " ++ shown existing.git ++ "@" ++ shown existing.ref)
  | none =>
    match (← get).pending.find? fun p => p.name == dependency.name with
    | some existing =>
      giveUp ("conflicting dependency '" ++ shown dependency.name ++ "': '" ++ shown requiredBy ++
        "' wants an exact " ++ shown dependency.git ++ "@" ++ shown dependency.ref ++ ", but '" ++
        shown existing.firstRequester ++ "' already constrained it to version " ++
        shown (semverConstraintFormat existing.constraint) ++
        " -- mixing an exact ref and a version constraint for the same dependency is not supported")
    | none => resolveExact os scratchRoot dependency requiredBy

/-! ## Dependencies on versions -/

def findOrCreateConstraintRecord (dependency : FacetDependency) :
    Resolve σ FacetConstraintRecord := do
  match (← get).history.find? fun r => r.name == dependency.name with
  | some record =>
    if sameSource dependency record.source record.git record.registry then return record
    else giveUp ("conflicting sources for dependency '" ++ shown dependency.name ++ "'")
  | none =>
    if (← get).history.length = facetMaxDependencies then
      giveUp "too many distinct version-constrained dependencies (max 64)"
    else
      let record : FacetConstraintRecord := ⟨dependency.name, dependency.source, dependency.git,
        dependency.registry, ⟨none, none⟩, []⟩
      modify fun s => { s with history := s.history ++ [record] }
      return record

/-- The part of `handle_version_dependency` that folds a constraint into the history of its name. -/
def accumulate (dependency : FacetDependency) (requiredBy : Bytes) (constraint : SemverConstraint) :
    Resolve σ SemverConstraint := do
  let record ← findOrCreateConstraintRecord dependency
  match semverConstraintIntersect record.accumulated constraint with
  | none =>
    throw (.failed (.noVersion dependency.name ("conflicting dependency '" ++ shown dependency.name ++
      "': '" ++ shown record.mostRecentRequester ++ "' wants " ++
      shown (semverConstraintFormat record.accumulated) ++ ", but '" ++ shown requiredBy ++
      "' wants " ++ shown (semverConstraintFormat constraint) ++ " -- no version can satisfy both")))
  | some merged =>
    modify fun s => { s with history := s.history.map fun r =>
      if r.name = dependency.name then
        { r with accumulated := merged, mostRecentRequester := requiredBy } else r }
    return merged

/-- The part of `handle_version_dependency` for a name that is resolved. -/
def checkResolved (dependency : FacetDependency) (requiredBy : Bytes) (accumulated : SemverConstraint)
    (existing : FacetResolved) : Resolve σ Unit :=
  if ¬sameSource dependency existing.source existing.git existing.registry then
    giveUp ("conflicting sources for dependency '" ++ shown dependency.name ++ "'")
  else if existing.version = [] then
    giveUp ("conflicting dependency '" ++ shown dependency.name ++ "': '" ++ shown requiredBy ++
      "' wants version " ++ shown dependency.versionText ++
      ", but it was already resolved to an exact " ++ shown existing.git ++ "@" ++
      shown existing.ref ++ " (required by '" ++ shown existing.requiredBy ++
      "') -- mixing an exact ref and a version constraint for the same dependency is not supported")
  else if (semverParse existing.version).any fun v => semverSatisfies v accumulated then return
  else throw .restart

/-- A pending entry after its constraint has changed, when it has the name. -/
def constrain (name : Bytes) (merged : SemverConstraint) (requiredBy : Bytes)
    (p : FacetPendingSemver) : FacetPendingSemver :=
  if p.name = name then { p with constraint := merged, firstRequester := requiredBy } else p

/-- The part of `handle_version_dependency` for a name that is not resolved. -/
def addPending (dependency : FacetDependency) (requiredBy : Bytes) (accumulated : SemverConstraint) :
    Resolve σ Unit := do
  match (← get).pending.find? fun p => p.name == dependency.name with
  | some existing =>
    if ¬sameSource dependency existing.source existing.git existing.registry then
      giveUp ("conflicting dependency '" ++ shown dependency.name ++ "': '" ++ shown requiredBy ++
        "' and '" ++ shown existing.firstRequester ++ "' point at different git repositories ('" ++
        shown dependency.git ++ "' vs '" ++ shown existing.git ++ "')")
    else
      modify fun s => { s with
        pending := s.pending.map (constrain dependency.name accumulated requiredBy) }
  | none =>
    if (← get).pending.length = facetMaxDependencies then
      giveUp "too many pending dependencies (max 64)"
    else
      modify fun s => { s with pending := s.pending ++ [⟨dependency.name, dependency.source,
        dependency.git, dependency.registry, accumulated, requiredBy⟩] }

def handleVersionDependency (dependency : FacetDependency) (requiredBy : Bytes) :
    Resolve σ Unit := do
  match semverConstraintParse dependency.versionText with
  | none =>
    giveUp ("dependency '" ++ shown dependency.name ++ "' has an invalid version constraint '" ++
      shown dependency.versionText ++ "'")
  | some constraint =>
    let accumulated ← accumulate dependency requiredBy constraint
    match (← get).resolution.find? fun r => r.name == dependency.name with
    | some existing => checkResolved dependency requiredBy accumulated existing
    | none => addPending dependency requiredBy accumulated

/-! ## Manifests -/

def resolveManifestDependencies (requiredBy : Bytes) : List FacetDependency → Resolve σ Unit
  | [] => return
  | dependency :: rest => do
    if dependency.usesVersion then handleVersionDependency dependency requiredBy
    else handleExactDependency os scratchRoot dependency requiredBy
    resolveManifestDependencies requiredBy rest

def processWorkItem (item : FacetWorkItem) : Resolve σ Unit := do
  let nested ← attempt (readManifest os item.path)
  if nested.name ≠ item.cutName then
    giveUp ("'" ++ shown item.path ++ "' declares name '" ++ shown nested.name ++ "', expected '" ++
      shown item.cutName ++ "'")
  else resolveManifestDependencies os scratchRoot item.cutName nested.dependencies

def processWorkQueue : ℕ → Resolve σ Unit
  | 0 => throw .spent
  | fuel + 1 => do
    match (← get).queue with
    | [] => return
    | item :: rest =>
      modify fun s => { s with queue := rest }
      processWorkItem os scratchRoot item
      processWorkQueue fuel

/-! ## Pending names -/

def jsonPath (name : Bytes) (start : List Char) : Bytes :=
  join scratchRoot (text start ++ name ++ text ['.', 'j', 's', 'o', 'n'])

def indexStart : List Char := ['.', 'i', 'n', 'd', 'e', 'x', '-']

def releaseStart : List Char := ['.', 'r', 'e', 'l', 'e', 'a', 's', 'e', '-']

def indexUrl (registry name : Bytes) : Bytes :=
  registry ++ text ['/', 'v', '1', '/', 'c', 'u', 't', 's', '/'] ++ name ++
    text ['/', 'v', 'e', 'r', 's', 'i', 'o', 'n', 's']

def releaseUrl (registry name version : Bytes) : Bytes :=
  indexUrl registry name ++ byte '/' :: version

def preferredVersion (preference : List FacetResolved) (entry : FacetPendingSemver) : Bytes :=
  match preference.find? fun locked => locked.source == .registry && locked.name == entry.name &&
      locked.registry == entry.registry with
  | some locked => locked.version
  | none => []

def versionRecord (record : ManifestValue) : Option (Bytes × Bool × Semver) :=
  match record with
  | .hash _ => do
    let _ ← (onlyKeys record [text ['v', 'e', 'r', 's', 'i', 'o', 'n'],
      text ['y', 'a', 'n', 'k', 'e', 'd']]).toOption
    let version ← diamondManifestGetString record
      (text ['v', 'e', 'r', 's', 'i', 'o', 'n']) facetMaxRef
    let yanked ← diamondManifestGetBool record (text ['y', 'a', 'n', 'k', 'e', 'd'])
    let candidate ← semverParse version
    if canonicalRegistryVersion version then some (version, yanked, candidate) else none
  | _ => none

/-- The loop of `registry_best_version`, with the best version so far. -/
def bestVersionLoop (entry : FacetPendingSemver) (preferred : Bytes) :
    Option (Bytes × Semver) → List ManifestValue → Checked (Option (Bytes × Semver))
  | best, [] => .ok best
  | best, record :: rest =>
    match versionRecord record with
    | none => refuse ("registry returned an invalid version record for '" ++ shown entry.name ++ "'")
    | some (version, yanked, candidate) =>
      if !yanked && semverSatisfies candidate entry.constraint &&
          (match best with
            | none => true
            | some (_, best) => semverCompare candidate best == .gt || version == preferred) then
        if version = preferred then .ok (some (version, candidate))
        else bestVersionLoop entry preferred (some (version, candidate)) rest
      else bestVersionLoop entry preferred best rest

def bestVersion (preference : List FacetResolved) (entry : FacetPendingSemver) (root : ManifestValue) :
    Checked Bytes := do
  match diamondManifestGetU64 root (text ['p', 'r', 'o', 't', 'o', 'c', 'o', 'l']),
      diamondManifestGet root (text ['v', 'e', 'r', 's', 'i', 'o', 'n', 's']) with
  | some 1, some (.array versions) =>
    onlyKeys root [text ['p', 'r', 'o', 't', 'o', 'c', 'o', 'l'],
      text ['v', 'e', 'r', 's', 'i', 'o', 'n', 's']]
    match ← bestVersionLoop entry (preferredVersion preference entry) none versions with
    | some (version, _) => return version
    | none => .error (.noVersion entry.name ("no registry version of '" ++ shown entry.name ++
        "' satisfies " ++ shown (semverConstraintFormat entry.constraint)))
  | _, _ => refuse ""

def registryBestVersion (preference : List FacetResolved) (entry : FacetPendingSemver) :
    StateM σ (Checked Bytes) := do
  let url := indexUrl entry.registry entry.name
  let path := jsonPath scratchRoot entry.name indexStart
  if facetMaxPath ≤ url.length ∨ facetMaxPath ≤ path.length then
    return refuse "registry metadata path is too long"
  else
    match ← fetchRegistryHash os url path with
    | .error e => return .error e
    | .ok root => return bestVersion preference entry root

def releaseDependencies (registry : Bytes) : List FacetDependency → List (Bytes × ManifestValue) →
    Option (List FacetDependency)
  | dependencies, [] => some dependencies
  | dependencies, (name, spec) :: rest =>
    match spec with
    | .string versionText =>
      if dependencies.length < facetMaxDependencies ∧ publishableName name ∧
          versionText.length < facetMaxRef ∧ (semverConstraintParse versionText).isSome then
        releaseDependencies registry (dependencies ++ [⟨name, .registry, [], registry, [], .tag, true,
          versionText, nofun⟩]) rest
      else none
    | _ => none

/-- The digest and the size of a release's archive, when its fields are valid. -/
def releaseArchive (archive : ManifestValue) : Option (Bytes × ℕ) := do
  let path ← diamondManifestGetString archive (text ['p', 'a', 't', 'h']) facetMaxPath
  let sha256 ← diamondManifestGetString archive (text ['s', 'h', 'a', '2', '5', '6']) 65
  let size ← diamondManifestGetU64 archive (text ['s', 'i', 'z', 'e'])
  if validSha256 sha256 ∧ 0 < size ∧ size ≤ facetMaxArchiveSize ∧
      path = text ['/', 'v', '1', '/', 'b', 'l', 'o', 'b', 's', '/', 's', 'h', 'a', '2', '5', '6', '/'] ++
        sha256 then
    some (sha256, size)
  else none

/-- The fields that identify a release are those asked for, and it is not yanked. -/
def releaseMatches (entry : FacetPendingSemver) (version : Bytes) (root : ManifestValue) : Bool :=
  diamondManifestGetU64 root (text ['p', 'r', 'o', 't', 'o', 'c', 'o', 'l']) == some 1 &&
    diamondManifestGetString root (text ['n', 'a', 'm', 'e']) facetMaxName == some entry.name &&
    diamondManifestGetString root (text ['v', 'e', 'r', 's', 'i', 'o', 'n']) facetMaxRef ==
      some version &&
    diamondManifestGetBool root (text ['y', 'a', 'n', 'k', 'e', 'd']) == some false

/-- What `registry_release` makes of the data of a release: the package and its dependencies. -/
def releaseOf (entry : FacetPendingSemver) (version : Bytes) (root : ManifestValue) :
    Checked (FacetResolved × List FacetDependency) := do
  let invalid : Checked (FacetResolved × List FacetDependency) :=
    refuse ("registry returned an invalid release for '" ++ shown entry.name ++ "'")
  onlyKeys root [text ['p', 'r', 'o', 't', 'o', 'c', 'o', 'l'], text ['n', 'a', 'm', 'e'],
    text ['v', 'e', 'r', 's', 'i', 'o', 'n'],
    text ['d', 'e', 'p', 'e', 'n', 'd', 'e', 'n', 'c', 'i', 'e', 's'],
    text ['y', 'a', 'n', 'k', 'e', 'd'], text ['a', 'r', 'c', 'h', 'i', 'v', 'e']]
  match releaseMatches entry version root, diamondManifestGet root
      (text ['d', 'e', 'p', 'e', 'n', 'd', 'e', 'n', 'c', 'i', 'e', 's']),
      diamondManifestGet root (text ['a', 'r', 'c', 'h', 'i', 'v', 'e']) with
  | true, some (.hash children), some (.hash fields) =>
    onlyKeys (.hash fields) [text ['p', 'a', 't', 'h'], text ['s', 'h', 'a', '2', '5', '6'],
      text ['s', 'i', 'z', 'e']]
    match releaseArchive (.hash fields), releaseDependencies entry.registry [] children with
    | some (sha256, size), some dependencies =>
      return (⟨entry.name, .registry, [], entry.registry, sha256, size, [], [], version,
        entry.firstRequester⟩, dependencies)
    | _, _ => invalid
  | _, _, _ => invalid

def registryRelease (entry : FacetPendingSemver) (version : Bytes) :
    StateM σ (Checked (FacetResolved × List FacetDependency)) := do
  let url := releaseUrl entry.registry entry.name version
  let path := jsonPath scratchRoot entry.name releaseStart
  if facetMaxPath ≤ url.length ∨ facetMaxPath ≤ path.length then
    return refuse "registry release path is too long"
  else
    match ← fetchRegistryHash os url path with
    | .error e => return .error e
    | .ok root => return releaseOf entry version root

def gitListSemverTags (url : Bytes) : StateM σ (Checked (List Bytes)) := do
  match ← os.gitLsRemote url with
  | some output => return .ok (semverTags output)
  | none => return refuse ("git failed while listing tags for '" ++ shown url ++ "'")

omit os scratchRoot in
lemma gitListSemverTags_keeps {os : Os σ} {P : σ → Prop} (hquiet : Quiet os P) (url : Bytes) :
    Keeps P (gitListSemverTags os url) := by
  refine .bind (hquiet.gitLsRemote url) fun answer => ?_
  cases answer <;> exact .pure _

def resolveRegistry (preference : List FacetResolved) (entry : FacetPendingSemver) :
    Resolve σ Unit := do
  let best ← attempt (registryBestVersion os scratchRoot preference entry)
  if (← get).resolution.length = facetMaxDependencies then
    giveUp "too many resolved dependencies (max 64)"
  else
    let (resolved, dependencies) ← attempt (registryRelease os scratchRoot entry best)
    modify fun s => { s with resolution := s.resolution ++ [resolved] }
    resolveManifestDependencies os scratchRoot entry.name dependencies

def resolveTag (entry : FacetPendingSemver) : Resolve σ Unit := do
  let tags ← attempt (gitListSemverTags os entry.git)
  match pickBestMatchingTag tags entry.constraint with
  | none =>
    throw (.failed (.noVersion entry.name ("no tag on '" ++ shown entry.git ++ "' satisfies " ++
      shown (semverConstraintFormat entry.constraint) ++ " (required by '" ++
      shown entry.firstRequester ++ "') for dependency '" ++ shown entry.name ++ "'")))
  | some best =>
    if (← get).resolution.length = facetMaxDependencies then
      giveUp "too many resolved dependencies (max 64)"
    else
      let scratchPath := join scratchRoot entry.name
      if facetMaxPath ≤ scratchPath.length then
        giveUp ("path too long while resolving '" ++ shown entry.name ++ "'")
      else
        attempt (gitClone os entry.git best scratchPath)
        let commit ← attempt (gitRevParseHead os scratchPath)
        modify fun s => { s with resolution := s.resolution ++
          [⟨entry.name, .git, entry.git, [], [], 0, best, commit, best, entry.firstRequester⟩] }
        queueNestedManifest os scratchPath entry.name

/-- `resolve_one_pending`, on the entry at the front of the table. -/
def resolveOnePending (preference : List FacetResolved) (entry : FacetPendingSemver)
    (rest : List FacetPendingSemver) : Resolve σ Unit := do
  modify fun s => { s with pending := rest }
  match entry.source with
  | .registry => resolveRegistry os scratchRoot preference entry
  | .git => resolveTag os scratchRoot entry

/-! ## Attempts -/

/-- Fuel for `process_work_queue`: every turn takes an item, and an item comes with a new package.
-/
def queueFuel : ℕ := 3 * facetMaxDependencies + 1

def resolvePending (preference : List FacetResolved) : ℕ → Resolve σ Unit
  | 0 => throw .spent
  | fuel + 1 => do
    match (← get).pending with
    | [] => return
    | entry :: rest =>
      resolveOnePending os scratchRoot preference entry rest
      processWorkQueue os scratchRoot queueFuel
      resolvePending preference fuel

def attemptResolveGraph (preference : List FacetResolved) (manifest : FacetManifest) :
    Resolve σ Unit := do
  modify fun s => { s with pending := [], queue := [] }
  resolveManifestDependencies os scratchRoot manifest.name manifest.dependencies
  processWorkQueue os scratchRoot queueFuel
  resolvePending os scratchRoot preference (facetMaxDependencies + 1)

/-- What `resolve_full_graph` does to the scratch directory before it tries again. -/
def recreateScratch : Resolve σ Unit := do
  let _ ← ask (removeDirectoryRecursive os scratchRoot)
  if ← ask (os.ensureDirectory scratchRoot) then return
  else giveUp ("cannot recreate '" ++ shown scratchRoot ++ "' while retrying dependency resolution")

def onRestart {α : Type} (walk again : Resolve σ α) : Resolve σ α := fun s =>
  match walk s with
  | .error .restart s => again s
  | result => result

/-- One turn of the loop of `resolve_full_graph`, with this many attempts left. -/
def attemptOnce (preference : List FacetResolved) (manifest : FacetManifest) (attempts : ℕ) :
    Resolve σ Unit := do
  modify fun s => { s with resolution := [] }
  if attempts < facetMaxDependencies then recreateScratch os scratchRoot
  attemptResolveGraph os scratchRoot preference manifest

def resolveAttempts (preference : List FacetResolved) (manifest : FacetManifest) : ℕ → Resolve σ Unit
  | 0 => giveUp "dependency resolution did not converge after 64 attempts (internal error)"
  | attempts + 1 => onRestart (attemptOnce os scratchRoot preference manifest (attempts + 1))
      (resolveAttempts preference manifest attempts)

def resolveFullGraph (preference : List FacetResolved) (manifest : FacetManifest) (world : σ) :
    EStateM.Result Stop (Session σ) (List FacetResolved) :=
  match resolveAttempts os scratchRoot preference manifest facetMaxDependencies
      ⟨[], [], [], [], world⟩ with
  | .ok _ s => .ok s.resolution s
  | .error e s => .error e s

end

end Diamond.Facet
