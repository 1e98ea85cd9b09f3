import Diamond.Facet.Manifest
import Diamond.Lib.Fallible

/-!
# What facet asks of the system

`Os` collects the calls that leave facet's own code: the file system, `git`, `curl`, and reading a
data file.  A call takes the state of the world and gives its answer and the new state; nothing is
assumed of the answers.  Over it, the small functions of `tools/facet.c`, `tools/facet_resolve.c`
and `src/manifest_literal.c` that resolution and installation share.
-/

namespace Diamond.Facet
open Codec (Bytes)
open Fallible (Keeps)

structure Os (σ : Type) where
  /-- `stat` succeeds. -/
  fileExists : Bytes → StateM σ Bool
  /-- The size of a regular file. -/
  regularSize : Bytes → StateM σ (Option ℕ)
  /-- `ensure_directory`. -/
  ensureDirectory : Bytes → StateM σ Bool
  /-- `nftw` with `remove`, depth first. -/
  removeTree : Bytes → StateM σ Bool
  remove : Bytes → StateM σ Bool
  rename : Bytes → Bytes → StateM σ Bool
  /-- `git clone` of a repository into a directory. -/
  gitClone : Bytes → Bytes → StateM σ Bool
  /-- `git checkout` of a ref in a directory. -/
  gitCheckout : Bytes → Bytes → StateM σ Bool
  /-- `git rev-parse HEAD` in a directory. -/
  gitRevParse : Bytes → StateM σ (Option Bytes)
  /-- `git ls-remote --tags` of a repository. -/
  gitLsRemote : Bytes → StateM σ (Option Bytes)
  /-- `curl` of a URL to a file, up to a size. -/
  curl : Bytes → Bytes → ℕ → StateM σ Bool
  /-- What `read_whole_file` and `diamond_manifest_parse` make of a file: its data, or the message.
  -/
  readHash : Bytes → StateM σ (Except String ManifestValue)

def facetMaxPath : ℕ := 4096

def join (directory name : Bytes) : Bytes := directory ++ byte '/' :: name

section
variable {σ : Type} (os : Os σ)

def removeDirectoryRecursive (path : Bytes) : StateM σ Bool := do
  if ← os.fileExists path then os.removeTree path else return true

def gitClone (url ref destination : Bytes) : StateM σ (Checked Unit) := do
  let _ ← removeDirectoryRecursive os destination
  if ← os.gitClone url destination then
    if ← os.gitCheckout destination ref then return .ok ()
    else return refuse ("git failed while checking out '" ++ shown ref ++ "' in '" ++ shown url ++ "'")
  else return refuse ("git failed while cloning '" ++ shown url ++ "'")

/-- `git_rev_parse_head`; the output is cut at the size of the buffer. -/
def gitRevParseHead (repository : Bytes) : StateM σ (Checked Bytes) := do
  match ← os.gitRevParse repository with
  | some commit => return .ok (commit.take (facetMaxCommit - 1))
  | none => return refuse "git failed while resolving the checked-out commit"

inductive ManifestLookup
  | missing
  | found (path : Bytes)
  | ambiguous
  | pathTooLong
  deriving DecidableEq, Repr

def cutManifest : Bytes := text ['C', 'u', 't', 'f', 'i', 'l', 'e']

def legacyCutManifest : Bytes := text ['d', 'i', 'a', 'm', 'o', 'n', 'd', '.', 'c', 'u', 't']

def diamondCutManifestFind (directory : Bytes) : StateM σ ManifestLookup := do
  let legacy := join directory legacyCutManifest
  let current := join directory cutManifest
  if facetMaxPath ≤ legacy.length then return .pathTooLong
  else
    let hasLegacy ← os.fileExists legacy
    if facetMaxPath ≤ current.length then return .pathTooLong
    else
      let hasCurrent ← os.fileExists current
      if hasCurrent && hasLegacy then return .ambiguous
      else if hasCurrent then return .found current
      else if hasLegacy then return .found legacy
      else return .missing

def facetReadHash (path : Bytes) : StateM σ (Checked ManifestValue) := do
  match ← os.readHash path with
  | .ok hash => return .ok hash
  | .error text => return refuse text

def readManifest (path : Bytes) : StateM σ (Checked FacetManifest) := do
  match ← facetReadHash os path with
  | .ok hash => return parseManifest path hash
  | .error e => return .error e

/-! ## Registry metadata -/

def onlyKeys (hash : ManifestValue) (keys : List Bytes) : Checked Unit :=
  match hash.children.find? fun field => !keys.contains field.1 with
  | some field => refuse ("registry metadata has unknown key '" ++ shown field.1 ++ "'")
  | none => .ok ()

def fetchRegistryHash (url path : Bytes) : StateM σ (Checked ManifestValue) := do
  let _ ← os.remove path
  if ← os.curl url path (1024 * 1024) then
    match ← os.regularSize path with
    | some size =>
      if 0 < size ∧ size ≤ 1024 * 1024 then
        let hash ← facetReadHash os path
        let _ ← os.remove path
        return hash
      else
        let _ ← os.remove path
        return refuse "registry metadata has an invalid size"
    | none =>
      let _ ← os.remove path
      return refuse "registry metadata has an invalid size"
  else return refuse ("cannot download '" ++ shown url ++ "'")

end

/-! ## What the calls keep -/

/-- The calls that only look at the world keep a property of it. -/
structure Quiet {σ : Type} (os : Os σ) (P : σ → Prop) : Prop where
  fileExists : ∀ path, Keeps P (os.fileExists path)
  regularSize : ∀ path, Keeps P (os.regularSize path)
  gitRevParse : ∀ path, Keeps P (os.gitRevParse path)
  gitLsRemote : ∀ url, Keeps P (os.gitLsRemote url)
  readHash : ∀ path, Keeps P (os.readHash path)

section
variable {σ : Type} {os : Os σ} {P : σ → Prop} (hquiet : Quiet os P)
include hquiet

lemma removeDirectoryRecursive_keeps {path} (hremove : Keeps P (os.removeTree path)) :
    Keeps P (removeDirectoryRecursive os path) := by
  refine .bind (hquiet.fileExists path) fun _ => ?_
  split_ifs
  · exact hremove
  · exact .pure _

lemma gitClone_keeps {url ref destination} (hremove : Keeps P (os.removeTree destination))
    (hclone : Keeps P (os.gitClone url destination))
    (hcheckout : Keeps P (os.gitCheckout destination ref)) :
    Keeps P (gitClone os url ref destination) := by
  refine .bind (removeDirectoryRecursive_keeps hquiet hremove) fun _ => .bind hclone fun _ => ?_
  split_ifs
  · refine .bind hcheckout fun _ => ?_
    split_ifs <;> exact .pure _
  · exact .pure _

lemma gitRevParseHead_keeps (path : Bytes) : Keeps P (gitRevParseHead os path) := by
  refine .bind (hquiet.gitRevParse path) fun answer => ?_
  cases answer <;> exact .pure _

lemma diamondCutManifestFind_keeps (directory : Bytes) :
    Keeps P (diamondCutManifestFind os directory) := by
  rw [diamondCutManifestFind]
  split_ifs
  · exact .pure _
  · exact .bind (hquiet.fileExists _) fun _ => .pure _
  · refine .bind (hquiet.fileExists _) fun hasLegacy => .bind (hquiet.fileExists _) ?_
    intro hasCurrent
    split_ifs <;> exact .pure _

lemma facetReadHash_keeps (path : Bytes) : Keeps P (facetReadHash os path) := by
  refine .bind (hquiet.readHash path) fun answer => ?_
  cases answer <;> exact .pure _

lemma readManifest_keeps (path : Bytes) : Keeps P (readManifest os path) := by
  refine .bind (facetReadHash_keeps hquiet path) fun answer => ?_
  cases answer <;> exact .pure _

lemma fetchRegistryHash_keeps {url path} (hremove : Keeps P (os.remove path))
    (hcurl : ∀ size, Keeps P (os.curl url path size)) : Keeps P (fetchRegistryHash os url path) := by
  refine .bind hremove fun _ => .bind (hcurl _) fun _ => ?_
  split_ifs
  · refine .bind (hquiet.regularSize path) fun size => ?_
    cases size with
    | none => exact .bind hremove fun _ => .pure _
    | some =>
      dsimp only
      split_ifs
      · exact .bind (facetReadHash_keeps hquiet path) fun _ => .bind hremove fun _ => .pure _
      · exact .bind hremove fun _ => .pure _
  · exact .pure _

end

/-! ## Versions -/

def tagNames (output : Bytes) : List Bytes :=
  (output.splitOn (byte '\n')).filterMap fun line =>
    let refName := (line.dropWhile (· ≠ byte '\t')).tail
    let tags := text ['r', 'e', 'f', 's', '/', 't', 'a', 'g', 's', '/']
    if tags.isPrefixOf refName then some (refName.drop tags.length) else none

/-- What `git_list_semver_tags` makes of the output: the tags that are versions, up to `MAX_TAGS`,
each cut at the size of a ref. -/
def semverTags (output : Bytes) : List Bytes :=
  (((tagNames output).filter fun tag => (semverParse tag).isSome).take 4096).map
    fun tag => tag.take (facetMaxRef - 1)

/-- The loop of `pick_best_matching_tag`, with the best tag so far. -/
def pickBestLoop (constraint : SemverConstraint) : Option (Bytes × Semver) → List Bytes →
    Option (Bytes × Semver)
  | best, [] => best
  | best, tag :: rest =>
    match semverParse tag with
    | none => pickBestLoop constraint best rest
    | some candidate =>
      if semverSatisfies candidate constraint &&
          (match best with
            | none => true
            | some (_, version) => semverCompare candidate version == .gt) then
        pickBestLoop constraint (some (tag, candidate)) rest
      else pickBestLoop constraint best rest

def pickBestMatchingTag (tags : List Bytes) (constraint : SemverConstraint) : Option Bytes :=
  (pickBestLoop constraint none tags).map Prod.fst

end Diamond.Facet
