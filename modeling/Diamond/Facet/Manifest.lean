import Diamond.Facet.Semver

/-!
# Manifests

Model of the reader of `Cutfile` in `tools/facet.c`, over the data tree that
`src/manifest_literal.c` makes of a file.  A field that C keeps in a buffer of `n` bytes is a text
of fewer than `n` bytes; what does not fit is refused by the reader, as in the source.
-/

namespace Diamond.Facet
open Codec (Bytes)
open Bignum (isDigit digitValue)

/-! ## Data trees -/

inductive ManifestValue
  | other
  | integer (string : Bytes)
  | boolean (value : Bool)
  | string (string : Bytes)
  | hash (children : List (Bytes × ManifestValue))
  | array (children : List ManifestValue)
  deriving Inhabited

def ManifestValue.children : ManifestValue → List (Bytes × ManifestValue)
  | .hash children => children
  | _ => []

def diamondManifestGet (hash : ManifestValue) (key : Bytes) : Option ManifestValue :=
  (hash.children.find? fun item => item.1 == key).map Prod.snd

def diamondManifestGetString (hash : ManifestValue) (key : Bytes) (size : ℕ) : Option Bytes :=
  match diamondManifestGet hash key with
  | some (.string chars) => if chars.length < size then some chars else none
  | _ => none

def u64Loop : ℕ → Bytes → Option ℕ
  | result, [] => some result
  | result, c :: rest =>
    if (2 ^ 64 - 1 - digitValue c) / 10 < result then none
    else u64Loop (result * 10 + digitValue c) rest

def diamondManifestGetU64 (hash : ManifestValue) (key : Bytes) : Option ℕ :=
  match diamondManifestGet hash key with
  | some (.integer chars) => if chars.head? = some (byte '-') then none else u64Loop 0 chars
  | _ => none

def diamondManifestGetBool (hash : ManifestValue) (key : Bytes) : Option Bool :=
  match diamondManifestGet hash key with
  | some (.boolean value) => some value
  | _ => none

/-! ## Fields -/

def facetMaxName : ℕ := 64
def facetMaxUrl : ℕ := 512
def facetMaxRef : ℕ := 128
def facetMaxCommit : ℕ := 80
def facetMaxDependencies : ℕ := 64
def facetMaxArchiveSize : ℕ := 56 * 1024 * 1024

/-- What a failed call leaves in `error`.  The reports that no version satisfies the constraints on
a package are told apart from the rest. -/
inductive FacetError
  | message (text : String)
  | noVersion (name : Bytes) (text : String)

def shown (chars : Bytes) : String := String.ofList (chars.map fun c => Char.ofNat c.toNat)

abbrev Checked (α : Type) := Except FacetError α

def refuse {α : Type} (text : String) : Checked α := .error (.message text)

def isSafeField (chars : Bytes) : Bool :=
  chars.all fun c => c != byte '"' && c != byte '\\' && !decide (c < 0x20)

def publishableName (name : Bytes) : Bool :=
  match name with
  | [] => false
  | c :: rest =>
    decide (name.length < facetMaxName) && decide (97 ≤ c ∧ c ≤ 122) &&
    rest.all (fun c => decide (97 ≤ c ∧ c ≤ 122) || isDigit c || c == byte '_') &&
    !(name == text ['d', '6'] || name == text ['d', 'i', 'a', 'm', 'o', 'n', 'd'] ||
      name == text ['f', 'a', 'c', 'e', 't'] || name == text ['c', 'u', 't', 's'])

def validSha256 (chars : Bytes) : Bool :=
  chars.length == 64 && chars.all fun c => isDigit c || decide (97 ≤ c ∧ c ≤ 102)

def validRegistryUrl (url : Bytes) : Bool :=
  let scheme := text ['h', 't', 't', 'p', 's', ':', '/', '/']
  let authority := url.drop scheme.length
  let host := authority.takeWhile (· ≠ byte '/')
  scheme.isPrefixOf url && authority != [] && !url.contains (byte '?') &&
    !url.contains (byte '#') && !authority.contains (byte '@') && host != [] &&
    authority.drop host.length != [byte '/'] &&
    url.all fun c => decide (0x20 < c ∧ c < 0x7f)

def canonicalRegistryVersion (chars : Bytes) : Bool :=
  if chars.head? = some (byte 'v') ∨ chars.head? = some (byte 'V') ∨ chars.contains (byte '+') then
    false
  else
    match semverParse chars with
    | none => false
    | some parsed => decide ((semverFormat parsed).length < facetMaxRef) && chars == semverFormat parsed

inductive FacetSource
  | git
  | registry
  deriving DecidableEq, Repr

inductive FacetRefKind
  | tag
  | branch
  | commit
  deriving DecidableEq, Repr

/-! ## Dependencies -/

/-- C `FacetDependency`.  A dependency on an exact ref is one on a git repository. -/
structure FacetDependency where
  name : Bytes
  source : FacetSource
  git : Bytes
  registry : Bytes
  ref : Bytes
  refKind : FacetRefKind
  usesVersion : Bool
  versionText : Bytes
  exact_git : usesVersion = false → source = .git
  deriving DecidableEq

structure FacetManifest where
  name : Bytes
  version : Option Bytes
  dependencies : List FacetDependency
  deriving DecidableEq

/-- The ref of a dependency and how many of `tag`, `branch` and `commit` it has; the last one
counts. -/
def readRef (spec : ManifestValue) : Bytes × FacetRefKind × ℕ :=
  let step (key : List Char) (kind : FacetRefKind) (acc : Bytes × FacetRefKind × ℕ) :=
    match diamondManifestGetString spec (text key) facetMaxRef with
    | some ref => (ref, kind, acc.2.2 + 1)
    | none => acc
  step ['c', 'o', 'm', 'm', 'i', 't'] .commit
    (step ['b', 'r', 'a', 'n', 'c', 'h'] .branch (step ['t', 'a', 'g'] .tag ([], .tag, 0)))

def allowedKey (hasRegistry : Bool) (key : Bytes) : Bool :=
  key == text (if hasRegistry then ['r', 'e', 'g', 'i', 's', 't', 'r', 'y'] else ['g', 'i', 't']) ||
    key == text ['v', 'e', 'r', 's', 'i', 'o', 'n'] ||
    (!hasRegistry && (key == text ['t', 'a', 'g'] || key == text ['b', 'r', 'a', 'n', 'c', 'h'] ||
      key == text ['c', 'o', 'm', 'm', 'i', 't']))

def checkVersion (name : Bytes) : Option Bytes → Checked Unit
  | none => .ok ()
  | some versionText =>
    if ¬isSafeField versionText then
      refuse ("dependency '" ++ shown name ++ "' has an invalid 'version' constraint")
    else if semverConstraintParse versionText = none then
      refuse ("dependency '" ++ shown name ++ "' has an invalid 'version' constraint '" ++
        shown versionText ++ "'")
    else .ok ()

/-- What `parse_dependencies` requires of the keys of a dependency. -/
def checkKeys (name : Bytes) (hasRegistry : Bool) (spec : ManifestValue) : Checked Unit :=
  match spec.children.find? fun field => !allowedKey hasRegistry field.1 with
  | some field => refuse ("dependency '" ++ shown name ++ "' has unknown or mixed-source key '" ++
      shown field.1 ++ "'")
  | none => .ok ()

/-- The last checks on a dependency in `parse_dependencies`, and the dependency.  `refKeys` counts
the refs and the version. -/
def makeDependency (name : Bytes) (git registry version : Option Bytes) (ref : Bytes)
    (refKind : FacetRefKind) (refKeys : ℕ) : Checked FacetDependency :=
  if hregistry : registry.isSome ∧ (version = none ∨ refKeys ≠ 1) then
    refuse ("registry dependency '" ++ shown name ++
      "' must specify exactly one version constraint")
  else if refKeys ≠ 1 ∨ (version = none ∧ ¬isSafeField ref) then
    refuse ("dependency '" ++ shown name ++
      "' must specify exactly one of tag/branch/commit/version")
  else
    .ok {
      name := name
      source := if registry.isSome then .registry else .git
      git := git.getD []
      registry := registry.getD []
      ref := if version.isSome then [] else ref
      refKind := refKind
      usesVersion := version.isSome
      versionText := version.getD []
      exact_git := by
        intro hversion
        rw [Option.isSome_eq_false_iff, Option.isNone_iff_eq_none] at hversion
        rw [if_neg fun h => hregistry ⟨h, .inl hversion⟩] }

/-- One dependency of `parse_dependencies`, once there is room for it. -/
def parseDependency (name : Bytes) (spec : ManifestValue) : Checked FacetDependency := do
  if facetMaxName ≤ name.length then refuse "dependency name is too long"
  if ¬isSafeField name then
    refuse ("dependency name '" ++ shown name ++ "' contains an invalid character")
  let git := diamondManifestGetString spec (text ['g', 'i', 't']) facetMaxUrl
  let registry := diamondManifestGetString spec
    (text ['r', 'e', 'g', 'i', 's', 't', 'r', 'y']) facetMaxUrl
  if git.isSome = registry.isSome then
    refuse ("dependency '" ++ shown name ++ "' must specify exactly one of git or registry")
  if (git.any fun url => !isSafeField url) ∨ (registry.any fun url => !validRegistryUrl url) then
    refuse ("dependency '" ++ shown name ++ "' has an invalid source")
  let version := diamondManifestGetString spec
    (text ['v', 'e', 'r', 's', 'i', 'o', 'n']) facetMaxRef
  checkVersion name version
  checkKeys name registry.isSome spec
  let (ref, refKind, refs) := readRef spec
  makeDependency name git registry version ref refKind (refs + version.toList.length)

/-- `parse_dependencies`, after the dependencies that the manifest has already. -/
def parseDependencies : List FacetDependency → List (Bytes × ManifestValue) →
    Checked (List FacetDependency)
  | dependencies, [] => .ok dependencies
  | dependencies, (name, spec) :: rest => do
    match spec with
    | .hash _ =>
      if dependencies.length = facetMaxDependencies then refuse "too many dependencies (max 64)"
      let dependency ← parseDependency name spec
      parseDependencies (dependencies ++ [dependency]) rest
    | _ => refuse ("dependency spec for '" ++ shown name ++ "' must be a Hash")

def readDependencies (path : Bytes) (hash : ManifestValue) : Checked (List FacetDependency) :=
  match diamondManifestGet hash
      (text ['d', 'e', 'p', 'e', 'n', 'd', 'e', 'n', 'c', 'i', 'e', 's']) with
  | none => .ok []
  | some (.hash children) => parseDependencies [] children
  | some _ => refuse ("'" ++ shown path ++ "' key 'dependencies' must be a Hash")

def parseManifest (path : Bytes) (hash : ManifestValue) : Checked FacetManifest :=
  match diamondManifestGetString hash (text ['n', 'a', 'm', 'e']) facetMaxName with
  | none => refuse ("'" ++ shown path ++ "' must have a valid String 'name' key")
  | some name =>
    if ¬isSafeField name then refuse ("'" ++ shown path ++ "' must have a valid String 'name' key")
    else do
      let dependencies ← readDependencies path hash
      return ⟨name, diamondManifestGetString hash
        (text ['v', 'e', 'r', 's', 'i', 'o', 'n']) facetMaxName, dependencies⟩

/-! ## Resolved packages -/

structure FacetResolved where
  name : Bytes
  source : FacetSource
  git : Bytes
  registry : Bytes
  sha256 : Bytes
  size : ℕ
  ref : Bytes
  commit : Bytes
  version : Bytes
  requiredBy : Bytes
  deriving DecidableEq, Repr

end Diamond.Facet
