import Diamond.Facet.Graph

/-!
# A host

An executable machine for facet to run on: a disk, the git repositories it can reach, and no network
for `curl`.  Any call that changes the disk can fail.  The machine is `Faithful`, so what is assumed
of the system can be had, and runs of the model can be evaluated on it.
-/

namespace Diamond.Facet

open Option FileTree

open Codec (Bytes)
open Fallible (Keeps state_bind_apply)
open FileTree (Tree Apart under erase graft move occupied entry)

/-- What a path of the disk has. -/
inductive Entry
  | directory
  | file (data : ManifestValue)
  | repository (url commit : Bytes)

/-- A commit of a repository: its refs, its name and its files. -/
structure Snapshot where
  refs : List Bytes
  commit : Bytes
  files : Tree Bytes Entry

/-- A repository: its address, what it lists as tags, and its commits. -/
structure Remote where
  url : Bytes
  /-- The output of `git ls-remote --tags`. -/
  tags : Bytes
  snapshots : List Snapshot

/-- The disk, and which of the next calls fail on it. -/
structure Host where
  disk : Tree Bytes Entry
  /-- Whether the next calls that change the disk fail; after these, none does. -/
  faults : List Bool

def gitDirectory : Bytes := text ['.', 'g', 'i', 't']

/-- The files of a commit with the directory of `git`. -/
def Snapshot.tree (url : Bytes) (s : Snapshot) : Tree Bytes Entry :=
  ([gitDirectory], .repository url s.commit) :: s.files

section
variable (remotes : List Remote)

def findRemote (url : Bytes) : Option Remote := remotes.find? fun r => r.url == url

def findSnapshot (url ref : Bytes) : Option Snapshot := do
  let remote ← findRemote remotes url
  remote.snapshots.find? fun s => s.refs.contains ref

/-- Changes the disk, unless the call fails. -/
def change (f : Tree Bytes Entry → Option (Tree Bytes Entry)) : StateM Host Bool := fun h =>
  if h.faults.headD false then (false, { h with faults := h.faults.tail })
  else
    match f h.disk with
    | some disk => (true, ⟨disk, h.faults.tail⟩)
    | none => (false, { h with faults := h.faults.tail })

/-- There is nothing at a path, or an empty directory. -/
def vacant (p : List Bytes) (disk : Tree Bytes Entry) : Bool :=
  match under p disk with
  | [] => true
  | [([], .directory)] => true
  | _ => false

def readFile (p : List Bytes) (disk : Tree Bytes Entry) : Except String ManifestValue :=
  match entry p disk with
  | some (.file data) => .ok data
  | _ => .error "cannot open the file"

def mkdir (p : List Bytes) (disk : Tree Bytes Entry) : Option (Tree Bytes Entry) :=
  if occupied p disk then some disk else some (disk ++ [(p, .directory)])

def unlink (p : List Bytes) (disk : Tree Bytes Entry) : Option (Tree Bytes Entry) :=
  match under p disk with
  | [([], .file _)] => some (erase p disk)
  | _ => none

def renameTo (p q : List Bytes) (disk : Tree Bytes Entry) : Option (Tree Bytes Entry) :=
  if occupied p disk && vacant q disk && decide (Apart p q) then some (move p q disk) else none

/-- Clones a repository at its first commit. -/
def cloneTo (url : Bytes) (p : List Bytes) (disk : Tree Bytes Entry) :
    Option (Tree Bytes Entry) := do
  let remote ← findRemote remotes url
  let snapshot ← remote.snapshots.head?
  if vacant p disk then some (graft p (snapshot.tree url) disk) else none

/-- Replaces the files of a clone by those of another commit. -/
def checkoutAt (p : List Bytes) (ref : Bytes) (disk : Tree Bytes Entry) :
    Option (Tree Bytes Entry) :=
  match entry (p ++ [gitDirectory]) disk with
  | some (.repository url _) => (findSnapshot remotes url ref).map fun s => graft p (s.tree url) disk
  | _ => none

/-- The calls of the resolver on this host. -/
def hostOs : Os Host where
  fileExists path := fun h => (occupied (normal path) h.disk, h)
  regularSize path := fun h =>
    (match entry (normal path) h.disk with
      | some (.file _) => some 1
      | _ => none, h)
  ensureDirectory path := change (mkdir (normal path))
  removeTree path := change fun disk => some (erase (normal path) disk)
  remove path := change (unlink (normal path))
  rename source target := change (renameTo (normal source) (normal target))
  gitClone url path := change (cloneTo remotes url (normal path))
  gitCheckout path ref := change (checkoutAt remotes (normal path) ref)
  gitRevParse path := fun h =>
    (match entry (normal path ++ [gitDirectory]) h.disk with
      | some (.repository _ commit) => some commit
      | _ => none, h)
  gitLsRemote url := fun h => ((findRemote remotes url).map Remote.tags, h)
  curl _ _ _ := fun h => (false, h)
  readHash path := fun h => (readFile (normal path) h.disk, h)

def fileOf (name : Bytes) (files : Tree Bytes Entry) : Option (Except String ManifestValue) :=
  if occupied [name] files then some (readFile [name] files) else none

/-- The manifests of a commit. -/
def checkoutOf (files : Tree Bytes Entry) : Checkout :=
  ⟨fileOf cutManifest files, fileOf legacyCutManifest files⟩

/-- What the host has for each dependency. -/
def hostAvailable : Available where
  checkout url ref :=
    ((findSnapshot remotes url ref).map fun s => checkoutOf (s.tree url)).getD ⟨none, none⟩
  tags url := ((findRemote remotes url).map Remote.tags).getD []
  metadata _ := .other

/-- The disk has the commit where the resolver puts the package. -/
def HostAt (scratchRoot : Bytes) (h : Host) (name url ref : Bytes) : Prop :=
  ∃ s, findSnapshot remotes url ref = some s ∧ under (staging scratchRoot name) h.disk = s.tree url

end

/-! ## The host is faithful -/

variable {disk disk' : Tree Bytes Entry}

section
variable {f : Tree Bytes Entry → Option (Tree Bytes Entry)} {h : Host} {p q : List Bytes}

lemma change_true (hrun : (change f h).1 = true) : f h.disk = some (change f h).2.disk := by
  rw [change] at hrun ⊢
  split_ifs at hrun ⊢ with hfault
  cases hf : f h.disk with
  | none =>
    rw [hf] at hrun
    cases hrun
  | some => rfl

lemma cloneTo_some {remotes url} (hrun : cloneTo remotes url p disk = some disk') :
    ∃ s : Snapshot, disk' = graft p (s.tree url) disk := by
  simp only [cloneTo, bind_eq_bind, bind_eq_some_iff] at hrun
  obtain ⟨_, _, s, _, hrun⟩ := hrun
  split_ifs at hrun
  exact ⟨s, (some.inj hrun).symm⟩

lemma checkoutAt_some {remotes ref} (hrun : checkoutAt remotes p ref disk = some disk') :
    ∃ url commit s, entry (p ++ [gitDirectory]) disk = some (.repository url commit) ∧
      findSnapshot remotes url ref = some s ∧ disk' = graft p (s.tree url) disk := by
  rw [checkoutAt.eq_def] at hrun
  split at hrun
  · rename_i url commit hentry
    obtain ⟨s, hs, rfl⟩ := map_eq_some_iff.1 hrun
    exact ⟨url, commit, s, hentry, hs, rfl⟩
  · cases hrun

lemma entry_tree (url : Bytes) (s : Snapshot) :
    entry [gitDirectory] (s.tree url) = some (.repository url s.commit) := by
  simp [entry, under, Snapshot.tree]

end

section
variable {remotes : List Remote} (P : Tree Bytes Entry → Prop)

lemma change_keeps {f} (hf : ∀ disk disk', P disk → f disk = some disk' → P disk') :
    Keeps (fun h => P h.disk) (change f) := by
  intro h hP
  rw [change]
  split_ifs
  · exact hP
  · cases hdisk : f h.disk with
    | none => exact hP
    | some => exact hf _ _ hP hdisk

/-- Reading changes nothing on the disk. -/
lemma hostOs_quiet : Quiet (hostOs remotes) fun h => P h.disk where
  fileExists _ _ hP := hP
  regularSize _ _ hP := hP
  gitRevParse _ _ hP := hP
  gitLsRemote _ _ hP := hP
  readHash _ _ hP := hP

end

section
variable {remotes : List Remote} {h : Host} {url ref path : Bytes}

lemma hostOs_gitClone_true (hrun : ((hostOs remotes).gitClone url path h).1 = true) :
    ∃ s : Snapshot, under (normal path) ((hostOs remotes).gitClone url path h).2.disk = s.tree url := by
  obtain ⟨s, hdisk⟩ := cloneTo_some (change_true hrun)
  exact ⟨s, (congrArg _ hdisk).trans under_graft_self⟩

lemma hostOs_gitCheckout_true {c : Snapshot} (hcloned : under (normal path) h.disk = c.tree url)
    (hrun : ((hostOs remotes).gitCheckout path ref h).1 = true) :
    ∃ s, findSnapshot remotes url ref = some s ∧
      under (normal path) ((hostOs remotes).gitCheckout path ref h).2.disk = s.tree url := by
  obtain ⟨_, _, s, hentry, hs, hdisk⟩ := checkoutAt_some (change_true hrun)
  rw [← entry_under, hcloned, entry_tree] at hentry
  cases hentry
  exact ⟨s, hs, (congrArg _ hdisk).trans under_graft_self⟩

lemma hostOs_gitClone_ok (hrun : (gitClone (hostOs remotes) url ref path h).1 = .ok ()) :
    ∃ s, findSnapshot remotes url ref = some s ∧
      under (normal path) (gitClone (hostOs remotes) url ref path h).2.disk = s.tree url := by
  rw [gitClone, state_bind_apply, state_bind_apply] at hrun ⊢
  split_ifs at hrun ⊢ with hclone
  · rw [state_bind_apply] at hrun ⊢
    split_ifs at hrun ⊢ with hcheckout
    · obtain ⟨c, hcloned⟩ := hostOs_gitClone_true hclone
      exact hostOs_gitCheckout_true hcloned hcheckout
    · cases hrun
  · cases hrun

/-- A clone leaves the paths apart from its own alone. -/
lemma hostOs_gitClone_keeps {q t} (hapart : Apart (normal path) q) :
    Keeps (fun h => under q h.disk = t) (gitClone (hostOs remotes) url ref path) := by
  let P (disk : Tree Bytes Entry) := under q disk = t
  refine gitClone_keeps (hostOs_quiet P) (change_keeps P ?_) (change_keeps P ?_) (change_keeps P ?_)
  · rintro disk _ hdisk ⟨⟩
    exact (under_erase hapart).trans hdisk
  · intro disk _ hdisk hclone
    obtain ⟨s, rfl⟩ := cloneTo_some hclone
    exact (under_graft hapart).trans hdisk
  · intro disk _ hdisk hcheckout
    obtain ⟨_, _, s, _, _, rfl⟩ := checkoutAt_some hcheckout
    exact (under_graft hapart).trans hdisk

/-- A checkout cannot be removed as a file. -/
lemma unlink_keeps {p q} {s : Snapshot} (hp : p = q ∨ ¬q <+: p)
    (hdisk : under q disk = s.tree url) (hrun : unlink p disk = some disk') :
    under q disk' = s.tree url := by
  rw [unlink.eq_def] at hrun
  split at hrun
  · rename_i data hfile
    cases hrun
    have hbelow : ¬p <+: q := by
      rintro ⟨r, rfl⟩
      rw [← under_under, hfile] at hdisk
      cases r <;> simp [under, Snapshot.tree] at hdisk
    have hapart : Apart p q := by
      refine ⟨hbelow, ?_⟩
      rcases hp with rfl | hp
      · exact absurd (List.prefix_refl p) hbelow
      · exact hp
    rw [under_erase hapart, hdisk]
  · cases hrun

end

/-! ## The assumptions -/

section
variable {remotes : List Remote} {scratchRoot : Bytes}

lemma isComponent_cutManifest : IsComponent cutManifest := by
  constructor <;> decide

lemma isComponent_legacyCutManifest : IsComponent legacyCutManifest := by
  constructor <;> decide

/-- The manifest that is read is that of the commit. -/
lemma HostAt.file {h n url ref name} (hat : HostAt remotes scratchRoot h n url ref)
    (hname : IsComponent name) :
    ∃ s : Snapshot, (hostAvailable remotes).checkout url ref = checkoutOf (s.tree url) ∧
      occupied (normal (join (join scratchRoot n) name)) h.disk =
        (fileOf name (s.tree url)).isSome ∧ ∀ data, fileOf name (s.tree url) = some data →
        readFile (normal (join (join scratchRoot n) name)) h.disk = data := by
  obtain ⟨s, hs, hunder⟩ := hat
  rw [staging] at hunder
  have hoccupied : occupied (normal (join (join scratchRoot n) name)) h.disk =
      occupied [name] (s.tree url) := by
    rw [hname.normal_join, ← FileTree.occupied_under, hunder]
  have hread : readFile (normal (join (join scratchRoot n) name)) h.disk =
      readFile [name] (s.tree url) := by
    rw [readFile, readFile, hname.normal_join, ← FileTree.entry_under, hunder]
  refine ⟨s, ?_, ?_, fun data hdata => ?_⟩
  · rw [hostAvailable]
    dsimp only
    rw [hs]
    rfl
  · rw [hoccupied, fileOf]
    split_ifs with hfile
    · exact hfile
    · exact Bool.eq_false_iff.2 hfile
  · rw [fileOf] at hdata
    split_ifs at hdata
    rw [hread]
    exact some.inj hdata

/-- The host keeps what the resolver assumes of it. -/
lemma hostOs_faithful :
    Faithful (hostOs remotes) scratchRoot (hostAvailable remotes) (HostAt remotes scratchRoot) where
  quiet n url ref := hostOs_quiet fun disk => ∃ s, findSnapshot remotes url ref = some s ∧
    under (staging scratchRoot n) disk = s.tree url
  fetch_keeps url m path hpath n url' ref' hseparate := by
    rintro h ⟨s, hs, hunder⟩
    let P (disk : Tree Bytes Entry) := under (staging scratchRoot n) disk = s.tree url'
    have hunlink : ∀ disk disk', P disk → unlink (normal path) disk = some disk' → P disk' :=
      fun disk disk' hdisk hrun => unlink_keeps (hseparate.file path hpath) hdisk hrun
    exact ⟨s, hs, fetchRegistryHash_keeps (hostOs_quiet P) (change_keeps P hunlink)
      (fun _ _ hP => hP) h hunder⟩
  clone_delivers h url ref n hrun := hostOs_gitClone_ok hrun
  clone_keeps url ref m n url' ref' hseparate := by
    rintro h ⟨s, hs, hunder⟩
    exact ⟨s, hs, hostOs_gitClone_keeps hseparate.directory h hunder⟩
  exists_current h n url ref hat := by
    obtain ⟨s, hcheckout, hoccupied, _⟩ := hat.file isComponent_cutManifest
    rw [hcheckout]
    exact hoccupied
  exists_legacy h n url ref hat := by
    obtain ⟨s, hcheckout, hoccupied, _⟩ := hat.file isComponent_legacyCutManifest
    rw [hcheckout]
    exact hoccupied
  read_current h n url ref data hat hdata := by
    obtain ⟨s, hcheckout, _, hread⟩ := hat.file isComponent_cutManifest
    rw [hcheckout] at hdata
    exact hread data hdata
  read_legacy h n url ref data hat hdata := by
    obtain ⟨s, hcheckout, _, hread⟩ := hat.file isComponent_legacyCutManifest
    rw [hcheckout] at hdata
    exact hread data hdata
  lists_tags h url output hrun := by
    have hrun' : (findRemote remotes url).map Remote.tags = some output := hrun
    rw [hostAvailable]
    dsimp only
    rw [hrun', getD_some]
  fetch_metadata h url path data hrun := nomatch hrun

lemma findSnapshot_some {url ref s} (h : findSnapshot remotes url ref = some s) :
    ∃ r ∈ remotes, r.url = url ∧ s ∈ r.snapshots := by
  simp only [findSnapshot, bind_eq_bind, bind_eq_some_iff] at h
  obtain ⟨r, hr, hs⟩ := h
  exact ⟨r, List.mem_of_find?_eq_some hr, by simpa using List.find?_some hr,
    List.mem_of_find?_eq_some hs⟩

/-- The names in play on a host are those of the root and of the commits that it can reach. -/
lemma InPlay.on_host {P : Bytes → Prop} {root} {name : Bytes} (hroot : ∀ d ∈ root, P d.name)
    (hremotes : ∀ r ∈ remotes, ∀ s ∈ r.snapshots,
      ∀ d ∈ ((checkoutOf (s.tree r.url)).manifest.map FacetManifest.dependencies).getD [], P d.name)
    (h : InPlay (hostAvailable remotes) root name) : P name := by
  obtain ⟨d, hwanted, rfl⟩ := h
  cases hwanted with
  | root hd => exact hroot _ hd
  | @through _ package _ _ _ hd =>
    rw [Available.dependencies] at hd
    cases hsource : package.source with rw [hsource] at hd
    | registry => cases hd
    | git =>
      cases hs : findSnapshot remotes package.git package.ref with
      | none => simp [hostAvailable, hs, Checkout.manifest] at hd
      | some s =>
        obtain ⟨r, hr, hurl, hmem⟩ := findSnapshot_some hs
        refine hremotes r hr s hmem d ?_
        rw [hurl]
        simpa [hostAvailable, hs] using hd

end

end Diamond.Facet
