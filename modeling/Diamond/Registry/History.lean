import Diamond.Registry.Publish

/-!
# What the registry keeps

Rows of packages, releases and keys are only ever added, and a blob that is stored stays as it is.
From this and from what a transaction checks follows what holds of every history of calls.
-/

namespace Diamond.Registry

open List Database

open Relation (ReflTransGen)

variable {D : Type}

/-! ## What only grows -/

def Release.row (release : Release D) : ℕ × ℕ × String × D × ℕ :=
  (release.id, release.cutId, release.version, release.sha256, release.size)

/-- Rows are only added. -/
structure Grown (db db' : Database D) : Prop where
  cuts : db.cuts <+: db'.cuts
  rows : db.releases.map Release.row <+: db'.releases.map Release.row
  keys : db.idempotencyKeys <+: db'.idempotencyKeys

lemma Grown.refl (db : Database D) : Grown db db := ⟨prefix_rfl, prefix_rfl, prefix_rfl⟩

variable {db db' : Database D} {call : Call} {credential : Credential D} {s t : State D}

lemma Grown.trans {db''} (h : Grown db db') (h' : Grown db' db'') : Grown db db'' :=
  ⟨h.cuts.trans h'.cuts, h.rows.trans h'.rows, h.keys.trans h'.keys⟩

/-- Stored blobs stay. -/
def Kept (blobs blobs' : Blobs D) : Prop := ∀ d bytes, blobs d = some bytes → blobs' d = some bytes

lemma Kept.refl (blobs : Blobs D) : Kept blobs blobs := fun _ _ h => h

lemma find?_grown {α : Type} {p : α → Bool} {xs ys : List α} {x : α} (h : xs <+: ys)
    (hfind : xs.find? p = some x) : ys.find? p = some x := by
  obtain ⟨_, rfl⟩ := h
  rw [find?_append, hfind, Option.some_or]

lemma release_sha256 (db : Database D) (cutId : ℕ) (version : String) :
    (db.release cutId version).map Release.sha256 =
      ((db.releases.map Release.row).find? fun row => row.2.1 = cutId ∧ row.2.2.1 = version).map
        fun row => row.2.2.2.1 := by
  rw [release, find?_map, Option.map_map]
  rfl

lemma Grown.digest (h : Grown db db') {name version d}
    (hd : db.digest name version = some d) : db'.digest name version = some d := by
  rw [Database.digest] at hd ⊢
  obtain ⟨cut, hcut, hrelease⟩ := Option.bind_eq_some_iff.1 hd
  refine Option.bind_eq_some_iff.2 ⟨cut, find?_grown h.cuts hcut, ?_⟩
  rw [release_sha256] at hrelease ⊢
  obtain ⟨_, hrow, rfl⟩ := Option.map_eq_some_iff.1 hrelease
  rw [find?_grown h.rows hrow]
  rfl

lemma Grown.idempotencyKey (h : Grown db db') {credentialId key row}
    (hrow : db.idempotencyKey credentialId key = some row) :
    db'.idempotencyKey credentialId key = some row :=
  find?_grown h.keys hrow

/-! ## What a transaction does -/

variable [DecidableEq D] {sha256 : Bytes → D}

/-- The credential may publish the package, and the key has not been used for another body. -/
structure Authorized (sha256 : Bytes → D) (db : Database D) (call : Call) (now : ℤ)
    (credential : Credential D) : Prop where
  mem : credential ∈ db.credentials
  token : credential.tokenDigest = sha256 call.token
  active : credential.active now = true
  allows : credential.allows ("publish:" ++ call.name) = true
  owner : ∀ cut, db.cut call.name = some cut → db.isOwner cut.id credential.subject = true
  key : call.key ≠ "" → ∀ row, db.idempotencyKey credential.id call.key = some row →
    row.bodySha256 = sha256 call.bytes

lemma authorize_ok {now} (h : db.authorize sha256 call now = .ok credential) :
    Authorized sha256 db call now credential := by
  rw [authorize] at h
  split at h
  · cases h
  · next _ hfound =>
    split at h
    · cases h
    · next hallows =>
      split at h
      · cases h
      · next howner =>
        split at h
        · cases h
        · next hkey =>
          cases h
          rw [activeCredential] at hfound
          split at hfound
          · cases hfound
          obtain ⟨hmem, hactive⟩ := Option.filter_eq_some_iff.1 hfound
          refine ⟨mem_of_find?_eq_some hmem, by simpa using find?_some hmem, hactive,
            by simpa using hallows, ?_, ?_⟩
          · intro _ hcut
            simpa [hcut] using howner
          · intro hne _ hrow
            simpa [hne, hrow] using hkey

lemma storeBlob_ok {blobs blobs' bytes}
    (h : storeBlob sha256 blobs (sha256 bytes) bytes = .ok blobs') :
    Kept blobs blobs' ∧ blobs' (sha256 bytes) = some bytes := by
  rw [storeBlob] at h
  split at h
  · next _ hstored =>
    split at h
    · cases h
    split at h
    · cases h
    · next hsame =>
      cases h
      rw [not_not] at hsame
      exact ⟨.refl _, by rw [hstored, hsame]⟩
  · next hnone =>
    split at h
    · cases h
    cases h
    refine ⟨fun d _ hd => ?_, Function.update_self _ _ _⟩
    rcases eq_or_ne d (sha256 bytes) with rfl | hne
    · cases hnone.symm.trans hd
    · rw [Function.update_of_ne hne]
      exact hd

/-- A package is there after it was claimed; one that was there before is left as it is, and a new one
belongs to the credential's subject. -/
structure Claimed (db db' : Database D) (cut : Cut) (name : String) (credential : Credential D) :
    Prop where
  mem : cut ∈ db'.cuts
  named : cut.name = name
  fresh : db.cut name = some cut ∨ db'.isOwner cut.id credential.subject = true ∧ cut ∉ db.cuts
  owners : db.owners <+: db'.owners
  cuts : db.cuts <+: db'.cuts
  releases : db'.releases = db.releases
  keys : db'.idempotencyKeys = db.idempotencyKeys

omit [DecidableEq D] in
lemma claim_claimed (db : Database D) (name : String) (credential : Credential D) (now : ℤ) :
    Claimed db (db.claim name credential now).1 (db.claim name credential now).2 name
      credential := by
  rw [claim]
  split
  · next _ hcut =>
    exact ⟨mem_of_find?_eq_some hcut, by simpa using find?_some hcut, .inl hcut,
      prefix_rfl, prefix_rfl, rfl, rfl⟩
  · next hnone =>
    refine ⟨mem_append_right _ (mem_singleton_self _), rfl, .inr ⟨?_, ?_⟩,
      prefix_append _ _, prefix_append _ _, rfl, rfl⟩
    · exact any_eq_true.2 ⟨_, mem_append_right _ (mem_singleton_self _), by simp⟩
    · intro hmem
      simpa using find?_eq_none.1 hnone _ hmem

/-- What `store` leaves behind when it does not raise. -/
structure Stored (sha256 : Bytes → D) (db db' : Database D) (blobs' : Blobs D) (call : Call)
    (credential : Credential D) : Prop where
  grown : Grown db db'
  owners : db.owners <+: db'.owners
  blob : blobs' (sha256 call.bytes) = some call.bytes
  key : call.key ≠ "" → ∃ row, db'.idempotencyKey credential.id call.key = some row ∧
    (db.idempotencyKey credential.id call.key = some row ∨ row.bodySha256 = sha256 call.bytes)
  added : ∀ r ∈ db'.releases, r ∈ db.releases ∨
    r.sha256 = sha256 call.bytes ∧ r.size = call.bytes.length ∧
      ∃ cut ∈ db'.cuts, cut.id = r.cutId ∧ cut.name = call.name ∧
        (db.cut call.name = some cut ∨ db'.isOwner cut.id credential.subject = true ∧ cut ∉ db.cuts)

omit [DecidableEq D] in
lemma insertKey_frame (db : Database D) (credential : Credential D) (key : String) (digest : D)
    (now : ℤ) : (db.insertKey credential key digest now).cuts = db.cuts ∧
    (db.insertKey credential key digest now).owners = db.owners ∧
    (db.insertKey credential key digest now).releases = db.releases ∧
    db.idempotencyKeys <+: (db.insertKey credential key digest now).idempotencyKeys := by
  rw [insertKey]
  split
  · exact ⟨rfl, rfl, rfl, prefix_rfl⟩
  · exact ⟨rfl, rfl, rfl, prefix_append _ _⟩

omit [DecidableEq D] in
lemma insertKey_key (db : Database D) (credential : Credential D) {key} (digest : D)
    (now : ℤ) (hkey : key ≠ "") :
    ∃ row, (db.insertKey credential key digest now).idempotencyKey credential.id key = some row ∧
      (db.idempotencyKey credential.id key = some row ∨ row.bodySha256 = digest) := by
  rw [insertKey]
  split
  · next h =>
    obtain ⟨row, hrow⟩ := Option.isSome_iff_exists.1 (h.resolve_left hkey)
    exact ⟨row, hrow, .inl hrow⟩
  · next h =>
    rw [not_or] at h
    have hnone : db.idempotencyKey credential.id key = none := by simpa using h.2
    refine ⟨⟨credential.id, key, digest, now⟩, ?_, .inr rfl⟩
    rw [idempotencyKey] at hnone ⊢
    rw [find?_append, hnone]
    simp

lemma insertRelease_ok {cut archive digest bytes now}
    (h : db.insertRelease cut archive digest bytes credential now = .ok db') :
    db'.cuts = db.cuts ∧ db'.owners = db.owners ∧ db'.idempotencyKeys = db.idempotencyKeys ∧
    db.releases <+: db'.releases ∧ ∀ r ∈ db'.releases, r ∈ db.releases ∨
      r.sha256 = digest ∧ r.size = bytes.length ∧ r.cutId = cut.id := by
  rw [insertRelease] at h
  split at h
  · cases h
  cases h
  refine ⟨rfl, rfl, rfl, prefix_append _ _, fun r hr => ?_⟩
  rcases mem_append.1 hr with hold | hnew
  · exact .inl hold
  · rw [mem_singleton.1 hnew]
    exact .inr ⟨rfl, rfl, rfl⟩

omit [DecidableEq D] in
/-- The last statements of `store`, after at most one row was added to the releases. -/
lemma Claimed.stored {db₁ db₂ : Database D} {blobs'} {cut : Cut}
    (hclaim : Claimed db db₁ cut call.name credential) (hcuts : db₂.cuts = db₁.cuts)
    (howners : db₂.owners = db₁.owners) (hkeys : db₂.idempotencyKeys = db₁.idempotencyKeys)
    (hrows : db₁.releases <+: db₂.releases) (hadded : ∀ r ∈ db₂.releases, r ∈ db₁.releases ∨
      r.sha256 = sha256 call.bytes ∧ r.size = call.bytes.length ∧ r.cutId = cut.id)
    (hblob : blobs' (sha256 call.bytes) = some call.bytes) (now : ℤ) :
    Stored sha256 db (db₂.insertKey credential call.key (sha256 call.bytes) now) blobs' call
      credential := by
  obtain ⟨hcuts', howners', hreleases', hkeys'⟩ :=
    insertKey_frame db₂ credential call.key (sha256 call.bytes) now
  have hlookup : db₂.idempotencyKey = db.idempotencyKey := by
    funext credentialId key
    rw [idempotencyKey, idempotencyKey, hkeys, hclaim.keys]
  constructor
  case grown =>
    refine ⟨?_, ?_, ?_⟩
    · rw [hcuts', hcuts]
      exact hclaim.cuts
    · rw [hreleases', ← hclaim.releases]
      exact hrows.map _
    · rw [← hclaim.keys, ← hkeys]
      exact hkeys'
  case owners =>
    rw [howners', howners]
    exact hclaim.owners
  case blob => exact hblob
  case key =>
    intro hkey
    rw [← hlookup]
    exact insertKey_key db₂ credential _ now hkey
  case added =>
    intro r hr
    rw [hreleases'] at hr
    rcases hadded r hr with hold | ⟨hsha256, hsize, hcut⟩
    · rw [hclaim.releases] at hold
      exact .inl hold
    · refine .inr ⟨hsha256, hsize, cut, by rw [hcuts', hcuts]; exact hclaim.mem, hcut.symm,
        hclaim.named, ?_⟩
      rw [isOwner, howners', howners]
      exact hclaim.fresh

/-- Whatever `store` does, stored blobs stay. -/
lemma store_spec {blobs blobs' archive now result}
    (h : db.store sha256 blobs call (sha256 call.bytes) credential archive now = (result, blobs')) :
    Kept blobs blobs' ∧ ∀ db' response, result = .ok (db', response) →
      Stored sha256 db db' blobs' call credential := by
  have hclaim := claim_claimed db call.name credential now
  rw [store] at h
  generalize db.claim call.name credential now = claimed at h hclaim
  obtain ⟨_, _⟩ := claimed
  dsimp only at h hclaim
  split at h
  -- before a release is added, and before one is found again, a check and the blob may fail
  all_goals
    split at h
    · cases h
      exact ⟨.refl _, by simp⟩
    split at h
    · cases h
      exact ⟨.refl _, by simp⟩
  · next hstored =>
    obtain ⟨hkept, hblob⟩ := storeBlob_ok hstored
    split at h
    · cases h
      exact ⟨hkept, by simp⟩
    · next _ hinsert =>
      cases h
      refine ⟨hkept, fun db' response hresult => ?_⟩
      cases hresult
      obtain ⟨hcuts, howners, hkeys, hrows, hadded⟩ := insertRelease_ok hinsert
      exact hclaim.stored hcuts howners hkeys hrows hadded hblob now
  · next hstored =>
    obtain ⟨hkept, hblob⟩ := storeBlob_ok hstored
    cases h
    refine ⟨hkept, fun db' response hresult => ?_⟩
    cases hresult
    exact hclaim.stored rfl rfl rfl prefix_rfl (fun r hr => .inl hr) hblob now

/-! ## What a step does -/

/-- The rows that matter are as before. -/
structure Unchanged (db db' : Database D) : Prop where
  cuts : db'.cuts = db.cuts
  rows : db'.releases.map Release.row = db.releases.map Release.row
  keys : db'.idempotencyKeys = db.idempotencyKeys

omit [DecidableEq D] in
lemma Unchanged.grown (h : Unchanged db db') : Grown db db' :=
  ⟨h.cuts ▸ prefix_rfl, h.rows ▸ prefix_rfl, h.keys ▸ prefix_rfl⟩

/-- A step accepts no call and leaves the tables, or it accepts one. -/
inductive Stepped (sha256 : Bytes → D) (s t : State D) : Prop
  | quiet (kept : Kept s.blobs t.blobs) (unchanged : Unchanged s.db t.db)
      (log : ∀ credentialId call response, .accepted credentialId call response ∈ t.log →
        .accepted credentialId call response ∈ s.log)
  | accepted (kept : Kept s.blobs t.blobs) (call : Call) (now : ℤ) (credential : Credential D)
      (response : Response D) (authorized : Authorized sha256 s.db call now credential)
      (stored : Stored sha256 s.db t.db t.blobs call credential)
      (log : t.log = s.log ++ [.accepted credential.id call response])

section
omit [DecidableEq D]

lemma mem_log_refused {log : List (Entry D)} {call' : Call} {failure : Failure} {credentialId : ℕ}
    {response : Response D}
    (h : .accepted credentialId call response ∈ log ++ [.refused call' failure]) :
    .accepted credentialId call response ∈ log := by
  rcases mem_append.1 h with h | h
  · exact h
  · cases mem_singleton.1 h

lemma Unchanged.refl (db : Database D) : Unchanged db db := ⟨rfl, rfl, rfl⟩

lemma stepped_refused {failure} (hdb : t.db = s.db) (hblobs : Kept s.blobs t.blobs)
    (hlog : t.log = s.log ++ [.refused call failure]) : Stepped sha256 s t := by
  refine .quiet hblobs (hdb ▸ Unchanged.refl _) fun _ call _ h => ?_
  rw [hlog] at h
  exact mem_log_refused h

end

lemma transaction_stepped (s : State D) (call : Call) (archive : Archive) (now : ℤ)
    (fault : Fault) : Stepped sha256 s (s.transaction sha256 call archive now fault) := by
  rw [State.transaction]
  split
  · exact stepped_refused rfl (.refl _) rfl
  split
  · exact stepped_refused rfl (.refl _) rfl
  · next credential hcredential =>
    split
    · next hstore => exact stepped_refused rfl (store_spec hstore).1 rfl
    · next hstore =>
      obtain ⟨hkept, hstored⟩ := store_spec hstore
      split
      · exact stepped_refused rfl hkept rfl
      · exact .accepted hkept call now credential _ (authorize_ok hcredential) (hstored _ _ rfl) rfl

omit [DecidableEq D] in
lemma updateRelease_unchanged (db : Database D) (id : ℕ) {change}
    (hchange : ∀ r, (change r).row = r.row) : Unchanged db (db.updateRelease id change) := by
  refine ⟨rfl, ?_, rfl⟩
  rw [updateRelease, map_map]
  refine map_congr_left fun r _ => ?_
  rw [Function.comp_apply]
  split
  · exact hchange r
  · rfl

lemma perform_stepped {action} (h : s.perform sha256 action = some t) : Stepped sha256 s t := by
  cases action with
  | start call now verified =>
    cases hprecheck : s.db.precheck sha256 call now with
    | error =>
      simp only [State.perform, hprecheck] at h
      cases h
      exact stepped_refused rfl (.refl _) rfl
    | ok =>
      cases verified with simp only [State.perform, hprecheck] at h
      | error =>
        cases h
        exact stepped_refused rfl (.refl _) rfl
      | ok =>
        cases h
        exact .quiet (.refl _) (.refl _) fun _ _ _ h => h
  | finish index now fault =>
    rw [State.perform] at h
    split at h
    · cases h
    · next ended hended =>
      cases h
      have hstepped : Stepped sha256 { s with inFlight := s.inFlight.eraseIdx index } _ :=
        transaction_stepped _ ended.1 ended.2 now fault
      cases hstepped with
      | quiet kept unchanged log => exact .quiet kept unchanged log
      | accepted kept call now credential response authorized stored log =>
        exact .accepted kept call now credential response authorized stored log
  | setYanked id | takeDown id =>
    cases h
    exact .quiet (.refl _) (updateRelease_unchanged _ id fun _ => rfl) fun _ _ _ h => h
  | addOwner | removeOwner | revoke =>
    cases h
    exact .quiet (.refl _) ⟨rfl, rfl, rfl⟩ fun _ _ _ h => h

omit [DecidableEq D] in
lemma Stepped.grown (h : Stepped sha256 s t) : Grown s.db t.db := by
  cases h with
  | quiet _ unchanged => exact unchanged.grown
  | accepted _ _ _ _ _ _ stored => exact stored.grown

/-! ## Histories -/

/-- What holds in every state. -/
structure Consistent (sha256 : Bytes → D) (s : State D) : Prop where
  /-- Every release has its blob. -/
  blob : ∀ r ∈ s.db.releases, ∃ bytes, s.blobs r.sha256 = some bytes ∧ sha256 bytes = r.sha256 ∧
    bytes.length = r.size
  /-- The key of an accepted call is recorded with the body's digest, and the body is stored. -/
  keyed : ∀ credentialId call response, .accepted credentialId call response ∈ s.log →
    call.key ≠ "" → s.blobs (sha256 call.bytes) = some call.bytes ∧
      ∃ row, s.db.idempotencyKey credentialId call.key = some row ∧
        row.bodySha256 = sha256 call.bytes
  /-- Calls that were accepted for one credential and key had one body. -/
  once : ∀ credentialId call call' response response',
    .accepted credentialId call response ∈ s.log → .accepted credentialId call' response' ∈ s.log →
    call.key ≠ "" → call.key = call'.key → call.bytes = call'.bytes

omit [DecidableEq D] in
lemma Consistent.step (hs : Consistent sha256 s) (h : Stepped sha256 s t) :
    Consistent sha256 t := by
  cases h with
  | quiet kept unchanged log =>
    constructor
    case blob =>
      intro r hr
      have hrow : r.row ∈ s.db.releases.map Release.row := by
        rw [← unchanged.rows]
        exact mem_map_of_mem hr
      obtain ⟨q, hq, hqr⟩ := mem_map.1 hrow
      obtain ⟨bytes, hbytes, hdigest, hsize⟩ := hs.blob q hq
      simp only [Release.row, Prod.mk.injEq] at hqr
      obtain ⟨-, -, -, hsha256, hsize'⟩ := hqr
      exact ⟨bytes, kept _ _ (hsha256 ▸ hbytes), hsha256 ▸ hdigest, hsize' ▸ hsize⟩
    case keyed =>
      intro credentialId call response hmem hkey
      obtain ⟨hblob, row, hrow, hbody⟩ := hs.keyed _ _ _ (log _ _ _ hmem) hkey
      exact ⟨kept _ _ hblob, row, unchanged.grown.idempotencyKey hrow, hbody⟩
    case once =>
      intro credentialId call _ response _ hmem hmem'
      exact hs.once _ _ _ _ _ (log _ _ _ hmem) (log _ _ _ hmem')
  | accepted kept call _ credential response authorized stored log =>
    -- The body of the accepted call is what the key's row has, also if the row is older.
    have hrecorded : call.key ≠ "" → ∃ row, t.db.idempotencyKey credential.id call.key = some row ∧
        row.bodySha256 = sha256 call.bytes := by
      intro hkey
      obtain ⟨row, hrow, hold | hnew⟩ := stored.key hkey
      · exact ⟨row, hrow, authorized.key hkey row hold⟩
      · exact ⟨row, hrow, hnew⟩
    have hkeyed : ∀ credentialId call response, .accepted credentialId call response ∈ t.log →
        call.key ≠ "" → t.blobs (sha256 call.bytes) = some call.bytes ∧
          ∃ row, t.db.idempotencyKey credentialId call.key = some row ∧
            row.bodySha256 = sha256 call.bytes := by
      intro credentialId _ _ hmem hkey
      rw [log] at hmem
      rcases mem_append.1 hmem with hmem | hmem
      · obtain ⟨hblob, row, hrow, hbody⟩ := hs.keyed _ _ _ hmem hkey
        exact ⟨kept _ _ hblob, row, stored.grown.idempotencyKey hrow, hbody⟩
      · cases mem_singleton.1 hmem
        exact ⟨stored.blob, hrecorded hkey⟩
    constructor
    case blob =>
      intro r hr
      rcases stored.added r hr with hold | ⟨hsha256, hsize, -⟩
      · obtain ⟨bytes, hbytes, hfacts⟩ := hs.blob r hold
        exact ⟨bytes, kept _ _ hbytes, hfacts⟩
      · exact ⟨call.bytes, by rw [hsha256]; exact stored.blob, hsha256.symm, hsize.symm⟩
    case keyed => exact hkeyed
    case once =>
      intro credentialId _ _ _ _ hfirst hsecond hkey hsame
      obtain ⟨hblob, row, hrow, hbody⟩ := hkeyed _ _ _ hfirst hkey
      obtain ⟨hblob', _, hrow', hbody'⟩ := hkeyed _ _ _ hsecond (hsame ▸ hkey)
      rw [hsame, hrow'] at hrow
      cases hrow
      rw [← hbody, hbody', hblob'] at hblob
      exact (Option.some.inj hblob).symm

lemma reachable_consistent (h : (machine sha256).Reachable s) : Consistent sha256 s := by
  refine h.invariant ?_ ?_
  · intro s hs
    obtain ⟨-, -, hreleases, -, -, hlog⟩ := hs
    constructor
    case blob =>
      intro r hr
      rw [hreleases] at hr
      cases hr
    case keyed =>
      intro _ _ _ hmem
      rw [hlog] at hmem
      cases hmem
    case once =>
      intro _ _ _ _ _ hmem
      rw [hlog] at hmem
      cases hmem
  · intro s t _ hs hstep
    obtain ⟨_, haction⟩ := hstep
    exact hs.step (perform_stepped haction)

lemma run_grown (h : ReflTransGen (machine sha256).step s t) : Grown s.db t.db := by
  induction h with
  | refl => exact .refl _
  | tail _ hlast ih =>
    obtain ⟨_, haction⟩ := hlast
    exact ih.trans (perform_stepped haction).grown

omit [DecidableEq D] in
lemma isOwner_grown (h : db.owners <+: db'.owners) {cutId owner}
    (howner : db.isOwner cutId owner = true) : db'.isOwner cutId owner = true := by
  obtain ⟨row, hrow, hsame⟩ := any_eq_true.1 howner
  exact any_eq_true.2 ⟨row, h.subset hrow, hsame⟩

omit [DecidableEq D] in
/-- A row that a step adds belongs to a call that the step accepted, and the subject of the call's
credential owns the package. -/
lemma Stepped.owned (h : Stepped sha256 s t) {r} (hr : r ∈ t.db.releases)
    (hnew : ∀ q ∈ s.db.releases, q.id ≠ r.id) :
    ∃ call credential response, t.log = s.log ++ [.accepted credential.id call response] ∧
      credential ∈ s.db.credentials ∧ credential.tokenDigest = sha256 call.token ∧
      ∃ cut ∈ t.db.cuts, cut.id = r.cutId ∧ cut.name = call.name ∧
        t.db.isOwner cut.id credential.subject = true ∧
        (cut ∈ s.db.cuts → s.db.isOwner cut.id credential.subject = true) := by
  cases h with
  | quiet _ unchanged =>
    have hrow : r.row ∈ s.db.releases.map Release.row := by
      rw [← unchanged.rows]
      exact mem_map_of_mem hr
    obtain ⟨q, hq, hqr⟩ := mem_map.1 hrow
    exact absurd (congrArg Prod.fst hqr) (hnew q hq)
  | accepted _ call _ credential response authorized stored log =>
    rcases stored.added r hr with hold | ⟨-, -, cut, hcut, hid, hname, howner⟩
    · exact absurd rfl (hnew r hold)
    refine ⟨call, credential, response, log, authorized.mem, authorized.token, cut, hcut, hid,
      hname, ?_⟩
    rcases howner with hbefore | ⟨hafter, hfresh⟩
    · have howns := authorized.owner cut hbefore
      exact ⟨isOwner_grown stored.owners howns, fun _ => howns⟩
    · exact ⟨hafter, fun hmem => absurd hmem hfresh⟩

/-- In every history the digest of a package and version stays, every release has the blob of its
digest, a release is added by a credential whose subject owns the package, and calls that were
accepted with one key of a credential had one body. -/
theorem publish_history {s : State D} (h : (machine sha256).Reachable s) :
    (∀ t, ReflTransGen (machine sha256).step s t → ∀ name version d,
      s.db.digest name version = some d → t.db.digest name version = some d) ∧
    (∀ r ∈ s.db.releases, ∃ bytes, s.blobs r.sha256 = some bytes ∧ sha256 bytes = r.sha256 ∧
      bytes.length = r.size) ∧
    (∀ t, (machine sha256).step s t → ∀ r ∈ t.db.releases, (∀ q ∈ s.db.releases, q.id ≠ r.id) →
      ∃ call credential response, t.log = s.log ++ [.accepted credential.id call response] ∧
        credential ∈ s.db.credentials ∧ credential.tokenDigest = sha256 call.token ∧
        ∃ cut ∈ t.db.cuts, cut.id = r.cutId ∧ cut.name = call.name ∧
          t.db.isOwner cut.id credential.subject = true ∧
          (cut ∈ s.db.cuts → s.db.isOwner cut.id credential.subject = true)) ∧
    (∀ credentialId call call' response response', .accepted credentialId call response ∈ s.log →
      .accepted credentialId call' response' ∈ s.log →
      call.key ≠ "" → call.key = call'.key → call.bytes = call'.bytes) := by
  have hs := reachable_consistent h
  refine ⟨fun t hrun name version d hd => (run_grown hrun).digest hd, hs.blob, ?_, hs.once⟩
  intro t hstep r hr hnew
  obtain ⟨_, haction⟩ := hstep
  exact (perform_stepped haction).owned hr hnew

/-- The bytes as one number, for a digest. -/
def packed (bytes : Bytes) : ℕ := bytes.foldl (fun acc byte => acc * 256 + byte.toNat) 1

/-- Tables with one credential, which may publish one package. -/
def fresh : State ℕ where
  db := ⟨[], [], [], [], [⟨1, packed [65], "owner", ["publish:pkg"], none, none⟩], [], []⟩
  blobs := fun _ => none
  inFlight := []
  log := []

def publishOnce : List Action :=
  [.start ⟨"pkg", [1, 2, 3], [65], "key"⟩ 0 (.ok ⟨"1.0.0", "\x7b\x7d", ["owner"], []⟩),
    .finish 0 1 .none]

theorem publish_history_once : ∃ s, (machine packed).Reachable s ∧
      s.db.digest "pkg" "1.0.0" = some (packed [1, 2, 3]) ∧
      ∀ r ∈ s.db.releases, ∃ bytes, s.blobs r.sha256 = some bytes ∧ packed bytes = r.sha256 ∧
        bytes.length = r.size := by
  have hstart : (machine packed).Reachable fresh := .start ⟨rfl, rfl, rfl, rfl, rfl, rfl⟩
  have hrun : ∀ t, publishOnce.foldlM (State.perform packed) fresh = some t →
      (machine packed).Reachable t := fun t h => hstart.run (fun s action t h => ⟨action, h⟩) h
  have hended := hrun _ rfl
  exact ⟨_, hended, by decide +kernel, (publish_history hended).2.1⟩

end Diamond.Registry
