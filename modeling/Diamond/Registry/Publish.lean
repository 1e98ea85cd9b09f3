import Diamond.Lib.Transition
import Mathlib.Tactic

/-!
# The package registry

Model of `Publisher` in `packages/registry/lib/registry/publisher.d6`, with the tables of `records.d6`
that it reads and writes and the files of `blob_store.d6`.

`publish` refuses early, verifies the archive without a lock, and does everything else in one
transaction.  A transaction is one step here, and it may fail at any statement: the tables are then
rolled back, but a blob that was put before stays.  Between the two steps of a call come the steps of
other calls, and what administrators do to owners, credentials and releases.
-/

namespace Diamond.Registry

abbrev Bytes := List UInt8

/-- What a call is refused for: `Registry::Failure`, the errors of the blob store, and an error of the
database. -/
inductive Failure
  | unauthorized
  | forbidden
  | invalidRequest
  | invalidArchive
  | payloadTooLarge
  | releaseExists
  | idempotencyConflict
  | blobMismatch
  | blobConflict
  | database
  deriving DecidableEq, Repr

/-! ## Tables -/

structure Cut where
  id : ℕ
  name : String
  createdAt : ℤ
  deriving DecidableEq

structure Owner where
  cutId : ℕ
  owner : String
  createdAt : ℤ
  deriving DecidableEq

variable {D : Type}

structure Release (D : Type) where
  id : ℕ
  cutId : ℕ
  version : String
  dependencies : String
  maintainers : List String
  sha256 : D
  size : ℕ
  yanked : Bool
  takedownReason : Option String
  createdAt : ℤ

def Release.takenDown (release : Release D) : Bool := release.takedownReason.isSome

structure Credential (D : Type) where
  id : ℕ
  tokenDigest : D
  subject : String
  scopes : List String
  expiresAt : Option ℤ
  revokedAt : Option ℤ

def Credential.allows (credential : Credential D) (scope : String) : Bool :=
  scope ∈ credential.scopes

def Credential.active (credential : Credential D) (now : ℤ) : Bool :=
  credential.revokedAt.isNone && credential.expiresAt.all fun expires => expires > now

structure IdempotencyKey (D : Type) where
  credentialId : ℕ
  key : String
  bodySha256 : D
  createdAt : ℤ

structure AuditEvent (D : Type) where
  subject : String
  action : String
  cutName : String
  version : Option String
  sha256 : Option D
  createdAt : ℤ
  credentialId : ℕ
  credentialScopes : List String
  credentialExpiresAt : Option ℤ

structure Database (D : Type) where
  cuts : List Cut
  owners : List Owner
  releases : List (Release D)
  details : List (ℕ × List (String × String))
  credentials : List (Credential D)
  idempotencyKeys : List (IdempotencyKey D)
  auditEvents : List (AuditEvent D)

def nextId (ids : List ℕ) : ℕ := ids.foldr max 0 + 1

structure Archive where
  version : String
  dependencies : String
  maintainers : List String
  details : List (String × String)

def Archive.maintainersListed (archive : Archive) : Bool := !archive.maintainers.isEmpty

/-! ## Lookups -/

def Database.cut (db : Database D) (name : String) : Option Cut :=
  db.cuts.find? fun cut => cut.name = name

def Database.release (db : Database D) (cutId : ℕ) (version : String) : Option (Release D) :=
  db.releases.find? fun release => release.cutId = cutId ∧ release.version = version

/-- `owner?` -/
def Database.isOwner (db : Database D) (cutId : ℕ) (owner : String) : Bool :=
  db.owners.any fun row => row.cutId = cutId ∧ row.owner = owner

def Database.idempotencyKey (db : Database D) (credentialId : ℕ) (key : String) :
    Option (IdempotencyKey D) :=
  db.idempotencyKeys.find? fun row => row.credentialId = credentialId ∧ row.key = key

/-- The digest that is stored for a package and version. -/
def Database.digest (db : Database D) (name version : String) : Option D :=
  (db.cut name).bind fun cut => (db.release cut.id version).map Release.sha256

/-! ## Publishing -/

/-- The arguments of `publish`. -/
structure Call where
  name : String
  bytes : Bytes
  token : Bytes
  key : String
  deriving DecidableEq

/-- The answer of `publish`. -/
structure Response (D : Type) where
  name : String
  version : String
  sha256 : D
  size : ℕ
  yanked : Bool
  created : Bool
  deriving DecidableEq

abbrev Blobs (D : Type) := D → Option Bytes

variable [DecidableEq D] (sha256 : Bytes → D)

def Database.activeCredential (db : Database D) (token : Bytes) (now : ℤ) : Option (Credential D) :=
  if token = [] then none
  else (db.credentials.find? fun credential => credential.tokenDigest = sha256 token).filter
    fun credential => credential.active now

def Database.authorize (db : Database D) (call : Call) (now : ℤ) : Except Failure (Credential D) :=
  match db.activeCredential sha256 call.token now with
  | none => .error .unauthorized
  | some credential =>
    if !credential.allows ("publish:" ++ call.name) then .error .forbidden
    else if (db.cut call.name).any fun cut => !db.isOwner cut.id credential.subject then
      .error .forbidden
    else if call.key ≠ "" ∧ (db.idempotencyKey credential.id call.key).any
        fun existing => existing.bodySha256 ≠ sha256 call.bytes then
      .error .idempotencyConflict
    else .ok credential

/-- The checks of `publish` before the archive is verified. -/
def Database.precheck (db : Database D) (call : Call) (now : ℤ) : Except Failure (Credential D) :=
  if call.bytes.length = 0 ∨ call.bytes.length > 58720256 then .error .payloadTooLarge
  else if call.key.length > 128 then .error .invalidRequest
  else if call.token.any fun code => code ≤ 32 ∨ code = 127 then .error .unauthorized
  else db.authorize sha256 call now

omit [DecidableEq D] in
/-- The row of the log for something that a credential did. -/
def auditEvent (credential : Credential D) (action cutName : String) (version : Option String)
    (digest : Option D) (now : ℤ) : AuditEvent D :=
  ⟨credential.subject, action, cutName, version, digest, now, credential.id, credential.scopes,
    credential.expiresAt⟩

omit [DecidableEq D] in
/-- The package of that name, which is claimed for the credential's subject if there is none. -/
def Database.claim (db : Database D) (name : String) (credential : Credential D) (now : ℤ) :
    Database D × Cut :=
  match db.cut name with
  | some cut => (db, cut)
  | none =>
    let cut : Cut := ⟨nextId (db.cuts.map Cut.id), name, now⟩
    ({ db with
        cuts := db.cuts ++ [cut]
        owners := db.owners ++ [⟨cut.id, credential.subject, now⟩]
        auditEvents := db.auditEvents ++ [auditEvent credential "claim" name none none now] }, cut)

/-- A blob that exists is read back and compared; otherwise it is put. -/
def storeBlob (blobs : Blobs D) (digest : D) (bytes : Bytes) : Except Failure (Blobs D) :=
  match blobs digest with
  | some stored =>
    if sha256 stored ≠ digest then .error .blobMismatch
    else if stored ≠ bytes then .error .blobConflict
    else .ok blobs
  | none =>
    if sha256 bytes ≠ digest then .error .blobMismatch
    else .ok (Function.update blobs digest (some bytes))

/-- The row of a new release and its details; a digest may occur in one release only. -/
def Database.insertRelease (db : Database D) (cut : Cut) (archive : Archive) (digest : D)
    (bytes : Bytes) (credential : Credential D) (now : ℤ) : Except Failure (Database D) :=
  if db.releases.any fun release => release.sha256 = digest then .error .database
  else
    let id := nextId (db.releases.map Release.id)
    .ok { db with
      releases := db.releases ++ [⟨id, cut.id, archive.version, archive.dependencies,
        archive.maintainers, digest, bytes.length, false, none, now⟩]
      details := db.details ++ [(id, archive.details)]
      auditEvents := db.auditEvents ++
        [auditEvent credential "publish" cut.name (some archive.version) (some digest) now] }

omit [DecidableEq D] in
/-- `INSERT OR IGNORE INTO idempotency_keys`, when the call has a key. -/
def Database.insertKey (db : Database D) (credential : Credential D) (key : String) (digest : D)
    (now : ℤ) : Database D :=
  if key = "" ∨ (db.idempotencyKey credential.id key).isSome then db
  else { db with idempotencyKeys := db.idempotencyKeys ++ [⟨credential.id, key, digest, now⟩] }

/-- `Publisher#store`; the blobs are there also if it raises. -/
def Database.store (db : Database D) (blobs : Blobs D) (call : Call) (digest : D)
    (credential : Credential D) (archive : Archive) (now : ℤ) :
    Except Failure (Database D × Response D) × Blobs D :=
  let claimed := db.claim call.name credential now
  let response (yanked created : Bool) : Response D :=
    ⟨call.name, archive.version, digest, call.bytes.length, yanked, created⟩
  match claimed.1.release claimed.2.id archive.version with
  | none =>
    if !archive.maintainersListed then (.error .invalidArchive, blobs)
    else
      match storeBlob sha256 blobs digest call.bytes with
      | .error failure => (.error failure, blobs)
      | .ok blobs =>
        match claimed.1.insertRelease claimed.2 archive digest call.bytes credential now with
        | .error failure => (.error failure, blobs)
        | .ok db => (.ok (db.insertKey credential call.key digest now, response false true), blobs)
  | some existing =>
    if existing.sha256 ≠ digest ∨ existing.size ≠ call.bytes.length ∨ existing.takenDown then
      (.error .releaseExists, blobs)
    else
      match storeBlob sha256 blobs digest call.bytes with
      | .error failure => (.error failure, blobs)
      | .ok blobs =>
        (.ok (claimed.1.insertKey credential call.key digest now, response existing.yanked false),
          blobs)

/-! ## Runs -/

/-- How a call ended; an accepted one with the id of its credential. -/
inductive Entry (D : Type)
  | accepted (credentialId : ℕ) (call : Call) (response : Response D)
  | refused (call : Call) (failure : Failure)

structure State (D : Type) where
  db : Database D
  blobs : Blobs D
  inFlight : List (Call × Archive)
  log : List (Entry D)

omit [DecidableEq D] in
def State.note (s : State D) (entry : Entry D) : State D := { s with log := s.log ++ [entry] }

/-- Where the database fails in a transaction, if it does: before a blob could be put, or after. -/
inductive Fault
  | none
  | before
  | after
  deriving DecidableEq

/-- The transaction of `publish`. -/
def State.transaction (s : State D) (call : Call) (archive : Archive) (now : ℤ) (fault : Fault) :
    State D :=
  if fault = .before then s.note (.refused call .database)
  else
    match s.db.authorize sha256 call now with
    | .error failure => s.note (.refused call failure)
    | .ok credential =>
      match s.db.store sha256 s.blobs call (sha256 call.bytes) credential archive now with
      | (.error failure, blobs) => { s with blobs }.note (.refused call failure)
      | (.ok (db, response), blobs) =>
        if fault = .after then { s with blobs }.note (.refused call .database)
        else { s with db, blobs }.note (.accepted credential.id call response)

inductive Action
  | start (call : Call) (now : ℤ) (verified : Except Failure Archive)
  | finish (index : ℕ) (now : ℤ) (fault : Fault)
  | setYanked (id : ℕ) (yanked : Bool)
  | takeDown (id : ℕ) (reason : String)
  | addOwner (row : Owner)
  | removeOwner (cutId : ℕ) (owner : String)
  | revoke (credentialId : ℕ) (now : ℤ)

omit [DecidableEq D] in
/-- `UPDATE releases SET … WHERE id = ?` -/
def Database.updateRelease (db : Database D) (id : ℕ) (change : Release D → Release D) :
    Database D :=
  { db with releases := db.releases.map fun row => if row.id = id then change row else row }

def State.perform (s : State D) : Action → Option (State D)
  | .start call now verified =>
    match s.db.precheck sha256 call now, verified with
    | .error failure, _ => some (s.note (.refused call failure))
    | .ok _, .error failure => some (s.note (.refused call failure))
    | .ok _, .ok archive => some { s with inFlight := s.inFlight ++ [(call, archive)] }
  | .finish index now fault =>
    match s.inFlight[index]? with
    | none => none
    | some ended =>
      some ({ s with inFlight := s.inFlight.eraseIdx index }.transaction sha256 ended.1 ended.2 now
        fault)
  | .setYanked id yanked =>
    some { s with db := s.db.updateRelease id fun row => { row with yanked } }
  | .takeDown id reason =>
    some { s with db := s.db.updateRelease id fun row => { row with takedownReason := some reason } }
  | .addOwner row => some { s with db := { s.db with owners := s.db.owners ++ [row] } }
  | .removeOwner cutId owner =>
    some { s with db := { s.db with
      owners := s.db.owners.filter fun row => ¬(row.cutId = cutId ∧ row.owner = owner) } }
  | .revoke credentialId now =>
    some { s with db := { s.db with
      credentials := s.db.credentials.map fun row =>
        if row.id = credentialId then { row with revokedAt := some now } else row } }

/-- The registry, from tables that have credentials only and from any blobs. -/
def machine : Machine (State D) where
  initial s := s.db.cuts = [] ∧ s.db.owners = [] ∧ s.db.releases = [] ∧ s.db.idempotencyKeys = [] ∧
    s.inFlight = [] ∧ s.log = []
  step s t := ∃ action, s.perform sha256 action = some t

end Diamond.Registry
