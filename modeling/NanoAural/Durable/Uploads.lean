import NanoAural.Durable.Calls
import NanoAural.Durable.PostgresRepository

/-!
# Upload sessions

The two tables of the upload protocol beside the durable schema, the triggers of
`0002_verified_uploads.sql`, and `PostgresUploadRepository`. A method whose
transaction is followed by a `get_session` of its own is modelled as the
transaction alone: whoever calls it reads the session in a step of its own.
-/

namespace NanoAural

open Relational

/-! ## Rows -/

inductive UploadMode where
  | single | multipart
  deriving DecidableEq, Repr

inductive UploadState where
  | initiated | uploaded | verifying | verified | rejected | expired
  deriving DecidableEq, Repr

def UploadState.terminal : UploadState → Bool
  | .verified | .rejected | .expired => true
  | .initiated | .uploaded | .verifying => false

/-- The state changes `ensure_upload_transition` lets through. -/
def UploadState.mayBecome : UploadState → UploadState → Bool
  | .initiated, new => new == .uploaded || new == .expired
  | .uploaded, new => new == .verifying || new == .expired
  | .verifying, new => new == .verifying || new.terminal
  | .verified, _ | .rejected, _ | .expired, _ => false

/-- A row of `upload_sessions`. Its staging key is the session's own identifier under `staging/`:
the constructor of `UploadSession` refuses any other. -/
structure UploadSession where
  sessionId : Uuid
  namespaceId : String
  mode : UploadMode
  expectedSizeBytes : Nat
  expiresAt : Time
  expectedSha256 : Option String
  state : UploadState
  version : Nat
  verificationStartedAt : Option Time
  verifiedBlobId : Option Uuid
  verifiedAssetId : Option Uuid
  rejectionReason : Option String
  createdAt : Time
  finalizedAt : Option Time
  deriving DecidableEq, Repr

/-- What `prevent_upload_identity_mutation` pins down. -/
def UploadSession.identity (s : UploadSession) :
    Uuid × String × UploadMode × Nat × Time × Option String :=
  (s.sessionId, s.namespaceId, s.mode, s.expectedSizeBytes, s.expiresAt, s.expectedSha256)

/-- The checks of `upload_sessions`. -/
def UploadSession.check (s : UploadSession) : Bool :=
  sqlTrimmed s.namespaceId && optionalSha256 s.expectedSha256
    && ((s.state == .verified) == (s.verifiedBlobId.isSome && s.verifiedAssetId.isSome))
    && (s.state == .verified || (s.verifiedBlobId.isNone && s.verifiedAssetId.isNone))
    && (s.state != .rejected || s.rejectionReason.isSome)
    && (s.state == .rejected || s.rejectionReason.isNone)
    && (s.state.terminal || s.finalizedAt.isNone)
    && (!s.state.terminal || s.finalizedAt.isSome)
    && (!(s.state == .initiated || s.state == .uploaded) || s.verificationStartedAt.isNone)
    && (s.state != .verifying || s.verificationStartedAt.isSome)
    && s.createdAt < s.expiresAt

/-- The constructor of `UploadSession`. -/
def UploadSession.checked (s : UploadSession) : Except Error UploadSession := do
  raiseIf (isBlank s.namespaceId) (.value "namespace_id must be non-empty")
  raiseIf (s.expectedSha256.any fun sha256 => !acceptsSha256 sha256)
    (.value "sha256 must be lowercase 64-character hexadecimal")
  raiseIf ((s.state == .verified) != (s.verifiedBlobId.isSome && s.verifiedAssetId.isSome))
    (.value "verified pointer shape does not match state")
  raiseIf (s.state != .verified && (s.verifiedBlobId.isSome || s.verifiedAssetId.isSome))
    (.value "non-verified session cannot have verified pointers")
  raiseIf (s.state == .rejected && !s.rejectionReason.any (!·.isEmpty))
    (.value "rejected session requires a reason")
  raiseIf (s.state != .rejected && s.rejectionReason.isSome)
    (.value "only a rejected session may have a rejection reason")
  pure s

instance : Schema UploadSession Uuid where
  key := UploadSession.sessionId
  check := UploadSession.check
  clash _ _ := false
  clash_comm _ _ := rfl

/-- The durable database with the upload tables. -/
structure UploadDb extends Db where
  sessions : Table UploadSession
  /-- The keys of `upload_staging_cleanups`. -/
  cleanups : List Uuid

abbrev UploadTx := Tx UploadDb Error

/-- A statement on the durable tables that defers no check. -/
def onDurable {α : Type} (body : Sql α) : UploadTx α := fun db =>
  match body ⟨db.toDb, []⟩ with
  | .error e => .error e
  | .ok (a, s) => .ok (a, { db with toDb := s.db })

/-! ## Triggers -/

/-- `prevent_upload_identity_mutation`, which fires first. -/
def preventUploadIdentityMutation (old new : UploadSession) : List (Bool × String) :=
  [(new.identity != old.identity, "upload identity is immutable"),
   (new.state.terminal && new.finalizedAt.isNone, "terminal upload requires finalized_at")]

/-- `ensure_upload_transition`; `old` is absent on `INSERT`. -/
def ensureUploadTransition (old : Option UploadSession) (new : UploadSession) :
    List (Bool × String) :=
  match old with
  | none => [(new.state != .initiated || new.version != 0,
      "upload session must begin INITIATED at version zero")]
  | some old => [(new.version != old.version + 1 || !old.state.mayBecome new.state
      || (old.state == .verifying && new.state == .verifying
        && !decide (old.verificationStartedAt.getD 0 < new.verificationStartedAt.getD 0)),
      "invalid upload state/version transition")]

/-- The asset a VERIFIED session points to, in the session's namespace and over its blob. -/
def uploadAsset (db : Db) (new : UploadSession) : Bool :=
  db.assets.rows.any fun a => some a.id == new.verifiedAssetId
    && some a.blobId == new.verifiedBlobId && a.namespaceId == new.namespaceId
    && a.state == .verified && (db.blobs.find? a.blobId).any (·.state == .verified)

/-- `ensure_upload_verified_asset`. -/
def ensureUploadVerifiedAsset (db : Db) (old : Option UploadSession) (new : UploadSession) :
    List (Bool × String) :=
  [(old.any fun o => new.state != .expired && o.expiresAt ≤ db.clock,
      "expired upload session cannot advance"),
   (new.state == .verified && !uploadAsset db new,
      "VERIFIED upload requires namespace VERIFIED asset and blob"),
   (old.any fun o => o.state.terminal && new != o, "terminal upload session is immutable")]

def sessionInsertGuards (db : Db) (new : UploadSession) : List (Bool × String) :=
  ensureUploadTransition none new ++ ensureUploadVerifiedAsset db none new

def sessionUpdateGuards (db : Db) (old new : UploadSession) : List (Bool × String) :=
  preventUploadIdentityMutation old new ++ ensureUploadTransition (some old) new
    ++ ensureUploadVerifiedAsset db (some old) new

/-! ## Statements -/

/-- `INSERT INTO upload_sessions`. -/
def insertSession (new : UploadSession) : UploadTx Unit := do
  let db ← Tx.read
  Tx.lift (raiseFirst (sessionInsertGuards db.toDb new))
  let t ← Tx.orFail (db.sessions.insert? new) constraintViolation
  Tx.modify fun db => { db with sessions := t }

/-- `UPDATE upload_sessions SET ... WHERE id=%s AND ... RETURNING id`: whether a row matched. -/
def updateSession (id : Uuid) (cond : Time → UploadSession → Bool)
    (set : Time → UploadSession → UploadSession) : UploadTx Bool := do
  let db ← Tx.read
  match db.sessions.find? id with
  | none => pure false
  | some old =>
      if cond db.clock old then do
        Tx.lift (raiseFirst (sessionUpdateGuards db.toDb old (set db.clock old)))
        let t ← Tx.orFail (db.sessions.put? (set db.clock old)) constraintViolation
        Tx.modify fun db => { db with sessions := t }
        pure true
      else pure false

/-- The `UPDATE` a compare-and-set is, and the error of one that matched no row. -/
def casSession (id : Uuid) (cond : Time → UploadSession → Bool)
    (set : Time → UploadSession → UploadSession) (message : String) : UploadTx Unit := do
  let matched ← updateSession id cond set
  Tx.ensure matched (.transition message)

/-! ## The repository -/

def uploadCasRejected : String := "upload session CAS rejected"

def sessionNotFound : Error := .notFound "upload session not found"

/-- `get_session`. -/
def getSession (sessionId : Uuid) (db : UploadDb) : Except Error UploadSession :=
  match db.sessions.find? sessionId with
  | none => .error sessionNotFound
  | some row => row.checked

/-- `create_session`; the row's creation time is the database's. -/
def createSession (session : UploadSession) : UploadDb → Except Error Unit × UploadDb :=
  atomically do
    let session ← Tx.lift session.checked
    let db ← Tx.read
    insertSession { session with createdAt := db.clock }

/-- The row is at the version and state the caller saw, and has not expired. -/
def UploadSession.standsAt (version : Nat) (state : UploadState) (now : Time) (s : UploadSession) :
    Bool := s.version == version && s.state == state && decide (now < s.expiresAt)

/-- `mark_uploaded`. -/
def markUploaded (sessionId : Uuid) (expectedVersion : Nat) :
    UploadDb → Except Error Unit × UploadDb :=
  atomically (casSession sessionId (UploadSession.standsAt expectedVersion .initiated)
    (fun _ s => { s with state := .uploaded, version := s.version + 1 }) uploadCasRejected)

/-- `claim_verification`. -/
def claimVerification (sessionId : Uuid) (expectedVersion : Nat) :
    UploadDb → Except Error Unit × UploadDb :=
  atomically (casSession sessionId (UploadSession.standsAt expectedVersion .uploaded)
    (fun now s => { s with
      state := .verifying, verificationStartedAt := some now, version := s.version + 1 })
    uploadCasRejected)

/-- `reclaim_verification`. -/
def reclaimVerification (sessionId : Uuid) (expectedVersion : Nat) (staleBefore : Time) :
    UploadDb → Except Error Unit × UploadDb :=
  atomically (casSession sessionId
    (fun now s => s.standsAt expectedVersion .verifying now
      && s.verificationStartedAt.any (· < staleBefore))
    (fun now s => { s with verificationStartedAt := some now, version := s.version + 1 })
    "verification reclaim CAS rejected")

/-- `reject`. -/
def rejectSession (sessionId : Uuid) (expectedVersion : Nat) (reason : String) :
    UploadDb → Except Error Unit × UploadDb :=
  atomically do
    Tx.ensure (!reason.isEmpty) (.value "rejection reason must be non-empty")
    casSession sessionId (UploadSession.standsAt expectedVersion .verifying)
      (fun now s => { s with
        state := .rejected, rejectionReason := some reason, finalizedAt := some now,
        version := s.version + 1 }) uploadCasRejected

/-- The row of `blob`'s digest, inserted if there is none. -/
def ensureUploadBlob (blob : BlobRecord) : Sql BlobRow := do
  let _ ← insertUnless blobsTable (fun new old => old.sha256 == new.sha256)
    ⟨blob.blobId, blob.sha256, blob.sizeBytes, blob.storageKey, blob.contentType, blob.state⟩
  let found ← select fun db => db.blobs.rows.find? (·.sha256 == blob.sha256)
  Tx.orFail (found.filter fun b => b.sizeBytes == blob.sizeBytes
      && b.storageKey == blob.storageKey && b.contentType == blob.contentType
      && b.state == blob.state)
    (.conflict "canonical blob digest has different metadata")

/-- `finalize_verified`. -/
def finalizeVerified (json : JsonColumn) (sessionId : Uuid) (expectedVersion : Nat)
    (blob : BlobRecord) (asset : AssetRecord) : UploadDb → Except Error Unit × UploadDb :=
  atomically do
    let db ← Tx.read
    let session ← Tx.lift (getSession sessionId db)
    Tx.ensure (session.version == expectedVersion && session.state == .verifying)
      (.transition uploadCasRejected)
    Tx.ensure (asset.blobId == blob.blobId && asset.namespaceId == session.namespaceId)
      (.transition "verified asset does not match upload session")
    -- the blob may be there already, under another identifier
    let actual ← onDurable (ensureUploadBlob blob)
    onDurable (insert assetsTable ⟨asset.assetId, asset.namespaceId, actual.id, asset.kind,
      json.roundTrip asset.metadata, asset.state⟩)
    casSession sessionId (UploadSession.standsAt expectedVersion .verifying)
      (fun now s => { s with
        state := .verified, verifiedBlobId := some actual.id,
        verifiedAssetId := some asset.assetId, finalizedAt := some now,
        version := s.version + 1 }) uploadCasRejected

/-! ## Expiry and cleanup -/

/-- An open session past its expiry. -/
def UploadSession.overdue (now : Time) (s : UploadSession) : Bool :=
  decide (s.expiresAt < now) && !s.state.terminal

def UploadSession.expire (now : Time) (s : UploadSession) : UploadSession :=
  { s with state := .expired, finalizedAt := some now, version := s.version + 1 }

/-- Expire the sessions a statement has selected, one row after the other. -/
def expireSessions : List Uuid → UploadTx Unit
  | [] => pure ()
  | id :: rest => do
      let _ ← updateSession id UploadSession.overdue UploadSession.expire
      expireSessions rest

/-- `expire_before`; its argument is not used, the database's clock decides. -/
def expireBefore : UploadDb → Except Error Unit × UploadDb :=
  atomically do
    let db ← Tx.read
    expireSessions ((db.sessions.rows.filter (UploadSession.overdue db.clock)).map
      UploadSession.sessionId)

/-- `_positive_limit`. -/
def positiveLimit (limit : Int) : Except Error Unit :=
  raiseIf (limit < 1) (.value "limit must be positive")

/-- The rows `expire_batch` selects; `FOR UPDATE SKIP LOCKED` passes over those `held` elsewhere. -/
def overdueBatch (held : Uuid → Bool) (limit : Nat) (db : UploadDb) : List Uuid :=
  ((orderBy (fun s => toLex (s.expiresAt, s.sessionId))
    (db.sessions.rows.filter fun s => s.overdue db.clock && !held s.sessionId)).take limit).map
      UploadSession.sessionId

/-- `expire_batch`: how many sessions it expired. -/
def expireBatch (held : Uuid → Bool) (limit : Int) : UploadDb → Except Error Nat × UploadDb :=
  atomically do
    Tx.lift (positiveLimit limit)
    let db ← Tx.read
    let batch := overdueBatch held limit.toNat db
    expireSessions batch
    pure batch.length

/-- A terminal session without deletion evidence. -/
def awaitsStagingCleanup (db : UploadDb) (s : UploadSession) : Bool :=
  s.state.terminal && !db.cleanups.contains s.sessionId

/-- `terminal_staging_candidates`; without a limit it returns every candidate. -/
def terminalStagingCandidates (limit : Option Nat) (db : UploadDb) : List Uuid :=
  let rows := orderBy (fun s => toLex (s.finalizedAt.getD 0, s.sessionId))
    (db.sessions.rows.filter (awaitsStagingCleanup db))
  (match limit with
    | none => rows
    | some n => rows.take n).map UploadSession.sessionId

/-- `record_staging_cleanup`: whether evidence was added. -/
def recordStagingCleanup (sessionId : Uuid) (db : UploadDb) : Bool × UploadDb :=
  if (db.sessions.find? sessionId).any (·.state.terminal) && !db.cleanups.contains sessionId then
    (true, { db with cleanups := db.cleanups ++ [sessionId] })
  else (false, db)

end NanoAural
