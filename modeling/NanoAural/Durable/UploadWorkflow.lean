import NanoAural.Durable.Uploads

/-!
# Uploads, verification and staging cleanup

The two object stores and the parties that work on them: upload requests,
verifiers, the janitor and the operator's cleanup command. Each party is a
program counter with its local variables, and one of its steps is one call on a
store or on the repository, so that other parties act in between. A party that
raises or is killed starts over from nowhere.
-/

namespace NanoAural

open Relational Machine

abbrev Bytes := List UInt8

/-- What `MediaProbe.probe` returns. A duration is carried as its JSON text. -/
structure MediaInfo where
  mediaType : String
  durationSeconds : String
  deriving DecidableEq, Repr

/-- What `put_stream` returns. -/
structure BlobObject where
  sha256 : String
  sizeBytes : Nat
  storageKey : String
  deriving DecidableEq, Repr

/-- What the parties are configured with. -/
structure UploadEnv where
  /-- The hexadecimal SHA-256 of a byte string. -/
  sha256 : Bytes → String
  json : JsonColumn
  /-- `max_upload_bytes` of the workflow and of the verifier. -/
  maxUploadBytes : Nat
  maxVerifiedBytes : Nat

/-- `1024 * 1024`. -/
def chunkBytes : Nat := 1048576

/-! ## Parties -/

/-- Where a party stands, with the variables it still needs. -/
inductive UploadStage where
  | idle
  /-- `upload`: before `get_session`. -/
  | upload (sessionId : Uuid) (content : Bytes)
  /-- Before `write_stream` links the staged object. -/
  | write (session : UploadSession) (content : Bytes)
  | mark (session : UploadSession)
  | marked (sessionId : Uuid)
  /-- `finalize`: before its first `get_session`. -/
  | finalize (sessionId : Uuid) (expectedVersion : Nat)
  | claim (session : UploadSession)
  | claimed (sessionId : Uuid)
  /-- Before `open_reader` on the staged object. -/
  | openStaged (session : UploadSession)
  /-- In the copy loop: what is left of the staged object, and the snapshot so far. -/
  | copy (session : UploadSession) (rest snapshot : Bytes)
  | reject (session : UploadSession) (reason : String)
  | probe (session : UploadSession) (snapshot : Bytes)
  /-- `put_stream`: before it looks for the canonical object, and before it links one. -/
  | promote (session : UploadSession) (snapshot : Bytes) (media : MediaInfo)
  | link (session : UploadSession) (snapshot : Bytes) (media : MediaInfo)
  | record (session : UploadSession) (object : BlobObject) (media : MediaInfo)
  /-- The session is decided: before the verifier deletes its staged object. -/
  | discard (sessionId : Uuid)
  /-- `--expire-uploads`: before `expire_batch`. -/
  | expire (limit : Nat)
  | select (remaining : Nat)
  /-- In the cleanup loop: at its head, before `delete`, and before the evidence is recorded. -/
  | sweep (sessionIds : List Uuid)
  | remove (sessionId : Uuid) (sessionIds : List Uuid)
  | evidence (sessionId : Uuid) (sessionIds : List Uuid)
  /-- `janitor`: before `expire_before`. -/
  | janitor
  | inspect
  | tidy (sessionIds : List Uuid)
  | tidyRemove (sessionId : Uuid) (sessionIds : List Uuid)

/-- Where an operation begins. -/
def UploadStage.entry : UploadStage → Bool
  | .idle | .upload .. | .finalize .. | .janitor => true
  | .expire limit => 0 < limit
  | _ => false

/-- The database, the stores and the parties. -/
structure UploadWorld where
  db : UploadDb
  /-- The staged object of each session. -/
  staging : Uuid → Option Bytes
  /-- The canonical store, by storage key. -/
  canonical : String → Option Bytes
  /-- What the media probe has read, and for which session. -/
  probed : List (Uuid × Bytes)
  stages : Nat → UploadStage

namespace UploadWorld

variable (env : UploadEnv)

/-- What a step may find undetermined: the probe's verdict, fresh identifiers, locked rows. -/
structure Choice where
  media : Option MediaInfo
  blobId : Uuid
  assetId : Uuid
  held : Uuid → Bool

/-- A party moves to a stage. -/
def goto (w : UploadWorld) (i : Nat) (stage : UploadStage) : UploadWorld :=
  { w with stages := Function.update w.stages i stage }

/-- A party has made a repository call: it goes on, or raises. -/
def called {α : Type} (w : UploadWorld) (i : Nat) (r : Except Error α × UploadDb)
    (next : α → UploadStage) : UploadWorld :=
  match r.1 with
  | .error _ => goto { w with db := r.2 } i .idle
  | .ok a => goto { w with db := r.2 } i (next a)

/-- A party has read a session: it goes on, or raises. -/
def reading (w : UploadWorld) (i : Nat) (sessionId : Uuid) (next : UploadSession → UploadStage) :
    UploadWorld :=
  match getSession sessionId w.db with
  | .error _ => w.goto i .idle
  | .ok session => w.goto i (next session)

/-- The size limit, checked before a staged object is opened. -/
def limitCheck (session : UploadSession) : UploadStage :=
  if env.maxVerifiedBytes < session.expectedSizeBytes then .reject session "size_limit_exceeded"
  else .openStaged session

/-- After the copy: the snapshot is what was declared. -/
def declared (session : UploadSession) (snapshot : Bytes) : Bool :=
  snapshot.length == session.expectedSizeBytes
    && session.expectedSha256.all (· == env.sha256 snapshot)

/-- One iteration of the copy loop. -/
def copyChunk (session : UploadSession) (rest snapshot : Bytes) : UploadStage :=
  match rest with
  | [] =>
      if declared env session snapshot then .probe session snapshot
      else .reject session "size_or_sha256_mismatch"
  | _ :: _ =>
      let size := snapshot.length + (rest.take chunkBytes).length
      if session.expectedSizeBytes < size || env.maxVerifiedBytes < size then
        .reject session "size_limit_exceeded"
      else .copy session (rest.drop chunkBytes) (snapshot ++ rest.take chunkBytes)

/-- The object `put_stream` reports for a byte string. -/
def objectOf (content : Bytes) : BlobObject :=
  ⟨env.sha256 content, content.length, canonicalKey (env.sha256 content)⟩

/-- `put_stream` compares what it finds at the key with what it was given. -/
def found (session : UploadSession) (snapshot existing : Bytes) (media : MediaInfo) : UploadStage :=
  if existing.length != snapshot.length || env.sha256 existing != env.sha256 snapshot then .idle
  else .record session (objectOf env snapshot) media

/-- The records `finalize` builds for a promoted object. -/
def uploadRecords (session : UploadSession) (object : BlobObject) (media : MediaInfo)
    (blobId assetId : Uuid) : Except Error (BlobRecord × AssetRecord) := do
  let blob ← BlobRecord.checked
    ⟨blobId, object.sha256, object.sizeBytes, object.storageKey, .verified, media.mediaType⟩
  let asset ← AssetRecord.checked
    ⟨assetId, blob.blobId, session.namespaceId, .input, .verified,
      .dict [("media_type", .str media.mediaType),
             ("duration_seconds", .float media.durationSeconds)]⟩
  pure (blob, asset)

/-- `finalize_verified` with the records of a promoted object. -/
def recordVerified (session : UploadSession) (object : BlobObject) (media : MediaInfo)
    (choice : Choice) (db : UploadDb) : Except Error Unit × UploadDb :=
  match uploadRecords session object media choice.blobId choice.assetId with
  | .error e => (.error e, db)
  | .ok (blob, asset) =>
      finalizeVerified env.json session.sessionId session.version blob asset db

/-- The next step of party `i`. -/
def act (w : UploadWorld) (i : Nat) (choice : Choice) : UploadWorld :=
  match w.stages i with
  | .idle => w
  -- `DurableAssetUploadWorkflow.upload`
  | .upload sessionId content => w.reading i sessionId fun session =>
      if env.maxUploadBytes < content.length || content.length != session.expectedSizeBytes then
        .idle
      else .write session content
  | .write session content =>
      match w.staging session.sessionId with
      | some _ => w.goto i .idle
      | none => goto { w with
          staging := Function.update w.staging session.sessionId (some content) } i (.mark session)
  | .mark session =>
      w.called i (markUploaded session.sessionId session.version w.db) fun _ =>
        .marked session.sessionId
  | .marked sessionId => w.reading i sessionId fun session =>
      .finalize session.sessionId session.version
  -- `UploadVerifier.finalize`
  | .finalize sessionId expectedVersion => w.reading i sessionId fun session =>
      if session.version != expectedVersion then .idle
      else if session.state == .uploaded then .claim session
      else if session.state != .verifying then .idle
      else limitCheck env session
  | .claim session =>
      w.called i (claimVerification session.sessionId session.version w.db) fun _ =>
        .claimed session.sessionId
  | .claimed sessionId => w.reading i sessionId (limitCheck env)
  | .openStaged session =>
      match w.staging session.sessionId with
      | none => w.goto i .idle
      | some content => w.goto i (.copy session content [])
  | .copy session rest snapshot => w.goto i (copyChunk env session rest snapshot)
  | .reject session reason =>
      w.called i (rejectSession session.sessionId session.version reason w.db) fun _ =>
        .discard session.sessionId
  | .probe session snapshot => goto { w with
      probed := (session.sessionId, snapshot) :: w.probed } i
        (match choice.media with
          | none => .reject session "media_probe_failed"
          | some media => .promote session snapshot media)
  | .promote session snapshot media =>
      match w.canonical (objectOf env snapshot).storageKey with
      | some existing => w.goto i (found env session snapshot existing media)
      | none => w.goto i (.link session snapshot media)
  | .link session snapshot media =>
      match w.canonical (objectOf env snapshot).storageKey with
      | some existing => w.goto i (found env session snapshot existing media)
      | none => goto { w with
          canonical := Function.update w.canonical (objectOf env snapshot).storageKey
            (some snapshot) } i (.record session (objectOf env snapshot) media)
  | .record session object media =>
      w.called i (recordVerified env session object media choice w.db) fun _ =>
        .discard session.sessionId
  | .discard sessionId =>
      goto { w with staging := Function.update w.staging sessionId none } i .idle
  -- `--expire-uploads`
  | .expire limit =>
      w.called i (expireBatch choice.held limit w.db) fun count =>
        if limit - count = 0 then .idle else .select (limit - count)
  | .select remaining => w.goto i (.sweep (terminalStagingCandidates (some remaining) w.db))
  | .sweep [] => w.goto i .idle
  | .sweep (sessionId :: rest) =>
      match w.staging sessionId with
      | some _ => w.goto i (.remove sessionId rest)
      | none => w.goto i (.evidence sessionId rest)
  | .remove sessionId rest =>
      goto { w with staging := Function.update w.staging sessionId none } i
        (.evidence sessionId rest)
  | .evidence sessionId rest =>
      goto { w with db := (recordStagingCleanup sessionId w.db).2 } i (.sweep rest)
  -- `janitor`
  | .janitor => w.called i (expireBefore w.db) fun _ => .inspect
  | .inspect => w.goto i (.tidy (terminalStagingCandidates none w.db))
  | .tidy [] => w.goto i .idle
  | .tidy (sessionId :: rest) =>
      match w.staging sessionId with
      | some _ => w.goto i (.tidyRemove sessionId rest)
      | none => w.goto i (.tidy rest)
  | .tidyRemove sessionId rest =>
      goto { w with staging := Function.update w.staging sessionId none } i (.tidy rest)

end UploadWorld

/-! ## The system -/

/-- A repository call anyone may make, with any arguments. -/
inductive UploadCall where
  | createSession (session : UploadSession)
  | markUploaded (sessionId : Uuid) (expectedVersion : Nat)
  | claimVerification (sessionId : Uuid) (expectedVersion : Nat)
  | reclaimVerification (sessionId : Uuid) (expectedVersion : Nat) (staleBefore : Time)
  | expireBefore
  | expireBatch (held : Uuid → Bool) (limit : Int)

/-- The database a call leaves. -/
def UploadCall.run : UploadCall → UploadDb → UploadDb
  | .createSession session, db => (NanoAural.createSession session db).2
  | .markUploaded id version, db => (NanoAural.markUploaded id version db).2
  | .claimVerification id version, db => (NanoAural.claimVerification id version db).2
  | .reclaimVerification id version stale, db =>
      (NanoAural.reclaimVerification id version stale db).2
  | .expireBefore, db => (NanoAural.expireBefore db).2
  | .expireBatch held limit, db => (NanoAural.expireBatch held limit db).2

/-- The session `DurableAssetUploadWorkflow.initiate` creates; `expiresAt` is its clock plus the
time to live. -/
def initiate (env : UploadEnv) (sessionId : Uuid) (namespaceId : String) (expectedSizeBytes : Nat)
    (expectedSha256 : Option String) (expiresAt : Time) (db : UploadDb) :
    Except Error Unit × UploadDb :=
  if env.maxUploadBytes < expectedSizeBytes then
    (.error (.value "upload exceeds configured size limit"), db)
  else createSession
    ⟨sessionId, namespaceId, .single, expectedSizeBytes, expiresAt, expectedSha256, .initiated, 0,
      none, none, none, none, 0, none⟩ db

/-- What can happen next, when party `i` may act in `w` only if `may w i`. -/
inductive UploadStep (env : UploadEnv) (may : UploadWorld → Nat → Prop) (w : UploadWorld) :
    UploadWorld → Prop where
  /-- Somebody calls the queue or the ledger, or time passes. -/
  | queue (c : Call) : UploadStep env may w
      { w with db := { w.db with toDb := (c.run env.json w.db.toDb).2 } }
  | call (c : UploadCall) : UploadStep env may w { w with db := c.run w.db }
  | initiate (sessionId : Uuid) (namespaceId : String) (size : Nat) (sha256 : Option String)
      (expiresAt : Time) : UploadStep env may w
      { w with db := (NanoAural.initiate env sessionId namespaceId size sha256 expiresAt w.db).2 }
  /-- Somebody else promotes a byte string to the canonical store. -/
  | promote (content : Bytes)
      (hfree : w.canonical (canonicalKey (env.sha256 content)) = none) : UploadStep env may w
      { w with canonical :=
        Function.update w.canonical (canonicalKey (env.sha256 content)) (some content) }
  /-- A party begins an operation, or gives up the one it was in. -/
  | start (i : Nat) (stage : UploadStage) (h : stage.entry = true) : UploadStep env may w (w.goto i stage)
  | act (i : Nat) (choice : UploadWorld.Choice) (h : may w i) :
      UploadStep env may w (w.act env i choice)

/-- A deployment before its first upload. -/
structure UploadWorld.Initial (w : UploadWorld) : Prop where
  sessions : w.db.sessions.rows = []
  cleanups : w.db.cleanups = []
  staging : ∀ id, w.staging id = none
  stages : ∀ i, w.stages i = .idle

/-- The interleavings in which parties act only where they may. -/
def restrictedUploads (env : UploadEnv) (may : UploadWorld → Nat → Prop) : System UploadWorld where
  init := UploadWorld.Initial
  step := UploadStep env may

/-- Every interleaving of the parties. -/
def uploadSystem (env : UploadEnv) : System UploadWorld := restrictedUploads env fun _ _ => True

end NanoAural
