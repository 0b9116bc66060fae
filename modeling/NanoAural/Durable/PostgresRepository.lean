import NanoAural.Durable.Repository
import NanoAural.Durable.Calls

/-!
# The PostgreSQL repository

`PostgresDurableRepository`: registration, submission and the job record, with the
triggers of the tables only it writes. Its methods that would run an attempt are
disabled in the source; jobs progress through the queue.
-/

namespace NanoAural

open Relational Machine

/-! ## Tables -/

def preventDeploymentMutation (old new : DeploymentRow) : List (Bool × String) :=
  [(new.fingerprint != old.fingerprint, "model deployment fingerprint is immutable"),
   (new.name != old.name || new.adapterId != old.adapterId || new.manifest != old.manifest,
    "model deployment identity and manifest are immutable"),
   (old.state == .retired && new.state != .retired, "RETIRED deployment cannot be reactivated")]

def deploymentsTable : Target DeploymentRow where
  table := Db.deployments
  store db t := { db with deployments := t }
  beforeInsert _ new := .ok new
  beforeUpdate _ old new := guarded (preventDeploymentMutation old new) new
  deferred _ := []

def ensureVerifiedAssetBlob (db : Db) (new : AssetRow) : List (Bool × String) :=
  [(new.state == .verified && !((db.blobs.find? new.blobId).any (·.state == .verified)),
    "a VERIFIED asset requires a VERIFIED blob")]

def preventAssetIdentityMutation (old new : AssetRow) : List (Bool × String) :=
  [(new.namespaceId != old.namespaceId || new.blobId != old.blobId || new.kind != old.kind,
    "asset namespace, blob, and kind are immutable"),
   (old.state == .deleted && new.state != .deleted, "DELETED asset cannot be restored")]

def preventVerifiedAssetDowngrade (db : Db) (old new : AssetRow) : List (Bool × String) :=
  [(old.state == .verified && new.state != .verified && backsActiveJob db old.id,
    "verified asset backs an active job input")]

def assetsTable : Target AssetRow where
  table := Db.assets
  store db t := { db with assets := t }
  beforeInsert db new := guarded (ensureVerifiedAssetBlob db new
    ++ [((db.blobs.find? new.blobId).isNone, "violates foreign key constraint")]) new
  beforeUpdate db old new := guarded (preventAssetIdentityMutation old new
    ++ preventVerifiedAssetDowngrade db old new ++ ensureVerifiedAssetBlob db new) new
  deferred _ := []

def ensureVerifiedJobInput (db : Db) (new : JobInputRow) : List (Bool × String) :=
  [(!((db.assets.find? new.assetId).any fun asset => asset.state == .verified
      && (db.blobs.find? asset.blobId).any (·.state == .verified)
      && (db.jobs.find? new.jobId).any (·.namespaceId == asset.namespaceId)),
    "only VERIFIED assets with VERIFIED blobs may enter jobs")]

/-- Job inputs are immutable: `prevent_job_input_mutation` refuses every update. -/
def jobInputsTable : Target JobInputRow where
  table := Db.jobInputs
  store db t := { db with jobInputs := t }
  beforeInsert db new := guarded (ensureVerifiedJobInput db new) new
  beforeUpdate _ _ _ := .error (.database "job inputs are immutable once inserted")
  deferred _ := []

/-! ## Registration -/

section Repository

variable (digest : CanonicalRequest → String) (json : JsonColumn)

/-- `register_deployment`. -/
def registerDeployment (deployment : DeploymentRecord) :
    Db → Except Error DeploymentRecord × Db := commit do
  insert deploymentsTable ⟨deployment.deploymentId, deployment.name, deployment.adapterId,
    deployment.fingerprint, json.roundTrip deployment.manifest, deployment.state⟩
  pure deployment

/-- `register_worker`. -/
def registerWorker (worker : WorkerRecord) : Db → Except Error WorkerRecord × Db := commit do
  insert workersTable ⟨worker.workerId, worker.deploymentId, worker.state, none⟩
  pure worker

/-- `_blob_from_row`. -/
def blobFromRow (row : BlobRow) : Except Error BlobRecord :=
  BlobRecord.checked
    ⟨row.id, row.sha256, row.sizeBytes, row.storageKey, row.state, row.contentType⟩

/-- `register_blob`: one digest names one blob. -/
def registerBlob (blob : BlobRecord) : Db → Except Error BlobRecord × Db := commit do
  let row : BlobRow :=
    ⟨blob.blobId, blob.sha256, blob.sizeBytes, blob.storageKey, blob.contentType, blob.state⟩
  let added ← insertUnless blobsTable (fun new old => old.sha256 == new.sha256) row
  if added then Tx.lift (blobFromRow row)
  else
    let found ← select fun db => db.blobs.rows.find? (·.sha256 == blob.sha256)
    let existing ← Tx.orFail (found.filter fun b => b.sizeBytes == blob.sizeBytes
        && b.storageKey == blob.storageKey && b.contentType == blob.contentType
        && b.state == blob.state)
      (.invariant "SHA-256 identity cannot map to different blob metadata")
    Tx.lift (blobFromRow existing)

/-- `create_asset`. -/
def createAsset (asset : AssetRecord) : Db → Except Error AssetRecord × Db := commit do
  let row ← select fun db => db.blobs.find? asset.blobId
  let blob ← Tx.orFail row (.notFound "blob not found")
  Tx.ensure (asset.state != .verified || blob.state == .verified)
    (.invariant "a VERIFIED asset requires a VERIFIED blob")
  insert assetsTable ⟨asset.assetId, asset.namespaceId, asset.blobId, asset.kind,
    json.roundTrip asset.metadata, asset.state⟩
  pure asset

/-- `UPDATE model_deployments SET state=...`. -/
def setDeploymentState (id : Uuid) (state : DeploymentState) : Db → Except Error Nat × Db :=
  commit (update deploymentsTable id (fun _ => true) fun d => { d with state := state })

/-- `UPDATE assets SET state=...`. -/
def setAssetState (id : Uuid) (state : AssetState) : Db → Except Error Nat × Db :=
  commit (update assetsTable id (fun _ => true) fun a => { a with state := state })

/-- `UPDATE blobs SET state=...`. -/
def setBlobState (id : Uuid) (state : BlobState) : Db → Except Error Nat × Db :=
  commit (update blobsTable id (fun _ => true) fun b => { b with state := state })

/-! ## Jobs -/

/-- The record of a job row and its input rows. -/
def jobRecord (j : JobRow) (inputs : List JobInputRow) : Except Error JobRecord := do
  let inputs ← (orderBy JobInputRow.role inputs).mapM fun i => JobInput.checked i.role i.assetId
  JobRecord.checked ⟨j.id, j.namespaceId, j.idempotencyKey, j.requestSha256, j.requestJson,
    j.modelDeploymentId, inputs, j.requiredArtifactKinds, j.state, j.currentAttemptId,
    j.winningAttemptId, j.cancelRequestedAt.isSome, j.leaseEpoch⟩

/-- `get_job`. -/
def getJob (jobId : Uuid) (db : Db) : Except Error JobRecord :=
  match db.jobs.find? jobId with
  | none => .error (.notFound "job not found")
  | some j => jobRecord j (inputsOf db jobId)

/-- `_job_by_key`. -/
def jobByKey (namespaceId idempotencyKey : String) : Sql JobRecord := do
  let found ← select fun db => db.jobs.rows.find? fun j =>
    j.namespaceId == namespaceId && j.idempotencyKey == idempotencyKey
  let j ← Tx.orFail found (.notFound "idempotent job disappeared")
  let db ← select id
  Tx.lift (getJob j.id db)

/-- The row `create_job` inserts; both timestamps are the transaction's. -/
def submittedRow (jobId : Uuid) (sub : Submission) (hash : String) (now : Time) : JobRow where
  id := jobId
  namespaceId := sub.namespaceId
  idempotencyKey := sub.idempotencyKey
  requestSha256 := hash
  requestJson := json.roundTrip sub.request
  modelDeploymentId := sub.deploymentId
  requiredArtifactKinds := sub.required
  state := .queued
  leaseEpoch := 0
  currentAttemptId := none
  winningAttemptId := none
  cancelRequestedAt := none
  retryNotBefore := none
  createdAt := now
  updatedAt := now

/-- The loop that inserts a new job's inputs. -/
def insertInputs (jobId : Uuid) : List JobInput → Sql Unit
  | [] => pure ()
  | item :: items => do
      insert jobInputsTable ⟨jobId, item.role, item.assetId⟩
      insertInputs jobId items

/-- Another job holds the key: `ON CONFLICT (namespace_id,idempotency_key)`. -/
def sameKey (new old : JobRow) : Bool :=
  old.namespaceId == new.namespaceId && old.idempotencyKey == new.idempotencyKey

/-- The transaction of `create_job`: the job the key already names, if it does. -/
def createJobRows (jobId : Uuid) (sub : Submission) (hash : String) : Sql (Option JobRecord) := do
  let row ← select fun db => db.deployments.find? sub.deploymentId
  let deployment ← Tx.orFail row (.notFound "deployment not found")
  Tx.ensure (deployment.state == .ready) deploymentNotReady
  let now ← select Db.clock
  let added ← insertUnless jobsTable sameKey (submittedRow json jobId sub hash now)
  if added then
    insertInputs jobId sub.normalizedInputs
    event jobId none .jobCreated
    pure none
  else
    let existing ← jobByKey sub.namespaceId sub.idempotencyKey
    Tx.ensure (existing.requestSha256 == hash) idempotencyConflict
    pure (some existing)

/-- The checks of `create_job` before its transaction, and the request's hash. -/
def Submission.admissible (sub : Submission) : Except Error String := do
  let hash ← sub.requestHash digest
  raiseIf (!sub.rolesUnique) (.invariant "job input roles must be unique")
  pure hash

/-- `create_job`; `jobId` is the fresh `uuid4()`. -/
def createJob (jobId : Uuid) (sub : Submission) (db : Db) : Except Error JobRecord × Db :=
  match sub.admissible digest with
  | .error e => (.error e, db)
  | .ok hash =>
      match commit (createJobRows json jobId sub hash) db with
      | (.error e, db) => (.error e, db)
      | (.ok (some existing), db) => (.ok existing, db)
      | (.ok none, db) => (getJob jobId db, db)

/-- The transaction of `PostgresDurableRepository.request_cancel`. -/
def requestCancelRows (jobId : Uuid) : Sql Unit := do
  let db ← select id
  let job ← Tx.lift (getJob jobId db)
  match job.state with
  | .queued =>
      let _ ← update jobsTable jobId (fun _ => true) fun j =>
        { j with state := .cancelled, cancelRequestedAt := some db.clock }
      event jobId none .cancelRequested
  | .running =>
      let _ ← update jobsTable jobId (fun _ => true) fun j =>
        { j with cancelRequestedAt := some db.clock }
      event jobId job.currentAttemptId .cancelRequested
  | _ => pure ()

/-- `PostgresDurableRepository.request_cancel`. -/
def requestJobCancel (jobId : Uuid) (db : Db) : Except Error JobRecord × Db :=
  match commit (requestCancelRows jobId) db with
  | (.error e, db) => (.error e, db)
  | (.ok (), db) => (getJob jobId db, db)

end Repository

/-! ## The repository as a system -/

/-- A method of the repository, a change of a row's state by an operator, or a call of the queue
or the ledger. -/
inductive RepositoryCall where
  | registerDeployment (deployment : DeploymentRecord)
  | registerWorker (worker : WorkerRecord)
  | registerBlob (blob : BlobRecord)
  | createAsset (asset : AssetRecord)
  | createJob (jobId : Uuid) (sub : Submission)
  | requestCancel (jobId : Uuid)
  | setDeploymentState (id : Uuid) (state : DeploymentState)
  | setAssetState (id : Uuid) (state : AssetState)
  | setBlobState (id : Uuid) (state : BlobState)
  | queue (c : Call)

/-- The database a call leaves. -/
def RepositoryCall.run (digest : CanonicalRequest → String) (json : JsonColumn) :
    RepositoryCall → Db → Db
  | .registerDeployment deployment, db => (NanoAural.registerDeployment json deployment db).2
  | .registerWorker worker, db => (NanoAural.registerWorker worker db).2
  | .registerBlob blob, db => (NanoAural.registerBlob blob db).2
  | .createAsset asset, db => (NanoAural.createAsset json asset db).2
  | .createJob jobId sub, db => (NanoAural.createJob digest json jobId sub db).2
  | .requestCancel jobId, db => (requestJobCancel jobId db).2
  | .setDeploymentState id state, db => (NanoAural.setDeploymentState id state db).2
  | .setAssetState id state, db => (NanoAural.setAssetState id state db).2
  | .setBlobState id state, db => (NanoAural.setBlobState id state db).2
  | .queue c, db => (c.run json db).2

/-- The migrated database under every call of the repository, the queue and the ledger. -/
def repositorySystem (digest : CanonicalRequest → String) (json : JsonColumn) : System Db where
  init db := db = Db.empty
  step db db' := ∃ c : RepositoryCall, db' = c.run digest json db

end NanoAural
