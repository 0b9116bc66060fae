import Mathlib.Data.String.Basic
import Mathlib.Logic.Function.Basic
import NanoAural.Base.Order
import NanoAural.Base.System
import NanoAural.Durable.Domain

/-!
# Submitting jobs, and the in-memory repository

What a submission is identified by, which both repositories compute alike, and
`InMemoryDurableRepository`, whose dictionaries are partial functions. A method
that raises keeps what it wrote before it raised: there is no rollback here.

SHA-256 is a parameter: `digest` of a canonical request stands for the hash of its
JSON text.
-/

namespace NanoAural

open Relational Machine

/-! ## Canonical requests -/

/-- The JSON texts of the floats that are not finite. -/
def nonFinite : List String := ["NaN", "Infinity", "-Infinity"]

mutual

/-- `_canonical_json_value`. -/
def canonicalJsonValue : PyValue → Except Error PyValue
  | .float repr =>
      if nonFinite.contains repr then
        .error (.value "canonical request cannot contain non-finite floats")
      else .ok (.float repr)
  | .list items => do
      let items ← canonicalItems items
      pure (.list items)
  | .tuple items => do
      let items ← canonicalItems items
      pure (.list items)
  | .dict entries => do
      let entries ← canonicalEntries entries
      pure (.dict entries)
  | v => .ok v

def canonicalItems : List PyValue → Except Error (List PyValue)
  | [] => .ok []
  | v :: vs => do
      let v ← canonicalJsonValue v
      let vs ← canonicalItems vs
      pure (v :: vs)

def canonicalEntries : List (String × PyValue) → Except Error (List (String × PyValue))
  | [] => .ok []
  | (k, v) :: vs => do
      let v ← canonicalJsonValue v
      let vs ← canonicalEntries vs
      pure ((k, v) :: vs)

end

mutual

/-- `sort_keys=True`: every mapping by its keys, all the way down. -/
def sortKeys : PyValue → PyValue
  | .list items => .list (sortItems items)
  | .tuple items => .tuple (sortItems items)
  | .dict entries => .dict (orderBy Prod.fst (sortEntries entries))
  | v => v

def sortItems : List PyValue → List PyValue
  | [] => []
  | v :: vs => sortKeys v :: sortItems vs

def sortEntries : List (String × PyValue) → List (String × PyValue)
  | [] => []
  | (k, v) :: vs => (k, sortKeys v) :: sortEntries vs

end

/-- The mapping `canonical_request_sha256` hashes. -/
structure CanonicalRequest where
  deploymentId : Uuid
  request : PyValue
  inputs : List (String × Uuid)
  requiredArtifactKinds : List String
  deriving DecidableEq

/-- The arguments of `create_job`. -/
structure Submission where
  namespaceId : String
  idempotencyKey : String
  request : PyValue
  deploymentId : Uuid
  inputs : List JobInput
  requiredArtifactKinds : List ArtifactKind

/-- `normalized_inputs`. -/
def Submission.normalizedInputs (sub : Submission) : List JobInput :=
  orderBy JobInput.role sub.inputs

/-- `required`. -/
def Submission.required (sub : Submission) : List ArtifactKind :=
  orderBy ArtifactKind.value sub.requiredArtifactKinds

/-- What `canonical_request_sha256` computes of a submission, before the hash. -/
def canonicalRequest (sub : Submission) : Except Error CanonicalRequest := do
  raiseIf (!sub.request.isMapping) (.type "request must be a mapping")
  let request ← canonicalJsonValue sub.request
  pure ⟨sub.deploymentId, sortKeys request,
    (orderBy JobInput.role sub.normalizedInputs).map fun i => (i.role, i.assetId),
    orderBy id (sub.required.map ArtifactKind.value)⟩

/-- What both repositories check and compute before they look at their state: the request's
hash. -/
def Submission.requestHash (digest : CanonicalRequest → String) (sub : Submission) :
    Except Error String := do
  raiseIf (isBlank sub.namespaceId) (.value "namespace_id must be non-empty")
  raiseIf (isBlank sub.idempotencyKey) (.value "idempotency_key must be non-empty")
  raiseIf sub.requiredArtifactKinds.isEmpty
    (.value "required_artifact_kinds must contain ArtifactKind values")
  raiseIf (!decide sub.requiredArtifactKinds.Nodup)
    (.value "required_artifact_kinds must be unique")
  let canonical ← canonicalRequest sub
  pure (digest canonical)

/-- The roles of the inputs are distinct. -/
def Submission.rolesUnique (sub : Submission) : Bool := decide (sub.inputs.map JobInput.role).Nodup

def idempotencyConflict : Error :=
  .conflict "idempotency key was already used for a different request"

def deploymentNotReady : Error := .transition "jobs require a READY deployment"

/-! ## The in-memory repository -/

structure MemoryRepository where
  deployments : Uuid → Option DeploymentRecord
  blobs : Uuid → Option BlobRecord
  blobByDigest : String → Option Uuid
  assets : Uuid → Option AssetRecord
  jobs : Uuid → Option JobRecord
  jobByIdempotency : String × String → Option Uuid
  attempts : Uuid → Option AttemptRecord
  attemptsByJob : Uuid → List Uuid
  artifacts : Uuid → Option ArtifactRecord
  artifactByAttemptKind : Uuid × ArtifactKind → Option Uuid
  workers : Uuid → Option WorkerRecord
  events : List JobEventRecord

/-- A repository as its constructor leaves it. -/
def MemoryRepository.empty : MemoryRepository where
  deployments _ := none
  blobs _ := none
  blobByDigest _ := none
  assets _ := none
  jobs _ := none
  jobByIdempotency _ := none
  attempts _ := none
  attemptsByJob _ := []
  artifacts _ := none
  artifactByAttemptKind _ := none
  workers _ := none
  events := []

/-- Look an entry up, or raise. -/
def require {α : Type} (entry : Option α) (e : Error) : Except Error α :=
  match entry with
  | none => .error e
  | some a => .ok a

namespace MemoryRepository

variable (m : MemoryRepository)

def requireDeployment (id : Uuid) := require (m.deployments id) (.notFound "deployment not found")

def requireBlob (id : Uuid) := require (m.blobs id) (.notFound "blob not found")

def requireAsset (id : Uuid) := require (m.assets id) (.notFound "asset not found")

def requireJob (id : Uuid) := require (m.jobs id) (.notFound "job not found")

def requireWorker (id : Uuid) := require (m.workers id) (.notFound "worker not found")

/-- `_event`. -/
def event (jobId : Uuid) (eventType : EventType) (attemptId : Option Uuid) : MemoryRepository :=
  { m with events := m.events ++ [⟨jobId, eventType, attemptId⟩] }

/-- `self._jobs[id] = job`. -/
def setJob (id : Uuid) (job : JobRecord) : MemoryRepository :=
  { m with jobs := Function.update m.jobs id (some job) }

def setAttempt (id : Uuid) (attempt : AttemptRecord) : MemoryRepository :=
  { m with attempts := Function.update m.attempts id (some attempt) }

def setWorker (id : Uuid) (worker : WorkerRecord) : MemoryRepository :=
  { m with workers := Function.update m.workers id (some worker) }

/-! ### Registration -/

def registerDeployment (deployment : DeploymentRecord) :
    Except Error DeploymentRecord × MemoryRepository :=
  if (m.deployments deployment.deploymentId).isSome then
    (.error (.invariant "deployment already exists"), m)
  else (.ok deployment, { m with
    deployments := Function.update m.deployments deployment.deploymentId (some deployment) })

def registerWorker (worker : WorkerRecord) : Except Error WorkerRecord × MemoryRepository :=
  match m.requireDeployment worker.deploymentId with
  | .error e => (.error e, m)
  | .ok _ =>
      if (m.workers worker.workerId).isSome then
        (.error (.invariant "worker already exists"), m)
      else (.ok worker, m.setWorker worker.workerId worker)

/-- `register_blob`: one digest names one blob. -/
def registerBlob (blob : BlobRecord) : Except Error BlobRecord × MemoryRepository :=
  match (m.blobByDigest blob.sha256).bind m.blobs with
  | some existing =>
      if existing.sizeBytes != blob.sizeBytes || existing.storageKey != blob.storageKey
          || existing.state != blob.state || existing.contentType != blob.contentType then
        (.error (.invariant "SHA-256 identity cannot map to different blob metadata"), m)
      else (.ok existing, m)
  | none =>
      if (m.blobs blob.blobId).isSome then (.error (.invariant "blob id already exists"), m)
      else (.ok blob, { m with
        blobs := Function.update m.blobs blob.blobId (some blob)
        blobByDigest := Function.update m.blobByDigest blob.sha256 (some blob.blobId) })

def createAsset (asset : AssetRecord) : Except Error AssetRecord × MemoryRepository :=
  match m.requireBlob asset.blobId with
  | .error e => (.error e, m)
  | .ok blob =>
      if (m.assets asset.assetId).isSome then (.error (.invariant "asset already exists"), m)
      else if asset.state == .verified && blob.state != .verified then
        (.error (.invariant "a VERIFIED asset requires a VERIFIED blob"), m)
      else (.ok asset, { m with assets := Function.update m.assets asset.assetId (some asset) })

/-! ### Submission -/

/-- The checks on one input of a new job. -/
def checkInput (namespaceId : String) (item : JobInput) : Except Error Unit := do
  let asset ← m.requireAsset item.assetId
  raiseIf (asset.namespaceId != namespaceId)
    (.invariant "job input asset belongs to another namespace")
  raiseIf (asset.state != .verified) (.invariant "only VERIFIED assets may enter a job")
  let blob ← m.requireBlob asset.blobId
  raiseIf (blob.state != .verified) (.invariant "only verified blob content may enter a job")

/-- The checks a submission under a new key passes, and the job it then creates. -/
def creatable (jobId : Uuid) (hash : String) (sub : Submission) : Except Error JobRecord := do
  let deployment ← m.requireDeployment sub.deploymentId
  raiseIf (deployment.state != .ready) deploymentNotReady
  raiseIf (!sub.rolesUnique) (.invariant "job input roles must be unique")
  sub.normalizedInputs.forM (m.checkInput sub.namespaceId)
  JobRecord.checked ⟨jobId, sub.namespaceId, sub.idempotencyKey, hash, sub.request,
    sub.deploymentId, sub.normalizedInputs, sub.required, .queued, none, none, false, 0⟩

/-- `create_job`; `jobId` is the fresh identifier. -/
def createJob (digest : CanonicalRequest → String) (jobId : Uuid) (sub : Submission) :
    Except Error JobRecord × MemoryRepository :=
  match sub.requestHash digest with
  | .error e => (.error e, m)
  | .ok hash =>
      -- here the key comes before the deployment, in PostgreSQL after it
      match m.jobByIdempotency (sub.namespaceId, sub.idempotencyKey) with
      | some existingId =>
          match m.requireJob existingId with
          | .error e => (.error e, m)
          | .ok existing =>
              if existing.requestSha256 != hash then (.error idempotencyConflict, m)
              else (.ok existing, m)
      | none =>
          match m.creatable jobId hash sub with
          | .error e => (.error e, m)
          | .ok job => (.ok job, ({ m.setJob jobId job with
              jobByIdempotency := Function.update m.jobByIdempotency
                (sub.namespaceId, sub.idempotencyKey) (some jobId) }).event jobId .jobCreated none)

/-! ### Progress -/

/-- `_active_attempt`. -/
def activeAttempt (jobId attemptId : Uuid) : Except Error (JobRecord × AttemptRecord) := do
  let job ← m.requireJob jobId
  let attempt ← require (m.attempts attemptId) (.notFound "attempt not found")
  raiseIf (job.state != .running || job.currentAttemptId != some attemptId
      || attempt.jobId != jobId || attempt.state != .active
      || attempt.leaseEpoch != job.leaseEpoch)
    (.transition "attempt is not the job's current active attempt")
  pure (job, attempt)

/-- The checks of `start_attempt`. -/
def startable (jobId workerId : Uuid) : Except Error (JobRecord × WorkerRecord) := do
  let job ← m.requireJob jobId
  let worker ← m.requireWorker workerId
  raiseIf (worker.state != .ready) (.transition "worker is not READY")
  raiseIf (worker.deploymentId != job.deploymentId)
    (.invariant "worker deployment does not match job deployment")
  raiseIf (job.state != .queued || job.currentAttemptId.isSome)
    (.transition "only a queued job without an attempt can start")
  raiseIf job.cancelRequested (.transition "cancelled job cannot start")
  pure (job, worker)

/-- `start_attempt`. -/
def startAttempt (attemptId jobId workerId : Uuid) :
    Except Error AttemptRecord × MemoryRepository :=
  match m.startable jobId workerId with
  | .error e => (.error e, m)
  | .ok (job, worker) =>
      let attempt : AttemptRecord := ⟨attemptId, jobId, workerId,
        (m.attemptsByJob jobId).length + 1, job.leaseEpoch + 1, .active⟩
      let m := { m.setAttempt attemptId attempt with
        attemptsByJob := Function.update m.attemptsByJob jobId
          (m.attemptsByJob jobId ++ [attemptId]) }
      let m := m.setJob jobId { job with
        state := .running, currentAttemptId := some attemptId, leaseEpoch := attempt.leaseEpoch }
      (.ok attempt, (m.setWorker workerId { worker with state := .busy }).event jobId
        .attemptStarted (some attemptId))

/-- `request_cancel`. -/
def requestCancel (jobId : Uuid) : Except Error JobRecord × MemoryRepository :=
  match m.requireJob jobId with
  | .error e => (.error e, m)
  | .ok job =>
      match job.state with
      | .queued =>
          let job := { job with state := .cancelled, cancelRequested := true }
          (.ok job, (m.event jobId .cancelRequested none).setJob jobId job)
      | .running =>
          let job := { job with cancelRequested := true }
          (.ok job, (m.event jobId .cancelRequested job.currentAttemptId).setJob jobId job)
      | _ => (.ok job, m)

/-- The writes every method that ends an attempt makes: the attempt, its worker, the job and the
event. -/
def endAttempt (jobId attemptId : Uuid) (updated : JobRecord) (attempt : AttemptRecord)
    (terminal : AttemptState) (eventType : EventType) : Except Error JobRecord × MemoryRepository :=
  let m := m.setAttempt attemptId { attempt with state := terminal }
  match m.requireWorker attempt.workerId with
  | .error e => (.error e, m)
  | .ok worker =>
      let m := m.setWorker attempt.workerId { worker with state := .ready }
      (.ok updated, (m.setJob jobId updated).event jobId eventType (some attemptId))

/-- The shape of `cancel_attempt`, `fail_attempt` and `retry_attempt`. -/
def finishAttempt (jobId attemptId : Uuid) (terminal : AttemptState) (eventType : EventType)
    (close : JobRecord → JobRecord) : Except Error JobRecord × MemoryRepository :=
  match m.activeAttempt jobId attemptId with
  | .error e => (.error e, m)
  | .ok (job, attempt) => m.endAttempt jobId attemptId (close job) attempt terminal eventType

/-- `cancel_attempt`. -/
def cancelAttempt (jobId attemptId : Uuid) : Except Error JobRecord × MemoryRepository :=
  m.finishAttempt jobId attemptId .cancelled .attemptCancelled fun job =>
    { job with state := .cancelled, currentAttemptId := none, cancelRequested := true }

/-- `fail_attempt`. -/
def failAttempt (jobId attemptId : Uuid) : Except Error JobRecord × MemoryRepository :=
  m.finishAttempt jobId attemptId .failedTerminal .attemptFailed fun job =>
    { job with state := .failed, currentAttemptId := none }

/-- `retry_attempt`. -/
def retryAttempt (jobId attemptId : Uuid) : Except Error JobRecord × MemoryRepository :=
  m.finishAttempt jobId attemptId .failedRetryable .attemptRequeued fun job =>
    { job with state := .queued, currentAttemptId := none }

/-- The checks on the proposed artifacts; `kinds` are those of the artifacts before. -/
def checkArtifacts (jobId attemptId : Uuid) :
    List ArtifactKind → List ArtifactRecord → Except Error (List ArtifactKind)
  | kinds, [] => .ok kinds
  | kinds, artifact :: rest => do
      raiseIf (artifact.jobId != jobId || artifact.attemptId != attemptId)
        (.invariant "artifact does not belong to active attempt")
      raiseIf (artifact.state != .ready) (.invariant "successful job requires READY artifacts")
      let blob ← m.requireBlob artifact.blobId
      raiseIf (blob.state != .verified) (.invariant "READY artifact requires a VERIFIED blob")
      raiseIf (kinds.contains artifact.kind
          || (m.artifactByAttemptKind (attemptId, artifact.kind)).isSome)
        (.invariant "attempt cannot publish duplicate artifact kinds")
      checkArtifacts jobId attemptId (kinds ++ [artifact.kind]) rest

/-- The loop that stores the artifacts. It stops at an identifier in use, with the artifacts before
it stored. -/
def storeArtifacts (attemptId : Uuid) :
    List ArtifactRecord → MemoryRepository → Except Error Unit × MemoryRepository
  | [], m => (.ok (), m)
  | artifact :: rest, m =>
      if (m.artifacts artifact.artifactId).isSome then
        (.error (.invariant "artifact id already exists"), m)
      else storeArtifacts attemptId rest { m with
        artifacts := Function.update m.artifacts artifact.artifactId (some artifact)
        artifactByAttemptKind := Function.update m.artifactByAttemptKind
          (attemptId, artifact.kind) (some artifact.artifactId) }

/-- The checks of `publish_success`. -/
def publishable (jobId attemptId : Uuid) (proposed : List ArtifactRecord) :
    Except Error (JobRecord × AttemptRecord) := do
  let active ← m.activeAttempt jobId attemptId
  raiseIf active.1.cancelRequested (.transition "cancelled job cannot publish success")
  raiseIf proposed.isEmpty (.invariant "successful job requires at least one artifact")
  let kinds ← m.checkArtifacts jobId attemptId [] proposed
  raiseIf (!active.1.requiredArtifactKinds.all kinds.contains)
    (.invariant "successful job is missing required READY artifacts")
  pure active

/-- `publish_success`. -/
def publishSuccess (jobId attemptId : Uuid) (proposed : List ArtifactRecord) :
    Except Error JobRecord × MemoryRepository :=
  match m.publishable jobId attemptId proposed with
  | .error e => (.error e, m)
  | .ok (job, attempt) =>
      match storeArtifacts attemptId proposed m with
      | (.error e, m) => (.error e, m)
      | (.ok (), m) =>
          m.endAttempt jobId attemptId { job with state := .succeeded, currentAttemptId := none,
                                                  winningAttemptId := some attemptId }
            attempt .succeeded .jobSucceeded

end MemoryRepository

/-- A method of the in-memory repository, or a change of a registered record from outside. -/
inductive MemoryCall where
  | registerDeployment (deployment : DeploymentRecord)
  | registerWorker (worker : WorkerRecord)
  | registerBlob (blob : BlobRecord)
  | createAsset (asset : AssetRecord)
  | createJob (jobId : Uuid) (sub : Submission)
  | startAttempt (attemptId jobId workerId : Uuid)
  | requestCancel (jobId : Uuid)
  | cancelAttempt (jobId attemptId : Uuid)
  | failAttempt (jobId attemptId : Uuid)
  | retryAttempt (jobId attemptId : Uuid)
  | publishSuccess (jobId attemptId : Uuid) (proposed : List ArtifactRecord)
  | setDeployment (id : Uuid) (deployment : DeploymentRecord)
  | setAsset (id : Uuid) (asset : AssetRecord)
  | setBlob (id : Uuid) (blob : BlobRecord)

/-- The repository a call leaves. -/
def MemoryCall.run (digest : CanonicalRequest → String) :
    MemoryCall → MemoryRepository → MemoryRepository
  | .registerDeployment deployment, m => (m.registerDeployment deployment).2
  | .registerWorker worker, m => (m.registerWorker worker).2
  | .registerBlob blob, m => (m.registerBlob blob).2
  | .createAsset asset, m => (m.createAsset asset).2
  | .createJob jobId sub, m => (m.createJob digest jobId sub).2
  | .startAttempt attemptId jobId workerId, m => (m.startAttempt attemptId jobId workerId).2
  | .requestCancel jobId, m => (m.requestCancel jobId).2
  | .cancelAttempt jobId attemptId, m => (m.cancelAttempt jobId attemptId).2
  | .failAttempt jobId attemptId, m => (m.failAttempt jobId attemptId).2
  | .retryAttempt jobId attemptId, m => (m.retryAttempt jobId attemptId).2
  | .publishSuccess jobId attemptId proposed, m => (m.publishSuccess jobId attemptId proposed).2
  | .setDeployment id deployment, m =>
      { m with deployments := Function.update m.deployments id (some deployment) }
  | .setAsset id asset, m => { m with assets := Function.update m.assets id (some asset) }
  | .setBlob id blob, m => { m with blobs := Function.update m.blobs id (some blob) }

/-- The identifier a submission draws is one no job has. -/
def MemoryCall.fresh (m : MemoryRepository) : MemoryCall → Prop
  | .createJob jobId _ => m.jobs jobId = none
  | _ => True

/-- The in-memory repository under all of its callers. -/
def memorySystem (digest : CanonicalRequest → String) : System MemoryRepository where
  init m := m = MemoryRepository.empty
  step m m' := ∃ c : MemoryCall, c.fresh m ∧ m' = c.run digest m

end NanoAural
