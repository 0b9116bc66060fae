import Mathlib.Data.Prod.Lex
import Mathlib.Data.String.Basic
import NanoAural.Base.Table
import NanoAural.Base.Order
import NanoAural.Durable.Domain

/-!
# The durable schema

The tables the queue and the publication ledger live in, column by column as the
migrations declare them, with their check constraints and unique indexes. Only
columns that a modelled operation reads or writes are kept.
-/

namespace NanoAural

open Relational

/-! ## Rows -/

structure DeploymentRow where
  id : Uuid
  name : String
  adapterId : String
  fingerprint : String
  manifest : PyValue
  state : DeploymentState
  deriving DecidableEq, Repr

structure BlobRow where
  id : Uuid
  sha256 : String
  sizeBytes : Nat
  storageKey : String
  contentType : String
  state : BlobState
  deriving DecidableEq, Repr

structure AssetRow where
  id : Uuid
  namespaceId : String
  blobId : Uuid
  kind : AssetKind
  metadata : PyValue
  state : AssetState
  deriving DecidableEq, Repr

structure JobRow where
  id : Uuid
  namespaceId : String
  idempotencyKey : String
  requestSha256 : String
  requestJson : PyValue
  modelDeploymentId : Uuid
  requiredArtifactKinds : List ArtifactKind
  state : JobState
  leaseEpoch : Nat
  currentAttemptId : Option Uuid
  winningAttemptId : Option Uuid
  cancelRequestedAt : Option Time
  retryNotBefore : Option Time
  createdAt : Time
  updatedAt : Time
  deriving DecidableEq, Repr

structure JobInputRow where
  jobId : Uuid
  role : String
  assetId : Uuid
  deriving DecidableEq, Repr

structure WorkerRow where
  id : Uuid
  modelDeploymentId : Uuid
  state : WorkerState
  lastHeartbeatAt : Option Time
  deriving DecidableEq, Repr

structure AttemptRow where
  id : Uuid
  jobId : Uuid
  workerId : Uuid
  attemptNo : Nat
  leaseEpoch : Nat
  state : AttemptState
  heartbeatAt : Option Time
  leaseExpiresAt : Option Time
  finishedAt : Option Time
  failureReason : Option String
  deriving DecidableEq, Repr

structure ArtifactRow where
  id : Uuid
  jobId : Uuid
  attemptId : Uuid
  blobId : Uuid
  kind : ArtifactKind
  state : ArtifactState
  metadata : PyValue
  publicationId : Uuid
  deriving DecidableEq, Repr

structure EventRow where
  id : Nat
  jobId : Uuid
  attemptId : Option Uuid
  eventType : EventType
  deriving DecidableEq, Repr

structure PublicationRow where
  id : Uuid
  jobId : Uuid
  attemptId : Uuid
  workerId : Uuid
  leaseEpoch : Nat
  kind : ArtifactKind
  expectedSha256 : Option String
  expectedSizeBytes : Option Nat
  expectedContentType : String
  maxSizeBytes : Nat
  metadata : PyValue
  attemptObjectKey : Option AttemptKey
  observedSha256 : Option String
  observedSizeBytes : Option Nat
  observedContentType : Option String
  validatorMetadata : Option PyValue
  canonicalBlobId : Option Uuid
  state : PublicationState
  version : Nat
  terminalReason : Option String
  createdAt : Time
  updatedAt : Time
  terminalAt : Option Time
  attemptObjectDeletedAt : Option Time
  staleSince : Option Time
  deriving DecidableEq, Repr

/-- The only object key the ledger accepts for a row. -/
def PublicationRow.key (p : PublicationRow) : AttemptKey :=
  ⟨p.jobId, p.attemptId, p.leaseEpoch, p.kind, p.id⟩

/-! ## Constraints -/

/-- An optional digest column's check. -/
def optionalSha256 (value : Option String) : Bool := value.all isSha256

/-- `valid_required_artifact_kinds`. -/
def validRequiredArtifactKinds (kinds : List ArtifactKind) : Bool :=
  !kinds.isEmpty && decide kinds.Nodup

/-- `attempts_lease_shape_check`, and the two positive counters. -/
def AttemptRow.check (a : AttemptRow) : Bool :=
  0 < a.attemptNo && 0 < a.leaseEpoch
    && ((a.state == .active && a.finishedAt.isNone
          && (match a.heartbeatAt, a.leaseExpiresAt with
              | some beat, some expiry => beat < expiry
              | _, _ => false))
        || (a.state != .active && a.heartbeatAt.isNone && a.leaseExpiresAt.isNone
          && a.finishedAt.isSome))

/-- Which columns each publication state fills. -/
def PublicationRow.shape (p : PublicationRow) : Bool :=
  match p.state with
  | .reserved =>
      p.attemptObjectKey.isNone && p.observedSha256.isNone && p.observedSizeBytes.isNone
        && p.observedContentType.isNone && p.validatorMetadata.isNone && p.canonicalBlobId.isNone
        && p.terminalAt.isNone && p.terminalReason.isNone
  | .objectWritten =>
      p.attemptObjectKey.isSome && p.observedSha256.isSome && p.observedSizeBytes.isSome
        && p.observedContentType.isNone && p.validatorMetadata.isNone && p.canonicalBlobId.isNone
        && p.terminalAt.isNone && p.terminalReason.isNone
  | .validated =>
      p.attemptObjectKey.isSome && p.observedSha256.isSome && p.observedSizeBytes.isSome
        && p.observedContentType.isSome && p.validatorMetadata.isSome && p.canonicalBlobId.isSome
        && p.terminalAt.isNone && p.terminalReason.isNone
  | .finalized =>
      p.attemptObjectKey.isSome && p.observedSha256.isSome && p.observedSizeBytes.isSome
        && p.observedContentType.isSome && p.validatorMetadata.isSome && p.canonicalBlobId.isSome
        && p.terminalAt.isSome && p.terminalReason.isNone && p.staleSince.isNone
  | .rejected =>
      p.terminalAt.isSome && p.staleSince.isNone && p.terminalReason.any sqlTrimmed
  | .abandoned =>
      p.terminalAt.isSome && p.staleSince.isSome && p.terminalReason.any sqlTrimmed

/-- The checks of `artifact_publications`. -/
def PublicationRow.check (p : PublicationRow) : Bool :=
  0 < p.leaseEpoch && sqlTrimmed p.expectedContentType && 0 < p.maxSizeBytes
    && optionalSha256 p.expectedSha256 && optionalSha256 p.observedSha256
    && (p.expectedSha256.isNone || p.observedSha256.isNone || p.expectedSha256 == p.observedSha256)
    && (p.expectedSizeBytes.isNone || p.observedSizeBytes.isNone
        || p.expectedSizeBytes == p.observedSizeBytes)
    && p.expectedSizeBytes.all (· ≤ p.maxSizeBytes)
    && p.observedSizeBytes.all (· ≤ p.maxSizeBytes)
    && p.observedContentType.all (· == p.expectedContentType)
    && (p.attemptObjectDeletedAt.isNone || p.state.terminal)
    && p.attemptObjectKey.all (· == p.key)
    && p.shape

instance : Schema DeploymentRow Uuid where
  key := DeploymentRow.id
  check d := sqlTrimmed d.name && sqlTrimmed d.adapterId
  clash a b := a.name == b.name || a.fingerprint == b.fingerprint
  clash_comm a b := by simp only [Bool.beq_comm]

instance : Schema BlobRow Uuid where
  key := BlobRow.id
  check b := isSha256 b.sha256
  clash a b := a.sha256 == b.sha256 || a.storageKey == b.storageKey
  clash_comm a b := by simp only [Bool.beq_comm]

instance : Schema AssetRow Uuid where
  key := AssetRow.id
  check _ := true
  clash _ _ := false
  clash_comm _ _ := rfl

instance : Schema JobRow Uuid where
  key := JobRow.id
  check j := isSha256 j.requestSha256 && sqlTrimmed j.namespaceId && sqlTrimmed j.idempotencyKey
    && validRequiredArtifactKinds j.requiredArtifactKinds
  clash a b := a.namespaceId == b.namespaceId && a.idempotencyKey == b.idempotencyKey
  clash_comm a b := by simp only [Bool.beq_comm]

instance : Schema JobInputRow (Uuid × String) where
  key i := (i.jobId, i.role)
  check _ := true
  clash _ _ := false
  clash_comm _ _ := rfl

instance : Schema WorkerRow Uuid where
  key := WorkerRow.id
  check _ := true
  clash _ _ := false
  clash_comm _ _ := rfl

/-- `UNIQUE (job_id, attempt_no)`, `one_active_attempt_per_job` and
`one_active_attempt_per_worker`. -/
instance : Schema AttemptRow Uuid where
  key := AttemptRow.id
  check := AttemptRow.check
  clash a b := (a.jobId == b.jobId && a.attemptNo == b.attemptNo)
    || (a.state == .active && b.state == .active
        && (a.jobId == b.jobId || a.workerId == b.workerId))
  clash_comm a b := by
    simp only [Bool.beq_comm (a := a.jobId), Bool.beq_comm (a := a.attemptNo),
      Bool.beq_comm (a := a.workerId), Bool.and_comm (a.state == .active)]

instance : Schema ArtifactRow Uuid where
  key := ArtifactRow.id
  check _ := true
  clash a b := (a.attemptId == b.attemptId && a.kind == b.kind)
    || a.publicationId == b.publicationId
  clash_comm a b := by simp only [Bool.beq_comm]

/-- `one_job_succeeded_event_per_job`. -/
instance : Schema EventRow Nat where
  key := EventRow.id
  check _ := true
  clash a b := a.eventType == .jobSucceeded && b.eventType == .jobSucceeded && a.jobId == b.jobId
  clash_comm a b := by
    simp only [Bool.beq_comm (a := a.jobId), Bool.and_comm (a.eventType == .jobSucceeded)]

/-- `UNIQUE (attempt_id, kind)`. -/
instance : Schema PublicationRow Uuid where
  key := PublicationRow.id
  check := PublicationRow.check
  clash a b := a.attemptId == b.attemptId && a.kind == b.kind
  clash_comm a b := by simp only [Bool.beq_comm]

/-! ## The database -/

structure Db where
  /-- What `clock_timestamp()` reads. -/
  clock : Time
  deployments : Table DeploymentRow
  blobs : Table BlobRow
  assets : Table AssetRow
  jobs : Table JobRow
  jobInputs : Table JobInputRow
  workers : Table WorkerRow
  attempts : Table AttemptRow
  artifacts : Table ArtifactRow
  events : Table EventRow
  publications : Table PublicationRow

/-- A freshly migrated database. -/
def Db.empty : Db :=
  ⟨0, .empty, .empty, .empty, .empty, .empty, .empty, .empty, .empty, .empty, .empty⟩

end NanoAural
