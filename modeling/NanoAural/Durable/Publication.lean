import NanoAural.Durable.Queue

/-!
# The publication ledger

`PostgresPublicationRepository`, one definition per method. Object I/O is not
here: a method records evidence its caller gathered, under the lease fence, and
`finalize` makes the winner visible.
-/

namespace NanoAural

open Relational

/-- What a candidate asks the ledger to reserve. An invalid specification cannot be built. -/
structure PublicationSpec where
  kind : ArtifactKind
  contentType : String
  maxSizeBytes : Nat
  expectedSha256 : Option String
  expectedSizeBytes : Option Nat
  metadata : PyValue
  contentType_text : isBlank contentType = false
  maxSizeBytes_pos : 0 < maxSizeBytes
  expectedSha256_digest : expectedSha256.all acceptsSha256 = true
  expectedSizeBytes_le : expectedSizeBytes.all (· ≤ maxSizeBytes) = true

structure VisibleArtifact where
  artifactId : Uuid
  publicationId : Uuid
  jobId : Uuid
  attemptId : Uuid
  kind : ArtifactKind
  blobId : Uuid
  sha256 : String
  sizeBytes : Nat
  storageKey : String
  contentType : String
  metadata : PyValue
  deriving DecidableEq, Repr

/-- `reserved`, `object_written` or `validated`: the rows a worker may still move. -/
def PublicationState.open (s : PublicationState) : Bool := !s.terminal

/-! ## What the statements set -/

def PublicationRow.recordObject (key : AttemptKey) (observedSha256 : String)
    (observedSizeBytes : Nat) (now : Time) (p : PublicationRow) : PublicationRow :=
  { p with state := .objectWritten, version := p.version + 1, attemptObjectKey := some key,
           observedSha256 := some observedSha256, observedSizeBytes := some observedSizeBytes,
           updatedAt := now }

def PublicationRow.recordValidated (blobId : Uuid) (contentType : String)
    (validatorMetadata : PyValue) (now : Time) (p : PublicationRow) : PublicationRow :=
  { p with state := .validated, version := p.version + 1, canonicalBlobId := some blobId,
           observedContentType := some contentType, validatorMetadata := some validatorMetadata,
           updatedAt := now }

def PublicationRow.terminalize (state : PublicationState) (reason : String) (now : Time)
    (p : PublicationRow) : PublicationRow :=
  { p with state := state, version := p.version + 1, terminalReason := some reason,
           terminalAt := some now, updatedAt := now }

def PublicationRow.startGrace (now : Time) (p : PublicationRow) : PublicationRow :=
  { p with version := p.version + 1, staleSince := some now, updatedAt := now }

def PublicationRow.recordCleanup (now : Time) (p : PublicationRow) : PublicationRow :=
  { p with version := p.version + 1, attemptObjectDeletedAt := some now, updatedAt := now }

def PublicationRow.finalize (now : Time) (p : PublicationRow) : PublicationRow :=
  { p with state := .finalized, version := p.version + 1, terminalAt := some now,
           updatedAt := now }

/-! ## Fences -/

/-- `_lock_lease`: the required kinds of the job the lease holds. -/
def lockLease (lease : Lease) : Sql (List ArtifactKind) := do
  let worker ← select fun db => db.workers.find? lease.workerId
  Tx.ensure (worker.any (·.state == .busy)) leaseLost
  let row ← select fun db => (db.jobs.find? lease.jobId).filter fun j =>
    j.state == .running && j.currentAttemptId == some lease.attemptId
      && j.leaseEpoch == lease.leaseEpoch && j.cancelRequestedAt.isNone
  let job ← Tx.orFail row leaseLost
  let attempt ← select fun db => db.attempts.find? lease.attemptId
  let now ← select Db.clock
  Tx.ensure (attempt.any fun a => a.jobId == lease.jobId && a.workerId == lease.workerId
    && a.leaseEpoch == lease.leaseEpoch && a.state == .active
    && a.leaseExpiresAt.any (now < ·)) leaseLost
  pure job.requiredArtifactKinds

def publicationNotFound : Error := .notFound "publication not found"

/-- `_select_record`, and the row lock of `abandon` and `record_cleanup`. -/
def selectRecord (publicationId : Uuid) : Sql PublicationRow := do
  let row ← select fun db => db.publications.find? publicationId
  Tx.orFail row publicationNotFound

/-- The row was reserved under this lease. -/
def PublicationRow.ownedBy (p : PublicationRow) (lease : Lease) : Bool :=
  p.jobId == lease.jobId && p.attemptId == lease.attemptId && p.workerId == lease.workerId
    && p.leaseEpoch == lease.leaseEpoch

/-- `_lock_publication`. -/
def lockPublication (lease : Lease) (publicationId : Uuid) : Sql PublicationRow := do
  let current ← selectRecord publicationId
  Tx.ensure (current.ownedBy lease) (.transition "publication is owned by another lease")
  pure current

section Repository

variable (json : JsonColumn)

/-! ## Advancing a publication -/

/-- `_matches_spec`. -/
def matchesSpec (record : PublicationRow) (lease : Lease) (spec : PublicationSpec) : Bool :=
  record.ownedBy lease && record.kind == spec.kind
    && record.expectedContentType == spec.contentType && record.maxSizeBytes == spec.maxSizeBytes
    && record.expectedSha256 == spec.expectedSha256
    && record.expectedSizeBytes == spec.expectedSizeBytes
    && json.same record.metadata spec.metadata

/-- The row `reserve` inserts. -/
def reservedRow (publicationId : Uuid) (lease : Lease) (spec : PublicationSpec) (now : Time) :
    PublicationRow where
  id := publicationId
  jobId := lease.jobId
  attemptId := lease.attemptId
  workerId := lease.workerId
  leaseEpoch := lease.leaseEpoch
  kind := spec.kind
  expectedSha256 := spec.expectedSha256
  expectedSizeBytes := spec.expectedSizeBytes
  expectedContentType := spec.contentType
  maxSizeBytes := spec.maxSizeBytes
  metadata := json.roundTrip spec.metadata
  attemptObjectKey := none
  observedSha256 := none
  observedSizeBytes := none
  observedContentType := none
  validatorMetadata := none
  canonicalBlobId := none
  state := .reserved
  version := 0
  terminalReason := none
  createdAt := now
  updatedAt := now
  terminalAt := none
  attemptObjectDeletedAt := none
  staleSince := none

/-- `reserve`; `publicationId` is the fresh `uuid4()`. -/
def reserve (publicationId : Uuid) (lease : Lease) (spec : PublicationSpec) :
    Db → Except Error PublicationRow × Db := commit do
  let _ ← lockLease lease
  let now ← select Db.clock
  let added ← insertUnless publicationsTable (fun new old =>
    old.attemptId == new.attemptId && old.kind == new.kind)
    (reservedRow json publicationId lease spec now)
  if added then selectRecord publicationId
  else
    let existing ← select fun db => db.publications.rows.find? fun p =>
      p.attemptId == lease.attemptId && p.kind == spec.kind
    let record ← Tx.orFail existing (.transition "publication reservation disappeared")
    Tx.ensure (matchesSpec json record lease spec)
      (.transition "publication kind was reserved with other identity")
    pure record

/-- `record_object`. -/
def recordObject (lease : Lease) (publicationId : Uuid) (expectedVersion : Nat)
    (observedSha256 : String) (observedSizeBytes : Nat) :
    Db → Except Error PublicationRow × Db := commit do
  Tx.ensure (acceptsSha256 observedSha256)
    (.value "observed_sha256 must be a lowercase full SHA-256")
  let _ ← lockLease lease
  let current ← lockPublication lease publicationId
  Tx.ensure (current.state == .reserved && current.version == expectedVersion)
    (.transition "publication object CAS lost")
  Tx.ensure (observedSizeBytes ≤ current.maxSizeBytes)
    (.invariant "publication object exceeds sealed size limit")
  let now ← select Db.clock
  let changed ← update publicationsTable publicationId
    (fun p => p.state == .reserved && p.version == expectedVersion)
    (PublicationRow.recordObject current.key observedSha256 observedSizeBytes now)
  Tx.ensure (changed == 1) (.transition "publication object CAS lost")
  selectRecord publicationId

/-- `INSERT INTO blobs ... ON CONFLICT DO NOTHING`, else the row with that digest. -/
def ensureBlob (blob : BlobRecord) : Sql (Option BlobRow) := do
  let row : BlobRow :=
    ⟨blob.blobId, blob.sha256, blob.sizeBytes, blob.storageKey, blob.contentType, .verified⟩
  let added ← insertUnless blobsTable
    (fun new old => old.id == new.id || Schema.clash new old) row
  if added then pure (some row)
  else select fun db => db.blobs.rows.find? (·.sha256 == blob.sha256)

/-- `record_validated`. -/
def recordValidated (lease : Lease) (publicationId : Uuid) (expectedVersion : Nat)
    (blob : BlobRecord) (validatorMetadata : PyValue) :
    Db → Except Error PublicationRow × Db := commit do
  Tx.ensure (blob.state == .verified)
    (.invariant "validated publication requires a VERIFIED blob")
  Tx.ensure (blob.storageKey == canonicalKey blob.sha256)
    (.invariant "validated publication blob key is not canonical")
  let _ ← lockLease lease
  let current ← lockPublication lease publicationId
  Tx.ensure (current.state == .objectWritten && current.version == expectedVersion)
    (.transition "publication validation CAS lost")
  Tx.ensure (current.observedSha256 == some blob.sha256
      && current.observedSizeBytes == some blob.sizeBytes
      && current.expectedContentType == blob.contentType)
    (.invariant "validated blob differs from recorded object evidence")
  let found ← ensureBlob blob
  let row ← Tx.orFail (found.filter fun b => b.sizeBytes == blob.sizeBytes
      && b.storageKey == blob.storageKey && b.contentType == blob.contentType
      && b.state == .verified)
    (.invariant "canonical SHA maps to conflicting blob metadata")
  let now ← select Db.clock
  let changed ← update publicationsTable publicationId
    (fun p => p.state == .objectWritten && p.version == expectedVersion)
    (PublicationRow.recordValidated row.id blob.contentType (json.roundTrip validatorMetadata) now)
  Tx.ensure (changed == 1) (.transition "publication validation CAS lost")
  selectRecord publicationId

/-! ## Ending a publication -/

/-- `_terminalize`. -/
def terminalize (lease : Lease) (publicationId : Uuid) (expectedVersion : Nat)
    (state : PublicationState) (reason : String) :
    Db → Except Error PublicationRow × Db := commit do
  Tx.ensure (!isBlank reason) (.value "reason must be a non-empty string")
  let _ ← lockLease lease
  let current ← lockPublication lease publicationId
  Tx.ensure (current.version == expectedVersion && current.state.open)
    (.transition "publication terminal CAS lost")
  let now ← select Db.clock
  let changed ← update publicationsTable publicationId
    (fun p => p.version == expectedVersion && p.state.open)
    (PublicationRow.terminalize state reason now)
  Tx.ensure (changed == 1) (.transition "publication terminal CAS lost")
  selectRecord publicationId

/-- `reject`. -/
def reject (lease : Lease) (publicationId : Uuid) (expectedVersion : Nat) (reason : String) :
    Db → Except Error PublicationRow × Db :=
  terminalize lease publicationId expectedVersion .rejected reason

/-- The transaction of `abandon`, with whether it only started the grace period. -/
def abandonRow (publicationId : Uuid) (expectedVersion : Nat) (reason : String) :
    Sql (Bool × PublicationRow) := do
  Tx.ensure (!isBlank reason) (.value "reason must be a non-empty string")
  let current ← selectRecord publicationId
  Tx.ensure (current.version == expectedVersion && current.state.open)
    (.transition "publication abandon CAS lost")
  let now ← select Db.clock
  -- the first call starts the grace that a later one waits for
  match current.staleSince with
  | none =>
      let changed ← update publicationsTable publicationId
        (fun p => p.version == expectedVersion && p.staleSince.isNone && p.state.open)
        (PublicationRow.startGrace now)
      Tx.ensure (changed == 1) (.transition "publication stale grace CAS lost")
      let result ← selectRecord publicationId
      pure (true, result)
  | some since =>
      Tx.ensure (since + staleGrace ≤ now)
        (.transition "publication stale grace has not elapsed")
      let changed ← update publicationsTable publicationId
        (fun p => p.version == expectedVersion && p.state.open)
        (PublicationRow.terminalize .abandoned reason now)
      Tx.ensure (changed == 1) (.transition "publication abandon CAS lost")
      let result ← selectRecord publicationId
      pure (false, result)

/-- `abandon`: starting the grace period is committed, and reported as an exception. -/
def abandon (publicationId : Uuid) (expectedVersion : Nat) (reason : String) (db : Db) :
    Except Error PublicationRow × Db :=
  match commit (abandonRow publicationId expectedVersion reason) db with
  | (.ok (true, _), db') => (.error (.transition "publication stale grace has started"), db')
  | (.ok (false, result), db') => (.ok result, db')
  | (.error e, db') => (.error e, db')

/-- `record_cleanup`. -/
def recordCleanup (publicationId : Uuid) (expectedVersion : Nat) :
    Db → Except Error PublicationRow × Db := commit do
  let current ← selectRecord publicationId
  Tx.ensure (current.version == expectedVersion && current.state.terminal
      && current.attemptObjectDeletedAt.isNone)
    (.transition "publication cleanup CAS lost")
  let now ← select Db.clock
  let changed ← update publicationsTable publicationId
    (fun p => p.version == expectedVersion && p.attemptObjectDeletedAt.isNone && p.state.terminal)
    (PublicationRow.recordCleanup now)
  Tx.ensure (changed == 1) (.transition "publication cleanup CAS lost")
  selectRecord publicationId

/-! ## Finalizing -/

/-- The artifact of one finalized publication; its blob is the publication's canonical one. -/
def artifactOf (artifactId : Uuid) (lease : Lease) (blobId : Uuid) (item : PublicationRow) :
    ArtifactRow :=
  ⟨artifactId, lease.jobId, lease.attemptId, blobId, item.kind, .ready,
    json.roundTrip item.metadata, item.id⟩

/-- The loop of `finalize`: insert each artifact and finalize its publication. -/
def finalizeItems (artifactId : Uuid → Uuid) (lease : Lease) : List PublicationRow → Sql Unit
  | [] => pure ()
  | item :: items => do
      let blobId ← Tx.orFail item.canonicalBlobId (.database "violates not-null constraint")
      insert artifactsTable (artifactOf json (artifactId item.id) lease blobId item)
      let now ← select Db.clock
      let changed ← update publicationsTable item.id
        (fun p => p.state == .validated && p.version == item.version)
        (PublicationRow.finalize now)
      Tx.ensure (changed == 1) (.transition "publication finalization CAS lost")
      finalizeItems artifactId lease items

def AttemptRow.succeed (now : Time) (a : AttemptRow) : AttemptRow :=
  { a with state := .succeeded, finishedAt := some now, heartbeatAt := none,
           leaseExpiresAt := none }

def JobRow.succeed (attemptId : Uuid) (now : Time) (j : JobRow) : JobRow :=
  { j with state := .succeeded, currentAttemptId := none, winningAttemptId := some attemptId,
           updatedAt := now }

/-- The row condition of the winner's `UPDATE job_attempts`. -/
def winnerHolds (db : Db) (lease : Lease) (a : AttemptRow) : Bool :=
  a.jobId == lease.jobId && a.workerId == lease.workerId && a.leaseEpoch == lease.leaseEpoch
    && a.state == .active && unexpired db a
    && (db.workers.find? a.workerId).any (·.state == .busy)
    && (db.jobs.find? a.jobId).any fun j => j.state == .running
        && j.currentAttemptId == some a.id && j.leaseEpoch == a.leaseEpoch
        && j.cancelRequestedAt.isNone

/-- The statements after the loop: attempt, worker, event and job. -/
def crownWinner (lease : Lease) : Sql Unit := do
  let db ← select id
  let attemptChanged ← update attemptsTable lease.attemptId (winnerHolds db lease)
    (AttemptRow.succeed db.clock)
  Tx.ensure (attemptChanged == 1) (.transition "winner lease expired before finalization")
  let _ ← update workersTable lease.workerId (fun _ => true) WorkerRow.release
  event lease.jobId (some lease.attemptId) .jobSucceeded
  let changed ← update jobsTable lease.jobId
    (fun j => j.state == .running && j.currentAttemptId == some lease.attemptId
      && j.leaseEpoch == lease.leaseEpoch && j.cancelRequestedAt.isNone)
    (JobRow.succeed lease.attemptId db.clock)
  Tx.ensure (changed == 1) (.transition "job winner CAS lost")

/-- The rows a finalization asks for, in id order. -/
def requestedRows (db : Db) (ids : List Uuid) : List PublicationRow :=
  orderBy PublicationRow.id (db.publications.rows.filter fun p => ids.contains p.id)

/-- Every requested row is this lease's, validated and at the version the caller saw. -/
def currentSet (lease : Lease) (requested current : List PublicationRow) : Bool :=
  current.all fun item => item.ownedBy lease && item.state == .validated
    && (requested.find? (·.id == item.id)).any (·.version == item.version)

/-- The transaction of `finalize`; `artifactId` draws the fresh `uuid4()` of each publication. -/
def finalizeRows (artifactId : Uuid → Uuid) (lease : Lease) (requested : List PublicationRow) :
    Sql Unit := do
  Tx.ensure (!requested.isEmpty) (.value "publications must not be empty")
  Tx.ensure (decide (requested.map PublicationRow.id).Nodup)
    (.value "publication ids must be unique")
  -- the source reads the attempt once more here, under the row lock `lockLease` took
  let required ← lockLease lease
  let current ← select fun db => requestedRows db (requested.map PublicationRow.id)
  Tx.ensure (current.length == requested.length) (.transition "publication set is incomplete")
  Tx.ensure (currentSet lease requested current)
    (.transition "publication set is stale or not validated")
  let kinds := current.map PublicationRow.kind
  Tx.ensure (kinds.all required.contains && required.all kinds.contains
      && current.length == required.length)
    (.invariant "finalization requires the exact required artifact kinds")
  let blobs ← select Db.blobs
  Tx.ensure (current.all fun item =>
      (item.canonicalBlobId.bind blobs.find?).any (·.state == .verified))
    (.invariant "finalization requires VERIFIED canonical blobs")
  finalizeItems json artifactId lease current
  crownWinner lease

/-- The columns `visible_winner` reads from an artifact and its blob. -/
def ArtifactRow.visible (b : BlobRow) (a : ArtifactRow) : VisibleArtifact :=
  ⟨a.id, a.publicationId, a.jobId, a.attemptId, a.kind, b.id, b.sha256, b.sizeBytes, b.storageKey,
    b.contentType, a.metadata⟩

/-- One row of the winner's join: an artifact with its publication and blob. -/
def visibleRow (db : Db) (j : JobRow) (a : ArtifactRow) : Option VisibleArtifact :=
  match db.publications.find? a.publicationId, db.blobs.find? a.blobId with
  | some p, some b =>
      if some a.attemptId == j.winningAttemptId && a.jobId == j.id && a.state == .ready
          && p.state == .finalized && p.jobId == j.id && some p.attemptId == j.winningAttemptId
          && p.canonicalBlobId == some a.blobId && b.state == .verified then
        some (a.visible b)
      else none
  | _, _ => none

/-- `visible_winner`. -/
def visibleWinner (jobId : Uuid) (namespaceId : Option String) (db : Db) : List VisibleArtifact :=
  match db.jobs.find? jobId with
  | none => []
  | some j =>
      if namespaceId.all (· == j.namespaceId) && j.state == .succeeded then
        orderBy (fun v : VisibleArtifact => v.kind.value)
          (db.artifacts.rows.filterMap (visibleRow db j))
      else []

/-- `finalize`: the winner is read back after the commit. -/
def finalize (artifactId : Uuid → Uuid) (lease : Lease) (requested : List PublicationRow)
    (db : Db) : Except Error (List VisibleArtifact) × Db :=
  match commit (finalizeRows json artifactId lease requested) db with
  | (.ok (), db') => (.ok (visibleWinner lease.jobId none db'), db')
  | (.error e, db') => (.error e, db')

end Repository

/-! ## Cleanup queries -/

def limitPositive (limit : Int) : Except Error Unit :=
  if limit < 1 then .error (.value "limit must be positive") else .ok ()

/-- The rows `cleanup_candidates` selects from. -/
def awaitsCleanup (before : Time) (p : PublicationRow) : Bool :=
  p.state.terminal && p.attemptObjectDeletedAt.isNone && p.terminalAt.any (· < before)

/-- `cleanup_candidates`. -/
def cleanupCandidates (before : Time) (limit : Int) :
    Db → Except Error (List PublicationRow) × Db := commit do
  Tx.lift (limitPositive limit)
  select fun db =>
    (orderBy (fun p : PublicationRow => toLex (p.terminalAt.getD 0, p.id))
      (db.publications.rows.filter (awaitsCleanup before))).take limit.toNat

/-- `known_attempt_keys`: its caller takes the result as a set. -/
def knownAttemptKeys (keys : List AttemptKey) (db : Db) : List AttemptKey :=
  db.publications.rows.filterMap fun p => p.attemptObjectKey.filter keys.contains

/-- The job or attempt no longer stands behind a publication; absent rows join as nulls. -/
def leaseIsGone (db : Db) (p : PublicationRow) : Bool :=
  let j := db.jobs.find? p.jobId
  let a := db.attempts.find? p.attemptId
  j.any (·.state != .running) || j.bind JobRow.currentAttemptId != some p.attemptId
    || a.any (·.state != .active) || a.any (·.leaseEpoch != p.leaseEpoch)

/-- The rows `orphan_keys_before` selects from. -/
def isOrphan (db : Db) (before : Time) (p : PublicationRow) : Bool :=
  p.attemptObjectKey.isSome && p.updatedAt < before && p.state != .finalized
    && (p.state == .rejected || p.state == .abandoned || leaseIsGone db p)

/-- The batch of `orphan_keys_before`, as rows. -/
def orphanRows (before : Time) (limit : Nat) (db : Db) : List PublicationRow :=
  (orderBy (fun p : PublicationRow => toLex (p.updatedAt, p.id))
    (db.publications.rows.filter (isOrphan db before))).take limit

/-- `orphan_keys_before`. -/
def orphanKeysBefore (before : Time) (limit : Int) :
    Db → Except Error (List AttemptKey) × Db := commit do
  Tx.lift (limitPositive limit)
  select fun db => (orphanRows before limit.toNat db).filterMap PublicationRow.attemptObjectKey

/-- `get`. -/
def getPublication (publicationId : Uuid) : Db → Except Error PublicationRow × Db :=
  commit (selectRecord publicationId)

end NanoAural
