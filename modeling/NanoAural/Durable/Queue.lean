import NanoAural.Durable.Statements

/-!
# The lease queue

`PostgresLeaseQueue`, one definition per method. Each method is one transaction;
the locking reads that skip rows see the rows other open transactions hold at
that instant through `Locks`, so a method can be run alone or beside others.
-/

namespace NanoAural

open Relational

/-- The row identities a claim hands to its worker. -/
structure Lease where
  jobId : Uuid
  attemptId : Uuid
  workerId : Uuid
  leaseEpoch : Nat
  expiresAt : Time
  deriving DecidableEq, Repr

/-- The rows other transactions hold when a method's `FOR UPDATE SKIP LOCKED` read of the table
runs. -/
structure Locks where
  workers : Uuid → Bool
  jobs : Uuid → Bool
  attempts : Uuid → Bool

/-- No other transaction is open. -/
def Locks.free : Locks := ⟨fun _ => false, fun _ => false, fun _ => false⟩

def leaseLost : Error := .transition "lease is no longer current"

/-! ## Fences -/

/-- The attempt's lease has not run out. -/
def unexpired (db : Db) (a : AttemptRow) : Bool := a.leaseExpiresAt.any (db.clock < ·)

/-- The row condition every fence joins attempt, job and worker under. -/
def fenceHolds (lease : Lease) (a : AttemptRow) (j : JobRow) (w : WorkerRow) : Bool :=
  a.jobId == lease.jobId && a.workerId == lease.workerId && a.leaseEpoch == lease.leaseEpoch
    && a.state == .active && j.state == .running && j.currentAttemptId == some a.id
    && j.leaseEpoch == a.leaseEpoch && w.state == .busy

/-- `job_attempts a JOIN jobs j JOIN workers w WHERE ...`, for the rows a lease names. -/
def fenceRows (db : Db) (lease : Lease) : Option (AttemptRow × JobRow × WorkerRow) :=
  match db.attempts.find? lease.attemptId, db.jobs.find? lease.jobId,
      db.workers.find? lease.workerId with
  | some a, some j, some w => if fenceHolds lease a j w then some (a, j, w) else none
  | _, _, _ => none

/-- `_lock_current`: the rows in worker, job, attempt order. -/
def lockCurrent (held : Locks) (lease : Lease) (requireUnexpired : Bool) : Sql AttemptRow := do
  let worker ← select fun db => db.workers.find? lease.workerId
  Tx.ensure (worker.any fun w => w.state == .busy && !held.workers w.id) leaseLost
  let job ← select fun db => db.jobs.find? lease.jobId
  Tx.ensure (job.any fun j => j.state == .running && !held.jobs j.id) leaseLost
  let db ← select id
  let row := (fenceRows db lease).filter fun (a, _, _) =>
    (!requireUnexpired || unexpired db a) && !held.attempts a.id
  let (attempt, _, _) ← Tx.orFail row leaseLost
  pure attempt

/-- The row condition of `assert_current`. -/
def isCurrent (db : Db) (lease : Lease) : Bool :=
  (fenceRows db lease).any fun (a, j, _) => unexpired db a && j.cancelRequestedAt.isNone

/-- The read of `assert_current`, for use inside another method's transaction. -/
def assertCurrentRow (lease : Lease) : Sql Unit := do
  let current ← select fun db => isCurrent db lease
  Tx.ensure current leaseLost

/-- `assert_current`. -/
def assertCurrent (lease : Lease) : Db → Except Error Unit × Db := commit (assertCurrentRow lease)

/-- `cancellation_requested`. -/
def cancellationRequested (lease : Lease) : Db → Except Error Bool × Db := commit do
  let row ← select fun db =>
    match db.jobs.find? lease.jobId with
    | none => none
    | some j =>
        match j.currentAttemptId.bind db.attempts.find? with
        | none => none
        | some a =>
            if a.id == lease.attemptId && a.workerId == lease.workerId
                && a.leaseEpoch == lease.leaseEpoch && j.leaseEpoch == a.leaseEpoch
                && j.state == .running && a.state == .active
                && (db.workers.find? a.workerId).any (·.state == .busy) && unexpired db a then
              some j.cancelRequestedAt.isSome
            else none
  Tx.orFail row leaseLost

/-! ## What the statements set -/

/-- The attempt `claim_next` inserts. -/
def issuedAttempt (attemptId jobId workerId : Uuid) (attemptNo epoch : Nat) (now expiry : Time) :
    AttemptRow where
  id := attemptId
  jobId := jobId
  workerId := workerId
  attemptNo := attemptNo
  leaseEpoch := epoch
  state := .active
  heartbeatAt := some now
  leaseExpiresAt := some expiry
  finishedAt := none
  failureReason := none

def JobRow.start (attemptId : Uuid) (epoch : Nat) (now : Time) (j : JobRow) : JobRow :=
  { j with state := .running, currentAttemptId := some attemptId, leaseEpoch := epoch,
           retryNotBefore := none, updatedAt := now }

def WorkerRow.engage (now : Time) (w : WorkerRow) : WorkerRow :=
  { w with state := .busy, lastHeartbeatAt := some now }

def AttemptRow.renew (now expiry : Time) (a : AttemptRow) : AttemptRow :=
  { a with heartbeatAt := some now, leaseExpiresAt := some expiry }

def WorkerRow.beat (now : Time) (w : WorkerRow) : WorkerRow := { w with lastHeartbeatAt := some now }

def JobRow.requestCancel (now : Time) (j : JobRow) : JobRow :=
  { j with state := if j.state == .queued then .cancelled else j.state,
           cancelRequestedAt := some now, updatedAt := now }

def AttemptRow.finish (terminal : AttemptState) (now : Time) (reason : String) (a : AttemptRow) :
    AttemptRow :=
  { a with state := terminal, finishedAt := some now, heartbeatAt := none, leaseExpiresAt := none,
           failureReason := some reason }

def WorkerRow.release (w : WorkerRow) : WorkerRow := { w with state := .ready }

/-- The job of a closed attempt: requeued after a retryable failure, else terminal. -/
def JobRow.leave (terminal : AttemptState) (notBefore now : Time) (j : JobRow) : JobRow :=
  match terminal with
  | .failedRetryable =>
      { j with state := .queued, currentAttemptId := none, retryNotBefore := some notBefore,
               updatedAt := now }
  | .cancelled => { j with state := .cancelled, currentAttemptId := none, updatedAt := now }
  | _ => { j with state := .failed, currentAttemptId := none, updatedAt := now }

/-- The event that reports a closed attempt. -/
def closingEvent : AttemptState → EventType
  | .failedRetryable => .attemptRequeued
  | .cancelled => .attemptCancelled
  | _ => .attemptFailed

/-! ## Claiming -/

/-- The jobs a worker of a deployment may claim. -/
def claimable (db : Db) (modelDeploymentId : Uuid) (j : JobRow) : Bool :=
  j.state == .queued && j.cancelRequestedAt.isNone && j.modelDeploymentId == modelDeploymentId
    && j.retryNotBefore.all (· ≤ db.clock)

/-- `ORDER BY created_at,id FOR UPDATE SKIP LOCKED LIMIT 1`. -/
def nextJob (held : Locks) (modelDeploymentId : Uuid) (db : Db) : Option JobRow :=
  (orderBy (fun j : JobRow => toLex (j.createdAt, j.id)) (db.jobs.rows.filter fun j =>
    claimable db modelDeploymentId j && !held.jobs j.id)).head?

/-- `COALESCE(max(attempt_no),0)+1`. -/
def nextAttemptNo (db : Db) (jobId : Uuid) : Nat :=
  ((db.attempts.rows.filter (·.jobId == jobId)).map AttemptRow.attemptNo).foldl max 0 + 1

/-- `claim_next`; `attemptId` is the fresh `uuid4()`. -/
def claimNext (held : Locks) (attemptId workerId : Uuid) (leaseSeconds : Int) :
    Db → Except Error (Option Lease) × Db := commit do
  Tx.lift (positiveInt leaseSeconds "lease_seconds")
  -- a worker that another transaction has locked is skipped like one that is not READY
  let worker ← select fun db => (db.workers.find? workerId).filter fun w =>
    w.state == .ready && !held.workers w.id
  match worker with
  | none => pure none
  | some worker =>
      let job ← select (nextJob held worker.modelDeploymentId)
      match job with
      | none => pure none
      | some job =>
          let now ← select Db.clock
          let attemptNo ← select fun db => nextAttemptNo db job.id
          let epoch := job.leaseEpoch + 1
          let expiry := now + leaseSeconds.toNat * second
          insert attemptsTable (issuedAttempt attemptId job.id workerId attemptNo epoch now expiry)
          let _ ← update jobsTable job.id (fun _ => true) (JobRow.start attemptId epoch now)
          let _ ← update workersTable workerId (fun _ => true) (WorkerRow.engage now)
          event job.id (some attemptId) .attemptStarted
          pure (some ⟨job.id, attemptId, workerId, epoch, expiry⟩)

/-! ## Reading under the fence -/

/-- The READY deployment that a lease's job and worker share. -/
def readyRow (lease : Lease) (db : Db) : Option DeploymentRow :=
  match db.jobs.find? lease.jobId, db.workers.find? lease.workerId with
  | some j, some w =>
      if j.currentAttemptId == some lease.attemptId
          && w.modelDeploymentId == j.modelDeploymentId then
        (db.deployments.find? j.modelDeploymentId).filter (·.state == .ready)
      else none
  | _, _ => none

/-- `load_ready_deployment` under the row locks. -/
def readyDeployment (lease : Lease) : Sql DeploymentRecord := do
  let row ← select (readyRow lease)
  let d ← Tx.orFail row (.transition "worker/job deployment is not READY and identical")
  assertCurrentRow lease
  Tx.lift (DeploymentRecord.checked ⟨d.id, d.name, d.adapterId, d.fingerprint, .ready, d.manifest⟩)

/-- `load_ready_deployment`. -/
def loadReadyDeployment (held : Locks) (lease : Lease) :
    Db → Except Error DeploymentRecord × Db := commit do
  let _ ← lockCurrent held lease true
  readyDeployment lease

/-- One input with its verified asset and canonical blob. -/
structure VerifiedInputEvidence where
  role : String
  asset : AssetRecord
  blob : BlobRecord
  deriving DecidableEq, Repr

/-- The rows of one job input whose asset and blob are VERIFIED in the job's namespace. -/
def verifiedInput (db : Db) (j : JobRow) (i : JobInputRow) :
    Option (JobInputRow × AssetRow × BlobRow) :=
  match db.assets.find? i.assetId with
  | none => none
  | some asset =>
      match db.blobs.find? asset.blobId with
      | none => none
      | some blob =>
          if asset.namespaceId == j.namespaceId && asset.state == .verified
              && blob.state == .verified then some (i, asset, blob) else none

/-- `SELECT ... FROM job_inputs WHERE job_id=...`. -/
def inputsOf (db : Db) (jobId : Uuid) : List JobInputRow :=
  db.jobInputs.rows.filter (·.jobId == jobId)

def evidenceOf : JobInputRow × AssetRow × BlobRow → Except Error VerifiedInputEvidence
  | (i, asset, blob) => do
      let a ← AssetRecord.checked
        ⟨asset.id, asset.blobId, asset.namespaceId, asset.kind, .verified, asset.metadata⟩
      let b ← BlobRecord.checked
        ⟨asset.blobId, blob.sha256, blob.sizeBytes, blob.storageKey, .verified, blob.contentType⟩
      pure ⟨i.role, a, b⟩

/-- `load_verified_input_evidence` under the row locks. -/
def verifiedInputEvidence (lease : Lease) :
    Sql (JobRecord × AttemptRecord × List VerifiedInputEvidence) := do
  let inputCount ← select fun db => (inputsOf db lease.jobId).length
  -- the job and its current attempt, which every row of the join repeats
  let header ← select fun db =>
    match db.jobs.find? lease.jobId, db.attempts.find? lease.attemptId with
    | some j, some a =>
        if j.currentAttemptId == some a.id && a.leaseEpoch == lease.leaseEpoch then some (j, a)
        else none
    | _, _ => none
  let rows ← select fun db =>
    match header with
    | none => []
    | some (j, _) => orderBy (fun r : JobInputRow × AssetRow × BlobRow => r.1.role)
        ((inputsOf db lease.jobId).filterMap (verifiedInput db j))
  Tx.ensure (rows.length == inputCount)
    (.transition "job inputs are not all verified canonical assets")
  let (j, a) ← Tx.orFail header (.transition "current lease disappeared")
  let inputs ← Tx.lift (rows.mapM fun r => JobInput.checked r.1.role r.2.1.id)
  let job ← Tx.lift (JobRecord.checked ⟨lease.jobId, j.namespaceId, j.idempotencyKey,
    j.requestSha256, j.requestJson, j.modelDeploymentId, inputs, j.requiredArtifactKinds,
    .running, some lease.attemptId, none, false, j.leaseEpoch⟩)
  let evidence ← Tx.lift (rows.mapM evidenceOf)
  assertCurrentRow lease
  pure (job, ⟨lease.attemptId, lease.jobId, lease.workerId, a.attemptNo, lease.leaseEpoch, .active⟩,
    evidence)

/-- `load_verified_input_evidence`. -/
def loadVerifiedInputEvidence (held : Locks) (lease : Lease) :
    Db → Except Error (JobRecord × AttemptRecord × List VerifiedInputEvidence) × Db := commit do
  let _ ← lockCurrent held lease true
  verifiedInputEvidence lease

/-! ## Heartbeats and cancellation -/

/-- `heartbeat` under the row locks. -/
def renewLease (lease : Lease) (leaseSeconds : Int) : Sql Lease := do
  let db ← select id
  let expiry := db.clock + leaseSeconds.toNat * second
  let changed ← update attemptsTable lease.attemptId (fun _ => isCurrent db lease)
    (AttemptRow.renew db.clock expiry)
  Tx.ensure (changed == 1) leaseLost
  let _ ← update workersTable lease.workerId (·.state == .busy) (WorkerRow.beat db.clock)
  pure { lease with expiresAt := expiry }

/-- `heartbeat`: the only fence that waits for a held row instead of skipping it. -/
def heartbeat (lease : Lease) (leaseSeconds : Int) : Db → Except Error Lease × Db := commit do
  Tx.lift (positiveInt leaseSeconds "lease_seconds")
  let _ ← lockCurrent .free lease true
  renewLease lease leaseSeconds

/-- `request_cancel`. -/
def requestCancel (jobId : Uuid) : Db → Except Error Bool × Db := commit do
  let row ← select fun db => db.jobs.find? jobId
  match row with
  | none => pure false
  | some job =>
      if job.state == .queued || job.state == .running then
        let now ← select Db.clock
        let changed ← update jobsTable jobId (·.cancelRequestedAt.isNone) (JobRow.requestCancel now)
        if changed == 1 then
          event jobId job.currentAttemptId .cancelRequested
          pure true
        else pure false
      else pure false

/-! ## Closing a lease -/

/-- The attempt state a failure leads to. -/
def closingState (cancelled : Bool) (attemptNo : Nat) (maxAttempts : Int) : AttemptState :=
  if cancelled then .cancelled
  else if maxAttempts ≤ attemptNo then .failedTerminal else .failedRetryable

/-- The statements `_finish_lease` and `reap_expired` close a lease with; the reaper's `UPDATE`
of the attempt also asks for `state='active'`. -/
def closeLease (lease : Lease) (terminal : AttemptState) (onlyActive : Bool) (reason : String)
    (retryDelaySeconds : Int) : Sql Unit := do
  let now ← select Db.clock
  let _ ← update attemptsTable lease.attemptId (fun a => !onlyActive || a.state == .active)
    (AttemptRow.finish terminal now reason)
  let _ ← update workersTable lease.workerId (fun _ => true) WorkerRow.release
  let _ ← update jobsTable lease.jobId (·.currentAttemptId == some lease.attemptId)
    (JobRow.leave terminal (now + retryDelaySeconds.toNat * second) now)
  event lease.jobId (some lease.attemptId) (closingEvent terminal)

/-- `_finish_lease` under the row locks. -/
def closeCurrent (lease : Lease) (cancelled : Bool) (retryDelaySeconds maxAttempts : Int)
    (attempt : AttemptRow) : Sql Unit := do
  let requested ← select fun db => (db.jobs.find? lease.jobId).bind JobRow.cancelRequestedAt
  Tx.ensure (!(cancelled && requested.isNone)) (.transition "cancellation was not requested")
  let terminal := closingState (cancelled || requested.isSome) attempt.attemptNo maxAttempts
  closeLease lease terminal false
    (if terminal == .cancelled then "cancelled" else "worker_failure") retryDelaySeconds

/-- `_finish_lease`. -/
def finishLease (held : Locks) (lease : Lease) (cancelled : Bool) (retryDelaySeconds : Int)
    (maxAttempts : Int) : Sql Unit := do
  let attempt ← lockCurrent held lease true
  closeCurrent lease cancelled retryDelaySeconds maxAttempts attempt

/-- `cancel_current`. -/
def cancelCurrent (held : Locks) (lease : Lease) : Db → Except Error Unit × Db :=
  commit (finishLease held lease true 0 1)

/-- `fail_retryable`. -/
def failRetryable (held : Locks) (lease : Lease) (retryDelaySeconds : Int := 1)
    (maxAttempts : Int := 3) : Db → Except Error Unit × Db := commit do
  Tx.lift (positiveInt retryDelaySeconds "retry_delay_seconds")
  Tx.lift (positiveInt maxAttempts "max_attempts")
  finishLease held lease false retryDelaySeconds maxAttempts

/-! ## Reaping -/

/-- `ORDER BY a.lease_expires_at LIMIT ...` over the current attempts whose lease ran out. -/
def expiredAttempts (db : Db) (limit : Int) : List AttemptRow :=
  (orderBy (fun a : AttemptRow => a.leaseExpiresAt.getD 0) (db.attempts.rows.filter fun a =>
    a.state == .active && a.leaseExpiresAt.any (· ≤ db.clock)
      && (db.jobs.find? a.jobId).any (·.currentAttemptId == some a.id))).take limit.toNat

/-- One candidate of the reaper: a row it cannot lock, or that is no longer expired, is passed
over. -/
def reapOne (held : Locks) (retryDelaySeconds maxAttempts : Int) (row : AttemptRow) :
    Sql Nat := fun s =>
  let lease : Lease := ⟨row.jobId, row.id, row.workerId, row.leaseEpoch, 0⟩
  match lockCurrent held lease false s with
  | .error _ => .ok (0, s)
  | .ok (current, s) =>
      (do
        -- the worker may have renewed the lease since the candidates were read
        let stillExpired ← select fun db =>
          (db.attempts.find? row.id).any fun a : AttemptRow =>
            a.leaseExpiresAt.any (· ≤ db.clock)
        if stillExpired then
          let cancelled ← select fun db =>
            ((db.jobs.find? row.jobId).bind JobRow.cancelRequestedAt).isSome
          closeLease lease (closingState cancelled current.attemptNo maxAttempts) true
            "lease_expired" retryDelaySeconds
          pure 1
        else pure 0) s

/-- The loop of `reap_expired`. -/
def reapRows (held : Locks) (retryDelaySeconds maxAttempts : Int) : List AttemptRow → Sql Nat
  | [] => pure 0
  | row :: rows => do
      let n ← reapOne held retryDelaySeconds maxAttempts row
      let m ← reapRows held retryDelaySeconds maxAttempts rows
      pure (n + m)

/-- `reap_expired`. -/
def reapExpired (held : Locks) (limit : Int := 100) (retryDelaySeconds : Int := 1)
    (maxAttempts : Int := 3) : Db → Except Error Nat × Db := commit do
  Tx.lift (positiveInt limit "limit")
  Tx.lift (positiveInt retryDelaySeconds "retry_delay_seconds")
  Tx.lift (positiveInt maxAttempts "max_attempts")
  let rows ← select fun db => expiredAttempts db limit
  reapRows held retryDelaySeconds maxAttempts rows

end NanoAural
