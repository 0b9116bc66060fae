import NanoAural.Base.System
import NanoAural.Durable.Publication

/-!
# The queue and the ledger as one system

Any number of workers, reapers, sweepers and clients call the two repositories
in any order. A `Call` is one method with the arguments its caller chose; they
are unconstrained, so a stale worker, a forged lease or a wrong version is just
another call. The database clock advances between calls.
-/

namespace NanoAural

open Machine

/-- One call of a repository method, or the passing of time. -/
inductive Call where
  | tick (now : Time)
  | claimNext (held : Locks) (attemptId workerId : Uuid) (leaseSeconds : Int)
  | assertCurrent (lease : Lease)
  | cancellationRequested (lease : Lease)
  | loadReadyDeployment (held : Locks) (lease : Lease)
  | loadVerifiedInputEvidence (held : Locks) (lease : Lease)
  | heartbeat (lease : Lease) (leaseSeconds : Int)
  | requestCancel (jobId : Uuid)
  | cancelCurrent (held : Locks) (lease : Lease)
  | failRetryable (held : Locks) (lease : Lease) (retryDelaySeconds maxAttempts : Int)
  | reapExpired (held : Locks) (limit retryDelaySeconds maxAttempts : Int)
  | reserve (publicationId : Uuid) (lease : Lease) (spec : PublicationSpec)
  | recordObject (lease : Lease) (publicationId : Uuid) (expectedVersion : Nat)
      (observedSha256 : String) (observedSizeBytes : Nat)
  | recordValidated (lease : Lease) (publicationId : Uuid) (expectedVersion : Nat)
      (blob : BlobRecord) (validatorMetadata : PyValue)
  | reject (lease : Lease) (publicationId : Uuid) (expectedVersion : Nat) (reason : String)
  | abandon (publicationId : Uuid) (expectedVersion : Nat) (reason : String)
  | recordCleanup (publicationId : Uuid) (expectedVersion : Nat)
  | finalize (artifactId : Uuid → Uuid) (lease : Lease) (requested : List PublicationRow)

/-- Whether a call raised, and the database it left. -/
def outcome {α : Type} (r : Except Error α × Db) : Except Error Unit × Db :=
  (r.1.map fun _ => (), r.2)

def Call.run (json : JsonColumn) : Call → Db → Except Error Unit × Db
  | .tick now, db => (.ok (), { db with clock := max db.clock now })
  | .claimNext held attemptId workerId secs, db => outcome (NanoAural.claimNext held attemptId workerId secs db)
  | .assertCurrent lease, db => outcome (NanoAural.assertCurrent lease db)
  | .cancellationRequested lease, db => outcome (NanoAural.cancellationRequested lease db)
  | .loadReadyDeployment held lease, db => outcome (NanoAural.loadReadyDeployment held lease db)
  | .loadVerifiedInputEvidence held lease, db =>
      outcome (NanoAural.loadVerifiedInputEvidence held lease db)
  | .heartbeat lease secs, db => outcome (NanoAural.heartbeat lease secs db)
  | .requestCancel jobId, db => outcome (NanoAural.requestCancel jobId db)
  | .cancelCurrent held lease, db => outcome (NanoAural.cancelCurrent held lease db)
  | .failRetryable held lease delay maxAttempts, db =>
      outcome (NanoAural.failRetryable held lease delay maxAttempts db)
  | .reapExpired held limit delay maxAttempts, db =>
      outcome (NanoAural.reapExpired held limit delay maxAttempts db)
  | .reserve publicationId lease spec, db =>
      outcome (NanoAural.reserve json publicationId lease spec db)
  | .recordObject lease publicationId version sha256 size, db =>
      outcome (NanoAural.recordObject lease publicationId version sha256 size db)
  | .recordValidated lease publicationId version blob metadata, db =>
      outcome (NanoAural.recordValidated json lease publicationId version blob metadata db)
  | .reject lease publicationId version reason, db =>
      outcome (NanoAural.reject lease publicationId version reason db)
  | .abandon publicationId version reason, db =>
      outcome (NanoAural.abandon publicationId version reason db)
  | .recordCleanup publicationId version, db =>
      outcome (NanoAural.recordCleanup publicationId version db)
  | .finalize artifactId lease requested, db =>
      outcome (NanoAural.finalize json artifactId lease requested db)

/-- The lease a call acts under, for the calls that take one. -/
def Call.lease : Call → Option Lease
  | .assertCurrent lease | .cancellationRequested lease | .loadReadyDeployment _ lease
  | .loadVerifiedInputEvidence _ lease | .heartbeat lease _ | .cancelCurrent _ lease
  | .failRetryable _ lease _ _ | .reserve _ lease _ | .recordObject lease _ _ _ _
  | .recordValidated lease _ _ _ _ | .reject lease _ _ _ | .finalize _ lease _ => some lease
  | .tick _ | .claimNext .. | .requestCancel _ | .reapExpired .. | .abandon .. |
    .recordCleanup .. => none

/-- The retry budget a call applies. -/
def Call.maxAttempts : Call → Option Int
  | .failRetryable _ _ _ maxAttempts | .reapExpired _ _ _ maxAttempts => some maxAttempts
  | _ => none

/-- A queue whose jobs and workers are registered and whose first claim is still to come. -/
structure Registered (db : Db) : Prop where
  attempts : db.attempts.rows = []
  artifacts : db.artifacts.rows = []
  publications : db.publications.rows = []
  workers : ∀ w ∈ db.workers.rows, w.state = .ready
  /-- Every job waits, or was cancelled while it waited. -/
  jobs : ∀ j ∈ db.jobs.rows, j.leaseEpoch = 0 ∧ j.currentAttemptId = none
    ∧ j.winningAttemptId = none
    ∧ ((j.state = .queued ∧ j.cancelRequestedAt = none) ∨ j.state = .cancelled)

/-- Sixty-four zeros: a well-formed digest. -/
def zeroDigest : String := String.ofList (List.replicate 64 '0')

/-- One deployment, two workers and one queued job: a smallest registered queue. -/
def smallQueue : Db :=
  { Db.empty with
    deployments := ⟨[⟨1, "m", "a", "f", .dict [], .ready⟩], by decide, by decide⟩
    workers := ⟨[⟨7, 1, .ready, none⟩, ⟨8, 1, .ready, none⟩], by decide, by decide⟩
    jobs := ⟨[{ id := 5, namespaceId := "n", idempotencyKey := "k", requestSha256 := zeroDigest,
                requestJson := .dict [], modelDeploymentId := 1,
                requiredArtifactKinds := [.output], state := .queued, leaseEpoch := 0,
                currentAttemptId := none, winningAttemptId := none, cancelRequestedAt := none,
                retryNotBefore := none, createdAt := 0, updatedAt := 0 }], by decide, by decide⟩ }

theorem registered_smallQueue : Registered smallQueue where
  attempts := rfl
  artifacts := rfl
  publications := rfl
  workers := by decide
  jobs := by decide

/-- A column of mappings that JSON represents as they are. -/
def JsonColumn.plain : JsonColumn := ⟨id, (· == ·)⟩

/-- The small queue after worker 7 claimed its job for a minute. -/
def claimedQueue : Db := ((Call.claimNext .free 9 7 60).run .plain smallQueue).2

/-- The lease worker 7 was given. -/
def claimedLease : Lease := ⟨5, 9, 7, 1, 60 * second⟩

/-- The calls a run is made of, restricted to those `allowed`. -/
def durableSystem (json : JsonColumn) (allowed : Call → Prop) : System Db where
  init := Registered
  step db db' := ∃ c : Call, allowed c ∧ db' = (c.run json db).2

/-- The system in which every retry budget is at most `M`. -/
def boundedSystem (json : JsonColumn) (M : Nat) : System Db :=
  durableSystem json fun c => ∀ m, c.maxAttempts = some m → m ≤ M

/-- The system with no restriction on its callers. -/
def openSystem (json : JsonColumn) : System Db := durableSystem json fun _ => True

end NanoAural
