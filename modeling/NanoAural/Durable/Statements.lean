import NanoAural.Base.Transaction
import NanoAural.Durable.Schema

/-!
# Statements and the triggers that guard them

Every write the repositories issue is an `INSERT` of one row or an `UPDATE` of
one row by primary key. Both run the table's `BEFORE` triggers in the order
PostgreSQL fires them, then the constraints, and queue the table's deferred
constraint triggers and foreign keys for the commit.

`insert_ok` and `update_ok` say everything a statement can do; nothing above
this module looks inside one again.
-/

namespace NanoAural

open Relational

/-! ## Raising -/

/-- Raise the message of the first violated guard. -/
def raiseFirst : List (Bool × String) → Except Error Unit
  | [] => .ok ()
  | (violated, message) :: guards =>
      if violated then .error (.database message) else raiseFirst guards

theorem raiseFirst_ok {guards : List (Bool × String)} :
    raiseFirst guards = .ok () ↔ ∀ g ∈ guards, g.1 = false := by
  induction guards with
  | nil => simp [raiseFirst]
  | cons g gs ih =>
      obtain ⟨violated, message⟩ := g
      cases violated <;> simp [raiseFirst, ih]

/-- A guard list passes the row on unchanged. -/
def guarded {ρ : Type} (guards : List (Bool × String)) (row : ρ) : Except Error ρ :=
  match raiseFirst guards with
  | .ok () => .ok row
  | .error e => .error e

theorem guarded_ok {ρ : Type} {guards : List (Bool × String)} {row new : ρ} :
    guarded guards row = .ok new ↔ (∀ g ∈ guards, g.1 = false) ∧ new = row := by
  unfold guarded
  rw [← raiseFirst_ok]
  split
  · rename_i h; simp [h, eq_comm]
  · rename_i h; simp [h]

/-! ## Jobs and attempts: `BEFORE` triggers -/

def preventJobLeaseEpochDecrease (old new : JobRow) : List (Bool × String) :=
  [(new.leaseEpoch < old.leaseEpoch, "job lease epoch cannot decrease")]

def preventJobSemanticMutation (old new : JobRow) : List (Bool × String) :=
  [(new.namespaceId != old.namespaceId || new.idempotencyKey != old.idempotencyKey
      || new.requestSha256 != old.requestSha256 || new.requestJson != old.requestJson
      || new.modelDeploymentId != old.modelDeploymentId
      || new.requiredArtifactKinds != old.requiredArtifactKinds,
    "job request semantics are immutable"),
   (old.state.terminal && new != old, "terminal jobs are immutable")]

def ensureJobLifecycleShape (new : JobRow) : List (Bool × String) :=
  [(new.state == .queued && (new.currentAttemptId.isSome || new.winningAttemptId.isSome),
    "QUEUED job cannot have current or winning attempt"),
   (new.state == .running && (new.currentAttemptId.isNone || new.winningAttemptId.isSome),
    "RUNNING job requires current attempt and no winner"),
   ((new.state == .failed || new.state == .cancelled)
      && (new.currentAttemptId.isSome || new.winningAttemptId.isSome),
    "terminal non-success job cannot have current or winning attempt")]

/-- The kinds of the READY artifacts a job's winning attempt has over VERIFIED blobs. -/
def readyKinds (db : Db) (job : JobRow) : List ArtifactKind :=
  (db.artifacts.rows.filter fun a =>
    a.jobId == job.id && some a.attemptId == job.winningAttemptId && a.state == .ready
      && (db.blobs.find? a.blobId).any (·.state == .verified)).map ArtifactRow.kind

def ensureJobSuccessArtifacts (db : Db) (new : JobRow) : List (Bool × String) :=
  [(new.state == .succeeded
      && (new.currentAttemptId.isSome || new.winningAttemptId.isNone
        || new.cancelRequestedAt.isSome
        || !(db.attempts.rows.any fun a => a.jobId == new.id && some a.id == new.winningAttemptId
              && a.state == .succeeded && a.leaseEpoch == new.leaseEpoch)
        || !(new.requiredArtifactKinds.all fun kind => (readyKinds db new).contains kind)),
    "SUCCEEDED requires all READY verified artifacts from winning attempt")]

def jobUpdateGuards (db : Db) (old new : JobRow) : List (Bool × String) :=
  preventJobLeaseEpochDecrease old new ++ preventJobSemanticMutation old new
    ++ ensureJobLifecycleShape new ++ ensureJobSuccessArtifacts db new

def jobInsertGuards (db : Db) (new : JobRow) : List (Bool × String) :=
  ensureJobLifecycleShape new ++ ensureJobSuccessArtifacts db new
    ++ [((db.deployments.find? new.modelDeploymentId).isNone, "violates foreign key constraint")]

def preventAttemptIdentityMutation (old new : AttemptRow) : List (Bool × String) :=
  [(new.jobId != old.jobId || new.workerId != old.workerId || new.attemptNo != old.attemptNo
      || new.leaseEpoch != old.leaseEpoch,
    "attempt identity and epoch are immutable")]

def ensureAttemptLeaseShape (new : AttemptRow) : List (Bool × String) :=
  [(new.state == .active
      && (new.heartbeatAt.isNone || new.leaseExpiresAt.isNone || new.finishedAt.isSome),
    "ACTIVE attempt requires heartbeat and expiry but no finished_at"),
   (new.state != .active && (new.leaseExpiresAt.isSome || new.heartbeatAt.isSome),
    "terminal attempt must clear lease fields")]

def ensureAttemptTerminalImmutability (old : Option AttemptRow) (new : AttemptRow) :
    List (Bool × String) :=
  [(new.state == .active && new.finishedAt.isSome, "ACTIVE attempt cannot have finished_at"),
   (new.state != .active && new.finishedAt.isNone, "terminal attempt requires finished_at"),
   (old.any fun o => o.state != .active && new != o, "terminal attempt is immutable")]

def preventWinningAttemptMutation (db : Db) (old : AttemptRow) : List (Bool × String) :=
  [(db.jobs.rows.any fun j => j.winningAttemptId == some old.id && j.state == .succeeded,
    "winning attempt of SUCCEEDED job is immutable")]

def attemptUpdateGuards (db : Db) (old new : AttemptRow) : List (Bool × String) :=
  preventAttemptIdentityMutation old new ++ ensureAttemptLeaseShape new
    ++ ensureAttemptTerminalImmutability (some old) new ++ preventWinningAttemptMutation db old

def attemptInsertGuards (db : Db) (new : AttemptRow) : List (Bool × String) :=
  ensureAttemptLeaseShape new ++ ensureAttemptTerminalImmutability none new
    ++ [((db.workers.find? new.workerId).isNone || (db.jobs.find? new.jobId).isNone,
      "violates foreign key constraint")]

def preventWorkerDeploymentMutation (old new : WorkerRow) : List (Bool × String) :=
  [(new.modelDeploymentId != old.modelDeploymentId, "worker deployment identity is immutable")]

/-! ## Artifacts, events and blobs -/

def artifactInsertGuards (db : Db) (new : ArtifactRow) : List (Bool × String) :=
  [(new.state == .ready && !((db.blobs.find? new.blobId).any (·.state == .verified)),
    "READY artifact requires a VERIFIED blob"),
   ((db.jobs.find? new.jobId).any (·.state == .succeeded),
    "artifacts of SUCCEEDED job are immutable"),
   ((db.jobs.find? new.jobId).isNone || (db.blobs.find? new.blobId).isNone,
    "violates foreign key constraint")]

def preventBlobIdentityMutation (old new : BlobRow) : List (Bool × String) :=
  [(new.sha256 != old.sha256 || new.sizeBytes != old.sizeBytes
      || new.storageKey != old.storageKey || new.contentType != old.contentType,
    "content-addressed blob identity is immutable"),
   (old.state == .deleted && new.state != .deleted, "DELETED blob cannot be restored")]

/-- The jobs that still wait for or run on an asset. -/
def backsActiveJob (db : Db) (assetId : Uuid) : Bool :=
  db.jobInputs.rows.any fun i => i.assetId == assetId
    && (db.jobs.find? i.jobId).any fun j => j.state == .queued || j.state == .running

def preventVerifiedBlobDowngrade (db : Db) (old new : BlobRow) : List (Bool × String) :=
  [(db.artifacts.rows.any fun a => a.blobId == old.id && a.state == .ready
      && (db.jobs.find? a.jobId).any (·.state == .succeeded),
    "blob backs a READY artifact of a SUCCEEDED job and is immutable"),
   (old.state == .verified && new.state != .verified
      && db.assets.rows.any fun a => a.blobId == old.id && backsActiveJob db a.id,
    "verified blob backs an active job input")]

def blobUpdateGuards (db : Db) (old new : BlobRow) : List (Bool × String) :=
  preventBlobIdentityMutation old new ++ preventVerifiedBlobDowngrade db old new

def eventInsertGuards (db : Db) (new : EventRow) : List (Bool × String) :=
  [((db.jobs.find? new.jobId).isNone, "violates foreign key constraint")]

/-! ## Publications -/

/-- The lease a publication was made under is current: the `SELECT EXISTS` of
`ensure_publication_current_lease`. -/
def leaseIsCurrent (db : Db) (p : PublicationRow) : Bool :=
  match db.workers.find? p.workerId, db.jobs.find? p.jobId, db.attempts.find? p.attemptId with
  | some w, some j, some a =>
      w.state == .busy && a.jobId == j.id && a.workerId == w.id && a.leaseEpoch == p.leaseEpoch
        && a.state == .active && a.leaseExpiresAt.any (db.clock < ·) && j.state == .running
        && j.currentAttemptId == some a.id && j.leaseEpoch == a.leaseEpoch
        && j.cancelRequestedAt.isNone
  | _, _, _ => false

/-- The trigger that fires first on `artifact_publications`; `old` is absent on `INSERT`. -/
def ensurePublicationCurrentLease (db : Db) (old : Option PublicationRow) (new : PublicationRow) :
    Except Error PublicationRow :=
  -- the attempt object of a closed row is recorded as deleted
  if old.any fun o => o.state.terminal && o.attemptObjectDeletedAt.isNone
      && new.attemptObjectDeletedAt.isSome then
    .ok new
  -- the grace of a row begins, in the state it is in
  else if old.any fun o => new.state == o.state && o.staleSince.isNone && new.staleSince.isSome then
    if leaseIsCurrent db new then
      .error (.database "current publication cannot begin stale grace")
    else .ok { new with staleSince := some db.clock }
  else if new.state == .abandoned then
    match old.bind PublicationRow.staleSince with
    | some since =>
        if leaseIsCurrent db new || db.clock < since + staleGrace then
          .error (.database "ABANDONED requires a stale publication past DB-clock grace")
        else .ok { new with staleSince := some since }
    | none => .error (.database "ABANDONED requires a stale publication past DB-clock grace")
  -- every other change needs the lease
  else if leaseIsCurrent db new then .ok new
  else .error (.database "publication requires current unexpired uncancelled lease")

/-- The `INSERT` half of `ensure_publication_identity_and_transition`. -/
def ensurePublicationInitial (db : Db) (new : PublicationRow) : Except Error PublicationRow :=
  if new.state != .reserved || new.version != 0 then
    .error (.database "publication must begin RESERVED at version zero")
  else
    .ok { new with createdAt := db.clock, updatedAt := db.clock, terminalAt := none,
                   attemptObjectDeletedAt := none, staleSince := none }

/-- The columns fixed when a publication is reserved. -/
def PublicationRow.sameIdentity (old new : PublicationRow) : Bool :=
  new.id == old.id && new.jobId == old.jobId && new.attemptId == old.attemptId
    && new.workerId == old.workerId && new.leaseEpoch == old.leaseEpoch && new.kind == old.kind
    && new.expectedSha256 == old.expectedSha256 && new.expectedSizeBytes == old.expectedSizeBytes
    && new.expectedContentType == old.expectedContentType && new.maxSizeBytes == old.maxSizeBytes
    && new.metadata == old.metadata && new.createdAt == old.createdAt

/-- The columns recorded on the way to validation. -/
def PublicationRow.sameEvidence (old new : PublicationRow) : Bool :=
  new.attemptObjectKey == old.attemptObjectKey && new.observedSha256 == old.observedSha256
    && new.observedSizeBytes == old.observedSizeBytes
    && new.observedContentType == old.observedContentType
    && new.validatorMetadata == old.validatorMetadata
    && new.canonicalBlobId == old.canonicalBlobId
    && new.terminalReason == old.terminalReason && new.terminalAt == old.terminalAt

/-- The edges of the publication state machine. -/
def PublicationState.next : PublicationState → PublicationState → Bool
  | .reserved, s => s == .objectWritten || s == .rejected || s == .abandoned
  | .objectWritten, s => s == .validated || s == .rejected || s == .abandoned
  | .validated, s => s == .finalized || s == .rejected || s == .abandoned
  | .finalized, _ | .rejected, _ | .abandoned, _ => false

/-- What the trigger refuses of an ordinary move between states. -/
def publicationTransitionGuards (old new : PublicationRow) : List (Bool × String) :=
  [(new.attemptObjectDeletedAt.isSome,
    "attempt object cleanup requires an already-terminal publication"),
   (new.version != old.version + 1 || !old.state.next new.state,
    "invalid publication state/version transition"),
   (old.attemptObjectKey.isSome && new.attemptObjectKey != old.attemptObjectKey,
    "publication object identity is immutable"),
   (old.observedSha256.isSome && (new.observedSha256 != old.observedSha256
      || new.observedSizeBytes != old.observedSizeBytes),
    "publication observed identity is immutable"),
   (old.canonicalBlobId.isSome && new.canonicalBlobId != old.canonicalBlobId,
    "publication canonical blob is immutable"),
   (old.observedContentType.isSome && (new.observedContentType != old.observedContentType
      || new.validatorMetadata != old.validatorMetadata),
    "publication validation evidence is immutable"),
   (!new.state.terminal && new.terminalAt.isSome,
    "nonterminal publication cannot have terminal_at"),
   (new.state != .abandoned && new.staleSince != old.staleSince,
    "stale_since is DB-owned abandonment evidence")]

/-- The timestamps the trigger sets itself. -/
def PublicationRow.stamp (now : Time) (p : PublicationRow) : PublicationRow :=
  { p with terminalAt := if p.state.terminal then some now else p.terminalAt, updatedAt := now }

/-- The only change a terminal row allows. -/
def PublicationRow.cleansUp (old new : PublicationRow) : Bool :=
  new.state == old.state && new.version == old.version + 1 && old.attemptObjectDeletedAt.isNone
    && new.attemptObjectDeletedAt.isSome && old.sameEvidence new
    && new.staleSince == old.staleSince

/-- The update that starts the grace period and changes nothing else. -/
def PublicationRow.goesStale (old new : PublicationRow) : Bool :=
  new.state == old.state && new.version == old.version + 1 && old.staleSince.isNone
    && new.staleSince.isSome && old.sameEvidence new && new.attemptObjectDeletedAt.isNone

/-- The `UPDATE` half of `ensure_publication_identity_and_transition`. -/
def ensurePublicationTransition (db : Db) (old new : PublicationRow) :
    Except Error PublicationRow :=
  if !old.sameIdentity new then
    .error (.database "publication identity is immutable")
  else if old.state.terminal then
    if old.cleansUp new then
      .ok { new with attemptObjectDeletedAt := some db.clock, updatedAt := db.clock }
    else .error (.database "terminal publication is immutable except cleanup evidence")
  else if old.goesStale new then
    .ok { new with updatedAt := db.clock }
  else guarded (publicationTransitionGuards old new) (new.stamp db.clock)

/-- The blob a validated publication points at carries exactly the observed evidence. -/
def validatedBlob (db : Db) (p : PublicationRow) : Bool :=
  match p.canonicalBlobId.bind db.blobs.find? with
  | some b =>
      b.state == .verified && some b.sha256 == p.observedSha256
        && some b.sizeBytes == p.observedSizeBytes && some b.contentType == p.observedContentType
        && b.storageKey == canonicalKey b.sha256
  | none => false

def ensurePublicationValidatedBlob (db : Db) (new : PublicationRow) : Except Error PublicationRow :=
  if (new.state == .validated || new.state == .finalized) && !validatedBlob db new then
    .error (.database "VALIDATED publication requires matching canonical VERIFIED blob")
  else .ok new

/-- All three triggers, in alphabetical order of their names. -/
def publicationBeforeUpdate (db : Db) (old new : PublicationRow) : Except Error PublicationRow :=
  match ensurePublicationCurrentLease db (some old) new with
  | .error e => .error e
  | .ok new₁ =>
      match ensurePublicationTransition db old new₁ with
      | .error e => .error e
      | .ok new₂ => ensurePublicationValidatedBlob db new₂

def publicationBeforeInsert (db : Db) (new : PublicationRow) : Except Error PublicationRow :=
  match ensurePublicationCurrentLease db none new with
  | .error e => .error e
  | .ok new₁ =>
      match ensurePublicationInitial db new₁ with
      | .error e => .error e
      | .ok new₂ => ensurePublicationValidatedBlob db new₂

/-! ## Deferred checks -/

/-- A constraint trigger or foreign key waiting for the commit. -/
inductive Deferred where
  | jobAttemptLinkage (jobId : Uuid)
  | currentAttemptLeaseEpoch (jobId : Uuid)
  | succeededPublicationProof (new : JobRow)
  | publicationArtifactProof (publicationId : Uuid)
  | artifactPublicationProof (new : ArtifactRow)
  | attemptReference (jobId attemptId : Uuid)
  deriving DecidableEq

/-- Some attempt of the job is its current one and ACTIVE. -/
def hasCurrentActive (db : Db) (j : JobRow) : Bool :=
  db.attempts.rows.any fun a =>
    some a.id == j.currentAttemptId && a.jobId == j.id && a.state == .active

def ensureJobAttemptLinkage (db : Db) (jobId : Uuid) : Except Error Unit :=
  match db.jobs.find? jobId with
  | none => .ok ()
  | some j => raiseFirst
      [(j.state == .running && !hasCurrentActive db j,
        "RUNNING job requires its current ACTIVE attempt"),
       (db.attempts.rows.any fun a => a.jobId == j.id && a.state == .active
          && (j.state != .running || j.currentAttemptId != some a.id),
        "ACTIVE attempt must be the current attempt of its RUNNING job"),
       (j.currentAttemptId.isSome && !hasCurrentActive db j, "current attempt must be ACTIVE"),
       (j.winningAttemptId.isSome && !(db.attempts.rows.any fun a =>
          some a.id == j.winningAttemptId && a.jobId == j.id && a.state == .succeeded),
        "winning attempt must be SUCCEEDED")]

def ensureCurrentAttemptLeaseEpoch (db : Db) (jobId : Uuid) : Except Error Unit :=
  match db.jobs.find? jobId with
  | none => .ok ()
  | some j => raiseFirst
      [(j.state == .running && !((j.currentAttemptId.bind db.attempts.find?).any fun a =>
          a.state == .active && a.leaseEpoch == j.leaseEpoch),
        "RUNNING job current attempt must have matching lease epoch")]

/-- The kinds of a job's finalized publications under one attempt. -/
def finalizedKinds (db : Db) (jobId : Uuid) (attemptId : Option Uuid) : List ArtifactKind :=
  (db.publications.rows.filter fun p =>
    p.jobId == jobId && some p.attemptId == attemptId && p.state == .finalized).map
      PublicationRow.kind

def ensureSucceededPublicationProof (db : Db) (new : JobRow) : Except Error Unit :=
  let kinds := finalizedKinds db new.id new.winningAttemptId
  raiseFirst
    [(new.state == .succeeded
        && (!(kinds.all fun kind => new.requiredArtifactKinds.contains kind)
          || !(new.requiredArtifactKinds.all fun kind => kinds.contains kind)
          || (db.events.rows.filter fun e => e.jobId == new.id
                && e.attemptId == new.winningAttemptId && e.eventType == .jobSucceeded).length != 1),
      "SUCCEEDED requires exact FINALIZED publications and one success event")]

/-- The READY artifact a finalized publication needs. -/
def hasMatchingArtifact (db : Db) (p : PublicationRow) : Bool :=
  db.artifacts.rows.any fun a =>
    a.publicationId == p.id && a.jobId == p.jobId && a.attemptId == p.attemptId
      && a.kind == p.kind && some a.blobId == p.canonicalBlobId && a.state == .ready
      && (db.blobs.find? a.blobId).any (·.state == .verified)

def ensurePublicationArtifactProof (db : Db) (publicationId : Uuid) : Except Error Unit :=
  match db.publications.find? publicationId with
  | none => .ok ()
  | some p => raiseFirst
      [(p.state == .finalized && !hasMatchingArtifact db p,
        "FINALIZED publication requires matching READY artifact")]

def ensureArtifactPublicationProof (db : Db) (new : ArtifactRow) : Except Error Unit :=
  match ensurePublicationArtifactProof db new.publicationId with
  | .error e => .error e
  | .ok () => raiseFirst
      [(!((db.publications.find? new.publicationId).any fun p =>
          p.state == .finalized && p.jobId == new.jobId && p.attemptId == new.attemptId
            && p.kind == new.kind && p.canonicalBlobId == some new.blobId),
        "artifact requires matching FINALIZED publication")]

/-- Run one deferred check against the database about to be committed. -/
def Deferred.verify (db : Db) : Deferred → Except Error Unit
  | .jobAttemptLinkage jobId => ensureJobAttemptLinkage db jobId
  | .currentAttemptLeaseEpoch jobId => ensureCurrentAttemptLeaseEpoch db jobId
  | .succeededPublicationProof new => ensureSucceededPublicationProof db new
  | .publicationArtifactProof publicationId => ensurePublicationArtifactProof db publicationId
  | .artifactPublicationProof new => ensureArtifactPublicationProof db new
  | .attemptReference jobId attemptId => raiseFirst
      [(!((db.attempts.find? attemptId).any (·.jobId == jobId)), "violates foreign key constraint")]

/-! ## Statements -/

abbrev Sql := Tx (Session Db Deferred) Error

/-- Commit the statements, or roll them back. -/
def commit {α : Type} (body : Sql α) (db : Db) : Except Error α × Db :=
  transaction Deferred.verify body db

/-- A query. -/
def select {α : Type} (q : Db → α) : Sql α := fun s => .ok (q s.db, s)

/-- A query hands its rows on and leaves the session alone. -/
theorem select_bind {α β : Type} (q : Db → α) (f : α → Sql β) (s : Session Db Deferred) :
    (select q >>= f) s = f (q s.db) s := rfl

def constraintViolation : Error := .database "violates a check or unique constraint"

/-- How one table is written: its column in the database, its `BEFORE` triggers and what a write
defers to the commit. -/
structure Target (ρ : Type) {κ : Type} [Schema ρ κ] where
  table : Db → Table ρ
  store : Db → Table ρ → Db
  beforeInsert : Db → ρ → Except Error ρ
  beforeUpdate : Db → ρ → ρ → Except Error ρ
  deferred : ρ → List Deferred

section Write

variable {ρ κ : Type} [Schema ρ κ] (T : Target ρ)

/-- `INSERT INTO ...`. -/
def insert (row : ρ) : Sql Unit := fun s =>
  match T.beforeInsert s.db row with
  | .error e => .error e
  | .ok new =>
      match (T.table s.db).insert? new with
      | none => .error constraintViolation
      | some t => .ok ((), ⟨T.store s.db t, s.deferred ++ T.deferred new⟩)

/-- `INSERT ... ON CONFLICT ... DO NOTHING RETURNING id`: whether the row was added. The triggers
and the checks come before the conflict is looked for. -/
def insertUnless (conflict : ρ → ρ → Bool) (row : ρ) : Sql Bool := fun s =>
  match T.beforeInsert s.db row with
  | .error e => .error e
  | .ok new =>
      if Schema.check new = false then .error constraintViolation
      else if (T.table s.db).rows.any (conflict new) then .ok (false, s)
      else
        match (T.table s.db).insert? new with
        | none => .error constraintViolation
        | some t => .ok (true, ⟨T.store s.db t, s.deferred ++ T.deferred new⟩)

/-- `UPDATE ... SET ... WHERE id = ... AND ...`, returning the row count. -/
def update (id : κ) (cond : ρ → Bool) (set : ρ → ρ) : Sql Nat := fun s =>
  match (T.table s.db).find? id with
  | none => .ok (0, s)
  | some old =>
      if cond old then
        match T.beforeUpdate s.db old (set old) with
        | .error e => .error e
        | .ok new =>
            match (T.table s.db).put? new with
            | none => .error constraintViolation
            | some t => .ok (1, ⟨T.store s.db t, s.deferred ++ T.deferred new⟩)
      else .ok (0, s)

variable {T}

/-- **What an `INSERT` does.** -/
theorem insert_ok {row : ρ} {s s' : Session Db Deferred} {u : Unit}
    (h : insert T row s = .ok (u, s')) :
    ∃ new t, T.beforeInsert s.db row = .ok new ∧ (T.table s.db).insert? new = some t
      ∧ s' = ⟨T.store s.db t, s.deferred ++ T.deferred new⟩ := by
  unfold insert at h
  split at h
  · exact absurd h (by simp)
  · rename_i new hb
    split at h
    · exact absurd h (by simp)
    · rename_i t ht
      injection h with h
      injection h with _ h
      exact ⟨new, t, hb, ht, h.symm⟩

/-- **What an `INSERT ... ON CONFLICT DO NOTHING` does.** -/
theorem insertUnless_ok {conflict : ρ → ρ → Bool} {row : ρ} {s s' : Session Db Deferred}
    {added : Bool} (h : insertUnless T conflict row s = .ok (added, s')) :
    ∃ new, T.beforeInsert s.db row = .ok new ∧ Schema.check new = true
      ∧ ((added = false ∧ s = s' ∧ ∃ old ∈ (T.table s.db).rows, conflict new old = true)
        ∨ ∃ t, added = true ∧ (T.table s.db).rows.any (conflict new) = false
            ∧ (T.table s.db).insert? new = some t
            ∧ s' = ⟨T.store s.db t, s.deferred ++ T.deferred new⟩) := by
  unfold insertUnless at h
  split at h
  · exact absurd h (by simp)
  · rename_i new hb
    split at h
    · exact absurd h (by simp)
    · rename_i hc
      refine ⟨new, hb, by simpa using hc, ?_⟩
      split at h
      · rename_i hany
        injection h with h
        injection h with h₁ h₂
        obtain ⟨old, hold, hcl⟩ := List.any_eq_true.mp hany
        exact Or.inl ⟨h₁.symm, h₂, old, hold, hcl⟩
      · rename_i hany
        split at h
        · exact absurd h (by simp)
        · rename_i t ht
          injection h with h
          injection h with h₁ h₂
          exact Or.inr ⟨t, h₁.symm, by simpa using hany, ht, h₂.symm⟩

/-- **What an `UPDATE` does**: nothing when no row matches, else it replaces the one that does. -/
theorem update_ok {id : κ} {cond : ρ → Bool} {set : ρ → ρ} {s s' : Session Db Deferred} {n : Nat}
    (h : update T id cond set s = .ok (n, s')) :
    (n = 0 ∧ s = s' ∧ ∀ old, (T.table s.db).find? id = some old → cond old = false)
    ∨ ∃ old new t, (T.table s.db).find? id = some old ∧ cond old = true
        ∧ T.beforeUpdate s.db old (set old) = .ok new ∧ (T.table s.db).put? new = some t
        ∧ n = 1 ∧ s' = ⟨T.store s.db t, s.deferred ++ T.deferred new⟩ := by
  unfold update at h
  split at h
  · rename_i hf
    injection h with h
    injection h with h₁ h₂
    exact Or.inl ⟨h₁.symm, h₂, fun old ho => absurd (hf ▸ ho) (by simp)⟩
  · rename_i old hf
    split at h
    · rename_i hc
      split at h
      · exact absurd h (by simp)
      · rename_i new hb
        split at h
        · exact absurd h (by simp)
        · rename_i t ht
          injection h with h
          injection h with h₁ h₂
          exact Or.inr ⟨old, new, t, hf, hc, hb, ht, h₁.symm, h₂.symm⟩
    · rename_i hc
      injection h with h
      injection h with h₁ h₂
      refine Or.inl ⟨h₁.symm, h₂, fun x hx => ?_⟩
      rw [hf] at hx
      injection hx with hx
      subst hx
      simpa using hc

/-- An `UPDATE` whose triggers and constraints pass writes the row. -/
theorem update_run {id : κ} {cond : ρ → Bool} {set : ρ → ρ} {s : Session Db Deferred}
    {old new : ρ} {t : Table ρ} (hf : (T.table s.db).find? id = some old) (hc : cond old = true)
    (hb : T.beforeUpdate s.db old (set old) = .ok new) (ht : (T.table s.db).put? new = some t) :
    update T id cond set s = .ok (1, ⟨T.store s.db t, s.deferred ++ T.deferred new⟩) := by
  unfold update
  simp only [hf, hc, hb, ht, if_true]

/-- An `INSERT` whose triggers and constraints pass adds the row. -/
theorem insert_run {row new : ρ} {s : Session Db Deferred} {t : Table ρ}
    (hb : T.beforeInsert s.db row = .ok new) (ht : (T.table s.db).insert? new = some t) :
    insert T row s = .ok ((), ⟨T.store s.db t, s.deferred ++ T.deferred new⟩) := by
  unfold insert
  simp only [hb, ht]

end Write

/-! ## The tables -/

def optionalReference (jobId : Uuid) : Option Uuid → List Deferred
  | none => []
  | some attemptId => [.attemptReference jobId attemptId]

def blobsTable : Target BlobRow where
  table := Db.blobs
  store db t := { db with blobs := t }
  beforeInsert _ new := .ok new
  beforeUpdate db old new := guarded (blobUpdateGuards db old new) new
  deferred _ := []

def workersTable : Target WorkerRow where
  table := Db.workers
  store db t := { db with workers := t }
  beforeInsert db new := guarded [((db.deployments.find? new.modelDeploymentId).isNone,
    "violates foreign key constraint")] new
  beforeUpdate _ old new := guarded (preventWorkerDeploymentMutation old new) new
  deferred _ := []

def jobsTable : Target JobRow where
  table := Db.jobs
  store db t := { db with jobs := t }
  beforeInsert db new := guarded (jobInsertGuards db new) new
  beforeUpdate db old new := guarded (jobUpdateGuards db old new) new
  deferred new := [.jobAttemptLinkage new.id, .currentAttemptLeaseEpoch new.id,
    .succeededPublicationProof new] ++ optionalReference new.id new.currentAttemptId
      ++ optionalReference new.id new.winningAttemptId

def attemptsTable : Target AttemptRow where
  table := Db.attempts
  store db t := { db with attempts := t }
  beforeInsert db new := guarded (attemptInsertGuards db new) new
  beforeUpdate db old new := guarded (attemptUpdateGuards db old new) new
  deferred new := [.jobAttemptLinkage new.jobId, .currentAttemptLeaseEpoch new.jobId]

/-- Artifacts are append-only: `prevent_artifact_mutation` refuses every update. -/
def artifactsTable : Target ArtifactRow where
  table := Db.artifacts
  store db t := { db with artifacts := t }
  beforeInsert db new := guarded (artifactInsertGuards db new) new
  beforeUpdate _ _ _ := .error (.database "artifacts are immutable once written")
  deferred new := [.artifactPublicationProof new, .attemptReference new.jobId new.attemptId]

/-- Events are append-only: `prevent_job_event_mutation` refuses every update. -/
def eventsTable : Target EventRow where
  table := Db.events
  store db t := { db with events := t }
  beforeInsert db new := guarded (eventInsertGuards db new) new
  beforeUpdate _ _ _ := .error (.database "job events are append-only")
  deferred new := optionalReference new.jobId new.attemptId

def publicationsTable : Target PublicationRow where
  table := Db.publications
  store db t := { db with publications := t }
  beforeInsert := publicationBeforeInsert
  beforeUpdate := publicationBeforeUpdate
  deferred new := [.publicationArtifactProof new.id, .attemptReference new.jobId new.attemptId]

/-- The next value of the events' sequence. -/
def nextEventId (db : Db) : Nat := (db.events.rows.map EventRow.id).foldl max 0 + 1

/-- `_event`. -/
def event (jobId : Uuid) (attemptId : Option Uuid) (eventType : EventType) : Sql Unit := do
  let id ← select nextEventId
  insert eventsTable ⟨id, jobId, attemptId, eventType⟩

end NanoAural
