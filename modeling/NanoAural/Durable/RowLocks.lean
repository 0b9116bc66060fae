import NanoAural.Durable.Calls

/-!
# Two connections on one lease

A worker renews its lease on the monitor's connection while the command
connection reads, or closes, the same lease. Both lock the worker, the job and
the attempt row in that order, one statement each, and keep them until they
commit. The heartbeat waits for a row the command holds. A command skips a row
the heartbeat holds, and what it skips it takes to be gone.

One move here is one statement, so every interleaving of the two transactions is
a sequence of moves.
-/

namespace NanoAural

open Relational Machine

/-! ## The three statements of `_lock_current` -/

def lockWorker (held : Locks) (lease : Lease) : Sql Unit := do
  let worker ← select fun db => db.workers.find? lease.workerId
  Tx.ensure (worker.any fun w => w.state == .busy && !held.workers w.id) leaseLost

def lockJob (held : Locks) (lease : Lease) : Sql Unit := do
  let job ← select fun db => db.jobs.find? lease.jobId
  Tx.ensure (job.any fun j => j.state == .running && !held.jobs j.id) leaseLost

def lockAttempt (held : Locks) (lease : Lease) : Sql AttemptRow := do
  let db ← select id
  let row := (fenceRows db lease).filter fun (a, _, _) => unexpired db a && !held.attempts a.id
  let (attempt, _, _) ← Tx.orFail row leaseLost
  pure attempt

/-- **Run one after another they are `_lock_current`.** -/
theorem lockCurrent_eq (held : Locks) (lease : Lease) :
    lockCurrent held lease true = (do
      lockWorker held lease
      lockJob held lease
      lockAttempt held lease) := by
  unfold lockCurrent lockWorker lockJob lockAttempt
  simp only [Tx.bind_assoc, Bool.not_true, Bool.false_or]

/-- The rows a transaction has locked: each constructor adds one to those before it. -/
inductive Progress where
  | worker
  | job
  | attempt (row : AttemptRow)
  deriving DecidableEq

/-- How many rows that is. -/
def Progress.count : Option Progress → Nat
  | none => 0
  | some .worker => 1
  | some .job => 2
  | some (.attempt _) => 3

/-- The rows a `SKIP LOCKED` read finds held while the other transaction got this far. -/
def Progress.held (lease : Lease) (other : Option Progress) : Locks where
  workers id := id == lease.workerId && decide (0 < count other)
  jobs id := id == lease.jobId && decide (1 < count other)
  attempts id := id == lease.attemptId && decide (2 < count other)

/-- The row a transaction locks next is held by the other one. -/
def Progress.waits (own other : Option Progress) : Bool := decide (count own < count other)

/-- The next statement of `_lock_current`. -/
def Progress.next (held : Locks) (lease : Lease) (own : Option Progress) (db : Db) :
    Except Error Progress :=
  match own with
  | none => (lockWorker held lease ⟨db, []⟩).map fun _ => .worker
  | some .worker => (lockJob held lease ⟨db, []⟩).map fun _ => .job
  | some .job => (lockAttempt held lease ⟨db, []⟩).map fun r => .attempt r.1
  | some (.attempt row) => .ok (.attempt row)

/-! ## The commands -/

/-- A method the command connection calls under its lease. -/
inductive Command where
  | loadReadyDeployment
  | loadVerifiedInputEvidence
  | cancelCurrent
  | failRetryable (retryDelaySeconds maxAttempts : Int)
  deriving DecidableEq

/-- The checks of a method's arguments, before its transaction. -/
def Command.check : Command → Except Error Unit
  | .failRetryable retryDelaySeconds maxAttempts => do
      positiveInt retryDelaySeconds "retry_delay_seconds"
      positiveInt maxAttempts "max_attempts"
  | _ => .ok ()

/-- What a method does under its row locks. -/
def Command.body (lease : Lease) (row : AttemptRow) : Command → Sql Unit
  | .loadReadyDeployment => do
      let _ ← readyDeployment lease
      pure ()
  | .loadVerifiedInputEvidence => do
      let _ ← verifiedInputEvidence lease
      pure ()
  | .cancelCurrent => closeCurrent lease true 0 1 row
  | .failRetryable retryDelaySeconds maxAttempts =>
      closeCurrent lease false retryDelaySeconds maxAttempts row

/-- The same method as a call of the whole system. -/
def Command.toCall (held : Locks) (lease : Lease) : Command → Call
  | .loadReadyDeployment => .loadReadyDeployment held lease
  | .loadVerifiedInputEvidence => .loadVerifiedInputEvidence held lease
  | .cancelCurrent => .cancelCurrent held lease
  | .failRetryable retryDelaySeconds maxAttempts =>
      .failRetryable held lease retryDelaySeconds maxAttempts

/-- Dropping a method's result inside its transaction or after it comes to the same. -/
theorem outcome_commit {α : Type} (body : Sql α) (db : Db) :
    outcome (commit body db) = commit (body >>= fun _ => pure ()) db := by
  unfold commit transaction
  cases hb : body ⟨db, []⟩ with
  | error e => rw [Tx.bind_error hb]; rfl
  | ok r =>
      obtain ⟨a, s⟩ := r
      rw [Tx.bind_eval hb, Tx.pure_run]
      dsimp only
      cases verifyAll Deferred.verify s.db s.deferred <;> rfl

/-- A check in front of a transaction's statements is a check in front of the transaction. -/
theorem commit_lift {α : Type} (x : Except Error Unit) (body : Sql α) (db : Db) :
    commit (Tx.lift x >>= fun _ => body) db = match x with
      | .error e => (.error e, db)
      | .ok () => commit body db := by
  cases x with
  | error e => exact transaction_error (Tx.bind_error rfl)
  | ok u =>
      unfold commit transaction
      rw [Tx.lift_eval rfl]

/-- **Three statements and a body are the method**, when nothing comes between them. -/
theorem Command.run_alone (json : JsonColumn) (c : Command) (held : Locks) (lease : Lease)
    (db : Db) :
    (c.toCall held lease).run json db = match c.check with
      | .error e => (.error e, db)
      | .ok () => commit (do
          lockWorker held lease
          lockJob held lease
          let row ← lockAttempt held lease
          c.body lease row) db := by
  -- the three locks one after the other are the one statement of the queue
  have hlock : ∀ f : AttemptRow → Sql Unit, (do
      lockWorker held lease
      lockJob held lease
      let row ← lockAttempt held lease
      f row) = lockCurrent held lease true >>= f := fun f => by
    rw [lockCurrent_eq, Tx.bind_assoc]
    simp only [Tx.bind_assoc]
  have hunit : ∀ x : Sql Unit, (x >>= fun _ => pure ()) = x := fun x => by
    funext s
    cases hx : x s with
    | error e => rw [Tx.bind_error hx]
    | ok r => rw [Tx.bind_eval hx]; rfl
  rw [hlock]
  cases c with
  | loadReadyDeployment =>
      show outcome (commit _ db) = commit _ db
      rw [outcome_commit, Tx.bind_assoc]
      rfl
  | loadVerifiedInputEvidence =>
      show outcome (commit _ db) = commit _ db
      rw [outcome_commit, Tx.bind_assoc]
      rfl
  | cancelCurrent =>
      show outcome (commit _ db) = commit _ db
      rw [outcome_commit, hunit]
      rfl
  -- the two arguments are checked before anything is locked
  | failRetryable delay maxAttempts =>
      show outcome (NanoAural.failRetryable held lease delay maxAttempts db) = _
      unfold NanoAural.failRetryable
      rw [commit_lift]
      simp only [Command.check]
      cases positiveInt delay "retry_delay_seconds" with
      | error e => rfl
      | ok u =>
          dsimp only
          rw [commit_lift]
          cases positiveInt maxAttempts "max_attempts" with
          | error e => rfl
          | ok u =>
              dsimp only
              rw [outcome_commit, hunit]
              rfl

/-- The commands that end the lease. -/
def Command.closes : Command → Bool
  | .cancelCurrent | .failRetryable .. => true
  | .loadReadyDeployment | .loadVerifiedInputEvidence => false

/-! ## The two connections -/

/-- A call in progress. -/
structure OpenCall where
  command : Command
  progress : Progress

/-- A call that returned. -/
structure Returned where
  command : Command
  /-- The heartbeat held the worker row when the call first read it. -/
  contended : Bool
  outcome : Except Error Unit

structure Duet where
  db : Db
  /-- The rows of the open heartbeat. -/
  monitor : Option Progress
  /-- The open call of the command connection. -/
  command : Option OpenCall
  /-- The calls that returned, the latest first. -/
  returned : List Returned

/-- Both connections idle. -/
def Duet.start (db : Db) : Duet := ⟨db, none, none, []⟩

/-- The open call returns. -/
def Duet.finish (s : Duet) (c : Command) (contended : Bool) (r : Except Error Unit × Db) : Duet :=
  { s with db := r.2, command := none, returned := ⟨c, contended, r.1⟩ :: s.returned }

/-- The command connection calls a method: its argument checks and its first read. -/
def Duet.call (lease : Lease) (c : Command) (s : Duet) : Duet :=
  match s.command with
  | some _ => s
  | none =>
      match c.check with
      | .error e => s.finish c false (.error e, s.db)
      | .ok () =>
          match Progress.next (Progress.held lease s.monitor) lease none s.db with
          | .error e => s.finish c s.monitor.isSome (.error e, s.db)
          | .ok p => { s with command := some ⟨c, p⟩ }

/-- The next read of the open call, or, with all rows locked, its body and commit. -/
def Duet.advance (lease : Lease) (s : Duet) : Duet :=
  match s.command with
  | none => s
  | some ⟨c, .attempt row⟩ => s.finish c false (commit (c.body lease row) s.db)
  | some ⟨c, p⟩ =>
      match Progress.next (Progress.held lease s.monitor) lease (some p) s.db with
      | .error e => s.finish c false (.error e, s.db)
      | .ok p' => { s with command := some ⟨c, p'⟩ }

/-- The next statement of the heartbeat: it waits for a row, locks it, or renews and commits. -/
def Duet.beat (lease : Lease) (leaseSeconds : Int) (s : Duet) : Duet :=
  match positiveInt leaseSeconds "lease_seconds", s.monitor with
  | .error _, _ => s
  | .ok (), some (.attempt _) =>
      { s with db := (commit (renewLease lease leaseSeconds) s.db).2, monitor := none }
  | .ok (), own =>
      if Progress.waits own (s.command.map OpenCall.progress) then s
      else match Progress.next .free lease own s.db with
        | .error _ => { s with monitor := none }
        | .ok p => { s with monitor := some p }

inductive Move where
  | tick (now : Time)
  | beat
  | call (c : Command)
  | advance

def Move.run (lease : Lease) (leaseSeconds : Int) : Move → Duet → Duet
  | .tick now, s => { s with db := { s.db with clock := max s.db.clock now } }
  | .beat, s => s.beat lease leaseSeconds
  | .call c, s => s.call lease c
  | .advance, s => s.advance lease

/-- The lease is held and has not run out. -/
def isLive (db : Db) (lease : Lease) : Bool :=
  (fenceRows db lease).any fun (a, _, _) => unexpired db a

/-- Both connections at work on one lease, for as long as it is live. -/
def duet (lease : Lease) (leaseSeconds : Int) (db₀ : Db) : System Duet where
  init s := s = Duet.start db₀
  step s s' := isLive s.db lease = true ∧ ∃ m : Move, s' = m.run lease leaseSeconds s

end NanoAural
