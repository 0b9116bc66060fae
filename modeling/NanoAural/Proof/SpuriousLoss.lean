import NanoAural.Durable.RowLocks
import NanoAural.Proof.Closing

/-!
# What a command loses to a heartbeat

While the lease is live a command can raise `StateTransitionError` for one reason
other than what it was asked for: its first read found the worker row held by the
heartbeat. Past that read the heartbeat waits behind it, the three rows are the
ones the lease names, and the body runs to its end.
-/

namespace NanoAural

open Relational Machine

/-! ## Raising a transition error -/

/-- The outcome is a `StateTransitionError`. -/
def lost {α : Type} : Except Error α → Bool
  | .error (.transition _) => true
  | _ => false

theorem lost_bind {α β : Type} {x : Except Error α} {f : α → Except Error β}
    (hx : lost x = false) (hf : ∀ a, lost (f a) = false) : lost (x >>= f) = false := by
  cases x with
  | ok a => exact hf a
  | error e => cases e <;> first | rfl | exact absurd hx (by simp [lost])

theorem lost_mapM {α β : Type} {f : α → Except Error β} (hf : ∀ a, lost (f a) = false)
    (xs : List α) : lost (xs.mapM f) = false := by
  induction xs with
  | nil => rfl
  | cons x xs ih =>
      rw [List.mapM_cons]
      exact lost_bind (hf x) fun _ => lost_bind ih fun _ => rfl

theorem lost_raiseIf {c : Bool} {e : Error} (he : lost (Except.error e : Except Error Unit) = false) :
    lost (raiseIf c e) = false := by
  cases c with
  | true => exact he
  | false => rfl

/-! ### The records' constructors -/

theorem requireText_lost (value name : String) : lost (requireText value name) = false :=
  lost_raiseIf rfl

theorem requireSha256_lost (value name : String) : lost (requireSha256 value name) = false :=
  lost_bind (lost_raiseIf rfl) fun _ => lost_bind (lost_raiseIf rfl) fun _ => lost_raiseIf rfl

theorem DeploymentRecord.checked_lost (d : DeploymentRecord) : lost d.checked = false :=
  lost_bind (requireText_lost _ _) fun _ => lost_bind (requireText_lost _ _) fun _ =>
    lost_bind (requireText_lost _ _) fun _ => rfl

theorem JobInput.checked_lost (role : String) (assetId : Uuid) :
    lost (JobInput.checked role assetId) = false := by
  unfold JobInput.checked
  split <;> rfl

theorem JobRecord.checked_lost (job : JobRecord) : lost job.checked = false := by
  refine lost_bind ?_ fun _ => rfl
  exact lost_bind (requireText_lost _ _) fun _ => lost_bind (requireText_lost _ _) fun _ =>
    lost_bind (requireSha256_lost _ _) fun _ => lost_bind (lost_raiseIf rfl) fun _ =>
      lost_bind (lost_raiseIf rfl) fun _ => lost_bind (lost_raiseIf rfl) fun _ => lost_raiseIf rfl

theorem evidenceOf_lost (r : JobInputRow × AssetRow × BlobRow) : lost (evidenceOf r) = false := by
  refine lost_bind ?_ fun _ => lost_bind ?_ fun _ => rfl
  · exact lost_bind (requireText_lost _ _) fun _ => rfl
  · exact lost_bind (requireSha256_lost _ _) fun _ => lost_bind (requireText_lost _ _) fun _ => rfl

/-! ### Transactions -/

theorem lost_lift_bind {α β : Type} {x : Except Error α} {f : α → Sql β}
    {s : Session Db Deferred} (hx : lost x = false) (hf : ∀ a, lost (f a s) = false) :
    lost ((Tx.lift x >>= f) s) = false := by
  cases x with
  | ok a => rw [Tx.lift_eval rfl]; exact hf a
  | error e =>
      rw [Tx.lift_fails rfl]
      cases e <;> first | rfl | exact absurd hx (by simp [lost])

theorem lost_lift {α : Type} {x : Except Error α} {s : Session Db Deferred} (hx : lost x = false) :
    lost (Tx.lift x s) = false := by
  cases x with
  | ok a => rfl
  | error e => cases e <;> first | rfl | exact absurd hx (by simp [lost])

theorem lost_void {α : Type} (x : Sql α) (s : Session Db Deferred) :
    lost ((x >>= fun _ => pure ()) s) = lost (x s) := by
  cases hx : x s with
  | error e => rw [Tx.bind_error hx]; cases e <;> rfl
  | ok r => rw [Tx.bind_eval hx]; rfl

theorem raiseFirst_lost (guards : List (Bool × String)) : lost (raiseFirst guards) = false := by
  induction guards with
  | nil => rfl
  | cons g gs ih =>
      unfold raiseFirst
      split
      · rfl
      · exact ih

theorem publicationArtifactProof_lost (db : Db) (publicationId : Uuid) :
    lost (ensurePublicationArtifactProof db publicationId) = false := by
  unfold ensurePublicationArtifactProof
  split
  · rfl
  · exact raiseFirst_lost _

/-- A deferred check raises a database error, if any. -/
theorem verify_lost (db : Db) (d : Deferred) : lost (d.verify db) = false := by
  cases d with
  | jobAttemptLinkage jobId =>
      unfold Deferred.verify ensureJobAttemptLinkage
      dsimp only
      split
      · rfl
      · exact raiseFirst_lost _
  | currentAttemptLeaseEpoch jobId =>
      unfold Deferred.verify ensureCurrentAttemptLeaseEpoch
      dsimp only
      split
      · rfl
      · exact raiseFirst_lost _
  | succeededPublicationProof new => exact raiseFirst_lost _
  | publicationArtifactProof publicationId => exact publicationArtifactProof_lost db publicationId
  | artifactPublicationProof new =>
      have h := publicationArtifactProof_lost db new.publicationId
      unfold Deferred.verify ensureArtifactPublicationProof
      dsimp only
      cases hp : ensurePublicationArtifactProof db new.publicationId with
      | error e =>
          rw [hp] at h
          cases e <;> first | rfl | exact absurd h (by simp [lost])
      | ok u => exact raiseFirst_lost _
  | attemptReference jobId attemptId => exact raiseFirst_lost _

theorem verifyAll_lost (db : Db) (ds : List Deferred) :
    lost (verifyAll Deferred.verify db ds) = false := by
  induction ds with
  | nil => rfl
  | cons d ds ih =>
      unfold verifyAll
      cases hd : d.verify db with
      | error e =>
          have h := verify_lost db d
          rw [hd] at h
          cases e <;> first | rfl | exact absurd h (by simp [lost])
      | ok u => exact ih

/-- **A commit raises a transition error exactly when a statement does.** -/
theorem lost_commit {α : Type} (body : Sql α) (db : Db) :
    lost (commit body db).1 = lost (body ⟨db, []⟩) := by
  unfold commit transaction
  cases hb : body ⟨db, []⟩ with
  | error e => cases e <;> rfl
  | ok r =>
      dsimp only
      have h := verifyAll_lost r.2.db r.2.deferred
      cases hv : verifyAll Deferred.verify r.2.db r.2.deferred with
      | error e =>
          rw [hv] at h
          cases e <;> first | rfl | exact absurd h (by simp [lost])
      | ok u => rfl

/-! ## What the commands are asked for -/

/-- Every input of the lease's job is verified. -/
def inputsVerified (lease : Lease) (db : Db) : Bool :=
  (db.jobs.find? lease.jobId).any fun j =>
    (inputsOf db lease.jobId).all fun i => (verifiedInput db j i).isSome

def cancelRequested (lease : Lease) (db : Db) : Bool :=
  ((db.jobs.find? lease.jobId).bind JobRow.cancelRequestedAt).isSome

/-- The runs a command is for: a cancelled one for `cancel_current`, an uncancelled one for the
two reads. -/
def Command.suits (lease : Lease) (db : Db) : Command → Bool
  | .loadReadyDeployment | .loadVerifiedInputEvidence => !cancelRequested lease db
  | .cancelCurrent => cancelRequested lease db
  | .failRetryable .. => true

/-- The rows a command reads beyond its fence are in order. -/
def Command.served (lease : Lease) (db : Db) : Command → Bool
  | .loadReadyDeployment => (readyRow lease db).isSome
  | .loadVerifiedInputEvidence => inputsVerified lease db
  | .cancelCurrent | .failRetryable .. => true

section Body

variable {db : Db} {lease : Lease} {a : AttemptRow} {j : JobRow} {w : WorkerRow}

theorem current_of (hh : Holds db lease a j w) (hu : unexpired db a = true)
    (hc : cancelRequested lease db = false) : Current db lease := by
  unfold cancelRequested at hc
  rw [hh.job] at hc
  exact ⟨a, j, w, hh, hu, by simpa using hc⟩

theorem readyDeployment_lost (hc : Current db lease) :
    lost (readyDeployment lease ⟨db, []⟩) = !(readyRow lease db).isSome := by
  unfold readyDeployment
  rw [select_bind]
  cases hr : readyRow lease db with
  | none => rw [Tx.orFail_fails rfl]; rfl
  | some d =>
      rw [Tx.orFail_eval rfl]
      have hcur : assertCurrentRow lease ⟨db, []⟩ = .ok ((), ⟨db, []⟩) :=
        assertCurrentRow_ok.mpr ⟨rfl, hc⟩
      rw [Tx.bind_eval hcur]
      exact lost_lift (DeploymentRecord.checked_lost _)

/-- Every row of the filtered join survives exactly when every input is verified. -/
theorem inputs_length (hj : db.jobs.find? lease.jobId = some j) :
    ((orderBy (fun r : JobInputRow × AssetRow × BlobRow => r.1.role)
      ((inputsOf db lease.jobId).filterMap (verifiedInput db j))).length
        == (inputsOf db lease.jobId).length) = inputsVerified lease db := by
  unfold inputsVerified
  rw [hj, (orderBy_perm _ _).length_eq, Bool.eq_iff_iff, beq_iff_eq,
    List.filterMap_length_eq_length]
  simp

theorem verifiedInputEvidence_lost (hh : Holds db lease a j w) (hc : Current db lease) :
    lost (verifiedInputEvidence lease ⟨db, []⟩) = !inputsVerified lease db := by
  have hcur : assertCurrentRow lease ⟨db, []⟩ = .ok ((), ⟨db, []⟩) :=
    assertCurrentRow_ok.mpr ⟨rfl, hc⟩
  unfold verifiedInputEvidence
  rw [select_bind, select_bind]
  dsimp only
  rw [hh.job, hh.attempt]
  dsimp only
  rw [if_pos (by simp [hh.current, hh.ofEpoch]), select_bind]
  dsimp only
  cases hv : inputsVerified lease db with
  | false => rw [Tx.ensure_fails ((inputs_length hh.job).trans hv)]; rfl
  | true =>
      rw [Tx.ensure_eval ((inputs_length hh.job).trans hv), Tx.orFail_eval rfl]
      refine lost_lift_bind (lost_mapM (fun _ => JobInput.checked_lost _ _) _) fun _ => ?_
      refine lost_lift_bind (JobRecord.checked_lost _) fun _ => ?_
      refine lost_lift_bind (lost_mapM evidenceOf_lost _) fun _ => ?_
      rw [Tx.bind_eval hcur]
      rfl

/-- **Under its row locks a command that suits its lease raises a transition error only for want of
the rows it serves.** -/
theorem body_lost (hcoh : Coherent db) (hh : Holds db lease a j w) (hu : unexpired db a = true)
    (c : Command) (hs : c.suits lease db = true) :
    lost (commit (c.body lease a) db).1 = !c.served lease db := by
  cases c with
  | loadReadyDeployment =>
      have hc := current_of hh hu (by simpa [Command.suits] using hs)
      rw [lost_commit]
      exact (lost_void _ _).trans (readyDeployment_lost hc)
  | loadVerifiedInputEvidence =>
      have hc := current_of hh hu (by simpa [Command.suits] using hs)
      rw [lost_commit]
      exact (lost_void _ _).trans (verifiedInputEvidence_lost hh hc)
  | cancelCurrent =>
      have hreq : j.cancelRequestedAt.isSome = true := by
        simpa [Command.suits, cancelRequested, hh.job] using hs
      obtain ⟨db', hrun, _⟩ := closeCurrent_commits hcoh hh true 0 1 fun _ => hreq
      show lost (commit (closeCurrent lease true 0 1 a) db).1 = false
      rw [hrun]
      rfl
  | failRetryable delay maxAttempts =>
      obtain ⟨db', hrun, _⟩ := closeCurrent_commits hcoh hh false delay maxAttempts
        fun h => absurd h (by simp)
      show lost (commit (closeCurrent lease false delay maxAttempts a) db).1 = false
      rw [hrun]
      rfl

/-- A command that closes the lease returns, and leaves no active attempt behind. -/
theorem body_closes (hcoh : Coherent db) (hh : Holds db lease a j w) (c : Command)
    (hs : c.suits lease db = true) (hcl : c.closes = true) :
    ∃ db', commit (c.body lease a) db = (.ok (), db')
      ∧ ∃ b, db'.attempts.find? lease.attemptId = some b ∧ b.state ≠ .active := by
  have hend : ∀ {maxAttempts : Int} {db' : Db}, Closed db lease a j w
      (closingState j.cancelRequestedAt.isSome a.attemptNo maxAttempts) db' →
      ∃ b, db'.attempts.find? lease.attemptId = some b ∧ b.state ≠ .active := fun hclosed => by
    obtain ⟨reason, hatt⟩ := hclosed.attempt
    exact ⟨_, hatt, closingState_ne_active _ _ _⟩
  cases c with
  | loadReadyDeployment => exact absurd hcl (by simp [Command.closes])
  | loadVerifiedInputEvidence => exact absurd hcl (by simp [Command.closes])
  | cancelCurrent =>
      have hreq : j.cancelRequestedAt.isSome = true := by
        simpa [Command.suits, cancelRequested, hh.job] using hs
      obtain ⟨db', hrun, hclosed⟩ := closeCurrent_commits hcoh hh true 0 1 fun _ => hreq
      exact ⟨db', hrun, hend hclosed⟩
  | failRetryable delay maxAttempts =>
      obtain ⟨db', hrun, hclosed⟩ := closeCurrent_commits hcoh hh false delay maxAttempts
        fun h => absurd h (by simp)
      exact ⟨db', hrun, hend hclosed⟩

/-- A body leaves the database alone, or closes the lease. -/
theorem body_effect (hcoh : Coherent db) (hh : Holds db lease a j w) (c : Command) :
    (commit (c.body lease a) db).2 = db
      ∨ (Effect .plain (fun _ => True) db (commit (c.body lease a) db).2
        ∧ ¬ Live (commit (c.body lease a) db).2 lease) := by
  generalize hr : commit (c.body lease a) db = r
  obtain ⟨x, db'⟩ := r
  cases x with
  | error e => exact Or.inl (commit_error hr)
  | ok u =>
      obtain ⟨s, hb, _, rfl⟩ := commit_ok hr
      have hclose : ∀ {cancelled : Bool} {delay maxAttempts : Int},
          closeCurrent lease cancelled delay maxAttempts a ⟨db, []⟩ = .ok ((), s) →
          c.closes = true → c.suits lease db = true →
          Effect .plain (fun _ => True) db s.db ∧ ¬ Live s.db lease := fun h hcl hs => by
        have he : Effect .plain (fun _ => True) (Session.mk db []).db s.db :=
          closeCurrent_ok hh (fun _ => trivial) h
        refine ⟨he, fun hlive => ?_⟩
        obtain ⟨db', hrun, b, hb', hbs⟩ := body_closes hcoh hh c hs hcl
        obtain ⟨a', _, _, hh', _⟩ := hlive
        rw [hr] at hrun
        obtain rfl : s.db = db' := (Prod.mk.inj hrun).2
        rw [hh'.attempt] at hb'
        exact hbs (Option.some.inj hb' ▸ hh'.active)
      cases c with
      | loadReadyDeployment =>
          obtain ⟨d, s₁, h₁, hb⟩ := Tx.bind_ok.mp hb
          obtain ⟨_, rfl⟩ := readyDeployment_ok h₁
          obtain ⟨_, rfl⟩ := Tx.pure_ok.mp hb
          exact Or.inl rfl
      | loadVerifiedInputEvidence =>
          obtain ⟨d, s₁, h₁, hb⟩ := Tx.bind_ok.mp hb
          obtain ⟨_, rfl⟩ := verifiedInputEvidence_ok h₁
          obtain ⟨_, rfl⟩ := Tx.pure_ok.mp hb
          exact Or.inl rfl
      | cancelCurrent =>
          refine Or.inr (hclose hb rfl ?_)
          -- a cancellation nobody requested would have raised
          have hbody : closeCurrent lease true 0 1 a ⟨db, []⟩ = .ok ((), s) := hb
          unfold closeCurrent at hbody
          rw [select_bind, hh.job, Tx.ensure_bind] at hbody
          have hreq := hbody.1
          simp only [Command.suits, cancelRequested, hh.job]
          cases hj : j.cancelRequestedAt with
          | none => simp [hj] at hreq
          | some t => simp [hj]
      | failRetryable delay maxAttempts => exact Or.inr (hclose hb rfl rfl)

end Body

/-! ## The reads of the fence -/

section Reads

variable {db : Db} {lease : Lease} {a : AttemptRow} {j : JobRow} {w : WorkerRow}

theorem held_none (lease : Lease) : Progress.held lease none = Locks.free := by
  simp [Progress.held, Progress.count, Locks.free]

/-- Nothing stops the reads of a live lease whose rows are free. -/
theorem next_free (hh : Holds db lease a j w) (hu : unexpired db a = true)
    (own : Option Progress) (hown : ∀ row, own = some (.attempt row) → row = a) :
    ∃ p, Progress.next .free lease own db = .ok p ∧ ∀ row, p = .attempt row → row = a := by
  cases own with
  | none =>
      refine ⟨.worker, ?_, fun row h => nomatch h⟩
      simp [Progress.next, lockWorker, select_bind, hh.worker, hh.busy, Tx.ensure_run,
        Locks.free, Except.map]
  | some p =>
      cases p with
      | worker =>
          refine ⟨.job, ?_, fun row h => nomatch h⟩
          simp [Progress.next, lockJob, select_bind, hh.job, hh.running, Tx.ensure_run,
            Locks.free, Except.map]
      | job =>
          refine ⟨.attempt a, ?_, fun row h => (Progress.attempt.inj h).symm⟩
          simp only [Progress.next, lockAttempt, select_bind, id_eq, fenceRows_eq.mpr hh]
          rw [Tx.orFail_eval (a := (a, j, w)) (by simp [hu, Locks.free])]
          rfl
      | attempt row => exact ⟨.attempt row, rfl, fun row' h => by
          rw [← Progress.attempt.inj h]; exact hown row rfl⟩

/-- **The first read skips a worker row the heartbeat holds**, and the call is lost. -/
theorem next_contended (hh : Holds db lease a j w) (p : Progress) :
    Progress.next (Progress.held lease (some p)) lease none db = .error leaseLost := by
  have hheld : (Progress.held lease (some p)).workers w.id = true := by
    rw [hh.workerId]
    cases p <;> simp [Progress.held, Progress.count]
  simp [Progress.next, lockWorker, select_bind, hh.worker, Tx.ensure_run, hheld, Except.map]

end Reads

/-! ## Runs of both connections -/

/-- What neither a heartbeat nor the clock changes. -/
structure Undisturbed (lease : Lease) (db₀ db : Db) : Prop where
  jobs : db.jobs = db₀.jobs
  jobInputs : db.jobInputs = db₀.jobInputs
  assets : db.assets = db₀.assets
  blobs : db.blobs = db₀.blobs
  deployments : db.deployments = db₀.deployments
  worker : (db.workers.find? lease.workerId).map WorkerRow.modelDeploymentId
    = (db₀.workers.find? lease.workerId).map WorkerRow.modelDeploymentId

theorem Undisturbed.suits {lease : Lease} {db₀ db : Db} (h : Undisturbed lease db₀ db)
    (c : Command) : c.suits lease db = c.suits lease db₀ := by
  cases c <;> simp only [Command.suits, cancelRequested, h.jobs]

theorem Undisturbed.served {lease : Lease} {db₀ db : Db} (h : Undisturbed lease db₀ db)
    (c : Command) : c.served lease db = c.served lease db₀ := by
  cases c with
  | loadReadyDeployment =>
      have hw := h.worker
      simp only [Command.served, readyRow, h.jobs, h.deployments]
      cases h₁ : db.workers.find? lease.workerId with
      | none =>
          rw [h₁] at hw
          have h₂ : db₀.workers.find? lease.workerId = none := by simpa using hw.symm
          rw [h₂]
      | some w =>
          rw [h₁] at hw
          obtain ⟨w₀, h₂, hid⟩ := Option.map_eq_some_iff.mp hw.symm
          rw [h₂]
          cases db₀.jobs.find? lease.jobId with
          | none => rfl
          | some j => simp only [hid]
  | loadVerifiedInputEvidence =>
      have hinput : ∀ j i, verifiedInput db j i = verifiedInput db₀ j i := fun j i => by
        simp only [verifiedInput, h.assets, h.blobs]
      simp only [Command.served, inputsVerified, inputsOf, h.jobs, h.jobInputs, hinput]
  | cancelCurrent => rfl
  | failRetryable delay maxAttempts => rfl

/-- What is promised of a call that returned. -/
structure Verdict (lease : Lease) (db₀ db : Db) (r : Returned) : Prop where
  lost : lost r.outcome = true ↔ r.contended = true ∨ r.command.served lease db₀ = false
  closed : r.command.closes = true → r.command.check = .ok () → r.contended = false →
    r.outcome = .ok () ∧ ∃ b, db.attempts.find? lease.attemptId = some b ∧ b.state ≠ .active

/-- **The state of the two connections.** -/
structure Synchronized (lease : Lease) (db₀ : Db) (s : Duet) : Prop where
  coherent : Coherent s.db
  /-- Until the lease is closed, the rows behind it are those of the start. -/
  kept : Live s.db lease → Undisturbed lease db₀ s.db
  /-- At most one of the two transactions holds rows. -/
  exclusive : s.monitor = none ∨ s.command = none
  /-- The row an open call read is the attempt's row. -/
  row : ∀ c row, s.command = some ⟨c, .attempt row⟩ →
    s.db.attempts.find? lease.attemptId = some row
  returned : ∀ r ∈ s.returned, r.command.suits lease db₀ = true → Verdict lease db₀ s.db r

theorem synchronized_init {lease : Lease} {db₀ : Db} (h : Coherent db₀) :
    Synchronized lease db₀ (Duet.start db₀) where
  coherent := h
  kept _ := ⟨rfl, rfl, rfl, rfl, rfl, rfl⟩
  exclusive := Or.inl rfl
  row c row h := nomatch h
  returned r hr := absurd hr (by simp [Duet.start])

/-- A live lease has no finished attempt, so no closing command has returned yet. -/
theorem Verdict.congr {lease : Lease} {db₀ db db' : Db} {r : Returned} (h : Verdict lease db₀ db r)
    (hl : Live db lease) : Verdict lease db₀ db' r := by
  refine ⟨h.lost, fun hcl hch hcon => ?_⟩
  obtain ⟨_, b, hb, hs⟩ := h.closed hcl hch hcon
  obtain ⟨a, j, w, hh, _⟩ := hl
  obtain rfl : a = b := Option.some.inj (hh.attempt.symm.trans hb)
  exact absurd hh.active hs

section Steps

variable {lease : Lease} {db₀ : Db} {s : Duet}

theorem synchronized_tick (h : Synchronized lease db₀ s) (hl : Live s.db lease) (now : Time) :
    Synchronized lease db₀ { s with db := { s.db with clock := max s.db.clock now } } := by
  have hk := h.kept hl
  have he : Effect .plain (fun _ => True) s.db { s.db with clock := max s.db.clock now } :=
    Effect.tick _ (Nat.le_max_left _ _)
  exact ⟨coherent_effect h.coherent he, fun _ => ⟨hk.jobs, hk.jobInputs, hk.assets, hk.blobs,
    hk.deployments, hk.worker⟩, h.exclusive, h.row, fun r hr hs => (h.returned r hr hs).congr hl⟩

/-- A heartbeat that commits renews the lease. -/
theorem renew_effect {a : AttemptRow} {j : JobRow} {w : WorkerRow} {db : Db}
    (hh : Holds db lease a j w) (hu : unexpired db a = true) (leaseSeconds : Int) :
    let db' := (commit (renewLease lease leaseSeconds) db).2
    db' = db ∨ (Effect .plain (fun _ => True) db db' ∧ Undisturbed lease db db') := by
  generalize hr : commit (renewLease lease leaseSeconds) db = r
  obtain ⟨x, db'⟩ := r
  cases x with
  | error e => exact Or.inl (commit_error hr)
  | ok l =>
      obtain ⟨s, hb, _, rfl⟩ := commit_ok hr
      obtain ⟨hc, ta, tw, hta, htw, hs⟩ := renewLease_ok (s := ⟨db, []⟩) hh hb
      refine Or.inr ⟨hs ▸ Effect.renew hh hu hc hta htw, ?_⟩
      refine hs ▸ ⟨rfl, rfl, rfl, rfl, rfl, ?_⟩
      have hnew := Table.put?_self htw (hh.workerId.symm ▸ hh.worker)
      rw [show Schema.key (w.beat db.clock) = lease.workerId from hh.workerId] at hnew
      show (tw.find? lease.workerId).map _ = _
      rw [hnew, hh.worker]
      rfl

theorem synchronized_beat (h : Synchronized lease db₀ s) (hl : Live s.db lease)
    (leaseSeconds : Int) : Synchronized lease db₀ (s.beat lease leaseSeconds) := by
  obtain ⟨a, j, w, hh, hu⟩ := id hl
  have hk := h.kept hl
  unfold Duet.beat
  split
  · exact h
  · rename_i row hm
    have hnone : s.command = none := h.exclusive.resolve_left (by rw [hm]; simp)
    rcases renew_effect hh hu leaseSeconds with hsame | ⟨he, hund⟩
    · exact ⟨hsame.symm ▸ h.coherent, fun _ => hsame.symm ▸ hk, Or.inl rfl,
        fun c row hc => absurd (hnone ▸ hc) (by simp),
        fun r hr hs => (h.returned r hr hs).congr hl⟩
    · exact ⟨coherent_effect h.coherent he,
        fun _ => ⟨hund.jobs.trans hk.jobs, hund.jobInputs.trans hk.jobInputs,
          hund.assets.trans hk.assets, hund.blobs.trans hk.blobs,
          hund.deployments.trans hk.deployments, hund.worker.trans hk.worker⟩, Or.inl rfl,
        fun c row hc => absurd (hnone ▸ hc) (by simp),
        fun r hr hs => (h.returned r hr hs).congr hl⟩
  · split
    · exact h
    · rename_i hwait
      -- a heartbeat that does not wait finds no call open
      have hnone : s.command = none := by
        rcases h.exclusive with hm | hc
        · cases hc : s.command with
          | none => rfl
          | some o =>
              rw [hm, hc] at hwait
              cases hp : o.progress <;> simp [Progress.waits, Progress.count, hp] at hwait
        · exact hc
      split
      · exact ⟨h.coherent, h.kept, Or.inl rfl, h.row, h.returned⟩
      · exact ⟨h.coherent, h.kept, Or.inr hnone, h.row, h.returned⟩

theorem check_lost (c : Command) : lost c.check = false := by
  have hpos : ∀ value name, lost (positiveInt value name) = false := fun value name => by
    unfold positiveInt
    split <;> rfl
  cases c with
  | failRetryable delay maxAttempts => exact lost_bind (hpos _ _) fun _ => hpos _ _
  | _ => rfl

/-- Only `fail_retryable` checks an argument, and it serves nothing beyond its fence. -/
theorem served_of_check {c : Command} {e : Error} {db : Db} (h : c.check = .error e) :
    c.served lease db = true := by
  cases c with
  | failRetryable delay maxAttempts => rfl
  | _ => exact absurd h (by simp [Command.check])

theorem synchronized_call (h : Synchronized lease db₀ s) (hl : Live s.db lease) (c : Command) :
    Synchronized lease db₀ (s.call lease c) := by
  obtain ⟨a, j, w, hh, hu⟩ := id hl
  have hkeep : ∀ r : Returned, (r.command.suits lease db₀ = true → Verdict lease db₀ s.db r) →
      ∀ r' ∈ r :: s.returned, r'.command.suits lease db₀ = true → Verdict lease db₀ s.db r' :=
    fun r hr r' hmem => by
      rcases List.mem_cons.mp hmem with rfl | hmem
      · exact hr
      · exact h.returned r' hmem
  unfold Duet.call
  split
  · exact h
  · split
    · rename_i e he
      refine ⟨h.coherent, h.kept, Or.inr rfl, fun c row hc => absurd hc (by simp [Duet.finish]),
        hkeep _ fun _ => ⟨?_, fun _ hch => absurd (he.symm.trans hch) (by simp)⟩⟩
      have hlost := check_lost c
      rw [he] at hlost
      have hserved : c.served lease db₀ = true := served_of_check he
      show lost (Except.error e : Except Error Unit) = true ↔ false = true ∨ c.served lease db₀ = false
      rw [hserved]
      simpa [lost] using hlost
    · cases hm : s.monitor with
      | some p =>
          -- the heartbeat holds the worker row
          rw [next_contended hh p]
          refine ⟨h.coherent, h.kept, Or.inr rfl, fun c row hc => absurd hc (by simp [Duet.finish]),
            hkeep _ fun _ => ⟨⟨fun _ => Or.inl rfl, fun _ => rfl⟩, fun _ _ hcon => ?_⟩⟩
          exact absurd hcon (by simp)
      | none =>
          obtain ⟨p, hp, hrow⟩ := next_free hh hu none fun row hr => absurd hr (by simp)
          rw [held_none, hp]
          refine ⟨h.coherent, h.kept, Or.inl rfl, fun c row hc => ?_, h.returned⟩
          have hpr : p = .attempt row := congrArg OpenCall.progress (Option.some.inj hc)
          rw [hrow row hpr]
          exact hh.attempt

theorem synchronized_advance (h : Synchronized lease db₀ s) (hl : Live s.db lease) :
    Synchronized lease db₀ (s.advance lease) := by
  obtain ⟨a, j, w, hh, hu⟩ := id hl
  have hk := h.kept hl
  unfold Duet.advance
  split
  · exact h
  · rename_i c row hc
    obtain rfl : a = row := Option.some.inj (hh.attempt.symm.trans (h.row c row hc))
    -- a call that is answered while the lease is live is judged by the first database
    have hverdict : c.suits lease db₀ = true → Verdict lease db₀ (commit (c.body lease a) s.db).2
        ⟨c, false, (commit (c.body lease a) s.db).1⟩ := fun hs => by
      rw [← hk.suits] at hs
      have hlost := body_lost h.coherent hh hu c hs
      refine ⟨?_, fun hcl _ _ => ?_⟩
      · rw [← hk.served]
        simp only [hlost]
        simp
      · obtain ⟨db', hrun, hend⟩ := body_closes h.coherent hh c hs hcl
        exact ⟨by rw [hrun], by rw [hrun]; exact hend⟩
    have hkept : ∀ db', ∀ r ∈ s.returned, r.command.suits lease db₀ = true →
        Verdict lease db₀ db' r := fun db' r hr hs => (h.returned r hr hs).congr hl
    refine ⟨?_, ?_, Or.inr rfl, fun c row hc => absurd hc (by simp [Duet.finish]), ?_⟩
    · show Coherent (commit (c.body lease a) s.db).2
      rcases body_effect h.coherent hh c with hsame | ⟨he, _⟩
      · rw [hsame]
        exact h.coherent
      · exact coherent_effect h.coherent he
    · show Live (commit (c.body lease a) s.db).2 lease → Undisturbed lease db₀ _
      intro hlive
      rcases body_effect h.coherent hh c with hsame | ⟨_, hend⟩
      · show Undisturbed lease db₀ (commit (c.body lease a) s.db).2
        rw [hsame]
        exact hk
      · exact absurd hlive hend
    · intro r hr
      rcases List.mem_cons.mp hr with rfl | hr
      · exact hverdict
      · exact hkept _ r hr
  · rename_i c p hnot hc
    -- with no other transaction open there is no row that is locked
    have hm : s.monitor = none := h.exclusive.resolve_right (by rw [hc]; simp)
    obtain ⟨p', hp', hrow⟩ := next_free hh hu (some p) fun row hr =>
      absurd (Option.some.inj hr) (hnot row)
    rw [hm, held_none, hp']
    refine ⟨h.coherent, h.kept, Or.inl rfl, fun c row hc => ?_, h.returned⟩
    have hpr : p' = .attempt row := congrArg OpenCall.progress (Option.some.inj hc)
    rw [hrow row hpr]
    exact hh.attempt

end Steps

/-- **A live lease is lost to nothing but its own heartbeat.** In every interleaving of the
heartbeat's statements with those of the commands, a command that suits its lease raises a
transition error exactly when its first read met a worker row the heartbeat held, or when the rows
it serves are not in order; and a closing command that met no such row is recorded. -/
theorem spurious_loss (json : JsonColumn) (lease : Lease) (leaseSeconds : Int) (db₀ : Db)
    (h : (openSystem json).Reachable db₀) (s : Duet)
    (hs : (duet lease leaseSeconds db₀).Reachable s) (r : Returned) (hr : r ∈ s.returned)
    (hsuit : r.command.suits lease db₀ = true) : Verdict lease db₀ s.db r := by
  have hsync : Synchronized lease db₀ s := by
    refine hs.invariant (I := Synchronized lease db₀) ?_ ?_
    · intro s hs
      rw [hs]
      exact synchronized_init (coherent_reachable h)
    · rintro s _ _ hI ⟨hl, m, rfl⟩
      have hlive : Live s.db lease := live_iff.mp hl
      cases m with
      | tick now => exact synchronized_tick hI hlive now
      | beat => exact synchronized_beat hI hlive leaseSeconds
      | call c => exact synchronized_call hI hlive c
      | advance => exact synchronized_advance hI hlive
  exact hsync.returned r hr hsuit

theorem claimedQueue_reachable : (openSystem .plain).Reachable claimedQueue :=
  (System.Reachable.of_init registered_smallQueue).step ⟨.claimNext .free 9 7 60, trivial, rfl⟩

/-- The moves of both connections, one after another. -/
def Duet.play (lease : Lease) (leaseSeconds : Int) : List Move → Duet → Duet
  | [], s => s
  | m :: ms, s => Duet.play lease leaseSeconds ms (m.run lease leaseSeconds s)

/-- Every move is made while the lease is live. -/
def Duet.playable (lease : Lease) (leaseSeconds : Int) : List Move → Duet → Bool
  | [], _ => true
  | m :: ms, s => isLive s.db lease && Duet.playable lease leaseSeconds ms (m.run lease leaseSeconds s)

theorem play_reachable {lease : Lease} {leaseSeconds : Int} {db₀ : Db} {ms : List Move} {s : Duet}
    (hs : (duet lease leaseSeconds db₀).Reachable s)
    (h : Duet.playable lease leaseSeconds ms s = true) :
    (duet lease leaseSeconds db₀).Reachable (Duet.play lease leaseSeconds ms s) := by
  induction ms generalizing s with
  | nil => exact hs
  | cons m ms ih =>
      unfold Duet.playable at h
      rw [Bool.and_eq_true] at h
      exact ih (hs.step ⟨h.1, m, rfl⟩) h.2

/-- The failure of an invocation, recorded with no heartbeat under way. -/
def recordedDuet : Duet :=
  Duet.play claimedLease 60 [.call (.failRetryable 1 3), .beat, .advance, .advance, .advance]
    (Duet.start claimedQueue)

theorem spurious_loss_recorded : Verdict claimedLease claimedQueue recordedDuet.db
    ⟨.failRetryable 1 3, false, .ok ()⟩ :=
  spurious_loss .plain claimedLease 60 claimedQueue claimedQueue_reachable recordedDuet
    (play_reachable (System.Reachable.of_init rfl) (by decide +kernel)) _
    (by
      have h : recordedDuet.returned = [⟨.failRetryable 1 3, false, .ok ()⟩] := rfl
      rw [h]
      exact List.mem_singleton.mpr rfl) rfl

/-- A load while the heartbeat holds the worker row. -/
def contendedDuet : Duet :=
  Duet.play claimedLease 60 [.beat, .call .loadReadyDeployment] (Duet.start claimedQueue)

/-- **A heartbeat makes its own worker lose a current lease.** -/
theorem spurious_loss_contended : (openSystem .plain).Reachable claimedQueue
    ∧ (duet claimedLease 60 claimedQueue).Reachable contendedDuet
    ∧ Current contendedDuet.db claimedLease
    ∧ Command.loadReadyDeployment.served claimedLease claimedQueue = true
    ∧ contendedDuet.returned = [⟨.loadReadyDeployment, true, .error leaseLost⟩] :=
  ⟨claimedQueue_reachable, play_reachable (System.Reachable.of_init rfl) (by decide +kernel),
    by decide +kernel, by decide +kernel, rfl⟩

end NanoAural
