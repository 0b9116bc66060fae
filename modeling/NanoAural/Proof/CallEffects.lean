import NanoAural.Proof.Effects

/-!
# Every call is a sequence of effects

One inversion lemma for each method that writes, and `Call.effects` over all of
them: whatever the arguments, a call commits a finite sequence of effects, and
one that raises inside its transaction commits none.
-/

namespace NanoAural

open Relational

section Queue

variable {json : JsonColumn} {allowed : Int → Prop} {db db' : Db}

/-! ## The queue -/

theorem mem_nextJob {held : Locks} {modelDeploymentId : Uuid} {j : JobRow}
    (h : nextJob held modelDeploymentId db = some j) :
    j ∈ db.jobs.rows ∧ claimable db modelDeploymentId j = true := by
  have hm := mem_orderBy.mp (List.mem_of_mem_head? h)
  simp only [List.mem_filter, Bool.and_eq_true] at hm
  exact ⟨hm.1, hm.2.1⟩

/-- **What `claim_next` does**: nothing, or a claim of the next job by a ready worker. -/
theorem claimNext_rows {held : Locks} {attemptId workerId : Uuid} {leaseSeconds : Int}
    {r : Option Lease} (h : claimNext held attemptId workerId leaseSeconds db = (.ok r, db')) :
    (r = none ∧ db' = db) ∨ ∃ w j expiry ta tj tw te,
      db.workers.find? w.id = some w ∧ w.state = .ready ∧ db.jobs.find? j.id = some j
        ∧ claimable db w.modelDeploymentId j = true
        ∧ db.attempts.insert? (issuedAttempt attemptId j.id w.id (nextAttemptNo db j.id)
            (j.leaseEpoch + 1) db.clock expiry) = some ta
        ∧ db.jobs.put? (j.start attemptId (j.leaseEpoch + 1) db.clock) = some tj
        ∧ db.workers.put? (w.engage db.clock) = some tw
        ∧ db.events.insert? ⟨nextEventId db, j.id, some attemptId, .attemptStarted⟩ = some te
        ∧ r = some ⟨j.id, attemptId, w.id, j.leaseEpoch + 1, expiry⟩
        ∧ db' = { db with attempts := ta, jobs := tj, workers := tw, events := te } := by
  obtain ⟨s, hb, _, rfl⟩ := commit_ok h
  simp only [Tx.lift_bind, select_bind] at hb
  obtain ⟨_, _, hb⟩ := hb
  -- no worker that is READY, or no job for its deployment: nothing is written
  cases hw : (db.workers.find? workerId).filter fun w =>
      w.state == .ready && !held.workers w.id with
  | none =>
      rw [hw] at hb
      obtain ⟨rfl, rfl⟩ := Tx.pure_ok.mp hb
      exact Or.inl ⟨rfl, rfl⟩
  | some w =>
      rw [hw] at hb
      simp only [Option.filter_eq_some_iff, Bool.and_eq_true, beq_iff_eq] at hw
      dsimp only at hb
      rw [select_bind] at hb
      cases hj : nextJob held w.modelDeploymentId db with
      | none =>
          rw [hj] at hb
          obtain ⟨rfl, rfl⟩ := Tx.pure_ok.mp hb
          exact Or.inl ⟨rfl, rfl⟩
      | some j =>
          rw [hj] at hb
          obtain ⟨hjm, hjc⟩ := mem_nextJob hj
          have hjf := Table.find?_of_mem hjm
          simp only [select_bind] at hb
          -- the writes in their order: attempt, job, worker, event
          obtain ⟨_, s₁, h₁, hb⟩ := Tx.bind_ok.mp hb
          obtain ⟨ta, hta, _, rfl⟩ := insert_attempt h₁
          obtain ⟨_, s₂, h₂, hb⟩ := Tx.bind_ok.mp hb
          obtain ⟨tj, htj, _, _, rfl⟩ := update_job h₂ hjf rfl
          obtain ⟨_, s₃, h₃, hb⟩ := Tx.bind_ok.mp hb
          obtain ⟨tw, htw, _, rfl⟩ := update_worker h₃ hw.1 rfl
          obtain ⟨_, s₄, h₄, hb⟩ := Tx.bind_ok.mp hb
          obtain ⟨te, hte, rfl⟩ := event_ok h₄
          obtain ⟨rfl, rfl⟩ := Tx.pure_ok.mp hb
          have hwid : w.id = workerId := Table.key_of_find? hw.1
          subst hwid
          exact Or.inr ⟨w, j, _, ta, tj, tw, te, hw.1, hw.2.1, hjf, hjc, hta, htj, htw, hte, rfl,
            rfl⟩

theorem claimNext_ok (json : JsonColumn) (allowed : Int → Prop) {held : Locks}
    {attemptId workerId : Uuid} {leaseSeconds : Int} {r : Option Lease}
    (h : claimNext held attemptId workerId leaseSeconds db = (.ok r, db')) :
    (r = none ∧ db' = db) ∨ ∃ lease, r = some lease ∧ lease.attemptId = attemptId
      ∧ Effect json allowed db db' ∧ ∃ a, db'.attempts.find? attemptId = some a
          ∧ a.jobId = lease.jobId ∧ a.workerId = lease.workerId
          ∧ a.leaseEpoch = lease.leaseEpoch := by
  rcases claimNext_rows h with hnone | ⟨w, j, expiry, ta, tj, tw, te, hw, hready, hj, hjc, hta, htj,
    htw, hte, rfl, rfl⟩
  · exact Or.inl hnone
  · exact Or.inr ⟨_, rfl, rfl, Effect.claim hw hready hj hjc hta htj htw hte, _,
      (Table.find?_insert? hta attemptId).trans (if_pos rfl), rfl, rfl, rfl⟩

/-- Under the row locks of a live lease, `heartbeat` extends it. -/
theorem renewLease_ok {lease r : Lease} {a : AttemptRow} {j : JobRow} {w : WorkerRow}
    {leaseSeconds : Int} {s s' : Session Db Deferred} (hh : Holds s.db lease a j w)
    (h : renewLease lease leaseSeconds s = .ok (r, s')) :
    j.cancelRequestedAt = none ∧ ∃ ta tw,
      s.db.attempts.put? (a.renew s.db.clock (s.db.clock + leaseSeconds.toNat * second)) = some ta
      ∧ s.db.workers.put? (w.beat s.db.clock) = some tw
      ∧ s'.db = { s.db with attempts := ta, workers := tw } := by
  unfold renewLease at h
  rw [select_bind] at h
  obtain ⟨n, s₂, h₂, h⟩ := Tx.bind_ok.mp h
  obtain ⟨hn, h⟩ := Tx.ensure_bind.mp h
  rcases update_ok h₂ with ⟨rfl, _, _⟩ | ⟨_, _, _, _, hcur, _⟩
  · exact absurd hn (by simp)
  · obtain ⟨ta, hta, _, _, rfl⟩ := update_attempt h₂ hh.attempt hcur
    obtain ⟨_, s₃, h₃, h⟩ := Tx.bind_ok.mp h
    obtain ⟨tw, htw, _, rfl⟩ := update_worker h₃ hh.worker (by simp [hh.busy])
    obtain ⟨_, rfl⟩ := Tx.pure_ok.mp h
    obtain ⟨a', j', w', hh', _, hc⟩ := isCurrent_iff.mp hcur
    obtain ⟨_, rfl, _⟩ := hh.unique hh'
    exact ⟨hc, ta, tw, hta, htw, rfl⟩

/-- **What `heartbeat` does**: extend a current lease. -/
theorem heartbeat_rows {lease r : Lease} {leaseSeconds : Int}
    (h : heartbeat lease leaseSeconds db = (.ok r, db')) :
    ∃ a j w expiry ta tw, Holds db lease a j w ∧ unexpired db a = true
      ∧ j.cancelRequestedAt = none ∧ db.attempts.put? (a.renew db.clock expiry) = some ta
      ∧ db.workers.put? (w.beat db.clock) = some tw
      ∧ db' = { db with attempts := ta, workers := tw } := by
  obtain ⟨s, hb, _, rfl⟩ := commit_ok h
  rw [Tx.lift_bind] at hb
  obtain ⟨_, _, hb⟩ := hb
  obtain ⟨a, s₁, h₁, hb⟩ := Tx.bind_ok.mp hb
  obtain ⟨rfl, j, w, hh, hu, _⟩ := lockCurrent_ok.mp h₁
  obtain ⟨hc, ta, tw, hta, htw, hs⟩ := renewLease_ok hh hb
  exact ⟨a, j, w, _, ta, tw, hh, hu rfl, hc, hta, htw, hs⟩

theorem heartbeat_ok {lease r : Lease} {leaseSeconds : Int}
    (h : heartbeat lease leaseSeconds db = (.ok r, db')) :
    Current db lease ∧ Effect json allowed db db' := by
  obtain ⟨a, j, w, expiry, ta, tw, hh, hu, hc, hta, htw, rfl⟩ := heartbeat_rows h
  exact ⟨⟨a, j, w, hh, hu, hc⟩, Effect.renew hh hu hc hta htw⟩

/-- **What `request_cancel` does**: mark a waiting or running job once. -/
theorem requestCancel_rows {jobId : Uuid} {r : Bool}
    (h : requestCancel jobId db = (.ok r, db')) :
    (r = false ∧ db' = db ∧ ∀ j, db.jobs.find? jobId = some j →
      (j.state = .queued ∨ j.state = .running) → j.cancelRequestedAt.isSome = true) ∨
    (r = true ∧ ∃ j tj te, db.jobs.find? j.id = some j ∧ j.id = jobId
      ∧ (j.state = .queued ∨ j.state = .running) ∧ j.cancelRequestedAt = none
      ∧ db.jobs.put? (j.requestCancel db.clock) = some tj
      ∧ db.events.insert? ⟨nextEventId db, j.id, j.currentAttemptId, .cancelRequested⟩ = some te
      ∧ db' = { db with jobs := tj, events := te }) := by
  obtain ⟨s, hb, _, rfl⟩ := commit_ok h
  rw [select_bind] at hb
  cases hj : db.jobs.find? jobId with
  | none =>
      rw [hj] at hb
      obtain ⟨rfl, rfl⟩ := Tx.pure_ok.mp hb
      exact Or.inl ⟨rfl, rfl, nofun⟩
  | some j =>
      rw [hj] at hb
      dsimp only at hb
      by_cases hs : (j.state == .queued || j.state == .running) = true
      · rw [if_pos hs, select_bind] at hb
        obtain ⟨n, s₁, h₁, hb⟩ := Tx.bind_ok.mp hb
        rcases update_ok h₁ with ⟨rfl, rfl, hno⟩ | ⟨old, _, _, hf, hc, _⟩
        · obtain ⟨rfl, rfl⟩ := Tx.pure_ok.mp hb
          refine Or.inl ⟨rfl, rfl, fun x hx _ => ?_⟩
          obtain rfl := Option.some.inj hx
          have := hno j hj
          rw [Option.isNone_eq_false_iff] at this
          exact this
        · obtain rfl : j = old := Option.some.inj (hj.symm.trans hf)
          obtain ⟨tj, htj, _, rfl, rfl⟩ := update_job h₁ hj hc
          obtain ⟨_, s₂, h₂, hb⟩ := Tx.bind_ok.mp hb
          obtain ⟨te, hte, rfl⟩ := event_ok h₂
          obtain ⟨rfl, rfl⟩ := Tx.pure_ok.mp hb
          have hid : j.id = jobId := Table.key_of_find? hj
          subst hid
          simp only [Bool.or_eq_true, beq_iff_eq] at hs
          exact Or.inr ⟨rfl, j, tj, te, hj, rfl, hs, Option.isNone_iff_eq_none.mp hc, htj, hte, rfl⟩
      · rw [if_neg hs] at hb
        obtain ⟨rfl, rfl⟩ := Tx.pure_ok.mp hb
        refine Or.inl ⟨rfl, rfl, fun x hx hopen => ?_⟩
        obtain rfl := Option.some.inj hx
        simp only [Bool.or_eq_true, beq_iff_eq] at hs
        exact absurd hopen hs

theorem requestCancel_ok {jobId : Uuid} {r : Bool} (h : requestCancel jobId db = (.ok r, db')) :
    db' = db ∨ Effect json allowed db db' := by
  rcases requestCancel_rows h with ⟨_, hdb, _⟩ | ⟨_, j, tj, te, hj, _, hs, hc, htj, hte, rfl⟩
  · exact Or.inl hdb
  · exact Or.inr (Effect.requestCancel hj hs hc htj hte)

/-! ### Closing a lease -/

/-- **Closing a held lease** rewrites its attempt, worker and job and logs one event. -/
theorem closeLease_rows {lease : Lease} {a : AttemptRow} {j : JobRow} {w : WorkerRow}
    {terminal : AttemptState} {onlyActive : Bool} {reason : String} {delay : Int}
    {s s' : Session Db Deferred} {u : Unit} (hh : Holds s.db lease a j w)
    (h : closeLease lease terminal onlyActive reason delay s = .ok (u, s')) :
    ∃ notBefore ta tj tw te, s.db.attempts.put? (a.finish terminal s.db.clock reason) = some ta
      ∧ s.db.jobs.put? (j.leave terminal notBefore s.db.clock) = some tj
      ∧ s.db.workers.put? w.release = some tw
      ∧ s.db.events.insert? ⟨nextEventId s.db, lease.jobId, some lease.attemptId,
          closingEvent terminal⟩ = some te
      ∧ s'.db = { s.db with attempts := ta, jobs := tj, workers := tw, events := te } := by
  unfold closeLease at h
  rw [select_bind] at h
  obtain ⟨_, s₁, h₁, h⟩ := Tx.bind_ok.mp h
  obtain ⟨ta, hta, _, _, rfl⟩ := update_attempt h₁ hh.attempt (by simp [hh.active])
  obtain ⟨_, s₂, h₂, h⟩ := Tx.bind_ok.mp h
  obtain ⟨tw, htw, _, rfl⟩ := update_worker h₂ hh.worker rfl
  obtain ⟨_, s₃, h₃, h⟩ := Tx.bind_ok.mp h
  obtain ⟨tj, htj, _, _, rfl⟩ := update_job h₃ hh.job (by simp [hh.current, hh.attemptId])
  obtain ⟨te, hte, rfl⟩ := event_ok h
  exact ⟨_, ta, tj, tw, te, hta, htj, htw, hte, rfl⟩

theorem closeLease_ok {lease : Lease} {a : AttemptRow} {j : JobRow} {w : WorkerRow}
    {maxAttempts : Int} {onlyActive : Bool} {reason : String} {delay : Int}
    {s s' : Session Db Deferred} {u : Unit} (hh : Holds s.db lease a j w)
    (hm : j.cancelRequestedAt = none → allowed maxAttempts)
    (h : closeLease lease (closingState j.cancelRequestedAt.isSome a.attemptNo maxAttempts)
      onlyActive reason delay s = .ok (u, s')) :
    Effect json allowed s.db s'.db ∧ s'.db.publications = s.db.publications := by
  obtain ⟨_, ta, tj, tw, te, hta, htj, htw, hte, hdb⟩ := closeLease_rows hh h
  rw [hdb]
  exact ⟨Effect.close hh hm hta htj htw hte, rfl⟩

/-- Under the row locks of a live lease, `_finish_lease` closes it as its job's cancellation and
the budget say; on a cancellation it must have been requested. -/
theorem closeCurrent_closes {lease : Lease} {cancelled : Bool} {delay maxAttempts : Int}
    {a : AttemptRow} {j : JobRow} {w : WorkerRow} {s s' : Session Db Deferred} {u : Unit}
    (hh : Holds s.db lease a j w)
    (h : closeCurrent lease cancelled delay maxAttempts a s = .ok (u, s')) :
    (cancelled = true → j.cancelRequestedAt.isSome = true) ∧ ∃ reason,
      closeLease lease (closingState j.cancelRequestedAt.isSome a.attemptNo maxAttempts)
        false reason delay s = .ok (u, s') := by
  unfold closeCurrent at h
  rw [select_bind, hh.job, Tx.ensure_bind] at h
  obtain ⟨hreq, h⟩ := h
  have hsome : (cancelled || j.cancelRequestedAt.isSome) = j.cancelRequestedAt.isSome := by
    cases hc : j.cancelRequestedAt <;> cases cancelled <;> simp_all
  simp only [Option.bind_some, hsome] at h
  refine ⟨fun hc => ?_, _, h⟩
  subst hc
  simpa using hreq

theorem closeCurrent_ok {lease : Lease} {cancelled : Bool} {delay maxAttempts : Int}
    {a : AttemptRow} {j : JobRow} {w : WorkerRow} {s s' : Session Db Deferred} {u : Unit}
    (hh : Holds s.db lease a j w) (hm : cancelled = false → allowed maxAttempts)
    (h : closeCurrent lease cancelled delay maxAttempts a s = .ok (u, s')) :
    Effect json allowed s.db s'.db := by
  obtain ⟨hreq, reason, h⟩ := closeCurrent_closes hh h
  refine (closeLease_ok hh (fun hc => hm ?_) h).1
  cases cancelled with
  | false => rfl
  | true =>
      have := hreq rfl
      rw [hc] at this
      exact absurd this (by simp)

/-- `_finish_lease` leaves the ledger alone. -/
theorem finishLease_publications {held : Locks} {lease : Lease} {cancelled : Bool}
    {delay maxAttempts : Int} {s s' : Session Db Deferred} {u : Unit}
    (h : finishLease held lease cancelled delay maxAttempts s = .ok (u, s')) :
    s'.db.publications = s.db.publications := by
  unfold finishLease at h
  obtain ⟨a, s₁, h₁, h⟩ := Tx.bind_ok.mp h
  obtain ⟨rfl, j, w, hh, _⟩ := lockCurrent_ok.mp h₁
  obtain ⟨_, reason, h⟩ := closeCurrent_closes hh h
  obtain ⟨_, _, _, _, _, _, _, _, _, hdb⟩ := closeLease_rows hh h
  rw [hdb]

/-- **What `_finish_lease` does**: close a live lease. -/
theorem finishLease_ok {held : Locks} {lease : Lease} {cancelled : Bool} {delay maxAttempts : Int}
    {s s' : Session Db Deferred} {u : Unit} (hm : cancelled = false → allowed maxAttempts)
    (h : finishLease held lease cancelled delay maxAttempts s = .ok (u, s')) :
    Live s.db lease ∧ Effect json allowed s.db s'.db := by
  unfold finishLease at h
  obtain ⟨a, s₁, h₁, h⟩ := Tx.bind_ok.mp h
  obtain ⟨rfl, j, w, hh, hu, _⟩ := lockCurrent_ok.mp h₁
  exact ⟨⟨a, j, w, hh, hu rfl⟩, closeCurrent_ok hh hm h⟩

theorem cancelCurrent_ok {held : Locks} {lease : Lease} {u : Unit}
    (h : cancelCurrent held lease db = (.ok u, db')) :
    Live db lease ∧ Effect json allowed db db' := by
  obtain ⟨s, hb, _, rfl⟩ := commit_ok h
  exact finishLease_ok (fun hc => absurd hc (by simp)) hb

theorem failRetryable_ok {held : Locks} {lease : Lease} {delay maxAttempts : Int} {u : Unit}
    (hm : allowed maxAttempts)
    (h : failRetryable held lease delay maxAttempts db = (.ok u, db')) :
    Live db lease ∧ Effect json allowed db db' := by
  obtain ⟨s, hb, _, rfl⟩ := commit_ok h
  simp only [Tx.lift_bind] at hb
  obtain ⟨_, _, _, _, hb⟩ := hb
  exact finishLease_ok (fun _ => hm) hb

/-! ### Reaping -/

/-- One candidate is passed over, or its held lease is closed. -/
theorem reapOne_ok (json : JsonColumn) {held : Locks} {delay maxAttempts : Int} {row : AttemptRow}
    {s s' : Session Db Deferred} {n : Nat} (hm : allowed maxAttempts)
    (h : reapOne held delay maxAttempts row s = .ok (n, s')) :
    s' = s ∨ (Effect json allowed s.db s'.db ∧ s'.db.publications = s.db.publications) := by
  unfold reapOne at h
  dsimp only at h
  split at h
  · injection h with h
    injection h with _ h
    exact Or.inl h.symm
  · rename_i a s₁ h₁
    obtain ⟨rfl, j, w, hh, _⟩ := lockCurrent_ok.mp h₁
    rw [select_bind] at h
    by_cases hex : ((s.db.attempts.find? row.id).any fun a : AttemptRow =>
        a.leaseExpiresAt.any (· ≤ s.db.clock)) = true
    · rw [if_pos hex, select_bind] at h
      obtain ⟨_, s₂, h₂, h⟩ := Tx.bind_ok.mp h
      obtain ⟨_, rfl⟩ := Tx.pure_ok.mp h
      have hj : s.db.jobs.find? row.jobId = some j := hh.job
      rw [hj] at h₂
      exact Or.inr (closeLease_ok hh (fun _ => hm) h₂)
    · rw [if_neg hex] at h
      exact Or.inl (Tx.pure_ok.mp h).2.symm

/-- **What the reaper's loop does**: close the leases of its candidates one after another. -/
theorem reapRows_ok {held : Locks} {delay maxAttempts : Int} (hm : allowed maxAttempts) :
    ∀ {rows : List AttemptRow} {s s' : Session Db Deferred} {n : Nat},
      reapRows held delay maxAttempts rows s = .ok (n, s') →
      Relation.ReflTransGen (Effect json allowed) s.db s'.db
        ∧ s'.db.publications = s.db.publications := by
  intro rows
  induction rows with
  | nil =>
      intro s s' n h
      obtain ⟨_, rfl⟩ := Tx.pure_ok.mp h
      exact ⟨.refl, rfl⟩
  | cons row rows ih =>
      intro s s' n h
      unfold reapRows at h
      obtain ⟨_, s₁, h₁, h⟩ := Tx.bind_ok.mp h
      obtain ⟨_, s₂, h₂, h⟩ := Tx.bind_ok.mp h
      obtain ⟨_, rfl⟩ := Tx.pure_ok.mp h
      rcases reapOne_ok json hm h₁ with rfl | ⟨he, hp⟩
      · exact ih h₂
      · exact ⟨.head he (ih h₂).1, (ih h₂).2.trans hp⟩

theorem reapExpired_ok {held : Locks} {limit delay maxAttempts : Int} {n : Nat}
    (hm : allowed maxAttempts)
    (h : reapExpired held limit delay maxAttempts db = (.ok n, db')) :
    Relation.ReflTransGen (Effect json allowed) db db' ∧ db'.publications = db.publications := by
  obtain ⟨s, hb, _, rfl⟩ := commit_ok h
  simp only [Tx.lift_bind, select_bind] at hb
  obtain ⟨_, _, _, _, _, _, hb⟩ := hb
  exact reapRows_ok hm hb

/-! ### Reads -/

theorem assertCurrent_ok {lease : Lease} {u : Unit} (h : assertCurrent lease db = (.ok u, db')) :
    Current db lease ∧ db' = db := by
  obtain ⟨s, hb, _, rfl⟩ := commit_ok h
  obtain ⟨rfl, hc⟩ := assertCurrentRow_ok.mp hb
  exact ⟨hc, rfl⟩

theorem readyDeployment_ok {lease : Lease} {d : DeploymentRecord} {s s' : Session Db Deferred}
    (h : readyDeployment lease s = .ok (d, s')) : Current s.db lease ∧ s' = s := by
  unfold readyDeployment at h
  rw [select_bind, Tx.orFail_bind] at h
  obtain ⟨_, _, h⟩ := h
  obtain ⟨_, s₂, h₂, h⟩ := Tx.bind_ok.mp h
  obtain ⟨rfl, hc⟩ := assertCurrentRow_ok.mp h₂
  obtain ⟨_, rfl⟩ := Tx.lift_ok.mp h
  exact ⟨hc, rfl⟩

theorem loadReadyDeployment_ok {held : Locks} {lease : Lease} {d : DeploymentRecord}
    (h : loadReadyDeployment held lease db = (.ok d, db')) : Current db lease ∧ db' = db := by
  obtain ⟨s, hb, _, rfl⟩ := commit_ok h
  obtain ⟨_, s₁, h₁, hb⟩ := Tx.bind_ok.mp hb
  obtain ⟨rfl, _⟩ := lockCurrent_ok.mp h₁
  obtain ⟨hc, rfl⟩ := readyDeployment_ok hb
  exact ⟨hc, rfl⟩

theorem verifiedInputEvidence_ok {lease : Lease}
    {e : JobRecord × AttemptRecord × List VerifiedInputEvidence} {s s' : Session Db Deferred}
    (h : verifiedInputEvidence lease s = .ok (e, s')) : Current s.db lease ∧ s' = s := by
  unfold verifiedInputEvidence at h
  simp only [select_bind, Tx.ensure_bind, Tx.orFail_bind, Tx.lift_bind] at h
  obtain ⟨_, _, _, _, _, _, _, _, _, h⟩ := h
  obtain ⟨_, s₂, h₂, h⟩ := Tx.bind_ok.mp h
  obtain ⟨rfl, hc⟩ := assertCurrentRow_ok.mp h₂
  obtain ⟨_, rfl⟩ := Tx.pure_ok.mp h
  exact ⟨hc, rfl⟩

theorem loadVerifiedInputEvidence_ok {held : Locks} {lease : Lease}
    {e : JobRecord × AttemptRecord × List VerifiedInputEvidence}
    (h : loadVerifiedInputEvidence held lease db = (.ok e, db')) : Current db lease ∧ db' = db := by
  obtain ⟨s, hb, _, rfl⟩ := commit_ok h
  obtain ⟨_, s₁, h₁, hb⟩ := Tx.bind_ok.mp hb
  obtain ⟨rfl, _⟩ := lockCurrent_ok.mp h₁
  obtain ⟨hc, rfl⟩ := verifiedInputEvidence_ok hb
  exact ⟨hc, rfl⟩

theorem cancellationRequested_ok {lease : Lease} {b : Bool}
    (h : cancellationRequested lease db = (.ok b, db')) :
    db' = db ∧ ∃ j a w, db.jobs.find? lease.jobId = some j ∧ j.currentAttemptId = some a.id
      ∧ db.attempts.find? lease.attemptId = some a ∧ db.workers.find? lease.workerId = some w
      ∧ a.workerId = lease.workerId ∧ a.leaseEpoch = lease.leaseEpoch
      ∧ j.leaseEpoch = a.leaseEpoch ∧ j.state = .running ∧ a.state = .active ∧ w.state = .busy
      ∧ unexpired db a = true ∧ b = j.cancelRequestedAt.isSome := by
  obtain ⟨s, hb, _, rfl⟩ := commit_ok h
  rw [select_bind] at hb
  obtain ⟨hrow, rfl⟩ := Tx.orFail_ok.mp hb
  refine ⟨rfl, ?_⟩
  dsimp only at hrow
  split at hrow
  · exact absurd hrow (by simp)
  · rename_i j hj
    split at hrow
    · exact absurd hrow (by simp)
    · rename_i a ha
      split at hrow
      · rename_i hc
        simp only [Bool.and_eq_true, beq_iff_eq, Option.any_eq_true] at hc
        obtain ⟨⟨⟨⟨⟨⟨⟨hid, haw⟩, hae⟩, hje⟩, hrun⟩, hact⟩, w, hw, hbusy⟩, hu⟩ := hc
        obtain ⟨id, hcur, hfind⟩ := Option.bind_eq_some_iff.mp ha
        have hkey : a.id = id := Table.key_of_find? hfind
        subst hkey
        exact ⟨j, a, w, hj, hcur, hid ▸ hfind, haw ▸ hw, haw, hae, hje, hrun, hact, hbusy, hu,
          (Option.some.inj hrow).symm⟩
      · exact absurd hrow (by simp)

end Queue

/-! ## The ledger -/

section Ledger

variable {json : JsonColumn} {allowed : Int → Prop} {db db' : Db}

theorem update_publication {id : Uuid} {cond : PublicationRow → Bool}
    {set : PublicationRow → PublicationRow} {old : PublicationRow} {s s' : Session Db Deferred}
    {n : Nat} (h : update publicationsTable id cond set s = .ok (n, s'))
    (hf : s.db.publications.find? id = some old) (hc : cond old = true) :
    ∃ out t, publicationBeforeUpdate s.db old (set old) = .ok out
      ∧ s.db.publications.put? out = some t ∧ n = 1
      ∧ s' = ⟨{ s.db with publications := t }, s.deferred ++ publicationsTable.deferred out⟩ :=
  update_hit h hf hc

theorem selectRecord_ok {id : Uuid} {s s' : Session Db Deferred} {p : PublicationRow} :
    selectRecord id s = .ok (p, s') ↔ s.db.publications.find? id = some p ∧ s = s' := by
  unfold selectRecord
  rw [select_bind, Tx.orFail_ok]

theorem lockPublication_ok {lease : Lease} {id : Uuid} {s s' : Session Db Deferred}
    {p : PublicationRow} :
    lockPublication lease id s = .ok (p, s') ↔
      s.db.publications.find? id = some p ∧ p.ownedBy lease = true ∧ s = s' := by
  unfold lockPublication
  simp only [Tx.bind_ok, selectRecord_ok, Tx.ensure_ok, Tx.pure_ok]
  constructor
  · rintro ⟨_, _, ⟨hf, rfl⟩, _, _, ⟨ho, rfl⟩, rfl, rfl⟩
    exact ⟨hf, ho, rfl⟩
  · rintro ⟨hf, ho, rfl⟩
    exact ⟨p, s, ⟨hf, rfl⟩, (), s, ⟨ho, rfl⟩, rfl, rfl⟩

/-- The prologue of every worker method: a current lease and a row it owns. -/
theorem lockOwned_ok {lease : Lease} {id : Uuid} {α : Type} {f : PublicationRow → Sql α}
    {s s' : Session Db Deferred} {x : α}
    (h : (lockLease lease >>= fun _ => lockPublication lease id >>= f) s = .ok (x, s')) :
    Current s.db lease ∧ ∃ p, s.db.publications.find? id = some p ∧ p.ownedBy lease = true
      ∧ Current s.db p.lease ∧ f p s = .ok (x, s') := by
  obtain ⟨_, s₁, h₁, h⟩ := Tx.bind_ok.mp h
  obtain ⟨rfl, a, j, w, hh, hu, hc, _⟩ := lockLease_ok.mp h₁
  obtain ⟨p, s₂, h₂, h⟩ := Tx.bind_ok.mp h
  obtain ⟨hf, ho, rfl⟩ := lockPublication_ok.mp h₂
  have hcur : Current s.db lease := ⟨a, j, w, hh, hu, hc⟩
  exact ⟨hcur, p, hf, ho, (current_lease_iff ho).mpr hcur, h⟩

/-- **What `reserve` does**: nothing, where the row of the attempt and kind is there already, or add
the reserved row. Either way it returns a row of the ledger that was asked for like this. -/
theorem reserve_rows {publicationId : Uuid} {lease : Lease} {spec : PublicationSpec}
    {r : PublicationRow} (h : reserve json publicationId lease spec db = (.ok r, db')) :
    Current db lease ∧ r ∈ db'.publications.rows
      ∧ ((db' = db ∧ matchesSpec json r lease spec = true)
        ∨ ∃ tp, r = reservedRow json publicationId lease spec db.clock
            ∧ db.publications.insert? r = some tp ∧ db' = { db with publications := tp }) := by
  obtain ⟨s, hb, _, rfl⟩ := commit_ok h
  obtain ⟨_, s₁, h₁, hb⟩ := Tx.bind_ok.mp hb
  obtain ⟨rfl, a, j, w, hh, hu, hc, _⟩ := lockLease_ok.mp h₁
  have hcur : Current db lease := ⟨a, j, w, hh, hu, hc⟩
  rw [select_bind] at hb
  obtain ⟨added, s₂, h₂, hb⟩ := Tx.bind_ok.mp hb
  obtain ⟨new, hnew, _, ⟨rfl, rfl, _⟩ | ⟨tp, rfl, _, htp, rfl⟩⟩ := insertUnless_ok h₂
  · rw [if_neg (by simp), select_bind, Tx.orFail_bind] at hb
    obtain ⟨_, hfind, hb⟩ := hb
    obtain ⟨hmatches, hb⟩ := Tx.ensure_bind.mp hb
    obtain ⟨rfl, rfl⟩ := Tx.pure_ok.mp hb
    exact ⟨hcur, List.mem_of_find?_eq_some hfind, Or.inl ⟨rfl, hmatches⟩⟩
  · rw [if_pos rfl] at hb
    obtain ⟨hfind, rfl⟩ := selectRecord_ok.mp hb
    obtain ⟨_, rfl⟩ := insert_reserved.mp hnew
    have hr : r = reservedRow json publicationId lease spec db.clock :=
      Option.some.inj (hfind.symm.trans ((Table.find?_insert? htp publicationId).trans (if_pos rfl)))
    exact ⟨hcur, Table.mem_of_find? hfind, Or.inr ⟨tp, hr, hr ▸ htp, rfl⟩⟩

theorem reserve_ok {publicationId : Uuid} {lease : Lease} {spec : PublicationSpec}
    {r : PublicationRow} (h : reserve json publicationId lease spec db = (.ok r, db')) :
    Current db lease ∧ (db' = db ∨ Effect json allowed db db') := by
  obtain ⟨hcur, _, ⟨hdb, _⟩ | ⟨tp, rfl, htp, rfl⟩⟩ := reserve_rows h
  · exact ⟨hcur, Or.inl hdb⟩
  · exact ⟨hcur, Or.inr (Effect.reserve hcur htp)⟩

/-- One row of the ledger is rewritten, and nothing else. -/
structure RowRewrite (db db' : Db) (p p' : PublicationRow) : Prop where
  found : db.publications.find? p.id = some p
  id : p'.id = p.id
  table : db.publications.put? p' = some db'.publications
  others : db' = { db with publications := db'.publications }

/-- What an update of the row under `id` leaves, and what is selected from it then. -/
theorem rewrites_of_put {id : Uuid} {p out r : PublicationRow} {tp : Table PublicationRow}
    (hf : db.publications.find? id = some p) (htp : db.publications.put? out = some tp)
    (hid : out.id = p.id) (hr : tp.find? id = some r) :
    r = out ∧ p.id = id ∧ RowRewrite db { db with publications := tp } p r := by
  have hkey : p.id = id := Table.key_of_find? hf
  subst hkey
  have hout : Schema.key out = p.id := hid
  have hself := Table.put?_self htp (hout.symm ▸ hf)
  rw [hout] at hself
  obtain rfl : r = out := Option.some.inj (hr.symm.trans hself)
  exact ⟨rfl, rfl, hf, hid, htp, rfl⟩

theorem RowRewrite.effect {p p' : PublicationRow} (h : RowRewrite db db' p p')
    (hs : LedgerStep json db p p') : Effect json allowed db db' := by
  rw [h.others]
  exact Effect.ledger h.found hs h.table

/-- **What `record_object` does**: it rewrites a reserved row under a current lease. -/
theorem recordObject_rows {lease : Lease} {id : Uuid} {version : Nat} {sha256 : String} {size : Nat}
    {r : PublicationRow} (h : recordObject lease id version sha256 size db = (.ok r, db')) :
    Current db lease ∧ ∃ p, p.id = id ∧ p.version = version ∧ p.state = .reserved
      ∧ Current db p.lease ∧ r = p.recordObject p.key sha256 size db.clock
      ∧ RowRewrite db db' p r := by
  obtain ⟨s, hb, _, rfl⟩ := commit_ok h
  obtain ⟨_, hb⟩ := Tx.ensure_bind.mp hb
  obtain ⟨hcur, p, hf, _, hpc, hb⟩ := lockOwned_ok hb
  simp only [Tx.ensure_bind, select_bind, Bool.and_eq_true, beq_iff_eq] at hb
  obtain ⟨⟨hs, hv⟩, _, hb⟩ := hb
  obtain ⟨_, s₁, h₁, hb⟩ := Tx.bind_ok.mp hb
  obtain ⟨out, tp, hu, htp, rfl, rfl⟩ := update_publication h₁ hf (by simp [hs, hv])
  obtain ⟨_, hb⟩ := Tx.ensure_bind.mp hb
  obtain ⟨hfind, rfl⟩ := selectRecord_ok.mp hb
  obtain ⟨_, rfl⟩ := (update_recordObject (Table.check_of_find? hf) hs).mp hu
  obtain ⟨hr, hid, hw⟩ := rewrites_of_put hf htp rfl hfind
  exact ⟨hcur, p, hid, hv, hs, hpc, hr, hw⟩

theorem recordObject_ok {lease : Lease} {id : Uuid} {version : Nat} {sha256 : String} {size : Nat}
    {r : PublicationRow} (h : recordObject lease id version sha256 size db = (.ok r, db')) :
    Current db lease ∧ Effect json allowed db db' := by
  obtain ⟨hcur, p, _, _, hs, hpc, rfl, hw⟩ := recordObject_rows h
  exact ⟨hcur, hw.effect (.recordObject sha256 size hs hpc)⟩

/-- Two databases that differ at most in their blobs, artifacts and events. -/
structure SameQueue (db db' : Db) : Prop where
  clock : db'.clock = db.clock
  publications : db'.publications = db.publications
  attempts : db'.attempts = db.attempts
  jobs : db'.jobs = db.jobs
  workers : db'.workers = db.workers

theorem SameQueue.current_iff {db db' : Db} (h : SameQueue db db') {lease : Lease} :
    Current db' lease ↔ Current db lease := by
  constructor
  · rintro ⟨a, j, w, hh, hu, hc⟩
    exact ⟨a, j, w, ⟨h.attempts ▸ hh.attempt, h.jobs ▸ hh.job, h.workers ▸ hh.worker, hh.ofJob,
      hh.ofWorker, hh.ofEpoch, hh.active, hh.running, hh.current, hh.epoch, hh.busy⟩,
      by rw [unexpired, ← h.clock]; exact hu, hc⟩
  · rintro ⟨a, j, w, hh, hu, hc⟩
    exact ⟨a, j, w, ⟨h.attempts ▸ hh.attempt, h.jobs ▸ hh.job, h.workers ▸ hh.worker, hh.ofJob,
      hh.ofWorker, hh.ofEpoch, hh.active, hh.running, hh.current, hh.epoch, hh.busy⟩,
      by rw [unexpired, h.clock]; exact hu, hc⟩

/-- The blob a digest maps to, after inserting it if it is new. -/
theorem ensureBlob_ok (json : JsonColumn) (allowed : Int → Prop) {blob : BlobRecord}
    {s s' : Session Db Deferred} {r : Option BlobRow} (h : ensureBlob blob s = .ok (r, s')) :
    Relation.ReflTransGen (Effect json allowed) s.db s'.db ∧ SameQueue s.db s'.db := by
  unfold ensureBlob at h
  obtain ⟨added, s₁, h₁, h⟩ := Tx.bind_ok.mp h
  obtain ⟨new, hnew, _, ⟨rfl, rfl, _⟩ | ⟨tb, rfl, _, htb, rfl⟩⟩ := insertUnless_ok h₁
  · rw [if_neg (by simp)] at h
    injection h with h
    injection h with _ h
    subst h
    exact ⟨.refl, rfl, rfl, rfl, rfl, rfl⟩
  · rw [if_pos rfl] at h
    obtain ⟨_, rfl⟩ := Tx.pure_ok.mp h
    injection hnew with hnew
    subst hnew
    exact ⟨.single (Effect.blob rfl htb), rfl, rfl, rfl, rfl, rfl⟩

/-- **What `record_validated` does**: it rewrites a written row whose evidence the blob repeats, once
the blob's row is there. -/
theorem recordValidated_rows (allowed : Int → Prop) {lease : Lease} {id : Uuid} {version : Nat}
    {blob : BlobRecord} {metadata : PyValue} {r : PublicationRow}
    (h : recordValidated json lease id version blob metadata db = (.ok r, db')) :
    Current db lease ∧ ∃ mid, Relation.ReflTransGen (Effect json allowed) db mid
      ∧ SameQueue db mid ∧ ∃ p blobId, p.id = id ∧ p.version = version ∧ p.state = .objectWritten
        ∧ p.observedSha256 = some blob.sha256 ∧ p.observedSizeBytes = some blob.sizeBytes
        ∧ Current mid p.lease
        ∧ r = p.recordValidated blobId blob.contentType (json.roundTrip metadata) mid.clock
        ∧ validatedBlob mid r = true ∧ RowRewrite mid db' p r := by
  obtain ⟨s, hb, _, rfl⟩ := commit_ok h
  simp only [Tx.ensure_bind] at hb
  obtain ⟨_, _, hb⟩ := hb
  obtain ⟨hcur, p, hf, ho, _, hb⟩ := lockOwned_ok hb
  simp only [Tx.ensure_bind, Bool.and_eq_true, beq_iff_eq] at hb
  obtain ⟨⟨hs, hv⟩, ⟨⟨hsha, hsize⟩, _⟩, hb⟩ := hb
  obtain ⟨found, s₁, h₁, hb⟩ := Tx.bind_ok.mp hb
  obtain ⟨heff, hsame⟩ := ensureBlob_ok json allowed h₁
  rw [Tx.orFail_bind] at hb
  obtain ⟨row, _, hb⟩ := hb
  rw [select_bind] at hb
  obtain ⟨_, s₂, h₂, hb⟩ := Tx.bind_ok.mp hb
  have hf₁ : s₁.db.publications.find? id = some p := by
    rw [hsame.publications]
    exact hf
  obtain ⟨out, tp, hu, htp, rfl, rfl⟩ := update_publication h₂ hf₁ (by simp [hs, hv])
  obtain ⟨_, hb⟩ := Tx.ensure_bind.mp hb
  obtain ⟨hfind, rfl⟩ := selectRecord_ok.mp hb
  obtain ⟨hc, rfl, hblob⟩ := (update_recordValidated (Table.check_of_find? hf) hs).mp hu
  obtain ⟨rfl, hid, hw⟩ := rewrites_of_put hf₁ htp rfl hfind
  exact ⟨hcur, s₁.db, heff, hsame, p, row.id, hid, hv, hs, hsha, hsize, hc, rfl, hblob, hw⟩

theorem recordValidated_ok {lease : Lease} {id : Uuid} {version : Nat} {blob : BlobRecord}
    {metadata : PyValue} {r : PublicationRow}
    (h : recordValidated json lease id version blob metadata db = (.ok r, db')) :
    Current db lease ∧ ∃ mid, Relation.ReflTransGen (Effect json allowed) db mid
      ∧ SameQueue db mid ∧ Effect json allowed mid db' := by
  obtain ⟨hcur, mid, heff, hsame, p, blobId, _, _, hs, _, _, hc, rfl, hblob, hw⟩ :=
    recordValidated_rows allowed h
  exact ⟨hcur, mid, heff, hsame, hw.effect (.recordValidated blobId blob.contentType metadata hs hc
    hblob)⟩

/-- **What `reject` does**: it ends an open row under a current lease. -/
theorem reject_rows {lease : Lease} {id : Uuid} {version : Nat} {reason : String}
    {r : PublicationRow} (h : reject lease id version reason db = (.ok r, db')) :
    Current db lease ∧ ∃ p, p.id = id ∧ p.version = version ∧ p.state.terminal = false
      ∧ Current db p.lease ∧ r = p.terminalize .rejected reason db.clock
      ∧ RowRewrite db db' p r := by
  obtain ⟨s, hb, _, rfl⟩ := commit_ok h
  obtain ⟨_, hb⟩ := Tx.ensure_bind.mp hb
  obtain ⟨hcur, p, hf, _, hpc, hb⟩ := lockOwned_ok hb
  simp only [Tx.ensure_bind, select_bind, Bool.and_eq_true, beq_iff_eq] at hb
  obtain ⟨⟨hv, hs⟩, hb⟩ := hb
  obtain ⟨_, s₁, h₁, hb⟩ := Tx.bind_ok.mp hb
  obtain ⟨out, tp, hu, htp, rfl, rfl⟩ := update_publication h₁ hf (by simp [hs, hv])
  obtain ⟨_, hb⟩ := Tx.ensure_bind.mp hb
  obtain ⟨hfind, rfl⟩ := selectRecord_ok.mp hb
  obtain ⟨_, rfl⟩ := (update_reject (Table.check_of_find? hf) (open_iff.mp hs)).mp hu
  obtain ⟨hr, hid, hw⟩ := rewrites_of_put hf htp rfl hfind
  exact ⟨hcur, p, hid, hv, open_iff.mp hs, hpc, hr, hw⟩

theorem reject_ok {lease : Lease} {id : Uuid} {version : Nat} {reason : String}
    {r : PublicationRow} (h : reject lease id version reason db = (.ok r, db')) :
    Current db lease ∧ Effect json allowed db db' := by
  obtain ⟨hcur, p, _, _, hs, hpc, rfl, hw⟩ := reject_rows h
  exact ⟨hcur, hw.effect (.reject reason hs hpc)⟩

/-- **What `abandon`'s transaction does**: start the grace period of an open row whose lease is gone,
or end it. -/
theorem abandonRow_rows {id : Uuid} {version : Nat} {reason : String} {s s' : Session Db Deferred}
    {started : Bool} {r : PublicationRow}
    (h : abandonRow id version reason s = .ok ((started, r), s')) :
    ∃ p, p.id = id ∧ p.version = version ∧ p.state.terminal = false ∧ ¬ Current s.db p.lease
      ∧ RowRewrite s.db s'.db p r
      ∧ ((started = true ∧ p.staleSince = none ∧ r = p.startGrace s.db.clock)
        ∨ ∃ since, started = false ∧ p.staleSince = some since ∧ since + staleGrace ≤ s.db.clock
            ∧ r = p.terminalize .abandoned reason s.db.clock) := by
  unfold abandonRow at h
  obtain ⟨_, h⟩ := Tx.ensure_bind.mp h
  obtain ⟨p, s₁, h₁, h⟩ := Tx.bind_ok.mp h
  obtain ⟨hf, rfl⟩ := selectRecord_ok.mp h₁
  simp only [Tx.ensure_bind, select_bind, Bool.and_eq_true, beq_iff_eq] at h
  obtain ⟨⟨hv, hs⟩, h⟩ := h
  -- the first call starts the grace, a later one ends it
  cases hst : p.staleSince with
  | none =>
      rw [hst] at h
      dsimp only at h
      obtain ⟨_, s₂, h₂, h⟩ := Tx.bind_ok.mp h
      obtain ⟨out, tp, hu, htp, rfl, rfl⟩ := update_publication h₂ hf (by simp [hs, hv, hst])
      obtain ⟨_, h⟩ := Tx.ensure_bind.mp h
      obtain ⟨_, s₃, h₃, h⟩ := Tx.bind_ok.mp h
      obtain ⟨hfind, rfl⟩ := selectRecord_ok.mp h₃
      obtain ⟨heq, rfl⟩ := Tx.pure_ok.mp h
      obtain ⟨rfl, rfl⟩ := Prod.mk.inj heq
      obtain ⟨hc, rfl, _⟩ :=
        (update_startGrace (Table.check_of_find? hf) (open_iff.mp hs) hst).mp hu
      obtain ⟨hr, hid, hw⟩ := rewrites_of_put hf htp rfl hfind
      exact ⟨p, hid, hv, open_iff.mp hs, hc, hw, Or.inl ⟨rfl, hst, hr⟩⟩
  | some since =>
      rw [hst] at h
      dsimp only at h
      obtain ⟨_, h⟩ := Tx.ensure_bind.mp h
      obtain ⟨_, s₂, h₂, h⟩ := Tx.bind_ok.mp h
      obtain ⟨out, tp, hu, htp, rfl, rfl⟩ := update_publication h₂ hf (by simp [hs, hv])
      obtain ⟨_, h⟩ := Tx.ensure_bind.mp h
      obtain ⟨_, s₃, h₃, h⟩ := Tx.bind_ok.mp h
      obtain ⟨hfind, rfl⟩ := selectRecord_ok.mp h₃
      obtain ⟨heq, rfl⟩ := Tx.pure_ok.mp h
      obtain ⟨rfl, rfl⟩ := Prod.mk.inj heq
      obtain ⟨hc, hg, rfl⟩ :=
        (update_abandon (Table.check_of_find? hf) (open_iff.mp hs) hst).mp hu
      obtain ⟨hr, hid, hw⟩ := rewrites_of_put hf htp rfl hfind
      exact ⟨p, hid, hv, open_iff.mp hs, hc, hw, Or.inr ⟨since, rfl, hst, hg, hr⟩⟩

theorem abandonRow_ok {id : Uuid} {version : Nat} {reason : String} {s s' : Session Db Deferred}
    {r : Bool × PublicationRow} (h : abandonRow id version reason s = .ok (r, s')) :
    Effect json allowed s.db s'.db := by
  obtain ⟨p, _, _, hs, hc, hw, ⟨_, hst, hr⟩ | ⟨since, _, hst, hg, hr⟩⟩ := abandonRow_rows h
  · rw [hr] at hw
    exact hw.effect (.startGrace hs hst hc)
  · rw [hr] at hw
    exact hw.effect (.abandon since reason hs hst hc hg)

/-- **What `record_cleanup` does**: it stamps a settled row once. -/
theorem recordCleanup_rows {id : Uuid} {version : Nat} {r : PublicationRow}
    (h : recordCleanup id version db = (.ok r, db')) :
    ∃ p, p.id = id ∧ p.version = version ∧ p.state.terminal = true
      ∧ p.attemptObjectDeletedAt = none ∧ r = p.recordCleanup db.clock ∧ RowRewrite db db' p r := by
  obtain ⟨s, hb, _, rfl⟩ := commit_ok h
  obtain ⟨p, s₁, h₁, hb⟩ := Tx.bind_ok.mp hb
  obtain ⟨hf, rfl⟩ := selectRecord_ok.mp h₁
  simp only [Tx.ensure_bind, select_bind, Bool.and_eq_true, beq_iff_eq,
    Option.isNone_iff_eq_none] at hb
  obtain ⟨⟨⟨hv, hs⟩, hdel⟩, hb⟩ := hb
  obtain ⟨_, s₂, h₂, hb⟩ := Tx.bind_ok.mp hb
  obtain ⟨out, tp, hu, htp, rfl, rfl⟩ := update_publication h₂ hf (by simp [hs, hv, hdel])
  obtain ⟨_, hb⟩ := Tx.ensure_bind.mp hb
  obtain ⟨hfind, rfl⟩ := selectRecord_ok.mp hb
  obtain ⟨rfl, _⟩ := (update_recordCleanup hs hdel).mp hu
  obtain ⟨hr, hid, hw⟩ := rewrites_of_put hf htp rfl hfind
  exact ⟨p, hid, hv, hs, hdel, hr, hw⟩

theorem recordCleanup_ok {id : Uuid} {version : Nat} {r : PublicationRow}
    (h : recordCleanup id version db = (.ok r, db')) : Effect json allowed db db' := by
  obtain ⟨p, _, _, hs, hdel, rfl, hw⟩ := recordCleanup_rows h
  exact hw.effect (.recordCleanup hs hdel)

/-! ### Finalizing -/

/-- One turn of the loop: an artifact is added and its publication finalized. -/
theorem finalizeItem_ok {artifactId : Uuid → Uuid} {lease : Lease} {p : PublicationRow}
    {items : List PublicationRow} {s s' : Session Db Deferred} {u : Unit}
    (hp : p ∈ s.db.publications.rows) (hs : p.state = .validated)
    (h : finalizeItems json artifactId lease (p :: items) s = .ok (u, s')) :
    ∃ tr tp d, s.db.artifacts.insert? (artifactOf json (artifactId p.id) lease
        (p.canonicalBlobId.getD 0) p) = some tr
      ∧ s.db.publications.put? (p.finalize s.db.clock) = some tp
      ∧ validatedBlob s.db p = true
      ∧ finalizeItems json artifactId lease items
          ⟨{ s.db with artifacts := tr, publications := tp }, d⟩ = .ok (u, s') := by
  unfold finalizeItems at h
  obtain ⟨blobId, hblob, h⟩ := Tx.orFail_bind.mp h
  obtain ⟨_, s₁, h₁, h⟩ := Tx.bind_ok.mp h
  obtain ⟨tr, htr, _, rfl⟩ := insert_artifact h₁
  rw [select_bind] at h
  obtain ⟨_, s₂, h₂, h⟩ := Tx.bind_ok.mp h
  obtain ⟨out, tp, hu, htp, rfl, rfl⟩ :=
    update_publication h₂ (Table.find?_of_mem hp) (by simp [hs])
  obtain ⟨_, h⟩ := Tx.ensure_bind.mp h
  obtain ⟨_, rfl, hv⟩ := (update_finalize (s.db.publications.checked p hp) hs).mp hu
  exact ⟨tr, tp, _, by rw [hblob]; exact htr, htp, hv, h⟩

/-- **The loop of `finalize`** adds one artifact for each publication and finalizes it. -/
theorem finalizeItems_ok {artifactId : Uuid → Uuid} {lease : Lease} :
    ∀ {items : List PublicationRow} {s s' : Session Db Deferred} {u : Unit},
      (∀ p ∈ items, p ∈ s.db.publications.rows) → (items.map PublicationRow.id).Nodup →
      (∀ p ∈ items, p.state = .validated) →
      finalizeItems json artifactId lease items s = .ok (u, s') →
      (∀ p ∈ items, validatedBlob s.db p = true) ∧ ∃ tp tr,
        tp.rows = finalizedRows s.db.clock items s.db.publications.rows
          ∧ tr.rows = s.db.artifacts.rows ++ artifactsOf json artifactId lease items
          ∧ s'.db = { s.db with publications := tp, artifacts := tr } := by
  intro items
  induction items with
  | nil =>
      intro s s' u _ _ _ h
      obtain ⟨_, rfl⟩ := Tx.pure_ok.mp h
      refine ⟨by simp, s.db.publications, s.db.artifacts, ?_, by simp [artifactsOf], rfl⟩
      simp [finalizedRows]
  | cons p items ih =>
      intro s s' u hrows hnd hval h
      obtain ⟨tr, tp, d, htr, htp, hv, h⟩ :=
        finalizeItem_ok (hrows p (by simp)) (hval p (by simp)) h
      rw [List.map_cons, List.nodup_cons] at hnd
      have hother : ∀ q ∈ items, q.id ≠ p.id := fun q hq he =>
        hnd.1 (he ▸ List.mem_map_of_mem hq)
      -- the later items are other rows, which this turn leaves
      have hkeep : ∀ q ∈ items, q ∈ tp.rows := fun q hq =>
        (Table.mem_put? htp).mpr (Or.inl ⟨hrows q (by simp [hq]), hother q hq⟩)
      obtain ⟨hv', tp', tr', htp', htr', hs'⟩ := ih hkeep hnd.2 (fun q hq => hval q (by simp [hq])) h
      refine ⟨?_, tp', tr', ?_, ?_, hs'⟩
      · intro q hq
        rcases List.mem_cons.mp hq with rfl | hq
        · exact hv
        · exact hv' q hq
      · -- a row is rewritten by this turn, by a later one, or by none
        rw [htp', finalizedRows, Table.put?_rows htp, List.map_map, finalizedRows]
        refine List.map_congr_left fun q hq => ?_
        by_cases hk : q.id = p.id
        · have hqp : q = p := Table.eq_of_key hq (hrows p (by simp)) hk
          subst hqp
          have hkey : Schema.key q = Schema.key (q.finalize s.db.clock) := rfl
          have hid : (q.finalize s.db.clock).id = q.id := rfl
          rw [Function.comp_apply, if_pos hkey, hid, if_neg hnd.1, if_pos (by simp)]
        · have hkey : ¬ Schema.key q = Schema.key (p.finalize s.db.clock) := hk
          rw [Function.comp_apply, if_neg hkey]
          simp [hk]
      · rw [htr', Table.insert?_rows htr, List.append_assoc]
        rfl

/-- **What the statements after the loop do**: the winner and its job succeed together. -/
theorem crownWinner_ok {lease : Lease} {a : AttemptRow} {j : JobRow} {w : WorkerRow}
    {s s' : Session Db Deferred} {u : Unit} (hh : Holds s.db lease a j w)
    (h : crownWinner lease s = .ok (u, s')) :
    ∃ ta tj tw te, s.db.attempts.put? (a.succeed s.db.clock) = some ta
      ∧ s.db.jobs.put? (j.succeed lease.attemptId s.db.clock) = some tj
      ∧ s.db.workers.put? w.release = some tw
      ∧ s.db.events.insert? ⟨nextEventId s.db, lease.jobId, some lease.attemptId, .jobSucceeded⟩
          = some te
      ∧ s'.db = { s.db with attempts := ta, jobs := tj, workers := tw, events := te } := by
  unfold crownWinner at h
  rw [select_bind] at h
  obtain ⟨n, s₁, h₁, h⟩ := Tx.bind_ok.mp h
  obtain ⟨hn, h⟩ := Tx.ensure_bind.mp h
  rcases update_ok h₁ with ⟨rfl, _, _⟩ | ⟨old, _, _, hf, hwin, _⟩
  · exact absurd hn (by simp)
  · obtain rfl : a = old := Option.some.inj (hh.attempt.symm.trans hf)
    obtain ⟨ta, hta, _, _, rfl⟩ := update_attempt h₁ hf hwin
    obtain ⟨_, s₂, h₂, h⟩ := Tx.bind_ok.mp h
    obtain ⟨tw, htw, _, rfl⟩ := update_worker h₂ hh.worker rfl
    obtain ⟨_, s₃, h₃, h⟩ := Tx.bind_ok.mp h
    obtain ⟨te, hte, rfl⟩ := event_ok h₃
    obtain ⟨m, s₄, h₄, h⟩ := Tx.bind_ok.mp h
    obtain ⟨hm, rfl⟩ := Tx.ensure_ok.mp h
    rcases update_ok h₄ with ⟨rfl, _, _⟩ | ⟨old, _, _, hf', hcond, _⟩
    · exact absurd hm (by simp)
    · obtain rfl : j = old := Option.some.inj (hh.job.symm.trans hf')
      obtain ⟨tj, htj, _, _, rfl⟩ := update_job h₄ hf' hcond
      exact ⟨ta, tj, tw, te, hta, htj, htw, hte, rfl⟩

theorem mem_requestedRows {ids : List Uuid} {p : PublicationRow} :
    p ∈ requestedRows db ids ↔ p ∈ db.publications.rows ∧ p.id ∈ ids := by
  simp [requestedRows]

/-- The requested rows of a table have distinct ids. -/
theorem requestedRows_nodup (db : Db) (ids : List Uuid) :
    ((requestedRows db ids).map PublicationRow.id).Nodup := by
  have hperm : ((requestedRows db ids).map PublicationRow.id).Perm
      ((db.publications.rows.filter fun p => ids.contains p.id).map PublicationRow.id) :=
    (orderBy_perm _ _).map _
  refine hperm.nodup_iff.mpr ?_
  have hall : (db.publications.rows.map PublicationRow.id).Nodup := by
    rw [List.Nodup, List.pairwise_map]
    exact db.publications.apart.imp fun h => h.1
  exact hall.sublist (List.filter_sublist.map _)

/-- As many rows as were asked for: each of them was found. -/
theorem requestedRows_complete {requested : List PublicationRow}
    (hlength : (requestedRows db (requested.map PublicationRow.id)).length = requested.length)
    {r : PublicationRow} (hr : r ∈ requested) :
    r.id ∈ (requestedRows db (requested.map PublicationRow.id)).map PublicationRow.id := by
  have hsub : (requestedRows db (requested.map PublicationRow.id)).map PublicationRow.id
      ⊆ requested.map PublicationRow.id := by
    intro id hid
    obtain ⟨p, hp, rfl⟩ := List.mem_map.mp hid
    exact (mem_requestedRows.mp hp).2
  have hperm := (List.subperm_of_subset (requestedRows_nodup db _) hsub).perm_of_length_le
    (by rw [List.length_map, List.length_map, hlength])
  exact hperm.mem_iff.mpr (List.mem_map_of_mem hr)

/-- **What `finalize` does**: make a current lease's validated publications visible, those that were
asked for. -/
theorem finalizeRows_rows (allowed : Int → Prop) {artifactId : Uuid → Uuid} {lease : Lease}
    {requested : List PublicationRow} {u : Unit}
    (h : commit (finalizeRows json artifactId lease requested) db = (.ok u, db')) :
    Current db lease ∧ Effect json allowed db db' ∧ ∃ items required,
      Winning db lease required items
        ∧ db'.publications.rows = finalizedRows db.clock items db.publications.rows
        ∧ ∀ r ∈ requested, r.id ∈ items.map PublicationRow.id := by
  obtain ⟨s, hb, _, rfl⟩ := commit_ok h
  unfold finalizeRows at hb
  simp only [Tx.ensure_bind] at hb
  obtain ⟨_, _, hb⟩ := hb
  obtain ⟨kinds, s₁, h₁, hb⟩ := Tx.bind_ok.mp hb
  obtain ⟨rfl, a, j, w, hh, hu, hc, rfl⟩ := lockLease_ok.mp h₁
  simp only [select_bind, Tx.ensure_bind, Bool.and_eq_true] at hb
  obtain ⟨hlength, hset, ⟨⟨hk₁, hk₂⟩, _⟩, _, hb⟩ := hb
  obtain ⟨_, s₂, h₂, hb⟩ := Tx.bind_ok.mp hb
  have hcur : ∀ p ∈ requestedRows db (requested.map PublicationRow.id),
      p.ownedBy lease = true ∧ p.state = .validated := by
    intro p hp
    have := List.all_eq_true.mp hset p hp
    simp only [Bool.and_eq_true, beq_iff_eq] at this
    exact this.1
  obtain ⟨hv, tp, tr, htp, htr, hs₂⟩ := finalizeItems_ok (s := ⟨db, []⟩)
    (fun p hp => (mem_requestedRows.mp hp).1) (requestedRows_nodup _ _)
    (fun p hp => (hcur p hp).2) h₂
  -- the items touch neither the attempt, the job nor the worker
  have hh₂ : Holds s₂.db lease a j w := by
    rw [hs₂]
    exact ⟨hh.attempt, hh.job, hh.worker, hh.ofJob, hh.ofWorker, hh.ofEpoch, hh.active, hh.running,
      hh.current, hh.epoch, hh.busy⟩
  obtain ⟨ta, tj, tw, te, hta, htj, htw, hte, hs⟩ := crownWinner_ok hh₂ hb
  rw [hs₂] at hta htj htw hte hs
  -- the two inclusions of the check make the kinds the required ones
  have hwin : Winning db lease j.requiredArtifactKinds
      (requestedRows db (requested.map PublicationRow.id)) := by
    refine ⟨fun p hp => (mem_requestedRows.mp hp).1, requestedRows_nodup _ _,
      fun p hp => (hcur p hp).1, fun p hp => (hcur p hp).2, hv, fun kind => ?_⟩
    constructor
    · intro hkind
      simpa using List.all_eq_true.mp hk₁ kind hkind
    · intro hkind
      simpa using List.all_eq_true.mp hk₂ kind hkind
  refine ⟨⟨a, j, w, hh, hu, hc⟩, ?_, _, _, hwin, ?_, fun r hr => ?_⟩
  · rw [hs]
    exact Effect.win hh hu hc hwin htp htr hta htj htw hte
  · rw [hs]
    exact htp
  · exact requestedRows_complete (beq_iff_eq.mp hlength) hr

theorem finalizeRows_ok {artifactId : Uuid → Uuid} {lease : Lease}
    {requested : List PublicationRow} {u : Unit}
    (h : commit (finalizeRows json artifactId lease requested) db = (.ok u, db')) :
    Current db lease ∧ Effect json allowed db db' := by
  obtain ⟨hcur, he, _⟩ := finalizeRows_rows allowed h
  exact ⟨hcur, he⟩

end Ledger

/-! ## Any call -/

section Calls

variable {json : JsonColumn} {allowed : Int → Prop} {db db' : Db}

/-- What a call commits: effects on the queue that leave the ledger alone, or one effect, which
`record_validated` may precede by inserting a blob. -/
inductive Committed (json : JsonColumn) (allowed : Int → Prop) (db db' : Db) : Prop where
  | queue (h : Relation.ReflTransGen (Effect json allowed) db db')
      (hp : db'.publications = db.publications)
  | one (mid : Db) (h : Relation.ReflTransGen (Effect json allowed) db mid)
      (hq : SameQueue db mid) (he : Effect json allowed mid db')

theorem Committed.nothing : Committed json allowed db db := .queue .refl rfl

theorem Committed.single (h : Effect json allowed db db') : Committed json allowed db db' :=
  .one db .refl ⟨rfl, rfl, rfl, rfl, rfl⟩ h

theorem Committed.effects (h : Committed json allowed db db') :
    Relation.ReflTransGen (Effect json allowed) db db' := by
  cases h with
  | queue h _ => exact h
  | one mid h _ he => exact h.tail he

/-- It is enough to look at the calls that return: a transaction that raises is rolled back. -/
theorem committed_of {α : Type} {x : Except Error α × Db}
    (herr : ∀ e db', x = (.error e, db') → db' = db)
    (hok : ∀ a db', x = (.ok a, db') → Committed json allowed db db') :
    Committed json allowed db (outcome x).2 := by
  obtain ⟨r, db'⟩ := x
  cases r with
  | error e =>
      rw [show (outcome (Except.error e, db')).2 = db' from rfl, herr e db' rfl]
      exact .nothing
  | ok a => exact hok a db' rfl

/-- `abandon` commits its transaction even where it goes on to raise. -/
theorem abandon_commits (publicationId : Uuid) (version : Nat) (reason : String) (db : Db) :
    (abandon publicationId version reason db).2
      = (commit (abandonRow publicationId version reason) db).2 := by
  unfold abandon
  split <;> rename_i h <;> rw [h]

theorem finalize_commits (artifactId : Uuid → Uuid) (lease : Lease)
    (requested : List PublicationRow) (db : Db) :
    (finalize json artifactId lease requested db).2
      = (commit (finalizeRows json artifactId lease requested) db).2 := by
  unfold finalize
  split <;> rename_i h <;> rw [h]

/-- **Whatever a call commits is a sequence of effects**, of which at most one is on the ledger. -/
theorem Call.committed (json : JsonColumn) (c : Call)
    (hm : ∀ m, c.maxAttempts = some m → allowed m) (db : Db) :
    Committed json allowed db (c.run json db).2 := by
  cases c with
  | tick now => exact .single (Effect.tick _ (Nat.le_max_left _ _))
  | claimNext held attemptId workerId secs =>
      refine committed_of (fun e db' h => commit_error h) fun r db' h => ?_
      -- an empty queue is an answer too
      rcases claimNext_ok json allowed h with ⟨_, rfl⟩ | ⟨_, _, _, he, _⟩
      · exact .nothing
      · exact .single he
  | assertCurrent lease =>
      exact committed_of (fun e db' h => commit_error h) fun r db' h => by
        rw [(assertCurrent_ok h).2]
        exact .nothing
  | cancellationRequested lease =>
      exact committed_of (fun e db' h => commit_error h) fun r db' h => by
        rw [(cancellationRequested_ok h).1]
        exact .nothing
  | loadReadyDeployment held lease =>
      exact committed_of (fun e db' h => commit_error h) fun r db' h => by
        rw [(loadReadyDeployment_ok h).2]
        exact .nothing
  | loadVerifiedInputEvidence held lease =>
      exact committed_of (fun e db' h => commit_error h) fun r db' h => by
        rw [(loadVerifiedInputEvidence_ok h).2]
        exact .nothing
  | heartbeat lease secs =>
      exact committed_of (fun e db' h => commit_error h) fun r db' h =>
        .single (heartbeat_ok h).2
  | requestCancel jobId =>
      refine committed_of (fun e db' h => commit_error h) fun r db' h => ?_
      rcases requestCancel_ok h with rfl | he
      · exact .nothing
      · exact .single he
  | cancelCurrent held lease =>
      exact committed_of (fun e db' h => commit_error h) fun r db' h =>
        .single (cancelCurrent_ok h).2
  | failRetryable held lease delay maxAttempts =>
      exact committed_of (fun e db' h => commit_error h) fun r db' h =>
        .single (failRetryable_ok (hm _ rfl) h).2
  | reapExpired held limit delay maxAttempts =>
      exact committed_of (fun e db' h => commit_error h) fun r db' h =>
        let ⟨he, hp⟩ := reapExpired_ok (hm _ rfl) h
        .queue he hp
  | reserve publicationId lease spec =>
      refine committed_of (fun e db' h => commit_error h) fun r db' h => ?_
      rcases (reserve_ok h).2 with rfl | he
      · exact .nothing
      · exact .single he
  | recordObject lease publicationId version sha256 size =>
      exact committed_of (fun e db' h => commit_error h) fun r db' h =>
        .single (recordObject_ok h).2
  | recordValidated lease publicationId version blob metadata =>
      refine committed_of (fun e db' h => commit_error h) fun r db' h => ?_
      -- the blob and the metadata come first, then the one row of the ledger
      obtain ⟨_, mid, heff, hq, he⟩ := recordValidated_ok h
      exact .one mid heff hq he
  | reject lease publicationId version reason =>
      exact committed_of (fun e db' h => commit_error h) fun r db' h =>
        .single (reject_ok h).2
  | abandon publicationId version reason =>
      show Committed json allowed db (NanoAural.abandon publicationId version reason db).2
      -- what follows the transaction only reads
      rw [abandon_commits]
      refine committed_of (x := commit _ db) (fun e db' h => commit_error h) fun r db' h => ?_
      obtain ⟨s, hb, _, rfl⟩ := commit_ok h
      exact .single (abandonRow_ok hb)
  | recordCleanup publicationId version =>
      exact committed_of (fun e db' h => commit_error h) fun r db' h =>
        .single (recordCleanup_ok h)
  | finalize artifactId lease requested =>
      show Committed json allowed db (NanoAural.finalize json artifactId lease requested db).2
      rw [finalize_commits]
      exact committed_of (x := commit _ db) (fun e db' h => commit_error h) fun r db' h =>
        .single (finalizeRows_ok h).2

theorem Call.effects (json : JsonColumn) (c : Call)
    (hm : ∀ m, c.maxAttempts = some m → allowed m) (db : Db) :
    Relation.ReflTransGen (Effect json allowed) db (c.run json db).2 :=
  (c.committed json hm db).effects

end Calls

end NanoAural
