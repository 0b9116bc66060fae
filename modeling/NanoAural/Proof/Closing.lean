import NanoAural.Proof.Winner

/-!
# A held lease can always be closed

`_finish_lease` writes four tables under some twenty triggers, constraints and
deferred checks. None of them stands in the way of a live lease in a reachable
database: `closeCurrent_commits` runs every statement and every check to its end.
What can still stop a worker from closing its lease is the fence in front.
-/

namespace NanoAural

open Relational Machine

variable {json : JsonColumn} {allowed : Int → Prop}

/-! ## Only a succeeded job has a winner -/

def Unwon (db : Db) : Prop :=
  ∀ id j, db.jobs.find? id = some j → j.state ≠ .succeeded → j.winningAttemptId = none

theorem unwon_init {db : Db} (h : Registered db) : Unwon db := by
  intro id j hj _
  exact (h.jobs j (Table.mem_of_find? hj)).2.2.1

theorem unwon_put {db db' : Db} {j j' : JobRow} (h : Unwon db)
    (htj : db.jobs.put? j' = some db'.jobs) (hj : db.jobs.find? j'.id = some j)
    (hw : j'.state ≠ .succeeded → j'.winningAttemptId = none) : Unwon db' := by
  intro id x hx hs
  rcases Table.of_put? htj hj hx with ⟨_, rfl⟩ | ⟨_, hx⟩
  · exact hw hs
  · exact h id x hx hs

theorem unwon_effect {db db' : Db} (h : Unwon db) (he : Effect json allowed db db') :
    Unwon db' := by
  cases he with
  | claim hw hready hj hjob hta htj htw hte =>
      simp only [claimable, Bool.and_eq_true, beq_iff_eq] at hjob
      have hnone := h _ _ hj (by rw [hjob.1.1.1]; simp)
      exact unwon_put h htj hj fun _ => hnone
  | requestCancel hj hs hc htj hte =>
      have hnone := h _ _ hj (by rcases hs with hs | hs <;> rw [hs] <;> simp)
      exact unwon_put h htj hj fun _ => hnone
  | @close lease a j w maxAttempts notBefore reason ta tj tw te hh hm hta htj htw hte =>
      obtain ⟨hid, _⟩ := leave_keeps (closingState j.cancelRequestedAt.isSome a.attemptNo
        maxAttempts) notBefore db.clock j
      refine unwon_put h htj (hid ▸ hh.jobId.symm ▸ hh.job) fun _ => ?_
      have hnone := h _ _ hh.job (by rw [hh.running]; simp)
      cases hc : closingState j.cancelRequestedAt.isSome a.attemptNo maxAttempts <;> exact hnone
  | win hh hu hc hitems htp htr hta htj htw hte =>
      exact unwon_put h htj (hh.jobId.symm ▸ hh.job) fun hs => absurd rfl hs
  | tick _ _ => exact h
  | renew _ _ _ _ _ => exact h
  | reserve _ _ => exact h
  | ledger _ _ _ => exact h
  | blob _ _ => exact h

/-- **What holds of every database the callers can produce.** -/
structure Coherent (db : Db) : Prop where
  linked : Linked db
  ledgered : Ledgered db
  published : Published db
  unwon : Unwon db

theorem coherent_effect {db db' : Db} (h : Coherent db) (he : Effect json allowed db db') :
    Coherent db' :=
  ⟨linked_effect h.linked he, ledgered_effect h.linked h.ledgered he,
    published_effect h.ledgered h.published he, unwon_effect h.unwon he⟩

theorem coherent_reachable {db : Db} (h : (openSystem json).Reachable db) : Coherent db := by
  have hu := (invariant_of_effects json (fun _ => True) (I := Unwon) (fun _ _ _ _ => trivial)
    (fun _ => unwon_init) (fun _ _ _ hi he => unwon_effect hi he) h).2
  obtain ⟨hl, hg, hp⟩ := published_reachable h
  exact ⟨hl, hg, hp, hu⟩

/-! ## Updates that go through -/

section Run

variable {s : Session Db Deferred} {id : Uuid}

theorem update_attempt_run {cond : AttemptRow → Bool} {set : AttemptRow → AttemptRow}
    {old : AttemptRow} {t : Table AttemptRow} (hf : s.db.attempts.find? id = some old)
    (hc : cond old = true) (hg : ∀ g ∈ attemptUpdateGuards s.db old (set old), g.1 = false)
    (ht : s.db.attempts.put? (set old) = some t) :
    update attemptsTable id cond set s = .ok (1,
      ⟨{ s.db with attempts := t }, s.deferred ++ attemptsTable.deferred (set old)⟩) :=
  update_run (T := attemptsTable) hf hc (guarded_ok.mpr ⟨hg, rfl⟩) ht

theorem update_worker_run {cond : WorkerRow → Bool} {set : WorkerRow → WorkerRow}
    {old : WorkerRow} {t : Table WorkerRow} (hf : s.db.workers.find? id = some old)
    (hc : cond old = true) (hg : ∀ g ∈ preventWorkerDeploymentMutation old (set old), g.1 = false)
    (ht : s.db.workers.put? (set old) = some t) :
    update workersTable id cond set s = .ok (1, ⟨{ s.db with workers := t }, s.deferred⟩) := by
  have h := update_run (T := workersTable) hf hc (guarded_ok.mpr ⟨hg, rfl⟩) ht
  rw [h]
  simp [workersTable]

theorem update_job_run {cond : JobRow → Bool} {set : JobRow → JobRow} {old : JobRow}
    {t : Table JobRow} (hf : s.db.jobs.find? id = some old) (hc : cond old = true)
    (hg : ∀ g ∈ jobUpdateGuards s.db old (set old), g.1 = false)
    (ht : s.db.jobs.put? (set old) = some t) :
    update jobsTable id cond set s = .ok (1,
      ⟨{ s.db with jobs := t }, s.deferred ++ jobsTable.deferred (set old)⟩) :=
  update_run (T := jobsTable) hf hc (guarded_ok.mpr ⟨hg, rfl⟩) ht

end Run

/-! ## Every statement of the closing goes through -/

section Close

variable {db : Db} {lease : Lease} {a : AttemptRow} {j : JobRow} {w : WorkerRow}

/-- The attempt can be finished. -/
theorem finish_writes (hc : Coherent db) (hh : Holds db lease a j w) {terminal : AttemptState}
    (now : Time) (reason : String) (ht : terminal ≠ .active) :
    (∃ ta, db.attempts.put? (a.finish terminal now reason) = some ta)
      ∧ ∀ g ∈ attemptUpdateGuards db a (a.finish terminal now reason), g.1 = false := by
  have hchk : a.check = true := Table.check_of_find? hh.attempt
  have hmem := Table.mem_of_find? hh.attempt
  constructor
  · refine Table.put?_of (t := db.attempts) ?_ fun x hx hne => ?_
    · show AttemptRow.check _ = true
      simp only [AttemptRow.check, Bool.and_eq_true] at hchk
      simp only [AttemptRow.check, Bool.and_eq_true]
      exact ⟨hchk.1, by simp [AttemptRow.finish, ht]⟩
    · have hold : Schema.clash x a = false := by
        cases hcl : Schema.clash x a with
        | false => rfl
        | true => exact absurd (congrArg AttemptRow.id (Table.eq_of_clash hx hmem hcl)) hne
      simp only [Schema.clash, Bool.or_eq_false_iff] at hold ⊢
      refine ⟨hold.1, ?_⟩
      simp [AttemptRow.finish, ht]
  · have hwin : (db.jobs.rows.any fun x => x.winningAttemptId == some a.id
        && x.state == .succeeded) = false := by
      rw [List.any_eq_false]
      intro x hx hcon
      simp only [Bool.and_eq_true, beq_iff_eq] at hcon
      obtain ⟨aid, b, hw, hb, _, hs, _⟩ :=
        hc.published.kinds x.id x (Table.find?_of_mem hx) hcon.2
      rw [hcon.1] at hw
      injection hw with hw
      rw [← hw, hh.attemptId, hh.attempt] at hb
      injection hb with hb
      rw [← hb, hh.active] at hs
      exact absurd hs (by simp)
    simp [attemptUpdateGuards, preventAttemptIdentityMutation, ensureAttemptLeaseShape,
      ensureAttemptTerminalImmutability, preventWinningAttemptMutation, AttemptRow.finish, ht,
      hh.active, hwin]

/-- The worker can be released. -/
theorem release_writes (db : Db) (w : WorkerRow) :
    (∃ tw, db.workers.put? w.release = some tw)
      ∧ ∀ g ∈ preventWorkerDeploymentMutation w w.release, g.1 = false :=
  ⟨Table.put?_of rfl fun _ _ _ => rfl, by simp [preventWorkerDeploymentMutation, WorkerRow.release]⟩

/-- A job that is left has no attempt, and is neither running nor succeeded. -/
theorem leave_ends (terminal : AttemptState) (notBefore now : Time) (j : JobRow) :
    (j.leave terminal notBefore now).currentAttemptId = none
      ∧ (j.leave terminal notBefore now).winningAttemptId = j.winningAttemptId
      ∧ (j.leave terminal notBefore now).state ≠ .running
      ∧ (j.leave terminal notBefore now).state ≠ .succeeded := by
  cases terminal <;> simp [JobRow.leave]

/-- The job can be left, whatever else the transaction has written. -/
theorem leave_writes (hc : Coherent db) (hh : Holds db lease a j w) (terminal : AttemptState)
    (notBefore now : Time) :
    (∃ tj, db.jobs.put? (j.leave terminal notBefore now) = some tj)
      ∧ ∀ db', ∀ g ∈ jobUpdateGuards db' j (j.leave terminal notBefore now), g.1 = false := by
  have hchk : Schema.check j = true := Table.check_of_find? hh.job
  have hmem := Table.mem_of_find? hh.job
  have hnone : j.winningAttemptId = none := hc.unwon _ _ hh.job (by rw [hh.running]; simp)
  obtain ⟨hid, hep, _⟩ := leave_keeps terminal notBefore now j
  constructor
  · refine Table.put?_of (t := db.jobs) ?_ fun x hx hne => ?_
    · cases terminal <;> exact hchk
    · have hold : Schema.clash x j = false := by
        cases hcl : Schema.clash x j with
        | false => rfl
        | true =>
            have := congrArg JobRow.id (Table.eq_of_clash hx hmem hcl)
            exact absurd (this.trans hid.symm) hne
      cases terminal <;> exact hold
  · intro db'
    cases terminal <;> simp [jobUpdateGuards, preventJobLeaseEpochDecrease,
      preventJobSemanticMutation, ensureJobLifecycleShape, ensureJobSuccessArtifacts,
      JobRow.leave, hnone, hh.running, JobState.terminal]

theorem foldl_max_ge (ids : List Nat) (n : Nat) : n ≤ ids.foldl max n ∧ ∀ i ∈ ids,
    i ≤ ids.foldl max n := by
  induction ids generalizing n with
  | nil => exact ⟨Nat.le_refl n, fun i hi => absurd hi (by simp)⟩
  | cons k ks ih =>
      obtain ⟨h₁, h₂⟩ := ih (max n k)
      refine ⟨Nat.le_trans (Nat.le_max_left n k) h₁, fun i hi => ?_⟩
      rcases List.mem_cons.mp hi with rfl | hi
      · exact Nat.le_trans (Nat.le_max_right n i) h₁
      · exact h₂ i hi

/-- The sequence never draws a number in use. -/
theorem nextEventId_fresh (db : Db) : db.events.find? (nextEventId db) = none := by
  cases hf : db.events.find? (nextEventId db) with
  | none => rfl
  | some e =>
      have hle := (foldl_max_ge (db.events.rows.map EventRow.id) 0).2 e.id
        (List.mem_map.mpr ⟨e, Table.mem_of_find? hf, rfl⟩)
      have hid : e.id = nextEventId db := Table.key_of_find? hf
      unfold nextEventId at hid
      omega

/-- An event other than a success can always be logged. -/
theorem event_writes {s : Session Db Deferred} (jobId : Uuid) (attemptId : Option Uuid)
    (eventType : EventType) (hj : (s.db.jobs.find? jobId).isSome = true)
    (ht : eventType ≠ .jobSucceeded) :
    ∃ te, event jobId attemptId eventType s
      = .ok ((), ⟨{ s.db with events := te }, s.deferred ++ optionalReference jobId attemptId⟩) := by
  obtain ⟨te, hte⟩ := Table.insert?_of (t := s.db.events)
    (r := ⟨nextEventId s.db, jobId, attemptId, eventType⟩) (nextEventId_fresh s.db) rfl
    (fun x _ => by simp [Schema.clash, ht])
  refine ⟨te, ?_⟩
  unfold event
  rw [select_bind]
  refine insert_run (T := eventsTable) (guarded_ok.mpr ⟨?_, rfl⟩) hte
  cases hf : s.db.jobs.find? jobId with
  | none => rw [hf] at hj; exact absurd hj (by simp)
  | some j => simp [eventInsertGuards, hf]

/-- **The four statements of the closing**, run to their end. -/
theorem closeLease_run (hc : Coherent db) (hh : Holds db lease a j w) {terminal : AttemptState}
    (reason : String) (delay : Int) (ht : terminal ≠ .active) :
    ∃ ta tj tw te, db.attempts.put? (a.finish terminal db.clock reason) = some ta
      ∧ db.jobs.put? (j.leave terminal (db.clock + delay.toNat * second) db.clock) = some tj
      ∧ db.workers.put? w.release = some tw
      ∧ closeLease lease terminal false reason delay ⟨db, []⟩
        = .ok ((), ⟨{ db with attempts := ta, workers := tw, jobs := tj, events := te },
            attemptsTable.deferred (a.finish terminal db.clock reason)
              ++ jobsTable.deferred (j.leave terminal (db.clock + delay.toNat * second) db.clock)
              ++ optionalReference lease.jobId (some lease.attemptId)⟩) := by
  obtain ⟨⟨ta, hta⟩, hga⟩ := finish_writes hc hh db.clock reason ht
  obtain ⟨⟨tw, htw⟩, hgw⟩ := release_writes db w
  obtain ⟨⟨tj, htj⟩, hgj⟩ := leave_writes hc hh terminal
    (db.clock + delay.toNat * second) db.clock
  obtain ⟨hid, _⟩ := leave_keeps terminal (db.clock + delay.toNat * second) db.clock j
  have hleft : tj.find? lease.jobId
      = some (j.leave terminal (db.clock + delay.toNat * second) db.clock) := by
    rw [← hh.jobId, ← hid]
    exact Table.put?_self htj (hid ▸ hh.jobId.symm ▸ hh.job)
  obtain ⟨te, hev⟩ := event_writes (s := ⟨{ db with attempts := ta, workers := tw, jobs := tj },
      attemptsTable.deferred (a.finish terminal db.clock reason)
        ++ jobsTable.deferred (j.leave terminal (db.clock + delay.toNat * second) db.clock)⟩)
    lease.jobId (some lease.attemptId) (closingEvent terminal)
    (by rw [hleft]; rfl) (by cases terminal <;> simp [closingEvent])
  refine ⟨ta, tj, tw, te, hta, htj, htw, ?_⟩
  unfold closeLease
  rw [select_bind, Tx.bind_eval (update_attempt_run hh.attempt (by simp) hga hta)]
  rw [Tx.bind_eval (update_worker_run hh.worker rfl hgw htw)]
  rw [Tx.bind_eval (update_job_run hh.job (by simp [hh.current, hh.attemptId]) (hgj _) htj)]
  exact hev

/-! ## The checks at the commit -/

/-- What closing a lease leaves behind. -/
structure Closed (db : Db) (lease : Lease) (a : AttemptRow) (j : JobRow) (w : WorkerRow)
    (terminal : AttemptState) (db' : Db) : Prop where
  attempt : ∃ reason, db'.attempts.find? lease.attemptId
    = some (a.finish terminal db.clock reason)
  job : ∃ notBefore, db'.jobs.find? lease.jobId = some (j.leave terminal notBefore db.clock)
  worker : db'.workers.find? lease.workerId = some w.release

theorem closing_verified (hc : Coherent db) (hh : Holds db lease a j w) {terminal : AttemptState}
    {notBefore now : Time} {reason : String} {ta : Table AttemptRow} {tj : Table JobRow}
    {tw : Table WorkerRow} {te : Table EventRow} (ht : terminal ≠ .active)
    (hta : db.attempts.put? (a.finish terminal now reason) = some ta)
    (htj : db.jobs.put? (j.leave terminal notBefore now) = some tj) :
    ∀ d ∈ attemptsTable.deferred (a.finish terminal now reason)
        ++ jobsTable.deferred (j.leave terminal notBefore now)
        ++ optionalReference lease.jobId (some lease.attemptId),
      d.verify { db with attempts := ta, workers := tw, jobs := tj, events := te } = .ok () := by
  have hnone : j.winningAttemptId = none := hc.unwon _ _ hh.job (by rw [hh.running]; simp)
  have hold : db.attempts.find? a.id = some a := hh.attemptId.symm ▸ hh.attempt
  obtain ⟨hid, _⟩ := leave_keeps terminal notBefore now j
  obtain ⟨hcur, hwin, hrun, hsuc⟩ := leave_ends terminal notBefore now j
  rw [hnone] at hwin
  have hfa : ta.find? lease.attemptId = some (a.finish terminal now reason) := by
    rw [← hh.attemptId]
    exact Table.put?_self hta hold
  have hfj : tj.find? lease.jobId = some (j.leave terminal notBefore now) := by
    have := Table.put?_self htj (hid ▸ hh.jobId.symm ▸ hh.job)
    rw [← hh.jobId, ← hid]
    exact this
  -- the lease's attempt was the only active one of its job
  have hidle : ∀ x ∈ ta.rows, x.jobId = (j.leave terminal notBefore now).id →
      ¬ x.state = .active := by
    intro x hx hxj hxs
    rcases Table.of_put? hta hold (Table.find?_of_mem hx) with ⟨_, rfl⟩ | ⟨hne, hx⟩
    · exact ht hxs
    · obtain ⟨j', _, hj', hcj, _⟩ := hc.linked.active _ x hx hxs
      rw [hxj, hid, hh.jobId, hh.job] at hj'
      obtain rfl := Option.some.inj hj'
      rw [hh.current] at hcj
      exact hne (Option.some.inj hcj).symm
  intro d hd
  have hcases : d = .jobAttemptLinkage lease.jobId ∨ d = .currentAttemptLeaseEpoch lease.jobId
      ∨ d = .succeededPublicationProof (j.leave terminal notBefore now)
      ∨ d = .attemptReference lease.jobId lease.attemptId := by
    have hfin : (a.finish terminal now reason).jobId = lease.jobId := hh.ofJob
    simp only [attemptsTable, jobsTable, hcur, hwin, hid, hh.jobId, hfin, optionalReference,
      List.append_nil, List.mem_append, List.mem_cons, List.not_mem_nil, or_false] at hd
    tauto
  rcases hcases with rfl | rfl | rfl | rfl
  · unfold Deferred.verify ensureJobAttemptLinkage
    simp only [hfj]
    rw [raiseFirst_ok]
    simpa [hcur, hwin, hrun] using hidle
  · unfold Deferred.verify ensureCurrentAttemptLeaseEpoch
    simp only [hfj]
    rw [raiseFirst_ok]
    simp [hrun]
  · unfold Deferred.verify ensureSucceededPublicationProof
    rw [raiseFirst_ok]
    simp [hsuc]
  · unfold Deferred.verify
    rw [raiseFirst_ok]
    simp [hfa, AttemptRow.finish, hh.ofJob]

/-- **Under its row locks a held lease is closed**, whatever the retry budget. -/
theorem closeCurrent_commits (hc : Coherent db) (hh : Holds db lease a j w) (cancelled : Bool)
    (delay maxAttempts : Int) (hreq : cancelled = true → j.cancelRequestedAt.isSome = true) :
    ∃ db', commit (closeCurrent lease cancelled delay maxAttempts a) db = (.ok (), db')
      ∧ Closed db lease a j w
          (closingState j.cancelRequestedAt.isSome a.attemptNo maxAttempts) db' := by
  have hsome : (cancelled || j.cancelRequestedAt.isSome) = j.cancelRequestedAt.isSome := by
    cases cancelled with
    | false => rfl
    | true => rw [hreq rfl]; rfl
  -- a lease is closed as cancelled only where cancellation was asked for
  have hguard : (!(cancelled && j.cancelRequestedAt.isNone)) = true := by
    cases cancelled with
    | false => rfl
    | true =>
        have := hreq rfl
        cases hj : j.cancelRequestedAt <;> simp_all
  have ht := closingState_ne_active j.cancelRequestedAt.isSome a.attemptNo maxAttempts
  generalize hterm : closingState j.cancelRequestedAt.isSome a.attemptNo maxAttempts = terminal
    at ht
  obtain ⟨ta, tj, tw, te, hta, htj, htw, hrun⟩ := closeLease_run hc hh
    (if terminal == .cancelled then "cancelled" else "worker_failure") delay ht
  have hbody : closeCurrent lease cancelled delay maxAttempts a ⟨db, []⟩
      = closeLease lease terminal false
          (if terminal == .cancelled then "cancelled" else "worker_failure") delay ⟨db, []⟩ := by
    unfold closeCurrent
    rw [select_bind, hh.job]
    dsimp only [Option.bind_some]
    rw [Tx.ensure_eval hguard, hsome, hterm]
  generalize (if terminal == .cancelled then "cancelled" else "worker_failure") = reason
    at hta hrun hbody
  generalize db.clock + delay.toNat * second = notBefore at htj hrun
  obtain ⟨hid, _⟩ := leave_keeps terminal notBefore db.clock j
  have hatt : ta.find? lease.attemptId = some (a.finish terminal db.clock reason) := by
    rw [← hh.attemptId]
    exact Table.put?_self hta (hh.attemptId.symm ▸ hh.attempt)
  have hjob : tj.find? lease.jobId = some (j.leave terminal notBefore db.clock) := by
    rw [← hh.jobId, ← hid]
    exact Table.put?_self htj (hid ▸ hh.jobId.symm ▸ hh.job)
  have hworker : tw.find? lease.workerId = some w.release := by
    rw [← hh.workerId]
    exact Table.put?_self htw (hh.workerId.symm ▸ hh.worker)
  exact ⟨_, transaction_commit (hbody.trans hrun) (closing_verified hc hh ht hta htj),
    ⟨_, hatt⟩, ⟨_, hjob⟩, hworker⟩

end Close

end NanoAural
