import NanoAural.Base.Replay
import NanoAural.Proof.CancelOnce

/-!
# The event log is the history of its jobs

What a client may conclude from `job_events` alone. `jobReader` says which event may follow which
and what it means: it is an abstract machine for one job, without tables, leases or clocks. Every
method of the two repositories writes its row and its event in one transaction, so the log of a job
replays to exactly what the row says, in every state any interleaving of them reaches.
-/

namespace NanoAural

open Relational Machine Replay

variable {digest : CanonicalRequest → String} {json : JsonColumn} {allowed : Int → Prop}
  {db db' : Db}

/-! ## The abstract machine -/

/-- What is known of a job from its events. -/
structure JobHistory where
  state : JobState
  epoch : Nat
  current : Option Uuid
  winner : Option Uuid
  cancelRequested : Bool
  deriving DecidableEq, Repr

namespace JobHistory

/-- The attempt at hand ends, and the job with it or back to the queue. -/
def leave (h : JobHistory) (e : EventRow) (cancelled : Bool) (state : JobState) :
    Option JobHistory :=
  if h.state = .running ∧ e.attemptId = h.current ∧ h.cancelRequested = cancelled then
    some { h with state, current := none }
  else none

/-- The next event of a job. -/
def next (h : JobHistory) (e : EventRow) : Option JobHistory :=
  match e.eventType with
  | .jobCreated => none
  | .attemptStarted =>
      if h.state = .queued ∧ e.attemptId.isSome then
        some { h with state := .running, epoch := h.epoch + 1, current := e.attemptId }
      else none
  | .cancelRequested =>
      -- a waiting job is cancelled at once, a running one by its worker or the reaper
      if (h.state = .queued ∨ h.state = .running) ∧ e.attemptId = h.current then
        some { h with
          state := if h.state = .queued then .cancelled else h.state
          cancelRequested := true }
      else none
  | .attemptCancelled => h.leave e true .cancelled
  | .attemptFailed => h.leave e false .failed
  | .attemptRequeued => h.leave e false .queued
  | .jobSucceeded => (h.leave e false .succeeded).map fun h => { h with winner := e.attemptId }

/-- **No event follows a terminal one.** -/
theorem next_terminal {h : JobHistory} (hs : h.state.terminal = true) (e : EventRow) :
    h.next e = none := by
  have hq : h.state ≠ .queued := by
    intro heq
    rw [heq] at hs
    cases hs
  have hr : h.state ≠ .running := by
    intro heq
    rw [heq] at hs
    cases hs
  unfold next leave
  cases e.eventType <;> simp [hq, hr]

end JobHistory

/-- The events of one job. -/
def jobReader : Reader EventRow JobHistory where
  first e :=
    if e.eventType = .jobCreated ∧ e.attemptId = none then some ⟨.queued, 0, none, none, false⟩
    else none
  next := JobHistory.next

/-- What the row of a job says. -/
def JobRow.history (j : JobRow) : JobHistory :=
  ⟨j.state, j.leaseEpoch, j.currentAttemptId, j.winningAttemptId, j.cancelRequestedAt.isSome⟩

/-- What the rows say. -/
def histories (db : Db) (jobId : Uuid) : Option JobHistory :=
  (db.jobs.find? jobId).map JobRow.history

/-- `SELECT ... FROM job_events WHERE job_id=... ORDER BY id`. -/
def eventLog (db : Db) (jobId : Uuid) : List EventRow :=
  orderBy EventRow.id (db.events.rows.filter fun e => e.jobId == jobId)

/-! ## One row and its event -/

theorem histories_put {j j' : JobRow} (htj : db.jobs.put? j' = some db'.jobs)
    (hj : db.jobs.find? j.id = some j) (hid : j'.id = j.id) :
    histories db' = Function.update (histories db) j.id (some j'.history) := by
  funext k
  unfold histories
  rw [Table.find?_put? htj (hid ▸ hj)]
  have hkey : Schema.key j' = j.id := hid
  rw [hkey]
  by_cases hk : k = j.id
  · subst hk
    rw [if_pos rfl, Function.update_self]
    rfl
  · rw [if_neg hk, Function.update_of_ne hk]

theorem histories_insert {j : JobRow} (htj : db.jobs.insert? j = some db'.jobs) :
    histories db' = Function.update (histories db) j.id (some j.history) := by
  funext k
  unfold histories
  rw [Table.find?_insert? htj]
  have hkey : Schema.key j = j.id := rfl
  rw [hkey]
  by_cases hk : k = j.id
  · subst hk
    rw [if_pos rfl, Function.update_self]
    rfl
  · rw [if_neg hk, Function.update_of_ne hk]

/-- **The log tells the rows.** -/
def Told (db : Db) : Prop := Tells jobReader EventRow.jobId db.events.rows (histories db)

theorem Told.congr (h : Told db) (hj : db'.jobs = db.jobs) (he : db'.events = db.events) :
    Told db' := by
  unfold Told
  rw [he]
  refine Tells.congr h fun k => ?_
  unfold histories
  rw [hj]

/-- A row and the event that reports it. -/
theorem Told.move {j j' : JobRow} {n : Nat} {attemptId : Option Uuid} {ty : EventType}
    (h : Told db) (hj : db.jobs.find? j.id = some j) (htj : db.jobs.put? j' = some db'.jobs)
    (hid : j'.id = j.id)
    (hte : db.events.insert? ⟨n, j.id, attemptId, ty⟩ = some db'.events)
    (hnext : j.history.next ⟨n, j.id, attemptId, ty⟩ = some j'.history) : Told db' := by
  unfold Told
  rw [Table.insert?_rows hte]
  refine Tells.move h ?_ hnext (histories_put htj hj hid)
  show (db.jobs.find? j.id).map JobRow.history = some j.history
  rw [hj]
  rfl

/-- An attempt starts. -/
theorem next_start {j : JobRow} (n : Nat) (attemptId : Uuid) (now : Time)
    (hs : j.state = .queued) :
    j.history.next ⟨n, j.id, some attemptId, .attemptStarted⟩
      = some (j.start attemptId (j.leaseEpoch + 1) now).history := by
  have hq : j.history.state = .queued := hs
  simp only [JobHistory.next, hq, Option.isSome_some, and_self, if_true]
  rfl

/-- A cancellation is requested, through either path. -/
theorem next_mark {j j' : JobRow} (n : Nat) {now : Time} (hm : Marks now j j')
    (hopen : j.state = .queued ∨ j.state = .running) :
    j.history.next ⟨n, j.id, j.currentAttemptId, .cancelRequested⟩ = some j'.history := by
  have hopen : j.history.state = .queued ∨ j.history.state = .running := hopen
  have hcurrent : j.currentAttemptId = j.history.current := rfl
  have hj' : j'.history = ⟨if j.state = .queued then .cancelled else j.state, j.leaseEpoch,
      j.currentAttemptId, j.winningAttemptId, true⟩ := by
    unfold JobRow.history
    rw [hm.state, hm.epoch, hm.current, hm.winning, hm.time]
    rfl
  simp only [JobHistory.next, hopen, hcurrent, true_and, if_true]
  rw [hj']
  rfl

/-- A running job's attempt ends. -/
theorem leave_running {h : JobHistory} {e : EventRow} {cancelled : Bool} {state : JobState}
    (hs : h.state = .running) (he : e.attemptId = h.current)
    (hc : h.cancelRequested = cancelled) :
    h.leave e cancelled state = some { h with state, current := none } := if_pos ⟨hs, he, hc⟩

/-- An attempt ends without success, and its job goes where the closing state says. -/
theorem next_close {j : JobRow} (n : Nat) {attemptId : Uuid} (attemptNo : Nat) (maxAttempts : Int)
    (notBefore now : Time) (hs : j.state = .running) (hc : j.currentAttemptId = some attemptId) :
    j.history.next ⟨n, j.id, some attemptId,
        closingEvent (closingState j.cancelRequestedAt.isSome attemptNo maxAttempts)⟩
      = some (j.leave (closingState j.cancelRequestedAt.isSome attemptNo maxAttempts) notBefore
          now).history := by
  cases hcancel : j.cancelRequestedAt.isSome with
  | true => exact leave_running hs hc.symm hcancel
  | false =>
      unfold closingState
      rw [if_neg Bool.false_ne_true]
      -- the budget decides between another attempt and the end
      by_cases hlast : maxAttempts ≤ attemptNo
      · rw [if_pos hlast]
        exact leave_running hs hc.symm hcancel
      · rw [if_neg hlast]
        exact leave_running hs hc.symm hcancel

/-- The job succeeds. -/
theorem next_succeed {j : JobRow} (n : Nat) {attemptId : Uuid} (now : Time)
    (hs : j.state = .running) (hc : j.currentAttemptId = some attemptId)
    (hcancel : j.cancelRequestedAt = none) :
    j.history.next ⟨n, j.id, some attemptId, .jobSucceeded⟩
      = some (j.succeed attemptId now).history := by
  have hflag : j.history.cancelRequested = false := by
    show j.cancelRequestedAt.isSome = false
    rw [hcancel]
    rfl
  show (j.history.leave _ false .succeeded).map _ = _
  rw [leave_running hs hc.symm hflag]
  rfl

/-! ## Every change -/

/-- **The nine effects are told.** -/
theorem told_effect (h : Told db) (he : Effect json allowed db db') : Told db' := by
  cases he with
  | tick | renew | reserve | ledger | blob => exact h.congr rfl rfl
  | @claim w j attemptId expiry ta tj tw te hw hready hj hjob hta htj htw hte =>
      have hqueued : j.state = .queued := by
        unfold claimable at hjob
        simp only [Bool.and_eq_true, beq_iff_eq] at hjob
        exact hjob.1.1.1
      exact h.move hj htj rfl hte (next_start _ attemptId _ hqueued)
  | @requestCancel j tj te hj hs hc htj hte =>
      exact h.move hj htj rfl hte (next_mark _ (marks_requestCancel db.clock j) hs)
  | @close lease a j w maxAttempts notBefore reason ta tj tw te hh hm hta htj htw hte =>
      have hj : db.jobs.find? j.id = some j := hh.jobId.symm ▸ hh.job
      have ha : a.id = lease.attemptId := Table.key_of_find? hh.attempt
      rw [← hh.jobId] at hte
      refine h.move hj htj ?_ hte (next_close _ a.attemptNo maxAttempts notBefore db.clock
        hh.running (ha ▸ hh.current))
      exact (leave_keeps _ notBefore db.clock j).1
  | @win lease a j w items artifactId tp tr ta tj tw te hh hu hc hitems htp htr hta htj htw hte =>
      have hj : db.jobs.find? j.id = some j := hh.jobId.symm ▸ hh.job
      have ha : a.id = lease.attemptId := Table.key_of_find? hh.attempt
      rw [← hh.jobId] at hte
      exact h.move hj htj rfl hte (next_succeed _ db.clock hh.running (ha ▸ hh.current) hc)

/-- **Every call is told.** -/
theorem told_change {c : RepositoryCall} (h : Told db) (hc : Change digest json db c db') :
    Told db' := by
  cases hc with
  | aside ha => exact h.congr ha.jobs ha.events
  | effects he =>
      induction he with
      | refl => exact h
      | tail _ hs ih => exact told_effect ih hs
  | @created jobId sub hash n db' hadm htj hi ha hte =>
      unfold Told
      rw [Table.insert?_rows hte]
      have hfirst : jobReader.first ⟨n, jobId, none, .jobCreated⟩
          = some (submittedRow json jobId sub hash db.clock).history := rfl
      refine Tells.start h ?_ hfirst (histories_insert htj)
      show (db.jobs.find? jobId).map JobRow.history = none
      rw [Option.map_eq_none_iff]
      exact Table.insert?_fresh htj
  | @cancelled j db' hj hopen hr =>
      obtain ⟨j', tj, te, hm, htj, hte, rfl⟩ := hr
      exact h.move hj htj hm.id hte (next_mark _ hm hopen)

theorem told_empty : Told Db.empty where
  known := by
    intro k s hk
    cases hk
  unknown := by
    intro k hk
    rfl

/-! ## The order of the log -/

/-- Every event was given a larger identifier than those before it. -/
def Ascends (db : Db) : Prop := (db.events.rows.map EventRow.id).Pairwise (· < ·)

theorem lt_nextEventId {e : EventRow} (he : e ∈ db.events.rows) : e.id < nextEventId db := by
  have hle := (foldl_max_ge (db.events.rows.map EventRow.id) 0).2 e.id (List.mem_map_of_mem he)
  unfold nextEventId
  omega

/-- What a call leaves of the log: all of it, and perhaps one event more. -/
inductive Logs (db db' : Db) : Prop where
  | same (h : db'.events = db.events)
  | one (e : EventRow) (hid : e.id = nextEventId db) (h : db'.events.rows = db.events.rows ++ [e])

theorem Logs.of_insert {e : EventRow} (hid : e.id = nextEventId db)
    (hte : db.events.insert? e = some db'.events) : Logs db db' :=
  .one e hid (Table.insert?_rows hte)

theorem Logs.ascends (hl : Logs db db') (h : Ascends db) : Ascends db' := by
  unfold Ascends at h ⊢
  cases hl with
  | same heq =>
      rw [heq]
      exact h
  | one e hid heq =>
      rw [heq, List.map_append, List.pairwise_append]
      refine ⟨h, List.pairwise_singleton .., fun i hi k hk => ?_⟩
      obtain ⟨e', he', rfl⟩ := List.mem_map.mp hi
      rw [List.mem_singleton.mp hk, hid]
      exact lt_nextEventId he'

theorem Logs.grows (hl : Logs db db') : db.events.rows <+: db'.events.rows := by
  cases hl with
  | same heq => rw [heq]
  | one e hid heq => exact ⟨[e], heq.symm⟩

theorem logs_effect (he : Effect json allowed db db') : Logs db db' := by
  cases he with
  | tick | renew | reserve | ledger | blob => exact .same rfl
  | claim _ _ _ _ _ _ _ hte => exact .of_insert rfl hte
  | requestCancel _ _ _ _ hte => exact .of_insert rfl hte
  | close _ _ _ _ _ hte => exact .of_insert rfl hte
  | win _ _ _ _ _ _ _ _ _ hte => exact .of_insert rfl hte

/-- A submission draws its event's identifier where the others do. -/
theorem logs_createJob (jobId : Uuid) (sub : Submission) (db : Db) :
    Logs db (createJob digest json jobId sub db).2 := by
  have hcommit : ∀ hash, Logs db (commit (createJobRows json jobId sub hash) db).2 := by
    intro hash
    rcases transaction_cases Deferred.verify (createJobRows json jobId sub hash) db with
      ⟨found, s, hb, _, hdone⟩ | ⟨e, hdone⟩
    · rw [commit, hdone]
      unfold createJobRows at hb
      simp only [select_bind, Tx.orFail_bind, Tx.ensure_bind] at hb
      obtain ⟨_, _, _, hb⟩ := hb
      obtain ⟨added, s₁, h₁, hb⟩ := Tx.bind_ok.mp hb
      obtain ⟨new, hnew, _, hcase⟩ := insertUnless_ok h₁
      obtain ⟨_, rfl⟩ := guarded_ok.mp hnew
      rcases hcase with ⟨rfl, rfl, _⟩ | ⟨t, rfl, _, htj, rfl⟩
      · obtain ⟨existing, s₂, h₂, hb⟩ := Tx.bind_ok.mp hb
        obtain ⟨rfl, _⟩ := jobByKey_ok h₂
        rw [Tx.ensure_bind] at hb
        obtain ⟨_, rfl⟩ := Tx.pure_ok.mp hb.2
        exact .same rfl
      · obtain ⟨_, s₂, h₂, hb⟩ := Tx.bind_ok.mp hb
        obtain ⟨_, s₃, h₃, hb⟩ := Tx.bind_ok.mp hb
        obtain ⟨_, rfl⟩ := Tx.pure_ok.mp hb
        obtain ⟨_, _, he, _⟩ := insertInputs_adds h₂
        obtain ⟨te, hte, rfl⟩ := event_ok h₃
        rw [he] at hte
        refine .of_insert ?_ hte
        show nextEventId s₂.db = nextEventId db
        unfold nextEventId
        rw [he]
        rfl
    · rw [commit, hdone]
      exact .same rfl
  unfold createJob
  cases sub.admissible digest with
  | error e => exact .same rfl
  | ok hash =>
      have h := hcommit hash
      dsimp only
      split <;> rename_i hc <;> rw [hc] at h <;> exact h

/-- **Every call adds to the log, in order.** -/
theorem logs_change {c : RepositoryCall} (h : Ascends db)
    (hc : Change digest json db c (c.run digest json db)) :
    Ascends (c.run digest json db)
      ∧ db.events.rows <+: (c.run digest json db).events.rows := by
  have of_logs : ∀ {db'}, Logs db db' → Ascends db' ∧ db.events.rows <+: db'.events.rows :=
    fun hl => ⟨hl.ascends h, hl.grows⟩
  generalize hdb : c.run digest json db = db' at hc ⊢
  cases hc with
  | aside ha => exact of_logs (.same ha.events)
  | effects he =>
      clear hdb of_logs
      induction he with
      | refl => exact ⟨h, List.prefix_refl _⟩
      | tail _ hs ih =>
          have hl := logs_effect hs
          exact ⟨hl.ascends ih.1, ih.2.trans hl.grows⟩
  | @created jobId sub hash n db' hadm htj hi ha hte =>
      rw [← hdb]
      exact of_logs (logs_createJob jobId sub db)
  | cancelled hj hopen hr =>
      obtain ⟨j', tj, te, hm, htj, hte, rfl⟩ := hr
      exact of_logs (.of_insert rfl hte)

/-! ## Every reachable database -/

theorem eventLog_eq (h : Ascends db) (jobId : Uuid) :
    eventLog db jobId = logOf EventRow.jobId db.events.rows jobId := by
  have hfilter : db.events.rows.filter (fun e => e.jobId == jobId)
      = logOf EventRow.jobId db.events.rows jobId := by
    unfold logOf
    refine List.filter_congr fun e _ => ?_
    exact beq_eq_decide ..
  unfold eventLog
  rw [hfilter]
  refine orderBy_eq (List.Perm.refl _) ?_
  exact h.sublist (List.filter_sublist.map _)

theorem told_reachable (hjson : ∀ v, v.isMapping = true → (json.roundTrip v).isMapping = true)
    (h : (repositorySystem digest json).Reachable db) : Told db ∧ Ascends db := by
  refine h.invariant (I := fun db => Told db ∧ Ascends db) ?_ ?_
  · intro s hs
    have hs : s = Db.empty := hs
    subst hs
    exact ⟨told_empty, List.Pairwise.nil⟩
  · intro s s' hr hi hs
    obtain ⟨c, rfl⟩ := hs
    have hc : Change digest json s c (c.run digest json s) :=
      c.change (answerable_reachable hjson hr)
    exact ⟨told_change hi.1 hc, (logs_change hi.2 hc).1⟩

theorem log_grows (hjson : ∀ v, v.isMapping = true → (json.roundTrip v).isMapping = true)
    (h : (repositorySystem digest json).Reachable db)
    (hr : (repositorySystem digest json).Runs db db') : db.events.rows <+: db'.events.rows := by
  induction hr with
  | refl => exact List.prefix_refl _
  | @tail s s' hrun hs ih =>
      obtain ⟨c, rfl⟩ := hs
      have hreach := h.runs hrun
      have hc : Change digest json s c (c.run digest json s) :=
        c.change (answerable_reachable hjson hreach)
      exact ih.trans (logs_change (told_reachable hjson hreach).2 hc).2

/--
**The event log is the history of its jobs.**

In every database the repositories can produce, under any interleaving of their calls: the events
of a job, in the order they are listed, replay to exactly the state, epoch, current attempt, winner
and cancel request in its row, and every event is of a job there is. Along every run the events of
a job are only added to, and none is added once its state is terminal.
-/
theorem job_history (digest : CanonicalRequest → String) (json : JsonColumn)
    (hjson : ∀ v, v.isMapping = true → (json.roundTrip v).isMapping = true)
    (h : (repositorySystem digest json).Reachable db) :
    (∀ j ∈ db.jobs.rows, jobReader.replay (eventLog db j.id) = some j.history)
      ∧ (∀ e ∈ db.events.rows, ∃ j ∈ db.jobs.rows, j.id = e.jobId)
      ∧ ∀ db', (repositorySystem digest json).Runs db db' → ∀ j ∈ db.jobs.rows,
        eventLog db j.id <+: eventLog db' j.id
          ∧ (j.state.terminal = true → eventLog db' j.id = eventLog db j.id) := by
  obtain ⟨htold, hasc⟩ := told_reachable hjson h
  have hview : ∀ j ∈ db.jobs.rows, histories db j.id = some j.history := by
    intro j hj
    have hfind : db.jobs.find? j.id = some j := Table.find?_of_mem hj
    unfold histories
    rw [hfind]
    rfl
  refine ⟨fun j hj => ?_, fun e he => ?_, fun db' hr j hj => ?_⟩
  · rw [eventLog_eq hasc]
    exact htold.known j.id _ (hview j hj)
  · cases hfind : db.jobs.find? e.jobId with
    | some j => exact ⟨j, Table.mem_of_find? hfind, Table.key_of_find? hfind⟩
    | none =>
        -- a job that does not exist has no events
        have hnone : histories db e.jobId = none := by
          unfold histories
          rw [hfind]
          rfl
        have hmem : e ∈ logOf EventRow.jobId db.events.rows e.jobId :=
          List.mem_filter.mpr ⟨he, decide_eq_true rfl⟩
        rw [htold.unknown _ hnone] at hmem
        cases hmem
  · obtain ⟨htold', hasc'⟩ := told_reachable hjson (h.runs hr)
    obtain ⟨hbefore, hend⟩ := htold.grows htold' (log_grows hjson h hr) (hview j hj)
    rw [eventLog_eq hasc, eventLog_eq hasc']
    exact ⟨hbefore, fun hterminal => hend (JobHistory.next_terminal hterminal)⟩

/-- The running job's three calls, its cancel request through the API, and its reaped lease. -/
def cancelledJob : Db :=
  [.requestCancel 6, .queue (.tick (61 * second)), .queue (.reapExpired .free 10 1 3)].foldl
    (fun db (c : RepositoryCall) => c.run emptySubmissionHash .plain db) runningJob

theorem cancelledJob_reachable :
    (repositorySystem emptySubmissionHash .plain).Reachable cancelledJob :=
  reachable_calls _ runningJob_reachable

theorem job_history_cancelled :
    (∀ j ∈ cancelledJob.jobs.rows,
        jobReader.replay (eventLog cancelledJob j.id) = some j.history)
      ∧ cancelledJob.jobs.rows.map JobRow.history = [⟨.cancelled, 1, none, none, true⟩] :=
  ⟨(job_history emptySubmissionHash .plain (fun _ h => h) cancelledJob_reachable).1,
    by decide +kernel⟩

end NanoAural
