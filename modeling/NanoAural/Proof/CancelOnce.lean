import NanoAural.Proof.CancelPaths

/-!
# Requesting cancellation once

Requests for one job, one after the other, each through either path and each at
its own time. `Rewrites` singles out the requests that come through the
repository while the job runs and its cancellation has been requested: those,
and no others, make a sequence of requests differ from one. `Counted` is what
they break, one logged request for a job whose request is recorded and none for
any other.
-/

namespace NanoAural

open Relational Machine

variable {digest : CanonicalRequest → String} {json : JsonColumn} {allowed : Int → Prop}
  {db db' : Db}

/-! ## Sequences of requests -/

/-- What a request is about: the job's state, the time of its cancel request, the event log. The job's
`updated_at` is not part of it: the queue sets it where the repository does not. -/
def cancelView (jobId : Uuid) (db : Db) : Option (JobState × Option Time) × List EventRow :=
  ((db.jobs.find? jobId).map fun j => (j.state, j.cancelRequestedAt), db.events.rows)

/-- A request at a time. -/
def requestAt (jobId : Uuid) (request : Time × CancelPath) (db : Db) : Db :=
  request.2.request jobId { db with clock := max db.clock request.1 }

/-- Successive requests. -/
def cancelAll (jobId : Uuid) : List (Time × CancelPath) → Db → Db
  | [], db => db
  | request :: rest, db => cancelAll jobId rest (requestAt jobId request db)

/-- The job runs and its cancellation has been requested. -/
def cancelling (jobId : Uuid) (db : Db) : Bool :=
  (db.jobs.find? jobId).any fun j => j.state == .running && j.cancelRequestedAt.isSome

/-- Some request comes through the repository while the job is being cancelled. -/
def Rewrites (jobId : Uuid) : List (Time × CancelPath) → Db → Prop
  | [], _ => False
  | request :: rest, db =>
      (request.2 = .repository ∧ cancelling jobId db = true)
        ∨ Rewrites jobId rest (requestAt jobId request db)

/-- No request for the job remains to be recorded. -/
def Settled (jobId : Uuid) (db : Db) : Prop :=
  ∀ j, db.jobs.find? jobId = some j → (j.state = .queued ∨ j.state = .running) →
    j.cancelRequestedAt.isSome = true

theorem cancelling_iff {jobId : Uuid} : cancelling jobId db = true ↔
    ∃ j, db.jobs.find? jobId = some j ∧ j.state = .running ∧ j.cancelRequestedAt.isSome = true := by
  unfold cancelling
  cases db.jobs.find? jobId with
  | none => simp
  | some j => simp

theorem aside_tick (now : Time) (db : Db) : Aside db { db with clock := now } := ⟨rfl, rfl, rfl, rfl⟩

/-- A settled job that is still open runs: a waiting one carries no request. -/
theorem Settled.cancelling {jobId : Uuid} {j : JobRow} (hs : Settled jobId db) (h : Answerable db)
    (hj : db.jobs.find? jobId = some j) (hopen : j.state = .queued ∨ j.state = .running) :
    j.state = .running ∧ NanoAural.cancelling jobId db = true := by
  have hmarked := hs j hj hopen
  rcases hopen with hq | hr
  · rw [(h.attended.waiting jobId j hj hq).2] at hmarked
    exact absurd hmarked (by simp)
  · exact ⟨hr, cancelling_iff.mpr ⟨j, hj, hr, hmarked⟩⟩

/-- A recorded request settles its job, and adds to the event log. -/
theorem Records.settled {j : JobRow} (hr : Records j db db') (hj : db.jobs.find? j.id = some j) :
    Settled j.id db' ∧ db'.events.rows.length = db.events.rows.length + 1 := by
  obtain ⟨j', tj, te, hm, htj, hte, rfl⟩ := hr
  have hself : tj.find? j.id = some j' := by
    rw [← hm.id]
    exact Table.put?_self htj (hm.id ▸ hj)
  refine ⟨fun x hx _ => ?_, ?_⟩
  · have hx : tj.find? j.id = some x := hx
    rw [hself] at hx
    rw [← Option.some.inj hx, hm.time]
    rfl
  · show te.rows.length = _
    rw [Table.insert?_rows hte, List.length_append, List.length_singleton]

/-- What a recorded request leaves to be seen does not depend on its path. -/
theorem Records.view {j : JobRow} {db'' : Db} (hr : Records j db db') (hr' : Records j db db'')
    (hj : db.jobs.find? j.id = some j) : cancelView j.id db' = cancelView j.id db'' := by
  obtain ⟨j₁, t₁, e₁, hm₁, ht₁, he₁, rfl⟩ := hr
  obtain ⟨j₂, t₂, e₂, hm₂, ht₂, he₂, rfl⟩ := hr'
  have h₁ : t₁.find? j.id = some j₁ := by
    rw [← hm₁.id]
    exact Table.put?_self ht₁ (hm₁.id ▸ hj)
  have h₂ : t₂.find? j.id = some j₂ := by
    rw [← hm₂.id]
    exact Table.put?_self ht₂ (hm₂.id ▸ hj)
  unfold cancelView
  simp only [h₁, h₂, Option.map_some, hm₁.state, hm₂.state, hm₁.time, hm₂.time,
    Table.insert?_rows he₁, Table.insert?_rows he₂]

/-! ## After the first request -/

/-- **Requests for a settled job** change nothing, except that one through the repository is logged
again while the job is being cancelled. -/
theorem cancelAll_settled {jobId : Uuid} (calls : List (Time × CancelPath)) (h : Answerable db)
    (hs : Settled jobId db) :
    (Rewrites jobId calls db →
        db.events.rows.length < (cancelAll jobId calls db).events.rows.length)
      ∧ (¬ Rewrites jobId calls db →
        cancelView jobId (cancelAll jobId calls db) = cancelView jobId db) := by
  induction calls generalizing db with
  | nil => exact ⟨False.elim, fun _ => rfl⟩
  | cons request rest ih =>
      obtain ⟨now, path⟩ := request
      have h₀ : Answerable { db with clock := max db.clock now } := (aside_tick _ db).answerable h
      by_cases hrewrite : path = .repository ∧ cancelling jobId db = true
      · -- the repository marks the running job once more
        obtain ⟨rfl, hbusy⟩ := hrewrite
        refine ⟨fun _ => ?_, fun hno => absurd (Or.inl ⟨rfl, hbusy⟩) hno⟩
        obtain ⟨j, hj, hrun, -⟩ := cancelling_iff.mp hbusy
        obtain rfl : j.id = jobId := Table.key_of_find? hj
        have hrec : Records j _ (CancelPath.repository.request j.id _) :=
          request_records h₀ hj (Or.inr hrun) (Or.inl rfl)
        obtain ⟨hsettled, hlength⟩ := hrec.settled hj
        obtain ⟨hmore, hsame⟩ := ih (hrec.answerable h₀ hj (Or.inr hrun)) hsettled
        have hlength : (requestAt j.id (now, .repository) db).events.rows.length
            = db.events.rows.length + 1 := hlength
        show db.events.rows.length
          < (cancelAll j.id rest (requestAt j.id (now, .repository) db)).events.rows.length
        by_cases hrest : Rewrites j.id rest (requestAt j.id (now, .repository) db)
        · have hmore : (requestAt j.id (now, .repository) db).events.rows.length
              < (cancelAll j.id rest (requestAt j.id (now, .repository) db)).events.rows.length :=
            hmore hrest
          omega
        · have heq := congrArg (fun v => v.2.length) (hsame hrest)
          have heq : (cancelAll j.id rest (requestAt j.id (now, .repository) db)).events.rows.length
              = (requestAt j.id (now, .repository) db).events.rows.length := heq
          omega
      · -- every other request is ignored
        have hignored : requestAt jobId (now, path) db = { db with clock := max db.clock now } := by
          refine request_ignored h₀ fun j hj hopen => ?_
          have hbusy := (hs.cancelling h hj hopen).2
          refine ⟨?_, hs j hj hopen⟩
          cases path with
          | repository => exact absurd ⟨rfl, hbusy⟩ hrewrite
          | queue => rfl
        obtain ⟨hmore, hsame⟩ := ih h₀ hs
        rw [← hignored] at hmore hsame
        have hevents : (requestAt jobId (now, path) db).events = db.events := by rw [hignored]
        have hview : cancelView jobId (requestAt jobId (now, path) db) = cancelView jobId db := by
          rw [hignored]
          rfl
        refine ⟨?_, fun hno => ?_⟩
        · rintro (hbad | hrest)
          · exact absurd hbad hrewrite
          · rw [← hevents]
            exact hmore hrest
        · exact (hsame fun hrest => hno (Or.inr hrest)).trans hview

/-! ## One logged request a job -/

/-- The events that log a cancel request of a job. -/
def cancelEvents (jobId : Uuid) (db : Db) : List EventRow :=
  db.events.rows.filter fun e => e.jobId == jobId && e.eventType == .cancelRequested

/-- A request of the job is recorded. -/
def requested (jobId : Uuid) (db : Db) : Bool :=
  (db.jobs.find? jobId).any (·.cancelRequestedAt.isSome)

/-- **The log counts the recorded requests.** -/
def Counted (db : Db) : Prop :=
  ∀ id, (cancelEvents id db).length = if requested id db then 1 else 0

theorem Counted.congr (h : Counted db) (hj : db'.jobs = db.jobs) (he : db'.events = db.events) :
    Counted db' := by
  intro id
  simp only [cancelEvents, requested, hj, he]
  exact h id

theorem cancelEvents_insert {n : Nat} {jobId : Uuid} {attemptId : Option Uuid} {ty : EventType}
    (hte : db.events.insert? ⟨n, jobId, attemptId, ty⟩ = some db'.events) (id : Uuid) :
    (cancelEvents id db').length = (cancelEvents id db).length
      + if jobId = id ∧ ty = .cancelRequested then 1 else 0 := by
  unfold cancelEvents
  rw [Table.insert?_rows hte, List.filter_append, List.length_append]
  by_cases hlog : jobId = id ∧ ty = .cancelRequested
  · simp [hlog.1, hlog.2]
  · rw [if_neg hlog]
    have hno : (jobId == id && ty == .cancelRequested) = false := by
      rw [Bool.eq_false_iff]
      simpa using hlog
    simp [hno]

theorem requested_put {j j' : JobRow} (htj : db.jobs.put? j' = some db'.jobs)
    (hj : db.jobs.find? j.id = some j) (hid : j'.id = j.id) (id : Uuid) :
    requested id db' = if id = j.id then j'.cancelRequestedAt.isSome else requested id db := by
  unfold requested
  rw [Table.find?_put? htj (hid ▸ hj)]
  have hk : Schema.key j' = j.id := hid
  rw [hk]
  split <;> rfl

/-- An event that logs no request, with the row of a job whose request stays as it is. -/
theorem counted_put {j j' : JobRow} {n : Nat} {jobId : Uuid} {attemptId : Option Uuid}
    {ty : EventType} (h : Counted db) (htj : db.jobs.put? j' = some db'.jobs)
    (hj : db.jobs.find? j.id = some j) (hid : j'.id = j.id)
    (hsame : j'.cancelRequestedAt = j.cancelRequestedAt)
    (hte : db.events.insert? ⟨n, jobId, attemptId, ty⟩ = some db'.events)
    (hty : ty ≠ .cancelRequested) : Counted db' := by
  intro id
  have hreq : requested id db' = requested id db := by
    rw [requested_put htj hj hid]
    split
    · rename_i hk
      rw [hk, hsame]
      unfold requested
      rw [hj]
      rfl
    · rfl
  have hno : ¬ (jobId = id ∧ ty = .cancelRequested) := fun hlog => hty hlog.2
  rw [cancelEvents_insert hte, if_neg hno, hreq, Nat.add_zero]
  exact h id

/-- A first request is logged as it is recorded. -/
theorem counted_mark {j j' : JobRow} {n : Nat} {attemptId : Option Uuid} (h : Counted db)
    (htj : db.jobs.put? j' = some db'.jobs) (hj : db.jobs.find? j.id = some j) (hid : j'.id = j.id)
    (hfirst : j.cancelRequestedAt = none) (hmark : j'.cancelRequestedAt.isSome = true)
    (hte : db.events.insert? ⟨n, j.id, attemptId, .cancelRequested⟩ = some db'.events) :
    Counted db' := by
  intro id
  have hold := h id
  rw [cancelEvents_insert hte, requested_put htj hj hid]
  by_cases hk : id = j.id
  · subst hk
    have hnone : requested j.id db = false := by
      unfold requested
      rw [hj]
      simp [hfirst]
    rw [hold, hnone]
    simp [hmark]
  · rw [hold, if_neg hk]
    simp [Ne.symm hk]

theorem counted_effect (h : Counted db) (he : Effect json allowed db db') : Counted db' := by
  cases he with
  | claim hw hready hj hjob hta htj htw hte =>
      exact counted_put h htj hj rfl rfl hte (by simp)
  | requestCancel hj hs hc htj hte => exact counted_mark h htj hj rfl hc rfl hte
  | @close lease a j w maxAttempts notBefore reason ta tj tw te hh hm hta htj htw hte =>
      obtain ⟨hid, _, hcan⟩ := leave_keeps (closingState j.cancelRequestedAt.isSome a.attemptNo
        maxAttempts) notBefore db.clock j
      refine counted_put h htj (hh.jobId.symm ▸ hh.job) hid hcan hte ?_
      cases closingState j.cancelRequestedAt.isSome a.attemptNo maxAttempts <;> simp [closingEvent]
  | @win lease a j w items artifactId tp tr ta tj tw te hh hu hc hitems htp htr hta htj htw hte =>
      have hj : db.jobs.find? j.id = some j := hh.jobId.symm ▸ hh.job
      exact counted_put h htj hj rfl rfl hte (by simp)
  | tick _ _ => exact h.congr rfl rfl
  | renew _ _ _ _ _ => exact h.congr rfl rfl
  | reserve _ _ => exact h.congr rfl rfl
  | ledger _ _ _ => exact h.congr rfl rfl
  | blob _ _ => exact h.congr rfl rfl

/-- A request through the repository for a job that is being cancelled. -/
def RepositoryCall.rewrites (db : Db) : RepositoryCall → Prop
  | .requestCancel jobId => NanoAural.cancelling jobId db = true
  | _ => False

theorem counted_change {c : RepositoryCall} (ha : Answerable db) (h : Counted db)
    (hc : Change digest json db c db') (horderly : ¬ c.rewrites db) : Counted db' := by
  cases hc with
  | aside hside => exact h.congr hside.jobs hside.events
  | effects he =>
      clear ha horderly
      induction he with
      | refl => exact h
      | tail _ hs ih => exact counted_effect ih hs
  | @created jobId sub hash n db' hadm htj hi hatt hte =>
      intro id
      have hreq : requested id db' = requested id db := by
        unfold requested
        rw [Table.find?_insert? htj]
        split
        · rename_i hk
          rw [hk, Table.insert?_fresh htj]
          rfl
        · rfl
      rw [cancelEvents_insert hte, hreq, h id]
      simp
  | @cancelled j db' hj hopen hr =>
      obtain ⟨j', tj, te, hm, htj, hte, rfl⟩ := hr
      have hfirst : j.cancelRequestedAt = none := by
        rcases hopen with hs | hs
        · exact (ha.attended.waiting _ j hj hs).2
        · -- a running job whose request is recorded would be asked again
          cases hc : j.cancelRequestedAt with
          | none => rfl
          | some t => exact absurd (cancelling_iff.mpr ⟨j, hj, hs, by rw [hc]; rfl⟩) horderly
      exact counted_mark h htj hj hm.id hfirst (by rw [hm.time]; rfl) hte

/-- The repository's system without the requests that rewrite one. -/
def orderlySystem (digest : CanonicalRequest → String) (json : JsonColumn) : System Db where
  init db := db = Db.empty
  step db db' := ∃ c : RepositoryCall, ¬ c.rewrites db ∧ db' = c.run digest json db

theorem counted_reachable
    (hjson : ∀ v, v.isMapping = true → (json.roundTrip v).isMapping = true)
    (h : (orderlySystem digest json).Reachable db) : Answerable db ∧ Counted db := by
  refine h.invariant (I := fun db => Answerable db ∧ Counted db) ?_ ?_
  · rintro s (rfl : s = Db.empty)
    exact ⟨answerable_empty, fun _ => rfl⟩
  · rintro s _ _ ⟨ha, hcount⟩ ⟨c, horderly, rfl⟩
    have hchange : Change digest json s c (c.run digest json s) := c.change ha
    exact ⟨answerable_change hjson ha hchange, counted_change ha hcount hchange horderly⟩

/-! ## When many requests are one -/

/-- **One request decides.** A sequence of requests leaves what a queue's request at the time of
the first leaves, exactly when none of them rewrites. -/
theorem cancelAll_iff {jobId : Uuid} {now : Time} {path : CancelPath}
    {rest : List (Time × CancelPath)} (h : Answerable db) :
    cancelView jobId (cancelAll jobId ((now, path) :: rest) db)
        = cancelView jobId (cancelAll jobId [(now, .queue)] db)
      ↔ ¬ Rewrites jobId ((now, path) :: rest) db := by
  have h₀ : Answerable { db with clock := max db.clock now } := (aside_tick _ db).answerable h
  by_cases hs : Settled jobId db
  · -- the queue ignores its request
    have hqueue : cancelView jobId (cancelAll jobId [(now, .queue)] db) = cancelView jobId db :=
      (cancelAll_settled [(now, .queue)] h hs).2 (by simp [Rewrites])
    obtain ⟨hmore, hsame⟩ := cancelAll_settled ((now, path) :: rest) h hs
    rw [hqueue]
    refine ⟨fun heq hbad => ?_, hsame⟩
    have hlength := congrArg (fun v => v.2.length) heq
    exact absurd hlength (Nat.ne_of_gt (hmore hbad))
  · -- the first request is recorded, whichever way it comes
    unfold Settled at hs
    push Not at hs
    obtain ⟨j, hj, hopen, hnone⟩ := hs
    obtain rfl : j.id = jobId := Table.key_of_find? hj
    have hnone : j.cancelRequestedAt = none := by simpa using hnone
    have hrec : ∀ p : CancelPath, Records j { db with clock := max db.clock now }
        (requestAt j.id (now, p) db) := fun p => request_records h₀ hj hopen (Or.inr hnone)
    have hfirst : cancelling j.id db = false := by
      unfold cancelling
      rw [hj]
      simp [hnone]
    have hview : cancelView j.id (requestAt j.id (now, path) db)
        = cancelView j.id (cancelAll j.id [(now, .queue)] db) :=
      (hrec path).view (hrec .queue) hj
    obtain ⟨hmore, hsame⟩ := cancelAll_settled rest ((hrec path).answerable h₀ hj hopen)
      ((hrec path).settled hj).1
    have hrewrites : Rewrites j.id ((now, path) :: rest) db
        ↔ Rewrites j.id rest (requestAt j.id (now, path) db) := by
      simp [Rewrites, hfirst]
    rw [hrewrites, ← hview]
    refine ⟨fun heq hbad => ?_, hsame⟩
    have hlength := congrArg (fun v => v.2.length) heq
    exact absurd hlength (Nat.ne_of_gt (hmore hbad))

/--
**Cancelling once.**

In every database the two repositories can produce, for every job and every sequence of requests
for it: the sequence leaves the job and the event log as its first request alone does, and that
request as one through the queue, if and only if no request comes through the repository while the
job is being cancelled. And in every run without such requests a job's cancellation is logged at
most once.
-/
theorem cancel_once_iff (digest : CanonicalRequest → String) (json : JsonColumn)
    (hjson : ∀ v, v.isMapping = true → (json.roundTrip v).isMapping = true) :
    (∀ db, (repositorySystem digest json).Reachable db → ∀ jobId now path rest,
      (cancelView jobId (cancelAll jobId ((now, path) :: rest) db)
            = cancelView jobId (cancelAll jobId [(now, path)] db)
          ∧ cancelView jobId (cancelAll jobId [(now, path)] db)
            = cancelView jobId (cancelAll jobId [(now, .queue)] db))
        ↔ ¬ Rewrites jobId ((now, path) :: rest) db)
    ∧ ∀ db, (orderlySystem digest json).Reachable db →
        ∀ jobId, (cancelEvents jobId db).length ≤ 1 := by
  refine ⟨fun db hdb jobId now path rest => ?_, fun db hdb jobId => ?_⟩
  · have h := answerable_reachable hjson hdb
    constructor
    · rintro ⟨hmany, hone⟩
      exact (cancelAll_iff h).mp (hmany.trans hone)
    · intro horderly
      have hone : cancelView jobId (cancelAll jobId [(now, path)] db)
          = cancelView jobId (cancelAll jobId [(now, .queue)] db) :=
        (cancelAll_iff h).mpr fun hbad => horderly (Or.inl (by simpa [Rewrites] using hbad))
      exact ⟨((cancelAll_iff h).mpr horderly).trans hone.symm, hone⟩
  · rw [(counted_reachable hjson hdb).2 jobId]
    split <;> omega

/-- A sequence of calls is a run. -/
theorem reachable_calls (calls : List RepositoryCall) (h : (repositorySystem digest json).Reachable db) :
    (repositorySystem digest json).Reachable
      (calls.foldl (fun db c => c.run digest json db) db) := by
  induction calls generalizing db with
  | nil => exact h
  | cons c calls ih => exact ih (h.step ⟨c, rfl⟩)

/-- A queue whose one job is running, made by four calls. -/
def runningJob : Db :=
  [.registerDeployment ⟨1, "m", "a", "f", .ready, .dict []⟩, .registerWorker ⟨7, 1, .ready⟩,
    .createJob 6 emptySubmission, .queue (.claimNext .free 9 7 60)].foldl
      (fun db (c : RepositoryCall) => c.run emptySubmissionHash .plain db) Db.empty

theorem runningJob_reachable : (repositorySystem emptySubmissionHash .plain).Reachable runningJob :=
  reachable_calls _ (System.Reachable.of_init rfl)

/-- A queue's request, and another by the queue after it. -/
theorem cancel_once_queue :
    cancelView 6 (cancelAll 6 [(3, .queue), (5, .queue)] runningJob)
        = cancelView 6 (cancelAll 6 [(3, .queue)] runningJob)
      ∧ cancelView 6 (cancelAll 6 [(3, .queue)] runningJob)
        = cancelView 6 (cancelAll 6 [(3, .queue)] runningJob) :=
  ((cancel_once_iff emptySubmissionHash .plain fun _ h => h).1 runningJob runningJob_reachable 6 3
    .queue [(5, .queue)]).mpr (by simp [Rewrites])

/-- **Two requests through the repository** for a running job: the second moves the time of the
first and is logged once more. -/
theorem cancel_logged_twice :
    (repositorySystem emptySubmissionHash .plain).Reachable runningJob
      ∧ cancelView 6 (cancelAll 6 [(3, .repository)] runningJob)
        = (some (.running, some 3), [⟨1, 6, none, .jobCreated⟩, ⟨2, 6, some 9, .attemptStarted⟩,
            ⟨3, 6, some 9, .cancelRequested⟩])
      ∧ cancelView 6 (cancelAll 6 [(3, .repository), (5, .repository)] runningJob)
        = (some (.running, some 5), [⟨1, 6, none, .jobCreated⟩, ⟨2, 6, some 9, .attemptStarted⟩,
            ⟨3, 6, some 9, .cancelRequested⟩, ⟨4, 6, some 9, .cancelRequested⟩])
      ∧ cancelView 6 (cancelAll 6 [(3, .queue), (5, .queue)] runningJob)
        = cancelView 6 (cancelAll 6 [(3, .repository)] runningJob) :=
  ⟨runningJob_reachable, by decide +kernel, by decide +kernel, by decide +kernel⟩

end NanoAural
