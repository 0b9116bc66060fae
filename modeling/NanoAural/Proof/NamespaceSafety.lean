import NanoAural.Durable.Application
import NanoAural.Proof.ArtifactsKept
import NanoAural.Proof.CancelOnce
import NanoAural.Proof.JobHistory

/-!
# Callers keep to their namespaces

A caller is checked once, at the start of a request, and the request then goes on through
further calls of the repository while everybody else goes on with theirs. The check still
holds at the last of them, because nothing ever moves a job to another namespace.
-/

namespace NanoAural

open Relational Machine Dialogues

/-! ## Rights -/

/-- The job is there, in a namespace the caller may use. -/
def Owned (caller : Caller) (jobId : Uuid) (db : Db) : Prop :=
  ∃ j, db.jobs.find? jobId = some j ∧ caller.allowsNamespace j.namespaceId = true

/-- What the request names is the caller's. -/
def ApiRequest.Entitled (caller : Caller) (db : Db) : ApiRequest → Prop
  | .submit command => caller.allowsNamespace command.namespaceId = true
  | .getJob jobId | .cancel jobId | .events jobId _ _ | .artifacts jobId
  | .download jobId _ => Owned caller jobId db

/-- What is said of a job that is not there. -/
def unknownJob (caller : Caller) (scope : String) : ApplicationError :=
  if caller.hasScope scope then .resourceNotFound "job not found"
  else .accessDenied "required scope is missing"

/-- The same for a page of events, whose bounds are checked first. -/
def deniedPage (caller : Caller) : Except ApplicationError Unit → ApplicationError
  | .error e => e
  | .ok _ => unknownJob caller "jobs:read"

/-- What is said of a namespace that nothing may be submitted to. -/
def unknownNamespace (caller : Caller) : ApplicationError :=
  if caller.hasScope "jobs:submit" then .resourceNotFound "namespace not found"
  else .accessDenied "required scope is missing"

/-- How a request is denied that names nothing of the caller's. The database has no say in it. -/
def ApiRequest.denial (caller : Caller) : ApiRequest → ApplicationError
  | .submit _ => unknownNamespace caller
  | .getJob _ => unknownJob caller "jobs:read"
  | .cancel _ => unknownJob caller "jobs:cancel"
  | .events _ cursor limit => deniedPage caller (ApplicationService.checkPage cursor limit)
  | .artifacts _ | .download _ _ => unknownJob caller "artifacts:read"

/-- What leaves the system of a row of `job_events`. -/
def EventRow.view (payload : Uuid → Option Uuid → EventType → PyValue) (casefold : String → String)
    (row : EventRow) : Option EventView :=
  ((row.logged payload).bind LoggedEvent.record).map (EventView.fromRecord casefold)

/-- The job a submission is about: the one under its namespace and its key. -/
def Submitted (db : Db) (command : Submission) (job : JobRecord) : Prop :=
  ∃ j, db.jobs.find? j.id = some j ∧ j.namespaceId = command.namespaceId
    ∧ j.idempotencyKey = command.idempotencyKey ∧ NanoAural.getJob j.id db = .ok job

/-- What an answer shows is there, and belongs to what the request names. -/
def ApiRequest.Shows (payload : Uuid → Option Uuid → EventType → PyValue)
    (casefold : String → String) (db : Db) : ApiRequest → ApiAnswer → Prop
  | .submit command, .job view => ∃ job, Submitted db command job ∧ view = JobView.fromRecord job
  | .getJob jobId, .job view | .cancel jobId, .job view =>
      ∃ job, NanoAural.getJob jobId db = .ok job ∧ view = JobView.fromRecord job
  | .events jobId _ _, .events page => ∀ e ∈ page.events, ∃ row ∈ db.events.rows,
      row.jobId = jobId ∧ row.view payload casefold = some e
  | .artifacts jobId, .artifacts views =>
      ∀ view ∈ views, ∃ item ∈ visibleWinner jobId none db, item.jobId = jobId
        ∧ view = ArtifactView.fromVisible item
  | .download jobId artifactId, .download view storageKey =>
      ∃ item ∈ visibleWinner jobId none db, item.artifactId = artifactId
        ∧ view = ArtifactView.fromVisible item ∧ storageKey = item.storageKey
  | _, _ => False

/-- Without a right a request is denied, and an answer shows what it may. -/
structure Fair {α : Type} (entitled : Prop) (denial : ApplicationError) (shows : α → Prop)
    (answer : Except ApplicationError α) : Prop where
  denied : ¬ entitled → answer = .error denial
  shown : ∀ a, answer = .ok a → shows a

section Fair

variable {α β : Type} {entitled : Prop} {denial e : ApplicationError} {shows : α → Prop}

theorem Fair.of_error (h : entitled) : Fair entitled denial shows (.error e) :=
  ⟨fun hn => absurd h hn, fun _ ha => by cases ha⟩

theorem Fair.of_denial : Fair entitled denial shows (.error denial) :=
  ⟨fun _ => rfl, fun _ ha => by cases ha⟩

theorem Fair.of_ok {a : α} (h : entitled) (ha : shows a) : Fair entitled denial shows (.ok a) :=
  ⟨fun hn => absurd h hn, fun _ hb => Except.ok.inj hb ▸ ha⟩

theorem Fair.of_entitled {answer : Except ApplicationError α} (h : entitled)
    (ha : ∀ a, answer = .ok a → shows a) : Fair entitled denial shows answer :=
  ⟨fun hn => absurd h hn, ha⟩

theorem Fair.map {answer : Except ApplicationError α} {f : α → β} {shows' : β → Prop}
    (h : Fair entitled denial shows answer) (hf : ∀ a, shows a → shows' (f a)) :
    Fair entitled denial shows' (answer.map f) := by
  cases answer with
  | error e =>
      refine ⟨fun hn => ?_, fun _ hb => ?_⟩
      · rw [Except.error.inj (h.denied hn)]
        rfl
      · cases hb
  | ok a =>
      refine ⟨fun hn => ?_, fun b hb => ?_⟩
      · cases h.denied hn
      · cases hb
        exact hf a (h.shown a rfl)

end Fair

/-! ## What a request leaves alone -/

/-- Nothing of a job in another namespace has changed, and there are no new ones. -/
structure Spares (caller : Caller) (db db' : Db) : Prop where
  rows : ∀ id j, caller.allowsNamespace j.namespaceId = false →
    (db'.jobs.find? id = some j ↔ db.jobs.find? id = some j)
  inputs : ∀ id j, db.jobs.find? id = some j → caller.allowsNamespace j.namespaceId = false →
    inputsOf db' id = inputsOf db id
  events : ∀ id j, db.jobs.find? id = some j → caller.allowsNamespace j.namespaceId = false →
    eventLog db' id = eventLog db id
  attempts : db'.attempts = db.attempts

variable {digest : CanonicalRequest → String} {json : JsonColumn} {caller : Caller} {db db' : Db}
  {jobId : Uuid}

theorem Owned.later (h : Owned caller jobId db)
    (hr : (repositorySystem digest json).Runs db db') : Owned caller jobId db' := by
  obtain ⟨j, hj, hns⟩ := h
  obtain ⟨j', hj', hs⟩ := (keepsJobs hr).jobs jobId j hj
  simp only [JobRow.submitted, Prod.mk.injEq] at hs
  exact ⟨j', hj', by rw [hs.2.1]; exact hns⟩

theorem spares_aside (h : Aside db db') : Spares caller db db' where
  rows _ _ _ := by rw [h.jobs]
  inputs _ _ _ _ := by rw [inputsOf, inputsOf, h.inputs]
  events _ _ _ _ := by rw [eventLog, eventLog, h.events]
  attempts := h.attempts

/-- A job of the caller's has a new row, and one more event. -/
theorem spares_of {e : EventRow} (hk : KeepsJobs db db') (he : e.jobId = jobId)
    (hold : ∀ j, db.jobs.find? jobId = some j → caller.allowsNamespace j.namespaceId = true)
    (hnew : ∀ j, db'.jobs.find? jobId = some j → caller.allowsNamespace j.namespaceId = true)
    (hrows : ∀ id, id ≠ jobId → db'.jobs.find? id = db.jobs.find? id)
    (hevents : db'.events.rows = db.events.rows ++ [e]) (ha : db'.attempts = db.attempts) :
    Spares caller db db' where
  rows id j hj := by
    by_cases hid : id = jobId
    · subst hid
      constructor <;> intro h
      · exact absurd ((hnew j h).symm.trans hj) (by simp)
      · exact absurd ((hold j h).symm.trans hj) (by simp)
    · rw [hrows id hid]
  inputs id j hf _ := hk.inputs id j hf
  events id j hf hj := by
    have hid : jobId ≠ id := by
      rintro rfl
      rw [hold j hf] at hj
      cases hj
    rw [eventLog, eventLog, hevents, List.filter_append]
    -- the new event is one of the caller's job
    have hnone : [e].filter (fun e => e.jobId == id) = [] := by
      rw [List.filter_cons_of_neg (by rw [he]; simpa using hid)]
      rfl
    rw [hnone, List.append_nil]
  attempts := ha

/-- **A cancellation touches its own job.** -/
theorem spares_requestCancel (ha : Answerable db) (h : Owned caller jobId db) :
    Spares caller db (RepositoryCall.run digest json (.requestCancel jobId) db) := by
  have hk : KeepsJobs db (RepositoryCall.run digest json (.requestCancel jobId) db) :=
    RepositoryCall.keeps _ db
  have hc : Change digest json db (.requestCancel jobId)
      (RepositoryCall.run digest json (.requestCancel jobId) db) := RepositoryCall.change ha _
  generalize RepositoryCall.run digest json (.requestCancel jobId) db = db' at hk hc ⊢
  cases hc with
  | aside h => exact spares_aside h
  | @cancelled j db' hj _ hr =>
      obtain ⟨j', tj, te, hm, htj, hte, rfl⟩ := hr
      obtain ⟨x, hx, hns⟩ := h
      obtain rfl := Option.some.inj (hj.symm.trans hx)
      have hid : j'.id = j.id := hm.id
      have hf : db.jobs.find? (Schema.key j') = some j := by rw [← hj]; exact congrArg _ hid
      refine spares_of hk rfl ?_ ?_ ?_ (Table.insert?_rows hte) rfl
      · intro y hy
        obtain rfl := Option.some.inj (hj.symm.trans hy)
        exact hns
      · intro y hy
        have hself : tj.find? j.id = some j' := by rw [← hid]; exact Table.put?_self htj hf
        obtain rfl := Option.some.inj (hself.symm.trans hy)
        have hs := hm.submitted
        simp only [JobRow.submitted, Prod.mk.injEq] at hs
        rw [hs.2.1]
        exact hns
      · intro id hne
        exact Table.put?_other htj hf fun h => hne (h.trans hid)

/-- **A submission touches its own job.** -/
theorem spares_createJob {sub : Submission} (ha : Answerable db)
    (h : caller.allowsNamespace sub.namespaceId = true) :
    Spares caller db (RepositoryCall.run digest json (.createJob jobId sub) db) := by
  have hk : KeepsJobs db (RepositoryCall.run digest json (.createJob jobId sub) db) :=
    RepositoryCall.keeps _ db
  have hc : Change digest json db (.createJob jobId sub)
      (RepositoryCall.run digest json (.createJob jobId sub) db) := RepositoryCall.change ha _
  generalize RepositoryCall.run digest json (.createJob jobId sub) db = db' at hk hc ⊢
  cases hc with
  | aside h => exact spares_aside h
  | created hadm htj hi hatt hte =>
      have hfresh : db.jobs.find? jobId = none := Table.insert?_fresh htj
      refine spares_of hk rfl ?_ ?_ ?_ (Table.insert?_rows hte) hatt
      · intro y hy
        rw [hfresh] at hy
        cases hy
      · -- the only row that is new is the one that was submitted
        intro y hy
        have hself := Table.insert?_self htj
        obtain rfl := Option.some.inj (hself.symm.trans hy)
        exact h
      · intro id hne
        rw [Table.find?_insert? htj]
        exact if_neg hne

/-! ## The rules of a request -/

section Rules

variable {ε σ α β : Type} {rely guarantee : σ → σ → Prop} {φ : σ → Except ε α → Prop}
  {ψ : σ → Except ε β → Prop} {s : σ}

theorem serving_bind {p : Serving ε σ α} {f : α → Serving ε σ β}
    (hp : Meets rely guarantee φ s p.run)
    (hok : ∀ t a, φ t (.ok a) → Meets rely guarantee ψ t (f a).run)
    (herr : ∀ t e, φ t (.error e) → ψ t (.error e)) :
    Meets rely guarantee ψ s (p >>= f).run := by
  show Meets rely guarantee ψ s (p.run >>= ExceptT.bindCont f)
  refine hp.bind fun t x hx => ?_
  cases x with
  | ok a => exact hok t a hx
  | error e => exact .answer (herr t e hx)

theorem serving_conclude_bind {x : Except ε α} {f : α → Serving ε σ β}
    (hok : ∀ a, x = .ok a → Meets rely guarantee ψ s (f a).run)
    (herr : ∀ e, x = .error e → ψ s (.error e)) :
    Meets rely guarantee ψ s (conclude x >>= f).run := by
  cases x with
  | ok a => exact hok a rfl
  | error e => exact .answer (herr e rfl)

/-- A look at the state, which the others may have changed by then. -/
theorem serving_query_bind {q : σ → α} {f : α → Serving ε σ β} (hsame : ∀ t, guarantee t t)
    (h : ∀ t, rely s t → Meets rely guarantee ψ t (f (q t)).run) :
    Meets rely guarantee ψ s (query q >>= f).run :=
  .transact (fun t _ _ => hsame t) fun t _ ht => h t ht

theorem serving_invoke_bind {call : Serving Error σ α} {g : α → Serving ApplicationError σ β}
    {χ : σ → Except Error α → Prop} {ψ : σ → Except ApplicationError β → Prop}
    (hcall : Meets rely guarantee χ s call.run)
    (hok : ∀ t a, χ t (.ok a) → Meets rely guarantee ψ t (g a).run)
    (herr : ∀ t e, χ t (.error e) → ψ t (.error (.durable e))) :
    Meets rely guarantee ψ s (invoke call >>= g).run := by
  have hinvoke : Meets rely guarantee (fun t x => ∃ r, χ t r ∧ x = r.mapError .durable) s
      (invoke call).run := hcall.bind fun t r hr => .answer ⟨r, hr, rfl⟩
  refine serving_bind hinvoke (fun t a hr => ?_) fun t e hr => ?_
  · obtain ⟨r, hr, hx⟩ := hr
    cases r with
    | ok b => exact Except.ok.inj hx ▸ hok t b hr
    | error e => cases hx
  · obtain ⟨r, hr, hx⟩ := hr
    cases r with
    | ok b => cases hx
    | error e => exact Except.error.inj hx ▸ herr t e hr

theorem serving_map {p : Serving ε σ α} {f : α → β}
    (hp : Meets rely guarantee (fun t x => ψ t (x.map f)) s p.run) :
    Meets rely guarantee ψ s (f <$> p).run := by
  refine hp.bind fun t x hx => ?_
  cases x with
  | ok a => exact .answer hx
  | error e => exact .answer hx

/-- A transaction on what the others have made of the database. -/
theorem serving_transacted_bind {rely guarantee : Db → Db → Prop} {db : Db} {rows : Uuid → Sql α}
    {f : Uuid × α → Serving Error Db β} {ψ : Db → Except Error β → Prop}
    (hkeep : ∀ u id, rely db u → guarantee u (commit (rows id) u).2)
    (hok : ∀ u id a, rely db u → (commit (rows id) u).1 = .ok a →
      Meets rely guarantee ψ (commit (rows id) u).2 (f (id, a)).run)
    (herr : ∀ u id e, rely db u → (commit (rows id) u).1 = .error e →
      ψ (commit (rows id) u).2 (.error e)) :
    Meets rely guarantee ψ db (transacted rows >>= f).run := by
  refine .transact (fun u id hu => hkeep u id hu) fun u id hu => ?_
  show Meets rely guarantee ψ _ (ExceptT.bindCont f ((commit (rows id) u).1.map (id, ·)))
  cases hx : (commit (rows id) u).1 with
  | ok a => exact hok u id a hu hx
  | error e => exact .answer (herr u id e hu hx)

end Rules

/-! ## Every request -/

/-- What a request of a caller may change, and what everybody may rely on. -/
def Confined (digest : CanonicalRequest → String) (json : JsonColumn) (caller : Caller)
    (db db' : Db) : Prop :=
  (repositorySystem digest json).Runs db db' ∧ Spares caller db db'

theorem confined_same : Confined digest json caller db db :=
  ⟨.refl, spares_aside (.refl db)⟩

theorem getJob_row {job : JobRecord} (h : getJob jobId db = .ok job) :
    job.jobId = jobId ∧ ∃ j, db.jobs.find? jobId = some j ∧ job.namespaceId = j.namespaceId := by
  unfold getJob at h
  cases hj : db.jobs.find? jobId with
  | none =>
      rw [hj] at h
      cases h
  | some j =>
      rw [hj] at h
      refine ⟨(jobRecord_ok h).1.trans (Table.key_of_find? hj), j, rfl, ?_⟩
      obtain ⟨_, _, h⟩ := except_bind_ok.mp h
      obtain ⟨_, _, h⟩ := except_bind_ok.mp h
      rw [← Except.ok.inj h]

/-- What a call commits is what the whole of it leaves. -/
theorem requestJobCancel_commit :
    (requestJobCancel jobId db).2 = (commit (requestCancelRows jobId) db).2 := by
  unfold requestJobCancel
  split <;> rename_i hc <;> rw [hc]

theorem createJob_commit {sub : Submission} {hash : String}
    (hadm : sub.admissible digest = .ok hash) :
    (createJob digest json jobId sub db).2 = (commit (createJobRows json jobId sub hash) db).2 := by
  unfold createJob
  simp only [hadm]
  split <;> rename_i hc <;> rw [hc]

/-- A job that a submission finds is one that the whole call returns. -/
theorem createJob_existing {sub : Submission} {hash : String} {job : JobRecord}
    (hadm : sub.admissible digest = .ok hash)
    (h : (commit (createJobRows json jobId sub hash) db).1 = .ok (some job)) :
    (createJob digest json jobId sub db).1 = .ok job := by
  have hc : commit (createJobRows json jobId sub hash) db
      = (.ok (some job), (commit (createJobRows json jobId sub hash) db).2) := Prod.ext h rfl
  unfold createJob
  simp only [hadm]
  rw [hc]

/-- A new job's row is there after the commit. -/
theorem createJob_inserted {sub : Submission} {hash : String}
    (h : (commit (createJobRows json jobId sub hash) db).1 = .ok none) :
    (commit (createJobRows json jobId sub hash) db).2.jobs.find? jobId
      = some (submittedRow json jobId sub hash db.clock) := by
  have hc : commit (createJobRows json jobId sub hash) db
      = (.ok none, (commit (createJobRows json jobId sub hash) db).2) := Prod.ext h rfl
  obtain ⟨s, hb, _, hdb⟩ := commit_ok hc
  rw [hdb]
  obtain ⟨_, _, ⟨_, _, he, _⟩ | ⟨_, _, hf⟩⟩ := createJobRows_ok hb
  · cases he
  · exact hf

/-- The events that are listed are records of the job's. -/
theorem listEvents_from {log : List LoggedEvent} {cursor : Option String} {limit : Int}
    {records : List EventRecord} (h : listEvents log jobId cursor limit = .ok records) :
    ∀ e ∈ records, ∃ r ∈ log, r.jobId = jobId ∧ r.record = some e := by
  obtain ⟨_, h⟩ := raiseIf_bind_ok.mp h
  obtain ⟨_, h⟩ := raiseIf_bind_ok.mp h
  intro e he
  rw [← Except.ok.inj h] at he
  obtain ⟨r, hr, hrecord⟩ := List.mem_filterMap.mp he
  obtain ⟨hlog, hmatch⟩ := List.mem_filter.mp (mem_orderBy.mp (List.mem_of_mem_take hr))
  simp only [Bool.and_eq_true, beq_iff_eq] at hmatch
  exact ⟨r, hlog, hmatch.1.1, hrecord⟩

theorem logged_jobId {payload : Uuid → Option Uuid → EventType → PyValue} {row : EventRow}
    {r : LoggedEvent} (h : row.logged payload = some r) : r.jobId = row.jobId := by
  unfold EventRow.logged at h
  split at h
  · rw [← Option.some.inj h]
  · cases h

/-- The events of a page are among those that were listed. -/
theorem eventPage_from {casefold : String → String} {job : JobRecord} {cursor : Option String}
    {limit : Int} {listed : Except Error (List EventRecord)} {page : EventPage}
    (h : eventPage casefold caller (.ok job) (fun _ _ _ => listed) cursor limit = .ok page) :
    ∃ records, listed = .ok records
      ∧ ∀ e ∈ page.events, ∃ r ∈ records, EventView.fromRecord casefold r = e := by
  obtain ⟨_, h⟩ := raiseIf_bind_ok.mp h
  obtain ⟨_, h⟩ := raiseIf_bind_ok.mp h
  obtain ⟨_, _, h⟩ := except_bind_ok.mp h
  cases listed with
  | error e => cases h
  | ok records =>
      obtain ⟨_, h⟩ := raiseIf_bind_ok.mp h
      refine ⟨records, rfl, fun e he => ?_⟩
      rw [← Except.ok.inj h] at he
      obtain ⟨r, hr, rfl⟩ := List.mem_map.mp he
      exact ⟨r, List.mem_of_mem_take hr, rfl⟩

theorem theOnly_mem {items : List VisibleArtifact} {e : ApplicationError} {item : VisibleArtifact}
    (h : ApplicationService.theOnly items e = .ok item) : item ∈ items := by
  unfold ApplicationService.theOnly at h
  split at h
  · rw [Except.ok.inj h]
    exact List.mem_singleton_self _
  · cases h

/-- What the look for a caller's job says. -/
structure Looked (caller : Caller) (jobId : Uuid) (scope : String) (db : Db)
    (r : Except ApplicationError JobRecord) : Prop where
  found : ∀ job, r = .ok job → getJob jobId db = .ok job ∧ Owned caller jobId db
  missed : ∀ e, r = .error e → e = unknownJob caller scope

theorem Looked.of_unknown {scope : String} :
    Looked caller jobId scope db (.error (unknownJob caller scope)) := by
  refine ⟨fun _ hr => ?_, fun e hr => (Except.error.inj hr).symm⟩
  cases hr

theorem ownedJob_missing {scope message : String} (hscope : caller.hasScope scope = true) :
    NanoAural.ownedJob caller (.error (.notFound message)) scope
      = .error (.resourceNotFound "job not found") := by
  unfold NanoAural.ownedJob requireScope
  rw [hscope]
  rfl

theorem ownedJob_found {scope : String} {job : JobRecord} (hscope : caller.hasScope scope = true) :
    NanoAural.ownedJob caller (.ok job) scope
      = if caller.allowsNamespace job.namespaceId then .ok job
        else .error (.resourceNotFound "job not found") := by
  unfold NanoAural.ownedJob requireScope
  rw [hscope]
  show (raiseIf (!caller.allowsNamespace job.namespaceId)
    (ApplicationError.resourceNotFound "job not found") >>= fun _ => Except.ok job) = _
  cases caller.allowsNamespace job.namespaceId <;> rfl

/-- **A job that is not the caller's is not there** for the caller. -/
theorem looked (h : Legible db) {scope : String} (hscope : caller.hasScope scope = true) :
    Looked caller jobId scope db (NanoAural.ownedJob caller (getJob jobId db) scope) := by
  have hunknown : unknownJob caller scope = .resourceNotFound "job not found" := by
    rw [unknownJob, if_pos hscope]
  cases hj : db.jobs.find? jobId with
  | none =>
      have hget : getJob jobId db = .error (.notFound "job not found") := by
        unfold getJob
        rw [hj]
      rw [hget, ownedJob_missing hscope, ← hunknown]
      exact .of_unknown
  | some j =>
      obtain ⟨job, hget, _⟩ := getJob_legible h hj
      obtain ⟨_, j', hj', hns⟩ := getJob_row hget
      rw [hget, ownedJob_found hscope]
      split
      · rename_i hallowed
        refine ⟨fun job' hr => ?_, fun e hr => ?_⟩
        · obtain rfl := Except.ok.inj hr
          exact ⟨hget, j', hj', hns ▸ hallowed⟩
        · cases hr
      · rw [← hunknown]
        exact .of_unknown

section Requests

variable {payload : Uuid → Option Uuid → EventType → PyValue} {lower casefold : String → String}

/-- A request that is served from a database on, beside everything else that happens to it. -/
abbrev Serves (digest : CanonicalRequest → String) (json : JsonColumn) (caller : Caller)
    {ε α : Type} (φ : Db → Except ε α → Prop) (db : Db) (p : Serving ε Db α) : Prop :=
  Meets (repositorySystem digest json).Runs (Confined digest json caller) φ db p.run

/-- The artifacts that are visible are the job's. -/
theorem visible_serves {job : JobRecord} (howned : Owned caller job.jobId db) :
    Serves digest json caller (fun u r => Owned caller job.jobId u ∧ ∀ items, r = .ok items →
        ∀ item ∈ items, item.jobId = job.jobId ∧ item ∈ visibleWinner job.jobId none u) db
      (ApplicationService.visible (postgresApplication digest json payload) job) := by
  unfold ApplicationService.visible
  split
  · refine .answer ⟨howned, fun items hitems item hitem => ?_⟩
    rw [← Except.ok.inj hitems] at hitem
    cases hitem
  · refine serving_query_bind (fun _ => confined_same) fun u hu => .answer ⟨howned.later hu, ?_⟩
    intro items hitems item hitem
    obtain ⟨_, hlegal⟩ := raiseIf_bind_ok.mp hitems
    rw [← Except.ok.inj hlegal] at hitem
    obtain ⟨hmem, hmatch⟩ := List.mem_filter.mp hitem
    rw [Bool.and_eq_true, beq_iff_eq] at hmatch
    exact ⟨hmatch.1, hmem⟩

/-- The object that is opened is that of the artifact that was found, which is visible still. -/
theorem openReader_serves {artifact : VisibleArtifact} (howned : Owned caller artifact.jobId db)
    (hvisible : artifact ∈ visibleWinner artifact.jobId none db) :
    Serves digest json caller (fun u r => Owned caller artifact.jobId u ∧ ∀ storageKey,
        r = .ok storageKey → artifact ∈ visibleWinner artifact.jobId none u
          ∧ artifact.storageKey = storageKey) db
      (ApplicationService.openReader (postgresApplication digest json payload) artifact) := by
  refine serving_query_bind (fun _ => confined_same) fun u hu => ?_
  refine serving_conclude_bind (fun item hitem => .answer ⟨howned.later hu, ?_⟩) fun e _ =>
    ⟨howned.later hu, fun _ hr => ?_⟩
  · intro storageKey hkey
    obtain ⟨hmem, hmatch⟩ := List.mem_filter.mp (theOnly_mem hitem)
    simp only [Bool.and_eq_true, beq_iff_eq] at hmatch
    obtain rfl := visibleWinner_kept hu hvisible hmem hmatch.1.1.1
    exact ⟨hmem, Except.ok.inj hkey⟩
  · cases hr

/-- A job that is read back is there. -/
theorem readBack_serves :
    Serves digest json caller (fun u r => (repositorySystem digest json).Runs db u
      ∧ ∀ job, r = .ok job → getJob jobId u = .ok job) db (PostgresApplication.getJob jobId) :=
  serving_query_bind (fun _ => confined_same) fun _ hu => .answer ⟨hu, fun _ hr => hr⟩

variable (hjson : ∀ v, v.isMapping = true → (json.roundTrip v).isMapping = true)

include hjson

/-- A cancellation on its own. -/
theorem requestCancel_serves (h : (repositorySystem digest json).Reachable db)
    (howned : Owned caller jobId db) :
    Serves digest json caller
      (fun u r => Owned caller jobId u ∧ ∀ job, r = .ok job → getJob jobId u = .ok job) db
      (PostgresApplication.requestCancel jobId) := by
  have hcall : ∀ u,
      (repositorySystem digest json).Runs u (commit (requestCancelRows jobId) u).2 := by
    intro u
    rw [← requestJobCancel_commit]
    exact .single ⟨.requestCancel jobId, rfl⟩
  -- by the time of the transaction the job is still the caller's, and so it is after it
  have hlater : ∀ u, (repositorySystem digest json).Runs db u →
      Owned caller jobId (commit (requestCancelRows jobId) u).2 :=
    fun u hu => howned.later (hu.trans (hcall u))
  refine serving_transacted_bind (fun u _ hu => ⟨hcall u, ?_⟩) (fun u _ _ hu _ => ?_)
    fun u _ e hu _ => ⟨hlater u hu, fun _ hr => by cases hr⟩
  · rw [← requestJobCancel_commit]
    show Spares caller u (RepositoryCall.run digest json (.requestCancel jobId) u)
    exact spares_requestCancel (answerable_reachable hjson (h.runs hu)) (howned.later hu)
  · exact readBack_serves.weaken fun _ _ hr => ⟨(hlater u hu).later hr.1, hr.2⟩

/-- A submission on its own. -/
theorem createJob_serves (h : (repositorySystem digest json).Reachable db) {command : Submission}
    (hallowed : caller.allowsNamespace command.namespaceId = true) :
    Serves digest json caller (fun u r => ∀ job, r = .ok job → Submitted u command job) db
      (PostgresApplication.createJob digest json command) := by
  refine serving_conclude_bind (fun hash hadm => ?_) fun e _ job hr => by cases hr
  have hcall : ∀ u id, (createJob digest json id command u).2
      = (commit (createJobRows json id command hash) u).2 := fun _ _ => createJob_commit hadm
  refine serving_transacted_bind (fun u id hu => ?_) (fun u id made hu hmade => ?_)
    fun _ _ e _ _ job hr => by cases hr
  · rw [← hcall]
    refine ⟨.single ⟨.createJob id command, rfl⟩, ?_⟩
    show Spares caller u (RepositoryCall.run digest json (.createJob id command) u)
    exact spares_createJob (answerable_reachable hjson (h.runs hu)) hallowed
  · cases made with
    | none =>
        refine readBack_serves.weaken fun v _ hr job hjob => ?_
        -- the row that was inserted keeps what was submitted
        obtain ⟨j, hj, hs⟩ := (keepsJobs hr.1).jobs id _ (createJob_inserted hmade)
        simp only [JobRow.submitted, Prod.mk.injEq] at hs
        have hid : j.id = id := Table.key_of_find? hj
        exact ⟨j, hid.symm ▸ hj, hs.2.1, hs.2.2.1, hid.symm ▸ hr.2 job hjob⟩
    | some existing =>
        refine .answer fun job hr => ?_
        obtain rfl := Except.ok.inj hr
        obtain ⟨_, _, _, _, _, j, hj, hns, hkey, hget, _⟩ :=
          createJob_ok (Prod.ext (createJob_existing hadm hmade) (hcall u id))
        exact ⟨j, Table.find?_of_mem hj, hns, hkey, hget⟩

theorem ownedJob_serves (h : (repositorySystem digest json).Reachable db) (scope : String) :
    Serves digest json caller
      (fun t r => (repositorySystem digest json).Reachable t ∧ Looked caller jobId scope t r) db
      (ApplicationService.ownedJob (postgresApplication digest json payload) caller jobId scope) := by
  cases hscope : caller.hasScope scope with
  | false =>
      have hdenied : requireScope caller scope = .error (unknownJob caller scope) := by
        rw [requireScope, unknownJob, hscope]
        rfl
      unfold ApplicationService.ownedJob
      rw [hdenied]
      exact .answer ⟨h, .of_unknown⟩
  | true =>
      have hgranted : requireScope caller scope = .ok () := by
        rw [requireScope, hscope]
        rfl
      unfold ApplicationService.ownedJob
      rw [hgranted]
      refine serving_query_bind (fun _ => confined_same) fun t ht => .answer ?_
      have hreach := h.runs ht
      exact ⟨hreach, looked (answerable_reachable hjson hreach).legible hscope⟩

/-- A request on a job looks for it, and denies one that is not the caller's. -/
theorem serves_owned {α : Type} (h : (repositorySystem digest json).Reachable db) {scope : String}
    {shows : Db → α → Prop} {rest : JobRecord → Serving ApplicationError Db α}
    (hrest : ∀ t job, (repositorySystem digest json).Reachable t → getJob jobId t = .ok job →
      Owned caller jobId t → Serves digest json caller
        (fun u r => Fair (Owned caller jobId u) (unknownJob caller scope) (shows u) r) t (rest job)) :
    Serves digest json caller
      (fun u r => Fair (Owned caller jobId u) (unknownJob caller scope) (shows u) r) db
      (ApplicationService.ownedJob (postgresApplication digest json payload) caller jobId scope
        >>= rest) := by
  refine serving_bind (ownedJob_serves hjson h scope) (fun t job ht => ?_) fun t e ht => ?_
  · obtain ⟨hget, howned⟩ := ht.2.found job rfl
    exact hrest t job ht.1 hget howned
  · rw [ht.2.missed e rfl]
    exact .of_denial

theorem getJob_serves (h : (repositorySystem digest json).Reachable db) :
    Serves digest json caller
      (fun u r => Fair (Owned caller jobId u) (unknownJob caller "jobs:read")
        (fun view => ∃ job, getJob jobId u = .ok job ∧ view = JobView.fromRecord job) r) db
      (ApplicationService.getJob (postgresApplication digest json payload) caller jobId) :=
  serves_owned hjson h fun _ job _ hget howned => .answer (.of_ok howned ⟨job, hget, rfl⟩)

theorem cancel_serves (h : (repositorySystem digest json).Reachable db) :
    Serves digest json caller
      (fun u r => Fair (Owned caller jobId u) (unknownJob caller "jobs:cancel")
        (fun view => ∃ job, getJob jobId u = .ok job ∧ view = JobView.fromRecord job) r) db
      (ApplicationService.cancel (postgresApplication digest json payload) caller jobId) := by
  refine serves_owned hjson h fun t job ht hget howned => ?_
  have hid : job.jobId = jobId := (getJob_row hget).1
  subst hid
  refine serving_invoke_bind (requestCancel_serves hjson ht howned) (fun u updated hu => ?_)
    fun u e hu => .of_error hu.1
  exact serving_conclude_bind (fun _ _ => .answer (.of_ok hu.1 ⟨updated, hu.2 updated rfl, rfl⟩))
    fun e _ => .of_error hu.1

theorem submit_serves (h : (repositorySystem digest json).Reachable db) (command : Submission) :
    Serves digest json caller
      (fun u r => Fair (caller.allowsNamespace command.namespaceId = true)
        (unknownNamespace caller)
        (fun view => ∃ job, Submitted u command job ∧ view = JobView.fromRecord job) r) db
      (ApplicationService.submit (postgresApplication digest json payload) lower caller command) := by
  unfold ApplicationService.submit unknownNamespace requireScope
  cases hscope : caller.hasScope "jobs:submit" with
  | false => exact .answer .of_denial
  | true =>
      refine serving_conclude_bind (fun _ _ => ?_) fun e he => by cases he
      cases hallowed : caller.allowsNamespace command.namespaceId with
      | false => exact .answer .of_denial
      | true =>
          refine serving_conclude_bind (fun _ _ => ?_) fun e he => by cases he
          refine serving_conclude_bind (fun _ _ => ?_) fun e _ => .of_error rfl
          refine serving_invoke_bind (createJob_serves hjson h hallowed) (fun t job ht => ?_)
            fun t e _ => .of_error rfl
          exact serving_conclude_bind (fun _ _ => .answer (.of_ok rfl ⟨job, ht job rfl, rfl⟩))
            fun e _ => .of_error rfl

theorem events_serves (h : (repositorySystem digest json).Reachable db) (cursor : Option String)
    (limit : Int) :
    Serves digest json caller
      (fun u r => Fair (Owned caller jobId u)
        (deniedPage caller (ApplicationService.checkPage cursor limit))
        (fun page => ∀ e ∈ page.events, ∃ row ∈ u.events.rows,
          row.jobId = jobId ∧ row.view payload casefold = some e) r) db
      (ApplicationService.events (postgresApplication digest json payload) casefold caller jobId
        cursor limit) := by
  unfold ApplicationService.events
  cases hcheck : ApplicationService.checkPage cursor limit with
  | error e => exact .answer .of_denial
  | ok _ =>
      refine serving_conclude_bind (fun _ _ => ?_) fun e he => by cases he
      refine serves_owned hjson h fun t job ht hget howned => ?_
      have hid : job.jobId = jobId := (getJob_row hget).1
      subst hid
      refine serving_query_bind (fun _ => confined_same) fun u hu => .answer ?_
      refine .of_entitled (howned.later hu) fun page hpage e he => ?_
      -- a view leads back to the record that was listed, and that to a row of the table
      obtain ⟨records, hlisted, hfrom⟩ := eventPage_from hpage
      obtain ⟨record, hrecord, rfl⟩ := hfrom e he
      obtain ⟨r, hr, hjob, hrid⟩ := listEvents_from hlisted record hrecord
      obtain ⟨row, hrow, hlogged⟩ := List.mem_filterMap.mp hr
      refine ⟨row, hrow, ?_, ?_⟩
      · rw [← hjob, logged_jobId hlogged]
      · rw [EventRow.view, hlogged, Option.bind_some, hrid, Option.map_some]

theorem artifacts_serves (h : (repositorySystem digest json).Reachable db) :
    Serves digest json caller
      (fun u r => Fair (Owned caller jobId u) (unknownJob caller "artifacts:read")
        (fun views => ∀ view ∈ views, ∃ item ∈ visibleWinner jobId none u, item.jobId = jobId
          ∧ view = ArtifactView.fromVisible item) r) db
      (ApplicationService.artifacts (postgresApplication digest json payload) caller jobId) := by
  refine serves_owned hjson h fun t job ht hget howned => ?_
  have hid : job.jobId = jobId := (getJob_row hget).1
  subst hid
  refine serving_bind (visible_serves howned) (fun u items hu => ?_) fun u e hu =>
    .of_error hu.1
  refine .answer (.of_ok hu.1 fun view hview => ?_)
  obtain ⟨item, hitem, rfl⟩ := List.mem_map.mp hview
  obtain ⟨hjob, hmem⟩ := hu.2 items rfl item hitem
  exact ⟨item, hmem, hjob, rfl⟩

theorem download_serves (h : (repositorySystem digest json).Reachable db) (artifactId : Uuid) :
    Serves digest json caller
      (fun u r => Fair (Owned caller jobId u) (unknownJob caller "artifacts:read")
        (fun found => ∃ item ∈ visibleWinner jobId none u, item.artifactId = artifactId
          ∧ found.1 = ArtifactView.fromVisible item ∧ found.2 = item.storageKey) r) db
      (ApplicationService.download (postgresApplication digest json payload) caller jobId
        artifactId) := by
  refine serves_owned hjson h fun t job ht hget howned => ?_
  have hid : job.jobId = jobId := (getJob_row hget).1
  subst hid
  refine serving_bind (visible_serves howned) (fun u items hu => ?_) fun u e hu =>
    .of_error hu.1
  refine serving_conclude_bind (fun artifact hartifact => ?_) fun e _ => .of_error hu.1
  -- the artifact was visible when it was looked for; it is looked for again when it is opened
  obtain ⟨hitem, hnamed⟩ := List.mem_filter.mp (theOnly_mem hartifact)
  obtain ⟨hjob, hvisible⟩ := hu.2 items rfl artifact hitem
  have hnamed : artifact.artifactId = artifactId := beq_iff_eq.mp hnamed
  subst hnamed
  rw [← hjob] at hu hvisible
  refine serving_bind (openReader_serves hu.1 hvisible) (fun v storageKey hv => ?_) fun v e hv =>
    .of_error (hjob ▸ hv.1)
  obtain ⟨hmem, hkey⟩ := hv.2 storageKey rfl
  exact .answer (.of_ok (hjob ▸ hv.1) ⟨artifact, hjob ▸ hmem, rfl, rfl, hkey.symm⟩)

/-- **Every request is fair**, and keeps to the caller's namespaces. -/
theorem request_serves (h : (repositorySystem digest json).Reachable db) (request : ApiRequest) :
    Meets (repositorySystem digest json).Runs (Confined digest json caller)
      (fun u r => Fair (request.Entitled caller u) (request.denial caller)
        (request.Shows payload casefold u) r)
      db (handleRequest digest json payload lower casefold caller request) := by
  cases request with
  | submit command =>
      exact serving_map ((submit_serves hjson h command).weaken fun _ _ hx => hx.map fun _ ha => ha)
  | getJob jobId =>
      exact serving_map ((getJob_serves hjson h).weaken fun _ _ hx => hx.map fun _ ha => ha)
  | cancel jobId =>
      exact serving_map ((cancel_serves hjson h).weaken fun _ _ hx => hx.map fun _ ha => ha)
  | events jobId cursor limit =>
      exact serving_map ((events_serves hjson h cursor limit).weaken fun _ _ hx =>
        hx.map fun _ ha => ha)
  | artifacts jobId =>
      exact serving_map ((artifacts_serves hjson h).weaken fun _ _ hx => hx.map fun _ ha => ha)
  | download jobId artifactId =>
      exact serving_map ((download_serves hjson h artifactId).weaken fun _ _ hx =>
        hx.map fun _ ha => ha)

end Requests

/--
**Callers keep to their namespaces.**

In every run of the application service, with any number of callers, requests in service at once and
calls of the repository, the queue and the ledger between the transactions of one request:

* A request that names a job of another namespace when it is answered, or no job at all, is denied,
  and which of the two it is cannot be told from the denial.
* Every answer that is no error shows what is in the database at that moment, of the job that was
  named: its record, its events as they may leave the system, its winner's artifacts.
* Whatever a request does next leaves the jobs of other namespaces alone, with their inputs, their
  attempts and their events, and adds none.
-/
theorem namespace_safety {ι : Type} [DecidableEq ι] (digest : CanonicalRequest → String)
    (json : JsonColumn) (payload : Uuid → Option Uuid → EventType → PyValue)
    (lower casefold : String → String) (callers : ι → Caller)
    (hjson : ∀ v, v.isMapping = true → (json.roundTrip v).isMapping = true)
    (desk : Desk ι Uuid Db ApiRequest (Except ApplicationError ApiAnswer))
    (h : (applicationSystem digest json payload lower casefold callers).Reachable desk) :
    (∀ x ∈ desk.answered,
      (¬ x.request.Entitled (callers x.asker) x.state →
        x.answer = .error (x.request.denial (callers x.asker)))
      ∧ ∀ a, x.answer = .ok a → x.request.Shows payload casefold x.state a)
    ∧ ∀ i request change next, desk.pending i = some (request, .transact change next) →
      ∀ drawn, Spares (callers i) desk.state (change drawn desk.state) := by
  obtain ⟨_, hg⟩ := server_guarded (fun _ _ _ => Relation.ReflTransGen.trans)
    (fun _ => Relation.ReflTransGen.refl) (fun i _ _ hc => hc.1)
    (fun _ hinit => System.Reachable.of_init hinit) (fun _ _ hr hreach => hreach.runs hr)
    (fun i request _ hreach => request_serves hjson hreach request) h
  refine ⟨fun x hx => ?_, fun i request change next hp drawn => ?_⟩
  · have hfair := hg.answered x hx
    exact ⟨hfair.denied, hfair.shown⟩
  · exact (hg.proceeds (fun _ => .refl) hp drawn).2

/-- A caller of no namespace, and one of all. -/
def strangerAndOwner (owner : Bool) : Caller := ⟨fun _ => true, fun _ => owner⟩

/-- The owner cancels a job and the stranger reads it: the stranger has been answered, and the owner's
request has found the job. -/
def servedDesk : Desk Bool Uuid Db ApiRequest (Except ApplicationError ApiAnswer) :=
  let handle := fun owner => handleRequest emptySubmissionHash .plain (fun _ _ _ => .null) id id
    (strangerAndOwner owner)
  let desk := (Desk.put ⟨runningJob, fun _ => none, []⟩ true (.cancel 6)
    (handle true (.cancel 6))).put false (.getJob 6) (handle false (.getJob 6))
  (desk.proceed true 0).proceed false 0

theorem servedDesk_reachable : (applicationSystem emptySubmissionHash .plain (fun _ _ _ => .null) id id
    strangerAndOwner).Reachable servedDesk := by
  obtain ⟨_, hinit, hruns⟩ := runningJob_reachable
  have h : (applicationSystem emptySubmissionHash .plain (fun _ _ _ => .null) id id
      strangerAndOwner).Reachable ⟨_, fun _ => none, []⟩ :=
    System.Reachable.of_init ⟨hinit, fun _ => rfl, rfl⟩
  exact ((((h.step (.other _ hruns)).step (.ask true (ApiRequest.cancel 6))).step
    (.ask false (ApiRequest.getJob 6))).step (.proceed true 0)).step (.proceed false 0)

theorem namespace_safety_stranger :
    servedDesk.answered.map (fun x => (x.asker, x.answer.toOption.isSome)) = [(false, false)]
      ∧ (servedDesk.pending true).isSome = true
      ∧ (∀ x ∈ servedDesk.answered,
        (¬ x.request.Entitled (strangerAndOwner x.asker) x.state →
          x.answer = .error (x.request.denial (strangerAndOwner x.asker)))
        ∧ ∀ a, x.answer = .ok a → x.request.Shows (fun _ _ _ => .null) id x.state a)
      ∧ ∀ i request change next, servedDesk.pending i = some (request, .transact change next) →
        ∀ drawn, Spares (strangerAndOwner i) servedDesk.state (change drawn servedDesk.state) :=
  ⟨by decide +kernel, by decide +kernel, namespace_safety emptySubmissionHash .plain
    (fun _ _ _ => .null) id id strangerAndOwner (fun _ h => h) servedDesk servedDesk_reachable⟩

end NanoAural
