import NanoAural.Proof.LedgerTriggers

/-!
# What a call does to the database

Twenty statements in a dozen methods come down to nine effects. `Effect` lists
them with everything each one guarantees, its guards included, and
`Call.effects` shows that whatever a call commits is a sequence of them. Every
invariant of the system is proved against `Effect` and never opens a method.
-/

namespace NanoAural

open Relational

/-! ## Transactions -/

theorem commit_ok {α : Type} {body : Sql α} {db db' : Db} {a : α}
    (h : commit body db = (.ok a, db')) :
    ∃ s, body ⟨db, []⟩ = .ok (a, s) ∧ (∀ d ∈ s.deferred, d.verify s.db = .ok ()) ∧ db' = s.db := by
  rcases transaction_cases Deferred.verify body db with ⟨a', s, hb, hv, ht⟩ | ⟨e, ht⟩
  · rw [commit, ht] at h
    injection h with h₁ h₂
    injection h₁ with h₁
    subst h₁
    exact ⟨s, hb, hv, h₂.symm⟩
  · rw [commit, ht] at h
    injection h with h₁ _
    exact absurd h₁ (by simp)

/-- **A method that raises inside its transaction changes nothing.** -/
theorem commit_error {α : Type} {body : Sql α} {db db' : Db} {e : Error}
    (h : commit body db = (.error e, db')) : db' = db := by
  rcases transaction_cases Deferred.verify body db with ⟨a', s, _, _, ht⟩ | ⟨e', ht⟩
  · rw [commit, ht] at h
    injection h with h₁ _
    exact absurd h₁ (by simp)
  · rw [commit, ht] at h
    injection h with _ h₂
    exact h₂.symm

/-! ## Single statements -/

section Statements

variable {s s' : Session Db Deferred} {n : Nat}

/-- An `UPDATE` whose row exists and matches writes it. -/
theorem update_hit {ρ κ : Type} [Schema ρ κ] {T : Target ρ} {id : κ} {cond : ρ → Bool}
    {set : ρ → ρ} {old : ρ} (h : update T id cond set s = .ok (n, s'))
    (hf : (T.table s.db).find? id = some old) (hc : cond old = true) :
    ∃ new t, T.beforeUpdate s.db old (set old) = .ok new ∧ (T.table s.db).put? new = some t
      ∧ n = 1 ∧ s' = ⟨T.store s.db t, s.deferred ++ T.deferred new⟩ := by
  rcases update_ok h with ⟨_, _, hno⟩ | ⟨old', new, t, hf', _, hb, ht, hn, hs⟩
  · rw [hno old hf] at hc
    exact absurd hc (by simp)
  · rw [hf] at hf'
    injection hf' with hf'
    subst hf'
    exact ⟨new, t, hb, ht, hn, hs⟩

theorem update_job {id : Uuid} {cond : JobRow → Bool} {set : JobRow → JobRow} {old : JobRow}
    (h : update jobsTable id cond set s = .ok (n, s')) (hf : s.db.jobs.find? id = some old)
    (hc : cond old = true) :
    ∃ t, s.db.jobs.put? (set old) = some t
      ∧ (∀ g ∈ jobUpdateGuards s.db old (set old), g.1 = false) ∧ n = 1
      ∧ s' = ⟨{ s.db with jobs := t }, s.deferred ++ jobsTable.deferred (set old)⟩ := by
  obtain ⟨new, t, hb, ht, hn, hs⟩ := update_hit h hf hc
  obtain ⟨hg, rfl⟩ := guarded_ok.mp hb
  exact ⟨t, ht, hg, hn, hs⟩

theorem update_attempt {id : Uuid} {cond : AttemptRow → Bool} {set : AttemptRow → AttemptRow}
    {old : AttemptRow} (h : update attemptsTable id cond set s = .ok (n, s'))
    (hf : s.db.attempts.find? id = some old) (hc : cond old = true) :
    ∃ t, s.db.attempts.put? (set old) = some t
      ∧ (∀ g ∈ attemptUpdateGuards s.db old (set old), g.1 = false) ∧ n = 1
      ∧ s' = ⟨{ s.db with attempts := t }, s.deferred ++ attemptsTable.deferred (set old)⟩ := by
  obtain ⟨new, t, hb, ht, hn, hs⟩ := update_hit h hf hc
  obtain ⟨hg, rfl⟩ := guarded_ok.mp hb
  exact ⟨t, ht, hg, hn, hs⟩

theorem update_worker {id : Uuid} {cond : WorkerRow → Bool} {set : WorkerRow → WorkerRow}
    {old : WorkerRow} (h : update workersTable id cond set s = .ok (n, s'))
    (hf : s.db.workers.find? id = some old) (hc : cond old = true) :
    ∃ t, s.db.workers.put? (set old) = some t ∧ n = 1
      ∧ s' = ⟨{ s.db with workers := t }, s.deferred⟩ := by
  obtain ⟨new, t, hb, ht, hn, hs⟩ := update_hit h hf hc
  obtain ⟨_, rfl⟩ := guarded_ok.mp hb
  exact ⟨t, ht, hn, by rw [hs]; simp [workersTable]⟩

theorem insert_attempt {row : AttemptRow} {u : Unit}
    (h : insert attemptsTable row s = .ok (u, s')) :
    ∃ t, s.db.attempts.insert? row = some t
      ∧ (∀ g ∈ attemptInsertGuards s.db row, g.1 = false)
      ∧ s' = ⟨{ s.db with attempts := t }, s.deferred ++ attemptsTable.deferred row⟩ := by
  obtain ⟨new, t, hb, ht, hs⟩ := insert_ok h
  obtain ⟨hg, rfl⟩ := guarded_ok.mp hb
  exact ⟨t, ht, hg, hs⟩

theorem insert_artifact {row : ArtifactRow} {u : Unit}
    (h : insert artifactsTable row s = .ok (u, s')) :
    ∃ t, s.db.artifacts.insert? row = some t
      ∧ (∀ g ∈ artifactInsertGuards s.db row, g.1 = false)
      ∧ s' = ⟨{ s.db with artifacts := t }, s.deferred ++ artifactsTable.deferred row⟩ := by
  obtain ⟨new, t, hb, ht, hs⟩ := insert_ok h
  obtain ⟨hg, rfl⟩ := guarded_ok.mp hb
  exact ⟨t, ht, hg, hs⟩

theorem event_ok {jobId : Uuid} {attemptId : Option Uuid} {eventType : EventType} {u : Unit}
    (h : event jobId attemptId eventType s = .ok (u, s')) :
    ∃ t, s.db.events.insert? ⟨nextEventId s.db, jobId, attemptId, eventType⟩ = some t
      ∧ s' = ⟨{ s.db with events := t }, s.deferred ++ optionalReference jobId attemptId⟩ := by
  unfold event at h
  rw [select_bind] at h
  obtain ⟨new, t, hb, ht, hs⟩ := insert_ok h
  obtain ⟨_, rfl⟩ := guarded_ok.mp hb
  exact ⟨t, ht, hs⟩

end Statements

/-! ## The effects -/

/-- One change of one publication row by a worker or a sweeper, other than its finalization. -/
inductive LedgerStep (json : JsonColumn) (db : Db) (p : PublicationRow) : PublicationRow → Prop where
  | recordObject (sha256 : String) (size : Nat) (hs : p.state = .reserved)
      (hc : Current db p.lease) : LedgerStep json db p (p.recordObject p.key sha256 size db.clock)
  | recordValidated (blobId : Uuid) (contentType : String) (metadata : PyValue)
      (hs : p.state = .objectWritten) (hc : Current db p.lease)
      (hb : validatedBlob db (p.recordValidated blobId contentType (json.roundTrip metadata)
        db.clock) = true) :
      LedgerStep json db p
        (p.recordValidated blobId contentType (json.roundTrip metadata) db.clock)
  | reject (reason : String) (hs : p.state.terminal = false) (hc : Current db p.lease) :
      LedgerStep json db p (p.terminalize .rejected reason db.clock)
  | startGrace (hs : p.state.terminal = false) (hstale : p.staleSince = none)
      (hc : ¬ Current db p.lease) : LedgerStep json db p (p.startGrace db.clock)
  | abandon (since : Time) (reason : String) (hs : p.state.terminal = false)
      (hstale : p.staleSince = some since) (hc : ¬ Current db p.lease)
      (hg : since + staleGrace ≤ db.clock) :
      LedgerStep json db p (p.terminalize .abandoned reason db.clock)
  | recordCleanup (hs : p.state.terminal = true) (hdel : p.attemptObjectDeletedAt = none) :
      LedgerStep json db p (p.recordCleanup db.clock)

/-- The artifacts a finalization adds for its publications. -/
def artifactsOf (json : JsonColumn) (artifactId : Uuid → Uuid) (lease : Lease)
    (items : List PublicationRow) : List ArtifactRow :=
  items.map fun p => artifactOf json (artifactId p.id) lease (p.canonicalBlobId.getD 0) p

/-- The ledger with the given publications finalized. -/
def finalizedRows (now : Time) (items rows : List PublicationRow) : List PublicationRow :=
  rows.map fun p => if p.id ∈ items.map PublicationRow.id then p.finalize now else p

/-- What `finalize` asks of the publications it makes visible. -/
structure Winning (db : Db) (lease : Lease) (required : List ArtifactKind)
    (items : List PublicationRow) : Prop where
  rows : ∀ p ∈ items, p ∈ db.publications.rows
  nodup : (items.map PublicationRow.id).Nodup
  owned : ∀ p ∈ items, p.ownedBy lease = true
  validated : ∀ p ∈ items, p.state = .validated
  blob : ∀ p ∈ items, validatedBlob db p = true
  kinds : ∀ kind, kind ∈ items.map PublicationRow.kind ↔ kind ∈ required

/-- **The nine things a committed statement sequence can do.** `allowed` restricts the retry
budgets callers pass. -/
inductive Effect (json : JsonColumn) (allowed : Int → Prop) : Db → Db → Prop where
  | tick {db : Db} (now : Time) (h : db.clock ≤ now) :
      Effect json allowed db { db with clock := now }
  /-- A ready worker takes a queued job of its deployment. -/
  | claim {db : Db} {w : WorkerRow} {j : JobRow} {attemptId : Uuid} {expiry : Time}
      {ta : Table AttemptRow} {tj : Table JobRow} {tw : Table WorkerRow} {te : Table EventRow}
      (hw : db.workers.find? w.id = some w) (hready : w.state = .ready)
      (hj : db.jobs.find? j.id = some j)
      (hjob : claimable db w.modelDeploymentId j = true)
      (ha : db.attempts.insert? (issuedAttempt attemptId j.id w.id (nextAttemptNo db j.id)
        (j.leaseEpoch + 1) db.clock expiry) = some ta)
      (htj : db.jobs.put? (j.start attemptId (j.leaseEpoch + 1) db.clock) = some tj)
      (htw : db.workers.put? (w.engage db.clock) = some tw)
      (hte : db.events.insert? ⟨nextEventId db, j.id, some attemptId, .attemptStarted⟩ = some te) :
      Effect json allowed db { db with attempts := ta, jobs := tj, workers := tw, events := te }
  /-- A current lease is extended. -/
  | renew {db : Db} {lease : Lease} {a : AttemptRow} {j : JobRow} {w : WorkerRow} {expiry : Time}
      {ta : Table AttemptRow} {tw : Table WorkerRow} (hh : Holds db lease a j w)
      (hu : unexpired db a = true) (hc : j.cancelRequestedAt = none)
      (hta : db.attempts.put? (a.renew db.clock expiry) = some ta)
      (htw : db.workers.put? (w.beat db.clock) = some tw) :
      Effect json allowed db { db with attempts := ta, workers := tw }
  | requestCancel {db : Db} {j : JobRow} {tj : Table JobRow} {te : Table EventRow}
      (hj : db.jobs.find? j.id = some j) (hs : j.state = .queued ∨ j.state = .running)
      (hc : j.cancelRequestedAt = none)
      (htj : db.jobs.put? (j.requestCancel db.clock) = some tj)
      (hte : db.events.insert? ⟨nextEventId db, j.id, j.currentAttemptId, .cancelRequested⟩
        = some te) :
      Effect json allowed db { db with jobs := tj, events := te }
  /-- A held lease ends without success: its attempt becomes terminal, its worker ready. -/
  | close {db : Db} {lease : Lease} {a : AttemptRow} {j : JobRow} {w : WorkerRow}
      {maxAttempts : Int} {notBefore : Time} {reason : String} {ta : Table AttemptRow}
      {tj : Table JobRow} {tw : Table WorkerRow} {te : Table EventRow}
      (hh : Holds db lease a j w) (hm : j.cancelRequestedAt = none → allowed maxAttempts)
      (hta : db.attempts.put? (a.finish (closingState j.cancelRequestedAt.isSome a.attemptNo
        maxAttempts) db.clock reason) = some ta)
      (htj : db.jobs.put? (j.leave (closingState j.cancelRequestedAt.isSome a.attemptNo
        maxAttempts) notBefore db.clock) = some tj)
      (htw : db.workers.put? w.release = some tw)
      (hte : db.events.insert? ⟨nextEventId db, lease.jobId, some lease.attemptId,
        closingEvent (closingState j.cancelRequestedAt.isSome a.attemptNo maxAttempts)⟩
          = some te) :
      Effect json allowed db { db with attempts := ta, jobs := tj, workers := tw, events := te }
  | reserve {db : Db} {publicationId : Uuid} {lease : Lease} {spec : PublicationSpec}
      {tp : Table PublicationRow} (hc : Current db lease)
      (htp : db.publications.insert? (reservedRow json publicationId lease spec db.clock)
        = some tp) :
      Effect json allowed db { db with publications := tp }
  | ledger {db : Db} {p p' : PublicationRow} {tp : Table PublicationRow}
      (hp : db.publications.find? p.id = some p) (hs : LedgerStep json db p p')
      (htp : db.publications.put? p' = some tp) :
      Effect json allowed db { db with publications := tp }
  | blob {db : Db} {b : BlobRow} {tb : Table BlobRow} (hb : b.state = .verified)
      (htb : db.blobs.insert? b = some tb) : Effect json allowed db { db with blobs := tb }
  /-- A current lease's publications become visible and its job succeeds. -/
  | win {db : Db} {lease : Lease} {a : AttemptRow} {j : JobRow} {w : WorkerRow}
      {items : List PublicationRow} {artifactId : Uuid → Uuid} {tp : Table PublicationRow}
      {tr : Table ArtifactRow} {ta : Table AttemptRow} {tj : Table JobRow} {tw : Table WorkerRow}
      {te : Table EventRow} (hh : Holds db lease a j w) (hu : unexpired db a = true)
      (hc : j.cancelRequestedAt = none)
      (hitems : Winning db lease j.requiredArtifactKinds items)
      (htp : tp.rows = finalizedRows db.clock items db.publications.rows)
      (htr : tr.rows = db.artifacts.rows ++ artifactsOf json artifactId lease items)
      (hta : db.attempts.put? (a.succeed db.clock) = some ta)
      (htj : db.jobs.put? (j.succeed lease.attemptId db.clock) = some tj)
      (htw : db.workers.put? w.release = some tw)
      (hte : db.events.insert? ⟨nextEventId db, lease.jobId, some lease.attemptId, .jobSucceeded⟩
        = some te) :
      Effect json allowed db { db with publications := tp, artifacts := tr, attempts := ta,
                                       jobs := tj, workers := tw, events := te }

end NanoAural
