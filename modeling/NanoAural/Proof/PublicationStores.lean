import NanoAural.Durable.PublicationService
import NanoAural.Proof.Winner

/-!
# What the stores owe to the ledger

The ledger is one transaction wide, the stores are none: between two steps of a
publisher a sweeper may delete what the publisher is about to record.

What the stores owe to one row is `RowOk`; it speaks of no other row, so a call
is judged by the one row it rewrites. What a step does to the rest is `Keeps`,
and what a party holds where it stands is stable under it.
-/

namespace NanoAural

open Relational Machine

/-! ## The queue -/

/-- The queue's methods leave the ledger alone. -/
theorem Call.isQueue_publications (json : JsonColumn) {c : Call} (h : c.isQueue = true) (db : Db) :
    (c.run json db).2.publications = db.publications := by
  -- a call that raises was rolled back, so only what it commits is looked at
  have keep : ∀ {α : Type} {x : Except Error α × Db},
      (∀ e db', x = (.error e, db') → db' = db) →
      (∀ a db', x = (.ok a, db') → db'.publications = db.publications) →
      (outcome x).2.publications = db.publications := by
    intro α x herr hok
    obtain ⟨r, db'⟩ := x
    cases r with
    | error e => exact congrArg Db.publications (herr e db' rfl)
    | ok a => exact hok a db' rfl
  cases c with
  | tick now => rfl
  | claimNext held attemptId workerId secs =>
      refine keep (fun e db' h => commit_error h) fun r db' h => ?_
      rcases claimNext_rows h with ⟨_, rfl⟩ | ⟨_, _, _, _, _, _, _, _, _, _, _, _, _, _, _, _, rfl⟩
      · rfl
      · rfl
  | assertCurrent lease =>
      exact keep (fun e db' h => commit_error h) fun r db' h =>
        congrArg Db.publications (assertCurrent_ok h).2
  | cancellationRequested lease =>
      exact keep (fun e db' h => commit_error h) fun r db' h =>
        congrArg Db.publications (cancellationRequested_ok h).1
  | loadReadyDeployment held lease =>
      exact keep (fun e db' h => commit_error h) fun r db' h =>
        congrArg Db.publications (loadReadyDeployment_ok h).2
  | loadVerifiedInputEvidence held lease =>
      exact keep (fun e db' h => commit_error h) fun r db' h =>
        congrArg Db.publications (loadVerifiedInputEvidence_ok h).2
  | heartbeat lease secs =>
      refine keep (fun e db' h => commit_error h) fun r db' h => ?_
      obtain ⟨_, _, _, _, _, _, _, _, _, _, _, rfl⟩ := heartbeat_rows h
      rfl
  | requestCancel jobId =>
      refine keep (fun e db' h => commit_error h) fun r db' h => ?_
      rcases requestCancel_rows h with ⟨_, rfl, _⟩ | ⟨_, _, _, _, _, _, _, _, _, _, rfl⟩
      · rfl
      · rfl
  | cancelCurrent held lease =>
      refine keep (fun e db' h => commit_error h) fun r db' h => ?_
      obtain ⟨s, hb, _, rfl⟩ := commit_ok h
      exact finishLease_publications hb
  | failRetryable held lease delay maxAttempts =>
      refine keep (fun e db' h => commit_error h) fun r db' h => ?_
      obtain ⟨s, hb, _, rfl⟩ := commit_ok h
      simp only [Tx.lift_bind] at hb
      obtain ⟨_, _, _, _, hb⟩ := hb
      exact finishLease_publications hb
  | reapExpired held limit delay maxAttempts =>
      refine keep (fun e db' h => commit_error h) fun r db' h => ?_
      obtain ⟨_, hp⟩ : Relation.ReflTransGen (Effect json fun _ => True) db db' ∧ _ :=
        reapExpired_ok trivial h
      exact hp
  -- the calls of the ledger are no calls of the queue
  | reserve | recordObject | recordValidated | reject | abandon | recordCleanup | finalize =>
      cases h

/-! ## Rows of the ledger -/

/-- A change keeps the key of the attempt object. -/
theorem KeepsEvidence.objectKey {p p' : PublicationRow} (h : KeepsEvidence p p') : p'.key = p.key := by
  obtain ⟨hid, hjob, hattempt, _, hepoch, hkind, _⟩ := sameIdentity_iff.mp h.identity
  simp only [PublicationRow.key, hid, hjob, hattempt, hepoch, hkind]

theorem KeepsEvidence.lease {p p' : PublicationRow} (h : KeepsEvidence p p') : p'.lease = p.lease := by
  obtain ⟨_, hjob, hattempt, hworker, hepoch, _⟩ := sameIdentity_iff.mp h.identity
  simp only [PublicationRow.lease, hjob, hattempt, hworker, hepoch]

/-- Rows are told apart by the keys of their attempt objects. -/
theorem eq_of_objectKey {db : Db} {p q : PublicationRow} (hp : p ∈ db.publications.rows)
    (hq : q ∈ db.publications.rows) (h : p.key = q.key) : p = q :=
  Table.eq_of_key hp hq (congrArg AttemptKey.publicationId h)

theorem LedgerChange.terminal {db : Db} {p p' : PublicationRow} (h : LedgerChange db p p')
    (ht : p.state.terminal = true) : p'.state.terminal = true := by
  obtain ⟨_, rfl⟩ := h.cleanup ht
  exact ht

/-- What a rewrite leaves are the new row and the other rows. -/
theorem RowRewrite.mem {db db' : Db} {p r x : PublicationRow} (h : RowRewrite db db' p r)
    (hx : x ∈ db'.publications.rows) : x = r ∨ x ∈ db.publications.rows := by
  rcases (Table.mem_put? h.table).mp hx with ⟨hold, _⟩ | ⟨rfl, _⟩
  · exact Or.inr hold
  · exact Or.inl rfl

theorem RowRewrite.mem_old {db db' : Db} {p r : PublicationRow} (h : RowRewrite db db' p r) :
    p ∈ db.publications.rows := Table.mem_of_find? h.found

theorem RowRewrite.mem_new {db db' : Db} {p r : PublicationRow} (h : RowRewrite db db' p r) :
    r ∈ db'.publications.rows :=
  (Table.mem_put? h.table).mpr (Or.inr ⟨rfl, p, (congrArg _ h.id).trans h.found⟩)

/-- The row of the recorded key of an attempt object has left its first state. -/
theorem PublicationRow.recorded_key {p : PublicationRow} {key : AttemptKey} (hc : p.check = true)
    (h : p.attemptObjectKey = some key) : p.key = key ∧ p.state ≠ .reserved := by
  simp only [PublicationRow.check, Bool.and_eq_true] at hc
  obtain ⟨⟨_, hkey⟩, hshape⟩ := hc
  rw [h, Option.all_some, beq_iff_eq] at hkey
  refine ⟨hkey.symm, ?_⟩
  intro hs
  rw [PublicationRow.shape, hs, h] at hshape
  simp at hshape

/-- A lease the query says is gone is not current. -/
theorem not_current_of_leaseIsGone {db : Db} {p : PublicationRow} (h : leaseIsGone db p = true) :
    ¬ Current db p.lease := by
  rintro ⟨a, j, w, hh, _⟩
  have ha : db.attempts.find? p.attemptId = some a := hh.attempt
  have hj : db.jobs.find? p.jobId = some j := hh.job
  have hcur : j.currentAttemptId = some p.attemptId := by
    rw [hh.current, hh.attemptId]
    rfl
  have hepoch : a.leaseEpoch = p.leaseEpoch := hh.ofEpoch
  simp only [leaseIsGone, hj, ha, Option.any_some, Option.bind_some, Bool.or_eq_true, bne_iff_ne,
    ne_eq, hh.running, hh.active, hcur, hepoch, not_true_eq_false, or_self] at h

/-! ### Reads -/

theorem getPublication_ok {id : Uuid} {db db' : Db} {p : PublicationRow}
    (h : getPublication id db = (.ok p, db')) : p ∈ db.publications.rows ∧ p.id = id ∧ db' = db := by
  obtain ⟨s, hb, _, rfl⟩ := commit_ok h
  obtain ⟨hf, rfl⟩ := selectRecord_ok.mp hb
  exact ⟨Table.mem_of_find? hf, Table.key_of_find? hf, rfl⟩

/-- A read leaves the database, and so does one that raises. -/
theorem getPublication_snd (id : Uuid) (db : Db) : (getPublication id db).2 = db := by
  cases hx : getPublication id db with
  | mk result db' =>
      cases result with
      | error e => exact commit_error hx
      | ok p => exact (getPublication_ok hx).2.2

theorem cleanupCandidates_ok {before : Time} {limit : Int} {db db' : Db}
    {records : List PublicationRow} (h : cleanupCandidates before limit db = (.ok records, db')) :
    db' = db ∧ ∀ p ∈ records, p ∈ db.publications.rows ∧ p.state.terminal = true := by
  obtain ⟨s, hb, _, rfl⟩ := commit_ok h
  obtain ⟨_, _, hb⟩ := Tx.lift_bind.mp hb
  obtain ⟨rfl, rfl⟩ := Prod.mk.inj (Except.ok.inj hb)
  refine ⟨rfl, ?_⟩
  intro p hp
  have hp := mem_orderBy.mp (List.mem_of_mem_take hp)
  simp only [List.mem_filter, awaitsCleanup, Bool.and_eq_true] at hp
  exact ⟨hp.1, hp.2.1.1⟩

theorem orphanKeysBefore_ok {before : Time} {limit : Int} {db db' : Db} {keys : List AttemptKey}
    (h : orphanKeysBefore before limit db = (.ok keys, db')) :
    db' = db ∧ ∀ key ∈ keys, ∃ p ∈ db.publications.rows, p.key = key ∧ p.state ≠ .reserved
      ∧ (p.state.terminal = true ∨ ¬ Current db p.lease) := by
  obtain ⟨s, hb, _, rfl⟩ := commit_ok h
  obtain ⟨_, _, hb⟩ := Tx.lift_bind.mp hb
  obtain ⟨rfl, rfl⟩ := Prod.mk.inj (Except.ok.inj hb)
  refine ⟨rfl, ?_⟩
  intro key hkey
  obtain ⟨p, hp, hpkey⟩ := List.mem_filterMap.mp hkey
  have hp := mem_orderBy.mp (List.mem_of_mem_take hp)
  simp only [List.mem_filter, isOrphan, Bool.and_eq_true, Bool.or_eq_true, beq_iff_eq] at hp
  obtain ⟨hmem, _, hwhy⟩ := hp
  obtain ⟨hk, hs⟩ := PublicationRow.recorded_key (db.publications.checked p hmem) hpkey
  refine ⟨p, hmem, hk, hs, ?_⟩
  rcases hwhy with (hs | hs) | hgone
  · exact Or.inl (by rw [hs]; rfl)
  · exact Or.inl (by rw [hs]; rfl)
  · exact Or.inr (not_current_of_leaseIsGone hgone)

/-- The record a promoted object is registered with is the object's. -/
theorem BlobRecord.checked_eq {b b' : BlobRecord} (h : BlobRecord.checked b = .ok b') : b' = b := by
  unfold BlobRecord.checked at h
  obtain ⟨_, _, h⟩ := except_bind_ok.mp h
  obtain ⟨_, _, h⟩ := except_bind_ok.mp h
  injection h with h
  exact h.symm

/-- **A lease that is current after some effects was current before them.** -/
theorem current_of_effects {json : JsonColumn} {allowed : Int → Prop} {db db' : Db} {lease : Lease}
    (hl : Linked db) (hi : Issued db lease)
    (he : Relation.ReflTransGen (Effect json allowed) db db') (h : Current db' lease) :
    Current db lease := by
  have hback : Issued db' lease ∧ (Current db' lease → Current db lease) := by
    clear h
    induction he with
    | refl => exact ⟨hi, id⟩
    | tail hr hs ih =>
        have hmid := linked_effects hl hr
        exact ⟨issued_effect ih.1 hs, fun hc => ih.2 (current_effect hmid ih.1 hs hc)⟩
  exact hback.2 h

namespace ServiceWorld

variable {env : ServiceEnv} {w w' : ServiceWorld}

/-! ## What the stores owe to a row -/

/-- The attempt object a row has evidence of is there. -/
def Held (env : ServiceEnv) (w : ServiceWorld) (p : PublicationRow) : Prop :=
  ∃ content, w.attempts p.key = some content ∧ p.observedSha256 = some (env.sha256 content)
    ∧ p.observedSizeBytes = some content.length

/-- So is the canonical one, and the probe has read bytes of its digest and size for the row. -/
def Promoted (env : ServiceEnv) (w : ServiceWorld) (p : PublicationRow) : Prop :=
  ∃ content snapshot, w.canonical (canonicalKey (env.sha256 content)) = some content
    ∧ (p.id, snapshot) ∈ w.probed ∧ env.sha256 snapshot = env.sha256 content
    ∧ snapshot.length = content.length ∧ p.observedSha256 = some (env.sha256 content)
    ∧ p.observedSizeBytes = some content.length

/-- What holds of every row. -/
structure RowOk (env : ServiceEnv) (w : ServiceWorld) (p : PublicationRow) : Prop where
  drawn : env.strange p.id = false
  placed : p.state ≠ .reserved → w.directories p.key.directory = true
  held : p.state = .objectWritten ∨ p.state = .validated → Held env w p
  promoted : p.state = .validated ∨ p.state = .finalized → Promoted env w p

/-- The row of an attempt object has ended. -/
def Closed (w : ServiceWorld) (key : AttemptKey) : Prop :=
  ∃ p ∈ w.db.publications.rows, p.key = key ∧ p.state.terminal = true

/-- An object's row has ended, or is never taken up again. -/
def Stale (w : ServiceWorld) (key : AttemptKey) : Prop :=
  w.directories key.directory = true ∧ ∃ p ∈ w.db.publications.rows, p.key = key
    ∧ (p.state.terminal = true ∨ ¬ Current w.db p.lease)

/-- What holds of the database and the stores. -/
structure Stored (env : ServiceEnv) (w : ServiceWorld) : Prop where
  db : (openSystem env.json).Reachable w.db
  rows : ∀ p ∈ w.db.publications.rows, RowOk env w p
  journal : ∀ key ∈ w.journal, w.directories key.directory = true
    ∧ (env.strange key.publicationId = true ∨ ∃ p ∈ w.db.publications.rows, p.key = key)
  attempts : ∀ key content, w.attempts key = some content → key ∈ w.journal

/-- **What a step keeps**: rows only move on, leases do not come back, and an attempt object only
goes under a row that has ended or under no row at all. -/
structure Keeps (env : ServiceEnv) (w w' : ServiceWorld) : Prop where
  calls : (openSystem env.json).Runs w.db w'.db
  rows : ∀ p ∈ w.db.publications.rows, ∃ p' ∈ w'.db.publications.rows,
    p'.id = p.id ∧ (p' = p ∨ LedgerChange w.db p p')
  lost : ∀ p ∈ w.db.publications.rows, ¬ Current w.db p.lease → ¬ Current w'.db p.lease
  attempts : ∀ key content, w.attempts key = some content →
    w'.attempts key = some content ∨ Closed w key ∨ env.strange key.publicationId = true
  canonical : ∀ key content, w.canonical key = some content → w'.canonical key = some content
  probed : ∀ x ∈ w.probed, x ∈ w'.probed
  journal : ∀ key ∈ w.journal, key ∈ w'.journal
  directories : ∀ d, w.directories d = true → w'.directories d = true

theorem Keeps.refl (env : ServiceEnv) (w : ServiceWorld) : Keeps env w w :=
  ⟨Relation.ReflTransGen.refl, fun p hp => ⟨p, hp, rfl, Or.inl rfl⟩, fun _ _ h => h,
    fun _ _ h => Or.inl h, fun _ _ h => h, fun _ h => h, fun _ h => h, fun _ h => h⟩

/-- Ended rows stay ended. -/
theorem Keeps.closed {key : AttemptKey} (hk : Keeps env w w') (h : Closed w key) : Closed w' key := by
  obtain ⟨p, hp, hkey, ht⟩ := h
  obtain ⟨p', hp', _, rfl | hchange⟩ := hk.rows p hp
  · exact ⟨p', hp', hkey, ht⟩
  · exact ⟨p', hp', hchange.evidence.objectKey.trans hkey, hchange.terminal ht⟩

theorem Keeps.stale {key : AttemptKey} (hk : Keeps env w w') (h : Stale w key) : Stale w' key := by
  obtain ⟨hdirectory, p, hp, hkey, hstale⟩ := h
  refine ⟨hk.directories _ hdirectory, ?_⟩
  have hgone := hk.lost p hp
  obtain ⟨p', hp', _, rfl | hchange⟩ := hk.rows p hp
  · exact ⟨p', hp', hkey, hstale.imp_right hgone⟩
  · refine ⟨p', hp', hchange.evidence.objectKey.trans hkey, ?_⟩
    rw [hchange.evidence.lease]
    exact hstale.imp hchange.terminal hgone

/-- A row that did not move is owed what it was owed. -/
theorem RowOk.keeps {p : PublicationRow} (h : RowOk env w p) (hk : Keeps env w w')
    (hp : p ∈ w.db.publications.rows) : RowOk env w' p where
  drawn := h.drawn
  placed hs := hk.directories _ (h.placed hs)
  held hs := by
    obtain ⟨content, hcontent, hevidence⟩ := h.held hs
    rcases hk.attempts _ _ hcontent with hkept | ⟨q, hq, hkey, ht⟩ | hstrange
    · exact ⟨content, hkept, hevidence⟩
    · -- the object was the row's own, and the row is open
      obtain rfl := eq_of_objectKey hq hp hkey
      rcases hs with hs | hs <;> rw [hs] at ht <;> cases ht
    · exact absurd (h.drawn.symm.trans hstrange) (by simp)
  promoted hs := by
    obtain ⟨content, snapshot, hcontent, hprobed, hevidence⟩ := h.promoted hs
    exact ⟨content, snapshot, hk.canonical _ _ hcontent, hk.probed _ hprobed, hevidence⟩

/-! ## What a party holds -/

/-- A record was read, and its row has only moved on. -/
def Known (w : ServiceWorld) (record : PublicationRow) : Prop :=
  ∃ p ∈ w.db.publications.rows, Descends record p

/-- The directories of its object are there too. -/
structure Placed (w : ServiceWorld) (record : PublicationRow) : Prop where
  known : Known w record
  directory : w.directories record.key.directory = true

theorem Keeps.known {record : PublicationRow} (hk : Keeps env w w') (h : Known w record) :
    Known w' record := by
  obtain ⟨p, hp, hd⟩ := h
  obtain ⟨p', hp', _, rfl | hchange⟩ := hk.rows p hp
  · exact ⟨p', hp', hd⟩
  · exact ⟨p', hp', hd.tail hchange⟩

theorem Keeps.placed {record : PublicationRow} (hk : Keeps env w w') (h : Placed w record) :
    Placed w' record := ⟨hk.known h.known, hk.directories _ h.directory⟩

theorem Known.of_mem {p : PublicationRow} (hp : p ∈ w.db.publications.rows) : Known w p :=
  ⟨p, hp, .refl p⟩

/-- The record of a row that is found under its identifier. -/
theorem Known.objectKey {record p : PublicationRow} (h : Known w record)
    (hp : p ∈ w.db.publications.rows) (hid : p.id = record.id) : p.key = record.key := by
  obtain ⟨q, hq, hd⟩ := h
  obtain rfl : q = p := Table.eq_of_key hq hp (hd.id.trans hid.symm)
  exact hd.evidence.objectKey

/-- What was written for a record is what is stored, unless its row has ended. -/
def Written (env : ServiceEnv) (w : ServiceWorld) (record : PublicationRow) (content : Bytes) : Prop :=
  Closed w record.key ∨ ∃ stored, w.attempts record.key = some stored
    ∧ env.sha256 stored = env.sha256 content ∧ stored.length = content.length

/-- A canonical object, and that the probe has read bytes of its digest and size. -/
def Promotable (env : ServiceEnv) (w : ServiceWorld) (id : Uuid) (object : BlobObject) : Prop :=
  ∃ content snapshot, object = objectOf env content
    ∧ w.canonical (canonicalKey (env.sha256 content)) = some content ∧ (id, snapshot) ∈ w.probed
    ∧ env.sha256 snapshot = env.sha256 content ∧ snapshot.length = content.length

/-- What a sweeper has still to go through. -/
def LoopOk (w : ServiceWorld) : SweepLoop → Prop
  | .clean rest => ∀ p ∈ rest, Closed w p.key ∧ recordKey p = .ok p.key
  | .keys rest => ∀ key ∈ rest, Stale w key
  | .page rest _ => ∀ key ∈ rest, key ∈ w.journal

/-- Why a sweeper has got to a key. -/
def Listed (w : ServiceWorld) (key : AttemptKey) : SweepLoop → Prop
  | .clean _ => Closed w key
  | .keys _ => Stale w key
  | .page .. => key ∈ w.journal

/-- **What a party holds where it stands.** -/
def StageOk (env : ServiceEnv) (w : ServiceWorld) : ServiceStage → Prop
  | .idle | .raised _ | .published _ | .swept _ | .publish .. | .reserve .. | .verify ..
  | .finalize _ | .sweep .. | .inventory _ => True
  | .fence _ next => StageOk env w next
  | .create _ _ record => Known w record
  | .link _ _ record => Placed w record ∧ record.key ∈ w.journal
  | .recordObject _ c record => Placed w record ∧ Written env w record c.content
  | .validate _ _ record | .reject _ record _ _ => Placed w record
  | .probe _ _ record _ => Placed w record
  | .reopen _ record snapshot _ => Placed w record ∧ (record.id, snapshot) ∈ w.probed
  | .promote _ record snapshot content _ | .place _ record snapshot content _ =>
      Placed w record ∧ (record.id, snapshot) ∈ w.probed ∧ content.length = snapshot.length
  | .recordValidated _ record object _ => Placed w record ∧ Promotable env w record.id object
  | .confirm _ records _ | .tidy records _ => ∀ r ∈ records, ∃ p ∈ w.db.publications.rows,
      p.id = r.id ∧ p.state.terminal = true
  | .tidyDelete current rest _ | .tidyUnlink current rest _ | .tidyRecord current rest _ =>
      Closed w current.key
      ∧ ∀ r ∈ rest, ∃ p ∈ w.db.publications.rows, p.id = r.id ∧ p.state.terminal = true
  | .clean _ records => LoopOk w (.clean records)
  | .orphans s => s.remaining ≠ 0
  | .keys _ keys => LoopOk w (.keys keys)
  | .known _ inventory => LoopOk w (.page inventory [])
  | .page _ inventory known => LoopOk w (.page inventory known)
  | .get _ key loop => Listed w key loop ∧ LoopOk w loop
  | .abandon _ record loop => Placed w record ∧ Listed w record.key loop ∧ LoopOk w loop
  | .discard _ key loop | .discardUnlink _ key loop => env.strange key.publicationId = true
      ∧ w.directories key.directory = true ∧ LoopOk w loop
  | .stat _ record loop | .delete _ record _ loop | .deleteUnlink _ record _ loop
  | .recordCleanup _ record _ loop =>
      Closed w record.key ∧ LoopOk w loop

/-- What a run of the system keeps. -/
structure Sound (env : ServiceEnv) (w : ServiceWorld) : Prop where
  stored : Stored env w
  stages : ∀ i, StageOk env w (w.stages i)

theorem Keeps.loopOk {loop : SweepLoop} (hk : Keeps env w w') (h : LoopOk w loop) : LoopOk w' loop := by
  cases loop with
  | clean rest => exact fun p hp => ⟨hk.closed (h p hp).1, (h p hp).2⟩
  | keys rest => exact fun key hkey => hk.stale (h key hkey)
  | page rest known => exact fun key hkey => hk.journal _ (h key hkey)

theorem Keeps.listed {key : AttemptKey} {loop : SweepLoop} (hk : Keeps env w w')
    (h : Listed w key loop) : Listed w' key loop := by
  cases loop with
  | clean rest => exact hk.closed h
  | keys rest => exact hk.stale h
  | page rest known => exact hk.journal _ h

theorem Keeps.ended {records : List PublicationRow} (hk : Keeps env w w')
    (h : ∀ r ∈ records, ∃ p ∈ w.db.publications.rows, p.id = r.id ∧ p.state.terminal = true) :
    ∀ r ∈ records, ∃ p ∈ w'.db.publications.rows, p.id = r.id ∧ p.state.terminal = true := by
  intro r hr
  obtain ⟨p, hp, hid, ht⟩ := h r hr
  obtain ⟨p', hp', hid', rfl | hchange⟩ := hk.rows p hp
  · exact ⟨p', hp', hid, ht⟩
  · exact ⟨p', hp', hid'.trans hid, hchange.terminal ht⟩

theorem Keeps.written {record : PublicationRow} {content : Bytes} (hk : Keeps env w w')
    (hdrawn : ∀ p ∈ w.db.publications.rows, env.strange p.id = false) (hknown : Known w record)
    (h : Written env w record content) : Written env w' record content := by
  rcases h with hclosed | ⟨stored, hstored, hsame⟩
  · exact Or.inl (hk.closed hclosed)
  · rcases hk.attempts _ _ hstored with hkept | hclosed | hstrange
    · exact Or.inr ⟨stored, hkept, hsame⟩
    · exact Or.inl (hk.closed hclosed)
    · obtain ⟨p, hp, hd⟩ := hknown
      have := hdrawn p hp
      rw [hd.id] at this
      exact absurd (this.symm.trans hstrange) (by simp)

/-- **What a party holds is stable under the steps of the others.** -/
theorem Keeps.stageOk (hk : Keeps env w w')
    (hdrawn : ∀ p ∈ w.db.publications.rows, env.strange p.id = false) :
    ∀ {stage : ServiceStage}, StageOk env w stage → StageOk env w' stage := by
  intro stage
  induction stage with
  | idle | raised | published | swept | publish | reserve | verify | finalize | sweep
  | inventory => exact fun _ => trivial
  | orphans => exact id
  | fence _ next ih => exact ih
  | create => exact hk.known
  | link => exact fun h => ⟨hk.placed h.1, hk.journal _ h.2⟩
  | recordObject => exact fun h => ⟨hk.placed h.1, hk.written hdrawn h.1.known h.2⟩
  | validate | reject | probe => exact hk.placed
  | reopen => exact fun h => ⟨hk.placed h.1, hk.probed _ h.2⟩
  | promote | place => exact fun h => ⟨hk.placed h.1, hk.probed _ h.2.1, h.2.2⟩
  | recordValidated =>
      intro h
      obtain ⟨hplaced, content, snapshot, hobject, hcontent, hprobed, hsame⟩ := h
      exact ⟨hk.placed hplaced, content, snapshot, hobject, hk.canonical _ _ hcontent,
        hk.probed _ hprobed, hsame⟩
  | confirm | tidy => exact hk.ended
  | tidyDelete | tidyUnlink | tidyRecord => exact fun h => ⟨hk.closed h.1, hk.ended h.2⟩
  | clean | keys | known | page => exact hk.loopOk
  | get => exact fun h => ⟨hk.listed h.1, hk.loopOk h.2⟩
  | abandon => exact fun h => ⟨hk.placed h.1, hk.listed h.2.1, hk.loopOk h.2.2⟩
  | discard | discardUnlink => exact fun h => ⟨h.1, hk.directories _ h.2.1, hk.loopOk h.2.2⟩
  | stat | delete | deleteUnlink | recordCleanup => exact fun h => ⟨hk.closed h.1, hk.loopOk h.2⟩

/-! ## What a call leaves -/

/-- **What one call on a store or a repository leaves**: all that was there, and the parties where
they stood. -/
structure Leaves (env : ServiceEnv) (w w' : ServiceWorld) : Prop where
  stored : Stored env w'
  keeps : Keeps env w w'
  stages : w'.stages = w.stages

namespace Stored

theorem linked (h : Stored env w) : Linked w.db := linked_reachable h.db

theorem ledgered (h : Stored env w) : Ledgered w.db := ledgered_reachable h.db

theorem drawn (h : Stored env w) : ∀ p ∈ w.db.publications.rows, env.strange p.id = false :=
  fun p hp => (h.rows p hp).drawn

theorem same (h : Stored env w) : Leaves env w w := ⟨h, Keeps.refl env w, rfl⟩

/-! ### Calls on a repository -/

/-- **A call keeps everything**, whatever it is called with. -/
theorem call_keeps (h : Stored env w) (c : Call) :
    Keeps env w { w with db := (c.run env.json w.db).2 } where
  calls := Relation.ReflTransGen.single ⟨c, trivial, rfl⟩
  rows _ hp := c.publication env.json h.linked h.ledgered hp
  lost p hp hgone hc := hgone (current_of_effects h.linked
    (h.ledgered.issued p hp) (c.effects env.json (fun _ _ => trivial) w.db) hc)
  attempts _ _ hc := Or.inl hc
  canonical _ _ hc := hc
  probed _ hx := hx
  journal _ hkey := hkey
  directories _ hd := hd

/-- The rows it leaves must be owed what is there. -/
theorem call (h : Stored env w) (c : Call) {db' : Db} (hdb : (c.run env.json w.db).2 = db')
    (hrows : ∀ p ∈ db'.publications.rows, RowOk env w p) : Leaves env w { w with db := db' } := by
  subst hdb
  have hk := h.call_keeps c
  refine ⟨⟨h.db.step ⟨c, trivial, rfl⟩, ?_, ?_, h.attempts⟩, hk, rfl⟩
  · intro p hp
    exact ⟨(hrows p hp).drawn, (hrows p hp).placed, (hrows p hp).held, (hrows p hp).promoted⟩
  · intro key hkey
    obtain ⟨hdirectory, hrow⟩ := h.journal key hkey
    rcases hrow with hstrange | ⟨p, hp, hpkey⟩
    · exact ⟨hdirectory, Or.inl hstrange⟩
    · obtain ⟨p', hp', _, rfl | hchange⟩ := hk.rows p hp
      · exact ⟨hdirectory, Or.inr ⟨p', hp', hpkey⟩⟩
      · exact ⟨hdirectory, Or.inr ⟨p', hp', hchange.evidence.objectKey.trans hpkey⟩⟩

theorem queue (h : Stored env w) {c : Call} (hc : c.isQueue = true) :
    Leaves env w { w with db := (c.run env.json w.db).2 } := by
  refine h.call c rfl ?_
  intro p hp
  rw [c.isQueue_publications env.json hc w.db] at hp
  exact h.rows p hp

/-- A call that reads. -/
theorem read (h : Stored env w) {db' : Db} (hdb : db' = w.db) :
    Leaves env w { w with db := db' } := by
  subst hdb
  exact h.same

/-- A call that rewrites a row must owe nothing new to it. -/
theorem rewrite (h : Stored env w) (c : Call) {mid db' : Db} {p r : PublicationRow}
    (hdb : (c.run env.json w.db).2 = db') (hmid : mid.publications = w.db.publications)
    (hrw : RowRewrite mid db' p r) (hr : RowOk env w r) : Leaves env w { w with db := db' } := by
  refine h.call c hdb ?_
  intro q hq
  rcases hrw.mem hq with rfl | hq
  · exact hr
  · exact h.rows q (hmid ▸ hq)

/-- A call that raises inside its transaction is rolled back. -/
theorem commits {α : Type} {x : Except Error α × Db} (h : Stored env w)
    (herr : ∀ e db', x = (.error e, db') → db' = w.db)
    (hok : ∀ a db', x = (.ok a, db') → Leaves env w { w with db := db' }) :
    Leaves env w { w with db := x.2 } := by
  obtain ⟨r, db'⟩ := x
  cases r with
  | error e => exact h.read (herr e db' rfl)
  | ok a => exact hok a db' rfl

/-! ### Calls on a store -/

/-- An attempt object may go under a row that has ended, or under no row at all. -/
theorem unlink {key : AttemptKey} (h : Stored env w)
    (hgone : Closed w key ∨ env.strange key.publicationId = true) :
    Leaves env w (w.unlink key) := by
  have hkept : ∀ k content, w.attempts k = some content → k ≠ key →
      (w.unlink key).attempts k = some content := by
    intro k content hk hne
    show Function.update w.attempts key none k = some content
    rw [Function.update_of_ne hne, hk]
  have hk : Keeps env w (w.unlink key) := by
    refine { Keeps.refl env w with attempts := ?_ }
    intro k content hc
    by_cases hkey : k = key
    · subst hkey
      exact Or.inr hgone
    · exact Or.inl (hkept k content hc hkey)
  refine ⟨⟨h.db, fun p hp => (h.rows p hp).keeps hk hp, h.journal, ?_⟩, hk, rfl⟩
  intro k content hc
  have hc : Function.update w.attempts key none k = some content := hc
  by_cases hkey : k = key
  · rw [hkey, Function.update_self] at hc
    cases hc
  · rw [Function.update_of_ne hkey] at hc
    exact h.attempts k content hc

/-- The journal takes the key of a row, and its directories are made. -/
theorem journalled {record : PublicationRow} (h : Stored env w) (hknown : Known w record) :
    Leaves env w { w with
      journal := w.journal ++ [record.key]
      directories := Function.update w.directories record.key.directory true } := by
  have hdirectory : ∀ d, w.directories d = true →
      Function.update w.directories record.key.directory true d = true := by
    intro d hd
    by_cases hkey : d = record.key.directory
    · rw [hkey, Function.update_self]
    · rw [Function.update_of_ne hkey, hd]
  have hk : Keeps env w { w with
      journal := w.journal ++ [record.key]
      directories := Function.update w.directories record.key.directory true } :=
    { Keeps.refl env w with
      journal := fun _ hkey => List.mem_append_left _ hkey
      directories := hdirectory }
  refine ⟨⟨h.db, fun p hp => (h.rows p hp).keeps hk hp, ?_, ?_⟩, hk, rfl⟩
  · intro key hkey
    rcases List.mem_append.mp hkey with hkey | hkey
    · exact ⟨hdirectory _ (h.journal key hkey).1, (h.journal key hkey).2⟩
    · obtain rfl : key = record.key := List.mem_singleton.mp hkey
      obtain ⟨p, hp, hd⟩ := hknown
      exact ⟨Function.update_self .., Or.inr ⟨p, hp, hd.evidence.objectKey⟩⟩
  · intro key content hc
    exact List.mem_append_left _ (h.attempts key content hc)

/-- An attempt object is linked where there was none. -/
theorem link {key : AttemptKey} (h : Stored env w) (content : Bytes) (hkey : key ∈ w.journal)
    (hfree : w.attempts key = none) :
    Leaves env w { w with attempts := Function.update w.attempts key (some content) } := by
  have hk : Keeps env w { w with attempts := Function.update w.attempts key (some content) } := by
    refine { Keeps.refl env w with attempts := ?_ }
    intro k stored hstored
    have hne : k ≠ key := by
      intro heq
      rw [heq, hfree] at hstored
      cases hstored
    exact Or.inl ((Function.update_of_ne hne _ _).trans hstored)
  refine ⟨⟨h.db, fun p hp => (h.rows p hp).keeps hk hp, h.journal, ?_⟩, hk, rfl⟩
  intro k stored hstored
  have hstored : Function.update w.attempts key (some content) k = some stored := hstored
  by_cases hne : k = key
  · exact hne ▸ hkey
  · rw [Function.update_of_ne hne] at hstored
    exact h.attempts k stored hstored

/-- So is a canonical one. -/
theorem place {key : String} (h : Stored env w) (content : Bytes)
    (hfree : w.canonical key = none) :
    Leaves env w { w with canonical := Function.update w.canonical key (some content) } := by
  have hk : Keeps env w
      { w with canonical := Function.update w.canonical key (some content) } := by
    refine { Keeps.refl env w with canonical := ?_ }
    intro k stored hstored
    have hne : k ≠ key := by
      intro heq
      rw [heq, hfree] at hstored
      cases hstored
    exact (Function.update_of_ne hne _ _).trans hstored
  exact ⟨⟨h.db, fun p hp => (h.rows p hp).keeps hk hp, h.journal, h.attempts⟩, hk, rfl⟩

/-- The probe is remembered. -/
theorem probe {x : Uuid × Bytes} (h : Stored env w) :
    Leaves env w { w with probed := x :: w.probed } := by
  have hk : Keeps env w { w with probed := x :: w.probed } :=
    { Keeps.refl env w with probed := fun _ hx => List.mem_cons_of_mem _ hx }
  exact ⟨⟨h.db, fun p hp => (h.rows p hp).keeps hk hp, h.journal, h.attempts⟩, hk, rfl⟩

end Stored

end ServiceWorld

end NanoAural
