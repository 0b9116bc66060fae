import NanoAural.Durable.UploadWorkflow
import NanoAural.Proof.CallEffects

/-!
# Upload sessions are safe

Three triggers see every write to `upload_sessions`, so what a row can do is read
off them and not off the methods: `Advances`. A step of the system moves each row
at most once, `SessionsStep`, and only ever adds blobs, canonical objects and
probe records, `Grows`. What a verifier knows about its session, `StageOk`, is
stable under growth, and that is how it still holds when the verdict is recorded.
-/

namespace NanoAural

open Relational Machine

/-! ## Rows -/

/-- **How a session row moves.** -/
structure UploadSession.Advances (now : Time) (old new : UploadSession) : Prop where
  edge : old.state.mayBecome new.state = true
  version : new.version = old.version + 1
  identity : new.identity = old.identity
  /-- Only expiry itself happens at or after the expiry. -/
  unexpired : new.state = .expired ∨ now < old.expiresAt

/-- A row that moves is not terminal. -/
theorem UploadSession.Advances.open {now : Time} {old new : UploadSession}
    (h : old.Advances now new) : old.state.terminal = false := by
  have hedge := h.edge
  cases hstate : old.state with
  | initiated | uploaded | verifying => rfl
  | verified | rejected | expired =>
      rw [hstate] at hedge
      cases hedge

/-- What passes the triggers advances. -/
theorem advances_of_guards {db : Db} {old new : UploadSession}
    (h : ∀ g ∈ sessionUpdateGuards db old new, g.1 = false) : old.Advances db.clock new := by
  simp only [sessionUpdateGuards, preventUploadIdentityMutation, ensureUploadTransition,
    ensureUploadVerifiedAsset, List.mem_append, List.mem_cons, List.not_mem_nil, or_false] at h
  have hidentity := h _ (.inl (.inl (.inl rfl)))
  have htransition := h _ (.inl (.inr rfl))
  have hexpiry := h _ (.inr (.inl rfl))
  simp only [Bool.or_eq_false_iff, bne_eq_false_iff_eq, Bool.not_eq_false'] at hidentity htransition
  refine ⟨htransition.1.2, htransition.1.1, hidentity, ?_⟩
  by_cases hexpired : new.state = .expired
  · exact .inl hexpired
  · simp only [Option.any_some, Bool.and_eq_false_iff, bne_eq_false_iff_eq, hexpired, false_or,
      decide_eq_false_iff_not] at hexpiry
    exact .inr (Nat.lt_of_not_le (by simpa using hexpiry))

/-- **What one transaction does to the sessions.** Each row moves at most once, to a row with `P`;
a new row is a fresh one. -/
structure SessionsStep (now : Time) (P : UploadSession → Prop) (t t' : Table UploadSession) :
    Prop where
  kept : ∀ id old, t.find? id = some old →
    ∃ new, t'.find? id = some new ∧ (new = old ∨ old.Advances now new ∧ P new)
  fresh : ∀ id new, t'.find? id = some new → t.find? id = none →
    new.state = .initiated ∧ new.version = 0

theorem SessionsStep.refl (now : Time) (P : UploadSession → Prop) (t : Table UploadSession) :
    SessionsStep now P t t :=
  ⟨fun _ old h => ⟨old, h, .inl rfl⟩, fun id new h hnone => by rw [h] at hnone; cases hnone⟩

theorem SessionsStep.weaken {now : Time} {P Q : UploadSession → Prop} {t t' : Table UploadSession}
    (h : SessionsStep now P t t') (hPQ : ∀ s, P s → Q s) : SessionsStep now Q t t' where
  kept id old hold := by
    obtain ⟨new, hnew, hmove⟩ := h.kept id old hold
    exact ⟨new, hnew, hmove.imp_right fun ⟨ha, hP⟩ => ⟨ha, hPQ new hP⟩⟩
  fresh := h.fresh

/-- What one transaction does to the database. -/
structure DbStep (P : UploadSession → Prop) (db db' : UploadDb) : Prop where
  sessions : SessionsStep db.clock P db.sessions db'.sessions
  blobs : ∀ id b, db.blobs.find? id = some b → db'.blobs.find? id = some b
  cleanups : db'.cleanups = db.cleanups

theorem DbStep.refl (P : UploadSession → Prop) (db : UploadDb) : DbStep P db db :=
  ⟨.refl _ _ _, fun _ _ h => h, rfl⟩

/-- The durable tables were written first. -/
theorem DbStep.after {P : UploadSession → Prop} {db db₁ db' : UploadDb} (h : DbStep P db₁ db')
    (hclock : db₁.clock = db.clock) (hsessions : db₁.sessions = db.sessions)
    (hcleanups : db₁.cleanups = db.cleanups)
    (hblobs : ∀ id b, db.blobs.find? id = some b → db₁.blobs.find? id = some b) :
    DbStep P db db' := by
  obtain ⟨hs, hb, hc⟩ := h
  rw [hclock, hsessions] at hs
  rw [hcleanups] at hc
  exact ⟨hs, fun id b hfind => hb id b (hblobs id b hfind), hc⟩

/-! ## Statements -/

theorem updateSession_ok {id : Uuid} {cond : Time → UploadSession → Bool}
    {set : Time → UploadSession → UploadSession} {db db' : UploadDb} {matched : Bool}
    (h : updateSession id cond set db = .ok (matched, db')) :
    (matched = false ∧ db' = db)
      ∨ ∃ old t, db.sessions.find? id = some old ∧ cond db.clock old = true
          ∧ old.Advances db.clock (set db.clock old)
          ∧ db.sessions.put? (set db.clock old) = some t
          ∧ matched = true ∧ db' = { db with sessions := t } := by
  unfold updateSession at h
  rw [Tx.bind_eval (Tx.read_run db)] at h
  cases hfind : db.sessions.find? id with
  | none =>
      rw [hfind] at h
      obtain ⟨hm, hdb⟩ := Tx.pure_ok.mp h
      exact .inl ⟨hm.symm, hdb.symm⟩
  | some old =>
      rw [hfind] at h
      by_cases hcond : cond db.clock old = true
      · simp only [hcond, if_true] at h
        obtain ⟨_, hguards, h⟩ := Tx.lift_bind.mp h
        obtain ⟨t, ht, h⟩ := Tx.orFail_bind.mp h
        rw [Tx.bind_eval (Tx.modify_run _ _)] at h
        obtain ⟨hm, hdb⟩ := Tx.pure_ok.mp h
        exact .inr ⟨old, t, rfl, hcond, advances_of_guards (raiseFirst_ok.mp hguards), ht,
          hm.symm, hdb.symm⟩
      · simp only [hcond, Bool.false_eq_true, if_false] at h
        obtain ⟨hm, hdb⟩ := Tx.pure_ok.mp h
        exact .inl ⟨hm.symm, hdb.symm⟩

/-- One row was written. -/
theorem dbStep_put {P : UploadSession → Prop} {db : UploadDb} {old new : UploadSession}
    {t : Table UploadSession} {id : Uuid} (hfind : db.sessions.find? id = some old)
    (ha : old.Advances db.clock new) (ht : db.sessions.put? new = some t) (hP : P new) :
    DbStep P db { db with sessions := t } ∧ t.find? id = some new := by
  have hkey : Schema.key new = id :=
    (congrArg Prod.fst ha.identity).trans (Table.key_of_find? hfind)
  have hlook : ∀ k, t.find? k = if k = id then some new else db.sessions.find? k := fun k => by
    rw [← hkey]
    exact Table.find?_put? ht (hkey.symm ▸ hfind) k
  have hself : t.find? id = some new := by rw [hlook, if_pos rfl]
  refine ⟨⟨⟨fun k row hrow => ?_, fun k row hrow hnone => ?_⟩, fun _ _ h => h, rfl⟩, hself⟩
  · by_cases hk : k = id
    · subst hk
      rw [hfind] at hrow
      obtain rfl := Option.some.inj hrow
      exact ⟨new, hself, .inr ⟨ha, hP⟩⟩
    · exact ⟨row, by rw [hlook, if_neg hk, hrow], .inl rfl⟩
  · rw [hlook] at hrow
    split at hrow
    · rename_i hk
      rw [hk, hfind] at hnone
      cases hnone
    · rw [hrow] at hnone
      cases hnone

/-- **A compare-and-set that returned has moved its row.** -/
theorem casSession_ok {P : UploadSession → Prop} {id : Uuid} {cond : Time → UploadSession → Bool}
    {set : Time → UploadSession → UploadSession} {message : String} {db db' : UploadDb} {u : Unit}
    (h : casSession id cond set message db = .ok (u, db'))
    (hP : ∀ old, db.sessions.find? id = some old → cond db.clock old = true →
      P (set db.clock old)) :
    DbStep P db db' ∧ ∃ new, db'.sessions.find? id = some new ∧ P new := by
  obtain ⟨matched, db₁, hupdate, h⟩ := Tx.bind_ok.mp h
  obtain ⟨hmatched, rfl⟩ := Tx.ensure_ok.mp h
  rcases updateSession_ok hupdate with ⟨hno, _⟩ | ⟨old, t, hfind, hcond, ha, ht, _, rfl⟩
  · rw [hno] at hmatched
    cases hmatched
  · obtain ⟨hstep, hself⟩ := dbStep_put hfind ha ht (hP old hfind hcond)
    exact ⟨hstep, _, hself, hP old hfind hcond⟩

/-- What raised has moved nothing. -/
theorem atomically_step {α : Type} {P : UploadSession → Prop} {body : UploadTx α} {db : UploadDb}
    (h : ∀ a db', body db = .ok (a, db') → DbStep P db db') :
    DbStep P db (atomically body db).2 := by
  rcases atomically_cases body db with ⟨e, hrun⟩ | ⟨a, db', hbody, hrun⟩
  · rw [hrun]
    exact .refl P db
  · rw [hrun]
    exact h a db' hbody

/-! ## The repository's methods -/

/-- The row has not become VERIFIED. -/
def Unverified (s : UploadSession) : Prop := s.state ≠ .verified

theorem createSession_step (session : UploadSession) (db : UploadDb) :
    DbStep Unverified db (createSession session db).2 := by
  refine atomically_step fun _ db' h => ?_
  obtain ⟨s, _, h⟩ := Tx.lift_bind.mp h
  rw [Tx.bind_eval (Tx.read_run db)] at h
  unfold insertSession at h
  rw [Tx.bind_eval (Tx.read_run db)] at h
  obtain ⟨_, hguards, h⟩ := Tx.lift_bind.mp h
  obtain ⟨t, ht, h⟩ := Tx.orFail_bind.mp h
  obtain ⟨_, rfl⟩ := Prod.mk.inj (Except.ok.inj h)
  have hfirst := raiseFirst_ok.mp hguards _ (List.mem_append_left _ (List.mem_singleton.mpr rfl))
  simp only [Bool.or_eq_false_iff, bne_eq_false_iff_eq] at hfirst
  refine ⟨⟨fun id old hold => ⟨old, Table.insert?_keep ht hold, .inl rfl⟩,
    fun id new hnew hnone => ?_⟩, fun _ _ h => h, rfl⟩
  rcases Table.of_insert? ht hnew with ⟨_, rfl⟩ | ⟨_, hold⟩
  · exact hfirst
  · rw [hold] at hnone
    cases hnone

theorem markUploaded_step (id : Uuid) (version : Nat) (db : UploadDb) :
    DbStep Unverified db (markUploaded id version db).2 :=
  atomically_step fun _ _ h => (casSession_ok h fun _ _ _ => by simp [Unverified]).1

theorem claimVerification_step (id : Uuid) (version : Nat) (db : UploadDb) :
    DbStep Unverified db (claimVerification id version db).2 :=
  atomically_step fun _ _ h => (casSession_ok h fun _ _ _ => by simp [Unverified]).1

/-- A reclaimed session is still VERIFYING. -/
theorem reclaimVerification_step (id : Uuid) (version : Nat) (stale : Time) (db : UploadDb) :
    DbStep Unverified db (reclaimVerification id version stale db).2 := by
  refine atomically_step fun _ _ h => (casSession_ok h fun old _ hcond => ?_).1
  simp only [UploadSession.standsAt, Bool.and_eq_true, beq_iff_eq] at hcond
  show old.state ≠ .verified
  rw [hcond.1.1.2]
  decide

theorem rejectSession_step (id : Uuid) (version : Nat) (reason : String) (db : UploadDb) :
    DbStep Unverified db (rejectSession id version reason db).2 := by
  refine atomically_step fun _ _ h => ?_
  obtain ⟨_, h⟩ := Tx.ensure_bind.mp h
  exact (casSession_ok h fun _ _ _ => by simp [Unverified]).1

/-- A rejection that returned has decided the session. -/
theorem rejectSession_ok {id : Uuid} {version : Nat} {reason : String} {db db' : UploadDb}
    {u : Unit} (h : rejectSession id version reason db = (.ok u, db')) :
    ∃ new, db'.sessions.find? id = some new ∧ new.state.terminal = true := by
  obtain ⟨_, h⟩ := Tx.ensure_bind.mp (atomically_ok h)
  exact (casSession_ok h fun _ _ _ => rfl).2

/-! ### Expiry -/

/-- Expiring a list of sessions moves each overdue one of them once. -/
theorem expireSessions_ok : ∀ {ids : List Uuid} {db db' : UploadDb} {u : Unit},
    expireSessions ids db = .ok (u, db') →
    db'.toDb = db.toDb ∧ db'.cleanups = db.cleanups ∧
      ∀ k, db'.sessions.find? k = db.sessions.find? k
        ∨ ∃ old new, db.sessions.find? k = some old ∧ db'.sessions.find? k = some new
            ∧ old.Advances db.clock new ∧ new.state = .expired := by
  intro ids
  induction ids with
  | nil =>
      intro db db' u h
      obtain ⟨_, rfl⟩ := Tx.pure_ok.mp h
      exact ⟨rfl, rfl, fun _ => .inl rfl⟩
  | cons id rest ih =>
      intro db db' u h
      obtain ⟨matched, db₁, hupdate, h⟩ := Tx.bind_ok.mp h
      obtain ⟨hdb, hcleanups, hrest⟩ := ih h
      rcases updateSession_ok hupdate with ⟨_, rfl⟩ | ⟨old, t, hfind, _, ha, ht, _, rfl⟩
      · exact ⟨hdb, hcleanups, hrest⟩
      · refine ⟨hdb, hcleanups, fun k => ?_⟩
        have hid : Schema.key old = id := Table.key_of_find? hfind
        have hkey : Schema.key (old.expire db.clock) = id := hid
        by_cases hk : k = id
        · subst hk
          have hself := Table.put?_self ht (hkey.symm ▸ hfind)
          rw [hkey] at hself
          -- the row is terminal now, so the rest of the list leaves it alone
          rcases hrest k with hsame | ⟨mid, new, hmid, _, hagain, _⟩
          · exact .inr ⟨old, _, hfind, hsame.trans hself, ha, rfl⟩
          · rw [show t.find? k = some mid from hmid] at hself
            rw [Option.some.inj hself] at hagain
            exact absurd hagain.open (by simp [UploadSession.expire, UploadState.terminal])
        · have hother : t.find? k = db.sessions.find? k :=
            Table.put?_other ht (hkey.symm ▸ hfind) (by rw [hkey]; exact hk)
          rw [← hother]
          exact hrest k

theorem expireSessions_step {ids : List Uuid} {db db' : UploadDb} {u : Unit}
    (h : expireSessions ids db = .ok (u, db')) : DbStep Unverified db db' := by
  obtain ⟨hdb, hcleanups, hrows⟩ := expireSessions_ok h
  refine ⟨⟨fun k old hold => ?_, fun k new hnew hnone => ?_⟩, fun k b hb => hdb ▸ hb, hcleanups⟩
  · rcases hrows k with hsame | ⟨mid, new, hmid, hnew, ha, hexpired⟩
    · exact ⟨old, hsame.trans hold, .inl rfl⟩
    · rw [hold] at hmid
      obtain rfl := Option.some.inj hmid
      exact ⟨new, hnew, .inr ⟨ha, by simp [Unverified, hexpired]⟩⟩
  · rcases hrows k with hsame | ⟨old, _, hold, _, _, _⟩
    · rw [← hsame, hnew] at hnone
      cases hnone
    · rw [hold] at hnone
      cases hnone

theorem expireBefore_step (db : UploadDb) : DbStep Unverified db (expireBefore db).2 := by
  refine atomically_step fun _ _ h => ?_
  rw [Tx.bind_eval (Tx.read_run db)] at h
  exact expireSessions_step h

theorem expireBatch_step (held : Uuid → Bool) (limit : Int) (db : UploadDb) :
    DbStep Unverified db (expireBatch held limit db).2 := by
  refine atomically_step fun _ _ h => ?_
  obtain ⟨_, _, h⟩ := Tx.lift_bind.mp h
  rw [Tx.bind_eval (Tx.read_run db)] at h
  obtain ⟨_, _, hexpire, h⟩ := Tx.bind_ok.mp h
  obtain ⟨_, rfl⟩ := Tx.pure_ok.mp h
  exact expireSessions_step hexpire

/-- Evidence is recorded for decided sessions, and touches no other table. -/
theorem recordStagingCleanup_eq (id : Uuid) (db : UploadDb) :
    ∃ cleanups, (recordStagingCleanup id db).2 = { db with cleanups := cleanups }
      ∧ ∀ k ∈ cleanups, k ∈ db.cleanups
          ∨ k = id ∧ ∃ row, db.sessions.find? id = some row ∧ row.state.terminal = true := by
  unfold recordStagingCleanup
  split
  · rename_i hcond
    simp only [Bool.and_eq_true] at hcond
    obtain ⟨row, hrow, hterminal⟩ := (Option.any_eq_true _ _).mp hcond.1
    refine ⟨_, rfl, fun k hk => ?_⟩
    rcases List.mem_append.mp hk with hk | hk
    · exact .inl hk
    · exact .inr ⟨List.mem_singleton.mp hk, row, hrow, hterminal⟩
  · exact ⟨db.cleanups, rfl, fun k hk => .inl hk⟩

/-! ### The verified outcome -/

theorem onDurable_ok {α : Type} {body : Sql α} {db db' : UploadDb} {a : α}
    (h : onDurable body db = .ok (a, db')) :
    ∃ s, body ⟨db.toDb, []⟩ = .ok (a, s) ∧ db' = { db with toDb := s.db } := by
  unfold onDurable at h
  split at h
  · cases h
  · rename_i b s hbody
    obtain ⟨rfl, rfl⟩ := Prod.mk.inj (Except.ok.inj h)
    exact ⟨s, hbody, rfl⟩

/-- **The blob row of a digest**, found or inserted, with the metadata asked for. -/
theorem ensureUploadBlob_ok {blob : BlobRecord} {db : Db} {b : BlobRow}
    {s : Session Db Deferred} (h : ensureUploadBlob blob ⟨db, []⟩ = .ok (b, s)) :
    ∃ t, s.db = { db with blobs := t }
      ∧ (∀ id x, db.blobs.find? id = some x → t.find? id = some x)
      ∧ t.find? b.id = some b ∧ b.sha256 = blob.sha256 ∧ b.sizeBytes = blob.sizeBytes
      ∧ b.storageKey = blob.storageKey := by
  obtain ⟨added, s₁, hinsert, h⟩ := Tx.bind_ok.mp h
  rw [select_bind] at h
  obtain ⟨hfilter, rfl⟩ := Tx.orFail_ok.mp h
  obtain ⟨hfound, hsame⟩ := Option.filter_eq_some_iff.mp hfilter
  simp only [Bool.and_eq_true, beq_iff_eq] at hsame
  have hsha : b.sha256 = blob.sha256 := by simpa using List.find?_some hfound
  have hmem : b ∈ s₁.db.blobs.rows := List.mem_of_find?_eq_some hfound
  obtain ⟨new, _, _, ⟨_, rfl, _⟩ | ⟨t, _, _, ht, rfl⟩⟩ := insertUnless_ok hinsert
  · exact ⟨db.blobs, rfl, fun _ _ hx => hx, Table.find?_of_mem hmem, hsha, hsame.1.1.1,
      hsame.1.1.2⟩
  · exact ⟨t, rfl, fun _ _ hx => Table.insert?_keep ht hx, Table.find?_of_mem hmem, hsha,
      hsame.1.1.1, hsame.1.1.2⟩

/-- The session of that identifier, VERIFIED over the blob row `b`. -/
def VerifiedOver (id : Uuid) (b : BlobRow) (s : UploadSession) : Prop :=
  s.sessionId = id ∧ s.state = .verified ∧ s.verifiedBlobId = some b.id

/-- **What `finalize_verified` commits.** -/
theorem finalizeVerified_ok {json : JsonColumn} {id : Uuid} {version : Nat} {blob : BlobRecord}
    {asset : AssetRecord} {db db' : UploadDb} {u : Unit}
    (h : finalizeVerified json id version blob asset db = (.ok u, db')) :
    ∃ b, DbStep (VerifiedOver id b) db db' ∧ db'.blobs.find? b.id = some b
      ∧ b.sha256 = blob.sha256 ∧ b.sizeBytes = blob.sizeBytes ∧ b.storageKey = blob.storageKey
      ∧ ∃ new, db'.sessions.find? id = some new ∧ new.state = .verified := by
  have h := atomically_ok h
  rw [Tx.bind_eval (Tx.read_run db)] at h
  obtain ⟨session, hsession, h⟩ := Tx.lift_bind.mp h
  obtain ⟨_, h⟩ := Tx.ensure_bind.mp h
  obtain ⟨_, h⟩ := Tx.ensure_bind.mp h
  obtain ⟨b, db₁, hblob, h⟩ := Tx.bind_ok.mp h
  obtain ⟨_, db₂, hasset, h⟩ := Tx.bind_ok.mp h
  obtain ⟨s₁, hensure, rfl⟩ := onDurable_ok hblob
  obtain ⟨t, hs₁, hkept, hfind, hsha, hsize, hkey⟩ := ensureUploadBlob_ok hensure
  obtain ⟨s₂, hinsert, rfl⟩ := onDurable_ok hasset
  obtain ⟨row, ta, _, _, rfl⟩ := insert_ok hinsert
  rw [hs₁] at h
  obtain ⟨hstep, new, hnew, _, hverified, _⟩ := casSession_ok (P := VerifiedOver id b) h
    fun old hold _ => ⟨Table.key_of_find? hold, rfl, rfl⟩
  exact ⟨b, hstep.after rfl rfl rfl hkept, hstep.blobs _ _ hfind, hsha, hsize, hkey, new, hnew,
    hverified⟩

theorem finalizeVerified_step (json : JsonColumn) (id : Uuid) (version : Nat) (blob : BlobRecord)
    (asset : AssetRecord) (db : UploadDb) :
    (∃ e, finalizeVerified json id version blob asset db = (.error e, db))
      ∨ ∃ db', finalizeVerified json id version blob asset db = (.ok (), db') := by
  rcases atomically_cases _ db with ⟨e, hrun⟩ | ⟨_, db', _, hrun⟩
  · exact .inl ⟨e, hrun⟩
  · exact .inr ⟨db', hrun⟩

/-- The constructor of `UploadSession` returns what it was given. -/
theorem checked_eq {s s' : UploadSession} (h : s.checked = .ok s') : s' = s := by
  unfold UploadSession.checked at h
  iterate 6 obtain ⟨_, h⟩ := raiseIf_bind_ok.mp h
  exact (Except.ok.inj h).symm

/-! ## The queue and the ledger -/

/-- The queue and the ledger add blobs and change none. -/
theorem Effect.keeps_blobs {json : JsonColumn} {allowed : Int → Prop} {db db' : Db}
    (h : Effect json allowed db db') {id : Uuid} {b : BlobRow}
    (hb : db.blobs.find? id = some b) : db'.blobs.find? id = some b := by
  cases h with
  | blob _ htb => exact Table.insert?_keep htb hb
  | _ => exact hb

theorem queue_step (json : JsonColumn) (c : Call) (db : UploadDb) :
    DbStep Unverified db { db with toDb := (c.run json db.toDb).2 } := by
  have heff : Relation.ReflTransGen (Effect json fun _ => True) db.toDb (c.run json db.toDb).2 :=
    c.effects json (fun _ _ => trivial) db.toDb
  refine ⟨.refl _ _ _, fun id b hb => ?_, rfl⟩
  show (c.run json db.toDb).2.blobs.find? id = some b
  generalize (c.run json db.toDb).2 = db' at heff
  induction heff with
  | refl => exact hb
  | tail _ he ih => exact he.keeps_blobs ih

/-! ## What the parties know -/

namespace UploadWorld

variable {env : UploadEnv} {w w' : UploadWorld}

/-- The session a party read is the row's, up to what moves. -/
def Knows (w : UploadWorld) (session : UploadSession) : Prop :=
  ∃ row, w.db.sessions.find? session.sessionId = some row ∧ row.identity = session.identity

/-- The session has its outcome. -/
def Decided (w : UploadWorld) (id : Uuid) : Prop :=
  ∃ row, w.db.sessions.find? id = some row ∧ row.state.terminal = true

/-- The canonical object at the snapshot's key has its size and its digest. -/
def Promoted (env : UploadEnv) (w : UploadWorld) (snapshot : Bytes) : Prop :=
  ∃ existing, w.canonical (objectOf env snapshot).storageKey = some existing
    ∧ existing.length = snapshot.length ∧ env.sha256 existing = env.sha256 snapshot

/-- What a party has established by the time it stands at a stage. -/
def StageOk (env : UploadEnv) (w : UploadWorld) : UploadStage → Prop
  | .write session _ | .claim session | .openStaged session | .copy session _ _
  | .reject session _ => w.Knows session
  | .probe session snapshot => w.Knows session ∧ declared env session snapshot = true
  | .promote session snapshot _ | .link session snapshot _ =>
      w.Knows session ∧ declared env session snapshot = true
        ∧ (session.sessionId, snapshot) ∈ w.probed
  | .record session object _ => w.Knows session ∧ ∃ snapshot,
      declared env session snapshot = true ∧ (session.sessionId, snapshot) ∈ w.probed
        ∧ object = objectOf env snapshot ∧ Promoted env w snapshot
  | .discard id => w.Decided id
  | .sweep ids | .tidy ids => ∀ id ∈ ids, w.Decided id
  | .remove id ids | .evidence id ids | .tidyRemove id ids =>
      w.Decided id ∧ ∀ id ∈ ids, w.Decided id
  | _ => True

/-- The blob row and the canonical object of a VERIFIED session, and what the probe saw. -/
def VerifiedBytes (env : UploadEnv) (w : UploadWorld) (s : UploadSession) : Prop :=
  ∃ b snapshot, s.verifiedBlobId = some b.id ∧ w.db.blobs.find? b.id = some b
    ∧ declared env s snapshot = true ∧ (s.sessionId, snapshot) ∈ w.probed
    ∧ b.sha256 = env.sha256 snapshot ∧ b.sizeBytes = snapshot.length
    ∧ b.storageKey = (objectOf env snapshot).storageKey ∧ Promoted env w snapshot

/-- **The invariant.** -/
structure Sound (env : UploadEnv) (w : UploadWorld) : Prop where
  verified : ∀ id s, w.db.sessions.find? id = some s → s.state = .verified → VerifiedBytes env w s
  stages : ∀ i, StageOk env w (w.stages i)

/-- What is never taken back. -/
structure Grows (w w' : UploadWorld) : Prop where
  rows : ∀ id old, w.db.sessions.find? id = some old → ∃ new,
    w'.db.sessions.find? id = some new ∧ new.identity = old.identity
      ∧ (old.state.terminal = true → new = old)
  blobs : ∀ id b, w.db.blobs.find? id = some b → w'.db.blobs.find? id = some b
  canonical : ∀ key content, w.canonical key = some content → w'.canonical key = some content
  probed : ∀ p ∈ w.probed, p ∈ w'.probed

theorem Grows.knows (h : w.Grows w') {session : UploadSession} (hk : w.Knows session) :
    w'.Knows session := by
  obtain ⟨row, hrow, hsame⟩ := hk
  obtain ⟨new, hnew, hidentity, _⟩ := h.rows _ row hrow
  exact ⟨new, hnew, hidentity.trans hsame⟩

theorem Grows.decided (h : w.Grows w') {id : Uuid} (hd : w.Decided id) : w'.Decided id := by
  obtain ⟨row, hrow, hterminal⟩ := hd
  obtain ⟨new, hnew, _, hkept⟩ := h.rows id row hrow
  exact ⟨new, hnew, by rw [hkept hterminal]; exact hterminal⟩

theorem Grows.promoted (h : w.Grows w') {snapshot : Bytes} (hp : Promoted env w snapshot) :
    Promoted env w' snapshot := by
  obtain ⟨existing, hcanonical, hsame⟩ := hp
  exact ⟨existing, h.canonical _ _ hcanonical, hsame⟩

/-- What a party knows stays true. -/
theorem Grows.stageOk (h : w.Grows w') {stage : UploadStage} (hs : StageOk env w stage) :
    StageOk env w' stage := by
  cases stage with
  | write session | claim session | openStaged session | copy session | reject session =>
      exact h.knows hs
  | probe session snapshot => exact ⟨h.knows hs.1, hs.2⟩
  | promote session snapshot | link session snapshot =>
      exact ⟨h.knows hs.1, hs.2.1, h.probed _ hs.2.2⟩
  | record session object =>
      obtain ⟨hk, snapshot, hdeclared, hprobed, hobject, hpromoted⟩ := hs
      exact ⟨h.knows hk, snapshot, hdeclared, h.probed _ hprobed, hobject, h.promoted hpromoted⟩
  | discard id => exact h.decided hs
  | sweep ids | tidy ids => exact fun id hid => h.decided (hs id hid)
  | remove id ids | evidence id ids | tidyRemove id ids =>
      exact ⟨h.decided hs.1, fun id hid => h.decided (hs.2 id hid)⟩
  | _ => exact trivial

theorem Grows.verifiedBytes (h : w.Grows w') {s : UploadSession} (hv : VerifiedBytes env w s) :
    VerifiedBytes env w' s := by
  obtain ⟨b, snapshot, hid, hblob, hdeclared, hprobed, hsha, hsize, hkey, hpromoted⟩ := hv
  exact ⟨b, snapshot, hid, h.blobs _ _ hblob, hdeclared, h.probed _ hprobed, hsha, hsize, hkey,
    h.promoted hpromoted⟩

/-- Two rows of one session declare the same. -/
theorem declared_congr {s s' : UploadSession} (h : s.identity = s'.identity) (snapshot : Bytes) :
    declared env s snapshot = declared env s' snapshot := by
  simp only [UploadSession.identity, Prod.mk.injEq] at h
  unfold declared
  rw [h.2.2.2.1, h.2.2.2.2.2]

/-! ## One step -/

/-- **What a step may do.** -/
structure Legal (env : UploadEnv) (w w' : UploadWorld) : Prop where
  sessions : SessionsStep w.db.clock (fun _ => True) w.db.sessions w'.db.sessions
  grows : w.Grows w'
  sound : Sound env w'
  deletes : ∀ id, w.staging id ≠ none → w'.staging id = none → w.Decided id

/-- A party moves to `stage`, and the world around it grows. -/
theorem legal_of {P : UploadSession → Prop} {i : Nat} {stage : UploadStage} (hs : Sound env w)
    (hsessions : SessionsStep w.db.clock P w.db.sessions w'.db.sessions)
    (hblobs : ∀ id b, w.db.blobs.find? id = some b → w'.db.blobs.find? id = some b)
    (hcanonical : ∀ key content, w.canonical key = some content → w'.canonical key = some content)
    (hprobed : ∀ p ∈ w.probed, p ∈ w'.probed)
    (hstages : w'.stages = Function.update w.stages i stage)
    (hstage : w.Grows w' → StageOk env w' stage)
    (hverified : w.Grows w' → ∀ id old new, w.db.sessions.find? id = some old →
      w'.db.sessions.find? id = some new → new.identity = old.identity → P new →
      new.state = .verified → VerifiedBytes env w' new)
    (hdeletes : ∀ id, w.staging id ≠ none → w'.staging id = none → w.Decided id) :
    Legal env w w' := by
  have hgrows : w.Grows w' := by
    refine ⟨fun id old hold => ?_, hblobs, hcanonical, hprobed⟩
    obtain ⟨new, hnew, rfl | ⟨ha, _⟩⟩ := hsessions.kept id old hold
    · exact ⟨new, hnew, rfl, fun _ => rfl⟩
    · exact ⟨new, hnew, ha.identity, fun h => by rw [ha.open] at h; cases h⟩
  refine ⟨hsessions.weaken fun _ _ => trivial, hgrows, ⟨fun id s hfind hstate => ?_, fun k => ?_⟩,
    hdeletes⟩
  · cases hold : w.db.sessions.find? id with
    | none => exact absurd (hsessions.fresh id s hfind hold).1 (by rw [hstate]; decide)
    | some old =>
        obtain ⟨new, hnew, hmove⟩ := hsessions.kept id old hold
        rw [hfind] at hnew
        obtain rfl := Option.some.inj hnew
        rcases hmove with rfl | ⟨ha, hP⟩
        · exact hgrows.verifiedBytes (hs.verified id s hold hstate)
        · exact hverified hgrows id old s hold hfind ha.identity hP hstate
  · rw [hstages]
    by_cases hk : k = i
    · subst hk
      rw [Function.update_self]
      exact hstage hgrows
    · rw [Function.update_of_ne hk]
      exact hgrows.stageOk (hs.stages k)

/-- A party moves and nothing else happens. -/
theorem legal_goto {i : Nat} {stage : UploadStage} (hs : Sound env w) (hstage : StageOk env w stage) :
    Legal env w (w.goto i stage) :=
  legal_of (P := Unverified) hs (.refl _ _ _) (fun _ _ h => h) (fun _ _ h => h) (fun _ h => h) rfl
    (fun hg => hg.stageOk hstage) (fun _ _ _ _ _ _ _ hP hv => absurd hv hP)
    (fun _ hsome hnone => absurd hnone hsome)

/-- A party makes a repository call that verifies nothing. -/
theorem legal_called {α : Type} {i : Nat} {r : Except Error α × UploadDb} {next : α → UploadStage}
    (hs : Sound env w) (hdb : DbStep Unverified w.db r.2)
    (hnext : ∀ a, r.1 = .ok a → StageOk env { w with db := r.2 } (next a)) :
    Legal env w (w.called i r next) := by
  have hmove : ∀ stage, (w.Grows { w with db := r.2 } → StageOk env { w with db := r.2 } stage) →
      Legal env w (goto { w with db := r.2 } i stage) := fun stage hstage =>
    legal_of (P := Unverified) hs hdb.sessions hdb.blobs (fun _ _ h => h) (fun _ h => h) rfl
      (fun hg => hstage ⟨hg.rows, hg.blobs, hg.canonical, hg.probed⟩)
      (fun _ _ _ _ _ _ _ hP hv => absurd hv hP) (fun _ hsome hnone => absurd hnone hsome)
  unfold called
  cases hr : r.1 with
  | error e => exact hmove _ fun _ => trivial
  | ok a => exact hmove _ fun _ => hnext a hr

/-- What `get_session` returns is known. -/
theorem getSession_knows {id : Uuid} {session : UploadSession}
    (h : getSession id w.db = .ok session) : w.Knows session := by
  unfold getSession at h
  cases hfind : w.db.sessions.find? id with
  | none =>
      rw [hfind] at h
      cases h
  | some row =>
      rw [hfind] at h
      obtain rfl := checked_eq h
      have hkey : session.sessionId = id := Table.key_of_find? hfind
      exact ⟨session, hkey ▸ hfind, rfl⟩

/-- A party reads a session. -/
theorem legal_reading {i : Nat} {id : Uuid} {next : UploadSession → UploadStage} (hs : Sound env w)
    (hnext : ∀ session, w.Knows session → StageOk env w (next session)) :
    Legal env w (w.reading i id next) := by
  unfold reading
  cases hget : getSession id w.db with
  | error e => exact legal_goto hs trivial
  | ok session => exact legal_goto hs (hnext session (getSession_knows hget))

/-- A party deletes the staged object of a decided session. -/
theorem legal_delete {i : Nat} {id : Uuid} {stage : UploadStage} (hs : Sound env w)
    (hd : w.Decided id) (hstage : StageOk env w stage) :
    Legal env w (goto { w with staging := Function.update w.staging id none } i stage) := by
  refine legal_of (P := Unverified) hs (.refl _ _ _) (fun _ _ h => h) (fun _ _ h => h) (fun _ h => h) rfl
    (fun hg => hg.stageOk hstage) (fun _ _ _ _ _ _ _ hP hv => absurd hv hP) fun k hsome hnone => ?_
  change Function.update w.staging id none k = none at hnone
  by_cases hk : k = id
  · exact hk ▸ hd
  · rw [Function.update_of_ne hk] at hnone
    exact absurd hnone hsome

/-- A party stages an object where none is. -/
theorem legal_stage {i : Nat} {stage : UploadStage} (hs : Sound env w) (id : Uuid) (content : Bytes)
    (hstage : StageOk env w stage) :
    Legal env w (goto { w with staging := Function.update w.staging id (some content) } i stage) := by
  refine legal_of (P := Unverified) hs (.refl _ _ _) (fun _ _ h => h) (fun _ _ h => h) (fun _ h => h) rfl
    (fun hg => hg.stageOk hstage) (fun _ _ _ _ _ _ _ hP hv => absurd hv hP) fun k hsome hnone => ?_
  change Function.update w.staging id (some content) k = none at hnone
  by_cases hk : k = id
  · rw [hk, Function.update_self] at hnone
    cases hnone
  · rw [Function.update_of_ne hk] at hnone
    exact absurd hnone hsome

/-- A link never replaces an object. -/
theorem canonical_update {canonical : String → Option Bytes} {key : String} {content : Bytes}
    (hfree : canonical key = none) : ∀ k e, canonical k = some e →
      Function.update canonical key (some content) k = some e := by
  intro k e he
  by_cases hk : k = key
  · rw [hk, hfree] at he
    cases he
  · rw [Function.update_of_ne hk, he]

theorem limitCheck_ok {session : UploadSession} (hk : w.Knows session) :
    StageOk env w (limitCheck env session) := by
  unfold limitCheck
  split
  · exact hk
  · exact hk

/-- The copy loop ends with the snapshot that was declared, or rejects. -/
theorem copyChunk_ok {session : UploadSession} (hk : w.Knows session) (rest snapshot : Bytes) :
    StageOk env w (copyChunk env session rest snapshot) := by
  unfold copyChunk
  split
  · split
    · rename_i hdeclared
      exact ⟨hk, hdeclared⟩
    · exact hk
  · dsimp only
    split
    · exact hk
    · exact hk

/-- An object that passes the comparison is the promoted one. -/
theorem found_ok {session : UploadSession} {snapshot existing : Bytes} {media : MediaInfo}
    (h : StageOk env w (.promote session snapshot media))
    (hexisting : w.canonical (objectOf env snapshot).storageKey = some existing) :
    StageOk env w (found env session snapshot existing media) := by
  unfold found
  split
  · exact trivial
  · rename_i hsame
    simp only [Bool.or_eq_true, bne_iff_ne, not_or, not_not] at hsame
    exact ⟨h.1, snapshot, h.2.1, h.2.2, rfl, existing, hexisting, hsame⟩

/-- Candidates for cleanup are decided. -/
theorem candidates_decided {limit : Option Nat} {id : Uuid}
    (h : id ∈ terminalStagingCandidates limit w.db) : w.Decided id := by
  have hrow : ∃ row ∈ w.db.sessions.rows, awaitsStagingCleanup w.db row = true
      ∧ row.sessionId = id := by
    unfold terminalStagingCandidates at h
    obtain ⟨row, hrow, rfl⟩ := List.mem_map.mp h
    have hmem : row ∈ orderBy (fun s : UploadSession => toLex (s.finalizedAt.getD 0, s.sessionId))
        (w.db.sessions.rows.filter (awaitsStagingCleanup w.db)) := by
      cases limit with
      | none => exact hrow
      | some n => exact List.mem_of_mem_take hrow
    obtain ⟨hin, hawaits⟩ := List.mem_filter.mp (mem_orderBy.mp hmem)
    exact ⟨row, hin, hawaits, rfl⟩
  obtain ⟨row, hin, hawaits, rfl⟩ := hrow
  simp only [awaitsStagingCleanup, Bool.and_eq_true] at hawaits
  exact ⟨row, Table.find?_of_mem hin, hawaits.1⟩

/-- The records name the promoted object. -/
theorem uploadRecords_ok {session : UploadSession} {object : BlobObject} {media : MediaInfo}
    {blobId assetId : Uuid} {blob : BlobRecord} {asset : AssetRecord}
    (h : uploadRecords session object media blobId assetId = .ok (blob, asset)) :
    blob.sha256 = object.sha256 ∧ blob.sizeBytes = object.sizeBytes
      ∧ blob.storageKey = object.storageKey := by
  obtain ⟨b, hblob, h⟩ := except_bind_ok.mp h
  obtain ⟨a, _, h⟩ := except_bind_ok.mp h
  obtain ⟨rfl, _⟩ := Prod.mk.inj (Except.ok.inj h)
  obtain ⟨_, _, hblob⟩ := except_bind_ok.mp hblob
  obtain ⟨_, _, hblob⟩ := except_bind_ok.mp hblob
  obtain rfl := Except.ok.inj hblob
  exact ⟨rfl, rfl, rfl⟩

/-- **A verdict is recorded.** The blob row names the object the party promoted. -/
theorem legal_record {i : Nat} {session : UploadSession} {object : BlobObject} {media : MediaInfo}
    {choice : Choice} (hs : Sound env w) (hstage : StageOk env w (.record session object media)) :
    Legal env w (w.called i (recordVerified env session object media choice w.db) fun _ =>
      .discard session.sessionId) := by
  obtain ⟨hk, snapshot, hdeclared, hprobed, rfl, hpromoted⟩ := hstage
  have hraised : ∀ e, Legal env w (w.called i
      (((Except.error e, w.db) : Except Error Unit × UploadDb)) fun _ =>
        .discard session.sessionId) := fun e =>
    legal_called hs (.refl _ _) fun _ h => by cases h
  unfold recordVerified
  cases hrecords : uploadRecords session (objectOf env snapshot) media choice.blobId
      choice.assetId with
  | error e => exact hraised e
  | ok records =>
      obtain ⟨blob, asset⟩ := records
      obtain ⟨hsha, hsize, hkey⟩ := uploadRecords_ok hrecords
      rcases finalizeVerified_step env.json session.sessionId session.version blob asset w.db with
        ⟨e, hrun⟩ | ⟨db', hrun⟩
      · simp only [hrun]
        exact hraised e
      · simp only [hrun, called]
        obtain ⟨b, hdb, hfind, hbsha, hbsize, hbkey, new, hnew, hverified⟩ := finalizeVerified_ok hrun
        refine legal_of hs hdb.sessions hdb.blobs (fun _ _ h => h) (fun _ h => h) rfl
          (fun _ => ⟨new, hnew, by rw [hverified]; rfl⟩)
          (fun hg id old s hold hfound hidentity hP _ => ?_)
          (fun _ hsome hnone => absurd hnone hsome)
        obtain ⟨hid, _, hpointer⟩ := hP
        obtain ⟨row, hrow, hsame⟩ := hk
        have hsession : s.sessionId = session.sessionId := hid
        have holdid : id = session.sessionId :=
          (Table.key_of_find? hfound).symm.trans hsession
        rw [holdid, hrow] at hold
        obtain rfl := Option.some.inj hold
        refine ⟨b, snapshot, hpointer, hfind, ?_, ?_, hbsha.trans hsha, hbsize.trans hsize,
          hbkey.trans hkey, hg.promoted hpromoted⟩
        · rw [declared_congr (hidentity.trans hsame)]
          exact hdeclared
        · rw [hsession]
          exact hprobed

/-- **A party's step is legal.** -/
theorem act_legal (hs : Sound env w) (i : Nat) (choice : Choice) :
    Legal env w (w.act env i choice) := by
  have hstage : StageOk env w (w.stages i) := hs.stages i
  unfold act
  -- one case per stage; most only read, and a reading is legal by its own rule
  cases hi : w.stages i with
  | idle =>
      have : Legal env w (w.goto i .idle) := legal_goto hs trivial
      rwa [goto, ← hi, Function.update_eq_self] at this
  | upload id content =>
      refine legal_reading hs fun session hk => ?_
      split
      · trivial
      · exact hk
  | write session content =>
      dsimp only
      cases w.staging session.sessionId with
      | some staged => exact legal_goto hs trivial
      | none => exact legal_stage hs session.sessionId content trivial
  | mark session =>
      exact legal_called hs (markUploaded_step _ _ _) fun _ _ => trivial
  | marked id => exact legal_reading hs fun _ _ => trivial
  | finalize id version =>
      refine legal_reading hs fun session hk => ?_
      split
      · trivial
      split
      · exact hk
      split
      · trivial
      · exact limitCheck_ok hk
  | claim session => exact legal_called hs (claimVerification_step _ _ _) fun _ _ => trivial
  | claimed id => exact legal_reading hs fun _ hk => limitCheck_ok hk
  | openStaged session =>
      rw [hi] at hstage
      dsimp only
      cases w.staging session.sessionId with
      | none => exact legal_goto hs trivial
      | some content => exact legal_goto hs hstage
  | copy session rest snapshot =>
      rw [hi] at hstage
      exact legal_goto hs (copyChunk_ok hstage rest snapshot)
  | reject session reason =>
      exact legal_called hs (rejectSession_step _ _ _ _) fun u hok =>
        rejectSession_ok (Prod.ext hok rfl)
  | probe session snapshot =>
      rw [hi] at hstage
      refine legal_of (P := Unverified) hs (.refl _ _ _) (fun _ _ h => h) (fun _ _ h => h)
        (fun _ h => List.mem_cons_of_mem _ h) rfl (fun hg => ?_)
        (fun _ _ _ _ _ _ _ hP hv => absurd hv hP) (fun _ hsome hnone => absurd hnone hsome)
      cases choice.media with
      | none => exact hg.knows hstage.1
      -- the verdict is on record before the step that follows it
      | some media => exact ⟨hg.knows hstage.1, hstage.2, List.mem_cons_self⟩
  | promote session snapshot media =>
      rw [hi] at hstage
      dsimp only
      cases hexisting : w.canonical (objectOf env snapshot).storageKey with
      | none => exact legal_goto hs hstage
      | some existing => exact legal_goto hs (found_ok hstage hexisting)
  | link session snapshot media =>
      rw [hi] at hstage
      dsimp only
      cases hexisting : w.canonical (objectOf env snapshot).storageKey with
      | none =>
          refine legal_of (P := Unverified) hs (.refl _ _ _) (fun _ _ h => h) (canonical_update hexisting)
            (fun _ h => h) rfl (fun hg => ?_) (fun _ _ _ _ _ _ _ hP hv => absurd hv hP)
            (fun _ hsome hnone => absurd hnone hsome)
          -- what was probed is what is now stored under the name of its digest
          exact ⟨hg.knows hstage.1, snapshot, hstage.2.1, hg.probed _ hstage.2.2, rfl, snapshot,
            Function.update_self _ _ _, rfl, rfl⟩
      | some existing => exact legal_goto hs (found_ok hstage hexisting)
  | record session object media =>
      rw [hi] at hstage
      exact legal_record hs hstage
  | discard id =>
      rw [hi] at hstage
      exact legal_delete hs hstage trivial
  | expire limit =>
      refine legal_called hs (expireBatch_step _ _ _) fun count _ => ?_
      split <;> trivial
  | select remaining => exact legal_goto hs fun _ h => candidates_decided h
  | sweep ids =>
      rw [hi] at hstage
      cases ids with
      | nil => exact legal_goto hs trivial
      | cons id rest =>
          have hhead := hstage id List.mem_cons_self
          have htail := fun k hk => hstage k (List.mem_cons_of_mem id hk)
          dsimp only
          cases w.staging id with
          | none => exact legal_goto hs ⟨hhead, htail⟩
          | some content => exact legal_goto hs ⟨hhead, htail⟩
  | remove id rest =>
      rw [hi] at hstage
      exact legal_delete hs hstage.1 hstage
  | evidence id rest =>
      rw [hi] at hstage
      obtain ⟨cleanups, hdb, _⟩ := recordStagingCleanup_eq id w.db
      simp only [hdb]
      exact legal_of (P := Unverified) hs (.refl _ _ _) (fun _ _ h => h) (fun _ _ h => h)
        (fun _ h => h) rfl (fun hg k hk => hg.decided (hstage.2 k hk))
        (fun _ _ _ _ _ _ _ hP hv => absurd hv hP) (fun _ hsome hnone => absurd hnone hsome)
  | janitor => exact legal_called hs (expireBefore_step _) fun _ _ => trivial
  | inspect => exact legal_goto hs fun _ h => candidates_decided h
  | tidy ids =>
      rw [hi] at hstage
      cases ids with
      | nil => exact legal_goto hs trivial
      | cons id rest =>
          have hhead := hstage id List.mem_cons_self
          have htail := fun k hk => hstage k (List.mem_cons_of_mem id hk)
          dsimp only
          cases w.staging id with
          | none => exact legal_goto hs htail
          | some content => exact legal_goto hs ⟨hhead, htail⟩
  | tidyRemove id rest =>
      rw [hi] at hstage
      exact legal_delete hs hstage.1 hstage.2

/-- The parties stay where they are. -/
theorem legal_still (hs : Sound env w) {db' : UploadDb} (hdb : DbStep Unverified w.db db') :
    Legal env w { w with db := db' } :=
  legal_of (i := 0) hs hdb.sessions hdb.blobs (fun _ _ h => h) (fun _ h => h)
    (Function.update_eq_self 0 w.stages).symm (fun hg => hg.stageOk (hs.stages 0))
    (fun _ _ _ _ _ _ _ hP hv => absurd hv hP) (fun _ hsome hnone => absurd hnone hsome)

theorem initiate_step (env : UploadEnv) (id : Uuid) (namespaceId : String) (size : Nat)
    (sha256 : Option String) (expiresAt : Time) (db : UploadDb) :
    DbStep Unverified db (initiate env id namespaceId size sha256 expiresAt db).2 := by
  unfold initiate
  split
  · exact .refl _ _
  · exact createSession_step _ _

theorem UploadCall.run_step (c : UploadCall) (db : UploadDb) :
    DbStep Unverified db (c.run db) := by
  cases c with
  | createSession session => exact createSession_step session db
  | markUploaded id version => exact markUploaded_step id version db
  | claimVerification id version => exact claimVerification_step id version db
  | reclaimVerification id version stale => exact reclaimVerification_step id version stale db
  | expireBefore => exact expireBefore_step db
  | expireBatch held limit => exact expireBatch_step held limit db

/-- Where an operation begins, nothing has been established. -/
theorem entry_ok {stage : UploadStage} (h : stage.entry = true) : StageOk env w stage := by
  cases stage with
  | idle | upload | finalize | janitor | expire => trivial
  | _ => cases h

/-- **Every step is legal.** -/
theorem step_legal {may : UploadWorld → Nat → Prop} (hs : Sound env w)
    (h : UploadStep env may w w') : Legal env w w' := by
  cases h with
  | queue c => exact legal_still hs (queue_step env.json c w.db)
  | call c => exact legal_still hs (UploadCall.run_step c w.db)
  | initiate id namespaceId size sha256 expiresAt =>
      exact legal_still hs (initiate_step env id namespaceId size sha256 expiresAt w.db)
  | promote content hfree =>
      exact legal_of (P := Unverified) (i := 0) hs (.refl _ _ _) (fun _ _ h => h)
        (canonical_update hfree) (fun _ h => h) (Function.update_eq_self 0 w.stages).symm
        (fun hg => hg.stageOk (hs.stages 0)) (fun _ _ _ _ _ _ _ hP hv => absurd hv hP)
        (fun _ hsome hnone => absurd hnone hsome)
  | start i stage hentry => exact legal_goto hs (entry_ok hentry)
  | act i choice _ => exact act_legal hs i choice

theorem sound_reachable {may : UploadWorld → Nat → Prop}
    (h : (restrictedUploads env may).Reachable w) : Sound env w := by
  refine h.invariant (I := Sound env) (fun w₀ hinit => ⟨fun id s hfind _ => ?_, fun i => ?_⟩)
    fun w₁ w₂ _ hs hstep => (step_legal hs hstep).sound
  · have hmem := Table.mem_of_find? hfind
    rw [hinit.sessions] at hmem
    cases hmem
  · rw [hinit.stages i]
    trivial

end UploadWorld

/-! ## Safety -/

/-- The byte strings the canonical store holds or the probe has read. -/
def UploadWorld.held (w : UploadWorld) : Set Bytes :=
  {content | (∃ key, w.canonical key = some content) ∨ ∃ id, (id, content) ∈ w.probed}

/-- A VERIFIED session's blob row and canonical object are what was declared and probed. -/
def UploadWorld.Verified (env : UploadEnv) (w : UploadWorld) (s : UploadSession) : Prop :=
  ∃ b content, s.verifiedBlobId = some b.id ∧ w.db.blobs.find? b.id = some b
    ∧ w.canonical b.storageKey = some content
    ∧ content.length = s.expectedSizeBytes ∧ b.sizeBytes = s.expectedSizeBytes
    ∧ b.sha256 = env.sha256 content
    ∧ (∀ sha256, s.expectedSha256 = some sha256 → env.sha256 content = sha256)
    ∧ (s.sessionId, content) ∈ w.probed

/-- Without collisions the promoted object is the snapshot the probe read. -/
theorem verified_of_bytes {env : UploadEnv} {w : UploadWorld} {s : UploadSession}
    (hfree : Set.InjOn env.sha256 w.held) (h : w.VerifiedBytes env s) : w.Verified env s := by
  obtain ⟨b, snapshot, hid, hblob, hdeclared, hprobed, hsha, hsize, hkey, existing, hcanonical, _,
    hdigest⟩ := h
  have hsame : existing = snapshot :=
    hfree (.inl ⟨_, hcanonical⟩) (.inr ⟨s.sessionId, hprobed⟩) hdigest
  rw [hsame] at hcanonical
  simp only [UploadWorld.declared, Bool.and_eq_true, beq_iff_eq] at hdeclared
  obtain ⟨hlength, hsha256⟩ := hdeclared
  refine ⟨b, snapshot, hid, hblob, hkey ▸ hcanonical, hlength, hsize.trans hlength, hsha,
    fun sha256 hsome => ?_, hprobed⟩
  have hgiven : sha256 = env.sha256 snapshot := by simpa [hsome] using hsha256
  exact hgiven.symm

/-- **Upload session safety.** In every reachable state, whatever step comes next: each session
row stays or advances along one edge, its version counted up and not at or after its expiry, and
a new row is a fresh one; a terminal row never changes again, along any run; a VERIFIED session's
blob and canonical object are the declared and probed bytes, if no two byte strings at hand
collide; and a staged object is deleted only when its session is terminal. -/
theorem upload_session_safety (env : UploadEnv) {w : UploadWorld}
    (h : (uploadSystem env).Reachable w) :
    (∀ w', (uploadSystem env).step w w' →
        SessionsStep w.db.clock (fun _ => True) w.db.sessions w'.db.sessions)
      ∧ (∀ w', (uploadSystem env).Runs w w' → ∀ id s, w.db.sessions.find? id = some s →
        s.state.terminal = true → w'.db.sessions.find? id = some s)
      ∧ (Set.InjOn env.sha256 w.held → ∀ id s, w.db.sessions.find? id = some s →
        s.state = .verified → w.Verified env s)
      ∧ ∀ w', (uploadSystem env).step w w' → ∀ id, w.staging id ≠ none → w'.staging id = none →
        w.Decided id := by
  have hs := UploadWorld.sound_reachable h
  refine ⟨fun w' hstep => (UploadWorld.step_legal hs hstep).sessions,
    fun w' hruns id s hfind hterminal => ?_,
    fun hfree id s hfind hstate => verified_of_bytes hfree (hs.verified id s hfind hstate),
    fun w' hstep => (UploadWorld.step_legal hs hstep).deletes⟩
  refine System.Reachable.stable (P := fun w => w.db.sessions.find? id = some s)
    (fun w₁ w₂ hreach hrow hstep => ?_) h hfind hruns
  have hlegal := UploadWorld.step_legal (UploadWorld.sound_reachable hreach) hstep
  obtain ⟨new, hnew, _, hkept⟩ := hlegal.grows.rows id s hrow
  rw [hnew, hkept hterminal]

/-! ### One upload -/

/-- The SHA-256 of the letter `a`. -/
def letterDigest : String := "ca978112ca1bbdcafac231b39a23dc4da786eff8147c4e72b9807785afee48bb"

/-- That digest, and an encoding apart from it for every other byte string. -/
def letterSha256 (content : Bytes) : String :=
  if content = [97] then letterDigest else String.ofList ('-' :: content.map Char.ofUInt8)

theorem letterSha256_injective : Function.Injective letterSha256 := by
  have hchars : Function.Injective Char.ofUInt8 :=
    Function.LeftInverse.injective (g := Char.toUInt8) UInt8.toUInt8_toUInt32
  have hapart : ∀ content : Bytes, letterDigest ≠ String.ofList ('-' :: content.map Char.ofUInt8) :=
    fun content h => by
      have hhead := congrArg (fun s : String => s.toList.head?) h
      simp only [String.toList_ofList, List.head?_cons] at hhead
      exact absurd hhead (by decide +kernel)
  intro a b h
  unfold letterSha256 at h
  by_cases ha : a = [97]
  · by_cases hb : b = [97]
    · rw [ha, hb]
    · rw [if_pos ha, if_neg hb] at h
      exact absurd h (hapart b)
  · by_cases hb : b = [97]
    · rw [if_neg ha, if_pos hb] at h
      exact absurd h.symm (hapart a)
    · rw [if_neg ha, if_neg hb] at h
      have hlist := congrArg String.toList h
      simp only [String.toList_ofList, List.cons.injEq, true_and] at hlist
      exact List.map_injective_iff.mpr hchars hlist

def letterEnv : UploadEnv := ⟨letterSha256, .plain, 8, 8⟩

/-- No upload yet. -/
def noUploads : UploadWorld :=
  ⟨⟨Db.empty, .empty, []⟩, fun _ => none, fun _ => none, [], fun _ => .idle⟩

theorem noUploads_reachable : (uploadSystem letterEnv).Reachable noUploads :=
  .of_init ⟨rfl, rfl, fun _ => rfl, fun _ => rfl⟩

/-- Somebody initiates a session for one byte and uploads the letter `a` to it. -/
def letterStarted : UploadWorld :=
  UploadWorld.goto { noUploads with
    db := (initiate letterEnv 1 "n" 1 none 60 noUploads.db).2 } 0 (.upload 1 [97])

/-- The probe's verdict and the identifiers of the run. -/
def letterChoice : UploadWorld.Choice := ⟨some ⟨"audio/wav", "1.0"⟩, 2, 3, fun _ => false⟩

def letterUploaded (n : Nat) : UploadWorld :=
  (fun w => w.act letterEnv 0 letterChoice)^[n] letterStarted

theorem acts_reachable {env : UploadEnv} {w : UploadWorld} (h : (uploadSystem env).Reachable w)
    (i : Nat) (choice : UploadWorld.Choice) (n : Nat) :
    (uploadSystem env).Reachable ((fun w => w.act env i choice)^[n] w) := by
  induction n with
  | zero => exact h
  | succ n ih =>
      rw [Function.iterate_succ_apply']
      exact ih.step (.act i choice trivial)

theorem letterUploaded_reachable (n : Nat) :
    (uploadSystem letterEnv).Reachable (letterUploaded n) :=
  acts_reachable ((noUploads_reachable.step (.initiate 1 "n" 1 none 60)).step
    (.start 0 (.upload 1 [97]) rfl)) 0 letterChoice n

theorem upload_session_safety_verified : ∃ s,
    (letterUploaded 15).db.sessions.find? 1 = some s ∧ (letterUploaded 15).Verified letterEnv s := by
  have hstate : ((letterUploaded 15).db.sessions.find? 1).map UploadSession.state
      = some .verified := by decide +kernel
  obtain ⟨s, hfind, hverified⟩ := Option.map_eq_some_iff.mp hstate
  exact ⟨s, hfind, (upload_session_safety letterEnv (letterUploaded_reachable 15)).2.2.1
    letterSha256_injective.injOn 1 s hfind hverified⟩

end NanoAural
