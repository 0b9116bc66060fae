import NanoAural.Proof.UploadSafety

/-!
# No staged object leaks, if uploads are timely

A cleanup run looks for a session's staged object, deletes it and then records,
once and for all, that it did. An upload writes the object before the
compare-and-set that would refuse it. Where no upload writes between the look and
the record, or after the record, every staged object still has a cleanup ahead
of it (`no_staged_leak`); `late_upload_leaks` is a run in which one does.
-/

namespace NanoAural

open Relational Machine

namespace UploadWorld

variable {env : UploadEnv} {w w' : UploadWorld}

/-- Party `i` is about to stage an object whose session's deletion evidence is recorded, or about
to be. -/
def lateWrite (w : UploadWorld) (i : Nat) : Prop :=
  ∃ session content, w.stages i = .write session content
    ∧ (session.sessionId ∈ w.db.cleanups ∨ ∃ k ids, w.stages k = .evidence session.sessionId ids)

/-- No staged object has been given up: a cleanup run still selects its session, now or later. -/
def NoLeak (w : UploadWorld) : Prop :=
  ∀ id, w.staging id ≠ none → ∃ s, w.db.sessions.find? id = some s
    ∧ (s.state.terminal = false ∨ id ∉ w.db.cleanups)

/-! ## What a step does to the staging store and to the evidence -/

/-- What one step can add: an object at a writer, evidence at a cleanup run, and a cleanup run
about to record evidence for a session without an object. -/
structure Traces (w w' : UploadWorld) : Prop where
  staged : ∀ id, w'.staging id ≠ none → w.staging id ≠ none ∨ ∃ i session content,
    w.stages i = .write session content ∧ session.sessionId = id ∧ ¬ w.lateWrite i
  cleanups : ∀ id ∈ w'.db.cleanups, id ∈ w.db.cleanups ∨ w.Decided id
    ∧ ∃ i ids, w.stages i = .evidence id ids
  evidence : ∀ k id ids, w'.stages k = .evidence id ids →
    w'.staging id = none ∨ w.stages k = .evidence id ids

/-- A party moves to a stage that records no evidence. -/
theorem traces_goto {i : Nat} {stage : UploadStage} (hstaging : ∀ id, w'.staging id ≠ none →
      w.staging id ≠ none)
    (hcleanups : w'.db.cleanups = w.db.cleanups)
    (hstages : w'.stages = Function.update w.stages i stage)
    (hstage : ∀ id ids, stage = .evidence id ids → w'.staging id = none) : Traces w w' := by
  refine ⟨fun id h => .inl (hstaging id h), fun id h => .inl (hcleanups ▸ h), fun k id ids h => ?_⟩
  rw [hstages] at h
  by_cases hk : k = i
  · rw [hk, Function.update_self] at h
    exact .inl (hstage id ids h)
  · rw [Function.update_of_ne hk] at h
    exact .inr h

theorem traces_called {α : Type} {P : UploadSession → Prop} {i : Nat}
    {r : Except Error α × UploadDb} {next : α → UploadStage} (hdb : DbStep P w.db r.2)
    (hnext : ∀ a id ids, next a ≠ .evidence id ids) : Traces w (w.called i r next) := by
  unfold called
  cases r.1 with
  | error e => exact traces_goto (fun _ h => h) hdb.cleanups rfl fun _ _ h => by cases h
  | ok a => exact traces_goto (fun _ h => h) hdb.cleanups rfl fun id ids h => absurd h (hnext a id ids)

theorem traces_reading {i : Nat} {id : Uuid} {next : UploadSession → UploadStage}
    (hnext : ∀ s id ids, next s ≠ .evidence id ids) : Traces w (w.reading i id next) := by
  unfold reading
  cases getSession id w.db with
  | error e => exact traces_goto (fun _ h => h) rfl rfl fun _ _ h => by cases h
  | ok s => exact traces_goto (fun _ h => h) rfl rfl fun id ids h => absurd h (hnext s id ids)

theorem limitCheck_ne_evidence (session : UploadSession) (id : Uuid) (ids : List Uuid) :
    limitCheck env session ≠ .evidence id ids := by
  unfold limitCheck
  split <;> simp

theorem copyChunk_ne_evidence (session : UploadSession) (rest snapshot : Bytes) (id : Uuid)
    (ids : List Uuid) : copyChunk env session rest snapshot ≠ .evidence id ids := by
  unfold copyChunk
  split
  · split <;> simp
  · dsimp only
    split <;> simp

theorem found_ne_evidence (session : UploadSession) (snapshot existing : Bytes)
    (media : MediaInfo) (id : Uuid) (ids : List Uuid) :
    found env session snapshot existing media ≠ .evidence id ids := by
  unfold found
  split <;> simp

/-- A delete leaves nothing behind, and nothing new. -/
theorem traces_delete {i : Nat} {id : Uuid} {stage : UploadStage}
    (hstage : ∀ k ids, stage = .evidence k ids → k = id) :
    Traces w (goto { w with staging := Function.update w.staging id none } i stage) := by
  refine traces_goto (fun k h => ?_) rfl rfl fun k ids h => ?_
  · change Function.update w.staging id none k ≠ none at h
    by_cases hk : k = id
    · rw [hk, Function.update_self] at h
      exact absurd rfl h
    · rwa [Function.update_of_ne hk] at h
  · show Function.update w.staging id none k = none
    rw [hstage k ids h, Function.update_self]

theorem recordVerified_step (env : UploadEnv) (session : UploadSession) (object : BlobObject)
    (media : MediaInfo) (choice : Choice) (db : UploadDb) :
    ∃ P, DbStep P db (recordVerified env session object media choice db).2 := by
  unfold recordVerified
  split
  · exact ⟨Unverified, .refl _ _⟩
  · rename_i blob asset _
    rcases finalizeVerified_step env.json session.sessionId session.version blob asset db with
      ⟨e, hrun⟩ | ⟨db', hrun⟩
    · rw [hrun]
      exact ⟨Unverified, .refl _ _⟩
    · obtain ⟨b, hdb, _⟩ := finalizeVerified_ok hrun
      rw [hrun]
      exact ⟨_, hdb⟩

/-- What a party that is not late leaves. -/
theorem act_traces (hs : Sound env w) {i : Nat} (hlate : ¬ w.lateWrite i) (choice : Choice) :
    Traces w (w.act env i choice) := by
  have hstage : StageOk env w (w.stages i) := hs.stages i
  unfold act
  cases hi : w.stages i with
  | idle => exact ⟨fun _ h => .inl h, fun _ h => .inl h, fun _ _ _ h => .inr h⟩
  | upload id content => exact traces_reading fun s id ids => by split <;> simp
  | write session content =>
      dsimp only
      cases w.staging session.sessionId with
      | some staged => exact traces_goto (fun _ h => h) rfl rfl fun _ _ h => by cases h
      | none =>
          refine ⟨fun id h => ?_, fun id h => .inl h, fun k id ids h => .inr ?_⟩
          · change Function.update w.staging session.sessionId (some content) id ≠ none at h
            by_cases hid : id = session.sessionId
            -- the write that is not late is the one thing that adds staging bytes
            · exact .inr ⟨i, session, content, hi, hid.symm, hlate⟩
            · rw [Function.update_of_ne hid] at h
              exact .inl h
          · change Function.update w.stages i (.mark session) k = _ at h
            by_cases hk : k = i
            · rw [hk, Function.update_self] at h
              cases h
            · rwa [Function.update_of_ne hk] at h
  | mark session => exact traces_called (markUploaded_step _ _ _) fun _ _ _ => by simp
  | marked id => exact traces_reading fun _ _ _ => by simp
  | finalize id version =>
      refine traces_reading fun session _ _ => ?_
      split
      · simp
      split
      · simp
      split
      · simp
      · exact limitCheck_ne_evidence _ _ _
  | claim session => exact traces_called (claimVerification_step _ _ _) fun _ _ _ => by simp
  | claimed id => exact traces_reading fun _ _ _ => limitCheck_ne_evidence _ _ _
  | openStaged session =>
      dsimp only
      cases w.staging session.sessionId with
      | none => exact traces_goto (fun _ h => h) rfl rfl fun _ _ h => by cases h
      | some content => exact traces_goto (fun _ h => h) rfl rfl fun _ _ h => by cases h
  | copy session rest snapshot =>
      exact traces_goto (fun _ h => h) rfl rfl fun _ _ h => absurd h (copyChunk_ne_evidence _ _ _ _ _)
  | reject session reason => exact traces_called (rejectSession_step _ _ _ _) fun _ _ _ => by simp
  | probe session snapshot =>
      refine traces_goto (fun _ h => h) rfl rfl fun _ _ h => absurd h ?_
      split <;> simp
  | promote session snapshot media =>
      dsimp only
      split
      · exact traces_goto (fun _ h => h) rfl rfl fun _ _ h => absurd h (found_ne_evidence _ _ _ _ _ _)
      · exact traces_goto (fun _ h => h) rfl rfl fun _ _ h => by cases h
  | link session snapshot media =>
      dsimp only
      split
      · exact traces_goto (fun _ h => h) rfl rfl fun _ _ h => absurd h (found_ne_evidence _ _ _ _ _ _)
      · exact traces_goto (fun _ h => h) rfl rfl fun _ _ h => by cases h
  | record session object media =>
      obtain ⟨P, hdb⟩ := recordVerified_step env session object media choice w.db
      exact traces_called hdb fun _ _ _ => by simp
  | discard id => exact traces_delete fun _ _ h => by cases h
  | expire limit =>
      exact traces_called (expireBatch_step _ _ _) fun _ _ _ => by split <;> simp
  | select remaining => exact traces_goto (fun _ h => h) rfl rfl fun _ _ h => by cases h
  | sweep ids =>
      cases ids with
      | nil => exact traces_goto (fun _ h => h) rfl rfl fun _ _ h => by cases h
      | cons id rest =>
          dsimp only
          cases hstaged : w.staging id with
          | some content => exact traces_goto (fun _ h => h) rfl rfl fun _ _ h => by cases h
          | none =>
              refine traces_goto (fun _ h => h) rfl rfl fun k ids h => ?_
              -- evidence is taken only where nothing was found
              obtain ⟨rfl, _⟩ := UploadStage.evidence.inj h
              exact hstaged
  | remove id rest => exact traces_delete fun k ids h => (UploadStage.evidence.inj h).1.symm
  | evidence id rest =>
      rw [hi] at hstage
      obtain ⟨cleanups, hdb, hadded⟩ := recordStagingCleanup_eq id w.db
      simp only [hdb]
      refine ⟨fun k h => .inl h, fun k hk => ?_, fun k x ids h => .inr ?_⟩
      · rcases hadded k hk with hold | ⟨rfl, _⟩
        · exact .inl hold
        -- the session that is recorded is one of those that were swept
        · exact .inr ⟨hstage.1, i, rest, hi⟩
      · change Function.update w.stages i (.sweep rest) k = _ at h
        by_cases hk : k = i
        · rw [hk, Function.update_self] at h
          cases h
        · rwa [Function.update_of_ne hk] at h
  | janitor => exact traces_called (expireBefore_step _) fun _ _ _ => by simp
  | inspect => exact traces_goto (fun _ h => h) rfl rfl fun _ _ h => by cases h
  | tidy ids =>
      cases ids with
      | nil => exact traces_goto (fun _ h => h) rfl rfl fun _ _ h => by cases h
      | cons id rest =>
          dsimp only
          split <;> exact traces_goto (fun _ h => h) rfl rfl fun _ _ h => by cases h
  | tidyRemove id rest => exact traces_delete fun _ _ h => by cases h

/-- No party is late. -/
theorem step_traces (hs : Sound env w)
    (h : UploadStep env (fun w i => ¬ w.lateWrite i) w w') : Traces w w' := by
  have hstill : ∀ {P : UploadSession → Prop} {db' : UploadDb}, DbStep P w.db db' →
      Traces w { w with db := db' } := fun hdb =>
    ⟨fun _ h => .inl h, fun id h => .inl (hdb.cleanups ▸ h), fun _ _ _ h => .inr h⟩
  cases h with
  | queue c => exact hstill (queue_step env.json c w.db)
  | call c => exact hstill (UploadCall.run_step c w.db)
  | initiate id namespaceId size sha256 expiresAt =>
      exact hstill (initiate_step env id namespaceId size sha256 expiresAt w.db)
  | promote content hfree => exact ⟨fun _ h => .inl h, fun _ h => .inl h, fun _ _ _ h => .inr h⟩
  | start i stage hentry =>
      refine traces_goto (fun _ h => h) rfl rfl fun id ids h => ?_
      rw [h] at hentry
      cases hentry
  | act i choice hlate => exact act_traces hs hlate choice

/-! ## The invariant -/

/-- Objects, evidence and the cleanup runs between the two. -/
structure Swept (w : UploadWorld) : Prop where
  noLeak : w.NoLeak
  evidence : ∀ id ∈ w.db.cleanups, w.Decided id
  gone : ∀ k id ids, w.stages k = .evidence id ids → w.staging id = none

/-- **One timely step keeps every object in reach of a cleanup.** -/
theorem swept_step (hs : Sound env w) (hw : Swept w)
    (h : UploadStep env (fun w i => ¬ w.lateWrite i) w w') : Swept w' := by
  have htraces := step_traces hs h
  have hlegal := step_legal hs h
  -- nobody writes for a session whose evidence is recorded or about to be
  have hstaged : ∀ id, w'.staging id ≠ none →
      (∃ s, w.db.sessions.find? id = some s) ∧ (∀ k ids, w.stages k ≠ .evidence id ids)
        ∧ ∀ s, w.db.sessions.find? id = some s → s.state.terminal = true → id ∉ w.db.cleanups := by
    intro id hid
    rcases htraces.staged id hid with hold | ⟨i, session, content, hi, rfl, hlate⟩
    · obtain ⟨s, hfind, hkept⟩ := hw.noLeak id hold
      refine ⟨⟨s, hfind⟩, fun k ids hk => hold (hw.gone k id ids hk), fun s' hs' hterminal => ?_⟩
      rw [hfind] at hs'
      obtain rfl := Option.some.inj hs'
      rcases hkept with hopen | hnone
      · rw [hopen] at hterminal
        cases hterminal
      · exact hnone
    · have hknows : w.Knows session := by
        have := hs.stages i
        rwa [hi] at this
      obtain ⟨row, hrow, _⟩ := hknows
      exact ⟨⟨row, hrow⟩, fun k ids hk => hlate ⟨session, content, hi, .inr ⟨k, ids, hk⟩⟩,
        fun _ _ _ hin => hlate ⟨session, content, hi, .inl hin⟩⟩
  refine ⟨fun id hid => ?_, fun id hid => ?_, fun k id ids hk => ?_⟩
  · obtain ⟨⟨old, hold⟩, hnone, hclean⟩ := hstaged id hid
    obtain ⟨new, hnew, _, hkept⟩ := hlegal.grows.rows id old hold
    refine ⟨new, hnew, ?_⟩
    by_cases hterminal : new.state.terminal = true
    · refine .inr fun hin => ?_
      rcases htraces.cleanups id hin with hbefore | ⟨_, i, ids, hi⟩
      · obtain ⟨row, hrow, hrowTerminal⟩ := hw.evidence id hbefore
        exact hclean row hrow hrowTerminal hbefore
      · exact hnone i ids hi
    · exact .inl (by simpa using hterminal)
  · rcases htraces.cleanups id hid with hbefore | ⟨hdecided, _⟩
    · exact hlegal.grows.decided (hw.evidence id hbefore)
    · exact hlegal.grows.decided hdecided
  · rcases htraces.evidence k id ids hk with hgone | hbefore
    · exact hgone
    · by_contra hsome
      exact (hstaged id hsome).2.1 k ids hbefore

end UploadWorld

/-- The interleavings in which no upload is late. -/
def timelyUploads (env : UploadEnv) : System UploadWorld :=
  restrictedUploads env fun w i => ¬ w.lateWrite i

/-- **No staged-object leak.** In a run whose uploads are timely, every staged object belongs to a
session that is open, or terminal without evidence. -/
theorem no_staged_leak (env : UploadEnv) {w : UploadWorld}
    (h : (timelyUploads env).Reachable w) : w.NoLeak := by
  refine (h.invariant (I := UploadWorld.Swept) (fun w₀ hinit => ⟨fun id hid => ?_, fun id hid => ?_,
    fun k id ids hk => ?_⟩) fun w₁ w₂ hreach hw hstep =>
      UploadWorld.swept_step (UploadWorld.sound_reachable hreach) hw hstep).noLeak
  · exact absurd (hinit.staging id) hid
  · rw [hinit.cleanups] at hid
    cases hid
  · rw [hinit.stages k] at hk
    cases hk

/-- A party is not late while no evidence is recorded and no other party records any. -/
theorem timely_alone {w : UploadWorld} {i : Nat} (hcleanups : w.db.cleanups = [])
    (hothers : ∀ k, k ≠ i → w.stages k = .idle) : ¬ w.lateWrite i := by
  rintro ⟨session, content, hi, hin | ⟨k, ids, hk⟩⟩
  · rw [hcleanups] at hin
    cases hin
  · by_cases hki : k = i
    · rw [hki, hi] at hk
      cases hk
    · rw [hothers k hki] at hk
      cases hk

/-- One upload, just after it staged its object. -/
theorem no_staged_leak_staged : ∃ s, (letterUploaded 2).db.sessions.find? 1 = some s
    ∧ (s.state.terminal = false ∨ 1 ∉ (letterUploaded 2).db.cleanups) := by
  have hstarted : (timelyUploads letterEnv).Reachable letterStarted :=
    System.Reachable.step (.step (.of_init ⟨rfl, rfl, fun _ => rfl, fun _ => rfl⟩)
      (.initiate 1 "n" 1 none 60)) (.start 0 (.upload 1 [97]) rfl)
  have hread : (timelyUploads letterEnv).Reachable (letterUploaded 1) :=
    hstarted.step (.act 0 letterChoice
      (timely_alone rfl fun k hk => Function.update_of_ne hk _ _))
  have hothers : ∀ k, k ≠ 0 → (letterUploaded 1).stages k = .idle := fun k hk => by
    have hupload : letterStarted.stages 0 = .upload 1 [97] := rfl
    show (letterStarted.act letterEnv 0 letterChoice).stages k = .idle
    unfold UploadWorld.act
    rw [hupload]
    dsimp only [UploadWorld.reading]
    split
    · exact (Function.update_of_ne hk _ _).trans (Function.update_of_ne hk _ _)
    · exact (Function.update_of_ne hk _ _).trans (Function.update_of_ne hk _ _)
  have hstaged : (timelyUploads letterEnv).Reachable (letterUploaded 2) :=
    hread.step (.act 0 letterChoice (timely_alone (by decide +kernel) hothers))
  exact no_staged_leak letterEnv hstaged 1 (by decide +kernel)

/-! ### A late upload -/

/-- The session expires before anything is uploaded, and a cleanup run records its evidence. -/
def lettersCleaned : UploadWorld :=
  (fun w => w.act letterEnv 1 letterChoice)^[5] (UploadWorld.goto { noUploads with
    db := { (initiate letterEnv 1 "n" 1 none 60 noUploads.db).2 with
      toDb := ((Call.tick 100).run .plain
        (initiate letterEnv 1 "n" 1 none 60 noUploads.db).2.toDb).2 } } 1 (.expire 5))

/-- Then the upload arrives. -/
def lateUpload : UploadWorld :=
  (fun w => w.act letterEnv 0 letterChoice)^[2] (lettersCleaned.goto 0 (.upload 1 [97]))

/-- **A late upload leaks.** Its object stays behind after the evidence was recorded. -/
theorem late_upload_leaks : (uploadSystem letterEnv).Reachable lateUpload ∧ ¬ lateUpload.NoLeak := by
  have hinitiated := noUploads_reachable.step (.initiate 1 "n" 1 none 60)
  have hcleaned : (uploadSystem letterEnv).Reachable lettersCleaned :=
    acts_reachable ((hinitiated.step (.queue (.tick 100))).step (.start 1 (.expire 5) rfl))
      1 letterChoice 5
  refine ⟨acts_reachable (hcleaned.step (.start 0 (.upload 1 [97]) rfl)) 0 letterChoice 2,
    fun hnone => ?_⟩
  have hterminal : (lateUpload.db.sessions.find? 1).map (·.state.terminal) = some true := by
    decide +kernel
  have hrecorded : 1 ∈ lateUpload.db.cleanups := by decide +kernel
  obtain ⟨s, hfind, hopen | hclean⟩ := hnone 1 (by decide +kernel)
  · rw [hfind, Option.map_some, hopen] at hterminal
    cases hterminal
  · exact hclean hrecorded

end NanoAural
