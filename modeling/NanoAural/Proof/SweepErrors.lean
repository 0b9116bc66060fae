import NanoAural.Proof.PublicationSafety

/-!
# When a sweep raises

A loop of the sweeper goes on after some errors and lets the others out, so one
publication can end a sweep for all that come behind it. What a repository
raises depends on what the triggers find, and what they find on two facts about
every reachable ledger: a validated row has its blob, a finalized one its
artifact too. From them it follows that one publication alone ends a sweep: one
whose lease is current when the inventory gets to it. Of the stores there is one
thing more, a race no loop goes on after: two sweepers find an object, and the
second to unlink it finds it gone.
-/

namespace NanoAural

open Relational Machine

variable {json : JsonColumn} {allowed : Int → Prop}

/-! ## What the triggers find -/

/-- **Validated rows have their blob, finalized ones their artifact too.** -/
structure Proven (db : Db) : Prop where
  blob : ∀ p ∈ db.publications.rows, p.state = .validated ∨ p.state = .finalized →
    validatedBlob db p = true
  artifact : ∀ p ∈ db.publications.rows, p.state = .finalized → hasMatchingArtifact db p = true

theorem proven_init {db : Db} (h : Registered db) : Proven db := by
  constructor <;> rw [h.publications] <;> simp

/-- The columns both checks read. -/
structure SameOutput (p p' : PublicationRow) : Prop where
  id : p'.id = p.id
  jobId : p'.jobId = p.jobId
  attemptId : p'.attemptId = p.attemptId
  kind : p'.kind = p.kind
  canonicalBlobId : p'.canonicalBlobId = p.canonicalBlobId
  observedSha256 : p'.observedSha256 = p.observedSha256
  observedSizeBytes : p'.observedSizeBytes = p.observedSizeBytes
  observedContentType : p'.observedContentType = p.observedContentType

theorem SameOutput.refl (p : PublicationRow) : SameOutput p p :=
  ⟨rfl, rfl, rfl, rfl, rfl, rfl, rfl, rfl⟩

/-- An artifact that matches goes on matching. -/
theorem hasMatchingArtifact_kept {db db' : Db} {p p' : PublicationRow}
    (hblobs : ∀ id b, db.blobs.find? id = some b → db'.blobs.find? id = some b)
    (hartifacts : ∀ r ∈ db.artifacts.rows, r ∈ db'.artifacts.rows) (hsame : SameOutput p p')
    (h : hasMatchingArtifact db p = true) : hasMatchingArtifact db' p' = true := by
  obtain ⟨r, hr, hmatch⟩ := List.any_eq_true.mp h
  refine List.any_eq_true.mpr ⟨r, hartifacts r hr, ?_⟩
  rw [hsame.id, hsame.jobId, hsame.attemptId, hsame.kind, hsame.canonicalBlobId]
  rw [Bool.and_eq_true] at hmatch ⊢
  refine ⟨hmatch.1, ?_⟩
  obtain ⟨b, hb, hverified⟩ := (Option.any_eq_true _ _).mp hmatch.2
  exact (Option.any_eq_true _ _).mpr ⟨b, hblobs _ _ hb, hverified⟩

/-- What an effect must show of the rows it leaves. -/
theorem Proven.of_rows {db db' : Db} (h : Proven db) (he : Effect json allowed db db')
    (hrows : ∀ p' ∈ db'.publications.rows,
      (∃ p ∈ db.publications.rows, p'.state = p.state ∧ SameOutput p p')
      ∨ ((p'.state = .validated ∨ p'.state = .finalized → validatedBlob db' p' = true)
        ∧ (p'.state = .finalized → hasMatchingArtifact db' p' = true))) : Proven db' := by
  have hblobs : ∀ id b, db.blobs.find? id = some b → db'.blobs.find? id = some b :=
    fun _ _ hb => blob_kept he hb
  have hartifacts : ∀ r ∈ db.artifacts.rows, r ∈ db'.artifacts.rows := by
    intro r hr
    obtain ⟨new, hnew, _⟩ := artifacts_effect he
    rw [hnew]
    exact List.mem_append_left _ hr
  constructor
  · intro p' hp' hs
    rcases hrows p' hp' with ⟨p, hp, hstate, hsame⟩ | ⟨hblob, _⟩
    · rw [hstate] at hs
      exact validatedBlob_kept hblobs hsame.canonicalBlobId hsame.observedSha256
        hsame.observedSizeBytes hsame.observedContentType (h.blob p hp hs)
    · exact hblob hs
  · intro p' hp' hs
    rcases hrows p' hp' with ⟨p, hp, hstate, hsame⟩ | ⟨_, hartifact⟩
    · rw [hstate] at hs
      exact hasMatchingArtifact_kept hblobs hartifacts hsame (h.artifact p hp hs)
    · exact hartifact hs

/-- One row's step leaves its output alone, or validates it, or leaves it neither validated nor
finalized. -/
theorem LedgerStep.output {db : Db} {p p' : PublicationRow} (h : LedgerStep json db p p') :
    (p'.state = p.state ∧ SameOutput p p')
      ∨ ((p'.state = .validated ∨ p'.state = .finalized → validatedBlob db p' = true)
        ∧ p'.state ≠ .finalized) := by
  cases h with
  | recordObject sha256 size hs hc =>
      refine Or.inr ⟨fun h => ?_, fun h => by cases h⟩
      rcases h with h | h <;> cases h
  | recordValidated blobId contentType metadata hs hc hb =>
      exact Or.inr ⟨fun _ => hb, fun h => by cases h⟩
  | reject reason hs hc =>
      refine Or.inr ⟨fun h => ?_, fun h => by cases h⟩
      rcases h with h | h <;> cases h
  | startGrace hs hstale hc => exact Or.inl ⟨rfl, ⟨rfl, rfl, rfl, rfl, rfl, rfl, rfl, rfl⟩⟩
  | abandon since reason hs hstale hc hg =>
      refine Or.inr ⟨fun h => ?_, fun h => by cases h⟩
      rcases h with h | h <;> cases h
  | recordCleanup hs hdel => exact Or.inl ⟨rfl, ⟨rfl, rfl, rfl, rfl, rfl, rfl, rfl, rfl⟩⟩

/-- A ready artifact matches the publication behind it. -/
theorem Backed.hasMatchingArtifact {db : Db} {r : ArtifactRow} {p : PublicationRow}
    (h : Backed db r p) (hr : r ∈ db.artifacts.rows) (hready : r.state = .ready) :
    hasMatchingArtifact db p = true := by
  obtain ⟨b, hb, hverified, _⟩ := visibleRow_backed h
  have hid : p.id = r.publicationId := Table.key_of_find? h.find
  refine List.any_eq_true.mpr ⟨r, hr, ?_⟩
  rw [hid, h.job, h.attempt, h.kind, h.blob, hready, hb]
  simp [hverified]

theorem proven_effect {db db' : Db} (h : Proven db) (he : Effect json allowed db db') :
    Proven db' := by
  -- most effects leave the ledger alone; three are looked at
  have same : db'.publications = db.publications → Proven db' := by
    intro hp
    refine h.of_rows he ?_
    intro p hmem
    exact Or.inl ⟨p, hp ▸ hmem, rfl, .refl p⟩
  have hwhole := he
  cases he with
  | tick | claim | renew | requestCancel | close | blob => exact same rfl
  | @reserve publicationId lease spec tp hc htp =>
      refine h.of_rows hwhole ?_
      intro p' hp'
      have hp' : p' ∈ tp.rows := hp'
      rw [Table.insert?_rows htp] at hp'
      rcases List.mem_append.mp hp' with hp' | hp'
      · exact Or.inl ⟨p', hp', rfl, .refl p'⟩
      · obtain rfl := List.mem_singleton.mp hp'
        refine Or.inr ⟨fun hs => ?_, fun hs => by cases hs⟩
        rcases hs with hs | hs <;> cases hs
  | @ledger p q tp hp hs htp =>
      refine h.of_rows hwhole ?_
      intro p' hp'
      rcases (Table.mem_put? htp).mp hp' with ⟨hold, _⟩ | ⟨rfl, _⟩
      · exact Or.inl ⟨p', hold, rfl, .refl p'⟩
      -- either the output of the row stays, or it is written by what checks the blob
      · rcases hs.output with ⟨hstate, hsame⟩ | ⟨hblob, hne⟩
        · exact Or.inl ⟨p, Table.mem_of_find? hp, hstate, hsame⟩
        · exact Or.inr ⟨hblob, fun hs => absurd hs hne⟩
  | @win lease a j w items artifactId tp tr ta tj tw te hh hu hc hitems htp htr hta htj htw hte =>
      refine h.of_rows hwhole ?_
      intro p' hp'
      have hp' : p' ∈ tp.rows := hp'
      rw [htp, finalizedRows] at hp'
      obtain ⟨q, hq, rfl⟩ := List.mem_map.mp hp'
      by_cases hitem : q.id ∈ items.map PublicationRow.id
      · obtain ⟨q', hq', hid⟩ := List.mem_map.mp hitem
        obtain rfl : q' = q := Table.eq_of_key (hitems.rows q' hq') hq hid
        rw [if_pos hitem]
        refine Or.inr ⟨fun _ => ?_, fun _ => ?_⟩
        · exact hitems.blob q' hq'
        -- the artifact of a final row is inserted by the same statement
        · have hbacked : Backed { db with publications := tp, artifacts := tr, attempts := ta,
                                          jobs := tj, workers := tw, events := te }
              (artifactOf json (artifactId q'.id) lease (q'.canonicalBlobId.getD 0) q')
              (q'.finalize db.clock) := by
            refine backed_win hitems htp ?_ hq'
            rfl
          refine hbacked.hasMatchingArtifact ?_ rfl
          show _ ∈ tr.rows
          rw [htr]
          exact List.mem_append_right _ (mem_artifactsOf.mpr ⟨q', hq', rfl⟩)
      · rw [if_neg hitem]
        exact Or.inl ⟨q, hq, rfl, .refl q⟩

theorem proven_reachable {db : Db} (h : (openSystem json).Reachable db) : Proven db :=
  (invariant_of_effects json (fun _ => True) (I := Proven) (fun _ _ _ _ => trivial)
    (fun _ => proven_init) (fun _ _ _ hI he => proven_effect hI he) h).2

/-! ## Rewrites that go through -/

section Rewrites

variable {db : Db} {p out : PublicationRow}

/-- A row whose identity stays can be written, if it passes its checks. -/
theorem put_publication (hp : p ∈ db.publications.rows) (hsame : SameOutput p out)
    (hc : out.check = true) : ∃ tp, db.publications.put? out = some tp := by
  refine Table.put?_of hc ?_
  intro x hx hne
  have hne : x.id ≠ out.id := hne
  have hclash : Schema.clash x out = Schema.clash x p := by
    show (x.attemptId == out.attemptId && x.kind == out.kind)
      = (x.attemptId == p.attemptId && x.kind == p.kind)
    rw [hsame.attemptId, hsame.kind]
  rw [hclash]
  by_contra hclashes
  rw [Bool.not_eq_false] at hclashes
  have hxp : x = p := Table.eq_of_clash hx hp hclashes
  rw [hxp, hsame.id] at hne
  exact hne rfl

/-- What a rewrite defers is found at the commit. -/
theorem publication_verified {tp : Table PublicationRow} (hl : Ledgered db) (hproven : Proven db)
    (hp : p ∈ db.publications.rows) (hsame : SameOutput p out)
    (hstate : out.state = .finalized → p.state = .finalized)
    (htp : db.publications.put? out = some tp) :
    ∀ d ∈ publicationsTable.deferred out, d.verify { db with publications := tp } = .ok () := by
  have hfind : db.publications.find? (Schema.key out) = some p := by
    show db.publications.find? out.id = some p
    rw [hsame.id]
    exact Table.find?_of_mem hp
  intro d hd
  simp only [publicationsTable, List.mem_cons, List.not_mem_nil, or_false] at hd
  rcases hd with rfl | rfl
  · show ensurePublicationArtifactProof { db with publications := tp } out.id = .ok ()
    have hself : tp.find? out.id = some out := Table.put?_self htp hfind
    unfold ensurePublicationArtifactProof
    simp only [hself]
    refine raiseFirst_ok.mpr ?_
    intro g hg
    obtain rfl := List.mem_singleton.mp hg
    show (out.state == .finalized
      && !hasMatchingArtifact { db with publications := tp } out) = false
    cases hs : out.state == PublicationState.finalized with
    | false => rfl
    | true =>
        have hfinal := hproven.artifact p hp (hstate (beq_iff_eq.mp hs))
        have hkept : hasMatchingArtifact { db with publications := tp } out = true :=
          hasMatchingArtifact_kept (fun _ _ h => h) (fun _ h => h) hsame hfinal
        rw [hkept]
        rfl
  · -- the attempt the row was reserved under is there
    obtain ⟨a, ha, hjob, _⟩ := hl.issued p hp
    have ha : db.attempts.find? p.attemptId = some a := ha
    have hjob : a.jobId = p.jobId := hjob
    refine raiseFirst_ok.mpr ?_
    intro g hg
    obtain rfl := List.mem_singleton.mp hg
    show (!((db.attempts.find? out.attemptId).any (·.jobId == out.jobId))) = false
    rw [hsame.attemptId, hsame.jobId, ha, Option.any_some, hjob, beq_self_eq_true]
    rfl

/-- **An update of the ledger that its triggers let through is committed.** -/
theorem update_publication_commits (cond : PublicationRow → Bool)
    (set : PublicationRow → PublicationRow) (hl : Ledgered db) (hproven : Proven db)
    (hp : p ∈ db.publications.rows) (hcond : cond p = true)
    (hb : publicationBeforeUpdate db p (set p) = .ok out) (hsame : SameOutput p out)
    (hstate : out.state = .finalized → p.state = .finalized) (hc : out.check = true) :
    ∃ tp, update publicationsTable p.id cond set ⟨db, []⟩
        = .ok (1, ⟨{ db with publications := tp }, publicationsTable.deferred out⟩)
      ∧ tp.find? p.id = some out
      ∧ ∀ d ∈ publicationsTable.deferred out, d.verify { db with publications := tp } = .ok () := by
  obtain ⟨tp, htp⟩ := put_publication hp hsame hc
  have hfind : db.publications.find? p.id = some p := Table.find?_of_mem hp
  refine ⟨tp, ?_, ?_, publication_verified hl hproven hp hsame hstate htp⟩
  · have hrun := update_run (T := publicationsTable) (s := ⟨db, []⟩) hfind hcond hb htp
    rw [hrun]
    rfl
  · have hself : tp.find? out.id = some out := by
      have hold : db.publications.find? out.id = some p := by
        rw [hsame.id]
        exact hfind
      exact Table.put?_self htp hold
    rw [← hsame.id]
    exact hself

/-! ### The rows a sweeper writes -/

theorem check_recordCleanup {now : Time} (hc : p.check = true) (hs : p.state.terminal = true) :
    (p.recordCleanup now).check = true := by
  have hshape : (p.recordCleanup now).shape = p.shape := rfl
  have hkey : (p.recordCleanup now).key = p.key := rfl
  simp only [PublicationRow.check, Bool.and_eq_true, hshape, hkey] at hc ⊢
  obtain ⟨⟨⟨hcolumns, _⟩, hkeyed⟩, hshaped⟩ := hc
  refine ⟨⟨⟨hcolumns, ?_⟩, hkeyed⟩, hshaped⟩
  show (_ || p.state.terminal) = true
  rw [hs, Bool.or_true]

theorem check_startGrace {now : Time} (hc : p.check = true) (hs : p.state.terminal = false) :
    (p.startGrace now).check = true := by
  have hshape : (p.startGrace now).shape = p.shape := by
    have hstate : (p.startGrace now).state = p.state := rfl
    unfold PublicationRow.shape
    rw [hstate]
    cases hp : p.state with
    | reserved | objectWritten | validated => rfl
    | finalized | rejected | abandoned =>
        rw [hp] at hs
        cases hs
  have hkey : (p.startGrace now).key = p.key := rfl
  simp only [PublicationRow.check, Bool.and_eq_true, hshape, hkey] at hc ⊢
  exact hc

theorem check_abandoned {reason : String} {now since : Time} (hc : p.check = true)
    (hs : p.state.terminal = false) (hstale : p.staleSince = some since)
    (hreason : sqlTrimmed reason = true) :
    (p.terminalize .abandoned reason now).check = true := by
  have hdel := p.check_deleted hc hs
  have hshape : (p.terminalize .abandoned reason now).shape = true := by
    simp [PublicationRow.shape, PublicationRow.terminalize, hstale, hreason]
  have hkey : (p.terminalize .abandoned reason now).key = p.key := rfl
  simp only [PublicationRow.check, Bool.and_eq_true, hshape, hkey] at hc ⊢
  obtain ⟨⟨⟨hcolumns, _⟩, hkeyed⟩, _⟩ := hc
  refine ⟨⟨⟨hcolumns, ?_⟩, hkeyed⟩, trivial⟩
  show (p.attemptObjectDeletedAt.isNone || _) = true
  rw [hdel]
  rfl

end Rewrites

/-! ## What the sweeper's calls raise -/

section Calls

variable {db : Db} {p : PublicationRow} {version : Nat}

/-- **`record_cleanup` raises nothing but a lost race**, where the row is there. -/
theorem recordCleanup_raises {e : Error} (hl : Ledgered db) (hproven : Proven db)
    (hp : p ∈ db.publications.rows) (h : (recordCleanup p.id version db).1 = .error e) :
    e = .transition "publication cleanup CAS lost" := by
  have hfind : db.publications.find? p.id = some p := Table.find?_of_mem hp
  have hselect : ∀ s : Session Db Deferred, s.db = db → selectRecord p.id s = .ok (p, s) := by
    intro s hs
    exact selectRecord_ok.mpr ⟨hs ▸ hfind, rfl⟩
  cases hguard : p.version == version && p.state.terminal && p.attemptObjectDeletedAt.isNone with
  | false =>
      have herror : recordCleanup p.id version db
          = (.error (.transition "publication cleanup CAS lost"), db) := by
        refine transaction_error ?_
        rw [Tx.bind_eval (hselect _ rfl), Tx.ensure_fails hguard]
      rw [herror] at h
      exact (Except.error.inj h).symm
  | true =>
      have hguard' := hguard
      simp only [Bool.and_eq_true, beq_iff_eq, Option.isNone_iff_eq_none] at hguard'
      obtain ⟨⟨hv, hs⟩, hdel⟩ := hguard'
      have hc : p.check = true := db.publications.checked p hp
      have hsame : SameOutput p (p.recordCleanup db.clock) :=
        ⟨rfl, rfl, rfl, rfl, rfl, rfl, rfl, rfl⟩
      have hb : publicationBeforeUpdate db p (p.recordCleanup db.clock)
          = .ok (p.recordCleanup db.clock) :=
        (update_recordCleanup hs hdel).mpr ⟨rfl, fun hf => hproven.blob p hp (Or.inr hf)⟩
      obtain ⟨tp, hupdate, hself, hverified⟩ := update_publication_commits
        (fun p => p.version == version && p.attemptObjectDeletedAt.isNone
          && p.state.terminal) (PublicationRow.recordCleanup db.clock) hl hproven hp
        (by simp [hv, hs, hdel]) hb hsame id (check_recordCleanup hc hs)
      have hok : recordCleanup p.id version db
          = (.ok (p.recordCleanup db.clock), { db with publications := tp }) := by
        refine transaction_commit (s := ⟨{ db with publications := tp },
          publicationsTable.deferred (p.recordCleanup db.clock)⟩) ?_ hverified
        rw [Tx.bind_eval (hselect _ rfl), Tx.ensure_eval hguard, select_bind,
          Tx.bind_eval hupdate, Tx.ensure_eval (beq_self_eq_true 1)]
        exact selectRecord_ok.mpr ⟨hself, rfl⟩
      rw [hok] at h
      cases h

/-- The publication a sweeper may not abandon: open, never stale, its lease current. -/
structure InUse (db : Db) (version : Nat) (p : PublicationRow) : Prop where
  version : p.version = version
  opened : p.state.terminal = false
  fresh : p.staleSince = none
  current : Current db p.lease

/-- What the trigger says of it. -/
def stillCurrent : Error := .database "current publication cannot begin stale grace"

/-- **`abandon` raises for a publication in use what no loop goes on after.** -/
theorem abandon_inUse {reason : String} (hreason : isBlank reason = false)
    (hp : p ∈ db.publications.rows) (h : InUse db version p) :
    (abandon p.id version reason db).1 = .error stillCurrent := by
  have hfind : db.publications.find? p.id = some p := Table.find?_of_mem hp
  have hopen : p.state.open = true := open_iff.mpr h.opened
  have hb : publicationBeforeUpdate db p (p.startGrace db.clock) = .error stillCurrent := by
    have hcurrent : leaseIsCurrent db (p.startGrace db.clock) = true :=
      leaseIsCurrent_iff.mpr h.current
    unfold publicationBeforeUpdate ensurePublicationCurrentLease
    rw [if_neg (by simp [h.opened]), if_pos (by simp [PublicationRow.startGrace, h.fresh]),
      if_pos hcurrent]
    rfl
  have hupdate : update publicationsTable p.id
      (fun p => p.version == version && p.staleSince.isNone && p.state.open)
      (PublicationRow.startGrace db.clock) ⟨db, []⟩ = .error stillCurrent := by
    unfold update
    simp only [publicationsTable, hfind, hb, h.version, h.fresh, hopen, beq_self_eq_true,
      Option.isNone_none, Bool.and_self, if_true]
  have hbody : abandonRow p.id version reason ⟨db, []⟩ = .error stillCurrent := by
    unfold abandonRow
    rw [Tx.ensure_eval (by simp [hreason]),
      Tx.bind_eval (selectRecord_ok.mpr ⟨hfind, rfl⟩),
      Tx.ensure_eval (by simp [h.version, hopen]), select_bind, h.fresh]
    exact Tx.bind_error hupdate
  unfold abandon
  rw [show commit (abandonRow p.id version reason) db = (.error stillCurrent, db) from
    transaction_error hbody]

/-- **For any other publication it raises nothing but a lost race or a grace period that runs.** -/
theorem abandon_raises {reason : String} {e : Error} (hl : Ledgered db) (hproven : Proven db)
    (hreason : isBlank reason = false) (htrimmed : sqlTrimmed reason = true)
    (hp : p ∈ db.publications.rows) (hunused : ¬ InUse db version p)
    (h : (abandon p.id version reason db).1 = .error e) : ∃ message, e = .transition message := by
  have hfind : db.publications.find? p.id = some p := Table.find?_of_mem hp
  have hc : p.check = true := db.publications.checked p hp
  -- an error of the transaction is an error of the call
  have herror : ∀ err, abandonRow p.id version reason ⟨db, []⟩ = .error err → e = err := by
    intro err hbody
    unfold abandon at h
    rw [show commit (abandonRow p.id version reason) db = (.error err, db) from
      transaction_error hbody] at h
    exact (Except.error.inj h).symm
  have hselect : selectRecord p.id ⟨db, []⟩ = .ok (p, ⟨db, []⟩) :=
    selectRecord_ok.mpr ⟨hfind, rfl⟩
  cases hguard : p.version == version && p.state.open with
  | false =>
      refine ⟨"publication abandon CAS lost", herror _ ?_⟩
      unfold abandonRow
      rw [Tx.ensure_eval (by simp [hreason]), Tx.bind_eval hselect, Tx.ensure_fails hguard]
  | true =>
      have hguard' := hguard
      simp only [Bool.and_eq_true, beq_iff_eq] at hguard'
      obtain ⟨hv, hopen⟩ := hguard'
      have hs := open_iff.mp hopen
      cases hstale : p.staleSince with
      | none =>
          have hgone : ¬ Current db p.lease := fun hcur => hunused ⟨hv, hs, hstale, hcur⟩
          have hb : publicationBeforeUpdate db p (p.startGrace db.clock)
              = .ok (p.startGrace db.clock) :=
            (update_startGrace hc hs hstale).mpr
              ⟨hgone, rfl, fun hval => hproven.blob p hp (Or.inl hval)⟩
          obtain ⟨tp, hupdate, hself, hverified⟩ := update_publication_commits
            (fun p => p.version == version && p.staleSince.isNone && p.state.open)
            (PublicationRow.startGrace db.clock) hl hproven hp
            (by simp [hv, hstale, hopen]) hb ⟨rfl, rfl, rfl, rfl, rfl, rfl, rfl, rfl⟩ id
            (check_startGrace hc hs)
          have hok : commit (abandonRow p.id version reason) db
              = (.ok (true, p.startGrace db.clock), { db with publications := tp }) := by
            refine transaction_commit (s := ⟨{ db with publications := tp },
              publicationsTable.deferred (p.startGrace db.clock)⟩) ?_ hverified
            unfold abandonRow
            rw [Tx.ensure_eval (by simp [hreason]), Tx.bind_eval hselect, Tx.ensure_eval hguard,
              select_bind, hstale]
            dsimp only
            rw [Tx.bind_eval hupdate, Tx.ensure_eval (beq_self_eq_true 1),
              Tx.bind_eval (selectRecord_ok.mpr ⟨hself, rfl⟩)]
            rfl
          unfold abandon at h
          rw [hok] at h
          exact ⟨_, (Except.error.inj h).symm⟩
      | some since =>
          by_cases hg : since + staleGrace ≤ db.clock
          · have hgone : ¬ Current db p.lease :=
              hl.staleGone p hp (by rw [hstale]; rfl)
            have hb : publicationBeforeUpdate db p (p.terminalize .abandoned reason db.clock)
                = .ok (p.terminalize .abandoned reason db.clock) :=
              (update_abandon hc hs hstale).mpr ⟨hgone, hg, rfl⟩
            obtain ⟨tp, hupdate, hself, hverified⟩ := update_publication_commits
              (fun p => p.version == version && p.state.open)
              (PublicationRow.terminalize .abandoned reason db.clock) hl hproven hp
              (by simp [hv, hopen]) hb ⟨rfl, rfl, rfl, rfl, rfl, rfl, rfl, rfl⟩
              (fun hf => by cases hf) (check_abandoned hc hs hstale htrimmed)
            have hok : commit (abandonRow p.id version reason) db
                = (.ok (false, p.terminalize .abandoned reason db.clock),
                  { db with publications := tp }) := by
              refine transaction_commit (s := ⟨{ db with publications := tp },
                publicationsTable.deferred (p.terminalize .abandoned reason db.clock)⟩) ?_
                hverified
              unfold abandonRow
              rw [Tx.ensure_eval (by simp [hreason]), Tx.bind_eval hselect,
                Tx.ensure_eval hguard, select_bind, hstale]
              dsimp only
              rw [Tx.ensure_eval (decide_eq_true hg), Tx.bind_eval hupdate,
                Tx.ensure_eval (beq_self_eq_true 1),
                Tx.bind_eval (selectRecord_ok.mpr ⟨hself, rfl⟩)]
              rfl
            unfold abandon at h
            rw [hok] at h
            cases h
          · refine ⟨"publication stale grace has not elapsed", herror _ ?_⟩
            unfold abandonRow
            rw [Tx.ensure_eval (by simp [hreason]), Tx.bind_eval hselect, Tx.ensure_eval hguard,
              select_bind, hstale]
            exact Tx.ensure_fails (decide_eq_false hg)

end Calls

/-! ## The sweeper's steps -/

/-- The stages of `sweep`. -/
def ServiceStage.sweeping : ServiceStage → Bool
  | .sweep .. | .clean .. | .orphans _ | .keys .. | .inventory _ | .known .. | .page .. | .get ..
  | .abandon .. | .discard .. | .discardUnlink .. | .stat .. | .delete .. | .deleteUnlink ..
  | .recordCleanup .. => true
  | _ => false

/-- The key of the object a sweep has found and is about to unlink. -/
def ServiceStage.unlinking : ServiceStage → Option AttemptKey
  | .discardUnlink _ key _ => some key
  | .deleteUnlink _ record _ _ => some record.key
  | _ => none

namespace ServiceWorld

variable {env : ServiceEnv} {w : ServiceWorld} {i : Nat}

@[simp] theorem goto_stages (w : ServiceWorld) (i : Nat) (stage : ServiceStage) :
    (w.goto i stage).stages i = stage := Function.update_self ..

theorem next_ne_raised {loop : SweepLoop} {s : Sweep} {e : ServiceRaise} :
    loop.next s ≠ .raised e := by
  cases loop with
  | clean | keys | page => exact fun h => by cases h

/-- A repository call outside a loop lets every error out. -/
theorem called_raises {α : Type} {x : Except Error α × Db} {next : α → ServiceStage}
    {e : ServiceRaise} (h : (w.called i x next).stages i = .raised e) :
    (∃ err, x.1 = .error err ∧ e = .durable err) ∨ ∃ a, x.1 = .ok a ∧ next a = .raised e := by
  unfold called at h
  cases hx : x.1 with
  | error err =>
      simp only [hx, goto_stages, ServiceStage.raised.injEq] at h
      exact Or.inl ⟨err, rfl, h.symm⟩
  | ok a =>
      simp only [hx, goto_stages] at h
      exact Or.inr ⟨a, rfl, h⟩

/-- One in a loop lets out those the loop does not go on after. -/
theorem tried_raises {α : Type} {s : Sweep} {loop : SweepLoop} {x : Except Error α × Db}
    {next : α → ServiceStage} {e : ServiceRaise}
    (h : (w.tried i s loop x next).stages i = .raised e) :
    (∃ err, x.1 = .error err ∧ loop.passes err = false ∧ e = .durable err)
      ∨ ∃ a, x.1 = .ok a ∧ next a = .raised e := by
  unfold tried at h
  cases hx : x.1 with
  | error err =>
      simp only [hx, goto_stages] at h
      split at h
      · exact absurd h next_ne_raised
      · rename_i hpasses
        exact Or.inl ⟨err, rfl, by simpa using hpasses, (ServiceStage.raised.inj h).symm⟩
  | ok a =>
      simp only [hx, goto_stages] at h
      exact Or.inr ⟨a, rfl, h⟩

theorem passes_transition (loop : SweepLoop) (message : String) :
    loop.passes (.transition message) = true := by
  cases loop with
  | clean | keys | page => rfl

/-- A race lost to the ledger never ends a sweep. -/
theorem not_passes {loop : SweepLoop} {err : Error} (hpasses : loop.passes err = false)
    (h : ∃ message, err = .transition message) : False := by
  obtain ⟨message, rfl⟩ := h
  rw [passes_transition] at hpasses
  cases hpasses

/-- The directories of an object whose row has ended are there. -/
theorem Closed.directory {key : AttemptKey} (hs : Stored env w) (h : Closed w key) :
    w.directories key.directory = true := by
  obtain ⟨p, hp, hkey, ht⟩ := h
  rw [← hkey]
  refine (hs.rows p hp).placed ?_
  intro hreserved
  rw [hreserved] at ht
  cases ht

/-- Where the directories of an object are there, looking for it raises nothing. -/
theorem soughtFor_ne_raised {key : AttemptKey} {missing absent present : ServiceStage}
    {e : ServiceRaise} (hdirectory : w.directories key.directory = true)
    (habsent : absent ≠ .raised e) (hpresent : present ≠ .raised e) :
    w.soughtFor key missing absent present ≠ .raised e := by
  unfold soughtFor
  rw [hdirectory, Bool.not_true, if_neg Bool.false_ne_true]
  split
  · exact habsent
  · exact hpresent

/-- Unlinking raises where the object is gone. -/
theorem unlinked_raises {key : AttemptKey} {next : ServiceStage} {e : ServiceRaise}
    (hnext : next ≠ .raised e) :
    (w.unlinked i key (.raised .fileNotFound) next).stages i = .raised e
      ↔ w.attempts key = none ∧ e = .fileNotFound := by
  unfold unlinked
  cases w.attempts key with
  | none =>
      rw [goto_stages]
      exact ⟨fun h => ⟨rfl, (ServiceStage.raised.inj h).symm⟩, fun h => by rw [h.2]⟩
  | some _ =>
      rw [goto_stages]
      exact ⟨fun h => absurd h hnext, fun h => by cases h.1⟩

/-- `get` finds the row it is asked for, or says that it is not there. -/
theorem getPublication_cases (id : Uuid) (db : Db) :
    (∃ p ∈ db.publications.rows, p.id = id ∧ (getPublication id db).1 = .ok p)
      ∨ (getPublication id db).1 = .error publicationNotFound := by
  cases hfind : db.publications.find? id with
  | some p =>
      refine Or.inl ⟨p, Table.mem_of_find? hfind, Table.key_of_find? hfind, ?_⟩
      have hget : getPublication id db = (.ok p, db) :=
        transaction_commit (selectRecord_ok.mpr ⟨hfind, rfl⟩) fun d hd => by cases hd
      rw [hget]
  | none =>
      refine Or.inr ?_
      have hget : getPublication id db = (.error publicationNotFound, db) := by
        refine transaction_error ?_
        unfold selectRecord
        rw [select_bind, hfind]
        rfl
      rw [hget]

theorem cleanupCandidates_total {before : Time} {limit : Int} {e : Error} {db : Db}
    (hlimit : ¬ limit < 1) : (cleanupCandidates before limit db).1 ≠ .error e := by
  have hlift : limitPositive limit = .ok () := by
    rw [limitPositive, if_neg hlimit]
  unfold cleanupCandidates
  rw [show commit _ db = _ from transaction_commit (s := ⟨db, []⟩) (by
    rw [Tx.lift_eval hlift]
    rfl) fun d hd => by cases hd]
  exact fun h => by cases h

theorem orphanKeysBefore_total {before : Time} {limit : Int} {e : Error} {db : Db}
    (hlimit : ¬ limit < 1) : (orphanKeysBefore before limit db).1 ≠ .error e := by
  have hlift : limitPositive limit = .ok () := by
    rw [limitPositive, if_neg hlimit]
  unfold orphanKeysBefore
  rw [show commit _ db = _ from transaction_commit (s := ⟨db, []⟩) (by
    rw [Tx.lift_eval hlift]
    rfl) fun d hd => by cases hd]
  exact fun h => by cases h

/-- The heads of the loops raise nothing. -/
theorem keysHead_ne_raised {s : Sweep} {keys : List AttemptKey} {e : ServiceRaise} :
    keysHead s keys ≠ .raised e := by
  cases keys with
  | nil =>
      simp only [keysHead]
      split <;> simp
  | cons key rest =>
      simp only [keysHead]
      split
      · simp
      · split <;> simp

theorem pageHead_ne_raised {s : Sweep} {known keys : List AttemptKey} {e : ServiceRaise} :
    pageHead s known keys ≠ .raised e := by
  cases keys with
  | nil => simp [pageHead]
  | cons key rest =>
      simp only [pageHead]
      split
      · simp
      · split <;> simp

theorem keyed_raises {record : PublicationRow} {next : ServiceStage} {e : ServiceRaise}
    (hkey : recordKey record = .ok record.key) (h : keyed record next = .raised e) :
    next = .raised e := by
  unfold keyed at h
  rw [hkey] at h
  exact h

/-- **A key the sweeper has got to is the key of the row it reads.** -/
theorem listed_key {key : AttemptKey} {loop : SweepLoop} {record : PublicationRow}
    (hs : Stored env w) (hlisted : Listed w key loop) (hmem : record ∈ w.db.publications.rows)
    (hid : record.id = key.publicationId) : record.key = key := by
  have hrow : ∀ p ∈ w.db.publications.rows, p.key = key → record.key = key := by
    intro p hp hkey
    have hpid : p.id = record.id := (congrArg AttemptKey.publicationId hkey).trans hid.symm
    rw [Table.eq_of_key hmem hp hpid.symm]
    exact hkey
  cases loop with
  | clean rest =>
      obtain ⟨p, hp, hkey, _⟩ := hlisted
      exact hrow p hp hkey
  | keys rest =>
      obtain ⟨_, p, hp, hkey, _⟩ := hlisted
      exact hrow p hp hkey
  | page rest known =>
      rcases (hs.journal key hlisted).2 with hstrange | ⟨p, hp, hkey⟩
      · -- no row is drawn under a strange identifier
        have hdrawn := hs.drawn record hmem
        rw [hid, hstrange] at hdrawn
        cases hdrawn
      · exact hrow p hp hkey

theorem sweepRecord_ne_raised {s : Sweep} {key : AttemptKey} {loop : SweepLoop}
    {record : PublicationRow} {e : ServiceRaise} (hkey : record.key = key)
    (hmem : record ∈ w.db.publications.rows) : sweepRecord s key loop record ≠ .raised e := by
  unfold sweepRecord
  rw [recordKey_of_mem hmem]
  dsimp only
  rw [if_neg (by simp [hkey])]
  split <;> simp

/-- Only an inventory leads to a publication in use. -/
theorem listed_page {record p : PublicationRow} {loop : SweepLoop}
    (hlisted : Listed w record.key loop) (hmem : p ∈ w.db.publications.rows)
    (hkey : p.key = record.key) (huse : InUse w.db record.version p) :
    ∃ rest known, loop = .page rest known := by
  cases loop with
  | page rest known => exact ⟨rest, known, rfl⟩
  | clean rest =>
      obtain ⟨q, hq, hqkey, ht⟩ := hlisted
      rw [eq_of_objectKey hq hmem (hqkey.trans hkey.symm), huse.opened] at ht
      cases ht
  | keys rest =>
      obtain ⟨_, q, hq, hqkey, hwhy⟩ := hlisted
      rw [eq_of_objectKey hq hmem (hqkey.trans hkey.symm)] at hwhy
      rcases hwhy with ht | hgone
      · rw [huse.opened] at ht
        cases ht
      · exact absurd huse.current hgone

theorem sweepGet_ne_raised {s : Sweep} {key : AttemptKey} {loop : SweepLoop} {e : ServiceRaise}
    (hs : Stored env w) (hlisted : Listed w key loop) :
    (w.sweepGet i s key loop).stages i ≠ .raised e := by
  unfold sweepGet
  rcases getPublication_cases key.publicationId w.db with ⟨p, hp, hid, hget⟩ | hget
  · simp only [hget, goto_stages]
    exact sweepRecord_ne_raised (listed_key hs hlisted hp hid) hp
  · simp only [hget, publicationNotFound]
    cases loop with
    | clean | keys =>
        rw [goto_stages]
        exact next_ne_raised
    | page =>
        rw [goto_stages]
        exact fun h => by cases h

/-- What `abandon` raises in a loop is that the publication is in use. -/
theorem abandon_tried {s : Sweep} {record : PublicationRow} {loop : SweepLoop} {e : ServiceRaise}
    (hs : Stored env w) (hok : StageOk env w (.abandon s record loop)) :
    (w.tried i s loop (NanoAural.abandon record.id record.version loop.reason w.db)
      fun abandoned => keyed abandoned (.stat s abandoned loop)).stages i = .raised e ↔
    e = .durable stillCurrent ∧ (∃ rest known, loop = .page rest known)
      ∧ ∃ p ∈ w.db.publications.rows, p.id = record.id ∧ InUse w.db record.version p := by
  obtain ⟨hplaced, hlisted, _⟩ := hok
  obtain ⟨p, hp, hd⟩ := hplaced.known
  have hid : p.id = record.id := hd.id
  have hreason : isBlank loop.reason = false ∧ sqlTrimmed loop.reason = true := by
    have horphan : isBlank "orphan_sweep" = false ∧ sqlTrimmed "orphan_sweep" = true := by
      decide
    have hinventory : isBlank "orphan_inventory_sweep" = false
        ∧ sqlTrimmed "orphan_inventory_sweep" = true := by decide
    cases loop with
    | clean | keys => exact horphan
    | page => exact hinventory
  constructor
  · intro h
    rcases tried_raises h with ⟨err, herr, hpasses, rfl⟩ | ⟨abandoned, hok, hnext⟩
    · rw [← hid] at herr
      by_cases huse : InUse w.db record.version p
      · rw [abandon_inUse hreason.1 hp huse] at herr
        obtain rfl := Except.error.inj herr
        exact ⟨rfl, listed_page hlisted hp hd.evidence.objectKey huse, p, hp, hid, huse⟩
      · exact absurd (abandon_raises hs.ledgered (proven_reachable hs.db) hreason.1 hreason.2 hp
          huse herr) (not_passes hpasses)
    · -- the row it returns has the key its identity says
      cases keyed_raises (recordKey_of_mem (abandon_ended hok).1) hnext
  · rintro ⟨rfl, ⟨rest, known, rfl⟩, q, hq, hqid, huse⟩
    have herr := abandon_inUse hreason.1 hq huse
    rw [hqid] at herr
    unfold tried
    rw [herr]
    exact goto_stages ..

end ServiceWorld

open ServiceWorld

/--
**One publication alone ends a sweep, and one race.**

In every reachable state, whatever the other parties are at: a step of a sweep raises exactly where
the limit was not positive, where the inventory has brought the sweep to an open publication that
was never stale and whose lease is current, or where somebody else has unlinked the object that the
sweep has found and is about to unlink. Every race lost to the ledger is passed over, and no key,
directory or trigger stands in its way.
-/
theorem sweep_raises_iff (env : ServiceEnv) (w : ServiceWorld) (i : Nat) (choice : Choice)
    (e : ServiceRaise) (h : (serviceSystem env).Reachable w)
    (hsweeping : (w.stages i).sweeping = true) :
    (w.act env i choice).stages i = .raised e ↔
      (∃ before limit, w.stages i = .sweep before limit ∧ limit < 1
        ∧ e = .durable (.value "limit must be positive"))
      ∨ (∃ s record rest known, w.stages i = .abandon s record (.page rest known)
        ∧ e = .durable stillCurrent
        ∧ ∃ p ∈ w.db.publications.rows, p.id = record.id ∧ InUse w.db record.version p)
      ∨ ∃ key, (w.stages i).unlinking = some key ∧ w.attempts key = none ∧ e = .fileNotFound := by
  have hsound := sound_reachable h
  have hs := hsound.stored
  have hok := hsound.stages i
  -- three stages can raise; of all others the invariant says why they do not
  cases hstage : w.stages i with
  | sweep before limit =>
      simp only [act, hstage, ServiceStage.sweep.injEq, ServiceStage.unlinking, reduceCtorEq,
        false_and, exists_false, or_false]
      by_cases hlimit : limit < 1
      · simp only [hlimit, if_true, goto_stages, ServiceStage.raised.injEq]
        constructor
        · rintro rfl
          exact ⟨before, limit, ⟨rfl, rfl⟩, hlimit, rfl⟩
        · rintro ⟨_, _, _, _, rfl⟩
          rfl
      · rw [if_neg hlimit]
        constructor
        · intro hraised
          rcases called_raises hraised with ⟨err, herr, _⟩ | ⟨records, _, hnext⟩
          · exact absurd herr (cleanupCandidates_total hlimit)
          · cases hnext
        · rintro ⟨_, _, ⟨rfl, rfl⟩, hlt, _⟩
          exact absurd hlt hlimit
  | abandon s record loop =>
      rw [hstage] at hok
      simp only [act, hstage, ServiceStage.abandon.injEq, ServiceStage.unlinking, reduceCtorEq,
        false_and, exists_false, false_or, or_false]
      -- the one call of a loop whose error the loop may let through
      rw [abandon_tried hs hok]
      constructor
      · rintro ⟨he, ⟨rest, known, rfl⟩, hrow⟩
        exact ⟨s, record, rest, known, ⟨rfl, rfl, rfl⟩, he, hrow⟩
      · rintro ⟨_, _, rest, known, ⟨rfl, rfl, rfl⟩, he, hrow⟩
        exact ⟨he, ⟨rest, known, rfl⟩, hrow⟩
  | clean s records =>
      rw [hstage] at hok
      simp only [ServiceStage.unlinking, reduceCtorEq, false_and, exists_false, or_false, iff_false]
      intro hraised
      cases records with
      | nil =>
          simp only [act, hstage, goto_stages] at hraised
          split at hraised <;> cases hraised
      | cons record rest =>
          simp only [act, hstage, goto_stages] at hraised
          have hkey := (hok record (List.mem_cons_self ..)).2
          cases keyed_raises hkey hraised
  | orphans s =>
      rw [hstage] at hok
      simp only [ServiceStage.unlinking, reduceCtorEq, false_and, exists_false, or_false, iff_false]
      intro hraised
      simp only [act, hstage] at hraised
      rcases called_raises hraised with ⟨err, herr, _⟩ | ⟨keys, _, hnext⟩
      · have hremaining : s.remaining ≠ 0 := hok
        exact orphanKeysBefore_total (by omega) herr
      · cases hnext
  | keys s keys =>
      simp only [act, hstage, goto_stages, ServiceStage.unlinking, reduceCtorEq, false_and,
        exists_false, or_false, iff_false]
      exact keysHead_ne_raised
  | inventory s => simp [act, hstage, ServiceStage.unlinking]
  | known s inventory => simp [act, hstage, ServiceStage.unlinking]
  | page s inventory known =>
      simp only [act, hstage, goto_stages, ServiceStage.unlinking, reduceCtorEq, false_and,
        exists_false, or_false, iff_false]
      exact pageHead_ne_raised
  | get s key loop =>
      rw [hstage] at hok
      simp only [act, hstage, ServiceStage.unlinking, reduceCtorEq, false_and, exists_false,
        or_false, iff_false]
      exact sweepGet_ne_raised hs hok.1
  | discard s key loop =>
      rw [hstage] at hok
      simp only [act, hstage, ServiceStage.unlinking, reduceCtorEq, false_and, exists_false,
        or_false, iff_false]
      rw [goto_stages]
      -- a key of the inventory was found in its directory, which nobody removes
      exact soughtFor_ne_raised hok.2.1 next_ne_raised fun hraised => by cases hraised
  | discardUnlink s key loop =>
      simp only [act, hstage, ServiceStage.unlinking, reduceCtorEq, false_and, exists_false,
        false_or, Option.some.injEq, exists_eq_left']
      exact unlinked_raises next_ne_raised
  | stat s record loop => simp [act, hstage, ServiceStage.unlinking]
  | delete s record existed loop =>
      rw [hstage] at hok
      simp only [act, hstage, ServiceStage.unlinking, reduceCtorEq, false_and, exists_false,
        or_false, iff_false]
      rw [goto_stages]
      -- a row that is to be cleaned up has had its object written
      exact soughtFor_ne_raised (Closed.directory hs hok.1) (fun hraised => by cases hraised)
        fun hraised => by cases hraised
  | deleteUnlink s record existed loop =>
      simp only [act, hstage, ServiceStage.unlinking, reduceCtorEq, false_and, exists_false,
        false_or, Option.some.injEq, exists_eq_left']
      exact unlinked_raises fun hraised => by cases hraised
  | recordCleanup s record existed loop =>
      rw [hstage] at hok
      simp only [act, hstage, ServiceStage.unlinking, reduceCtorEq, false_and, exists_false,
        or_false, iff_false]
      intro hraised
      obtain ⟨p, hp, hkey, _⟩ := hok.1
      have hid : p.id = record.id := congrArg AttemptKey.publicationId hkey
      -- what record_cleanup raises on a closed row is a StateTransitionError
      rcases tried_raises hraised with ⟨err, herr, hpasses, _⟩ | ⟨_, _, hnext⟩
      · rw [← hid] at herr
        exact not_passes hpasses
          ⟨_, recordCleanup_raises hs.ledgered (proven_reachable hs.db) hp herr⟩
      · exact next_ne_raised hnext
  | idle | raised | published | swept | publish | fence | reserve | create | link | recordObject
  | validate | probe | reopen | promote | place | recordValidated | verify | finalize | confirm
  | tidy | tidyDelete | tidyUnlink | tidyRecord | reject =>
      rw [hstage] at hsweeping
      cases hsweeping

/-! ### A sweep beside a publication -/

/-- The letter's attempt object is there and not recorded yet; a sweep begins. -/
def sweepBeside : ServiceWorld := (letterPublished 6).goto 1 (.sweep 100 1)

/-- The inventory lists the object. -/
def inventoryChoice : Choice := ⟨4, 6, (· + 1), none, [⟨5, 9, 1, .output, 3⟩]⟩

def sweptBeside (n : Nat) : ServiceWorld :=
  (fun w => w.act publishEnv 1 inventoryChoice)^[n] sweepBeside

theorem sweptBeside_reachable (n : Nat) : (serviceSystem publishEnv).Reachable (sweptBeside n)
    ∧ ⟨5, 9, 1, .output, 3⟩ ∈ (sweptBeside n).journal := by
  induction n with
  | zero => exact ⟨(letterPublished_reachable 6).step (.start 1 _ rfl), by decide +kernel⟩
  | succ n ih =>
      obtain ⟨hreachable, hjournal⟩ := ih
      have hstep : (serviceSystem publishEnv).step (sweptBeside n) (sweptBeside (n + 1)) := by
        unfold sweptBeside
        rw [Function.iterate_succ_apply']
        refine .act 1 inventoryChoice rfl ?_
        intro key hkey
        rw [List.mem_singleton.mp hkey]
        exact hjournal
      exact ⟨hreachable.step hstep,
        (sound_step (sound_reachable hreachable) hstep).2.journal _ hjournal⟩

/-- What a party has raised. -/
def ServiceStage.raises : ServiceStage → Option ServiceRaise
  | .raised e => some e
  | _ => none

theorem raises_eq_some {stage : ServiceStage} {e : ServiceRaise} (h : stage.raises = some e) :
    stage = .raised e := by
  cases stage with
  | raised e' => rw [Option.some.inj h]
  | _ => cases h

/-- The sweep ends at the publication that is still being written. -/
theorem sweep_raises_iff_beside :
    ∃ version, ∃ p ∈ (sweptBeside 8).db.publications.rows, InUse (sweptBeside 8).db version p := by
  have hraised : (((sweptBeside 8).act publishEnv 1 inventoryChoice).stages 1).raises
      = some (.durable stillCurrent) := by decide +kernel
  rcases (sweep_raises_iff publishEnv (sweptBeside 8) 1 inventoryChoice _
    (sweptBeside_reachable 8).1 (by decide +kernel)).mp (raises_eq_some hraised) with
    ⟨_, _, _, _, he⟩ | ⟨_, record, _, _, _, _, p, hp, _, huse⟩ | ⟨_, _, _, he⟩
  · cases he
  · exact ⟨record.version, p, hp, huse⟩
  · cases he

/-- The publisher is killed before it tidies up, and two sweeps take its place. -/
def sweepsRacing : ServiceWorld :=
  (fun w => (w.act publishEnv 1 inventoryChoice).act publishEnv 2 inventoryChoice)^[4]
    ((((letterPublished 28).goto 0 .idle).goto 1 (.sweep 100 1)).goto 2 (.sweep 100 1))

-- both have found the object of the finalized row; the second to unlink it raises
example : (((sweepsRacing.act publishEnv 1 inventoryChoice).act publishEnv 2 inventoryChoice).stages
    2).raises = some .fileNotFound := by decide +kernel

end NanoAural
