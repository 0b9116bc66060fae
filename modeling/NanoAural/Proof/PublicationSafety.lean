import NanoAural.Proof.PublicationStores
import NanoAural.Proof.UploadSafety

/-!
# Attempt objects outlive the rows that need them

What saves a publisher from the sweepers beside it is that an object is only
deleted under a row that has ended, and nothing is recorded in a row that has
ended. One lemma says so for each stage a party can be in; the rest of the file
is what follows for every run.
-/

namespace NanoAural

open Relational Machine

namespace ServiceWorld

variable {env : ServiceEnv} {w w' : ServiceWorld}

/-! ## Moves -/

/-- **What one step of a party comes to.** -/
structure Moves (env : ServiceEnv) (w w' : ServiceWorld) (i : Nat) : Prop where
  stored : Stored env w'
  keeps : Keeps env w w'
  others : ∀ j, j ≠ i → w'.stages j = w.stages j
  own : StageOk env w' (w'.stages i)

/-- A party's own step leaves the others what they hold. -/
theorem Sound.moves {i : Nat} (h : Sound env w) (hm : Moves env w w' i) : Sound env w' where
  stored := hm.stored
  stages j := by
    by_cases hj : j = i
    · rw [hj]
      exact hm.own
    · rw [hm.others j hj]
      exact hm.keeps.stageOk h.stored.drawn (h.stages j)

/-- Where a party stands is nothing to what is stored. -/
theorem Leaves.goto {i : Nat} {stage : ServiceStage} (h : Leaves env w w')
    (hstage : StageOk env w' stage) : Moves env w (w'.goto i stage) i where
  stored :=
    { db := h.stored.db
      rows := fun p hp => ⟨(h.stored.rows p hp).drawn, (h.stored.rows p hp).placed,
        (h.stored.rows p hp).held, (h.stored.rows p hp).promoted⟩
      journal := h.stored.journal
      attempts := h.stored.attempts }
  keeps := ⟨h.keeps.calls, h.keeps.rows, h.keeps.lost, h.keeps.attempts, h.keeps.canonical, h.keeps.probed,
    h.keeps.journal, h.keeps.directories⟩
  others j hj := by
    show Function.update w'.stages i stage j = w.stages j
    rw [Function.update_of_ne hj, h.stages]
  own := by
    have hk : Keeps env w' (w'.goto i stage) := { Keeps.refl env w' with }
    show StageOk env (w'.goto i stage) (Function.update w'.stages i stage i)
    rw [Function.update_self]
    exact hk.stageOk h.stored.drawn hstage

/-- A step that changes nothing but where the party stands. -/
theorem Stored.goto {i : Nat} {stage : ServiceStage} (h : Stored env w)
    (hstage : StageOk env w stage) : Moves env w (w.goto i stage) i := h.same.goto hstage

/-- A repository call that raises leaves the party nothing to hold. -/
theorem Leaves.called {α : Type} {i : Nat} {x : Except Error α × Db} {next : α → ServiceStage}
    (h : Leaves env w { w with db := x.2 })
    (hnext : ∀ a, x.1 = .ok a → StageOk env { w with db := x.2 } (next a)) :
    Moves env w (w.called i x next) i := by
  obtain ⟨r, db'⟩ := x
  cases r with
  | error e => exact h.goto trivial
  | ok a => exact h.goto (hnext a rfl)

theorem LoopOk.next {loop : SweepLoop} {s : Sweep} (h : LoopOk w loop) :
    StageOk env w (loop.next s) := by
  cases loop with
  | clean | keys | page => exact h

theorem Leaves.tried {α : Type} {i : Nat} {s : Sweep} {loop : SweepLoop} {x : Except Error α × Db}
    {next : α → ServiceStage} (h : Leaves env w { w with db := x.2 }) (hloop : LoopOk w loop)
    (hnext : ∀ a, x.1 = .ok a → StageOk env { w with db := x.2 } (next a)) :
    Moves env w (w.tried i s loop x next) i := by
  obtain ⟨r, db'⟩ := x
  cases r with
  | error e =>
      refine h.goto ?_
      split
      · exact (h.keeps.loopOk hloop).next
      · trivial
  | ok a => exact h.goto (hnext a rfl)

/-- Unlinking an object that is owed to nobody. -/
theorem Stored.unlinked {i : Nat} {key : AttemptKey} {missing next : ServiceStage}
    (h : Stored env w) (hgone : Closed w key ∨ env.strange key.publicationId = true)
    (hmissing : StageOk env w missing) (hnext : StageOk env w next) :
    Moves env w (w.unlinked i key missing next) i := by
  unfold ServiceWorld.unlinked
  cases w.attempts key with
  | none => exact h.goto hmissing
  | some _ =>
      have hl := h.unlink hgone
      exact hl.goto (hl.keeps.stageOk h.drawn hnext)

/-! ## Where a party goes -/

theorem stageOk_soughtFor {key : AttemptKey} {missing absent present : ServiceStage}
    (hmissing : StageOk env w missing) (habsent : StageOk env w absent)
    (hpresent : StageOk env w present) :
    StageOk env w (w.soughtFor key missing absent present) := by
  unfold soughtFor
  split
  · exact hmissing
  · split
    · exact habsent
    · exact hpresent

@[simp] theorem stageOk_streamed {lease : Lease} {content : Bytes} {next : ServiceStage} :
    StageOk env w (streamed lease content next) ↔ StageOk env w next := by
  unfold streamed
  split
  · exact Iff.rfl
  · exact Iff.rfl

theorem stageOk_advance (run : Publishing) : StageOk env w (advance run) := by
  unfold advance
  split
  · trivial
  · trivial

theorem stageOk_settle (run : Publishing) (record : PublicationRow) :
    StageOk env w (settle run record) := by
  unfold settle
  split
  · split
    · trivial
    · trivial
  · trivial
  · trivial

theorem stageOk_recorded {run : Publishing} {c : PublicationCandidate} {record : PublicationRow}
    (h : record.state = .objectWritten → Placed w record) :
    StageOk env w (recorded run c record) := by
  unfold recorded
  split
  · rename_i hs
    split
    · trivial
    · exact h (beq_iff_eq.mp hs)
  · exact stageOk_settle run record

theorem stageOk_reserved {run : Publishing} {c : PublicationCandidate} {record : PublicationRow}
    (hknown : Known w record) (h : record.state = .objectWritten → Placed w record) :
    StageOk env w (reserved run c record) := by
  unfold reserved
  split
  · exact hknown
  · exact stageOk_recorded h

theorem stageOk_written {run : Publishing} {c : PublicationCandidate} {record : PublicationRow}
    (hplaced : Placed w record) (h : Written env w record c.content) :
    StageOk env w (written env run c record) := by
  unfold written
  cases matchExpected env c record with
  | error e => exact hplaced
  | ok u => exact ⟨hplaced, h⟩

theorem stageOk_keyed {record : PublicationRow} {next : ServiceStage} (h : StageOk env w next) :
    StageOk env w (keyed record next) := by
  unfold keyed
  split
  · trivial
  · exact h

theorem stageOk_overlook {e : ServiceRaise} {records : List PublicationRow}
    {visible : List VisibleArtifact}
    (h : ∀ r ∈ records, ∃ p ∈ w.db.publications.rows, p.id = r.id ∧ p.state.terminal = true) :
    StageOk env w (overlook e records visible) := by
  unfold overlook
  split
  · exact h
  · trivial

/-- What was linked is what was checked. -/
theorem stageOk_promoted {run : Publishing} {record : PublicationRow}
    {snapshot content stored : Bytes} {media : MediaInfo} (hplaced : Placed w record)
    (hprobed : (record.id, snapshot) ∈ w.probed)
    (hstored : w.canonical (objectOf env content).storageKey = some stored)
    (hsame : env.sha256 stored = env.sha256 content) (hlength : stored.length = content.length) :
    StageOk env w (promoted env run record snapshot content media) := by
  unfold promoted
  split
  · exact hplaced
  · rename_i hne
    simp only [Bool.or_eq_true, bne_iff_ne, ne_eq, not_or, not_not] at hne
    refine ⟨hplaced, stored, snapshot, ?_, ?_, hprobed, ?_, ?_⟩
    · simp only [objectOf, hsame, hlength]
    · rw [hsame]
      exact hstored
    · rw [hsame, hne.1]
    · rw [hlength, hne.2]

theorem stageOk_found {run : Publishing} {record : PublicationRow}
    {snapshot content existing : Bytes} {media : MediaInfo} (hplaced : Placed w record)
    (hprobed : (record.id, snapshot) ∈ w.probed)
    (hexisting : w.canonical (objectOf env content).storageKey = some existing) :
    StageOk env w (found env run record snapshot content existing media) := by
  unfold found
  split
  · trivial
  · rename_i hne
    simp only [Bool.or_eq_true, bne_iff_ne, ne_eq, not_or, not_not] at hne
    exact stageOk_promoted hplaced hprobed hexisting hne.2 hne.1

/-! ## Rows the calls leave -/

/-- The directories of a record's object are those of its row's. -/
theorem Placed.directory_of {record p : PublicationRow} (h : Placed w record)
    (hp : p ∈ w.db.publications.rows) (hid : p.id = record.id) :
    w.directories p.key.directory = true := by
  rw [h.known.objectKey hp hid]
  exact h.directory

/-- A row whose state and evidence stay is owed what it was owed. -/
theorem RowOk.congr {p r : PublicationRow} (h : RowOk env w p) (hid : r.id = p.id)
    (hkey : r.key = p.key) (hstate : r.state = p.state) (hsha : r.observedSha256 = p.observedSha256)
    (hsize : r.observedSizeBytes = p.observedSizeBytes) : RowOk env w r where
  drawn := by
    rw [hid]
    exact h.drawn
  placed hs := by
    rw [hkey]
    exact h.placed (hstate ▸ hs)
  held hs := by
    rw [hstate] at hs
    simp only [Held, hkey, hsha, hsize]
    exact h.held hs
  promoted hs := by
    rw [hstate] at hs
    simp only [Promoted, hid, hsha, hsize]
    exact h.promoted hs

/-- A row that ends without a winner is owed its directories. -/
theorem RowOk.ends {p : PublicationRow} {state : PublicationState} {reason : String} {now : Time}
    (h : RowOk env w p) (hdirectory : w.directories p.key.directory = true)
    (hstate : state = .rejected ∨ state = .abandoned) :
    RowOk env w (p.terminalize state reason now) where
  drawn := h.drawn
  placed _ := hdirectory
  held hs := by
    rcases hstate with rfl | rfl <;> rcases hs with hs | hs <;> cases hs
  promoted hs := by
    rcases hstate with rfl | rfl <;> rcases hs with hs | hs <;> cases hs

/-- The row of a stored object. -/
theorem RowOk.recordObject {p : PublicationRow} {content : Bytes} {now : Time} (h : RowOk env w p)
    (hdirectory : w.directories p.key.directory = true)
    (hcontent : ∃ stored, w.attempts p.key = some stored
      ∧ env.sha256 stored = env.sha256 content ∧ stored.length = content.length) :
    RowOk env w (p.recordObject p.key (env.sha256 content) content.length now) where
  drawn := h.drawn
  placed _ := hdirectory
  held _ := by
    obtain ⟨stored, hstored, hsame, hlength⟩ := hcontent
    exact ⟨stored, hstored, congrArg some hsame.symm, congrArg some hlength.symm⟩
  promoted hs := by
    rcases hs with hs | hs <;> cases hs

/-- The row of a promoted object. -/
theorem RowOk.recordValidated {p : PublicationRow} {object : BlobObject} {blobId : Uuid}
    {contentType : String} {metadata : PyValue} {now : Time} (h : RowOk env w p)
    (hs : p.state = .objectWritten) (hsha : p.observedSha256 = some object.sha256)
    (hsize : p.observedSizeBytes = some object.sizeBytes)
    (hobject : Promotable env w p.id object) :
    RowOk env w (p.recordValidated blobId contentType metadata now) where
  drawn := h.drawn
  placed _ := h.placed (by rw [hs]; simp)
  held _ := h.held (Or.inl hs)
  promoted _ := by
    obtain ⟨content, snapshot, rfl, hcontent, hprobed, hsame, hlength⟩ := hobject
    exact ⟨content, snapshot, hcontent, hprobed, hsame, hlength, hsha, hsize⟩

theorem RowOk.finalize {p : PublicationRow} {now : Time} (h : RowOk env w p)
    (hs : p.state = .validated) : RowOk env w (p.finalize now) where
  drawn := h.drawn
  placed _ := h.placed (by rw [hs]; simp)
  held hs' := by
    rcases hs' with hs' | hs' <;> cases hs'
  promoted _ := h.promoted (Or.inl hs)

/-! ## The steps of `publish` -/

section Publish

variable {i : Nat} {run : Publishing} {c : PublicationCandidate} {record : PublicationRow}

theorem moves_fence {lease : Lease} {next : ServiceStage} (h : Stored env w)
    (hnext : StageOk env w next) :
    Moves env w (w.called i (assertCurrent lease w.db) fun _ => next) i := by
  have hl : Leaves env w { w with db := (assertCurrent lease w.db).2 } := by
    refine h.commits (fun e db' hx => commit_error hx) ?_
    intro a db' hx
    exact h.read (assertCurrent_ok hx).2
  exact hl.called fun _ _ => hl.keeps.stageOk h.drawn hnext

theorem moves_reserve {id : Uuid} (h : Stored env w) (hfresh : env.strange id = false) :
    Moves env w (w.called i (NanoAural.reserve env.json id run.lease c.toPublicationSpec w.db)
      (reserved run c)) i := by
  have hl : Leaves env w
      { w with db := (NanoAural.reserve env.json id run.lease c.toPublicationSpec w.db).2 } := by
    refine h.commits (fun e db' hx => commit_error hx) ?_
    intro r db' hx
    refine h.call (.reserve id run.lease c.toPublicationSpec) (congrArg Prod.snd hx) ?_
    intro p hp
    obtain ⟨_, _, ⟨rfl, _⟩ | ⟨tp, hr, htp, rfl⟩⟩ := reserve_rows hx
    · exact h.rows p hp
    · rw [Table.insert?_rows htp] at hp
      rcases List.mem_append.mp hp with hp | hp
      · exact h.rows p hp
      · -- the row `reserve` inserts
        obtain rfl : p = r := List.mem_singleton.mp hp
        rw [hr]
        refine ⟨hfresh, fun hs => absurd rfl hs, fun hs => ?_, fun hs => ?_⟩
        · rcases hs with hs | hs <;> cases hs
        · rcases hs with hs | hs <;> cases hs
  refine hl.called ?_
  intro r hr
  obtain ⟨_, hmem, _⟩ := reserve_rows (Prod.ext hr rfl)
  refine stageOk_reserved (Known.of_mem hmem) ?_
  intro hs
  exact ⟨Known.of_mem hmem, (hl.stored.rows r hmem).placed (by rw [hs]; simp)⟩

theorem moves_create (h : Stored env w) (hknown : Known w record) :
    Moves env w (goto { w with
      journal := w.journal ++ [record.key]
      directories := Function.update w.directories record.key.directory true } i
        (if unbounded c record then .reject run.lease record "object_size_limit"
          (.rejected "publication candidate exceeds its size bound")
        else streamed run.lease c.content (.link run c record))) i := by
  have hl := h.journalled hknown
  have hplaced : Placed { w with
      journal := w.journal ++ [record.key]
      directories := Function.update w.directories record.key.directory true } record :=
    ⟨hl.keeps.known hknown, Function.update_self ..⟩
  refine hl.goto ?_
  split
  · exact hplaced
  · rw [stageOk_streamed]
    exact ⟨hplaced, List.mem_append_right _ (List.mem_singleton_self _)⟩

theorem moves_link {choice : Choice} (h : Stored env w) (hstage : w.stages i = .link run c record)
    (hok : StageOk env w (.link run c record)) : Moves env w (w.act env i choice) i := by
  obtain ⟨hplaced, hkey⟩ := hok
  simp only [act, hstage]
  cases hfind : w.attempts record.key with
  | some existing =>
      refine h.goto ?_
      split
      · trivial
      · rename_i hne
        simp only [Bool.or_eq_true, bne_iff_ne, ne_eq, not_or, not_not] at hne
        exact stageOk_written hplaced (Or.inr ⟨existing, hfind, hne.1, hne.2⟩)
  | none =>
      have hl := h.link c.content hkey hfind
      refine hl.goto (stageOk_written (hl.keeps.placed hplaced) (Or.inr ?_))
      exact ⟨c.content, Function.update_self .., rfl, rfl⟩

/-- **The object is there when it is recorded**: a row that is still reserved was never swept. -/
theorem moves_recordObject (h : Stored env w) (hplaced : Placed w record)
    (hwritten : Written env w record c.content) :
    Moves env w (w.called i (NanoAural.recordObject run.lease record.id record.version
      (env.sha256 c.content) c.content.length w.db) (recorded run c)) i := by
  have hrow : ∀ {r db'}, NanoAural.recordObject run.lease record.id record.version
      (env.sha256 c.content) c.content.length w.db = (.ok r, db') →
      RowOk env w r ∧ r ∈ db'.publications.rows
        ∧ Leaves env w { w with db := db' } := by
    intro r db' hx
    obtain ⟨_, p, hid, _, hs, _, hr, hrw⟩ := recordObject_rows hx
    have hp := hrw.mem_old
    have hkey := hplaced.known.objectKey hp hid
    have hok : RowOk env w r := by
      rw [hr]
      refine (h.rows p hp).recordObject (hplaced.directory_of hp hid) ?_
      rcases hwritten with ⟨q, hq, hqkey, ht⟩ | hstored
      · obtain rfl := eq_of_objectKey hq hp (hqkey.trans hkey.symm)
        rw [hs] at ht
        cases ht
      · rw [hkey]
        exact hstored
    exact ⟨hok, hrw.mem_new, h.rewrite (.recordObject run.lease record.id record.version
      (env.sha256 c.content) c.content.length) (congrArg Prod.snd hx) rfl hrw hok⟩
  have hl := h.commits (fun e db' hx => commit_error hx) fun r db' hx => (hrow hx).2.2
  refine hl.called ?_
  intro r hr
  obtain ⟨hok, hmem, _⟩ := hrow (Prod.ext hr rfl)
  exact stageOk_recorded fun hs => ⟨Known.of_mem hmem, hok.placed (by rw [hs]; simp)⟩

theorem moves_reject {lease : Lease} {reason : String} {e : ServiceRaise} (h : Stored env w)
    (hplaced : Placed w record) :
    Moves env w (w.called i (NanoAural.reject lease record.id record.version reason w.db)
      fun _ => .raised e) i := by
  have hl : Leaves env w
      { w with db := (NanoAural.reject lease record.id record.version reason w.db).2 } := by
    refine h.commits (fun e db' hx => commit_error hx) ?_
    intro r db' hx
    obtain ⟨_, p, hid, _, _, _, hr, hrw⟩ := reject_rows hx
    refine h.rewrite (.reject lease record.id record.version reason) (congrArg Prod.snd hx) rfl
      hrw ?_
    rw [hr]
    exact (h.rows p hrw.mem_old).ends (hplaced.directory_of hrw.mem_old hid) (Or.inl rfl)
  exact hl.called fun _ _ => trivial

theorem moves_validate {choice : Choice} (h : Stored env w)
    (hstage : w.stages i = .validate run c record) (hplaced : Placed w record) :
    Moves env w (w.act env i choice) i := by
  simp only [act, hstage]
  cases w.attempts record.key with
  | none => exact h.goto hplaced
  | some snapshot =>
      refine h.goto ?_
      split
      · rw [stageOk_streamed]
        exact hplaced
      · exact hplaced

theorem moves_probe {choice : Choice} {snapshot : Bytes} (h : Stored env w)
    (hstage : w.stages i = .probe run c record snapshot) (hplaced : Placed w record) :
    Moves env w (w.act env i choice) i := by
  simp only [act, hstage]
  have hl := h.probe (x := (record.id, snapshot))
  have hplaced' := hl.keeps.placed hplaced
  refine hl.goto ?_
  cases choice.media with
  | none => exact hplaced'
  | some media =>
      show StageOk env _ (if media.mediaType != c.contentType then refused run record
        else .fence run.lease (.reopen run record snapshot media))
      split
      · exact hplaced'
      · exact ⟨hplaced', List.mem_cons_self ..⟩

theorem moves_reopen {choice : Choice} {snapshot : Bytes} {media : MediaInfo} (h : Stored env w)
    (hstage : w.stages i = .reopen run record snapshot media) (hplaced : Placed w record)
    (hprobed : (record.id, snapshot) ∈ w.probed) : Moves env w (w.act env i choice) i := by
  simp only [act, hstage]
  cases w.attempts record.key with
  | none => exact h.goto trivial
  | some content =>
      refine h.goto ?_
      cases hexact : exact content snapshot.length with
      | error e => exact hplaced
      | ok u =>
          have hlength : content.length = snapshot.length := by
            unfold ServiceWorld.exact at hexact
            split at hexact
            · cases hexact
            · split at hexact
              · cases hexact
              · omega
          dsimp only
          rw [stageOk_streamed]
          exact ⟨hplaced, hprobed, hlength⟩

theorem moves_promote {choice : Choice} {snapshot content : Bytes} {media : MediaInfo}
    (h : Stored env w) (hstage : w.stages i = .promote run record snapshot content media)
    (hok : StageOk env w (.promote run record snapshot content media)) :
    Moves env w (w.act env i choice) i := by
  simp only [act, hstage]
  cases hfind : w.canonical (objectOf env content).storageKey with
  | none => exact h.goto hok
  | some existing => exact h.goto (stageOk_found hok.1 hok.2.1 hfind)

theorem moves_place {choice : Choice} {snapshot content : Bytes} {media : MediaInfo}
    (h : Stored env w) (hstage : w.stages i = .place run record snapshot content media)
    (hok : StageOk env w (.place run record snapshot content media)) :
    Moves env w (w.act env i choice) i := by
  obtain ⟨hplaced, hprobed, _⟩ := hok
  simp only [act, hstage]
  cases hfind : w.canonical (objectOf env content).storageKey with
  | none =>
      have hl := h.place content hfind
      exact hl.goto (stageOk_promoted (hl.keeps.placed hplaced) hprobed (Function.update_self ..)
        rfl rfl)
  | some existing => exact h.goto (stageOk_found hplaced hprobed hfind)

/-- **A row is validated with what the canonical store holds.** -/
theorem moves_recordValidated {object : BlobObject} {media : MediaInfo} {blobId : Uuid}
    (h : Stored env w) (hobject : Promotable env w record.id object) :
    Moves env w (w.called i (recordPromoted env run record object media blobId w.db)
      (settle run)) i := by
  have hl : Leaves env w
      { w with db := (recordPromoted env run record object media blobId w.db).2 } := by
    unfold recordPromoted
    cases hblob : BlobRecord.checked ⟨blobId, object.sha256, object.sizeBytes, object.storageKey,
        .verified, media.mediaType⟩ with
    | error e => exact h.same
    | ok blob =>
        refine h.commits (fun e db' hx => commit_error hx) ?_
        intro r db' hx
        obtain ⟨hsha, hsize⟩ : blob.sha256 = object.sha256 ∧ blob.sizeBytes = object.sizeBytes := by
          rw [BlobRecord.checked_eq hblob]
          exact ⟨rfl, rfl⟩
        obtain ⟨_, mid, _, hq, p, id, hid, _, hs, hpsha, hpsize, _, hr, _, hrw⟩ :=
          recordValidated_rows (fun _ => True) hx
        refine h.rewrite (.recordValidated run.lease record.id record.version blob
          (validatorMetadata media)) (congrArg Prod.snd hx) hq.publications hrw ?_
        have hp : p ∈ w.db.publications.rows := hq.publications ▸ hrw.mem_old
        rw [hr]
        refine (h.rows p hp).recordValidated hs (hsha ▸ hpsha) (hsize ▸ hpsize) ?_
        rw [hid]
        exact hobject
  exact hl.called fun _ _ => stageOk_settle run _

theorem moves_verify {choice : Choice} (h : Stored env w)
    (hstage : w.stages i = .verify run record) : Moves env w (w.act env i choice) i := by
  simp only [act, hstage]
  cases w.canonical (canonicalKey (record.observedSha256.getD "")) with
  | none => exact h.goto trivial
  | some content =>
      refine h.goto ?_
      show StageOk env w (verified env run record content)
      unfold verified
      split
      · trivial
      · split
        · trivial
        · rw [stageOk_streamed]
          exact stageOk_advance _

/-- **What is finalized was validated**, and afterwards every record's row has ended. -/
theorem moves_finalize {artifactId : Uuid → Uuid} (h : Stored env w) :
    Moves env w (w.called i (NanoAural.finalize env.json artifactId run.lease run.records w.db)
      (.confirm run.records run.records)) i := by
  have hrows : ∀ {u db'},
      commit (finalizeRows env.json artifactId run.lease run.records) w.db = (.ok u, db') →
      (∀ p ∈ db'.publications.rows, RowOk env w p)
        ∧ ∀ r ∈ run.records, ∃ p ∈ db'.publications.rows, p.id = r.id ∧ p.state.terminal = true := by
    intro u db' hx
    obtain ⟨_, _, items, required, hwin, hfinal, hall⟩ := finalizeRows_rows (fun _ => True) hx
    constructor
    · intro p hp
      rw [hfinal, finalizedRows] at hp
      obtain ⟨q, hq, rfl⟩ := List.mem_map.mp hp
      split
      · rename_i hitem
        obtain ⟨q', hq', hid⟩ := List.mem_map.mp hitem
        obtain rfl : q' = q := Table.eq_of_key (hwin.rows q' hq') hq hid
        exact (h.rows q' hq).finalize (hwin.validated q' hq')
      · exact h.rows q hq
    · intro r hr
      obtain ⟨q, hq, hid⟩ := List.mem_map.mp (hall r hr)
      refine ⟨q.finalize w.db.clock, ?_, hid, rfl⟩
      rw [hfinal, finalizedRows]
      refine List.mem_map.mpr ⟨q, hwin.rows q hq, ?_⟩
      rw [if_pos (List.mem_map_of_mem hq)]
  cases hx : commit (finalizeRows env.json artifactId run.lease run.records) w.db with
  | mk result db' =>
      cases result with
      | error e =>
          have hl : Leaves env w { w with db := db' } := h.read (commit_error hx)
          simp only [NanoAural.finalize, hx]
          exact Leaves.called (x := (Except.error e, db')) hl fun _ ha => by cases ha
      | ok u =>
          obtain ⟨hok, hended⟩ := hrows hx
          have hdb : (Call.run env.json (.finalize artifactId run.lease run.records) w.db).2 = db' :=
            (finalize_commits artifactId run.lease run.records w.db).trans (congrArg Prod.snd hx)
          have hl := h.call _ hdb hok
          simp only [NanoAural.finalize, hx]
          exact Leaves.called (x := (Except.ok _, db')) hl fun _ _ => hended

end Publish

/-! ## The cleanup and the sweeper -/

section Sweeper

variable {i : Nat} {s : Sweep} {loop : SweepLoop} {record : PublicationRow}

/-- What `record_cleanup` leaves. -/
theorem leaves_recordCleanup (h : Stored env w) (id : Uuid) (version : Nat) :
    Leaves env w { w with db := (NanoAural.recordCleanup id version w.db).2 } := by
  refine h.commits (fun e db' hx => commit_error hx) ?_
  intro r db' hx
  obtain ⟨p, _, _, _, _, hr, hrw⟩ := recordCleanup_rows hx
  refine h.rewrite (.recordCleanup id version) (congrArg Prod.snd hx) rfl hrw ?_
  rw [hr]
  exact (h.rows p hrw.mem_old).congr rfl rfl rfl rfl rfl

/-- What `abandon` leaves: it only ends a row whose lease is gone. -/
theorem leaves_abandon (h : Stored env w) (hplaced : Placed w record) (reason : String) :
    Leaves env w { w with db := (NanoAural.abandon record.id record.version reason w.db).2 } := by
  have hdb : (Call.run env.json (.abandon record.id record.version reason) w.db).2
      = (commit (abandonRow record.id record.version reason) w.db).2 :=
    abandon_commits record.id record.version reason w.db
  rw [abandon_commits]
  refine h.commits (fun e db' hx => commit_error hx) ?_
  intro r db' hx
  obtain ⟨started, r⟩ := r
  obtain ⟨session, hb, _, rfl⟩ := commit_ok hx
  obtain ⟨p, hid, _, _, _, hrw, hcase⟩ := abandonRow_rows hb
  refine h.rewrite (.abandon record.id record.version reason)
    (hdb.trans (congrArg Prod.snd hx)) rfl hrw ?_
  have hp := h.rows p hrw.mem_old
  rcases hcase with ⟨_, _, rfl⟩ | ⟨since, _, _, _, rfl⟩
  · exact hp.congr rfl rfl rfl rfl rfl
  · exact hp.ends (hplaced.directory_of hrw.mem_old hid) (Or.inr rfl)

/-- What `abandon` returns is a row that has ended. -/
theorem abandon_ended {id : Uuid} {version : Nat} {reason : String} {db : Db} {r : PublicationRow}
    (hr : (NanoAural.abandon id version reason db).1 = .ok r) :
    r ∈ (NanoAural.abandon id version reason db).2.publications.rows
      ∧ r.state.terminal = true := by
  cases hx : commit (abandonRow id version reason) db with
  | mk result db' =>
      cases result with
      | error e =>
          simp only [NanoAural.abandon, hx] at hr
          cases hr
      | ok x =>
          obtain ⟨started, x⟩ := x
          cases started with
          | true =>
              simp only [NanoAural.abandon, hx] at hr
              cases hr
          | false =>
              simp only [NanoAural.abandon, hx] at hr ⊢
              obtain rfl : x = r := Except.ok.inj hr
              obtain ⟨session, hb, _, rfl⟩ := commit_ok hx
              obtain ⟨p, _, _, _, _, hrw, ⟨hfalse, _⟩ | ⟨since, _, _, _, hrow⟩⟩ :=
                abandonRow_rows hb
              · cases hfalse
              · exact ⟨hrw.mem_new, by rw [hrow]; rfl⟩

theorem recordKey_ok {derived : AttemptKey} (h : recordKey record = .ok derived) :
    derived = record.key := by
  unfold recordKey at h
  split at h
  · exact (Except.ok.inj h).symm
  · cases h

/-- A row of the ledger has the key its identity says. -/
theorem recordKey_of_mem {db : Db} {p : PublicationRow} (hp : p ∈ db.publications.rows) :
    recordKey p = .ok p.key := by
  have hc : p.check = true := db.publications.checked p hp
  simp only [PublicationRow.check, Bool.and_eq_true] at hc
  rw [recordKey, if_pos hc.1.2]

/-- **A sweeper only deletes under a row that has ended**: an open one it abandons first. -/
theorem stageOk_sweepRecord {key : AttemptKey} (h : Stored env w)
    (hmem : record ∈ w.db.publications.rows) (hlisted : Listed w key loop) (hloop : LoopOk w loop) :
    StageOk env w (sweepRecord s key loop record) := by
  unfold sweepRecord
  cases hkey : recordKey record with
  | error e => trivial
  | ok derived =>
      dsimp only
      split
      · trivial
      · rename_i hne
        simp only [bne_iff_ne, ne_eq, not_not] at hne
        have hrecord : record.key = key := (recordKey_ok hkey).symm.trans hne
        split
        · -- whatever has brought the sweeper here, the directories of the object are there
          refine ⟨⟨Known.of_mem hmem, ?_⟩, hrecord ▸ hlisted, hloop⟩
          rw [hrecord]
          cases loop with
          | clean rest =>
              obtain ⟨p, hp, hpkey, ht⟩ := hlisted
              rw [← hpkey]
              refine (h.rows p hp).placed ?_
              intro hs
              rw [hs] at ht
              cases ht
          | keys rest => exact hlisted.1
          | page rest known => exact (h.journal key hlisted).1
        · rename_i hopen
          refine ⟨⟨record, hmem, rfl, ?_⟩, hloop⟩
          simpa [PublicationState.open] using hopen

/-- A publication that is not there is one whose objects are older than the ledger. -/
theorem strange_of_journal {key : AttemptKey} (h : Stored env w) (hkey : key ∈ w.journal)
    (hnone : ∀ p ∈ w.db.publications.rows, p.id ≠ key.publicationId) :
    env.strange key.publicationId = true := by
  rcases (h.journal key hkey).2 with hstrange | ⟨p, hp, hpkey⟩
  · exact hstrange
  · exact absurd (congrArg AttemptKey.publicationId hpkey) (hnone p hp)

theorem getPublication_none {id : Uuid} {db : Db} {message : String}
    (h : (getPublication id db).1 = .error (.notFound message)) :
    ∀ p ∈ db.publications.rows, p.id ≠ id := by
  intro p hp hid
  have hfind : db.publications.find? id = some p := hid ▸ Table.find?_of_mem hp
  have hget : getPublication id db = (.ok p, db) :=
    transaction_commit (selectRecord_ok.mpr ⟨hfind, rfl⟩) fun d hd => by cases hd
  rw [hget] at h
  cases h

theorem moves_get {key : AttemptKey} (h : Stored env w) (hlisted : Listed w key loop)
    (hloop : LoopOk w loop) : Moves env w (w.sweepGet i s key loop) i := by
  unfold sweepGet
  cases hget : (getPublication key.publicationId w.db).1 with
  | ok record =>
      obtain ⟨hmem, _, _⟩ := getPublication_ok (Prod.ext hget rfl)
      exact h.goto (stageOk_sweepRecord h hmem hlisted hloop)
  | error e =>
      cases e with
      | notFound message =>
          cases loop with
          | clean rest => exact h.goto hloop.next
          | keys rest => exact h.goto hloop.next
          | page rest known =>
              exact h.goto ⟨strange_of_journal h hlisted (getPublication_none hget),
                (h.journal key hlisted).1, hloop⟩
      | value | type | invariant | transition | conflict | database => exact h.goto trivial

theorem moves_abandon (h : Stored env w) (hplaced : Placed w record) (hloop : LoopOk w loop) :
    Moves env w (w.tried i s loop (NanoAural.abandon record.id record.version loop.reason w.db)
      fun abandoned => keyed abandoned (.stat s abandoned loop)) i := by
  have hl := leaves_abandon h hplaced loop.reason
  refine hl.tried hloop ?_
  intro r hr
  obtain ⟨hmem, ht⟩ := abandon_ended hr
  exact stageOk_keyed ⟨⟨r, hmem, rfl, ht⟩, hl.keeps.loopOk hloop⟩

theorem moves_tidy {choice : Choice} {records : List PublicationRow} {visible : List VisibleArtifact}
    (h : Stored env w) (hstage : w.stages i = .tidy records visible)
    (hended : StageOk env w (.tidy records visible)) : Moves env w (w.act env i choice) i := by
  cases records with
  | nil =>
      simp only [act, hstage]
      exact h.goto trivial
  | cons record rest =>
      simp only [act, hstage]
      refine h.goto ?_
      have hrest : StageOk env w (.tidy rest visible) :=
        fun r hr => hended r (List.mem_cons_of_mem _ hr)
      cases hget : (getPublication record.id w.db).1 with
      | error e => exact stageOk_overlook hrest
      | ok current =>
          obtain ⟨hmem, hid, _⟩ := getPublication_ok (Prod.ext hget rfl)
          dsimp only
          cases recordKey current with
          | error e => exact stageOk_overlook hrest
          | ok derived =>
              obtain ⟨p, hp, hpid, ht⟩ := hended record (List.mem_cons_self ..)
              obtain rfl : p = current := Table.eq_of_key hp hmem (hpid.trans hid.symm)
              exact ⟨⟨p, hp, rfl, ht⟩, hrest⟩

theorem moves_confirm {choice : Choice} {rest records : List PublicationRow}
    {visible : List VisibleArtifact} (h : Stored env w)
    (hstage : w.stages i = .confirm rest records visible)
    (hended : StageOk env w (.confirm rest records visible)) :
    Moves env w (w.act env i choice) i := by
  cases rest with
  | nil =>
      simp only [act, hstage]
      exact h.goto hended
  | cons record rest =>
      simp only [act, hstage]
      have hl : Leaves env w { w with db := (getPublication record.id w.db).2 } :=
        h.read (getPublication_snd record.id w.db)
      exact hl.called fun _ _ => hl.keeps.ended hended

theorem moves_sweep {before : Time} {limit : Int} (h : Stored env w) :
    Moves env w (w.called i (cleanupCandidates before limit w.db)
      (.clean ⟨before, limit.toNat, [], 0⟩)) i := by
  have hl : Leaves env w { w with db := (cleanupCandidates before limit w.db).2 } := by
    refine h.commits (fun e db' hx => commit_error hx) ?_
    intro records db' hx
    exact h.read (cleanupCandidates_ok hx).1
  refine hl.called ?_
  intro records hr
  obtain ⟨_, hrows⟩ := cleanupCandidates_ok (Prod.ext hr rfl)
  intro p hp
  obtain ⟨hmem, ht⟩ := hrows p hp
  exact ⟨hl.keeps.closed ⟨p, hmem, rfl, ht⟩, recordKey_of_mem hmem⟩

theorem moves_orphans (h : Stored env w) :
    Moves env w (w.called i (orphanKeysBefore s.before s.remaining w.db) (.keys s)) i := by
  have hl : Leaves env w { w with db := (orphanKeysBefore s.before s.remaining w.db).2 } := by
    refine h.commits (fun e db' hx => commit_error hx) ?_
    intro records db' hx
    exact h.read (orphanKeysBefore_ok hx).1
  refine hl.called ?_
  intro keys hr
  obtain ⟨_, hkeys⟩ := orphanKeysBefore_ok (Prod.ext hr rfl)
  intro key hkey
  refine hl.keeps.stale ?_
  obtain ⟨p, hp, hpkey, hs, hwhy⟩ := hkeys key hkey
  exact ⟨hpkey ▸ (h.rows p hp).placed hs, p, hp, hpkey, hwhy⟩

theorem stageOk_keysHead {keys : List AttemptKey} (hkeys : ∀ key ∈ keys, Stale w key) :
    StageOk env w (keysHead s keys) := by
  cases keys with
  | nil =>
      simp only [keysHead]
      split
      · trivial
      · trivial
  | cons key rest =>
      have hrest : ∀ k ∈ rest, Stale w k := fun k hk => hkeys k (List.mem_cons_of_mem _ hk)
      simp only [keysHead]
      split
      · intro k hk
        cases hk
      · split
        · exact hrest
        · exact ⟨hkeys key (List.mem_cons_self ..), hrest⟩

theorem stageOk_pageHead {keys known : List AttemptKey} (hkeys : ∀ key ∈ keys, key ∈ w.journal) :
    StageOk env w (pageHead s known keys) := by
  cases keys with
  | nil => trivial
  | cons key rest =>
      have hrest : ∀ k ∈ rest, k ∈ w.journal := fun k hk => hkeys k (List.mem_cons_of_mem _ hk)
      simp only [pageHead]
      split
      · trivial
      · split
        · exact hrest
        · exact ⟨hkeys key (List.mem_cons_self ..), hrest⟩

end Sweeper

/-! ## Every step -/

/-- **Every step of a party keeps what is stored**, and leaves the party what it needs to go on. -/
theorem moves_act {i : Nat} {choice : Choice} (h : Sound env w)
    (hfresh : env.strange choice.publicationId = false)
    (hlisted : ∀ key ∈ choice.inventory, key ∈ w.journal) :
    Moves env w (w.act env i choice) i := by
  have hs := h.stored
  have hok := h.stages i
  have stays : w.act env i choice = w → Moves env w (w.act env i choice) i := by
    intro hw
    rw [hw]
    exact ⟨hs, Keeps.refl env w, fun _ _ => rfl, hok⟩
  -- one case per stage; where a stage makes no call only its own fact goes on
  cases hstage : w.stages i with
  | idle | raised | published | swept => exact stays (by simp only [act, hstage])
  | fence lease next =>
      rw [hstage] at hok
      simp only [act, hstage]
      exact moves_fence hs hok
  | publish lease candidates =>
      simp only [act, hstage]
      refine hs.goto ?_
      split
      · trivial
      · split
        · trivial
        · exact stageOk_advance _
  | reserve run c =>
      simp only [act, hstage]
      exact moves_reserve hs hfresh
  | create run c record =>
      rw [hstage] at hok
      simp only [act, hstage]
      exact moves_create hs hok
  | link run c record => exact moves_link hs hstage (hstage ▸ hok)
  | recordObject run c record =>
      rw [hstage] at hok
      simp only [act, hstage]
      exact moves_recordObject hs hok.1 hok.2
  | reject lease record reason e =>
      rw [hstage] at hok
      simp only [act, hstage]
      exact moves_reject hs hok
  | validate run c record =>
      rw [hstage] at hok
      exact moves_validate hs hstage hok
  | probe run c record snapshot =>
      rw [hstage] at hok
      exact moves_probe hs hstage hok
  | reopen run record snapshot media =>
      rw [hstage] at hok
      exact moves_reopen hs hstage hok.1 hok.2
  | promote run record snapshot content media => exact moves_promote hs hstage (hstage ▸ hok)
  | place run record snapshot content media => exact moves_place hs hstage (hstage ▸ hok)
  | recordValidated run record object media =>
      rw [hstage] at hok
      simp only [act, hstage]
      exact moves_recordValidated hs hok.2
  | verify run record => exact moves_verify hs hstage
  | finalize run =>
      simp only [act, hstage]
      exact moves_finalize hs
  | confirm rest records visible => exact moves_confirm hs hstage (hstage ▸ hok)
  | tidy records visible => exact moves_tidy hs hstage (hstage ▸ hok)
  | tidyDelete current rest visible =>
      rw [hstage] at hok
      simp only [act, hstage]
      -- `_cleanup_best_effort` passes over everything that is raised
      exact hs.goto (stageOk_soughtFor (stageOk_overlook hok.2) hok hok)
  | tidyUnlink current rest visible =>
      rw [hstage] at hok
      simp only [act, hstage]
      exact hs.unlinked (Or.inl hok.1) (stageOk_overlook hok.2) hok
  | tidyRecord current rest visible =>
      rw [hstage] at hok
      simp only [act, hstage]
      have hl := leaves_recordCleanup hs current.id current.version
      refine hl.goto ?_
      split
      · exact stageOk_overlook (hl.keeps.ended hok.2)
      · exact hl.keeps.ended hok.2
  | sweep before limit =>
      simp only [act, hstage]
      split
      · exact hs.goto trivial
      · exact moves_sweep hs
  | clean s records =>
      rw [hstage] at hok
      cases records with
      | nil =>
          simp only [act, hstage]
          refine hs.goto ?_
          split
          · trivial
          · rename_i hremaining
            exact hremaining
      | cons record rest =>
          simp only [act, hstage]
          exact hs.goto (stageOk_keyed ⟨(hok record (List.mem_cons_self ..)).1,
            fun r hr => hok r (List.mem_cons_of_mem _ hr)⟩)
  | orphans s =>
      simp only [act, hstage]
      exact moves_orphans hs
  | keys s keys =>
      rw [hstage] at hok
      simp only [act, hstage]
      exact hs.goto (stageOk_keysHead hok)
  | inventory s =>
      simp only [act, hstage]
      exact hs.goto fun key hkey => hlisted key (List.mem_of_mem_take hkey)
  | known s inventory =>
      rw [hstage] at hok
      simp only [act, hstage]
      exact hs.goto hok
  | page s inventory known =>
      rw [hstage] at hok
      simp only [act, hstage]
      exact hs.goto (stageOk_pageHead hok)
  | get s key loop =>
      rw [hstage] at hok
      simp only [act, hstage]
      exact moves_get hs hok.1 hok.2
  | abandon s record loop =>
      rw [hstage] at hok
      simp only [act, hstage]
      exact moves_abandon hs hok.1 hok.2.2
  | discard s key loop =>
      rw [hstage] at hok
      simp only [act, hstage]
      exact hs.goto (stageOk_soughtFor trivial hok.2.2.next hok)
  | discardUnlink s key loop =>
      rw [hstage] at hok
      simp only [act, hstage]
      -- an object the ledger does not know belongs to no publication
      exact hs.unlinked (Or.inr hok.1) trivial hok.2.2.next
  | stat s record loop =>
      rw [hstage] at hok
      simp only [act, hstage]
      exact hs.goto hok
  | delete s record existed loop =>
      rw [hstage] at hok
      simp only [act, hstage]
      exact hs.goto (stageOk_soughtFor trivial hok hok)
  | deleteUnlink s record existed loop =>
      rw [hstage] at hok
      simp only [act, hstage]
      exact hs.unlinked (Or.inl hok.1) trivial hok
  | recordCleanup s record existed loop =>
      rw [hstage] at hok
      simp only [act, hstage]
      have hl := leaves_recordCleanup hs record.id record.version
      exact hl.tried hok.2 fun _ _ => (hl.keeps.loopOk hok.2).next

/-- A party that begins an operation holds nothing yet. -/
theorem moves_start {i : Nat} {stage : ServiceStage} (h : Sound env w)
    (hentry : stage.entry = true) : Moves env w (w.goto i stage) i := by
  refine h.stored.goto ?_
  cases stage with
  | idle | publish | sweep => trivial
  | _ => cases hentry

/-- **One step of the system.** -/
theorem sound_step (h : Sound env w) (hs : ServiceStep env w w') :
    Sound env w' ∧ Keeps env w w' := by
  have leaves : ∀ {w'}, Leaves env w w' → Sound env w' ∧ Keeps env w w' := by
    intro w' hl
    refine ⟨⟨hl.stored, fun i => ?_⟩, hl.keeps⟩
    rw [hl.stages]
    exact hl.keeps.stageOk h.stored.drawn (h.stages i)
  cases hs with
  | queue c hc => exact leaves (h.stored.queue hc)
  | promote content hfree => exact leaves (h.stored.place _ hfree)
  | start i stage hentry =>
      have hm := moves_start (i := i) h hentry
      exact ⟨h.moves hm, hm.keeps⟩
  | act i choice hfresh hlisted =>
      have hm := moves_act (i := i) h hfresh hlisted
      exact ⟨h.moves hm, hm.keeps⟩

theorem sound_init (h : Initial env w) : Sound env w where
  stored :=
    { db := System.Reachable.of_init h.db
      rows := by
        rw [h.db.publications]
        intro p hp
        cases hp
      journal := fun key hkey => ⟨(h.journal key hkey).2, Or.inl (h.journal key hkey).1⟩
      attempts := h.attempts }
  stages i := by
    rw [h.stages i]
    trivial

/-- **What every run keeps.** -/
theorem sound_reachable (h : (serviceSystem env).Reachable w) : Sound env w :=
  h.invariant (I := Sound env) (fun _ => sound_init) fun _ _ _ hw hs => (sound_step hw hs).1

end ServiceWorld

/-! ## Runs -/

section Runs

variable {env : ServiceEnv} {w w' : ServiceWorld}

/-- What one step keeps, every run keeps. -/
theorem ServiceWorld.runs_keep (h : (serviceSystem env).Reachable w)
    (hr : (serviceSystem env).Runs w w') :
    (openSystem env.json).Runs w.db w'.db
      ∧ ∀ key content, w.canonical key = some content → w'.canonical key = some content := by
  induction hr with
  | refl => exact ⟨Relation.ReflTransGen.refl, fun _ _ hc => hc⟩
  | tail hruns hstep ih =>
      obtain ⟨_, hk⟩ := sound_step (sound_reachable (h.runs hruns)) hstep
      exact ⟨ih.1.trans hk.calls, fun key content hc => hk.canonical _ _ (ih.2 key content hc)⟩

/--
**An attempt object outlives the row that needs it.**

However publishers, sweepers, the queue and kills interleave: a row that has recorded its object and
has not ended finds that object in the attempt store, and one that was validated or finalized finds
the object it was validated with in the canonical store.
-/
theorem attempt_object_outlives_row (env : ServiceEnv) (w : ServiceWorld)
    (h : (serviceSystem env).Reachable w) (p : PublicationRow) (hp : p ∈ w.db.publications.rows) :
    (p.state = .objectWritten ∨ p.state = .validated → w.Held env p)
      ∧ (p.state = .validated ∨ p.state = .finalized → w.Promoted env p) := by
  have hrow := (ServiceWorld.sound_reachable h).stored.rows p hp
  exact ⟨hrow.held, hrow.promoted⟩

/--
**The stores only lose what has ended.**

A step out of a reachable state removes or changes an attempt object only where the row of its key
has ended, or where no row has its publication, now or ever. A canonical object is there for ever,
byte for byte.
-/
theorem stores_lose_only_ended (env : ServiceEnv) (w : ServiceWorld)
    (h : (serviceSystem env).Reachable w) :
    (∀ w', (serviceSystem env).step w w' → ∀ key content, w.attempts key = some content →
        w'.attempts key ≠ some content → w.Closed key
          ∨ ∀ w'', (serviceSystem env).Runs w w'' →
              ∀ p ∈ w''.db.publications.rows, p.id ≠ key.publicationId)
      ∧ ∀ w', (serviceSystem env).Runs w w' → ∀ key content, w.canonical key = some content →
          w'.canonical key = some content := by
  refine ⟨?_, fun w' hr => (ServiceWorld.runs_keep h hr).2⟩
  intro w' hstep key content hcontent hgone
  obtain ⟨_, hk⟩ := ServiceWorld.sound_step (ServiceWorld.sound_reachable h) hstep
  rcases hk.attempts key content hcontent with hkept | hclosed | hstrange
  · exact absurd hkept hgone
  · exact Or.inl hclosed
  · -- no row is ever drawn under a strange identifier
    refine Or.inr ?_
    intro w'' hr p hp hid
    have hdrawn := (ServiceWorld.sound_reachable (h.runs hr)).stored.drawn p hp
    rw [hid, hstrange] at hdrawn
    cases hdrawn

/-- **What is shown is backed** by a finalized publication and its blob. -/
theorem backed_of_visible {json : JsonColumn} {db : Db} {jobId : Uuid} {ns : Option String}
    {v : VisibleArtifact} (h : (openSystem json).Reachable db) (hv : v ∈ visibleWinner jobId ns db) :
    (∃ j, db.jobs.find? jobId = some j ∧ j.state = .succeeded) ∧ ∃ r p b, Backed db r p
      ∧ b.id = r.blobId ∧ db.blobs.find? b.id = some b ∧ v = r.visible b
      ∧ p.observedSha256 = some b.sha256 ∧ p.observedSizeBytes = some b.sizeBytes := by
  cases hj : db.jobs.find? jobId with
  | none =>
      rw [visibleWinner, hj] at hv
      cases hv
  | some j =>
      obtain rfl : j.id = jobId := Table.key_of_find? hj
      have hs : j.state = .succeeded := by
        by_contra hs
        rw [visibleWinner_none hj hs] at hv
        cases hv
      rw [visibleWinner_succeeded hj hs] at hv
      split at hv
      · obtain ⟨r, hr, hrv⟩ := List.mem_filterMap.mp (mem_orderBy.mp hv)
        obtain ⟨_, ⟨p, hp⟩, _⟩ := (published_reachable h).2.2.artifact r hr
        obtain ⟨b, hb, _, hsha, hsize, hvis⟩ := visibleRow_backed hp
        rw [hvis j, Option.ite_none_right_eq_some, Option.some.injEq] at hrv
        have hid : b.id = r.blobId := Table.key_of_find? hb
        exact ⟨⟨j, rfl, hs⟩, r, p, b, hp, hid, hid ▸ hb, hrv.2.symm, hsha, hsize⟩
      · cases hv

/-- A succeeded job shows the same for ever. -/
theorem visibleWinner_runs {json : JsonColumn} {db db' : Db} {j : JobRow}
    (h : (openSystem json).Reachable db) (hr : (openSystem json).Runs db db')
    (hj : db.jobs.find? j.id = some j) (hs : j.state = .succeeded) (ns : Option String) :
    visibleWinner j.id ns db' = visibleWinner j.id ns db := by
  obtain ⟨hl, hg, hp⟩ := published_reachable h
  have hkept := runs_of_effects json
    (P := fun s => Ledgered s ∧ Published s ∧ s.jobs.find? j.id = some j
      ∧ visibleWinner j.id ns s = visibleWinner j.id ns db) (fun s s' hl hP he => by
        obtain ⟨hg, hp, hj, hv⟩ := hP
        exact ⟨ledgered_effect hl hg he, published_effect hg hp he,
          job_kept he hj (by rw [hs]; rfl), (visibleWinner_effect hg hp he hj hs ns).trans hv⟩)
    hl ⟨hg, hp, hj, rfl⟩ hr
  exact hkept.2.2.2.2

/-- The blob of a backed artifact lies at its canonical key. -/
theorem Backed.storageKey {db : Db} {r : ArtifactRow} {p : PublicationRow} {b : BlobRow}
    (h : Backed db r p) (hid : b.id = r.blobId) (hb : db.blobs.find? b.id = some b) :
    b.storageKey = canonicalKey b.sha256 := by
  have hv := h.verified
  rw [validatedBlob, h.blob, Option.bind_some, ← hid, hb] at hv
  simp only [Bool.and_eq_true, beq_iff_eq] at hv
  exact hv.2

/--
**What a winner shows is what was stored.**

Whatever runs on after a job shows an artifact: it shows it still, and under the storage key that is
shown the canonical store has bytes of the digest and size that are shown, which are those of the
bytes the media probe read for that very publication.
-/
theorem visible_artifact_stored (env : ServiceEnv) (w w' : ServiceWorld)
    (h : (serviceSystem env).Reachable w) (hr : (serviceSystem env).Runs w w') (jobId : Uuid)
    (ns : Option String) (v : VisibleArtifact) (hv : v ∈ visibleWinner jobId ns w.db) :
    v ∈ visibleWinner jobId ns w'.db ∧ v.storageKey = canonicalKey v.sha256
      ∧ ∃ content snapshot, w'.canonical v.storageKey = some content
        ∧ env.sha256 content = v.sha256 ∧ content.length = v.sizeBytes
        ∧ (v.publicationId, snapshot) ∈ w.probed
        ∧ env.sha256 snapshot = v.sha256 ∧ snapshot.length = v.sizeBytes := by
  have hstored := (ServiceWorld.sound_reachable h).stored
  obtain ⟨hcalls, hcanonical⟩ := ServiceWorld.runs_keep h hr
  obtain ⟨⟨j, hj, hs⟩, r, p, b, hbacked, hid, hb, rfl, hsha, hsize⟩ :=
    backed_of_visible hstored.db hv
  obtain rfl : j.id = jobId := Table.key_of_find? hj
  have hsame := visibleWinner_runs hstored.db hcalls hj hs ns
  have hkey : b.storageKey = canonicalKey b.sha256 := hbacked.storageKey hid hb
  have hpid : p.id = (r.visible b).publicationId := Table.key_of_find? hbacked.find
  -- the finalized row was validated with what the canonical store holds
  obtain ⟨content, snapshot, hcontent, hprobed, hsnapshot, hlength, hpsha, hpsize⟩ :=
    (hstored.rows p (Table.mem_of_find? hbacked.find)).promoted (Or.inr hbacked.finalized)
  have hdigest : env.sha256 content = b.sha256 := Option.some.inj (hpsha.symm.trans hsha)
  have hbytes : content.length = b.sizeBytes := Option.some.inj (hpsize.symm.trans hsize)
  refine ⟨hsame ▸ hv, hkey, content, snapshot, ?_, hdigest, hbytes, hpid ▸ hprobed,
    hsnapshot.trans hdigest, hlength.trans hbytes⟩
  show w'.canonical b.storageKey = some content
  rw [hkey, ← hdigest]
  exact hcanonical _ _ hcontent

end Runs

/-! ### One publication -/

def publishEnv : ServiceEnv := ⟨letterSha256, .plain, fun _ => false⟩

theorem wav_media : "audio/wav" ∈ mediaTypes := by decide

/-- The letter `a`, as the output. -/
def letterCandidate : PublicationCandidate where
  kind := .output
  contentType := "audio/wav"
  maxSizeBytes := 10
  expectedSha256 := none
  expectedSizeBytes := none
  metadata := .dict []
  contentType_text := by decide
  maxSizeBytes_pos := Nat.succ_pos 9
  expectedSha256_digest := rfl
  expectedSizeBytes_le := rfl
  content := [97]
  contentType_media := wav_media

def noObjects : ServiceWorld :=
  ⟨smallQueue, fun _ => none, [], fun _ => false, fun _ => none, [], fun _ => .idle⟩

/-- Worker 7 has claimed the job of the small queue and begins to publish the letter. -/
def letterPublishing : ServiceWorld :=
  ServiceWorld.goto { noObjects with db := claimedQueue } 0
    (.publish claimedLease [letterCandidate])

/-- The probe's verdict and the identifiers of the run. -/
def publishChoice : ServiceWorld.Choice := ⟨3, 6, (· + 1), some ⟨"audio/wav", "1.0"⟩, []⟩

def letterPublished (n : Nat) : ServiceWorld :=
  (fun w => w.act publishEnv 0 publishChoice)^[n] letterPublishing

theorem letterPublished_succ (n : Nat) :
    letterPublished (n + 1) = (letterPublished n).act publishEnv 0 publishChoice :=
  Function.iterate_succ_apply' ..

theorem letterPublished_step (n : Nat) :
    (serviceSystem publishEnv).step (letterPublished n) (letterPublished (n + 1)) := by
  rw [letterPublished_succ]
  refine .act 0 publishChoice rfl ?_
  intro key hkey
  cases hkey

theorem letterPublished_reachable (n : Nat) :
    (serviceSystem publishEnv).Reachable (letterPublished n) := by
  induction n with
  | zero =>
      have hinit : (serviceSystem publishEnv).Reachable noObjects :=
        System.Reachable.of_init
          { db := registered_smallQueue
            journal := by simp [noObjects]
            attempts := by simp [noObjects]
            stages := fun _ => rfl }
      exact (hinit.step (.queue (.claimNext .free 9 7 60) rfl)).step (.start 0 _ rfl)
  | succ n ih => exact ih.step (letterPublished_step n)

theorem letterPublished_runs (n m : Nat) :
    (serviceSystem publishEnv).Runs (letterPublished n) (letterPublished (n + m)) := by
  induction m with
  | zero => exact Relation.ReflTransGen.refl
  | succ m ih => exact ih.tail (letterPublished_step (n + m))

/-- The row has recorded its object, which is there. -/
theorem attempt_object_outlives_row_written : ∃ p ∈ (letterPublished 20).db.publications.rows,
    p.state = .objectWritten ∧ (letterPublished 20).Held publishEnv p := by
  obtain ⟨p, hp, hs⟩ : ∃ p ∈ (letterPublished 20).db.publications.rows,
      p.state = .objectWritten := by decide +kernel
  exact ⟨p, hp, hs, (attempt_object_outlives_row publishEnv _ (letterPublished_reachable 20) p
    hp).1 (Or.inl hs)⟩

/-- The cleanup after the publication deletes the object of a finalized row. -/
theorem stores_lose_only_ended_cleanup : ∃ key,
    (letterPublished 29).attempts key = some [97] ∧ (letterPublished 30).attempts key = none
      ∧ (letterPublished 29).Closed key := by
  obtain ⟨p, hp, hbefore, hafter⟩ : ∃ p ∈ (letterPublished 29).db.publications.rows,
      (letterPublished 29).attempts p.key = some [97]
        ∧ (letterPublished 30).attempts p.key = none := by decide +kernel
  refine ⟨p.key, hbefore, hafter, ?_⟩
  have hgone : (letterPublished 30).attempts p.key ≠ some [97] := by
    rw [hafter]
    simp
  have hstep : (serviceSystem publishEnv).step (letterPublished 29) (letterPublished 30) :=
    letterPublished_step 29
  rcases (stores_lose_only_ended publishEnv (letterPublished 29)
    (letterPublished_reachable 29)).1 (letterPublished 30) hstep p.key [97] hbefore hgone with
    hclosed | hnone
  · exact hclosed
  · exact absurd rfl (hnone _ Relation.ReflTransGen.refl p hp)

/-- The winner shows the letter, and still does when its attempt object is gone. -/
theorem visible_artifact_stored_letter : ∃ v ∈ visibleWinner 5 none (letterPublished 25).db,
    v ∈ visibleWinner 5 none (letterPublished 31).db
      ∧ ∃ content, (letterPublished 31).canonical v.storageKey = some content
        ∧ letterSha256 content = v.sha256 := by
  have hruns : (serviceSystem publishEnv).Runs (letterPublished 25) (letterPublished 31) :=
    letterPublished_runs 25 6
  obtain ⟨v, hv⟩ : ∃ v, v ∈ visibleWinner 5 none (letterPublished 25).db :=
    List.exists_mem_of_ne_nil _ (by decide +kernel)
  obtain ⟨hstill, _, content, _, hcontent, hdigest, _⟩ := visible_artifact_stored publishEnv
    (letterPublished 25) (letterPublished 31) (letterPublished_reachable 25) hruns 5 none v hv
  exact ⟨v, hv, hstill, content, hcontent, hdigest⟩

end NanoAural
