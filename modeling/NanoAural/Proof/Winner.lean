import NanoAural.Proof.Ledger

/-!
# One visible winner

A job's output is what `visible_winner` joins together from four tables. Only
`finalize` writes the rows of that join, and it writes them for one attempt, once:
the attempt it crowns was active until then, and the job it closes was running.

`Published` says that the four tables agree. Every other effect leaves the rows it
speaks about alone, up to the cleanup mark of a finalized publication, which the
join does not read.
-/

namespace NanoAural

open Relational Machine

variable {json : JsonColumn} {allowed : Int → Prop}

/-- The finalized publication behind an artifact, with the verified blob it recorded. -/
structure Backed (db : Db) (r : ArtifactRow) (p : PublicationRow) : Prop where
  find : db.publications.find? r.publicationId = some p
  finalized : p.state = .finalized
  job : p.jobId = r.jobId
  attempt : p.attemptId = r.attemptId
  kind : p.kind = r.kind
  blob : p.canonicalBlobId = some r.blobId
  verified : validatedBlob db p = true

/-- **Attempts, jobs, artifacts and publications agree on the winner.** -/
structure Published (db : Db) : Prop where
  /-- A succeeded attempt is its job's winner. -/
  winner : ∀ aid a, db.attempts.find? aid = some a → a.state = .succeeded →
    ∃ j, db.jobs.find? a.jobId = some j ∧ j.state = .succeeded ∧ j.winningAttemptId = some aid
  /-- An artifact is ready, backed by its publication, and made by a succeeded attempt. -/
  artifact : ∀ r ∈ db.artifacts.rows, r.state = .ready ∧ (∃ p, Backed db r p)
    ∧ ∃ a, db.attempts.find? r.attemptId = some a ∧ a.state = .succeeded ∧ a.jobId = r.jobId
  /-- A succeeded job has a winner, whose artifacts are of exactly the required kinds. -/
  kinds : ∀ id j, db.jobs.find? id = some j → j.state = .succeeded →
    ∃ aid a, j.winningAttemptId = some aid ∧ db.attempts.find? aid = some a ∧ a.jobId = id
      ∧ a.state = .succeeded
      ∧ ∀ kind, kind ∈ j.requiredArtifactKinds ↔
          ∃ r ∈ db.artifacts.rows, r.attemptId = aid ∧ r.kind = kind

theorem published_init {db : Db} (h : Registered db) : Published db where
  winner aid a ha := by
    have := Table.mem_of_find? ha
    rw [h.attempts] at this
    exact absurd this (by simp)
  artifact r hr := by
    rw [h.artifacts] at hr
    exact absurd hr (by simp)
  kinds id j hj hs := by
    rcases (h.jobs j (Table.mem_of_find? hj)).2.2.2 with ⟨hq, _⟩ | hq <;> rw [hq] at hs <;>
      exact absurd hs (by simp)

/-! ## What no effect undoes -/

/-- An attempt that ended keeps its row. -/
theorem attempt_kept {db db' : Db} (he : Effect json allowed db db') {aid : Uuid} {a : AttemptRow}
    (ha : db.attempts.find? aid = some a) (hs : a.state ≠ .active) :
    db'.attempts.find? aid = some a := by
  obtain ⟨a', ha', _, _, _, hcase⟩ := attempt_effect he ha
  rcases hcase with rfl | ⟨hact, _⟩ | ⟨_, _, _, hh, _⟩
  · exact ha'
  · exact absurd hact hs
  · exact absurd hh.active hs

/-- A job that ended keeps its row. -/
theorem job_kept {db db' : Db} (he : Effect json allowed db db') {id : Uuid} {j : JobRow}
    (hj : db.jobs.find? id = some j) (ht : j.state.terminal = true) :
    db'.jobs.find? id = some j := by
  obtain ⟨j', hj', _, hsame⟩ := job_effect he hj
  exact hsame ht ▸ hj'

theorem blob_kept {db db' : Db} (he : Effect json allowed db db') {id : Uuid} {b : BlobRow}
    (hb : db.blobs.find? id = some b) : db'.blobs.find? id = some b := by
  cases he with
  | blob _ htb => exact Table.insert?_keep htb hb
  | _ => exact hb

/-- Artifacts are only ever added, for a job that was running until then. -/
theorem artifacts_effect {db db' : Db} (he : Effect json allowed db db') :
    ∃ new, db'.artifacts.rows = db.artifacts.rows ++ new
      ∧ ∀ r ∈ new, ∃ j, db.jobs.find? r.jobId = some j ∧ j.state = .running := by
  cases he with
  | win hh hu hc hitems htp htr hta htj htw hte =>
      refine ⟨_, htr, fun r hr => ?_⟩
      obtain ⟨p, _, rfl⟩ := List.mem_map.mp hr
      exact ⟨_, hh.job, hh.running⟩
  | _ => exact ⟨[], (List.append_nil _).symm, by simp⟩

/-- The evidence of a validated blob is in columns nothing rewrites. -/
theorem validatedBlob_kept {db db' : Db} {p p' : PublicationRow}
    (hblobs : ∀ id b, db.blobs.find? id = some b → db'.blobs.find? id = some b)
    (hid : p'.canonicalBlobId = p.canonicalBlobId) (hsha : p'.observedSha256 = p.observedSha256)
    (hsize : p'.observedSizeBytes = p.observedSizeBytes)
    (htype : p'.observedContentType = p.observedContentType) (h : validatedBlob db p = true) :
    validatedBlob db' p' = true := by
  unfold validatedBlob at h ⊢
  rw [hid, hsha, hsize, htype]
  cases hc : p.canonicalBlobId with
  | none =>
      rw [hc] at h
      exact absurd h (by simp)
  | some id =>
      rw [hc, Option.bind_some] at h
      rw [Option.bind_some]
      cases hb : db.blobs.find? id with
      | none =>
          rw [hb] at h
          exact absurd h (by simp)
      | some b =>
          rw [hb] at h
          rw [hblobs id b hb]
          exact h

/-- **A finalized publication stays what it was**, whatever is done to its row. -/
theorem backed_effect {db db' : Db} (hl : Ledgered db) (he : Effect json allowed db db')
    {r : ArtifactRow} {p : PublicationRow} (h : Backed db r p) : ∃ p', Backed db' r p' := by
  obtain ⟨p', hp', hid, hcase⟩ := publication_effect hl he (Table.mem_of_find? h.find)
  have hrow : p' = p ∨ p' = p.recordCleanup db.clock := by
    rcases hcase with rfl | hchange
    · exact Or.inl rfl
    · exact Or.inr (hchange.cleanup (by rw [h.finalized]; rfl)).2
  have hfind : db'.publications.find? r.publicationId = some p' := by
    have hkey : p.id = r.publicationId := Table.key_of_find? h.find
    rw [← hkey, ← hid]
    exact Table.find?_of_mem hp'
  have hblobs : ∀ id b, db.blobs.find? id = some b → db'.blobs.find? id = some b :=
    fun _ _ => blob_kept he
  rcases hrow with rfl | rfl
  · exact ⟨p', hfind, h.finalized, h.job, h.attempt, h.kind, h.blob,
      validatedBlob_kept hblobs rfl rfl rfl rfl h.verified⟩
  · exact ⟨_, hfind, h.finalized, h.job, h.attempt, h.kind, h.blob,
      validatedBlob_kept hblobs rfl rfl rfl rfl h.verified⟩

/-! ## What only a finalization does -/

/-- Success and artifacts do not appear between `db` and `db'`. -/
structure Quiet (db db' : Db) : Prop where
  attempts : ∀ aid a, db'.attempts.find? aid = some a → a.state = .succeeded →
    db.attempts.find? aid = some a
  jobs : ∀ id j, db'.jobs.find? id = some j → j.state = .succeeded → db.jobs.find? id = some j
  artifacts : db'.artifacts = db.artifacts

/-- An update to a row that has not succeeded brings no success. -/
theorem quiet_attempts {db : Db} {a a' : AttemptRow} {ta : Table AttemptRow}
    (hta : db.attempts.put? a' = some ta) (ha : db.attempts.find? a.id = some a)
    (hid : a'.id = a.id) (hs : a'.state ≠ .succeeded) (aid : Uuid) (x : AttemptRow)
    (hx : ta.find? aid = some x) (hx' : x.state = .succeeded) : db.attempts.find? aid = some x := by
  rcases Table.of_put? hta (by rw [← ha]; exact congrArg _ hid) hx with ⟨_, rfl⟩ | ⟨_, hx⟩
  · exact absurd hx' hs
  · exact hx

theorem quiet_jobs {db : Db} {j j' : JobRow} {tj : Table JobRow}
    (htj : db.jobs.put? j' = some tj) (hj : db.jobs.find? j.id = some j) (hid : j'.id = j.id)
    (hs : j'.state ≠ .succeeded) (id : Uuid) (x : JobRow)
    (hx : tj.find? id = some x) (hx' : x.state = .succeeded) : db.jobs.find? id = some x := by
  rcases Table.of_put? htj (by rw [← hj]; exact congrArg _ hid) hx with ⟨_, rfl⟩ | ⟨_, hx⟩
  · exact absurd hx' hs
  · exact hx

/-- Closing a lease is no success, of its attempt or of its job. -/
theorem closing_ne_succeeded (cancelled : Bool) (attemptNo : Nat) (maxAttempts : Int)
    (notBefore now : Time) (j : JobRow) :
    closingState cancelled attemptNo maxAttempts ≠ .succeeded
      ∧ (j.leave (closingState cancelled attemptNo maxAttempts) notBefore now).state
          ≠ .succeeded := by
  cases cancelled with
  | true => simp [closingState, JobRow.leave]
  | false => by_cases hm : maxAttempts ≤ attemptNo <;> simp [closingState, JobRow.leave, hm]

/-- Every effect but `win` is quiet. -/
theorem published_quiet {db db' : Db} (hl : Ledgered db) (h : Published db)
    (he : Effect json allowed db db') (hq : Quiet db db') : Published db' where
  winner aid a ha hs := by
    obtain ⟨j, hj, hjs, hw⟩ := h.winner aid a (hq.attempts aid a ha hs) hs
    exact ⟨j, job_kept he hj (by rw [hjs]; rfl), hjs, hw⟩
  artifact r hr := by
    rw [hq.artifacts] at hr
    obtain ⟨hready, ⟨p, hp⟩, a, ha, hs, haj⟩ := h.artifact r hr
    exact ⟨hready, backed_effect hl he hp, a, attempt_kept he ha (by rw [hs]; simp), hs, haj⟩
  kinds id j hj hs := by
    obtain ⟨aid, a, hw, ha, haj, has, hk⟩ := h.kinds id j (hq.jobs id j hj hs) hs
    rw [hq.artifacts]
    exact ⟨aid, a, hw, attempt_kept he ha (by rw [has]; simp), haj, has, hk⟩

/-! ## The finalization -/

/-- An artifact of a finalization belongs to one of its publications. -/
theorem mem_artifactsOf {artifactId : Uuid → Uuid} {lease : Lease} {items : List PublicationRow}
    {r : ArtifactRow} : r ∈ artifactsOf json artifactId lease items ↔
      ∃ p ∈ items, artifactOf json (artifactId p.id) lease (p.canonicalBlobId.getD 0) p = r := by
  simp only [artifactsOf, List.mem_map]

/-- A publication that finalization names is found finalized afterwards. -/
theorem find_finalizedRows {db : Db} {items : List PublicationRow} {tp : Table PublicationRow}
    (htp : tp.rows = finalizedRows db.clock items db.publications.rows) {p : PublicationRow}
    (hp : p ∈ db.publications.rows) (hitem : p ∈ items) :
    tp.find? p.id = some (p.finalize db.clock) := by
  have hmap := Table.find?_map htp (fun r => by split <;> rfl) p.id
  have hfind : db.publications.find? p.id = some p := Table.find?_of_mem hp
  rw [hmap, hfind, Option.map_some, if_pos (List.mem_map_of_mem hitem)]

/-- **The artifacts of a finalization are backed by the publications it finalizes.** -/
theorem backed_win {db db' : Db} {lease : Lease} {required : List ArtifactKind}
    {items : List PublicationRow} {artifactId : Uuid → Uuid} (hitems : Winning db lease required items)
    (htp : db'.publications.rows = finalizedRows db.clock items db.publications.rows)
    (hb : db'.blobs = db.blobs) {p : PublicationRow} (hp : p ∈ items) :
    Backed db' (artifactOf json (artifactId p.id) lease (p.canonicalBlobId.getD 0) p)
      (p.finalize db.clock) := by
  have howned := hitems.owned p hp
  simp only [PublicationRow.ownedBy, Bool.and_eq_true, beq_iff_eq] at howned
  have hverified := hitems.blob p hp
  obtain ⟨id, hid⟩ : ∃ id, p.canonicalBlobId = some id := by
    cases hc : p.canonicalBlobId with
    | some id => exact ⟨id, rfl⟩
    | none =>
        rw [validatedBlob, hc] at hverified
        exact absurd hverified (by simp)
  refine ⟨find_finalizedRows htp (hitems.rows p hp) hp, rfl, howned.1.1.1, howned.1.1.2, rfl, ?_,
    validatedBlob_kept (fun _ _ h => hb ▸ h) rfl rfl rfl rfl hverified⟩
  show p.canonicalBlobId = some (p.canonicalBlobId.getD 0)
  rw [hid]
  rfl

/-- **A finalization crowns its attempt.** -/
theorem published_win {db db' : Db} (hl : Ledgered db) (h : Published db)
    (he : Effect json allowed db db') {lease : Lease} {a : AttemptRow} {j : JobRow} {w : WorkerRow}
    {items : List PublicationRow} {artifactId : Uuid → Uuid} (hh : Holds db lease a j w)
    (hitems : Winning db lease j.requiredArtifactKinds items)
    (htp : db'.publications.rows = finalizedRows db.clock items db.publications.rows)
    (htr : db'.artifacts.rows = db.artifacts.rows ++ artifactsOf json artifactId lease items)
    (hta : db.attempts.put? (a.succeed db.clock) = some db'.attempts)
    (htj : db.jobs.put? (j.succeed lease.attemptId db.clock) = some db'.jobs)
    (hb : db'.blobs = db.blobs) : Published db' := by
  have ha : db.attempts.find? a.id = some a := hh.attemptId.symm ▸ hh.attempt
  have hj : db.jobs.find? j.id = some j := hh.jobId.symm ▸ hh.job
  have haj : a.jobId = j.id := hh.ofJob.trans hh.jobId.symm
  have ha' : db'.attempts.find? lease.attemptId = some (a.succeed db.clock) := by
    have := Table.put?_self hta ha
    rwa [← hh.attemptId]
  have hj' : db'.jobs.find? j.id = some (j.succeed lease.attemptId db.clock) :=
    Table.put?_self htj hj
  -- an artifact of the crowned attempt is one of the new ones, since the attempt was active
  have hnew : ∀ r ∈ db.artifacts.rows, r.attemptId ≠ lease.attemptId := fun r hr hid => by
    obtain ⟨_, _, b, hbf, hbs, _⟩ := h.artifact r hr
    obtain rfl : a = b := Option.some.inj (hh.attempt.symm.trans (hid ▸ hbf))
    rw [hh.active] at hbs
    exact absurd hbs (by simp)
  refine ⟨fun aid x hx hs => ?_, fun r hr => ?_, fun id x hx hs => ?_⟩
  · rcases Table.of_put? hta ha hx with ⟨haid, rfl⟩ | ⟨_, hx⟩
    · refine ⟨_, haj ▸ hj', rfl, ?_⟩
      show some lease.attemptId = some aid
      rw [haid, ← hh.attemptId]
      rfl
    · obtain ⟨x', hx', hxs, hw⟩ := h.winner aid x hx hs
      exact ⟨x', job_kept he hx' (by rw [hxs]; rfl), hxs, hw⟩
  · rw [htr, List.mem_append] at hr
    rcases hr with hr | hr
    · obtain ⟨hready, ⟨p, hp⟩, b, hbf, hbs, hbj⟩ := h.artifact r hr
      exact ⟨hready, backed_effect hl he hp, b, attempt_kept he hbf (by rw [hbs]; simp), hbs, hbj⟩
    · obtain ⟨p, hp, rfl⟩ := mem_artifactsOf.mp hr
      exact ⟨rfl, ⟨_, backed_win hitems htp hb hp⟩, _, ha', rfl, hh.ofJob⟩
  · rcases Table.of_put? htj hj hx with ⟨hid, rfl⟩ | ⟨_, hx⟩
    · refine ⟨_, _, rfl, ha', haj.trans hid.symm, rfl, fun kind => ?_⟩
      show kind ∈ j.requiredArtifactKinds ↔ _
      rw [← hitems.kinds kind, htr, List.mem_map]
      constructor
      · rintro ⟨p, hp, rfl⟩
        exact ⟨_, List.mem_append_right _ (mem_artifactsOf.mpr ⟨p, hp, rfl⟩), rfl, rfl⟩
      · rintro ⟨r, hr, hid, rfl⟩
        rcases List.mem_append.mp hr with hr | hr
        · exact absurd hid (hnew r hr)
        · obtain ⟨p, hp, rfl⟩ := mem_artifactsOf.mp hr
          exact ⟨p, hp, rfl⟩
    · obtain ⟨aid, b, hw, hbf, hbj, hbs, hk⟩ := h.kinds id x hx hs
      refine ⟨aid, b, hw, attempt_kept he hbf (by rw [hbs]; simp), hbj, hbs, fun kind => ?_⟩
      rw [hk kind, htr]
      constructor
      · rintro ⟨r, hr, hr'⟩
        exact ⟨r, List.mem_append_left _ hr, hr'⟩
      · rintro ⟨r, hr, hid, hrk⟩
        rcases List.mem_append.mp hr with hr | hr
        · exact ⟨r, hr, hid, hrk⟩
        · -- a new artifact is the crowned attempt's, and that one had not succeeded before
          obtain ⟨p, hp, rfl⟩ := mem_artifactsOf.mp hr
          have hid : lease.attemptId = aid := hid
          obtain rfl : a = b := Option.some.inj (hh.attempt.symm.trans (hid ▸ hbf))
          rw [hh.active] at hbs
          exact absurd hbs (by simp)

theorem published_effect {db db' : Db} (hl : Ledgered db) (h : Published db)
    (he : Effect json allowed db db') : Published db' := by
  have quiet := published_quiet hl h he
  cases he with
  | tick now _ => exact quiet ⟨fun _ _ hx _ => hx, fun _ _ hx _ => hx, rfl⟩
  | reserve _ _ => exact quiet ⟨fun _ _ hx _ => hx, fun _ _ hx _ => hx, rfl⟩
  | ledger _ _ _ => exact quiet ⟨fun _ _ hx _ => hx, fun _ _ hx _ => hx, rfl⟩
  | blob _ _ => exact quiet ⟨fun _ _ hx _ => hx, fun _ _ hx _ => hx, rfl⟩
  | claim hw hready hj hjob hta htj htw hte =>
      refine quiet ⟨fun aid x hx hs => ?_, quiet_jobs htj hj rfl (by simp [JobRow.start]), rfl⟩
      rcases Table.of_insert? hta hx with ⟨_, rfl⟩ | ⟨_, hx⟩
      · exact absurd hs (by simp [issuedAttempt])
      · exact hx
  | renew hh hu hc hta htw =>
      have ha := hh.attemptId.symm ▸ hh.attempt
      refine quiet ⟨quiet_attempts hta ha rfl ?_, fun _ _ hx _ => hx, rfl⟩
      simp [AttemptRow.renew, hh.active]
  | requestCancel hj hs hc htj hte =>
      refine quiet ⟨fun _ _ hx _ => hx, quiet_jobs htj hj rfl ?_, rfl⟩
      rcases hs with hs | hs <;> simp [JobRow.requestCancel, hs]
  | @close lease a j w maxAttempts notBefore reason ta tj tw te hh hm hta htj htw hte =>
      obtain ⟨hno, hnoj⟩ := closing_ne_succeeded j.cancelRequestedAt.isSome a.attemptNo
        maxAttempts notBefore db.clock j
      have ha := hh.attemptId.symm ▸ hh.attempt
      have hj := hh.jobId.symm ▸ hh.job
      exact quiet ⟨quiet_attempts hta ha rfl hno,
        quiet_jobs htj hj (leave_keeps _ _ _ _).1 hnoj, rfl⟩
  | @win lease a j w items artifactId tp tr ta tj tw te hh hu hc hitems htp htr hta htj htw hte =>
      have he : Effect json allowed db _ := .win hh hu hc hitems htp htr hta htj htw hte
      exact published_win hl h he hh hitems htp htr hta htj rfl

theorem published_reachable {db : Db} (h : (openSystem json).Reachable db) :
    Linked db ∧ Ledgered db ∧ Published db :=
  invariant_of_effects json (fun _ => True) (I := fun db => Ledgered db ∧ Published db)
    (fun _ _ _ _ => trivial) (fun _ h => ⟨ledgered_init h, published_init h⟩)
    (fun _ _ hl hI he => ⟨ledgered_effect hl hI.1 he, published_effect hI.1 hI.2 he⟩) h

/-! ## What the winner shows -/

/-- A visible artifact is a ready one of the winner, bound to the verified blob whose digest and
size its publication recorded. -/
def Shows (db : Db) (winner : Uuid) (v : VisibleArtifact) : Prop :=
  ∃ r ∈ db.artifacts.rows, ∃ p ∈ db.publications.rows, ∃ b ∈ db.blobs.rows,
    v = r.visible b ∧ r.state = .ready ∧ r.attemptId = winner
      ∧ p.id = r.publicationId ∧ p.state = .finalized ∧ p.attemptId = winner ∧ p.kind = r.kind
      ∧ p.canonicalBlobId = some b.id ∧ b.id = r.blobId ∧ b.state = .verified
      ∧ p.observedSha256 = some b.sha256 ∧ p.observedSizeBytes = some b.sizeBytes

/-- The join finds the blob of a backed artifact, and then only asks whose artifact it is. -/
theorem visibleRow_backed {db : Db} {r : ArtifactRow} {p : PublicationRow} (h : Backed db r p) :
    ∃ b, db.blobs.find? r.blobId = some b ∧ b.state = .verified
      ∧ p.observedSha256 = some b.sha256 ∧ p.observedSizeBytes = some b.sizeBytes
      ∧ ∀ j : JobRow, visibleRow db j r =
          if some r.attemptId = j.winningAttemptId ∧ r.jobId = j.id ∧ r.state = .ready
          then some (r.visible b) else none := by
  have hv := h.verified
  rw [validatedBlob, h.blob, Option.bind_some] at hv
  cases hb : db.blobs.find? r.blobId with
  | none =>
      rw [hb] at hv
      exact absurd hv (by simp)
  | some b =>
      rw [hb] at hv
      simp only [Bool.and_eq_true, beq_iff_eq] at hv
      obtain ⟨⟨⟨⟨hverified, hsha⟩, hsize⟩, _⟩, _⟩ := hv
      refine ⟨b, rfl, hverified, hsha.symm, hsize.symm, fun j => ?_⟩
      unfold visibleRow
      rw [h.find, hb]
      simp [h.finalized, h.job, h.attempt, h.blob, hverified, and_assoc]
      congr 1
      simp only [eq_iff_iff]
      tauto

/-- A job that has not succeeded shows nothing. -/
theorem visibleWinner_none {db : Db} {j : JobRow} (hj : db.jobs.find? j.id = some j)
    (hs : j.state ≠ .succeeded) (ns : Option String) : visibleWinner j.id ns db = [] := by
  unfold visibleWinner
  rw [hj]
  dsimp only
  rw [if_neg (by simp [hs])]

/-- A succeeded job shows the join, in the order of the kinds. -/
theorem visibleWinner_succeeded {db : Db} {j : JobRow} {ns : Option String}
    (hj : db.jobs.find? j.id = some j) (hs : j.state = .succeeded) :
    visibleWinner j.id ns db = if ns.all (· == j.namespaceId) then
      orderBy (fun v : VisibleArtifact => v.kind.value)
        (db.artifacts.rows.filterMap (visibleRow db j)) else [] := by
  unfold visibleWinner
  rw [hj]
  simp [hs]

theorem requiredArtifactKinds_nodup {db : Db} {j : JobRow} (hj : db.jobs.find? j.id = some j) :
    j.requiredArtifactKinds.Nodup := by
  have hcheck : (isSha256 j.requestSha256 && sqlTrimmed j.namespaceId
      && sqlTrimmed j.idempotencyKey && validRequiredArtifactKinds j.requiredArtifactKinds) = true :=
    Table.check_of_find? hj
  simp only [Bool.and_eq_true, validRequiredArtifactKinds, decide_eq_true_eq] at hcheck
  exact hcheck.2.2

/-- **The winner shows each required kind once.** -/
theorem kinds_perm {db : Db} (h : Published db) {j : JobRow} (hj : db.jobs.find? j.id = some j)
    (hs : j.state = .succeeded) :
    ((db.artifacts.rows.filterMap (visibleRow db j)).map VisibleArtifact.kind).Perm
      j.requiredArtifactKinds := by
  obtain ⟨aid, a, hw, ha, haj, has, hk⟩ := h.kinds j.id j hj hs
  -- a row is shown exactly when it belongs to the winner
  have hrow : ∀ r ∈ db.artifacts.rows, ∃ b, visibleRow db j r =
      if r.attemptId = aid then some (r.visible b) else none := by
    intro r hr
    obtain ⟨hready, ⟨p, hp⟩, c, hc, _, hcj⟩ := h.artifact r hr
    obtain ⟨b, _, _, _, _, hvis⟩ := visibleRow_backed hp
    refine ⟨b, ?_⟩
    rw [hvis j, hw]
    by_cases hid : r.attemptId = aid
    · have hrj : r.jobId = j.id := by
        rw [hid, ha] at hc
        obtain rfl := Option.some.inj hc
        exact hcj.symm.trans haj
      rw [if_pos ⟨by rw [hid], hrj, hready⟩, if_pos hid]
    · rw [if_neg (fun hx => hid (Option.some.inj hx.1)), if_neg hid]
  refine (List.perm_ext_iff_of_nodup ?_ ?_).mpr fun kind => ?_
  · -- two rows of one attempt and kind would clash
    rw [List.Nodup, List.pairwise_map, List.pairwise_filterMap]
    refine (List.Pairwise.and_mem.mp db.artifacts.apart).imp ?_
    rintro r r' ⟨hr, hr', hapart⟩ v hv v' hv' hkind
    obtain ⟨b, hb⟩ := hrow r hr
    obtain ⟨b', hb'⟩ := hrow r' hr'
    rw [hb, Option.ite_none_right_eq_some, Option.some.injEq] at hv
    rw [hb', Option.ite_none_right_eq_some, Option.some.injEq] at hv'
    obtain ⟨hid, rfl⟩ := hv
    obtain ⟨hid', rfl⟩ := hv'
    have hkind : r.kind = r'.kind := hkind
    have hclash : Schema.clash r r' = true := by
      show (r.attemptId == r'.attemptId && r.kind == r'.kind
        || r.publicationId == r'.publicationId) = true
      rw [hid, hid', hkind]
      simp
    rw [hapart.2] at hclash
    exact absurd hclash (by simp)
  · exact requiredArtifactKinds_nodup hj
  · rw [hk kind, List.mem_map]
    constructor
    · rintro ⟨v, hv, rfl⟩
      obtain ⟨r, hr, hrv⟩ := List.mem_filterMap.mp hv
      obtain ⟨b, hb⟩ := hrow r hr
      rw [hb, Option.ite_none_right_eq_some, Option.some.injEq] at hrv
      obtain ⟨hid, rfl⟩ := hrv
      exact ⟨r, hr, hid, rfl⟩
    · rintro ⟨r, hr, hid, rfl⟩
      obtain ⟨b, hb⟩ := hrow r hr
      exact ⟨r.visible b, List.mem_filterMap.mpr ⟨r, hr, by rw [hb, if_pos hid]⟩, rfl⟩

/-- Whatever the join shows is a row of the winner. -/
theorem shows_of_visible {db : Db} (h : Published db) {j : JobRow} {aid : Uuid}
    (hw : j.winningAttemptId = some aid) {r : ArtifactRow} (hr : r ∈ db.artifacts.rows)
    {v : VisibleArtifact} (hv : visibleRow db j r = some v) : Shows db aid v := by
  obtain ⟨hready, ⟨p, hp⟩, _⟩ := h.artifact r hr
  obtain ⟨b, hb, hverified, hsha, hsize, hvis⟩ := visibleRow_backed hp
  rw [hvis j, Option.ite_none_right_eq_some, Option.some.injEq] at hv
  obtain ⟨⟨hid, _, _⟩, rfl⟩ := hv
  have hid : r.attemptId = aid := Option.some.inj (hid.trans hw)
  have hbid : b.id = r.blobId := Table.key_of_find? hb
  exact ⟨r, hr, p, Table.mem_of_find? hp.find, b, Table.mem_of_find? hb, rfl, hready, hid,
    Table.key_of_find? hp.find, hp.finalized, hp.attempt.trans hid, hp.kind, by rw [hbid, hp.blob],
    hbid, hverified, hsha, hsize⟩

/-- **No effect changes what a winner shows.** -/
theorem visibleWinner_effect {db db' : Db} (hl : Ledgered db) (h : Published db)
    (he : Effect json allowed db db') {j : JobRow} (hj : db.jobs.find? j.id = some j)
    (hs : j.state = .succeeded) (ns : Option String) :
    visibleWinner j.id ns db' = visibleWinner j.id ns db := by
  have hj' := job_kept he hj (by rw [hs]; rfl)
  obtain ⟨new, hnew, hjob⟩ := artifacts_effect he
  have h' := published_effect hl h he
  rw [visibleWinner_succeeded hj hs, visibleWinner_succeeded hj' hs, hnew, List.filterMap_append]
  have hold : db.artifacts.rows.filterMap (visibleRow db' j)
      = db.artifacts.rows.filterMap (visibleRow db j) := by
    refine List.filterMap_congr fun r hr => ?_
    obtain ⟨_, ⟨p, hp⟩, _⟩ := h.artifact r hr
    obtain ⟨p', hp'⟩ := backed_effect hl he hp
    obtain ⟨b, hb, _, _, _, hvis⟩ := visibleRow_backed hp
    obtain ⟨b', hb', _, _, _, hvis'⟩ := visibleRow_backed hp'
    obtain rfl : b = b' := Option.some.inj ((blob_kept he hb).symm.trans hb')
    rw [hvis j, hvis' j]
  have hnone : new.filterMap (visibleRow db' j) = [] := by
    refine List.filterMap_eq_nil_iff.mpr fun r hr => ?_
    obtain ⟨_, ⟨p', hp'⟩, _⟩ := h'.artifact r (hnew ▸ List.mem_append_right _ hr)
    obtain ⟨b', _, _, _, _, hvis'⟩ := visibleRow_backed hp'
    rw [hvis' j, if_neg]
    rintro ⟨_, hid, _⟩
    obtain ⟨k, hk, hrun⟩ := hjob r hr
    obtain rfl : j = k := Option.some.inj (hj.symm.trans (hid ▸ hk))
    rw [hs] at hrun
    exact absurd hrun (by simp)
  rw [hold, hnone, List.append_nil]

/-! ## Exactly one winner -/

/--
**Exactly one visible winner.**

In every reachable state an unfinished job shows nothing, and a succeeded one shows each of its
required kinds once, all of one succeeded attempt. Whatever is called afterwards, no second attempt
of the job succeeds, and the job keeps its row and what it shows.
-/
theorem one_visible_winner (json : JsonColumn) (db db' : Db)
    (h : (openSystem json).Reachable db) (hr : (openSystem json).Runs db db')
    (ns : Option String) :
    (∀ a ∈ db.attempts.rows, ∀ b ∈ db'.attempts.rows, a.state = .succeeded →
        b.state = .succeeded → a.jobId = b.jobId → a = b)
    ∧ ∀ j ∈ db.jobs.rows,
        (j.state ≠ .succeeded → visibleWinner j.id ns db = [])
        ∧ (j.state = .succeeded →
            (ns.all (· == j.namespaceId) = true → ∃ winner ∈ db.attempts.rows,
              winner.jobId = j.id ∧ winner.state = .succeeded
                ∧ j.winningAttemptId = some winner.id
                ∧ ((visibleWinner j.id ns db).map VisibleArtifact.kind).Perm
                    j.requiredArtifactKinds
                ∧ ((visibleWinner j.id ns db).map VisibleArtifact.kind).Nodup
                ∧ ∀ v ∈ visibleWinner j.id ns db, Shows db winner.id v)
            ∧ j ∈ db'.jobs.rows ∧ visibleWinner j.id ns db' = visibleWinner j.id ns db) := by
  obtain ⟨hl, hg, hp⟩ := published_reachable h
  obtain ⟨_, _, hp'⟩ := published_reachable (h.runs hr)
  refine ⟨fun a ha b hb hsa hsb hab => ?_, fun j hj => ?_⟩
  · -- the first winner is still there, and both are the job's one winner
    have ha' : db'.attempts.find? a.id = some a :=
      (runs_of_effects json (P := fun s => s.attempts.find? a.id = some a)
        (fun _ _ _ hf he => attempt_kept he hf (by rw [hsa]; simp)) hl (Table.find?_of_mem ha) hr).2
    obtain ⟨j, hj, _, hw⟩ := hp'.winner _ a ha' hsa
    obtain ⟨k, hk, _, hw'⟩ := hp'.winner _ b (Table.find?_of_mem hb) hsb
    obtain rfl : j = k := Option.some.inj (hj.symm.trans (hab ▸ hk))
    have hid : a.id = b.id := Option.some.inj (hw.symm.trans hw')
    exact Option.some.inj (ha'.symm.trans (hid ▸ Table.find?_of_mem hb))
  · have hf : db.jobs.find? j.id = some j := Table.find?_of_mem hj
    refine ⟨fun hs => visibleWinner_none hf hs ns, fun hs => ⟨fun hns => ?_, ?_⟩⟩
    · obtain ⟨aid, a, hw, ha, haj, has, _⟩ := hp.kinds j.id j hf hs
      have haid : a.id = aid := Table.key_of_find? ha
      have hperm : ((visibleWinner j.id ns db).map VisibleArtifact.kind).Perm
          j.requiredArtifactKinds := by
        rw [visibleWinner_succeeded hf hs, if_pos hns]
        exact ((orderBy_perm _ _).map _).trans (kinds_perm hp hf hs)
      refine ⟨a, Table.mem_of_find? ha, haj, has, by rw [hw, haid], hperm, ?_, fun v hv => ?_⟩
      · exact hperm.nodup_iff.mpr (requiredArtifactKinds_nodup hf)
      · rw [visibleWinner_succeeded hf hs, if_pos hns, mem_orderBy] at hv
        obtain ⟨r, hr, hrv⟩ := List.mem_filterMap.mp hv
        exact shows_of_visible hp (by rw [hw, haid]) hr hrv
    · obtain ⟨_, _, _, hj', hsame⟩ := runs_of_effects json
        (P := fun s => Ledgered s ∧ Published s ∧ s.jobs.find? j.id = some j
          ∧ visibleWinner j.id ns s = visibleWinner j.id ns db)
        (fun _ _ hl ⟨hg, hp, hj, hv⟩ he => ⟨ledgered_effect hl hg he, published_effect hg hp he,
          job_kept he hj (by rw [hs]; rfl), (visibleWinner_effect hg hp he hj hs ns).trans hv⟩)
        hl ⟨hg, hp, hf, rfl⟩ hr
      exact ⟨Table.mem_of_find? hj', hsame⟩

/-- The reserved queue after its worker stored and validated its output. -/
def validatedQueue : Db :=
  let written := ((Call.recordObject claimedLease 3 0 zeroDigest 4).run .plain reservedQueue).2
  ((Call.recordValidated claimedLease 3 1
    ⟨6, zeroDigest, 4, canonicalKey zeroDigest, .verified, "t"⟩ (.dict [])).run .plain written).2

/-- The queue after the output is finalized. -/
def wonQueue : Db :=
  ((Call.finalize (· + 1) claimedLease validatedQueue.publications.rows).run .plain
    validatedQueue).2

theorem one_visible_winner_crowned : wonQueue.jobs.rows.map JobRow.state = [.succeeded] ∧
    ∀ j ∈ wonQueue.jobs.rows, j.state = .succeeded →
      visibleWinner j.id none ((Call.tick 100).run .plain wonQueue).2
        = visibleWinner j.id none wonQueue := by
  have hclaimed : (openSystem .plain).Reachable claimedQueue :=
    (System.Reachable.of_init registered_smallQueue).step ⟨.claimNext .free 9 7 60, trivial, rfl⟩
  have hreserved : (openSystem .plain).Reachable reservedQueue :=
    hclaimed.step ⟨.reserve 3 claimedLease smallSpec, trivial, rfl⟩
  have hvalidated : (openSystem .plain).Reachable validatedQueue :=
    (hreserved.step ⟨.recordObject claimedLease 3 0 zeroDigest 4, trivial, rfl⟩).step
      ⟨.recordValidated claimedLease 3 1 _ _, trivial, rfl⟩
  have hwon : (openSystem .plain).Reachable wonQueue :=
    hvalidated.step ⟨.finalize (· + 1) claimedLease _, trivial, rfl⟩
  refine ⟨by decide +kernel, fun j hj hs => ?_⟩
  exact (((one_visible_winner .plain wonQueue _ hwon
    (Relation.ReflTransGen.single ⟨.tick 100, trivial, rfl⟩) none).2 j hj).2 hs).2.2

end NanoAural
