import NanoAural.Proof.Fencing

/-!
# The publication ledger as a state machine

Six methods and five triggers write `artifact_publications`. `LedgerChange` is
the machine they implement, stated on one row: how a version, a state and the
columns of evidence may move, and what the database saw when they did.

The one rule no constraint expresses is that a row marked stale is never taken up
again. It holds because the lease behind the row was already lost when it was
marked, and a lost lease does not come back.
-/

namespace NanoAural

open Relational Machine

variable {json : JsonColumn} {allowed : Int → Prop}

/-- The value of an optional column, once set, stays. -/
def SetOnce {α : Type} (old new : Option α) : Prop := old.isSome = true → new = old

theorem SetOnce.refl {α : Type} (x : Option α) : SetOnce x x := fun _ => rfl

theorem SetOnce.of_none {α : Type} {x y : Option α} (h : x = none) : SetOnce x y := by
  rintro hx
  rw [h] at hx
  exact absurd hx (by simp)

theorem SetOnce.trans {α : Type} {x y z : Option α} (h₁ : SetOnce x y) (h₂ : SetOnce y z) :
    SetOnce x z := fun hx => by
  have hy := h₁ hx
  rw [h₂ (hy ▸ hx), hy]

/-- The columns a publication never rewrites. -/
structure KeepsEvidence (p p' : PublicationRow) : Prop where
  identity : p.sameIdentity p' = true
  key : SetOnce p.attemptObjectKey p'.attemptObjectKey
  sha256 : SetOnce p.observedSha256 p'.observedSha256
  size : SetOnce p.observedSizeBytes p'.observedSizeBytes
  contentType : SetOnce p.observedContentType p'.observedContentType
  validator : SetOnce p.validatorMetadata p'.validatorMetadata
  blob : SetOnce p.canonicalBlobId p'.canonicalBlobId
  stale : SetOnce p.staleSince p'.staleSince

theorem sameIdentity_iff {p p' : PublicationRow} : p.sameIdentity p' = true ↔
    p'.id = p.id ∧ p'.jobId = p.jobId ∧ p'.attemptId = p.attemptId ∧ p'.workerId = p.workerId
      ∧ p'.leaseEpoch = p.leaseEpoch ∧ p'.kind = p.kind ∧ p'.expectedSha256 = p.expectedSha256
      ∧ p'.expectedSizeBytes = p.expectedSizeBytes
      ∧ p'.expectedContentType = p.expectedContentType ∧ p'.maxSizeBytes = p.maxSizeBytes
      ∧ p'.metadata = p.metadata ∧ p'.createdAt = p.createdAt := by
  simp [PublicationRow.sameIdentity, and_assoc]

theorem KeepsEvidence.refl (p : PublicationRow) : KeepsEvidence p p :=
  ⟨by simp [PublicationRow.sameIdentity], .refl _, .refl _, .refl _, .refl _, .refl _, .refl _,
    .refl _⟩

theorem KeepsEvidence.trans {p q r : PublicationRow} (h : KeepsEvidence p q)
    (h' : KeepsEvidence q r) : KeepsEvidence p r where
  identity := by
    have h₁ := sameIdentity_iff.mp h.identity
    have h₂ := sameIdentity_iff.mp h'.identity
    simp only [sameIdentity_iff, h₂, h₁, and_self]
  key := h.key.trans h'.key
  sha256 := h.sha256.trans h'.sha256
  size := h.size.trans h'.size
  contentType := h.contentType.trans h'.contentType
  validator := h.validator.trans h'.validator
  blob := h.blob.trans h'.blob
  stale := h.stale.trans h'.stale

/-- **One change of one publication row**, made in the state `db`. -/
structure LedgerChange (db : Db) (p p' : PublicationRow) : Prop where
  version : p'.version = p.version + 1
  /-- Along an edge of the state machine, or in place. -/
  edge : p'.state = p.state ∨ p.state.next p'.state = true
  evidence : KeepsEvidence p p'
  /-- The observed size respects the limit and any declared size; so does the digest. -/
  bounded : p'.observedSizeBytes.all (· ≤ p'.maxSizeBytes) = true
  size : p'.expectedSizeBytes.isSome → p'.observedSizeBytes.isSome →
    p'.observedSizeBytes = p'.expectedSizeBytes
  digest : p'.expectedSha256.isSome → p'.observedSha256.isSome →
    p'.observedSha256 = p'.expectedSha256
  /-- A row is marked stale in place, and only while its lease is not current. -/
  marked : p.staleSince = none → p'.staleSince.isSome →
    p'.state = p.state ∧ p'.staleSince = some db.clock ∧ ¬ Current db p.lease
  /-- A stale row is only ever abandoned: after its grace period, its lease still not current. -/
  abandoned : ∀ since, p.staleSince = some since → p.state.terminal = false →
    p'.state = .abandoned ∧ since + staleGrace ≤ db.clock ∧ ¬ Current db p.lease
  /-- A row that ends is stamped with the database clock. -/
  ended : p.state.terminal = false → p'.state.terminal = true → p'.terminalAt = some db.clock
  /-- A terminal row records its cleanup, once. -/
  cleanup : p.state.terminal = true → p.attemptObjectDeletedAt = none
    ∧ p' = p.recordCleanup db.clock

/-! ## The invariant behind stale rows -/

/-- Every publication has the attempt it was reserved under, and a stale one has lost it. -/
structure Ledgered (db : Db) : Prop where
  issued : ∀ p ∈ db.publications.rows, Issued db p.lease
  staleGone : ∀ p ∈ db.publications.rows, p.staleSince.isSome = true → ¬ Current db p.lease

theorem ledgered_init {db : Db} (h : Registered db) : Ledgered db := by
  constructor <;> rw [h.publications] <;> simp

theorem Issued.of_current {db : Db} {lease : Lease} (h : Current db lease) : Issued db lease := by
  obtain ⟨a, j, w, hh, _⟩ := h
  exact ⟨a, hh.attempt, hh.ofJob, hh.ofWorker, hh.ofEpoch⟩

theorem LedgerStep.keepsLease {db : Db} {p p' : PublicationRow} (h : LedgerStep json db p p') :
    p'.id = p.id ∧ p'.lease = p.lease := by
  cases h <;> exact ⟨rfl, rfl⟩

/-- A row of the ledger after an effect is new, or continues one from before it. -/
theorem publication_origin {db db' : Db} (he : Effect json allowed db db') {p' : PublicationRow}
    (hp' : p' ∈ db'.publications.rows) :
    (Current db p'.lease ∧ p'.state = .reserved ∧ p'.version = 0 ∧ p'.staleSince = none)
    ∨ ∃ p ∈ db.publications.rows, p.lease = p'.lease
        ∧ (p'.staleSince = p.staleSince ∨ ¬ Current db p.lease) := by
  have same : p' ∈ db.publications.rows → ∃ p ∈ db.publications.rows, p.lease = p'.lease
      ∧ (p'.staleSince = p.staleSince ∨ ¬ Current db p.lease) := fun h => ⟨p', h, rfl, Or.inl rfl⟩
  cases he with
  | tick now _ => exact Or.inr (same hp')
  | claim hw hready hj hjob hta htj htw hte => exact Or.inr (same hp')
  | renew hh hu hc hta htw => exact Or.inr (same hp')
  | requestCancel hj hs hc htj hte => exact Or.inr (same hp')
  | close hh hm hta htj htw hte => exact Or.inr (same hp')
  | blob _ _ => exact Or.inr (same hp')
  | reserve hc htp =>
      have hrows := Table.insert?_rows htp
      rw [hrows, List.mem_append, List.mem_singleton] at hp'
      rcases hp' with hp' | rfl
      · exact Or.inr (same hp')
      · refine Or.inl ⟨?_, rfl, rfl, rfl⟩
        exact (current_lease_iff (by simp [reservedRow, PublicationRow.ownedBy])).mpr hc
  | @ledger p q tp hp hs htp =>
      obtain ⟨hid, hlease⟩ := hs.keepsLease
      rcases (Table.mem_put? htp).mp hp' with ⟨hp', _⟩ | ⟨rfl, _⟩
      · exact Or.inr (same hp')
      · refine Or.inr ⟨p, Table.mem_of_find? hp, hlease.symm, ?_⟩
        cases hs with
        | startGrace _ _ hc => exact Or.inr hc
        | _ => exact Or.inl rfl
  | win hh hu hc hitems htp htr hta htj htw hte =>
      rw [htp, finalizedRows, List.mem_map] at hp'
      obtain ⟨p, hp, rfl⟩ := hp'
      refine Or.inr ⟨p, hp, ?_, Or.inl ?_⟩ <;> split <;> rfl

theorem ledgered_effect {db db' : Db} (hl : Linked db) (h : Ledgered db)
    (he : Effect json allowed db db') : Ledgered db' := by
  constructor
  · intro p' hp'
    rcases publication_origin he hp' with ⟨hc, _⟩ | ⟨p, hp, hlease, _⟩
    · exact issued_effect (Issued.of_current hc) he
    · exact hlease ▸ issued_effect (h.issued p hp) he
  · intro p' hp' hs hcur
    rcases publication_origin he hp' with ⟨_, _, _, hnone⟩ | ⟨p, hp, hlease, hstale⟩
    · rw [hnone] at hs
      exact absurd hs (by simp)
    · have hcur' := current_effect hl (h.issued p hp) he (hlease ▸ hcur)
      rcases hstale with hstale | hgone
      · exact h.staleGone p hp (hstale ▸ hs) hcur'
      · exact hgone hcur'

/-! ## What each effect does to a row -/

/-- The bounds every stored row respects. -/
theorem PublicationRow.check_bounds {p : PublicationRow} (h : p.check = true) :
    p.observedSizeBytes.all (· ≤ p.maxSizeBytes) = true
      ∧ (p.expectedSizeBytes.isSome → p.observedSizeBytes.isSome →
          p.observedSizeBytes = p.expectedSizeBytes)
      ∧ (p.expectedSha256.isSome → p.observedSha256.isSome →
          p.observedSha256 = p.expectedSha256) := by
  simp only [PublicationRow.check, Bool.and_eq_true, Bool.or_eq_true, Option.isNone_iff_eq_none,
    beq_iff_eq] at h
  obtain ⟨⟨⟨⟨⟨⟨⟨⟨⟨⟨⟨⟨_, _⟩, _⟩, _⟩, _⟩, hsha⟩, hsize⟩, _⟩, hmax⟩, _⟩, _⟩, _⟩, _⟩ := h
  refine ⟨hmax, fun h₁ h₂ => ?_, fun h₁ h₂ => ?_⟩
  · rcases hsize with (h | h) | h
    · rw [h] at h₁; exact absurd h₁ (by simp)
    · rw [h] at h₂; exact absurd h₂ (by simp)
    · exact h.symm
  · rcases hsha with (h | h) | h
    · rw [h] at h₁; exact absurd h₁ (by simp)
    · rw [h] at h₂; exact absurd h₂ (by simp)
    · exact h.symm

/-- A worker's step finds the columns it sets still empty. -/
theorem LedgerStep.keepsEvidence {db : Db} {p p' : PublicationRow} (hchk : p.check = true)
    (h : LedgerStep json db p p') : KeepsEvidence p p' := by
  have hshape := p.check_shape hchk
  cases h with
  | recordObject sha256 size hs hc =>
      simp only [PublicationRow.shape, hs, Bool.and_eq_true, Option.isNone_iff_eq_none] at hshape
      exact ⟨by simp [PublicationRow.sameIdentity, PublicationRow.recordObject],
        .of_none hshape.1.1.1.1.1.1.1, .of_none hshape.1.1.1.1.1.1.2, .of_none hshape.1.1.1.1.1.2,
        .refl _, .refl _, .refl _, .refl _⟩
  | recordValidated blobId contentType metadata hs hc hb =>
      simp only [PublicationRow.shape, hs, Bool.and_eq_true, Option.isNone_iff_eq_none] at hshape
      exact ⟨by simp [PublicationRow.sameIdentity, PublicationRow.recordValidated],
        .refl _, .refl _, .refl _, .of_none hshape.1.1.1.1.2, .of_none hshape.1.1.1.2,
        .of_none hshape.1.1.2, .refl _⟩
  | reject reason hs hc =>
      exact ⟨by simp [PublicationRow.sameIdentity, PublicationRow.terminalize], .refl _, .refl _,
        .refl _, .refl _, .refl _, .refl _, .refl _⟩
  | startGrace hs hstale hc =>
      exact ⟨by simp [PublicationRow.sameIdentity, PublicationRow.startGrace], .refl _, .refl _,
        .refl _, .refl _, .refl _, .refl _, .of_none hstale⟩
  | abandon since reason hs hstale hc hg =>
      exact ⟨by simp [PublicationRow.sameIdentity, PublicationRow.terminalize], .refl _, .refl _,
        .refl _, .refl _, .refl _, .refl _, .refl _⟩
  | recordCleanup hs hdel =>
      exact ⟨by simp [PublicationRow.sameIdentity, PublicationRow.recordCleanup], .refl _, .refl _,
        .refl _, .refl _, .refl _, .refl _, .refl _⟩

theorem next_of_open {s : PublicationState} (h : s.terminal = false) :
    s.next .rejected = true ∧ s.next .abandoned = true := by
  cases s <;> simp [PublicationState.terminal] at h <;> exact ⟨rfl, rfl⟩

/-- A row that was not stale and is not marked now raises no question about staleness. -/
theorem change_of_current {db : Db} {p q : PublicationRow} (hgone : p.staleSince.isSome = true →
    ¬ Current db p.lease) (hc : Current db p.lease) (hst : q.staleSince = p.staleSince) :
    (p.staleSince = none → q.staleSince.isSome →
        q.state = p.state ∧ q.staleSince = some db.clock ∧ ¬ Current db p.lease)
      ∧ ∀ since, p.staleSince = some since → p.state.terminal = false →
          q.state = .abandoned ∧ since + staleGrace ≤ db.clock ∧ ¬ Current db p.lease := by
  constructor
  · intro h₁ h₂
    rw [hst, h₁] at h₂
    exact absurd h₂ (by simp)
  · intro since h₁ _
    exact absurd hc (hgone (by rw [h₁]; rfl))

/-- **A step of the ledger is a change of the state machine.** -/
theorem LedgerStep.change {db : Db} {p p' : PublicationRow} (hchk : p.check = true)
    (hchk' : p'.check = true) (hgone : p.staleSince.isSome = true → ¬ Current db p.lease)
    (h : LedgerStep json db p p') : LedgerChange db p p' := by
  have hev := h.keepsEvidence hchk
  obtain ⟨hb, hsz, hdg⟩ := p'.check_bounds hchk'
  -- only `record_cleanup` writes the time of the deletion
  have hopen : ∀ {b : Bool}, b = false → b = true → p.attemptObjectDeletedAt = none
      ∧ p' = p.recordCleanup db.clock := fun h₁ h₂ => by rw [h₁] at h₂; cases h₂
  cases h with
  | recordObject sha256 size hs hc =>
      obtain ⟨hm, ha⟩ := change_of_current (q := p.recordObject p.key sha256 size db.clock)
        hgone hc rfl
      exact ⟨rfl, Or.inr (by rw [hs]; rfl), hev, hb, hsz, hdg, hm, ha, fun _ ht => (by cases ht),
        hopen (by rw [hs]; rfl)⟩
  | recordValidated blobId contentType metadata hs hc _ =>
      obtain ⟨hm, ha⟩ := change_of_current
        (q := p.recordValidated blobId contentType (json.roundTrip metadata) db.clock) hgone hc rfl
      exact ⟨rfl, Or.inr (by rw [hs]; rfl), hev, hb, hsz, hdg, hm, ha, fun _ ht => (by cases ht),
        hopen (by rw [hs]; rfl)⟩
  | reject reason hs hc =>
      obtain ⟨hm, ha⟩ := change_of_current (q := p.terminalize .rejected reason db.clock)
        hgone hc rfl
      exact ⟨rfl, Or.inr (next_of_open hs).1, hev, hb, hsz, hdg, hm, ha, fun _ _ => rfl, hopen hs⟩
  | startGrace hs hstale hc =>
      refine ⟨rfl, Or.inl rfl, hev, hb, hsz, hdg, fun _ _ => ⟨rfl, rfl, hc⟩, fun since h₁ => ?_,
        fun _ ht => ?_, hopen hs⟩
      · rw [hstale] at h₁
        exact absurd h₁ (by simp)
      · have ht' : p.state.terminal = true := ht
        rw [hs] at ht'
        cases ht'
  | abandon since reason hs hstale hc hg =>
      refine ⟨rfl, Or.inr (next_of_open hs).2, hev, hb, hsz, hdg, fun h₁ => ?_, fun since' h₁ _ => ?_,
        fun _ _ => rfl, hopen hs⟩
      · rw [hstale] at h₁
        exact absurd h₁ (by simp)
      · obtain rfl : since = since' := Option.some.inj (hstale.symm.trans h₁)
        exact ⟨rfl, hg, hc⟩
  | recordCleanup hs hdel =>
      refine ⟨rfl, Or.inl rfl, hev, hb, hsz, hdg, fun h₁ h₂ => ?_, fun _ _ h₁ => ?_,
        fun h₁ => ?_, fun _ => ⟨hdel, rfl⟩⟩
      · have : p.staleSince.isSome = true := h₂
        rw [h₁] at this
        exact absurd this (by simp)
      · rw [hs] at h₁
        exact absurd h₁ (by simp)
      · rw [hs] at h₁
        exact absurd h₁ (by simp)

/-- **Finalization is one too.** -/
theorem finalize_change {db : Db} {lease : Lease} {p : PublicationRow}
    (hchk' : (p.finalize db.clock).check = true)
    (hgone : p.staleSince.isSome = true → ¬ Current db p.lease) (hs : p.state = .validated)
    (ho : p.ownedBy lease = true) (hc : Current db lease) :
    LedgerChange db p (p.finalize db.clock) := by
  obtain ⟨hb, hsz, hdg⟩ := PublicationRow.check_bounds hchk'
  obtain ⟨hm, ha⟩ := change_of_current (q := p.finalize db.clock) hgone
    ((current_lease_iff ho).mpr hc) rfl
  refine ⟨rfl, Or.inr (by rw [hs]; rfl), ⟨by simp [PublicationRow.sameIdentity,
    PublicationRow.finalize], .refl _, .refl _, .refl _, .refl _, .refl _, .refl _, .refl _⟩, hb,
    hsz, hdg, hm, ha, fun _ _ => rfl, fun h => ?_⟩
  rw [hs] at h
  exact absurd h (by simp [PublicationState.terminal])

/-- **What an effect does to a row of the ledger**: nothing, or one change. -/
theorem publication_effect {db db' : Db} (h : Ledgered db) (he : Effect json allowed db db')
    {p : PublicationRow} (hp : p ∈ db.publications.rows) :
    ∃ p' ∈ db'.publications.rows, p'.id = p.id ∧ (p' = p ∨ LedgerChange db p p') := by
  cases he with
  | tick now _ => exact ⟨p, hp, rfl, Or.inl rfl⟩
  | claim hw hready hj hjob hta htj htw hte => exact ⟨p, hp, rfl, Or.inl rfl⟩
  | renew hh hu hc hta htw => exact ⟨p, hp, rfl, Or.inl rfl⟩
  | requestCancel hj hs hc htj hte => exact ⟨p, hp, rfl, Or.inl rfl⟩
  | close hh hm hta htj htw hte => exact ⟨p, hp, rfl, Or.inl rfl⟩
  | blob _ _ => exact ⟨p, hp, rfl, Or.inl rfl⟩
  | reserve hc htp =>
      refine ⟨p, ?_, rfl, Or.inl rfl⟩
      show p ∈ (Table.rows _)
      rw [Table.insert?_rows htp]
      exact List.mem_append_left _ hp
  | @ledger q q' tp hq hs htp =>
      obtain ⟨hid, _⟩ := hs.keepsLease
      by_cases hk : p.id = q.id
      · obtain rfl : p = q := Table.eq_of_key hp (Table.mem_of_find? hq) hk
        have hq' : q' ∈ tp.rows := (Table.mem_put? htp).mpr
          (Or.inr ⟨rfl, p, by rw [← hq]; exact congrArg _ hid⟩)
        exact ⟨q', hq', hid, Or.inr (hs.change (db.publications.checked p hp)
          (tp.checked q' hq') (h.staleGone p hp))⟩
      · exact ⟨p, (Table.mem_put? htp).mpr (Or.inl ⟨hp, fun he => hk (he.trans hid)⟩), rfl,
          Or.inl rfl⟩
  | @win lease a j w items artifactId tp tr ta tj tw te hh hu hc hitems htp htr hta htj htw hte =>
      -- a row that is finalized is rewritten in its place
      have hmem : ∀ q ∈ db.publications.rows,
          (if q.id ∈ items.map PublicationRow.id then q.finalize db.clock else q) ∈ tp.rows := by
        intro q hq
        rw [htp]
        exact List.mem_map_of_mem hq
      by_cases hk : p.id ∈ items.map PublicationRow.id
      · obtain ⟨q, hq, hqid⟩ := List.mem_map.mp hk
        obtain rfl : q = p := Table.eq_of_key (hitems.rows q hq) hp hqid
        have hq' := hmem q hp
        rw [if_pos hk] at hq'
        exact ⟨_, hq', rfl, Or.inr (finalize_change (tp.checked _ hq') (h.staleGone q hp)
          (hitems.validated q hq) (hitems.owned q hq) ⟨a, j, w, hh, hu, hc⟩)⟩
      · have hp' := hmem p hp
        rw [if_neg hk] at hp'
        exact ⟨p, hp', rfl, Or.inl rfl⟩

/-! ## Calls and runs -/

theorem LedgerChange.congr {db db' : Db} (hq : SameQueue db db') {p p' : PublicationRow}
    (h : LedgerChange db' p p') : LedgerChange db p p' := by
  refine ⟨h.version, h.edge, h.evidence, h.bounded, h.size, h.digest, ?_, ?_, ?_, ?_⟩
  all_goals rw [← hq.clock]
  · intro h₁ h₂
    obtain ⟨h₃, h₄, h₅⟩ := h.marked h₁ h₂
    exact ⟨h₃, h₄, fun hc => h₅ (hq.current_iff.mpr hc)⟩
  · intro since h₁ h₂
    obtain ⟨h₃, h₄, h₅⟩ := h.abandoned since h₁ h₂
    exact ⟨h₃, h₄, fun hc => h₅ (hq.current_iff.mpr hc)⟩
  · exact h.ended
  · exact h.cleanup

theorem ledgered_effects {db db' : Db} (hl : Linked db) (h : Ledgered db)
    (he : Relation.ReflTransGen (Effect json allowed) db db') : Ledgered db' := by
  induction he with
  | refl => exact h
  | tail hr hs ih => exact ledgered_effect (linked_effects hl hr) ih hs

theorem ledgered_reachable {budget : Call → Prop} {db : Db}
    (h : (durableSystem json budget).Reachable db) : Ledgered db :=
  (invariant_of_effects json (fun _ => True) (I := Ledgered) (fun _ _ _ _ => trivial)
    (fun _ => ledgered_init) (fun _ _ hl hI he => ledgered_effect hl hI he) h).2

/-- **What a call does to a row of the ledger**: nothing, or one change. -/
theorem Call.publication (json : JsonColumn) (c : Call) {db : Db} (hl : Linked db)
    (h : Ledgered db) {p : PublicationRow} (hp : p ∈ db.publications.rows) :
    ∃ p' ∈ (c.run json db).2.publications.rows,
      p'.id = p.id ∧ (p' = p ∨ LedgerChange db p p') := by
  have hc : Committed json (fun _ => True) db (c.run json db).2 :=
    c.committed json (fun _ _ => trivial) db
  cases hc with
  | queue _ hsame => exact ⟨p, hsame ▸ hp, rfl, Or.inl rfl⟩
  | one mid hmid hq he =>
      obtain ⟨p', hp', hid, hcase⟩ := publication_effect (ledgered_effects hl h hmid) he
        (by rw [hq.publications]; exact hp)
      exact ⟨p', hp', hid, hcase.imp_right (LedgerChange.congr hq)⟩

/-- What is left of a row after any number of changes. -/
structure Descends (p p' : PublicationRow) : Prop where
  id : p'.id = p.id
  version : p.version ≤ p'.version
  evidence : KeepsEvidence p p'
  /-- A stale row is where it was, or abandoned after its grace period. -/
  stale : ∀ since, p.staleSince = some since → p.state.terminal = false →
    p' = p ∨ (p'.state = .abandoned ∧ p'.terminalAt.any (since + staleGrace ≤ ·) = true)
  /-- A terminal row has changed at most once, to record its cleanup. -/
  terminal : p.state.terminal = true →
    p' = p ∨ (p.attemptObjectDeletedAt = none ∧ ∃ now, p' = p.recordCleanup now)

theorem Descends.refl (p : PublicationRow) : Descends p p :=
  ⟨rfl, Nat.le_refl _, .refl p, fun _ _ _ => Or.inl rfl, fun _ => Or.inl rfl⟩

/-- One more change at the end of a history. -/
theorem Descends.tail {db : Db} {p q r : PublicationRow} (h : Descends p q)
    (hr : LedgerChange db q r) : Descends p r := by
  have hid : r.id = q.id := (sameIdentity_iff.mp hr.evidence.identity).1
  refine ⟨hid.trans h.id, ?_, h.evidence.trans hr.evidence, fun since hs ht => Or.inr ?_,
    fun ht => ?_⟩
  · rw [hr.version]
    exact Nat.le_succ_of_le h.version
  · rcases h.stale since hs ht with rfl | ⟨hq, hterm⟩
    · obtain ⟨hra, hg, _⟩ := hr.abandoned since hs ht
      exact ⟨hra, (Option.any_eq_true _ _).mpr
        ⟨_, hr.ended ht (by rw [hra]; rfl), decide_eq_true hg⟩⟩
    · obtain ⟨_, rfl⟩ := hr.cleanup (by rw [hq]; rfl)
      exact ⟨hq, hterm⟩
  · rcases h.terminal ht with rfl | ⟨_, now, rfl⟩
    · obtain ⟨hdel, rfl⟩ := hr.cleanup ht
      exact Or.inr ⟨hdel, db.clock, rfl⟩
    · obtain ⟨hdel, _⟩ := hr.cleanup ht
      exact absurd hdel (by simp [PublicationRow.recordCleanup])

/-- A change some call makes on the way from `db` to `db'`. -/
def ChangeWithin (json : JsonColumn) (db db' : Db) (q q' : PublicationRow) : Prop :=
  ∃ s c, (openSystem json).Runs db s ∧ (openSystem json).Runs (Call.run json c s).2 db'
    ∧ q ∈ s.publications.rows ∧ q' ∈ (Call.run json c s).2.publications.rows
    ∧ LedgerChange s q q'

/--
**The publication ledger is a state machine.**

Along any run from any reachable state a row never disappears, and its history is a chain of
`LedgerChange`s, each made by one call in the state that call saw. `Descends` is what such a chain
leaves of the row, however long it is.
-/
theorem publication_ledger (json : JsonColumn) (db db' : Db)
    (h : (openSystem json).Reachable db) (hr : (openSystem json).Runs db db')
    (p : PublicationRow) (hp : p ∈ db.publications.rows) :
    ∃ p' ∈ db'.publications.rows, Descends p p'
      ∧ Relation.ReflTransGen (ChangeWithin json db db') p p' := by
  induction hr with
  | refl => exact ⟨p, hp, .refl p, .refl⟩
  | @tail s s' hrs hs ih =>
      obtain ⟨q, hq, hdesc, hchain⟩ := ih
      obtain ⟨c, _, rfl⟩ := hs
      have hreach := h.runs hrs
      have hstep : (openSystem json).step s (c.run json s).2 := ⟨c, trivial, rfl⟩
      -- earlier changes are also changes on the longer way
      have hlonger : ∀ x y, ChangeWithin json db s x y → ChangeWithin json db (c.run json s).2 x y :=
        fun x y ⟨t, d, h₁, h₂, h₃⟩ => ⟨t, d, h₁, h₂.tail hstep, h₃⟩
      have hchain' := Relation.ReflTransGen.mono hlonger _ _ hchain
      obtain ⟨q', hq', _, rfl | hchange⟩ := c.publication json (linked_reachable hreach)
        (ledgered_reachable hreach) hq
      · exact ⟨q', hq', hdesc, hchain'⟩
      · exact ⟨q', hq', hdesc.tail hchange,
          hchain'.tail ⟨s, c, hrs, .refl, hq, hq', hchange⟩⟩

/-- An output of at most ten bytes. -/
def smallSpec : PublicationSpec where
  kind := .output
  contentType := "t"
  maxSizeBytes := 10
  expectedSha256 := none
  expectedSizeBytes := none
  metadata := .dict []
  contentType_text := by decide
  maxSizeBytes_pos := by decide
  expectedSha256_digest := by decide
  expectedSizeBytes_le := by decide

/-- The claimed queue after its worker reserved its output. -/
def reservedQueue : Db := ((Call.reserve 3 claimedLease smallSpec).run .plain claimedQueue).2

theorem publication_ledger_written :
    let written := ((Call.recordObject claimedLease 3 0 zeroDigest 4).run .plain reservedQueue).2
    ∃ p' ∈ written.publications.rows, Descends (reservedRow .plain 3 claimedLease smallSpec 0) p' := by
  have hclaimed : (openSystem .plain).Reachable claimedQueue :=
    (System.Reachable.of_init registered_smallQueue).step ⟨.claimNext .free 9 7 60, trivial, rfl⟩
  have hreserved : (openSystem .plain).Reachable reservedQueue :=
    hclaimed.step ⟨.reserve 3 claimedLease smallSpec, trivial, rfl⟩
  obtain ⟨p', hp', hdesc, _⟩ := publication_ledger .plain reservedQueue _ hreserved
    (Relation.ReflTransGen.single ⟨.recordObject claimedLease 3 0 zeroDigest 4, trivial, rfl⟩)
    (reservedRow .plain 3 claimedLease smallSpec 0) (by decide +kernel)
  exact ⟨p', hp', hdesc⟩

end NanoAural
