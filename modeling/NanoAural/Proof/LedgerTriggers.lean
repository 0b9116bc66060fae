import NanoAural.Proof.Fences

/-!
# What the ledger's triggers let through

A publication row changes in one of four ways: a worker moves it under its
current lease, a sweeper starts its grace period, a sweeper abandons it, or its
cleanup is recorded. Each lemma here takes one of these apart: which row the
triggers write, and what they saw.
-/

namespace NanoAural

open Relational

/-! ## Constraints read off a stored row -/

theorem PublicationRow.check_deleted {p : PublicationRow} (h : p.check = true)
    (hs : p.state.terminal = false) : p.attemptObjectDeletedAt = none := by
  simp only [PublicationRow.check, Bool.and_eq_true, Bool.or_eq_true, hs,
    Option.isNone_iff_eq_none] at h
  have h₁ := h.1.1.2
  simpa using h₁

theorem PublicationRow.check_shape {p : PublicationRow} (h : p.check = true) : p.shape = true := by
  simp only [PublicationRow.check, Bool.and_eq_true] at h
  exact h.2

theorem open_iff {s : PublicationState} : s.open = true ↔ s.terminal = false := by
  simp [PublicationState.open]

/-! ## The three triggers in turn -/

theorem publicationBeforeUpdate_ok {db : Db} {old new out : PublicationRow} :
    publicationBeforeUpdate db old new = .ok out ↔
      ∃ new₁, ensurePublicationCurrentLease db (some old) new = .ok new₁
        ∧ ensurePublicationTransition db old new₁ = .ok out
        ∧ ((out.state = .validated ∨ out.state = .finalized) → validatedBlob db out = true) := by
  have hblob : ∀ p q : PublicationRow, ensurePublicationValidatedBlob db p = .ok q ↔
      q = p ∧ ((p.state = .validated ∨ p.state = .finalized) → validatedBlob db p = true) := by
    intro p q
    unfold ensurePublicationValidatedBlob
    split
    · rename_i h
      simp only [Bool.and_eq_true, Bool.or_eq_true, beq_iff_eq, Bool.not_eq_true'] at h
      simp [h]
    · rename_i h
      simp only [Bool.and_eq_true, Bool.or_eq_true, beq_iff_eq, Bool.not_eq_true', not_and,
        Bool.not_eq_false] at h
      constructor
      · intro he
        injection he with he
        exact ⟨he.symm, h⟩
      · rintro ⟨rfl, _⟩
        rfl
  unfold publicationBeforeUpdate
  cases h₁ : ensurePublicationCurrentLease db (some old) new with
  | error e => simp
  | ok new₁ =>
      cases h₂ : ensurePublicationTransition db old new₁ with
      | error e => simp [h₂]
      | ok new₂ =>
          simp only [h₂, hblob, Except.ok.injEq, exists_eq_left']
          constructor
          · rintro ⟨rfl, hv⟩
            exact ⟨rfl, hv⟩
          · rintro ⟨rfl, hv⟩
            exact ⟨rfl, hv⟩

/-! ## A worker's update -/

/-- **A worker moves a row only under its current lease**, and the row written is the one asked
for with the database's own timestamps. -/
theorem publicationBeforeUpdate_worker {db : Db} {old new out : PublicationRow}
    (hopen : old.state.terminal = false) (hmoved : new.state ≠ old.state)
    (hab : new.state ≠ .abandoned) :
    publicationBeforeUpdate db old new = .ok out ↔
      Current db new.lease ∧ old.sameIdentity new = true
        ∧ (∀ g ∈ publicationTransitionGuards old new, g.1 = false) ∧ out = new.stamp db.clock
        ∧ ((new.state = .validated ∨ new.state = .finalized) → validatedBlob db out = true) := by
  have hlease : ∀ new₁, ensurePublicationCurrentLease db (some old) new = .ok new₁ ↔
      Current db new.lease ∧ new₁ = new := by
    intro new₁
    unfold ensurePublicationCurrentLease
    rw [if_neg (by simp [hopen]), if_neg (by simp [hmoved]), if_neg (by simp [hab]),
      ← leaseIsCurrent_iff]
    split
    · rename_i hl; simp [hl, eq_comm]
    · rename_i hl; simp [hl]
  have hmove : ensurePublicationTransition db old new = .ok out ↔ old.sameIdentity new = true
      ∧ (∀ g ∈ publicationTransitionGuards old new, g.1 = false) ∧ out = new.stamp db.clock := by
    unfold ensurePublicationTransition
    cases hid : old.sameIdentity new with
    | false => simp
    | true =>
        rw [if_neg (by simp), if_neg (by simp [hopen]),
          if_neg (by simp [PublicationRow.goesStale, hmoved]), guarded_ok]
        simp
  rw [publicationBeforeUpdate_ok]
  constructor
  · rintro ⟨new₁, h₁, h₂, h₃⟩
    obtain ⟨hc, rfl⟩ := (hlease new₁).mp h₁
    obtain ⟨hid, hg, rfl⟩ := hmove.mp h₂
    exact ⟨hc, hid, hg, rfl, h₃⟩
  · rintro ⟨hc, hid, hg, rfl, h₃⟩
    exact ⟨new, (hlease new).mpr ⟨hc, rfl⟩, hmove.mpr ⟨hid, hg, rfl⟩, h₃⟩

section Worker

variable {db : Db} {old out : PublicationRow} (hchk : old.check = true)

include hchk

theorem update_recordObject (hs : old.state = .reserved) {sha256 : String} {size : Nat} :
    publicationBeforeUpdate db old (old.recordObject old.key sha256 size db.clock) = .ok out ↔
      Current db old.lease ∧ out = old.recordObject old.key sha256 size db.clock := by
  have hdel := old.check_deleted hchk (by rw [hs]; rfl)
  have hshape := old.check_shape hchk
  simp only [PublicationRow.shape, hs, Bool.and_eq_true, Option.isNone_iff_eq_none] at hshape
  rw [publicationBeforeUpdate_worker (by rw [hs]; rfl) (by simp [PublicationRow.recordObject, hs])
    (by simp [PublicationRow.recordObject])]
  simp [PublicationRow.recordObject, PublicationRow.sameIdentity, publicationTransitionGuards,
    PublicationRow.stamp, PublicationRow.lease, PublicationState.next, PublicationState.terminal,
    hs, hdel, hshape]

theorem update_recordValidated (hs : old.state = .objectWritten) {blobId : Uuid}
    {contentType : String} {metadata : PyValue} :
    publicationBeforeUpdate db old (old.recordValidated blobId contentType metadata db.clock)
        = .ok out ↔
      Current db old.lease ∧ out = old.recordValidated blobId contentType metadata db.clock
        ∧ validatedBlob db out = true := by
  have hdel := old.check_deleted hchk (by rw [hs]; rfl)
  have hshape := old.check_shape hchk
  simp only [PublicationRow.shape, hs, Bool.and_eq_true, Option.isNone_iff_eq_none] at hshape
  rw [publicationBeforeUpdate_worker (by rw [hs]; rfl)
    (by simp [PublicationRow.recordValidated, hs]) (by simp [PublicationRow.recordValidated])]
  simp [PublicationRow.recordValidated, PublicationRow.sameIdentity, publicationTransitionGuards,
    PublicationRow.stamp, PublicationRow.lease, PublicationState.next, PublicationState.terminal,
    hs, hdel, hshape]

theorem update_reject (hs : old.state.terminal = false) {reason : String} :
    publicationBeforeUpdate db old (old.terminalize .rejected reason db.clock) = .ok out ↔
      Current db old.lease ∧ out = old.terminalize .rejected reason db.clock := by
  have hdel := old.check_deleted hchk hs
  have hnext : old.state.next .rejected = true := by
    cases hst : old.state <;> simp [hst, PublicationState.terminal] at hs <;> rfl
  rw [publicationBeforeUpdate_worker hs
    (by intro he; rw [← he] at hs; exact absurd hs (by simp [PublicationRow.terminalize,
      PublicationState.terminal])) (by simp [PublicationRow.terminalize])]
  simp [PublicationRow.terminalize, PublicationRow.sameIdentity, publicationTransitionGuards,
    PublicationRow.stamp, PublicationRow.lease, PublicationState.terminal, hdel, hnext]

theorem update_finalize (hs : old.state = .validated) :
    publicationBeforeUpdate db old (old.finalize db.clock) = .ok out ↔
      Current db old.lease ∧ out = old.finalize db.clock ∧ validatedBlob db out = true := by
  have hdel := old.check_deleted hchk (by rw [hs]; rfl)
  rw [publicationBeforeUpdate_worker (by rw [hs]; rfl) (by simp [PublicationRow.finalize, hs])
    (by simp [PublicationRow.finalize])]
  simp [PublicationRow.finalize, PublicationRow.sameIdentity, publicationTransitionGuards,
    PublicationRow.stamp, PublicationRow.lease, PublicationState.next, PublicationState.terminal,
    hs, hdel]

end Worker

/-- **A row is reserved only under its current lease.** -/
theorem insert_reserved {json : JsonColumn} {db : Db} {publicationId : Uuid} {lease : Lease}
    {spec : PublicationSpec} {out : PublicationRow} :
    publicationBeforeInsert db (reservedRow json publicationId lease spec db.clock) = .ok out ↔
      Current db lease ∧ out = reservedRow json publicationId lease spec db.clock := by
  have hlease : leaseIsCurrent db (reservedRow json publicationId lease spec db.clock) = true ↔
      Current db lease :=
    leaseIsCurrent_iff.trans (current_lease_iff (by simp [reservedRow, PublicationRow.ownedBy]))
  unfold publicationBeforeInsert ensurePublicationCurrentLease ensurePublicationInitial
    ensurePublicationValidatedBlob
  by_cases hc : Current db lease
  · rw [if_neg (by simp), if_neg (by simp), if_neg (by simp [reservedRow]), if_pos (hlease.mpr hc)]
    simpa [reservedRow, hc] using eq_comm
  · rw [if_neg (by simp), if_neg (by simp), if_neg (by simp [reservedRow]),
      if_neg (fun h => hc (hlease.mp h))]
    simp [hc]

/-! ## A sweeper's updates -/

section Sweeper

variable {db : Db} {old out : PublicationRow}

/-- **The grace period starts only once the lease is gone.** -/
theorem update_startGrace (hchk : old.check = true) (hs : old.state.terminal = false)
    (hstale : old.staleSince = none) :
    publicationBeforeUpdate db old (old.startGrace db.clock) = .ok out ↔
      ¬ Current db old.lease ∧ out = old.startGrace db.clock
        ∧ (old.state = .validated → validatedBlob db old = true) := by
  have hdel := old.check_deleted hchk hs
  have hnf : old.state ≠ .finalized := by
    intro he; rw [he] at hs; exact absurd hs (by simp [PublicationState.terminal])
  have hcur : leaseIsCurrent db (old.startGrace db.clock) = leaseIsCurrent db old := rfl
  have hblob : validatedBlob db (old.startGrace db.clock) = validatedBlob db old := rfl
  have hid : old.sameIdentity (old.startGrace db.clock) = true := by
    simp [PublicationRow.sameIdentity, PublicationRow.startGrace]
  have hgo : old.goesStale (old.startGrace db.clock) = true := by
    simp [PublicationRow.goesStale, PublicationRow.startGrace, PublicationRow.sameEvidence, hdel,
      hstale]
  have hlease : ∀ new₁, ensurePublicationCurrentLease db (some old) (old.startGrace db.clock)
      = .ok new₁ ↔ ¬ Current db old.lease ∧ new₁ = old.startGrace db.clock := by
    intro new₁
    unfold ensurePublicationCurrentLease
    rw [if_neg (by simp [hs]), if_pos (by simp [PublicationRow.startGrace, hstale]), hcur,
      ← leaseIsCurrent_iff]
    split
    · rename_i hl; simp [hl]
    · rename_i hl; simp [hl, PublicationRow.startGrace, eq_comm]
  have hmove : ensurePublicationTransition db old (old.startGrace db.clock) = .ok out ↔
      out = old.startGrace db.clock := by
    unfold ensurePublicationTransition
    rw [if_neg (by simp [hid]), if_neg (by simp [hs]), if_pos hgo]
    simp [PublicationRow.startGrace, eq_comm]
  rw [publicationBeforeUpdate_ok]
  constructor
  · rintro ⟨new₁, h₁, h₂, h₃⟩
    obtain ⟨hc, rfl⟩ := (hlease new₁).mp h₁
    obtain rfl := hmove.mp h₂
    exact ⟨hc, rfl, fun hv => hblob ▸ h₃ (Or.inl hv)⟩
  · rintro ⟨hc, rfl, hv⟩
    refine ⟨_, (hlease _).mpr ⟨hc, rfl⟩, hmove.mpr rfl, ?_⟩
    rintro (he | he)
    · exact hblob ▸ hv he
    · exact absurd he hnf

/-- **A row is abandoned only past its grace period, and only if its lease is still gone.** -/
theorem update_abandon (hchk : old.check = true) (hs : old.state.terminal = false) {since : Time}
    (hstale : old.staleSince = some since) {reason : String} :
    publicationBeforeUpdate db old (old.terminalize .abandoned reason db.clock) = .ok out ↔
      ¬ Current db old.lease ∧ since + staleGrace ≤ db.clock
        ∧ out = old.terminalize .abandoned reason db.clock := by
  have hdel := old.check_deleted hchk hs
  have hne : PublicationState.abandoned ≠ old.state := by
    intro he; rw [← he] at hs; exact absurd hs (by simp [PublicationState.terminal])
  have hnext : old.state.next .abandoned = true := by
    cases hst : old.state <;> simp [hst, PublicationState.terminal] at hs <;> rfl
  have hcur : leaseIsCurrent db (old.terminalize .abandoned reason db.clock)
      = leaseIsCurrent db old := rfl
  -- the trigger of the lease asks for the end of the lease and of the grace
  have hlease : ∀ new₁, ensurePublicationCurrentLease db (some old)
      (old.terminalize .abandoned reason db.clock) = .ok new₁ ↔
        ¬ Current db old.lease ∧ since + staleGrace ≤ db.clock
          ∧ new₁ = old.terminalize .abandoned reason db.clock := by
    intro new₁
    unfold ensurePublicationCurrentLease
    rw [if_neg (by simp [hs]), if_neg (by simp [PublicationRow.terminalize, hne]),
      if_pos (by simp [PublicationRow.terminalize]), hcur, ← leaseIsCurrent_iff]
    simp only [Option.bind_some, hstale]
    split
    · rename_i hl
      simp only [Bool.or_eq_true, decide_eq_true_eq] at hl
      simp only [reduceCtorEq, false_iff, not_and]
      intro hc hg
      rcases hl with hl | hl
      · exact absurd hl hc
      · exact absurd hg (Nat.not_le.mpr hl)
    · rename_i hl
      simp only [Bool.or_eq_true, decide_eq_true_eq, not_or, Nat.not_lt] at hl
      simp [hl, PublicationRow.terminalize, hstale, eq_comm]
  -- the trigger of the transition lets it pass
  have hmove : ensurePublicationTransition db old (old.terminalize .abandoned reason db.clock)
      = .ok out ↔ out = old.terminalize .abandoned reason db.clock := by
    unfold ensurePublicationTransition
    rw [if_neg (by simp [PublicationRow.sameIdentity, PublicationRow.terminalize]),
      if_neg (by simp [hs]), if_neg (by simp [PublicationRow.goesStale,
        PublicationRow.terminalize, hne]), guarded_ok]
    simp [PublicationRow.terminalize, publicationTransitionGuards, PublicationRow.stamp,
      PublicationState.terminal, hdel, hnext]
  rw [publicationBeforeUpdate_ok]
  constructor
  · rintro ⟨new₁, h₁, h₂, _⟩
    obtain ⟨hc, hg, rfl⟩ := (hlease new₁).mp h₁
    exact ⟨hc, hg, hmove.mp h₂⟩
  · rintro ⟨hc, hg, rfl⟩
    exact ⟨_, (hlease _).mpr ⟨hc, hg, rfl⟩, hmove.mpr rfl,
      by simp [PublicationRow.terminalize]⟩

/-- **A terminal row records its cleanup once, whatever became of its lease.** -/
theorem update_recordCleanup (hs : old.state.terminal = true)
    (hdel : old.attemptObjectDeletedAt = none) :
    publicationBeforeUpdate db old (old.recordCleanup db.clock) = .ok out ↔
      out = old.recordCleanup db.clock
        ∧ (old.state = .finalized → validatedBlob db old = true) := by
  have hnv : old.state ≠ .validated := by
    intro he; rw [he] at hs; exact absurd hs (by simp [PublicationState.terminal])
  have hblob : validatedBlob db (old.recordCleanup db.clock) = validatedBlob db old := rfl
  have hlease : ensurePublicationCurrentLease db (some old) (old.recordCleanup db.clock)
      = .ok (old.recordCleanup db.clock) := by
    unfold ensurePublicationCurrentLease
    rw [if_pos (by simp [hs, hdel, PublicationRow.recordCleanup])]
  have hmove : ensurePublicationTransition db old (old.recordCleanup db.clock) = .ok out ↔
      out = old.recordCleanup db.clock := by
    unfold ensurePublicationTransition
    rw [if_neg (by simp [PublicationRow.sameIdentity, PublicationRow.recordCleanup]),
      if_pos hs, if_pos (by simp [PublicationRow.cleansUp, PublicationRow.recordCleanup,
        PublicationRow.sameEvidence, hdel])]
    simp [PublicationRow.recordCleanup, eq_comm]
  rw [publicationBeforeUpdate_ok]
  constructor
  · rintro ⟨new₁, h₁, h₂, h₃⟩
    rw [hlease] at h₁
    injection h₁ with h₁
    subst h₁
    obtain rfl := hmove.mp h₂
    exact ⟨rfl, fun hv => hblob ▸ h₃ (Or.inr hv)⟩
  · rintro ⟨rfl, hv⟩
    refine ⟨_, hlease, hmove.mpr rfl, ?_⟩
    rintro (he | he)
    · exact absurd he hnv
    · exact hblob ▸ hv he

end Sweeper

end NanoAural
