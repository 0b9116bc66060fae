import NanoAural.Proof.Linkage

/-!
# A stale lease stays stale

A worker that lost its lease does not know it. Whatever it calls afterwards, at
whatever point of whatever run, must raise and leave the database as it was.

The argument is backwards: `live_effect` shows that a lease which is live after
an effect was live before it. So nothing revives a lease, and the operations are
left with one fact each, that they succeed only on a live one.
-/

namespace NanoAural

open Relational Machine

variable {json : JsonColumn} {allowed : Int → Prop}

/-! ## What an effect does to one attempt -/

/-- An attempt keeps its identity through any effect; it is left alone, renewed under a current
lease, or ended. -/
theorem attempt_effect {db db' : Db} (he : Effect json allowed db db') {aid : Uuid}
    {a : AttemptRow} (ha : db.attempts.find? aid = some a) :
    ∃ a', db'.attempts.find? aid = some a' ∧ a'.jobId = a.jobId ∧ a'.workerId = a.workerId
      ∧ a'.leaseEpoch = a.leaseEpoch
      ∧ (a' = a ∨ (a.state = .active ∧ a'.state ≠ .active) ∨ ∃ lease j w, Holds db lease a j w
          ∧ unexpired db a = true ∧ j.cancelRequestedAt = none) := by
  -- an update of another attempt, or of this one
  have key : ∀ {lease : Lease} {b b' : AttemptRow} {j : JobRow} {w : WorkerRow}
      {ta : Table AttemptRow}, Holds db lease b j w → db.attempts.put? b' = some ta →
      b'.id = b.id → b'.jobId = b.jobId → b'.workerId = b.workerId →
      b'.leaseEpoch = b.leaseEpoch →
      (b'.state ≠ .active ∨ (unexpired db b = true ∧ j.cancelRequestedAt = none)) →
      ∃ a', ta.find? aid = some a' ∧ a'.jobId = a.jobId ∧ a'.workerId = a.workerId
        ∧ a'.leaseEpoch = a.leaseEpoch
        ∧ (a' = a ∨ (a.state = .active ∧ a'.state ≠ .active) ∨ ∃ lease j w, Holds db lease a j w
            ∧ unexpired db a = true ∧ j.cancelRequestedAt = none) := by
    intro lease b b' j w ta hh hta hid hj hw hep hend
    have hb : db.attempts.find? (Schema.key b') = some b := by
      show db.attempts.find? b'.id = _
      rw [hid, hh.attemptId]
      exact hh.attempt
    by_cases hk : aid = Schema.key b'
    · rw [hk, hb] at ha
      obtain rfl := Option.some.inj ha
      refine ⟨b', hk ▸ Table.put?_self hta hb, hj, hw, hep, Or.inr ?_⟩
      rcases hend with hs | ⟨hu, hc⟩
      · exact Or.inl ⟨hh.active, hs⟩
      · exact Or.inr ⟨lease, j, w, hh, hu, hc⟩
    · exact ⟨a, (Table.put?_other hta hb hk).trans ha, rfl, rfl, rfl, Or.inl rfl⟩
  have same : ∀ t : Table AttemptRow, t = db.attempts → ∃ a', t.find? aid = some a'
      ∧ a'.jobId = a.jobId ∧ a'.workerId = a.workerId ∧ a'.leaseEpoch = a.leaseEpoch
      ∧ (a' = a ∨ (a.state = .active ∧ a'.state ≠ .active) ∨ ∃ lease j w, Holds db lease a j w
          ∧ unexpired db a = true ∧ j.cancelRequestedAt = none) := by
    rintro _ rfl
    exact ⟨a, ha, rfl, rfl, rfl, Or.inl rfl⟩
  cases he with
  | tick now _ => exact same _ rfl
  | claim hw hready hj hjob hta htj htw hte =>
      exact ⟨a, Table.insert?_keep hta ha, rfl, rfl, rfl, Or.inl rfl⟩
  | renew hh hu hc hta htw => exact key hh hta rfl rfl rfl rfl (Or.inr ⟨hu, hc⟩)
  | requestCancel hj hs hc htj hte => exact same _ rfl
  | close hh hm hta htj htw hte =>
      exact key hh hta rfl rfl rfl rfl (Or.inl (closingState_ne_active _ _ _))
  | reserve _ _ => exact same _ rfl
  | ledger _ _ _ => exact same _ rfl
  | blob _ _ => exact same _ rfl
  | win hh hu hc hitems htp htr hta htj htw hte =>
      exact key hh hta rfl rfl rfl rfl (Or.inl (by simp [AttemptRow.succeed]))

/-- A job keeps its row through any effect, and a cancel request on it is never withdrawn. -/
theorem job_effect {db db' : Db} (he : Effect json allowed db db') {jobId : Uuid} {j : JobRow}
    (hj : db.jobs.find? jobId = some j) :
    ∃ j', db'.jobs.find? jobId = some j' ∧ (j'.cancelRequestedAt = none → j.cancelRequestedAt = none)
      ∧ (j.state.terminal = true → j' = j) := by
  have key : ∀ {x x' : JobRow} {tj : Table JobRow}, db.jobs.find? x.id = some x →
      db.jobs.put? x' = some tj → x'.id = x.id → x.state.terminal = false →
      (x'.cancelRequestedAt = none → x.cancelRequestedAt = none) →
      ∃ j', tj.find? jobId = some j' ∧ (j'.cancelRequestedAt = none → j.cancelRequestedAt = none)
        ∧ (j.state.terminal = true → j' = j) := by
    intro x x' tj hx htj hid hopen hcan
    have hx' : db.jobs.find? (Schema.key x') = some x := by rw [← hx]; exact congrArg _ hid
    by_cases hk : jobId = Schema.key x'
    · rw [hk, hx'] at hj
      obtain rfl := Option.some.inj hj
      exact ⟨x', hk ▸ Table.put?_self htj hx', hcan, fun ht => by rw [hopen] at ht; cases ht⟩
    · exact ⟨j, (Table.put?_other htj hx' hk).trans hj, id, fun _ => rfl⟩
  cases he with
  | tick now _ => exact ⟨j, hj, id, fun _ => rfl⟩
  | claim hw hready hx hjob hta htj htw hte =>
      simp only [claimable, Bool.and_eq_true, beq_iff_eq] at hjob
      exact key hx htj rfl (by rw [hjob.1.1.1]; rfl) id
  | renew hh hu hc hta htw => exact ⟨j, hj, id, fun _ => rfl⟩
  | requestCancel hx hs hc htj hte =>
      exact key hx htj rfl (by rcases hs with hs | hs <;> rw [hs] <;> rfl) fun _ => hc
  | close hh hm hta htj htw hte =>
      have hx := hh.jobId.symm ▸ hh.job
      obtain ⟨hid, _, hcan⟩ := leave_keeps (closingState _ _ _) _ _ _
      exact key hx htj hid (by rw [hh.running]; rfl) (by rw [hcan]; exact id)
  | reserve _ _ => exact ⟨j, hj, id, fun _ => rfl⟩
  | ledger _ _ _ => exact ⟨j, hj, id, fun _ => rfl⟩
  | blob _ _ => exact ⟨j, hj, id, fun _ => rfl⟩
  | win hh hu hc hitems htp htr hta htj htw hte =>
      have hx := hh.jobId.symm ▸ hh.job
      exact key hx htj rfl (by rw [hh.running]; rfl) id

theorem clock_effect {db db' : Db} (he : Effect json allowed db db') : db.clock ≤ db'.clock := by
  cases he with
  | tick now h => exact h
  | _ => exact Nat.le_refl _

/-! ## Nothing revives a lease -/

/-- The attempt a lease names exists, with the lease's identities. -/
def Issued (db : Db) (lease : Lease) : Prop :=
  ∃ a, db.attempts.find? lease.attemptId = some a ∧ a.jobId = lease.jobId
    ∧ a.workerId = lease.workerId ∧ a.leaseEpoch = lease.leaseEpoch

theorem issued_effect {db db' : Db} {lease : Lease} (h : Issued db lease)
    (he : Effect json allowed db db') : Issued db' lease := by
  obtain ⟨a, ha, hj, hw, hep⟩ := h
  obtain ⟨a', ha', hj', hw', hep', _⟩ := attempt_effect he ha
  exact ⟨a', ha', hj'.trans hj, hw'.trans hw, hep'.trans hep⟩

/-- An issued lease whose attempt is still the same active row is held. -/
theorem Linked.holds_issued {db : Db} (h : Linked db) {lease : Lease} (hi : Issued db lease)
    {a : AttemptRow} (ha : db.attempts.find? lease.attemptId = some a) (hs : a.state = .active) :
    ∃ j w, Holds db lease a j w := by
  obtain ⟨b, hb, hj, hw, hep⟩ := hi
  obtain rfl : a = b := Option.some.inj (ha.symm.trans hb)
  obtain ⟨j, w, hh⟩ := h.holds ha hs 0
  exact ⟨j, w, hh.congr hj rfl hw hep⟩

/-- **A lease that is live after an effect was live before it.** -/
theorem live_effect {db db' : Db} {lease : Lease} (hl : Linked db) (hi : Issued db lease)
    (he : Effect json allowed db db') (h : Live db' lease) : Live db lease := by
  obtain ⟨a', j', w', hh', hu'⟩ := h
  obtain ⟨a, ha, hj, hw, hep⟩ := hi
  obtain ⟨b, hb, _, _, _, hcase⟩ := attempt_effect he ha
  obtain rfl : a' = b := Option.some.inj (hh'.attempt.symm.trans hb)
  rcases hcase with rfl | hend | ⟨lease', j, w, hh, hu, _⟩
  · obtain ⟨j, w, hh⟩ := hl.holds_issued ⟨a', ha, hj, hw, hep⟩ ha hh'.active
    refine ⟨a', j, w, hh, ?_⟩
    obtain ⟨e, he₁, he₂⟩ := (Option.any_eq_true _ _).mp hu'
    exact (Option.any_eq_true _ _).mpr
      ⟨e, he₁, decide_eq_true (Nat.lt_of_le_of_lt (clock_effect he) (of_decide_eq_true he₂))⟩
  · exact absurd hh'.active hend.2
  · have hid : a.id = lease.attemptId := Table.key_of_find? ha
    exact ⟨a, j, w, hh.congr (hh.ofJob.symm.trans hj) (hh.attemptId.symm.trans hid)
      (hh.ofWorker.symm.trans hw) (hh.ofEpoch.symm.trans hep), hu⟩

/-- **A lease that is current after an effect was current before it.** -/
theorem current_effect {db db' : Db} {lease : Lease} (hl : Linked db) (hi : Issued db lease)
    (he : Effect json allowed db db') (h : Current db' lease) : Current db lease := by
  obtain ⟨a, j, w, hh, hu⟩ := live_effect hl hi he h.live
  obtain ⟨_, j', _, hh', _, hc'⟩ := h
  obtain ⟨j'', hj'', hcan, _⟩ := job_effect he hh.job
  obtain rfl : j' = j'' := Option.some.inj (hh'.job.symm.trans hj'')
  exact ⟨a, j, w, hh, hu, hcan hc'⟩

/-! ## Every operation checks it -/

/-- The four identities a lease consists of. -/
def Lease.identity (lease : Lease) : Uuid × Uuid × Uuid × Nat :=
  (lease.jobId, lease.attemptId, lease.workerId, lease.leaseEpoch)

theorem Live.congr {db : Db} {lease lease' : Lease} (h : Live db lease)
    (hid : lease.identity = lease'.identity) : Live db lease' := by
  obtain ⟨a, j, w, hh, hu⟩ := h
  simp only [Lease.identity, Prod.mk.injEq] at hid
  exact ⟨a, j, w, hh.congr hid.1 hid.2.1 hid.2.2.1 hid.2.2.2, hu⟩

/-- A call either raises and changes nothing, or went through its transaction. -/
theorem raises_of {α : Type} {x : Except Error α × Db} {db : Db}
    (herr : ∀ e db', x = (.error e, db') → db' = db) (hno : ∀ a db', x ≠ (.ok a, db')) :
    ∃ e, outcome x = (.error e, db) := by
  obtain ⟨r, db'⟩ := x
  cases r with
  | error e => exact ⟨e, by rw [herr e db' rfl]; rfl⟩
  | ok a => exact absurd rfl (hno a db')

/-- **An operation under a lease that is not live raises and writes nothing.** -/
theorem Call.raises_of_not_live {c : Call} {lease : Lease} {db : Db} (hl : Linked db)
    (hc : c.lease = some lease) (hdead : ¬ Live db lease) :
    ∃ e, c.run json db = (.error e, db) := by
  have hcur : ¬ Current db lease := fun h => hdead h.live
  cases c <;> simp only [Call.lease, Option.some.injEq, reduceCtorEq] at hc
  case assertCurrent l =>
      subst hc
      exact raises_of (fun _ _ h => commit_error h) fun _ _ h => hcur (assertCurrent_ok h).1
  case cancellationRequested l =>
      subst hc
      refine raises_of (fun _ _ h => commit_error h) fun _ _ h => hdead ?_
      -- the call's own reads show the attempt; that it is this job's is the linkage
      obtain ⟨_, j, a, w, hj, hcj, ha, hw, haw, hae, hje, hrun, hact, hb, hu, _⟩ :=
        cancellationRequested_ok h
      obtain ⟨a', ha', _, haj, _⟩ := hl.current _ j _ hj hcj
      have hid : a.id = l.attemptId := Table.key_of_find? ha
      obtain rfl : a = a' := Option.some.inj ((hid ▸ ha).symm.trans ha')
      exact ⟨a, j, w, ⟨ha, hj, hw, haj, haw, hae, hact, hrun, hcj, hje, hb⟩, hu⟩
  case loadReadyDeployment held l =>
      subst hc
      exact raises_of (fun _ _ h => commit_error h) fun _ _ h => hcur (loadReadyDeployment_ok h).1
  case loadVerifiedInputEvidence held l =>
      subst hc
      exact raises_of (fun _ _ h => commit_error h) fun _ _ h =>
        hcur (loadVerifiedInputEvidence_ok h).1
  case heartbeat l secs =>
      subst hc
      exact raises_of (fun _ _ h => commit_error h) fun _ _ h =>
        hcur (heartbeat_ok h : Current db l ∧ Effect json (fun _ => True) db _).1
  case cancelCurrent held l =>
      subst hc
      exact raises_of (fun _ _ h => commit_error h) fun _ _ h =>
        hdead (cancelCurrent_ok h : Live db l ∧ Effect json (fun _ => True) db _).1
  case failRetryable held l delay maxAttempts =>
      subst hc
      exact raises_of (fun _ _ h => commit_error h) fun _ _ h =>
        hdead (failRetryable_ok trivial h : Live db l ∧ Effect json (fun _ => True) db _).1
  case reserve publicationId l spec =>
      subst hc
      exact raises_of (fun _ _ h => commit_error h) fun _ _ h =>
        hcur (reserve_ok h : _ ∧ (_ ∨ Effect json (fun _ => True) db _)).1
  case recordObject l publicationId version sha256 size =>
      subst hc
      exact raises_of (fun _ _ h => commit_error h) fun _ _ h =>
        hcur (recordObject_ok h : Current db l ∧ Effect json (fun _ => True) db _).1
  case recordValidated l publicationId version blob metadata =>
      subst hc
      exact raises_of (fun _ _ h => commit_error h) fun _ _ h =>
        hcur (recordValidated_ok h : _ ∧ ∃ mid, _ ∧ _ ∧ Effect json (fun _ => True) mid _).1
  case reject l publicationId version reason =>
      subst hc
      exact raises_of (fun _ _ h => commit_error h) fun _ _ h =>
        hcur (reject_ok h : Current db l ∧ Effect json (fun _ => True) db _).1
  case finalize artifactId l requested =>
      subst hc
      have hcommit : ∀ u db', commit (finalizeRows json artifactId l requested) db ≠ (.ok u, db') :=
        fun _ _ h => hcur (finalizeRows_ok h : _ ∧ Effect json (fun _ => True) db _).1
      -- the read after the transaction is never reached
      refine raises_of (fun e db' h => ?_) fun a db' h => ?_
      · unfold NanoAural.finalize at h
        split at h
        · exact absurd (congrArg Prod.fst h) (by simp)
        · rename_i hx
          injection h with _ h
          rw [← h]
          exact commit_error hx
      · unfold NanoAural.finalize at h
        split at h
        · rename_i hx
          exact hcommit _ _ hx
        · exact absurd (congrArg Prod.fst h) (by simp)

/-! ## Fencing -/

/-- The attempt of a claimed lease exists from the claim on, under every later call. -/
theorem issued_of_claim {held : Locks} {attemptId workerId : Uuid} {leaseSeconds : Int}
    {lease : Lease} {db db' : Db}
    (h : claimNext held attemptId workerId leaseSeconds db = (.ok (some lease), db')) :
    Issued db' lease := by
  rcases claimNext_ok .plain (fun _ => True) h with ⟨h, _⟩ | ⟨l, h, hid, _, a, ha, hs⟩
  · exact absurd h (by simp)
  · obtain rfl := Option.some.inj h
    exact ⟨a, hid ▸ ha, hs⟩

/-- A property of states that effects keep is kept by the system's runs. -/
theorem runs_of_effects (json : JsonColumn) {P : Db → Prop} {budget : Call → Prop}
    (hstep : ∀ db db', Linked db → P db → Effect json (fun _ => True) db db' → P db')
    {db db' : Db} (hl : Linked db) (h : P db) (hr : (durableSystem json budget).Runs db db') :
    Linked db' ∧ P db' := by
  induction hr with
  | refl => exact ⟨hl, h⟩
  | @tail s s' _ hs ih =>
      obtain ⟨c, _, rfl⟩ := hs
      have heff : Relation.ReflTransGen (Effect json fun _ => True) s (c.run json s).2 :=
        Call.effects json c (fun _ _ => trivial) s
      generalize (c.run json s).2 = s' at heff ⊢
      induction heff with
      | refl => exact ih
      | tail _ he ih => exact ⟨linked_effect ih.1 he, hstep _ _ ih.1 ih.2 he⟩

/--
**Stale-lease fencing.**

Once a claimed lease is not live it never is again, whatever any party calls; and every operation
called with its identities raises and leaves the database exactly as it was.
-/
theorem stale_lease_fenced (json : JsonColumn) (held : Locks) (attemptId workerId : Uuid)
    (leaseSeconds : Int) (lease : Lease) (db db₁ db₂ db₃ : Db)
    (hreach : (openSystem json).Reachable db)
    (hclaim : claimNext held attemptId workerId leaseSeconds db = (.ok (some lease), db₁))
    (hruns : (openSystem json).Runs db₁ db₂) (hstale : ¬ Live db₂ lease)
    (hlater : (openSystem json).Runs db₂ db₃) :
    ¬ Live db₃ lease
      ∧ ∀ (c : Call) (lease' : Lease), c.lease = some lease' → lease'.identity = lease.identity →
          ∃ e, c.run json db₃ = (.error e, db₃) := by
  have hclaimed : (openSystem json).step db db₁ :=
    ⟨.claimNext held attemptId workerId leaseSeconds, trivial, by
      show db₁ = (outcome (NanoAural.claimNext held attemptId workerId leaseSeconds db)).2
      rw [hclaim]
      rfl⟩
  have hl₁ : Linked db₁ := linked_reachable (hreach.step hclaimed)
  obtain ⟨hl₂, hi₂⟩ := runs_of_effects json (P := fun db => Issued db lease)
    (fun _ _ _ hi he => issued_effect hi he) hl₁ (issued_of_claim hclaim) hruns
  obtain ⟨hl₃, _, hdead⟩ := runs_of_effects json
    (P := fun db => Issued db lease ∧ ¬ Live db lease)
    (fun _ _ hl hi he => ⟨issued_effect hi.1 he, fun h => hi.2 (live_effect hl hi.1 he h)⟩)
    hl₂ ⟨hi₂, hstale⟩ hlater
  exact ⟨hdead, fun c lease' hc hid =>
    Call.raises_of_not_live hl₃ hc fun h => hdead (h.congr hid)⟩

theorem stale_lease_fenced_expired :
    let late := ((Call.tick (61 * second)).run .plain claimedQueue).2
    ∃ e, (Call.heartbeat claimedLease 60).run .plain late = (.error e, late) :=
  (stale_lease_fenced .plain .free 9 7 60 claimedLease smallQueue claimedQueue _ _
    (System.Reachable.of_init registered_smallQueue) (Prod.ext (by decide +kernel) rfl)
    (Relation.ReflTransGen.single ⟨.tick (61 * second), trivial, rfl⟩) (by decide +kernel)
    Relation.ReflTransGen.refl).2 _ claimedLease rfl rfl

end NanoAural
