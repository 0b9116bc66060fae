import NanoAural.Durable.PostgresRepository
import NanoAural.Proof.Closing
import NanoAural.Proof.DigestSpellings
import NanoAural.Proof.Idempotency

/-!
# Two ways to cancel a job

`PostgresLeaseQueue.request_cancel` and `PostgresDurableRepository.request_cancel`
are written apart and meet in the same rows. Both cancel a waiting job on the
spot and mark a running one. The queue's statement asks that no request has been
recorded yet; the repository's does not ask.

`cancel_once_iff` says what follows: a sequence of requests, in whatever order
the two are mixed, leaves what one request through the queue leaves unless a
request through the repository meets a running job whose cancellation has been
requested. What such a request does instead is to move the time of the request
and to log the event again.
-/

namespace NanoAural

open Relational Machine

variable {digest : CanonicalRequest → String} {json : JsonColumn} {allowed : Int → Prop}
  {db db' : Db}

/-! ## Open jobs and their attempts -/

/-- **Every running job has its attempt, every active attempt its job.** -/
structure Attended (db : Db) : Prop where
  /-- A waiting job has no attempt and no cancel request. -/
  waiting : ∀ id j, db.jobs.find? id = some j → j.state = .queued →
    j.currentAttemptId = none ∧ j.cancelRequestedAt = none
  /-- A running job's current attempt is active, belongs to it and carries its epoch. -/
  running : ∀ id j, db.jobs.find? id = some j → j.state = .running →
    ∃ aid a, j.currentAttemptId = some aid ∧ db.attempts.find? aid = some a ∧ a.state = .active
      ∧ a.jobId = id ∧ a.leaseEpoch = j.leaseEpoch
  /-- An active attempt is the current one of a running job. -/
  active : ∀ aid a, db.attempts.find? aid = some a → a.state = .active →
    ∃ j, db.jobs.find? a.jobId = some j ∧ j.state = .running ∧ j.currentAttemptId = some aid

/-- The invariant reads two tables only. -/
theorem Attended.congr (h : Attended db) (ha : db'.attempts = db.attempts)
    (hj : db'.jobs = db.jobs) : Attended db' := by
  constructor <;> simp only [ha, hj]
  exacts [h.waiting, h.running, h.active]

/-- What a cancel request makes of an open job's row, apart from its `updated_at`. -/
structure Marks (now : Time) (j j' : JobRow) : Prop where
  submitted : j'.submitted = j.submitted
  epoch : j'.leaseEpoch = j.leaseEpoch
  current : j'.currentAttemptId = j.currentAttemptId
  winning : j'.winningAttemptId = j.winningAttemptId
  state : j'.state = if j.state = .queued then .cancelled else j.state
  time : j'.cancelRequestedAt = some now

theorem Marks.id {now : Time} {j j' : JobRow} (h : Marks now j j') : j'.id = j.id := by
  have := h.submitted
  simp only [JobRow.submitted, Prod.mk.injEq] at this
  exact this.1

/-- The queue's request marks the row. -/
theorem marks_requestCancel (now : Time) (j : JobRow) : Marks now j (j.requestCancel now) := by
  refine ⟨rfl, rfl, rfl, rfl, ?_, rfl⟩
  simp [JobRow.requestCancel]

theorem attended_mark {now : Time} {j j' : JobRow} (h : Attended db) (hm : Marks now j j')
    (hj : db.jobs.find? j.id = some j) (htj : db.jobs.put? j' = some db'.jobs)
    (ha : db'.attempts = db.attempts) : Attended db' := by
  have hf : db.jobs.find? (Schema.key j') = some j := by
    rw [← hj]
    exact congrArg _ hm.id
  -- a mark takes a job that waits out of the queue
  have hnotqueued : j'.state ≠ .queued := by
    rw [hm.state]
    split
    · simp
    · assumption
  constructor
  case waiting =>
      intro id x hx hs
      rcases Table.of_put? htj hf hx with ⟨_, rfl⟩ | ⟨_, hx⟩
      · exact absurd hs hnotqueued
      · exact h.waiting id x hx hs
  case running =>
      intro id x hx hs
      rw [ha]
      rcases Table.of_put? htj hf hx with ⟨rfl, rfl⟩ | ⟨_, hx⟩
      · have hrun : j.state = .running := by
          rw [hm.state] at hs
          split at hs
          · exact absurd hs (by simp)
          · exact hs
        rw [hm.current, hm.epoch]
        exact h.running _ j hf hrun
      · exact h.running id x hx hs
  case active =>
      intro aid a haid hs
      rw [ha] at haid
      obtain ⟨x, hx, hrun, hcur⟩ := h.active aid a haid hs
      by_cases hk : a.jobId = Schema.key j'
      · rw [hk, hf] at hx
        obtain rfl := Option.some.inj hx
        refine ⟨j', ?_, ?_, hm.current.trans hcur⟩
        · rw [hk]
          exact Table.put?_self htj hf
        · rw [hm.state, hrun]
          rfl
      · exact ⟨x, (Table.put?_other htj hf hk).trans hx, hrun, hcur⟩

/-- A held lease ends: its attempt is no longer active, its job no longer running. -/
theorem attended_release {lease : Lease} {a a' : AttemptRow} {j j' : JobRow} {w : WorkerRow}
    (h : Attended db) (hh : Holds db lease a j w) (hta : db.attempts.put? a' = some db'.attempts)
    (htj : db.jobs.put? j' = some db'.jobs) (haid : a'.id = a.id) (hid : j'.id = j.id)
    (ha : a'.state ≠ .active) (hj : j'.state ≠ .running)
    (hq : j'.state = .queued → j'.currentAttemptId = none ∧ j'.cancelRequestedAt = none) :
    Attended db' := by
  have hfa : db.attempts.find? (Schema.key a') = some a := by
    rw [← hh.attempt, ← hh.attemptId]
    exact congrArg _ haid
  have hfj : db.jobs.find? (Schema.key j') = some j := by
    rw [← hh.job, ← hh.jobId]
    exact congrArg _ hid
  constructor
  case waiting =>
      intro id x hx hs
      rcases Table.of_put? htj hfj hx with ⟨_, rfl⟩ | ⟨_, hx⟩
      · exact hq hs
      · exact h.waiting id x hx hs
  case running =>
      intro id x hx hs
      rcases Table.of_put? htj hfj hx with ⟨_, rfl⟩ | ⟨hne, hx⟩
      · exact absurd hs hj
      · obtain ⟨aid, y, hcur, hy, hyact, hyj, hep⟩ := h.running id x hx hs
        -- an attempt is of one job: that of another running job is not the one that ends
        have hother : aid ≠ Schema.key a' := by
          rintro rfl
          rw [hfa] at hy
          obtain rfl := Option.some.inj hy
          exact hne (hyj.symm.trans (hh.ofJob.trans (hh.jobId.symm.trans hid.symm)))
        exact ⟨aid, y, hcur, (Table.put?_other hta hfa hother).trans hy, hyact, hyj, hep⟩
  case active =>
      intro aid y hy hs
      rcases Table.of_put? hta hfa hy with ⟨_, rfl⟩ | ⟨hne, hy⟩
      · exact absurd hs ha
      · obtain ⟨x, hx, hrun, hcur⟩ := h.active aid y hy hs
        have hother : y.jobId ≠ Schema.key j' := by
          intro hk
          rw [hk, hfj] at hx
          obtain rfl := Option.some.inj hx
          rw [hh.current] at hcur
          exact hne ((Option.some.inj hcur).symm.trans haid.symm)
        exact ⟨x, (Table.put?_other htj hfj hother).trans hx, hrun, hcur⟩

/-- **Every effect keeps open jobs attended.** -/
theorem attended_effect (h : Attended db) (he : Effect json allowed db db') : Attended db' := by
  cases he with
  | @claim w j attemptId expiry ta tj tw te hw hready hj hjob hta htj htw hte =>
      simp only [claimable, Bool.and_eq_true, beq_iff_eq] at hjob
      have hqueued : j.state = .queued := hjob.1.1.1
      constructor
      case waiting =>
          intro id x hx hs
          rcases Table.of_put? htj hj hx with ⟨_, rfl⟩ | ⟨_, hx⟩
          · exact absurd hs (by simp [JobRow.start])
          · exact h.waiting id x hx hs
      case running =>
          intro id x hx hs
          rcases Table.of_put? htj hj hx with ⟨rfl, rfl⟩ | ⟨_, hx⟩
          · exact ⟨attemptId, _, rfl, Table.insert?_self hta, rfl, rfl, rfl⟩
          · obtain ⟨aid, y, hcur, hy, hrest⟩ := h.running id x hx hs
            exact ⟨aid, y, hcur, Table.insert?_keep hta hy, hrest⟩
      case active =>
          intro aid y hy hs
          rcases Table.of_insert? hta hy with ⟨haid, rfl⟩ | ⟨_, hy⟩
          · exact ⟨j.start attemptId (j.leaseEpoch + 1) db.clock, Table.put?_self htj hj, rfl,
              congrArg some haid.symm⟩
          · obtain ⟨x, hx, hrun, hcur⟩ := h.active aid y hy hs
            have hother : y.jobId ≠ j.id := by
              intro hk
              rw [hk, hj] at hx
              obtain rfl := Option.some.inj hx
              rw [hqueued] at hrun
              exact absurd hrun (by simp)
            exact ⟨x, (Table.put?_other htj hj hother).trans hx, hrun, hcur⟩
  | @renew lease a j w expiry ta tw hh hu hc hta htw =>
      have hfa : db.attempts.find? (Schema.key (a.renew db.clock expiry)) = some a := by
        rw [← hh.attempt, ← hh.attemptId]
        rfl
      constructor
      case waiting => exact h.waiting
      case running =>
          intro id x hx hs
          obtain ⟨aid, y, hcur, hy, hyact, hyj, hep⟩ := h.running id x hx hs
          by_cases hk : aid = Schema.key (a.renew db.clock expiry)
          · subst hk
            rw [hfa] at hy
            obtain rfl := Option.some.inj hy
            exact ⟨_, _, hcur, Table.put?_self hta hfa, hyact, hyj, hep⟩
          · exact ⟨aid, y, hcur, (Table.put?_other hta hfa hk).trans hy, hyact, hyj, hep⟩
      case active =>
          intro aid y hy hs
          rcases Table.of_put? hta hfa hy with ⟨rfl, rfl⟩ | ⟨_, hy⟩
          · exact h.active _ a hfa hs
          · exact h.active aid y hy hs
  | requestCancel hj hs hc htj hte =>
      exact attended_mark h (marks_requestCancel _ _) hj htj rfl
  | @close lease a j w maxAttempts notBefore reason ta tj tw te hh hm hta htj htw hte =>
      obtain ⟨hs, hcur, hq⟩ := leave_shape j.cancelRequestedAt.isSome a.attemptNo maxAttempts
        notBefore db.clock j
      obtain ⟨hid, _, hcan⟩ := leave_keeps (closingState j.cancelRequestedAt.isSome a.attemptNo
        maxAttempts) notBefore db.clock j
      refine attended_release h hh hta htj rfl hid (closingState_ne_active _ _ _) hs fun hwait => ?_
      obtain ⟨_, hnone, _⟩ := hq (by rw [hwait]; rfl)
      refine ⟨hcur, hcan.trans ?_⟩
      cases hc : j.cancelRequestedAt <;> simp_all
  | win hh hu hc hitems htp htr hta htj htw hte =>
      exact attended_release h hh hta htj rfl rfl (by simp [AttemptRow.succeed])
        (by simp [JobRow.succeed]) fun hq => absurd hq (by simp [JobRow.succeed])
  | tick _ _ => exact h.congr rfl rfl
  | reserve _ _ => exact h.congr rfl rfl
  | ledger _ _ _ => exact h.congr rfl rfl
  | blob _ _ => exact h.congr rfl rfl

/-! ## A request that is recorded -/

section Recording

variable {now : Time} {j j' : JobRow}

/-- The row of an open job can be marked. -/
theorem mark_writes (ha : Attended db) (hw : Unwon db) (hj : db.jobs.find? j.id = some j)
    (hopen : j.state = .queued ∨ j.state = .running) (hm : Marks now j j') :
    (∃ tj, db.jobs.put? j' = some tj) ∧ ∀ g ∈ jobUpdateGuards db j j', g.1 = false := by
  have hsub := hm.submitted
  simp only [JobRow.submitted, Prod.mk.injEq] at hsub
  obtain ⟨hid, hns, hkey, hhash, hjson, hdep, hkinds⟩ := hsub
  have hnone : j.winningAttemptId = none := hw _ j hj (by rcases hopen with h | h <;> rw [h] <;> simp)
  constructor
  · refine Table.put?_of (t := db.jobs) ?_ fun x hx hne => ?_
    · have hcheck : Schema.check j = true := Table.check_of_find? hj
      simpa [Schema.check, hhash, hns, hkey, hkinds] using hcheck
    · have hclash : Schema.clash x j = false := by
        cases hcl : Schema.clash x j with
        | false => rfl
        | true =>
            have := congrArg JobRow.id (Table.eq_of_clash hx (Table.mem_of_find? hj) hcl)
            exact absurd (this.trans hid.symm) hne
      simpa [Schema.clash, hns, hkey] using hclash
  · have hwin : j'.winningAttemptId = none := hm.winning.trans hnone
    rcases hopen with hs | hs
    · have hstate : j'.state = .cancelled := by rw [hm.state, if_pos hs]
      have hcur : j'.currentAttemptId = none := hm.current.trans (ha.waiting _ j hj hs).1
      simp [jobUpdateGuards, preventJobLeaseEpochDecrease, preventJobSemanticMutation,
        ensureJobLifecycleShape, ensureJobSuccessArtifacts, hns, hkey, hhash, hjson, hdep, hkinds,
        hm.epoch, hwin, hs, hstate, hcur, JobState.terminal]
    · have hstate : j'.state = .running := by rw [hm.state, if_neg (by rw [hs]; simp), hs]
      obtain ⟨aid, _, hcur, _⟩ := ha.running _ j hj hs
      rw [← hm.current] at hcur
      simp [jobUpdateGuards, preventJobLeaseEpochDecrease, preventJobSemanticMutation,
        ensureJobLifecycleShape, ensureJobSuccessArtifacts, hns, hkey, hhash, hjson, hdep, hkinds,
        hm.epoch, hwin, hs, hstate, hcur, JobState.terminal]

/-- The deferred checks of a marked row pass: the job keeps its attempt, or never had one. -/
theorem mark_verified (ha : Attended db) (hw : Unwon db) (hj : db.jobs.find? j.id = some j)
    (hopen : j.state = .queued ∨ j.state = .running) (hm : Marks now j j') {tj : Table JobRow}
    (htj : db.jobs.put? j' = some tj) (te : Table EventRow) :
    ∀ d ∈ jobsTable.deferred j' ++ optionalReference j.id j.currentAttemptId,
      d.verify { db with jobs := tj, events := te } = .ok () := by
  have hnone : j.winningAttemptId = none := hw _ j hj (by rcases hopen with h | h <;> rw [h] <;> simp)
  have hwin : j'.winningAttemptId = none := hm.winning.trans hnone
  have hfj : tj.find? j.id = some j' := by
    rw [← hm.id]
    exact Table.put?_self htj (hm.id ▸ hj)
  have hsuc : j'.state ≠ .succeeded := by
    rw [hm.state]
    rcases hopen with hs | hs <;> simp [hs]
  -- an active attempt of the job is its current one, and the job runs
  have hactive : ∀ a ∈ db.attempts.rows, a.jobId = j.id → a.state = .active →
      j.state = .running ∧ j.currentAttemptId = some a.id := by
    intro a hmem haj hs
    obtain ⟨x, hx, hrun, hcur⟩ := ha.active _ a (Table.find?_of_mem hmem) hs
    rw [haj, hj] at hx
    obtain rfl := Option.some.inj hx
    exact ⟨hrun, hcur⟩
  intro d hd
  have hcases : d = .jobAttemptLinkage j.id ∨ d = .currentAttemptLeaseEpoch j.id
      ∨ d = .succeededPublicationProof j' ∨ d ∈ optionalReference j.id j.currentAttemptId := by
    simp only [jobsTable, hwin, hm.id, hm.current, optionalReference, List.append_nil,
      List.mem_append, List.mem_cons, List.not_mem_nil, or_false] at hd
    tauto
  rcases hopen with hs | hs
  · have hstate : j'.state = .cancelled := by rw [hm.state, if_pos hs]
    have hcur : j.currentAttemptId = none := (ha.waiting _ j hj hs).1
    have hcur' : j'.currentAttemptId = none := hm.current.trans hcur
    rw [hcur] at hcases
    simp only [optionalReference, List.not_mem_nil, or_false] at hcases
    rcases hcases with rfl | rfl | rfl
    · unfold Deferred.verify ensureJobAttemptLinkage
      simp only [hfj]
      rw [raiseFirst_ok]
      simp only [hstate, hcur', hwin, List.mem_cons, List.not_mem_nil, or_false, forall_eq_or_imp,
        forall_eq, Option.isSome_none, Bool.false_and, and_true]
      refine ⟨rfl, List.any_eq_false.mpr fun a hmem => ?_⟩
      simp only [Bool.and_eq_true, beq_iff_eq, hm.id]
      rintro ⟨⟨haj, hact⟩, -⟩
      have := (hactive a hmem haj hact).1
      rw [hs] at this
      exact absurd this (by simp)
    · unfold Deferred.verify ensureCurrentAttemptLeaseEpoch
      simp only [hfj]
      rw [raiseFirst_ok]
      simp [hstate]
    · unfold Deferred.verify ensureSucceededPublicationProof
      rw [raiseFirst_ok]
      simp [hsuc]
  · obtain ⟨aid, a, hcur, hfa, hact, haj, hep⟩ := ha.running _ j hj hs
    have hcur' : j'.currentAttemptId = some aid := hm.current.trans hcur
    have haid : a.id = aid := Table.key_of_find? hfa
    have hlinked : ∀ tj te, hasCurrentActive { db with jobs := tj, events := te } j' = true :=
      fun _ _ => List.any_eq_true.mpr ⟨a, Table.mem_of_find? hfa, by simp [hcur', haid, haj, hm.id, hact]⟩
    rw [hcur] at hcases
    simp only [optionalReference, List.mem_singleton] at hcases
    rcases hcases with rfl | rfl | rfl | rfl
    · unfold Deferred.verify ensureJobAttemptLinkage
      simp only [hfj]
      rw [raiseFirst_ok]
      simp only [hlinked, hwin, List.mem_cons, List.not_mem_nil, or_false, forall_eq_or_imp,
        forall_eq, Option.isSome_none, Bool.false_and, Bool.and_false, Bool.not_true, true_and,
        and_true]
      refine List.any_eq_false.mpr fun b hmem => ?_
      simp only [Bool.and_eq_true, beq_iff_eq, Bool.or_eq_true, bne_iff_ne, hm.id]
      rintro ⟨⟨hbj, hbact⟩, hodd⟩
      obtain ⟨_, hb⟩ := hactive b hmem hbj hbact
      rcases hodd with hodd | hodd
      · exact hodd (by rw [hm.state, if_neg (by rw [hs]; simp), hs])
      · exact hodd (hm.current.trans hb)
    · unfold Deferred.verify ensureCurrentAttemptLeaseEpoch
      simp only [hfj]
      rw [raiseFirst_ok]
      simp [hcur', hfa, hact, hep, hm.epoch]
    · unfold Deferred.verify ensureSucceededPublicationProof
      rw [raiseFirst_ok]
      simp [hsuc]
    · unfold Deferred.verify
      rw [raiseFirst_ok]
      simp [hfa, haj]

end Recording

/-! ## Records that can be read back -/

/-- **Every row has a record**: its texts are not blank and its request is a mapping. -/
structure Legible (db : Db) : Prop where
  jobs : ∀ id j, db.jobs.find? id = some j → isBlank j.namespaceId = false
    ∧ isBlank j.idempotencyKey = false ∧ j.requestJson.isMapping = true
  inputs : ∀ i ∈ db.jobInputs.rows, isBlank i.role = false

theorem Legible.congr (h : Legible db) (hj : db'.jobs = db.jobs)
    (hi : db'.jobInputs = db.jobInputs) : Legible db' := by
  constructor <;> simp only [hj, hi]
  exacts [h.jobs, h.inputs]

theorem legible_put {j j' : JobRow} (h : Legible db) (htj : db.jobs.put? j' = some db'.jobs)
    (hj : db.jobs.find? j.id = some j) (hs : j'.submitted = j.submitted)
    (hi : db'.jobInputs = db.jobInputs) : Legible db' := by
  simp only [JobRow.submitted, Prod.mk.injEq] at hs
  obtain ⟨hid, hns, hkey, _, hjson, _⟩ := hs
  refine ⟨fun id x hx => ?_, by rw [hi]; exact h.inputs⟩
  rcases Table.of_put? htj (by rw [← hj]; exact congrArg _ hid) hx with ⟨_, rfl⟩ | ⟨_, hx⟩
  · rw [hns, hkey, hjson]
    exact h.jobs _ j hj
  · exact h.jobs id x hx

theorem legible_effect (h : Legible db) (he : Effect json allowed db db') : Legible db' := by
  cases he with
  | claim hw hready hj hjob hta htj htw hte => exact legible_put h htj hj rfl rfl
  | requestCancel hj hs hc htj hte => exact legible_put h htj hj rfl rfl
  | close hh hm hta htj htw hte =>
      refine legible_put h htj (hh.jobId.symm ▸ hh.job) ?_ rfl
      unfold JobRow.leave
      split <;> rfl
  | win hh hu hc hitems htp htr hta htj htw hte =>
      have hj := hh.jobId.symm ▸ hh.job
      exact legible_put h htj hj rfl rfl
  | tick _ _ => exact h.congr rfl rfl
  | renew _ _ _ _ _ => exact h.congr rfl rfl
  | reserve _ _ => exact h.congr rfl rfl
  | ledger _ _ _ => exact h.congr rfl rfl
  | blob _ _ => exact h.congr rfl rfl

/-- A digest the database checks is one the record's constructor accepts. -/
theorem requireSha256_of_isSha256 {value name : String} (h : isSha256 value = true) :
    requireSha256 value name = .ok () :=
  requireSha256_ok.mpr (accepts_of_isSha256 h).1

/-- Inputs without blank roles can be built, and keep their roles. -/
theorem inputs_checked : ∀ (rows : List JobInputRow), (∀ i ∈ rows, isBlank i.role = false) →
    ∃ items, rows.mapM (fun i => JobInput.checked i.role i.assetId) = Except.ok (ε := Error) items
      ∧ items.map JobInput.role = rows.map JobInputRow.role
  | [], _ => ⟨[], rfl, rfl⟩
  | i :: rows, h => by
      obtain ⟨items, hitems, hroles⟩ := inputs_checked rows fun x hx => h x (List.mem_cons_of_mem _ hx)
      have hrole : isBlank i.role = false := h i List.mem_cons_self
      refine ⟨⟨i.role, i.assetId, hrole⟩ :: items, ?_, by simp [hroles]⟩
      rw [List.mapM_cons, hitems, JobInput.checked, dif_pos hrole]
      rfl

/-- **A job's record can be read.** -/
theorem getJob_legible (h : Legible db) {id : Uuid} {j : JobRow} (hj : db.jobs.find? id = some j) :
    ∃ job, getJob id db = .ok job ∧ job.state = j.state
      ∧ job.currentAttemptId = j.currentAttemptId := by
  obtain ⟨hns, hkey, hjson⟩ := h.jobs id j hj
  have hcheck : Schema.check j = true := Table.check_of_find? hj
  simp only [Schema.check, validRequiredArtifactKinds, Bool.and_eq_true, Bool.not_eq_true',
    decide_eq_true_eq] at hcheck
  obtain ⟨⟨⟨hhash, _⟩, _⟩, hsome, hnodup⟩ := hcheck
  -- the primary key keeps the roles of one job apart
  have hroles : ((inputsOf db id).map JobInputRow.role).Nodup := by
    refine List.Nodup.map_on (fun a ha b hb hab => ?_) ?_
    · obtain ⟨hma, hja⟩ := List.mem_filter.mp ha
      obtain ⟨hmb, hjb⟩ := List.mem_filter.mp hb
      exact Table.eq_of_key hma hmb (Prod.ext ((beq_iff_eq.mp hja).trans (beq_iff_eq.mp hjb).symm) hab)
    · refine List.Nodup.filter _ ?_
      exact db.jobInputs.apart.imp fun hab he => hab.1 (congrArg _ he)
  obtain ⟨items, hitems, hmap⟩ := inputs_checked (orderBy JobInputRow.role (inputsOf db id))
    fun i hi => h.inputs i (List.mem_of_mem_filter (mem_orderBy.mp hi))
  have hdistinct : (items.map JobInput.role).Nodup := by
    rw [hmap]
    exact (((orderBy_perm JobInputRow.role (inputsOf db id)).map _).nodup_iff).mpr hroles
  let job : JobRecord := ⟨j.id, j.namespaceId, j.idempotencyKey, j.requestSha256, j.requestJson,
    j.modelDeploymentId, items, j.requiredArtifactKinds, j.state, j.currentAttemptId,
    j.winningAttemptId, j.cancelRequestedAt.isSome, j.leaseEpoch⟩
  refine ⟨{ job with request := job.request.freeze }, ?_, rfl, rfl⟩
  unfold getJob
  rw [hj]
  refine except_bind_ok.mpr ⟨items, hitems, except_bind_ok.mpr ⟨(), ?_, rfl⟩⟩
  unfold JobRecord.check requireText
  simp [hns, hkey, requireSha256_of_isSha256 hhash, hjson, hdistinct, hsome, hnodup, raiseIf, bind,
    Except.bind]

/-! ## The two paths -/

/-- Which of the two methods takes a request. -/
inductive CancelPath where
  | repository
  | queue
  deriving DecidableEq

/-- The database a request leaves. -/
def CancelPath.request : CancelPath → Uuid → Db → Db
  | .repository, jobId, db => (requestJobCancel jobId db).2
  | .queue, jobId, db => (requestCancel jobId db).2

/-- What both paths rely on. -/
structure Answerable (db : Db) : Prop where
  attended : Attended db
  unwon : Unwon db
  legible : Legible db

/-- What a request that is recorded leaves: the row marked, the event logged. -/
def Records (j : JobRow) (db db' : Db) : Prop :=
  ∃ j' tj te, Marks db.clock j j' ∧ db.jobs.put? j' = some tj
    ∧ db.events.insert? ⟨nextEventId db, j.id, j.currentAttemptId, .cancelRequested⟩ = some te
    ∧ db' = { db with jobs := tj, events := te }

/-- The statements of either path, an update that matches and the event, are committed. -/
theorem records_commit {α : Type} {j : JobRow} {body : Sql α} {a : α} (set : JobRow → JobRow)
    (cond : JobRow → Bool) (h : Answerable db) (hj : db.jobs.find? j.id = some j)
    (hopen : j.state = .queued ∨ j.state = .running) (hset : Marks db.clock j (set j))
    (hcond : cond j = true)
    (hbody : ∀ s₁ s₂, update jobsTable j.id cond set ⟨db, []⟩ = .ok (1, s₁) →
      event j.id j.currentAttemptId .cancelRequested s₁ = .ok ((), s₂) →
      body ⟨db, []⟩ = .ok (a, s₂)) :
    ∃ db', commit body db = (.ok a, db') ∧ Records j db db' := by
  obtain ⟨⟨tj, htj⟩, hguards⟩ := mark_writes h.attended h.unwon hj hopen hset
  have hupdate := update_job_run (s := ⟨db, []⟩) hj hcond hguards htj
  have hself : tj.find? j.id = some (set j) := by
    rw [← hset.id]
    exact Table.put?_self htj (hset.id ▸ hj)
  have hfound : (tj.find? j.id).isSome = true := by
    rw [hself]
    rfl
  obtain ⟨te, hevent⟩ := event_writes
    (s := ⟨{ db with jobs := tj }, [] ++ jobsTable.deferred (set j)⟩) j.id j.currentAttemptId
    .cancelRequested hfound (by simp)
  refine ⟨_, transaction_commit (hbody _ _ hupdate hevent) ?_, set j, tj, te, hset, htj, ?_, rfl⟩
  · exact mark_verified h.attended h.unwon hj hopen hset htj te
  · obtain ⟨te', hte', hs⟩ := event_ok hevent
    obtain rfl : te = te' := congrArg (fun s : Session Db Deferred => s.db.events) hs
    exact hte'

/-- **An open job's request is recorded**, whichever way it comes, unless it comes through the
queue and one has been recorded. -/
theorem request_records {path : CancelPath} {j : JobRow} (h : Answerable db)
    (hj : db.jobs.find? j.id = some j) (hopen : j.state = .queued ∨ j.state = .running)
    (hpath : path = .repository ∨ j.cancelRequestedAt = none) :
    Records j db (path.request j.id db) := by
  cases path with
  | repository =>
      obtain ⟨job, hget, hstate, hcur⟩ := getJob_legible h.legible hj
      have hcommit : ∃ db', commit (requestCancelRows j.id) db = (.ok (), db') ∧ Records j db db' := by
        -- `request_cancel` ends a job that waits and marks one that runs
        rcases hopen with hs | hs
        · refine records_commit
            (fun j => { j with state := .cancelled, cancelRequestedAt := some db.clock })
            (fun _ => true) h hj (Or.inl hs) ⟨rfl, rfl, rfl, rfl, ?_, rfl⟩ rfl
            fun s₁ s₂ hu he => ?_
          · rw [if_pos hs]
          · unfold requestCancelRows
            rw [select_bind]
            dsimp only [id]
            rw [Tx.lift_eval hget, hstate, hs]
            rw [(h.attended.waiting _ j hj hs).1] at he
            exact (Tx.bind_eval hu).trans he
        · refine records_commit (fun j => { j with cancelRequestedAt := some db.clock })
            (fun _ => true) h hj (Or.inr hs) ⟨rfl, rfl, rfl, rfl, ?_, rfl⟩ rfl
            fun s₁ s₂ hu he => ?_
          · rw [if_neg (by rw [hs]; simp)]
          · unfold requestCancelRows
            rw [select_bind]
            dsimp only [id]
            rw [Tx.lift_eval hget, hstate, hs, hcur]
            exact (Tx.bind_eval hu).trans he
      obtain ⟨db', hdb, hrec⟩ := hcommit
      show Records j db (requestJobCancel j.id db).2
      unfold requestJobCancel
      rw [hdb]
      exact hrec
  | queue =>
      have hnone : j.cancelRequestedAt = none := by simpa using hpath
      -- the queue's statement marks both alike and only the first time
      have hcommit : ∃ db', requestCancel j.id db = (.ok true, db') ∧ Records j db db' := by
        refine records_commit (JobRow.requestCancel db.clock) (·.cancelRequestedAt.isNone) h hj hopen (marks_requestCancel _ _)
          (by rw [hnone]; rfl) fun s₁ s₂ hu he => ?_
        rw [select_bind, hj]
        dsimp only
        rw [if_pos (by rcases hopen with hs | hs <;> rw [hs] <;> rfl), select_bind, Tx.bind_eval hu]
        show (event j.id j.currentAttemptId .cancelRequested >>= fun _ => pure true) s₁ = _
        rw [Tx.bind_eval he]
        rfl
      obtain ⟨db', hdb, hrec⟩ := hcommit
      show Records j db (requestCancel j.id db).2
      rw [hdb]
      exact hrec

/-- **Nothing else is recorded**: a job that is closed, missing, or marked before the queue is
asked again, leaves the database as it is. -/
theorem request_ignored {path : CancelPath} {jobId : Uuid} (h : Answerable db)
    (hsettled : ∀ j, db.jobs.find? jobId = some j → (j.state = .queued ∨ j.state = .running) →
      path = .queue ∧ j.cancelRequestedAt.isSome = true) : path.request jobId db = db := by
  cases path with
  | repository =>
      have hcommit : (commit (requestCancelRows jobId) db).2 = db := by
        cases hj : db.jobs.find? jobId with
        | none =>
            have hraise : requestCancelRows jobId ⟨db, []⟩ = .error (.notFound "job not found") := by
              unfold requestCancelRows
              rw [select_bind]
              dsimp only [id]
              rw [Tx.lift_fails (by unfold getJob; rw [hj])]
            rw [commit, transaction_error hraise]
        | some j =>
            obtain ⟨job, hget, hstate, -⟩ := getJob_legible h.legible hj
            have hclosed : requestCancelRows jobId ⟨db, []⟩ = .ok ((), ⟨db, []⟩) := by
              unfold requestCancelRows
              rw [select_bind]
              dsimp only [id]
              rw [Tx.lift_eval hget, hstate]
              have hopen := hsettled j hj
              cases hs : j.state <;> rw [hs] at hopen <;> simp at hopen <;> rfl
            rw [commit, transaction_commit hclosed (by simp)]
      show (requestJobCancel jobId db).2 = db
      unfold requestJobCancel
      split <;> rename_i hc <;> rw [hc] at hcommit <;> exact hcommit
  | queue =>
      show (requestCancel jobId db).2 = db
      rcases hr : requestCancel jobId db with ⟨_ | r, db'⟩
      · exact commit_error hr
      · rcases requestCancel_rows hr with ⟨_, rfl, _⟩ | ⟨_, j, _, _, hj, rfl, hopen, hnone, _⟩
        · rfl
        · have := (hsettled j hj hopen).2
          rw [hnone] at this
          exact absurd this (by simp)

/-! ## What the repository's calls do to jobs -/

/-- The tables a cancellation reads and writes are untouched. -/
structure Aside (db db' : Db) : Prop where
  jobs : db'.jobs = db.jobs
  inputs : db'.jobInputs = db.jobInputs
  attempts : db'.attempts = db.attempts
  events : db'.events = db.events

theorem Aside.refl (db : Db) : Aside db db := ⟨rfl, rfl, rfl, rfl⟩

/-- A transaction leaves them alone if its body does. -/
theorem Aside.of_commit {α : Type} {body : Sql α}
    (h : ∀ a s, body ⟨db, []⟩ = .ok (a, s) → Aside db s.db) : Aside db (commit body db).2 := by
  rcases transaction_cases Deferred.verify body db with ⟨a, s, hb, _, ht⟩ | ⟨e, ht⟩
  · rw [commit, ht]
    exact h a s hb
  · rw [commit, ht]
    exact .refl db

section Statements

variable {ρ κ : Type} [Schema ρ κ] {T : Target ρ} {s s' : Session Db Deferred}

theorem Aside.of_insert {row : ρ} {u : Unit} (hT : ∀ db t, Aside db (T.store db t))
    (h : insert T row s = .ok (u, s')) : Aside s.db s'.db := by
  obtain ⟨_, t, _, _, rfl⟩ := insert_ok h
  exact hT _ t

theorem Aside.of_insertUnless {conflict : ρ → ρ → Bool} {row : ρ} {added : Bool}
    (hT : ∀ db t, Aside db (T.store db t)) (h : insertUnless T conflict row s = .ok (added, s')) :
    Aside s.db s'.db := by
  obtain ⟨_, _, _, ⟨_, rfl, _⟩ | ⟨t, _, _, _, rfl⟩⟩ := insertUnless_ok h
  · exact .refl _
  · exact hT _ t

theorem Aside.of_update {id : κ} {cond : ρ → Bool} {set : ρ → ρ} {n : Nat}
    (hT : ∀ db t, Aside db (T.store db t)) (h : update T id cond set s = .ok (n, s')) :
    Aside s.db s'.db := by
  rcases update_ok h with ⟨_, rfl, _⟩ | ⟨_, _, t, _, _, _, _, _, rfl⟩
  · exact .refl _
  · exact hT _ t

end Statements

/-- Inserting a job's inputs adds rows with the roles of the items and nothing else. -/
theorem insertInputs_adds {jobId : Uuid} : ∀ {items : List JobInput} {s s' : Session Db Deferred}
    {u : Unit}, insertInputs jobId items s = .ok (u, s') →
    s'.db.jobs = s.db.jobs ∧ s'.db.attempts = s.db.attempts ∧ s'.db.events = s.db.events
      ∧ ∀ i ∈ s'.db.jobInputs.rows, i ∈ s.db.jobInputs.rows ∨ isBlank i.role = false := by
  intro items
  induction items with
  | nil =>
      intro s s' u h
      obtain ⟨_, rfl⟩ := Tx.pure_ok.mp h
      exact ⟨rfl, rfl, rfl, fun i hi => Or.inl hi⟩
  | cons item items ih =>
      intro s s' u h
      unfold insertInputs at h
      obtain ⟨_, s₁, h₁, h⟩ := Tx.bind_ok.mp h
      obtain ⟨new, t, hb, ht, rfl⟩ := insert_ok h₁
      obtain ⟨_, rfl⟩ := guarded_ok.mp hb
      obtain ⟨hj, ha, he, hi⟩ := ih h
      refine ⟨hj, ha, he, fun i hmem => ?_⟩
      rcases hi i hmem with hold | hrole
      · have hrows : i ∈ t.rows := hold
        rw [Table.insert?_rows ht, List.mem_append, List.mem_singleton] at hrows
        rcases hrows with hrows | rfl
        · exact Or.inl hrows
        · exact Or.inr item.role_text
      · exact Or.inr hrole

/-- **What a call can do to jobs, their attempts and the event log.** -/
inductive Change (digest : CanonicalRequest → String) (json : JsonColumn) (db : Db) :
    RepositoryCall → Db → Prop where
  | aside {c : RepositoryCall} {db' : Db} (h : Aside db db') : Change digest json db c db'
  /-- A call of the queue or the ledger. -/
  | effects {c : Call} {db' : Db}
      (h : Relation.ReflTransGen (Effect json fun _ => True) db db') :
      Change digest json db (.queue c) db'
  /-- A submission adds a waiting job. -/
  | created {jobId : Uuid} {sub : Submission} {hash : String} {n : Nat} {db' : Db}
      (hadm : sub.admissible digest = .ok hash)
      (htj : db.jobs.insert? (submittedRow json jobId sub hash db.clock) = some db'.jobs)
      (hi : ∀ i ∈ db'.jobInputs.rows, i ∈ db.jobInputs.rows ∨ isBlank i.role = false)
      (ha : db'.attempts = db.attempts)
      (hte : db.events.insert? ⟨n, jobId, none, .jobCreated⟩ = some db'.events) :
      Change digest json db (.createJob jobId sub) db'
  /-- A request through the repository is recorded. -/
  | cancelled {j : JobRow} {db' : Db} (hj : db.jobs.find? j.id = some j)
      (hopen : j.state = .queued ∨ j.state = .running) (h : Records j db db') :
      Change digest json db (.requestCancel j.id) db'

/-- **Every call of the repository** changes jobs in one of these ways. -/
theorem RepositoryCall.change (h : Answerable db) (c : RepositoryCall) :
    Change digest json db c (c.run digest json db) := by
  cases c with
  | registerDeployment deployment =>
      refine .aside (.of_commit fun a s hb => ?_)
      obtain ⟨_, s₁, h₁, hb⟩ := Tx.bind_ok.mp hb
      obtain ⟨_, rfl⟩ := Tx.pure_ok.mp hb
      exact Aside.of_insert (fun _ _ => ⟨rfl, rfl, rfl, rfl⟩) h₁
  | registerWorker worker =>
      refine .aside (.of_commit fun a s hb => ?_)
      obtain ⟨_, s₁, h₁, hb⟩ := Tx.bind_ok.mp hb
      obtain ⟨_, rfl⟩ := Tx.pure_ok.mp hb
      exact Aside.of_insert (fun _ _ => ⟨rfl, rfl, rfl, rfl⟩) h₁
  | registerBlob blob =>
      refine .aside (.of_commit fun a s hb => ?_)
      obtain ⟨added, s₁, h₁, hb⟩ := Tx.bind_ok.mp hb
      have hs : Aside db s₁.db := Aside.of_insertUnless (fun _ _ => ⟨rfl, rfl, rfl, rfl⟩) h₁
      cases added with
      | true =>
          obtain ⟨_, rfl⟩ := Tx.lift_ok.mp hb
          exact hs
      | false =>
          simp only [select_bind, Tx.orFail_bind, Bool.false_eq_true, if_false] at hb
          obtain ⟨_, _, hb⟩ := hb
          obtain ⟨_, rfl⟩ := Tx.lift_ok.mp hb
          exact hs
  | createAsset asset =>
      refine .aside (.of_commit fun a s hb => ?_)
      simp only [select_bind, Tx.orFail_bind, Tx.ensure_bind] at hb
      obtain ⟨_, _, _, hb⟩ := hb
      obtain ⟨_, s₁, h₁, hb⟩ := Tx.bind_ok.mp hb
      obtain ⟨_, rfl⟩ := Tx.pure_ok.mp hb
      exact Aside.of_insert (fun _ _ => ⟨rfl, rfl, rfl, rfl⟩) h₁
  | createJob jobId sub =>
      have hrun : RepositoryCall.run digest json (.createJob jobId sub) db
          = (NanoAural.createJob digest json jobId sub db).2 := rfl
      rw [hrun]
      unfold NanoAural.createJob
      cases hadm : sub.admissible digest with
      | error e => exact .aside (.refl db)
      | ok hash =>
          -- a replay or an error changes nothing, a new job adds rows and one event
          have hcommit : Change digest json db (.createJob jobId sub)
              (commit (createJobRows json jobId sub hash) db).2 := by
            rcases transaction_cases Deferred.verify (createJobRows json jobId sub hash) db with
              ⟨found, s, hb, _, hdone⟩ | ⟨e, hdone⟩
            · rw [commit, hdone]
              unfold createJobRows at hb
              simp only [select_bind, Tx.orFail_bind, Tx.ensure_bind] at hb
              obtain ⟨_, _, _, hb⟩ := hb
              obtain ⟨added, s₁, h₁, hb⟩ := Tx.bind_ok.mp hb
              obtain ⟨new, hnew, _, hcase⟩ := insertUnless_ok h₁
              obtain ⟨_, rfl⟩ := guarded_ok.mp hnew
              rcases hcase with ⟨rfl, rfl, _⟩ | ⟨t, rfl, _, htj, rfl⟩
              · obtain ⟨existing, s₂, h₂, hb⟩ := Tx.bind_ok.mp hb
                obtain ⟨rfl, _⟩ := jobByKey_ok h₂
                rw [Tx.ensure_bind] at hb
                obtain ⟨_, rfl⟩ := Tx.pure_ok.mp hb.2
                exact .aside (.refl db)
              · obtain ⟨_, s₂, h₂, hb⟩ := Tx.bind_ok.mp hb
                obtain ⟨_, s₃, h₃, hb⟩ := Tx.bind_ok.mp hb
                obtain ⟨_, rfl⟩ := Tx.pure_ok.mp hb
                obtain ⟨hj, ha, he, hi⟩ := insertInputs_adds h₂
                obtain ⟨te, hte, rfl⟩ := event_ok h₃
                rw [he] at hte
                exact .created hadm (htj.trans (congrArg some hj.symm)) hi ha hte
            · rw [commit, hdone]
              exact .aside (.refl db)
          dsimp only
          split <;> rename_i hc <;> rw [hc] at hcommit <;> exact hcommit
  | requestCancel jobId =>
      have hrun : RepositoryCall.run digest json (.requestCancel jobId) db
          = CancelPath.repository.request jobId db := rfl
      rw [hrun]
      -- a job that is QUEUED or RUNNING is marked, any other request changes nothing
      by_cases hopen : ∃ j, db.jobs.find? jobId = some j ∧ (j.state = .queued ∨ j.state = .running)
      · obtain ⟨j, hj, hs⟩ := hopen
        obtain rfl : j.id = jobId := Table.key_of_find? hj
        exact .cancelled hj hs (request_records h hj hs (Or.inl rfl))
      · rw [request_ignored h fun j hj hs => absurd ⟨j, hj, hs⟩ hopen]
        exact .aside (.refl db)
  | setDeploymentState id state =>
      exact .aside (.of_commit fun a s hb => Aside.of_update (fun _ _ => ⟨rfl, rfl, rfl, rfl⟩) hb)
  | setAssetState id state =>
      exact .aside (.of_commit fun a s hb => Aside.of_update (fun _ _ => ⟨rfl, rfl, rfl, rfl⟩) hb)
  | setBlobState id state =>
      exact .aside (.of_commit fun a s hb => Aside.of_update (fun _ _ => ⟨rfl, rfl, rfl, rfl⟩) hb)
  | queue c => exact .effects (c.effects json (fun _ _ => trivial) db)

/-! ## What every reachable database promises -/

theorem Aside.answerable (ha : Aside db db') (h : Answerable db) : Answerable db' where
  attended := h.attended.congr ha.attempts ha.jobs
  unwon := by
    intro id j hj
    rw [ha.jobs] at hj
    exact h.unwon id j hj
  legible := h.legible.congr ha.jobs ha.inputs

theorem Records.answerable {j : JobRow} (h : Answerable db) (hj : db.jobs.find? j.id = some j)
    (hopen : j.state = .queued ∨ j.state = .running) (hr : Records j db db') : Answerable db' := by
  obtain ⟨j', tj, te, hm, htj, -, rfl⟩ := hr
  have hnone : j.winningAttemptId = none :=
    h.unwon _ j hj (by rcases hopen with hs | hs <;> rw [hs] <;> simp)
  exact ⟨attended_mark h.attended hm hj htj rfl,
    unwon_put h.unwon htj (hm.id ▸ hj) fun _ => hm.winning.trans hnone,
    legible_put h.legible htj hj hm.submitted rfl⟩

theorem answerable_effects (h : Answerable db)
    (he : Relation.ReflTransGen (Effect json allowed) db db') : Answerable db' := by
  induction he with
  | refl => exact h
  | tail _ hs ih =>
      exact ⟨attended_effect ih.attended hs, unwon_effect ih.unwon hs, legible_effect ih.legible hs⟩

/-- A submission that passes its checks has texts for its namespace and key, and a mapping for
its request. -/
theorem admissible_legible {sub : Submission} {hash : String}
    (h : sub.admissible digest = .ok hash) : isBlank sub.namespaceId = false
      ∧ isBlank sub.idempotencyKey = false ∧ sub.request.isMapping = true := by
  obtain ⟨hns, hkey, -, -, canonical, hcanonical, -⟩ := requestHash_ok (admissible_ok h).1
  unfold canonicalRequest at hcanonical
  exact ⟨hns, hkey, by simpa using (raiseIf_bind_ok.mp hcanonical).1⟩

/-- A new job waits, without an attempt and without a winner. -/
theorem answerable_created (hjson : ∀ v, v.isMapping = true → (json.roundTrip v).isMapping = true)
    {jobId : Uuid} {sub : Submission} {hash : String} (h : Answerable db)
    (hadm : sub.admissible digest = .ok hash)
    (htj : db.jobs.insert? (submittedRow json jobId sub hash db.clock) = some db'.jobs)
    (hi : ∀ i ∈ db'.jobInputs.rows, i ∈ db.jobInputs.rows ∨ isBlank i.role = false)
    (ha : db'.attempts = db.attempts) : Answerable db' := by
  refine ⟨⟨?_, ?_, ?_⟩, ?_, ?_, ?_⟩
  · intro id x hx hs
    rcases Table.of_insert? htj hx with ⟨_, rfl⟩ | ⟨_, hx⟩
    · exact ⟨rfl, rfl⟩
    · exact h.attended.waiting id x hx hs
  · intro id x hx hs
    rw [ha]
    rcases Table.of_insert? htj hx with ⟨_, rfl⟩ | ⟨_, hx⟩
    · exact absurd hs (by simp [submittedRow])
    · exact h.attended.running id x hx hs
  · intro aid a haid hs
    rw [ha] at haid
    obtain ⟨x, hx, hrest⟩ := h.attended.active aid a haid hs
    exact ⟨x, Table.insert?_keep htj hx, hrest⟩
  · intro id x hx hs
    rcases Table.of_insert? htj hx with ⟨_, rfl⟩ | ⟨_, hx⟩
    · rfl
    · exact h.unwon id x hx hs
  · intro id x hx
    rcases Table.of_insert? htj hx with ⟨_, rfl⟩ | ⟨_, hx⟩
    · obtain ⟨hns, hkey, hmap⟩ := admissible_legible hadm
      exact ⟨hns, hkey, hjson _ hmap⟩
    · exact h.legible.jobs id x hx
  · intro i hmem
    rcases hi i hmem with hold | hrole
    · exact h.legible.inputs i hold
    · exact hrole

/-- **Every change keeps the promise.** -/
theorem answerable_change (hjson : ∀ v, v.isMapping = true → (json.roundTrip v).isMapping = true)
    {c : RepositoryCall} (h : Answerable db) (hc : Change digest json db c db') :
    Answerable db' := by
  cases hc with
  | aside ha => exact ha.answerable h
  | effects he => exact answerable_effects h he
  | created hadm htj hi ha hte => exact answerable_created hjson h hadm htj hi ha
  | cancelled hj hopen hr => exact hr.answerable h hj hopen

theorem answerable_empty : Answerable Db.empty where
  attended := ⟨nofun, nofun, nofun⟩
  unwon := nofun
  legible := ⟨nofun, nofun⟩

theorem answerable_reachable
    (hjson : ∀ v, v.isMapping = true → (json.roundTrip v).isMapping = true)
    (h : (repositorySystem digest json).Reachable db) : Answerable db := by
  refine h.invariant (I := Answerable) (fun s (hs : s = Db.empty) => hs ▸ answerable_empty) ?_
  rintro s _ _ hs ⟨c, rfl⟩
  exact answerable_change hjson hs (c.change hs)

end NanoAural
