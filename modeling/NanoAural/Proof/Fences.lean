import NanoAural.Durable.Calls

/-!
# What a fence establishes

Every operation that acts under a lease first reads the worker, job and attempt
rows the lease names, and each reads them a little differently. `Holds` is what
they all come to: the three rows agree that this lease is the current one.
-/

namespace NanoAural

open Relational

/-- The rows a lease names, when they agree that it is the current one of its job. -/
structure Holds (db : Db) (lease : Lease) (a : AttemptRow) (j : JobRow) (w : WorkerRow) :
    Prop where
  attempt : db.attempts.find? lease.attemptId = some a
  job : db.jobs.find? lease.jobId = some j
  worker : db.workers.find? lease.workerId = some w
  ofJob : a.jobId = lease.jobId
  ofWorker : a.workerId = lease.workerId
  ofEpoch : a.leaseEpoch = lease.leaseEpoch
  active : a.state = .active
  running : j.state = .running
  current : j.currentAttemptId = some a.id
  epoch : j.leaseEpoch = a.leaseEpoch
  busy : w.state = .busy

namespace Holds

variable {db : Db} {lease : Lease} {a : AttemptRow} {j : JobRow} {w : WorkerRow}

theorem attemptId (h : Holds db lease a j w) : a.id = lease.attemptId :=
  Table.key_of_find? h.attempt

theorem jobId (h : Holds db lease a j w) : j.id = lease.jobId := Table.key_of_find? h.job

theorem workerId (h : Holds db lease a j w) : w.id = lease.workerId :=
  Table.key_of_find? h.worker

/-- The rows are determined by the lease. -/
theorem unique {a' : AttemptRow} {j' : JobRow} {w' : WorkerRow} (h : Holds db lease a j w)
    (h' : Holds db lease a' j' w') : a = a' ∧ j = j' ∧ w = w' := by
  have ha := h.attempt.symm.trans h'.attempt
  have hj := h.job.symm.trans h'.job
  have hw := h.worker.symm.trans h'.worker
  injection ha with ha
  injection hj with hj
  injection hw with hw
  exact ⟨ha, hj, hw⟩

/-- Only the four identities of a lease count. -/
theorem congr {lease' : Lease} (h : Holds db lease a j w) (hj : lease.jobId = lease'.jobId)
    (ha : lease.attemptId = lease'.attemptId) (hw : lease.workerId = lease'.workerId)
    (he : lease.leaseEpoch = lease'.leaseEpoch) : Holds db lease' a j w :=
  ⟨ha ▸ h.attempt, hj ▸ h.job, hw ▸ h.worker, h.ofJob.trans hj, h.ofWorker.trans hw,
    h.ofEpoch.trans he, h.active, h.running, h.current, h.epoch, h.busy⟩

end Holds

/-- A lease is live: held, and unexpired by the database clock. -/
def Live (db : Db) (lease : Lease) : Prop :=
  ∃ a j w, Holds db lease a j w ∧ unexpired db a = true

/-- A lease is current: live, and its job carries no cancel request. -/
def Current (db : Db) (lease : Lease) : Prop :=
  ∃ a j w, Holds db lease a j w ∧ unexpired db a = true ∧ j.cancelRequestedAt = none

theorem Current.live {db : Db} {lease : Lease} (h : Current db lease) : Live db lease := by
  obtain ⟨a, j, w, hh, hu, _⟩ := h
  exact ⟨a, j, w, hh, hu⟩

/-! ## The shared join -/

theorem fenceHolds_iff {lease : Lease} {a : AttemptRow} {j : JobRow} {w : WorkerRow} :
    fenceHolds lease a j w = true ↔ a.jobId = lease.jobId ∧ a.workerId = lease.workerId
      ∧ a.leaseEpoch = lease.leaseEpoch ∧ a.state = .active ∧ j.state = .running
      ∧ j.currentAttemptId = some a.id ∧ j.leaseEpoch = a.leaseEpoch ∧ w.state = .busy := by
  simp [fenceHolds, and_assoc]

theorem fenceRows_eq {db : Db} {lease : Lease} {a : AttemptRow} {j : JobRow} {w : WorkerRow} :
    fenceRows db lease = some (a, j, w) ↔ Holds db lease a j w := by
  unfold fenceRows
  constructor
  · intro h
    split at h
    · rename_i a' j' w' ha hj hw
      split at h
      · rename_i hf
        injection h with h
        injection h with h₁ h
        injection h with h₂ h₃
        subst h₁; subst h₂; subst h₃
        obtain ⟨h₁, h₂, h₃, h₄, h₅, h₆, h₇, h₈⟩ := fenceHolds_iff.mp hf
        exact ⟨ha, hj, hw, h₁, h₂, h₃, h₄, h₅, h₆, h₇, h₈⟩
      · exact absurd h (by simp)
    · exact absurd h (by simp)
  · intro h
    rw [h.attempt, h.job, h.worker]
    exact if_pos (fenceHolds_iff.mpr
      ⟨h.ofJob, h.ofWorker, h.ofEpoch, h.active, h.running, h.current, h.epoch, h.busy⟩)

theorem isCurrent_iff {db : Db} {lease : Lease} : isCurrent db lease = true ↔ Current db lease := by
  unfold isCurrent Current
  rw [Option.any_eq_true]
  constructor
  · rintro ⟨⟨a, j, w⟩, hr, hc⟩
    rw [Bool.and_eq_true, Option.isNone_iff_eq_none] at hc
    exact ⟨a, j, w, fenceRows_eq.mp hr, hc.1, hc.2⟩
  · rintro ⟨a, j, w, hh, hu, hc⟩
    refine ⟨(a, j, w), fenceRows_eq.mpr hh, ?_⟩
    rw [Bool.and_eq_true, Option.isNone_iff_eq_none]
    exact ⟨hu, hc⟩

theorem live_iff {db : Db} {lease : Lease} :
    ((fenceRows db lease).any fun (a, _, _) => unexpired db a) = true ↔ Live db lease := by
  rw [Option.any_eq_true]
  constructor
  · rintro ⟨⟨a, j, w⟩, hr, hu⟩
    exact ⟨a, j, w, fenceRows_eq.mp hr, hu⟩
  · rintro ⟨a, j, w, hh, hu⟩
    exact ⟨(a, j, w), fenceRows_eq.mpr hh, hu⟩

instance (db : Db) (lease : Lease) : Decidable (Live db lease) := decidable_of_iff _ live_iff

instance (db : Db) (lease : Lease) : Decidable (Current db lease) :=
  decidable_of_iff _ isCurrent_iff

/-! ## Locking reads -/

/-- **`_lock_current` succeeds exactly on a held lease whose rows are free.** -/
theorem lockCurrent_ok {held : Locks} {lease : Lease} {ru : Bool} {s s' : Session Db Deferred}
    {a : AttemptRow} :
    lockCurrent held lease ru s = .ok (a, s') ↔ s = s' ∧ ∃ j w, Holds s.db lease a j w
      ∧ (ru = true → unexpired s.db a = true) ∧ held.workers lease.workerId = false
      ∧ held.jobs lease.jobId = false ∧ held.attempts lease.attemptId = false := by
  unfold lockCurrent
  simp only [select_bind, Tx.ensure_bind, Tx.orFail_bind, Tx.pure_eq, Prod.mk.injEq,
    Option.any_eq_true, Bool.and_eq_true, beq_iff_eq, Bool.not_eq_true',
    Option.filter_eq_some_iff, Bool.or_eq_true, id_eq]
  constructor
  · rintro ⟨⟨w, hw, _, hwl⟩, ⟨j, hj, _, hjl⟩, ⟨a', j', w'⟩, ⟨hr, hu, hal⟩, rfl, rfl⟩
    have hh := fenceRows_eq.mp hr
    refine ⟨rfl, j', w', hh, fun he => ?_, ?_, ?_, ?_⟩
    · rw [he] at hu
      simpa using hu
    · rw [← Table.key_of_find? hw]; exact hwl
    · rw [← Table.key_of_find? hj]; exact hjl
    · rw [← hh.attemptId]; exact hal
  · rintro ⟨rfl, j, w, hh, hu, hwl, hjl, hal⟩
    refine ⟨⟨w, hh.worker, hh.busy, ?_⟩, ⟨j, hh.job, hh.running, ?_⟩, (a, j, w),
      ⟨fenceRows_eq.mpr hh, ?_, ?_⟩, rfl, rfl⟩
    · rw [hh.workerId]; exact hwl
    · rw [hh.jobId]; exact hjl
    · cases ru with
      | true => exact Or.inr (hu rfl)
      | false => exact Or.inl rfl
    · rw [hh.attemptId]; exact hal

theorem assertCurrentRow_ok {lease : Lease} {s s' : Session Db Deferred} {u : Unit} :
    assertCurrentRow lease s = .ok (u, s') ↔ s = s' ∧ Current s.db lease := by
  unfold assertCurrentRow
  rw [select_bind, Tx.ensure_ok, isCurrent_iff, and_comm]

/-- **`_lock_lease` succeeds exactly on a current lease.** -/
theorem lockLease_ok {lease : Lease} {s s' : Session Db Deferred} {kinds : List ArtifactKind} :
    lockLease lease s = .ok (kinds, s') ↔ s = s' ∧ ∃ a j w, Holds s.db lease a j w
      ∧ unexpired s.db a = true ∧ j.cancelRequestedAt = none
      ∧ kinds = j.requiredArtifactKinds := by
  unfold lockLease
  simp only [select_bind, Tx.ensure_bind, Tx.orFail_bind, Tx.pure_eq, Prod.mk.injEq,
    Option.any_eq_true, Bool.and_eq_true, beq_iff_eq, Option.filter_eq_some_iff,
    Option.isNone_iff_eq_none, decide_eq_true_eq]
  constructor
  · rintro ⟨⟨w, hw, hb⟩, j, ⟨hj, ⟨⟨hrun, hcur⟩, hep⟩, hcan⟩,
      ⟨a, ha, ⟨⟨⟨haj, haw⟩, hae⟩, hact⟩, e, he, hlt⟩, rfl, rfl⟩
    have hid : a.id = lease.attemptId := Table.key_of_find? ha
    refine ⟨rfl, a, j, w, ⟨ha, hj, hw, haj, haw, hae, hact, hrun, hid ▸ hcur,
      hep.trans hae.symm, hb⟩, ?_, hcan, rfl⟩
    exact (Option.any_eq_true _ _).mpr ⟨e, he, decide_eq_true hlt⟩
  · rintro ⟨rfl, a, j, w, hh, hu, hcan, rfl⟩
    obtain ⟨e, he, hlt⟩ := (Option.any_eq_true _ _).mp hu
    exact ⟨⟨w, hh.worker, hh.busy⟩, j,
      ⟨hh.job, ⟨⟨hh.running, hh.attemptId ▸ hh.current⟩, hh.epoch.trans hh.ofEpoch⟩, hcan⟩,
      ⟨a, hh.attempt, ⟨⟨⟨hh.ofJob, hh.ofWorker⟩, hh.ofEpoch⟩, hh.active⟩, e, he,
        of_decide_eq_true hlt⟩, rfl, rfl⟩

/-! ## Publications and their lease -/

/-- The lease a publication was reserved under. -/
def PublicationRow.lease (p : PublicationRow) : Lease :=
  ⟨p.jobId, p.attemptId, p.workerId, p.leaseEpoch, 0⟩

/-- **The trigger's test is the fence's.** -/
theorem leaseIsCurrent_iff {db : Db} {p : PublicationRow} :
    leaseIsCurrent db p = true ↔ Current db p.lease := by
  unfold leaseIsCurrent
  constructor
  · intro h
    split at h
    · rename_i w j a hw hj ha
      simp only [Bool.and_eq_true, beq_iff_eq, Option.isNone_iff_eq_none] at h
      obtain ⟨⟨⟨⟨⟨⟨⟨⟨⟨hb, haj⟩, haw⟩, hae⟩, hact⟩, hu⟩, hrun⟩, hcur⟩, hep⟩, hcan⟩ := h
      exact ⟨a, j, w, ⟨ha, hj, hw, haj.trans (Table.key_of_find? hj),
        haw.trans (Table.key_of_find? hw), hae, hact, hrun, hcur, hep, hb⟩, hu, hcan⟩
    · exact absurd h (by simp)
  · rintro ⟨a, j, w, hh, hu, hcan⟩
    have ha : db.attempts.find? p.attemptId = some a := hh.attempt
    have hj : db.jobs.find? p.jobId = some j := hh.job
    have hw : db.workers.find? p.workerId = some w := hh.worker
    rw [hw, hj, ha]
    have haj : a.jobId = j.id := hh.ofJob.trans hh.jobId.symm
    have haw : a.workerId = w.id := hh.ofWorker.trans hh.workerId.symm
    have hae : a.leaseEpoch = p.leaseEpoch := hh.ofEpoch
    have hu' : (a.leaseExpiresAt.any fun x => decide (db.clock < x)) = true := hu
    simp only [Bool.and_eq_true, beq_iff_eq, Option.isNone_iff_eq_none]
    exact ⟨⟨⟨⟨⟨⟨⟨⟨⟨hh.busy, haj⟩, haw⟩, hae⟩, hh.active⟩, hu'⟩, hh.running⟩, hh.current⟩,
      hh.epoch⟩, hcan⟩

/-- A row and the lease that owns it are current together. -/
theorem current_lease_iff {db : Db} {p : PublicationRow} {lease : Lease}
    (h : p.ownedBy lease = true) : Current db p.lease ↔ Current db lease := by
  simp only [PublicationRow.ownedBy, Bool.and_eq_true, beq_iff_eq] at h
  obtain ⟨⟨⟨hj, ha⟩, hw⟩, he⟩ := h
  constructor
  · rintro ⟨a, j, w, hh, hu, hc⟩
    exact ⟨a, j, w, hh.congr hj ha hw he, hu, hc⟩
  · rintro ⟨a, j, w, hh, hu, hc⟩
    exact ⟨a, j, w, hh.congr hj.symm ha.symm hw.symm he.symm, hu, hc⟩

end NanoAural
