import NanoAural.Proof.MemoryEffects

/-!
# The invariant of the reference repository

Nine dictionaries that no transaction keeps in step. Three invariants, each about
the dictionaries it names and kept by every effect of a call: the life of jobs,
attempts and workers, the artifacts of the jobs that succeeded, and the names of
blobs and jobs.
-/

namespace NanoAural

open Relational Machine MemoryRepository

variable {digest : CanonicalRequest → String} {m m' : MemoryRepository} {ready : Uuid → Prop}

/-! ## Jobs, attempts and workers -/

/-- What ties jobs, attempts and workers together; `ready` are the workers registered READY. -/
structure Lifecycle (ready : Uuid → Prop) (m : MemoryRepository) : Prop where
  running : ∀ id j, m.jobs id = some j → (j.state = .running ↔ j.currentAttemptId.isSome = true)
  current : ∀ id j aid, m.jobs id = some j → j.currentAttemptId = some aid →
    ∃ a, m.attempts aid = some a ∧ a.jobId = id ∧ a.state = .active ∧ a.leaseEpoch = j.leaseEpoch
  active : ∀ aid a, m.attempts aid = some a → a.state = .active →
    ∃ j, m.jobs a.jobId = some j ∧ j.currentAttemptId = some aid
  listed : ∀ id aid, aid ∈ m.attemptsByJob id ↔ ∃ a, m.attempts aid = some a ∧ a.jobId = id
  numbered : ∀ id n aid, (m.attemptsByJob id)[n]? = some aid →
    ∃ a, m.attempts aid = some a ∧ a.attemptNo = n + 1
  distinct : ∀ id, (m.attemptsByJob id).Nodup
  epoch : ∀ id j, m.jobs id = some j → j.leaseEpoch = (m.attemptsByJob id).length
  unknown : ∀ id, m.jobs id = none → m.attemptsByJob id = []
  staff : ∀ aid a, m.attempts aid = some a → a.state = .active →
    ∃ w, m.workers a.workerId = some w ∧ w.state = .busy
  sole : ∀ aid a aid' a', m.attempts aid = some a → m.attempts aid' = some a' →
    a.state = .active → a'.state = .active → a.workerId = a'.workerId → aid = aid'
  known : ∀ id, ready id → (m.workers id).isSome = true
  busy : ∀ id w, ready id → m.workers id = some w → w.state = .busy →
    ∃ aid a, m.attempts aid = some a ∧ a.state = .active ∧ a.workerId = id

theorem Lifecycle.of_eq (h : Lifecycle ready m) (hj : m'.jobs = m.jobs)
    (ha : m'.attempts = m.attempts) (hl : m'.attemptsByJob = m.attemptsByJob)
    (hw : m'.workers = m.workers) : Lifecycle ready m' := by
  obtain ⟨_, _, _, _, _, _, _, _, _, _, _, _⟩ := h
  constructor <;> simp only [hj, ha, hl, hw] <;> assumption

theorem lifecycle_init : Lifecycle (fun _ => False) MemoryRepository.empty where
  running := nofun
  current := nofun
  active := nofun
  listed _ _ := ⟨nofun, fun ⟨_, h, _⟩ => (nomatch h)⟩
  numbered := nofun
  distinct _ := List.nodup_nil
  epoch := nofun
  unknown _ _ := rfl
  staff := nofun
  sole := nofun
  known _ h := h.elim
  busy _ _ h := h.elim

/-- A worker is registered under a new identifier. -/
theorem Lifecycle.registers (h : Lifecycle ready m) (w : WorkerRecord)
    (hfree : m.workers w.workerId = none) :
    Lifecycle (fun id => ready id ∨ (id = w.workerId ∧ w.state = .ready))
      { m with workers := Function.update m.workers w.workerId (some w) } := by
  have hother : ∀ id x, m.workers id = some x →
      Function.update m.workers w.workerId (some w) id = some x := by
    intro id x hx
    have hne : id ≠ w.workerId := fun heq => by
      rw [heq, hfree] at hx
      exact absurd hx (by simp)
    rw [Function.update_of_ne hne, hx]
  refine ⟨h.running, h.current, h.active, h.listed, h.numbered, h.distinct, h.epoch, h.unknown,
    fun aid a ha hactive => ?_, h.sole, fun id hid => ?_, fun id x hid hx hbusy => ?_⟩
  · obtain ⟨x, hx, hbusy⟩ := h.staff aid a ha hactive
    exact ⟨x, hother _ x hx, hbusy⟩
  · dsimp only
    rcases hid with hid | ⟨rfl, _⟩
    · obtain ⟨x, hx⟩ := Option.isSome_iff_exists.mp (h.known id hid)
      rw [hother id x hx]
      rfl
    · rw [Function.update_self]
      rfl
  · dsimp only at hx
    by_cases heq : id = w.workerId
    · subst heq
      rw [Function.update_self] at hx
      obtain rfl := Option.some.inj hx
      rcases hid with hid | ⟨_, hready⟩
      · have := h.known _ hid
        rw [hfree] at this
        exact absurd this (by simp)
      · exact absurd (hready.symm.trans hbusy) (by simp)
    · rw [Function.update_of_ne heq] at hx
      rcases hid with hid | ⟨hid, _⟩
      · exact h.busy id x hid hx hbusy
      · exact absurd hid heq

/-- A job that is new and waits, or an old one under another state that is not RUNNING. -/
theorem Lifecycle.writes (h : Lifecycle ready m) {id : Uuid} {j' : JobRecord}
    (hjobs : m'.jobs = Function.update m.jobs id (some j')) (ha : m'.attempts = m.attempts)
    (hl : m'.attemptsByJob = m.attemptsByJob) (hw : m'.workers = m.workers)
    (hcurrent : ∀ j, m.jobs id = some j → j'.currentAttemptId = j.currentAttemptId)
    (hnew : m.jobs id = none → j'.currentAttemptId = none)
    (hstate : j'.state = .running ↔ j'.currentAttemptId.isSome = true)
    (hepoch : j'.leaseEpoch = (m.attemptsByJob id).length) : Lifecycle ready m' := by
  -- the invariant is read at the written job and at all others
  have hother : ∀ x, x ≠ id → m'.jobs x = m.jobs x := fun x hx => by
    rw [hjobs, Function.update_of_ne hx]
  have hself : m'.jobs id = some j' := by rw [hjobs, Function.update_self]
  refine ⟨fun x j hj => ?_, fun x j aid hj haid => ?_, fun aid a haid hactive => ?_,
    by rw [ha, hl]; exact h.listed, by rw [ha, hl]; exact h.numbered, by rw [hl]; exact h.distinct,
    fun x j hj => ?_, fun x hx => ?_, by rw [ha, hw]; exact h.staff, by rw [ha]; exact h.sole,
    by rw [hw]; exact h.known, by rw [ha, hw]; exact h.busy⟩
  · by_cases hx : x = id
    · subst hx
      obtain rfl := Option.some.inj (hself.symm.trans hj)
      exact hstate
    · exact h.running x j (hother x hx ▸ hj)
  · by_cases hx : x = id
    · subst hx
      obtain rfl := Option.some.inj (hself.symm.trans hj)
      cases hold : m.jobs x with
      | none => exact absurd (hnew hold ▸ haid) (by simp)
      | some j =>
          obtain ⟨a, haid', howner, hactive, hepoch'⟩ :=
            h.current x j aid hold (hcurrent j hold ▸ haid)
          exact ⟨a, ha ▸ haid', howner, hactive,
            hepoch'.trans ((h.epoch x j hold).trans hepoch.symm)⟩
    · rw [ha]
      exact h.current x j aid (hother x hx ▸ hj) haid
  · rw [ha] at haid
    obtain ⟨j, hj, hcur⟩ := h.active aid a haid hactive
    by_cases hx : a.jobId = id
    · rw [hx] at hj ⊢
      exact ⟨j', hself, (hcurrent j hj).trans hcur⟩
    · exact ⟨j, (hother _ hx).trans hj, hcur⟩
  · rw [hl]
    by_cases hx : x = id
    · subst hx
      obtain rfl := Option.some.inj (hself.symm.trans hj)
      exact hepoch
    · exact h.epoch x j (hother x hx ▸ hj)
  · rw [hl]
    by_cases heq : x = id
    · subst heq
      exact absurd (hself.symm.trans hx) (by simp)
    · exact h.unknown x (hother x heq ▸ hx)

/-- A READY worker starts the next attempt of a waiting job. -/
theorem Lifecycle.starts (h : Lifecycle ready m) {attemptId jobId workerId : Uuid} {j : JobRecord}
    {w : WorkerRecord} {events : List JobEventRecord} (hs : Startable m jobId workerId j w)
    (hfree : m.attempts attemptId = none) :
    Lifecycle ready { m with
      attempts := Function.update m.attempts attemptId (some ⟨attemptId, jobId, workerId,
        (m.attemptsByJob jobId).length + 1, j.leaseEpoch + 1, .active⟩)
      attemptsByJob := Function.update m.attemptsByJob jobId
        (m.attemptsByJob jobId ++ [attemptId])
      jobs := Function.update m.jobs jobId (some { j with
        state := .running, currentAttemptId := some attemptId, leaseEpoch := j.leaseEpoch + 1 })
      workers := Function.update m.workers workerId (some { w with state := .busy })
      events := events } := by
  -- the new identifier is nobody else's
  have hold : ∀ aid a, m.attempts aid = some a → aid ≠ attemptId := fun aid a ha heq => by
    rw [heq, hfree] at ha
    exact absurd ha (by simp)
  -- a worker that is READY works on nothing, and a job without an attempt has none that is ACTIVE
  have hidle : ∀ aid a, m.attempts aid = some a → a.state = .active → a.workerId ≠ workerId := by
    intro aid a ha hactive heq
    obtain ⟨x, hx, hbusy⟩ := h.staff aid a ha hactive
    rw [heq, hs.worker] at hx
    obtain rfl := Option.some.inj hx
    exact absurd (hs.ready.symm.trans hbusy) (by simp)
  have hwaits : ∀ aid a, m.attempts aid = some a → a.state = .active → a.jobId ≠ jobId := by
    intro aid a ha hactive heq
    obtain ⟨x, hx, hcur⟩ := h.active aid a ha hactive
    rw [heq, hs.job] at hx
    obtain rfl := Option.some.inj hx
    exact absurd (hs.current.symm.trans hcur) (by simp)
  -- now every field: the rows just written by `update_self`, all others as before
  constructor
  case running =>
    intro id x hx
    dsimp only at hx
    by_cases heq : id = jobId
    · rw [heq, Function.update_self] at hx
      obtain rfl := Option.some.inj hx
      exact ⟨fun _ => rfl, fun _ => rfl⟩
    · rw [Function.update_of_ne heq] at hx
      exact h.running id x hx
  case current =>
    intro id x aid hx haid
    dsimp only at hx ⊢
    by_cases heq : id = jobId
    · rw [heq, Function.update_self] at hx
      obtain rfl := Option.some.inj hx
      obtain rfl := Option.some.inj haid
      exact ⟨_, Function.update_self .., heq.symm, rfl, rfl⟩
    · rw [Function.update_of_ne heq] at hx
      obtain ⟨a, ha, hrest⟩ := h.current id x aid hx haid
      exact ⟨a, (Function.update_of_ne (hold aid a ha) ..).trans ha, hrest⟩
  case active =>
    intro aid a ha hactive
    dsimp only at ha ⊢
    by_cases heq : aid = attemptId
    · rw [heq, Function.update_self] at ha
      obtain rfl := Option.some.inj ha
      exact ⟨_, Function.update_self .., congrArg some heq.symm⟩
    · rw [Function.update_of_ne heq] at ha
      obtain ⟨x, hx, hcur⟩ := h.active aid a ha hactive
      exact ⟨x, (Function.update_of_ne (hwaits aid a ha hactive) ..).trans hx, hcur⟩
  case listed =>
    intro id aid
    dsimp only
    by_cases hid : id = jobId
    · subst hid
      rw [Function.update_self, List.mem_append, List.mem_singleton, h.listed id aid]
      by_cases heq : aid = attemptId
      · subst heq
        rw [Function.update_self]
        exact ⟨fun _ => ⟨_, rfl, rfl⟩, fun _ => .inr rfl⟩
      · rw [Function.update_of_ne heq]
        exact ⟨fun hor => hor.resolve_right heq, .inl⟩
    · rw [Function.update_of_ne hid, h.listed id aid]
      by_cases heq : aid = attemptId
      · subst heq
        rw [Function.update_self, hfree]
        exact ⟨fun ⟨_, hx, _⟩ => (nomatch hx), fun ⟨_, hx, howner⟩ =>
          absurd (by rw [← howner, ← Option.some.inj hx]) hid⟩
      · rw [Function.update_of_ne heq]
  case numbered =>
    intro id n aid hget
    dsimp only at hget ⊢
    have hkeep : ∀ {n : Nat}, (m.attemptsByJob id)[n]? = some aid →
        ∃ a, Function.update m.attempts attemptId (some ⟨attemptId, jobId, workerId,
          (m.attemptsByJob jobId).length + 1, j.leaseEpoch + 1, .active⟩) aid = some a ∧
          a.attemptNo = n + 1 := by
      intro n hget
      obtain ⟨a, ha, hno⟩ := h.numbered id n aid hget
      exact ⟨a, (Function.update_of_ne (hold aid a ha) ..).trans ha, hno⟩
    by_cases hid : id = jobId
    · subst hid
      rw [Function.update_self] at hget
      -- an old place in the list, the new one at its end, or none
      rcases Nat.lt_trichotomy n (m.attemptsByJob id).length with hlt | heq | hgt
      · rw [List.getElem?_append_left hlt] at hget
        exact hkeep hget
      · subst heq
        rw [List.getElem?_append_right (Nat.le_refl _), Nat.sub_self] at hget
        obtain rfl := Option.some.inj hget
        exact ⟨_, Function.update_self .., rfl⟩
      · rw [List.getElem?_append_right (Nat.le_of_lt hgt)] at hget
        have hlen : n - (m.attemptsByJob id).length ≠ 0 := by omega
        obtain ⟨k, hk⟩ := Nat.exists_eq_succ_of_ne_zero hlen
        rw [hk] at hget
        exact absurd hget (by simp)
    · rw [Function.update_of_ne hid] at hget
      exact hkeep hget
  case distinct =>
    intro id
    dsimp only
    by_cases hid : id = jobId
    · subst hid
      rw [Function.update_self]
      refine List.Nodup.append (h.distinct id) (List.nodup_singleton _) fun aid hmem hone => ?_
      obtain ⟨a, ha, _⟩ := (h.listed id aid).mp hmem
      exact hold aid a ha (List.mem_singleton.mp hone)
    · rw [Function.update_of_ne hid]
      exact h.distinct id
  case epoch =>
    intro id x hx
    dsimp only at hx ⊢
    by_cases hid : id = jobId
    · subst hid
      rw [Function.update_self] at hx ⊢
      obtain rfl := Option.some.inj hx
      rw [List.length_append, List.length_singleton, h.epoch id j hs.job]
    · rw [Function.update_of_ne hid] at hx ⊢
      exact h.epoch id x hx
  case unknown =>
    intro id hx
    dsimp only at hx ⊢
    by_cases hid : id = jobId
    · subst hid
      rw [Function.update_self] at hx
      exact absurd hx (by simp)
    · rw [Function.update_of_ne hid] at hx ⊢
      exact h.unknown id hx
  case staff =>
    intro aid a ha hactive
    dsimp only at ha ⊢
    by_cases heq : aid = attemptId
    · rw [heq, Function.update_self] at ha
      obtain rfl := Option.some.inj ha
      exact ⟨_, Function.update_self .., rfl⟩
    · rw [Function.update_of_ne heq] at ha
      obtain ⟨x, hx, hbusy⟩ := h.staff aid a ha hactive
      exact ⟨x, (Function.update_of_ne (hidle aid a ha hactive) ..).trans hx, hbusy⟩
  case sole =>
    intro aid a aid' a' ha ha' hactive hactive' hsame
    dsimp only at ha ha'
    by_cases heq : aid = attemptId
    · by_cases heq' : aid' = attemptId
      · exact heq.trans heq'.symm
      · rw [heq, Function.update_self] at ha
        obtain rfl := Option.some.inj ha
        rw [Function.update_of_ne heq'] at ha'
        exact absurd hsame.symm (hidle aid' a' ha' hactive')
    · rw [Function.update_of_ne heq] at ha
      by_cases heq' : aid' = attemptId
      · rw [heq', Function.update_self] at ha'
        obtain rfl := Option.some.inj ha'
        exact absurd hsame (hidle aid a ha hactive)
      · rw [Function.update_of_ne heq'] at ha'
        exact h.sole aid a aid' a' ha ha' hactive hactive' hsame
  case known =>
    intro id hid
    dsimp only
    by_cases heq : id = workerId
    · rw [heq, Function.update_self]
      rfl
    · rw [Function.update_of_ne heq]
      exact h.known id hid
  case busy =>
    intro id x hid hx hbusy
    dsimp only at hx ⊢
    by_cases heq : id = workerId
    · exact ⟨attemptId, _, Function.update_self .., rfl, heq.symm⟩
    · rw [Function.update_of_ne heq] at hx
      obtain ⟨aid, a, ha, hrest⟩ := h.busy id x hid hx hbusy
      exact ⟨aid, a, (Function.update_of_ne (hold aid a ha) ..).trans ha, hrest⟩

/-- A current attempt ends, its worker is READY again, and its job is no longer RUNNING. -/
theorem Lifecycle.ends (h : Lifecycle ready m) {attemptId jobId : Uuid} {j updated : JobRecord}
    {a : AttemptRecord} {w : WorkerRecord} {terminal : AttemptState} {events : List JobEventRecord}
    (hactive : ActiveAttempt m jobId attemptId j a)
    (hterminal : terminal ≠ .active) (hstate : updated.state ≠ .running)
    (hcurrent : updated.currentAttemptId = none) (hepoch : updated.leaseEpoch = j.leaseEpoch) :
    Lifecycle ready (m.ended jobId attemptId updated a w terminal events) := by
  unfold MemoryRepository.ended
  -- the attempt of another job is another attempt, and has another worker
  have hothers : ∀ aid x, m.attempts aid = some x → x.state = .active → aid ≠ attemptId →
      x.jobId ≠ jobId ∧ x.workerId ≠ a.workerId := by
    intro aid x hx hxactive hne
    refine ⟨fun heq => ?_, fun heq => ?_⟩
    · obtain ⟨y, hy, hcur⟩ := h.active aid x hx hxactive
      rw [heq, hactive.job] at hy
      obtain rfl := Option.some.inj hy
      exact hne (Option.some.inj (hcur.symm.trans hactive.current))
    · exact hne (h.sole aid x attemptId a hx hactive.attempt hxactive hactive.active heq)
  constructor
  case running =>
    intro id x hx
    dsimp only at hx
    by_cases hid : id = jobId
    · rw [hid, Function.update_self] at hx
      obtain rfl := Option.some.inj hx
      rw [hcurrent]
      exact ⟨fun hr => absurd hr hstate, nofun⟩
    · rw [Function.update_of_ne hid] at hx
      exact h.running id x hx
  case current =>
    intro id x aid hx haid
    dsimp only at hx ⊢
    by_cases hid : id = jobId
    · rw [hid, Function.update_self] at hx
      obtain rfl := Option.some.inj hx
      exact absurd (hcurrent.symm.trans haid) (by simp)
    · rw [Function.update_of_ne hid] at hx
      obtain ⟨y, hy, howner, hrest⟩ := h.current id x aid hx haid
      have hne : aid ≠ attemptId := fun heq => by
        rw [heq, hactive.attempt] at hy
        obtain rfl := Option.some.inj hy
        exact hid (howner.symm.trans hactive.owner)
      exact ⟨y, (Function.update_of_ne hne ..).trans hy, howner, hrest⟩
  case active =>
    intro aid x hx hxactive
    dsimp only at hx ⊢
    by_cases heq : aid = attemptId
    · rw [heq, Function.update_self] at hx
      obtain rfl := Option.some.inj hx
      exact absurd hxactive hterminal
    · rw [Function.update_of_ne heq] at hx
      obtain ⟨y, hy, hcur⟩ := h.active aid x hx hxactive
      exact ⟨y, (Function.update_of_ne (hothers aid x hx hxactive heq).1 ..).trans hy, hcur⟩
  case listed =>
    intro id aid
    dsimp only
    rw [h.listed id aid]
    by_cases heq : aid = attemptId
    · subst heq
      rw [Function.update_self, hactive.attempt]
      constructor
      · rintro ⟨x, hx, howner⟩
        obtain rfl := Option.some.inj hx
        exact ⟨_, rfl, howner⟩
      · rintro ⟨x, hx, howner⟩
        obtain rfl := Option.some.inj hx
        exact ⟨a, rfl, howner⟩
    · rw [Function.update_of_ne heq]
  case numbered =>
    intro id n aid hget
    dsimp only at hget ⊢
    obtain ⟨x, hx, hno⟩ := h.numbered id n aid hget
    by_cases heq : aid = attemptId
    · subst heq
      rw [hactive.attempt] at hx
      obtain rfl := Option.some.inj hx
      exact ⟨_, Function.update_self .., hno⟩
    · exact ⟨x, (Function.update_of_ne heq ..).trans hx, hno⟩
  case distinct => exact h.distinct
  case epoch =>
    intro id x hx
    dsimp only at hx
    by_cases hid : id = jobId
    · subst hid
      rw [Function.update_self] at hx
      obtain rfl := Option.some.inj hx
      exact hepoch.trans (h.epoch id j hactive.job)
    · rw [Function.update_of_ne hid] at hx
      exact h.epoch id x hx
  case unknown =>
    intro id hx
    dsimp only at hx
    by_cases hid : id = jobId
    · rw [hid, Function.update_self] at hx
      exact absurd hx (by simp)
    · rw [Function.update_of_ne hid] at hx
      exact h.unknown id hx
  case staff =>
    intro aid x hx hxactive
    dsimp only at hx ⊢
    by_cases heq : aid = attemptId
    · rw [heq, Function.update_self] at hx
      obtain rfl := Option.some.inj hx
      exact absurd hxactive hterminal
    · rw [Function.update_of_ne heq] at hx
      obtain ⟨y, hy, hbusy⟩ := h.staff aid x hx hxactive
      exact ⟨y, (Function.update_of_ne (hothers aid x hx hxactive heq).2 ..).trans hy, hbusy⟩
  case sole =>
    intro aid x aid' x' hx hx' hxactive hxactive' hsame
    dsimp only at hx hx'
    by_cases heq : aid = attemptId
    · rw [heq, Function.update_self] at hx
      obtain rfl := Option.some.inj hx
      exact absurd hxactive hterminal
    · by_cases heq' : aid' = attemptId
      · rw [heq', Function.update_self] at hx'
        obtain rfl := Option.some.inj hx'
        exact absurd hxactive' hterminal
      · rw [Function.update_of_ne heq] at hx
        rw [Function.update_of_ne heq'] at hx'
        exact h.sole aid x aid' x' hx hx' hxactive hxactive' hsame
  case known =>
    intro id hid
    dsimp only
    by_cases heq : id = a.workerId
    · rw [heq, Function.update_self]
      rfl
    · rw [Function.update_of_ne heq]
      exact h.known id hid
  case busy =>
    intro id x hid hx hbusy
    dsimp only at hx ⊢
    by_cases heq : id = a.workerId
    · rw [heq, Function.update_self] at hx
      obtain rfl := Option.some.inj hx
      exact absurd hbusy (by simp)
    · rw [Function.update_of_ne heq] at hx
      obtain ⟨aid, y, hy, hyactive, hyworker⟩ := h.busy id x hid hx hbusy
      have hne : aid ≠ attemptId := fun haid => by
        rw [haid, hactive.attempt] at hy
        obtain rfl := Option.some.inj hy
        exact heq hyworker.symm
      exact ⟨aid, y, (Function.update_of_ne hne ..).trans hy, hyactive, hyworker⟩

/-! ## Artifacts -/

/-- The artifacts are those of the winning attempts. -/
structure Shelf (m : MemoryRepository) : Prop where
  won : ∀ id j, m.jobs id = some j → j.state = .succeeded →
    ∃ aid a, j.winningAttemptId = some aid ∧ m.attempts aid = some a ∧ a.jobId = id ∧
      a.state = .succeeded ∧
      ∀ kind ∈ j.requiredArtifactKinds, (m.artifactByAttemptKind (aid, kind)).isSome = true
  stored : ∀ rid r, m.artifacts rid = some r →
    (∃ j, m.jobs r.jobId = some j ∧ j.state = .succeeded ∧
      j.winningAttemptId = some r.attemptId) ∧ r.state = .ready ∧
    (∃ b, m.blobs r.blobId = some b ∧ b.state = .verified) ∧
    m.artifactByAttemptKind (r.attemptId, r.kind) = some rid
  indexed : ∀ aid kind rid, m.artifactByAttemptKind (aid, kind) = some rid →
    ∃ r, m.artifacts rid = some r ∧ r.attemptId = aid ∧ r.kind = kind

theorem shelf_init : Shelf MemoryRepository.empty := ⟨nofun, nofun, nofun⟩

/-- Blobs are only added. -/
theorem Shelf.of_blobs (h : Shelf m) (hj : m'.jobs = m.jobs) (ha : m'.attempts = m.attempts)
    (hr : m'.artifacts = m.artifacts) (hk : m'.artifactByAttemptKind = m.artifactByAttemptKind)
    (hb : ∀ id b, m.blobs id = some b → m'.blobs id = some b) : Shelf m' := by
  refine ⟨by rw [hj, ha, hk]; exact h.won, fun rid r hrid => ?_, by rw [hr, hk]; exact h.indexed⟩
  rw [hr] at hrid
  obtain ⟨hjob, hready, ⟨b, hbid, hverified⟩, hindex⟩ := h.stored rid r hrid
  exact ⟨hj ▸ hjob, hready, ⟨b, hb _ b hbid, hverified⟩, hk ▸ hindex⟩

/-- A job that has not succeeded is written and still has not. -/
theorem Shelf.of_unfinished (h : Shelf m) {id : Uuid} {j' : JobRecord}
    (hjobs : m'.jobs = Function.update m.jobs id (some j'))
    (hold : ∀ j, m.jobs id = some j → j.state ≠ .succeeded) (hnew : j'.state ≠ .succeeded)
    (ha : ∀ aid a, m.attempts aid = some a → a.state = .succeeded → m'.attempts aid = some a)
    (hr : m'.artifacts = m.artifacts) (hk : m'.artifactByAttemptKind = m.artifactByAttemptKind)
    (hb : m'.blobs = m.blobs) : Shelf m' := by
  refine ⟨fun x j hj hsucceeded => ?_, fun rid r hrid => ?_, by rw [hr, hk]; exact h.indexed⟩
  · rw [hjobs] at hj
    by_cases hx : x = id
    · rw [hx, Function.update_self] at hj
      obtain rfl := Option.some.inj hj
      exact absurd hsucceeded hnew
    · rw [Function.update_of_ne hx] at hj
      obtain ⟨aid, a, hwon, haid, howner, hstate, hkinds⟩ := h.won x j hj hsucceeded
      exact ⟨aid, a, hwon, ha aid a haid hstate, howner, hstate, by rwa [hk]⟩
  · rw [hr] at hrid
    obtain ⟨⟨j, hj, hsucceeded, hwon⟩, hrest⟩ := h.stored rid r hrid
    refine ⟨⟨j, ?_, hsucceeded, hwon⟩, by rwa [hk, hb]⟩
    have hne : r.jobId ≠ id := fun heq => hold j (heq ▸ hj) hsucceeded
    rw [hjobs, Function.update_of_ne hne, hj]

/-- What the loop of a publication that returns has stored. -/
theorem storeArtifacts_stored {attemptId : Uuid} (proposed : List ArtifactRecord) :
    ∀ (m m₁ : MemoryRepository), storeArtifacts attemptId proposed m = (.ok (), m₁) →
      (proposed.map ArtifactRecord.kind).Nodup →
      (∃ as ks, m₁ = { m with artifacts := as, artifactByAttemptKind := ks }) ∧
      (∀ rid r, m₁.artifacts rid = some r →
        m.artifacts rid = some r ∨ (r ∈ proposed ∧ r.artifactId = rid)) ∧
      (∀ rid r, m.artifacts rid = some r → m₁.artifacts rid = some r) ∧
      (∀ a ∈ proposed, m₁.artifacts a.artifactId = some a) ∧
      (∀ a ∈ proposed, m₁.artifactByAttemptKind (attemptId, a.kind) = some a.artifactId) ∧
      ∀ aid kind, aid ≠ attemptId ∨ kind ∉ proposed.map ArtifactRecord.kind →
        m₁.artifactByAttemptKind (aid, kind) = m.artifactByAttemptKind (aid, kind) := by
  induction proposed with
  | nil =>
      intro m m₁ h _
      obtain rfl : m = m₁ := congrArg Prod.snd h
      exact ⟨⟨m.artifacts, m.artifactByAttemptKind, rfl⟩, fun _ _ h => .inl h, fun _ _ h => h,
        nofun, nofun, fun _ _ _ => rfl⟩
  | cons artifact rest ih =>
      intro m m₁ h hnodup
      rw [List.map_cons, List.nodup_cons] at hnodup
      unfold storeArtifacts at h
      split at h
      · cases h
      · rename_i hfree
        rw [Bool.not_eq_true, Option.isSome_eq_false_iff, Option.isNone_iff_eq_none] at hfree
        obtain ⟨⟨as, ks, rfl⟩, hfrom, hkept, hstored, hindex, hothers⟩ := ih _ _ h hnodup.2
        dsimp only at hfrom hkept hstored hindex hothers ⊢
        -- the rest takes no place that is taken already
        have hself := hkept artifact.artifactId artifact (Function.update_self ..)
        refine ⟨⟨as, ks, rfl⟩, fun rid r hr => ?_, fun rid r hr => ?_, fun a ha => ?_,
          fun a ha => ?_, fun aid kind hne => ?_⟩
        · rcases hfrom rid r hr with hold | ⟨hmem, hid⟩
          · by_cases heq : rid = artifact.artifactId
            · rw [heq, Function.update_self] at hold
              obtain rfl := Option.some.inj hold
              exact .inr ⟨List.mem_cons_self, heq.symm⟩
            · rw [Function.update_of_ne heq] at hold
              exact .inl hold
          · exact .inr ⟨List.mem_cons_of_mem _ hmem, hid⟩
        · refine hkept rid r ?_
          have hne : rid ≠ artifact.artifactId := fun heq => by
            rw [heq, hfree] at hr
            exact absurd hr (by simp)
          rw [Function.update_of_ne hne, hr]
        · rcases List.mem_cons.mp ha with rfl | ha
          · exact hself
          · exact hstored a ha
        · rcases List.mem_cons.mp ha with rfl | ha
          -- the kinds differ, so the rest does not write this place of the index
          · rw [hothers attemptId a.kind (.inr hnodup.1), Function.update_self]
          · exact hindex a ha
        · have hrest : aid ≠ attemptId ∨ kind ∉ rest.map ArtifactRecord.kind :=
            hne.imp_right fun hnot hmem => hnot (List.mem_cons_of_mem _ hmem)
          rw [hothers aid kind hrest]
          have hkey : (aid, kind) ≠ (attemptId, artifact.kind) := fun heq => by
            obtain ⟨haid, hkind⟩ := Prod.mk.inj heq
            rcases hne with hne | hne
            · exact hne haid
            · exact hne (hkind ▸ List.mem_cons_self)
          exact Function.update_of_ne hkey ..

/-- A publication puts its artifacts on the shelf of the job it wins. -/
theorem Shelf.publishes (h : Shelf m) {attemptId jobId : Uuid} {proposed : List ArtifactRecord}
    {j : JobRecord} {a : AttemptRecord} {w : WorkerRecord} {m₁ : MemoryRepository}
    {events : List JobEventRecord} (hc : SuccessChecked m jobId attemptId proposed j a)
    (hstored : storeArtifacts attemptId proposed m = (.ok (), m₁)) :
    Shelf (m₁.ended jobId attemptId (j.win attemptId) a w .succeeded events) := by
  obtain ⟨⟨as, ks, rfl⟩, hfrom, hkept, hput, hindex, hothers⟩ :=
    storeArtifacts_stored proposed m m₁ hstored hc.kinds
  unfold MemoryRepository.ended
  dsimp only at hfrom hkept hput hindex hothers
  -- no record lies on this job yet: what is stored belongs to ended jobs
  have hrunning : ∀ x, m.jobs jobId = some x → x.state ≠ .succeeded := fun x hx heq => by
    rw [hc.active.job] at hx
    obtain rfl := Option.some.inj hx
    exact absurd (hc.active.running.symm.trans heq) (by simp)
  refine ⟨fun id x hx hsucceeded => ?_, fun rid r hr => ?_, fun aid kind rid hrid => ?_⟩
  · dsimp only at hx ⊢
    by_cases hid : id = jobId
    · subst hid
      rw [Function.update_self] at hx
      obtain rfl := Option.some.inj hx
      refine ⟨attemptId, _, rfl, Function.update_self .., hc.active.owner, rfl,
        fun kind hkind => ?_⟩
      obtain ⟨r, hr, rfl⟩ := List.mem_map.mp (hc.required kind hkind)
      rw [hindex r hr]
      rfl
    · rw [Function.update_of_ne hid] at hx
      obtain ⟨aid, y, hwon, hy, howner, hstate, hkinds⟩ := h.won id x hx hsucceeded
      have hne : aid ≠ attemptId := fun heq => by
        rw [heq, hc.active.attempt] at hy
        obtain rfl := Option.some.inj hy
        exact absurd (hc.active.active.symm.trans hstate) (by simp)
      refine ⟨aid, y, hwon, (Function.update_of_ne hne ..).trans hy, howner, hstate,
        fun kind hkind => ?_⟩
      rw [hothers aid kind (.inl hne)]
      exact hkinds kind hkind
  · dsimp only at hr ⊢
    rcases hfrom rid r hr with hold | ⟨hmem, rfl⟩
    · obtain ⟨⟨x, hx, hsucceeded, hwon⟩, hready, hblob, hidx⟩ := h.stored rid r hold
      have hne : r.jobId ≠ jobId := fun heq => hrunning x (heq ▸ hx) hsucceeded
      refine ⟨⟨x, (Function.update_of_ne hne ..).trans hx, hsucceeded, hwon⟩, hready, hblob, ?_⟩
      -- an old record keeps its place, since its kind was free for none of the new ones
      by_cases haid : r.attemptId = attemptId
      · refine (hothers r.attemptId r.kind (.inr fun hmem => ?_)).trans hidx
        obtain ⟨p, hp, hkind⟩ := List.mem_map.mp hmem
        have hnone := (hc.artifacts p hp).2.2.2.2
        rw [hkind, ← haid, hidx] at hnone
        exact absurd hnone (by simp)
      · exact (hothers r.attemptId r.kind (.inl haid)).trans hidx
    · obtain ⟨hjob, hattempt, hready, hblob, _⟩ := hc.artifacts r hmem
      refine ⟨⟨j.win attemptId, ?_, rfl, congrArg some hattempt.symm⟩, hready, hblob, ?_⟩
      · rw [hjob, Function.update_self]
      · rw [hattempt]
        exact hindex r hmem
  · dsimp only at hrid ⊢
    by_cases hnew : aid = attemptId ∧ kind ∈ proposed.map ArtifactRecord.kind
    · obtain ⟨rfl, hmem⟩ := hnew
      obtain ⟨r, hr, rfl⟩ := List.mem_map.mp hmem
      rw [hindex r hr] at hrid
      obtain rfl := Option.some.inj hrid
      exact ⟨r, hput r hr, (hc.artifacts r hr).2.1, rfl⟩
    · rw [hothers aid kind (by
        by_cases haid : aid = attemptId
        · exact .inr fun hmem => hnew ⟨haid, hmem⟩
        · exact .inl haid)] at hrid
      obtain ⟨r, hr, hrest⟩ := h.indexed aid kind rid hrid
      exact ⟨r, hkept rid r hr, hrest⟩

/-! ## Names -/

/-- A digest names one blob, and a key of a namespace one job. -/
structure Naming (m : MemoryRepository) : Prop where
  blobs : ∀ sha id, m.blobByDigest sha = some id ↔ ∃ b, m.blobs id = some b ∧ b.sha256 = sha
  jobs : ∀ key id, m.jobByIdempotency key = some id ↔
    ∃ j, m.jobs id = some j ∧ (j.namespaceId, j.idempotencyKey) = key

theorem naming_init : Naming MemoryRepository.empty :=
  ⟨fun _ _ => ⟨nofun, fun ⟨_, h, _⟩ => (nomatch h)⟩,
    fun _ _ => ⟨nofun, fun ⟨_, h, _⟩ => (nomatch h)⟩⟩

theorem Naming.of_eq (h : Naming m) (hb : m'.blobs = m.blobs)
    (hd : m'.blobByDigest = m.blobByDigest) (hj : m'.jobs = m.jobs)
    (hk : m'.jobByIdempotency = m.jobByIdempotency) : Naming m' :=
  ⟨by rw [hb, hd]; exact h.blobs, by rw [hj, hk]; exact h.jobs⟩

/-- An index by a property of the entries, and an entry under a new identifier and a new value of
the property. -/
theorem index_insert {κ α β : Type} [DecidableEq κ] [DecidableEq α] {index : κ → Option α}
    {entries : α → Option β} {name : β → κ} {id : α} {b : β}
    (h : ∀ k x, index k = some x ↔ ∃ y, entries x = some y ∧ name y = k)
    (hid : entries id = none) (hname : index (name b) = none) (k : κ) (x : α) :
    Function.update index (name b) (some id) k = some x ↔
      ∃ y, Function.update entries id (some b) x = some y ∧ name y = k := by
  by_cases hk : k = name b
  · subst hk
    rw [Function.update_self]
    constructor
    · intro hx
      obtain rfl := Option.some.inj hx
      exact ⟨b, Function.update_self .., rfl⟩
    · rintro ⟨y, hy, hyname⟩
      by_cases hx : x = id
      · rw [hx]
      · rw [Function.update_of_ne hx] at hy
        have := (h _ x).mpr ⟨y, hy, hyname⟩
        rw [hname] at this
        exact absurd this (by simp)
  · rw [Function.update_of_ne hk, h k x]
    by_cases hx : x = id
    · subst hx
      rw [Function.update_self, hid]
      refine ⟨fun ⟨_, hy, _⟩ => (nomatch hy), fun ⟨y, hy, hyname⟩ => ?_⟩
      rw [← Option.some.inj hy] at hyname
      exact absurd hyname.symm hk
    · rw [Function.update_of_ne hx]

/-- A job is written under its own key. -/
theorem Naming.of_rewrite (h : Naming m) {id : Uuid} {j j' : JobRecord} (hold : m.jobs id = some j)
    (hjobs : m'.jobs = Function.update m.jobs id (some j'))
    (hkey : (j'.namespaceId, j'.idempotencyKey) = (j.namespaceId, j.idempotencyKey))
    (hb : m'.blobs = m.blobs) (hd : m'.blobByDigest = m.blobByDigest)
    (hk : m'.jobByIdempotency = m.jobByIdempotency) : Naming m' := by
  refine ⟨by rw [hb, hd]; exact h.blobs, fun key x => ?_⟩
  rw [hk, hjobs, h.jobs key x]
  by_cases hx : x = id
  · subst hx
    rw [Function.update_self, hold]
    constructor
    · rintro ⟨y, hy, rfl⟩
      rw [← Option.some.inj hy]
      exact ⟨j', rfl, hkey⟩
    · rintro ⟨y, hy, rfl⟩
      rw [← Option.some.inj hy]
      exact ⟨j, rfl, hkey.symm⟩
  · rw [Function.update_of_ne hx]

/-! ## Runs whose calls return -/

/-- A method of the repository, and not a change from outside. -/
def MemoryCall.IsMethod : MemoryCall → Prop
  | .setDeployment _ _ | .setAsset _ _ | .setBlob _ _ => False
  | _ => True

/-- The identifier a call draws is in no use. -/
def MemoryCall.Draws (m : MemoryRepository) : MemoryCall → Prop
  | .createJob jobId _ => m.jobs jobId = none
  | .startAttempt attemptId _ _ => m.attempts attemptId = none
  | _ => True

/-- What the calls make of an empty repository, if each of them returns. -/
inductive ReturnsTo (digest : CanonicalRequest → String) :
    List MemoryCall → MemoryRepository → Prop where
  | empty : ReturnsTo digest [] MemoryRepository.empty
  | call {calls : List MemoryCall} {m : MemoryRepository} (c : MemoryCall)
      (h : ReturnsTo digest calls m) (hmethod : c.IsMethod) (hfresh : c.Draws m)
      (hreturns : (c.result digest m).1 = .ok ()) : ReturnsTo digest (calls ++ [c]) (c.run digest m)

/-- A worker the calls have registered READY. -/
def RegisteredReady (calls : List MemoryCall) (id : Uuid) : Prop :=
  ∃ w, .registerWorker w ∈ calls ∧ w.workerId = id ∧ w.state = .ready

theorem registeredReady_append {calls : List MemoryCall} {c : MemoryCall} {id : Uuid} :
    RegisteredReady (calls ++ [c]) id ↔ RegisteredReady calls id ∨
      ∃ w, c = .registerWorker w ∧ w.workerId = id ∧ w.state = .ready := by
  unfold RegisteredReady
  constructor
  · rintro ⟨w, hmem, hw⟩
    rcases List.mem_append.mp hmem with hmem | hmem
    · exact .inl ⟨w, hmem, hw⟩
    · exact .inr ⟨w, (List.mem_singleton.mp hmem).symm, hw⟩
  · rintro (⟨w, hmem, hw⟩ | ⟨w, rfl, hw⟩)
    · exact ⟨w, List.mem_append_left _ hmem, hw⟩
    · exact ⟨w, List.mem_append_right _ (List.mem_singleton.mpr rfl), hw⟩

theorem Ending.terminal_ended (how : Ending) : how.terminal ≠ .active := by
  cases how <;> exact nofun

theorem Ending.close_stopped (how : Ending) {j : JobRecord} : (how.close j).state ≠ .running := by
  cases how <;> exact nofun

theorem Ending.close_unwon (how : Ending) {j : JobRecord} : (how.close j).state ≠ .succeeded := by
  cases how <;> exact nofun

theorem Ending.close_current (how : Ending) {j : JobRecord} :
    (how.close j).currentAttemptId = none := by
  cases how <;> rfl

theorem Ending.close_epoch (how : Ending) {j : JobRecord} :
    (how.close j).leaseEpoch = j.leaseEpoch := by
  cases how <;> rfl

theorem Ending.close_key (how : Ending) {j : JobRecord} :
    ((how.close j).namespaceId, (how.close j).idempotencyKey)
      = (j.namespaceId, j.idempotencyKey) := by
  cases how <;> rfl

/-- A job whose attempt ends is none of those the shelf is about. -/
theorem ActiveAttempt.unfinished {jobId attemptId : Uuid} {j : JobRecord} {a : AttemptRecord}
    (h : ActiveAttempt m jobId attemptId j a) (x : JobRecord) (hx : m.jobs jobId = some x) :
    x.state ≠ .succeeded := by
  rw [h.job] at hx
  obtain rfl := Option.some.inj hx
  rw [h.running]
  exact nofun

/-- The four invariants together. -/
structure Consistent (ready : Uuid → Prop) (m : MemoryRepository) : Prop where
  lifecycle : Lifecycle ready m
  shelf : Shelf m
  naming : Naming m
  staffed : Staffed m

theorem Lifecycle.of_ready {ready' : Uuid → Prop} (h : Lifecycle ready m)
    (hr : ∀ id, ready' id → ready id) : Lifecycle ready' m :=
  { h with
    known := fun id hid => h.known id (hr id hid)
    busy := fun id w hid => h.busy id w (hr id hid) }

/-- A registration that returns is under a new identifier. -/
theorem registerWorker_returns {w : WorkerRecord}
    (h : ((MemoryCall.registerWorker w).result digest m).1 = .ok ()) :
    m.workers w.workerId = none ∧ (MemoryCall.registerWorker w).run digest m =
      { m with workers := Function.update m.workers w.workerId (some w) } := by
  change (m.registerWorker w).1.map (fun _ => ()) = .ok () at h
  change _ ∧ (m.registerWorker w).2 = _
  unfold MemoryRepository.registerWorker at h ⊢
  cases hd : m.requireDeployment w.deploymentId with
  | error e =>
      rw [hd] at h
      cases h
  | ok d =>
      rw [hd] at h
      dsimp only at h ⊢
      by_cases hfree : (m.workers w.workerId).isSome = true
      · rw [if_pos hfree] at h
        cases h
      · rw [if_neg hfree]
        exact ⟨by simpa using hfree, rfl⟩

/-- A call that registers no worker keeps the invariants, if it returns. -/
theorem consistent_call {c : MemoryCall} (h : Consistent ready m) (hmethod : c.IsMethod)
    (hfresh : c.Draws m) (hreturns : (c.result digest m).1 = .ok ())
    (hother : ∀ w, c ≠ .registerWorker w) : Consistent ready (c.run digest m) := by
  have hstaffed : Staffed (c.run digest m) := run_staffed c h.staffed
  have heffect : MemoryEffect digest m c (c.run digest m) := c.effect h.staffed
  obtain ⟨hlife, hshelf, hnaming, _⟩ := h
  suffices Lifecycle ready (c.run digest m) ∧ Shelf (c.run digest m) ∧ Naming (c.run digest m) from
    ⟨this.1, this.2.1, this.2.2, hstaffed⟩
  generalize c.run digest m = m' at heffect
  -- one case for each kind of effect; only a few write what the three parts of the invariant read
  cases heffect with
  | nothing => exact ⟨hlife, hshelf, hnaming⟩
  | deployments _ ds =>
      exact ⟨hlife.of_eq rfl rfl rfl rfl, hshelf.of_blobs rfl rfl rfl rfl fun _ _ hb => hb,
        hnaming.of_eq rfl rfl rfl rfl⟩
  | assets _ as =>
      exact ⟨hlife.of_eq rfl rfl rfl rfl, hshelf.of_blobs rfl rfl rfl rfl fun _ _ hb => hb,
        hnaming.of_eq rfl rfl rfl rfl⟩
  | worker w hfree => exact absurd rfl (hother w)
  | setBlob id b => exact hmethod.elim
  | blob b hdigest hfree =>
      refine ⟨hlife.of_eq rfl rfl rfl rfl, hshelf.of_blobs rfl rfl rfl rfl fun id x hx => ?_, ?_, hnaming.jobs⟩
      · have hne : id ≠ b.blobId := fun heq => by
          rw [heq, hfree] at hx
          exact absurd hx (by simp)
        exact (Function.update_of_ne hne ..).trans hx
      -- the digest was looked up and no blob with it found, so no blob has it
      · have hunnamed : m.blobByDigest b.sha256 = none := by
          cases hx : m.blobByDigest b.sha256 with
          | none => rfl
          | some id =>
              obtain ⟨x, hid, _⟩ := (hnaming.blobs _ id).mp hx
              rw [hx, Option.bind_some, hid] at hdigest
              exact absurd hdigest (by simp)
        exact index_insert hnaming.blobs hfree hunnamed
  | create jobId sub job events hkey hjob hnew =>
      have hfree : m.jobs jobId = none := hfresh
      simp only [Prod.mk.injEq] at hjob hnew
      obtain ⟨_, hns, hidem⟩ := hjob
      obtain ⟨hqueued, hcurrent, _, _, hepoch⟩ := hnew
      refine ⟨hlife.writes rfl rfl rfl rfl (fun j hj => ?_) (fun _ => hcurrent) ?_ ?_,
        hshelf.of_unfinished rfl (fun j hj => ?_) ?_ (fun _ _ ha _ => ha) rfl rfl rfl,
        hnaming.blobs, ?_⟩
      · exact absurd (hfree.symm.trans hj) (by simp)
      · rw [hqueued, hcurrent]
        exact ⟨nofun, nofun⟩
      · rw [hepoch, hlife.unknown jobId hfree]
        rfl
      · exact absurd (hfree.symm.trans hj) (by simp)
      · rw [hqueued]
        exact nofun
      -- the index is keyed by what the new record says of itself
      · have hname : (sub.namespaceId, sub.idempotencyKey)
            = (fun j : JobRecord => (j.namespaceId, j.idempotencyKey)) job := by
          dsimp only
          rw [hns, hidem]
        rw [hname] at hkey ⊢
        exact index_insert hnaming.jobs hfree hkey
  | start attemptId jobId workerId job worker events hs =>
      have hfree : m.attempts attemptId = none := hfresh
      refine ⟨hlife.starts hs hfree, hshelf.of_unfinished rfl (fun j hj => ?_) nofun
        (fun aid a ha _ => ?_) rfl rfl rfl, hnaming.of_rewrite hs.job rfl rfl rfl rfl rfl⟩
      · obtain rfl := Option.some.inj (hs.job.symm.trans hj)
        rw [hs.queued]
        exact nofun
      · have hne : aid ≠ attemptId := fun heq => by
          rw [heq, hfree] at ha
          exact absurd ha (by simp)
        exact (Function.update_of_ne hne ..).trans ha
  | cancelQueued jobId job events hjob hqueued =>
      -- a QUEUED job has no attempt
      have hidle : job.currentAttemptId.isSome ≠ true := fun hsome =>
        absurd (hqueued.symm.trans ((hlife.running jobId job hjob).mpr hsome)) (by simp)
      refine ⟨hlife.writes rfl rfl rfl rfl (fun j hj => ?_) (fun hnone => ?_)
        ⟨nofun, fun hsome => absurd hsome hidle⟩ (hlife.epoch jobId job hjob),
        hshelf.of_unfinished rfl (fun j hj => ?_) nofun (fun _ _ ha _ => ha) rfl rfl rfl,
        hnaming.of_rewrite hjob rfl rfl rfl rfl rfl⟩
      · obtain rfl := Option.some.inj (hjob.symm.trans hj)
        rfl
      · exact absurd (hjob.symm.trans hnone) (by simp)
      · obtain rfl := Option.some.inj (hjob.symm.trans hj)
        rw [hqueued]
        exact nofun
  | cancelRunning jobId job events hjob hrunning =>
      refine ⟨hlife.writes rfl rfl rfl rfl (fun j hj => ?_) (fun hnone => ?_)
        (hlife.running jobId job hjob) (hlife.epoch jobId job hjob),
        hshelf.of_unfinished rfl (fun j hj => ?_) ?_ (fun _ _ ha _ => ha) rfl rfl rfl,
        hnaming.of_rewrite hjob rfl rfl rfl rfl rfl⟩
      · obtain rfl := Option.some.inj (hjob.symm.trans hj)
        rfl
      · exact absurd (hjob.symm.trans hnone) (by simp)
      · obtain rfl := Option.some.inj (hjob.symm.trans hj)
        rw [hrunning]
        exact nofun
      · dsimp only
        rw [hrunning]
        exact nofun
  | ended how jobId attemptId job attempt worker events hactive hworker =>
      refine ⟨hlife.ends hactive how.terminal_ended how.close_stopped how.close_current
        how.close_epoch, hshelf.of_unfinished rfl hactive.unfinished how.close_unwon
        (fun aid a ha hstate => ?_) rfl rfl rfl,
        hnaming.of_rewrite hactive.job rfl how.close_key rfl rfl rfl⟩
      have hne : aid ≠ attemptId := fun heq => by
        rw [heq, hactive.attempt] at ha
        obtain rfl := Option.some.inj ha
        exact absurd (hactive.active.symm.trans hstate) (by simp)
      exact (Function.update_of_ne hne ..).trans ha
  | stored jobId attemptId proposed e m₁ hraised hstored =>
      -- artifacts are stored one by one: a call that raises may leave some of them
      rw [hraised] at hreturns
      cases hreturns
  | published jobId attemptId proposed job attempt worker events m₁ hc hworker hstored =>
      have hactive := hc.active
      refine ⟨?_, hshelf.publishes hc hstored, ?_⟩
      · obtain ⟨⟨as, ks, rfl⟩, _⟩ := storeArtifacts_stored proposed m m₁ hstored hc.kinds
        have hstored : Lifecycle ready { m with artifacts := as, artifactByAttemptKind := ks } :=
          hlife.of_eq rfl rfl rfl rfl
        exact hstored.ends (j := job) ⟨hactive.job, hactive.attempt, hactive.running,
          hactive.current, hactive.owner, hactive.active, hactive.epoch⟩ nofun nofun rfl rfl
      · obtain ⟨⟨as, ks, rfl⟩, _⟩ := storeArtifacts_stored proposed m m₁ hstored hc.kinds
        exact hnaming.of_rewrite hactive.job rfl rfl rfl rfl rfl

/-- Every run of calls that return keeps the invariants. -/
theorem consistent_returnsTo {calls : List MemoryCall} (h : ReturnsTo digest calls m) :
    Consistent (RegisteredReady calls) m := by
  induction h with
  | empty =>
      refine ⟨lifecycle_init.of_ready ?_, shelf_init, naming_init, nofun⟩
      rintro id ⟨w, hmem, _⟩
      exact absurd hmem (by simp)
  | @call calls m c h hmethod hfresh hreturns ih =>
      by_cases hregisters : ∃ w, c = .registerWorker w
      · obtain ⟨w, rfl⟩ := hregisters
        have hstaffed : Staffed ((MemoryCall.registerWorker w).run digest m) :=
          run_staffed (.registerWorker w) ih.staffed
        obtain ⟨hfree, hrun⟩ := registerWorker_returns hreturns
        rw [hrun] at hstaffed ⊢
        refine ⟨(ih.lifecycle.registers w hfree).of_ready fun id hid => ?_,
          ih.shelf.of_blobs rfl rfl rfl rfl fun _ _ hb => hb, ih.naming.of_eq rfl rfl rfl rfl,
          hstaffed⟩
        rcases registeredReady_append.mp hid with hid | ⟨x, hx, hid, hready⟩
        · exact .inl hid
        · obtain rfl := MemoryCall.registerWorker.inj hx
          exact .inr ⟨hid.symm, hready⟩
      · have hother : ∀ w, c ≠ .registerWorker w := fun w hw => hregisters ⟨w, hw⟩
        have hcall := consistent_call ih hmethod hfresh hreturns hother
        refine { hcall with lifecycle := hcall.lifecycle.of_ready fun id hid => ?_ }
        rcases registeredReady_append.mp hid with hid | ⟨w, hw, _⟩
        · exact hid
        · exact absurd hw (hother w)

/-! ## The invariant -/

/-- What holds of a repository after calls that return, in terms of its dictionaries. -/
structure ReferenceInvariant (calls : List MemoryCall) (m : MemoryRepository) : Prop where
  running : ∀ id j, m.jobs id = some j → (j.state = .running ↔ j.currentAttemptId.isSome = true)
  current : ∀ id j aid, m.jobs id = some j → j.currentAttemptId = some aid →
    (∃ a, m.attempts aid = some a ∧ a.jobId = id ∧ a.state = .active ∧
      a.leaseEpoch = j.leaseEpoch) ∧
    ∀ aid' a', m.attempts aid' = some a' → a'.jobId = id → a'.state = .active → aid' = aid
  epoch : ∀ id j, m.jobs id = some j → j.leaseEpoch = (m.attemptsByJob id).length
  attempts : ∀ id, (m.attemptsByJob id).Nodup ∧
    (∀ aid, aid ∈ m.attemptsByJob id ↔ ∃ a, m.attempts aid = some a ∧ a.jobId = id) ∧
    (m.attemptsByJob id).map (fun aid => (m.attempts aid).map AttemptRecord.attemptNo) =
      (List.range' 1 (m.attemptsByJob id).length).map some
  busy : ∀ id w, RegisteredReady calls id → m.workers id = some w → w.state = .busy →
    ∃! aid, ∃ a, m.attempts aid = some a ∧ a.state = .active ∧ a.workerId = id
  staff : ∀ aid a, m.attempts aid = some a → a.state = .active →
    ∃ w, m.workers a.workerId = some w ∧ w.state = .busy
  succeeded : ∀ id j, m.jobs id = some j → j.state = .succeeded →
    ∃ aid a, j.winningAttemptId = some aid ∧ m.attempts aid = some a ∧ a.jobId = id ∧
      a.state = .succeeded ∧ ∀ kind ∈ j.requiredArtifactKinds,
        ∃! rid, ∃ r b, m.artifacts rid = some r ∧ r.jobId = id ∧ r.attemptId = aid ∧
          r.kind = kind ∧ r.state = .ready ∧ m.blobs r.blobId = some b ∧ b.state = .verified
  bare : ∀ id j, m.jobs id = some j → j.state ≠ .succeeded →
    ∀ rid r, m.artifacts rid = some r → r.jobId ≠ id
  digests : ∀ sha id, m.blobByDigest sha = some id ↔ ∃ b, m.blobs id = some b ∧ b.sha256 = sha
  keys : ∀ key id, m.jobByIdempotency key = some id ↔
    ∃ j, m.jobs id = some j ∧ (j.namespaceId, j.idempotencyKey) = key

/-- The attempt numbers, in the order the attempts were started in. -/
theorem Lifecycle.numbers (h : Lifecycle ready m) (id : Uuid) :
    (m.attemptsByJob id).map (fun aid => (m.attempts aid).map AttemptRecord.attemptNo) =
      (List.range' 1 (m.attemptsByJob id).length).map some := by
  refine List.ext_getElem? fun n => ?_
  rw [List.getElem?_map, List.getElem?_map]
  by_cases hn : n < (m.attemptsByJob id).length
  · rw [List.getElem?_eq_getElem hn, List.getElem?_range' hn, Option.map_some, Option.map_some]
    obtain ⟨a, ha, hno⟩ := h.numbered id n _ (List.getElem?_eq_getElem hn)
    rw [ha, Option.map_some, hno, Nat.one_mul, Nat.add_comm]
  · rw [List.getElem?_eq_none (Nat.le_of_not_lt hn),
      List.getElem?_eq_none (by rw [List.length_range']; exact Nat.le_of_not_lt hn)]
    rfl

/-- A job that succeeded has one artifact of each kind it requires. -/
theorem Shelf.artifact (h : Shelf m) {id aid : Uuid} {a : AttemptRecord} {kind : ArtifactKind}
    (ha : m.attempts aid = some a) (howner : a.jobId = id)
    (hkind : (m.artifactByAttemptKind (aid, kind)).isSome = true) :
    ∃! rid, ∃ r b, m.artifacts rid = some r ∧ r.jobId = id ∧ r.attemptId = aid ∧
      r.kind = kind ∧ r.state = .ready ∧ m.blobs r.blobId = some b ∧ b.state = .verified := by
  obtain ⟨rid, hrid⟩ := Option.isSome_iff_exists.mp hkind
  obtain ⟨r, hr, hattempt, rfl⟩ := h.indexed aid kind rid hrid
  obtain ⟨⟨j, hj, hsucceeded, hwon⟩, hready, ⟨b, hb, hverified⟩, _⟩ := h.stored rid r hr
  have hjob : r.jobId = id := by
    obtain ⟨aid', a', hwon', ha', howner', _⟩ := h.won r.jobId j hj hsucceeded
    obtain rfl : r.attemptId = aid' := Option.some.inj (hwon.symm.trans hwon')
    rw [hattempt, ha] at ha'
    obtain rfl := Option.some.inj ha'
    exact howner'.symm.trans howner
  refine ⟨rid, ⟨r, b, hr, hjob, hattempt, rfl, hready, hb, hverified⟩, ?_⟩
  rintro rid' ⟨r', b', hr', _, hattempt', hkind', _⟩
  obtain ⟨_, _, _, hindex⟩ := h.stored rid' r' hr'
  rw [hattempt', hkind', hrid] at hindex
  exact (Option.some.inj hindex).symm

/-- **The reference repository is consistent.** After any sequence of its calls that return, jobs,
attempts, workers, artifacts and names agree. -/
theorem reference_invariant (digest : CanonicalRequest → String) (calls : List MemoryCall)
    (m : MemoryRepository) (h : ReturnsTo digest calls m) : ReferenceInvariant calls m := by
  obtain ⟨hlife, hshelf, hnaming, _⟩ := consistent_returnsTo h
  refine ⟨hlife.running, fun id j aid hj haid => ⟨hlife.current id j aid hj haid, ?_⟩, hlife.epoch,
    fun id => ⟨hlife.distinct id, hlife.listed id, hlife.numbers id⟩, fun id w hid hw hbusy => ?_,
    hlife.staff, fun id j hj hsucceeded => ?_, fun id j hj hunwon rid r hr hjob => ?_,
    hnaming.blobs, hnaming.jobs⟩
  · intro aid' a' ha' howner hactive
    obtain ⟨j', hj', hcur⟩ := hlife.active aid' a' ha' hactive
    rw [howner, hj] at hj'
    obtain rfl := Option.some.inj hj'
    exact Option.some.inj (hcur.symm.trans haid)
  · obtain ⟨aid, a, ha, hactive, hworker⟩ := hlife.busy id w hid hw hbusy
    refine ⟨aid, ⟨a, ha, hactive, hworker⟩, ?_⟩
    rintro aid' ⟨a', ha', hactive', hworker'⟩
    exact hlife.sole aid' a' aid a ha' ha hactive' hactive (hworker'.trans hworker.symm)
  · obtain ⟨aid, a, hwon, ha, howner, hstate, hkinds⟩ := hshelf.won id j hj hsucceeded
    exact ⟨aid, a, hwon, ha, howner, hstate, fun kind hkind =>
      hshelf.artifact ha howner (hkinds kind hkind)⟩
  · obtain ⟨⟨j', hj', hsucceeded, _⟩, _⟩ := hshelf.stored rid r hr
    rw [hjob, hj] at hj'
    obtain rfl := Option.some.inj hj'
    exact hunwon hsucceeded

/-- The calls that lead to `startedMemory`, and a publication. -/
def publishedCalls : List MemoryCall :=
  [.registerDeployment ⟨1, "m", "a", "f", .ready, .dict []⟩, .createJob 6 emptySubmission,
    .registerWorker ⟨2, 1, .ready⟩,
    .registerBlob ⟨3, emptySubmissionHash ⟨0, .null, [], []⟩, 4, "k", .verified, "audio/wav"⟩,
    .startAttempt 7 6 2, .publishSuccess 6 7 (outputAndManifest 8 9)]

theorem reference_invariant_published :
    ReferenceInvariant publishedCalls
      (startedMemory.publishSuccess 6 7 (outputAndManifest 8 9)).2 := by
  have hstarted : ReturnsTo emptySubmissionHash (publishedCalls.take 5) startedMemory :=
    ((((ReturnsTo.empty.call (.registerDeployment ⟨1, "m", "a", "f", .ready, .dict []⟩) trivial
      trivial rfl).call (.createJob 6 emptySubmission) trivial rfl (by decide +kernel)).call
      (.registerWorker ⟨2, 1, .ready⟩) trivial trivial rfl).call
      (.registerBlob ⟨3, emptySubmissionHash ⟨0, .null, [], []⟩, 4, "k", .verified, "audio/wav"⟩)
      trivial trivial rfl).call (.startAttempt 7 6 2) trivial rfl (by decide +kernel)
  exact reference_invariant emptySubmissionHash publishedCalls _
    (hstarted.call (.publishSuccess 6 7 (outputAndManifest 8 9)) trivial trivial
      (by decide +kernel))

end NanoAural
