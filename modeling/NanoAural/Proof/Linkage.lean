import NanoAural.Proof.CallEffects

/-!
# Jobs, attempts and workers stay linked

Four kinds of row say the same thing in their own words: a running job names
its attempt, an active attempt names its job and worker, a busy worker has an
active attempt, and the job's lease epoch counts the attempts made so far. No
statement changes all of them at once, and no constraint compares more than two,
so that they agree is a property of the transactions.

`Linked` says it, `linked_effect` proves that every effect keeps it.
-/

namespace NanoAural

open Relational Machine

/-- The attempts of one job, in the order they were created. -/
def attemptsOf (db : Db) (jobId : Uuid) : List AttemptRow :=
  db.attempts.rows.filter (·.jobId == jobId)

/-- An attempt's number and epoch. -/
def AttemptRow.numbers (a : AttemptRow) : Nat × Nat := (a.attemptNo, a.leaseEpoch)

/-- `1, 2, ..., n`, as attempt numbers and epochs. -/
def numbering (n : Nat) : List (Nat × Nat) := (List.range n).map fun i => (i + 1, i + 1)

/-- **Jobs, attempts and workers agree on who works on what.** -/
structure Linked (db : Db) : Prop where
  /-- A job is running exactly while it has a current attempt. -/
  running : ∀ id j, db.jobs.find? id = some j →
    (j.state = .running ↔ j.currentAttemptId.isSome = true)
  /-- The current attempt is active, belongs to the job and carries its epoch. -/
  current : ∀ id j aid, db.jobs.find? id = some j → j.currentAttemptId = some aid →
    ∃ a, db.attempts.find? aid = some a ∧ a.state = .active ∧ a.jobId = id
      ∧ a.leaseEpoch = j.leaseEpoch
  /-- An active attempt is its job's current one and its worker is busy. -/
  active : ∀ aid a, db.attempts.find? aid = some a → a.state = .active →
    ∃ j w, db.jobs.find? a.jobId = some j ∧ j.currentAttemptId = some aid
      ∧ db.workers.find? a.workerId = some w ∧ w.state = .busy
  /-- A busy worker owns an active attempt. -/
  busy : ∀ wid w, db.workers.find? wid = some w → w.state = .busy →
    ∃ aid a, db.attempts.find? aid = some a ∧ a.workerId = wid ∧ a.state = .active
  /-- The epoch counts the attempts, which are numbered without gap. -/
  numbered : ∀ id j, db.jobs.find? id = some j →
    (attemptsOf db id).map AttemptRow.numbers = numbering j.leaseEpoch
  /-- Behind the current attempt of an unfinished job there are only retryable failures. -/
  retried : ∀ id j aid a, db.jobs.find? id = some j → j.state.terminal = false →
    db.attempts.find? aid = some a → a.jobId = id → j.currentAttemptId ≠ some aid →
    a.state = .failedRetryable
  /-- A waiting job carries no cancel request. -/
  uncancelled : ∀ id j, db.jobs.find? id = some j → j.state = .queued → j.cancelRequestedAt = none

theorem linked_init {db : Db} (h : Registered db) : Linked db := by
  have hno : ∀ aid a, db.attempts.find? aid = some a → False := fun aid a ha => by
    have := Table.mem_of_find? ha
    rw [h.attempts] at this
    exact absurd this (by simp)
  have hjob : ∀ id j, db.jobs.find? id = some j → _ := fun id j hj =>
    h.jobs j (Table.mem_of_find? hj)
  exact {
    running := fun id j hj => by
      obtain ⟨_, hc, _, hs⟩ := hjob id j hj
      rcases hs with ⟨hs, _⟩ | hs <;> simp [hc, hs]
    current := fun id j aid hj hc => by
      obtain ⟨_, hc', _⟩ := hjob id j hj
      rw [hc'] at hc
      exact absurd hc (by simp)
    active := fun aid a ha _ => (hno aid a ha).elim
    busy := fun wid w hw hb => by
      rw [h.workers w (Table.mem_of_find? hw)] at hb
      exact absurd hb (by simp)
    numbered := fun id j hj => by
      rw [attemptsOf, h.attempts, (hjob id j hj).1]
      rfl
    retried := fun id j aid a _ _ ha => (hno aid a ha).elim
    uncancelled := fun id j hj hq => by
      obtain ⟨_, _, _, hs⟩ := hjob id j hj
      rcases hs with ⟨_, hc⟩ | hs
      · exact hc
      · rw [hs] at hq
        exact absurd hq (by simp) }

/-- The invariant reads three tables only. -/
theorem Linked.congr {db db' : Db} (h : Linked db) (ha : db'.attempts = db.attempts)
    (hj : db'.jobs = db.jobs) (hw : db'.workers = db.workers) : Linked db' := by
  constructor <;> simp only [attemptsOf, ha, hj, hw]
  exacts [h.running, h.current, h.active, h.busy, h.numbered, h.retried, h.uncancelled]

/-- The rows behind an active attempt hold its lease. -/
theorem Linked.holds {db : Db} (h : Linked db) {aid : Uuid} {a : AttemptRow}
    (ha : db.attempts.find? aid = some a) (hs : a.state = .active) (expiry : Time) :
    ∃ j w, Holds db ⟨a.jobId, aid, a.workerId, a.leaseEpoch, expiry⟩ a j w := by
  obtain ⟨j, w, hj, hc, hw, hb⟩ := h.active aid a ha hs
  obtain ⟨a', ha', _, _, he⟩ := h.current a.jobId j aid hj hc
  obtain rfl : a = a' := Option.some.inj (ha.symm.trans ha')
  refine ⟨j, w, ha, hj, hw, rfl, rfl, rfl, hs, ?_, ?_, he.symm, hb⟩
  · exact (h.running a.jobId j hj).mpr (by rw [hc]; rfl)
  · rw [hc, ← Table.key_of_find? ha]
    rfl

/-- Replacing an attempt by one with the same numbers keeps its job's numbering. -/
theorem attemptsOf_put {db db' : Db} {a a' : AttemptRow} {ta : Table AttemptRow}
    (hta : db.attempts.put? a' = some ta) (hdb : db'.attempts = ta)
    (ha : db.attempts.find? a'.id = some a) (hj : a'.jobId = a.jobId) (hn : a'.numbers = a.numbers) (id : Uuid) :
    (attemptsOf db' id).map AttemptRow.numbers = (attemptsOf db id).map AttemptRow.numbers := by
  have hmap : ∀ t : Table AttemptRow,
      (t.rows.filter (·.jobId == id)).map AttemptRow.numbers
        = t.rows.filterMap fun x => if x.jobId == id then some x.numbers else none := fun t => by
    rw [← List.filterMap_eq_map, List.filterMap_filter]
    rfl
  subst hdb
  unfold attemptsOf
  rw [hmap, hmap]
  exact Table.filterMap_put? _ hta ha (by rw [hj, hn])

theorem attemptsOf_insert {db db' : Db} {a : AttemptRow}
    (hta : db.attempts.insert? a = some db'.attempts) (id : Uuid) :
    attemptsOf db' id = attemptsOf db id ++ if a.jobId = id then [a] else [] := by
  unfold attemptsOf
  rw [Table.insert?_rows hta, List.filter_append]
  by_cases hk : a.jobId = id <;> simp [hk]

/-! ## Claiming -/

theorem numbering_succ (n : Nat) : numbering (n + 1) = numbering n ++ [(n + 1, n + 1)] := by
  simp [numbering, List.range_succ]

/-- The numbers in use determine the next one. -/
theorem nextAttemptNo_of {db : Db} {id : Uuid} {n : Nat}
    (h : (attemptsOf db id).map AttemptRow.numbers = numbering n) :
    nextAttemptNo db id = n + 1 := by
  have hnos : (attemptsOf db id).map AttemptRow.attemptNo = (List.range n).map (· + 1) := by
    have := congrArg (List.map Prod.fst) h
    simpa [numbering, List.map_map, Function.comp_def, AttemptRow.numbers] using this
  have hmax : ∀ m, ((List.range m).map (· + 1)).foldl max 0 = m := by
    intro m
    induction m with
    | zero => rfl
    | succ m ih =>
        rw [List.range_succ, List.map_append, List.foldl_append, ih]
        simp
  unfold nextAttemptNo
  rw [show (db.attempts.rows.filter (·.jobId == id)) = attemptsOf db id from rfl, hnos, hmax]

section Claim

variable {db db' : Db} {w : WorkerRow} {j : JobRow} {attemptId : Uuid} {expiry : Time}

/-- A queued job has no current attempt. -/
theorem Linked.queued_current (h : Linked db) (hj : db.jobs.find? j.id = some j)
    (hq : j.state = .queued) : j.currentAttemptId = none := by
  cases hc : j.currentAttemptId with
  | none => rfl
  | some aid =>
      have := (h.running j.id j hj).mpr (by rw [hc]; rfl)
      rw [hq] at this
      exact absurd this (by simp)

theorem linked_claim (h : Linked db) (hw : db.workers.find? w.id = some w)
    (hready : w.state = .ready) (hj : db.jobs.find? j.id = some j) (hq : j.state = .queued)
    (hta : db.attempts.insert? (issuedAttempt attemptId j.id w.id (nextAttemptNo db j.id)
      (j.leaseEpoch + 1) db.clock expiry) = some db'.attempts)
    (htj : db.jobs.put? (j.start attemptId (j.leaseEpoch + 1) db.clock) = some db'.jobs)
    (htw : db.workers.put? (w.engage db.clock) = some db'.workers) : Linked db' := by
  have hcur := h.queued_current hj hq
  have hno := nextAttemptNo_of (h.numbered j.id j hj)
  constructor
  case running =>
      intro id x hx
      rcases Table.of_put? htj hj hx with ⟨_, rfl⟩ | ⟨_, hx⟩
      · simp [JobRow.start]
      · exact h.running id x hx
  case current =>
      intro id x aid hx hc
      rcases Table.of_put? htj hj hx with ⟨rfl, rfl⟩ | ⟨_, hx⟩
      · injection hc with hc
        subst hc
        exact ⟨_, Table.insert?_self hta, rfl, rfl, rfl⟩
      · obtain ⟨a, ha, hs⟩ := h.current id x aid hx hc
        exact ⟨a, Table.insert?_keep hta ha, hs⟩
  case active =>
      intro aid a ha hs
      rcases Table.of_insert? hta ha with ⟨rfl, rfl⟩ | ⟨_, ha⟩
      · exact ⟨j.start aid (j.leaseEpoch + 1) db.clock, w.engage db.clock,
          Table.put?_self htj hj, rfl, Table.put?_self htw hw, rfl⟩
      · obtain ⟨j₀, w₀, hj₀, hc₀, hw₀, hb₀⟩ := h.active aid a ha hs
        -- neither the queued job nor the ready worker stands behind an active attempt
        have hjne : a.jobId ≠ j.id := fun he => by
          rw [he, hj] at hj₀
          obtain rfl := Option.some.inj hj₀
          rw [hcur] at hc₀
          exact absurd hc₀ (by simp)
        have hwne : a.workerId ≠ w.id := fun he => by
          rw [he, hw] at hw₀
          obtain rfl := Option.some.inj hw₀
          rw [hready] at hb₀
          exact absurd hb₀ (by simp)
        exact ⟨j₀, w₀, (Table.put?_other htj hj hjne).trans hj₀, hc₀,
          (Table.put?_other htw hw hwne).trans hw₀, hb₀⟩
  case busy =>
      intro wid x hx hb
      rcases Table.of_put? htw hw hx with ⟨rfl, rfl⟩ | ⟨_, hx⟩
      · exact ⟨_, _, Table.insert?_self hta, rfl, rfl⟩
      · obtain ⟨aid, a, ha, hs⟩ := h.busy wid x hx hb
        exact ⟨aid, a, Table.insert?_keep hta ha, hs⟩
  case numbered =>
      intro id x hx
      rw [attemptsOf_insert hta id]
      rcases Table.of_put? htj hj hx with ⟨rfl, rfl⟩ | ⟨hne, hx⟩
      · show (attemptsOf db j.id ++ if j.id = j.id then [_] else []).map AttemptRow.numbers
          = numbering (j.leaseEpoch + 1)
        rw [if_pos rfl, List.map_append, h.numbered j.id j hj, numbering_succ, hno]
        rfl
      · rw [if_neg fun he => hne he.symm, List.append_nil]
        exact h.numbered id x hx
  case retried =>
      intro id x aid a hx ht ha hid hne
      rcases Table.of_put? htj hj hx with ⟨rfl, rfl⟩ | ⟨hjne, hx⟩
      · rcases Table.of_insert? hta ha with ⟨rfl, _⟩ | ⟨_, ha⟩
        · exact absurd rfl hne
        · exact h.retried j.id j aid a hj (by rw [hq]; rfl) ha hid (by rw [hcur]; simp)
      · rcases Table.of_insert? hta ha with ⟨_, rfl⟩ | ⟨_, ha⟩
        · exact absurd hid.symm hjne
        · exact h.retried id x aid a hx ht ha hid hne
  case uncancelled =>
      intro id x hx hs
      rcases Table.of_put? htj hj hx with ⟨_, rfl⟩ | ⟨_, hx⟩
      · exact absurd hs (by simp [JobRow.start])
      · exact h.uncancelled id x hx hs

end Claim

/-! ## Heartbeats and cancel requests -/

theorem linked_renew {db db' : Db} {lease : Lease} {a : AttemptRow} {j : JobRow} {w : WorkerRow}
    {expiry : Time} (h : Linked db) (hh : Holds db lease a j w)
    (hta : db.attempts.put? (a.renew db.clock expiry) = some db'.attempts)
    (htj : db'.jobs = db.jobs) (htw : db.workers.put? (w.beat db.clock) = some db'.workers) :
    Linked db' := by
  have ha : db.attempts.find? a.id = some a := by rw [hh.attemptId]; exact hh.attempt
  have hw : db.workers.find? w.id = some w := by rw [hh.workerId]; exact hh.worker
  -- every row keeps its state and its references
  have hatt : ∀ aid x, db'.attempts.find? aid = some x → ∃ y, db.attempts.find? aid = some y
      ∧ x.state = y.state ∧ x.jobId = y.jobId ∧ x.workerId = y.workerId
      ∧ x.leaseEpoch = y.leaseEpoch := by
    intro aid x hx
    rcases Table.of_put? hta ha hx with ⟨rfl, rfl⟩ | ⟨_, hx⟩
    · exact ⟨a, ha, rfl, rfl, rfl, rfl⟩
    · exact ⟨x, hx, rfl, rfl, rfl, rfl⟩
  have hatt' : ∀ aid y, db.attempts.find? aid = some y → ∃ x, db'.attempts.find? aid = some x
      ∧ x.state = y.state ∧ x.jobId = y.jobId ∧ x.workerId = y.workerId
      ∧ x.leaseEpoch = y.leaseEpoch := by
    intro aid y hy
    by_cases hk : aid = a.id
    · subst hk
      obtain rfl : a = y := Option.some.inj (ha.symm.trans hy)
      exact ⟨a.renew db.clock expiry, Table.put?_self hta ha, rfl, rfl, rfl, rfl⟩
    · exact ⟨y, (Table.put?_other hta ha hk).trans hy, rfl, rfl, rfl, rfl⟩
  constructor <;> try rw [htj]
  case running => exact h.running
  case current =>
      intro id x aid hx hc
      obtain ⟨y, hy, hs, hj, he⟩ := h.current id x aid hx hc
      obtain ⟨z, hz, hs', hj', _, he'⟩ := hatt' aid y hy
      exact ⟨z, hz, hs'.trans hs, hj'.trans hj, he'.trans he⟩
  case active =>
      intro aid x hx hs
      obtain ⟨y, hy, hs', hj', hw', _⟩ := hatt aid x hx
      obtain ⟨j₀, w₀, hj₀, hc₀, hw₀, hb₀⟩ := h.active aid y hy (hs' ▸ hs)
      by_cases hk : y.workerId = w.id
      · exact ⟨j₀, w.beat db.clock, hj' ▸ hj₀, hc₀, by rw [hw', hk]; exact Table.put?_self htw hw,
          hh.busy⟩
      · refine ⟨j₀, w₀, hj' ▸ hj₀, hc₀, ?_, hb₀⟩
        rw [hw']
        exact (Table.put?_other htw hw hk).trans hw₀
  case busy =>
      intro wid x hx hb
      have hold : ∃ y, db.workers.find? wid = some y ∧ y.state = .busy := by
        rcases Table.of_put? htw hw hx with ⟨rfl, rfl⟩ | ⟨_, hx⟩
        · exact ⟨w, hw, hh.busy⟩
        · exact ⟨x, hx, hb⟩
      obtain ⟨y, hy, hyb⟩ := hold
      obtain ⟨aid, z, hz, hzw, hzs⟩ := h.busy wid y hy hyb
      obtain ⟨z', hz', hs', _, hw', _⟩ := hatt' aid z hz
      exact ⟨aid, z', hz', hw'.trans hzw, hs'.trans hzs⟩
  case numbered =>
      intro id x hx
      rw [attemptsOf_put hta rfl ha rfl rfl id]
      exact h.numbered id x hx
  case retried =>
      intro id x aid y hx ht hy hid hne
      obtain ⟨z, hz, hs, hj, _⟩ := hatt aid y hy
      rw [hs]
      exact h.retried id x aid z hx ht hz (hj ▸ hid) hne
  case uncancelled => exact h.uncancelled

theorem linked_requestCancel {db : Db} {j : JobRow} {tj : Table JobRow} {te : Table EventRow}
    (h : Linked db) (hj : db.jobs.find? j.id = some j)
    (htj : db.jobs.put? (j.requestCancel db.clock) = some tj) :
    Linked { db with jobs := tj, events := te } := by
  have hstate : (j.requestCancel db.clock).state
      = if j.state == .queued then .cancelled else j.state := rfl
  constructor
  case running =>
      intro id x hx
      rcases Table.of_put? htj hj hx with ⟨_, rfl⟩ | ⟨_, hx⟩
      · have hcur : (j.requestCancel db.clock).currentAttemptId = j.currentAttemptId := rfl
        have hrun := h.running j.id j hj
        rw [hstate, hcur]
        by_cases hq : j.state = .queued
        · rw [hq] at hrun
          simpa [hq] using hrun
        · simpa [hq] using hrun
      · exact h.running id x hx
  case current =>
      intro id x aid hx hc
      rcases Table.of_put? htj hj hx with ⟨rfl, rfl⟩ | ⟨_, hx⟩
      · exact h.current j.id j aid hj hc
      · exact h.current id x aid hx hc
  case active =>
      intro aid a ha hs
      -- a running job stays RUNNING and keeps its attempt until the worker ends it
      obtain ⟨j₀, w₀, hj₀, hc₀, hw₀, hb₀⟩ := h.active aid a ha hs
      by_cases hk : a.jobId = j.id
      · rw [hk, hj] at hj₀
        obtain rfl := Option.some.inj hj₀
        exact ⟨j.requestCancel db.clock, w₀, by rw [hk]; exact Table.put?_self htj hj, hc₀, hw₀,
          hb₀⟩
      · exact ⟨j₀, w₀, (Table.put?_other htj hj hk).trans hj₀, hc₀, hw₀, hb₀⟩
  case busy => exact h.busy
  case numbered =>
      intro id x hx
      rcases Table.of_put? htj hj hx with ⟨rfl, rfl⟩ | ⟨_, hx⟩
      · exact h.numbered j.id j hj
      · exact h.numbered id x hx
  case retried =>
      intro id x aid a hx ht ha hid hne
      rcases Table.of_put? htj hj hx with ⟨rfl, rfl⟩ | ⟨_, hx⟩
      · refine h.retried j.id j aid a hj ?_ ha hid hne
        rw [hstate] at ht
        -- a waiting job becomes CANCELLED; its attempts were over before
        by_cases hq : j.state = .queued
        · rw [hq]; rfl
        · simpa [hq] using ht
      · exact h.retried id x aid a hx ht ha hid hne
  case uncancelled =>
      intro id x hx hs
      rcases Table.of_put? htj hj hx with ⟨_, rfl⟩ | ⟨_, hx⟩
      · rw [hstate] at hs
        by_cases hq : j.state = .queued
        · simp [hq] at hs
        · simp [hq] at hs
      · exact h.uncancelled id x hx hs

/-! ## Letting go of a lease -/

/-- **An attempt that ends releases its job and its worker.** -/
theorem linked_release {db db' : Db} {lease : Lease} {a a' : AttemptRow} {j j' : JobRow}
    {w w' : WorkerRow} (h : Linked db) (hh : Holds db lease a j w)
    (hta : db.attempts.put? a' = some db'.attempts) (htj : db.jobs.put? j' = some db'.jobs)
    (htw : db.workers.put? w' = some db'.workers) (haid : a'.id = a.id) (hajob : a'.jobId = a.jobId)
    (haworker : a'.workerId = a.workerId) (hanum : a'.numbers = a.numbers)
    (hastate : a'.state ≠ .active) (hjid : j'.id = j.id) (hjstate : j'.state ≠ .running)
    (hjcur : j'.currentAttemptId = none) (hjepoch : j'.leaseEpoch = j.leaseEpoch)
    (hjq : j'.state.terminal = false → a'.state = .failedRetryable ∧ j'.cancelRequestedAt = none)
    (hwid : w'.id = w.id) (hwstate : w'.state = .ready) : Linked db' := by
  have ha : db.attempts.find? (Schema.key a') = some a := by
    show db.attempts.find? a'.id = _
    rw [haid, hh.attemptId]
    exact hh.attempt
  have hj : db.jobs.find? (Schema.key j') = some j := by
    show db.jobs.find? j'.id = _
    rw [hjid, hh.jobId]
    exact hh.job
  have hw : db.workers.find? (Schema.key w') = some w := by
    show db.workers.find? w'.id = _
    rw [hwid, hh.workerId]
    exact hh.worker
  have hkj : Schema.key j' = lease.jobId := hjid.trans hh.jobId
  have hka : Schema.key a' = lease.attemptId := haid.trans hh.attemptId
  have hkw : Schema.key w' = lease.workerId := hwid.trans hh.workerId
  -- the released attempt was the only active one of its job and of its worker
  have honly : ∀ aid x, db.attempts.find? aid = some x → x.state = .active →
      aid ≠ Schema.key a' → x.jobId ≠ Schema.key j' ∧ x.workerId ≠ Schema.key w' := by
    intro aid x hx hs hne
    have hclash : ∀ b : Bool, b = true → (x.jobId = a.jobId ∨ x.workerId = a.workerId) → False := by
      intro _ _ hsame
      have hxa : x = a := by
        refine Table.eq_of_clash (Table.mem_of_find? hx) (Table.mem_of_find? ha) ?_
        show (x.jobId == a.jobId && x.attemptNo == a.attemptNo
          || x.state == .active && a.state == .active
            && (x.jobId == a.jobId || x.workerId == a.workerId)) = true
        rcases hsame with he | he <;> simp [hs, hh.active, he]
      subst hxa
      exact hne ((Table.key_of_find? hx).symm.trans haid.symm)
    constructor
    · intro he
      exact hclash true rfl (Or.inl (by rw [he, hkj, hh.ofJob]))
    · intro he
      exact hclash true rfl (Or.inr (by rw [he, hkw, hh.ofWorker]))
  constructor
  case running =>
      intro id x hx
      rcases Table.of_put? htj hj hx with ⟨_, rfl⟩ | ⟨_, hx⟩
      · simp [hjstate, hjcur]
      · exact h.running id x hx
  case current =>
      intro id x aid hx hc
      rcases Table.of_put? htj hj hx with ⟨_, rfl⟩ | ⟨hne, hx⟩
      · rw [hjcur] at hc
        exact absurd hc (by simp)
      · obtain ⟨y, hy, hs, hyj, he⟩ := h.current id x aid hx hc
        have hk : aid ≠ Schema.key a' := fun hk => by
          rw [hk, ha] at hy
          obtain rfl := Option.some.inj hy
          exact hne (hyj.symm.trans (hh.ofJob.trans hkj.symm))
        exact ⟨y, (Table.put?_other hta ha hk).trans hy, hs, hyj, he⟩
  case active =>
      intro aid x hx hs
      rcases Table.of_put? hta ha hx with ⟨_, rfl⟩ | ⟨hne, hx⟩
      · exact absurd hs hastate
      · obtain ⟨j₀, w₀, hj₀, hc₀, hw₀, hb₀⟩ := h.active aid x hx hs
        obtain ⟨hjne, hwne⟩ := honly aid x hx hs hne
        exact ⟨j₀, w₀, (Table.put?_other htj hj hjne).trans hj₀, hc₀,
          (Table.put?_other htw hw hwne).trans hw₀, hb₀⟩
  case busy =>
      intro wid x hx hb
      rcases Table.of_put? htw hw hx with ⟨_, rfl⟩ | ⟨hne, hx⟩
      · rw [hwstate] at hb
        exact absurd hb (by simp)
      · obtain ⟨aid, y, hy, hyw, hs⟩ := h.busy wid x hx hb
        have hk : aid ≠ Schema.key a' := fun hk => by
          rw [hk, ha] at hy
          obtain rfl := Option.some.inj hy
          exact hne (hyw.symm.trans (hh.ofWorker.trans hkw.symm))
        exact ⟨aid, y, (Table.put?_other hta ha hk).trans hy, hyw, hs⟩
  case numbered =>
      intro id x hx
      rw [attemptsOf_put hta rfl ha hajob hanum id]
      rcases Table.of_put? htj hj hx with ⟨rfl, rfl⟩ | ⟨_, hx⟩
      · rw [hjepoch]
        exact h.numbered _ j hj
      · exact h.numbered id x hx
  case retried =>
      intro id x aid y hx ht hy hid hne
      rcases Table.of_put? htj hj hx with ⟨rfl, rfl⟩ | ⟨hjne, hx⟩
      · rcases Table.of_put? hta ha hy with ⟨_, rfl⟩ | ⟨hane, hy⟩
        · exact (hjq ht).1
        · refine h.retried _ j aid y hj (by rw [hh.running]; rfl) hy hid ?_
          rw [hh.current]
          exact fun he => hane ((Option.some.inj he).symm.trans haid.symm)
      · rcases Table.of_put? hta ha hy with ⟨_, rfl⟩ | ⟨_, hy⟩
        · exact absurd (hid.symm.trans (hajob.trans (hh.ofJob.trans hkj.symm))) hjne
        · exact h.retried id x aid y hx ht hy hid hne
  case uncancelled =>
      intro id x hx hs
      rcases Table.of_put? htj hj hx with ⟨_, rfl⟩ | ⟨_, hx⟩
      · exact (hjq (by rw [hs]; rfl)).2
      · exact h.uncancelled id x hx hs

/-- What closing a lease does to its job: requeued only after an uncancelled retryable failure. -/
theorem leave_shape (cancelled : Bool) (attemptNo : Nat) (maxAttempts : Int) (notBefore now : Time)
    (j : JobRow) :
    let terminal := closingState cancelled attemptNo maxAttempts
    let j' := j.leave terminal notBefore now
    j'.state ≠ .running ∧ j'.currentAttemptId = none
      ∧ (j'.state.terminal = false → terminal = .failedRetryable ∧ cancelled = false
          ∧ attemptNo < maxAttempts) := by
  cases cancelled with
  | true => simp [closingState, JobRow.leave, JobState.terminal]
  | false =>
      by_cases hm : maxAttempts ≤ attemptNo
      · simp [closingState, JobRow.leave, JobState.terminal, hm]
      · simp [closingState, JobRow.leave, JobState.terminal, hm, Int.not_le.mp hm]

theorem leave_keeps (terminal : AttemptState) (notBefore now : Time) (j : JobRow) :
    (j.leave terminal notBefore now).id = j.id
      ∧ (j.leave terminal notBefore now).leaseEpoch = j.leaseEpoch
      ∧ (j.leave terminal notBefore now).cancelRequestedAt = j.cancelRequestedAt := by
  cases terminal <;> exact ⟨rfl, rfl, rfl⟩

theorem closingState_ne_active (cancelled : Bool) (attemptNo : Nat) (maxAttempts : Int) :
    closingState cancelled attemptNo maxAttempts ≠ .active := by
  unfold closingState
  split
  · simp
  · split <;> simp

/-! ## Every effect -/

variable {json : JsonColumn} {allowed : Int → Prop}

/-- **The linkage survives every effect.** -/
theorem linked_effect {db db' : Db} (h : Linked db) (he : Effect json allowed db db') :
    Linked db' := by
  cases he with
  | tick now _ => exact h.congr rfl rfl rfl
  | claim hw hready hj hjob hta htj htw hte =>
      simp only [claimable, Bool.and_eq_true, beq_iff_eq] at hjob
      exact linked_claim h hw hready hj hjob.1.1.1 hta htj htw
  | renew hh hu hc hta htw => exact linked_renew h hh hta rfl htw
  | requestCancel hj hs hc htj hte => exact linked_requestCancel h hj htj
  | @close lease a j w maxAttempts notBefore reason ta tj tw te hh hm hta htj htw hte =>
      obtain ⟨hs, hcur, hq⟩ := leave_shape j.cancelRequestedAt.isSome a.attemptNo maxAttempts
        notBefore db.clock j
      obtain ⟨hid, hep, hcan⟩ := leave_keeps (closingState j.cancelRequestedAt.isSome a.attemptNo
        maxAttempts) notBefore db.clock j
      refine linked_release h hh hta htj htw rfl rfl rfl rfl (closingState_ne_active _ _ _) hid hs
        hcur hep (fun ht => ?_) rfl rfl
      obtain ⟨h₁, h₂, _⟩ := hq ht
      exact ⟨h₁, by rw [hcan]; exact Option.isNone_iff_eq_none.mp (by
        cases hc : j.cancelRequestedAt <;> simp_all)⟩
  | reserve _ _ => exact h.congr rfl rfl rfl
  | ledger _ _ _ => exact h.congr rfl rfl rfl
  | blob _ _ => exact h.congr rfl rfl rfl
  | win hh hu hc hitems htp htr hta htj htw hte =>
      exact linked_release h hh hta htj htw rfl rfl rfl rfl (by simp [AttemptRow.succeed]) rfl
        (by simp [JobRow.succeed]) rfl rfl (fun ht => absurd ht (by
          simp [JobRow.succeed, JobState.terminal])) rfl rfl

theorem linked_effects {db db' : Db} (h : Linked db)
    (he : Relation.ReflTransGen (Effect json allowed) db db') : Linked db' := by
  induction he with
  | refl => exact h
  | tail _ hs ih => exact linked_effect ih hs

/-- A step of the system is a sequence of effects, so an invariant of effects is one of runs. -/
theorem invariant_of_effects (json : JsonColumn) (allowed : Int → Prop) {I : Db → Prop} {budget : Call → Prop}
    (hbudget : ∀ c, budget c → ∀ m, c.maxAttempts = some m → allowed m)
    (h₀ : ∀ db, Registered db → I db)
    (hstep : ∀ db db', Linked db → I db → Effect json allowed db db' → I db') {db : Db}
    (h : (durableSystem json budget).Reachable db) : Linked db ∧ I db := by
  refine h.invariant (I := fun db => Linked db ∧ I db) (fun s hs => ⟨linked_init hs, h₀ s hs⟩) ?_
  rintro s _ _ hI ⟨c, hc, rfl⟩
  have heff := Call.effects json c (hbudget c hc) s
  generalize (c.run json s).2 = s' at heff ⊢
  induction heff with
  | refl => exact hI
  | tail _ he ih => exact ⟨linked_effect ih.1 he, hstep _ _ ih.1 ih.2 he⟩

theorem linked_reachable {budget : Call → Prop} {db : Db}
    (h : (durableSystem json budget).Reachable db) : Linked db :=
  (invariant_of_effects json (fun _ => True) (I := fun _ => True)
    (fun _ _ _ _ => trivial) (fun _ _ => trivial) (fun _ _ _ _ _ => trivial) h).1

/-! ## The retry budget -/

/-- An attempt's number is its epoch. -/
theorem Linked.attemptNo_eq {db : Db} (h : Linked db) {aid : Uuid} {a : AttemptRow} {j : JobRow}
    (ha : db.attempts.find? aid = some a) (hj : db.jobs.find? a.jobId = some j) :
    a.attemptNo = a.leaseEpoch := by
  have hmem : a.numbers ∈ numbering j.leaseEpoch := by
    rw [← h.numbered a.jobId j hj]
    exact List.mem_map_of_mem (List.mem_filter.mpr ⟨Table.mem_of_find? ha, by simp⟩)
  obtain ⟨i, _, hi⟩ := List.mem_map.mp hmem
  exact (congrArg Prod.fst hi).symm.trans (congrArg Prod.snd hi)

/-- No job outgrows its budget, and a waiting job has an attempt left. -/
def WithinBudget (M : Nat) (db : Db) : Prop :=
  ∀ id j, db.jobs.find? id = some j →
    j.leaseEpoch ≤ M ∧ (j.state = .queued → j.leaseEpoch < M)

theorem withinBudget_effect {M : Nat} (hM : ∀ m, allowed m → m ≤ M) {db db' : Db}
    (hl : Linked db) (h : WithinBudget M db) (he : Effect json allowed db db') :
    WithinBudget M db' := by
  cases he with
  | tick now _ => exact h
  | renew hh hu hc hta htw => exact h
  | reserve _ _ => exact h
  | ledger _ _ _ => exact h
  | blob _ _ => exact h
  | @claim w j attemptId expiry ta tj tw te hw hready hj hjob hta htj htw hte =>
      intro id x hx
      rcases Table.of_put? htj hj hx with ⟨_, rfl⟩ | ⟨_, hx⟩
      · simp only [claimable, Bool.and_eq_true, beq_iff_eq] at hjob
        exact ⟨(h j.id j hj).2 hjob.1.1.1, fun hs => absurd hs (by simp [JobRow.start])⟩
      · exact h id x hx
  | @requestCancel j tj te hj hs hc htj hte =>
      intro id x hx
      rcases Table.of_put? htj hj hx with ⟨_, rfl⟩ | ⟨_, hx⟩
      · refine ⟨(h j.id j hj).1, fun hq => ?_⟩
        rcases hs with hs | hs <;> simp [JobRow.requestCancel, hs] at hq
      · exact h id x hx
  | @close lease a j w maxAttempts notBefore reason ta tj tw te hh hm hta htj htw hte =>
      intro id x hx
      obtain ⟨hid, hep, _⟩ := leave_keeps (closingState j.cancelRequestedAt.isSome a.attemptNo
        maxAttempts) notBefore db.clock j
      have hj : db.jobs.find? j.id = some j := by rw [hh.jobId]; exact hh.job
      rcases Table.of_put? htj (by rw [← hj]; exact congrArg _ hid) hx with ⟨_, rfl⟩ | ⟨_, hx⟩
      · rw [hep]
        refine ⟨(h j.id j hj).1, fun hq => ?_⟩
        obtain ⟨_, hcan, hlt⟩ := (leave_shape j.cancelRequestedAt.isSome a.attemptNo maxAttempts
          notBefore db.clock j).2.2 (by rw [hq]; rfl)
        -- the number of the attempt is the epoch, so its test is the bound
        have hno : a.attemptNo = j.leaseEpoch :=
          (hl.attemptNo_eq hh.attempt (by rw [hh.ofJob]; exact hh.job)).trans hh.epoch.symm
        have hle := hM _ (hm (by cases hc : j.cancelRequestedAt <;> simp_all))
        omega
      · exact h id x hx
  | @win lease a j w items artifactId tp tr ta tj tw te hh hu hc hitems htp htr hta htj htw hte =>
      intro id x hx
      have hj : db.jobs.find? j.id = some j := by rw [hh.jobId]; exact hh.job
      rcases Table.of_put? htj hj hx with ⟨_, rfl⟩ | ⟨_, hx⟩
      · exact ⟨(h j.id j hj).1, fun hq => absurd hq (by simp [JobRow.succeed])⟩
      · exact h id x hx

theorem withinBudget_reachable {M : Nat} (hM : 1 ≤ M) {db : Db}
    (h : (boundedSystem json M).Reachable db) : WithinBudget M db := by
  refine (invariant_of_effects json (fun m => m ≤ M) (I := WithinBudget M)
    (fun _ hc => hc) (fun db hdb id j hj => ?_) (fun db db' hl hI he => ?_) h).2
  · rw [(hdb.jobs j (Table.mem_of_find? hj)).1]
    exact ⟨Nat.zero_le _, fun _ => hM⟩
  · exact withinBudget_effect (fun _ hm => hm) hl hI he

/-! ## The invariant, in one statement -/

/--
**The linkage invariant.**

In every reachable state whose callers never pass a retry budget above `M`, jobs, attempts and
workers agree: running jobs have one active current attempt at their epoch, busy workers own one,
attempts are numbered `1, 2, 3, ...` and never exceed `M`, and behind a waiting job there are only
retryable failures.
-/
theorem queue_linkage (json : JsonColumn) (M : Nat) (hM : 1 ≤ M) (db : Db)
    (h : (boundedSystem json M).Reachable db) :
    (∀ j ∈ db.jobs.rows, (j.state = .running ↔ j.currentAttemptId.isSome = true)
        ∧ ∀ aid, j.currentAttemptId = some aid → ∃ a ∈ db.attempts.rows, a.id = aid
            ∧ a.state = .active ∧ a.jobId = j.id ∧ a.leaseEpoch = j.leaseEpoch)
    ∧ (∀ a ∈ db.attempts.rows, ∀ b ∈ db.attempts.rows, a.state = .active → b.state = .active →
        a.jobId = b.jobId ∨ a.workerId = b.workerId → a = b)
    ∧ (∀ w ∈ db.workers.rows, w.state = .busy ↔
        ∃ a ∈ db.attempts.rows, a.workerId = w.id ∧ a.state = .active)
    ∧ (∀ j ∈ db.jobs.rows, j.leaseEpoch = (attemptsOf db j.id).length
        ∧ (attemptsOf db j.id).map AttemptRow.numbers = numbering j.leaseEpoch
        ∧ (attemptsOf db j.id).length ≤ M)
    ∧ ∀ j ∈ db.jobs.rows, j.state = .queued → j.cancelRequestedAt = none
        ∧ ∀ a ∈ attemptsOf db j.id, a.state = .failedRetryable := by
  have hl := linked_reachable h
  have hb := withinBudget_reachable hM h
  have hfind : ∀ j ∈ db.jobs.rows, db.jobs.find? j.id = some j := fun j hj =>
    Table.find?_of_mem hj
  refine ⟨fun j hj => ?_, fun a ha b hb ha' hb' hs => ?_, fun w hw => ?_, fun j hj => ?_,
    fun j hj hq => ?_⟩
  · have hf := hfind j hj
    refine ⟨hl.running _ j hf, fun aid hc => ?_⟩
    obtain ⟨a, ha, hs, haj, he⟩ := hl.current _ j aid hf hc
    exact ⟨a, Table.mem_of_find? ha, Table.key_of_find? ha, hs, haj, he⟩
  -- two such rows would break one of the table's unique indexes
  · refine Table.eq_of_clash ha hb ?_
    show (a.jobId == b.jobId && a.attemptNo == b.attemptNo
      || a.state == .active && b.state == .active
        && (a.jobId == b.jobId || a.workerId == b.workerId)) = true
    rcases hs with hs | hs <;> simp [ha', hb', hs]
  · have hf := Table.find?_of_mem hw
    constructor
    · intro hbusy
      obtain ⟨aid, a, ha, haw, hs⟩ := hl.busy _ w hf hbusy
      exact ⟨a, Table.mem_of_find? ha, haw, hs⟩
    · rintro ⟨a, ha, haw, hs⟩
      obtain ⟨_, w', _, _, hw', hbusy⟩ := hl.active _ a (Table.find?_of_mem ha) hs
      rw [haw] at hw'
      obtain rfl : w = w' := Option.some.inj (hf.symm.trans hw')
      exact hbusy
  · have hf := hfind j hj
    have hn := hl.numbered _ j hf
    have hlen : (attemptsOf db j.id).length = j.leaseEpoch := by
      have := congrArg List.length hn
      simpa [numbering] using this
    exact ⟨hlen.symm, hn, by rw [hlen]; exact (hb _ j hf).1⟩
  · have hf := hfind j hj
    refine ⟨hl.uncancelled _ j hf hq, fun a ha => ?_⟩
    obtain ⟨ham, haj⟩ := List.mem_filter.mp ha
    refine hl.retried _ j a.id a hf (by rw [hq]; rfl) (Table.find?_of_mem ham)
      (by simpa using haj) ?_
    rw [hl.queued_current hf hq]
    simp

theorem queue_linkage_claimed :
    claimedQueue.jobs.rows.map JobRow.state = [.running]
      ∧ ∀ w ∈ claimedQueue.workers.rows, w.state = .busy ↔
          ∃ a ∈ claimedQueue.attempts.rows, a.workerId = w.id ∧ a.state = .active := by
  have hreach : (boundedSystem .plain 1).Reachable claimedQueue :=
    (System.Reachable.of_init registered_smallQueue).step
      ⟨.claimNext .free 9 7 60, by intro m hm; exact absurd hm (by simp [Call.maxAttempts]), rfl⟩
  exact ⟨by decide +kernel, (queue_linkage .plain 1 (Nat.le_refl 1) _ hreach).2.2.1⟩

end NanoAural
