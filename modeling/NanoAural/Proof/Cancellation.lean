import NanoAural.Proof.Linkage
import NanoAural.Proof.MemoryEffects

/-!
# What a requested cancellation leads to

A job whose cancellation was requested runs on or is cancelled, in the database
under every call. In the in-memory repository `fail_attempt` and `retry_attempt`
do not look at the flag, so there it holds of the runs in which neither ends the
attempt of such a job.
-/

namespace NanoAural

open Relational Machine MemoryRepository

variable {digest : CanonicalRequest → String} {m m' : MemoryRepository}

/-! ## In memory -/

/-- A cancellation was requested, and the job runs on or is cancelled. -/
structure JobRecord.Yielding (j : JobRecord) : Prop where
  requested : j.cancelRequested = true
  state : j.state = .running ∨ j.state = .cancelled

/-- The call fails and retries no attempt of a job whose cancellation was requested. -/
def MemoryCall.Respects (m : MemoryRepository) : MemoryCall → Prop
  | .failAttempt jobId attemptId | .retryAttempt jobId attemptId =>
      ∀ j a, ActiveAttempt m jobId attemptId j a → j.cancelRequested = false
  | _ => True

/-- The in-memory repository under callers that respect cancellations. -/
def respectfulSystem (digest : CanonicalRequest → String) : System MemoryRepository where
  init m := m = MemoryRepository.empty
  step m m' := ∃ c : MemoryCall, c.fresh m ∧ c.Respects m ∧ m' = c.run digest m

theorem respectful_reachable (h : (respectfulSystem digest).Reachable m) :
    (memorySystem digest).Reachable m := by
  obtain ⟨m₀, h₀, hr⟩ := h
  refine ⟨m₀, h₀, Relation.ReflTransGen.mono ?_ m₀ m hr⟩
  rintro a b ⟨c, hfresh, _, hrun⟩
  exact ⟨c, hfresh, hrun⟩

/-- The job is in the state it was in, or yields to the cancellation and started nothing. -/
structure KeepsYielding (id : Uuid) (j : JobRecord) (m m' : MemoryRepository) : Prop where
  job : ∃ j', m'.jobs id = some j' ∧ j'.Yielding ∧ (j.state = .cancelled → j'.state = .cancelled)
  attempts : m'.attemptsByJob id = m.attemptsByJob id

theorem KeepsYielding.of_eq {id : Uuid} {j : JobRecord} (hj : m.jobs id = some j)
    (hy : j.Yielding) (hjobs : m'.jobs id = m.jobs id)
    (hlist : m'.attemptsByJob id = m.attemptsByJob id) : KeepsYielding id j m m' :=
  ⟨⟨j, hjobs.trans hj, hy, fun hs => hs⟩, hlist⟩

theorem Ending.respects {how : Ending} {jobId attemptId : Uuid} {j : JobRecord} {a : AttemptRecord}
    (h : (how.call jobId attemptId).Respects m) (hactive : ActiveAttempt m jobId attemptId j a)
    (hflag : j.cancelRequested = true) : how = .cancel := by
  cases how with
  | cancel => rfl
  | fail => exact absurd ((h j a hactive).symm.trans hflag) (by simp)
  | retry => exact absurd ((h j a hactive).symm.trans hflag) (by simp)

/-- **One call.** A call that respects cancellations keeps a yielding job yielding. -/
theorem yielding_step {c : MemoryCall} (hstaffed : Staffed m) (hfresh : c.fresh m)
    (hrespects : c.Respects m) {id : Uuid} {j : JobRecord} (hj : m.jobs id = some j)
    (hy : j.Yielding) : KeepsYielding id j m (c.run digest m) := by
  have heffect : MemoryEffect digest m c (c.run digest m) := c.effect hstaffed
  generalize c.run digest m = m' at heffect
  cases heffect with
  | nothing => exact .of_eq hj hy rfl rfl
  | deployments => exact .of_eq hj hy rfl rfl
  | assets => exact .of_eq hj hy rfl rfl
  | worker => exact .of_eq hj hy rfl rfl
  | blob => exact .of_eq hj hy rfl rfl
  | setBlob => exact .of_eq hj hy rfl rfl
  | create jobId sub job events hkey hjob hnew =>
      -- a new job has a new identifier
      have hne : id ≠ jobId := fun heq => by
        rw [heq, show m.jobs jobId = none from hfresh] at hj
        exact absurd hj (by simp)
      exact .of_eq hj hy (Function.update_of_ne hne ..) rfl
  | start attemptId jobId workerId job worker events hs =>
      -- a job whose cancellation is requested is not started
      have hne : id ≠ jobId := fun heq => by
        rw [heq, hs.job] at hj
        obtain rfl := Option.some.inj hj
        exact absurd (hs.wanted.symm.trans hy.requested) (by simp)
      exact .of_eq hj hy (Function.update_of_ne hne ..) (Function.update_of_ne hne ..)
  | cancelQueued jobId job events hjob hqueued =>
      have hne : id ≠ jobId := fun heq => by
        rw [heq, hjob] at hj
        obtain rfl := Option.some.inj hj
        rcases hy.state with hs | hs
        · exact absurd (hqueued.symm.trans hs) (by simp)
        · exact absurd (hqueued.symm.trans hs) (by simp)
      exact .of_eq hj hy (Function.update_of_ne hne ..) rfl
  | cancelRunning jobId job events hjob hrunning =>
      by_cases heq : id = jobId
      · subst heq
        obtain rfl := Option.some.inj (hjob.symm.trans hj)
        exact ⟨⟨_, Function.update_self .., ⟨rfl, hy.state⟩, fun hs => hs⟩, rfl⟩
      · exact .of_eq hj hy (Function.update_of_ne heq ..) rfl
  | ended how jobId attemptId job attempt worker events hactive hworker =>
      by_cases heq : id = jobId
      · subst heq
        obtain rfl := Option.some.inj (hactive.job.symm.trans hj)
        -- the caller respects the request, so the attempt ends in CANCELLED
        obtain rfl := Ending.respects hrespects hactive hy.requested
        exact ⟨⟨_, Function.update_self .., ⟨rfl, .inr rfl⟩, fun _ => rfl⟩, rfl⟩
      · exact .of_eq hj hy (Function.update_of_ne heq ..) rfl
  | stored jobId attemptId proposed e m₁ hraised hstored =>
      obtain ⟨as, ks, hshape⟩ := storeArtifacts_shape attemptId proposed m
      rw [← hstored, hshape]
      exact .of_eq hj hy rfl rfl
  | published jobId attemptId proposed job attempt worker events m₁ hc hworker hstored =>
      obtain ⟨as, ks, hshape⟩ := storeArtifacts_shape attemptId proposed m
      rw [hstored] at hshape
      subst hshape
      -- nor is its result published
      have hne : id ≠ jobId := fun heq => by
        rw [heq, hc.active.job] at hj
        obtain rfl := Option.some.inj hj
        exact absurd (hc.wanted.symm.trans hy.requested) (by simp)
      exact .of_eq hj hy (Function.update_of_ne hne ..) rfl

/-- Along a run, from any reachable state. -/
theorem yielding_runs (hm : (memorySystem digest).Reachable m)
    (hr : (respectfulSystem digest).Runs m m') {id : Uuid} {j : JobRecord}
    (hj : m.jobs id = some j) (hy : j.Yielding) : KeepsYielding id j m m' := by
  induction hr with
  | refl => exact .of_eq hj hy rfl rfl
  | @tail a b hr hs ih =>
      obtain ⟨c, hfresh, hrespects, rfl⟩ := hs
      obtain ⟨⟨j₁, hj₁, hy₁, hkeeps₁⟩, hlist₁⟩ := ih
      have ha : (memorySystem digest).Reachable a := by
        refine hm.runs (Relation.ReflTransGen.mono ?_ m a hr)
        rintro x y ⟨c, hfresh, _, hrun⟩
        exact ⟨c, hfresh, hrun⟩
      obtain ⟨⟨j₂, hj₂, hy₂, hkeeps₂⟩, hlist₂⟩ : KeepsYielding id j₁ a (c.run digest a) :=
        yielding_step (staffed_reachable ha) hfresh hrespects hj₁ hy₁
      exact ⟨⟨j₂, hj₂, hy₂, fun hs => hkeeps₂ (hkeeps₁ hs)⟩, hlist₂.trans hlist₁⟩

/-- A queued job has no attempt, and nobody asked to cancel it. -/
def Wanted (m : MemoryRepository) : Prop :=
  ∀ id j, m.jobs id = some j → j.state = .queued →
    j.cancelRequested = false ∧ j.currentAttemptId = none

theorem Wanted.of_write (h : Wanted m) {id : Uuid} {j' : JobRecord}
    (hjobs : m'.jobs = Function.update m.jobs id (some j'))
    (hnew : j'.state = .queued → j'.cancelRequested = false ∧ j'.currentAttemptId = none) :
    Wanted m' := by
  intro x j hj hqueued
  rw [hjobs] at hj
  by_cases heq : x = id
  · rw [heq, Function.update_self] at hj
    obtain rfl := Option.some.inj hj
    exact hnew hqueued
  · rw [Function.update_of_ne heq] at hj
    exact h x j hj hqueued

theorem wanted_step {c : MemoryCall} (hstaffed : Staffed m) (hrespects : c.Respects m)
    (h : Wanted m) : Wanted (c.run digest m) := by
  have heffect : MemoryEffect digest m c (c.run digest m) := c.effect hstaffed
  generalize c.run digest m = m' at heffect
  cases heffect with
  | nothing => exact h
  | deployments => exact h
  | assets => exact h
  | worker => exact h
  | blob => exact h
  | setBlob => exact h
  | create jobId sub job events hkey hjob hnew =>
      simp only [Prod.mk.injEq] at hnew
      obtain ⟨_, hcurrent, _, hflag, _⟩ := hnew
      exact h.of_write rfl fun _ => ⟨hflag, hcurrent⟩
  | start attemptId jobId workerId job worker events hs => exact h.of_write rfl nofun
  | cancelQueued jobId job events hjob hqueued => exact h.of_write rfl nofun
  | cancelRunning jobId job events hjob hrunning =>
      refine h.of_write rfl fun hqueued => ?_
      exact absurd (hrunning.symm.trans hqueued) (by simp)
  | ended how jobId attemptId job attempt worker events hactive hworker =>
      refine h.of_write rfl fun hqueued => ?_
      cases how with
      | cancel => exact absurd hqueued (by simp [Ending.close])
      | fail => exact absurd hqueued (by simp [Ending.close])
      | retry => exact ⟨hrespects job attempt hactive, rfl⟩
  | stored jobId attemptId proposed e m₁ hraised hstored =>
      obtain ⟨as, ks, hshape⟩ := storeArtifacts_shape attemptId proposed m
      rw [← hstored, hshape]
      exact h
  | published jobId attemptId proposed job attempt worker events m₁ hc hworker hstored =>
      obtain ⟨as, ks, hshape⟩ := storeArtifacts_shape attemptId proposed m
      rw [hstored] at hshape
      subst hshape
      exact h.of_write rfl nofun

theorem wanted_reachable (hm : (respectfulSystem digest).Reachable m) : Wanted m := by
  refine hm.invariant (fun m hm => ?_) fun a b ha h hs => ?_
  · subst hm
    exact nofun
  · obtain ⟨c, _, hrespects, rfl⟩ := hs
    exact wanted_step (staffed_reachable (respectful_reachable ha)) hrespects h

/-- A queued job starts on any READY worker of its deployment. -/
theorem Wanted.starts (h : Wanted m) {id workerId : Uuid} {j : JobRecord} {w : WorkerRecord}
    (hj : m.jobs id = some j) (hqueued : j.state = .queued) (hw : m.workers workerId = some w)
    (hready : w.state = .ready) (hdeployment : w.deploymentId = j.deploymentId)
    (attemptId : Uuid) : ∃ a, (m.startAttempt attemptId id workerId).1 = .ok a := by
  obtain ⟨hflag, hcurrent⟩ := h id j hj hqueued
  have hstart := startable_iff.mpr ⟨hj, hw, hready, hdeployment, hqueued, hcurrent, hflag⟩
  unfold MemoryRepository.startAttempt
  rw [hstart]
  exact ⟨_, rfl⟩

/-- What `request_cancel` makes of a job that waits or runs. -/
theorem requestCancel_yields {id : Uuid} {j : JobRecord} (hj : m.jobs id = some j)
    (hopen : j.state = .queued ∨ j.state = .running) :
    ∃ j', m.requestCancel id = (.ok j', (m.requestCancel id).2) ∧
      (m.requestCancel id).2.jobs id = some j' ∧ j'.Yielding ∧
      (m.requestCancel id).2.attemptsByJob id = m.attemptsByJob id := by
  unfold MemoryRepository.requestCancel MemoryRepository.requireJob
  rw [hj]
  dsimp only [require]
  rcases hopen with hs | hs
  · rw [hs]
    exact ⟨_, rfl, Function.update_self .., ⟨rfl, .inr rfl⟩, rfl⟩
  · rw [hs]
    exact ⟨_, rfl, Function.update_self .., ⟨rfl, .inl rfl⟩, rfl⟩

/-- The call that ends a current attempt leaves its job closed. -/
theorem Ending.leaves (how : Ending) (hstaffed : Staffed m) {jobId attemptId : Uuid}
    {j : JobRecord} {a : AttemptRecord} (h : ActiveAttempt m jobId attemptId j a) :
    ((how.call jobId attemptId).run digest m).jobs jobId = some (how.close j) := by
  have hshape : ∀ terminal event close, (m.finishAttempt jobId attemptId terminal event close).2.jobs
      jobId = some (close j) := by
    intro terminal event close
    unfold MemoryRepository.finishAttempt
    rw [activeAttempt_iff.mpr h]
    obtain ⟨_, m', hrun, _, _, hjobs, _⟩ := endAttempt_run m jobId attemptId (close j) terminal event
      (hstaffed attemptId a h.attempt)
    dsimp only
    rw [hrun]
    exact (congrFun hjobs jobId).trans (Function.update_self ..)
  cases how with
  | cancel => exact hshape _ _ _
  | fail => exact hshape _ _ _
  | retry => exact hshape _ _ _

/-- **Exactly the calls that respect cancellations keep yielding jobs yielding.** -/
theorem respects_iff {c : MemoryCall} (hstaffed : Staffed m) (hfresh : c.fresh m) :
    (∀ id j, m.jobs id = some j → j.Yielding → KeepsYielding id j m (c.run digest m)) ↔
      c.Respects m := by
  constructor
  · intro h
    have hends : ∀ how : Ending, ∀ jobId attemptId, c = how.call jobId attemptId →
        (∀ j : JobRecord, ¬ (how.close j).Yielding) →
        ∀ j a, ActiveAttempt m jobId attemptId j a → j.cancelRequested = false := by
      rintro how jobId attemptId rfl hclose j a hactive
      by_contra hflag
      rw [Bool.not_eq_false] at hflag
      obtain ⟨⟨j', hj', hy', _⟩, _⟩ := h jobId j hactive.job ⟨hflag, .inl hactive.running⟩
      rw [how.leaves hstaffed hactive] at hj'
      obtain rfl := Option.some.inj hj'
      exact hclose j hy'
    cases c with
    | failAttempt jobId attemptId =>
        exact hends .fail jobId attemptId rfl fun j hy => by
          rcases hy.state with hs | hs <;> exact absurd hs (by simp [Ending.close])
    | retryAttempt jobId attemptId =>
        exact hends .retry jobId attemptId rfl fun j hy => by
          rcases hy.state with hs | hs <;> exact absurd hs (by simp [Ending.close])
    | _ => trivial
  · intro hrespects id j hj hy
    exact yielding_step hstaffed hfresh hrespects hj hy

/-! ## In the database -/

variable {json : JsonColumn} {db db' : Db}

/-- A cancellation was requested, and the job runs on or is cancelled. -/
structure JobRow.Yielding (j : JobRow) : Prop where
  requested : j.cancelRequestedAt.isSome = true
  state : j.state = .running ∨ j.state = .cancelled

/-- The row yields on, and its job has the attempts it had. -/
structure RowKeepsYielding (id : Uuid) (j : JobRow) (db db' : Db) : Prop where
  job : ∃ j', db'.jobs.find? id = some j' ∧ j'.Yielding ∧ (j.state = .cancelled → j'.state = .cancelled)
  attempts : (attemptsOf db' id).map AttemptRow.numbers = (attemptsOf db id).map AttemptRow.numbers

theorem RowKeepsYielding.of_eq {id : Uuid} {j : JobRow} (hj : db'.jobs.find? id = some j)
    (hy : j.Yielding)
    (hlist : (attemptsOf db' id).map AttemptRow.numbers = (attemptsOf db id).map AttemptRow.numbers) :
    RowKeepsYielding id j db db' :=
  ⟨⟨j, hj, hy, fun hs => hs⟩, hlist⟩

/-- **One effect.** No effect takes a yielding row back. -/
theorem rowYielding_effect {allowed : Int → Prop} (he : Effect json allowed db db') {id : Uuid}
    {j : JobRow} (hj : db.jobs.find? id = some j) (hy : j.Yielding) :
    RowKeepsYielding id j db db' := by
  -- whatever asks for a job without a request is about another job
  have hother : ∀ {x : JobRow}, db.jobs.find? x.id = some x → x.cancelRequestedAt = none →
      id ≠ x.id := by
    intro x hx hnone heq
    rw [heq, hx] at hj
    obtain rfl := Option.some.inj hj
    have := hy.requested
    rw [hnone] at this
    exact absurd this (by simp)
  cases he with
  | tick now h => exact .of_eq hj hy rfl
  | @claim w x attemptId expiry ta tj tw te hw hready hx hclaimable hta htj htw hte =>
      simp only [claimable, Bool.and_eq_true, Option.isNone_iff_eq_none] at hclaimable
      have hne := hother hx hclaimable.1.1.2
      refine .of_eq ((Table.put?_other htj hx hne).trans hj) hy
        (congrArg (List.map _) ((attemptsOf_insert hta id).trans ?_))
      rw [if_neg (fun heq => hne heq.symm), List.append_nil]
  | @renew lease a x w expiry ta tw hh hu hc hta htw =>
      have ha : db.attempts.find? a.id = some a := by rw [hh.attemptId, hh.attempt]
      exact .of_eq hj hy (attemptsOf_put hta rfl ha rfl rfl id)
  | requestCancel hx hs hc htj hte =>
      have hne := hother hx hc
      exact .of_eq ((Table.put?_other htj hx hne).trans hj) hy rfl
  | @close lease a x w maxAttempts notBefore reason ta tj tw te hh hm hta htj htw hte =>
      have ha : db.attempts.find? a.id = some a := by rw [hh.attemptId, hh.attempt]
      have hlist : (attemptsOf { db with attempts := ta, jobs := tj, workers := tw, events := te }
          id).map AttemptRow.numbers = (attemptsOf db id).map AttemptRow.numbers :=
        attemptsOf_put hta rfl ha rfl rfl id
      obtain ⟨hid, _, hflag⟩ := leave_keeps (closingState x.cancelRequestedAt.isSome a.attemptNo
        maxAttempts) notBefore db.clock x
      have hkey : Schema.key (x.leave (closingState x.cancelRequestedAt.isSome a.attemptNo
        maxAttempts) notBefore db.clock) = lease.jobId := hid.trans hh.jobId
      -- `closingState` answers CANCELLED to a requested job, whatever the reason of the close
      have hput := Table.find?_put? htj (by rw [hkey]; exact hh.job) id
      by_cases heq : id = lease.jobId
      · rw [hkey, if_pos heq] at hput
        obtain rfl := Option.some.inj ((heq ▸ hh.job).symm.trans hj)
        refine ⟨⟨_, hput, ⟨?_, .inr ?_⟩, fun _ => ?_⟩, hlist⟩
        · rw [hflag]
          exact hy.requested
        all_goals
          rw [hy.requested]
          rfl
      · rw [hkey, if_neg heq] at hput
        exact .of_eq (hput.trans hj) hy hlist
  | reserve hc htp => exact .of_eq hj hy rfl
  | ledger hp hs htp => exact .of_eq hj hy rfl
  | blob hb htb => exact .of_eq hj hy rfl
  | @win lease a x w items artifactId tp tr ta tj tw te hh hu hc hitems htp htr hta htj htw hte =>
      have ha : db.attempts.find? a.id = some a := by rw [hh.attemptId, hh.attempt]
      have hx : db.jobs.find? x.id = some x := by rw [hh.jobId, hh.job]
      have hne := hother hx hc
      exact .of_eq ((Table.put?_other htj hx hne).trans hj) hy
        (attemptsOf_put hta rfl ha rfl rfl id)

/-- Along a run under every call. -/
theorem rowYielding_runs (hr : (openSystem json).Runs db db') {id : Uuid} {j : JobRow}
    (hj : db.jobs.find? id = some j) (hy : j.Yielding) : RowKeepsYielding id j db db' := by
  have hchain : ∀ {a b : Db}, Relation.ReflTransGen (Effect json fun _ => True) a b →
      RowKeepsYielding id j db a → RowKeepsYielding id j db b := by
    intro a b he h
    induction he with
    | refl => exact h
    | tail _ hs ih =>
        obtain ⟨⟨j₁, hj₁, hy₁, hkeeps₁⟩, hlist₁⟩ := ih
        obtain ⟨⟨j₂, hj₂, hy₂, hkeeps₂⟩, hlist₂⟩ := rowYielding_effect hs hj₁ hy₁
        exact ⟨⟨j₂, hj₂, hy₂, fun hs => hkeeps₂ (hkeeps₁ hs)⟩, hlist₂.trans hlist₁⟩
  induction hr with
  | refl => exact .of_eq hj hy rfl
  | tail _ hs ih =>
      obtain ⟨c, _, rfl⟩ := hs
      exact hchain (Call.effects json c (fun _ _ => trivial) _) ih

/-- What an accepted `request_cancel` makes of a row. -/
theorem requestCancel_rowYields {id : Uuid} (h : requestCancel id db = (.ok true, db')) :
    ∃ j, db'.jobs.find? id = some j ∧ j.Yielding ∧ attemptsOf db' id = attemptsOf db id := by
  rcases requestCancel_rows h with ⟨hr, _⟩ | ⟨_, j, tj, te, hj, rfl, hs, hc, htj, hte, rfl⟩
  · exact absurd hr (by simp)
  · refine ⟨_, (Table.find?_put? htj hj j.id).trans (if_pos rfl), ⟨rfl, ?_⟩, rfl⟩
    rcases hs with hs | hs
    · right
      simp [JobRow.requestCancel, hs]
    · left
      simp [JobRow.requestCancel, hs]

/-! ## The same calls on both -/

/-- Both repositories say the same of a job. -/
structure SameJob (id : Uuid) (m : MemoryRepository) (db : Db) : Prop where
  job : ∃ j row, m.jobs id = some j ∧ db.jobs.find? id = some row ∧ row.state = j.state ∧
    row.cancelRequestedAt.isSome = j.cancelRequested ∧
    (j.state = .queued → j.cancelRequested = false)

/-- The queue's method for an ending. -/
def Ending.onQueue (held : Locks) (lease : Lease) (delay maxAttempts : Int) :
    Ending → Db → Except Error Unit × Db
  | .cancel => cancelCurrent held lease
  | .fail | .retry => failRetryable held lease delay maxAttempts

/-- Which side of the retry budget an ending is for. -/
def Ending.Within (attemptNo : Nat) (maxAttempts : Int) : Ending → Prop
  | .cancel => True
  | .fail => maxAttempts ≤ attemptNo
  | .retry => attemptNo < maxAttempts

/-- One call about a job made on both, and returning from both, or a change of other jobs. -/
inductive SameCall (digest : CanonicalRequest → String) (id : Uuid) :
    MemoryRepository × Db → MemoryRepository × Db → Prop where
  | start {m : MemoryRepository} {db db' : Db} (attemptId workerId : Uuid) (held : Locks)
      (leaseSeconds : Int) (lease : Lease) (hlease : lease.jobId = id)
      (hm : ((MemoryCall.startAttempt attemptId id workerId).result digest m).1 = .ok ())
      (hdb : claimNext held attemptId workerId leaseSeconds db = (.ok (some lease), db')) :
      SameCall digest id (m, db)
        ((MemoryCall.startAttempt attemptId id workerId).run digest m, db')
  | request {m : MemoryRepository} {db db' : Db} (r : Bool)
      (hm : ((MemoryCall.requestCancel id).result digest m).1 = .ok ())
      (hdb : requestCancel id db = (.ok r, db')) :
      SameCall digest id (m, db) ((MemoryCall.requestCancel id).run digest m, db')
  | ends {m : MemoryRepository} {db db' : Db} (how : Ending) (attemptId : Uuid) (held : Locks)
      (lease : Lease) (delay maxAttempts : Int) (hlease : lease.jobId = id)
      (hrespects : (how.call id attemptId).Respects m)
      (hbudget : ∀ a, db.attempts.find? lease.attemptId = some a → how.Within a.attemptNo maxAttempts)
      (hm : ((how.call id attemptId).result digest m).1 = .ok ())
      (hdb : how.onQueue held lease delay maxAttempts db = (.ok (), db')) :
      SameCall digest id (m, db) ((how.call id attemptId).run digest m, db')
  | others {m m' : MemoryRepository} {db db' : Db} (hm : m'.jobs id = m.jobs id)
      (hdb : db'.jobs.find? id = db.jobs.find? id) : SameCall digest id (m, db) (m', db')

/-- An ending that returns was of the current attempt. -/
theorem Ending.returns (how : Ending) {jobId attemptId : Uuid}
    (h : ((how.call jobId attemptId).result digest m).1 = .ok ()) :
    ∃ j a, ActiveAttempt m jobId attemptId j a ∧
      ((how.call jobId attemptId).run digest m).jobs jobId = some (how.close j) := by
  have hshape : ∀ terminal event close,
      ((m.finishAttempt jobId attemptId terminal event close).1.map fun _ => ()) = .ok () →
      ∃ j a, ActiveAttempt m jobId attemptId j a ∧
        (m.finishAttempt jobId attemptId terminal event close).2.jobs jobId = some (close j) := by
    intro terminal event close h
    unfold MemoryRepository.finishAttempt at h ⊢
    cases hactive : m.activeAttempt jobId attemptId with
    | error e =>
        rw [hactive] at h
        cases h
    | ok active =>
        obtain ⟨j, a⟩ := active
        rw [hactive] at h
        refine ⟨j, a, activeAttempt_iff.mp hactive, ?_⟩
        dsimp only at h ⊢
        unfold MemoryRepository.endAttempt MemoryRepository.requireWorker at h ⊢
        dsimp only [MemoryRepository.setAttempt] at h ⊢
        cases hworker : m.workers a.workerId with
        | none =>
            rw [hworker] at h
            cases h
        | some w => exact Function.update_self ..
  cases how with
  | cancel => exact hshape _ _ _ h
  | fail => exact hshape _ _ _ h
  | retry => exact hshape _ _ _ h

/-- What the queue's method leaves of the job when it returns. -/
theorem Ending.onQueue_returns {how : Ending} {held : Locks} {lease : Lease}
    {delay maxAttempts : Int} (h : how.onQueue held lease delay maxAttempts db = (.ok (), db')) :
    ∃ a j budget notBefore, db.attempts.find? lease.attemptId = some a ∧
      db.jobs.find? lease.jobId = some j ∧ j.state = .running ∧
      (how = .cancel → j.cancelRequestedAt.isSome = true) ∧ (how ≠ .cancel → budget = maxAttempts) ∧
      db'.jobs.find? lease.jobId = some (j.leave
        (closingState j.cancelRequestedAt.isSome a.attemptNo budget) notBefore db.clock) := by
  -- all three endings are `_finish_lease` with other arguments
  have hfinish : ∀ {cancelled : Bool} {delay budget : Int} {s : Session Db Deferred},
      finishLease held lease cancelled delay budget ⟨db, []⟩ = .ok ((), s) →
      ∃ a j notBefore, db.attempts.find? lease.attemptId = some a ∧
        db.jobs.find? lease.jobId = some j ∧ j.state = .running ∧
        (cancelled = true → j.cancelRequestedAt.isSome = true) ∧
        s.db.jobs.find? lease.jobId = some (j.leave
          (closingState j.cancelRequestedAt.isSome a.attemptNo budget) notBefore db.clock) := by
    intro cancelled delay budget s h
    unfold finishLease at h
    obtain ⟨a, s₁, h₁, h⟩ := Tx.bind_ok.mp h
    obtain ⟨rfl, j, w, hh, _⟩ := lockCurrent_ok.mp h₁
    obtain ⟨hrequested, reason, h⟩ := closeCurrent_closes hh h
    obtain ⟨notBefore, ta, tj, tw, te, _, htj, _, _, hdb⟩ := closeLease_rows hh h
    refine ⟨a, j, notBefore, hh.attempt, hh.job, hh.running, hrequested, ?_⟩
    have hkey := (leave_keeps (closingState j.cancelRequestedAt.isSome a.attemptNo budget)
      notBefore db.clock j).1.trans hh.jobId
    rw [hdb]
    exact (Table.find?_put? htj (by rw [show Schema.key _ = _ from hkey]; exact hh.job)
      lease.jobId).trans (if_pos hkey.symm)
  cases how with
  | cancel =>
      obtain ⟨s, hb, _, rfl⟩ := commit_ok h
      obtain ⟨a, j, notBefore, ha, hj, hrunning, hrequested, hleft⟩ := hfinish hb
      exact ⟨a, j, 1, notBefore, ha, hj, hrunning, fun _ => hrequested rfl,
        fun hne => absurd rfl hne, hleft⟩
  | fail =>
      obtain ⟨s, hb, _, rfl⟩ := commit_ok h
      simp only [Tx.lift_bind] at hb
      obtain ⟨_, _, _, _, hb⟩ := hb
      obtain ⟨a, j, notBefore, ha, hj, hrunning, _, hleft⟩ := hfinish hb
      exact ⟨a, j, maxAttempts, notBefore, ha, hj, hrunning, nofun, fun _ => rfl, hleft⟩
  | retry =>
      obtain ⟨s, hb, _, rfl⟩ := commit_ok h
      simp only [Tx.lift_bind] at hb
      obtain ⟨_, _, _, _, hb⟩ := hb
      obtain ⟨a, j, notBefore, ha, hj, hrunning, _, hleft⟩ := hfinish hb
      exact ⟨a, j, maxAttempts, notBefore, ha, hj, hrunning, nofun, fun _ => rfl, hleft⟩

theorem sameJob_start {id attemptId workerId : Uuid} {held : Locks} {leaseSeconds : Int}
    {lease : Lease} (hlease : lease.jobId = id)
    (hm : ((MemoryCall.startAttempt attemptId id workerId).result digest m).1 = .ok ())
    (hdb : claimNext held attemptId workerId leaseSeconds db = (.ok (some lease), db')) :
    SameJob id ((MemoryCall.startAttempt attemptId id workerId).run digest m) db' := by
  obtain ⟨j, hj, hrunning, hflag⟩ : ∃ j,
      (m.startAttempt attemptId id workerId).2.jobs id = some j ∧ j.state = .running ∧
        j.cancelRequested = false := by
    change ((m.startAttempt attemptId id workerId).1.map fun _ => ()) = .ok () at hm
    unfold MemoryRepository.startAttempt at hm ⊢
    cases hs : m.startable id workerId with
    | error e =>
        rw [hs] at hm
        cases hm
    | ok found =>
        obtain ⟨j, w⟩ := found
        exact ⟨_, Function.update_self .., rfl, (startable_iff.mp hs).wanted⟩
  rcases claimNext_rows hdb with ⟨hnone, _⟩ | ⟨w, row, expiry, ta, tj, tw, te, _, _, hrow, hclaim,
    _, htj, _, _, heq, rfl⟩
  · exact absurd hnone (by simp)
  · obtain rfl := Option.some.inj heq
    dsimp only at hlease
    subst hlease
    simp only [claimable, Bool.and_eq_true, Option.isNone_iff_eq_none] at hclaim
    refine ⟨j, _, hj, (Table.find?_put? htj hrow row.id).trans (if_pos rfl), hrunning.symm, ?_,
      fun hq => absurd (hrunning.symm.trans hq) (by simp)⟩
    rw [hflag]
    exact Option.isSome_eq_false_iff.mpr (Option.isNone_iff_eq_none.mpr hclaim.1.1.2)

theorem sameJob_request (digest : CanonicalRequest → String) {id : Uuid} {r : Bool} (h : SameJob id m db)
    (hdb : requestCancel id db = (.ok r, db')) :
    SameJob id ((MemoryCall.requestCancel id).run digest m) db' := by
  obtain ⟨j, row, hj, hrow, hstate, hflag, hqueued⟩ := h.job
  change SameJob id (m.requestCancel id).2 db'
  unfold MemoryRepository.requestCancel MemoryRepository.requireJob
  rw [hj]
  dsimp only [require]
  rcases requestCancel_rows hdb with ⟨_, rfl, hno⟩ | ⟨_, row', tj, te, hrow', rfl, hopen, hunflagged,
    htj, _, rfl⟩
  · -- the row was flagged before, or its job is over
    by_cases hopen : row.state = .queued ∨ row.state = .running
    · have hset := hflag.symm.trans (hno row hrow hopen)
      have hrunning : j.state = .running := by
        rcases hopen with hs | hs
        · rw [hstate] at hs
          exact absurd ((hqueued hs).symm.trans hset) (by simp)
        · rw [← hstate, hs]
      rw [hrunning]
      exact ⟨_, row, Function.update_self .., hrow, hstate.trans hrunning, hno row hrow hopen,
        nofun⟩
    · rw [hstate] at hopen
      cases hs : j.state with
      | queued => exact absurd (.inl hs) hopen
      | running => exact absurd (.inr hs) hopen
      | succeeded => exact ⟨j, row, hj, hrow, hstate, hflag, hqueued⟩
      | failed => exact ⟨j, row, hj, hrow, hstate, hflag, hqueued⟩
      | cancelled => exact ⟨j, row, hj, hrow, hstate, hflag, hqueued⟩
  · obtain rfl := Option.some.inj (hrow.symm.trans hrow')
    have hput := (Table.find?_put? htj hrow row.id).trans (if_pos rfl)
    rcases hopen with hs | hs
    · rw [← hstate, hs]
      exact ⟨_, _, Function.update_self .., hput, by simp [JobRow.requestCancel, hs], rfl, nofun⟩
    · rw [← hstate, hs]
      exact ⟨_, _, Function.update_self .., hput, by simp [JobRow.requestCancel, hs], rfl, nofun⟩

theorem sameJob_ends {id : Uuid} {how : Ending} {attemptId : Uuid} {held : Locks} {lease : Lease}
    {delay maxAttempts : Int} (h : SameJob id m db) (hlease : lease.jobId = id)
    (hrespects : (how.call id attemptId).Respects m)
    (hbudget : ∀ a, db.attempts.find? lease.attemptId = some a → how.Within a.attemptNo maxAttempts)
    (hm : ((how.call id attemptId).result digest m).1 = .ok ())
    (hdb : how.onQueue held lease delay maxAttempts db = (.ok (), db')) :
    SameJob id ((how.call id attemptId).run digest m) db' := by
  obtain ⟨j, row, hj, hrow, hstate, hflag, hqueued⟩ := h.job
  obtain ⟨j', a, hactive, hclosed⟩ := how.returns hm
  obtain rfl := Option.some.inj (hj.symm.trans hactive.job)
  obtain ⟨b, row', budget, notBefore, hb, hrow', _, hrequested, hbudgeted, hleft⟩ :=
    Ending.onQueue_returns hdb
  rw [hlease] at hrow' hleft
  obtain rfl := Option.some.inj (hrow.symm.trans hrow')
  refine ⟨how.close j, _, hclosed, hleft, ?_, ?_, ?_⟩
  · cases how with
    | cancel =>
        rw [hrequested rfl]
        rfl
    | fail =>
        rw [hflag, hrespects j a hactive, hbudgeted (fun h => by cases h)]
        simp [closingState, show maxAttempts ≤ b.attemptNo from hbudget b hb, JobRow.leave,
          Ending.close]
    | retry =>
        rw [hflag, hrespects j a hactive, hbudgeted (fun h => by cases h)]
        simp [closingState, Int.not_le.mpr (show (b.attemptNo : Int) < maxAttempts from hbudget b hb),
          JobRow.leave, Ending.close]
  · rw [(leave_keeps _ _ _ _).2.2]
    cases how with
    | cancel => exact hrequested rfl
    | fail => exact hflag
    | retry => exact hflag
  · cases how with
    | cancel => exact fun h => by cases h
    | fail => exact fun h => by cases h
    | retry => exact fun _ => hrespects j a hactive

/-- **Both repositories, call by call.** Under callers that respect cancellations they go on to say
the same of a job. -/
theorem sameJob_runs {id : Uuid} {x y : MemoryRepository × Db}
    (hr : Relation.ReflTransGen (SameCall digest id) x y) (h : SameJob id x.1 x.2) :
    SameJob id y.1 y.2 := by
  induction hr with
  | refl => exact h
  | tail _ hc ih =>
      cases hc with
      | start attemptId workerId held leaseSeconds lease hlease hm hdb =>
          exact sameJob_start hlease hm hdb
      | request r hm hdb => exact sameJob_request digest ih hdb
      | ends how attemptId held lease delay maxAttempts hlease hrespects hbudget hm hdb =>
          exact sameJob_ends ih hlease hrespects hbudget hm hdb
      | others hm hdb =>
          obtain ⟨j, row, hj, hrow, hrest⟩ := ih.job
          exact ⟨j, row, hm.trans hj, hdb.trans hrow, hrest⟩

/-! ## The claim -/

/-- Along every further run of respectful calls the job runs on or is cancelled, once cancelled it
stays so, and it has the attempts it had. -/
def OnlyCancelled (digest : CanonicalRequest → String) (id : Uuid) (m : MemoryRepository) : Prop :=
  ∀ m', (respectfulSystem digest).Runs m m' → ∃ j, m'.jobs id = some j ∧ j.Yielding ∧
    m'.attemptsByJob id = m.attemptsByJob id ∧
    (j.state = .cancelled → ∀ m'', (respectfulSystem digest).Runs m' m'' →
      ∃ j', m''.jobs id = some j' ∧ j'.state = .cancelled)

/-- The same in the database, under every call. -/
def RowOnlyCancelled (json : JsonColumn) (id : Uuid) (db : Db) : Prop :=
  ∀ db', (openSystem json).Runs db db' → ∃ j, db'.jobs.find? id = some j ∧ j.Yielding ∧
    (attemptsOf db' id).map AttemptRow.numbers = (attemptsOf db id).map AttemptRow.numbers ∧
    (j.state = .cancelled → ∀ db'', (openSystem json).Runs db' db'' →
      ∃ j', db''.jobs.find? id = some j' ∧ j'.state = .cancelled)

theorem onlyCancelled (hm : (memorySystem digest).Reachable m) {id : Uuid} {j : JobRecord}
    (hj : m.jobs id = some j) (hy : j.Yielding) : OnlyCancelled digest id m := by
  intro m' hr
  obtain ⟨⟨j', hj', hy', _⟩, hlist⟩ := yielding_runs hm hr hj hy
  refine ⟨j', hj', hy', hlist, fun hs m'' hr' => ?_⟩
  have hm' : (memorySystem digest).Reachable m' := by
    refine hm.runs (Relation.ReflTransGen.mono ?_ m m' hr)
    rintro a b ⟨c, hfresh, _, hrun⟩
    exact ⟨c, hfresh, hrun⟩
  obtain ⟨⟨j'', hj'', _, hkeeps⟩, _⟩ := yielding_runs hm' hr' hj' hy'
  exact ⟨j'', hj'', hkeeps hs⟩

theorem rowOnlyCancelled {id : Uuid} {j : JobRow} (hj : db.jobs.find? id = some j)
    (hy : j.Yielding) : RowOnlyCancelled json id db := by
  intro db' hr
  obtain ⟨⟨j', hj', hy', _⟩, hlist⟩ := rowYielding_runs hr hj hy
  refine ⟨j', hj', hy', hlist, fun hs db'' hr' => ?_⟩
  obtain ⟨⟨j'', hj'', _, hkeeps⟩, _⟩ := rowYielding_runs hr' hj' hy'
  exact ⟨j'', hj'', hkeeps hs⟩

/-- **Cancellation is monotone while `fail_attempt` and `retry_attempt` respect it**, and no longer:
a call keeps the jobs whose cancellation was requested exactly if it respects them. The queue
respects them under every call, and the same calls on both agree. -/
theorem cancellation_monotone (digest : CanonicalRequest → String) (json : JsonColumn) :
    (∀ m id j, (memorySystem digest).Reachable m → m.jobs id = some j →
      (j.state = .queued ∨ j.state = .running) →
      (∃ j', (m.requestCancel id).1 = .ok j') ∧ OnlyCancelled digest id (m.requestCancel id).2 ∧
        (m.requestCancel id).2.attemptsByJob id = m.attemptsByJob id)
    ∧ (∀ m id j, (respectfulSystem digest).Reachable m → m.jobs id = some j → j.state = .queued →
      j.cancelRequested = false ∧ ∀ workerId w attemptId, m.workers workerId = some w →
        w.state = .ready → w.deploymentId = j.deploymentId →
        ∃ a, (m.startAttempt attemptId id workerId).1 = .ok a)
    ∧ (∀ m c, (memorySystem digest).Reachable m → MemoryCall.fresh m c →
      ((∀ id j, m.jobs id = some j → j.Yielding → KeepsYielding id j m (c.run digest m)) ↔
        c.Respects m))
    ∧ (∀ db db' id, (openSystem json).Reachable db → requestCancel id db = (.ok true, db') →
      RowOnlyCancelled json id db' ∧ attemptsOf db' id = attemptsOf db id)
    ∧ (∀ id m db m' db', SameJob id m db →
      Relation.ReflTransGen (SameCall digest id) (m, db) (m', db') → SameJob id m' db') := by
  refine ⟨fun m id j hm hj hopen => ?_, fun m id j hm hj hqueued => ?_, fun m c hm hfresh => ?_,
    fun db db' id _ h => ?_, fun id m db m' db' h hr => sameJob_runs hr h⟩
  · obtain ⟨j', hresult, hj', hy, hlist⟩ := requestCancel_yields hj hopen
    have hnext : (memorySystem digest).Reachable (m.requestCancel id).2 :=
      hm.step ⟨.requestCancel id, trivial, rfl⟩
    exact ⟨⟨j', congrArg Prod.fst hresult⟩, onlyCancelled hnext hj' hy, hlist⟩
  · have hwanted := wanted_reachable hm
    exact ⟨(hwanted id j hj hqueued).1, fun workerId w attemptId hw hready hdeployment =>
      hwanted.starts hj hqueued hw hready hdeployment attemptId⟩
  · exact respects_iff (staffed_reachable hm) hfresh
  · obtain ⟨j, hj, hy, hlist⟩ := requestCancel_rowYields h
    exact ⟨rowOnlyCancelled hj hy, hlist⟩

/-- A cancelled run of the job, in memory and in the queue. -/
theorem cancellation_monotone_started :
    OnlyCancelled emptySubmissionHash 6 (startedMemory.requestCancel 6).2 ∧
      RowOnlyCancelled .plain 5 (requestCancel 5 claimedQueue).2 := by
  have h := cancellation_monotone emptySubmissionHash .plain
  refine ⟨?_, ?_⟩
  · obtain ⟨j, hj, hs⟩ : ∃ j, startedMemory.jobs 6 = some j ∧ j.state = .running :=
      ⟨_, rfl, by decide +kernel⟩
    exact (h.1 startedMemory 6 j startedMemory_reachable hj (.inr hs)).2.1
  · have hclaimed : (openSystem .plain).Reachable claimedQueue :=
      (System.Reachable.of_init registered_smallQueue).step ⟨.claimNext .free 9 7 60, trivial, rfl⟩
    exact (h.2.2.2.1 claimedQueue _ 5 hclaimed
      (Prod.ext (by decide +kernel) rfl : requestCancel 5 claimedQueue = (.ok true, _))).1

/-- **A cancellation that is forgotten.** The job's attempt is retried or failed after the
cancellation was requested: it waits for a worker that can never start it, or has failed. The queue
cancels it on the same calls. -/
theorem cancellation_forgotten :
    (memorySystem emptySubmissionHash).Reachable (startedMemory.requestCancel 6).2 ∧
      (let m := ((startedMemory.requestCancel 6).2.retryAttempt 6 7).2
       (m.jobs 6).map (fun j => (j.state, j.cancelRequested)) = some (.queued, true) ∧
         (m.workers 2).map WorkerRecord.state = some .ready ∧
         (m.startAttempt 8 6 2).1 = .error (.transition "cancelled job cannot start")) ∧
      (((startedMemory.requestCancel 6).2.failAttempt 6 7).2.jobs 6).map JobRecord.state
        = some .failed ∧
      (failRetryable .free claimedLease 1 3 (requestCancel 5 claimedQueue).2).2.jobs.rows.map
        JobRow.state = [.cancelled] ∧
      (failRetryable .free claimedLease 1 1 (requestCancel 5 claimedQueue).2).2.jobs.rows.map
        JobRow.state = [.cancelled] :=
  ⟨startedMemory_reachable.step ⟨.requestCancel 6, trivial, rfl⟩, by decide +kernel,
    by decide +kernel, by decide +kernel, by decide +kernel⟩

end NanoAural
