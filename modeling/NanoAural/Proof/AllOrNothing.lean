import NanoAural.Durable.Repository
import NanoAural.Proof.Idempotency

/-!
# All or nothing, without a rollback

The in-memory repository has no transaction to undo its writes, so a method that
raises has changed nothing only if it raises before its first write. Every method
checks first and writes then, with one exception: `publish_success` looks each
artifact's identifier up in the loop that stores the artifacts.
-/

namespace NanoAural

open Relational Machine

/-! ## What a call returns -/

/-- Whether a method raised, and the repository it left. -/
def MemoryCall.reply {α : Type} (r : Except Error α × MemoryRepository) :
    Except Error Unit × MemoryRepository := (r.1.map fun _ => (), r.2)

/-- A call, with whether it raised. -/
def MemoryCall.result (digest : CanonicalRequest → String) :
    MemoryCall → MemoryRepository → Except Error Unit × MemoryRepository
  | .registerDeployment deployment, m => reply (m.registerDeployment deployment)
  | .registerWorker worker, m => reply (m.registerWorker worker)
  | .registerBlob blob, m => reply (m.registerBlob blob)
  | .createAsset asset, m => reply (m.createAsset asset)
  | .createJob jobId sub, m => reply (m.createJob digest jobId sub)
  | .startAttempt attemptId jobId workerId, m => reply (m.startAttempt attemptId jobId workerId)
  | .requestCancel jobId, m => reply (m.requestCancel jobId)
  | .cancelAttempt jobId attemptId, m => reply (m.cancelAttempt jobId attemptId)
  | .failAttempt jobId attemptId, m => reply (m.failAttempt jobId attemptId)
  | .retryAttempt jobId attemptId, m => reply (m.retryAttempt jobId attemptId)
  | .publishSuccess jobId attemptId proposed, m =>
      reply (m.publishSuccess jobId attemptId proposed)
  | .setDeployment id deployment, m => (.ok (), (setDeployment id deployment).run digest m)
  | .setAsset id asset, m => (.ok (), (setAsset id asset).run digest m)
  | .setBlob id blob, m => (.ok (), (setBlob id blob).run digest m)

/-- A method that raised left the repository as it found it. -/
def Clean {α : Type} (m : MemoryRepository) (r : Except Error α × MemoryRepository) : Prop :=
  ∀ e, r.1 = .error e → r.2 = m

theorem clean_raise {α : Type} {m : MemoryRepository} {e : Error} :
    Clean m ((.error e, m) : Except Error α × MemoryRepository) := fun _ _ => rfl

theorem clean_return {α : Type} {m m' : MemoryRepository} {a : α} :
    Clean m (.ok a, m') := fun _ h => nomatch h

@[simp] theorem clean_reply {α : Type} {m : MemoryRepository}
    {r : Except Error α × MemoryRepository} : Clean m (MemoryCall.reply r) ↔ Clean m r := by
  rcases r with ⟨r, m'⟩
  cases r <;> simp [Clean, MemoryCall.reply, Except.map]

variable {digest : CanonicalRequest → String} {m m' : MemoryRepository}

/-! ## An attempt's worker is registered -/

def Staffed (m : MemoryRepository) : Prop :=
  ∀ id a, m.attempts id = some a → (m.workers a.workerId).isSome = true

theorem Staffed.of_eq (h : Staffed m) (ha : m'.attempts = m.attempts)
    (hw : m'.workers = m.workers) : Staffed m' := by
  intro id a hid
  rw [hw]
  exact h id a (ha ▸ hid)

/-- Writing an attempt whose worker is registered, and any worker, keeps the staff. -/
theorem Staffed.of_write {attemptId workerId : Uuid} {a : AttemptRecord} {w : WorkerRecord}
    (h : Staffed m) (hworker : a.workerId = workerId)
    (ha : m'.attempts = Function.update m.attempts attemptId (some a))
    (hw : m'.workers = Function.update m.workers workerId (some w)) : Staffed m' := by
  intro id x hx
  rw [hw]
  by_cases hk : x.workerId = workerId
  · rw [hk, Function.update_self]
    rfl
  · rw [Function.update_of_ne hk]
    by_cases hid : id = attemptId
    · rw [ha, hid, Function.update_self] at hx
      obtain rfl := Option.some.inj hx
      exact absurd hworker hk
    · rw [ha, Function.update_of_ne hid] at hx
      exact h id x hx

theorem activeAttempt_attempt {jobId attemptId : Uuid} {job : JobRecord} {attempt : AttemptRecord}
    (h : m.activeAttempt jobId attemptId = .ok (job, attempt)) :
    m.attempts attemptId = some attempt := by
  unfold MemoryRepository.activeAttempt at h
  obtain ⟨j, _, h⟩ := except_bind_ok.mp h
  obtain ⟨a, ha, h⟩ := except_bind_ok.mp h
  obtain ⟨_, h⟩ := raiseIf_bind_ok.mp h
  obtain ⟨_, rfl⟩ := Prod.mk.inj (Except.ok.inj h)
  exact require_ok.mp ha

/-- **The writes that end an attempt go through**, since its worker is there to release. -/
theorem endAttempt_run (m : MemoryRepository) (jobId attemptId : Uuid) (updated : JobRecord)
    {attempt : AttemptRecord} (terminal : AttemptState) (eventType : EventType)
    (hw : (m.workers attempt.workerId).isSome = true) :
    ∃ w m', m.endAttempt jobId attemptId updated attempt terminal eventType = (.ok updated, m')
      ∧ m'.attempts = Function.update m.attempts attemptId (some { attempt with state := terminal })
      ∧ m'.workers = Function.update m.workers attempt.workerId (some w)
      ∧ m'.jobs = Function.update m.jobs jobId (some updated) ∧ m'.artifacts = m.artifacts := by
  obtain ⟨w, hw⟩ := Option.isSome_iff_exists.mp hw
  unfold MemoryRepository.endAttempt MemoryRepository.requireWorker require
  dsimp only [MemoryRepository.setAttempt]
  rw [hw]
  exact ⟨_, _, rfl, rfl, rfl, rfl, rfl⟩

theorem finishAttempt_staffed {jobId attemptId : Uuid} {terminal : AttemptState}
    {eventType : EventType} {close : JobRecord → JobRecord} (h : Staffed m) :
    Staffed (m.finishAttempt jobId attemptId terminal eventType close).2 := by
  unfold MemoryRepository.finishAttempt
  split
  · exact h
  · rename_i job attempt hact
    obtain ⟨w, m', hrun, ha, hw, _⟩ := endAttempt_run m jobId attemptId (close job) terminal eventType
      (h attemptId attempt (activeAttempt_attempt hact))
    rw [hrun]
    exact h.of_write rfl ha hw

/-! ## Storing the artifacts -/

open MemoryRepository

/-- The loop writes the two artifact maps only, and never over an artifact that is there. -/
theorem storeArtifacts_frame (attemptId : Uuid) : ∀ (proposed : List ArtifactRecord)
    (m : MemoryRepository), let m' := (storeArtifacts attemptId proposed m).2
      m'.attempts = m.attempts ∧ m'.workers = m.workers ∧ m'.jobs = m.jobs
        ∧ ∀ id a, m.artifacts id = some a → m'.artifacts id = some a := by
  intro proposed
  induction proposed with
  | nil => exact fun m => ⟨rfl, rfl, rfl, fun _ _ h => h⟩
  | cons artifact rest ih =>
      intro m
      unfold storeArtifacts
      split
      · exact ⟨rfl, rfl, rfl, fun _ _ h => h⟩
      · rename_i hfree
        obtain ⟨ha, hw, hj, hkeep⟩ := ih { m with
          artifacts := Function.update m.artifacts artifact.artifactId (some artifact)
          artifactByAttemptKind := Function.update m.artifactByAttemptKind
            (attemptId, artifact.kind) (some artifact.artifactId) }
        refine ⟨ha, hw, hj, fun id a hid => hkeep id a ?_⟩
        have hne : id ≠ artifact.artifactId := fun he => by
          rw [he] at hid
          exact hfree (by rw [hid]; rfl)
        exact (Function.update_of_ne hne _ _).trans hid

/-- No proposed identifier is in use, or proposed twice. -/
def storesAll (m : MemoryRepository) (proposed : List ArtifactRecord) : Bool :=
  decide (proposed.map ArtifactRecord.artifactId).Nodup
    && proposed.all fun a => (m.artifacts a.artifactId).isNone

/-- The first proposed identifier is in use. -/
def storesNone (m : MemoryRepository) (proposed : List ArtifactRecord) : Bool :=
  proposed.head?.any fun a => (m.artifacts a.artifactId).isSome

theorem storesAll_cons {artifact : ArtifactRecord} {rest : List ArtifactRecord}
    (attemptId : Uuid) (hfree : m.artifacts artifact.artifactId = none) :
    storesAll m (artifact :: rest) = true ↔ storesAll { m with
        artifacts := Function.update m.artifacts artifact.artifactId (some artifact)
        artifactByAttemptKind := Function.update m.artifactByAttemptKind
          (attemptId, artifact.kind) (some artifact.artifactId) } rest = true := by
  simp only [storesAll, List.map_cons, List.nodup_cons, Bool.and_eq_true, decide_eq_true_eq,
    List.all_cons, hfree, Option.isNone_none, true_and, List.all_eq_true, List.mem_map, not_exists,
    not_and]
  constructor
  · rintro ⟨⟨hnot, hnd⟩, hall⟩
    refine ⟨hnd, fun x hx => ?_⟩
    rw [Function.update_of_ne (hnot x hx)]
    exact hall x hx
  · rintro ⟨hnd, hall⟩
    have hne : ∀ x ∈ rest, x.artifactId ≠ artifact.artifactId := fun x hx he => by
      have := hall x hx
      rw [he, Function.update_self] at this
      exact absurd this (by simp)
    refine ⟨⟨hne, hnd⟩, fun x hx => ?_⟩
    have := hall x hx
    rwa [Function.update_of_ne (hne x hx)] at this

/-- **The loop ends exactly when every identifier is new**, with every artifact stored. -/
theorem storeArtifacts_ok {attemptId : Uuid} : ∀ (proposed : List ArtifactRecord)
    (m : MemoryRepository),
    ((storeArtifacts attemptId proposed m).1 = .ok () ↔ storesAll m proposed = true)
      ∧ ((storeArtifacts attemptId proposed m).1 = .ok () → ∀ a ∈ proposed,
          (storeArtifacts attemptId proposed m).2.artifacts a.artifactId = some a) := by
  intro proposed
  induction proposed with
  | nil => exact fun m => ⟨⟨fun _ => rfl, fun _ => rfl⟩, fun _ a ha => absurd ha (by simp)⟩
  | cons artifact rest ih =>
      intro m
      unfold storeArtifacts
      by_cases hused : (m.artifacts artifact.artifactId).isSome = true
      · rw [if_pos hused]
        refine ⟨⟨fun h => (by cases h), fun h => ?_⟩, fun h => (by cases h)⟩
        obtain ⟨x, hx⟩ := Option.isSome_iff_exists.mp hused
        simp [storesAll, hx] at h
      · rw [if_neg hused]
        have hfree : m.artifacts artifact.artifactId = none := by simpa using hused
        obtain ⟨hiff, hstored⟩ := ih { m with
          artifacts := Function.update m.artifacts artifact.artifactId (some artifact)
          artifactByAttemptKind := Function.update m.artifactByAttemptKind
            (attemptId, artifact.kind) (some artifact.artifactId) }
        refine ⟨hiff.trans (storesAll_cons attemptId hfree).symm, fun hok a ha => ?_⟩
        rcases List.mem_cons.mp ha with rfl | ha
        · exact (storeArtifacts_frame _ rest _).2.2.2 _ _ (Function.update_self _ _ _)
        · exact hstored hok a ha

/-- **A loop that raises has written nothing exactly when it raised at its first artifact.** -/
theorem storeArtifacts_error {attemptId : Uuid} {proposed : List ArtifactRecord} {e : Error}
    (h : (storeArtifacts attemptId proposed m).1 = .error e) :
    (storeArtifacts attemptId proposed m).2 = m ↔ storesNone m proposed = true := by
  cases proposed with
  | nil => exact nomatch h
  | cons artifact rest =>
      unfold storeArtifacts
      by_cases hused : (m.artifacts artifact.artifactId).isSome = true
      · rw [if_pos hused]
        simp [storesNone, hused]
      · rw [if_neg hused]
        have hkept := (storeArtifacts_frame attemptId rest { m with
          artifacts := Function.update m.artifacts artifact.artifactId (some artifact)
          artifactByAttemptKind := Function.update m.artifactByAttemptKind
            (attemptId, artifact.kind) (some artifact.artifactId) }).2.2.2
          artifact.artifactId artifact (Function.update_self _ _ _)
        constructor
        · intro hsame
          rw [hsame] at hkept
          exact absurd (by rw [hkept]; rfl) hused
        · intro hnone
          exact absurd (by simpa [storesNone] using hnone) hused

/-! ## Publishing -/

theorem publishable_attempt {jobId attemptId : Uuid} {proposed : List ArtifactRecord}
    {job : JobRecord} {attempt : AttemptRecord}
    (h : m.publishable jobId attemptId proposed = .ok (job, attempt)) :
    m.attempts attemptId = some attempt := by
  unfold MemoryRepository.publishable at h
  obtain ⟨active, hact, h⟩ := except_bind_ok.mp h
  obtain ⟨_, h⟩ := raiseIf_bind_ok.mp h
  obtain ⟨_, h⟩ := raiseIf_bind_ok.mp h
  obtain ⟨_, _, h⟩ := except_bind_ok.mp h
  obtain ⟨_, h⟩ := raiseIf_bind_ok.mp h
  obtain rfl := Except.ok.inj h
  exact activeAttempt_attempt hact

/-- Past the checks, an identifier in use is all that can raise; what the loop stored is there. -/
theorem publishSuccess_raises {jobId attemptId : Uuid} {proposed : List ArtifactRecord}
    {active : JobRecord × AttemptRecord} {e : Error}
    (hchecks : m.publishable jobId attemptId proposed = .ok active)
    (hloop : (storeArtifacts attemptId proposed m).1 = .error e) :
    m.publishSuccess jobId attemptId proposed
      = (.error e, (storeArtifacts attemptId proposed m).2) := by
  unfold MemoryRepository.publishSuccess
  rw [hchecks]
  rcases hr : storeArtifacts attemptId proposed m with ⟨r, m₁⟩
  rw [hr] at hloop
  obtain rfl : r = .error e := hloop
  rfl

/-- Past the checks and the loop, the attempt, its worker and the job are written. -/
theorem publishSuccess_run {jobId attemptId : Uuid} {proposed : List ArtifactRecord}
    {job : JobRecord} {attempt : AttemptRecord} (h : Staffed m)
    (hchecks : m.publishable jobId attemptId proposed = .ok (job, attempt))
    (hloop : (storeArtifacts attemptId proposed m).1 = .ok ()) :
    ∃ updated w m', m.publishSuccess jobId attemptId proposed = (.ok updated, m')
      ∧ updated.state = .succeeded ∧ updated.winningAttemptId = some attemptId
      ∧ m'.attempts
          = Function.update m.attempts attemptId (some { attempt with state := .succeeded })
      ∧ m'.workers = Function.update m.workers attempt.workerId (some w)
      ∧ m'.jobs = Function.update m.jobs jobId (some updated)
      ∧ m'.artifacts = (storeArtifacts attemptId proposed m).2.artifacts := by
  obtain ⟨hattempts, hworkers, hjobs, _⟩ := storeArtifacts_frame attemptId proposed m
  unfold MemoryRepository.publishSuccess
  rw [hchecks]
  rcases hr : storeArtifacts attemptId proposed m with ⟨r, m₁⟩
  rw [hr] at hloop hattempts hworkers hjobs
  obtain rfl : r = .ok () := hloop
  dsimp only at hattempts hworkers hjobs
  have hw : (m₁.workers attempt.workerId).isSome = true := by
    rw [hworkers]
    exact h attemptId attempt (publishable_attempt hchecks)
  obtain ⟨w, m', hrun, ha, hw, hj, hart⟩ := endAttempt_run m₁ jobId attemptId { job with
      state := .succeeded, currentAttemptId := none, winningAttemptId := some attemptId }
    .succeeded .jobSucceeded hw
  rw [hattempts] at ha
  rw [hworkers] at hw
  rw [hjobs] at hj
  exact ⟨_, w, m', hrun, rfl, rfl, ha, hw, hj, hart⟩

/-! ## Every reachable repository is staffed -/

theorem publishSuccess_staffed {jobId attemptId : Uuid} {proposed : List ArtifactRecord}
    (h : Staffed m) : Staffed (m.publishSuccess jobId attemptId proposed).2 := by
  cases hchecks : m.publishable jobId attemptId proposed with
  | error e =>
      unfold MemoryRepository.publishSuccess
      rw [hchecks]
      exact h
  | ok active =>
      obtain ⟨hattempts, hworkers, _⟩ := storeArtifacts_frame attemptId proposed m
      cases hloop : (storeArtifacts attemptId proposed m).1 with
      | error e =>
          rw [publishSuccess_raises hchecks hloop]
          exact h.of_eq hattempts hworkers
      | ok _ =>
          obtain ⟨_, _, m', hrun, _, _, ha, hw, _⟩ := publishSuccess_run h hchecks hloop
          rw [hrun]
          exact h.of_write rfl ha hw

theorem registerWorker_staffed {worker : WorkerRecord} (h : Staffed m) :
    Staffed (m.registerWorker worker).2 := by
  unfold MemoryRepository.registerWorker
  split
  · exact h
  · split
    · exact h
    · intro id a hid
      show (Function.update m.workers worker.workerId (some worker) a.workerId).isSome = true
      by_cases hk : a.workerId = worker.workerId
      · rw [hk, Function.update_self]
        rfl
      · rw [Function.update_of_ne hk]
        exact h id a hid

/-- The calls that touch neither an attempt nor a worker. -/
theorem run_unstaffed (c : MemoryCall)
    (hc : match c with
      | .registerDeployment _ | .registerBlob _ | .createAsset _ | .createJob _ _
      | .requestCancel _ | .setDeployment _ _ | .setAsset _ _ | .setBlob _ _ => True
      | _ => False) :
    (c.run digest m).attempts = m.attempts ∧ (c.run digest m).workers = m.workers := by
  cases c with
  | registerDeployment deployment =>
      simp only [MemoryCall.run, MemoryRepository.registerDeployment]
      split <;> exact ⟨rfl, rfl⟩
  | registerBlob blob =>
      simp only [MemoryCall.run, MemoryRepository.registerBlob]
      split <;> split <;> exact ⟨rfl, rfl⟩
  | createAsset asset =>
      simp only [MemoryCall.run, MemoryRepository.createAsset]
      split
      · exact ⟨rfl, rfl⟩
      · split
        · exact ⟨rfl, rfl⟩
        · split <;> exact ⟨rfl, rfl⟩
  | createJob jobId sub =>
      simp only [MemoryCall.run, MemoryRepository.createJob]
      split
      · exact ⟨rfl, rfl⟩
      · split
        · split
          · exact ⟨rfl, rfl⟩
          · split <;> exact ⟨rfl, rfl⟩
        · split <;> exact ⟨rfl, rfl⟩
  | requestCancel jobId =>
      simp only [MemoryCall.run, MemoryRepository.requestCancel]
      split
      · exact ⟨rfl, rfl⟩
      · split <;> exact ⟨rfl, rfl⟩
  | setDeployment id deployment => exact ⟨rfl, rfl⟩
  | setAsset id asset => exact ⟨rfl, rfl⟩
  | setBlob id blob => exact ⟨rfl, rfl⟩
  | _ => exact absurd hc id

theorem run_staffed (c : MemoryCall) (h : Staffed m) : Staffed (c.run digest m) := by
  cases c with
  | registerWorker worker => exact registerWorker_staffed h
  | startAttempt attemptId jobId workerId =>
      show Staffed (m.startAttempt attemptId jobId workerId).2
      unfold MemoryRepository.startAttempt
      split
      · exact h
      · exact h.of_write rfl rfl rfl
  | cancelAttempt jobId attemptId => exact finishAttempt_staffed h
  | failAttempt jobId attemptId => exact finishAttempt_staffed h
  | retryAttempt jobId attemptId => exact finishAttempt_staffed h
  | publishSuccess jobId attemptId proposed => exact publishSuccess_staffed h
  | _ => exact h.of_eq (run_unstaffed _ trivial).1 (run_unstaffed _ trivial).2

theorem staffed_reachable (hm : (memorySystem digest).Reachable m) : Staffed m := by
  refine System.Reachable.invariant (fun m hinit => ?_) (fun m m' _ h hstep => ?_) hm
  · obtain rfl : m = .empty := hinit
    exact fun id a hid => nomatch hid
  · obtain ⟨c, _, rfl⟩ := hstep
    exact run_staffed c h

/-! ## All or nothing -/

/-- What a call that returns has done: a publication stored every artifact and the job's success. -/
def MemoryCall.Commits : MemoryCall → MemoryRepository → Prop
  | .publishSuccess jobId attemptId proposed, m' =>
      (∀ a ∈ proposed, m'.artifacts a.artifactId = some a)
        ∧ ∃ job, m'.jobs jobId = some job ∧ job.state = .succeeded
          ∧ job.winningAttemptId = some attemptId
  | _, _ => True

/-- The call changed nothing if it raised, and did all of its work if it returned. -/
def MemoryCall.AllOrNothing (digest : CanonicalRequest → String) (c : MemoryCall)
    (m : MemoryRepository) : Prop :=
  Clean m (c.result digest m)
    ∧ ((c.result digest m).1 = .ok () → c.Commits (c.result digest m).2)

/-- A publication that passes the checks proposes new and distinct identifiers, or one in use at its
very first artifact. -/
def MemoryCall.Separable : MemoryCall → MemoryRepository → Prop
  | .publishSuccess jobId attemptId proposed, m =>
      (∃ e, m.publishable jobId attemptId proposed = .error e)
        ∨ storesAll m proposed = true ∨ storesNone m proposed = true
  | _, _ => True

/-- Ending an attempt, with a registered worker, raises at its checks only. -/
theorem finishAttempt_clean {jobId attemptId : Uuid} {terminal : AttemptState}
    {eventType : EventType} {close : JobRecord → JobRecord} (h : Staffed m) :
    Clean m (m.finishAttempt jobId attemptId terminal eventType close) := by
  unfold MemoryRepository.finishAttempt
  split
  · exact clean_raise
  · rename_i job attempt hact
    obtain ⟨w, m', hrun, _⟩ := endAttempt_run m jobId attemptId (close job) terminal eventType
      (h attemptId attempt (activeAttempt_attempt hact))
    rw [hrun]
    exact clean_return

theorem createJob_clean {jobId : Uuid} {sub : Submission} :
    Clean m (m.createJob digest jobId sub) := by
  unfold MemoryRepository.createJob
  split
  · exact clean_raise
  · split
    · split
      · exact clean_raise
      · split
        · exact clean_raise
        · exact clean_return
    · split
      · exact clean_raise
      · exact clean_return

theorem registerBlob_clean {blob : BlobRecord} : Clean m (m.registerBlob blob) := by
  unfold MemoryRepository.registerBlob
  split <;> split
  · exact clean_raise
  · exact clean_return
  · exact clean_raise
  · exact clean_return

theorem createAsset_clean {asset : AssetRecord} : Clean m (m.createAsset asset) := by
  unfold MemoryRepository.createAsset
  split
  · exact clean_raise
  · split
    · exact clean_raise
    · split
      · exact clean_raise
      · exact clean_return

theorem registerWorker_clean {worker : WorkerRecord} : Clean m (m.registerWorker worker) := by
  unfold MemoryRepository.registerWorker
  split
  · exact clean_raise
  · split
    · exact clean_raise
    · exact clean_return

theorem requestCancel_clean {jobId : Uuid} : Clean m (m.requestCancel jobId) := by
  unfold MemoryRepository.requestCancel
  split
  · exact clean_raise
  · split <;> exact clean_return

/-- Every other method checks first and writes then. -/
theorem result_clean (c : MemoryCall) (h : Staffed m)
    (hc : ∀ jobId attemptId proposed, c ≠ .publishSuccess jobId attemptId proposed) :
    Clean m (c.result digest m) := by
  cases c with
  | registerDeployment deployment =>
      refine clean_reply.mpr ?_
      unfold MemoryRepository.registerDeployment
      split
      · exact clean_raise
      · exact clean_return
  | registerWorker worker => exact clean_reply.mpr registerWorker_clean
  | registerBlob blob => exact clean_reply.mpr registerBlob_clean
  | createAsset asset => exact clean_reply.mpr createAsset_clean
  | createJob jobId sub => exact clean_reply.mpr createJob_clean
  | startAttempt attemptId jobId workerId =>
      refine clean_reply.mpr ?_
      unfold MemoryRepository.startAttempt
      split
      · exact clean_raise
      · exact clean_return
  | requestCancel jobId => exact clean_reply.mpr requestCancel_clean
  | cancelAttempt jobId attemptId => exact clean_reply.mpr (finishAttempt_clean h)
  | failAttempt jobId attemptId => exact clean_reply.mpr (finishAttempt_clean h)
  | retryAttempt jobId attemptId => exact clean_reply.mpr (finishAttempt_clean h)
  | publishSuccess jobId attemptId proposed => exact absurd rfl (hc jobId attemptId proposed)
  | setDeployment id deployment => exact clean_return
  | setAsset id asset => exact clean_return
  | setBlob id blob => exact clean_return

/-- A publication, by how far it gets: the checks, the loop, the writes. -/
theorem publishSuccess_all_or_nothing {jobId attemptId : Uuid} {proposed : List ArtifactRecord}
    (h : Staffed m) :
    (MemoryCall.publishSuccess jobId attemptId proposed).AllOrNothing digest m
      ↔ (MemoryCall.publishSuccess jobId attemptId proposed).Separable m := by
  unfold MemoryCall.AllOrNothing MemoryCall.Separable
  dsimp only [MemoryCall.result]
  rw [clean_reply]
  cases hchecks : m.publishable jobId attemptId proposed with
  | error e =>
      have hrun : m.publishSuccess jobId attemptId proposed = (.error e, m) := by
        unfold MemoryRepository.publishSuccess
        rw [hchecks]
      rw [hrun]
      exact ⟨fun _ => .inl ⟨e, rfl⟩, fun _ => ⟨clean_raise, fun hok => nomatch hok⟩⟩
  | ok active =>
      have hpassed : ¬ ∃ e, (.ok active : Except Error (JobRecord × AttemptRecord)) = .error e :=
        fun ⟨_, he⟩ => nomatch he
      cases hloop : (storeArtifacts attemptId proposed m).1 with
      | error e =>
          have hnot : ¬ storesAll m proposed = true := fun hall => by
            rw [(storeArtifacts_ok proposed m).1.mpr hall] at hloop
            exact nomatch hloop
          rw [publishSuccess_raises hchecks hloop, or_iff_right hpassed, or_iff_right hnot,
            ← storeArtifacts_error hloop]
          exact ⟨fun hclean => hclean.1 e rfl,
            fun hsame => ⟨fun _ _ => hsame, fun hok => nomatch hok⟩⟩
      | ok _ =>
          obtain ⟨updated, _, m', hrun, hstate, hwinner, _, _, hjobs, hartifacts⟩ :=
            publishSuccess_run h hchecks hloop
          rw [hrun]
          refine ⟨fun _ => .inr (.inl ((storeArtifacts_ok proposed m).1.mp hloop)), fun _ =>
            ⟨clean_return, fun _ => ⟨fun a ha => ?_, updated, ?_, hstate, hwinner⟩⟩⟩
          · show m'.artifacts a.artifactId = some a
            rw [hartifacts]
            exact (storeArtifacts_ok proposed m).2 hloop a ha
          · show m'.jobs jobId = some updated
            rw [hjobs, Function.update_self]

/-- **All or nothing.** A call on a reachable repository does all of its work or leaves every map
and the log as they were, except a publication that passes the checks and then finds the identifier
of a later artifact in use. -/
theorem all_or_nothing (digest : CanonicalRequest → String) (c : MemoryCall) (m : MemoryRepository)
    (hm : (memorySystem digest).Reachable m) : c.AllOrNothing digest m ↔ c.Separable m := by
  have h := staffed_reachable hm
  cases c with
  | publishSuccess jobId attemptId proposed => exact publishSuccess_all_or_nothing h
  | _ => exact ⟨fun _ => trivial, fun _ => ⟨result_clean _ h (by simp), fun _ => trivial⟩⟩

/-- The empty submission's job, started on a worker, with one verified blob. -/
def startedMemory : MemoryRepository :=
  (((submittedMemory.registerWorker ⟨2, 1, .ready⟩).2.registerBlob
    ⟨3, emptySubmissionHash ⟨0, .null, [], []⟩, 4, "k", .verified, "audio/wav"⟩).2.startAttempt
      7 6 2).2

theorem startedMemory_reachable :
    (memorySystem emptySubmissionHash).Reachable startedMemory :=
  (((((System.Reachable.of_init (S := memorySystem emptySubmissionHash) rfl).step
    ⟨.registerDeployment ⟨1, "m", "a", "f", .ready, .dict []⟩, trivial, rfl⟩).step
    ⟨.createJob 6 emptySubmission, rfl, rfl⟩).step
    ⟨.registerWorker ⟨2, 1, .ready⟩, trivial, rfl⟩).step
    ⟨.registerBlob ⟨3, emptySubmissionHash ⟨0, .null, [], []⟩, 4, "k", .verified, "audio/wav"⟩,
      trivial, rfl⟩).step ⟨.startAttempt 7 6 2, trivial, rfl⟩

/-- The attempt's output and its manifest, under two identifiers. -/
def outputAndManifest (output manifest : Uuid) : List ArtifactRecord :=
  [⟨output, 6, 7, 3, .output, .ready, .dict []⟩, ⟨manifest, 6, 7, 3, .manifest, .ready, .dict []⟩]

theorem all_or_nothing_distinct :
    (MemoryCall.publishSuccess 6 7 (outputAndManifest 8 9)).AllOrNothing emptySubmissionHash
      startedMemory :=
  (all_or_nothing emptySubmissionHash _ startedMemory startedMemory_reachable).mpr
    (.inr (.inl (by decide +kernel)))

/-- **One identifier proposed twice.** The publication raises, and the output stays behind. -/
theorem all_or_nothing_repeated :
    (memorySystem emptySubmissionHash).Reachable startedMemory
      ∧ (startedMemory.publishSuccess 6 7 (outputAndManifest 8 8)).1
        = .error (.invariant "artifact id already exists")
      ∧ startedMemory.artifacts 8 = none
      ∧ ((startedMemory.publishSuccess 6 7 (outputAndManifest 8 8)).2.artifacts 8).isSome = true :=
  ⟨startedMemory_reachable, by decide +kernel, by decide +kernel, by decide +kernel⟩

end NanoAural
