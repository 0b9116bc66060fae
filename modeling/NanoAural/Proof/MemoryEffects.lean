import NanoAural.Proof.AllOrNothing

/-!
# What a call does to the in-memory repository

One inversion lemma for all methods: a call leaves the repository alone, registers
something, creates, starts, cancels or ends, or stores artifacts on the way to a
publication. Each case carries the guards the call has passed, so an invariant is
proved by cases on what was written and never by unfolding a method.
-/

namespace NanoAural

open Relational Machine MemoryRepository

/-! ## Guards -/

/-- What `_active_attempt` has checked. -/
structure ActiveAttempt (m : MemoryRepository) (jobId attemptId : Uuid) (j : JobRecord)
    (a : AttemptRecord) : Prop where
  job : m.jobs jobId = some j
  attempt : m.attempts attemptId = some a
  running : j.state = .running
  current : j.currentAttemptId = some attemptId
  owner : a.jobId = jobId
  active : a.state = .active
  epoch : a.leaseEpoch = j.leaseEpoch

variable {m : MemoryRepository}

theorem activeAttempt_iff {jobId attemptId : Uuid} {job : JobRecord} {attempt : AttemptRecord} :
    m.activeAttempt jobId attemptId = .ok (job, attempt) ↔
      ActiveAttempt m jobId attemptId job attempt := by
  unfold MemoryRepository.activeAttempt
  constructor
  · intro h
    obtain ⟨j, hj, h⟩ := except_bind_ok.mp h
    obtain ⟨a, ha, h⟩ := except_bind_ok.mp h
    obtain ⟨hc, h⟩ := raiseIf_bind_ok.mp h
    obtain ⟨rfl, rfl⟩ := Prod.mk.inj (Except.ok.inj h)
    simp only [Bool.or_eq_false_iff, bne_eq_false_iff_eq] at hc
    obtain ⟨⟨⟨⟨hrunning, hcurrent⟩, howner⟩, hactive⟩, hepoch⟩ := hc
    exact ⟨require_ok.mp hj, require_ok.mp ha, hrunning, hcurrent, howner, hactive, hepoch⟩
  · intro h
    refine except_bind_ok.mpr ⟨job, require_ok.mpr h.job, except_bind_ok.mpr ⟨attempt,
      require_ok.mpr h.attempt, raiseIf_bind_ok.mpr ⟨?_, rfl⟩⟩⟩
    simp only [h.running, h.current, h.owner, h.active, h.epoch, bne_self_eq_false, Bool.or_self]

/-- What `start_attempt` has checked. -/
structure Startable (m : MemoryRepository) (jobId workerId : Uuid) (j : JobRecord)
    (w : WorkerRecord) : Prop where
  job : m.jobs jobId = some j
  worker : m.workers workerId = some w
  ready : w.state = .ready
  deployment : w.deploymentId = j.deploymentId
  queued : j.state = .queued
  current : j.currentAttemptId = none
  wanted : j.cancelRequested = false

theorem startable_iff {jobId workerId : Uuid} {job : JobRecord} {worker : WorkerRecord} :
    m.startable jobId workerId = .ok (job, worker) ↔ Startable m jobId workerId job worker := by
  unfold MemoryRepository.startable
  constructor
  · intro h
    obtain ⟨j, hj, h⟩ := except_bind_ok.mp h
    obtain ⟨w, hw, h⟩ := except_bind_ok.mp h
    obtain ⟨hready, h⟩ := raiseIf_bind_ok.mp h
    obtain ⟨hdeployment, h⟩ := raiseIf_bind_ok.mp h
    obtain ⟨hqueued, h⟩ := raiseIf_bind_ok.mp h
    obtain ⟨hwanted, h⟩ := raiseIf_bind_ok.mp h
    obtain ⟨rfl, rfl⟩ := Prod.mk.inj (Except.ok.inj h)
    rw [Bool.or_eq_false_iff, bne_eq_false_iff_eq, Option.isSome_eq_false_iff,
      Option.isNone_iff_eq_none] at hqueued
    exact ⟨require_ok.mp hj, require_ok.mp hw, bne_eq_false_iff_eq.mp hready,
      bne_eq_false_iff_eq.mp hdeployment, hqueued.1, hqueued.2, hwanted⟩
  · intro h
    refine except_bind_ok.mpr ⟨job, require_ok.mpr h.job, except_bind_ok.mpr ⟨worker,
      require_ok.mpr h.worker, raiseIf_bind_ok.mpr ⟨?_, raiseIf_bind_ok.mpr ⟨?_,
      raiseIf_bind_ok.mpr ⟨?_, raiseIf_bind_ok.mpr ⟨h.wanted, rfl⟩⟩⟩⟩⟩⟩
    · rw [h.ready, bne_self_eq_false]
    · rw [h.deployment, bne_self_eq_false]
    · rw [h.queued, h.current]
      rfl

/-! ## Writes -/

/-- The three ways to end an attempt without success. -/
inductive Ending where
  | cancel | fail | retry

def Ending.call (jobId attemptId : Uuid) : Ending → MemoryCall
  | .cancel => .cancelAttempt jobId attemptId
  | .fail => .failAttempt jobId attemptId
  | .retry => .retryAttempt jobId attemptId

def Ending.terminal : Ending → AttemptState
  | .cancel => .cancelled
  | .fail => .failedTerminal
  | .retry => .failedRetryable

/-- What becomes of the job. -/
def Ending.close : Ending → JobRecord → JobRecord
  | .cancel, job =>
      { job with state := .cancelled, currentAttemptId := none, cancelRequested := true }
  | .fail, job => { job with state := .failed, currentAttemptId := none }
  | .retry, job => { job with state := .queued, currentAttemptId := none }

/-- A job that was published. -/
def JobRecord.win (attemptId : Uuid) (job : JobRecord) : JobRecord :=
  { job with state := .succeeded, currentAttemptId := none, winningAttemptId := some attemptId }

/-- A repository in which an attempt, its worker and its job were written. -/
def MemoryRepository.ended (m : MemoryRepository) (jobId attemptId : Uuid) (updated : JobRecord)
    (attempt : AttemptRecord) (worker : WorkerRecord) (terminal : AttemptState)
    (events : List JobEventRecord) : MemoryRepository :=
  { m with
    attempts := Function.update m.attempts attemptId (some { attempt with state := terminal })
    workers := Function.update m.workers attempt.workerId (some { worker with state := .ready })
    jobs := Function.update m.jobs jobId (some updated)
    events := events }

/-- What a publication has checked of the artifacts. -/
structure SuccessChecked (m : MemoryRepository) (jobId attemptId : Uuid)
    (proposed : List ArtifactRecord) (j : JobRecord) (a : AttemptRecord) : Prop where
  active : ActiveAttempt m jobId attemptId j a
  wanted : j.cancelRequested = false
  nonempty : proposed ≠ []
  artifacts : ∀ a ∈ proposed, a.jobId = jobId ∧ a.attemptId = attemptId ∧ a.state = .ready ∧
    (∃ b, m.blobs a.blobId = some b ∧ b.state = .verified) ∧
    m.artifactByAttemptKind (attemptId, a.kind) = none
  kinds : (proposed.map ArtifactRecord.kind).Nodup
  required : ∀ kind ∈ j.requiredArtifactKinds, kind ∈ proposed.map ArtifactRecord.kind

theorem checkArtifacts_ok {jobId attemptId : Uuid} (proposed : List ArtifactRecord) :
    ∀ (kinds kinds' : List ArtifactKind),
      m.checkArtifacts jobId attemptId kinds proposed = .ok kinds' →
      kinds' = kinds ++ proposed.map ArtifactRecord.kind ∧
      (∀ a ∈ proposed, a.jobId = jobId ∧ a.attemptId = attemptId ∧ a.state = .ready ∧
        (∃ b, m.blobs a.blobId = some b ∧ b.state = .verified) ∧
        m.artifactByAttemptKind (attemptId, a.kind) = none) ∧
      (proposed.map ArtifactRecord.kind).Nodup ∧ ∀ a ∈ proposed, a.kind ∉ kinds := by
  induction proposed with
  | nil =>
      intro kinds kinds' h
      rw [← Except.ok.inj h]
      exact ⟨(List.append_nil _).symm, nofun, List.nodup_nil, nofun⟩
  | cons artifact rest ih =>
      intro kinds kinds' h
      unfold MemoryRepository.checkArtifacts at h
      obtain ⟨howner, h⟩ := raiseIf_bind_ok.mp h
      obtain ⟨hready, h⟩ := raiseIf_bind_ok.mp h
      obtain ⟨b, hb, h⟩ := except_bind_ok.mp h
      obtain ⟨hverified, h⟩ := raiseIf_bind_ok.mp h
      obtain ⟨hnew, h⟩ := raiseIf_bind_ok.mp h
      obtain ⟨rfl, hall, hnodup, hfresh⟩ := ih _ _ h
      simp only [Bool.or_eq_false_iff, bne_eq_false_iff_eq] at howner
      simp only [Bool.or_eq_false_iff, List.contains_eq_mem, decide_eq_false_iff_not,
        Option.isSome_eq_false_iff, Option.isNone_iff_eq_none] at hnew
      refine ⟨by simp, fun a ha => ?_, ?_, fun a ha => ?_⟩
      · rcases List.mem_cons.mp ha with rfl | ha
        · exact ⟨howner.1, howner.2, bne_eq_false_iff_eq.mp hready,
            ⟨b, require_ok.mp hb, bne_eq_false_iff_eq.mp hverified⟩, hnew.2⟩
        · exact hall a ha
      · rw [List.map_cons, List.nodup_cons]
        refine ⟨fun hmem => ?_, hnodup⟩
        obtain ⟨a, ha, hkind⟩ := List.mem_map.mp hmem
        exact hfresh a ha (by rw [hkind]; simp)
      · rcases List.mem_cons.mp ha with rfl | ha
        · exact hnew.1
        · exact fun hmem => hfresh a ha (List.mem_append_left _ hmem)

/-- The loop of a publication writes the two dictionaries of artifacts. -/
theorem storeArtifacts_shape (attemptId : Uuid) (proposed : List ArtifactRecord) :
    ∀ m : MemoryRepository, ∃ as ks, (storeArtifacts attemptId proposed m).2 =
      { m with artifacts := as, artifactByAttemptKind := ks } := by
  induction proposed with
  | nil => exact fun m => ⟨m.artifacts, m.artifactByAttemptKind, rfl⟩
  | cons artifact rest ih =>
      intro m
      unfold storeArtifacts
      split
      · exact ⟨m.artifacts, m.artifactByAttemptKind, rfl⟩
      · obtain ⟨as, ks, h⟩ := ih { m with
          artifacts := Function.update m.artifacts artifact.artifactId (some artifact)
          artifactByAttemptKind := Function.update m.artifactByAttemptKind
            (attemptId, artifact.kind) (some artifact.artifactId) }
        exact ⟨as, ks, h⟩

theorem publishable_ok {jobId attemptId : Uuid} {proposed : List ArtifactRecord} {job : JobRecord}
    {attempt : AttemptRecord} (h : m.publishable jobId attemptId proposed = .ok (job, attempt)) :
    SuccessChecked m jobId attemptId proposed job attempt := by
  unfold MemoryRepository.publishable at h
  obtain ⟨active, hact, h⟩ := except_bind_ok.mp h
  obtain ⟨hwanted, h⟩ := raiseIf_bind_ok.mp h
  obtain ⟨hnonempty, h⟩ := raiseIf_bind_ok.mp h
  obtain ⟨kinds, hkinds, h⟩ := except_bind_ok.mp h
  obtain ⟨hrequired, h⟩ := raiseIf_bind_ok.mp h
  obtain rfl := Except.ok.inj h
  obtain ⟨rfl, hall, hnodup, _⟩ := checkArtifacts_ok proposed [] kinds hkinds
  rw [Bool.not_eq_false', List.all_eq_true] at hrequired
  refine ⟨activeAttempt_iff.mp hact, hwanted, fun hnil => ?_, hall, hnodup, fun kind hkind => ?_⟩
  · rw [hnil] at hnonempty
    exact absurd hnonempty (by simp)
  · exact List.contains_iff_mem.mp (hrequired kind hkind)

/-! ## The effect of a call -/

/-- What a call may have done. -/
inductive MemoryEffect (digest : CanonicalRequest → String) (m : MemoryRepository) :
    MemoryCall → MemoryRepository → Prop where
  | nothing (c : MemoryCall) : MemoryEffect digest m c m
  | deployments (c : MemoryCall) (ds : Uuid → Option DeploymentRecord) :
      MemoryEffect digest m c { m with deployments := ds }
  | assets (c : MemoryCall) (as : Uuid → Option AssetRecord) :
      MemoryEffect digest m c { m with assets := as }
  | worker (w : WorkerRecord) (hfree : m.workers w.workerId = none) :
      MemoryEffect digest m (.registerWorker w)
        { m with workers := Function.update m.workers w.workerId (some w) }
  | blob (b : BlobRecord) (hdigest : (m.blobByDigest b.sha256).bind m.blobs = none)
      (hfree : m.blobs b.blobId = none) :
      MemoryEffect digest m (.registerBlob b) { m with
        blobs := Function.update m.blobs b.blobId (some b)
        blobByDigest := Function.update m.blobByDigest b.sha256 (some b.blobId) }
  | setBlob (id : Uuid) (b : BlobRecord) :
      MemoryEffect digest m (.setBlob id b) { m with blobs := Function.update m.blobs id (some b) }
  | create (jobId : Uuid) (sub : Submission) (job : JobRecord) (events : List JobEventRecord)
      (hkey : m.jobByIdempotency (sub.namespaceId, sub.idempotencyKey) = none)
      (hjob : (job.jobId, job.namespaceId, job.idempotencyKey) =
        (jobId, sub.namespaceId, sub.idempotencyKey))
      (hnew : (job.state, job.currentAttemptId, job.winningAttemptId, job.cancelRequested,
        job.leaseEpoch) = (.queued, none, none, false, 0)) :
      MemoryEffect digest m (.createJob jobId sub) { m with
        jobs := Function.update m.jobs jobId (some job)
        jobByIdempotency := Function.update m.jobByIdempotency
          (sub.namespaceId, sub.idempotencyKey) (some jobId)
        events := events }
  | start (attemptId jobId workerId : Uuid) (job : JobRecord) (worker : WorkerRecord)
      (events : List JobEventRecord) (h : Startable m jobId workerId job worker) :
      MemoryEffect digest m (.startAttempt attemptId jobId workerId) { m with
        attempts := Function.update m.attempts attemptId (some ⟨attemptId, jobId, workerId,
          (m.attemptsByJob jobId).length + 1, job.leaseEpoch + 1, .active⟩)
        attemptsByJob := Function.update m.attemptsByJob jobId
          (m.attemptsByJob jobId ++ [attemptId])
        jobs := Function.update m.jobs jobId (some { job with
          state := .running, currentAttemptId := some attemptId, leaseEpoch := job.leaseEpoch + 1 })
        workers := Function.update m.workers workerId (some { worker with state := .busy })
        events := events }
  | cancelQueued (jobId : Uuid) (job : JobRecord) (events : List JobEventRecord)
      (hjob : m.jobs jobId = some job) (hqueued : job.state = .queued) :
      MemoryEffect digest m (.requestCancel jobId) { m with
        jobs := Function.update m.jobs jobId
          (some { job with state := .cancelled, cancelRequested := true })
        events := events }
  | cancelRunning (jobId : Uuid) (job : JobRecord) (events : List JobEventRecord)
      (hjob : m.jobs jobId = some job) (hrunning : job.state = .running) :
      MemoryEffect digest m (.requestCancel jobId) { m with
        jobs := Function.update m.jobs jobId (some { job with cancelRequested := true })
        events := events }
  | ended (how : Ending) (jobId attemptId : Uuid) (job : JobRecord) (attempt : AttemptRecord)
      (worker : WorkerRecord) (events : List JobEventRecord)
      (h : ActiveAttempt m jobId attemptId job attempt)
      (hworker : m.workers attempt.workerId = some worker) :
      MemoryEffect digest m (how.call jobId attemptId)
        (m.ended jobId attemptId (how.close job) attempt worker how.terminal events)
  /-- A publication that raised after its checks. -/
  | stored (jobId attemptId : Uuid) (proposed : List ArtifactRecord) (e : Error)
      (m₁ : MemoryRepository)
      (hraised : (MemoryCall.result digest (.publishSuccess jobId attemptId proposed) m).1 = .error e)
      (hstored : (storeArtifacts attemptId proposed m).2 = m₁) :
      MemoryEffect digest m (.publishSuccess jobId attemptId proposed) m₁
  | published (jobId attemptId : Uuid) (proposed : List ArtifactRecord) (job : JobRecord)
      (attempt : AttemptRecord) (worker : WorkerRecord) (events : List JobEventRecord)
      (m₁ : MemoryRepository) (h : SuccessChecked m jobId attemptId proposed job attempt)
      (hworker : m.workers attempt.workerId = some worker)
      (hstored : storeArtifacts attemptId proposed m = (.ok (), m₁)) :
      MemoryEffect digest m (.publishSuccess jobId attemptId proposed)
        (m₁.ended jobId attemptId (job.win attemptId) attempt worker .succeeded events)

variable {digest : CanonicalRequest → String}

theorem effect_finishAttempt (how : Ending) {jobId attemptId : Uuid} {eventType : EventType}
    (hstaffed : Staffed m) : MemoryEffect digest m (how.call jobId attemptId)
      (m.finishAttempt jobId attemptId how.terminal eventType how.close).2 := by
  unfold MemoryRepository.finishAttempt
  cases hactive : m.activeAttempt jobId attemptId with
  | error e => exact .nothing _
  | ok active =>
      obtain ⟨job, attempt⟩ := active
      have h := activeAttempt_iff.mp hactive
      obtain ⟨worker, hworker⟩ := Option.isSome_iff_exists.mp (hstaffed attemptId attempt h.attempt)
      dsimp only
      unfold MemoryRepository.endAttempt MemoryRepository.requireWorker
      dsimp only [MemoryRepository.setAttempt]
      rw [hworker]
      exact .ended how jobId attemptId job attempt worker _ h hworker

theorem effect_publishSuccess {jobId attemptId : Uuid} {proposed : List ArtifactRecord}
    (hstaffed : Staffed m) : MemoryEffect digest m (.publishSuccess jobId attemptId proposed)
      (m.publishSuccess jobId attemptId proposed).2 := by
  cases hchecks : m.publishable jobId attemptId proposed with
  | error e =>
      unfold MemoryRepository.publishSuccess
      rw [hchecks]
      exact .nothing _
  | ok active =>
      obtain ⟨job, attempt⟩ := active
      have h := publishable_ok hchecks
      rcases hloop : storeArtifacts attemptId proposed m with ⟨r, m₁⟩
      cases r with
      | error e =>
          have hraises := publishSuccess_raises hchecks (congrArg Prod.fst hloop)
          rw [hraises]
          refine .stored jobId attemptId proposed e _ ?_ rfl
          change (MemoryCall.reply (m.publishSuccess jobId attemptId proposed)).1 = _
          rw [hraises]
          rfl
      | ok u =>
          have hframe := storeArtifacts_frame attemptId proposed m
          rw [hloop] at hframe
          obtain ⟨worker, hworker⟩ :=
            Option.isSome_iff_exists.mp (hstaffed attemptId attempt h.active.attempt)
          have hstays : m₁.workers attempt.workerId = some worker :=
            (congrFun hframe.2.1 _).trans hworker
          unfold MemoryRepository.publishSuccess
          rw [hchecks, hloop]
          dsimp only
          unfold MemoryRepository.endAttempt MemoryRepository.requireWorker
          dsimp only [MemoryRepository.setAttempt]
          rw [hstays]
          exact .published jobId attemptId proposed job attempt worker _ m₁ h hworker hloop

theorem creatable_new {jobId : Uuid} {hash : String} {sub : Submission} {job : JobRecord}
    (h : m.creatable jobId hash sub = .ok job) :
    (job.jobId, job.namespaceId, job.idempotencyKey)
        = (jobId, sub.namespaceId, sub.idempotencyKey) ∧
      (job.state, job.currentAttemptId, job.winningAttemptId, job.cancelRequested, job.leaseEpoch)
        = (.queued, none, none, false, 0) := by
  unfold MemoryRepository.creatable at h
  obtain ⟨_, _, h⟩ := except_bind_ok.mp h
  obtain ⟨_, h⟩ := raiseIf_bind_ok.mp h
  obtain ⟨_, h⟩ := raiseIf_bind_ok.mp h
  obtain ⟨_, _, h⟩ := except_bind_ok.mp h
  unfold JobRecord.checked at h
  obtain ⟨_, _, h⟩ := except_bind_ok.mp h
  rw [← Except.ok.inj h]
  exact ⟨rfl, rfl⟩

/-- **What a call does.** -/
theorem MemoryCall.effect (c : MemoryCall) (hstaffed : Staffed m) :
    MemoryEffect digest m c (c.run digest m) := by
  -- the guards come first in every method: `split` follows them in their order
  cases c with
  | registerDeployment deployment =>
      simp only [MemoryCall.run, MemoryRepository.registerDeployment]
      split
      · exact .nothing _
      · exact .deployments _ _
  | registerWorker worker =>
      simp only [MemoryCall.run, MemoryRepository.registerWorker]
      split
      · exact .nothing _
      · split
        · exact .nothing _
        · rename_i hfree
          exact .worker worker (by simpa using hfree)
  | registerBlob blob =>
      simp only [MemoryCall.run, MemoryRepository.registerBlob]
      split
      · split
        · exact .nothing _
        · exact .nothing _
      · rename_i hdigest
        split
        · exact .nothing _
        · rename_i hfree
          exact .blob blob hdigest (by simpa using hfree)
  | createAsset asset =>
      simp only [MemoryCall.run, MemoryRepository.createAsset]
      split
      · exact .nothing _
      · split
        · exact .nothing _
        · split
          · exact .nothing _
          · exact .assets _ _
  | createJob jobId sub =>
      simp only [MemoryCall.run, MemoryRepository.createJob]
      split
      · exact .nothing _
      · split
        · split
          · exact .nothing _
          · split
            · exact .nothing _
            · exact .nothing _
        · rename_i hkey
          split
          · exact .nothing _
          · rename_i job hcreatable
            obtain ⟨hjob, hnew⟩ := creatable_new hcreatable
            exact .create jobId sub job _ hkey hjob hnew
  | startAttempt attemptId jobId workerId =>
      simp only [MemoryCall.run, MemoryRepository.startAttempt]
      split
      · exact .nothing _
      · rename_i job worker h
        exact .start attemptId jobId workerId job worker _ (startable_iff.mp h)
  | requestCancel jobId =>
      simp only [MemoryCall.run, MemoryRepository.requestCancel]
      split
      · exact .nothing _
      · rename_i job hjob
        split
        · rename_i hstate
          exact .cancelQueued jobId job _ (require_ok.mp hjob) hstate
        · rename_i hstate
          exact .cancelRunning jobId job _ (require_ok.mp hjob) hstate
        · exact .nothing _
  | cancelAttempt jobId attemptId => exact effect_finishAttempt .cancel hstaffed
  | failAttempt jobId attemptId => exact effect_finishAttempt .fail hstaffed
  | retryAttempt jobId attemptId => exact effect_finishAttempt .retry hstaffed
  | publishSuccess jobId attemptId proposed => exact effect_publishSuccess hstaffed
  | setDeployment id deployment => exact .deployments _ _
  | setAsset id asset => exact .assets _ _
  | setBlob id blob => exact .setBlob id blob

end NanoAural
