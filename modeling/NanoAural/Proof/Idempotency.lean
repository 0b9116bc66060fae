import NanoAural.Durable.PostgresRepository
import NanoAural.Proof.CallEffects

/-!
# Replaying a submission

A client that lost its answer submits again under the same key. The job is still
there, with everything it was submitted with: nothing either repository does
rewrites those columns, so `MemoryKeeps` and `KeepsJobs` hold across any run.

The two implementations part where they look. The in-memory one asks for the key
first. The PostgreSQL one first asks for a READY deployment, so a replay is
recognised exactly while the deployment the job was submitted to is READY.
-/

namespace NanoAural

open Relational Machine

/-! ## What a submission leaves behind -/

/-- The fields of a record that say what was submitted. -/
def JobRecord.submitted (r : JobRecord) :=
  (r.jobId, r.namespaceId, r.idempotencyKey, r.requestSha256, r.request, r.deploymentId, r.inputs,
    r.requiredArtifactKinds)

/-- The columns of a job row that say what was submitted. -/
def JobRow.submitted (j : JobRow) :=
  (j.id, j.namespaceId, j.idempotencyKey, j.requestSha256, j.requestJson, j.modelDeploymentId,
    j.requiredArtifactKinds)

theorem require_ok {α : Type} {entry : Option α} {e : Error} {a : α} :
    require entry e = .ok a ↔ entry = some a := by
  cases entry <;> simp [require]

/-- A submission whose hash is computed names a text as its namespace and key, and a valid set of
artifact kinds. -/
theorem requestHash_ok {digest : CanonicalRequest → String} {sub : Submission} {hash : String}
    (h : sub.requestHash digest = .ok hash) : isBlank sub.namespaceId = false
      ∧ isBlank sub.idempotencyKey = false
      ∧ sub.requiredArtifactKinds.isEmpty = false ∧ sub.requiredArtifactKinds.Nodup
      ∧ ∃ canonical, canonicalRequest sub = .ok canonical ∧ hash = digest canonical := by
  unfold Submission.requestHash at h
  obtain ⟨h₁, h⟩ := raiseIf_bind_ok.mp h
  obtain ⟨h₂, h⟩ := raiseIf_bind_ok.mp h
  obtain ⟨h₃, h⟩ := raiseIf_bind_ok.mp h
  obtain ⟨h₄, h⟩ := raiseIf_bind_ok.mp h
  obtain ⟨canonical, hc, h⟩ := except_bind_ok.mp h
  exact ⟨h₁, h₂, h₃, by simpa using h₄, canonical, hc, (Except.ok.inj h).symm⟩

/-- The hash does not depend on the key. -/
theorem requestHash_key {digest : CanonicalRequest → String} {sub : Submission} {hash : String}
    {key key' : String}
    (h : ({ sub with idempotencyKey := key } : Submission).requestHash digest = .ok hash)
    (hkey : isBlank key' = false) :
    ({ sub with idempotencyKey := key' } : Submission).requestHash digest = .ok hash := by
  obtain ⟨h₁, _, h₃, h₄, canonical, hc, rfl⟩ := requestHash_ok h
  unfold Submission.requestHash
  refine raiseIf_bind_ok.mpr ⟨h₁, raiseIf_bind_ok.mpr ⟨hkey, raiseIf_bind_ok.mpr ⟨h₃,
    raiseIf_bind_ok.mpr ⟨by simp [h₄], except_bind_ok.mpr ⟨canonical, hc, rfl⟩⟩⟩⟩⟩

/-! ## In memory -/

section Memory

variable {digest : CanonicalRequest → String} {m m' : MemoryRepository}

/-- Every job keeps what it was submitted with, and every key its job. -/
structure MemoryKeeps (m m' : MemoryRepository) : Prop where
  jobs : ∀ id r, m.jobs id = some r → ∃ r', m'.jobs id = some r' ∧ r'.submitted = r.submitted
  keys : ∀ key id, m.jobByIdempotency key = some id → m'.jobByIdempotency key = some id

theorem MemoryKeeps.of_eq (hj : m'.jobs = m.jobs) (hk : m'.jobByIdempotency = m.jobByIdempotency) :
    MemoryKeeps m m' :=
  ⟨fun _ r hr => ⟨r, by rw [hj, hr], rfl⟩, fun _ _ hid => by rw [hk, hid]⟩

theorem MemoryKeeps.refl (m : MemoryRepository) : MemoryKeeps m m := .of_eq rfl rfl

theorem MemoryKeeps.trans {m₁ m₂ m₃ : MemoryRepository} (h : MemoryKeeps m₁ m₂)
    (h' : MemoryKeeps m₂ m₃) : MemoryKeeps m₁ m₃ := by
  refine ⟨fun id r hr => ?_, fun key id hid => h'.keys _ _ (h.keys _ _ hid)⟩
  obtain ⟨r₂, hr₂, hs₂⟩ := h.jobs id r hr
  obtain ⟨r₃, hr₃, hs₃⟩ := h'.jobs id r₂ hr₂
  exact ⟨r₃, hr₃, hs₃.trans hs₂⟩

/-- Replacing a job by one that was submitted alike. -/
theorem MemoryKeeps.of_set {id : Uuid} {r r' : JobRecord} (hr : m.jobs id = some r)
    (hs : r'.submitted = r.submitted) (hj : m'.jobs = Function.update m.jobs id (some r'))
    (hk : m'.jobByIdempotency = m.jobByIdempotency) : MemoryKeeps m m' := by
  refine ⟨fun k x hx => ?_, fun _ _ hid => by rw [hk, hid]⟩
  by_cases hkid : k = id
  · subst hkid
    rw [hr] at hx
    obtain rfl := Option.some.inj hx
    exact ⟨r', by rw [hj, Function.update_self], hs⟩
  · exact ⟨x, by rw [hj, Function.update_of_ne hkid, hx], rfl⟩

theorem activeAttempt_ok {jobId attemptId : Uuid} {job : JobRecord} {attempt : AttemptRecord}
    (h : m.activeAttempt jobId attemptId = .ok (job, attempt)) : m.jobs jobId = some job := by
  unfold MemoryRepository.activeAttempt at h
  obtain ⟨j, hj, h⟩ := except_bind_ok.mp h
  obtain ⟨a, _, h⟩ := except_bind_ok.mp h
  obtain ⟨_, h⟩ := raiseIf_bind_ok.mp h
  obtain ⟨rfl, _⟩ := Prod.mk.inj (Except.ok.inj h)
  exact require_ok.mp hj

theorem endAttempt_keeps {jobId attemptId : Uuid} {job updated : JobRecord}
    {attempt : AttemptRecord} {terminal : AttemptState} {eventType : EventType}
    (hj : m.jobs jobId = some job) (hs : updated.submitted = job.submitted) :
    MemoryKeeps m (m.endAttempt jobId attemptId updated attempt terminal eventType).2 := by
  unfold MemoryRepository.endAttempt
  dsimp only
  split
  · exact .of_eq rfl rfl
  · exact .of_set hj hs rfl rfl

theorem finishAttempt_keeps {jobId attemptId : Uuid} {terminal : AttemptState}
    {eventType : EventType} {close : JobRecord → JobRecord}
    (hclose : ∀ job, (close job).submitted = job.submitted) :
    MemoryKeeps m (m.finishAttempt jobId attemptId terminal eventType close).2 := by
  unfold MemoryRepository.finishAttempt
  split
  · exact .refl m
  · rename_i job attempt h
    exact endAttempt_keeps (activeAttempt_ok h) (hclose job)

theorem storeArtifacts_keeps (attemptId : Uuid) : ∀ (proposed : List ArtifactRecord)
    (m : MemoryRepository), (MemoryRepository.storeArtifacts attemptId proposed m).2.jobs = m.jobs
      ∧ (MemoryRepository.storeArtifacts attemptId proposed m).2.jobByIdempotency
          = m.jobByIdempotency := by
  intro proposed
  induction proposed with
  | nil => exact fun m => ⟨rfl, rfl⟩
  | cons artifact rest ih =>
      intro m
      unfold MemoryRepository.storeArtifacts
      split
      · exact ⟨rfl, rfl⟩
      · exact ih _

theorem publishSuccess_keeps {jobId attemptId : Uuid} {proposed : List ArtifactRecord} :
    MemoryKeeps m (m.publishSuccess jobId attemptId proposed).2 := by
  unfold MemoryRepository.publishSuccess
  split
  · exact .refl m
  · rename_i job attempt h
    have hj : m.jobs jobId = some job := by
      unfold MemoryRepository.publishable at h
      obtain ⟨active, hact, h⟩ := except_bind_ok.mp h
      obtain ⟨_, h⟩ := raiseIf_bind_ok.mp h
      obtain ⟨_, h⟩ := raiseIf_bind_ok.mp h
      obtain ⟨_, _, h⟩ := except_bind_ok.mp h
      obtain ⟨_, h⟩ := raiseIf_bind_ok.mp h
      obtain rfl := Except.ok.inj h
      exact activeAttempt_ok hact
    obtain ⟨hjobs, hkeys⟩ := storeArtifacts_keeps attemptId proposed m
    split
    · rename_i hstore
      rw [hstore] at hjobs hkeys
      exact .of_eq hjobs hkeys
    · rename_i hstore
      rw [hstore] at hjobs hkeys
      have hstored := (congrFun hjobs jobId).trans hj
      exact (MemoryKeeps.of_eq hjobs hkeys).trans (endAttempt_keeps hstored rfl)

theorem creatable_ok {jobId : Uuid} {hash : String} {sub : Submission} {job : JobRecord}
    (h : m.creatable jobId hash sub = .ok job) : job.requestSha256 = hash := by
  unfold MemoryRepository.creatable at h
  obtain ⟨_, _, h⟩ := except_bind_ok.mp h
  obtain ⟨_, h⟩ := raiseIf_bind_ok.mp h
  obtain ⟨_, h⟩ := raiseIf_bind_ok.mp h
  obtain ⟨_, _, h⟩ := except_bind_ok.mp h
  unfold JobRecord.checked at h
  obtain ⟨_, _, h⟩ := except_bind_ok.mp h
  rw [← Except.ok.inj h]

theorem memory_createJob_keeps {jobId : Uuid} {sub : Submission} (hfresh : m.jobs jobId = none) :
    MemoryKeeps m (m.createJob digest jobId sub).2 := by
  unfold MemoryRepository.createJob
  split
  · exact .refl m
  · split
    · split
      · exact .refl m
      · split <;> exact .refl m
    · rename_i hnone
      split
      · exact .refl m
      · rename_i job hnew
        refine ⟨fun id r hr => ⟨r, ?_, rfl⟩, fun key id hid => ?_⟩
        · -- the new identifier is no job's
          have hne : id ≠ jobId := fun he => by
            rw [he, hfresh] at hr
            exact absurd hr (by simp)
          exact (Function.update_of_ne hne _ _).trans hr
        · have hne : key ≠ (sub.namespaceId, sub.idempotencyKey) := fun he => by
            rw [he, hnone] at hid
            exact absurd hid (by simp)
          exact (Function.update_of_ne hne _ _).trans hid

/-- **Nothing rewrites a submission held in memory.** -/
theorem MemoryCall.keeps (c : MemoryCall) (hfresh : c.fresh m) :
    MemoryKeeps m (c.run digest m) := by
  cases c with
  | registerDeployment deployment =>
      show MemoryKeeps m (m.registerDeployment deployment).2
      unfold MemoryRepository.registerDeployment
      split <;> exact .of_eq rfl rfl
  | registerWorker worker =>
      show MemoryKeeps m (m.registerWorker worker).2
      unfold MemoryRepository.registerWorker
      split
      · exact .refl m
      · split <;> exact .of_eq rfl rfl
  | registerBlob blob =>
      show MemoryKeeps m (m.registerBlob blob).2
      unfold MemoryRepository.registerBlob
      split <;> split <;> exact .of_eq rfl rfl
  | createAsset asset =>
      show MemoryKeeps m (m.createAsset asset).2
      unfold MemoryRepository.createAsset
      split
      · exact .refl m
      · split
        · exact .refl m
        · split <;> exact .of_eq rfl rfl
  | createJob jobId sub => exact memory_createJob_keeps hfresh
  | startAttempt attemptId jobId workerId =>
      show MemoryKeeps m (m.startAttempt attemptId jobId workerId).2
      unfold MemoryRepository.startAttempt
      split
      · exact .refl m
      · rename_i job worker h
        unfold MemoryRepository.startable at h
        obtain ⟨j, hj, h⟩ := except_bind_ok.mp h
        obtain ⟨w, _, h⟩ := except_bind_ok.mp h
        obtain ⟨_, h⟩ := raiseIf_bind_ok.mp h
        obtain ⟨_, h⟩ := raiseIf_bind_ok.mp h
        obtain ⟨_, h⟩ := raiseIf_bind_ok.mp h
        obtain ⟨_, h⟩ := raiseIf_bind_ok.mp h
        obtain ⟨rfl, _⟩ := Prod.mk.inj (Except.ok.inj h)
        -- a started job keeps what was submitted
        refine .of_set (require_ok.mp hj) ?_ rfl rfl
        rfl
  | requestCancel jobId =>
      show MemoryKeeps m (m.requestCancel jobId).2
      unfold MemoryRepository.requestCancel
      split
      · exact .refl m
      · rename_i job h
        have hj := require_ok.mp h
        split
        · exact .of_set hj (by rfl) rfl rfl
        · exact .of_set hj (by rfl) rfl rfl
        · exact .refl m
  | cancelAttempt jobId attemptId => exact finishAttempt_keeps fun _ => rfl
  | failAttempt jobId attemptId => exact finishAttempt_keeps fun _ => rfl
  | retryAttempt jobId attemptId => exact finishAttempt_keeps fun _ => rfl
  | publishSuccess jobId attemptId proposed => exact publishSuccess_keeps
  | setDeployment id deployment => exact .of_eq rfl rfl
  | setAsset id asset => exact .of_eq rfl rfl
  | setBlob id blob => exact .of_eq rfl rfl

theorem memory_keeps (hr : (memorySystem digest).Runs m m') : MemoryKeeps m m' := by
  have hstep : ∀ s s', (memorySystem digest).step s s' → MemoryKeeps s s' := by
    rintro s _ ⟨c, hfresh, rfl⟩
    exact c.keeps hfresh
  exact System.Runs.respects MemoryKeeps.refl (fun _ _ _ => MemoryKeeps.trans) hstep hr

/-- A submission that succeeds finds or leaves its job under its key. -/
theorem memory_createJob_ok {jobId : Uuid} {sub : Submission} {job : JobRecord}
    (h : m.createJob digest jobId sub = (.ok job, m')) :
    ∃ hash id, sub.requestHash digest = .ok hash
      ∧ m'.jobByIdempotency (sub.namespaceId, sub.idempotencyKey) = some id
      ∧ m'.jobs id = some job ∧ job.requestSha256 = hash := by
  unfold MemoryRepository.createJob at h
  split at h
  · exact absurd (congrArg Prod.fst h) (by simp)
  · rename_i hash hhash
    refine ⟨hash, ?_⟩
    split at h
    · rename_i id hid
      split at h
      · exact absurd (congrArg Prod.fst h) (by simp)
      · rename_i existing hex
        split at h
        · exact absurd (congrArg Prod.fst h) (by simp)
        · rename_i hsame
          obtain ⟨hjob, rfl⟩ := Prod.mk.inj h
          obtain rfl := Except.ok.inj hjob
          exact ⟨id, hhash, hid, require_ok.mp hex, by simpa using hsame⟩
    · split at h
      · exact absurd (congrArg Prod.fst h) (by simp)
      · rename_i created hnew
        obtain ⟨hjob, rfl⟩ := Prod.mk.inj h
        obtain rfl := Except.ok.inj hjob
        exact ⟨jobId, hhash, Function.update_self .., Function.update_self .., creatable_ok hnew⟩

/-- The record a key names. -/
def MemoryRepository.named (m : MemoryRepository) (sub : Submission) : Option JobRecord :=
  (m.jobByIdempotency (sub.namespaceId, sub.idempotencyKey)).bind m.jobs

/-- **In memory a replay is recognised, whatever happened since.** -/
theorem memory_replay {m₁ m₂ : MemoryRepository} {jobId : Uuid} {sub : Submission} {job : JobRecord}
    (hfirst : m.createJob digest jobId sub = (.ok job, m₁)) (hr : (memorySystem digest).Runs m₁ m₂) :
    ∃ job', m₂.named sub = some job' ∧ job'.submitted = job.submitted
      ∧ (∀ id, m₂.createJob digest id sub = (.ok job', m₂))
      ∧ ∀ id (sub' : Submission), sub'.namespaceId = sub.namespaceId →
          sub'.idempotencyKey = sub.idempotencyKey → (∃ hash, sub'.requestHash digest = .ok hash) →
          sub'.requestHash digest ≠ sub.requestHash digest →
          m₂.createJob digest id sub' = (.error idempotencyConflict, m₂) := by
  obtain ⟨hash, id₁, hhash, hkey, hjob, hsame⟩ := memory_createJob_ok hfirst
  have hkeep := memory_keeps hr
  obtain ⟨job', hjob', hsub⟩ := hkeep.jobs id₁ job hjob
  have hkey' := hkeep.keys _ _ hkey
  have hsame' : job'.requestSha256 = hash := by
    simp only [JobRecord.submitted, Prod.mk.injEq] at hsub
    exact hsub.2.2.2.1.trans hsame
  have hreq : m₂.requireJob id₁ = .ok job' := require_ok.mpr hjob'
  refine ⟨job', ?_, hsub, fun id => ?_, fun id sub' hns hk ⟨hash', hhash'⟩ hdiff => ?_⟩
  · rw [MemoryRepository.named, hkey', Option.bind_some, hjob']
  · unfold MemoryRepository.createJob
    rw [hhash]
    dsimp only
    rw [hkey']
    dsimp only
    rw [hreq]
    dsimp only
    rw [if_neg (by simp [hsame'])]
  · have hne : hash' ≠ hash := fun he => hdiff (by rw [hhash, hhash', he])
    unfold MemoryRepository.createJob
    rw [hhash', hns, hk]
    dsimp only
    rw [hkey']
    dsimp only
    rw [hreq]
    dsimp only
    rw [if_pos (by simp [hsame', hne.symm])]

end Memory

/-! ## In PostgreSQL -/

section Postgres

variable {digest : CanonicalRequest → String} {json : JsonColumn} {db db' : Db}

/-- Every job keeps the columns and the inputs it was submitted with. -/
structure KeepsJobs (db db' : Db) : Prop where
  jobs : ∀ id j, db.jobs.find? id = some j →
    ∃ j', db'.jobs.find? id = some j' ∧ j'.submitted = j.submitted
  inputs : ∀ id j, db.jobs.find? id = some j → inputsOf db' id = inputsOf db id

theorem KeepsJobs.of_eq (hj : db'.jobs = db.jobs) (hi : db'.jobInputs = db.jobInputs) :
    KeepsJobs db db' :=
  ⟨fun _ j h => ⟨j, by rw [hj, h], rfl⟩, fun _ _ _ => by rw [inputsOf, inputsOf, hi]⟩

theorem KeepsJobs.refl (db : Db) : KeepsJobs db db := .of_eq rfl rfl

theorem KeepsJobs.trans {a b c : Db} (h : KeepsJobs a b) (h' : KeepsJobs b c) : KeepsJobs a c := by
  refine ⟨fun id j hj => ?_, fun id j hj => ?_⟩
  · obtain ⟨j₂, hj₂, hs₂⟩ := h.jobs id j hj
    obtain ⟨j₃, hj₃, hs₃⟩ := h'.jobs id j₂ hj₂
    exact ⟨j₃, hj₃, hs₃.trans hs₂⟩
  · obtain ⟨j₂, hj₂, _⟩ := h.jobs id j hj
    exact (h'.inputs id j₂ hj₂).trans (h.inputs id j hj)

/-- Replacing a job's row by one that was submitted alike. -/
theorem KeepsJobs.of_put {j j' : JobRow} (htj : db.jobs.put? j' = some db'.jobs)
    (hj : db.jobs.find? j.id = some j) (hs : j'.submitted = j.submitted)
    (hi : db'.jobInputs = db.jobInputs) : KeepsJobs db db' := by
  refine ⟨fun id x hx => ?_, fun _ _ _ => by rw [inputsOf, inputsOf, hi]⟩
  have hid : j'.id = j.id := by
    simp only [JobRow.submitted, Prod.mk.injEq] at hs
    exact hs.1
  have hf : db.jobs.find? (Schema.key j') = some j := by rw [← hj]; exact congrArg _ hid
  by_cases hk : id = Schema.key j'
  · subst hk
    rw [hf] at hx
    obtain rfl := Option.some.inj hx
    exact ⟨j', Table.put?_self htj hf, hs⟩
  · exact ⟨x, (Table.put?_other htj hf hk).trans hx, rfl⟩

/-- **No effect of the queue or the ledger rewrites a submission.** -/
theorem KeepsJobs.of_effect {allowed : Int → Prop} (he : Effect json allowed db db') :
    KeepsJobs db db' := by
  cases he with
  | claim hw hready hj hjob hta htj htw hte => exact .of_put htj hj rfl rfl
  | requestCancel hj hs hc htj hte =>
      refine .of_put htj hj ?_ rfl
      rfl
  | close hh hm hta htj htw hte =>
      refine .of_put htj (hh.jobId.symm ▸ hh.job) ?_ rfl
      unfold JobRow.leave
      split <;> rfl
  | win hh hu hc hitems htp htr hta htj htw hte =>
      have hj := hh.jobId.symm ▸ hh.job
      exact .of_put htj hj rfl rfl
  | _ => exact .of_eq rfl rfl

/-- A transaction keeps the jobs if its body does. -/
theorem KeepsJobs.of_commit {α : Type} {body : Sql α}
    (h : ∀ a s, body ⟨db, []⟩ = .ok (a, s) → KeepsJobs db s.db) :
    KeepsJobs db (commit body db).2 := by
  rcases transaction_cases Deferred.verify body db with ⟨a, s, hb, _, ht⟩ | ⟨e, ht⟩
  · rw [commit, ht]
    exact h a s hb
  · rw [commit, ht]
    exact .refl db

/-- A statement on a table other than the jobs and their inputs. -/
def Elsewhere {ρ κ : Type} [Schema ρ κ] (T : Target ρ) : Prop :=
  ∀ db t, (T.store db t).jobs = db.jobs ∧ (T.store db t).jobInputs = db.jobInputs

section Statements

variable {ρ κ : Type} [Schema ρ κ] {T : Target ρ} {s s' : Session Db Deferred}

theorem KeepsJobs.of_insert {row : ρ} {u : Unit} (hT : Elsewhere T)
    (h : insert T row s = .ok (u, s')) : KeepsJobs s.db s'.db := by
  obtain ⟨_, t, _, _, rfl⟩ := insert_ok h
  exact .of_eq (hT _ t).1 (hT _ t).2

theorem KeepsJobs.of_insertUnless {conflict : ρ → ρ → Bool} {row : ρ} {added : Bool}
    (hT : Elsewhere T) (h : insertUnless T conflict row s = .ok (added, s')) :
    KeepsJobs s.db s'.db := by
  obtain ⟨_, _, _, ⟨_, rfl, _⟩ | ⟨t, _, _, _, rfl⟩⟩ := insertUnless_ok h
  · exact .refl _
  · exact .of_eq (hT _ t).1 (hT _ t).2

theorem KeepsJobs.of_update {id : κ} {cond : ρ → Bool} {set : ρ → ρ} {n : Nat}
    (hT : Elsewhere T) (h : update T id cond set s = .ok (n, s')) : KeepsJobs s.db s'.db := by
  rcases update_ok h with ⟨_, rfl, _⟩ | ⟨_, _, t, _, _, _, _, _, rfl⟩
  · exact .refl _
  · exact .of_eq (hT _ t).1 (hT _ t).2

end Statements

/-! ### Creating a job -/

/-- The inputs of a new job are its own, and its insertion touches no other job. -/
theorem insertInputs_ok {jobId : Uuid} : ∀ {items : List JobInput} {s s' : Session Db Deferred}
    {u : Unit}, insertInputs jobId items s = .ok (u, s') → s'.db.jobs = s.db.jobs
      ∧ ∀ id, id ≠ jobId → inputsOf s'.db id = inputsOf s.db id := by
  intro items
  induction items with
  | nil =>
      intro s s' u h
      obtain ⟨_, rfl⟩ := Tx.pure_ok.mp h
      exact ⟨rfl, fun _ _ => rfl⟩
  | cons item items ih =>
      intro s s' u h
      unfold insertInputs at h
      obtain ⟨_, s₁, h₁, h⟩ := Tx.bind_ok.mp h
      obtain ⟨new, t, hb, ht, rfl⟩ := insert_ok h₁
      obtain ⟨_, rfl⟩ := guarded_ok.mp hb
      obtain ⟨hj, hi⟩ := ih h
      refine ⟨hj, fun id hid => (hi id hid).trans ?_⟩
      show (t.rows.filter (·.jobId == id)) = _
      rw [Table.insert?_rows ht, List.filter_append]
      simp [inputsOf, Ne.symm hid, jobInputsTable]

theorem event_keeps {jobId : Uuid} {attemptId : Option Uuid} {eventType : EventType} {u : Unit}
    {s s' : Session Db Deferred} (h : event jobId attemptId eventType s = .ok (u, s')) :
    s'.db.jobs = s.db.jobs ∧ s'.db.jobInputs = s.db.jobInputs := by
  obtain ⟨t, _, rfl⟩ := event_ok h
  exact ⟨rfl, rfl⟩

theorem jobByKey_ok {ns key : String} {s s' : Session Db Deferred} {job : JobRecord}
    (h : jobByKey ns key s = .ok (job, s')) : s = s' ∧ ∃ j ∈ s.db.jobs.rows,
      j.namespaceId = ns ∧ j.idempotencyKey = key ∧ getJob j.id s.db = .ok job := by
  unfold jobByKey at h
  simp only [select_bind, Tx.orFail_bind] at h
  obtain ⟨j, hfind, h⟩ := h
  obtain ⟨hget, rfl⟩ := Tx.lift_ok.mp h
  have hp := List.find?_some hfind
  simp only [Bool.and_eq_true, beq_iff_eq] at hp
  exact ⟨rfl, j, List.mem_of_find?_eq_some hfind, hp.1, hp.2, hget⟩

/-- **What the transaction of `create_job` does**: it finds the job of its key, or adds one. -/
theorem createJobRows_ok {jobId : Uuid} {sub : Submission} {hash : String}
    {found : Option JobRecord} {s : Session Db Deferred}
    (h : createJobRows json jobId sub hash ⟨db, []⟩ = .ok (found, s)) :
    (∃ d, db.deployments.find? sub.deploymentId = some d ∧ d.state = .ready)
      ∧ Schema.check (submittedRow json jobId sub hash db.clock) = true
      ∧ ((∃ job j, found = some job ∧ s.db = db ∧ j ∈ db.jobs.rows
            ∧ j.namespaceId = sub.namespaceId ∧ j.idempotencyKey = sub.idempotencyKey
            ∧ getJob j.id db = .ok job ∧ job.requestSha256 = hash)
        ∨ (found = none ∧ KeepsJobs db s.db
            ∧ s.db.jobs.find? jobId = some (submittedRow json jobId sub hash db.clock))) := by
  unfold createJobRows at h
  simp only [select_bind, Tx.orFail_bind, Tx.ensure_bind] at h
  obtain ⟨d, hd, hready, h⟩ := h
  refine ⟨⟨d, hd, by simpa using hready⟩, ?_⟩
  obtain ⟨added, s₁, h₁, h⟩ := Tx.bind_ok.mp h
  obtain ⟨new, hb, hcheck, hcase⟩ := insertUnless_ok h₁
  obtain ⟨_, rfl⟩ := guarded_ok.mp hb
  refine ⟨hcheck, ?_⟩
  -- the key is taken, and the job of the key is read; or the row is inserted
  rcases hcase with ⟨rfl, rfl, _⟩ | ⟨t, rfl, _, ht, rfl⟩
  · obtain ⟨existing, s₂, h₂, h⟩ := Tx.bind_ok.mp h
    obtain ⟨rfl, j, hj, hns, hkey, hget⟩ := jobByKey_ok h₂
    rw [Tx.ensure_bind] at h
    obtain ⟨hsame, h⟩ := h
    obtain ⟨rfl, rfl⟩ := Tx.pure_ok.mp h
    exact Or.inl ⟨existing, j, rfl, rfl, hj, hns, hkey, hget, by simpa using hsame⟩
  · obtain ⟨_, s₂, h₂, h⟩ := Tx.bind_ok.mp h
    obtain ⟨_, s₃, h₃, h⟩ := Tx.bind_ok.mp h
    obtain ⟨rfl, rfl⟩ := Tx.pure_ok.mp h
    obtain ⟨hj₂, hi₂⟩ := insertInputs_ok h₂
    obtain ⟨hj₃, hi₃⟩ := event_keeps h₃
    have hjobs : s₃.db.jobs = t := hj₃.trans hj₂
    -- the inputs of the other jobs are not those just inserted
    have hne : ∀ id j, db.jobs.find? id = some j → id ≠ jobId := fun id j hf he => by
      have hfresh : db.jobs.find? jobId = none := Table.insert?_fresh ht
      rw [he, hfresh] at hf
      exact absurd hf (by simp)
    refine Or.inr ⟨rfl, ⟨fun id j hf => ⟨j, ?_, rfl⟩, fun id j hf => ?_⟩, ?_⟩
    · rw [hjobs]
      exact Table.insert?_keep ht hf
    · rw [inputsOf, hi₃]
      exact hi₂ id (hne id j hf)
    · rw [hjobs]
      exact Table.insert?_self ht

/-- The record of a job row keeps what the row says was submitted. -/
theorem jobRecord_ok {j : JobRow} {inputs : List JobInputRow} {job : JobRecord}
    (h : jobRecord j inputs = .ok job) : job.jobId = j.id ∧ job.requestSha256 = j.requestSha256 := by
  unfold jobRecord at h
  obtain ⟨_, _, h⟩ := except_bind_ok.mp h
  unfold JobRecord.checked at h
  obtain ⟨_, _, h⟩ := except_bind_ok.mp h
  rw [← Except.ok.inj h]
  exact ⟨rfl, rfl⟩

/-- A row that was submitted alike has a record that was submitted alike. -/
theorem jobRecord_congr {j j' : JobRow} {inputs : List JobInputRow} {job : JobRecord}
    (h : jobRecord j inputs = .ok job) (hs : j'.submitted = j.submitted) :
    ∃ job', jobRecord j' inputs = .ok job' ∧ job'.submitted = job.submitted := by
  simp only [JobRow.submitted, Prod.mk.injEq] at hs
  obtain ⟨h₁, h₂, h₃, h₄, h₅, h₆, h₇⟩ := hs
  unfold jobRecord at h
  obtain ⟨items, hitems, h⟩ := except_bind_ok.mp h
  unfold JobRecord.checked at h
  obtain ⟨_, hcheck, h⟩ := except_bind_ok.mp h
  refine ⟨_, except_bind_ok.mpr ⟨items, hitems, except_bind_ok.mpr ⟨(), ?_, rfl⟩⟩, ?_⟩
  · rw [← hcheck]
    simp only [JobRecord.check, h₂, h₃, h₄, h₅, h₇]
  · rw [← Except.ok.inj h]
    simp only [JobRecord.submitted, h₁, h₂, h₃, h₄, h₅, h₆, h₇]

/-- A job's record can be read as long as its submission is kept. -/
theorem getJob_keeps {jobId : Uuid} {job : JobRecord} (hk : KeepsJobs db db')
    (h : getJob jobId db = .ok job) :
    ∃ job', getJob jobId db' = .ok job' ∧ job'.submitted = job.submitted := by
  unfold getJob at h
  split at h
  · exact absurd h (by simp)
  · rename_i j hj
    obtain ⟨j', hj', hs⟩ := hk.jobs jobId j hj
    unfold getJob
    rw [hj', hk.inputs jobId j hj]
    exact jobRecord_congr h hs

/-- **A submission that succeeds** names a READY deployment, and leaves its job under its key. -/
theorem createJob_ok {jobId : Uuid} {sub : Submission} {job : JobRecord}
    (h : createJob digest json jobId sub db = (.ok job, db')) :
    ∃ hash, sub.admissible digest = .ok hash
      ∧ (∃ d, db.deployments.find? sub.deploymentId = some d ∧ d.state = .ready)
      ∧ Schema.check (submittedRow json jobId sub hash db.clock) = true
      ∧ KeepsJobs db db'
      ∧ ∃ j ∈ db'.jobs.rows, j.namespaceId = sub.namespaceId
          ∧ j.idempotencyKey = sub.idempotencyKey ∧ getJob j.id db' = .ok job
          ∧ job.jobId = j.id ∧ job.requestSha256 = hash := by
  unfold createJob at h
  split at h
  · exact absurd (congrArg Prod.fst h) (by simp)
  · rename_i hash hadm
    -- what is read under an identifier is the record of that row
    have hget : ∀ {id : Uuid} {db : Db} {job : JobRecord}, getJob id db = .ok job →
        job.jobId = id := fun {id db job} hg => by
      unfold getJob at hg
      split at hg
      · exact absurd hg (by simp)
      · rename_i j hj
        exact (jobRecord_ok hg).1.trans (Table.key_of_find? hj)
    split at h
    · exact absurd (congrArg Prod.fst h) (by simp)
    · rename_i existing db₁ hcommit
      obtain ⟨hjob, rfl⟩ := Prod.mk.inj h
      obtain rfl := Except.ok.inj hjob
      obtain ⟨s, hb, _, rfl⟩ := commit_ok hcommit
      obtain ⟨hd, hcheck, ⟨job', j, he, hdb, hj, hns, hk, hg, hsame⟩ | ⟨he, _⟩⟩ :=
        createJobRows_ok hb
      · obtain rfl := Option.some.inj he
        rw [hdb]
        exact ⟨hash, hadm, hd, hcheck, .refl db, j, hj, hns, hk, hg, hget hg, hsame⟩
      · exact absurd he (by simp)
    · rename_i db₁ hcommit
      obtain ⟨hg, rfl⟩ := Prod.mk.inj h
      obtain ⟨s, hb, _, rfl⟩ := commit_ok hcommit
      obtain ⟨hd, hcheck, ⟨_, _, he, _⟩ | ⟨_, hkeep, hf⟩⟩ := createJobRows_ok hb
      · exact absurd he (by simp)
      · refine ⟨hash, hadm, hd, hcheck, hkeep, _, Table.mem_of_find? hf, rfl, rfl, hg, hget hg, ?_⟩
        unfold getJob at hg
        rw [hf] at hg
        exact (jobRecord_ok hg).2

/-- **Nothing rewrites a submission held in PostgreSQL.** -/
theorem RepositoryCall.keeps (c : RepositoryCall) (db : Db) :
    KeepsJobs db (c.run digest json db) := by
  cases c with
  | registerDeployment deployment =>
      refine .of_commit fun a s hb => ?_
      obtain ⟨_, s₁, h₁, h⟩ := Tx.bind_ok.mp hb
      obtain ⟨_, rfl⟩ := Tx.pure_ok.mp h
      exact KeepsJobs.of_insert (fun _ _ => ⟨rfl, rfl⟩) h₁
  | registerWorker worker =>
      refine .of_commit fun a s hb => ?_
      obtain ⟨_, s₁, h₁, h⟩ := Tx.bind_ok.mp hb
      obtain ⟨_, rfl⟩ := Tx.pure_ok.mp h
      exact KeepsJobs.of_insert (fun _ _ => ⟨rfl, rfl⟩) h₁
  | registerBlob blob =>
      refine .of_commit fun a s hb => ?_
      obtain ⟨added, s₁, h₁, h⟩ := Tx.bind_ok.mp hb
      have hk : KeepsJobs db s₁.db := KeepsJobs.of_insertUnless (fun _ _ => ⟨rfl, rfl⟩) h₁
      cases added with
      | true =>
          obtain ⟨_, rfl⟩ := Tx.lift_ok.mp h
          exact hk
      | false =>
          simp only [select_bind, Tx.orFail_bind, Bool.false_eq_true, if_false] at h
          obtain ⟨_, _, h⟩ := h
          obtain ⟨_, rfl⟩ := Tx.lift_ok.mp h
          exact hk
  | createAsset asset =>
      refine .of_commit fun a s hb => ?_
      simp only [select_bind, Tx.orFail_bind, Tx.ensure_bind] at hb
      obtain ⟨_, _, _, hb⟩ := hb
      obtain ⟨_, s₁, h₁, h⟩ := Tx.bind_ok.mp hb
      obtain ⟨_, rfl⟩ := Tx.pure_ok.mp h
      exact KeepsJobs.of_insert (fun _ _ => ⟨rfl, rfl⟩) h₁
  | createJob jobId sub =>
      show KeepsJobs db (NanoAural.createJob digest json jobId sub db).2
      unfold NanoAural.createJob
      split
      · exact .refl db
      · have hk : ∀ hash, KeepsJobs db (commit (createJobRows json jobId sub hash) db).2 := by
          refine fun hash => .of_commit fun found s hb => ?_
          -- an existing job is returned as it is, a new one inserted beside the others
          obtain ⟨_, _, ⟨_, _, _, hdb, _⟩ | ⟨_, hkeep, _⟩⟩ := createJobRows_ok hb
          · rw [hdb]
            exact .refl db
          · exact hkeep
        rename_i hash _
        have hk := hk hash
        split <;> rename_i hcommit <;> rw [hcommit] at hk <;> exact hk
  | requestCancel jobId =>
      show KeepsJobs db (requestJobCancel jobId db).2
      have hk : KeepsJobs db (commit (requestCancelRows jobId) db).2 := by
        refine .of_commit fun u s hb => ?_
        unfold requestCancelRows at hb
        simp only [select_bind, Tx.lift_bind] at hb
        obtain ⟨job, _, hb⟩ := hb
        -- an update of a job keeps what was submitted
        have hset : ∀ {set : JobRow → JobRow} {n : Nat} {s₁ : Session Db Deferred},
            update jobsTable jobId (fun _ => true) set ⟨db, []⟩ = .ok (n, s₁) →
            (∀ j, (set j).submitted = j.submitted) → KeepsJobs db s₁.db := fun {set n s₁} hu hset => by
          rcases update_ok hu with ⟨_, rfl, _⟩ | ⟨old, new, t, hf, _, hb, ht, _, rfl⟩
          · exact .refl db
          · obtain ⟨_, rfl⟩ := guarded_ok.mp hb
            have hid : old.id = jobId := Table.key_of_find? hf
            exact .of_put ht (hid ▸ hf) (hset old) rfl
        cases hstate : job.state <;> rw [hstate] at hb
        case queued | running =>
          obtain ⟨_, s₁, h₁, hb⟩ := Tx.bind_ok.mp hb
          obtain ⟨hj, hi⟩ := event_keeps hb
          exact (hset h₁ fun _ => rfl).trans (.of_eq hj hi)
        all_goals
          obtain ⟨_, rfl⟩ := Tx.pure_ok.mp hb
          exact .refl db
      unfold requestJobCancel
      split <;> rename_i hcommit <;> rw [hcommit] at hk <;> exact hk
  | setDeploymentState id state =>
      exact .of_commit fun a s hb => KeepsJobs.of_update (fun _ _ => ⟨rfl, rfl⟩) hb
  | setAssetState id state =>
      exact .of_commit fun a s hb => KeepsJobs.of_update (fun _ _ => ⟨rfl, rfl⟩) hb
  | setBlobState id state =>
      exact .of_commit fun a s hb => KeepsJobs.of_update (fun _ _ => ⟨rfl, rfl⟩) hb
  | queue c =>
      have heff : Relation.ReflTransGen (Effect json fun _ => True) db _ :=
        c.effects json (fun _ _ => trivial) db
      show KeepsJobs db (c.run json db).2
      generalize (c.run json db).2 = db' at heff
      -- a call of the queue is several effects, each of which keeps the jobs
      induction heff with
      | refl => exact .refl db
      | tail _ he ih => exact ih.trans (.of_effect he)

theorem keepsJobs (hr : (repositorySystem digest json).Runs db db') : KeepsJobs db db' := by
  have hstep : ∀ s s', (repositorySystem digest json).step s s' → KeepsJobs s s' := by
    rintro s _ ⟨c, rfl⟩
    exact c.keeps s
  exact System.Runs.respects KeepsJobs.refl (fun _ _ _ => KeepsJobs.trans) hstep hr

/-! ### Replaying -/

theorem admissible_ok {sub : Submission} {hash : String} (h : sub.admissible digest = .ok hash) :
    sub.requestHash digest = .ok hash ∧ sub.rolesUnique = true := by
  unfold Submission.admissible at h
  obtain ⟨hash', hhash, h⟩ := except_bind_ok.mp h
  obtain ⟨hroles, h⟩ := raiseIf_bind_ok.mp h
  exact ⟨hhash.trans h, by simpa using hroles⟩

theorem admissible_of {sub : Submission} {hash : String} (hhash : sub.requestHash digest = .ok hash)
    (hroles : sub.rolesUnique = true) : sub.admissible digest = .ok hash :=
  except_bind_ok.mpr ⟨hash, hhash, raiseIf_bind_ok.mpr ⟨by rw [hroles]; rfl, rfl⟩⟩

/-- A submission is checked by its text, its hash and its kinds only. -/
theorem check_submittedRow {jobId : Uuid} {sub : Submission} {hash : String} {now : Time} :
    Schema.check (submittedRow json jobId sub hash now) = (isSha256 hash
      && sqlTrimmed sub.namespaceId && sqlTrimmed sub.idempotencyKey
      && validRequiredArtifactKinds sub.required) := rfl

/-- A new job's row passes the triggers once its deployment exists. -/
theorem beforeInsert_submittedRow {jobId : Uuid} {sub : Submission} {hash : String} {now : Time}
    {d : DeploymentRow} (hd : db.deployments.find? sub.deploymentId = some d) :
    jobsTable.beforeInsert db (submittedRow json jobId sub hash now)
      = .ok (submittedRow json jobId sub hash now) := by
  refine guarded_ok.mpr ⟨?_, rfl⟩
  simp [jobInsertGuards, ensureJobLifecycleShape, ensureJobSuccessArtifacts, submittedRow, hd]

theorem jobByKey_eval {ns key : String} {j : JobRow} {job : JobRecord} (hj : j ∈ db.jobs.rows)
    (hns : j.namespaceId = ns) (hkey : j.idempotencyKey = key) (hget : getJob j.id db = .ok job) :
    jobByKey ns key ⟨db, []⟩ = .ok (job, ⟨db, []⟩) := by
  have hfind : db.jobs.rows.find? (fun j => j.namespaceId == ns && j.idempotencyKey == key)
      = some j := by
    cases hf : db.jobs.rows.find? (fun j => j.namespaceId == ns && j.idempotencyKey == key) with
    | none => exact absurd (List.find?_eq_none.mp hf j hj) (by simp [hns, hkey])
    | some k =>
        -- a key names one job
        have hp := List.find?_some hf
        simp only [Bool.and_eq_true, beq_iff_eq] at hp
        refine congrArg _ (Table.eq_of_clash (List.mem_of_find?_eq_some hf) hj ?_)
        show (k.namespaceId == j.namespaceId && k.idempotencyKey == j.idempotencyKey) = true
        simp [hp, hns, hkey]
  unfold jobByKey
  rw [select_bind, Tx.orFail_bind]
  refine ⟨j, hfind, ?_⟩
  rw [select_bind]
  exact Tx.lift_ok.mpr ⟨hget, rfl⟩

/-- **A submission under a used key**, once its deployment is READY: it returns the job if the
hashes agree, and is refused otherwise. It writes nothing. -/
theorem createJob_used {jobId : Uuid} {sub : Submission} {hash : String} {d : DeploymentRow}
    {j : JobRow} {job : JobRecord} (hadm : sub.admissible digest = .ok hash)
    (hd : db.deployments.find? sub.deploymentId = some d) (hready : d.state = .ready)
    (hcheck : Schema.check (submittedRow json jobId sub hash db.clock) = true)
    (hj : j ∈ db.jobs.rows) (hns : j.namespaceId = sub.namespaceId)
    (hkey : j.idempotencyKey = sub.idempotencyKey) (hget : getJob j.id db = .ok job) :
    createJob digest json jobId sub db
      = (if job.requestSha256 = hash then .ok job else .error idempotencyConflict, db) := by
  have hused : insertUnless jobsTable sameKey (submittedRow json jobId sub hash db.clock) ⟨db, []⟩
      = .ok (false, ⟨db, []⟩) := by
    unfold insertUnless
    rw [beforeInsert_submittedRow hd]
    dsimp only
    rw [if_neg (by rw [hcheck]; simp), if_pos]
    exact List.any_eq_true.mpr ⟨j, hj, by simp [sameKey, submittedRow, hns, hkey]⟩
  have hbody : createJobRows json jobId sub hash ⟨db, []⟩ =
      if job.requestSha256 = hash then .ok (some job, ⟨db, []⟩)
      else .error idempotencyConflict := by
    unfold createJobRows
    rw [select_bind, Tx.orFail_eval hd, Tx.ensure_eval (by rw [hready]; rfl), select_bind,
      Tx.bind_eval hused]
    show (jobByKey sub.namespaceId sub.idempotencyKey >>= _) _ = _
    rw [Tx.bind_eval (jobByKey_eval hj hns hkey hget)]
    by_cases hsame : job.requestSha256 = hash
    · rw [if_pos hsame, Tx.ensure_eval (by simp [hsame])]
      rfl
    · rw [if_neg hsame, Tx.ensure_fails (by simp [hsame])]
  unfold createJob
  rw [hadm]
  dsimp only
  by_cases hsame : job.requestSha256 = hash
  · rw [if_pos hsame] at hbody ⊢
    have hcommit : commit (createJobRows json jobId sub hash) db = (.ok (some job), db) :=
      transaction_commit hbody (by simp)
    rw [hcommit]
  · rw [if_neg hsame] at hbody ⊢
    have hcommit : commit (createJobRows json jobId sub hash) db = (.error idempotencyConflict, db) :=
      transaction_error hbody
    rw [hcommit]

end Postgres

/-! ## Exactly when a replay is recognised -/

/-- `sub'` reuses the key of `sub` for another request. -/
def Reuses (digest : CanonicalRequest → String) (sub' sub : Submission) : Prop :=
  sub'.namespaceId = sub.namespaceId ∧ sub'.idempotencyKey = sub.idempotencyKey
    ∧ sub'.requestHash digest ≠ sub.requestHash digest

/-- The in-memory repository recognises `sub` as a replay of the job its key names, and refuses
every other submission under the key that it accepts under some key. -/
def MemoryReplays (digest : CanonicalRequest → String) (sub : Submission) (job : JobRecord)
    (m : MemoryRepository) : Prop :=
  (∃ job', m.named sub = some job' ∧ job'.submitted = job.submitted
      ∧ ∀ id, m.createJob digest id sub = (.ok job', m))
    ∧ ∀ sub', Reuses digest sub' sub →
        (∃ key id other m', m.createJob digest id { sub' with idempotencyKey := key }
          = (.ok other, m')) →
        ∀ id, m.createJob digest id sub' = (.error idempotencyConflict, m)

/-- The same for the PostgreSQL repository. -/
def PostgresReplays (digest : CanonicalRequest → String) (json : JsonColumn) (sub : Submission)
    (job : JobRecord) (db : Db) : Prop :=
  (∃ job', getJob job.jobId db = .ok job' ∧ job'.submitted = job.submitted
      ∧ ∀ id, createJob digest json id sub db = (.ok job', db))
    ∧ ∀ sub', Reuses digest sub' sub →
        (∃ key id other db', createJob digest json id { sub' with idempotencyKey := key } db
          = (.ok other, db')) →
        ∀ id, createJob digest json id sub' db = (.error idempotencyConflict, db)

theorem memoryReplays {digest : CanonicalRequest → String} {m m₁ m₂ : MemoryRepository}
    {jobId : Uuid} {sub : Submission} {job : JobRecord}
    (hfirst : m.createJob digest jobId sub = (.ok job, m₁))
    (hr : (memorySystem digest).Runs m₁ m₂) : MemoryReplays digest sub job m₂ := by
  obtain ⟨job', hnamed, hsub, hsame, hother⟩ := memory_replay hfirst hr
  refine ⟨⟨job', hnamed, hsub, hsame⟩, ?_⟩
  rintro sub' ⟨hns, hkey, hdiff⟩ ⟨key, id', other, m', hok⟩ id
  obtain ⟨hash', _, hhash', _⟩ := memory_createJob_ok hok
  obtain ⟨_, _, hhash, _⟩ := memory_createJob_ok hfirst
  have hblank : isBlank sub'.idempotencyKey = false := hkey ▸ (requestHash_ok hhash).2.1
  exact hother id sub' hns hkey ⟨hash', requestHash_key hhash' hblank⟩ hdiff

/-- **A replay is recognised in PostgreSQL exactly while its deployment is READY.** -/
theorem postgresReplays {digest : CanonicalRequest → String} {json : JsonColumn} {db db₁ db₂ : Db}
    {jobId : Uuid} {sub : Submission} {job : JobRecord}
    (hfirst : createJob digest json jobId sub db = (.ok job, db₁))
    (hr : (repositorySystem digest json).Runs db₁ db₂) :
    PostgresReplays digest json sub job db₂
      ↔ ∃ d, db₂.deployments.find? sub.deploymentId = some d ∧ d.state = .ready := by
  obtain ⟨hash, hadm, _, hcheck, _, j, hj, hns, hkey, hget, hid, hsame⟩ := createJob_ok hfirst
  have hkeep := keepsJobs hr
  obtain ⟨j', hj', hsub'⟩ := hkeep.jobs j.id j (Table.find?_of_mem hj)
  obtain ⟨job', hget', hsub⟩ := getJob_keeps hkeep hget
  simp only [JobRow.submitted, Prod.mk.injEq] at hsub'
  have hjid : j'.id = j.id := hsub'.1
  have hsame' : job'.requestSha256 = hash := by
    have := hsub
    simp only [JobRecord.submitted, Prod.mk.injEq] at this
    exact this.2.2.2.1.trans hsame
  have hmem : j' ∈ db₂.jobs.rows := Table.mem_of_find? hj'
  have hns' : j'.namespaceId = sub.namespaceId := hsub'.2.1.trans hns
  have hkey' : j'.idempotencyKey = sub.idempotencyKey := hsub'.2.2.1.trans hkey
  have hgetj : getJob j'.id db₂ = .ok job' := hjid ▸ hget'
  rw [check_submittedRow] at hcheck
  constructor
  · rintro ⟨⟨_, _, _, hreplay⟩, _⟩
    obtain ⟨_, _, hready, _⟩ := createJob_ok (hreplay 0)
    exact hready
  · rintro ⟨d, hd, hready⟩
    refine ⟨⟨job', hid ▸ hget', hsub, fun id => ?_⟩, ?_⟩
    · rw [createJob_used hadm hd hready (check_submittedRow.trans hcheck) hmem hns' hkey' hgetj,
        if_pos hsame']
    · rintro sub' ⟨hsns, hskey, hdiff⟩ ⟨key, id', other, db', hok⟩ id
      obtain ⟨hash', hadm', ⟨d', hd', hready'⟩, hcheck', _⟩ := createJob_ok hok
      obtain ⟨hhash, _⟩ := admissible_ok hadm
      obtain ⟨hhash', hroles'⟩ := admissible_ok hadm'
      have hblank : isBlank sub'.idempotencyKey = false := hskey ▸ (requestHash_ok hhash).2.1
      have hthis : sub'.requestHash digest = .ok hash' := requestHash_key hhash' hblank
      have hne : job'.requestSha256 ≠ hash' := fun he => hdiff (by
        rw [hthis, hhash, ← he, hsame'])
      -- the row of `sub'` is checked like that of the accepted one, but for its key
      rw [check_submittedRow] at hcheck'
      simp only [Bool.and_eq_true] at hcheck hcheck'
      have hrow : Schema.check (submittedRow json id sub' hash' db₂.clock) = true := by
        rw [check_submittedRow]
        simp only [Bool.and_eq_true]
        exact ⟨⟨hcheck'.1.1, hskey ▸ hcheck.1.2⟩, hcheck'.2⟩
      rw [createJob_used (admissible_of hthis hroles') hd' hready' hrow hmem (hns'.trans hsns.symm)
        (hkey'.trans hskey.symm) hgetj, if_neg hne]

/--
**Idempotent submission replay.**

After a first submission to each repository and any later activity in either, both recognise its
replay and refuse other requests under its key, if and only if the deployment it names is READY in
PostgreSQL at the time. The in-memory repository does so always.
-/
theorem submission_replay (digest : CanonicalRequest → String) (json : JsonColumn)
    (sub : Submission) (m m₁ m₂ : MemoryRepository) (db db₁ db₂ : Db) (id id' : Uuid)
    (job row : JobRecord) (hmemory : m.createJob digest id sub = (.ok job, m₁))
    (hlater : (memorySystem digest).Runs m₁ m₂)
    (hpostgres : createJob digest json id' sub db = (.ok row, db₁))
    (hlater' : (repositorySystem digest json).Runs db₁ db₂) :
    (MemoryReplays digest sub job m₂ ∧ PostgresReplays digest json sub row db₂)
      ↔ ∃ d, db₂.deployments.find? sub.deploymentId = some d ∧ d.state = .ready :=
  (and_iff_right (memoryReplays hmemory hlater)).trans (postgresReplays hpostgres hlater')

/-- A request without inputs, to the deployment of the small queue. -/
def emptySubmission : Submission := ⟨"n", "replayed", .dict [], 1, [], [.output]⟩

/-- The SHA-256 of that request's canonical JSON. -/
def emptySubmissionHash (_ : CanonicalRequest) : String :=
  "75c2aaa57fe0dbd80cbb1d40d1157a0bf18c0df7d889a872d8f6f9ddbf3c3414"

/-- An in-memory repository with the deployment of the small queue. -/
def smallMemory : MemoryRepository :=
  (MemoryRepository.empty.registerDeployment ⟨1, "m", "a", "f", .ready, .dict []⟩).2

/-- What either repository returns for it. -/
def emptySubmissionRecord (jobId : Uuid) : JobRecord :=
  ⟨jobId, "n", "replayed", emptySubmissionHash ⟨0, .null, [], []⟩, .dict [], 1, [], [.output],
    .queued, none, none, false, 0⟩

/-- The repositories after the first submission. -/
def submittedMemory : MemoryRepository :=
  (smallMemory.createJob emptySubmissionHash 6 emptySubmission).2

def submittedQueue : Db := (createJob emptySubmissionHash .plain 6 emptySubmission smallQueue).2

theorem submission_replay_ready :
    MemoryReplays emptySubmissionHash emptySubmission (emptySubmissionRecord 6) submittedMemory
      ∧ PostgresReplays emptySubmissionHash .plain emptySubmission (emptySubmissionRecord 6)
          submittedQueue := by
  have hmemory : (smallMemory.createJob emptySubmissionHash 6 emptySubmission).1
      = .ok (emptySubmissionRecord 6) := by decide +kernel
  have hpostgres : (createJob emptySubmissionHash .plain 6 emptySubmission smallQueue).1
      = .ok (emptySubmissionRecord 6) := by decide +kernel
  have hready : submittedQueue.deployments.find? 1 = some ⟨1, "m", "a", "f", .dict [], .ready⟩ := by
    decide +kernel
  exact (submission_replay emptySubmissionHash .plain emptySubmission smallMemory submittedMemory _
    smallQueue submittedQueue _ 6 6 _ _ (Prod.ext hmemory rfl) .refl (Prod.ext hpostgres rfl)
    .refl).mpr ⟨_, hready, rfl⟩

/-- **A replay after the deployment retired**: the job is found in memory, and not in PostgreSQL. -/
theorem submission_replay_retired :
    (createJob emptySubmissionHash .plain 6 emptySubmission smallQueue).1
        = .ok (emptySubmissionRecord 6)
      ∧ (repositorySystem emptySubmissionHash .plain).Runs submittedQueue
          (setDeploymentState 1 .retired submittedQueue).2
      ∧ (createJob emptySubmissionHash .plain 11 emptySubmission
          (setDeploymentState 1 .retired submittedQueue).2).1 = .error deploymentNotReady
      ∧ (((MemoryCall.setDeployment 1 ⟨1, "m", "a", "f", .retired, .dict []⟩).run
          emptySubmissionHash submittedMemory).createJob emptySubmissionHash 11 emptySubmission).1
        = .ok (emptySubmissionRecord 6) :=
  ⟨by decide +kernel, .single ⟨.setDeploymentState 1 .retired, rfl⟩, by decide +kernel,
    by decide +kernel⟩

end NanoAural
