import NanoAural.Base.Exceptions
import NanoAural.ControlFoley.StagedPath

/-!
# Staged runs

What an invocation returns does not depend on its caches: with a backend that computes one
value for each stage and cached payloads that stand for those values, whatever the callbacks
of a cache raise and whatever they do meanwhile, the stages' values are those of a run without
any cache. Nor is anything raised that the backend, the token or the observer did not raise,
unless the condition stage is given payloads that it has no roles for.
-/

namespace NanoAural

open Faulty Faulty.Prog

namespace StagedPath

variable {σ ς π ρ : Type}

/-! ## What is computed -/

/-- What a backend computes for one request, apart from how. -/
structure Computation (π : Type) where
  value : Stage → Option (StageValue π) → StageValue π
  feature : String → StageValue π → ConditionFeature π
  project : StageValue π → List (ConditionFeature π) → StageValue π
  artifact : Option (StageValue π) → StagedArtifact
  value_stage : ∀ stage previous, (value stage previous).stage = stage
  feature_role : ∀ role ∈ ["video", "reference_audio", "text"], ∀ preprocess,
    (feature role preprocess).role = role
  project_stage : ∀ preprocess features,
    (project preprocess features).stage = .conditionEncodeProjection
  value_artifact : ∀ previous,
    (value .decodeVocoderPostprocess previous).payload = .artifact (artifact previous)

namespace Computation

variable (c : Computation π)

/-- The preprocess stage's value. -/
def preprocess : StageValue π := c.value .mediaResolvePreprocess none

/-- The condition stage's value, by the encoders and the projection where the backend has them. -/
def condition (split : Bool) (task : TaskKind) : StageValue π :=
  if split then
    c.project c.preprocess ((conditionFeatureRoles task).map fun role => c.feature role c.preprocess)
  else c.value .conditionEncodeProjection (some c.preprocess)

/-- The last value before the artifact. -/
def integrated (split : Bool) (task : TaskKind) : StageValue π :=
  c.value .integrate (some (c.condition split task))

/-- What an invocation without callbacks returns. -/
def result (split : Bool) (task : TaskKind) : StagedArtifact × List (StageValue π) :=
  let last := some (c.integrated split task)
  (c.artifact last, [c.preprocess, c.condition split task, c.integrated split task,
    c.value .decodeVocoderPostprocess last])

end Computation

theorem role_supported {task : TaskKind} {role : String} (h : role ∈ conditionFeatureRoles task) :
    role ∈ ["video", "reference_audio", "text"] := by
  have hall : ∀ task, ∀ role ∈ conditionFeatureRoles task,
      role ∈ ["video", "reference_audio", "text"] := by
    intro task
    cases task <;> decide
  exact hall task role h

/-! ## What may be raised -/

/-- Enough of what a callback may raise for the rest to be none of the invocation's concern. -/
def Swallowed (may : Raised → Prop) (e : Raised) : Prop := e = .interrupt → may e

/-- The same where a cached payload is decoded. -/
def Caught (may : Raised → Prop) (e : Raised) : Prop := e = .cancelled ∨ e = .interrupt → may e

/-- What leaves `invoke` where its parts may raise `may`. -/
def Named (may : Raised → Prop) (e : Raised) : Prop :=
  (may e ∧ e ≠ .exception) ∨
    (may .exception ∧ ∃ stage, e = .stageExecution stage "operator backend error")

/-- What the condition stage objects to in the payloads it is given: that the backend has no use for
them, or that one is for a role which the task has not. -/
def objection (backend : Backend σ ς π ρ) (task : TaskKind) (callbacks : Callbacks σ π) :
    Option Raised :=
  if callbacks.conditionCachePayloads.isSome ∧ backend.conditionFeatures = none then
    some (.stageContract "staged backend does not implement the L2 condition feature split")
  else if (callbacks.conditionCachePayloads.getD []).any fun p =>
      !(conditionFeatureRoles task).contains p.1 then
    some (.stageContract "L2 cache supplied an unexpected feature role")
  else none

/-- Beside what `may` allows, what there is to object to. -/
def OrObjects (may : Raised → Prop) (objects : Option Raised) (e : Raised) : Prop :=
  may e ∨ objects = some e

/-- The backend computes `c`, and may raise on its way. -/
structure Backend.Computes (I : σ → Prop) (may : Raised → Prop) (backend : Backend σ ς π ρ)
    (session : ς) (request : ρ) (task : TaskKind) (c : Computation π) : Prop where
  runStage : ∀ stage previous, Ensures I may (backend.runStage session stage previous request)
    fun value => value = some (c.value stage previous)
  encode : ∀ features ∈ backend.conditionFeatures, ∀ role ∈ conditionFeatureRoles task,
    Ensures I may (features.encodeConditionFeature session role c.preprocess request)
      fun feature => feature = some (c.feature role c.preprocess)
  project : ∀ features ∈ backend.conditionFeatures, ∀ encoded,
    Ensures I may (features.projectConditionFeatures session c.preprocess encoded request)
      fun value => value = some (c.project c.preprocess encoded)

/-- What the adapter's caches put into an invocation: cached payloads decode to what would be
computed, or not at all; a callback keeps `I` when it is called with what was computed. -/
structure Callbacks.Harmless (I : σ → Prop) (may : Raised → Prop) (callbacks : Callbacks σ π)
    (backend : Backend σ ς π ρ) (session : ς) (request : ρ) (task : TaskKind) (c : Computation π) :
    Prop where
  observer : ∀ observe ∈ callbacks.observer, ∀ stage,
    Ensures I may (observe stage).enter (fun _ => True) ∧
      Ensures I may (observe stage).exit fun _ => True
  decode : ∀ payload ∈ callbacks.cachedPreprocessPayload,
    ∀ decode ∈ callbacks.decodeCachedPreprocess,
      Ensures I (Caught may) (decode payload) fun value => value = some c.preprocess
  reject : ∀ reject ∈ callbacks.rejectCachedPreprocess,
    Ensures I (Swallowed may) (reject ()) fun _ => True
  capture : ∀ capture ∈ callbacks.capturePreprocess,
    Ensures I (Swallowed may) (capture c.preprocess) fun _ => True
  importFeature : ∀ payloads ∈ callbacks.conditionCachePayloads,
    ∀ features ∈ backend.conditionFeatures, ∀ role payload, payloads.lookup role = some payload →
      Ensures I (Caught may)
        (features.importConditionFeatureCache session role payload c.preprocess request)
        fun value => ∀ feature ∈ value, feature.role = role → feature = c.feature role c.preprocess
  rejectFeature : ∀ reject ∈ callbacks.rejectConditionFeature, ∀ role,
    Ensures I (Swallowed may) (reject role) fun _ => True
  captureFeature : ∀ capture ∈ callbacks.captureConditionFeature,
    ∀ role ∈ conditionFeatureRoles task,
      Ensures I (Swallowed may) (capture (c.feature role c.preprocess)) fun _ => True
  encoder : ∀ encoder ∈ callbacks.onConditionEncoder, ∀ role,
    Ensures I (Swallowed may) (encoder role) fun _ => True
  projection : ∀ projection ∈ callbacks.onConditionProjection,
    Ensures I (Swallowed may) (projection ()) fun _ => True

/-! ## Parts of a run -/

variable {I : σ → Prop} {may : Raised → Prop}

theorem ensures_swallow {p : PathProg σ Unit} (h : Ensures I (Swallowed may) p fun _ => True) :
    Ensures I may (swallow p) fun _ => True := by
  refine ensures_tryCatch h fun e he => ?_
  cases e with
  | interrupt => exact ensures_raise (he rfl)
  | cancelled | rejected | stageExecution | stageContract | adapterExecution | exception =>
      exact ensures_pure trivial

theorem ensures_notify {α : Type} {callback : Option (α → PathProg σ Unit)} {a : α}
    (h : ∀ f ∈ callback, Ensures I (Swallowed may) (f a) fun _ => True) :
    Ensures I may (notify callback a) fun _ => True := by
  cases callback with
  | none => exact ensures_pure trivial
  | some f => exact ensures_swallow (h f rfl)

/-- What is caught may be anything else. -/
theorem ensures_caught {α : Type} {p handler : PathProg σ α} {φ : α → Prop}
    (hp : Ensures I (Caught may) p φ) (hhandler : Ensures I may handler φ) :
    Ensures I may (exceptCancelled p handler) φ := by
  refine ensures_tryCatch hp fun e he => ?_
  cases e with
  | cancelled => exact ensures_raise (he (.inl rfl))
  | interrupt => exact ensures_raise (he (.inr rfl))
  | rejected | stageExecution | stageContract | adapterExecution | exception => exact hhandler

section Run

variable {backend : Backend σ ς π ρ} {work : Work σ ς ρ} {callbacks : Callbacks σ π}
  {c : Computation π}

/-- The token may raise, but nothing that would have to be named after a stage. -/
def Work.Watches (I : σ → Prop) (may : Raised → Prop) (work : Work σ ς ρ) : Prop :=
  Ensures I (fun e => may e ∧ e ≠ .exception) work.raiseIfCancelled fun _ => True

theorem Work.Watches.inside (h : work.Watches I may) :
    Ensures I may work.raiseIfCancelled fun _ => True :=
  h.weaken (fun _ he => he.1) fun _ _ => trivial

theorem Work.Watches.outside (h : work.Watches I may) :
    Ensures I (Named may) work.raiseIfCancelled fun _ => True :=
  h.weaken (fun _ he => .inl he) fun _ _ => trivial

theorem Work.Watches.objecting (h : work.Watches I may) (objects : Option Raised) :
    work.Watches I (OrObjects may objects) :=
  h.weaken (fun _ he => ⟨.inl he.1, he.2⟩) fun _ _ => trivial

/-! ### Objections -/

/-- What raises no more than its parts do. -/
theorem ensures_unobjected {α : Type} {p : PathProg σ α} {φ ψ : α → Prop}
    {objects : Option Raised} (hψ : ∀ a, φ a → ψ a) (h : Ensures I may p φ) :
    Ensures I (OrObjects may objects) p ψ := h.weaken (fun _ he => .inl he) hψ

/-- An objection keeps its name. -/
theorem Named.orObjects {objects : Option Raised} (hne : objects ≠ some .exception) {e : Raised}
    (h : Named (OrObjects may objects) e) : OrObjects (Named may) objects e := by
  rcases h with ⟨h | h, he⟩ | ⟨h | h, hstage⟩
  · exact .inl (.inl ⟨h, he⟩)
  · exact .inr h
  · exact .inl (.inr ⟨h, hstage⟩)
  · exact absurd h hne

theorem objection_ne_exception {task : TaskKind} :
    objection backend task callbacks ≠ some .exception := by
  unfold objection
  split
  · simp
  · split <;> simp

theorem objection_unsplit {task : TaskKind} (hbackend : backend.conditionFeatures = none)
    (hpayloads : callbacks.conditionCachePayloads.isSome) :
    objection backend task callbacks = some
      (.stageContract "staged backend does not implement the L2 condition feature split") :=
  if_pos ⟨hpayloads, hbackend⟩

/-- Without payloads there is nothing to object to. -/
theorem objection_unasked {task : TaskKind} (hpayloads : callbacks.conditionCachePayloads = none) :
    objection backend task callbacks = none := by
  unfold objection
  simp [hpayloads]

theorem objection_split (task : TaskKind) (callbacks : Callbacks σ π)
    {features : ConditionFeatureCacheBackend σ ς π ρ}
    (hfeatures : backend.conditionFeatures = some features) :
    objection backend task callbacks =
      if (callbacks.conditionCachePayloads.getD []).any fun p =>
          !(conditionFeatureRoles task).contains p.1 then
        some (.stageContract "L2 cache supplied an unexpected feature role")
      else none := by
  unfold objection
  rw [if_neg fun h => by rw [hfeatures] at h; cases h.2]

variable (hbackend : backend.Computes I may work.session work.request work.task c)
  (hcallbacks : callbacks.Harmless I may backend work.session work.request work.task c)

include hcallbacks in
/-- **A cached feature is the one that would be encoded**, if it is one. -/
theorem ensures_importFeature {features : ConditionFeatureCacheBackend σ ς π ρ}
    (hfeatures : backend.conditionFeatures = some features) {payloads : List (String × List UInt8)}
    (hpayloads : callbacks.conditionCachePayloads = some payloads) {role : String}
    {payload : List UInt8} (hpayload : payloads.lookup role = some payload) :
    Ensures I may (importFeature features work callbacks c.preprocess role payload)
      fun imported => ∀ feature ∈ imported, feature = c.feature role c.preprocess := by
  refine ensures_caught (ensures_bind
    (hcallbacks.importFeature payloads hpayloads features hfeatures role payload hpayload)
    fun value hvalue => ensures_bind (φ := fun feature => feature = c.feature role c.preprocess) ?_
      fun feature hfeature => ensures_pure fun _ h => Option.some.inj h ▸ hfeature)
    (ensures_bind (ensures_notify fun reject hreject => hcallbacks.rejectFeature reject hreject role)
      fun _ _ => ensures_pure fun _ h => (by cases h))
  have hcontract : ∀ message, Caught may (.stageContract message) := by
    intro message h
    rcases h with h | h <;> cases h
  unfold validateConditionFeature
  cases value with
  | none => exact ensures_raise (hcontract _)
  | some feature =>
      exact ensures_ite (fun hrole => ensures_pure (hvalue feature rfl hrole)) fun _ =>
        ensures_raise (hcontract _)

include hbackend hcallbacks in
theorem ensures_encodeFeature {features : ConditionFeatureCacheBackend σ ς π ρ}
    (hfeatures : backend.conditionFeatures = some features) {role : String}
    (hrole : role ∈ conditionFeatureRoles work.task) :
    Ensures I may (encodeFeature features work callbacks c.preprocess role)
      fun feature => feature = c.feature role c.preprocess := by
  refine ensures_bind (ensures_notify fun encoder h => hcallbacks.encoder encoder h role) fun _ _ =>
    ensures_bind (hbackend.encode features hfeatures role hrole) fun value hvalue => ?_
  subst hvalue
  have hvalid : validateConditionFeature (some (c.feature role c.preprocess)) role
      = (pure (c.feature role c.preprocess) : PathProg σ _) :=
    if_pos (c.feature_role role (role_supported hrole) _)
  rw [hvalid]
  refine ensures_bind (ensures_pure (φ := fun f => f = c.feature role c.preprocess) rfl)
    fun feature hfeature => ?_
  subst hfeature
  exact ensures_bind (ensures_notify fun capture h => hcallbacks.captureFeature capture h role hrole)
    fun _ _ => ensures_pure rfl

include hbackend hcallbacks in
theorem ensures_conditionFeature (hwatches : work.Watches I may)
    {features : ConditionFeatureCacheBackend σ ς π ρ}
    (hfeatures : backend.conditionFeatures = some features) {role : String}
    (hrole : role ∈ conditionFeatureRoles work.task) :
    Ensures I may (conditionFeature features work callbacks c.preprocess
      ((callbacks.conditionCachePayloads.getD []).lookup role) role)
      fun feature => feature = c.feature role c.preprocess := by
  refine ensures_bind hwatches.inside fun _ _ => ensures_bind
    (φ := fun imported => ∀ feature ∈ imported, feature = c.feature role c.preprocess) ?_
    fun imported himported => ?_
  · unfold cachedFeature
    split
    · exact ensures_pure fun _ h => (by cases h)
    · rename_i payload hpayload
      cases hpayloads : callbacks.conditionCachePayloads with
      | none =>
          rw [hpayloads] at hpayload
          cases hpayload
      | some payloads =>
          rw [hpayloads] at hpayload
          exact ensures_importFeature hcallbacks hfeatures hpayloads hpayload
  · cases imported with
    | none => exact ensures_encodeFeature hbackend hcallbacks hfeatures hrole
    | some feature => exact ensures_pure (himported feature rfl)

include hbackend hcallbacks in
/-- **The loop over the roles** ends with every role's feature, wherever each came from. -/
theorem ensures_conditionFeatureList (hwatches : work.Watches I may)
    {features : ConditionFeatureCacheBackend σ ς π ρ}
    (hfeatures : backend.conditionFeatures = some features) :
    ∀ roles, (∀ role ∈ roles, role ∈ conditionFeatureRoles work.task) →
      Ensures I may (conditionFeatureList features work callbacks c.preprocess
        (callbacks.conditionCachePayloads.getD []) roles)
        fun encoded => encoded = roles.map fun role => c.feature role c.preprocess := by
  intro roles
  induction roles with
  | nil => exact fun _ => ensures_pure rfl
  | cons role roles ih =>
      intro hroles
      refine ensures_bind (ensures_conditionFeature hbackend hcallbacks hwatches hfeatures
        (hroles role List.mem_cons_self)) fun feature hfeature =>
          ensures_bind (ih fun r hr => hroles r (List.mem_cons_of_mem _ hr)) fun rest hrest =>
            ensures_pure ?_
      rw [hfeature, hrest, List.map_cons]

include hbackend hcallbacks in
/-- **The condition stage** comes to its value, unless it objects to its payloads. -/
theorem ensures_runConditionFeatureStage (hwatches : work.Watches I may)
    (hasked : callbacks.conditionCachePayloads.isSome ∨ backend.conditionFeatures.isSome) :
    Ensures I (OrObjects may (objection backend work.task callbacks))
      (runConditionFeatureStage backend work callbacks (some c.preprocess)) fun value =>
        value = c.condition backend.conditionFeatures.isSome work.task
          ∧ objection backend work.task callbacks = none := by
  cases hfeatures : backend.conditionFeatures with
  | none =>
      have hpayloads : callbacks.conditionCachePayloads.isSome := by simpa [hfeatures] using hasked
      simp only [runConditionFeatureStage, hfeatures]
      exact ensures_raise (.inr (objection_unsplit hfeatures hpayloads))
  | some features =>
      have hsplit := objection_split work.task callbacks hfeatures
      simp only [runConditionFeatureStage, hfeatures]
      refine ensures_raiseWhen_bind (fun hstage => ?_) fun _ => ensures_raiseWhen_bind
        (fun hstray => ?_) fun hnone => ?_
      · simp [Computation.preprocess, c.value_stage] at hstage
      · rw [if_pos hstray] at hsplit
        exact .inr hsplit
      rw [hnone, if_neg (by simp)] at hsplit
      -- from here on nothing is raised but what the parts raise
      refine ensures_unobjected (fun _ hvalue => ⟨hvalue, hsplit⟩) ?_
      refine ensures_bind (ensures_conditionFeatureList hbackend hcallbacks hwatches hfeatures _
        fun _ h => h) fun encoded hencoded => ensures_bind hwatches.inside fun _ _ =>
          ensures_bind (ensures_notify hcallbacks.projection) fun _ _ =>
            ensures_bind (hbackend.project features hfeatures encoded) fun value hvalue => ?_
      subst hvalue hencoded
      dsimp only
      rw [if_pos (c.project_stage _ _)]
      exact ensures_pure rfl

/-- The value a stage has in a run, given the one before it. -/
def Computation.stageValue (c : Computation π) (split : Bool) (task : TaskKind) (stage : Stage)
    (previous : Option (StageValue π)) : StageValue π :=
  if stage = .conditionEncodeProjection then c.condition split task else c.value stage previous

/-- What comes before a stage, as far as the stage looks at it. -/
def Computation.Precedes (c : Computation π) (stage : Stage) (previous : Option (StageValue π)) :
    Prop :=
  (stage = .mediaResolvePreprocess → previous = none) ∧
    (stage = .conditionEncodeProjection → previous = some c.preprocess)

include hbackend hcallbacks in
/-- **A stage's value does not depend on where it comes from.** -/
theorem ensures_stageBody (hwatches : work.Watches I may) {stage : Stage}
    {previous : Option (StageValue π)} (hprevious : c.Precedes stage previous) :
    Ensures I (OrObjects may (objection backend work.task callbacks))
      (stageBody backend work callbacks stage previous) fun r =>
        r.1 = some (c.stageValue backend.conditionFeatures.isSome work.task stage previous)
          ∧ (stage = .conditionEncodeProjection →
            objection backend work.task callbacks = none) := by
  -- `elif` and `else` reach the backend the same way
  have hrun : stage = .conditionEncodeProjection → backend.conditionFeatures.isSome = false →
      c.condition false work.task = c.value stage previous := by
    intro hstage _
    rw [hprevious.2 hstage, hstage]
    rfl
  refine ensures_ite (fun hcondition => ?_) fun hplain => ?_
  · rw [hprevious.2 hcondition.1]
    refine ensures_bind (ensures_runConditionFeatureStage hbackend hcallbacks hwatches hcondition.2)
      fun value hvalue => ensures_pure ⟨?_, fun _ => hvalue.2⟩
    rw [hvalue.1, Computation.stageValue, if_pos hcondition.1]
  · have hunasked : stage = .conditionEncodeProjection →
        objection backend work.task callbacks = none := by
      intro hstage
      refine objection_unasked ?_
      simpa [hstage] using fun h => hplain ⟨hstage, .inl h⟩
    refine ensures_unobjected (fun _ hr => ⟨hr, hunasked⟩) ?_
    have hvalue : c.stageValue backend.conditionFeatures.isSome work.task stage previous
        = c.value stage previous := by
      unfold Computation.stageValue
      split
      · rename_i hstage
        have hwhole : backend.conditionFeatures.isSome = false := by
          simpa [hstage] using fun h => hplain ⟨hstage, .inr h⟩
        rw [hwhole]
        exact hrun hstage hwhole
      · rfl
    have hbackendRun : Ensures I may (do
        let value ← backend.runStage work.session stage previous work.request
        pure (value, false) : PathProg σ (Option (StageValue π) × Bool)) fun r =>
          r.1 = some (c.value stage previous) :=
      ensures_bind (hbackend.runStage stage previous) fun value hvalue => ensures_pure hvalue
    rw [hvalue]
    split
    · rename_i payload decode hpayload hdecode
      refine ensures_ite (fun hstage => ?_) fun _ => hbackendRun
      refine ensures_caught (ensures_bind (hcallbacks.decode payload hpayload decode hdecode)
        fun value hvalue => ensures_pure ?_)
        (ensures_bind (ensures_notify hcallbacks.reject) fun _ _ => hbackendRun)
      rw [hvalue, hprevious.1 hstage, hstage]
      rfl
    · exact hbackendRun

theorem ensures_observed {α : Type} {stage : Stage} {body : PathProg σ α} {φ : α → Prop}
    {objects : Option Raised}
    (hobserver : ∀ observe ∈ callbacks.observer, ∀ stage,
      Ensures I may (observe stage).enter (fun _ => True) ∧
        Ensures I may (observe stage).exit fun _ => True)
    (hbody : Ensures I (OrObjects may objects) body φ) :
    Ensures I (OrObjects may objects) (observed callbacks stage body) φ := by
  unfold observed
  split
  · exact hbody
  · rename_i observe hobserve
    obtain ⟨henter, hexit⟩ := hobserver observe hobserve stage
    exact ensures_bind (ensures_unobjected (fun _ h => h) henter) fun _ _ =>
      ensures_tryFinally hbody (ensures_unobjected (fun _ h => h) hexit)

/-- An exception of the operator's own leaves with the stage's name on it. -/
theorem ensures_namingStage {α : Type} {stage : Stage} {body : PathProg σ α} {φ : α → Prop}
    (hbody : Ensures I may body φ) : Ensures I (Named may) (namingStage stage body) φ := by
  refine ensures_tryCatch hbody fun e he => ?_
  cases e with
  | exception => exact ensures_raise (.inr ⟨he, stage, rfl⟩)
  | cancelled | rejected | stageExecution | stageContract | adapterExecution | interrupt =>
      exact ensures_raise (.inl ⟨he, by simp⟩)

theorem Computation.stageValue_stage (split : Bool) (task : TaskKind) (stage : Stage)
    (previous : Option (StageValue π)) : (c.stageValue split task stage previous).stage = stage := by
  unfold Computation.stageValue
  split
  · rename_i hstage
    unfold Computation.condition
    split
    · rw [c.project_stage, hstage]
    · rw [c.value_stage, hstage]
  · exact c.value_stage _ _

theorem Swallowed.named {objects : Option Raised} {e : Raised} (h : Swallowed may e) :
    Swallowed (Named (OrObjects may objects)) e := fun he => .inl ⟨.inl (h he), by simp [he]⟩

include hbackend hcallbacks in
/-- **One round of the loop.** -/
theorem ensures_runStage (hwatches : work.Watches I may) {stage : Stage}
    {previous : Option (StageValue π)} (hprevious : c.Precedes stage previous) :
    Ensures I (Named (OrObjects may (objection backend work.task callbacks)))
      (runStage backend work callbacks stage previous) fun value =>
        value = c.stageValue backend.conditionFeatures.isSome work.task stage previous
          ∧ (stage = .conditionEncodeProjection →
            objection backend work.task callbacks = none) := by
  have houtside := (hwatches.objecting (objection backend work.task callbacks)).outside
  refine ensures_bind houtside fun _ _ => ensures_bind (ensures_namingStage
    (ensures_observed hcallbacks.observer (ensures_stageBody hbackend hcallbacks hwatches hprevious)))
    fun r hr => ?_
  obtain ⟨value, usedCached⟩ := r
  obtain ⟨hr, hunobjected⟩ := hr
  dsimp only at hr
  subst hr
  refine ensures_raiseWhen_bind (fun hwrong => ?_) fun _ => ensures_bind houtside fun _ _ => ?_
  · rw [bne_iff_ne] at hwrong
    exact absurd (Computation.stageValue_stage _ _ _ _) hwrong
  · refine ensures_ite (fun hcapture => ?_) fun _ => ensures_pure ⟨rfl, hunobjected⟩
    have hvalue : c.stageValue backend.conditionFeatures.isSome work.task stage previous
        = c.preprocess := by
      rw [hprevious.1 hcapture.1, hcapture.1]
      rfl
    rw [hvalue]
    exact ensures_bind (ensures_notify fun capture h => (hcallbacks.capture capture h).weaken
      (fun _ => Swallowed.named) fun _ _ => trivial) fun _ _ => ensures_pure ⟨rfl, hunobjected⟩

/-- The values of the stages from one on. -/
def Computation.stageValues (c : Computation π) (split : Bool) (task : TaskKind) :
    List Stage → Option (StageValue π) → List (StageValue π)
  | [], _ => []
  | stage :: stages, previous =>
      let value := c.stageValue split task stage previous
      value :: c.stageValues split task stages (some value)

/-- What comes before every stage of a list. -/
def Computation.PrecedesAll (c : Computation π) (split : Bool) (task : TaskKind) :
    List Stage → Option (StageValue π) → Prop
  | [], _ => True
  | stage :: stages, previous => c.Precedes stage previous ∧
      c.PrecedesAll split task stages (some (c.stageValue split task stage previous))

include hbackend hcallbacks in
/-- **The loop over the stages.** -/
theorem ensures_runStages (hwatches : work.Watches I may) :
    ∀ stages previous, c.PrecedesAll backend.conditionFeatures.isSome work.task stages previous →
      Ensures I (Named (OrObjects may (objection backend work.task callbacks)))
        (runStages backend work callbacks stages previous) fun values =>
          values = c.stageValues backend.conditionFeatures.isSome work.task stages previous
            ∧ (.conditionEncodeProjection ∈ stages →
              objection backend work.task callbacks = none) := by
  intro stages
  induction stages with
  | nil => exact fun _ _ => ensures_pure ⟨rfl, fun h => (by cases h)⟩
  | cons stage stages ih =>
      intro previous hprecedes
      refine ensures_bind (ensures_runStage hbackend hcallbacks hwatches hprecedes.1)
        fun value hvalue => ?_
      obtain ⟨hvalue, hunobjected⟩ := hvalue
      subst hvalue
      refine ensures_bind (ih _ hprecedes.2) fun rest hrest => ensures_pure ⟨?_, fun hmem => ?_⟩
      · rw [hrest.1]
        rfl
      · rcases List.mem_cons.mp hmem with hstage | hlater
        · exact hunobjected hstage.symm
        · exact hrest.2 hlater

end Run

/-! ## Invocations -/

section Invoke

variable {path : Path σ ς π ρ} {sessionId : String} {session : ς} {request : ρ} {task : TaskKind}
  {raiseIfCancelled : PathProg σ Unit} {callbacks : Callbacks σ π} {c : Computation π}

theorem Computation.precedes_order (split : Bool) :
    c.PrecedesAll split task stageOrder none := by
  have hlater : ∀ stage previous, stage ≠ .mediaResolvePreprocess →
      stage ≠ .conditionEncodeProjection → c.Precedes stage previous := fun _ _ h h' =>
    ⟨fun heq => absurd heq h, fun heq => absurd heq h'⟩
  have hfirst : c.Precedes .mediaResolvePreprocess none := ⟨fun _ => rfl, fun h => (by cases h)⟩
  have hsecond : c.Precedes .conditionEncodeProjection (some c.preprocess) :=
    ⟨fun h => (by cases h), fun _ => rfl⟩
  exact ⟨hfirst, hsecond, hlater _ _ (by simp) (by simp), hlater _ _ (by simp) (by simp), trivial⟩

theorem Path.ensures_invoke (hsession : path.sessions sessionId = some session)
    (hbackend : path.backend.Computes I may session request task c)
    (hwatches : Ensures I (fun e => may e ∧ e ≠ .exception) raiseIfCancelled fun _ => True)
    (hcallbacks : callbacks.Harmless I may path.backend session request task c) :
    Ensures I (OrObjects (Named may) (objection path.backend task callbacks))
      (path.invoke sessionId request task raiseIfCancelled callbacks) fun r =>
        r = c.result path.backend.conditionFeatures.isSome task
          ∧ objection path.backend task callbacks = none := by
  have hfound : path.session sessionId = (pure session : PathProg σ ς) := by
    unfold Path.session
    rw [hsession]
  refine Ensures.weaken (I := I) (φ := fun r => r = c.result path.backend.conditionFeatures.isSome task
    ∧ objection path.backend task callbacks = none) ?_
    (fun _ he => Named.orObjects objection_ne_exception he) fun _ hr => hr
  unfold Path.invoke
  rw [hfound]
  refine ensures_bind (ensures_pure (φ := fun s => s = session) rfl) fun s hs => ?_
  subst hs
  have hwork : (⟨s, request, task, raiseIfCancelled⟩ : Work σ ς ρ).Watches I may := hwatches
  refine ensures_bind (ensures_runStages hbackend hcallbacks hwork stageOrder none
    (Computation.precedes_order _)) fun values hvalues => ?_
  obtain ⟨hvalues, hunobjected⟩ := hvalues
  have hlast : values.getLast? = some (c.value .decodeVocoderPostprocess
      (some (c.integrated path.backend.conditionFeatures.isSome task))) := by
    rw [hvalues]
    rfl
  have hartifact := c.value_artifact (some (c.integrated path.backend.conditionFeatures.isSome task))
  rw [hlast]
  generalize hvalue : c.value .decodeVocoderPostprocess
    (some (c.integrated path.backend.conditionFeatures.isSome task)) = value at hartifact
  obtain ⟨stage, payload⟩ := value
  dsimp only at hartifact
  subst hartifact
  refine ensures_pure ⟨?_, hunobjected (by decide)⟩
  rw [hvalues]
  exact Prod.ext rfl rfl

/-- **Caches are transparent, and their failures contained.** Let the backend compute `c`, let cached
payloads decode to what it would compute or not at all, and let backend, observer and token raise
what `may` allows, the token nothing that would want a stage's name; the callbacks of the caches may
raise anything but an interrupt, decoding anything but that and a cancellation. Then an invocation
returns what it would return without any cache, or raises what its parts may raise, an operator's own
exception under its stage's name. With payloads that the condition stage objects to it raises that
objection, if nothing before it, and never returns. -/
theorem invoke_exact (hsession : path.sessions sessionId = some session)
    (hbackend : path.backend.Computes I may session request task c)
    (hwatches : Ensures I (fun e => may e ∧ e ≠ .exception) raiseIfCancelled fun _ => True)
    (hcallbacks : callbacks.Harmless I may path.backend session request task c) {s : σ} (hs : I s)
    (faults : List (Fault Raised)) :
    ((path.invoke sessionId request task raiseIfCancelled callbacks).run faults s).1.Within
      (OrObjects (Named may) (objection path.backend task callbacks)) fun r =>
        r = c.result path.backend.conditionFeatures.isSome task
          ∧ objection path.backend task callbacks = none :=
  (Path.ensures_invoke hsession hbackend hwatches hcallbacks).run hs faults

end Invoke

/-! ### A backend -/

/-- One byte of sound. -/
def tone : StagedArtifact where
  content := [1]
  name := "controlfoley-staged.wav"
  mediaType := "audio/wav"
  content_nonempty := List.cons_ne_nil _ _
  declared := List.mem_cons_of_mem _ (List.mem_singleton_self _)

def toneFeature (role : String) : ConditionFeature (List UInt8) :=
  if h : role ∈ ["video", "reference_audio", "text"] then ⟨role, [2], h⟩
  else ⟨"text", [2], List.mem_cons_of_mem _ (List.mem_cons_of_mem _ (List.mem_singleton_self _))⟩

def toneValue (stage : Stage) : StageValue (List UInt8) :=
  ⟨stage, if stage = .decodeVocoderPostprocess then .artifact tone else .other [7]⟩

/-- Every stage's value is its own. -/
def toneComputation : Computation (List UInt8) where
  value stage _ := toneValue stage
  feature role _ := toneFeature role
  project _ _ := toneValue .conditionEncodeProjection
  artifact _ := tone
  value_stage _ _ := rfl
  feature_role _ hrole _ := by rw [toneFeature, dif_pos hrole]
  project_stage _ _ := rfl
  value_artifact _ := rfl

/-- It notes every value it computes, exports preprocess values as they are and imports no
features. -/
def toneBackend {ρ : Type} (note : σ → σ) : Backend σ Unit (List UInt8) ρ where
  runStage _ stage _ _ := do
    assign note
    pure (some (toneValue stage))
  preprocessCodec := some
    { exportPreprocessCache := fun _ value _ =>
        match value.payload with
        | .other payload => pure (some payload)
        | .artifact _ => pure none
      importPreprocessCache := fun _ payload _ =>
        pure (some ⟨.mediaResolvePreprocess, .other payload⟩) }
  conditionFeatures := some
    { encodeConditionFeature := fun _ role _ _ => do
        assign note
        pure (some (toneFeature role))
      projectConditionFeatures := fun _ _ _ _ => pure (some (toneValue .conditionEncodeProjection))
      exportConditionFeatureCache := fun _ feature _ => pure (some feature.payload)
      importConditionFeatureCache := fun _ _ _ _ _ => raise .exception }

theorem toneBackend_computes (note : σ → σ) (hnote : ∀ s, I s → I (note s)) (request : ρ)
    (task : TaskKind) :
    (toneBackend note).Computes I may () request task toneComputation := by
  have hnoted : Ensures I may (assign note : PathProg σ Unit) fun _ => True :=
    triple_assign fun s hs => ⟨hnote s hs, trivial⟩
  refine ⟨fun stage previous => ensures_bind hnoted fun _ _ => ensures_pure rfl,
    fun features hfeatures role _ => ?_, fun features hfeatures encoded => ?_⟩
  · obtain rfl := Option.some.inj hfeatures
    exact ensures_bind hnoted fun _ _ => ensures_pure rfl
  · obtain rfl := Option.some.inj hfeatures
    exact ensures_pure rfl

/-- Cached payloads that no one can read, and caches that raise whenever they are told something. -/
def brokenCaches : Callbacks Nat (List UInt8) :=
  { (Callbacks.none : Callbacks Nat (List UInt8)) with
    cachedPreprocessPayload := some [9]
    decodeCachedPreprocess := some fun _ => raise (.rejected "unreadable")
    rejectCachedPreprocess := some fun _ => raise .exception
    capturePreprocess := some fun _ => raise .cancelled
    conditionCachePayloads := some [("video", [9])]
    rejectConditionFeature := some fun _ => raise .exception
    captureConditionFeature := some fun _ => raise .adapterExecution }

theorem brokenCaches_harmless : brokenCaches.Harmless (fun _ => True) (fun _ => False)
    (toneBackend (ρ := Unit) Nat.succ) () () .v2a toneComputation := by
  have hraises : ∀ {may : Raised → Prop} {α : Type} {φ : α → Prop} {e : Raised}, may e →
      Ensures (fun _ : Nat => True) may (raise e : PathProg Nat α) φ := fun h => ensures_raise h
  constructor
  case observer => exact fun _ h => by cases h
  case decode =>
    intro payload _ decode hdecode
    obtain rfl := Option.some.inj hdecode
    exact hraises fun h => by rcases h with h | h <;> cases h
  case reject =>
    intro reject hreject
    obtain rfl := Option.some.inj hreject
    exact hraises fun h => by cases h
  case capture =>
    intro capture hcapture
    obtain rfl := Option.some.inj hcapture
    exact hraises fun h => by cases h
  case importFeature =>
    intro payloads _ features hfeatures role payload _
    obtain rfl := Option.some.inj hfeatures
    exact hraises fun h => by rcases h with h | h <;> cases h
  case rejectFeature =>
    intro reject hreject role
    obtain rfl := Option.some.inj hreject
    exact hraises fun h => by cases h
  case captureFeature =>
    intro capture hcapture role _
    obtain rfl := Option.some.inj hcapture
    exact hraises fun h => by cases h
  case encoder => exact fun _ h => by cases h
  case projection => exact fun _ h => by cases h

def tonePath : Path Nat Unit (List UInt8) Unit := ⟨toneBackend Nat.succ, fun _ => some ()⟩

/-- With caches that fail at every turn the invocation still returns, and returns the same. -/
theorem invoke_exact_broken :
    objection tonePath.backend .v2a brokenCaches = none
      ∧ ((tonePath.invoke "session" () .v2a (pure ()) brokenCaches).run [] 0).1.Within
        (OrObjects (Named fun _ => False) (objection tonePath.backend .v2a brokenCaches)) fun r =>
          r = toneComputation.result true .v2a
            ∧ objection tonePath.backend .v2a brokenCaches = none := by
  have hbackend : tonePath.backend.Computes (fun _ => True) (fun _ => False) () () .v2a
      toneComputation := toneBackend_computes Nat.succ (fun _ _ => trivial) () .v2a
  have hsession : tonePath.sessions "session" = some () := rfl
  have hwatches : Ensures (fun _ : Nat => True) (fun e => False ∧ e ≠ .exception)
      (pure () : PathProg Nat Unit) fun _ => True := ensures_pure trivial
  exact ⟨by decide, invoke_exact hsession hbackend hwatches brokenCaches_harmless trivial []⟩

/-- For a task without a video, features of a video are objected to. -/
example : ((tonePath.invoke "session" () .t2a (pure ()) brokenCaches).run [] 0).1
    = .raised (.stageContract "L2 cache supplied an unexpected feature role") := by rfl

end StagedPath

end NanoAural
