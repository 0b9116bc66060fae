import NanoAural.Base.Faulty

/-!
# The staged path

`ControlFoleyStagedPath`: the four stages of an invocation in their order, over a backend that an
operator supplies. The backend, the cancellation token, the observer and the callbacks through which
the adapter's caches take part are programs over whatever state they share; any of them may raise.
Evidence mappings are carried along and never read, so the values here are without them.
-/

namespace NanoAural

open Faulty Faulty.Prog

namespace StagedPath

/-- `ControlFoleyStage`. -/
inductive Stage where
  | mediaResolvePreprocess | conditionEncodeProjection | integrate | decodeVocoderPostprocess
  deriving DecidableEq, Repr

def Stage.value : Stage → String
  | .mediaResolvePreprocess => "media_resolve_preprocess"
  | .conditionEncodeProjection => "condition_encode_projection"
  | .integrate => "integrate"
  | .decodeVocoderPostprocess => "decode_vocoder_postprocess"

/-- `CONTROLFOLEY_STAGE_ORDER`. -/
def stageOrder : List Stage :=
  [.mediaResolvePreprocess, .conditionEncodeProjection, .integrate, .decodeVocoderPostprocess]

/-- `ControlFoleyTaskKind`. -/
inductive TaskKind where
  | v2a | tv2a | tcV2a | acV2a | t2a
  deriving DecidableEq, Repr

/-- `controlfoley_condition_feature_roles`. -/
def conditionFeatureRoles : TaskKind → List String
  | .v2a => ["video"]
  | .tv2a => ["video", "text"]
  | .tcV2a => ["video", "text"]
  | .acV2a => ["video", "reference_audio"]
  | .t2a => ["text"]

/-- What is raised, as far as a handler tells it apart. -/
inductive Raised where
  /-- `InvocationCancelledError`. -/
  | cancelled
  /-- `InvocationRejectedError`. -/
  | rejected (message : String)
  /-- `ControlFoleyStageExecutionError`, an `AdapterExecutionError`. -/
  | stageExecution (stage : Stage) (detail : String)
  /-- `ControlFoleyStageContractError`, an `AdapterExecutionError`. -/
  | stageContract (message : String)
  /-- Any other `AdapterExecutionError`. -/
  | adapterExecution
  /-- Any other `Exception`. -/
  | exception
  /-- What `except Exception` lets through. -/
  | interrupt
  deriving DecidableEq, Repr

/-! ## Values -/

/-- `ControlFoleyStagedArtifact`. -/
structure StagedArtifact where
  content : List UInt8
  name : String
  mediaType : String
  content_nonempty : content ≠ []
  declared : (name, mediaType) ∈
    [("controlfoley-staged.flac", "audio/flac"), ("controlfoley-staged.wav", "audio/wav")]
  deriving DecidableEq, Repr

/-- A stage's payload: a staged artifact, or something only the backend understands. -/
inductive Payload (π : Type) where
  | artifact (a : StagedArtifact)
  | other (p : π)

/-- `ControlFoleyStageValue`. -/
structure StageValue (π : Type) where
  stage : Stage
  payload : Payload π

/-- `ControlFoleyConditionFeature`. -/
structure ConditionFeature (π : Type) where
  role : String
  payload : π
  role_supported : role ∈ ["video", "reference_audio", "text"]

/-! ## The backend -/

variable {σ ς π ρ : Type}

abbrev PathProg (σ α : Type) := Prog σ Raised α

/-- `ControlFoleyPreprocessCacheCodec`. Where a method returns nothing here, it returned something
of another type. -/
structure PreprocessCacheCodec (σ ς π ρ : Type) where
  exportPreprocessCache : ς → StageValue π → ρ → PathProg σ (Option (List UInt8))
  importPreprocessCache : ς → List UInt8 → ρ → PathProg σ (Option (StageValue π))

/-- `ControlFoleyConditionFeatureCacheBackend`. -/
structure ConditionFeatureCacheBackend (σ ς π ρ : Type) where
  encodeConditionFeature : ς → String → StageValue π → ρ → PathProg σ (Option (ConditionFeature π))
  projectConditionFeatures : ς → StageValue π → List (ConditionFeature π) → ρ →
    PathProg σ (Option (StageValue π))
  exportConditionFeatureCache : ς → ConditionFeature π → ρ → PathProg σ (Option (List UInt8))
  importConditionFeatureCache : ς → String → List UInt8 → StageValue π → ρ →
    PathProg σ (Option (ConditionFeature π))

/-- `ControlFoleyStagedBackend`, with the protocols it is an instance of. -/
structure Backend (σ ς π ρ : Type) where
  runStage : ς → Stage → Option (StageValue π) → ρ → PathProg σ (Option (StageValue π))
  preprocessCodec : Option (PreprocessCacheCodec σ ς π ρ)
  conditionFeatures : Option (ConditionFeatureCacheBackend σ ς π ρ)

/-- A context manager that lets every exception through. -/
structure Observation (σ : Type) where
  enter : PathProg σ Unit
  exit : PathProg σ Unit

/-- The optional arguments of `invoke`. -/
structure Callbacks (σ π : Type) where
  observer : Option (Stage → Observation σ)
  cachedPreprocessPayload : Option (List UInt8)
  decodeCachedPreprocess : Option (List UInt8 → PathProg σ (Option (StageValue π)))
  rejectCachedPreprocess : Option (Unit → PathProg σ Unit)
  capturePreprocess : Option (StageValue π → PathProg σ Unit)
  conditionCachePayloads : Option (List (String × List UInt8))
  rejectConditionFeature : Option (String → PathProg σ Unit)
  captureConditionFeature : Option (ConditionFeature π → PathProg σ Unit)
  onConditionEncoder : Option (String → PathProg σ Unit)
  onConditionProjection : Option (Unit → PathProg σ Unit)

/-- No observer, no cache. -/
def Callbacks.none : Callbacks σ π :=
  ⟨.none, .none, .none, .none, .none, .none, .none, .none, .none, .none⟩

/-- `ControlFoleyStagedPath`: its backend and its loaded sessions. -/
structure Path (σ ς π ρ : Type) where
  backend : Backend σ ς π ρ
  sessions : String → Option ς

/-- `try: p except Exception: pass`. -/
def swallow (p : PathProg σ Unit) : PathProg σ Unit :=
  p.tryCatch fun e =>
    match e with
    | .interrupt => raise e
    | _ => pure ()

/-- `try: p except InvocationCancelledError: raise except Exception: handler`. -/
def exceptCancelled {α : Type} (p handler : PathProg σ α) : PathProg σ α :=
  p.tryCatch fun e =>
    match e with
    | .cancelled | .interrupt => raise e
    | _ => handler

/-- A callback that may be left out, and that changes nothing where it fails. -/
def notify {α : Type} (callback : Option (α → PathProg σ Unit)) (argument : α) : PathProg σ Unit :=
  match callback with
  | none => pure ()
  | some callback => swallow (callback argument)

/-- `_validate_condition_feature`. -/
def validateConditionFeature (value : Option (ConditionFeature π)) (role : String) :
    PathProg σ (ConditionFeature π) :=
  match value with
  | none => raise (.stageContract "condition encoder returned an invalid role-bound feature")
  | some feature =>
      if feature.role = role then pure feature
      else raise (.stageContract "condition encoder returned an invalid role-bound feature")

/-! ## The condition stage -/

section Condition

/-- What one invocation works with: its session, its request, `raise_if_cancelled`. -/
structure Work (σ ς ρ : Type) where
  session : ς
  request : ρ
  task : TaskKind
  raiseIfCancelled : PathProg σ Unit

variable (features : ConditionFeatureCacheBackend σ ς π ρ) (work : Work σ ς ρ)
  (callbacks : Callbacks σ π) (preprocess : StageValue π)

/-- The feature a cached payload stands for, unless it cannot be imported. -/
def importFeature (role : String) (payload : List UInt8) :
    PathProg σ (Option (ConditionFeature π)) :=
  exceptCancelled (do
    let value ← features.importConditionFeatureCache work.session role payload preprocess work.request
    let feature ← validateConditionFeature value role
    pure (some feature)) (do
    notify callbacks.rejectConditionFeature role
    pure none)

/-- What the cache has for a role. -/
def cachedFeature (role : String) (payload : Option (List UInt8)) :
    PathProg σ (Option (ConditionFeature π)) :=
  match payload with
  | none => pure none
  | some payload => importFeature features work callbacks preprocess role payload

/-- A feature encoded anew. -/
def encodeFeature (role : String) : PathProg σ (ConditionFeature π) := do
  notify callbacks.onConditionEncoder role
  let value ← features.encodeConditionFeature work.session role preprocess work.request
  let feature ← validateConditionFeature value role
  notify callbacks.captureConditionFeature feature
  pure feature

/-- One round over the roles. -/
def conditionFeature (payload : Option (List UInt8)) (role : String) :
    PathProg σ (ConditionFeature π) := do
  work.raiseIfCancelled
  let imported ← cachedFeature features work callbacks preprocess role payload
  match imported with
  | some feature => pure feature
  | none => encodeFeature features work callbacks preprocess role

/-- The loop over the roles. -/
def conditionFeatureList (payloads : List (String × List UInt8)) :
    List String → PathProg σ (List (ConditionFeature π))
  | [] => pure []
  | role :: roles => do
      let feature ← conditionFeature features work callbacks preprocess (payloads.lookup role) role
      let rest ← conditionFeatureList payloads roles
      pure (feature :: rest)

end Condition

/-- `_run_condition_feature_stage`. -/
def runConditionFeatureStage (backend : Backend σ ς π ρ) (work : Work σ ς ρ)
    (callbacks : Callbacks σ π) (preprocess : Option (StageValue π)) : PathProg σ (StageValue π) :=
  match backend.conditionFeatures with
  | none =>
      raise (.stageContract "staged backend does not implement the L2 condition feature split")
  | some features =>
      match preprocess with
      | none => raise (.stageContract "L2 condition features require preprocess output")
      | some preprocess => do
          raiseWhen (preprocess.stage != .mediaResolvePreprocess)
            (.stageContract "L2 condition features require preprocess output")
          let roles := conditionFeatureRoles work.task
          let payloads := callbacks.conditionCachePayloads.getD []
          -- payloads for other roles are refused before anything is encoded
          raiseWhen (payloads.any fun p => !roles.contains p.1)
            (.stageContract "L2 cache supplied an unexpected feature role")
          let encoded ← conditionFeatureList features work callbacks preprocess payloads roles
          work.raiseIfCancelled
          notify callbacks.onConditionProjection ()
          let result ← features.projectConditionFeatures work.session preprocess encoded work.request
          match result with
          | none => raise (.stageContract "L2 projection returned an invalid stage value")
          | some value =>
              if value.stage = .conditionEncodeProjection then pure value
              else raise (.stageContract "L2 projection returned an invalid stage value")

/-! ## The stages -/

section Stages

variable (backend : Backend σ ς π ρ) (work : Work σ ς ρ) (callbacks : Callbacks σ π)

/-- A stage's value, and whether it came from the cache. -/
def stageBody (stage : Stage) (previous : Option (StageValue π)) :
    PathProg σ (Option (StageValue π) × Bool) := do
  let run : PathProg σ (Option (StageValue π) × Bool) := do
    let value ← backend.runStage work.session stage previous work.request
    pure (value, false)
  -- payloads are enough to take the split stage, also where the backend has none
  if stage = .conditionEncodeProjection
      ∧ (callbacks.conditionCachePayloads.isSome ∨ backend.conditionFeatures.isSome) then do
    let value ← runConditionFeatureStage backend work callbacks previous
    pure (some value, false)
  else
    match callbacks.cachedPreprocessPayload, callbacks.decodeCachedPreprocess with
    | some payload, some decode =>
        if stage = .mediaResolvePreprocess then
          -- a payload that cannot be decoded is rejected, and the stage runs
          exceptCancelled (do
            let value ← decode payload
            pure (value, true)) (do
            notify callbacks.rejectCachedPreprocess ()
            run)
        else run
    | _, _ => run

/-- `with observation`. -/
def observed {α : Type} (stage : Stage) (body : PathProg σ α) : PathProg σ α :=
  match callbacks.observer with
  | none => body
  | some observe => do
      (observe stage).enter
      body.tryFinally (observe stage).exit

/-- The handlers around a stage: an operator's own exception names its stage. -/
def namingStage {α : Type} (stage : Stage) (body : PathProg σ α) : PathProg σ α :=
  body.tryCatch fun e =>
    match e with
    | .exception => raise (.stageExecution stage "operator backend error")
    | _ => raise e

/-- One round of the loop in `invoke`. -/
def runStage (stage : Stage) (previous : Option (StageValue π)) : PathProg σ (StageValue π) := do
  work.raiseIfCancelled
  let (value, usedCached) ← namingStage stage
    (observed callbacks stage (stageBody backend work callbacks stage previous))
  let wrong := Raised.stageContract
    ("operator backend returned the wrong value for stage " ++ stage.value)
  match value with
  | none => raise wrong
  | some value => do
      raiseWhen (value.stage != stage) wrong
      work.raiseIfCancelled
      if stage = .mediaResolvePreprocess ∧ usedCached = false then
        notify callbacks.capturePreprocess value
      pure value

/-- The loop of `invoke`: the values of the stages. -/
def runStages : List Stage → Option (StageValue π) → PathProg σ (List (StageValue π))
  | [], _ => pure []
  | stage :: stages, previous => do
      let value ← runStage backend work callbacks stage previous
      let rest ← runStages stages (some value)
      pure (value :: rest)

end Stages

namespace Path

variable (path : Path σ ς π ρ)

/-- The session of an identifier. -/
def session (sessionId : String) : PathProg σ ς :=
  match path.sessions sessionId with
  | none => raise (.rejected "staged session is not loaded")
  | some session => pure session

/-- `invoke`. -/
def invoke (sessionId : String) (request : ρ) (task : TaskKind) (raiseIfCancelled : PathProg σ Unit)
    (callbacks : Callbacks σ π) : PathProg σ (StagedArtifact × List (StageValue π)) := do
  let session ← path.session sessionId
  let values ← runStages path.backend ⟨session, request, task, raiseIfCancelled⟩ callbacks stageOrder
    none
  match values.getLast? with
  | some ⟨_, .artifact artifact⟩ => pure (artifact, values)
  | _ =>
      raise (.stageContract "decode/vocoder/postprocess must return ControlFoleyStagedArtifact")

/-- `decode_cached_preprocess`. -/
def decodeCachedPreprocess (sessionId : String) (request : ρ) (raiseIfCancelled : PathProg σ Unit)
    (payload : List UInt8) : PathProg σ (Option (StageValue π)) := do
  let session ← path.session sessionId
  match path.backend.preprocessCodec with
  | none => raise (.stageContract "staged backend does not implement the L1 safe-bytes codec")
  | some codec => do
      raiseIfCancelled
      let value ← codec.importPreprocessCache session payload request
      raiseWhen (!value.any fun value => value.stage == .mediaResolvePreprocess)
        (.stageContract "L1 codec returned an invalid preprocess stage value")
      pure value

/-- `encode_preprocess`. -/
def encodePreprocess (sessionId : String) (request : ρ) (value : StageValue π) :
    PathProg σ (List UInt8) := do
  let session ← path.session sessionId
  match path.backend.preprocessCodec with
  | none => raise (.stageContract "staged backend does not implement the L1 safe-bytes codec")
  | some codec => do
      raiseWhen (value.stage != .mediaResolvePreprocess)
        (.stageContract "only preprocess values may enter L1")
      let payload ← codec.exportPreprocessCache session value request
      match payload with
      | some (byte :: bytes) => pure (byte :: bytes)
      | _ => raise (.stageContract "L1 codec must export non-empty immutable bytes")

/-- `encode_condition_feature`. -/
def encodeConditionFeature (sessionId : String) (request : ρ) (feature : ConditionFeature π) :
    PathProg σ (List UInt8) := do
  let session ← path.session sessionId
  match path.backend.conditionFeatures with
  | none => raise (.stageContract "staged backend does not implement the L2 safe feature codec")
  | some features => do
      let payload ← features.exportConditionFeatureCache session feature request
      match payload with
      | some (byte :: bytes) => pure (byte :: bytes)
      | _ => raise (.stageContract "L2 feature codec must export non-empty immutable bytes")

end Path

end StagedPath

end NanoAural
