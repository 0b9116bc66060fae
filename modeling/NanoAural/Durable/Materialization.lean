import Mathlib.Logic.Function.Basic
import NanoAural.Base.OrderedMap
import NanoAural.Base.StreamCopy
import NanoAural.Durable.Digests
import NanoAural.Durable.Queue

/-!
# Materialized inputs

`AttemptInputMaterializer`: the verified inputs of an attempt, copied from the canonical
store into a workspace of their own between two checks of the lease. Every call on the
outside may raise anything; removing the workspace does not fail, and nobody else
writes to it.
-/

namespace NanoAural

namespace Materialization

open Faulty Relational StreamCopy

/-- What leaves `__enter__`. -/
inductive Raised where
  | evidenceDrift (message : String)
  | integrity (message : String)
  | media (message : String)
  | leaseLost (message : String)
  | workspaceCleanup (message : String)
  /-- A `DurableError` that is none of these. -/
  | durable
  | osError
  | valueError
  /-- Anything else, an interrupt too. -/
  | other
  deriving DecidableEq, Repr

/-- A `MaterializationError`. -/
def Raised.isMaterialization : Raised → Bool
  | .evidenceDrift _ | .integrity _ | .media _ | .leaseLost _ | .workspaceCleanup _ => true
  | .durable | .osError | .valueError | .other => false

def Raised.isDurable (e : Raised) : Bool := e.isMaterialization || e == .durable

/-- `MediaInfo`. -/
structure InputMedia (Duration : Type) where
  mediaType : String
  durationSeconds : Duration

/-- `MaterializedInput`, its path as the name in the workspace. -/
structure MaterializedInput (Duration : Type) where
  role : String
  assetId : Uuid
  blobId : Uuid
  sha256 : String
  sizeBytes : Nat
  path : String
  media : InputMedia Duration

/-- What bears on the lease and the bytes. -/
inductive InputEvent where
  | read
  | probed
  | leaseConfirmed
  deriving DecidableEq, Repr

structure World (Duration : Type) where
  /-- The workspace on disk, a file by its name. -/
  workspace : Option (String → Option (List UInt8))
  /-- The materializer has a workspace. -/
  entered : Bool
  materialized : List (MaterializedInput Duration)
  events : List InputEvent

/-- What a materializer is made with, and the floats of Python. -/
structure Env (Duration : Type) where
  job : JobRecord
  attempt : AttemptRecord
  lease : Lease
  evidence : List VerifiedInputEvidence
  /-- What the reader of a key gives, by the place of the input. -/
  canonical : Nat → String → Nat → StreamRead
  /-- What the probe says of a file, by the place of the input. -/
  probe : Nat → List UInt8 → InputMedia Duration
  sha256 : List UInt8 → String
  /-- `float(value)`, which overflows for an integer that is too large. -/
  float : PyValue → Option Duration
  /-- Finite and positive. -/
  proper : Duration → Bool
  /-- `math.isclose(a, b, rel_tol=1e-9, abs_tol=1e-9)`. -/
  isclose : Duration → Duration → Bool

variable {Duration : Type} (env : Env Duration)

/-! ## Evidence -/

/-- `_expected_media`. -/
def expectedMedia (asset : AssetRecord) : Except Raised (InputMedia Duration) :=
  let entries := match asset.metadata with
    | .dict entries => entries
    | _ => []
  match entries.lookup "media_type", entries.lookup "duration_seconds" with
  | some mediaType, some duration =>
      match mediaType, duration with
      | .str mediaType, .int _ | .str mediaType, .float _ =>
          if mediaType = "" then .error (.evidenceDrift "media verification metadata is invalid")
          else
            match env.float duration with
            | none => .error .other
            | some seconds =>
                if env.proper seconds then .ok ⟨mediaType, seconds⟩
                else .error (.evidenceDrift "media verification metadata is invalid")
      | _, _ => .error (.evidenceDrift "media verification metadata is invalid")
  | _, _ =>
      .error (.evidenceDrift "every durable input requires complete media verification metadata")

/-- The job, the attempt and the lease belong together. -/
def validateExecution : Except Raised Unit := do
  raiseIf (env.job.state != .running || env.job.currentAttemptId != some env.attempt.attemptId
      || env.attempt.jobId != env.job.jobId || env.attempt.state != .active
      || env.job.leaseEpoch != env.attempt.leaseEpoch)
    (.evidenceDrift "job/attempt evidence is not a current active execution")
  raiseIf (env.lease.jobId != env.job.jobId || env.lease.attemptId != env.attempt.attemptId
      || env.lease.workerId != env.attempt.workerId || env.lease.leaseEpoch != env.attempt.leaseEpoch)
    (.evidenceDrift "lease evidence does not match the active attempt")

/-- One turn of the loop over the expected roles. -/
def validateInput (assetId : Uuid) (item : VerifiedInputEvidence) : Except Raised Unit := do
  raiseIf (item.asset.assetId != assetId)
    (.evidenceDrift "input evidence asset does not match the persisted job input")
  raiseIf (item.asset.namespaceId != env.job.namespaceId || item.asset.blobId != item.blob.blobId
      || item.asset.state != .verified || item.blob.state != .verified)
    (.evidenceDrift "input evidence is not a verified canonical asset/blob pair")
  match LocalBlobStore.canonicalKey item.blob.sha256 with
  | .error _ => .error .valueError
  | .ok key =>
      raiseIf (item.blob.storageKey != key)
        (.evidenceDrift "input evidence is not a verified canonical asset/blob pair")
  let media ← expectedMedia env item.asset
  raiseIf ((item.blob.contentType.startsWith "audio/" || item.blob.contentType.startsWith "video/")
      && media.mediaType != item.blob.contentType)
    (.evidenceDrift "asset media evidence conflicts with verified blob content type")

/-- The asset of each role of the job. -/
def expected : OrderedMap String Uuid :=
  env.job.inputs.foldl (fun m item => m.put item.role item.assetId) .empty

/-- The evidence for each role. -/
def supplied : OrderedMap String VerifiedInputEvidence :=
  env.evidence.foldl (fun m item => m.put item.role item) .empty

/-- The loop over `expected.items()`. -/
def validateInputs : List (String × Uuid) → Except Raised Unit
  | [] => .ok ()
  | (role, assetId) :: rest => do
      match (supplied env).get? role with
      | none => .error .other
      | some item => validateInput env assetId item
      validateInputs rest

/-- `_validate_evidence`. -/
def validateEvidence : Except Raised Unit := do
  validateExecution env
  raiseIf ((supplied env).items.length != env.evidence.length
      || !(supplied env).items.all (fun p => ((expected env).get? p.1).isSome)
      || !(expected env).items.all (fun p => ((supplied env).get? p.1).isSome))
    (.evidenceDrift "input evidence must cover each job role exactly once")
  validateInputs env (expected env).items

/-! ## The workspace -/

/-- A call on the outside that matters for nothing but whether it raises. -/
def pass : Prog (World Duration) Raised Unit := Prog.look fun _ => ()

def note (event : InputEvent) : Prog (World Duration) Raised Unit :=
  Prog.atomic fun w => (.ok (), { w with events := w.events ++ [event] })

/-- `_assert_lease`. -/
def assertLease : Prog (World Duration) Raised Unit :=
  (note .leaseConfirmed).tryCatch fun e =>
    if e.isDurable then Prog.raise (.leaseLost "attempt lease is no longer current")
    else Prog.raise e

/-- `tempfile.mkdtemp`. -/
def makeWorkspace : Prog (World Duration) Raised Unit :=
  Prog.atomic fun w => (.ok (), { w with workspace := some fun _ => none, entered := true })

/-- The decimal digits of a number, at least so many. -/
def padded (width n : Nat) : String :=
  String.ofList (List.replicate (width - (Nat.toDigits 10 n).length) '0' ++ Nat.toDigits 10 n)

/-- `"input-{0:04d}-{1}.bin"`. -/
def filename (index : Nat) (item : VerifiedInputEvidence) : String :=
  "input-" ++ padded 4 index ++ "-" ++ String.ofList (item.blob.sha256.toList.take 16) ++ ".bin"

/-- `os.open` of a file that must not exist. -/
def createFile (name : String) : Prog (World Duration) Raised Unit :=
  Prog.atomic fun w =>
    match w.workspace with
    | none => (.error .osError, w)
    | some files =>
        if (files name).isSome then (.error .osError, w)
        else (.ok (), { w with workspace := some (Function.update files name (some [])) })

/-- `target.write`. -/
def appendFile (name : String) (chunk : List UInt8) : Prog (World Duration) Raised Unit :=
  Prog.act fun w =>
    { w with
      workspace := w.workspace.map fun files =>
        Function.update files name ((files name).map (· ++ chunk)) }

/-- The bytes of a file, to be probed. -/
def openFile (name : String) : Prog (World Duration) Raised (List UInt8) :=
  Prog.atomic fun w =>
    match w.workspace.bind (· name) with
    | none => (.error .osError, w)
    | some content => (.ok content, { w with events := w.events ++ [.probed] })

/-- `except (OSError, ValueError)`. -/
def translate {α : Type} (translated : Raised) (p : Prog (World Duration) Raised α) :
    Prog (World Duration) Raised α :=
  p.tryCatch fun e => if e = .osError ∨ e = .valueError then Prog.raise translated else Prog.raise e

/-- The copy in `_materialize_one`. -/
def copyInput (index : Nat) (item : VerifiedInputEvidence) :
    Prog (World Duration) Raised (List UInt8) :=
  translate (.integrity "cannot safely read canonical input") do
    pass                       -- `os.fdopen` and `open_reader`
    let received ← copyFrom (env.canonical index item.blob.storageKey) item.blob.sizeBytes
      (.integrity "canonical reader returned non-bytes")
      (.integrity "canonical object exceeds persisted size")
      (note .read) (appendFile (filename index item)) 0 []
    pass                       -- `flush`, `os.fsync` and the end of both `with`
    pure received

/-- `_probe_media`. -/
def probeMedia (index : Nat) (name : String) (expected : InputMedia Duration) :
    Prog (World Duration) Raised (InputMedia Duration) := do
  let actual ← translate (.media "verified media could not be re-probed") do
    let content ← openFile name
    pass                       -- the probe itself
    pure (env.probe index content)
  Prog.raiseWhen (actual.mediaType != expected.mediaType
      || !env.isclose actual.durationSeconds expected.durationSeconds)
    (.media "media probe differs from persisted verification metadata")
  pure actual

/-- `_materialize_one`. -/
def materializeOne (index : Nat) (item : VerifiedInputEvidence) :
    Prog (World Duration) Raised (MaterializedInput Duration) := do
  match expectedMedia env item.asset with
  | .error e => Prog.raise e
  | .ok expectedMedia =>
      pass                     -- `_open_workspace_fd`
      createFile (filename index item)
      let received ← copyInput env index item
      Prog.raiseWhen (received.length != item.blob.sizeBytes
          || env.sha256 received != item.blob.sha256)
        (.integrity "canonical object differs from persisted SHA-256 evidence")
      let media ← probeMedia env index (filename index item) expectedMedia
      pure ⟨item.role, item.asset.assetId, item.blob.blobId, item.blob.sha256, received.length,
        filename index item, media⟩

def materializeAll (index : Nat) :
    List VerifiedInputEvidence → Prog (World Duration) Raised (List (MaterializedInput Duration))
  | [] => pure []
  | item :: rest => do
      let input ← materializeOne env index item
      let inputs ← materializeAll (index + 1) rest
      pure (input :: inputs)

/-- `_cleanup`. -/
def cleanup : Prog (World Duration) Raised Unit :=
  Prog.assign fun w =>
    if w.entered then { w with workspace := none, entered := false, materialized := [] } else w

/-- `__enter__`. -/
def enter : Prog (World Duration) Raised Unit := do
  match validateEvidence env with
  | .error e => Prog.raise e
  | .ok _ =>
      assertLease
      pass                     -- `mkdir` of the root
      makeWorkspace
      Prog.tryCatch (do
        let materialized ← materializeAll env 0 (orderBy VerifiedInputEvidence.role env.evidence)
        assertLease
        Prog.assign fun w => { w with materialized := materialized }) fun e => do
          cleanup
          Prog.raise e

/-- A materializer that has not been entered. -/
def World.start : World Duration := ⟨none, false, [], []⟩

end Materialization

end NanoAural
