import Mathlib.Logic.Function.Basic
import NanoAural.ControlFoley.L0L1Cache
import NanoAural.ControlFoley.StagedPath

/-!
# Invocations through the L0/L1 cache

The part of `_invoke_staged_profiled` that puts the L0/L1 cache and the staged path together, and
the system of all invocations of a session: their transactions share a cache, their runs share a
host. The condition cache takes part through callbacks that are given from outside; results on the
whole assume of them that they are harmless (`Deployment.Faithful.callbacks`).
-/

namespace NanoAural

open Faulty Faulty.Prog

namespace StagedAdapter

open StagedPath (TaskKind Raised StagedArtifact StageValue Callbacks Path PathProg)
open L0L1Cache (TransactionCall)

variable {σ ς π ρ κ : Type}

/-- What an invocation works on: the host its backend runs on, and the calls its callbacks make on
the invocation's own transaction. Such a call answers nothing and no one else sees the transaction,
so when it takes effect is left to the steps of the cache. -/
structure Desk (σ κ : Type) where
  host : σ
  sent : List (TransactionCall κ)

/-- A call on the transaction. -/
def send (c : TransactionCall κ) : PathProg (Desk σ κ) Unit :=
  assign fun desk => { desk with sent := desk.sent ++ [c] }

/-- A sealed session, and what its adapter was given. -/
structure Deployment (σ ς π ρ κ : Type) where
  path : Path (Desk σ κ) ς π ρ
  sessionId : String
  task : ρ → TaskKind
  keyFor : ρ → κ
  raiseIfCancelled : PathProg (Desk σ κ) Unit
  /-- The recorder and the condition cache's callbacks. -/
  callbacks : ρ → Callbacks (Desk σ κ) π

namespace Deployment

variable (d : Deployment σ ς π ρ κ)

/-- `capture_preprocess`. -/
def capturePreprocess (request : ρ) (value : StageValue π) : PathProg (Desk σ κ) Unit := do
  let payload ← (some <$> d.path.encodePreprocess d.sessionId request value).tryCatch fun e =>
    match e with
    | .interrupt => raise e
    | _ => pure none
  match payload with
  | none => send (.recordFault "codec_fault")
  | some payload => send (.stagePreprocess payload)

/-- The callbacks of a cached session. -/
def cachedCallbacks (request : ρ) (cached : Option (List UInt8)) : Callbacks (Desk σ κ) π :=
  { d.callbacks request with
    cachedPreprocessPayload := cached
    decodeCachedPreprocess := cached.map fun _ =>
      d.path.decodeCachedPreprocess d.sessionId request d.raiseIfCancelled
    rejectCachedPreprocess := cached.map fun _ _ => send .rejectCachedPreprocess
    capturePreprocess := some (d.capturePreprocess request) }

/-- `invoke`, given what the transaction has read. -/
def invoke (request : ρ) (cached : Option (List UInt8)) :
    PathProg (Desk σ κ) (StagedArtifact × List (StageValue π)) :=
  d.path.invoke d.sessionId request (d.task request) d.raiseIfCancelled
    (d.cachedCallbacks request cached)

end Deployment

/-- The cache, what the callbacks of each transaction's invocation have asked for, and what
invocations have returned. -/
structure Service (κ ρ π : Type) where
  cache : L0L1Cache.World κ
  sent : Nat → List (TransactionCall κ)
  returned : List (ρ × StagedArtifact × List (StageValue π))

namespace Service

variable (s : Service κ ρ π)

/-- Only an invocation stages a preprocess payload in its transaction. -/
def Asked (w : L0L1Cache.World κ) : Prop :=
  ∀ j t, w.transactions[j]? = some t → ∀ payload, t.pending.get? "l1_preprocess" = some payload →
    TransactionCall.stagePreprocess payload ∈ s.sent j

/-- What the invocation of transaction `j` leaves. -/
def invoked (j : Nat) (request : ρ) (x : Exit Raised (StagedArtifact × List (StageValue π)))
    (sent : List (TransactionCall κ)) : Service κ ρ π :=
  { s with
    sent := Function.update s.sent j (s.sent j ++ sent)
    returned :=
      match x with
      | .returned result => (request, result) :: s.returned
      | .raised _ | .killed => s.returned }

end Service

/-- One step of one thread. `host` is where the backend's host is by then, whoever moved it. -/
inductive Step [DecidableEq κ] (env : L0L1Cache.Env κ) (d : Deployment σ ς π ρ κ)
    (s : Service κ ρ π) : Service κ ρ π → Prop where
  | cache (w : L0L1Cache.World κ) (hstep : L0L1Cache.Step env s.cache w) (hasked : s.Asked w) :
      Step env d s { s with cache := w }
  | invoke (j : Nat) (t : L0L1Cache.Transaction κ) (ht : s.cache.transactions[j]? = some t)
      (request : ρ) (hkey : ∀ k ∈ t.key, k = d.keyFor request) (faults : List (Fault Raised))
      (host : σ) (x : Exit Raised (StagedArtifact × List (StageValue π))) (desk : Desk σ κ)
      (hrun : (d.invoke request t.cachedPreprocess).run faults ⟨host, []⟩ = (x, desk)) :
      Step env d s (s.invoked j request x desk.sent)

/-- A cache that was just made, and no invocation so far. -/
structure Service.Initial (s : Service κ ρ π) : Prop where
  cache : s.cache.Initial
  sent : ∀ j, s.sent j = []
  returned : s.returned = []

/-- Every interleaving of a session's invocations. -/
def service [DecidableEq κ] (env : L0L1Cache.Env κ) (d : Deployment σ ς π ρ κ) :
    Machine.System (Service κ ρ π) where
  init := Service.Initial
  step := Step env d

end StagedAdapter

end NanoAural
