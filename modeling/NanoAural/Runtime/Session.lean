import Mathlib.Logic.Function.Basic
import NanoAural.Base.System

/-!
# Model sessions

`ModelSession` and the calls `Runtime` makes on it. A call goes through stages,
one for each place where another thread can come in: a look at the state under the
lifecycle lock, an operation on the execution lock, and the adapter's own work. Any
number of calls are under way at once, and so is the `load` that made the session:
the adapter it loads may hand the session out early.
-/

namespace NanoAural

open Machine

/-- `SessionState`. -/
inductive SessionState where
  | unloaded
  | loading
  | ready
  | running
  | failed
  | unloading
  deriving DecidableEq, Repr

/-- How a call ends. -/
inductive Reply where
  | returned
  /-- `InvocationCancelledError`. -/
  | cancelled
  /-- `InvocationRejectedError`. -/
  | rejected
  /-- `AdapterContractError`. -/
  | contract
  /-- `AdapterExecutionError`. -/
  | execution
  /-- The adapter's own exception, unchanged. -/
  | reraised
  /-- `SessionStateError`. -/
  | sessionState
  deriving DecidableEq, Repr

/-- What `adapter.invoke` does. -/
inductive Outcome where
  /-- It returns: whether an `InvocationResult`, and whether of this invocation. -/
  | result (valid sameInvocation : Bool)
  | cancelled
  | rejected
  | contract
  | execution
  /-- It raises any other `Exception`. -/
  | exception
  /-- It raises a `BaseException` that is no `Exception`. -/
  | interrupted
  deriving DecidableEq, Repr

/-- The body of `Runtime.invoke` after `adapter.invoke`, up to its `except` clauses. -/
def settle (cancelled : Bool) : Outcome → Reply
  | .result valid sameInvocation =>
      if cancelled then .cancelled
      else if !valid then .contract
      else if !sameInvocation then .contract
      else .returned
  | .cancelled => .cancelled
  | .rejected => .rejected
  | .contract => .contract
  | .execution => .execution
  | .exception => .execution
  | .interrupted => .reraised

/-- The argument of `_finish_invocation`. -/
def Reply.failed : Reply → Bool
  | .returned | .cancelled | .rejected => false
  | .contract | .execution | .reraised | .sessionState => true

/-- A call on the session, by the runtime it is made on and, for an invocation, its token. -/
inductive SessionCall where
  | invoke (runtime token : Nat)
  | unload (runtime : Nat)

/-- Where a call is. -/
inductive Stage where
  | start
  /-- Past `_require_runtime`. -/
  | bound
  /-- In `_execution_lock.acquire`. -/
  | waiting
  /-- The wait timed out. -/
  | timedOut
  /-- Holding the execution lock. -/
  | locked
  /-- Past the check of the token under the lock. -/
  | checked
  /-- Back from `_acquire_invocation`. -/
  | acquired
  /-- Inside `adapter.invoke`. -/
  | invoking
  | invoked (outcome : Outcome)
  /-- About to transition out of `RUNNING`. -/
  | finishing (reply : Reply)
  /-- About to release the execution lock. -/
  | unlocking (reply : Reply)
  /-- Inside `adapter.unload`. -/
  | unloading
  | unloaded (success : Bool)
  | done (reply : Reply)
  deriving DecidableEq, Repr

/-- Where `Runtime.load` is. -/
inductive LoadStage where
  | created
  | bound
  | loading
  | loaded (success : Bool)
  | done
  deriving DecidableEq, Repr

/-- What a call has done to the session so far. -/
structure Track where
  /-- How often it acquired, and released, the execution lock. -/
  acquired : Nat
  released : Nat
  /-- It moved the session to `RUNNING`. -/
  entered : Bool
  /-- The state it moved the session to from `RUNNING`. -/
  left : Option SessionState
  deriving DecidableEq, Repr

structure SessionWorld where
  state : SessionState
  /-- The runtime the session is bound to. -/
  runtime : Option Nat
  /-- The call that holds the execution lock. -/
  executor : Option Nat
  load : LoadStage
  /-- The tokens cancelled so far. -/
  cancelled : Nat → Bool
  stage : Nat → Stage
  track : Nat → Track
  /-- The session has been `FAILED`, or `UNLOADED` after it was loaded. -/
  ended : Bool
  /-- How often `adapter.unload` succeeded. -/
  unloads : Nat

namespace SessionWorld

/-- A session as its constructor leaves it, and nothing called yet. -/
def start : SessionWorld where
  state := .unloaded
  runtime := none
  executor := none
  load := .created
  cancelled _ := false
  stage _ := .start
  track _ := ⟨0, 0, false, none⟩
  ended := false
  unloads := 0

variable (w : SessionWorld)

/-- The call goes on to its next stage. -/
def goto (c : Nat) (stage : Stage) : SessionWorld :=
  { w with stage := Function.update w.stage c stage }

def note (c : Nat) (track : Track) : SessionWorld :=
  { w with track := Function.update w.track c track }

/-- `_transition`: the session's new state, if the present one is expected. -/
def transition (expected : List SessionState) (target : SessionState) : Option SessionWorld :=
  if w.state ∈ expected then
    some { w with
      state := target
      ended := w.ended || target == .failed || target == .unloaded }
  else none

/-- What a step leaves open: whether a wait for the lock ends in time, and what the adapter does. -/
inductive Choice where
  | go
  | timeout
  | outcome (outcome : Outcome)
  | unloads (success : Bool)

/-- The next step of an invocation. -/
def invokeStep (c runtime token : Nat) (choice : Choice) : Option SessionWorld :=
  match w.stage c, choice with
  | .start, .go =>
      if w.runtime = some runtime then some (w.goto c .bound)
      else some (w.goto c (.done .sessionState))
  | .bound, .go =>
      if w.cancelled token then some (w.goto c (.done .cancelled)) else some (w.goto c .waiting)
  | .waiting, .go =>
      if w.executor = none then
        some ((({ w with executor := some c }).note c
          { w.track c with acquired := (w.track c).acquired + 1 }).goto c .locked)
      else none
  -- the lock is asked for in turns of 50 ms, with a look at the token in between
  | .waiting, .timeout => some (w.goto c .timedOut)
  | .timedOut, .go =>
      if w.cancelled token then some (w.goto c (.done .cancelled)) else some (w.goto c .waiting)
  -- the token is looked at once more under the lock
  | .locked, .go =>
      if w.cancelled token then some (w.goto c (.unlocking .cancelled))
      else some (w.goto c .checked)
  | .checked, .go =>
      match w.transition [.ready] .running with
      | some w' => some ((w'.note c { w.track c with entered := true }).goto c .acquired)
      | none => some (w.goto c (.unlocking .sessionState))
  | .acquired, .go => some (w.goto c .invoking)
  | .invoking, .outcome outcome => some (w.goto c (.invoked outcome))
  | .invoked outcome, .go => some (w.goto c (.finishing (settle (w.cancelled token) outcome)))
  | .finishing reply, .go =>
      match w.transition [.running] (if reply.failed then .failed else .ready) with
      | some w' => some ((w'.note c { w.track c with left := some w'.state }).goto c
          (.unlocking reply))
      | none => some (w.goto c (.unlocking .sessionState))
  | .unlocking reply, .go =>
      some ((({ w with executor := none }).note c
        { w.track c with released := (w.track c).released + 1 }).goto c (.done reply))
  | _, _ => none

/-- The next step of an unload. -/
def unloadStep (c runtime : Nat) (choice : Choice) : Option SessionWorld :=
  match w.stage c, choice with
  | .start, .go =>
      if w.runtime = some runtime then some (w.goto c .bound)
      else some (w.goto c (.done .sessionState))
  | .bound, .go =>
      match w.transition [.ready, .failed] .unloading with
      | some w' => some (w'.goto c .unloading)
      | none => some (w.goto c (.done .sessionState))
  | .unloading, .unloads success =>
      some (({ w with unloads := w.unloads + success.toNat }).goto c (.unloaded success))
  | .unloaded success, .go =>
      match w.transition [.unloading] (if success then .unloaded else .failed) with
      | some w' => some (w'.goto c (.done (if success then .returned else .reraised)))
      | none => some (w.goto c (.done .sessionState))
  | _, _ => none

/-- The next step of a call. -/
def callStep (calls : Nat → SessionCall) (c : Nat) (choice : Choice) : Option SessionWorld :=
  match calls c with
  | .invoke runtime token => w.invokeStep c runtime token choice
  | .unload runtime => w.unloadStep c runtime choice

/-- The next step of the `load` on runtime `owner`. -/
def loadStep (owner : Nat) (success : Bool) : Option SessionWorld :=
  match w.load with
  | .created => some { w with runtime := some owner, load := .bound }
  | .bound => (w.transition [.unloaded] .loading).map fun w' => { w' with load := .loading }
  | .loading => some { w with load := .loaded success }
  | .loaded success =>
      (w.transition [.loading] (if success then .ready else .failed)).map fun w' =>
        { w' with load := .done }
  | .done => none

end SessionWorld

/-- A step of any thread. -/
inductive SessionMove where
  | load (success : Bool)
  | call (c : Nat) (choice : SessionWorld.Choice)
  | cancel (token : Nat)

def SessionMove.run (calls : Nat → SessionCall) (owner : Nat) :
    SessionMove → SessionWorld → Option SessionWorld
  | .load success, w => w.loadStep owner success
  | .call c choice, w => w.callStep calls c choice
  | .cancel token, w => some { w with cancelled := Function.update w.cancelled token true }

/-- The session under every interleaving of its calls. -/
def sessionSystem (calls : Nat → SessionCall) (owner : Nat) : System SessionWorld where
  init w := w = .start
  step w w' := ∃ move : SessionMove, move.run calls owner w = some w'

end NanoAural
