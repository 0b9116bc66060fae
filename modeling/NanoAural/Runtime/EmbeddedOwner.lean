import Mathlib.Data.Finset.Card
import Mathlib.Logic.Function.Basic
import NanoAural.Base.System

/-!
# The owner of an embedded runtime

`EmbeddedRuntimeOwner`. Threads call `invoke` and `close`, any number of them and in any
order, and take turns at the places where one of them holds the condition's lock. A
thread that waits on the condition has let go of the lock, and goes on only after a
`notify_all` that comes later. `mark_unsafe` may be called at any time. No thread calls
`close` out of an invocation of its own.
-/

namespace NanoAural

namespace EmbeddedOwner

open Machine

/-- Where a thread is. -/
inductive OwnerStage where
  | idle
  /-- Past the first half of `_lease`: before `runtime.invoke`, inside it, and after it. -/
  | leased
  | invoking
  | releasing
  /-- In the wait for another thread to end its `close`, notified or not. -/
  | awaitClose (notified : Bool)
  /-- In the wait for the invocations to end. -/
  | awaitInvocations (notified : Bool)
  /-- In `runtime.close`, if there is a runtime. -/
  | unloading (runtime : Option Nat)
  /-- After `runtime.close`, before the lock is taken again. -/
  | unloadFailed
  | unloaded
  deriving DecidableEq, Repr

/-- What `notify_all` does to a thread. -/
def OwnerStage.wake : OwnerStage → OwnerStage
  | .awaitClose _ => .awaitClose true
  | .awaitInvocations _ => .awaitInvocations true
  | stage => stage

/-- What has happened. -/
inductive OwnerEvent where
  | built (runtime : Nat)
  /-- An invocation starts. -/
  | invocation (thread : Nat)
  | markedUnsafe
  | closeBegan
  /-- A call of `runtime.close` ended. -/
  | unloaded (runtime : Nat) (success : Bool)
  /-- A call of `close` returned. -/
  | closeReturned
  deriving DecidableEq, Repr

structure OwnerWorld where
  runtime : Option Nat
  activeInvocations : Int
  closing : Bool
  closed : Bool
  unsafeReason : Option String
  stage : Nat → OwnerStage
  /-- The last event stands last. -/
  history : List OwnerEvent

namespace OwnerWorld

/-- An owner as its constructor leaves it. -/
def start : OwnerWorld where
  runtime := none
  activeInvocations := 0
  closing := false
  closed := false
  unsafeReason := none
  stage _ := .idle
  history := []

variable (w : OwnerWorld)

def goto (i : Nat) (stage : OwnerStage) : OwnerWorld :=
  { w with stage := Function.update w.stage i stage }

def note (event : OwnerEvent) : OwnerWorld := { w with history := w.history ++ [event] }

/-- `notify_all`. -/
def notifyAll : OwnerWorld := { w with stage := fun i => (w.stage i).wake }

/-- An invocation starts. -/
def enter (i : Nat) : OwnerWorld :=
  ({ w with activeInvocations := w.activeInvocations + 1 }.note (.invocation i)).goto i .leased

/-- The first half of `_lease`, with what the factory would return. A lease that is refused, or
whose factory raises, changes nothing. -/
def lease (i : Nat) (factory : Option Nat) : OwnerWorld :=
  if w.closed then w
  else if w.closing then w
  else if w.unsafeReason.isSome then w
  else
    match w.runtime, factory with
    | some _, _ => w.enter i
    | none, some runtime => ({ w with runtime := some runtime }.note (.built runtime)).enter i
    | none, none => w

/-- The second half of `_lease`. -/
def release (i : Nat) : OwnerWorld :=
  ({ w with activeInvocations := w.activeInvocations - 1 }.notifyAll).goto i .idle

def markUnsafe (reason : String) : OwnerWorld :=
  if w.closed then w.note .markedUnsafe
  else { w with unsafeReason := some reason }.note .markedUnsafe

/-- `while self._active_invocations: wait()`, and what comes after it under the lock. -/
def drain (i : Nat) : OwnerWorld :=
  if w.activeInvocations ≠ 0 then w.goto i (.awaitInvocations false)
  else w.goto i (.unloading w.runtime)

/-- `close` where nothing has been closed: to wait for a thread that closes, or to be it. -/
def compete (i : Nat) : OwnerWorld :=
  if w.closing then w.goto i (.awaitClose false) else { w with closing := true }.drain i

/-- `close` returns because another has closed the owner. -/
def already (i : Nat) : OwnerWorld := (w.note .closeReturned).goto i .idle

/-- `close` up to the first wait, also after it. -/
def tryClose (i : Nat) : OwnerWorld := if w.closed then w.already i else w.compete i

/-- The handler of `close`. -/
def closeFails (i : Nat) : OwnerWorld :=
  ({ w with unsafeReason := some "previous unload failed", closing := false }.notifyAll).goto i .idle

/-- The end of `close`. -/
def closeEnds (i : Nat) : OwnerWorld :=
  (({ w with runtime := none, closed := true, closing := false }.notifyAll).note
    .closeReturned).goto i .idle

/-- What a thread does next, where that is open: which method it calls, and how a call ends. -/
inductive Choice where
  | invoke (factory : Option Nat)
  | close
  | go
  | ends (success : Bool)

/-- The next step of a thread. -/
def step (i : Nat) (choice : Choice) : Option OwnerWorld :=
  match w.stage i, choice with
  | .idle, .invoke factory => some (w.lease i factory)
  | .leased, .go => some (w.goto i .invoking)
  | .invoking, .ends _ => some (w.goto i .releasing)
  | .releasing, .go => some (w.release i)
  | .idle, .close => some ((w.note .closeBegan).tryClose i)
  | .awaitClose true, .go => some (w.tryClose i)
  | .awaitInvocations true, .go => some (w.drain i)
  | .unloading none, .go => some (w.goto i .unloaded)
  | .unloading (some runtime), .ends success =>
      some ((w.note (.unloaded runtime success)).goto i (if success then .unloaded else .unloadFailed))
  | .unloadFailed, .go => some (w.closeFails i)
  | .unloaded, .go => some (w.closeEnds i)
  | _, _ => none

end OwnerWorld

inductive OwnerMove where
  | markUnsafe (reason : String)
  | thread (i : Nat) (choice : OwnerWorld.Choice)

def OwnerMove.run : OwnerMove → OwnerWorld → Option OwnerWorld
  | .markUnsafe reason, w => some (w.markUnsafe reason)
  | .thread i choice, w => w.step i choice

/-- The owner under every interleaving. -/
def ownerSystem : System OwnerWorld where
  init w := w = .start
  step w w' := ∃ move : OwnerMove, move.run w = some w'

end EmbeddedOwner

end NanoAural
