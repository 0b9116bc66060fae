import Mathlib.Logic.Function.Basic
import NanoAural.ControlFoley.ConditionCache
import NanoAural.ControlFoley.MemoryStore

/-!
# The L0/L1 cache

`ControlFoleyL0L1Cache` over the memory store: transactions that read while they are
constructed and write at their commit, the generation that stops those of before an
invalidation, and the flags an invalidation falls back to where the store raises. `begin`
holds the lock twice, before and after it computes its key; everything else that touches
the cache holds it once.
-/

namespace NanoAural

open Faulty Faulty.Prog

namespace L0L1Cache

open ConditionCache (Invalidation)
open MemoryCache (StorePolicy Hexdigest StoreEntry StoreRaise StoreCall StoreAnswer StoreOutcome
  StoreSnapshot MemoryStore Identity)

/-! ## State -/

/-- What the methods raise, as far as a handler tells it apart. -/
inductive Raised where
  /-- What the store and the validators raise. -/
  | cache (e : StoreRaise)
  | drift (message : String)
  /-- Any other `Exception`. -/
  | exception
  /-- What `except Exception` lets through. -/
  | interrupt
  deriving DecidableEq, Repr

/-- What a cache is given. `κ` is the type of cache keys. -/
structure Env (κ : Type) where
  policy : StorePolicy
  hash : Hexdigest
  deployment : κ → String
  canonicalBytes : κ → List UInt8

inductive TierState where
  | unavailable | hit | miss | corrupt
  deriving DecidableEq, Repr

/-- A payload that was read, and when the transaction began that staged it: a mark the code does
not have. -/
structure ReadPayload where
  payload : List UInt8
  origin : Nat
  deriving DecidableEq, Repr

/-- `ControlFoleyCacheTransaction`. -/
structure Transaction (κ : Type) where
  /-- When it began: a mark the code does not have. -/
  begun : Nat
  key : Option κ
  generation : Nat
  states : OrderedMap String TierState
  payloads : OrderedMap String ReadPayload
  pending : OrderedMap String (List UInt8)
  faults : Nat
  writes : Nat
  reason : Option String
  storeDisabled : Bool
  complete : Bool

/-- What `__init__` starts with. -/
def Transaction.new {κ : Type} (begun : Nat) (key : Option κ) (generation : Nat)
    (reason : Option String) (storeDisabled : Bool) : Transaction κ where
  begun := begun
  key := key
  generation := generation
  states := MemoryCache.cacheLevels.foldl (fun m tier => m.put tier .unavailable) .empty
  payloads := .empty
  pending := .empty
  faults := if reason.isNone then 0 else 1
  writes := 0
  reason := reason
  storeDisabled := storeDisabled
  complete := false

/-- The cache object, its store and the clock: what it will show, and how often it was asked. -/
structure Memory where
  store : MemoryStore
  /-- When the transaction began that staged the entry: a mark the code does not have. -/
  origin : Identity → Nat
  clock : Nat → Option ℚ
  readings : Nat
  generation : Nat
  globallyDisabled : Bool
  disabledDeployments : List String

/-- The state of a program: the cache and the transaction it works on. -/
structure State (κ : Type) extends Memory where
  txn : Transaction κ

abbrev CacheProg (κ α : Type) := Prog (State κ) Raised α

variable {κ : Type}

/-- `except Exception: handler`. -/
def catchException {α : Type} (p : CacheProg κ α) (handler : CacheProg κ α) : CacheProg κ α :=
  p.tryCatch fun e =>
    match e with
    | .interrupt => raise e
    | .cache _ | .drift _ | .exception => handler

/-- `raise` where the validator did. -/
def require : Except StoreRaise Unit → CacheProg κ Unit
  | .ok _ => pure ()
  | .error e => raise (.cache e)

/-- `CacheReport`, less what is the same in all of them. -/
structure CacheReport where
  hits : Nat
  misses : Nat
  bytesUsed : ℤ
  degraded : Bool
  levels : OrderedMap String TierState
  writes : Nat
  faults : Nat
  residentEntries : Nat
  evictions : Nat
  reason : Option String

variable (env : Env κ)

/-- `key.digest`. -/
def Env.digest (key : κ) : String := env.hash.sha256 (env.canonicalBytes key)

/-! ## The facade's helpers -/

/-- A call on the store. Besides what the store itself raises the call may raise anything, before
or after its effect. `mark` is what becomes of the origins. -/
def storeCall {α : Type} (mark : α → State κ → Identity → Nat)
    (method : Option ℚ → MemoryCache.StoreProg α) : CacheProg κ α :=
  call fun s =>
    match (method (s.clock s.readings)).run [] s.store with
    | (.returned a, store) =>
        (.ok a, { s with store := store, readings := s.readings + 1, origin := mark a s })
    | (.raised e, store) => (.error (.cache e), { s with store := store, readings := s.readings + 1 })
    | (.killed, store) => (.error .interrupt, { s with store := store })

/-- Nothing new is stored. -/
def unmarked {α : Type} (_ : α) (s : State κ) : Identity → Nat := s.origin

/-- What is stored was staged by the transaction at hand. -/
def marked (identity : Identity) (outcome : StoreOutcome) (s : State κ) : Identity → Nat :=
  if outcome = .stored then Function.update s.origin identity s.txn.begun else s.origin

/-- `_is_disabled` of a state. -/
def Memory.isDisabled (s : Memory) (deployment : String) : Bool :=
  s.globallyDisabled || s.disabledDeployments.contains deployment

/-- What `_safe_put` returns. -/
inductive PutOutcome where
  | stored | present | rejected | fault
  deriving DecidableEq, Repr

def PutOutcome.of : StoreOutcome → PutOutcome
  | .stored => .stored
  | .present => .present
  | .rejected => .rejected

namespace Cache

/-- `_is_disabled`. -/
def isDisabled (deployment : String) : CacheProg κ Bool := peek fun s => s.isDisabled deployment

/-- `_get_entry`. -/
def getEntry (tier : String) (key : κ) : CacheProg κ (Option StoreEntry) := do
  let disabled ← isDisabled (env.deployment key)
  raiseWhen disabled .exception
  storeCall unmarked (MemoryCache.getEntry tier (env.digest key))

/-- `_safe_put`. -/
def safePut (tier : String) (key : κ) (payload : List UInt8) : CacheProg κ PutOutcome := do
  let disabled ← isDisabled (env.deployment key)
  if disabled then pure .fault
  else catchException (do
    let outcome ← storeCall (marked (tier, env.digest key)) fun reading =>
      MemoryCache.putIfAbsent env.policy env.hash tier (env.digest key) (env.deployment key) payload
        reading
    pure (.of outcome)) (pure .fault)

/-- `_safe_delete`. -/
def safeDelete (tier : String) (key : κ) : CacheProg κ Unit := do
  let disabled ← isDisabled (env.deployment key)
  if disabled then pure ()
  else catchException (storeCall unmarked fun _ => MemoryCache.delete tier (env.digest key)) (pure ())

/-- `_safe_snapshot`. -/
def safeSnapshot : CacheProg κ (Option StoreSnapshot) := do
  let disabled ← peek fun s => s.globallyDisabled
  if disabled then pure none
  else catchException (some <$> storeCall unmarked MemoryCache.snapshot) (pure none)

end Cache

/-! ## Transactions -/

namespace Transaction

/-- Change the transaction at hand. -/
def update (f : Transaction κ → Transaction κ) : CacheProg κ Unit :=
  assign fun s => { s with txn := f s.txn }

/-- `record_fault`. -/
def recordFault (reason : String) : CacheProg κ Unit :=
  update fun t => { t with
    faults := t.faults + 1
    reason := some
      (if ["codec_fault", "store_fault", "key_unavailable", "limit_rejected"].contains reason then
        reason
      else "store_fault") }

/-- `_states[tier] = state`. -/
def setState (tier : String) (state : TierState) : CacheProg κ Unit :=
  update fun t => { t with states := t.states.put tier state }

/-- The checks on an entry that was read. -/
def isValid (tier : String) (key : κ) (expected : Option (List UInt8)) (entry : StoreEntry) : Bool :=
  entry.tier == tier && entry.keyDigest == env.digest key
    && entry.deploymentFingerprint == env.deployment key
    && env.hash.sha256 entry.payload == entry.payloadSha256
    && expected.all fun payload => entry.payload == payload

/-- `_read`, once there is an entry or none. -/
def judge (tier : String) (key : κ) (expected : Option (List UInt8)) :
    Option StoreEntry → CacheProg κ Unit
  | none => setState tier .miss
  | some entry =>
      if isValid env tier key expected entry then do
        setState tier .hit
        let origin ← peek fun s => s.origin (tier, env.digest key)
        update fun t => { t with payloads := t.payloads.put tier ⟨entry.payload, origin⟩ }
      else do
        setState tier .corrupt
        update fun t => { t with faults := t.faults + 1 }
        Cache.safeDelete env tier key

/-- `_read`. -/
def read (tier : String) (key : κ) (expected : Option (List UInt8)) : CacheProg κ Unit := do
  let entry ← catchException (some <$> Cache.getEntry env tier key) (pure none)
  match entry with
  | none => do
      setState tier .miss
      recordFault "store_fault"
  | some entry => judge env tier key expected entry

/-- `__init__` of a transaction with a key. -/
def construct (begun : Nat) (key : κ) : CacheProg κ Unit := do
  assign fun s => { s with txn := Transaction.new begun (some key) s.generation none false }
  read env "l0_metadata" key (some (env.canonicalBytes key))
  read env "l1_preprocess" key none
  update fun t =>
    if t.states.get? "l0_metadata" = some .hit then t
    else { t with pending := t.pending.put "l0_metadata" (env.canonicalBytes key) }

/-- What `report` asks the store. -/
def takeSnapshot : CacheProg κ (Option StoreSnapshot) := do
  let disabled ← peek fun s => s.txn.storeDisabled
  if disabled then pure none else Cache.safeSnapshot

/-- The first fault, where there is no snapshot. -/
def noteMissing (snapshot : Option StoreSnapshot) : CacheProg κ Unit := do
  let faults ← peek fun s => s.txn.faults
  if snapshot.isNone && faults == 0 then recordFault "store_fault" else pure ()

/-- `report`. -/
def report : CacheProg κ CacheReport := do
  let snapshot ← takeSnapshot
  noteMissing snapshot
  let taken := snapshot.getD (⟨0, 0, 0⟩ : StoreSnapshot)
  peek fun s => {
    hits := s.txn.states.items.countP fun p => p.2 = .hit
    misses := s.txn.states.items.countP fun p => p.2 = .miss ∨ p.2 = .corrupt
    bytesUsed := taken.bytesUsed
    degraded := s.txn.faults != 0
    levels := s.txn.states
    writes := s.txn.writes
    faults := s.txn.faults
    residentEntries := taken.entries
    evictions := taken.evictions
    reason := s.txn.reason }

/-- `cached_preprocess`. -/
def cachedPreprocess (t : Transaction κ) : Option (List UInt8) :=
  (t.payloads.get? "l1_preprocess").map ReadPayload.payload

/-- `reject_cached_preprocess`. -/
def rejectCachedPreprocess : CacheProg κ Unit := do
  let txn ← peek fun s => s.txn
  match txn.key with
  | none => pure ()
  | some key => do
      setState "l1_preprocess" .corrupt
      update fun t => { t with
        payloads := t.payloads.erase "l1_preprocess"
        faults := t.faults + 1 }
      Cache.safeDelete env "l1_preprocess" key

/-- `stage_preprocess`. -/
def stagePreprocess (payload : List UInt8) : CacheProg κ Unit := do
  let txn ← peek fun s => s.txn
  if txn.key.isNone || txn.complete then pure ()
  else if payload.isEmpty then recordFault "codec_fault"
  else update fun t => { t with pending := t.pending.put "l1_preprocess" payload }

/-- `abort`. -/
def abort : CacheProg κ Unit := update fun t => { t with pending := .empty, complete := true }

/-- `invalidated`. -/
def invalidated : CacheProg κ CacheReport := do
  update fun t => { t with pending := .empty, reason := some "invalidated", complete := true }
  report

/-- One round of the loop in `commit`. -/
def write (key : κ) (staged : String × List UInt8) : CacheProg κ Unit := do
  let outcome ← Cache.safePut env staged.1 key staged.2
  match outcome with
  | .stored => update fun t => { t with writes := t.writes + 1 }
  | .fault => recordFault "store_fault"
  | .rejected => recordFault "limit_rejected"
  | .present => pure ()

variable [DecidableEq κ]

/-- `commit`. -/
def commit (current : Option κ) : CacheProg κ CacheReport := do
  let txn ← peek fun s => s.txn
  if txn.complete then report
  else
    match txn.key with
    | none => do
        update fun t => { t with complete := true }
        report
    | some key => do
        -- the inputs, read again, must be those the transaction began with
        if current = some key then do
          forEach txn.pending.items (write env key)
          abort
          report
        else do
          abort
          raise (.drift "ControlFoley cache inputs changed before commit")

end Transaction

/-! ## The cache's own methods -/

namespace Cache

/-- A transaction without a key. -/
def keyless (begun : Nat) (reason : String) (storeDisabled : Bool) : CacheProg κ Unit :=
  assign fun s => { s with
    txn := Transaction.new begun none s.generation (some reason) storeDisabled }

/-- `begin` up to the key: whether it has returned a transaction already. -/
def beginCheck (begun : Nat) (deployment : String) : CacheProg κ Bool := do
  let disabled ← isDisabled deployment
  if disabled then do
    keyless begun "store_fault" true
    pure true
  else pure false

/-- The rest of `begin`, given what `key_for` made of the inputs. -/
def beginKeyed (begun : Nat) (deployment : String) (key : Except Raised κ) : CacheProg κ Unit :=
  catchException (do
    match key with
    | .error e => raise e
    | .ok key => do
        let disabled ← isDisabled deployment
        if disabled then keyless begun "store_fault" true
        else Transaction.construct env begun key) (keyless begun "key_unavailable" false)

/-- `commit`, given what `key_for` makes of the inputs now. -/
def commit [DecidableEq κ] (current : Except Raised κ) : CacheProg κ CacheReport := do
  let txn ← peek fun s => s.txn
  match txn.key with
  | none => Transaction.commit env none
  | some _ => do
      let current ← catchException
        (match current with
          | .error e => raise e
          | .ok key => pure key) (do
        Transaction.abort
        raise (.drift "ControlFoley cache inputs could not be revalidated"))
      let generation ← peek fun s => s.generation
      if txn.generation != generation then Transaction.invalidated
      else Transaction.commit env (some current)

/-- `self._generation += 1`. -/
def nextGeneration : CacheProg κ Unit := assign fun s => { s with generation := s.generation + 1 }

/-- `invalidate_deployment`. -/
def invalidateDeployment (deployment : String) : CacheProg κ Nat := do
  require (MemoryCache.checkSha256 deployment "deployment_fingerprint")
  nextGeneration
  let disabled ← peek fun s => s.globallyDisabled
  if disabled then pure 0
  else catchException (storeCall unmarked fun _ => MemoryCache.invalidateDeployment deployment) (do
      assign fun s => { s with disabledDeployments := deployment :: s.disabledDeployments }
      pure 0)

/-- `invalidate_all`. -/
def invalidateAll : CacheProg κ Nat := do
  nextGeneration
  let disabled ← peek fun s => s.globallyDisabled
  if disabled then pure 0
  else catchException (storeCall unmarked fun _ => MemoryCache.invalidateAll) (do
      assign fun s => { s with globallyDisabled := true }
      pure 0)

/-- `close`. -/
def close : CacheProg κ Unit := do
  nextGeneration
  assign fun s => { s with globallyDisabled := true }
  catchException (storeCall unmarked fun _ => MemoryCache.close) (pure ())

/-- `invalidate_deployment` or `invalidate_all`. -/
def invalidate : Option String → CacheProg κ Nat
  | some deployment => invalidateDeployment deployment
  | none => invalidateAll

end Cache

/-! ## Worlds -/

/-- What a caller does with a transaction. `current` is what `key_for` makes of its inputs then. -/
inductive TransactionCall (κ : Type) where
  | rejectCachedPreprocess
  | stagePreprocess (payload : List UInt8)
  | recordFault (reason : String)
  | abort
  | report
  | commit (current : Except Raised κ)

/-- What a call returns is dropped: nothing of the cache is in it. -/
def TransactionCall.run [DecidableEq κ] : TransactionCall κ → CacheProg κ Unit
  | .rejectCachedPreprocess => Transaction.rejectCachedPreprocess env
  | .stagePreprocess payload => Transaction.stagePreprocess payload
  | .recordFault reason => Transaction.recordFault reason
  | .abort => Transaction.abort
  | .report => (fun _ => ()) <$> Transaction.report
  | .commit current => (fun _ => ()) <$> Cache.commit env current

/-- A cache and its threads. `underway` has the deployment of every `begin` that is computing its
key; `now` counts what is begun and invalidated. -/
structure World (κ : Type) where
  memory : Memory
  transactions : List (Transaction κ)
  underway : List String
  now : Nat
  invalidations : List Invalidation

namespace World

variable (w : World κ)

/-- Where a program starts that works on the transaction. -/
def state (t : Transaction κ) : State κ := { w.memory with txn := t }

/-- What the first part of `begin` leaves: a transaction, or a key to compute. -/
def checked (deployment : String) (x : Exit Raised Bool) (s : State κ) : World κ :=
  match x with
  | .returned true => { w with
      memory := s.toMemory
      transactions := w.transactions ++ [s.txn]
      now := w.now + 1 }
  | .returned false => { w with memory := s.toMemory, underway := w.underway ++ [deployment] }
  | .raised _ | .killed => { w with memory := s.toMemory }

/-- What the rest leaves: a transaction where it returned. -/
def began (n : Nat) (x : Exit Raised Unit) (s : State κ) : World κ :=
  match x with
  | .returned _ => { w with
      memory := s.toMemory
      transactions := w.transactions ++ [s.txn]
      underway := w.underway.eraseIdx n
      now := w.now + 1 }
  | .raised _ | .killed => { w with memory := s.toMemory, underway := w.underway.eraseIdx n }

/-- What a method of transaction `j` leaves. -/
def called (j : Nat) (s : State κ) : World κ :=
  { w with memory := s.toMemory, transactions := w.transactions.set j s.txn }

/-- What an invalidation leaves: it counts where it returned. -/
def invalidated (deployment : Option String) (x : Exit Raised Nat) (s : State κ) : World κ :=
  match x with
  | .returned _ => { w with
      memory := s.toMemory
      now := w.now + 1
      invalidations := w.invalidations ++ [⟨deployment, w.now⟩] }
  | .raised _ | .killed => { w with memory := s.toMemory }

end World

/-- At hand where no transaction is. -/
def noTransaction : Transaction κ := Transaction.new 0 none 0 none false

/-- What one thread does while it holds the lock. `faults` is what befalls the calls of the store;
a thread that is cut off leaves what it has done. -/
inductive Step [DecidableEq κ] (w : World κ) : World κ → Prop where
  | check (deployment : String) (faults : List (Fault Raised)) (x : Exit Raised Bool) (s : State κ)
      (hrun : (Cache.beginCheck w.now deployment).run faults (w.state noTransaction) = (x, s)) :
      Step w (w.checked deployment x s)
  | begin (n : Nat) (deployment : String) (hn : w.underway[n]? = some deployment)
      (key : Except Raised κ) (hkey : ∀ k, key = .ok k → env.deployment k = deployment)
      (faults : List (Fault Raised)) (x : Exit Raised Unit) (s : State κ)
      (hrun : (Cache.beginKeyed env w.now deployment key).run faults (w.state noTransaction)
        = (x, s)) :
      Step w (w.began n x s)
  | transaction (j : Nat) (t : Transaction κ) (ht : w.transactions[j]? = some t)
      (c : TransactionCall κ) (faults : List (Fault Raised)) (x : Exit Raised Unit) (s : State κ)
      (hrun : (c.run env).run faults (w.state t) = (x, s)) :
      Step w (w.called j s)
  | invalidate (deployment : Option String) (faults : List (Fault Raised)) (x : Exit Raised Nat)
      (s : State κ)
      (hrun : (Cache.invalidate deployment).run faults (w.state noTransaction) = (x, s)) :
      Step w (w.invalidated deployment x s)
  | close (faults : List (Fault Raised)) (x : Exit Raised Unit) (s : State κ)
      (hrun : Cache.close.run faults (w.state noTransaction) = (x, s)) :
      Step w { w with memory := s.toMemory }

/-- A cache that was just made, whatever its clock will show. -/
structure World.Initial (w : World κ) : Prop where
  store : w.memory.store = .new
  generation : w.memory.generation = 0
  enabled : w.memory.globallyDisabled = false ∧ w.memory.disabledDeployments = []
  transactions : w.transactions = []
  underway : w.underway = []
  invalidations : w.invalidations = []

/-- Every interleaving of the threads. -/
def cacheSystem [DecidableEq κ] : Machine.System (World κ) where
  init := World.Initial
  step := Step env

end L0L1Cache

end NanoAural
