import NanoAural.Base.System
import NanoAural.ControlFoley.ConditionStore

/-!
# The condition cache

`ControlFoleyConditionCache` over its disk store: transactions that read at
their beginning and write at their commit, the generation that stops those of
before an invalidation, and the fuses an invalidation falls back to. A world is
the disk together with the instances of one process and their transactions.
-/

namespace NanoAural

open Faulty Faulty.Prog

namespace ConditionCache

variable {κ : Type} (env : CacheEnv κ)

/-! ## The facade's helpers -/

namespace Cache

/-- `_is_disabled`. -/
def isDisabled (deployment : String) : CacheProg κ Bool := do
  let disabled ← peek fun s => s.globallyDisabled || s.disabledDeployments.contains deployment
  if disabled then pure true
  else catchAny (Authority.facade.isFused deployment) fun _ => do
    assign fun s => { s with globallyDisabled := true }
    pure true

/-- `_fuse_all`. The code returns nothing; the result says whether the write succeeded. -/
def fuseAll : CacheProg κ Bool := do
  assign fun s => { s with globallyDisabled := true }
  catchAny (do
    Authority.facade.fuseAll
    pure true) fun _ => pure false

/-- `_fuse_deployment`. The result says whether one of the two writes succeeded. -/
def fuseDeployment (deployment : String) : CacheProg κ Bool := do
  assign fun s => { s with disabledDeployments := deployment :: s.disabledDeployments }
  catchAny (do
    Authority.facade.fuseDeployment deployment
    pure true) fun _ => fuseAll

/-- `_get_entry`. -/
def getEntry (parent : κ) (role : String) : CacheProg κ (Option CacheEntry) := do
  let disabled ← isDisabled (env.deployment parent)
  raiseWhen disabled .other
  Store.getEntry env parent role

/-- `_safe_put`. -/
def safePut (parent : κ) (role : String) (payload : List UInt8) : CacheProg κ PutOutcome := do
  let disabled ← isDisabled (env.deployment parent)
  if disabled then pure .fault
  else catchAny (do
    let outcome ← Store.putIfAbsent env parent role payload
    match outcome with
    | .stored | .present | .rejected => pure outcome
    | .conflict | .fault => do
        let _ ← fuseDeployment (env.deployment parent)
        pure outcome) fun _ => do
      let _ ← fuseDeployment (env.deployment parent)
      pure .fault

/-- `_safe_delete`. -/
def safeDelete (parent : κ) (role : String) : CacheProg κ Bool := do
  let disabled ← isDisabled (env.deployment parent)
  if disabled then pure false
  else catchAny (do
    Store.delete env parent role
    pure true) fun _ => do
      let _ ← fuseDeployment (env.deployment parent)
      pure false

/-- `_safe_snapshot`. -/
def safeSnapshot : CacheProg κ (Option (Nat × Nat)) := do
  let disabled ← peek fun s => s.globallyDisabled
  if disabled then pure none
  else catchAny (some <$> Store.snapshot env) fun _ => pure none

end Cache

/-! ## Transactions -/

namespace Transaction

/-- Change the transaction at hand. -/
def update (f : Transaction κ → Transaction κ) : CacheProg κ Unit :=
  assign fun s => { s with txn := f s.txn }

/-- `_read`. -/
def read (parent : κ) (role : String) : CacheProg κ Unit := do
  let entry ← catchAny (Cache.getEntry env parent role) fun _ => pure none
  match entry with
  | none => pure ()
  | some entry => update fun t => { t with
      payloads := t.payloads ++ [(role, entry.payload, entry.origin)] }

/-- `report`, less what it returns. -/
def report : CacheProg κ Unit := do
  let disabled ← peek fun s => s.txn.storeDisabled
  if disabled then pure ()
  else do
    let _ ← Cache.safeSnapshot env
    pure ()

/-- `abort`. -/
def abort : CacheProg κ Unit := update fun t => { t with pending := [], complete := true }

/-- `invalidated`. -/
def invalidated : CacheProg κ Unit := do
  abort
  report env

/-- `reject`. -/
def reject (role : String) : CacheProg κ Unit := do
  let txn ← peek fun s => s.txn
  match txn.parent with
  | none => pure ()
  | some parent =>
      if txn.roles.contains role then do
        update fun t => { t with payloads := t.payloads.filter (·.1 != role) }
        let _ ← Cache.safeDelete env parent role
        pure ()
      else pure ()

/-- `stage`. A later payload of the same role takes the place of the earlier. -/
def stage (role : String) (payload : List UInt8) : CacheProg κ Unit := do
  let txn ← peek fun s => s.txn
  if txn.roles.contains role && txn.parent.isSome && !txn.complete && !payload.isEmpty then
    update fun t => { t with
      pending := if t.pending.any (·.1 == role) then
          t.pending.map fun p => if p.1 == role then (role, payload) else p
        else t.pending ++ [(role, payload)] }
  else pure ()

/-- `rollback_new_writes`. -/
def rollbackNewWrites (parent : κ) : CacheProg κ Unit := do
  let stored ← peek fun s => s.txn.newlyStored
  forEach stored.reverse fun role => do
    let _ ← Cache.safeDelete env parent role
    pure ()
  update fun t => { t with newlyStored := [] }

/-- The `try` block of `commit`. The cancellation check, here by what it stands before, and the
second look at the inputs belong to the caller. -/
def persist (check : Option String → CacheProg κ Unit) (parent : κ)
    (pending : List (String × List UInt8)) (revalidated : Option κ) [DecidableEq κ] :
    CacheProg κ Unit := do
  forEach pending fun staged => do
    check (some staged.1)
    let outcome ← Cache.safePut env parent staged.1 staged.2
    if outcome == .stored then
      update fun t => { t with newlyStored := t.newlyStored ++ [staged.1] }
    else pure ()
  check none
  raiseWhen (revalidated != some parent) .drift

variable [DecidableEq κ]

/-- `commit` of the transaction. -/
def commit (check : Option String → CacheProg κ Unit) (current revalidated : Option κ) :
    CacheProg κ Unit := do
  let txn ← peek fun s => s.txn
  if txn.complete then report env
  else
    match txn.parent with
    | none => do
        update fun t => { t with complete := true }
        report env
    | some parent =>
        if current != some parent then do
          abort
          raise .drift
        else do
          -- whatever is raised, the writes of this transaction are taken back
          (persist env check parent txn.pending revalidated).tryCatch fun e => do
            rollbackNewWrites env parent
            abort
            raise e
          abort
          report env

end Transaction

/-! ## The cache's own methods -/

namespace Cache

/-- A transaction without a parent. -/
def parentless (begun : Nat) (roles : List String) (generation : Nat) (disabled : Bool) :
    Transaction κ :=
  ⟨begun, none, roles, generation, [], [], [], false, disabled⟩

/-- `begin`, given what `parent_key` makes of the inputs; the new transaction is left at hand. -/
def begin (begun : Nat) (deployment : String) (roles : List String) (parentKey : Option κ) :
    CacheProg κ Unit := do
  let disabled ← isDisabled deployment
  let generation ← peek fun s => s.generation
  if disabled then assign fun s => { s with txn := parentless begun roles generation true }
  else catchAny (do
    match parentKey with
    | none => raise .value
    | some parent => do
        -- asked once more, now that the inputs have been read
        let disabled ← isDisabled deployment
        if disabled then assign fun s => { s with txn := parentless begun roles generation true }
        else do
          assign fun s => { s with
            txn := ⟨begun, some parent, roles, generation, [], [], [], false, false⟩ }
          forEach roles (Transaction.read env parent)) fun _ =>
      assign fun s => { s with txn := parentless begun roles generation false }

variable [DecidableEq κ]

/-- `commit`, given the cancellation check and what `parent_key` makes of the inputs now and once
more at the end. -/
def commit (check : Option String → CacheProg κ Unit) (current revalidated : Option κ) :
    CacheProg κ Unit := do
  let txn ← peek fun s => s.txn
  match txn.parent with
  | none => Transaction.commit env check none none
  | some _ =>
      match current with
      | none => do
          Transaction.abort
          raise .drift
      | some _ => do
          let generation ← peek fun s => s.generation
          if txn.generation != generation then Transaction.invalidated env
          else Transaction.commit env check current revalidated

/-- `assert_current`. -/
def assertCurrent (current : Option κ) : CacheProg κ Unit := do
  let txn ← peek fun s => s.txn
  match txn.parent with
  | none => pure ()
  | some parent =>
      if current != some parent then do
        Transaction.rollbackNewWrites env parent
        raise .drift
      else pure ()

omit [DecidableEq κ]

/-- `self._generation += 1`. -/
def nextGeneration : CacheProg κ Unit := assign fun s => { s with generation := s.generation + 1 }

/-- `invalidate_deployment` under the lock: its result, and whether it stands on a deletion or a
fuse. -/
def invalidateFingerprint (deployment : String) : CacheProg κ (Nat × Bool) := do
  nextGeneration
  catchAny (do
    let count ← Store.invalidateDeployment deployment
    Authority.facade.clearDeployment deployment
    assign fun s => { s with
      disabledDeployments := s.disabledDeployments.filter (· != deployment) }
    pure (count, true)) fun _ => do
      let fused ← fuseDeployment deployment
      pure (0, fused)

/-- `invalidate_deployment`. -/
def invalidateDeployment (deployment : String) : CacheProg κ (Nat × Bool) := do
  requireFingerprint deployment
  invalidateFingerprint deployment

/-- `invalidate_all`. -/
def invalidateAll : CacheProg κ (Nat × Bool) := do
  nextGeneration
  catchAny (do
    let count ← Store.invalidateAll
    Authority.facade.clearAll
    assign fun s => { s with globallyDisabled := false, disabledDeployments := [] }
    pure (count, true)) fun _ => do
      let fused ← fuseAll
      pure (0, fused)

/-- `release_deployment`. -/
def releaseDeployment (deployment : String) : CacheProg κ Unit := do
  requireFingerprint deployment
  let disabled ← peek fun s => s.globallyDisabled
  if disabled then pure ()
  else catchAny (Store.cleanup env) fun _ => do
    nextGeneration
    let _ ← fuseDeployment deployment
    pure ()

/-- `close`. -/
def close : CacheProg κ Unit := do
  nextGeneration
  assign fun s => { s with globallyDisabled := true }
  (catchAny (Store.close env) fun _ => do
    let _ ← fuseAll
    pure ()).tryFinally (Authority.facade.close fun s => { s with fusesClosed := true })

/-- The constructor, on fresh memory. -/
def open' : CacheProg κ Unit := do
  act id
  Store.cleanup env
  act id
  let fused ← Authority.facade.globalFused
  assign fun s => { s with globallyDisabled := fused }

end Cache

/-! ## Worlds -/

/-- One object of the cache, with its store. -/
structure Instance where
  store : StoreMemory
  facade : FacadeMemory

/-- An invalidation that returned: of one deployment or of all, and when. -/
structure Invalidation where
  deployment : Option String
  stamp : Nat
  deriving DecidableEq, Repr

def Invalidation.covers (inv : Invalidation) (deployment : String) : Prop :=
  inv.deployment = none ∨ inv.deployment = some deployment

/-- The root directory and a process: every cache object it made, and every transaction with the
number of its object. `now` counts what is begun and invalidated. -/
structure CacheWorld (κ : Type) where
  disk : CacheDisk
  instances : List Instance
  transactions : List (Nat × Transaction κ)
  now : Nat
  invalidations : List Invalidation

namespace CacheWorld

variable (w : CacheWorld κ)

/-- Where a program of the instance starts that works on the transaction. -/
def state (i : Instance) (t : Transaction κ) : CacheState κ :=
  { w.disk, i.store, i.facade with txn := t }

/-- What a program of instance `n` leaves. A kill takes every object with it. -/
def after {α : Type} (n : Nat) (x : Exit CacheRaise α) (s : CacheState κ) : CacheWorld κ :=
  match x with
  | .killed => { w with disk := s.toCacheDisk, instances := [], transactions := [] }
  | .returned _ | .raised _ => { w with
      disk := s.toCacheDisk
      instances := w.instances.set n ⟨s.toStoreMemory, s.toFacadeMemory⟩ }

/-- What a constructor leaves: a new object where it returned. -/
def opened (x : Exit CacheRaise Unit) (s : CacheState κ) : CacheWorld κ :=
  match x with
  | .returned _ => { w with
      disk := s.toCacheDisk
      instances := w.instances ++ [⟨s.toStoreMemory, s.toFacadeMemory⟩] }
  | .raised _ => { w with disk := s.toCacheDisk }
  | .killed => { w with disk := s.toCacheDisk, instances := [], transactions := [] }

/-- What `begin` leaves: a new transaction where it returned. -/
def began (n : Nat) (x : Exit CacheRaise Unit) (s : CacheState κ) : CacheWorld κ :=
  match x with
  | .returned _ => { w.after n x s with
      now := w.now + 1
      transactions := w.transactions ++ [(n, s.txn)] }
  | .raised _ | .killed => { w.after n x s with now := w.now + 1 }

/-- What a method of transaction `j` leaves. -/
def called (n j : Nat) (x : Exit CacheRaise Unit) (s : CacheState κ) : CacheWorld κ :=
  { w.after n x s with transactions := (w.after n x s).transactions.set j (n, s.txn) }

/-- What an invalidation leaves: it counts where it returned. -/
def invalidated (n : Nat) (deployment : Option String) (x : Exit CacheRaise (Nat × Bool))
    (s : CacheState κ) : CacheWorld κ :=
  match x with
  | .returned _ => { w.after n x s with
      now := w.now + 1
      invalidations := w.invalidations ++ [⟨deployment, w.now⟩] }
  | .raised _ | .killed => { w.after n x s with now := w.now + 1 }

end CacheWorld

/-- What a caller does with a transaction. Its cancellation check may raise what it likes. -/
inductive TransactionCall (κ : Type) where
  | stage (role : String) (payload : List UInt8)
  | reject (role : String)
  | abort
  | report
  | commit (current revalidated : Option κ)
  | assertCurrent (current : Option κ)

def TransactionCall.run [DecidableEq κ] : TransactionCall κ → CacheProg κ Unit
  | .stage role payload => Transaction.stage role payload
  | .reject role => Transaction.reject env role
  | .abort => Transaction.abort
  | .report => Transaction.report env
  | .commit current revalidated => Cache.commit env (fun _ => act id) current revalidated
  | .assertCurrent current => Cache.assertCurrent env current

/-- `invalidate_deployment` or `invalidate_all`. -/
def invalidate : Option String → CacheProg κ (Nat × Bool)
  | some deployment => Cache.invalidateDeployment deployment
  | none => Cache.invalidateAll

/-- The memory of an object under construction. -/
def freshInstance : Instance :=
  ⟨⟨fun _ => none, false, false⟩, ⟨0, false, [], false⟩⟩

/-- At hand where no transaction is. -/
def noTransaction : Transaction κ := Cache.parentless 0 [] 0 false

/-- What can happen next. `faults` is what befalls the calls of the program that runs. -/
inductive CacheStep [DecidableEq κ] (w : CacheWorld κ) : CacheWorld κ → Prop where
  /-- The process ends between two programs. -/
  | kill : CacheStep w { w with instances := [], transactions := [] }
  /-- A cache is opened on the root, where every earlier one has been closed. -/
  | opened (faults : List (Fault CacheRaise)) (x : Exit CacheRaise Unit) (s : CacheState κ)
      (hclosed : ∀ i ∈ w.instances, i.facade.fusesClosed = true)
      (hrun : (Cache.open' env).run faults (w.state freshInstance noTransaction) = (x, s)) :
      CacheStep w (w.opened x s)
  | begin (n : Nat) (i : Instance) (hi : w.instances[n]? = some i) (deployment : String)
      (roles : List String) (parentKey : Option κ)
      (hkey : ∀ parent ∈ parentKey, env.deployment parent = deployment)
      (faults : List (Fault CacheRaise)) (x : Exit CacheRaise Unit) (s : CacheState κ)
      (hrun : (Cache.begin env w.now deployment roles parentKey).run faults
        (w.state i noTransaction) = (x, s)) :
      CacheStep w (w.began n x s)
  | transaction (j n : Nat) (t : Transaction κ) (ht : w.transactions[j]? = some (n, t))
      (i : Instance) (hi : w.instances[n]? = some i) (c : TransactionCall κ)
      (faults : List (Fault CacheRaise)) (x : Exit CacheRaise Unit) (s : CacheState κ)
      (hrun : (c.run env).run faults (w.state i t) = (x, s)) :
      CacheStep w (w.called n j x s)
  /-- An invalidation that falls back to fusing succeeds in one of its writes. -/
  | invalidate (n : Nat) (i : Instance) (hi : w.instances[n]? = some i)
      (deployment : Option String) (faults : List (Fault CacheRaise))
      (x : Exit CacheRaise (Nat × Bool)) (s : CacheState κ)
      (hrun : (invalidate deployment).run faults (w.state i noTransaction) = (x, s))
      (hfused : ∀ count ok, x = .returned (count, ok) → ok = true) :
      CacheStep w (w.invalidated n deployment x s)
  | releaseDeployment (n : Nat) (i : Instance) (hi : w.instances[n]? = some i)
      (deployment : String) (faults : List (Fault CacheRaise)) (x : Exit CacheRaise Unit)
      (s : CacheState κ)
      (hrun : (Cache.releaseDeployment env deployment).run faults (w.state i noTransaction)
        = (x, s)) : CacheStep w (w.after n x s)
  | close (n : Nat) (i : Instance) (hi : w.instances[n]? = some i)
      (faults : List (Fault CacheRaise)) (x : Exit CacheRaise Unit) (s : CacheState κ)
      (hrun : (Cache.close env).run faults (w.state i noTransaction) = (x, s)) :
      CacheStep w (w.after n x s)

/-- A root directory, whatever is in it, and no process. -/
structure CacheWorld.Initial (w : CacheWorld κ) : Prop where
  instances : w.instances = []
  transactions : w.transactions = []
  invalidations : w.invalidations = []

/-- Every sequence of calls, faults and restarts. -/
def cacheSystem [DecidableEq κ] : Machine.System (CacheWorld κ) where
  init := CacheWorld.Initial
  step := CacheStep env

end ConditionCache

end NanoAural
