import NanoAural.Base.Doubles
import NanoAural.Base.Faulty
import NanoAural.Base.OrderedMap
import NanoAural.Durable.Digests

/-!
# The memory cache store

`ControlFoleyMemoryCacheStore`: an ordered dictionary of payloads with a byte
counter, lazy expiry by a monotonic clock and eviction from the old end. A method
reads the clock at most once, so what the clock would show is an argument of it.
-/

namespace NanoAural

open Faulty Faulty.Prog

namespace MemoryCache

/-- What the methods raise: `ValueError`, `RuntimeError`, `OverflowError` and `KeyError`. -/
inductive StoreRaise where
  | value (message : String)
  | runtime (message : String)
  | overflow
  | key
  deriving DecidableEq, Repr

/-- `ControlFoleyCachePolicy`, less the names and versions the store does not read. -/
structure StorePolicy where
  maxEntries : Nat
  maxEntryBytes : Nat
  maxTotalBytes : Nat
  /-- `float(ttl_seconds)`. -/
  ttl : ℚ
  maxEntries_pos : 0 < maxEntries
  maxEntryBytes_pos : 0 < maxEntryBytes
  maxTotalBytes_pos : 0 < maxTotalBytes
  maxEntryBytes_le : maxEntryBytes ≤ maxTotalBytes
  ttl_pos : 0 < ttl
  ttl_double : Doubles.ofRat ttl = some ttl

/-- `hashlib.sha256(payload).hexdigest()`: 64 lower-case hexadecimal digits. -/
structure Hexdigest where
  sha256 : List UInt8 → String
  digest : ∀ payload, acceptsSha256 (sha256 payload) = true

/-- `ControlFoleyCacheEntry`. -/
structure StoreEntry where
  tier : String
  keyDigest : String
  deploymentFingerprint : String
  payload : List UInt8
  payloadSha256 : String
  expiresAt : ℚ
  deriving DecidableEq, Repr

/-- A tier and a key digest. -/
abbrev Identity := String × String

/-- What a store object remembers. -/
structure MemoryStore where
  entries : OrderedMap Identity StoreEntry
  bytesUsed : ℤ
  evictions : Nat
  closed : Bool
  lastNow : Option ℚ

abbrev StoreProg (α : Type) := Prog MemoryStore StoreRaise α

/-- The constructor. -/
def MemoryStore.new : MemoryStore := ⟨OrderedMap.empty, 0, 0, false, none⟩

/-! ## Validators -/

/-- `CONTROLFOLEY_CACHE_LEVELS`. -/
def cacheLevels : List String := ["l0_metadata", "l1_preprocess"]

/-- `raise` where the check did. -/
def require : Except StoreRaise Unit → StoreProg Unit
  | .ok _ => pure ()
  | .error e => raise e

/-- `_tier`. -/
def checkTier (tier : String) : Except StoreRaise Unit :=
  if cacheLevels.contains tier then .ok () else .error (.value "unsupported cache tier")

/-- `_sha256`. -/
def checkSha256 (value name : String) : Except StoreRaise Unit :=
  requireDigest (.value (name ++ " must be a lowercase full SHA-256"))
    (.value (name ++ " must be hexadecimal")) value

def checkPayload (payload : List UInt8) : Except StoreRaise Unit :=
  if payload.isEmpty then .error (.value "cache payload must be non-empty immutable bytes")
  else .ok ()

/-- `__post_init__` of an entry. Without an instant the expiry is infinite. -/
def newEntry (tier keyDigest deploymentFingerprint : String) (payload : List UInt8)
    (payloadSha256 : String) (expiresAt : Option ℚ) : Except StoreRaise StoreEntry := do
  checkTier tier
  checkSha256 keyDigest "key_digest"
  checkSha256 deploymentFingerprint "deployment_fingerprint"
  checkPayload payload
  checkSha256 payloadSha256 "payload_sha256"
  match expiresAt with
  | none => .error (.value "cache expiry must be finite and nonnegative")
  | some expiry =>
      if expiry < 0 then .error (.value "cache expiry must be finite and nonnegative")
      else .ok ⟨tier, keyDigest, deploymentFingerprint, payload, payloadSha256, expiry⟩

/-! ## Helpers of the methods -/

/-- `_ensure_open`. -/
def ensureOpen : StoreProg Unit := do
  let closed ← peek fun s => s.closed
  raiseWhen closed (.runtime "cache store is closed")

/-- A number `_now` does not take: negative, or before the last one. -/
def MemoryStore.refuses (s : MemoryStore) (value : ℚ) : Bool :=
  value < 0 || s.lastNow.any fun last => value < last

/-- `_now`. The clock shows a number, an `int` or a finite `float`, or something else. -/
def now (reading : Option ℚ) : StoreProg ℚ :=
  match reading with
  | none => raise (.runtime "cache monotonic clock is invalid")
  | some value =>
      match Doubles.ofRat value with
      | none => raise .overflow
      | some double => do
          let refused ← peek fun s => s.refuses value
          raiseWhen refused (.runtime "cache monotonic clock is invalid")
          assign fun s => { s with lastNow := some double }
          pure double

/-- `_remove`. -/
def MemoryStore.remove (s : MemoryStore) (identity : Identity) : MemoryStore :=
  match s.entries.get? identity with
  | none => s
  | some entry => { s with
      entries := s.entries.erase identity
      bytesUsed := s.bytesUsed - entry.payload.length }

/-- `_entries.move_to_end`. -/
def MemoryStore.touch (s : MemoryStore) (identity : Identity) : MemoryStore :=
  { s with entries := s.entries.moveToEnd identity }

variable (policy : StorePolicy)

/-- What `_evict_to_limits` goes on for. -/
def MemoryStore.overLimits (s : MemoryStore) : Bool :=
  policy.maxEntries < s.entries.items.length || policy.maxTotalBytes < s.bytesUsed

/-- `popitem(last=False)` and the counters. -/
def popOldest : StoreProg Unit := do
  let items ← peek fun s => s.entries.items
  match items with
  | [] => raise .key
  | (_, entry) :: _ => assign fun s => { s with
      entries := s.entries.tail
      bytesUsed := s.bytesUsed - entry.payload.length
      evictions := s.evictions + 1 }

/-- The loop, for at most so many rounds. -/
def evictRounds : Nat → StoreProg Unit
  | 0 => pure ()
  | rounds + 1 => do
      let exceeds ← peek fun s => s.overLimits policy
      if exceeds then do
        popOldest
        evictRounds rounds
      else pure ()

/-- `_evict_to_limits`. Every round takes an entry out, so there is none after these. -/
def evictToLimits : StoreProg Unit := do
  let count ← peek fun s => s.entries.items.length
  evictRounds policy (count + 1)

/-! ## Methods -/

/-- `get_entry`. -/
def getEntry (tier keyDigest : String) (reading : Option ℚ) : StoreProg (Option StoreEntry) := do
  require (checkTier tier)
  require (checkSha256 keyDigest "key_digest")
  ensureOpen
  let entry ← peek fun s => s.entries.get? (tier, keyDigest)
  match entry with
  | none => pure none
  | some entry => do
      let now ← now reading
      if entry.expiresAt ≤ now then do
        assign fun s => s.remove (tier, keyDigest)
        pure none
      else do
        assign fun s => s.touch (tier, keyDigest)
        pure (some entry)

/-- What `put_if_absent` returns. -/
inductive StoreOutcome where
  | stored | present | rejected
  deriving DecidableEq, Repr

/-- `put_if_absent`. -/
def putIfAbsent (hash : Hexdigest) (tier keyDigest deploymentFingerprint : String)
    (payload : List UInt8) (reading : Option ℚ) : StoreProg StoreOutcome := do
  require (checkTier tier)
  require (checkSha256 keyDigest "key_digest")
  require (checkSha256 deploymentFingerprint "deployment_fingerprint")
  require (checkPayload payload)
  if policy.maxEntryBytes < payload.length then pure .rejected
  else do
    ensureOpen
    let now ← now reading
    let existing ← peek fun s => s.entries.get? (tier, keyDigest)
    if existing.any fun entry => now < entry.expiresAt then do
      assign fun s => s.touch (tier, keyDigest)
      pure .present
    else do
      assign fun s => s.remove (tier, keyDigest)
      match newEntry tier keyDigest deploymentFingerprint payload (hash.sha256 payload)
          (Doubles.ofRat (now + policy.ttl)) with
      | .error e => raise e
      | .ok entry => do
          assign fun s => { s with
            entries := s.entries.push (tier, keyDigest) entry
            bytesUsed := s.bytesUsed + payload.length }
          evictToLimits policy
          -- the eviction may have reached the new entry itself
          let kept ← peek fun s => (s.entries.get? (tier, keyDigest)).isSome
          pure (if kept then .stored else .rejected)

/-- `delete`. -/
def delete (tier keyDigest : String) : StoreProg Unit := do
  require (checkTier tier)
  require (checkSha256 keyDigest "key_digest")
  ensureOpen
  assign fun s => s.remove (tier, keyDigest)

/-- `for identity in identities: self._remove(identity)`. -/
def MemoryStore.removeAll (s : MemoryStore) (identities : List Identity) : MemoryStore :=
  identities.foldl MemoryStore.remove s

/-- The identities of the entries that satisfy `p`, in their order. -/
def MemoryStore.identities (s : MemoryStore) (p : StoreEntry → Bool) : List Identity :=
  (s.entries.items.filter fun item => p item.2).map Prod.fst

/-- `invalidate_deployment`. -/
def invalidateDeployment (deploymentFingerprint : String) : StoreProg Nat := do
  require (checkSha256 deploymentFingerprint "deployment_fingerprint")
  ensureOpen
  let identities ← peek fun s =>
    s.identities fun entry => entry.deploymentFingerprint == deploymentFingerprint
  assign fun s => s.removeAll identities
  pure identities.length

/-- `invalidate_all`. -/
def invalidateAll : StoreProg Nat := do
  ensureOpen
  let count ← peek fun s => s.entries.items.length
  assign fun s => { s with entries := OrderedMap.empty, bytesUsed := 0 }
  pure count

/-- `ControlFoleyCacheSnapshot`. -/
structure StoreSnapshot where
  entries : Nat
  bytesUsed : ℤ
  evictions : Nat
  deriving DecidableEq, Repr

/-- `snapshot`. Counts of entries and evictions are never negative. -/
def snapshot (reading : Option ℚ) : StoreProg StoreSnapshot := do
  ensureOpen
  let now ← now reading
  assign fun s => s.removeAll (s.identities fun entry => entry.expiresAt ≤ now)
  let taken ← peek fun s => (⟨s.entries.items.length, s.bytesUsed, s.evictions⟩ : StoreSnapshot)
  raiseWhen (taken.bytesUsed < 0) (.value "bytes_used must be a nonnegative integer")
  pure taken

/-- `close`. -/
def close : StoreProg Unit :=
  assign fun s => { s with entries := OrderedMap.empty, bytesUsed := 0, closed := true }

/-! ## Calls -/

/-- A call on a store, with what the clock would show. -/
inductive StoreCall where
  | getEntry (tier keyDigest : String) (reading : Option ℚ)
  | putIfAbsent (tier keyDigest deploymentFingerprint : String) (payload : List UInt8)
      (reading : Option ℚ)
  | delete (tier keyDigest : String)
  | invalidateDeployment (deploymentFingerprint : String)
  | invalidateAll
  | snapshot (reading : Option ℚ)
  | close

/-- What a call returns. -/
inductive StoreAnswer where
  | entry (entry : Option StoreEntry)
  | outcome (outcome : StoreOutcome)
  | nothing
  | count (n : Nat)
  | snapshot (snapshot : StoreSnapshot)
  deriving DecidableEq, Repr

def StoreCall.run (hash : Hexdigest) : StoreCall → StoreProg StoreAnswer
  | .getEntry tier keyDigest reading => .entry <$> MemoryCache.getEntry tier keyDigest reading
  | .putIfAbsent tier keyDigest deploymentFingerprint payload reading =>
      .outcome <$> MemoryCache.putIfAbsent policy hash tier keyDigest deploymentFingerprint payload
        reading
  | .delete tier keyDigest => (fun _ => .nothing) <$> MemoryCache.delete tier keyDigest
  | .invalidateDeployment deploymentFingerprint =>
      .count <$> MemoryCache.invalidateDeployment deploymentFingerprint
  | .invalidateAll => .count <$> MemoryCache.invalidateAll
  | .snapshot reading => .snapshot <$> MemoryCache.snapshot reading
  | .close => (fun _ => .nothing) <$> MemoryCache.close

end MemoryCache

end NanoAural
