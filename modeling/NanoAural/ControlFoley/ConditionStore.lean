import Mathlib.Data.List.AList
import Mathlib.Data.Prod.Lex
import Mathlib.Data.String.Basic
import Mathlib.Algebra.GroupWithZero.Nat
import NanoAural.Base.Faulty
import NanoAural.Base.FileNames
import NanoAural.Base.Order
import NanoAural.Durable.Domain

/-!
# The condition cache's disk store

`ControlFoleyLocalConditionCacheStore` and `_PersistentFuseAuthority`: payload
and metadata files named by key digest in one root directory, and the fuse files
that outlive a process. A program here is a sequence of system calls, any of
which may raise or be the last one before a kill. Temporary files are left out:
nothing reads one.
-/

namespace NanoAural

open Faulty Faulty.Prog Relational

namespace ConditionCache

/-! ## Files -/

/-- The files of one kind in a directory, by name. -/
abbrev Directory (φ : Type) := AList fun _ : String => φ

/-- A payload file. `origin` is a mark the code does not have: when the transaction that staged
the payload began. -/
structure DataFile where
  payload : List UInt8
  origin : Nat
  mtime : Nat
  deriving DecidableEq, Repr

/-- The record a metadata file holds. Instants are nanoseconds of the wall clock. -/
structure Metadata where
  schemaVersion : Nat
  keyDigest : String
  deploymentFingerprint : String
  payloadSha256 : String
  sizeBytes : Nat
  createdAt : Nat
  expiresAt : Nat
  codecVersion : String
  conditionSchemaVersion : String
  deriving DecidableEq, Repr

/-- A metadata file; without a record it does not parse. -/
structure MetaFile where
  content : Option Metadata
  mtime : Nat
  deriving DecidableEq, Repr

/-- The root directory, and the clocks: what they will show, and how often they were read. -/
structure CacheDisk where
  wall : Nat → Nat
  monotonic : Nat → Nat
  readings : Nat
  data : Directory DataFile
  metas : Directory MetaFile
  globalFuse : Bool
  deploymentFuses : List String

/-- What a store object remembers. -/
structure StoreMemory where
  access : String → Option Nat
  storeClosed : Bool
  /-- The store's own fuse authority is closed. -/
  storeFusesClosed : Bool

/-- `ControlFoleyConditionCachePolicy`. -/
structure CachePolicy where
  codecVersion : String
  schemaVersion : String
  maxEntries : Nat
  maxEntryBytes : Nat
  maxTotalBytes : Nat
  ttl : Nat
  cleanupGrace : Nat

/-- What the programs are given. `κ` is the type of parent keys. -/
structure CacheEnv (κ : Type) where
  policy : CachePolicy
  sha256 : List UInt8 → String
  /-- `validate_safe_tensor_bundle` accepts the bytes. -/
  validBundle : List UInt8 → Bool
  deployment : κ → String
  /-- The digest of a parent and a role. -/
  keyDigest : κ → String → String

/-- What the programs raise, as far as a handler tells it apart. -/
inductive CacheRaise where
  | os
  | value
  | drift
  | other
  /-- What `except Exception` lets through. -/
  | interrupt
  deriving DecidableEq, Repr

/-- `ControlFoleyConditionCacheEntry`, with the mark of its payload file. -/
structure CacheEntry where
  payload : List UInt8
  origin : Nat
  payloadSha256 : String
  createdAt : Nat
  expiresAt : Nat
  deriving DecidableEq, Repr

/-- What `put_if_absent` returns. -/
inductive PutOutcome where
  | stored | present | conflict | rejected | fault
  deriving DecidableEq, Repr

def CacheEntry.compare {κ : Type} (env : CacheEnv κ) (payload : List UInt8) (entry : CacheEntry) :
    PutOutcome :=
  if entry.payloadSha256 == env.sha256 payload then .present else .conflict

/-! ## The transaction at hand -/

/-- `ControlFoleyConditionCacheTransaction`, less what only its report reads. -/
structure Transaction (κ : Type) where
  /-- When it began: a mark the code does not have. -/
  begun : Nat
  parent : Option κ
  roles : List String
  generation : Nat
  /-- The cached payloads, each with its file's mark. -/
  payloads : List (String × List UInt8 × Nat)
  pending : List (String × List UInt8)
  newlyStored : List String
  complete : Bool
  storeDisabled : Bool

/-- What the facade remembers. -/
structure FacadeMemory where
  generation : Nat
  globallyDisabled : Bool
  disabledDeployments : List String
  /-- The facade's own fuse authority is closed. -/
  fusesClosed : Bool

/-- The state of a program: the disk, one instance's memory and the transaction it works on. -/
structure CacheState (κ : Type) extends CacheDisk, StoreMemory, FacadeMemory where
  txn : Transaction κ

abbrev CacheProg (κ α : Type) := Prog (CacheState κ) CacheRaise α

variable {κ : Type}

/-- `except (OSError, ValueError): handler`. -/
def catchIo {α : Type} (p handler : CacheProg κ α) : CacheProg κ α :=
  p.tryCatch fun e =>
    match e with
    | .os | .value => handler
    | .drift | .other | .interrupt => raise e

/-- `except Exception: handler`. -/
def catchAny {α : Type} (p : CacheProg κ α) (handler : CacheRaise → CacheProg κ α) :
    CacheProg κ α :=
  p.tryCatch fun e =>
    match e with
    | .interrupt => raise e
    | .os | .value | .drift | .other => handler e

/-- `os.fsync` or `os.close`. -/
def sync : CacheProg κ Unit := act id

/-- `_now`. -/
def now : CacheProg κ Nat :=
  call fun s => (.ok (s.wall s.readings), { s with readings := s.readings + 1 })

/-- `time.monotonic_ns`. -/
def monotonicNs : CacheProg κ Nat :=
  call fun s => (.ok (s.monotonic s.readings), { s with readings := s.readings + 1 })

/-! ## Fuses -/

/-- `_sha256` of the condition cache: what the other modules take for a digest, less one character
64 times. -/
def isFingerprint (value : String) : Bool := acceptsSha256 value && value.toList.dedup.length != 1

/-- `_sha256(deployment_fingerprint, ...)`. -/
def requireFingerprint (deployment : String) : CacheProg κ Unit :=
  raiseWhen (!isFingerprint deployment) .value

/-- The file system takes the name `_deployment_name` gives to the fuse. A fingerprint may have digits
of several bytes. -/
def hasFuseName (deployment : String) : Bool :=
  FileNames.takes (some 255) (".nano-aural-l2-deployment-fuse-v1-" ++ deployment)

/-- One of the two fuse authorities on the root, by the memory that says it is closed. -/
abbrev Authority (κ : Type) := CacheState κ → Bool

def Authority.store : Authority κ := fun s => s.storeFusesClosed

def Authority.facade : Authority κ := fun s => s.fusesClosed

namespace Authority

variable (fuses : Authority κ)

/-- `_ensure_open`. -/
def ensureOpen : CacheProg κ Unit := do
  let closed ← peek fuses
  raiseWhen closed .other

def globalFused : CacheProg κ Bool := do
  fuses.ensureOpen
  look fun s => s.globalFuse

def deploymentFused (deployment : String) : CacheProg κ Bool := do
  requireFingerprint deployment
  fuses.ensureOpen
  call fun s =>
    if hasFuseName deployment then (.ok (s.deploymentFuses.contains deployment), s)
    else (.error .os, s)

def isFused (deployment : String) : CacheProg κ Bool := do
  requireFingerprint deployment
  let fused ← fuses.globalFused
  if fused then pure true else fuses.deploymentFused deployment

/-- `_write_once`: `add` creates the file where `present` does not find it, if the file system takes
its name. -/
def writeOnce (named : Bool) (present : CacheState κ → Bool)
    (add : CacheState κ → CacheState κ) : CacheProg κ Unit := do
  fuses.ensureOpen
  let existed ← call fun s =>
    if !named then (.error .os, s) else if present s then (.ok true, s) else (.ok false, add s)
  if existed then pure () else sync

def fuseDeployment (deployment : String) : CacheProg κ Unit := do
  requireFingerprint deployment
  fuses.writeOnce (hasFuseName deployment) (fun s => s.deploymentFuses.contains deployment) fun s =>
    { s with deploymentFuses := s.deploymentFuses ++ [deployment] }

def fuseAll : CacheProg κ Unit :=
  fuses.writeOnce true (fun s => s.globalFuse) fun s => { s with globalFuse := true }

def clearDeployment (deployment : String) : CacheProg κ Unit := do
  requireFingerprint deployment
  fuses.ensureOpen
  call fun s =>
    if hasFuseName deployment then
      (.ok (), { s with deploymentFuses := s.deploymentFuses.filter (· != deployment) })
    else (.error .os, s)
  sync

/-- The body of `clear_all`: the names are listed first and then removed one by one. -/
def unlinkAll : CacheProg κ Unit := do
  let deployments ← look fun s => s.deploymentFuses
  act fun s => { s with globalFuse := false }
  forEach deployments fun deployment =>
    act fun s => { s with deploymentFuses := s.deploymentFuses.filter (· != deployment) }
  sync

/-- `clear_all`. -/
def clearAll : CacheProg κ Unit := do
  fuses.ensureOpen
  unlinkAll

/-- `close`. `mark` sets the authority's own flag. -/
def close (mark : CacheState κ → CacheState κ) : CacheProg κ Unit := do
  let closed ← peek fuses
  if closed then pure ()
  else do
    sync
    assign mark

end Authority

/-! ## Files of one digest -/

namespace Store

/-- `_ensure_open`. -/
def ensureOpen : CacheProg κ Unit := do
  let closed ← peek fun s => s.storeClosed
  raiseWhen closed .other

/-- `_delete_digest`. -/
def deleteDigest (digest : String) : CacheProg κ Unit := do
  act fun s => { s with data := s.data.erase digest }
  act fun s => { s with metas := s.metas.erase digest }
  assign fun s => { s with access := Function.update s.access digest none }

variable (env : CacheEnv κ)

/-- `_older_than_grace` of a file with that modification time. -/
def olderThanGrace (mtime : CacheState κ → Option Nat) (now : Nat) : CacheProg κ Bool :=
  look fun s => (mtime s).any fun t => t + env.policy.cleanupGrace ≤ now

def dataMtime (digest : String) (s : CacheState κ) : Option Nat :=
  (s.data.lookup digest).map DataFile.mtime

def metaMtime (digest : String) (s : CacheState κ) : Option Nat :=
  (s.metas.lookup digest).map MetaFile.mtime

/-- `_read_metadata`. -/
def readMetadata (digest : String) : CacheProg κ Metadata :=
  call fun s =>
    match s.metas.lookup digest with
    | none => (.error .os, s)
    | some file =>
        match file.content with
        | none => (.error .value, s)
        | some metadata => (.ok metadata, s)

/-- `_read_file` of a payload. -/
def readData (digest : String) : CacheProg κ DataFile :=
  call fun s =>
    match s.data.lookup digest with
    | none => (.error .os, s)
    | some file =>
        if file.payload.isEmpty || env.policy.maxEntryBytes < file.payload.length then
          (.error .value, s)
        else (.ok file, s)

/-- `_publish` of a payload: whether the name was free. -/
def publishData (digest : String) (payload : List UInt8) : CacheProg κ Bool := do
  let linked ← call fun s =>
    match s.data.lookup digest with
    | some _ => (.ok false, s)
    | none => (.ok true, { s with
        data := s.data.insert digest ⟨payload, s.txn.begun, s.wall s.readings⟩ })
  if linked then do
    sync
    pure true
  else pure false

/-- `_publish` of a metadata record. -/
def publishMeta (digest : String) (metadata : Metadata) : CacheProg κ Bool := do
  let linked ← call fun s =>
    match s.metas.lookup digest with
    | some _ => (.ok false, s)
    | none => (.ok true, { s with
        metas := s.metas.insert digest ⟨some metadata, s.wall s.readings⟩ })
  if linked then do
    sync
    pure true
  else pure false

/-! ## Reading -/

/-- The metadata is about this key. -/
def binds (parent : κ) (role : String) (metadata : Metadata) : Bool :=
  metadata.schemaVersion == 1 && metadata.keyDigest == env.keyDigest parent role
    && metadata.deploymentFingerprint == env.deployment parent
    && metadata.codecVersion == env.policy.codecVersion
    && metadata.conditionSchemaVersion == env.policy.schemaVersion

/-- `_read_entry`. -/
def readEntry (parent : κ) (role : String) : CacheProg κ (Option CacheEntry) := do
  let digest := env.keyDigest parent role
  let dataExists ← look fun s => (s.data.lookup digest).isSome
  let metaExists ← look fun s => (s.metas.lookup digest).isSome
  if !(dataExists || metaExists) then pure none
  -- half an entry is one being written, or an orphan once the grace is over
  else if !(dataExists && metaExists) then do
    let now ← now
    let old ← olderThanGrace env (if dataExists then dataMtime digest else metaMtime digest) now
    if old then do
      deleteDigest digest
      pure none
    else pure none
  else do
    let metadata ← readMetadata digest
    raiseWhen (!binds env parent role metadata) .value
    raiseWhen (env.policy.maxEntryBytes < metadata.sizeBytes) .value
    let file ← readData env digest
    raiseWhen (file.payload.length != metadata.sizeBytes
      || env.sha256 file.payload != metadata.payloadSha256) .value
    raiseWhen (!env.validBundle file.payload) .value
    raiseWhen (metadata.createdAt + env.policy.ttl < metadata.expiresAt) .value
    raiseWhen (metadata.expiresAt ≤ metadata.createdAt) .value
    pure (some ⟨file.payload, file.origin, metadata.payloadSha256, metadata.createdAt,
      metadata.expiresAt⟩)

/-- `get_entry` of the store. -/
def getEntry (parent : κ) (role : String) : CacheProg κ (Option CacheEntry) := do
  ensureOpen
  let fused ← Authority.store.isFused (env.deployment parent)
  if fused then pure none
  else do
    let entry ← catchIo (readEntry env parent role) do
      deleteDigest (env.keyDigest parent role)
      pure none
    match entry with
    | none => pure none
    | some entry => do
        let now ← now
        -- an entry of the future is as dead as one that has expired
        if now < entry.createdAt || entry.expiresAt ≤ now then do
          deleteDigest (env.keyDigest parent role)
          pure none
        else do
          let read ← monotonicNs
          assign fun s => { s with
            access := Function.update s.access (env.keyDigest parent role) (some read) }
          pure (some entry)

/-! ## The whole directory -/

/-- `_metadata_records` over the names listed. -/
def metadataRecords : List String → CacheProg κ (List (String × Metadata))
  | [] => pure []
  | digest :: rest => do
      let record ← catchIo (some <$> readMetadata digest) do
        deleteDigest digest
        pure none
      let records ← metadataRecords rest
      pure (match record with
        | none => records
        | some metadata => (digest, metadata) :: records)

/-- `_metadata_records`. -/
def allMetadata : CacheProg κ (List (String × Metadata)) := do
  let names ← look fun s => s.metas.keys
  metadataRecords names

/-- Evict from the head until the rest is within the limits. -/
def evict : List (Nat × String × Nat) → Nat → CacheProg κ Unit
  | [], _ => pure ()
  | (_, digest, size) :: rest, total =>
      if env.policy.maxEntries < rest.length + 1 || env.policy.maxTotalBytes < total then do
        deleteDigest digest
        evict rest (total - size)
      else pure ()

/-- `_enforce_limits`: the least recently read first. -/
def enforceLimits : CacheProg κ Unit := do
  let records ← allMetadata
  let access ← peek fun s => s.access
  let sized := records.map fun r => ((access r.1).getD r.2.createdAt, r.1, r.2.sizeBytes)
  evict env (orderBy (fun r => toLex (r.1, toLex (r.2.1, r.2.2))) sized)
    (sized.map fun r => r.2.2).sum

/-- One entry of `cleanup`: fused, oversized, expired or unreadable ones go. -/
def cleanupEntry (now : Nat) (globallyFused : Bool) (digest : String) : CacheProg κ Unit :=
  catchIo (do
    let metadata ← readMetadata digest
    let fused ← (if globallyFused then pure true
      else Authority.store.deploymentFused metadata.deploymentFingerprint)
    if fused || env.policy.maxEntryBytes < metadata.sizeBytes
        || now < metadata.createdAt || metadata.expiresAt ≤ metadata.createdAt
        || metadata.createdAt + env.policy.ttl < metadata.expiresAt
        || metadata.expiresAt ≤ now then
      deleteDigest digest
    else pure ()) (deleteDigest digest)

/-- `cleanup`. -/
def cleanup : CacheProg κ Unit := do
  ensureOpen
  let now ← now
  let globallyFused ← Authority.store.globalFused
  let names ← look fun s => (s.data.keys, s.metas.keys)
  forEach (names.1.filter fun digest => !names.2.contains digest) fun digest => do
    let old ← olderThanGrace env (dataMtime digest) now
    if old then deleteDigest digest else pure ()
  forEach (names.2.filter fun digest => !names.1.contains digest) fun digest => do
    let old ← olderThanGrace env (metaMtime digest) now
    if old then deleteDigest digest else pure ()
  forEach (names.1.filter fun digest => names.2.contains digest)
    (cleanupEntry env now globallyFused)
  enforceLimits env
  sync

/-- `snapshot`: the readable entries, less those under a fuse, and their bytes. -/
def countEntries : List (String × Metadata) → CacheProg κ (Nat × Nat)
  | [] => pure (0, 0)
  | (digest, metadata) :: rest => do
      let present ← Prog.tryCatch (do
        let fused ← Authority.store.isFused metadata.deploymentFingerprint
        if fused then pure false else look fun s => (s.data.lookup digest).isSome) fun e =>
          match e with
          | .value => pure false
          | .os | .drift | .other | .interrupt => raise e
      let (entries, bytes) ← countEntries rest
      pure (if present then (entries + 1, bytes + metadata.sizeBytes) else (entries, bytes))

def snapshot : CacheProg κ (Nat × Nat) := do
  ensureOpen
  cleanup env
  let records ← allMetadata
  countEntries records

/-! ## Writing -/

/-- The record `put_if_absent` writes. -/
def newMetadata (parent : κ) (role : String) (payload : List UInt8) (now : Nat) : Metadata :=
  ⟨1, env.keyDigest parent role, env.deployment parent, env.sha256 payload, payload.length, now,
    now + env.policy.ttl, env.policy.codecVersion, env.policy.schemaVersion⟩

/-- `put_if_absent`. Where the payload's name is taken it waits half a second for the metadata of
somebody else; here that is one more look. -/
def putIfAbsent (parent : κ) (role : String) (payload : List UInt8) : CacheProg κ PutOutcome := do
  raiseWhen payload.isEmpty .value
  if env.policy.maxEntryBytes < payload.length then pure .rejected
  else do
    raiseWhen (!env.validBundle payload) .value
    ensureOpen
    let fused ← Authority.store.isFused (env.deployment parent)
    if fused then pure .fault
    else do
      let existing ← getEntry env parent role
      match existing with
      | some entry => pure (entry.compare env payload)
      | none => do
          let digest := env.keyDigest parent role
          let now ← now
          let dataStored ← publishData digest payload
          if !dataStored then do
            let concurrent ← readEntry env parent role
            match concurrent with
            | some entry => pure (entry.compare env payload)
            | none => pure .fault
          else do
            let metaStored ← catchAny
              (publishMeta digest (newMetadata env parent role payload now)) fun e => do
                -- a payload without its metadata is taken back
                act fun s => { s with data := s.data.erase digest }
                raise e
            if !metaStored then do
              act fun s => { s with data := s.data.erase digest }
              pure .fault
            else do
              let read ← monotonicNs
              assign fun s => { s with access := Function.update s.access digest (some read) }
              enforceLimits env
              sync
              -- the limits may have removed the new entry itself
              let kept ← look fun s => (s.data.lookup digest).isSome && (s.metas.lookup digest).isSome
              pure (if kept then .stored else .rejected)

/-- `delete`. -/
def delete (parent : κ) (role : String) : CacheProg κ Unit := do
  ensureOpen
  deleteDigest (env.keyDigest parent role)
  sync

/-! ## Invalidation -/

/-- `invalidate_deployment` of the store: how many entries it deleted. -/
def invalidateDeployment (deployment : String) : CacheProg κ Nat := do
  requireFingerprint deployment
  ensureOpen
  let records ← allMetadata
  let doomed := records.filter fun r => r.2.deploymentFingerprint == deployment
  forEach doomed fun r => deleteDigest r.1
  sync
  Authority.store.clearDeployment deployment
  pure doomed.length

/-- `invalidate_all` of the store. -/
def invalidateAll : CacheProg κ Nat := do
  ensureOpen
  let records ← allMetadata
  forEach records fun r => deleteDigest r.1
  sync
  Authority.store.clearAll
  pure records.length

/-- `close` of the store. -/
def close : CacheProg κ Unit := do
  let closed ← peek fun s => s.storeClosed
  if closed then pure ()
  else do
    cleanup env
    Authority.store.close fun s => { s with storeFusesClosed := true }
    sync
    assign fun s => { s with storeClosed := true }

end Store

end ConditionCache

end NanoAural
