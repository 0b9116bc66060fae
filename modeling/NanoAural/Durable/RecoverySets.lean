import Mathlib.Data.String.Basic
import Mathlib.Algebra.GroupWithZero.Nat
import NanoAural.Base.Faulty
import NanoAural.Base.Order
import NanoAural.Durable.Domain

/-!
# Recovery sets

A recovery set is a directory with a database dump, a manifest and a canonical
object root. What `_read_manifest`, `_canonical_keys` and `_validate_recovery_set`
accept of one. Files and directories are private regular ones throughout; modes,
owners and links are left out.
-/

namespace NanoAural

open Relational

namespace Recovery

/-- What the recovery programs raise: a `RecoverySetError` with its code, or an `OSError`. -/
inductive RecoveryRaise where
  | recoverySet (code : String)
  | os
  deriving DecidableEq, Repr

/-- `RecoveryLimits`. -/
structure RecoveryLimits where
  maxObjects : Nat
  maxSingleBlobBytes : Nat
  maxTotalBlobBytes : Nat
  maxDatabaseDumpBytes : Nat
  maxTemporaryBytes : Nat

/-- `_DEFAULT_LIMITS`. -/
def defaultLimits : RecoveryLimits where
  maxObjects := 100000
  maxSingleBlobBytes := 2 ^ 36
  maxTotalBlobBytes := 2 ^ 40
  maxDatabaseDumpBytes := 2 ^ 40
  maxTemporaryBytes := 2 ^ 41

/-- `RecoveryObject`. -/
structure RecoveryObject where
  storageKey : String
  sha256 : String
  sizeBytes : Nat
  deriving DecidableEq, Repr

/-- What `manifest.json` says, less the constants every manifest has. -/
structure RecoveryManifest where
  dumpSha256 : String
  dumpSizeBytes : Nat
  sourceDatabaseIdentity : String
  objects : List RecoveryObject
  totalBytes : Nat
  deriving DecidableEq, Repr

/-- A canonical object root: the directories below it and its files, by path. -/
structure ObjectTree where
  dirs : List String
  files : List (String × List UInt8)
  deriving DecidableEq, Repr

/-- A recovery set, finished or not. -/
structure RecoveryTree where
  dump : Option (List UInt8)
  manifest : Option RecoveryManifest
  canonical : Option ObjectTree
  /-- How many unfinished manifests lie beside the manifest. -/
  temporaries : Nat
  deriving DecidableEq, Repr

/-- What an invocation is given: the hash, how a manifest is written out, the limits, the identity
of the database, and whether it carries the sealed migration ledger. -/
structure RecoveryEnv where
  sha256 : List UInt8 → String
  sha256_format : ∀ data, isSha256 (sha256 data) = true
  manifestBytes : RecoveryManifest → List UInt8
  limits : RecoveryLimits
  databaseIdentity : String
  identity_format : isSha256 databaseIdentity = true
  databaseSealed : Bool

/-- `if not c: raise RecoverySetError(code)`. -/
def demand (c : Bool) (code : String) : Except RecoveryRaise Unit :=
  if c then .ok () else .error (.recoverySet code)

/-! ## Canonical object roots -/

/-- The last component of a path. -/
def baseName (path : String) : String :=
  String.ofList (path.toList.reverse.takeWhile (· != '/')).reverse

/-- The directories above the canonical key of a digest, the topmost first. -/
def canonicalDirectories (sha256 : String) : List String :=
  let first := String.ofList (sha256.toList.take 2)
  let second := String.ofList ((sha256.toList.drop 2).take 2)
  ["blobs", "blobs/sha256", "blobs/sha256/" ++ first, "blobs/sha256/" ++ first ++ "/" ++ second]

/-- The path is the canonical key of the digest it ends in. -/
def isCanonicalPath (path : String) : Bool :=
  isSha256 (baseName path) && path == canonicalKey (baseName path)

/-- The directories above the files. -/
def ObjectTree.expectedDirectories (t : ObjectTree) : List String :=
  t.files.flatMap fun f => canonicalDirectories (baseName f.1)

/-- `_canonical_keys`. Where both errors are due, the walk decides which; here it is the first. -/
def canonicalKeys (limits : RecoveryLimits) (t : ObjectTree) : Except RecoveryRaise (List String) := do
  demand (t.files.all fun f => isCanonicalPath f.1) "RECOVERY_CANONICAL_NAMESPACE_INVALID"
  demand (t.files.length ≤ limits.maxObjects) "RECOVERY_BOUND_EXCEEDED"
  demand (t.dirs.all (t.expectedDirectories.contains ·)
    && t.expectedDirectories.all (t.dirs.contains ·)) "RECOVERY_CANONICAL_NAMESPACE_INVALID"
  .ok (orderBy id (t.files.map Prod.fst))

/-- `open_reader`. -/
def ObjectTree.read (t : ObjectTree) (key : String) : Option (List UInt8) := t.files.lookup key

/-- Every object is there with its digest and size. -/
def intact (sha256 : List UInt8 → String) (t : ObjectTree) (objects : List RecoveryObject) : Bool :=
  objects.all fun item =>
    match t.read item.storageKey with
    | none => false
    | some content => sha256 content == item.sha256 && content.length == item.sizeBytes

/-! ## Manifests -/

/-- The loop of `_read_manifest` over the objects, with the keys seen and the bytes counted. -/
def readObjects (limits : RecoveryLimits) :
    List RecoveryObject → List String → Nat → Except RecoveryRaise Nat
  | [], _, total => .ok total
  | item :: rest, seen, total => do
      demand (isSha256 item.sha256 && item.storageKey == canonicalKey item.sha256
        && !seen.contains item.storageKey) "RECOVERY_MANIFEST_INVALID"
      demand (item.sizeBytes ≤ limits.maxSingleBlobBytes
        && total + item.sizeBytes ≤ limits.maxTotalBlobBytes) "RECOVERY_BOUND_EXCEEDED"
      readObjects limits rest (item.storageKey :: seen) (total + item.sizeBytes)

/-- `_MAX_MANIFEST_BYTES`. -/
def maxManifestBytes : Nat := 16 * 1024 * 1024

/-- `_read_manifest`. -/
def readManifest (env : RecoveryEnv) (m : RecoveryManifest) : Except RecoveryRaise Unit := do
  demand ((env.manifestBytes m).length ≤ maxManifestBytes) "RECOVERY_MANIFEST_INVALID"
  demand (isSha256 m.dumpSha256 && 1 ≤ m.dumpSizeBytes
    && m.dumpSizeBytes ≤ env.limits.maxDatabaseDumpBytes
    && isSha256 m.sourceDatabaseIdentity) "RECOVERY_MANIFEST_INVALID"
  demand (m.objects.length ≤ env.limits.maxObjects) "RECOVERY_BOUND_EXCEEDED"
  let total ← readObjects env.limits m.objects [] 0
  demand (m.totalBytes == total && m.objects.map RecoveryObject.storageKey
    == orderBy id (m.objects.map RecoveryObject.storageKey)) "RECOVERY_MANIFEST_INVALID"

/-! ## Whole sets -/

/-- `ValidatedRecoverySet`. -/
structure ValidatedRecoverySet where
  manifestSha256 : String
  dumpSha256 : String
  dumpSizeBytes : Nat
  sourceDatabaseIdentity : String
  objects : List RecoveryObject
  deriving DecidableEq, Repr

/-- `_validate_canonical_root` of a root that is there. -/
def validateObjects (env : RecoveryEnv) (t : ObjectTree) (objects : List RecoveryObject) :
    Except RecoveryRaise Unit := do
  let keys ← canonicalKeys env.limits t
  demand (keys == objects.map RecoveryObject.storageKey) "RECOVERY_CANONICAL_INTEGRITY_FAILED"
  demand (intact env.sha256 t objects) "RECOVERY_CANONICAL_INTEGRITY_FAILED"

/-- `_validate_recovery_set`. -/
def validateRecoverySet (env : RecoveryEnv) (t : RecoveryTree) :
    Except RecoveryRaise ValidatedRecoverySet :=
  match t.dump, t.manifest, t.canonical, t.temporaries with
  | some dump, some m, some canonical, 0 => do
      readManifest env m
      demand (dump.length ≤ env.limits.maxDatabaseDumpBytes) "RECOVERY_BOUND_EXCEEDED"
      demand (env.sha256 dump == m.dumpSha256 && dump.length == m.dumpSizeBytes)
        "RECOVERY_DATABASE_INTEGRITY_FAILED"
      let keys ← canonicalKeys env.limits canonical
      demand (keys == m.objects.map RecoveryObject.storageKey)
        "RECOVERY_CANONICAL_INVENTORY_MISMATCH"
      demand (intact env.sha256 canonical m.objects) "RECOVERY_CANONICAL_INTEGRITY_FAILED"
      .ok ⟨env.sha256 (env.manifestBytes m), m.dumpSha256, m.dumpSizeBytes,
        m.sourceDatabaseIdentity, m.objects⟩
  | _, _, _, _ => .error (.recoverySet "RECOVERY_SET_INVALID")

end Recovery

end NanoAural
