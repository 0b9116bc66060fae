import NanoAural.Base.JsonText
import NanoAural.Durable.RecoveryOperations

/-!
# The manifest file

`manifest.json` byte for byte: how `_atomic_json` writes what a backup gathered,
and how `_read_bounded_json` and `_read_manifest` take it apart again. The size
limit of the file and the limit on the number of objects know nothing of each
other.
-/

namespace NanoAural

open JsonText

namespace Recovery

/-! ## Writing -/

/-- `_SCHEMA`. -/
def recoverySchema : String := "nano-aural-recovery-set/v1"

def RecoveryObject.json (item : RecoveryObject) : JsonValue :=
  .object [("storage_key", .string item.storageKey), ("sha256", .string item.sha256),
    ("size_bytes", .int item.sizeBytes)]

/-- What `create_recovery_set` hands to `_atomic_json`. -/
def RecoveryManifest.json (m : RecoveryManifest) : JsonValue :=
  .object [("schema", .string recoverySchema),
    ("database", .object [("format", .string "postgres-custom"), ("sha256", .string m.dumpSha256),
      ("size_bytes", .int m.dumpSizeBytes),
      ("source_database_identity", .string m.sourceDatabaseIdentity)]),
    ("canonical", .object [("objects", .array (m.objects.map RecoveryObject.json)),
      ("total_bytes", .int m.totalBytes)])]

/-- The bytes `_atomic_json` writes. -/
def atomicJson (value : JsonValue) : List UInt8 :=
  utf8 (write asciiEscape value.sortKeys ++ ['\n'])

def encodeManifest (m : RecoveryManifest) : List UInt8 := atomicJson m.json

/-! ## Reading -/

def manifestInvalid : RecoveryRaise := .recoverySet "RECOVERY_MANIFEST_INVALID"

/-- `_read_bounded_json` of what a file holds. -/
def readBoundedJson (data : List UInt8) (maxBytes : Nat) : Except RecoveryRaise JsonValue := do
  demand (data.length ≤ maxBytes) "RECOVERY_MANIFEST_INVALID"
  match (readUtf8 data).bind read with
  | none => .error manifestInvalid
  | some value => do
      demand value.distinctKeys "RECOVERY_MANIFEST_INVALID"
      .ok value

/-- A `dict` with exactly these keys. -/
def asDict (keys : List String) : JsonValue → Except RecoveryRaise (String → JsonValue)
  | .object members => do
      demand (members.all (fun m => keys.contains m.1)
        && keys.all ((members.map Prod.fst).contains ·)) "RECOVERY_MANIFEST_INVALID"
      .ok fun key => (members.lookup key).getD .null
  | _ => .error manifestInvalid

def asList : JsonValue → Except RecoveryRaise (List JsonValue)
  | .array items => .ok items
  | _ => .error manifestInvalid

def asStr : JsonValue → Except RecoveryRaise String
  | .string s => .ok s
  | _ => .error manifestInvalid

/-- An `int` that is no `bool`, and no less than `least`. -/
def asInt (least : Nat) : JsonValue → Except RecoveryRaise Nat
  | .int n => do
      demand ((least : Int) ≤ n) "RECOVERY_MANIFEST_INVALID"
      .ok n.toNat
  | _ => .error manifestInvalid

/-- `not isinstance(value, bool) and value == total`. A number with a fraction or an exponent is
compared as a float. -/
def equalsTotal (floatEquals : String → Nat → Bool) (total : Nat) : JsonValue → Bool
  | .int n => n == total
  | .real text => floatEquals text total
  | _ => false

/-- One object of the list, with the keys seen and the bytes counted. -/
def readObject (limits : RecoveryLimits) (item : JsonValue) (seen : List String) (total : Nat) :
    Except RecoveryRaise RecoveryObject := do
  let field ← asDict ["storage_key", "sha256", "size_bytes"] item
  let key ← asStr (field "storage_key")
  let digest ← asStr (field "sha256")
  let size ← asInt 0 (field "size_bytes")
  demand (isSha256 digest && key == canonicalKey digest && !seen.contains key)
    "RECOVERY_MANIFEST_INVALID"
  demand (size ≤ limits.maxSingleBlobBytes && total + size ≤ limits.maxTotalBlobBytes)
    "RECOVERY_BOUND_EXCEEDED"
  .ok ⟨key, digest, size⟩

/-- The loop over the list. -/
def readObjectList (limits : RecoveryLimits) :
    List JsonValue → List String → Nat → Except RecoveryRaise (List RecoveryObject × Nat)
  | [], _, total => .ok ([], total)
  | item :: rest, seen, total => do
      let object ← readObject limits item seen total
      let (objects, total) ← readObjectList limits rest (object.storageKey :: seen)
        (total + object.sizeBytes)
      .ok (object :: objects, total)

/-- `_read_manifest` of what the file holds: digest and size of the dump, identity of the database,
and the objects. -/
def readManifestFile (floatEquals : String → Nat → Bool) (limits : RecoveryLimits)
    (data : List UInt8) : Except RecoveryRaise (String × Nat × String × List RecoveryObject) := do
  let parsed ← readBoundedJson data maxManifestBytes
  let top ← asDict ["schema", "database", "canonical"] parsed
  let schema ← asStr (top "schema")
  demand (schema == recoverySchema) "RECOVERY_MANIFEST_INVALID"
  let database ← asDict ["format", "sha256", "size_bytes", "source_database_identity"]
    (top "database")
  let format ← asStr (database "format")
  demand (format == "postgres-custom") "RECOVERY_MANIFEST_INVALID"
  let canonical ← asDict ["objects", "total_bytes"] (top "canonical")
  let items ← asList (canonical "objects")
  let dumpDigest ← asStr (database "sha256")
  let dumpSize ← asInt 1 (database "size_bytes")
  let identity ← asStr (database "source_database_identity")
  demand (isSha256 dumpDigest && dumpSize ≤ limits.maxDatabaseDumpBytes && isSha256 identity)
    "RECOVERY_MANIFEST_INVALID"
  demand (items.length ≤ limits.maxObjects) "RECOVERY_BOUND_EXCEEDED"
  let (objects, total) ← readObjectList limits items [] 0
  -- the total is compared with `!=`, so a float of that value passes
  demand (equalsTotal floatEquals total (canonical "total_bytes")
    && objects.map RecoveryObject.storageKey
      == Relational.orderBy id (objects.map RecoveryObject.storageKey)) "RECOVERY_MANIFEST_INVALID"
  .ok (dumpDigest, dumpSize, identity, objects)

/-- An invocation that writes its manifest so. -/
def RecoveryEnv.encoding (env : RecoveryEnv) : RecoveryEnv :=
  { env with manifestBytes := encodeManifest }

end Recovery

end NanoAural
