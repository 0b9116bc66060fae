import NanoAural.Base.IntText
import NanoAural.Base.Transaction

/-!
# Durable domain values

The identifiers, enumerations and errors of the durable domain, and the text
checks its constructors share. Identifiers are UUIDs of which only equality and
order are ever used; instants are microseconds of the database clock.
-/

namespace NanoAural

open Relational

abbrev Uuid := Nat

/-- An instant, in microseconds. -/
abbrev Time := Nat

def second : Time := 1000000

/-- `interval '5 minutes'`. -/
def staleGrace : Time := 5 * 60 * second

/-! ## Errors -/

/-- What an operation raises. `database` is an exception PostgreSQL itself raises: it is not one
of the domain's own errors. -/
inductive Error where
  | value (message : String)
  | type (message : String)
  | invariant (message : String)
  | transition (message : String)
  | conflict (message : String)
  | notFound (message : String)
  | database (message : String)
  deriving DecidableEq, Repr

/-! ## Enumerations -/

inductive DeploymentState where
  | registered | ready | unhealthy | retired
  deriving DecidableEq, Repr

inductive BlobState where
  | verified | quarantined | deleted
  deriving DecidableEq, Repr

inductive AssetState where
  | verified | rejected | deleted
  deriving DecidableEq, Repr

inductive JobState where
  | queued | running | succeeded | failed | cancelled
  deriving DecidableEq, Repr

inductive AttemptState where
  | active | succeeded | failedTerminal | failedRetryable | cancelled
  deriving DecidableEq, Repr

inductive ArtifactState where
  | ready | rejected
  deriving DecidableEq, Repr

inductive WorkerState where
  | ready | busy | unhealthy
  deriving DecidableEq, Repr

inductive EventType where
  | jobCreated | attemptStarted | cancelRequested | attemptCancelled | attemptFailed
  | attemptRequeued | jobSucceeded
  deriving DecidableEq, Repr

inductive AssetKind where
  | input | generated
  deriving DecidableEq, Repr

inductive ArtifactKind where
  | output | manifest
  deriving DecidableEq, Repr

def ArtifactKind.value : ArtifactKind → String
  | .output => "output"
  | .manifest => "manifest"

inductive PublicationState where
  | reserved | objectWritten | validated | finalized | rejected | abandoned
  deriving DecidableEq, Repr

/-- `finalized`, `rejected` and `abandoned`. -/
def PublicationState.terminal : PublicationState → Bool
  | .finalized | .rejected | .abandoned => true
  | .reserved | .objectWritten | .validated => false

def JobState.terminal : JobState → Bool
  | .succeeded | .failed | .cancelled => true
  | .queued | .running => false

/-! ## Python values -/

/-- The values a request or a metadata mapping holds. A float is carried as its JSON text. -/
inductive PyValue where
  | null
  | bool (b : Bool)
  | int (i : Int)
  | float (repr : String)
  | str (s : String)
  | list (items : List PyValue)
  | tuple (items : List PyValue)
  | dict (items : List (String × PyValue))
  deriving Repr

namespace PyValue

mutual

def decEq : (a b : PyValue) → Decidable (a = b)
  | .null, b => match b with
    | .null => isTrue rfl
    | .bool _ | .int _ | .float _ | .str _ | .list _ | .tuple _ | .dict _ => isFalse (by simp)
  | .bool x, b => match b with
    | .bool y => if h : x = y then isTrue (h ▸ rfl) else isFalse (by simp [h])
    | .null | .int _ | .float _ | .str _ | .list _ | .tuple _ | .dict _ => isFalse (by simp)
  | .int x, b => match b with
    | .int y => if h : x = y then isTrue (h ▸ rfl) else isFalse (by simp [h])
    | .null | .bool _ | .float _ | .str _ | .list _ | .tuple _ | .dict _ => isFalse (by simp)
  | .float x, b => match b with
    | .float y => if h : x = y then isTrue (h ▸ rfl) else isFalse (by simp [h])
    | .null | .bool _ | .int _ | .str _ | .list _ | .tuple _ | .dict _ => isFalse (by simp)
  | .str x, b => match b with
    | .str y => if h : x = y then isTrue (h ▸ rfl) else isFalse (by simp [h])
    | .null | .bool _ | .int _ | .float _ | .list _ | .tuple _ | .dict _ => isFalse (by simp)
  | .list x, b => match b with
    | .list y => match decEqItems x y with
      | isTrue h => isTrue (h ▸ rfl)
      | isFalse h => isFalse (by simp [h])
    | .null | .bool _ | .int _ | .float _ | .str _ | .tuple _ | .dict _ => isFalse (by simp)
  | .tuple x, b => match b with
    | .tuple y => match decEqItems x y with
      | isTrue h => isTrue (h ▸ rfl)
      | isFalse h => isFalse (by simp [h])
    | .null | .bool _ | .int _ | .float _ | .str _ | .list _ | .dict _ => isFalse (by simp)
  | .dict x, b => match b with
    | .dict y => match decEqEntries x y with
      | isTrue h => isTrue (h ▸ rfl)
      | isFalse h => isFalse (by simp [h])
    | .null | .bool _ | .int _ | .float _ | .str _ | .list _ | .tuple _ => isFalse (by simp)

def decEqItems : (a b : List PyValue) → Decidable (a = b)
  | [], [] => isTrue rfl
  | [], _ :: _ => isFalse (by simp)
  | _ :: _, [] => isFalse (by simp)
  | x :: xs, y :: ys => match decEq x y, decEqItems xs ys with
    | isTrue h, isTrue h' => isTrue (h ▸ h' ▸ rfl)
    | isFalse h, _ => isFalse (by simp [h])
    | _, isFalse h => isFalse (by simp [h])

def decEqEntries : (a b : List (String × PyValue)) → Decidable (a = b)
  | [], [] => isTrue rfl
  | [], _ :: _ => isFalse (by simp)
  | _ :: _, [] => isFalse (by simp)
  | (k, x) :: xs, (l, y) :: ys => match decEq x y, decEqEntries xs ys with
    | isTrue h, isTrue h' =>
      if hk : k = l then isTrue (hk ▸ h ▸ h' ▸ rfl) else isFalse (by simp [hk])
    | isFalse h, _ => isFalse (by simp [h])
    | _, isFalse h => isFalse (by simp [h])

end

end PyValue

instance : DecidableEq PyValue := PyValue.decEq

namespace PyValue

mutual

/-- `_freeze`: sequences become tuples, all the way down. -/
def freeze : PyValue → PyValue
  | .list items => .tuple (freezeItems items)
  | .tuple items => .tuple (freezeItems items)
  | .dict items => .dict (freezeEntries items)
  | v => v

def freezeItems : List PyValue → List PyValue
  | [] => []
  | v :: vs => freeze v :: freezeItems vs

def freezeEntries : List (String × PyValue) → List (String × PyValue)
  | [] => []
  | (k, v) :: vs => (k, freeze v) :: freezeEntries vs

end

end PyValue

/-- What psycopg and PostgreSQL make of a mapping stored in a JSONB column: the value read back
after `json.dumps`, and Python's `==` on two mappings. -/
structure JsonColumn where
  roundTrip : PyValue → PyValue
  same : PyValue → PyValue → Bool

/-! ## Text checks -/

/-- `str.isspace` for one character: what `str.strip` removes. -/
def isSpace (c : Char) : Bool :=
  let n := c.toNat
  (9 ≤ n && n ≤ 13) || (28 ≤ n && n ≤ 32) || n == 0x85 || n == 0xA0 || n == 0x1680
    || (0x2000 ≤ n && n ≤ 0x200A) || n == 0x2028 || n == 0x2029 || n == 0x202F || n == 0x205F
    || n == 0x3000

/-- `not value.strip()`. -/
def isBlank (value : String) : Bool := value.toList.all isSpace

/-- `length(trim(value)) > 0`: SQL trims spaces only. -/
def sqlTrimmed (value : String) : Bool := value.toList.any (· != ' ')

def isLowerHex (c : Char) : Bool := ('0' ≤ c && c ≤ '9') || ('a' ≤ c && c ≤ 'f')

/-- The database's `value ~ '^[0-9a-f]{64}$'`. -/
def isSha256 (value : String) : Bool :=
  value.toList.length == 64 && value.toList.all isLowerHex

/-- `_sha256`: 64 characters, no upper case, and an integer in base 16. Upper case beyond ASCII is
no integer. -/
def acceptsSha256 (value : String) : Bool :=
  value.toList.length == 64 && value.toList.all (fun c => !('A' ≤ c && c ≤ 'Z'))
    && IntText.isHexInt value

/-- `LocalBlobStore.canonical_key` of a digest it accepts. -/
def canonicalKey (sha256 : String) : String :=
  "blobs/sha256/" ++ String.ofList (sha256.toList.take 2) ++ "/"
    ++ String.ofList ((sha256.toList.drop 2).take 2) ++ "/" ++ sha256

/-! ## Records -/

structure DeploymentRecord where
  deploymentId : Uuid
  name : String
  adapterId : String
  fingerprint : String
  state : DeploymentState
  manifest : PyValue
  deriving DecidableEq, Repr

structure BlobRecord where
  blobId : Uuid
  sha256 : String
  sizeBytes : Nat
  storageKey : String
  state : BlobState
  contentType : String
  deriving DecidableEq, Repr

structure AssetRecord where
  assetId : Uuid
  blobId : Uuid
  namespaceId : String
  kind : AssetKind
  state : AssetState
  metadata : PyValue
  deriving DecidableEq, Repr

/-- One input of a job. A blank role cannot be built. -/
structure JobInput where
  role : String
  assetId : Uuid
  role_text : isBlank role = false
  deriving DecidableEq, Repr

structure JobRecord where
  jobId : Uuid
  namespaceId : String
  idempotencyKey : String
  requestSha256 : String
  request : PyValue
  deploymentId : Uuid
  inputs : List JobInput
  requiredArtifactKinds : List ArtifactKind
  state : JobState
  currentAttemptId : Option Uuid
  winningAttemptId : Option Uuid
  cancelRequested : Bool
  leaseEpoch : Nat
  deriving DecidableEq, Repr

structure AttemptRecord where
  attemptId : Uuid
  jobId : Uuid
  workerId : Uuid
  attemptNo : Nat
  leaseEpoch : Nat
  state : AttemptState
  deriving DecidableEq, Repr

structure ArtifactRecord where
  artifactId : Uuid
  jobId : Uuid
  attemptId : Uuid
  blobId : Uuid
  kind : ArtifactKind
  state : ArtifactState
  metadata : PyValue
  deriving DecidableEq, Repr

structure WorkerRecord where
  workerId : Uuid
  deploymentId : Uuid
  state : WorkerState
  deriving DecidableEq, Repr

/-- An event; its own identifier is never read back. -/
structure JobEventRecord where
  jobId : Uuid
  eventType : EventType
  attemptId : Option Uuid
  deriving DecidableEq, Repr

/-! ## Constructors -/

/-- `_require_text`. -/
def requireText (value name : String) : Except Error Unit :=
  raiseIf (isBlank value) (.value (name ++ " must be a non-empty string"))

/-- `_require_sha256`. A capital beyond ASCII, which `lower` would change as well, is refused by the
last check here, with its message. -/
def requireSha256 (value name : String) : Except Error Unit := do
  raiseIf (value.toList.length != 64)
    (.value (name ++ " must be a 64-character SHA-256 hex string"))
  raiseIf (value.toList.any fun c => 'A' ≤ c && c ≤ 'Z')
    (.value (name ++ " must be lowercase hexadecimal"))
  raiseIf (!IntText.isHexInt value) (.value (name ++ " must be a SHA-256 hex string"))

def PyValue.isMapping : PyValue → Bool
  | .dict _ => true
  | _ => false

/-- The constructor of `DeploymentRecord`. -/
def DeploymentRecord.checked (d : DeploymentRecord) : Except Error DeploymentRecord := do
  requireText d.name "name"
  requireText d.adapterId "adapter_id"
  requireText d.fingerprint "fingerprint"
  pure { d with manifest := d.manifest.freeze }

/-- The constructor of `BlobRecord`. -/
def BlobRecord.checked (b : BlobRecord) : Except Error BlobRecord := do
  requireSha256 b.sha256 "sha256"
  requireText b.storageKey "storage_key"
  pure b

/-- The constructor of `AssetRecord`. -/
def AssetRecord.checked (a : AssetRecord) : Except Error AssetRecord := do
  requireText a.namespaceId "namespace_id"
  pure { a with metadata := a.metadata.freeze }

/-- The constructor of `JobInput`. -/
def JobInput.checked (role : String) (assetId : Uuid) : Except Error JobInput :=
  if h : isBlank role = false then .ok ⟨role, assetId, h⟩
  else .error (.value "role must be a non-empty string")

/-- The checks of `JobRecord`'s constructor. -/
def JobRecord.check (job : JobRecord) : Except Error Unit := do
  requireText job.namespaceId "namespace_id"
  requireText job.idempotencyKey "idempotency_key"
  requireSha256 job.requestSha256 "request_sha256"
  raiseIf (!job.request.isMapping) (.type "request must be a mapping")
  raiseIf (!decide (job.inputs.map JobInput.role).Nodup) (.value "job input roles must be unique")
  raiseIf job.requiredArtifactKinds.isEmpty
    (.value "required_artifact_kinds must contain ArtifactKind values")
  raiseIf (!decide job.requiredArtifactKinds.Nodup)
    (.value "required_artifact_kinds must be unique")

/-- The constructor of `JobRecord`. -/
def JobRecord.checked (job : JobRecord) : Except Error JobRecord := do
  job.check
  pure { job with request := job.request.freeze }

/-- `_positive_int`. -/
def positiveInt (value : Int) (name : String) : Except Error Unit :=
  if value < 1 then .error (.value (name ++ " must be a positive integer")) else .ok ()

/-- The object key of one publication of one attempt, by its components:
`attempts/<job>/<attempt>/epoch-<n>/<kind>/<publication>`. -/
structure AttemptKey where
  jobId : Uuid
  attemptId : Uuid
  leaseEpoch : Nat
  kind : ArtifactKind
  publicationId : Uuid
  deriving DecidableEq, Repr

end NanoAural
