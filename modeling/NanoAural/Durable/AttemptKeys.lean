import NanoAural.Base.UuidText
import NanoAural.Durable.Schema

/-!
# Attempt keys

`attempt_key`, its parser, and the ledger's own formatter. The parser reads each
component with the library's permissive readers and leaves it to a last
re-encoding to throw out every other spelling.

`limit` is the interpreter's limit on the digits of an integer's text.
-/

namespace NanoAural

open Relational

namespace AttemptKeys

open IntText UuidText

/-- A `ValueError`: of `UUID`, `int` and `str`, or with a message of this module. -/
inductive KeyRaise where
  | library
  | value (message : String)
  deriving DecidableEq, Repr

/-- `str(UUID(text))`. -/
def strUuid (text : String) : Except KeyRaise String :=
  match ofText text with
  | some n => .ok (uuidText n)
  | none => .error .library

/-- `str` of a positive integer. -/
def strInt (limit : Option Nat) (n : Int) : Except KeyRaise String :=
  match intText limit n.toNat with
  | some text => .ok text
  | none => .error .library

/-- The template of a key. -/
def keyText (job attempt epoch : String) (kind : ArtifactKind) (publication : String) : String :=
  "attempts/" ++ job ++ "/" ++ attempt ++ "/epoch-" ++ epoch ++ "/" ++ kind.value ++ "/" ++ publication

/-- `attempt_key`. -/
def attemptKey (limit : Option Nat) (jobId attemptId : String) (leaseEpoch : Int)
    (kind : ArtifactKind) (publicationId : String) : Except KeyRaise String := do
  let job ← strUuid jobId
  let attempt ← strUuid attemptId
  let publication ← strUuid publicationId
  raiseIf (leaseEpoch < 1) (.value "lease_epoch must be a positive integer")
  let epoch ← strInt limit leaseEpoch
  pure (keyText job attempt epoch kind publication)

/-- What `parse_attempt_key` returns. -/
structure AttemptParts where
  jobId : String
  attemptId : String
  leaseEpoch : Int
  kind : ArtifactKind
  publicationId : String
  deriving DecidableEq, Repr

/-- `attempt_key` of the five components. -/
def AttemptParts.key (limit : Option Nat) (parts : AttemptParts) : Except KeyRaise String :=
  attemptKey limit parts.jobId parts.attemptId parts.leaseEpoch parts.kind parts.publicationId

/-- `storage_key.split("/")`. -/
def components (key : String) : List String := (key.toList.splitOn '/').map String.ofList

def inexactKey : KeyRaise := .value "storage_key must be an exact attempt key"

/-- `ArtifactKind(text)`. -/
def artifactKind (text : String) : Option ArtifactKind :=
  [ArtifactKind.output, .manifest].find? fun kind => kind.value == text

/-- `epoch-` and a number as `str` writes it. -/
def readEpoch (limit : Option Nat) (part : String) : Option Int := do
  guard ("epoch-".toList.isPrefixOf part.toList)
  let epochText := String.ofList (part.toList.drop 6)
  let epoch ← decInt limit epochText
  guard (1 ≤ epoch)
  let text ← intText limit epoch.toNat
  guard (epochText = text)
  some epoch

/-- The `try` block; whatever it raises is turned into one error. -/
def readParts (limit : Option Nat) : List String → Option AttemptParts
  | [_, job, attempt, epoch, kind, publication] => do
      let job ← ofText job
      let attempt ← ofText attempt
      let publication ← ofText publication
      let epoch ← readEpoch limit epoch
      let kind ← artifactKind kind
      some ⟨uuidText job, uuidText attempt, epoch, kind, uuidText publication⟩
  | _ => none

/-- `parse_attempt_key`. -/
def parseAttemptKey (limit : Option Nat) (storageKey : String) : Except KeyRaise AttemptParts := do
  let text := storageKey.toList
  raiseIf (text.isEmpty || text.contains '\x00' || text.contains '\\' || text.head? == some '/')
    inexactKey
  let parts := components storageKey
  raiseIf (parts.length != 6 || parts.head? != some "attempts"
    || parts.any fun part => ["", ".", ".."].contains part) inexactKey
  match readParts limit parts with
  | none => .error inexactKey
  | some found => do
      let expected ← found.key limit
      raiseIf (storageKey != expected) inexactKey
      pure found

/-- `PostgresPublicationRepository.attempt_object_key`, of a row whose identifiers `str` has written
out. -/
def attemptObjectKey (limit : Option Nat) (publication : PublicationRow) :
    Except KeyRaise String := do
  let epoch ← strInt limit publication.leaseEpoch
  pure (keyText (uuidText publication.jobId) (uuidText publication.attemptId) epoch publication.kind
    (uuidText publication.id))

end AttemptKeys

end NanoAural
