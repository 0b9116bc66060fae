import NanoAural.Base.JsonIdentity
import NanoAural.Durable.Repository

/-!
# The bytes a request is hashed by

`canonical_request_sha256` down to the bytes: the checked request, the deployment,
the inputs by role and the kinds in order, as one JSON text with sorted keys.
Identifiers are texts here, as they are in the text that is hashed.
-/

namespace NanoAural

open JsonText Relational

/-! ## Values as JSON -/

mutual

/-- A value as `json.dumps` takes it: a tuple is an array as a list is. -/
def jsonValue : PyValue → JsonValue
  | .null => .null
  | .bool b => .bool b
  | .int i => .int i
  | .float repr => .real repr
  | .str s => .string s
  | .list items => .array (jsonItems items)
  | .tuple items => .array (jsonItems items)
  | .dict entries => .object (jsonEntries entries)

def jsonItems : List PyValue → List JsonValue
  | [] => []
  | v :: vs => jsonValue v :: jsonItems vs

def jsonEntries : List (String × PyValue) → List (String × JsonValue)
  | [] => []
  | (k, v) :: vs => (k, jsonValue v) :: jsonEntries vs

end

mutual

/-- What Python guarantees of a value: no key stands twice in a mapping, and the JSON text of a
float is a number's, unless the float is not finite. -/
def PyValue.proper : PyValue → Bool
  | .float repr => nonFinite.contains repr || isRealText repr.toList
  | .list items => properItems items
  | .tuple items => properItems items
  | .dict entries => decide (entries.map Prod.fst).Nodup && properEntries entries
  | .null | .bool _ | .int _ | .str _ => true

def properItems : List PyValue → Bool
  | [] => true
  | v :: vs => v.proper && properItems vs

def properEntries : List (String × PyValue) → Bool
  | [] => true
  | (_, v) :: vs => v.proper && properEntries vs

end

/-- `json.dumps(value, ensure_ascii=False, allow_nan=False, separators=(",", ":"),
sort_keys=True).encode("utf-8")` of a value without floats that are not finite. -/
def dumpsSorted (v : PyValue) : List UInt8 := canonicalBytes plainEscape (jsonValue v)

/-! ## The request -/

/-- The arguments of `canonical_request_sha256`, an input as its role and its asset. -/
structure RequestArguments where
  request : PyValue
  deploymentId : String
  inputs : List (String × String)
  requiredArtifactKinds : List ArtifactKind

/-- The mapping that is hashed, of parts in order. -/
def canonicalPayload (request : PyValue) (deploymentId : String) (inputs : List (String × String))
    (kinds : List String) : List UInt8 :=
  dumpsSorted (.dict
    [("deployment_id", .str deploymentId), ("request", request),
      ("inputs", .list (inputs.map fun item =>
        .dict [("role", .str item.1), ("asset_id", .str item.2)])),
      ("required_artifact_kinds", .list (kinds.map .str))])

/-- The bytes `canonical_request_sha256` hashes, of a request with a deployment. -/
def RequestArguments.payload (r : RequestArguments) : Except Error (List UInt8) := do
  raiseIf (!r.request.isMapping) (.type "request must be a mapping")
  let normalized ← canonicalJsonValue r.request
  requireText r.deploymentId "deployment_id"
  pure (canonicalPayload normalized r.deploymentId (orderBy Prod.fst r.inputs)
    (orderBy id (r.requiredArtifactKinds.map ArtifactKind.value)))

/-! ## Submissions -/

/-- The texts of the identifiers. -/
structure IdentifierText where
  text : Uuid → String
  injective : Function.Injective text
  filled : ∀ id, isBlank (text id) = false

/-- What `create_job` gives `canonical_request_sha256`. -/
def Submission.arguments (ids : IdentifierText) (sub : Submission) : RequestArguments where
  request := sub.request
  deploymentId := ids.text sub.deploymentId
  inputs := sub.normalizedInputs.map fun item => (item.role, ids.text item.assetId)
  requiredArtifactKinds := sub.required

/-- The hash of a canonical request, down to its bytes. -/
def requestDigest (sha256 : List UInt8 → String) (ids : IdentifierText) (c : CanonicalRequest) :
    String :=
  sha256 (canonicalPayload c.request (ids.text c.deploymentId)
    (c.inputs.map fun item => (item.1, ids.text item.2)) c.requiredArtifactKinds)

end NanoAural
