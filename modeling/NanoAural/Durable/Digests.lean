import NanoAural.Durable.EventPages

/-!
# The digest validators

The checks on a SHA-256 text that the durable modules make, each under its own name
and with its own messages, and the object keys made of digests.
-/

namespace NanoAural

open Relational

/-- The shape all of them share: 64 characters without upper case, then `int(value, 16)`. As in
`requireSha256`, a capital beyond ASCII gets the second message. -/
def requireDigest {ε : Type} (shape hexadecimal : ε) (value : String) : Except ε Unit := do
  raiseIf (value.toList.length != 64 || value.toList.any fun c => 'A' ≤ c && c ≤ 'Z') shape
  raiseIf (!IntText.isHexInt value) hexadecimal

/-- `_sha256` of `publication`. -/
def publicationSha256 (value : Option String) (name : String) : Except Error Unit :=
  match value with
  | none => .ok ()
  | some value => requireDigest (.value (name ++ " must be a lowercase full SHA-256"))
      (.value (name ++ " must be hexadecimal")) value

/-- `_sha256` of `uploads`. -/
def uploadsSha256 (value : String) : Except Error Unit :=
  requireDigest (.value "sha256 must be lowercase 64-character hexadecimal")
    (.value "sha256 must be lowercase 64-character hexadecimal") value

/-- `_validate_sha256` of `artifact_storage`. -/
def validateSha256 (value : String) : Except Error Unit :=
  requireDigest (.value "sha256 must be lowercase 64-character hexadecimal")
    (.value "sha256 must be lowercase 64-character hexadecimal") value

/-- `_sha256` of `artifact_publication`. -/
def artifactPublicationSha256 (value : String) : Except Error Unit :=
  requireDigest (.value "sha256 must be lowercase 64-character hexadecimal")
    (.value "sha256 must be lowercase 64-character hexadecimal") value

/-- What `_upload_request` checks of `expected_sha256`. -/
def uploadRequestSha256 (value : Option String) : Except ApplicationError Unit :=
  match value with
  | none => .ok ()
  | some value => requireDigest
      (.invalidRequest "expected_sha256 must be a lowercase full SHA-256")
      (.invalidRequest "expected_sha256 must be hexadecimal") value

namespace LocalBlobStore

/-- `canonical_key`. -/
def canonicalKey (sha256 : String) : Except Error String := do
  requireDigest (.value "sha256 must be a lowercase 64-character hex digest")
    (.value "sha256 must be lowercase hexadecimal") sha256
  pure (NanoAural.canonicalKey sha256)

def inexactKey : Error := .value "storage_key must be an exact canonical key"

/-- `_parse_key`: the two directories and the digest of a key. -/
def parseKey (storageKey : String) : Except Error (String × String × String) := do
  let key := storageKey.toList
  raiseIf (key.isEmpty || key.contains (Char.ofNat 0) || key.contains '\\' || key.head? == some '/')
    inexactKey
  match (key.splitOn '/').map String.ofList with
  | [blobs, sha256, first, second, digest] => do
      raiseIf (blobs != "blobs" || sha256 != "sha256"
        || [blobs, sha256, first, second, digest].any fun part => ["", ".", ".."].contains part)
        inexactKey
      let canonical ← canonicalKey digest
      raiseIf (storageKey != canonical || first != String.ofList (digest.toList.take 2)
        || second != String.ofList ((digest.toList.drop 2).take 2)) inexactKey
      pure (first, second, digest)
  | _ => .error inexactKey

end LocalBlobStore

end NanoAural
