import Mathlib.Logic.Function.Basic
import NanoAural.Base.StreamCopy
import NanoAural.Base.UuidText
import NanoAural.Durable.Domain

/-!
# The remote client's download

`RemoteClient.download` over the directory of the destination. Every call on the
outside may raise, and other processes may change the directory before each of them:
any name but the temporary one, whose random part they do not know. What `close` on
a body raises is dropped, and removing the temporary file and syncing the directory
do not fail.
-/

namespace NanoAural

namespace RemoteDownload

open Faulty StreamCopy

/-- What `download` raises. -/
inductive Raised where
  | value (message : String)
  | fileExists
  | fileNotFound
  /-- `RemoteApiError` and the kinds of it. -/
  | api (message : String)
  | notFound (message : String)
  | conflict (message : String)
  | integrity (message : String)
  /-- Any other `Exception`. -/
  | exception
  /-- A `BaseException` that is none. -/
  | interrupted
  deriving DecidableEq, Repr

/-- What stands under a name: a file of this call, or something of others. -/
inductive Entry where
  | ours (content : List UInt8)
  | theirs (what : List UInt8)
  deriving DecidableEq, Repr

structure HttpResponse where
  status : Nat
  headers : List (String × String)
  body : Nat → StreamRead

/-- The directory of the destination and what the call holds. -/
structure World where
  names : String → Option Entry
  /-- What the directory would hold without this call. -/
  without : String → Option Entry
  /-- What others do to it before each call on the outside that is still to come. -/
  others : List (List (String × Option (List UInt8)))
  bodyOpen : Bool
  /-- What the destination held when this call made it. -/
  created : Option (List UInt8)

/-- What a download is made with. -/
structure Env where
  /-- The response to a request for an artifact of a job. -/
  transport : String → String → HttpResponse
  maxDownloadBytes : Nat
  sha256 : List UInt8 → String
  /-- `str.lower`. -/
  lower : String → String
  /-- `uuid4().hex`. -/
  uuid : String

/-- The arguments, the destination as the directories on the way and a name. -/
structure Arguments where
  jobId : String
  artifactId : String
  parents : List String
  name : String
  chunkSize : Int

variable (env : Env) (args : Arguments)

def temporary : String := "." ++ args.name ++ "." ++ env.uuid ++ ".part"

namespace World

/-- The directory before the call. -/
def start (names : String → Option (List UInt8)) (others : List (List (String × Option (List UInt8)))) :
    World where
  names name := (names name).map .theirs
  without name := (names name).map .theirs
  others := others
  bodyOpen := false
  created := none

end World

/-- One change that others make. -/
def change (temporary : String) (names : String → Option Entry)
    (move : String × Option (List UInt8)) : String → Option Entry :=
  if move.1 = temporary then names else Function.update names move.1 (move.2.map .theirs)

/-- Others have their turn. -/
def World.stir (temporary : String) (w : World) : World :=
  match w.others with
  | [] => w
  | moves :: rest =>
      { w with
        names := moves.foldl (change temporary) w.names
        without := moves.foldl (change temporary) w.without
        others := rest }

/-- A call on the outside that has done nothing if it raises. -/
def outside {α : Type} (f : World → Except Raised α × World) : Prog World Raised α :=
  Prog.atomic fun w => f (w.stir (temporary env args))

/-- A call on the outside that leaves the directory as it is. -/
def pass : Prog World Raised Unit := outside env args fun w => (.ok (), w)

def put (name : String) (entry : Option Entry) (w : World) : World :=
  { w with names := Function.update w.names name entry }

/-! ## The pieces of `download` -/

/-- `_open_directory`. -/
def openDirectory : Prog World Raised Unit := do
  pass env args
  Prog.forEach args.parents fun part =>
    if part = "" ∨ part = "." then pure ()
    else if part = ".." then
      Prog.raise (.value "download destination cannot traverse parent directories")
    else pass env args

/-- `_segment`, less what it quotes. -/
def segment (value : String) : Prog World Raised Unit :=
  Prog.raiseWhen (isBlank value) (.value "resource id must be non-empty")

/-- `_close`. -/
def closeBody : Prog World Raised Unit := Prog.assign fun w => { w with bodyOpen := false }

/-- `_request`. -/
def request : Prog World Raised HttpResponse :=
  (outside env args fun w =>
    (.ok (env.transport args.jobId args.artifactId), { w with bodyOpen := true })).tryCatch fun e =>
      match e with
      | .api _ | .notFound _ | .conflict _ | .integrity _ | .interrupted => Prog.raise e
      | .value _ | .fileExists | .fileNotFound | .exception =>
          Prog.raise (.api "remote transport failed")

/-- `_raise_status`. -/
def statusError (status : Nat) : Raised :=
  if status = 404 then .notFound "remote resource not found"
  else if status = 409 then .conflict "remote request conflicts with current state"
  else .api ("remote request failed with status " ++ toString status)

/-- `headers.get(name, "")` of the headers with their names in lower case, of which the last
stands. -/
def header (response : HttpResponse) (name : String) : String :=
  ((response.headers.map fun h => (env.lower h.1, h.2)).reverse.lookup name).getD ""

def declaredSha (response : HttpResponse) : String := header env response "x-content-sha256"

/-- The interpreter reads 4300 digits, unless it is told otherwise. -/
def declaredSize (response : HttpResponse) : Option Int :=
  IntText.decInt (some 4300) (header env response "content-length")

/-- The checks of the headers, with the size they declare. -/
def checkHeaders (response : HttpResponse) : Except Raised Nat :=
  match declaredSize env response with
  | none => .error (.integrity "download is missing a valid content length")
  | some size =>
      if (declaredSha env response).length ≠ 64 ∨
          env.lower (declaredSha env response) ≠ declaredSha env response ∨ size < 0 then
        .error (.integrity "download is missing full-file integrity evidence")
      else if (env.maxDownloadBytes : Int) < size then
        .error (.integrity "download exceeds configured size limit")
      else if IntText.isHexInt (declaredSha env response) then .ok size.toNat
      else .error (.integrity "download SHA-256 is invalid")

/-- `os.open` of the temporary file. -/
def openTemporary : Prog World Raised Unit :=
  outside env args fun w =>
    match w.names (temporary env args) with
    | some _ => (.error .fileExists, w)
    | none => (.ok (), put (temporary env args) (some (.ours [])) w)

/-- `output.write`, which may have written what it was given also where it raises. -/
def writeChunk (chunk : List UInt8) : Prog World Raised Unit :=
  Prog.act fun w =>
    let w := w.stir (temporary env args)
    match w.names (temporary env args) with
    | some (.ours content) => put (temporary env args) (some (.ours (content ++ chunk))) w
    | _ => w

/-- `os.link`. -/
def link : Prog World Raised Unit :=
  outside env args fun w =>
    match w.names args.name, w.names (temporary env args) with
    | some _, _ => (.error .fileExists, w)
    | none, some (.ours content) =>
        (.ok (), { put args.name (some (.ours content)) w with created := some content })
    | none, _ => (.error .fileNotFound, w)

/-- `os.unlink` of the temporary file, and of none if there is none. -/
def unlinkTemporary : Prog World Raised Unit :=
  Prog.attempt fun w => (.ok (), put (temporary env args) none (w.stir (temporary env args)))

/-- The body of the second `try`. -/
def receive (response : HttpResponse) (size : Nat) : Prog World Raised Unit := do
  pass env args                       -- `os.fdopen`
  let received ← copyFrom response.body (min size env.maxDownloadBytes)
    (.integrity "download stream returned non-bytes") (.integrity "download exceeds permitted size")
    (pass env args) (writeChunk env args) 0 []
  pass env args                       -- `flush`
  pass env args                       -- `os.fsync`, and the end of the `with`
  Prog.raiseWhen (received.length != size || env.sha256 received != declaredSha env response)
    (.integrity "download differs from full-file integrity evidence")
  link env args
  unlinkTemporary env args

/-- The `finally` after it. -/
def finish : Prog World Raised Unit := do
  closeBody
  unlinkTemporary env args

/-- `download` from its response on. -/
def store (response : HttpResponse) : Prog World Raised Unit :=
  if response.status ≠ 200 then do
    closeBody
    Prog.raise (statusError response.status)
  else
    match checkHeaders env response with
    | .error e => do
        closeBody
        Prog.raise e
    | .ok size => do
        (openTemporary env args).tryCatch fun e => do
          closeBody
          Prog.raise e
        (receive env args response size).tryFinally (finish env args)

/-- `RemoteClient.download`. -/
def download : Prog World Raised Unit := do
  Prog.raiseWhen (args.chunkSize < 1) (.value "chunk_size must be a positive integer")
  (openDirectory env args).tryCatch fun e =>
    if e = .fileNotFound then Prog.raise (.value "download destination parent must exist")
    else Prog.raise e
  Prog.raiseWhen (["", ".", ".."].contains args.name)
    (.value "download destination must name a file")
  let found ← outside env args fun w => (.ok (w.names args.name).isSome, w)
  Prog.raiseWhen found .fileExists
  segment args.jobId
  segment args.artifactId
  let response ← request env args
  store env args response

end RemoteDownload

end NanoAural
