import NanoAural.Durable.RecoverySets
import NanoAural.Durable.UploadWorkflow

/-!
# The canonical blob store

What the two writes of `LocalBlobStore` do to the tree below its root, call by
call. Any call may fail with an I/O error or be the last of a killed process,
before or after it took effect; the next write works on what it left. Descriptors,
modes and the closing of descriptors are left out.
-/

namespace NanoAural

open Relational Faulty Faulty.Prog

namespace BlobStorage

open Recovery (ObjectTree canonicalDirectories)

/-- What the calls raise. The first three are `OSError`s, and `os` is any that no handler names. -/
inductive BlobRaise where
  | fileExists
  | fileNotFound
  | os
  | runtime (message : String)
  deriving DecidableEq, Repr

abbrev BlobProg (α : Type) : Type := Prog ObjectTree BlobRaise α

def unexpectedBytes : BlobRaise := .runtime "immutable blob path contains unexpected bytes"

/-! ## Calls on the file system -/

/-- `os.mkdir`. -/
def makeDirectory (path : String) : BlobProg Unit := call fun t =>
  if t.dirs.contains path || (t.read path).isSome then (.error .fileExists, t)
  else (.ok (), { t with dirs := t.dirs ++ [path] })

/-- `os.open` with `O_DIRECTORY`. -/
def openDirectory (path : String) : BlobProg Unit := call fun t =>
  if t.dirs.contains path then (.ok (), t)
  else if (t.read path).isSome then (.error .os, t)
  else (.error .fileNotFound, t)

/-- `os.open` for reading: what a regular file holds, and nothing of a directory. -/
def openFile (path : String) : BlobProg (Option (List UInt8)) := call fun t =>
  match t.read path with
  | some content => (.ok (some content), t)
  | none => if t.dirs.contains path then (.ok none, t) else (.error .fileNotFound, t)

/-- `os.open` with `O_CREAT` and `O_EXCL`. -/
def createFile (path : String) : BlobProg Unit := call fun t =>
  if t.dirs.contains path || (t.read path).isSome then (.error .fileExists, t)
  else (.ok (), { t with files := t.files ++ [(path, [])] })

/-- `write` at the end of a file. -/
def append (path : String) (data : List UInt8) : BlobProg Unit := act fun t =>
  { t with files := t.files.map fun f => if f.1 == path then (f.1, f.2 ++ data) else f }

/-- `os.link`. -/
def link (source target : String) : BlobProg Unit := call fun t =>
  if t.dirs.contains target || (t.read target).isSome then (.error .fileExists, t)
  else
    match t.read source with
    | none => (.error .fileNotFound, t)
    | some content => (.ok (), { t with files := t.files ++ [(target, content)] })

/-- `os.unlink`. -/
def unlink (path : String) : BlobProg Unit := call fun t =>
  match t.read path with
  | none => (.error .fileNotFound, t)
  | some _ => (.ok (), { t with files := t.files.filter (·.1 != path) })

/-- A call that leaves the tree as it is: `os.dup`, `fstat`, `fsync`, a read, the spool. -/
def quiet : BlobProg Unit := act id

/-- `except` of one kind of error. -/
def catching {α : Type} (kind : BlobRaise) (p handler : BlobProg α) : BlobProg α :=
  p.tryCatch fun e => if e = kind then handler else raise e

/-! ## The store -/

/-- A name of the directory the blob lies in. -/
def temporaryName (stem token digest : String) : String :=
  "blobs/sha256/" ++ String.ofList (digest.toList.take 2) ++ "/"
    ++ String.ofList ((digest.toList.drop 2).take 2) ++ "/" ++ (stem ++ token)

/-- `_parent_fd` with `create=True`. -/
def parentFd (digest : String) : BlobProg Unit := do
  quiet
  forEach (canonicalDirectories digest) fun path => do
    catching .fileExists (makeDirectory path) (pure ())
    openDirectory path

/-- `_read_existing`. -/
def readExisting (path : String) : BlobProg (List UInt8) := do
  let opened ← openFile path
  quiet
  match opened with
  | none => raise (.runtime "canonical blob is not a regular file")
  | some content => do
      quiet
      pure content

/-- `finally: os.unlink(temporary_name)`. -/
def removeTemporary (temporary : String) : BlobProg Unit :=
  catching .fileNotFound (unlink temporary) (pure ())

/-- The body of `put_immutable` while the temporary name is there. -/
def publishImmutable (temporary path : String) (data : List UInt8) : BlobProg Unit := do
  append temporary data
  quiet
  catching .fileExists (link temporary path) do
    let existing ← readExisting path
    raiseWhen (existing != data) unexpectedBytes
  quiet

/-- `put_immutable`. -/
def putImmutable (sha256 : List UInt8 → String) (token : String) (data : List UInt8) :
    BlobProg BlobObject := do
  let digest := sha256 data
  let path := canonicalKey digest
  let temporary := temporaryName ".put-" token digest
  parentFd digest
  let existing ← catching .fileNotFound
    (do
      let content ← readExisting path
      pure (some content))
    (pure none)
  match existing with
  | some content => do
      raiseWhen (content != data) unexpectedBytes
      pure ⟨digest, data.length, path⟩
  | none => do
      createFile temporary
      (publishImmutable temporary path data).tryFinally (removeTemporary temporary)
      pure ⟨digest, data.length, path⟩

/-- The pieces in which a file is read, `1024 * 1024` bytes at a time. -/
def pieces (data : List UInt8) : List (List UInt8) :=
  (List.range ((data.length + chunkBytes - 1) / chunkBytes)).map fun i =>
    (data.drop (i * chunkBytes)).take chunkBytes

/-- The loop that hashes what is there, and the comparison after it. -/
def compareExisting (sha256 : List UInt8 → String) (data : List UInt8) :
    Option (List UInt8) → BlobProg Unit
  | none => raise .os
  | some content => do
      forEach (pieces content) fun _ => quiet
      quiet
      raiseWhen (content.length != data.length || sha256 content != sha256 data) unexpectedBytes

/-- The part of `put_stream` that writes, while the temporary name is there. -/
def publishStream (sha256 : List UInt8 → String) (temporary path : String) (data : List UInt8) :
    BlobProg Unit := do
  createFile temporary
  forEach (pieces data) fun piece => do
    quiet
    append temporary piece
  quiet
  quiet
  catching .fileExists (link temporary path) do
    let existing ← openFile path
    compareExisting sha256 data existing
  quiet

/-- `put_stream`. -/
def putStream (sha256 : List UInt8 → String) (token : String) (chunks : List (List UInt8)) :
    BlobProg BlobObject := do
  quiet
  forEach chunks fun _ => quiet
  let data := chunks.flatten
  let digest := sha256 data
  let path := canonicalKey digest
  let temporary := temporaryName ".stream-" token digest
  parentFd digest
  tryFinally
    (do
      let existing ← catching .fileNotFound
        (do
          let opened ← openFile path
          pure (some opened))
        (pure none)
      match existing with
      | some opened => compareExisting sha256 data opened
      | none => publishStream sha256 temporary path data)
    (removeTemporary temporary)
  pure ⟨digest, data.length, path⟩

/-! ## Runs -/

/-- What is put, and how. -/
inductive PutMethod where
  | immutable (data : List UInt8)
  | stream (chunks : List (List UInt8))

/-- A put with what befalls its calls, which raise nothing of the world's but I/O errors. -/
structure Put where
  method : PutMethod
  token : String
  faults : List (Fault BlobRaise)
  io : ∀ e after, Fault.raise e after ∈ faults → e = .os

def Put.data (p : Put) : List UInt8 :=
  match p.method with
  | .immutable data => data
  | .stream chunks => chunks.flatten

/-- The put on a tree: how it ends, and what it leaves. -/
def Put.run (sha256 : List UInt8 → String) (p : Put) (t : ObjectTree) :
    Exit BlobRaise BlobObject × ObjectTree :=
  match p.method with
  | .immutable data => (putImmutable sha256 p.token data).run p.faults t
  | .stream chunks => (putStream sha256 p.token chunks).run p.faults t

/-- The root after puts one after another, each by a process that opened it anew. -/
def rootAfter (sha256 : List UInt8 → String) (puts : List Put) : ObjectTree :=
  puts.foldl (fun t p => (p.run sha256 t).2) ⟨[], []⟩

end BlobStorage

end NanoAural
