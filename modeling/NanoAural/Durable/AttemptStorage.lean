import Mathlib.Logic.Function.Basic
import NanoAural.Base.FileNames
import NanoAural.Base.Order
import NanoAural.Durable.AttemptKeys

/-!
# Attempt-scoped object storage

The two stores of publication intermediates. `LocalAttemptArtifactStore` is a
directory tree with a journal of the keys that were ever put and one cursor file
for each scan; `InMemoryS3CompatibleAttemptStore` is a dictionary with a list of
those keys and a dictionary of cursors. A call happens at one instant, which is
both the clock's reading and the time the file system stamps on a file; names
that live only within a call are left out.
-/

namespace NanoAural

open Relational

namespace AttemptStorage

open AttemptKeys (components KeyRaise)

/-- What the stores run on: the interpreter's limit on the digits of an integer's text and the file
system's on the bytes of a name, where there are such limits. The longest name no call has a part
in, a temporary's, has 41 bytes. -/
structure Host where
  digits : Option Nat
  nameMax : Option Nat
  names_least : ∀ n ∈ nameMax, 41 ≤ n

/-- CPython on Linux, as they come. -/
def linux : Host := ⟨some 4300, some 255, by simp⟩

/-- What the stores raise. `library` is a `ValueError` like `value`, `fileNotFound` an `OSError`
like `os`, `key` a `KeyError`. -/
inductive StoreRaise where
  | library
  | value (message : String)
  | transition (message : String)
  | runtime (message : String)
  | fileNotFound
  | os
  | key
  deriving DecidableEq, Repr

/-! ## Keys -/

variable (host : Host)

/-- `parse_attempt_key` accepts the key. -/
def isAttemptKey (key : String) : Bool := (AttemptKeys.parseAttemptKey host.digits key).toBool

def keyInvalid : StoreRaise := .value "storage_key must be an exact attempt key"

def differentBytes : StoreRaise := .transition "attempt object key already contains different bytes"

def notRegular : StoreRaise := .runtime "attempt object is not a regular file"

/-- The error, among those of the stores. -/
def StoreRaise.ofKey : KeyRaise → StoreRaise
  | .library => .library
  | .value message => .value message

/-- `parse_attempt_key`, for its error. -/
def parseAttemptKey (key : String) : Except StoreRaise Unit :=
  match AttemptKeys.parseAttemptKey host.digits key with
  | .ok _ => .ok ()
  | .error e => .error (.ofKey e)

/-- The file system takes the name. -/
def Host.takes (name : String) : Bool := FileNames.takes host.nameMax name

/-- A call with the name, which may end in `ENAMETOOLONG`. -/
def Host.takeName (name : String) : Except StoreRaise Unit :=
  if host.takes name then .ok () else .error .os

/-- `_positive_limit`. -/
def positiveLimit (limit : Int) : Except StoreRaise Unit :=
  if limit < 1 then .error (.value "limit must be positive") else .ok ()

/-- `_scan_id`. -/
def checkScanId (scanId : String) : Except StoreRaise Unit :=
  if scanId.isEmpty || !scanId.toList.all (fun c => ('a' ≤ c && c ≤ 'z') || c == '_') then
    .error (.value "scan_id must contain only lowercase letters and underscores")
  else .ok ()

/-- `AttemptObject`. -/
structure AttemptObject where
  storageKey : String
  sizeBytes : Nat
  sha256 : String
  createdAt : Time
  transportEtag : Option String
  deriving DecidableEq, Repr

/-- `AttemptInventoryPage`. -/
structure AttemptInventoryPage where
  objects : List AttemptObject
  scanned : Nat
  nextCursor : Nat
  wrapped : Bool
  deriving DecidableEq, Repr

/-! ## The local store -/

/-- A regular file, with its modification time. -/
structure StoredFile where
  content : List UInt8
  mtime : Time
  deriving DecidableEq, Repr

/-- The directories and files below the root by their path, the text of the journal if there is one,
and the number in each scan's cursor file. -/
structure LocalStore where
  dirs : List String → Bool
  files : List String → Option StoredFile
  journal : Option (List Char)
  cursors : String → Option Nat

/-- A root as the constructor makes it. -/
def LocalStore.empty : LocalStore := ⟨fun _ => false, fun _ => none, none, fun _ => none⟩

/-- `_MAX_INVENTORY_LINE`. -/
def maxInventoryLine : Nat := 512

/-- `readline` of at most so many characters. -/
def readLine : Nat → List Char → List Char
  | 0, _ => []
  | _ + 1, [] => []
  | n + 1, c :: rest => if c == '\n' then [c] else c :: readLine n rest

namespace LocalStore

variable (sha256 : List UInt8 → String) (s : LocalStore)

/-- `os.mkdir`, whose `FileExistsError` is passed over. -/
def makeDirectory (path : List String) : LocalStore :=
  if s.dirs path || (s.files path).isSome then s
  else { s with dirs := Function.update s.dirs path true }

/-- `os.open` with `O_DIRECTORY`. -/
def openDirectory (path : List String) : Except StoreRaise Unit :=
  if s.dirs path then .ok ()
  else if (s.files path).isSome then .error .os
  else .error .fileNotFound

/-- `_parent_fd` with `create=True`, below the directories it has been through. -/
def makeParents : List String → List String → LocalStore → Except StoreRaise Unit × LocalStore
  | _, [], s => (.ok (), s)
  | done, component :: rest, s =>
      match host.takeName component with
      | .error e => (.error e, s)
      | .ok () =>
          let path := done ++ [component]
          let s := s.makeDirectory path
          match s.openDirectory path with
          | .error e => (.error e, s)
          | .ok () => makeParents path rest s

/-- `_parent_fd` with `create=False`. -/
def openParents : List String → List String → Except StoreRaise Unit
  | _, [] => .ok ()
  | done, component :: rest => do
      host.takeName component
      s.openDirectory (done ++ [component])
      openParents (done ++ [component]) rest

/-- The regular file at a path, the last part of which is a UUID. -/
def regular (path : List String) : Except StoreRaise StoredFile :=
  match s.files path with
  | some file => .ok file
  | none => if s.dirs path then .error notRegular else .error .fileNotFound

/-- `_components` and `_parent_fd`, and the file they lead to. -/
def reach (key : String) : Except StoreRaise StoredFile := do
  parseAttemptKey host key
  s.openParents host [] (components key).dropLast
  s.regular (components key)

/-- What `_stat_open` makes of a file. -/
def objectOf (key : String) (file : StoredFile) : AttemptObject :=
  ⟨key, file.content.length, sha256 file.content, file.mtime, none⟩

/-- `_record_inventory`. -/
def recordInventory (key : String) : Except StoreRaise LocalStore :=
  let payload := key.toList ++ ['\n']
  if maxInventoryLine < payload.length then
    .error (.value "attempt key exceeds inventory record bound")
  else .ok { s with journal := some (s.journal.getD [] ++ payload) }

/-- The link of the finished temporary file to its name, or the comparison with what is there. -/
def link (now : Time) (key : String) (content : List UInt8) :
    Except StoreRaise AttemptObject × LocalStore :=
  let path := components key
  if s.dirs path || (s.files path).isSome then
    match s.regular path with
    | .error e => (.error e, s)
    | .ok file =>
        let existing := objectOf sha256 key file
        if existing.sha256 != sha256 content || existing.sizeBytes != content.length then
          (.error differentBytes, s)
        else (.ok existing, s)
  else (.ok (objectOf sha256 key ⟨content, now⟩),
    { s with files := Function.update s.files path (some ⟨content, now⟩) })

/-- `put_stream`. -/
def putStream (now : Time) (key : String) (chunks : List (List UInt8)) :
    Except StoreRaise AttemptObject × LocalStore :=
  match parseAttemptKey host key with
  | .error e => (.error e, s)
  | .ok () =>
      match s.recordInventory key with
      | .error e => (.error e, s)
      | .ok s =>
          match makeParents host [] (components key).dropLast s with
          | (.error e, s) => (.error e, s)
          | (.ok (), s) => s.link sha256 now key chunks.flatten

/-- `open_reader`, with what the reader yields. -/
def openReader (key : String) : Except StoreRaise (List UInt8) :=
  (s.reach host key).map StoredFile.content

/-- `stat`. -/
def stat (key : String) : Except StoreRaise AttemptObject :=
  (s.reach host key).map (objectOf sha256 key)

/-- `delete`. -/
def delete (key : String) : Except StoreRaise Unit × LocalStore :=
  match (do parseAttemptKey host key; s.openParents host [] (components key).dropLast) with
  | .error e => (.error e, s)
  | .ok () =>
      match s.regular (components key) with
      | .error .fileNotFound => (.ok (), s)
      | .error e => (.error e, s)
      | .ok _ => (.ok (), { s with files := Function.update s.files (components key) none })

/-- `_created_at`. -/
def createdAt (key : String) : Except StoreRaise Time := (s.reach host key).map StoredFile.mtime

/-- The object a journal entry leads to, if it is there and older than the cutoff. Every exception
means that there is none. -/
def candidate (cutoff : Time) (key : String) : Option AttemptObject :=
  match s.createdAt host key with
  | .error _ => none
  | .ok created =>
      if cutoff ≤ created then none
      else
        match s.stat host sha256 key with
        | .error _ => none
        | .ok current => if current.createdAt < cutoff then some current else none

/-- The loop of `_inventory_page_from` over the rest of the journal, so many entries at most. The
page is the one so far. -/
def scanLines (cutoff : Time) : Nat → List Char → List String → AttemptInventoryPage →
    Except StoreRaise AttemptInventoryPage
  | 0, _, _, page => .ok page
  | n + 1, rest, seen, page =>
      let line := readLine (maxInventoryLine + 1) rest
      if line.isEmpty then .ok { page with nextCursor := 0, wrapped := true }
      -- longer than a record may be, or without its end
      else if maxInventoryLine < line.length || line.getLast? != some '\n' then
        .error (.runtime "attempt inventory contains an invalid record")
      else
        let key := String.ofList line.dropLast
        let page := { page with
          scanned := page.scanned + 1
          nextCursor := page.nextCursor + line.length }
        -- every line counts as scanned, but a key is listed once
        if !isAttemptKey host key || seen.contains key then
          scanLines cutoff n (rest.drop line.length) seen page
        else
          scanLines cutoff n (rest.drop line.length) (key :: seen)
            { page with objects := page.objects ++ (s.candidate host sha256 cutoff key).toList }

/-- `_inventory_page_from`. -/
def inventoryPageFrom (cutoff : Time) (limit : Nat) (cursor : Nat) :
    Except StoreRaise AttemptInventoryPage :=
  match s.journal with
  | none => .ok ⟨[], 0, 0, true⟩
  | some journal =>
      s.scanLines host sha256 cutoff limit (journal.drop cursor) [] ⟨[], 0, cursor, false⟩

/-- `_cursor_name`. -/
def cursorName (scanId : String) : String := ".attempt-inventory-" ++ scanId ++ ".cursor"

/-- The name a cursor is written under before it is renamed; its digits are a `uuid4().hex`, and it
does not matter which. -/
def temporaryCursor (scanId : String) : String :=
  cursorName scanId ++ (".tmp-" ++ String.ofList (List.replicate 32 '0'))

/-- `inventory_page_before`. -/
def inventoryPageBefore (cutoff : Time) (limit : Int) (scanId : String) :
    Except StoreRaise AttemptInventoryPage × LocalStore :=
  match (do
    positiveLimit limit
    checkScanId scanId
    host.takeName (cursorName scanId)
    let page ← s.inventoryPageFrom host sha256 cutoff limit.toNat ((s.cursors scanId).getD 0)
    host.takeName (temporaryCursor scanId)
    pure page) with
  | .error e => (.error e, s)
  | .ok page =>
      (.ok page, { s with cursors := Function.update s.cursors scanId (some page.nextCursor) })

/-- `found[object_.storage_key] = object_`. -/
def addFound (found : List AttemptObject) (object : AttemptObject) : List AttemptObject :=
  found.filter (·.storageKey != object.storageKey) ++ [object]

/-- The loop of `list_before` over pages of a hundred, so many at most. -/
def listPages (cutoff : Time) : Nat → Nat → List AttemptObject →
    Except StoreRaise (List AttemptObject)
  | 0, _, found => .ok found
  | n + 1, cursor, found => do
      let page ← s.inventoryPageFrom host sha256 cutoff 100 cursor
      let found := page.objects.foldl addFound found
      if page.wrapped then .ok found else listPages cutoff n page.nextCursor found

/-- `list_before`. A page before the last one takes a hundred characters of the journal or more. -/
def listBefore (cutoff : Time) : Except StoreRaise (List AttemptObject) := do
  let found ← s.listPages host sha256 cutoff ((s.journal.getD []).length + 1) 0 []
  .ok (orderBy AttemptObject.storageKey found)

end LocalStore

/-! ## The store in memory -/

/-- `(data, created, etag)`. -/
structure StoredObject where
  data : List UInt8
  created : Time
  etag : String
  deriving DecidableEq, Repr

/-- The dictionaries are lists of their items. -/
structure MemoryStore where
  objects : List (String × StoredObject)
  inventory : List String
  cursors : String → Option Nat

def MemoryStore.empty : MemoryStore := ⟨[], [], fun _ => none⟩

namespace MemoryStore

variable (sha256 : List UInt8 → String) (etag : String → List UInt8 → String) (t : MemoryStore)

/-- `_object`. -/
def objectOf (key : String) (stored : StoredObject) : AttemptObject :=
  ⟨key, stored.data.length, sha256 stored.data, stored.created, some stored.etag⟩

/-- `put_stream`. -/
def putStream (now : Time) (key : String) (chunks : List (List UInt8)) :
    Except StoreRaise AttemptObject × MemoryStore :=
  match parseAttemptKey host key with
  | .error e => (.error e, t)
  | .ok () =>
      let data := chunks.flatten
      let t := { t with inventory := t.inventory ++ [key] }
      match t.objects.lookup key with
      | some existing =>
          if existing.data != data then (.error differentBytes, t)
          else (.ok (objectOf sha256 key existing), t)
      | none =>
          if (etag key data).isEmpty then
            (.error (.value "etag factory must return a non-empty string"), t)
          else
            let stored : StoredObject := ⟨data, now, etag key data⟩
            (.ok (objectOf sha256 key stored), { t with objects := t.objects ++ [(key, stored)] })

/-- `self._objects[storage_key]`. -/
def reach (key : String) : Except StoreRaise StoredObject := do
  parseAttemptKey host key
  match t.objects.lookup key with
  | none => .error .key
  | some stored => .ok stored

/-- `open_reader`. -/
def openReader (key : String) : Except StoreRaise (List UInt8) :=
  (t.reach host key).map StoredObject.data

/-- `stat`. -/
def stat (key : String) : Except StoreRaise AttemptObject :=
  (t.reach host key).map (objectOf sha256 key)

/-- `delete`. -/
def delete (key : String) : Except StoreRaise Unit × MemoryStore :=
  match parseAttemptKey host key with
  | .error e => (.error e, t)
  | .ok () => (.ok (), { t with objects := t.objects.filter (·.1 != key) })

/-- `list_before`. -/
def listBefore (cutoff : Time) : List AttemptObject :=
  orderBy AttemptObject.storageKey
    ((t.objects.filter fun item => item.2.created < cutoff).map fun item =>
      objectOf sha256 item.1 item.2)

/-- The object of a key, if it is there and older than the cutoff. -/
def candidate (cutoff : Time) (key : String) : Option AttemptObject :=
  match t.objects.lookup key with
  | none => none
  | some stored => if stored.created < cutoff then some (objectOf sha256 key stored) else none

/-- The loop of `inventory_page_before` over its keys. -/
def collect (cutoff : Time) : List String → List String → List AttemptObject → List AttemptObject
  | [], _, objects => objects
  | key :: keys, seen, objects =>
      if seen.contains key then collect cutoff keys seen objects
      else collect cutoff keys (key :: seen) (objects ++ (t.candidate sha256 cutoff key).toList)

/-- `inventory_page_before`. -/
def inventoryPageBefore (cutoff : Time) (limit : Int) (scanId : String) :
    Except StoreRaise AttemptInventoryPage × MemoryStore :=
  match (do positiveLimit limit; checkScanId scanId) with
  | .error e => (.error e, t)
  | .ok () =>
      let cursor := (t.cursors scanId).getD 0
      let keys := (t.inventory.drop cursor).take limit.toNat
      let reached := cursor + keys.length
      let wrapped := decide (t.inventory.length ≤ reached)
      let nextCursor := if wrapped then 0 else reached
      (.ok ⟨t.collect sha256 cutoff keys [] [], keys.length, nextCursor, wrapped⟩,
        { t with cursors := Function.update t.cursors scanId (some nextCursor) })

end MemoryStore

/-! ## Calls on either -/

/-- A call on a store. -/
inductive StoreCall where
  | putStream (key : String) (chunks : List (List UInt8))
  | openReader (key : String)
  | stat (key : String)
  | delete (key : String)
  | listBefore (cutoff : Time)
  | inventoryPageBefore (cutoff : Time) (limit : Int) (scanId : String)

/-- What a caller can tell of an answer, whichever store it is from. A cursor is a place in a file
or in a list; the transport's tag is diagnostic. -/
inductive StoreReply where
  | raised (e : StoreRaise)
  | object (o : AttemptObject)
  | content (bytes : List UInt8)
  | deleted
  | listed (objects : List AttemptObject)
  | page (objects : List AttemptObject) (scanned : Nat) (wrapped : Bool)
  deriving DecidableEq, Repr

/-- The object without its transport tag. -/
def AttemptObject.untagged (o : AttemptObject) : AttemptObject := { o with transportEtag := none }

/-- The missing-object errors are one. -/
def StoreRaise.identified : StoreRaise → StoreRaise
  | .key => .fileNotFound
  | e => e

/-- The reply a result is. -/
def replyOf {α : Type} (view : α → StoreReply) : Except StoreRaise α → StoreReply
  | .error e => .raised e.identified
  | .ok a => view a

def viewObject (o : AttemptObject) : StoreReply := .object o.untagged

def viewList (objects : List AttemptObject) : StoreReply :=
  .listed (objects.map AttemptObject.untagged)

def viewPage (p : AttemptInventoryPage) : StoreReply :=
  .page (p.objects.map AttemptObject.untagged) p.scanned p.wrapped

/-- A call on the local store, at an instant. -/
def LocalStore.answer (sha256 : List UInt8 → String) (now : Time) (s : LocalStore) :
    StoreCall → StoreReply × LocalStore
  | .putStream key chunks =>
      let r := s.putStream host sha256 now key chunks
      (replyOf viewObject r.1, r.2)
  | .openReader key => (replyOf .content (s.openReader host key), s)
  | .stat key => (replyOf viewObject (s.stat host sha256 key), s)
  | .delete key =>
      let r := s.delete host key
      (replyOf (fun _ => .deleted) r.1, r.2)
  | .listBefore cutoff => (replyOf viewList (s.listBefore host sha256 cutoff), s)
  | .inventoryPageBefore cutoff limit scanId =>
      let r := s.inventoryPageBefore host sha256 cutoff limit scanId
      (replyOf viewPage r.1, r.2)

/-- A call on the store in memory, at an instant. -/
def MemoryStore.answer (sha256 : List UInt8 → String) (etag : String → List UInt8 → String)
    (now : Time) (t : MemoryStore) : StoreCall → StoreReply × MemoryStore
  | .putStream key chunks =>
      let r := t.putStream host sha256 etag now key chunks
      (replyOf viewObject r.1, r.2)
  | .openReader key => (replyOf .content (t.openReader host key), t)
  | .stat key => (replyOf viewObject (t.stat host sha256 key), t)
  | .delete key =>
      let r := t.delete host key
      (replyOf (fun _ => .deleted) r.1, r.2)
  | .listBefore cutoff => (viewList (t.listBefore sha256 cutoff), t)
  | .inventoryPageBefore cutoff limit scanId =>
      let r := t.inventoryPageBefore sha256 cutoff limit scanId
      (replyOf viewPage r.1, r.2)

/-- The replies of the local store to calls one after another, and what it comes to. -/
def LocalStore.answers (sha256 : List UInt8 → String) :
    LocalStore → List (Time × StoreCall) → List StoreReply × LocalStore
  | s, [] => ([], s)
  | s, (now, call) :: calls =>
      let r := s.answer host sha256 now call
      let rest := LocalStore.answers sha256 r.2 calls
      (r.1 :: rest.1, rest.2)

/-- The same of the store in memory. -/
def MemoryStore.answers (sha256 : List UInt8 → String) (etag : String → List UInt8 → String) :
    MemoryStore → List (Time × StoreCall) → List StoreReply × MemoryStore
  | t, [] => ([], t)
  | t, (now, call) :: calls =>
      let r := t.answer host sha256 etag now call
      let rest := MemoryStore.answers sha256 etag r.2 calls
      (r.1 :: rest.1, rest.2)

/-! ## Puts that are cut short -/

/-- How far a put gets. The journal takes so many characters of the record, and a call whose record
is not taken whole ends there; a later one fails or is cut off after so many of the parent
directories, or comes to the link. A failed write is one that takes nothing. -/
structure PutCut where
  written : Nat
  parents : Option Nat
  deriving DecidableEq, Repr

/-- `put_stream`, as far as it gets. The open of the journal makes the file. -/
def LocalStore.cutPut (sha256 : List UInt8 → String) (now : Time) (s : LocalStore) (key : String)
    (chunks : List (List UInt8)) (cut : PutCut) : LocalStore :=
  match parseAttemptKey host key with
  | .error _ => s
  | .ok () =>
      let payload := key.toList ++ ['\n']
      if maxInventoryLine < payload.length then s
      else
        let s := { s with journal := some (s.journal.getD [] ++ payload.take cut.written) }
        -- a short write raises, and its part of the record stays
        if cut.written < payload.length then s
        else
          match cut.parents with
          | some made => (makeParents host [] ((components key).dropLast.take made) s).2
          | none =>
              match makeParents host [] (components key).dropLast s with
              | (.error _, s) => s
              | (.ok (), s) => (s.link sha256 now key chunks.flatten).2

/-- What happens to a local store: a put that gets so far, or a page of a scan. -/
inductive JournalStep where
  | put (now : Time) (key : String) (chunks : List (List UInt8)) (cut : PutCut)
  | page (cutoff : Time) (limit : Int) (scanId : String)

/-- The store after a step. -/
def LocalStore.journalStep (sha256 : List UInt8 → String) (s : LocalStore) :
    JournalStep → LocalStore
  | .put now key chunks cut => s.cutPut host sha256 now key chunks cut
  | .page cutoff limit scanId => (s.inventoryPageBefore host sha256 cutoff limit scanId).2

/-- The lines of a journal that are complete. -/
def linesOf (journal : List Char) : List String :=
  (journal.splitOn '\n').dropLast.map String.ofList

end AttemptStorage

end NanoAural
