import NanoAural.Durable.UploadWorkflow

/-!
# Publishing artifacts and sweeping attempt objects

`ArtifactPublicationService` carries a worker's candidates through the attempt
store, the validator, the canonical store and the ledger;
`ArtifactOrphanSweeper` takes the attempt objects away again. Both are parties
that run beside each other and beside the queue: a party is a program counter
with its local variables, and one of its steps is one call on a store or on a
repository. A party that is killed is one that begins something else.

The attempt store is the local one: a map from keys to bytes with the journal of
the keys that were ever put and the directories that were made for them. The
checks of the lease between the chunks of a stream are one check before the
effect of the stream, if there is a chunk at all.
-/

namespace NanoAural

open Relational Machine

/-- `_MEDIA_TYPES`. -/
def mediaTypes : List String := ["audio/flac", "audio/mpeg", "audio/wav", "video/mp4"]

/-- Replayable output: what the ledger is asked for, and the bytes of `chunks_factory()`. -/
structure PublicationCandidate extends PublicationSpec where
  content : Bytes
  contentType_media : contentType ∈ mediaTypes

/-- The directory a key lies in, below `attempts`. -/
abbrev AttemptDirectory := Uuid × Uuid × Nat × ArtifactKind

def AttemptKey.directory (k : AttemptKey) : AttemptDirectory :=
  (k.jobId, k.attemptId, k.leaseEpoch, k.kind)

/-- What the service and the sweeper raise: an error of a repository, and their own. -/
inductive ServiceRaise where
  | durable (e : Error)
  /-- `ArtifactRejectedError`. -/
  | rejected (message : String)
  /-- `ArtifactPublicationError`. -/
  | publication (message : String)
  | fileNotFound
  | runtime (message : String)
  deriving DecidableEq, Repr

/-- `except (OSError, RuntimeError, DurableInvariantError, NotFoundError)` of the cleanup after a
publication. -/
def ServiceRaise.passedOver : ServiceRaise → Bool
  | .durable (.invariant _) | .durable (.transition _) | .durable (.conflict _)
  | .durable (.notFound _) | .rejected _ | .publication _ | .fileNotFound | .runtime _ => true
  | .durable (.value _) | .durable (.type _) | .durable (.database _) => false

/-- What the parties are configured with. -/
structure ServiceEnv where
  /-- The hexadecimal SHA-256 of a byte string. -/
  sha256 : Bytes → String
  json : JsonColumn
  /-- The publications under whose keys objects lay before the ledger was there. `uuid4` draws none
  of them. -/
  strange : Uuid → Bool

/-! ## Parties -/

/-- The variables of `publish`: candidates still to advance, and records of those that are done. -/
structure Publishing where
  lease : Lease
  pending : List PublicationCandidate
  records : List PublicationRow

/-- The variables of `sweep`. -/
structure Sweep where
  before : Time
  limit : Nat
  seen : List Uuid
  cleaned : Nat

/-- `max(0, limit - len(seen))`. -/
def Sweep.remaining (s : Sweep) : Nat := s.limit - s.seen.length

def Sweep.see (s : Sweep) (publicationId : Uuid) : Sweep :=
  { s with seen := s.seen.insert publicationId }

def Sweep.count (s : Sweep) (existed : Bool) : Sweep :=
  if existed then { s with cleaned := s.cleaned + 1 } else s

/-- The loop a sweeper is in, with what it has still to go through. -/
inductive SweepLoop where
  | clean (rest : List PublicationRow)
  | keys (rest : List AttemptKey)
  | page (rest known : List AttemptKey)

/-- The errors a loop goes on after. -/
def SweepLoop.passes : SweepLoop → Error → Bool
  | .keys _, .notFound _ => true
  | _, .transition _ => true
  | _, _ => false

/-- The reason a loop abandons a publication for. -/
def SweepLoop.reason : SweepLoop → String
  | .page .. => "orphan_inventory_sweep"
  | _ => "orphan_sweep"

/-- Where a party stands, with the variables it still needs. -/
inductive ServiceStage where
  | idle
  | raised (e : ServiceRaise)
  | published (visible : List VisibleArtifact)
  | swept (cleaned : Nat)
  | publish (lease : Lease) (candidates : List PublicationCandidate)
  /-- Before `assert_current`, and what follows it. -/
  | fence (lease : Lease) (next : ServiceStage)
  | reserve (run : Publishing) (c : PublicationCandidate)
  /-- `put_stream`: before it makes the directories, and before it links the object. -/
  | create (run : Publishing) (c : PublicationCandidate) (record : PublicationRow)
  | link (run : Publishing) (c : PublicationCandidate) (record : PublicationRow)
  | recordObject (run : Publishing) (c : PublicationCandidate) (record : PublicationRow)
  /-- Before the attempt object is opened for the validator, and before the probe. -/
  | validate (run : Publishing) (c : PublicationCandidate) (record : PublicationRow)
  | probe (run : Publishing) (c : PublicationCandidate) (record : PublicationRow)
      (snapshot : Bytes)
  /-- Before it is opened again for the promotion. -/
  | reopen (run : Publishing) (record : PublicationRow) (snapshot : Bytes) (media : MediaInfo)
  /-- Before the canonical store looks for the object, and before it links one. -/
  | promote (run : Publishing) (record : PublicationRow) (snapshot content : Bytes)
      (media : MediaInfo)
  | place (run : Publishing) (record : PublicationRow) (snapshot content : Bytes)
      (media : MediaInfo)
  | recordValidated (run : Publishing) (record : PublicationRow) (object : BlobObject)
      (media : MediaInfo)
  | verify (run : Publishing) (record : PublicationRow)
  | finalize (run : Publishing)
  /-- After `finalize`: before the records are read again, and in the cleanup. -/
  | confirm (rest records : List PublicationRow) (visible : List VisibleArtifact)
  | tidy (records : List PublicationRow) (visible : List VisibleArtifact)
  /-- `delete` of the attempt object: before it looks for the object, and before it unlinks it. -/
  | tidyDelete (current : PublicationRow) (records : List PublicationRow)
      (visible : List VisibleArtifact)
  | tidyUnlink (current : PublicationRow) (records : List PublicationRow)
      (visible : List VisibleArtifact)
  | tidyRecord (current : PublicationRow) (records : List PublicationRow)
      (visible : List VisibleArtifact)
  /-- Before `reject`, and what is raised after it. -/
  | reject (lease : Lease) (record : PublicationRow) (reason : String) (e : ServiceRaise)
  | sweep (before : Time) (limit : Int)
  | clean (s : Sweep) (records : List PublicationRow)
  | orphans (s : Sweep)
  | keys (s : Sweep) (keys : List AttemptKey)
  | inventory (s : Sweep)
  | known (s : Sweep) (inventory : List AttemptKey)
  | page (s : Sweep) (inventory known : List AttemptKey)
  /-- In the body of a loop: before `get`, `abandon`, the `delete` of an object without a record, and
  the three calls of `_delete_record`. -/
  | get (s : Sweep) (key : AttemptKey) (loop : SweepLoop)
  | abandon (s : Sweep) (record : PublicationRow) (loop : SweepLoop)
  | discard (s : Sweep) (key : AttemptKey) (loop : SweepLoop)
  | discardUnlink (s : Sweep) (key : AttemptKey) (loop : SweepLoop)
  | stat (s : Sweep) (record : PublicationRow) (loop : SweepLoop)
  | delete (s : Sweep) (record : PublicationRow) (existed : Bool) (loop : SweepLoop)
  | deleteUnlink (s : Sweep) (record : PublicationRow) (existed : Bool) (loop : SweepLoop)
  | recordCleanup (s : Sweep) (record : PublicationRow) (existed : Bool) (loop : SweepLoop)

/-- Where an operation begins. -/
def ServiceStage.entry : ServiceStage → Bool
  | .idle | .publish .. | .sweep .. => true
  | _ => false

/-- The head of a loop. -/
def SweepLoop.next (s : Sweep) : SweepLoop → ServiceStage
  | .clean rest => .clean s rest
  | .keys rest => .keys s rest
  | .page rest known => .page s rest known

/-- The database, the stores and the parties. -/
structure ServiceWorld where
  db : Db
  attempts : AttemptKey → Option Bytes
  /-- The keys that were ever put, in order. -/
  journal : List AttemptKey
  directories : AttemptDirectory → Bool
  /-- The canonical store, by storage key. -/
  canonical : String → Option Bytes
  /-- What the media probe has read, and for which publication. -/
  probed : List (Uuid × Bytes)
  stages : Nat → ServiceStage

namespace ServiceWorld

variable (env : ServiceEnv)

/-- What a step may find undetermined: fresh identifiers, the probe's verdict, what is old enough in
the inventory. -/
structure Choice where
  publicationId : Uuid
  blobId : Uuid
  artifactId : Uuid → Uuid
  media : Option MediaInfo
  inventory : List AttemptKey

/-- A party moves to a stage. -/
def goto (w : ServiceWorld) (i : Nat) (stage : ServiceStage) : ServiceWorld :=
  { w with stages := Function.update w.stages i stage }

/-- A party has made a repository call: it goes on, or raises. -/
def called {α : Type} (w : ServiceWorld) (i : Nat) (r : Except Error α × Db)
    (next : α → ServiceStage) : ServiceWorld :=
  match r.1 with
  | .error e => goto { w with db := r.2 } i (.raised (.durable e))
  | .ok a => goto { w with db := r.2 } i (next a)

/-- The attempt object of a key is gone. -/
def unlink (w : ServiceWorld) (key : AttemptKey) : ServiceWorld :=
  { w with attempts := Function.update w.attempts key none }

/-- `delete` looks for the object. It raises where there is no directory, and returns where there is
nothing in it. -/
def soughtFor (w : ServiceWorld) (key : AttemptKey) (missing absent present : ServiceStage) :
    ServiceStage :=
  if !w.directories key.directory then missing
  else if (w.attempts key).isNone then absent
  else present

/-- The `os.unlink` of `delete`, which raises if somebody else has unlinked the object first. -/
def unlinked (w : ServiceWorld) (i : Nat) (key : AttemptKey) (missing next : ServiceStage) :
    ServiceWorld :=
  match w.attempts key with
  | none => w.goto i missing
  | some _ => (w.unlink key).goto i next

/-- The chunks of a stream were read under the lease. -/
def streamed (lease : Lease) (content : Bytes) (next : ServiceStage) : ServiceStage :=
  if content.isEmpty then next else .fence lease next

/-- `_record_key`. -/
def recordKey (record : PublicationRow) : Except ServiceRaise AttemptKey :=
  if record.attemptObjectKey.all (· == record.key) then .ok record.key
  else .error (.publication "ledger attempt key differs from server identity")

/-- A step of a loop begins with `_record_key`. -/
def keyed (record : PublicationRow) (next : ServiceStage) : ServiceStage :=
  match recordKey record with
  | .error e => .raised e
  | .ok _ => next

/-! ### `publish` -/

/-- The next candidate, or the checkpoint before `finalize`. -/
def advance (run : Publishing) : ServiceStage :=
  match run.pending with
  | [] => .fence run.lease (.finalize run)
  | c :: rest => .reserve { run with pending := rest } c

/-- The end of `_advance`: a validated record is verified, any other raises. -/
def settle (run : Publishing) (record : PublicationRow) : ServiceStage :=
  match record.state with
  | .validated =>
      if record.observedSha256.isNone || record.observedSizeBytes.isNone then
        .raised (.publication "validated publication lacks content evidence")
      else .verify run record
  | .finalized => .raised
      (.publication "publication already finalized; read the visible winner instead")
  | _ => .raised (.publication "publication is terminal or cannot resume from its current state")

/-- `_advance` after its first case. -/
def recorded (run : Publishing) (c : PublicationCandidate) (record : PublicationRow) :
    ServiceStage :=
  if record.state == .objectWritten then
    if record.attemptObjectKey != some record.key then
      .raised (.publication "ledger attempt key differs from server identity")
    else .fence run.lease (.validate run c record)
  else settle run record

/-- `_advance` after the reservation. -/
def reserved (run : Publishing) (c : PublicationCandidate) (record : PublicationRow) :
    ServiceStage :=
  if record.state == .reserved then .fence run.lease (.create run c record)
  else recorded run c record

/-- `_bounded_candidate_chunks` raises on the way. -/
def unbounded (c : PublicationCandidate) (record : PublicationRow) : Bool :=
  record.maxSizeBytes < c.content.length || c.expectedSizeBytes.any (· < c.content.length)

/-- `_match_expected`. -/
def matchExpected (c : PublicationCandidate) (record : PublicationRow) : Except ServiceRaise Unit :=
  if c.expectedSha256.any (· != env.sha256 c.content) then
    .error (.rejected "attempt object SHA-256 differs from declared evidence")
  else if c.expectedSizeBytes.any (· != c.content.length) then
    .error (.rejected "attempt object size differs from declared evidence")
  else if record.maxSizeBytes < c.content.length then
    .error (.rejected "attempt object exceeds configured size limit")
  else .ok ()

/-- After the attempt write. -/
def written (run : Publishing) (c : PublicationCandidate) (record : PublicationRow) :
    ServiceStage :=
  .fence run.lease (match matchExpected env c record with
    | .error e => .reject run.lease record "object_evidence_mismatch" e
    | .ok () => .recordObject run c record)

/-- The validator's checks before it probes. -/
def evident (record : PublicationRow) (snapshot : Bytes) : Bool :=
  snapshot.length ≤ record.maxSizeBytes && !snapshot.isEmpty
    && record.observedSizeBytes.all (· == snapshot.length)
    && record.observedSha256.all (· == env.sha256 snapshot)

def refused (run : Publishing) (record : PublicationRow) : ServiceStage :=
  .reject run.lease record "artifact_validation_failed"
    (.rejected "attempt object failed validation")

/-- `_iter_chunks` over an object whose size is known. -/
def exact (content : Bytes) (size : Nat) : Except ServiceRaise Unit :=
  if size < content.length then .error (.rejected "artifact changed beyond its validated size")
  else if content.length < size then .error (.rejected "artifact ended before its validated size")
  else .ok ()

/-- The object `put_stream` reports for a byte string. -/
def objectOf (content : Bytes) : BlobObject :=
  ⟨env.sha256 content, content.length, canonicalKey (env.sha256 content)⟩

/-- After the promotion: it must have been what was validated. -/
def promoted (run : Publishing) (record : PublicationRow) (snapshot content : Bytes)
    (media : MediaInfo) : ServiceStage :=
  if env.sha256 content != env.sha256 snapshot || content.length != snapshot.length then
    .reject run.lease record "canonical_promotion_mismatch"
      (.rejected "canonical promotion changed artifact identity")
  else .fence run.lease (.recordValidated run record (objectOf env content) media)

/-- `put_stream` compares what it finds at the key with what it was given. -/
def found (run : Publishing) (record : PublicationRow) (snapshot content existing : Bytes)
    (media : MediaInfo) : ServiceStage :=
  if existing.length != content.length || env.sha256 existing != env.sha256 content then
    .raised (.runtime "immutable blob path contains unexpected bytes")
  else promoted env run record snapshot content media

/-- `dict(validated.metadata)`. -/
def validatorMetadata (media : MediaInfo) : PyValue :=
  .dict [("media_type", .str media.mediaType), ("duration_seconds", .float media.durationSeconds)]

/-- `record_validated` with the record of a promoted object. -/
def recordPromoted (run : Publishing) (record : PublicationRow) (object : BlobObject)
    (media : MediaInfo) (blobId : Uuid) (db : Db) : Except Error PublicationRow × Db :=
  match BlobRecord.checked
      ⟨blobId, object.sha256, object.sizeBytes, object.storageKey, .verified, media.mediaType⟩ with
  | .error e => (.error e, db)
  | .ok blob => NanoAural.recordValidated env.json run.lease record.id record.version blob
      (validatorMetadata media) db

/-- `_verify_validated_canonical`, once the object is open. -/
def verified (run : Publishing) (record : PublicationRow) (content : Bytes) : ServiceStage :=
  match exact content (record.observedSizeBytes.getD 0) with
  | .error e => .raised e
  | .ok () =>
      if record.observedSha256 != some (env.sha256 content) then
        .raised (.publication "validated canonical object differs from ledger")
      else streamed run.lease content (advance { run with records := run.records ++ [record] })

/-- An error in the cleanup after a publication. -/
def overlook (e : ServiceRaise) (records : List PublicationRow) (visible : List VisibleArtifact) :
    ServiceStage :=
  if e.passedOver then .tidy records visible else .raised e

/-! ### `sweep` -/

/-- A repository call in the body of a loop: the loop goes on after some errors. -/
def tried {α : Type} (w : ServiceWorld) (i : Nat) (s : Sweep) (loop : SweepLoop)
    (r : Except Error α × Db) (next : α → ServiceStage) : ServiceWorld :=
  match r.1 with
  | .error e => goto { w with db := r.2 } i
      (if loop.passes e then loop.next s else .raised (.durable e))
  | .ok a => goto { w with db := r.2 } i (next a)

/-- What a loop says of a record under another key. -/
def misplaced : SweepLoop → ServiceRaise
  | .page .. => .publication "inventoried key differs from ledger identity"
  | _ => .publication "orphan key does not match publication identity"

/-- A record was read: a settled one is deleted, an open one abandoned first. -/
def sweepRecord (s : Sweep) (key : AttemptKey) (loop : SweepLoop) (record : PublicationRow) :
    ServiceStage :=
  match recordKey record with
  | .error e => .raised e
  | .ok derived =>
      if derived != key then .raised (misplaced loop)
      else if record.state.open then .abandon s record loop
      else .stat s record loop

/-- `get`, and what the loops make of a publication that is not there. -/
def sweepGet (w : ServiceWorld) (i : Nat) (s : Sweep) (key : AttemptKey) (loop : SweepLoop) :
    ServiceWorld :=
  match (getPublication key.publicationId w.db).1, loop with
  | .ok record, _ => w.goto i (sweepRecord (s.see key.publicationId) key loop record)
  | .error (.notFound _), .page .. => w.goto i (.discard s key loop)
  | .error (.notFound _), _ => w.goto i (loop.next s)
  | .error e, _ => w.goto i (.raised (.durable e))

/-- The head of the loop over orphaned keys. -/
def keysHead (s : Sweep) : List AttemptKey → ServiceStage
  | [] => if s.remaining = 0 then .swept s.cleaned else .inventory s
  | key :: rest =>
      if s.limit ≤ s.seen.length then .keys s []
      else if s.seen.contains key.publicationId then .keys s rest
      else .get s key (.keys rest)

/-- The head of the loop over the inventory. -/
def pageHead (s : Sweep) (known : List AttemptKey) : List AttemptKey → ServiceStage
  | [] => .swept s.cleaned
  | key :: rest =>
      if s.limit ≤ s.seen.length then .swept s.cleaned
      else if known.contains key || s.seen.contains key.publicationId then .page s rest known
      else .get (s.see key.publicationId) key (.page rest known)

/-! ### Steps -/

/-- The next step of party `i`. -/
def act (w : ServiceWorld) (i : Nat) (choice : Choice) : ServiceWorld :=
  match w.stages i with
  | .idle | .raised _ | .published _ | .swept _ => w
  | .fence lease next => w.called i (assertCurrent lease w.db) fun _ => next
  -- `publish`
  | .publish lease candidates => w.goto i
      (if candidates.isEmpty then
        .raised (.durable (.value "publication candidates must not be empty"))
      else if ¬ (candidates.map fun c => c.kind).Nodup then
        .raised (.durable (.value "publication candidate kinds must be unique"))
      else advance ⟨lease, candidates, []⟩)
  | .reserve run c =>
      w.called i (NanoAural.reserve env.json choice.publicationId run.lease c.toPublicationSpec
        w.db) (reserved run c)
  | .create run c record => goto { w with
      journal := w.journal ++ [record.key]
      directories := Function.update w.directories record.key.directory true } i
        (if unbounded c record then .reject run.lease record "object_size_limit"
          (.rejected "publication candidate exceeds its size bound")
        else streamed run.lease c.content (.link run c record))
  | .link run c record =>
      match w.attempts record.key with
      | some existing => w.goto i
          (if env.sha256 existing != env.sha256 c.content || existing.length != c.content.length then
            .raised (.durable (.transition "attempt object key already contains different bytes"))
          else written env run c record)
      | none => goto { w with
          attempts := Function.update w.attempts record.key (some c.content) } i
            (written env run c record)
  | .recordObject run c record =>
      w.called i (NanoAural.recordObject run.lease record.id record.version (env.sha256 c.content)
        c.content.length w.db) (recorded run c)
  | .reject lease record reason e =>
      w.called i (NanoAural.reject lease record.id record.version reason w.db) fun _ => .raised e
  -- `_validate_and_promote`
  | .validate run c record =>
      match w.attempts record.key with
      | none => w.goto i (.reject run.lease record "attempt_object_missing"
          (.publication "attempt object is unavailable"))
      | some snapshot => w.goto i
          (if evident env record snapshot then
            streamed run.lease snapshot (.fence run.lease (.probe run c record snapshot))
          else refused run record)
  | .probe run c record snapshot => goto { w with probed := (record.id, snapshot) :: w.probed } i
      (match choice.media with
        | none => refused run record
        | some media => .fence run.lease
            (if media.mediaType != c.contentType then refused run record
            else .fence run.lease (.reopen run record snapshot media)))
  | .reopen run record snapshot media =>
      match w.attempts record.key with
      | none => w.goto i (.raised .fileNotFound)
      | some content => w.goto i (match exact content snapshot.length with
          | .error e => .reject run.lease record "attempt_object_changed_after_validation" e
          | .ok () => streamed run.lease content (.promote run record snapshot content media))
  | .promote run record snapshot content media =>
      match w.canonical (objectOf env content).storageKey with
      | some existing => w.goto i (found env run record snapshot content existing media)
      | none => w.goto i (.place run record snapshot content media)
  | .place run record snapshot content media =>
      match w.canonical (objectOf env content).storageKey with
      | some existing => w.goto i (found env run record snapshot content existing media)
      | none => goto { w with
          canonical := Function.update w.canonical (objectOf env content).storageKey
            (some content) } i (promoted env run record snapshot content media)
  | .recordValidated run record object media =>
      w.called i (recordPromoted env run record object media choice.blobId w.db) (settle run)
  | .verify run record =>
      match w.canonical (canonicalKey (record.observedSha256.getD "")) with
      | none => w.goto i (.raised (.publication "validated canonical object is unavailable"))
      | some content => w.goto i (verified env run record content)
  | .finalize run =>
      w.called i (NanoAural.finalize env.json choice.artifactId run.lease run.records w.db)
        (.confirm run.records run.records)
  | .confirm [] records visible => w.goto i (.tidy records visible)
  | .confirm (record :: rest) records visible =>
      w.called i (getPublication record.id w.db) fun _ => .confirm rest records visible
  -- `_cleanup_best_effort`
  | .tidy [] visible => w.goto i (.published visible)
  | .tidy (record :: rest) visible => w.goto i
      (match (getPublication record.id w.db).1 with
        | .error e => overlook (.durable e) rest visible
        | .ok current =>
            match recordKey current with
            | .error e => overlook e rest visible
            | .ok _ => .tidyDelete current rest visible)
  | .tidyDelete current rest visible =>
      w.goto i (w.soughtFor current.key (overlook .fileNotFound rest visible)
        (.tidyRecord current rest visible) (.tidyUnlink current rest visible))
  | .tidyUnlink current rest visible =>
      w.unlinked i current.key (overlook .fileNotFound rest visible)
        (.tidyRecord current rest visible)
  | .tidyRecord current rest visible =>
      goto { w with db := (NanoAural.recordCleanup current.id current.version w.db).2 } i
        (match (NanoAural.recordCleanup current.id current.version w.db).1 with
          | .error e => overlook (.durable e) rest visible
          | .ok _ => .tidy rest visible)
  -- `sweep`
  | .sweep before limit =>
      if limit < 1 then w.goto i (.raised (.durable (.value "limit must be positive")))
      else w.called i (cleanupCandidates before limit w.db) (.clean ⟨before, limit.toNat, [], 0⟩)
  | .clean s [] => w.goto i (if s.remaining = 0 then .swept s.cleaned else .orphans s)
  | .clean s (record :: rest) =>
      w.goto i (keyed record (.stat (s.see record.id) record (.clean rest)))
  | .orphans s => w.called i (orphanKeysBefore s.before s.remaining w.db) (.keys s)
  | .keys s keys => w.goto i (keysHead s keys)
  | .inventory s => w.goto i (.known s (choice.inventory.take s.remaining))
  | .known s inventory => w.goto i (.page s inventory (knownAttemptKeys inventory w.db))
  | .page s inventory known => w.goto i (pageHead s known inventory)
  | .get s key loop => w.sweepGet i s key loop
  | .abandon s record loop =>
      w.tried i s loop (NanoAural.abandon record.id record.version loop.reason w.db)
        fun abandoned => keyed abandoned (.stat s abandoned loop)
  | .discard s key loop =>
      w.goto i (w.soughtFor key (.raised .fileNotFound) (loop.next (s.count true))
        (.discardUnlink s key loop))
  | .discardUnlink s key loop =>
      w.unlinked i key (.raised .fileNotFound) (loop.next (s.count true))
  -- `_delete_record`
  | .stat s record loop => w.goto i (.delete s record
      (w.directories record.key.directory && (w.attempts record.key).isSome) loop)
  | .delete s record existed loop =>
      w.goto i (w.soughtFor record.key (.raised .fileNotFound)
        (.recordCleanup s record existed loop) (.deleteUnlink s record existed loop))
  | .deleteUnlink s record existed loop =>
      w.unlinked i record.key (.raised .fileNotFound) (.recordCleanup s record existed loop)
  | .recordCleanup s record existed loop =>
      w.tried i s loop (NanoAural.recordCleanup record.id record.version w.db) fun _ =>
        loop.next (s.count existed)

end ServiceWorld

/-! ## The system -/

/-- The calls of the queue's repository, and the passing of time. The ledger's are made by the
parties. -/
def Call.isQueue : Call → Bool
  | .tick _ | .claimNext .. | .assertCurrent _ | .cancellationRequested _ | .loadReadyDeployment ..
  | .loadVerifiedInputEvidence .. | .heartbeat .. | .requestCancel _ | .cancelCurrent ..
  | .failRetryable .. | .reapExpired .. => true
  | .reserve .. | .recordObject .. | .recordValidated .. | .reject .. | .abandon ..
  | .recordCleanup .. | .finalize .. => false

/-- What can happen next. -/
inductive ServiceStep (env : ServiceEnv) (w : ServiceWorld) : ServiceWorld → Prop where
  /-- Somebody calls the queue, or time passes. -/
  | queue (c : Call) (h : c.isQueue = true) :
      ServiceStep env w { w with db := (c.run env.json w.db).2 }
  /-- Somebody else promotes a byte string to the canonical store. -/
  | promote (content : Bytes)
      (hfree : w.canonical (canonicalKey (env.sha256 content)) = none) : ServiceStep env w
      { w with canonical :=
        Function.update w.canonical (canonicalKey (env.sha256 content)) (some content) }
  /-- A party begins an operation, or is killed in the one it was in. -/
  | start (i : Nat) (stage : ServiceStage) (h : stage.entry = true) :
      ServiceStep env w (w.goto i stage)
  /-- The inventory lists keys of the journal. -/
  | act (i : Nat) (choice : ServiceWorld.Choice) (hfresh : env.strange choice.publicationId = false)
      (hlisted : ∀ key ∈ choice.inventory, key ∈ w.journal) :
      ServiceStep env w (w.act env i choice)

/-- A deployment before its first claim: attempt objects are older than the ledger. -/
structure ServiceWorld.Initial (env : ServiceEnv) (w : ServiceWorld) : Prop where
  db : Registered w.db
  journal : ∀ key ∈ w.journal, env.strange key.publicationId = true
    ∧ w.directories key.directory = true
  attempts : ∀ key content, w.attempts key = some content → key ∈ w.journal
  stages : ∀ i, w.stages i = .idle

/-- Every interleaving of the parties. -/
def serviceSystem (env : ServiceEnv) : System ServiceWorld where
  init := ServiceWorld.Initial env
  step := ServiceStep env

end NanoAural
