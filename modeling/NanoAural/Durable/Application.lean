import NanoAural.Base.Dialogues
import NanoAural.Durable.EventPages
import NanoAural.Durable.PostgresRepository

/-!
# The application service

`ApplicationService` over its protocols `JobApplicationRepository` and
`VisibleArtifactCatalog`, and `PostgresApplicationRepository` and
`PublishedArtifactCatalog`, which implement them over the database. Anything may happen
between two transactions, so a request is a dialogue with one change a transaction: what
is read back after a commit is what the others have made of it by then.
-/

namespace NanoAural

open Relational Dialogues

/-! ## Requests -/

/-- `_PROHIBITED_REQUEST_KEYS`. -/
def prohibitedRequestKeys : List String :=
  ["device", "module", "python_module", "source_dir", "weights_dir", "weights_path"]

/-- A key, in lower case, that no remote request may have. -/
def prohibitedKey (normalized : String) : Bool :=
  prohibitedRequestKeys.contains normalized
    || "_path".toList.isSuffixOf normalized.toList

mutual

/-- `_validate_remote_value`; `lower` is `str.lower`. -/
def validateRemoteValue (lower : String → String) : PyValue → Except ApplicationError Unit
  | .null | .bool _ | .int _ | .str _ => pure ()
  | .float repr =>
      raiseIf (nonFinite.contains repr)
        (.invalidRequest "request cannot contain non-finite numbers")
  | .dict entries => validateRemoteEntries lower entries
  | .list items | .tuple items => validateRemoteItems lower items

def validateRemoteItems (lower : String → String) : List PyValue → Except ApplicationError Unit
  | [] => pure ()
  | item :: items => do
      validateRemoteValue lower item
      validateRemoteItems lower items

def validateRemoteEntries (lower : String → String) :
    List (String × PyValue) → Except ApplicationError Unit
  | [] => pure ()
  | (key, item) :: entries => do
      raiseIf (prohibitedKey (lower key))
        (.invalidRequest "request contains a prohibited server-local field")
      validateRemoteValue lower item
      validateRemoteEntries lower entries

end

/-- A request of the service and its arguments. -/
inductive ApiRequest where
  | submit (command : Submission)
  | getJob (jobId : Uuid)
  | cancel (jobId : Uuid)
  | events (jobId : Uuid) (cursor : Option String) (limit : Int)
  | artifacts (jobId : Uuid)
  | download (jobId artifactId : Uuid)

/-! ## Answers -/

/-- `JobView`. -/
structure JobView where
  jobId : Uuid
  namespaceId : String
  state : JobState
  cancelRequested : Bool
  winningAttemptId : Option Uuid
  deriving DecidableEq

def JobView.fromRecord (job : JobRecord) : JobView :=
  ⟨job.jobId, job.namespaceId, job.state, job.cancelRequested, job.winningAttemptId⟩

/-- `ArtifactView`. -/
structure ArtifactView where
  artifactId : Uuid
  kind : ArtifactKind
  sha256 : String
  sizeBytes : Nat
  contentType : String
  deriving DecidableEq

def ArtifactView.fromVisible (artifact : VisibleArtifact) : ArtifactView :=
  ⟨artifact.artifactId, artifact.kind, artifact.sha256, artifact.sizeBytes, artifact.contentType⟩

/-- What the service returns. A download's reader is that of the object under `storageKey`. -/
inductive ApiAnswer where
  | job (view : JobView)
  | events (page : EventPage)
  | artifacts (views : List ArtifactView)
  | download (artifact : ArtifactView) (storageKey : String)

/-! ## The protocols -/

/-- What is being served, one transaction after the other. -/
abbrev Serving (ε σ α : Type) := ExceptT ε (Dialogue Uuid σ) α

/-- `JobApplicationRepository` and `VisibleArtifactCatalog`, over a state. -/
structure JobApplicationRepository (σ : Type) where
  createJob : Submission → Serving Error σ JobRecord
  getJob : Uuid → σ → Except Error JobRecord
  requestCancel : Uuid → Serving Error σ JobRecord
  listEvents : Uuid → Option String → Int → σ → Except Error (List EventRecord)
  listVisible : Uuid → σ → List VisibleArtifact

section Service

variable {ε σ : Type}

/-- Go on with a value, or raise. -/
def conclude {α : Type} (x : Except ε α) : Serving ε σ α :=
  ExceptT.mk (.answer x)

/-- A look at the state. -/
def query {α : Type} (q : σ → α) : Serving ε σ α :=
  ExceptT.mk (.transact (fun _ s => s) fun _ s => .answer (.ok (q s)))

/-- A call of the repository that writes. What it raises is let through. -/
def invoke {α : Type} (call : Serving Error σ α) : Serving ApplicationError σ α :=
  ExceptT.mk (call.run >>= fun r => .answer (r.mapError .durable))

variable (repository : JobApplicationRepository σ) (lower casefold : String → String)
  (caller : Caller)

namespace ApplicationService

/-- `_owned_job`. -/
def ownedJob (jobId : Uuid) (scope : String) : Serving ApplicationError σ JobRecord := do
  conclude (requireScope caller scope)
  let found ← query (repository.getJob jobId)
  conclude (NanoAural.ownedJob caller found scope)

/-- `submit`. -/
def submit (command : Submission) : Serving ApplicationError σ JobView := do
  conclude (requireScope caller "jobs:submit")
  conclude (raiseIf (!caller.allowsNamespace command.namespaceId)
    (.resourceNotFound "namespace not found"))
  conclude (validateRemoteValue lower command.request)
  let job ← invoke (repository.createJob command)
  conclude (raiseIf (job.namespaceId != command.namespaceId)
    (.runtime "repository returned a job from another namespace"))
  pure (JobView.fromRecord job)

/-- `get_job`. -/
def getJob (jobId : Uuid) : Serving ApplicationError σ JobView := do
  let job ← ownedJob repository caller jobId "jobs:read"
  pure (JobView.fromRecord job)

/-- `cancel`. -/
def cancel (jobId : Uuid) : Serving ApplicationError σ JobView := do
  let job ← ownedJob repository caller jobId "jobs:cancel"
  let updated ← invoke (repository.requestCancel job.jobId)
  conclude (raiseIf (updated.namespaceId != job.namespaceId)
    (.runtime "repository cancellation crossed namespace boundary"))
  pure (JobView.fromRecord updated)

/-- The checks of `events` before it looks for the job. -/
def checkPage (cursor : Option String) (limit : Int) : Except ApplicationError Unit := do
  raiseIf (cursor.any fun cursor => !canonicalDecimal cursor)
    (.invalidRequest "event cursor is invalid")
  raiseIf (limit < 1 || 100 < limit) (.invalidRequest "event limit must be between 1 and 100")

/-- `events`: the page of what the repository lists. -/
def events (jobId : Uuid) (cursor : Option String) (limit : Int) :
    Serving ApplicationError σ EventPage := do
  conclude (checkPage cursor limit)
  let job ← ownedJob repository caller jobId "jobs:read"
  let listed ← query (repository.listEvents job.jobId cursor (limit + 1))
  conclude (eventPage casefold caller (.ok job) (fun _ _ _ => listed) cursor limit)

/-- What `_visible` keeps of the catalog's list. -/
def legalArtifacts (job : JobRecord) (visible : List VisibleArtifact) :
    Except ApplicationError (List VisibleArtifact) := do
  let legal := visible.filter fun item =>
    item.jobId == job.jobId && some item.attemptId == job.winningAttemptId
  raiseIf (!decide (legal.map VisibleArtifact.artifactId).Nodup)
    (.runtime "artifact catalog returned duplicate visible ids")
  pure legal

/-- `_visible`. -/
def visible (job : JobRecord) : Serving ApplicationError σ (List VisibleArtifact) :=
  if job.state != .succeeded || job.winningAttemptId.isNone then pure []
  else do
    let listed ← query (repository.listVisible job.jobId)
    conclude (legalArtifacts job listed)

/-- `artifacts`. -/
def artifacts (jobId : Uuid) : Serving ApplicationError σ (List ArtifactView) := do
  let job ← ownedJob repository caller jobId "artifacts:read"
  let items ← visible repository job
  pure (items.map ArtifactView.fromVisible)

/-- The one item of a list, or an exception. -/
def theOnly (items : List VisibleArtifact) (e : ApplicationError) :
    Except ApplicationError VisibleArtifact :=
  match items with
  | [item] => .ok item
  | _ => .error e

/-- The object that `open_reader` opens: the evidence is looked up once more. -/
def openReader (artifact : VisibleArtifact) : Serving ApplicationError σ String := do
  let listed ← query (repository.listVisible artifact.jobId)
  let item ← conclude (theOnly (listed.filter fun item => item.artifactId == artifact.artifactId
      && item.attemptId == artifact.attemptId && item.sha256 == artifact.sha256
      && item.storageKey == artifact.storageKey)
    (.durable (.notFound "visible artifact evidence is stale or invalid")))
  pure item.storageKey

/-- `download`. -/
def download (jobId artifactId : Uuid) : Serving ApplicationError σ (ArtifactView × String) := do
  let job ← ownedJob repository caller jobId "artifacts:read"
  let items ← visible repository job
  let artifact ← conclude (theOnly (items.filter (·.artifactId == artifactId))
    (.resourceNotFound "artifact not found"))
  let storageKey ← openReader repository artifact
  pure (ArtifactView.fromVisible artifact, storageKey)

/-- A request of a caller. -/
def serve : ApiRequest → Serving ApplicationError σ ApiAnswer
  | .submit command => ApiAnswer.job <$> submit repository lower caller command
  | .getJob jobId => ApiAnswer.job <$> getJob repository caller jobId
  | .cancel jobId => ApiAnswer.job <$> cancel repository caller jobId
  | .events jobId cursor limit =>
      ApiAnswer.events <$> events repository casefold caller jobId cursor limit
  | .artifacts jobId => ApiAnswer.artifacts <$> artifacts repository caller jobId
  | .download jobId artifactId =>
      (fun r => ApiAnswer.download r.1 r.2) <$> download repository caller jobId artifactId

end ApplicationService

end Service

/-! ## The database behind the protocols -/

/-- A row of `job_events` as it is listed. Its payload is what was written with it: one of its
job, its attempt and its type. -/
def EventRow.logged (payload : Uuid → Option Uuid → EventType → PyValue) (e : EventRow) :
    Option LoggedEvent :=
  if h : 0 < e.id ∧ e.id < 2 ^ 63 then
    some { id := e.id
           jobId := e.jobId
           attemptId := e.attemptId
           eventType := e.eventType.value
           payload := payload e.jobId e.attemptId e.eventType
           id_pos := h.1
           id_lt := h.2 }
  else none

/-- A transaction of a call, and the fresh `uuid4()` drawn for it. -/
def transacted {α : Type} (rows : Uuid → Sql α) : Serving Error Db (Uuid × α) :=
  ExceptT.mk (.transact (fun id db => (commit (rows id) db).2) fun id db =>
    .answer ((commit (rows id) db).1.map (id, ·)))

namespace PostgresApplication

/-- `get_job`, in between other calls. -/
def getJob (jobId : Uuid) : Serving Error Db JobRecord := do
  let found ← query (NanoAural.getJob jobId)
  conclude found

/-- `create_job`: a new job is read back after the commit. -/
def createJob (digest : CanonicalRequest → String) (json : JsonColumn) (sub : Submission) :
    Serving Error Db JobRecord := do
  let hash ← conclude (sub.admissible digest)
  let made ← transacted fun id => createJobRows json id sub hash
  match made.2 with
  | some existing => pure existing
  | none => getJob made.1

/-- `request_cancel`: the job is read back after the commit. -/
def requestCancel (jobId : Uuid) : Serving Error Db JobRecord := do
  let _ ← transacted fun _ => requestCancelRows jobId
  getJob jobId

end PostgresApplication

/-- `PostgresApplicationRepository` and `PublishedArtifactCatalog`. -/
def postgresApplication (digest : CanonicalRequest → String) (json : JsonColumn)
    (payload : Uuid → Option Uuid → EventType → PyValue) : JobApplicationRepository Db where
  createJob := PostgresApplication.createJob digest json
  getJob := NanoAural.getJob
  requestCancel := PostgresApplication.requestCancel
  listEvents jobId cursor limit db :=
    NanoAural.listEvents (db.events.rows.filterMap (EventRow.logged payload)) jobId cursor limit
  listVisible jobId := visibleWinner jobId none

/-- The service for a caller, over the database. -/
def handleRequest (digest : CanonicalRequest → String) (json : JsonColumn)
    (payload : Uuid → Option Uuid → EventType → PyValue) (lower casefold : String → String)
    (caller : Caller) (request : ApiRequest) :
    Dialogue Uuid Db (Except ApplicationError ApiAnswer) :=
  (ApplicationService.serve (postgresApplication digest json payload) lower casefold caller
    request).run

/-- The requests of all callers beside every call of the repository, the queue and the ledger. -/
def applicationSystem {ι : Type} [DecidableEq ι] (digest : CanonicalRequest → String)
    (json : JsonColumn) (payload : Uuid → Option Uuid → EventType → PyValue)
    (lower casefold : String → String) (callers : ι → Caller) :
    Machine.System (Desk ι Uuid Db ApiRequest (Except ApplicationError ApiAnswer)) :=
  server (repositorySystem digest json).init (repositorySystem digest json).Runs fun i =>
    handleRequest digest json payload lower casefold (callers i)

end NanoAural
