import Mathlib.Algebra.Group.Int.Defs
import Mathlib.Data.List.Basic
import Mathlib.Data.List.Infix
import NanoAural.Base.Order
import NanoAural.Durable.Domain

/-!
# The pages of a job's event log

`ApplicationService.events` over `PostgresApplicationRepository.list_events`, and
what both need of the application boundary: its errors, the caller's rights, the
view of an event that leaves the system. The log is `job_events` in commit order.
-/

namespace NanoAural

open Relational

/-! ## The boundary -/

/-- What the application boundary raises: its own errors, and those it lets through. -/
inductive ApplicationError where
  | accessDenied (message : String)
  | authenticationFailed (message : String)
  | resourceNotFound (message : String)
  | invalidRequest (message : String)
  | runtime (message : String)
  | durable (error : Error)
  deriving DecidableEq, Repr

/-- What the authorization policy says of a principal. -/
structure Caller where
  hasScope : String → Bool
  allowsNamespace : String → Bool

/-- `_scope`. -/
def requireScope (caller : Caller) (scope : String) : Except ApplicationError Unit :=
  raiseIf (!caller.hasScope scope) (.accessDenied "required scope is missing")

/-- `_owned_job`, of what the repository answers. -/
def ownedJob (caller : Caller) (found : Except Error JobRecord) (scope : String) :
    Except ApplicationError JobRecord := do
  requireScope caller scope
  match found with
  | .error (.notFound _) => .error (.resourceNotFound "job not found")
  | .error e => .error (.durable e)
  | .ok job => do
      raiseIf (!caller.allowsNamespace job.namespaceId) (.resourceNotFound "job not found")
      pure job

/-! ## Events -/

def EventType.value : EventType → String
  | .jobCreated => "job_created"
  | .attemptStarted => "attempt_started"
  | .cancelRequested => "cancel_requested"
  | .attemptCancelled => "attempt_cancelled"
  | .attemptFailed => "attempt_failed"
  | .attemptRequeued => "attempt_requeued"
  | .jobSucceeded => "job_succeeded"

def EventType.all : List EventType :=
  [.jobCreated, .attemptStarted, .cancelRequested, .attemptCancelled, .attemptFailed,
    .attemptRequeued, .jobSucceeded]

/-- A row of `job_events`; its identifier is a BIGSERIAL. -/
structure LoggedEvent where
  id : Nat
  jobId : Uuid
  attemptId : Option Uuid
  eventType : String
  payload : PyValue
  id_pos : 0 < id
  id_lt : id < 2 ^ 63

/-- `JobEventRecord`, as `list_events` returns it. -/
structure EventRecord where
  eventId : String
  jobId : Uuid
  eventType : EventType
  attemptId : Option Uuid
  payload : List (String × PyValue)
  deriving DecidableEq

/-- A text that is a decimal number as `str` writes it, of 20 digits at most. -/
def canonicalDecimal (cursor : String) : Bool :=
  cursor.toList.length ≤ 20 && !cursor.toList.isEmpty && cursor.toList.all Char.isDigit
    && cursor == toString (Nat.ofDigitChars 10 cursor.toList 0)

/-- The record of a row whose type the code knows. -/
def LoggedEvent.record (r : LoggedEvent) : Option EventRecord :=
  (EventType.all.find? fun t => t.value == r.eventType).map fun eventType =>
    { eventId := toString r.id
      jobId := r.jobId
      eventType
      attemptId := r.attemptId
      payload := match r.payload with
        | .dict entries => entries
        | _ => [] }

/-- `list_events`: the rows of a job behind a cursor whose type is known, by identifier. -/
def listEvents (log : List LoggedEvent) (jobId : Uuid) (afterEventId : Option String) (limit : Int) :
    Except Error (List EventRecord) := do
  raiseIf (afterEventId.any fun cursor => !canonicalDecimal cursor)
    (.value "event cursor must be a canonical decimal id")
  raiseIf (limit < 1 || 101 < limit) (.value "event limit must be between 1 and 101")
  let cursor := match afterEventId with
    | some cursor => Nat.ofDigitChars 10 cursor.toList 0
    | none => 0
  let rows := log.filter fun r => r.jobId == jobId && cursor < r.id
    && (EventType.all.map EventType.value).contains r.eventType
  pure (((orderBy LoggedEvent.id rows).take limit.toNat).filterMap LoggedEvent.record)

/-! ## What leaves the system -/

/-- `EventView`. -/
structure EventView where
  eventId : String
  eventType : EventType
  attemptId : Option Uuid
  payload : List (String × PyValue)
  deriving DecidableEq

/-- `_safe_text`; `casefold` is `str.casefold`. -/
def safeText (casefold : String → String) (limit : Nat) : PyValue → Bool
  | .str value =>
      !value.toList.isEmpty && value.toList.length ≤ limit
        && !(["/", "\\", "bearer", "token", "secret", "password", "authorization"].any fun marker =>
            decide (marker.toList <:+: (casefold value).toList))
  | _ => false

/-- `EventView.from_record`: the payload's fields that may leave, under their names. -/
def EventView.fromRecord (casefold : String → String) (event : EventRecord) : EventView :=
  let field (name : String) := (event.payload.lookup name).getD .null
  let text (name : String) (limit : Nat) :=
    if safeText casefold limit (field name) then [(name, field name)] else []
  let number (name : String) := match field name with
    | .int n => if 0 ≤ n ∧ n ≤ 2 ^ 63 - 1 then [(name, PyValue.int n)] else []
    | _ => []
  -- one unknown kind, and the field is left out
  let kinds := match field "artifact_kinds" with
    | .list items | .tuple items =>
        if items.all fun item => item == .str "output" || item == .str "manifest" then
          [("artifact_kinds", PyValue.tuple items)]
        else []
    | _ => []
  { eventId := event.eventId
    eventType := event.eventType
    attemptId := event.attemptId
    payload := text "reason" 256 ++ number "attempt_no" ++ number "lease_epoch"
      ++ text "retry_not_before" 64 ++ kinds }

/-- `EventPage`. -/
structure EventPage where
  events : List EventView
  nextCursor : Option String

/-- `ApplicationService.events`; `found` is what `get_job` answers, `list` what `list_events`
does. -/
def eventPage (casefold : String → String) (caller : Caller) (found : Except Error JobRecord)
    (list : Uuid → Option String → Int → Except Error (List EventRecord)) (cursor : Option String)
    (limit : Int) : Except ApplicationError EventPage := do
  raiseIf (cursor.any fun cursor => !canonicalDecimal cursor)
    (.invalidRequest "event cursor is invalid")
  raiseIf (limit < 1 || 100 < limit)
    (.invalidRequest "event limit must be between 1 and 100")
  let job ← ownedJob caller found "jobs:read"
  -- one row more than is shown tells whether anything follows
  match list job.jobId cursor (limit + 1) with
  | .error e => .error (.durable e)
  | .ok events => do
      raiseIf (events.any fun event => event.jobId != job.jobId)
        (.runtime "repository returned an event for another job")
      let visible := events.take limit.toNat
      pure
        { events := visible.map (EventView.fromRecord casefold)
          nextCursor :=
            if limit.toNat < events.length then visible.getLast?.map EventRecord.eventId
            else none }

end NanoAural
