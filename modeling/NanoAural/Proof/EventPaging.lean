import NanoAural.Base.Paging
import NanoAural.Durable.EventPages

/-!
# Event pages lose and repeat nothing

A job's events are read page by page while the log grows. Whatever the limits of the
pages, what they return together is the job's events up to the last one returned, and
all of them once no cursor is left; a log that stops growing is read to its end.

The table takes any text as an event's type. Rows of a type the code does not know are no
events of the application: they lie between the others, and no page shows or counts them.
-/

namespace NanoAural

open Relational

/-! ## The log -/

/-- `job_events` in commit order: identifiers ascend within a job. -/
structure EventLog where
  rows : List LoggedEvent
  ascending : ∀ jobId, Paging.Ascending LoggedEvent.id (rows.filter (·.jobId == jobId))

/-- The row's type is an `EventType`. -/
def LoggedEvent.known (r : LoggedEvent) : Bool :=
  (EventType.all.map EventType.value).contains r.eventType

/-- The events of one job. -/
def EventLog.ofJob (log : EventLog) (jobId : Uuid) : List LoggedEvent :=
  log.rows.filter fun r => r.jobId == jobId && r.known

theorem EventLog.ofJob_ascending (log : EventLog) (jobId : Uuid) :
    Paging.Ascending LoggedEvent.id (log.ofJob jobId) := by
  unfold EventLog.ofJob
  rw [← List.filter_filter]
  exact (log.ascending jobId).sublist (List.filter_sublist.filter _)

/-- Events were appended. -/
def EventLog.Grows (log log' : EventLog) : Prop := ∃ later, log'.rows = log.rows ++ later

theorem EventLog.Grows.ofJob {log log' : EventLog} (h : log.Grows log') (jobId : Uuid) :
    ∃ later, log'.ofJob jobId = log.ofJob jobId ++ later := by
  obtain ⟨later, hlater⟩ := h
  exact ⟨later.filter fun r => r.jobId == jobId && r.known, by
    rw [EventLog.ofJob, EventLog.ofJob, hlater, List.filter_append]⟩

/-- What a page shows of a row. -/
def LoggedEvent.view (casefold : String → String) (r : LoggedEvent) : Option EventView :=
  r.record.map (EventView.fromRecord casefold)

/-! ## Types and cursors as texts -/

theorem LoggedEvent.record_of_known {r : LoggedEvent} (h : r.known = true) :
    ∃ event, r.record = some event ∧ event.eventId = toString r.id ∧ event.jobId = r.jobId := by
  obtain ⟨t, ht, hvalue⟩ := List.mem_map.mp (List.contains_iff_mem.mp h)
  have hfound : (EventType.all.find? fun t => t.value == r.eventType).isSome := by
    rw [List.find?_isSome]
    exact ⟨t, ht, by rw [hvalue, beq_self_eq_true]⟩
  obtain ⟨t', ht'⟩ := Option.isSome_iff_exists.mp hfound
  exact ⟨_, by rw [LoggedEvent.record, ht']; rfl, rfl, rfl⟩

theorem decimal_toString (n : Nat) : Nat.ofDigitChars 10 (toString n).toList 0 = n := by
  rw [Nat.toString_eq_repr, Nat.toList_repr, Nat.ofDigitChars_toDigits (by omega) (by omega)]

theorem canonicalDecimal_toString {n : Nat} (h : n < 2 ^ 63) : canonicalDecimal (toString n) = true := by
  have hlist : (toString n).toList = Nat.toDigits 10 n := by
    rw [Nat.toString_eq_repr, Nat.toList_repr]
  have hlength : (Nat.toDigits 10 n).length ≤ 20 :=
    (Nat.length_toDigits_le_iff (by omega) (by omega)).mpr (Nat.lt_of_lt_of_le h (by decide))
  have hdigits : (Nat.toDigits 10 n).all Char.isDigit = true :=
    List.all_eq_true.mpr fun c hc => Nat.isDigit_of_mem_toDigits (by omega) (by omega) hc
  unfold canonicalDecimal
  rw [decimal_toString, hlist, hdigits, beq_self_eq_true]
  simp [hlength, Nat.toDigits_ne_nil]

/-! ## One page -/

/-- The rows the statement selects, before the limit. -/
theorem selected_eq {log : EventLog} {jobId : Uuid} {cursor : Option Nat} :
    orderBy LoggedEvent.id (log.rows.filter fun r => r.jobId == jobId && cursor.getD 0 < r.id
        && (EventType.all.map EventType.value).contains r.eventType)
      = Paging.after LoggedEvent.id cursor (log.ofJob jobId) := by
  have hrows : (log.rows.filter fun r => r.jobId == jobId && cursor.getD 0 < r.id
        && (EventType.all.map EventType.value).contains r.eventType)
      = Paging.after LoggedEvent.id cursor (log.ofJob jobId) := by
    unfold Paging.after EventLog.ofJob
    rw [List.filter_filter]
    refine List.filter_congr fun r _ => ?_
    have hbehind : decide (cursor.getD 0 < r.id) = cursor.all fun c => decide (c < r.id) := by
      cases cursor with
      | none => exact decide_eq_true r.id_pos
      | some c => rfl
    rw [hbehind, LoggedEvent.known, Bool.and_right_comm, Bool.and_comm]
  rw [hrows]
  refine orderBy_eq (.refl _) (List.pairwise_map.mpr ?_)
  exact (log.ofJob_ascending jobId).sublist List.filter_sublist

/-- A job's rows behind the cursor are found in order, whatever other rows there are. -/
theorem listEvents_ok {log : EventLog} {jobId : Uuid} {cursor : Option Nat} {limit : Int}
    (hcursor : ∀ n, cursor = some n → n < 2 ^ 63) (hlow : 1 ≤ limit) (hhigh : limit ≤ 101) :
    listEvents log.rows jobId (cursor.map toString) limit
      = .ok (((Paging.after LoggedEvent.id cursor (log.ofJob jobId)).take limit.toNat).filterMap
          LoggedEvent.record) := by
  have hcanonical : ((cursor.map toString).any fun c => !canonicalDecimal c) = false := by
    cases cursor with
    | none => rfl
    | some n =>
        show (!canonicalDecimal (toString n)) = false
        rw [canonicalDecimal_toString (hcursor n rfl)]
        rfl
  have hlimit : (limit < 1 || 101 < limit) = false := by
    rw [Bool.or_eq_false_iff, decide_eq_false_iff_not, decide_eq_false_iff_not]
    omega
  unfold listEvents
  rw [hcanonical, ← selected_eq]
  refine raiseIf_bind_ok.mpr ⟨rfl, raiseIf_bind_ok.mpr ⟨hlimit, ?_⟩⟩
  cases cursor with
  | none => rfl
  | some n =>
      show pure _ = Except.ok _
      simp only [Option.map_some, decimal_toString, Option.getD_some]
      rfl

/-- The events of a job have a record each. -/
theorem LoggedEvent.records : ∃ f : LoggedEvent → EventRecord,
    ∀ rows : List LoggedEvent, (∀ r ∈ rows, r.known = true) →
      rows.filterMap LoggedEvent.record = rows.map f
        ∧ ∀ r ∈ rows, r.record = some (f r) ∧ (f r).eventId = toString r.id
          ∧ (f r).jobId = r.jobId := by
  let f : LoggedEvent → EventRecord := fun r => r.record.getD ⟨"", 0, .jobCreated, none, []⟩
  have hf : ∀ r : LoggedEvent, r.known = true → r.record = some (f r)
      ∧ (f r).eventId = toString r.id ∧ (f r).jobId = r.jobId := by
    intro r hr
    obtain ⟨event, hevent, hid, hjob⟩ := LoggedEvent.record_of_known hr
    have hfr : f r = event := by simp only [f, hevent, Option.getD_some]
    exact ⟨hfr ▸ hevent, hfr ▸ hid, hfr ▸ hjob⟩
  refine ⟨f, fun rows hrows => ⟨?_, fun r hr => hf r (hrows r hr)⟩⟩
  rw [List.filterMap_congr (g := fun r => some (f r)) fun r hr => (hf r (hrows r hr)).1,
    List.filterMap_eq_map']

theorem EventLog.of_after {log : EventLog} {jobId : Uuid} {cursor : Option Nat} {r : LoggedEvent}
    (h : r ∈ Paging.after LoggedEvent.id cursor (log.ofJob jobId)) :
    r.jobId = jobId ∧ r.known = true := by
  have hjob := List.mem_of_mem_filter h
  unfold EventLog.ofJob at hjob
  rw [List.mem_filter, Bool.and_eq_true, beq_iff_eq] at hjob
  exact hjob.2

/-- **A page of events** is a page of the job's rows: what it shows and the cursor it names. -/
theorem eventPage_eq {casefold : String → String} {caller : Caller} {log : EventLog} {job : JobRecord}
    {cursor : Option Nat} {limit : Int} (hcursor : ∀ n, cursor = some n → n < 2 ^ 63)
    (hlow : 1 ≤ limit) (hhigh : limit ≤ 100) (hscope : caller.hasScope "jobs:read" = true)
    (hnamespace : caller.allowsNamespace job.namespaceId = true) :
    ∃ page, eventPage casefold caller (.ok job) (listEvents log.rows) (cursor.map toString) limit
        = .ok page
      ∧ page.events.map some = (Paging.page LoggedEvent.id cursor limit.toNat
          (log.ofJob job.jobId)).map (LoggedEvent.view casefold)
      ∧ page.nextCursor = (Paging.nextCursor LoggedEvent.id cursor limit.toNat
          (log.ofJob job.jobId)).map toString := by
  have hcanonical : ((cursor.map toString).any fun c => !canonicalDecimal c) = false := by
    cases cursor with
    | none => rfl
    | some n =>
        show (!canonicalDecimal (toString n)) = false
        rw [canonicalDecimal_toString (hcursor n rfl)]
        rfl
  have hlimit : (limit < 1 || 100 < limit) = false := by
    rw [Bool.or_eq_false_iff, decide_eq_false_iff_not, decide_eq_false_iff_not]
    omega
  have howned : ownedJob caller (.ok job) "jobs:read" = .ok job := by
    unfold ownedJob requireScope
    refine raiseIf_bind_ok.mpr ⟨by rw [hscope]; rfl, ?_⟩
    exact raiseIf_bind_ok.mpr ⟨by rw [hnamespace]; rfl, rfl⟩
  obtain ⟨f, hf⟩ := LoggedEvent.records
  set found := Paging.after LoggedEvent.id cursor (log.ofJob job.jobId)
  have hlookahead : (limit + 1).toNat = limit.toNat + 1 := by omega
  -- one row more than the page, to tell whether anything follows it
  obtain ⟨hrecords, hrows⟩ := hf (found.take (limit.toNat + 1)) fun r hr =>
    (EventLog.of_after (List.mem_of_mem_take hr)).2
  -- so no event of another job stops the page
  have hown : ((found.take (limit.toNat + 1)).map f).any (fun event => event.jobId != job.jobId)
      = false := by
    rw [List.any_eq_false]
    intro event hevent
    obtain ⟨r, hr, rfl⟩ := List.mem_map.mp hevent
    rw [(hrows r hr).2.2, (EventLog.of_after (List.mem_of_mem_take hr)).1]
    simp
  have hpage : (found.take (limit.toNat + 1)).take limit.toNat
      = Paging.page LoggedEvent.id cursor limit.toNat (log.ofJob job.jobId) := by
    rw [List.take_take, Nat.min_eq_left (by omega), Paging.page]
  have hlist := @listEvents_ok log job.jobId cursor (limit + 1) hcursor (by omega) (by omega)
  rw [hlookahead, hrecords] at hlist
  refine ⟨⟨(((found.take (limit.toNat + 1)).map f).take limit.toNat).map (EventView.fromRecord casefold),
    if limit.toNat < ((found.take (limit.toNat + 1)).map f).length then
      (((found.take (limit.toNat + 1)).map f).take limit.toNat).getLast?.map EventRecord.eventId
    else none⟩, ?_, ?_, ?_⟩
  · unfold eventPage
    refine raiseIf_bind_ok.mpr ⟨hcanonical, raiseIf_bind_ok.mpr ⟨hlimit, ?_⟩⟩
    refine except_bind_ok.mpr ⟨job, howned, ?_⟩
    rw [hlist]
    exact raiseIf_bind_ok.mpr ⟨hown, rfl⟩
  · rw [← List.map_take, hpage, List.map_map, List.map_map]
    refine List.map_congr_left fun r hr => ?_
    rw [← hpage] at hr
    rw [LoggedEvent.view, (hrows r (List.mem_of_mem_take hr)).1]
    rfl
  · show (if limit.toNat < ((found.take (limit.toNat + 1)).map f).length then _ else none) = _
    unfold Paging.nextCursor
    rw [List.length_map, ← List.map_take, hpage]
    split
    · rw [List.getLast?_map, Option.map_map, Option.map_map]
      cases hlast : (Paging.page LoggedEvent.id cursor limit.toNat (log.ofJob job.jobId)).getLast? with
      | none => rfl
      | some r =>
          have hr := List.mem_of_getLast? hlast
          rw [← hpage] at hr
          show some (f r).eventId = some (toString r.id)
          rw [(hrows r (List.mem_of_mem_take hr)).2.1]
    · rfl

/-- What a page that was returned says about its request. -/
theorem eventPage_ok {casefold : String → String} {caller : Caller} {job : JobRecord}
    {list : Uuid → Option String → Int → Except Error (List EventRecord)} {cursor : Option String}
    {limit : Int} {page : EventPage}
    (h : eventPage casefold caller (.ok job) list cursor limit = .ok page) :
    1 ≤ limit ∧ limit ≤ 100 ∧ caller.hasScope "jobs:read" = true
      ∧ caller.allowsNamespace job.namespaceId = true := by
  unfold eventPage at h
  obtain ⟨-, h⟩ := raiseIf_bind_ok.mp h
  obtain ⟨hlimit, h⟩ := raiseIf_bind_ok.mp h
  obtain ⟨job', howned, -⟩ := except_bind_ok.mp h
  unfold ownedJob requireScope at howned
  obtain ⟨hscope, howned⟩ := raiseIf_bind_ok.mp howned
  obtain ⟨hnamespace, -⟩ := raiseIf_bind_ok.mp howned
  rw [Bool.or_eq_false_iff, decide_eq_false_iff_not, decide_eq_false_iff_not] at hlimit
  exact ⟨by omega, by omega, by simpa using hscope, by simpa using hnamespace⟩

/-! ## Page after page -/

section Pages

variable (casefold : String → String) (jobId : Uuid) (log₀ : EventLog)

/-- What the pages of a job's events have returned so far, the last of them from the log as it is
now, and the cursor that page named. Each page is asked for with a limit of its own. -/
inductive EventPages : EventLog → List EventView → Option String → Prop where
  | first {caller : Caller} {job : JobRecord} {limit : Int} {page : EventPage} :
      job.jobId = jobId →
      eventPage casefold caller (.ok job) (listEvents log₀.rows) none limit = .ok page →
      EventPages log₀ page.events page.nextCursor
  | more {log log' : EventLog} {seen : List EventView} {cursor : String} {caller : Caller}
      {job : JobRecord} {limit : Int} {page : EventPage} :
      EventPages log seen (some cursor) → log.Grows log' → job.jobId = jobId →
      eventPage casefold caller (.ok job) (listEvents log'.rows) (some cursor) limit = .ok page →
      EventPages log' (seen ++ page.events) page.nextCursor

variable {casefold : String → String} {jobId : Uuid} {log₀ : EventLog}

theorem cursor_lt {log : EventLog} {read : List LoggedEvent} {cursor : Option Nat}
    (h : Paging.Chain LoggedEvent.id (log.ofJob jobId) read cursor) :
    ∀ n, cursor = some n → n < 2 ^ 63 := by
  intro n hn
  have hend := (h.spec (log.ofJob_ascending jobId)).2 n hn
  unfold Paging.AtEnd at hend
  rw [Option.map_eq_some_iff] at hend
  obtain ⟨r, -, rfl⟩ := hend
  exact r.id_lt

/-- The pages of events are pages of the job's rows. -/
theorem EventPages.chain {log : EventLog} {seen : List EventView} {next : Option String}
    (h : EventPages casefold jobId log₀ log seen next) :
    log₀.Grows log ∧ ∃ read cursor, Paging.Chain LoggedEvent.id (log.ofJob jobId) read cursor
      ∧ seen.map some = read.map (LoggedEvent.view casefold) ∧ next = cursor.map toString := by
  induction h with
  | @first caller job limit page hjob hpage =>
      subst hjob
      refine ⟨⟨[], by rw [List.append_nil]⟩, ?_⟩
      obtain ⟨hlow, hhigh, hscope, hnamespace⟩ := eventPage_ok hpage
      obtain ⟨page', hpage', hevents, hnext⟩ := @eventPage_eq casefold caller log₀ job none limit
        (fun _ h => (by cases h)) hlow hhigh hscope hnamespace
      obtain rfl : page' = page := Except.ok.inj (hpage'.symm.trans hpage)
      exact ⟨_, _, .first (by omega), hevents, hnext⟩
  | @more log log' seen cursor caller job limit page h hgrows hjob hpage ih =>
      subst hjob
      obtain ⟨hfrom, read, cursor', hchain, hseen, hcursor⟩ := ih
      refine ⟨?_, ?_⟩
      · obtain ⟨later, hlater⟩ := hfrom
        obtain ⟨later', hlater'⟩ := hgrows
        exact ⟨later ++ later', by rw [hlater', hlater, List.append_assoc]⟩
      obtain ⟨later, hlater⟩ := hgrows.ofJob job.jobId
      cases cursor' with
      | none => cases hcursor
      | some n =>
          obtain ⟨hlow, hhigh, hscope, hnamespace⟩ := eventPage_ok hpage
          obtain ⟨page', hpage', hevents, hnext⟩ := @eventPage_eq casefold caller log' job (some n)
            limit (cursor_lt hchain) hlow hhigh hscope hnamespace
          rw [← hcursor] at hpage'
          obtain rfl : page' = page := Except.ok.inj (hpage'.symm.trans hpage)
          have hmore := @Paging.Chain.more _ _ _ _ _ later _ _ limit.toNat hchain (by omega)
          rw [← hlater] at hmore
          exact ⟨_, _, hmore, by rw [List.map_append, hseen, hevents, List.map_append], hnext⟩

end Pages

/-- What a client does: it follows the cursor until there is none, with these limits. -/
def followPages (get : Option String → Int → Except ApplicationError EventPage) :
    Option String → List Int → Except ApplicationError (List EventView × Option String)
  | cursor, [] => .ok ([], cursor)
  | cursor, limit :: limits => do
      let page ← get cursor limit
      match page.nextCursor with
      | none => pure (page.events, none)
      | some next => do
          let (events, last) ← followPages get (some next) limits
          pure (page.events ++ events, last)

/-- **A log that stops growing is read to its end**, with one page more than rows at most. -/
theorem followPages_ends {casefold : String → String} {caller : Caller} {log : EventLog}
    {job : JobRecord} (hscope : caller.hasScope "jobs:read" = true)
    (hnamespace : caller.allowsNamespace job.namespaceId = true) {limits : List Int}
    (hlimits : ∀ limit ∈ limits, 1 ≤ limit ∧ limit ≤ 100) {read rest : List LoggedEvent}
    {cursor : Option Nat} (hrows : log.ofJob job.jobId = read ++ rest)
    (hcursor : Paging.AtEnd LoggedEvent.id read cursor) (hlength : rest.length < limits.length) :
    ∃ events, followPages (eventPage casefold caller (.ok job) (listEvents log.rows))
        (cursor.map toString) limits = .ok (events, none)
      ∧ events.map some = rest.map (LoggedEvent.view casefold) := by
  induction limits generalizing read rest cursor with
  | nil => exact absurd hlength (by simp)
  | cons limit limits ih =>
      obtain ⟨hlow, hhigh⟩ := hlimits limit List.mem_cons_self
      have hasc := log.ofJob_ascending job.jobId
      -- a cursor is the identifier of a row that was read
      have hbound : ∀ n, cursor = some n → n < 2 ^ 63 := by
        rintro n rfl
        unfold Paging.AtEnd at hcursor
        obtain ⟨r, -, rfl⟩ := Option.map_eq_some_iff.mp hcursor
        exact r.id_lt
      obtain ⟨page, hpage, hevents, hnext⟩ := @eventPage_eq casefold caller log job cursor limit
        hbound hlow hhigh hscope hnamespace
      rw [hrows] at hasc hevents hnext
      obtain ⟨hrest, ⟨hshort, hnone⟩ | ⟨hlong, c, hc, hend⟩⟩ :=
        @Paging.page_spec _ _ _ _ _ _ _ limit.toNat (by omega) hasc hcursor
      · rw [hnone] at hnext
        rw [hrest, List.take_of_length_le hshort] at hevents
        refine ⟨page.events, ?_, hevents⟩
        rw [followPages]
        refine except_bind_ok.mpr ⟨page, hpage, ?_⟩
        rw [hnext]
        rfl
      · rw [hc] at hnext
        rw [hrest] at hevents
        -- what is left begins after this page
        have hrows' : log.ofJob job.jobId
            = (read ++ rest.take limit.toNat) ++ rest.drop limit.toNat := by
          rw [List.append_assoc, List.take_append_drop, hrows]
        rw [List.length_cons] at hlength
        obtain ⟨events, hfollow, hshown⟩ := ih (fun l hl => hlimits l (List.mem_cons_of_mem _ hl))
          hrows' hend (by rw [List.length_drop]; omega)
        refine ⟨page.events ++ events, ?_, ?_⟩
        · rw [followPages]
          refine except_bind_ok.mpr ⟨page, hpage, ?_⟩
          rw [hnext]
          exact except_bind_ok.mpr ⟨_, hfollow, rfl⟩
        · rw [List.map_append, hevents, hshown, ← List.map_append, List.take_append_drop]

/--
**Event paging loses and repeats nothing.**

Whatever pages were asked for while the log grew, they returned the job's events up to the last one
returned, each once and in order; without a cursor these are all of them, the events that were
there before the first page included. From any cursor, a log that stops growing is read to its end.
-/
theorem event_paging (casefold : String → String) (jobId : Uuid) (log₀ log : EventLog)
    (seen : List EventView) (next : Option String)
    (h : EventPages casefold jobId log₀ log seen next) :
    (∃ last read, read = ((log.ofJob jobId).filter fun r => decide (r.id ≤ last))
        ∧ (read = [] ∨ ∃ r ∈ read, r.id = last)
        ∧ read.Pairwise (fun a b => a.id < b.id)
        ∧ seen.map some = read.map (LoggedEvent.view casefold)
        ∧ (next = none → read = log.ofJob jobId ∧ ∀ r ∈ log₀.ofJob jobId, r ∈ read))
      ∧ ∀ (caller : Caller) (job : JobRecord) (limits : List Int), job.jobId = jobId →
        caller.hasScope "jobs:read" = true → caller.allowsNamespace job.namespaceId = true →
        (∀ limit ∈ limits, 1 ≤ limit ∧ limit ≤ 100) → (log.ofJob jobId).length < limits.length →
        ∀ cursor, next = some cursor →
          ∃ rest, followPages (eventPage casefold caller (.ok job) (listEvents log.rows)) next limits
              = .ok (rest, none)
            ∧ (seen ++ rest).map some = (log.ofJob jobId).map (LoggedEvent.view casefold) := by
  obtain ⟨hgrows, read, cursor, hchain, hseen, hnext⟩ := h.chain
  obtain ⟨⟨rest, hrows, hall⟩, hend⟩ := hchain.spec (log.ofJob_ascending jobId)
  have hasc : Paging.Ascending LoggedEvent.id (read ++ rest) := hrows ▸ log.ofJob_ascending jobId
  refine ⟨?_, ?_⟩
  · obtain ⟨last, hlast, hread⟩ : ∃ last, (read = [] ∨ ∃ r ∈ read, r.id = last)
        ∧ read = (read ++ rest).filter fun r => decide (r.id ≤ last) := by
      cases hr : read.getLast? with
      | none =>
          -- nothing was returned, and no identifier is 0
          obtain rfl := List.getLast?_eq_none_iff.mp hr
          refine ⟨0, Or.inl rfl, (List.filter_eq_nil_iff.mpr fun r _ => ?_).symm⟩
          have := r.id_pos
          rw [decide_eq_true_eq]
          omega
      | some r =>
          have hat : Paging.AtEnd LoggedEvent.id read (some r.id) := by rw [Paging.AtEnd, hr]; rfl
          exact ⟨r.id, Or.inr ⟨r, List.mem_of_getLast? hr, rfl⟩, (Paging.upTo_append hasc hat).symm⟩
    refine ⟨last, read, by rw [hrows]; exact hread, hlast, (List.pairwise_append.mp hasc).1, hseen,
      fun hnone => ?_⟩
    have hcursor : cursor = none := by
      rw [hnone] at hnext
      exact Option.map_eq_none_iff.mp hnext.symm
    have hread' : log.ofJob jobId = read := by rw [hrows, hall hcursor, List.append_nil]
    refine ⟨hread'.symm, fun r hr => ?_⟩
    obtain ⟨later, hlater⟩ := hgrows.ofJob jobId
    rw [← hread', hlater]
    exact List.mem_append_left _ hr
  · intro caller job limits hjob hscope hnamespace hlimits hlength text htext
    subst hjob
    cases cursor with
    | none =>
        rw [hnext] at htext
        cases htext
    | some n =>
        rw [hrows, List.length_append] at hlength
        obtain ⟨events, hfollow, hshown⟩ := @followPages_ends casefold caller log job hscope hnamespace
          limits hlimits read rest (some n) hrows (hend n rfl) (by omega)
        refine ⟨events, hnext ▸ hfollow, ?_⟩
        rw [List.map_append, hseen, hshown, ← List.map_append, hrows]

/-- Two events of one job, with one of another and a row of an unknown type between them. -/
def interleavedLog : EventLog where
  rows :=
    [⟨1, 7, none, "job_created", .dict [], by decide, by decide⟩,
      ⟨2, 8, none, "job_created", .dict [], by decide, by decide⟩,
      ⟨3, 7, none, "audit", .dict [], by decide, by decide⟩,
      ⟨5, 7, some 3, "attempt_started", .dict [], by decide, by decide⟩]
  ascending jobId := by
    refine List.Pairwise.sublist List.filter_sublist ?_
    decide

/-- A job of the first of them, and a caller who may read it. -/
def pagedJob : JobRecord :=
  ⟨7, "n", "k", "", .dict [], 1, [], [.output], .running, some 3, none, false, 1⟩

def reader : Caller := ⟨fun _ => true, fun _ => true⟩

theorem event_paging_first :
    ∃ rest, followPages (eventPage id reader (.ok pagedJob) (listEvents interleavedLog.rows))
        (some "1") [100, 100, 100] = .ok (rest, none)
      ∧ ([(⟨"1", .jobCreated, none, []⟩ : EventView)] ++ rest).map some
        = (interleavedLog.ofJob 7).map (LoggedEvent.view id) := by
  have hpage : eventPage id reader (.ok pagedJob) (listEvents interleavedLog.rows) none 1
      = .ok ⟨[⟨"1", .jobCreated, none, []⟩], some "1"⟩ := by rfl
  exact (event_paging id 7 interleavedLog interleavedLog _ (some "1") (.first rfl hpage)).2 reader
    pagedJob [100, 100, 100] rfl rfl rfl (by decide) (by decide) "1" rfl

end NanoAural
