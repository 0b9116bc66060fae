import NanoAural.Proof.InventoryPaging

/-!
# Every object is in the journal

A put writes its record before it makes anything else, so an object always has a
line of its own, unless a record was once cut short. What is left of that record
has no end: a page that comes to it raises, and the next record goes on the same
line, so that the object put with it has none. As long as records are written
whole or not at all, every object has its line and no page raises, whatever else
goes wrong.
-/

namespace NanoAural

namespace AttemptStorage

open AttemptKeys (components)

variable {host : Host} {sha256 : List UInt8 → String} {s : LocalStore} {lines : List String}

/-! ## The lines of a journal -/

/-- The lines are read back as they were written. -/
theorem linesOf_journalOf (h : CompleteLines lines) : linesOf (journalOf lines) = lines := by
  induction lines with
  | nil => rfl
  | cons line lines ih =>
      have hrest := ih fun other hother => h other (List.mem_cons_of_mem _ hother)
      unfold linesOf at hrest ⊢
      rw [journalOf_cons,
        List.splitOn_append_cons_self_of_not_mem (h line List.mem_cons_self).1,
        List.dropLast_cons_of_ne_nil (List.splitOn_ne_nil _ _), List.map_cons, hrest,
        String.ofList_toList]

/-- What does not end is read to the end. -/
theorem readLine_endless {text : List Char} (hend : '\n' ∉ text) :
    ∀ n, text.length ≤ n → readLine n text = text := by
  induction text with
  | nil =>
      intro n _
      cases n with
      | zero => rfl
      | succ n => rfl
  | cons c text ih =>
      intro n hn
      rw [List.mem_cons, not_or] at hend
      rw [List.length_cons] at hn
      cases n with
      | zero => omega
      | succ n =>
          have hc : (c == '\n') = false := beq_eq_false_iff_ne.mpr fun h => hend.1 h.symm
          unfold readLine
          rw [hc, ih hend.2 n (by omega)]
          rfl

def invalidRecord : StoreRaise := .runtime "attempt inventory contains an invalid record"

variable (host sha256) in
/-- **A scan that comes to the remains of a record raises.** -/
theorem scanLines_torn (cutoff : Time) {tail : List Char} (hend : '\n' ∉ tail) (hne : tail ≠ [])
    (hroom : tail.length ≤ maxInventoryLine) (n : Nat) :
    ∀ (lines seen : List String) (page : AttemptInventoryPage), CompleteLines lines →
      lines.length < n →
      s.scanLines host sha256 cutoff n (journalOf lines ++ tail) seen page
        = .error invalidRecord := by
  induction n with
  | zero => exact fun _ _ _ _ hlt => absurd hlt (Nat.not_lt_zero _)
  | succ n ih =>
      intro lines seen page hlines hlt
      cases lines with
      | nil =>
          have hline : readLine (maxInventoryLine + 1) tail = tail :=
            readLine_endless hend _ (Nat.le_succ_of_le hroom)
          -- a line without its end is no record
          have hlast : tail.getLast? ≠ some '\n' := fun h =>
            hend (List.mem_of_getLast? h)
          unfold LocalStore.scanLines
          simp [journalOf, hline, hne, hlast, invalidRecord]
      | cons line lines =>
          have hhead := hlines line List.mem_cons_self
          have hline : readLine (maxInventoryLine + 1) (journalOf (line :: lines) ++ tail)
              = line.toList ++ ['\n'] := by
            rw [journalOf_cons, List.append_assoc, List.cons_append]
            exact readLine_entry _ _ _ (Nat.lt_succ_of_lt hhead.2) hhead.1
          have hdrop : (journalOf (line :: lines) ++ tail).drop (line.toList ++ ['\n']).length
              = journalOf lines ++ tail := by
            change (((line.toList ++ ['\n']) ++ journalOf lines) ++ tail).drop _ = _
            rw [List.append_assoc]
            exact List.drop_left
          -- a whole line is passed over, listed or not
          have hvalid : (decide (maxInventoryLine < (line.toList ++ ['\n']).length)
              || (line.toList ++ ['\n']).getLast? != some '\n') = false := by
            rw [List.getLast?_concat, bne_self_eq_false, Bool.or_false, decide_eq_false_iff_not,
              List.length_append, List.length_singleton]
            exact Nat.not_lt.mpr hhead.2
          have hempty : (line.toList ++ ['\n']).isEmpty = false := by simp
          have hrest : CompleteLines lines := fun other hother =>
            hlines other (List.mem_cons_of_mem _ hother)
          have hlt' : lines.length < n := Nat.lt_of_succ_lt_succ hlt
          unfold LocalStore.scanLines
          simp only [hline, hempty, hvalid, hdrop, Bool.false_eq_true, if_false]
          split
          · exact ih lines seen _ hrest hlt'
          · exact ih lines _ _ hrest hlt'

/-! ## What every step keeps -/

/-- The journal holds these lines, each scan's cursor stands at one, and every object has its line. -/
structure Journalled (host : Host) (lines : List String) (s : LocalStore) : Prop where
  framed : ∀ scanId, ∃ b, Framed lines scanId s b
  objects : ∀ path, (s.files path).isSome →
    ∃ key ∈ lines, isAttemptKey host key = true ∧ components key = path

variable (host) in
theorem journalled_empty : Journalled host [] LocalStore.empty where
  framed scanId := ⟨0, nofun, rfl, fun _ => rfl, rfl, Nat.le_refl 0⟩
  objects path hpath := absurd hpath (by simp [LocalStore.empty])

/-- The open makes the file, if nothing is written to it. -/
theorem Framed.opened {scanId : String} {b : Nat} (h : Framed lines scanId s b) :
    Framed lines scanId { s with journal := some (s.journal.getD [] ++ []) } b where
  complete := h.complete
  journal := by rw [Option.getD_some, List.append_nil, h.journal]
  absent := nofun
  cursor := h.cursor
  within := h.within

/-- A step that leaves the journal, the cursors and the files alone. -/
theorem Journalled.kept (h : Journalled host lines s) {t : LocalStore}
    (hjournal : t.journal = s.journal)
    (hcursors : t.cursors = s.cursors) (hfiles : t.files = s.files) : Journalled host lines t where
  framed scanId := by
    obtain ⟨b, hb⟩ := h.framed scanId
    exact ⟨b, hb.kept hjournal (congrFun hcursors scanId)⟩
  objects := hfiles ▸ h.objects

theorem link_files (s : LocalStore) (now : Time) (key : String) (content : List UInt8)
    {path : List String} (hpath : ((s.link sha256 now key content).2.files path).isSome) :
    (s.files path).isSome ∨ path = components key := by
  unfold LocalStore.link at hpath
  dsimp only at hpath
  split at hpath
  · left
    split at hpath
    · exact hpath
    · split at hpath
      · exact hpath
      · exact hpath
  · by_cases heq : path = components key
    · exact .inr heq
    · dsimp only at hpath
      rw [Function.update_of_ne heq] at hpath
      exact .inl hpath

variable (host sha256) in
/-- A page goes through if it has a limit and a name for its scan, and otherwise raises before it
leaves a cursor. -/
theorem inventoryPageBefore_cases {scanId : String} {b : Nat} (h : Framed lines scanId s b)
    (cutoff : Time) (limit : Int) :
    (1 ≤ limit ∧ checkScanId scanId = .ok ()
        ∧ host.takes (LocalStore.temporaryCursor scanId) = true)
      ∨ ∃ e, e ≠ invalidRecord
        ∧ s.inventoryPageBefore host sha256 cutoff limit scanId = (.error e, s) := by
  by_cases hlimit : limit < 1
  · have hpositive : positiveLimit limit = .error (.value "limit must be positive") := if_pos hlimit
    unfold LocalStore.inventoryPageBefore
    rw [hpositive]
    exact .inr ⟨_, by decide, rfl⟩
  · have hpositive : positiveLimit limit = .ok () := if_neg hlimit
    cases hscan : checkScanId scanId with
    | error e =>
        have hraised := hscan
        unfold checkScanId at hraised
        unfold LocalStore.inventoryPageBefore
        rw [hpositive, hscan]
        split at hraised
        · rw [← Except.error.inj hraised]
          exact .inr ⟨_, by decide, rfl⟩
        · cases hraised
    | ok u =>
        cases hname : host.takes (LocalStore.temporaryCursor scanId) with
        | true => exact .inl ⟨not_lt.mp hlimit, rfl, rfl⟩
        | false =>
            right
            refine ⟨.os, by decide, ?_⟩
            unfold LocalStore.inventoryPageBefore
            rw [hpositive, hscan, h.cursor, pageFrom_eq h cutoff (by omega), takeName_long hname]
            cases hread : host.takes (LocalStore.cursorName scanId) with
            | false =>
                rw [takeName_long hread]
                rfl
            | true =>
                rw [takeName_ok hread]
                rfl

variable (host sha256) in
theorem inventoryPageBefore_files (s : LocalStore) (cutoff : Time) (limit : Int) (scanId : String) :
    (s.inventoryPageBefore host sha256 cutoff limit scanId).2.files = s.files := by
  unfold LocalStore.inventoryPageBefore
  split
  · rfl
  · rfl

/-- A page of any scan leaves this one's cursor at a line. -/
theorem Framed.paged {scanId : String} {b : Nat} (h : Framed lines scanId s b) (cutoff : Time)
    (limit : Int) (other : String) :
    ∃ b', Framed lines scanId (s.inventoryPageBefore host sha256 cutoff limit other).2 b' := by
  by_cases hother : scanId = other
  · subst hother
    rcases inventoryPageBefore_cases host sha256 h cutoff limit with
      ⟨hlimit, hscan, hname⟩ | ⟨e, _, hraised⟩
    · exact ⟨_, h.page hscan hname cutoff hlimit⟩
    · rw [hraised]
      exact ⟨b, h⟩
  · have hkept := inventoryPageBefore_kept host sha256 s cutoff limit other
    exact ⟨b, h.kept hkept.1 (hkept.2 scanId hother)⟩

/-- A link comes after its record. -/
theorem Journalled.link (h : Journalled host lines s) {key : String}
    (hkey : isAttemptKey host key = true)
    (hmem : key ∈ lines) (now : Time) (content : List UInt8) :
    Journalled host lines (s.link sha256 now key content).2 where
  framed scanId := by
    obtain ⟨b, hb⟩ := h.framed scanId
    have hkept := link_kept sha256 s now key content
    exact ⟨b, hb.kept hkept.1 (congrFun hkept.2 scanId)⟩
  objects path hpath := by
    rcases link_files s now key content hpath with hold | hnew
    · exact h.objects path hold
    · exact ⟨key, hmem, hkey, hnew.symm⟩

/-- What comes after the record. -/
theorem Journalled.parents (h : Journalled host lines s) (rest : List String) :
    Journalled host lines (LocalStore.makeParents host [] rest s).2 := by
  obtain ⟨hjournal, hcursors, hfiles⟩ := makeParents_kept host rest [] s
  exact h.kept hjournal hcursors hfiles

/-- One more record, whole. -/
theorem Journalled.record (h : Journalled host lines s) {key : String}
    (hkey : isAttemptKey host key = true)
    (hroom : key.toList.length < maxInventoryLine) :
    Journalled host (lines ++ [key])
      { s with journal := some (s.journal.getD [] ++ (key.toList ++ ['\n'])) } where
  framed scanId := by
    obtain ⟨b, hb⟩ := h.framed scanId
    exact ⟨b, hb.append (isAttemptKey_newline hkey) hroom⟩
  objects path hpath := by
    obtain ⟨other, hmem, hother⟩ := h.objects path hpath
    exact ⟨other, List.mem_append_left _ hmem, hother⟩

/-- The write of the record of a put stops part way. -/
def JournalStep.tears (host : Host) : JournalStep → Bool
  | .put _ key _ cut =>
      isAttemptKey host key && decide (key.toList.length < maxInventoryLine)
        && decide (0 < cut.written) && decide (cut.written ≤ key.toList.length)
  | .page .. => false

variable (sha256) in
/-- **A step that tears no record** adds a line or nothing, and objects only with their lines. -/
theorem Journalled.step (h : Journalled host lines s) {step : JournalStep}
    (hstep : step.tears host = false) :
    ∃ more, Journalled host (lines ++ more) (s.journalStep host sha256 step) := by
  have hsame : Journalled host (lines ++ []) s := by rwa [List.append_nil]
  cases step with
  | page cutoff limit scanId =>
      refine ⟨[], fun other => ?_, ?_⟩
      · obtain ⟨b, hb⟩ := hsame.framed other
        exact hb.paged cutoff limit scanId
      · exact inventoryPageBefore_files host sha256 s cutoff limit scanId ▸ hsame.objects
  | put now key chunks cut =>
      change ∃ more, Journalled host (lines ++ more) (s.cutPut host sha256 now key chunks cut)
      unfold LocalStore.cutPut
      by_cases hkey : isAttemptKey host key = true
      · rw [parseAttemptKey_valid hkey]
        dsimp only
        split
        · exact ⟨[], hsame⟩
        · rename_i hroom
          rw [List.length_append, List.length_singleton] at hroom
          have hroom' : key.toList.length < maxInventoryLine := Nat.lt_of_succ_le (not_lt.mp hroom)
          split
          · -- A record that is cut short and not torn is one of which nothing is written.
            rename_i hshort
            have hnothing : cut.written = 0 := by
              simp [JournalStep.tears, hkey, hroom'] at hstep hshort
              omega
            rw [hnothing]
            refine ⟨[], fun scanId => ?_, hsame.objects⟩
            obtain ⟨b, hb⟩ := hsame.framed scanId
            exact ⟨b, hb.opened⟩
          · rename_i hwhole
            rw [List.take_of_length_le (not_lt.mp hwhole)]
            -- from here on the record is in the journal, whatever else fails
            have hrecord := h.record hkey hroom'
            split
            · exact ⟨[key], hrecord.parents _⟩
            · have hparents := hrecord.parents (components key).dropLast
              split
              · rename_i hmade
                rw [hmade] at hparents
                exact ⟨[key], hparents⟩
              · rename_i hmade
                rw [hmade] at hparents
                exact ⟨[key], hparents.link hkey (List.mem_append_right _ List.mem_cons_self) now _⟩
      · rw [parseAttemptKey_invalid hkey]
        exact ⟨[], hsame⟩

/-! ## Indexed throughout -/

/-- Every object has a line of its own in the journal, and no page, whatever its cutoff, its limit
and its scan, finds an invalid record there. -/
structure Indexed (host : Host) (sha256 : List UInt8 → String) (s : LocalStore) : Prop where
  objects : ∀ path, (s.files path).isSome →
    ∃ key ∈ linesOf (s.journal.getD []), isAttemptKey host key = true ∧ components key = path
  pages : ∀ cutoff limit scanId,
    (s.inventoryPageBefore host sha256 cutoff limit scanId).1 ≠ .error invalidRecord

/-- In every state the steps pass through. -/
def IndexedThroughout (host : Host) (sha256 : List UInt8 → String) : LocalStore → List JournalStep → Prop
  | s, [] => Indexed host sha256 s
  | s, step :: steps =>
      Indexed host sha256 s ∧ IndexedThroughout host sha256 (s.journalStep host sha256 step) steps

theorem Journalled.indexed (h : Journalled host lines s) : Indexed host sha256 s where
  objects := by
    obtain ⟨b, hb⟩ := h.framed "scan"
    rw [hb.journal, linesOf_journalOf hb.complete]
    exact h.objects
  pages cutoff limit scanId := by
    obtain ⟨b, hb⟩ := h.framed scanId
    rcases inventoryPageBefore_cases host sha256 hb cutoff limit with
      ⟨hlimit, hscan, hname⟩ | ⟨e, hother, hraised⟩
    · rw [page_eq hb hscan hname cutoff hlimit]
      exact fun hraised => by cases hraised
    · rw [hraised]
      exact fun heq => hother (Except.error.inj heq)

/-- A journal with what is left of a record at its end, and a page that scans so far. -/
theorem page_torn {scanId : String} {b : Nat} (h : Framed lines scanId s b)
    (hscan : checkScanId scanId = .ok ())
    (hread : host.takes (LocalStore.cursorName scanId) = true) (cutoff : Time) {tail : List Char}
    (hend : '\n' ∉ tail) (hne : tail ≠ []) (hroom : tail.length ≤ maxInventoryLine) :
    (LocalStore.inventoryPageBefore host sha256 { s with journal := some (journalOf lines ++ tail) }
      cutoff (lines.length + 1 : Nat) scanId).1 = .error invalidRecord := by
  have hpositive : positiveLimit (lines.length + 1 : Nat) = .ok () := if_neg (by omega)
  have hrest : (journalOf lines ++ tail).drop (offset lines b)
      = journalOf (lines.drop b) ++ tail := by
    conv => enter [1, 2, 1]; rw [← List.take_append_drop b lines]
    rw [journalOf_append, List.append_assoc]
    exact List.drop_left
  have hlines : CompleteLines (lines.drop b) := fun line hline =>
    h.complete line (List.mem_of_mem_drop hline)
  have hraised := scanLines_torn host sha256
    (s := { s with journal := some (journalOf lines ++ tail) }) cutoff hend hne hroom
    (lines.length + 1) (lines.drop b) [] ⟨[], 0, offset lines b, false⟩ hlines
    (by rw [List.length_drop]; omega)
  unfold LocalStore.inventoryPageBefore
  rw [hpositive, hscan, takeName_ok hread, h.cursor]
  unfold LocalStore.inventoryPageFrom
  dsimp only
  rw [hrest, Int.toNat_natCast, hraised]
  rfl

variable (sha256) in
/-- A page that scans to the end comes to what is left of a record. -/
theorem Journalled.torn (h : Journalled host lines s) {step : JournalStep}
    (hstep : step.tears host = true) :
    ¬ Indexed host sha256 (s.journalStep host sha256 step) := by
  intro hindexed
  cases step with
  | page => cases hstep
  | put now key chunks cut =>
      simp only [JournalStep.tears, Bool.and_eq_true, decide_eq_true_eq] at hstep
      obtain ⟨⟨⟨hkey, hroom⟩, hsome⟩, hpart⟩ := hstep
      obtain ⟨b, hb⟩ := h.framed "scan"
      have htail : (key.toList ++ ['\n']).take cut.written = key.toList.take cut.written :=
        List.take_append_of_le_length hpart
      have hlength : (key.toList.take cut.written).length = cut.written :=
        List.length_take_of_le hpart
      have hcut : s.journalStep host sha256 (.put now key chunks cut)
          = { s with journal := some (journalOf lines ++ key.toList.take cut.written) } := by
        change s.cutPut host sha256 now key chunks cut = _
        unfold LocalStore.cutPut
        rw [parseAttemptKey_valid hkey]
        dsimp only
        rw [if_neg (by rw [List.length_append, List.length_singleton]; omega),
          if_pos (by rw [List.length_append, List.length_singleton]; omega), htail, hb.journal]
      have hend : '\n' ∉ key.toList.take cut.written := fun hmem =>
        isAttemptKey_newline hkey (List.mem_of_mem_take hmem)
      rw [hcut] at hindexed
      have hread : host.takes (LocalStore.cursorName "scan") = true := FileNames.takes_iff.mpr
        fun n hn => Nat.le_trans (by decide +kernel) (host.names_least n hn)
      exact hindexed.pages 0 _ "scan" (page_torn hb rfl hread 0 hend
        (List.ne_nil_of_length_pos (by rw [hlength]; exact hsome))
        (by rw [hlength]; exact Nat.le_trans hpart (Nat.le_of_lt hroom)))

/-- **An object is in the journal, and its pages can be read, as long as no record is torn.** -/
theorem indexed_throughout_iff (steps : List JournalStep) :
    ∀ {lines : List String} {s : LocalStore}, Journalled host lines s →
      (IndexedThroughout host sha256 s steps ↔ ∀ step ∈ steps, step.tears host = false) := by
  induction steps with
  | nil => exact fun h => iff_of_true h.indexed (by simp)
  | cons step steps ih =>
      intro lines s h
      unfold IndexedThroughout
      rw [List.forall_mem_cons]
      cases hstep : step.tears host with
      | false =>
          obtain ⟨more, hmore⟩ := h.step sha256 hstep
          rw [ih hmore]
          exact ⟨fun hall => ⟨rfl, hall.2⟩, fun hall => ⟨h.indexed, hall.2⟩⟩
      | true =>
          refine iff_of_false (fun hall => h.torn sha256 hstep ?_) (fun hall => nomatch hall.1)
          cases steps with
          | nil => exact hall.2
          | cons next steps => exact hall.2.1

/-- **Every attempt object is in the journal** unless the write of a record stopped part way. -/
theorem journal_index_iff (host : Host) (sha256 : List UInt8 → String) (steps : List JournalStep) :
    IndexedThroughout host sha256 LocalStore.empty steps
      ↔ ∀ step ∈ steps, step.tears host = false :=
  indexed_throughout_iff steps (journalled_empty host)

/-! ### A record cut short -/

/-- The key of a retry, of which another publication is the object. -/
def retryKey : String :=
  "attempts/00000000-0000-0000-0000-000000000001/00000000-0000-0000-0000-000000000002/epoch-1/"
    ++ "output/00000000-0000-0000-0000-000000000004"

/-- Ten characters of a record are written; then a put of another key goes through. -/
def tornSteps : List JournalStep :=
  [.put 0 sampleKey [[1]] ⟨10, none⟩, .put 1 retryKey [[2]] ⟨512, none⟩]

/-- The second object is there and has no line, and pages raise from the short write on. -/
theorem torn_record_hides_object :
    (((tornSteps.foldl (LocalStore.journalStep linux fun _ => "") LocalStore.empty).files
          (components retryKey)).isSome = true
        ∧ retryKey ∉ linesOf
          ((tornSteps.foldl (LocalStore.journalStep linux fun _ => "") LocalStore.empty).journal.getD []))
      ∧ ((LocalStore.empty.journalStep linux (fun _ => "")
            (.put 0 sampleKey [[1]] ⟨10, none⟩)).inventoryPageBefore linux
              (fun _ => "") 5 1 "scan").1
          = .error invalidRecord := by
  decide +kernel

end AttemptStorage

end NanoAural
