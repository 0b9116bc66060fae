import NanoAural.Base.CyclicScan
import NanoAural.Proof.AttemptStores

/-!
# Pages of the attempt inventory

A page of either store scans entries from where its cursor stands, and the cursor
it leaves stands at an entry again. So the pages go round the inventory, whatever
is put in between, and a page holds the objects of its entries that are old
enough, each once.
-/

namespace NanoAural

namespace AttemptStorage

open AttemptKeys (components)

variable {host : Host} {sha256 : List UInt8 → String} {etag : String → List UInt8 → String}
  {s : LocalStore}
  {t : MemoryStore}

/-! ## A page of the journal -/

/-- The journal holds these lines, and the scan's cursor stands where the lines after the first `b`
begin. -/
structure Framed (lines : List String) (scanId : String) (s : LocalStore) (b : Nat) : Prop where
  complete : CompleteLines lines
  journal : s.journal.getD [] = journalOf lines
  absent : s.journal = none → lines = []
  cursor : (s.cursors scanId).getD 0 = offset lines b
  within : b ≤ lines.length

/-- The line the next page starts at. -/
def nextLine (n limit b : Nat) : Nat := if n - b < limit then 0 else b + limit

theorem steps_nextLine (n limit : Nat) : CyclicScan.Steps n limit (nextLine n limit) where
  within p hp := if_neg (by omega)
  exact p hp := .inl ((if_neg (by omega)).trans hp)
  beyond p hp hlt := if_pos (by omega)

/-- What a page of the journal is, from a line on. -/
theorem pageFrom_eq {lines : List String} {scanId : String} {b : Nat} (h : Framed lines scanId s b)
    (cutoff : Time) {limit : Nat} (hlimit : 0 < limit) :
    s.inventoryPageFrom host sha256 cutoff limit (offset lines b) = .ok
      ⟨picked (s.candidate host sha256 cutoff) ((lines.drop b).take limit) [],
        min limit (lines.length - b), offset lines (nextLine lines.length limit b),
        decide (lines.length - b < limit)⟩ := by
  have hnext : (if lines.length - b < limit then 0 else offset lines (b + limit))
      = offset lines (nextLine lines.length limit b) := by
    unfold nextLine
    split
    · rfl
    · rfl
  unfold LocalStore.inventoryPageFrom
  cases hj : s.journal with
  | none =>
      rw [h.absent hj]
      simp [picked, hlimit, nextLine, offset, journalOf]
  | some journal =>
      have hjournal := h.journal
      rw [hj, Option.getD_some] at hjournal
      dsimp only
      have hrest : CompleteLines (lines.drop b) := fun line hline =>
        h.complete line (List.mem_of_mem_drop hline)
      rw [hjournal, drop_offset, scanLines_eq cutoff limit _ _ _ hrest rfl, ← hnext, offset_add,
        List.length_drop]
      simp

/-- **One page of the local store.** -/
theorem page_eq {lines : List String} {scanId : String} {b : Nat} (h : Framed lines scanId s b)
    (hscan : checkScanId scanId = .ok ())
    (hname : host.takes (LocalStore.temporaryCursor scanId) = true) (cutoff : Time) {limit : Int}
    (hlimit : 1 ≤ limit) :
    s.inventoryPageBefore host sha256 cutoff limit scanId
      = (.ok ⟨picked (s.candidate host sha256 cutoff) ((lines.drop b).take limit.toNat) [],
          min limit.toNat (lines.length - b),
          offset lines (nextLine lines.length limit.toNat b),
          decide (lines.length - b < limit.toNat)⟩,
        { s with
          cursors := Function.update s.cursors scanId
            (some (offset lines (nextLine lines.length limit.toNat b))) }) := by
  have hpositive : positiveLimit limit = .ok () := if_neg (by omega)
  unfold LocalStore.inventoryPageBefore
  rw [hpositive, hscan, takeName_ok (takes_cursorName hname), takeName_ok hname, h.cursor]
  dsimp only [bind, Except.bind, Option.getD]
  rw [pageFrom_eq h cutoff (by omega)]
  rfl

/-- The cursor a page leaves stands at a line. -/
theorem Framed.page {lines : List String} {scanId : String} {b : Nat} (h : Framed lines scanId s b)
    (hscan : checkScanId scanId = .ok ())
    (hname : host.takes (LocalStore.temporaryCursor scanId) = true) (cutoff : Time) {limit : Int}
    (hlimit : 1 ≤ limit) :
    Framed lines scanId (s.inventoryPageBefore host sha256 cutoff limit scanId).2
      (nextLine lines.length limit.toNat b) := by
  rw [page_eq h hscan hname cutoff hlimit]
  refine ⟨h.complete, h.journal, h.absent, ?_, (steps_nextLine _ _).le h.within⟩
  dsimp only
  rw [Function.update_self]
  rfl

/-! ## The objects of a page -/

/-- What is found under a key is the object of its file, if that is old enough. -/
theorem candidate_iff {cutoff : Time} {key : String} {o : AttemptObject} :
    s.candidate host sha256 cutoff key = some o ↔ s.stat host sha256 key = .ok o
      ∧ o.createdAt < cutoff := by
  unfold LocalStore.candidate LocalStore.createdAt LocalStore.stat
  cases s.reach host key with
  | error e => exact ⟨fun h => (nomatch h), fun h => (nomatch h.1)⟩
  | ok file =>
      dsimp only [Except.map]
      have hcreated : (LocalStore.objectOf sha256 key file).createdAt = file.mtime := rfl
      by_cases hold : cutoff ≤ file.mtime
      · rw [if_pos hold]
        refine ⟨fun h => (nomatch h), fun ⟨heq, hlt⟩ => absurd hold (not_le.mpr ?_)⟩
        rw [← Except.ok.inj heq] at hlt
        exact hlt
      · rw [if_neg hold, hcreated, if_pos (not_le.mp hold), Option.some.injEq, Except.ok.injEq]
        refine ⟨fun h => ⟨h, ?_⟩, fun h => h.1⟩
        rw [← h]
        exact not_le.mp hold

/-- Each key is picked once. -/
theorem picked_nodup {find : String → Option AttemptObject}
    (hfind : ∀ key o, find key = some o → o.storageKey = key) (keys : List String) :
    ∀ seen : List String, ((picked find keys seen).map AttemptObject.storageKey).Nodup := by
  induction keys with
  | nil => exact fun _ => List.nodup_nil
  | cons key keys ih =>
      intro seen
      unfold picked
      split
      · exact ih seen
      · rw [List.map_append]
        cases hkey : find key with
        | none => exact ih (key :: seen)
        | some o =>
            refine List.nodup_cons.mpr ⟨fun hmem => ?_, ih (key :: seen)⟩
            obtain ⟨o', ho', heq⟩ := List.mem_map.mp hmem
            have hseen := ((mem_picked hfind keys (key :: seen)).mp ho').2.1
            rw [heq, hfind key o hkey] at hseen
            exact hseen List.mem_cons_self

/-- What a page may hold of the lines it scanned: the old enough objects, each once. -/
def OldObjects (host : Host) (sha256 : List UInt8 → String) (s : LocalStore) (cutoff : Time)
    (lines : List String) (objects : List AttemptObject) : Prop :=
  (objects.map AttemptObject.storageKey).Nodup ∧ ∀ o, o ∈ objects ↔
    o.storageKey ∈ lines ∧ s.stat host sha256 o.storageKey = .ok o ∧ o.createdAt < cutoff

theorem picked_old (cutoff : Time) (lines : List String) :
    OldObjects host sha256 s cutoff lines (picked (s.candidate host sha256 cutoff) lines []) := by
  have hfind : ∀ key o, s.candidate host sha256 cutoff key = some o → o.storageKey = key :=
    fun _ _ h => candidate_key h
  refine ⟨picked_nodup hfind lines [], fun o => ?_⟩
  rw [mem_picked hfind, candidate_iff]
  exact and_congr_right fun _ => and_iff_right List.not_mem_nil

/-! ## Calls in between -/

theorem makeDirectory_kept (s : LocalStore) (path : List String) :
    (s.makeDirectory path).journal = s.journal ∧ (s.makeDirectory path).cursors = s.cursors
      ∧ (s.makeDirectory path).files = s.files := by
  unfold LocalStore.makeDirectory
  split
  · exact ⟨rfl, rfl, rfl⟩
  · exact ⟨rfl, rfl, rfl⟩

variable (host) in
theorem makeParents_kept (rest : List String) : ∀ (done : List String) (s : LocalStore),
    (LocalStore.makeParents host done rest s).2.journal = s.journal
      ∧ (LocalStore.makeParents host done rest s).2.cursors = s.cursors
      ∧ (LocalStore.makeParents host done rest s).2.files = s.files := by
  induction rest with
  | nil => exact fun _ _ => ⟨rfl, rfl, rfl⟩
  | cons component rest ih =>
      intro done s
      obtain ⟨hjournal, hcursors, hfiles⟩ := makeDirectory_kept s (done ++ [component])
      unfold LocalStore.makeParents
      split
      · exact ⟨rfl, rfl, rfl⟩
      dsimp only
      split
      · exact ⟨hjournal, hcursors, hfiles⟩
      · have hrest := ih (done ++ [component]) (s.makeDirectory (done ++ [component]))
        exact ⟨hrest.1.trans hjournal, hrest.2.1.trans hcursors, hrest.2.2.trans hfiles⟩

variable (sha256) in
theorem link_kept (s : LocalStore) (now : Time) (key : String) (content : List UInt8) :
    (s.link sha256 now key content).2.journal = s.journal
      ∧ (s.link sha256 now key content).2.cursors = s.cursors := by
  unfold LocalStore.link
  dsimp only
  split
  · split
    · exact ⟨rfl, rfl⟩
    · split
      · exact ⟨rfl, rfl⟩
      · exact ⟨rfl, rfl⟩
  · exact ⟨rfl, rfl⟩

/-- A change that leaves the journal and the scan's cursor alone. -/
theorem Framed.kept {lines : List String} {scanId : String} {b : Nat} (h : Framed lines scanId s b)
    {s' : LocalStore} (hjournal : s'.journal = s.journal)
    (hcursor : s'.cursors scanId = s.cursors scanId) : Framed lines scanId s' b where
  complete := h.complete
  journal := hjournal ▸ h.journal
  absent hnone := h.absent (hjournal ▸ hnone)
  cursor := hcursor ▸ h.cursor
  within := h.within

/-- One more line. -/
theorem Framed.append {lines : List String} {scanId : String} {b : Nat}
    (h : Framed lines scanId s b)
    {line : String} (hline : '\n' ∉ line.toList) (hroom : line.toList.length < maxInventoryLine) :
    Framed (lines ++ [line]) scanId
      { s with journal := some (s.journal.getD [] ++ (line.toList ++ ['\n'])) } b where
  complete other hother := by
    rcases List.mem_append.mp hother with hother | hother
    · exact h.complete other hother
    · rw [List.mem_singleton.mp hother]
      exact ⟨hline, hroom⟩
  journal := by
    rw [Option.getD_some, h.journal, journalOf_append, journalOf_cons]
    rfl
  absent := nofun
  cursor := by
    refine h.cursor.trans ?_
    unfold offset
    rw [List.take_append_of_le_length h.within]
  within := by
    rw [List.length_append]
    exact Nat.le_add_right_of_le h.within

variable (host sha256) in
/-- A put appends a line or nothing. -/
theorem Framed.put {lines : List String} {scanId : String} {b : Nat} (h : Framed lines scanId s b)
    (now : Time) (key : String) (chunks : List (List UInt8)) :
    ∃ more, Framed (lines ++ more) scanId (s.putStream host sha256 now key chunks).2 b := by
  have hsame : Framed (lines ++ []) scanId s b := by rwa [List.append_nil]
  unfold LocalStore.putStream
  by_cases hkey : isAttemptKey host key = true
  · rw [parseAttemptKey_valid hkey]
    dsimp only
    unfold LocalStore.recordInventory
    dsimp only
    split
    · exact ⟨[], hsame⟩
    · rename_i s' hrecord
      split at hrecord
      · cases hrecord
      rename_i hroom
      rw [List.length_append, List.length_singleton] at hroom
      have happend := h.append (isAttemptKey_newline hkey) (Nat.lt_of_succ_le (not_lt.mp hroom))
      rw [← Except.ok.inj hrecord]
      have hparents := makeParents_kept host (components key).dropLast []
        { s with journal := some (s.journal.getD [] ++ (key.toList ++ ['\n'])) }
      generalize LocalStore.makeParents host [] (components key).dropLast
        { s with journal := some (s.journal.getD [] ++ (key.toList ++ ['\n'])) } = r at hparents ⊢
      obtain ⟨x, made⟩ := r
      cases x with
      | error e => exact ⟨[key], happend.kept hparents.1 (congrFun hparents.2.1 scanId)⟩
      | ok u =>
          have hlink := link_kept sha256 made now key chunks.flatten
          exact ⟨[key], happend.kept (hlink.1.trans hparents.1)
            (congrFun (hlink.2.trans hparents.2.1) scanId)⟩
  · rw [parseAttemptKey_invalid hkey]
    exact ⟨[], hsame⟩

variable (host sha256) in
/-- A page of any scan moves that scan's cursor only. -/
theorem inventoryPageBefore_kept (s : LocalStore) (cutoff : Time) (limit : Int) (scanId : String) :
    (s.inventoryPageBefore host sha256 cutoff limit scanId).2.journal = s.journal
      ∧ ∀ other, other ≠ scanId →
        (s.inventoryPageBefore host sha256 cutoff limit scanId).2.cursors other
        = s.cursors other := by
  unfold LocalStore.inventoryPageBefore
  split
  · exact ⟨rfl, fun _ _ => rfl⟩
  · exact ⟨rfl, fun other hother => Function.update_of_ne hother _ _⟩

theorem inventoryPageBefore_refused {s : LocalStore} {cutoff : Time} {limit : Int} {scanId : String}
    (h : limit < 1) : (s.inventoryPageBefore host sha256 cutoff limit scanId).2 = s := by
  unfold LocalStore.inventoryPageBefore positiveLimit
  rw [if_pos h]
  rfl

variable (host) in
theorem delete_kept (s : LocalStore) (key : String) :
    (s.delete host key).2.journal = s.journal ∧ (s.delete host key).2.cursors = s.cursors := by
  unfold LocalStore.delete
  split
  · exact ⟨rfl, rfl⟩
  · split
    · exact ⟨rfl, rfl⟩
    · exact ⟨rfl, rfl⟩
    · exact ⟨rfl, rfl⟩

variable (sha256) in
/-- **Whatever is called**, the journal only gets more lines and the cursor stands at one. -/
theorem Framed.answer {lines : List String} {scanId : String} {b : Nat}
    (h : Framed lines scanId s b)
    (hscan : checkScanId scanId = .ok ())
    (hname : host.takes (LocalStore.temporaryCursor scanId) = true) (now : Time)
    (call : StoreCall) :
    ∃ more b', Framed (lines ++ more) scanId (s.answer host sha256 now call).2 b' := by
  have hsame : Framed (lines ++ []) scanId s b := by rwa [List.append_nil]
  cases call with
  | putStream key chunks =>
      obtain ⟨more, hmore⟩ := h.put host sha256 now key chunks
      exact ⟨more, b, hmore⟩
  | openReader key | stat key | listBefore cutoff => exact ⟨[], b, hsame⟩
  | delete key =>
      have hkept := delete_kept host s key
      exact ⟨[], b, hsame.kept hkept.1 (congrFun hkept.2 scanId)⟩
  | inventoryPageBefore cutoff limit other =>
      by_cases hother : scanId = other
      · subst hother
        by_cases hlimit : 1 ≤ limit
        · exact ⟨[], _, hsame.page hscan hname cutoff hlimit⟩
        · refine ⟨[], b, ?_⟩
          change Framed _ _ (s.inventoryPageBefore host sha256 cutoff limit scanId).2 b
          rw [inventoryPageBefore_refused (not_le.mp hlimit)]
          exact hsame
      · have hkept := inventoryPageBefore_kept host sha256 s cutoff limit other
        exact ⟨[], b, hsame.kept hkept.1 (hkept.2 scanId hother)⟩

variable (sha256) in
theorem Framed.answers {scanId : String} (hscan : checkScanId scanId = .ok ())
    (hname : host.takes (LocalStore.temporaryCursor scanId) = true)
    (calls : List (Time × StoreCall)) :
    ∀ {lines : List String} {s : LocalStore} {b : Nat}, Framed lines scanId s b →
      ∃ more b', Framed (lines ++ more) scanId (s.answers host sha256 calls).2 b' := by
  induction calls with
  | nil =>
      intro lines s b h
      exact ⟨[], b, by rwa [List.append_nil]⟩
  | cons call calls ih =>
      intro lines s b h
      obtain ⟨more, b', hstep⟩ := h.answer sha256 hscan hname call.1 call.2
      obtain ⟨more', b'', hrest⟩ := ih hstep
      rw [List.append_assoc] at hrest
      exact ⟨more ++ more', b'', hrest⟩

/-! ## Going round -/

/-- A page of the scan, cutoff by cutoff. -/
def LocalStore.turn (host : Host) (sha256 : List UInt8 → String) (limit : Int) (scanId : String)
    (cutoff : Time) (s : LocalStore) : LocalStore :=
  (s.inventoryPageBefore host sha256 cutoff limit scanId).2

/-- The page scans the line of that number. -/
def LocalStore.ScansLine (host : Host) (sha256 : List UInt8 → String) (limit : Int)
    (scanId : String) (lines : List String) (s : LocalStore) (cutoff : Time) (i : Nat) : Prop :=
  ∃ b page, (s.cursors scanId).getD 0 = offset lines b
    ∧ (s.inventoryPageBefore host sha256 cutoff limit scanId).1 = .ok page
    ∧ b ≤ i ∧ i < b + page.scanned

/-- So many pages one after another, and no line is missed. -/
def LocalStore.GoesRound (host : Host) (sha256 : List UInt8 → String) (limit : Int)
    (scanId : String) (lines : List String) (s : LocalStore) : Prop :=
  ∀ cutoffs : List Time,
    (lines.length + limit.toNat - 1) / limit.toNat + 1 ≤ cutoffs.length →
    ∀ i, i < lines.length →
      CyclicScan.Scans (LocalStore.turn host sha256 limit scanId)
        (LocalStore.ScansLine host sha256 limit scanId lines) cutoffs s i

theorem Framed.goesRound {lines : List String} {scanId : String} {b : Nat}
    (h : Framed lines scanId s b) (hscan : checkScanId scanId = .ok ())
    (hname : host.takes (LocalStore.temporaryCursor scanId) = true) {limit : Int}
    (hlimit : 1 ≤ limit) : s.GoesRound host sha256 limit scanId lines := by
  intro cutoffs hcutoffs i hi
  refine (steps_nextLine lines.length limit.toNat).scans (by omega)
    (fun s p cutoff (hs : Framed lines scanId s p) => hs.page hscan hname cutoff hlimit)
    (fun s p cutoff i hs hle hlt hi => ?_) h h.within hcutoffs hi
  refine ⟨p, _, hs.cursor, by rw [page_eq hs hscan hname cutoff hlimit], hle, ?_⟩
  dsimp only
  omega

/-! ## The store in memory -/

/-- The inventory is this list, and the scan's cursor stands at one of its entries or at its end. -/
structure Listed (keys : List String) (scanId : String) (t : MemoryStore) (c : Nat) : Prop where
  inventory : t.inventory = keys
  cursor : (t.cursors scanId).getD 0 = c
  within : c ≤ keys.length

/-- The entry the next page starts at. -/
def nextEntry (n limit c : Nat) : Nat :=
  if n ≤ c + min limit (n - c) then 0 else c + min limit (n - c)

theorem steps_nextEntry (n limit : Nat) : CyclicScan.Steps n limit (nextEntry n limit) where
  within p hp := by
    have hmin : min limit (n - p) = limit := by omega
    unfold nextEntry
    rw [hmin]
    exact if_neg (by omega)
  exact p hp := .inr (if_pos (by omega))
  beyond p hp hlt := if_pos (by omega)

variable (sha256) in
/-- **One page of the store in memory.** -/
theorem memory_page_eq {keys : List String} {scanId : String} {c : Nat}
    (h : Listed keys scanId t c) (hscan : checkScanId scanId = .ok ()) (cutoff : Time) {limit : Int}
    (hlimit : 1 ≤ limit) :
    ∃ wrapped, t.inventoryPageBefore sha256 cutoff limit scanId
      = (.ok ⟨picked (t.candidate sha256 cutoff) ((keys.drop c).take limit.toNat) [],
          min limit.toNat (keys.length - c), nextEntry keys.length limit.toNat c, wrapped⟩,
        { t with
          cursors := Function.update t.cursors scanId
            (some (nextEntry keys.length limit.toNat c)) }) := by
  have hpositive : positiveLimit limit = .ok () := if_neg (by omega)
  have hlength : ((keys.drop c).take limit.toNat).length = min limit.toNat (keys.length - c) := by
    rw [List.length_take, List.length_drop]
  refine ⟨decide (keys.length ≤ c + min limit.toNat (keys.length - c)), ?_⟩
  unfold MemoryStore.inventoryPageBefore
  rw [hpositive, hscan, h.inventory, h.cursor]
  change (Except.ok (AttemptInventoryPage.mk (t.collect sha256 cutoff _ [] []) _ _ _), _) = _
  rw [collect_eq, hlength, List.nil_append]
  simp only [decide_eq_true_eq]
  rfl

theorem Listed.page {keys : List String} {scanId : String} {c : Nat} (h : Listed keys scanId t c)
    (hscan : checkScanId scanId = .ok ()) (cutoff : Time) {limit : Int} (hlimit : 1 ≤ limit) :
    Listed keys scanId (t.inventoryPageBefore sha256 cutoff limit scanId).2
      (nextEntry keys.length limit.toNat c) := by
  obtain ⟨wrapped, hpage⟩ := memory_page_eq sha256 h hscan cutoff hlimit
  rw [hpage]
  refine ⟨h.inventory, ?_, (steps_nextEntry _ _).le h.within⟩
  dsimp only
  rw [Function.update_self]
  rfl

/-- What a page may hold of the entries it scanned: the old enough objects, each once. -/
def OldStored (sha256 : List UInt8 → String) (t : MemoryStore) (cutoff : Time) (keys : List String)
    (objects : List AttemptObject) : Prop :=
  (objects.map AttemptObject.storageKey).Nodup ∧ ∀ o, o ∈ objects ↔ o.storageKey ∈ keys
    ∧ ∃ stored, t.objects.lookup o.storageKey = some stored
      ∧ o = MemoryStore.objectOf sha256 o.storageKey stored ∧ stored.created < cutoff

theorem memory_candidate_iff {cutoff : Time} {key : String} {o : AttemptObject} :
    t.candidate sha256 cutoff key = some o ↔ ∃ stored, t.objects.lookup key = some stored
      ∧ o = MemoryStore.objectOf sha256 key stored ∧ stored.created < cutoff := by
  unfold MemoryStore.candidate
  cases t.objects.lookup key with
  | none => exact ⟨fun h => (nomatch h), fun ⟨_, h, _⟩ => (nomatch h)⟩
  | some stored =>
      dsimp only
      by_cases hold : stored.created < cutoff
      · rw [if_pos hold, Option.some.injEq]
        refine ⟨fun h => ⟨stored, rfl, h.symm, hold⟩, fun ⟨_, heq, h, _⟩ => ?_⟩
        rw [h, Option.some.inj heq]
      · rw [if_neg hold]
        refine ⟨fun h => (nomatch h), fun ⟨_, heq, _, hlt⟩ => absurd hlt ?_⟩
        rwa [← Option.some.inj heq]

theorem memory_picked_old (cutoff : Time) (keys : List String) :
    OldStored sha256 t cutoff keys (picked (t.candidate sha256 cutoff) keys []) := by
  have hfind : ∀ key o, t.candidate sha256 cutoff key = some o → o.storageKey = key := by
    intro key o h
    obtain ⟨stored, _, rfl, _⟩ := memory_candidate_iff.mp h
    rfl
  refine ⟨picked_nodup hfind keys [], fun o => ?_⟩
  rw [mem_picked hfind, memory_candidate_iff]
  exact and_congr_right fun _ => and_iff_right List.not_mem_nil

variable (host sha256 etag) in
/-- A put appends its key or nothing. -/
theorem memory_put_kept (t : MemoryStore) (now : Time) (key : String)
    (chunks : List (List UInt8)) :
    (t.putStream host sha256 etag now key chunks).2.cursors = t.cursors
      ∧ ∃ more, (t.putStream host sha256 etag now key chunks).2.inventory
        = t.inventory ++ more := by
  unfold MemoryStore.putStream
  split
  · exact ⟨rfl, [], (List.append_nil _).symm⟩
  · dsimp only
    split
    · split
      · exact ⟨rfl, [key], rfl⟩
      · exact ⟨rfl, [key], rfl⟩
    · split
      · exact ⟨rfl, [key], rfl⟩
      · exact ⟨rfl, [key], rfl⟩

theorem Listed.kept {keys more : List String} {scanId : String} {c : Nat}
    (h : Listed keys scanId t c) (t' : MemoryStore)
    (hinventory : t'.inventory = t.inventory ++ more)
    (hcursor : t'.cursors scanId = t.cursors scanId) : Listed (keys ++ more) scanId t' c where
  inventory := by rw [hinventory, h.inventory]
  cursor := hcursor ▸ h.cursor
  within := by
    rw [List.length_append]
    exact Nat.le_add_right_of_le h.within

variable (host sha256 etag) in
/-- **Whatever is called**, the inventory only gets longer and the cursor stays within it. -/
theorem Listed.answer {keys : List String} {scanId : String} {c : Nat} (h : Listed keys scanId t c)
    (hscan : checkScanId scanId = .ok ()) (now : Time) (call : StoreCall) :
    ∃ more c', Listed (keys ++ more) scanId (t.answer host sha256 etag now call).2 c' := by
  have hsame : Listed (keys ++ []) scanId t c := by rwa [List.append_nil]
  cases call with
  | putStream key chunks =>
      obtain ⟨hcursors, more, hmore⟩ :=
        memory_put_kept host sha256 etag t now key chunks
      exact ⟨more, c, h.kept _ hmore (congrFun hcursors scanId)⟩
  | openReader key | stat key | listBefore cutoff => exact ⟨[], c, hsame⟩
  | delete key =>
      refine ⟨[], c, h.kept (t.delete host key).2 ?_ ?_⟩
      · unfold MemoryStore.delete
        split <;> exact (List.append_nil _).symm
      · unfold MemoryStore.delete
        split <;> rfl
  | inventoryPageBefore cutoff limit other =>
      by_cases hlimit : 1 ≤ limit
      · by_cases hother : scanId = other
        · subst hother
          exact ⟨[], _, hsame.page hscan cutoff hlimit⟩
        · refine ⟨[], c, h.kept (t.inventoryPageBefore sha256 cutoff limit other).2 ?_ ?_⟩
          · unfold MemoryStore.inventoryPageBefore
            split <;> exact (List.append_nil _).symm
          · unfold MemoryStore.inventoryPageBefore
            split
            · rfl
            · exact Function.update_of_ne hother _ _
      · refine ⟨[], c, ?_⟩
        change Listed _ _ (t.inventoryPageBefore sha256 cutoff limit other).2 c
        unfold MemoryStore.inventoryPageBefore positiveLimit
        rw [if_pos (not_le.mp hlimit)]
        exact hsame

variable (host sha256 etag) in
theorem Listed.answers {scanId : String} (hscan : checkScanId scanId = .ok ())
    (calls : List (Time × StoreCall)) :
    ∀ {keys : List String} {t : MemoryStore} {c : Nat}, Listed keys scanId t c →
      ∃ more c', Listed (keys ++ more) scanId (t.answers host sha256 etag calls).2 c' := by
  induction calls with
  | nil =>
      intro keys t c h
      exact ⟨[], c, by rwa [List.append_nil]⟩
  | cons call calls ih =>
      intro keys t c h
      obtain ⟨more, c', hstep⟩ := h.answer host sha256 etag hscan call.1 call.2
      obtain ⟨more', c'', hrest⟩ := ih hstep
      rw [List.append_assoc] at hrest
      exact ⟨more ++ more', c'', hrest⟩

def MemoryStore.turn (sha256 : List UInt8 → String) (limit : Int) (scanId : String) (cutoff : Time)
    (t : MemoryStore) : MemoryStore := (t.inventoryPageBefore sha256 cutoff limit scanId).2

/-- The page scans the entry of that number. -/
def MemoryStore.ScansEntry (sha256 : List UInt8 → String) (limit : Int) (scanId : String)
    (t : MemoryStore) (cutoff : Time) (i : Nat) : Prop :=
  ∃ page, (t.inventoryPageBefore sha256 cutoff limit scanId).1 = .ok page
    ∧ (t.cursors scanId).getD 0 ≤ i ∧ i < (t.cursors scanId).getD 0 + page.scanned

/-- So many pages one after another, and no entry is missed. -/
def MemoryStore.GoesRound (sha256 : List UInt8 → String) (limit : Int) (scanId : String)
    (t : MemoryStore) : Prop :=
  ∀ cutoffs : List Time,
    (t.inventory.length + limit.toNat - 1) / limit.toNat + 1 ≤ cutoffs.length →
    ∀ i, i < t.inventory.length →
      CyclicScan.Scans (MemoryStore.turn sha256 limit scanId)
        (MemoryStore.ScansEntry sha256 limit scanId) cutoffs t i

theorem Listed.goesRound {keys : List String} {scanId : String} {c : Nat}
    (h : Listed keys scanId t c) (hscan : checkScanId scanId = .ok ()) {limit : Int}
    (hlimit : 1 ≤ limit) : t.GoesRound sha256 limit scanId := by
  intro cutoffs hcutoffs i hi
  rw [h.inventory] at hcutoffs hi
  refine (steps_nextEntry keys.length limit.toNat).scans (by omega)
    (fun t p cutoff (ht : Listed keys scanId t p) => ht.page hscan cutoff hlimit)
    (fun t p cutoff i ht hle hlt hi => ?_) h h.within hcutoffs hi
  obtain ⟨wrapped, hpage⟩ := memory_page_eq sha256 ht hscan cutoff hlimit
  refine ⟨_, by rw [hpage], ht.cursor ▸ hle, ?_⟩
  dsimp only
  rw [ht.cursor]
  omega

/-! ## Fair and bounded -/

/-- A page of the local store scans up to the limit and leaves its cursor at a line; pages one after
another go round; and so they do whatever was put in between. -/
structure LocalStore.Fair (host : Host) (sha256 : List UInt8 → String) (limit : Int)
    (scanId : String) (lines : List String) (s : LocalStore) (b : Nat) : Prop where
  page : ∀ cutoff, ∃ page b', (s.inventoryPageBefore host sha256 cutoff limit scanId).1 = .ok page
    ∧ page.scanned ≤ limit.toNat
    ∧ Framed lines scanId (s.inventoryPageBefore host sha256 cutoff limit scanId).2 b'
    ∧ OldObjects host sha256 s cutoff ((lines.drop b).take page.scanned) page.objects
  round : s.GoesRound host sha256 limit scanId lines
  later : ∀ calls, ∃ more b', Framed (lines ++ more) scanId (s.answers host sha256 calls).2 b'
    ∧ (s.answers host sha256 calls).2.GoesRound host sha256 limit scanId (lines ++ more)

/-- The same of the store in memory. -/
structure MemoryStore.Fair (host : Host) (sha256 : List UInt8 → String)
    (etag : String → List UInt8 → String) (limit : Int) (scanId : String) (keys : List String)
    (t : MemoryStore) (c : Nat) : Prop where
  page : ∀ cutoff, ∃ page c', (t.inventoryPageBefore sha256 cutoff limit scanId).1 = .ok page
    ∧ page.scanned ≤ limit.toNat
    ∧ Listed keys scanId (t.inventoryPageBefore sha256 cutoff limit scanId).2 c'
    ∧ OldStored sha256 t cutoff ((keys.drop c).take page.scanned) page.objects
  round : t.GoesRound sha256 limit scanId
  later : ∀ calls, ∃ more c', Listed (keys ++ more) scanId (t.answers host sha256 etag calls).2 c'
    ∧ (t.answers host sha256 etag calls).2.GoesRound sha256 limit scanId

/-- Taking up to the limit is taking what a page scans. -/
theorem take_scanned {α : Type} (items : List α) (limit b : Nat) :
    (items.drop b).take (min limit (items.length - b)) = (items.drop b).take limit := by
  rw [← List.length_drop, List.take_eq_take_iff]
  omega

/-- **Inventory paging is fair and bounded**, in both stores; in the local one for the scans whose
cursors the file system can name. -/
theorem inventory_paging_fair (host : Host) (sha256 : List UInt8 → String)
    (etag : String → List UInt8 → String) {scanId : String} (hscan : checkScanId scanId = .ok ())
    {limit : Int} (hlimit : 1 ≤ limit) {lines : List String} {s : LocalStore} {b : Nat}
    (hs : Framed lines scanId s b)
    {keys : List String} {t : MemoryStore} {c : Nat} (ht : Listed keys scanId t c) :
    (host.takes (LocalStore.temporaryCursor scanId) = true →
      s.Fair host sha256 limit scanId lines b)
      ∧ t.Fair host sha256 etag limit scanId keys c := by
  refine ⟨fun hname => ⟨fun cutoff => ?_, hs.goesRound hscan hname hlimit, fun calls => ?_⟩,
    ⟨fun cutoff => ?_, ht.goesRound hscan hlimit, fun calls => ?_⟩⟩
  · refine ⟨_, _, by rw [page_eq hs hscan hname cutoff hlimit], Nat.min_le_left _ _,
      hs.page hscan hname cutoff hlimit, ?_⟩
    dsimp only
    rw [take_scanned]
    exact picked_old cutoff _
  · obtain ⟨more, b', hmore⟩ := hs.answers sha256 hscan hname calls
    exact ⟨more, b', hmore, hmore.goesRound hscan hname hlimit⟩
  · obtain ⟨wrapped, hpage⟩ := memory_page_eq sha256 ht hscan cutoff hlimit
    refine ⟨_, _, by rw [hpage], Nat.min_le_left _ _, ht.page hscan cutoff hlimit, ?_⟩
    dsimp only
    rw [take_scanned]
    exact memory_picked_old cutoff _
  · obtain ⟨more, c', hmore⟩ := ht.answers host sha256 etag hscan calls
    exact ⟨more, c', hmore, hmore.goesRound hscan hlimit⟩

/-! ### A line or a name too long -/

/-- A journal of one line, longer than a record may be. -/
def overlongStore : LocalStore :=
  { LocalStore.empty with journal := some (List.replicate 600 'a' ++ ['\n']) }

/-- A scan of 193 letters, whose cursor's temporary has a name of 256 bytes. -/
def overlongScan : String := String.ofList (List.replicate 193 'a')

/-- The page raises, and no page ever gets past the line, or leaves a cursor for such a scan. -/
theorem overlong_line_raises :
    (overlongStore.inventoryPageBefore linux (fun _ => "") 1 1 "scan").1
        = .error (.runtime "attempt inventory contains an invalid record")
      ∧ (overlongStore.inventoryPageBefore linux (fun _ => "") 1 1 "scan").2.cursors "scan" = none
      ∧ (LocalStore.empty.inventoryPageBefore linux (fun _ => "") 1 1 overlongScan).1 = .error .os
      ∧ (LocalStore.empty.inventoryPageBefore linux (fun _ => "") 1 1 overlongScan).2.cursors
          overlongScan = none := by
  decide +kernel

/-- Three lines, one of them no key, and a cursor in between; and a list with its cursor at the
end. -/
def midwayStore : LocalStore :=
  { LocalStore.empty with
    journal := some (journalOf [sampleKey, "noise", sampleKey])
    cursors := fun _ => some (offset [sampleKey, "noise", sampleKey] 1) }

def midwayMemory : MemoryStore :=
  { MemoryStore.empty with inventory := [sampleKey, sampleKey], cursors := fun _ => some 2 }

theorem midway_paging_fair :
    midwayStore.Fair linux (fun _ => "") 2 "scan" [sampleKey, "noise", sampleKey] 1
      ∧ midwayMemory.Fair linux (fun _ => "") (fun _ _ => "e") 2 "scan"
        [sampleKey, sampleKey] 2 := by
  have hcomplete : CompleteLines [sampleKey, "noise", sampleKey] := by
    unfold CompleteLines
    decide +kernel
  have hframed : Framed [sampleKey, "noise", sampleKey] "scan" midwayStore 1 :=
    ⟨hcomplete, Option.getD_some, nofun, Option.getD_some, by decide⟩
  have hlisted : Listed [sampleKey, sampleKey] "scan" midwayMemory 2 :=
    ⟨by rfl, Option.getD_some, by decide⟩
  have hfair := inventory_paging_fair linux (fun _ => "") (fun _ _ => "e") rfl
    (by decide : (1 : Int) ≤ 2) hframed hlisted
  exact ⟨hfair.1 (by decide +kernel), hfair.2⟩

end AttemptStorage

end NanoAural
