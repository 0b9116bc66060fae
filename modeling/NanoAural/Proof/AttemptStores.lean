import NanoAural.Durable.AttemptStorage
import NanoAural.Proof.AttemptKeysExact

/-!
# One store for another

The directory tree and the dictionary hold the same objects, call by call. The
relation between them says where an object lies in the tree, which directories
the journal accounts for, and that a cursor into the journal file is a position
in the list of keys.

They part ways where the runs below stay out of: at a delete below a directory
that was never made, at a page that ends where the journal ends, and at names and
records that are too long for a file system or the journal.
-/

namespace NanoAural

open Relational

namespace AttemptStorage

open AttemptKeys (components)

variable {host : Host}

/-! ## Keys -/

/-- The directory of a key. -/
def directory (key : String) : List String := (components key).dropLast

/-- The directory of its attempt, two above. -/
def attemptDirectory (key : String) : List String := (directory key).take 3

theorem components_inj {key key' : String} (h : components key = components key') : key = key' := by
  have hmap := List.map_injective_iff.mpr (fun a b hab => String.ofList_injective hab) h
  have hlist := congrArg ['/'].intercalate hmap
  rw [List.intercalate_splitOn, List.intercalate_splitOn] at hlist
  exact String.toList_injective hlist

/-- A valid key is one the parser accepts. -/
theorem accepted_of_valid {key : String} (h : isAttemptKey host key = true) :
    Nonempty (AttemptKeys.Accepted host.digits key) := by
  unfold isAttemptKey at h
  cases hparsed : AttemptKeys.parseAttemptKey host.digits key with
  | ok parts => exact AttemptKeys.accepted_of_ok hparsed
  | error e =>
      rw [hparsed] at h
      cases h

theorem parseAttemptKey_valid {key : String} (h : isAttemptKey host key = true) :
    parseAttemptKey host key = .ok () := by
  unfold isAttemptKey at h
  unfold parseAttemptKey
  cases hparsed : AttemptKeys.parseAttemptKey host.digits key with
  | ok parts => rfl
  | error e =>
      rw [hparsed] at h
      cases h

theorem parseAttemptKey_invalid {key : String} (h : ¬ isAttemptKey host key = true) :
    parseAttemptKey host key = .error keyInvalid := by
  unfold isAttemptKey at h
  unfold parseAttemptKey
  cases hparsed : AttemptKeys.parseAttemptKey host.digits key with
  | ok parts =>
      rw [hparsed] at h
      exact absurd rfl h
  | error e =>
      rw [AttemptKeys.parseAttemptKey_error hparsed]
      rfl

/-- A valid key has six components. -/
theorem isAttemptKey_components {key : String} (h : isAttemptKey host key = true) :
    (components key).length = 6 := by
  obtain ⟨k⟩ := accepted_of_valid h
  rw [k.components]
  rfl

theorem isAttemptKey_newline {key : String} (h : isAttemptKey host key = true) :
    '\n' ∉ key.toList := by
  obtain ⟨k⟩ := accepted_of_valid h
  exact k.newline

/-! ## Names -/

/-- The file system takes the names of the key's directories. -/
def Nameable (host : Host) (key : String) : Prop := ∀ part ∈ directory key, host.takes part = true

theorem takeName_ok {name : String} (h : host.takes name = true) : host.takeName name = .ok () :=
  if_pos h

theorem takeName_long {name : String} (h : host.takes name = false) :
    host.takeName name = .error .os := if_neg (by rw [h]; exact Bool.false_ne_true)

/-- A word of no more bytes than a temporary's name. -/
theorem takes_word {word : String} (h : AttemptKeys.Word word) (hlen : word.toList.length ≤ 41) :
    host.takes word = true := by
  refine FileNames.takes_iff.mpr fun n hn => ?_
  rw [h.utf8ByteSize]
  exact Nat.le_trans hlen (host.names_least n hn)

/-- Only the name of the epoch's directory can be too long. -/
theorem directory_eq {key : String} (h : isAttemptKey host key = true) :
    ∃ epoch kind, directory key = attemptDirectory key ++ [epoch, kind] ∧
      (∀ part ∈ attemptDirectory key, host.takes part = true) ∧ host.takes kind = true := by
  obtain ⟨k⟩ := accepted_of_valid h
  unfold attemptDirectory directory
  rw [k.components]
  refine ⟨"epoch-" ++ k.epoch, k.kind.value, rfl, fun part hpart => ?_, ?_⟩
  · rcases List.mem_cons.mp hpart with rfl | hpart
    · exact takes_word AttemptKeys.word_attempts (by decide)
    · rcases List.mem_cons.mp hpart with rfl | hpart
      · exact takes_word (AttemptKeys.word_uuidText _)
          (by rw [AttemptKeys.uuidText_length]; decide)
      · rw [List.mem_singleton.mp hpart]
        exact takes_word (AttemptKeys.word_uuidText _)
          (by rw [AttemptKeys.uuidText_length]; decide)
  · refine takes_word (AttemptKeys.word_kind _) ?_
    cases k.kind with
    | output => decide
    | manifest => decide

/-! ## Directories -/

/-- No file lies where a directory of the path should. -/
def Unobstructed (s : LocalStore) (done rest : List String) : Prop :=
  ∀ p, p ≠ [] → p <+: rest → s.files (done ++ p) = none

theorem Unobstructed.head {s : LocalStore} {done rest : List String} {c : String}
    (h : Unobstructed s done (c :: rest)) : s.files (done ++ [c]) = none :=
  h [c] (by simp) (List.prefix_append [c] rest)

theorem Unobstructed.tail {s : LocalStore} {done rest : List String} {c : String}
    (h : Unobstructed s done (c :: rest)) : Unobstructed s (done ++ [c]) rest := by
  intro p _ hp
  rw [List.append_assoc]
  exact h ([c] ++ p) (by simp) ((List.prefix_cons_inj c).mpr hp)

theorem makeDirectory_free {s : LocalStore} {path : List String} (h : s.files path = none) :
    ∃ dirs, s.makeDirectory path = { s with dirs := dirs } ∧
      ∀ q, dirs q = true ↔ s.dirs q = true ∨ q = path := by
  unfold LocalStore.makeDirectory
  rw [h, Option.isSome_none, Bool.or_false]
  by_cases hthere : s.dirs path = true
  · rw [if_pos hthere]
    refine ⟨s.dirs, rfl, fun q => ⟨.inl, ?_⟩⟩
    rintro (hq | rfl)
    · exact hq
    · exact hthere
  · rw [if_neg hthere]
    refine ⟨_, rfl, fun q => ?_⟩
    by_cases hq : q = path
    · rw [hq, Function.update_self]
      exact ⟨fun _ => .inr rfl, fun _ => rfl⟩
    · rw [Function.update_of_ne hq]
      exact ⟨.inl, fun hor => hor.resolve_right hq⟩

/-- `_parent_fd` with `create=True` makes the directories that are missing. -/
theorem makeParents_ok (rest : List String) : ∀ (done : List String) (s : LocalStore),
    (∀ part ∈ rest, host.takes part = true) → Unobstructed s done rest →
    ∃ dirs, LocalStore.makeParents host done rest s = (.ok (), { s with dirs := dirs }) ∧
      ∀ q, dirs q = true ↔ s.dirs q = true ∨ ∃ p, p ≠ [] ∧ p <+: rest ∧ q = done ++ p := by
  induction rest with
  | nil =>
      intro done s _ _
      refine ⟨s.dirs, rfl, fun q => ⟨.inl, ?_⟩⟩
      rintro (h | ⟨p, hp, hprefix, _⟩)
      · exact h
      · exact absurd (List.prefix_nil.mp hprefix) hp
  | cons c rest ih =>
      intro done s hnames h
      obtain ⟨dirs, hmake, hdirs⟩ := makeDirectory_free h.head
      obtain ⟨dirs', hrest, hdirs'⟩ := ih (done ++ [c]) { s with dirs := dirs }
        (fun part hpart => hnames part (List.mem_cons_of_mem _ hpart)) h.tail
      refine ⟨dirs', ?_, fun q => ?_⟩
      · unfold LocalStore.makeParents LocalStore.openDirectory
        rw [takeName_ok (hnames c List.mem_cons_self)]
        dsimp only
        rw [hmake]
        dsimp only
        rw [if_pos ((hdirs _).mpr (.inr rfl))]
        exact hrest
      · rw [hdirs', hdirs]
        constructor
        · rintro ((hq | rfl) | ⟨p, hp, hprefix, rfl⟩)
          · exact .inl hq
          · exact .inr ⟨[c], by simp, List.prefix_append [c] rest, rfl⟩
          · exact .inr ⟨c :: p, by simp, (List.prefix_cons_inj c).mpr hprefix, by simp⟩
        · rintro (hq | ⟨p, hp, hprefix, rfl⟩)
          · exact .inl (.inl hq)
          · cases p with
            | nil => exact absurd rfl hp
            | cons c' p =>
                obtain ⟨rfl, htail⟩ := List.cons_prefix_cons.mp hprefix
                by_cases hnil : p = []
                · rw [hnil]
                  exact .inl (.inr rfl)
                · exact .inr ⟨p, hnil, htail, by simp⟩

/-- It stops at a name that is too long. -/
theorem makeParents_long (rest : List String) : ∀ (done : List String) (s : LocalStore),
    (∃ part ∈ rest, host.takes part = false) → Unobstructed s done rest →
    (LocalStore.makeParents host done rest s).1 = .error .os := by
  induction rest with
  | nil =>
      rintro done s ⟨part, hpart, _⟩
      exact absurd hpart (by simp)
  | cons c rest ih =>
      rintro done s ⟨part, hpart, hlong⟩ h
      unfold LocalStore.makeParents LocalStore.openDirectory
      cases hc : host.takes c with
      | false =>
          rw [takeName_long hc]
      | true =>
          rw [takeName_ok hc]
          obtain ⟨dirs, hmake, hdirs⟩ := makeDirectory_free h.head
          dsimp only
          rw [hmake]
          dsimp only
          rw [if_pos ((hdirs _).mpr (.inr rfl))]
          refine ih (done ++ [c]) { s with dirs := dirs } ⟨part, ?_, hlong⟩ h.tail
          refine (List.mem_cons.mp hpart).resolve_left fun heq => ?_
          rw [heq, hc] at hlong
          cases hlong

theorem openParents_ok {s : LocalStore} (rest : List String) : ∀ done : List String,
    (∀ part ∈ rest, host.takes part = true) →
    (∀ p, p ≠ [] → p <+: rest → s.dirs (done ++ p) = true) →
    s.openParents host done rest = .ok () := by
  induction rest with
  | nil => exact fun _ _ _ => rfl
  | cons c rest ih =>
      intro done hnames h
      unfold LocalStore.openParents LocalStore.openDirectory
      rw [takeName_ok (hnames c List.mem_cons_self),
        if_pos (h [c] (by simp) (List.prefix_append [c] rest))]
      refine ih (done ++ [c]) (fun part hpart => hnames part (List.mem_cons_of_mem _ hpart))
        fun p _ hprefix => ?_
      rw [List.append_assoc]
      exact h ([c] ++ p) (by simp) ((List.prefix_cons_inj c).mpr hprefix)

/-- Where a directory is missing before a name is too long, `_parent_fd` with `create=False` finds
none. -/
theorem openParents_missing {s : LocalStore} (rest : List String) : ∀ done : List String,
    Unobstructed s done rest → (∃ p, p ≠ [] ∧ p <+: rest ∧ s.dirs (done ++ p) = false ∧
      ∀ part ∈ p, host.takes part = true) →
    s.openParents host done rest = .error .fileNotFound := by
  induction rest with
  | nil =>
      rintro done _ ⟨p, hp, hprefix, _⟩
      exact absurd (List.prefix_nil.mp hprefix) hp
  | cons c rest ih =>
      rintro done hfree ⟨p, hp, hprefix, hnot, hnames⟩
      cases p with
      | nil => exact absurd rfl hp
      | cons c' p =>
          obtain ⟨rfl, htail⟩ := List.cons_prefix_cons.mp hprefix
          unfold LocalStore.openParents LocalStore.openDirectory
          rw [takeName_ok (hnames c' List.mem_cons_self), hfree.head]
          by_cases hthere : s.dirs (done ++ [c']) = true
          · rw [if_pos hthere]
            refine ih (done ++ [c']) hfree.tail ⟨p, ?_, htail, by rwa [List.append_assoc],
              fun part hpart => hnames part (List.mem_cons_of_mem _ hpart)⟩
            rintro rfl
            exact absurd (hthere.symm.trans hnot) (by simp)
          · rw [if_neg hthere]
            rfl

theorem openParents_append {s : LocalStore} (outer rest : List String) : ∀ done : List String,
    s.openParents host done (outer ++ rest)
      = (do s.openParents host done outer; s.openParents host (done ++ outer) rest) := by
  induction outer with
  | nil =>
      intro done
      rw [List.append_nil]
      rfl
  | cons c outer ih =>
      intro done
      change (do host.takeName c; s.openDirectory (done ++ [c])
                 s.openParents host (done ++ [c]) (outer ++ rest))
        = (do (do host.takeName c; s.openDirectory (done ++ [c])
                  s.openParents host (done ++ [c]) outer)
              s.openParents host (done ++ c :: outer) rest)
      rw [ih (done ++ [c]), List.append_assoc]
      simp only [bind_assoc, List.singleton_append]

/-- It goes through only where the directories are there. -/
theorem dirs_of_openParents {s : LocalStore} (rest : List String) : ∀ done : List String,
    s.openParents host done rest = .ok () → rest ≠ [] → s.dirs (done ++ rest) = true := by
  induction rest with
  | nil => exact fun _ _ hne => absurd rfl hne
  | cons c rest ih =>
      intro done h _
      unfold LocalStore.openParents at h
      rw [except_bind_ok] at h
      obtain ⟨_, _, h⟩ := h
      rw [except_bind_ok] at h
      obtain ⟨_, hopen, h⟩ := h
      have hthere : s.dirs (done ++ [c]) = true := by
        unfold LocalStore.openDirectory at hopen
        split at hopen
        · assumption
        · split at hopen <;> cases hopen
      by_cases hrest : rest = []
      · rw [hrest]
        exact hthere
      · have := ih (done ++ [c]) h hrest
        rwa [List.append_assoc] at this

/-! ## The journal -/

/-- The journal of the keys that were put. -/
def journalOf (keys : List String) : List Char := keys.flatMap fun key => key.toList ++ ['\n']

/-- Where in the journal the entries after the first so many begin. -/
def offset (keys : List String) (n : Nat) : Nat := (journalOf (keys.take n)).length

theorem journalOf_append (keys keys' : List String) :
    journalOf (keys ++ keys') = journalOf keys ++ journalOf keys' := List.flatMap_append ..

theorem journalOf_cons (key : String) (keys : List String) :
    journalOf (key :: keys) = key.toList ++ '\n' :: journalOf keys := by
  unfold journalOf
  rw [List.flatMap_cons, List.append_assoc]
  rfl

theorem drop_offset (keys : List String) (n : Nat) :
    (journalOf keys).drop (offset keys n) = journalOf (keys.drop n) := by
  conv => enter [1, 2]; rw [← List.take_append_drop n keys]
  rw [journalOf_append]
  exact List.drop_left

/-- An entry is read back as it was written. -/
theorem readLine_entry (line rest : List Char) : ∀ n, line.length < n → '\n' ∉ line →
    readLine n (line ++ '\n' :: rest) = line ++ ['\n'] := by
  induction line with
  | nil =>
      intro n hn _
      cases n with
      | zero => omega
      | succ n => rfl
  | cons c line ih =>
      intro n hn hnot
      rw [List.mem_cons, not_or] at hnot
      cases n with
      | zero => exact absurd hn (by simp)
      | succ n =>
          rw [List.length_cons] at hn
          have hc : (c == '\n') = false := beq_eq_false_iff_ne.mpr fun h => hnot.1 h.symm
          rw [List.cons_append]
          unfold readLine
          rw [hc, ih n (by omega) hnot.2]
          rfl

theorem offset_add (keys : List String) (n m : Nat) :
    offset keys (n + m) = offset keys n + offset (keys.drop n) m := by
  unfold offset
  rw [List.take_add, journalOf_append, List.length_append]

/-! ## Items -/

section Items

variable {α β : Type} [BEq α] [LawfulBEq α] {items : List (α × β)} {k : α} {b : β}

theorem mem_of_lookup (h : items.lookup k = some b) : (k, b) ∈ items := by
  obtain ⟨l₁, l₂, rfl, _⟩ := List.lookup_eq_some_iff.mp h
  simp

theorem lookup_of_mem (hnodup : (items.map Prod.fst).Nodup) (h : (k, b) ∈ items) :
    items.lookup k = some b := by
  cases hlook : items.lookup k with
  | none => exact absurd (List.lookup_eq_none_iff.mp hlook _ h) (by simp)
  | some c =>
      have hsame := List.inj_on_of_nodup_map hnodup (mem_of_lookup hlook) h rfl
      rw [(Prod.mk.inj hsame).2]

theorem lookup_iff (hnodup : (items.map Prod.fst).Nodup) :
    items.lookup k = some b ↔ (k, b) ∈ items := ⟨mem_of_lookup, lookup_of_mem hnodup⟩

end Items

/-! ## Scanning -/

variable {sha256 : List UInt8 → String} {etag : String → List UInt8 → String} {s : LocalStore}
  {t : MemoryStore}

/-- The objects of some keys, each key once. -/
def picked (find : String → Option AttemptObject) : List String → List String → List AttemptObject
  | [], _ => []
  | key :: keys, seen =>
      if seen.contains key then picked find keys seen
      else (find key).toList ++ picked find keys (key :: seen)

theorem picked_map {find find' : String → Option AttemptObject} {f : AttemptObject → AttemptObject}
    (keys : List String) : ∀ seen : List String, (∀ key ∈ keys, (find key).map f = find' key) →
      (picked find keys seen).map f = picked find' keys seen := by
  induction keys with
  | nil => exact fun _ _ => rfl
  | cons key keys ih =>
      intro seen h
      have hrest := fun seen => ih seen fun k hk => h k (List.mem_cons_of_mem _ hk)
      unfold picked
      by_cases hseen : seen.contains key = true
      · rw [if_pos hseen, if_pos hseen]
        exact hrest seen
      · rw [if_neg hseen, if_neg hseen, List.map_append, hrest (key :: seen),
          ← h key List.mem_cons_self]
        cases find key <;> rfl

theorem collect_eq (cutoff : Time) (keys : List String) :
    ∀ (seen : List String) (objects : List AttemptObject),
      t.collect sha256 cutoff keys seen objects
        = objects ++ picked (t.candidate sha256 cutoff) keys seen := by
  induction keys with
  | nil => exact fun _ _ => (List.append_nil _).symm
  | cons key keys ih =>
      intro seen objects
      unfold MemoryStore.collect picked
      by_cases hseen : seen.contains key = true
      · rw [if_pos hseen, if_pos hseen]
        exact ih seen objects
      · rw [if_neg hseen, if_neg hseen, ih, List.append_assoc]

/-- Keys the journal can hold and the file system name. -/
def Recordable (host : Host) (keys : List String) : Prop :=
  ∀ key ∈ keys, isAttemptKey host key = true ∧ Nameable host key
    ∧ key.toList.length < maxInventoryLine

/-- Lines the scan takes for records, whether they are keys or not. -/
def CompleteLines (lines : List String) : Prop :=
  ∀ line ∈ lines, '\n' ∉ line.toList ∧ line.toList.length < maxInventoryLine

theorem Recordable.lines {keys : List String} (h : Recordable host keys) : CompleteLines keys :=
  fun key hkey => ⟨isAttemptKey_newline (h key hkey).1, (h key hkey).2.2⟩

/-- A line that is no key leads to no object. -/
theorem candidate_invalid {cutoff : Time} {key : String} (h : isAttemptKey host key = false) :
    s.candidate host sha256 cutoff key = none := by
  have hcreated : s.createdAt host key = .error keyInvalid := by
    unfold LocalStore.createdAt LocalStore.reach
    rw [parseAttemptKey_invalid (by rw [h]; exact Bool.false_ne_true)]
    rfl
  unfold LocalStore.candidate
  rw [hcreated]

/-- What was seen matters only where there is something to find. -/
theorem picked_seen {find : String → Option AttemptObject} (keys : List String) :
    ∀ seen seen' : List String, (∀ key, find key ≠ none → (key ∈ seen ↔ key ∈ seen')) →
      picked find keys seen = picked find keys seen' := by
  induction keys with
  | nil => exact fun _ _ _ => rfl
  | cons key keys ih =>
      intro seen seen' h
      have hcons : ∀ k, find k ≠ none → (k ∈ key :: seen ↔ k ∈ key :: seen') := fun k hk => by
        rw [List.mem_cons, List.mem_cons, h k hk]
      unfold picked
      cases hfind : find key with
      | some o =>
          have hiff : seen.contains key = seen'.contains key := by
            rw [Bool.eq_iff_iff, List.contains_iff_mem, List.contains_iff_mem]
            exact h key (by rw [hfind]; exact Option.some_ne_none o)
          rw [hiff, ih seen seen' h, ih _ _ hcons]
      | none =>
          have hskip : ∀ k, find k ≠ none → k ≠ key := fun k hk heq => hk (heq ▸ hfind)
          have hleft : picked find keys (key :: seen) = picked find keys seen' :=
            ih _ _ fun k hk => by
              rw [List.mem_cons, h k hk]
              exact or_iff_right (hskip k hk)
          have hright : picked find keys seen = picked find keys (key :: seen') :=
            ih _ _ fun k hk => by
              rw [List.mem_cons, h k hk]
              exact (or_iff_right (hskip k hk)).symm
          rw [hleft, ← hright, ih seen seen' h]
          simp

/-- **What a scan of a journal yields**: the entries up to the limit, and whether it met the end. -/
theorem scanLines_eq (cutoff : Time) (n : Nat) : ∀ (lines seen : List String)
    (page : AttemptInventoryPage), CompleteLines lines → page.wrapped = false →
    s.scanLines host sha256 cutoff n (journalOf lines) seen page = .ok
      ⟨page.objects ++ picked (s.candidate host sha256 cutoff) (lines.take n) seen,
        page.scanned + min n lines.length,
        if lines.length < n then 0 else page.nextCursor + offset lines n,
        decide (lines.length < n)⟩ := by
  induction n with
  | zero =>
      intro keys seen page _ hwrapped
      obtain ⟨objects, scanned, nextCursor, wrapped⟩ := page
      dsimp only at hwrapped
      subst hwrapped
      simp [LocalStore.scanLines, picked, offset, journalOf]
  | succ n ih =>
      intro keys seen page hkeys hwrapped
      cases keys with
      | nil => simp [LocalStore.scanLines, journalOf, readLine, picked]
      | cons key keys =>
          have hkey := hkeys key List.mem_cons_self
          have hrest : CompleteLines keys := fun k hk => hkeys k (List.mem_cons_of_mem _ hk)
          have hline : readLine (maxInventoryLine + 1) (journalOf (key :: keys))
              = key.toList ++ ['\n'] := by
            rw [journalOf_cons]
            exact readLine_entry _ _ _ (Nat.lt_succ_of_lt hkey.2) hkey.1
          have hdrop : (journalOf (key :: keys)).drop (key.toList ++ ['\n']).length
              = journalOf keys := by
            change ((key.toList ++ ['\n']) ++ journalOf keys).drop _ = _
            exact List.drop_left
          have hempty : (key.toList ++ ['\n']).isEmpty = false := by simp
          have hvalid : (decide (maxInventoryLine < (key.toList ++ ['\n']).length)
              || (key.toList ++ ['\n']).getLast? != some '\n') = false := by
            rw [List.getLast?_concat, bne_self_eq_false, Bool.or_false, decide_eq_false_iff_not,
              List.length_append, List.length_singleton]
            exact Nat.not_lt.mpr hkey.2
          have hlength : offset (key :: keys) (n + 1)
              = (key.toList ++ ['\n']).length + offset keys n := by
            unfold offset
            rw [List.take_succ_cons]
            change ((key.toList ++ ['\n']) ++ journalOf (keys.take n)).length = _
            rw [List.length_append]
          -- The rest of the scan, whatever it has seen and found so far.
          have hscan : ∀ seen objects, s.scanLines host sha256 cutoff n (journalOf keys) seen
              ⟨objects, page.scanned + 1,
                page.nextCursor + (key.toList ++ ['\n']).length, page.wrapped⟩ = .ok
              ⟨objects ++ picked (s.candidate host sha256 cutoff) (keys.take n) seen,
                page.scanned + min (n + 1) (keys.length + 1),
                if keys.length + 1 < n + 1 then 0
                else page.nextCursor + ((key.toList ++ ['\n']).length + offset keys n),
                decide (keys.length + 1 < n + 1)⟩ := by
            intro seen objects
            refine (ih keys seen ⟨objects, page.scanned + 1,
              page.nextCursor + (key.toList ++ ['\n']).length, page.wrapped⟩ hrest hwrapped).trans ?_
            simp only [Except.ok.injEq, AttemptInventoryPage.mk.injEq, true_and]
            refine ⟨by omega, ?_, by simp⟩
            split
            · rw [if_pos (by omega)]
            · rw [if_neg (by omega)]
              omega
          unfold LocalStore.scanLines
          simp only [hline, hempty, hvalid, hdrop, Bool.false_eq_true, if_false,
            List.dropLast_concat, String.ofList_toList]
          rw [hlength, List.take_succ_cons, List.length_cons]
          unfold picked
          by_cases hseen : seen.contains key = true
          · rw [if_pos hseen, if_pos (by rw [hseen, Bool.or_true])]
            exact hscan seen page.objects
          · rw [if_neg hseen]
            cases hvalidKey : isAttemptKey host key with
            | false =>
                have hnone : s.candidate host sha256 cutoff key = none :=
                  candidate_invalid hvalidKey
                rw [if_pos (by rw [Bool.not_false, Bool.true_or]), hnone]
                refine (hscan seen page.objects).trans ?_
                rw [picked_seen (keys.take n) seen (key :: seen) fun k hk => ?_]
                · rfl
                · rw [List.mem_cons]
                  exact (or_iff_right fun heq : k = key => hk (heq ▸ hnone)).symm
            | true =>
                rw [if_neg (by rw [Bool.not_true, Bool.false_or]; exact hseen)]
                refine (hscan (key :: seen) _).trans ?_
                rw [List.append_assoc]

/-! ## The relation -/

/-- Both stores hold the same. -/
structure Alike (host : Host) (s : LocalStore) (t : MemoryStore) : Prop where
  keys : Recordable host t.inventory
  journal : s.journal.getD [] = journalOf t.inventory ∧ (s.journal = none → t.inventory = [])
  dirs : ∀ path, s.dirs path = true ↔ path ≠ [] ∧ ∃ key ∈ t.inventory, path <+: directory key
  placed : ∀ path file, s.files path = some file →
    ∃ key, isAttemptKey host key = true ∧ path = components key
  objects : ∀ key, isAttemptKey host key = true →
    s.files (components key) = (t.objects.lookup key).map fun o => ⟨o.data, o.created⟩
  known : ∀ item ∈ t.objects, item.1 ∈ t.inventory
  distinct : (t.objects.map Prod.fst).Nodup
  cursors : ∀ scanId, s.cursors scanId = (t.cursors scanId).map (offset t.inventory)
  within : ∀ scanId c, t.cursors scanId = some c → c ≤ t.inventory.length

variable (host) in
theorem alike_empty : Alike host .empty .empty where
  keys _ h := absurd h (by simp [MemoryStore.empty])
  journal := ⟨rfl, fun _ => rfl⟩
  dirs path := ⟨nofun, fun ⟨_, _, h, _⟩ => absurd h (by simp [MemoryStore.empty])⟩
  placed _ _ h := nomatch h
  objects _ _ := rfl
  known _ h := absurd h (by simp [MemoryStore.empty])
  distinct := List.nodup_nil
  cursors _ := rfl
  within _ _ h := nomatch h

theorem directory_length {key : String} (h : isAttemptKey host key = true) :
    (directory key).length = 5 := by
  unfold directory
  rw [List.length_dropLast, isAttemptKey_components h]

/-- No object lies on the way to another. -/
theorem Alike.unobstructed (h : Alike host s t) {key : String}
    (hkey : isAttemptKey host key = true) :
    Unobstructed s [] (directory key) := by
  intro p _ hp
  rw [List.nil_append]
  cases hfile : s.files p with
  | none => rfl
  | some file =>
      obtain ⟨key', hkey', rfl⟩ := h.placed p file hfile
      have hlen := hp.length_le
      rw [directory_length hkey, isAttemptKey_components hkey'] at hlen
      omega

/-- Nothing is made a directory where an object may lie. -/
theorem Alike.no_dir (h : Alike host s t) {key : String} (hkey : isAttemptKey host key = true) :
    s.dirs (components key) = false := by
  rw [Bool.eq_false_iff]
  intro hdir
  obtain ⟨_, key', hmem, hp⟩ := (h.dirs _).mp hdir
  have hlen := hp.length_le
  rw [directory_length (h.keys key' hmem).1, isAttemptKey_components hkey] at hlen
  omega

/-- The directories of a key that was put are there. -/
theorem Alike.opens (h : Alike host s t) {key key' : String} (hmem : key' ∈ t.inventory)
    (hdir : directory key' = directory key) : s.openParents host [] (directory key) = .ok () := by
  refine openParents_ok _ [] (fun part hpart => (h.keys key' hmem).2.1 part (hdir ▸ hpart))
    fun p hp hprefix => (h.dirs _).mpr ⟨hp, key', hmem, ?_⟩
  rwa [hdir]

/-- **Looking an object up** gives the same, up to how its absence is told. -/
theorem Alike.reach (h : Alike host s t) {key : String} (hkey : isAttemptKey host key = true)
    (hnames : Nameable host key) :
    s.reach host key = match t.objects.lookup key with
      | some o => .ok ⟨o.data, o.created⟩
      | none => .error .fileNotFound := by
  have hfiles := h.objects key hkey
  unfold LocalStore.reach
  rw [parseAttemptKey_valid hkey]
  change (do s.openParents host [] (directory key); s.regular (components key)) = _
  unfold LocalStore.regular
  rw [hfiles, h.no_dir hkey]
  cases hlook : t.objects.lookup key with
  | some o =>
      have hmem := h.known (key, o) (mem_of_lookup hlook)
      rw [h.opens hmem rfl]
      rfl
  | none =>
      by_cases hall : ∀ p, p ≠ [] → p <+: directory key → s.dirs ([] ++ p) = true
      · rw [openParents_ok _ [] hnames hall]
        rfl
      · push Not at hall
        obtain ⟨p, hp, hprefix, hnot⟩ := hall
        rw [openParents_missing _ [] (h.unobstructed hkey)
          ⟨p, hp, hprefix, Bool.eq_false_iff.mpr hnot,
            fun part hpart => hnames part (List.IsPrefix.subset hprefix hpart)⟩]
        rfl

/-- Nothing is stored under a key the file system does not take. -/
theorem Alike.unnameable (h : Alike host s t) {key : String} (hnames : ¬ Nameable host key) :
    t.objects.lookup key = none := by
  cases hlook : t.objects.lookup key with
  | none => rfl
  | some o =>
      exact absurd (h.keys key (h.known (key, o) (mem_of_lookup hlook))).2.1 hnames

/-- What the local store says of such a key: its attempt has a directory or has none. -/
theorem Alike.reach_unnameable (h : Alike host s t) {key : String}
    (hkey : isAttemptKey host key = true) (hnames : ¬ Nameable host key) :
    ((∃ key' ∈ t.inventory, attemptDirectory key' = attemptDirectory key) →
        s.reach host key = .error .os) ∧
      ((∀ key' ∈ t.inventory, attemptDirectory key' ≠ attemptDirectory key) →
        s.reach host key = .error .fileNotFound) := by
  obtain ⟨epoch, kind, hsplit, houter, hkind⟩ := directory_eq hkey
  have hprefix : attemptDirectory key <+: directory key := List.take_prefix _ _
  have hne : attemptDirectory key ≠ [] := fun hnil => by
    have := directory_length hkey
    rw [hsplit, hnil] at this
    exact absurd this (by simp)
  -- of the parts of a key only the epoch has no bound on its length
  have hepoch : host.takes epoch = false := by
    rw [Bool.eq_false_iff]
    intro htakes
    refine hnames fun part hpart => ?_
    rw [hsplit] at hpart
    rcases List.mem_append.mp hpart with hpart | hpart
    · exact houter part hpart
    · rcases List.mem_cons.mp hpart with rfl | hpart
      · exact htakes
      · rw [List.mem_singleton.mp hpart]
        exact hkind
  unfold LocalStore.reach
  rw [parseAttemptKey_valid hkey]
  change (_ → (do s.openParents host [] (directory key); s.regular (components key)) = _) ∧
    (_ → (do s.openParents host [] (directory key); s.regular (components key)) = _)
  constructor
  · rintro ⟨key', hmem, hsame⟩
    -- the directories above the epoch are there, so its own name is what is asked for
    have houterOk : s.openParents host [] (attemptDirectory key) = .ok () := by
      refine openParents_ok _ [] houter fun p hp hpre => (h.dirs _).mpr ⟨hp, key', hmem, ?_⟩
      exact hpre.trans (hsame ▸ List.take_prefix _ _)
    rw [hsplit, openParents_append, houterOk]
    unfold LocalStore.openParents
    rw [takeName_long hepoch]
    rfl
  · intro hnone
    -- nothing was put for this attempt, so the walk ends before the long name
    have hmissing : s.dirs ([] ++ attemptDirectory key) = false := by
      rw [List.nil_append, Bool.eq_false_iff]
      intro hdir
      obtain ⟨_, key', hmem, hpre⟩ := (h.dirs _).mp hdir
      refine hnone key' hmem ?_
      have htake := List.prefix_iff_eq_take.mp hpre
      have hlength : (attemptDirectory key).length = 3 := by
        unfold attemptDirectory
        rw [List.length_take, directory_length hkey]
        rfl
      rw [hlength] at htake
      exact htake.symm
    rw [openParents_missing _ [] (h.unobstructed hkey) ⟨_, hne, hprefix, hmissing, houter⟩]
    rfl

/-! ## Calls that read -/

theorem Alike.stat (h : Alike host s t) {key : String} (hkey : isAttemptKey host key = true)
    (hnames : Nameable host key) :
    s.stat host sha256 key = match t.objects.lookup key with
      | some o => .ok (MemoryStore.objectOf sha256 key o).untagged
      | none => .error .fileNotFound := by
  unfold LocalStore.stat
  rw [h.reach hkey hnames]
  cases t.objects.lookup key <;> rfl

theorem Alike.candidate (h : Alike host s t) (cutoff : Time) {key : String}
    (hkey : isAttemptKey host key = true) (hnames : Nameable host key) :
    (t.candidate sha256 cutoff key).map AttemptObject.untagged
      = s.candidate host sha256 cutoff key := by
  unfold LocalStore.candidate LocalStore.createdAt MemoryStore.candidate
  rw [h.reach hkey hnames, h.stat hkey hnames]
  cases t.objects.lookup key with
  | none => rfl
  | some o =>
      simp only [Except.map, MemoryStore.objectOf, AttemptObject.untagged]
      by_cases hold : o.created < cutoff
      · simp only [hold, Nat.not_le.mpr hold, if_true, if_false]
        rfl
      · simp [hold, Nat.not_lt.mp hold]

theorem Alike.cursor (h : Alike host s t) (scanId : String) :
    (s.cursors scanId).getD 0 = offset t.inventory ((t.cursors scanId).getD 0) := by
  rw [h.cursors scanId]
  cases t.cursors scanId with
  | none => rfl
  | some c => rfl

/-- A page of the journal from the entry a cursor stands at. -/
theorem Alike.pageFrom (h : Alike host s t) (cutoff : Time) {limit : Nat} (hlimit : 0 < limit)
    (c : Nat) :
    s.inventoryPageFrom host sha256 cutoff limit (offset t.inventory c) = .ok
      ⟨picked (s.candidate host sha256 cutoff) ((t.inventory.drop c).take limit) [],
        min limit (t.inventory.drop c).length,
        if (t.inventory.drop c).length < limit then 0 else offset t.inventory (c + limit),
        decide ((t.inventory.drop c).length < limit)⟩ := by
  unfold LocalStore.inventoryPageFrom
  obtain ⟨hjournal, hnone⟩ := h.journal
  cases hj : s.journal with
  | none =>
      rw [hnone hj]
      simp [picked, hlimit]
  | some journal =>
      rw [hj, Option.getD_some] at hjournal
      dsimp only
      have hrest : Recordable host (t.inventory.drop c) := fun k hk =>
        h.keys k (List.mem_of_mem_drop hk)
      rw [hjournal, drop_offset, scanLines_eq cutoff limit _ _ _ hrest.lines rfl, offset_add]
      simp

/-- The keys of a page, each once, lead to the same objects. -/
theorem Alike.picked (h : Alike host s t) (cutoff : Time) (c limit : Nat) :
    (picked (t.candidate sha256 cutoff) ((t.inventory.drop c).take limit) []).map
        AttemptObject.untagged
      = AttemptStorage.picked (s.candidate host sha256 cutoff)
        ((t.inventory.drop c).take limit) [] :=
  picked_map _ _ fun key hkey =>
    have hmem := h.keys key (List.mem_of_mem_drop (List.mem_of_mem_take hkey))
    h.candidate cutoff hmem.1 hmem.2.1

theorem Alike.moveCursor (h : Alike host s t) {scanId : String} {place n : Nat}
    (hplace : place = offset t.inventory n) (hn : n ≤ t.inventory.length) :
    Alike host { s with cursors := Function.update s.cursors scanId (some place) }
      { t with cursors := Function.update t.cursors scanId (some n) } := by
  refine { h with cursors := fun x => ?_, within := fun x c hc => ?_ }
  · dsimp only
    by_cases hx : x = scanId
    · rw [hx, Function.update_self, Function.update_self, hplace]
      rfl
    · rw [Function.update_of_ne hx, Function.update_of_ne hx]
      exact h.cursors x
  · dsimp only at hc ⊢
    by_cases hx : x = scanId
    · rw [hx, Function.update_self] at hc
      rw [← Option.some.inj hc]
      exact hn
    · rw [Function.update_of_ne hx] at hc
      exact h.within x c hc

/-- The name of a cursor is taken where that of its temporary is. -/
theorem takes_cursorName {scanId : String}
    (h : host.takes (LocalStore.temporaryCursor scanId) = true) :
    host.takes (LocalStore.cursorName scanId) = true := FileNames.takes_of_append h

/-- The cursor a page left behind is a place in the journal, unless it stopped where the journal
ends. -/
theorem Alike.page (h : Alike host s t) (cutoff : Time) (limit : Int) (scanId : String)
    (hstop : 0 < limit → checkScanId scanId = .ok () →
      host.takes (LocalStore.temporaryCursor scanId) = true ∧
        (t.inventory.length : Int) - (t.cursors scanId).getD 0 ≠ limit) :
    replyOf viewPage (s.inventoryPageBefore host sha256 cutoff limit scanId).1
        = replyOf viewPage (t.inventoryPageBefore sha256 cutoff limit scanId).1 ∧
      Alike host (s.inventoryPageBefore host sha256 cutoff limit scanId).2
        (t.inventoryPageBefore sha256 cutoff limit scanId).2 := by
  unfold LocalStore.inventoryPageBefore MemoryStore.inventoryPageBefore positiveLimit
  by_cases hlimit : limit < 1
  · simp only [hlimit, if_true]
    exact ⟨rfl, h⟩
  · simp only [hlimit, if_false]
    cases hscan : checkScanId scanId with
    | error e => exact ⟨rfl, h⟩
    | ok u =>
        simp only [show (do Except.ok (); Except.ok ()) = (Except.ok () : Except StoreRaise Unit)
          from rfl]
        obtain ⟨hname, hstop⟩ := hstop (by omega) hscan
        rw [takeName_ok (takes_cursorName hname), takeName_ok hname]
        -- the cursor counts keys, and there are never fewer keys than it says
        have hwithin : (t.cursors scanId).getD 0 ≤ t.inventory.length := by
          cases hc : t.cursors scanId with
          | none => exact Nat.zero_le _
          | some c => exact h.within scanId c hc
        rw [h.cursor scanId]
        generalize (t.cursors scanId).getD 0 = c at hstop hwithin ⊢
        have hpositive : 0 < limit.toNat := by omega
        have hlength : (t.inventory.drop c).length = t.inventory.length - c := List.length_drop
        have htaken : ((t.inventory.drop c).take limit.toNat).length
            = min limit.toNat (t.inventory.drop c).length := List.length_take
        have hwrapped : decide (t.inventory.length ≤
              c + ((t.inventory.drop c).take limit.toNat).length)
            = decide ((t.inventory.drop c).length < limit.toNat) := by
          rw [htaken, hlength, decide_eq_decide]
          omega
        -- the file's cursor is the same place, as an offset
        have hnext : (if (t.inventory.drop c).length < limit.toNat then 0
              else offset t.inventory (c + limit.toNat))
            = offset t.inventory (if decide (t.inventory.length ≤
                c + ((t.inventory.drop c).take limit.toNat).length) = true then 0
              else c + ((t.inventory.drop c).take limit.toNat).length) := by
          have hiff := decide_eq_decide.mp hwrapped
          by_cases hend : (t.inventory.drop c).length < limit.toNat
          · rw [if_pos hend, if_pos (decide_eq_true (hiff.mpr hend))]
            rfl
          · rw [if_neg hend, if_neg fun hx => hend (hiff.mp (of_decide_eq_true hx)), htaken,
              Nat.min_eq_left (Nat.not_lt.mp hend)]
        have hreach : (if decide (t.inventory.length ≤
                c + ((t.inventory.drop c).take limit.toNat).length) = true then 0
              else c + ((t.inventory.drop c).take limit.toNat).length) ≤ t.inventory.length := by
          split
          · exact Nat.zero_le _
          · rw [htaken, hlength]
            omega
        rw [h.pageFrom cutoff hpositive c]
        refine ⟨?_, h.moveCursor hnext hreach⟩
        change StoreReply.page _ _ _ = StoreReply.page _ _ _
        rw [hwrapped, htaken, collect_eq, List.nil_append, ← h.picked cutoff c limit.toNat,
          List.map_map]
        rfl

/-! ## Listing -/

/-- Every object is the one found under its key. -/
def Sound (find : String → Option AttemptObject) (objects : List AttemptObject) : Prop :=
  ∀ o ∈ objects, find o.storageKey = some o

theorem candidate_key {cutoff : Time} {key : String} {o : AttemptObject}
    (h : s.candidate host sha256 cutoff key = some o) : o.storageKey = key := by
  unfold LocalStore.candidate LocalStore.stat at h
  cases hc : s.createdAt host key with
  | error e =>
      rw [hc] at h
      cases h
  | ok created =>
      rw [hc] at h
      dsimp only at h
      split at h
      · cases h
      · cases hr : s.reach host key with
        | error e =>
            rw [hr] at h
            cases h
        | ok file =>
            rw [hr] at h
            dsimp only [Except.map] at h
            split at h
            · rw [← Option.some.inj h]
              rfl
            · cases h

theorem mem_picked {find : String → Option AttemptObject} {o : AttemptObject}
    (hfind : ∀ key o, find key = some o → o.storageKey = key) (keys : List String) :
    ∀ seen : List String, o ∈ picked find keys seen ↔
      o.storageKey ∈ keys ∧ o.storageKey ∉ seen ∧ find o.storageKey = some o := by
  induction keys with
  | nil => exact fun seen => ⟨fun h => absurd h (by simp [picked]), fun h => absurd h.1 (by simp)⟩
  | cons key keys ih =>
      intro seen
      unfold picked
      by_cases hseen : seen.contains key = true
      · rw [if_pos hseen, ih seen, List.mem_cons]
        rw [List.contains_iff_mem] at hseen
        constructor
        · rintro ⟨hmem, hnot, hf⟩
          exact ⟨.inr hmem, hnot, hf⟩
        · rintro ⟨hmem | hmem, hnot, hf⟩
          · exact absurd (hmem ▸ hseen) hnot
          · exact ⟨hmem, hnot, hf⟩
      · rw [if_neg hseen, List.mem_append, ih (key :: seen), List.mem_cons, List.mem_cons, not_or,
          Option.mem_toList]
        rw [List.contains_iff_mem] at hseen
        constructor
        · rintro (hf | ⟨hmem, ⟨_, hnot⟩, hf⟩)
          · rw [hfind key o hf]
            exact ⟨.inl rfl, hseen, hf⟩
          · exact ⟨.inr hmem, hnot, hf⟩
        · rintro ⟨hmem, hnot, hf⟩
          by_cases hkey : o.storageKey = key
          · exact .inl (hkey ▸ hf)
          · exact .inr ⟨hmem.resolve_left hkey, ⟨hkey, hnot⟩, hf⟩

/-- `found` takes the objects of a page in: each key is there once, whatever was there before. -/
theorem foldl_addFound {find : String → Option AttemptObject} (objects : List AttemptObject) :
    ∀ found : List AttemptObject, Sound find objects → Sound find found →
      (found.map AttemptObject.storageKey).Nodup →
      ((objects.foldl LocalStore.addFound found).map AttemptObject.storageKey).Nodup ∧
        ∀ o, o ∈ objects.foldl LocalStore.addFound found ↔ o ∈ found ∨ o ∈ objects := by
  induction objects with
  | nil => exact fun found _ _ hnodup => ⟨hnodup, fun o => by simp⟩
  | cons object objects ih =>
      intro found hobjects hfound hnodup
      have hobject := hobjects object List.mem_cons_self
      have hmem : ∀ o, o ∈ LocalStore.addFound found object ↔ o ∈ found ∨ o = object := by
        intro o
        unfold LocalStore.addFound
        rw [List.mem_append, List.mem_filter, List.mem_singleton, bne_iff_ne]
        constructor
        · rintro (⟨ho, _⟩ | ho)
          · exact .inl ho
          · exact .inr ho
        · rintro (ho | ho)
          · by_cases hkey : o.storageKey = object.storageKey
            · have hsame := hfound o ho
              rw [hkey, hobject] at hsame
              exact .inr (Option.some.inj hsame).symm
            · exact .inl ⟨ho, hkey⟩
          · exact .inr ho
      have hkeys : ((LocalStore.addFound found object).map AttemptObject.storageKey).Nodup := by
        unfold LocalStore.addFound
        rw [List.map_append, List.nodup_append]
        refine ⟨hnodup.sublist (List.filter_sublist.map _), List.nodup_singleton _, ?_⟩
        intro k hk k' hk' heq
        obtain ⟨o, ho, rfl⟩ := List.mem_map.mp hk
        rw [List.map_singleton, List.mem_singleton] at hk'
        exact bne_iff_ne.mp (List.mem_filter.mp ho).2 (heq.trans hk')
      obtain ⟨hrest, hall⟩ := ih (LocalStore.addFound found object)
        (fun o ho => hobjects o (List.mem_cons_of_mem _ ho))
        (fun o ho => ((hmem o).mp ho).elim (hfound o) fun heq => heq ▸ hobject) hkeys
      refine ⟨hrest, fun o => ?_⟩
      rw [List.foldl_cons, hall o, hmem o, List.mem_cons, or_assoc]

/-- The pages of `list_before` go through the whole journal. -/
theorem Alike.listPages (sha256 : List UInt8 → String) (h : Alike host s t) (cutoff : Time)
    (n : Nat) : ∀ (c : Nat)
    (found : List AttemptObject), (t.inventory.drop c).length < n →
      Sound (s.candidate host sha256 cutoff) found → (found.map AttemptObject.storageKey).Nodup →
      ∃ all, s.listPages host sha256 cutoff n (offset t.inventory c) found = .ok all ∧
        (all.map AttemptObject.storageKey).Nodup ∧
        ∀ o, o ∈ all ↔ o ∈ found ∨
          o.storageKey ∈ t.inventory.drop c
            ∧ s.candidate host sha256 cutoff o.storageKey = some o := by
  induction n with
  | zero => exact fun _ _ hn => absurd hn (Nat.not_lt_zero _)
  | succ n ih =>
      intro c found hn hsound hnodup
      unfold LocalStore.listPages
      rw [h.pageFrom cutoff (by omega : 0 < 100) c]
      generalize hpage : AttemptStorage.picked (s.candidate host sha256 cutoff)
        ((t.inventory.drop c).take 100) [] = objects
      have hobjects : ∀ o, o ∈ objects ↔ o.storageKey ∈ (t.inventory.drop c).take 100 ∧
          s.candidate host sha256 cutoff o.storageKey = some o := by
        intro o
        rw [← hpage, mem_picked (fun _ _ => candidate_key)]
        simp
      obtain ⟨hkeys, hmem⟩ := foldl_addFound objects found (fun o ho => ((hobjects o).mp ho).2)
        hsound hnodup
      have hfound : Sound (s.candidate host sha256 cutoff)
          (objects.foldl LocalStore.addFound found) := fun o ho =>
        ((hmem o).mp ho).elim (hsound o) fun ho => ((hobjects o).mp ho).2
      -- a page that is not full is the last one
      by_cases hlast : (t.inventory.drop c).length < 100
      · refine ⟨objects.foldl LocalStore.addFound found, ?_, hkeys, fun o => ?_⟩
        · simp only [hlast, decide_true]
          rfl
        · rw [hmem o, hobjects o, List.take_of_length_le (Nat.le_of_lt hlast)]
      · have hlength : (t.inventory.drop (c + 100)).length
            = (t.inventory.drop c).length - 100 := by
          rw [List.length_drop, List.length_drop]
          omega
        obtain ⟨all, hrest, hall, hiff⟩ := ih (c + 100) _ (by omega) hfound hkeys
        refine ⟨all, ?_, hall, fun o => ?_⟩
        · simp only [hlast, decide_false, if_false]
          exact hrest
        -- a key of the whole list is on this page or on one that follows
        · have hsplit : t.inventory.drop c
              = (t.inventory.drop c).take 100 ++ t.inventory.drop (c + 100) := by
            rw [← List.drop_drop]
            exact (List.take_append_drop 100 _).symm
          rw [hiff o, hmem o, hobjects o, or_assoc, ← or_and_right, ← List.mem_append, ← hsplit]

theorem length_le_journalOf (keys : List String) : keys.length ≤ (journalOf keys).length := by
  induction keys with
  | nil => exact Nat.le_refl _
  | cons key keys ih =>
      rw [journalOf_cons, List.length_append, List.length_cons, List.length_cons]
      omega

/-- What memory lists is what is found under the keys of the journal. -/
theorem Alike.mem_listed (h : Alike host s t) (cutoff : Time) (o : AttemptObject) :
    o ∈ (((t.objects.filter fun item => item.2.created < cutoff).map fun item =>
        MemoryStore.objectOf sha256 item.1 item.2).map AttemptObject.untagged) ↔
      o.storageKey ∈ t.inventory ∧ s.candidate host sha256 cutoff o.storageKey = some o := by
  rw [List.map_map, List.mem_map]
  constructor
  · rintro ⟨⟨key, stored⟩, hitem, rfl⟩
    obtain ⟨hmem, hold⟩ := List.mem_filter.mp hitem
    have hkey := h.known _ hmem
    refine ⟨hkey, ?_⟩
    change s.candidate host sha256 cutoff key = _
    rw [← h.candidate cutoff (h.keys key hkey).1 (h.keys key hkey).2.1]
    unfold MemoryStore.candidate
    rw [lookup_of_mem h.distinct hmem]
    dsimp only
    rw [if_pos (of_decide_eq_true hold)]
    rfl
  · rintro ⟨hmem, hfound⟩
    rw [← h.candidate cutoff (h.keys _ hmem).1 (h.keys _ hmem).2.1] at hfound
    obtain ⟨tagged, htagged, rfl⟩ := Option.map_eq_some_iff.mp hfound
    unfold MemoryStore.candidate at htagged
    cases hl : t.objects.lookup tagged.untagged.storageKey with
    | none =>
        rw [hl] at htagged
        cases htagged
    | some stored =>
        rw [hl] at htagged
        dsimp only at htagged
        split at htagged
        · rename_i hold
          refine ⟨(_, stored), List.mem_filter.mpr ⟨mem_of_lookup hl, decide_eq_true hold⟩, ?_⟩
          rw [← Option.some.inj htagged]
          rfl
        · cases htagged

theorem orderBy_untagged (objects : List AttemptObject) :
    (orderBy AttemptObject.storageKey objects).map AttemptObject.untagged
      = orderBy AttemptObject.storageKey (objects.map AttemptObject.untagged) := by
  unfold orderBy
  exact List.map_insertionSort _ _ _ _ fun _ _ _ _ => Iff.rfl

/-- **Listing** gives the same objects in the same order. -/
theorem Alike.listBefore (h : Alike host s t) (cutoff : Time) :
    replyOf viewList (s.listBefore host sha256 cutoff) = viewList (t.listBefore sha256 cutoff) := by
  have hfuel : (t.inventory.drop 0).length < (s.journal.getD []).length + 1 := by
    rw [List.drop_zero, h.journal.1]
    exact Nat.lt_succ_of_le (length_le_journalOf _)
  obtain ⟨all, hpages, hnodup, hmem⟩ := h.listPages sha256 cutoff
    ((s.journal.getD []).length + 1) 0 [] hfuel (fun o ho => absurd ho (by simp)) List.nodup_nil
  unfold LocalStore.listBefore MemoryStore.listBefore
  change s.listPages host sha256 cutoff _ 0 [] = _ at hpages
  rw [hpages]
  change viewList (orderBy _ all) = _
  have huntagged : all.map AttemptObject.untagged = all := by
    refine (List.map_congr_left fun o ho => ?_).trans (List.map_id _)
    obtain ⟨hkey, hfound⟩ := ((hmem o).mp ho).resolve_left (by simp)
    have hvalid := h.keys _ (List.mem_of_mem_drop hkey)
    rw [← h.candidate cutoff hvalid.1 hvalid.2.1] at hfound
    obtain ⟨tagged, _, rfl⟩ := Option.map_eq_some_iff.mp hfound
    rfl
  have hlisted : all.Perm (((t.objects.filter fun item => item.2.created < cutoff).map fun item =>
      MemoryStore.objectOf sha256 item.1 item.2).map AttemptObject.untagged) := by
    refine (List.perm_ext_iff_of_nodup hnodup.of_map ?_).mpr fun o => ?_
    · refine List.Nodup.of_map AttemptObject.storageKey ?_
      rw [List.map_map, List.map_map]
      exact h.distinct.sublist (List.filter_sublist.map _)
    · rw [hmem o, h.mem_listed cutoff o, List.drop_zero]
      simp
  unfold viewList
  rw [orderBy_untagged, orderBy_untagged, huntagged, orderBy_congr hlisted hnodup]

/-! ## Calls that write -/

/-- A put enters its key in the journal and makes the directories it needs. -/
theorem Alike.record (h : Alike host s t) {key : String} (hkey : isAttemptKey host key = true)
    (hnames : Nameable host key) (hroom : key.toList.length < maxInventoryLine)
    {dirs : List String → Bool}
    (hdirs : ∀ q, dirs q = true ↔
      s.dirs q = true ∨ ∃ p, p ≠ [] ∧ p <+: directory key ∧ q = [] ++ p) :
    Alike host { s with journal := some (s.journal.getD [] ++ (key.toList ++ ['\n'])), dirs := dirs }
      { t with inventory := t.inventory ++ [key] } where
  keys k hk := by
    rcases List.mem_append.mp hk with hk | hk
    · exact h.keys k hk
    · rw [List.mem_singleton.mp hk]
      exact ⟨hkey, hnames, hroom⟩
  journal := by
    refine ⟨?_, nofun⟩
    rw [Option.getD_some, h.journal.1, journalOf_append, journalOf_cons]
    rfl
  dirs path := by
    rw [hdirs, h.dirs]
    constructor
    · rintro (⟨hne, k, hk, hp⟩ | ⟨p, hp, hprefix, rfl⟩)
      · exact ⟨hne, k, List.mem_append_left _ hk, hp⟩
      · exact ⟨hp, key, by simp, hprefix⟩
    · rintro ⟨hne, k, hk, hp⟩
      rcases List.mem_append.mp hk with hk | hk
      · exact .inl ⟨hne, k, hk, hp⟩
      · rw [List.mem_singleton.mp hk] at hp
        exact .inr ⟨path, hne, hp, rfl⟩
  placed := h.placed
  objects := h.objects
  known item hitem := List.mem_append_left _ (h.known item hitem)
  distinct := h.distinct
  cursors scanId := by
    dsimp only
    rw [h.cursors scanId]
    cases hc : t.cursors scanId with
    | none => rfl
    | some c =>
        rw [Option.map_some, Option.map_some]
        unfold offset
        rw [List.take_append_of_le_length (h.within scanId c hc)]
  within scanId c hc := by
    rw [List.length_append]
    exact Nat.le_add_right_of_le (h.within scanId c hc)

/-- A new object. -/
theorem Alike.insert (h : Alike host s t) {key : String} (hkey : isAttemptKey host key = true)
    (hmem : key ∈ t.inventory) (hnew : t.objects.lookup key = none) (o : StoredObject) :
    Alike host { s with files := Function.update s.files (components key) (some ⟨o.data, o.created⟩) }
      { t with objects := t.objects ++ [(key, o)] } where
  keys := h.keys
  journal := h.journal
  dirs := h.dirs
  placed path file hfile := by
    dsimp only at hfile
    by_cases hp : path = components key
    · exact ⟨key, hkey, hp⟩
    · rw [Function.update_of_ne hp] at hfile
      exact h.placed path file hfile
  objects k hk := by
    dsimp only
    rw [List.lookup_append]
    by_cases heq : k = key
    · rw [heq, Function.update_self, hnew, Option.none_or, List.lookup_cons_self]
      rfl
    · rw [Function.update_of_ne fun hc => heq (components_inj hc), h.objects k hk,
        List.lookup_cons, beq_false_of_ne heq]
      simp
  known item hitem := by
    rcases List.mem_append.mp hitem with hitem | hitem
    · exact h.known item hitem
    · rw [List.mem_singleton.mp hitem]
      exact hmem
  distinct := by
    rw [List.map_append, List.nodup_append]
    refine ⟨h.distinct, List.nodup_singleton _, fun k hk k' hk' heq => ?_⟩
    obtain ⟨item, hitem, rfl⟩ := List.mem_map.mp hk
    rw [List.map_singleton, List.mem_singleton] at hk'
    exact bne_iff_ne.mp (List.lookup_eq_none_iff.mp hnew item hitem) (heq.trans hk').symm
  cursors := h.cursors
  within := h.within

/-- An object is taken away. -/
theorem Alike.remove (h : Alike host s t) {key : String} (hkey : isAttemptKey host key = true) :
    Alike host { s with files := Function.update s.files (components key) none }
      { t with objects := t.objects.filter (·.1 != key) } where
  keys := h.keys
  journal := h.journal
  dirs := h.dirs
  placed path file hfile := by
    dsimp only at hfile
    by_cases hp : path = components key
    · exact ⟨key, hkey, hp⟩
    · rw [Function.update_of_ne hp] at hfile
      exact h.placed path file hfile
  objects k hk := by
    dsimp only
    have hnodup : ((t.objects.filter (·.1 != key)).map Prod.fst).Nodup :=
      h.distinct.sublist (List.filter_sublist.map _)
    by_cases heq : k = key
    · rw [heq, Function.update_self]
      have hnone : (t.objects.filter (·.1 != key)).lookup key = none := by
        refine List.lookup_eq_none_iff.mpr fun item hitem => ?_
        have := (List.mem_filter.mp hitem).2
        rw [bne_iff_ne] at this
        exact bne_iff_ne.mpr fun hx => this hx.symm
      rw [hnone]
      rfl
    · rw [Function.update_of_ne fun hc => heq (components_inj hc), h.objects k hk]
      congr 1
      refine Option.ext fun o => ?_
      rw [lookup_iff h.distinct, lookup_iff hnodup, List.mem_filter]
      exact ⟨fun hmem => ⟨hmem, bne_iff_ne.mpr heq⟩, fun hmem => hmem.1⟩
  known item hitem := h.known item (List.mem_filter.mp hitem).1
  distinct := h.distinct.sublist (List.filter_sublist.map _)
  cursors := h.cursors
  within := h.within

/-- The calls on which the stores go the same way: a put whose directories the file system names and
the journal has room for, and whose bytes do not collide under SHA-256 with those at its key; a look
at a key that can be named or whose attempt has no directory; a delete in a directory some put has
made; and a page whose cursor can be named and that does not stop where the journal ends. -/
def Comparable (host : Host) (sha256 : List UInt8 → String) (etag : String → List UInt8 → String)
    (t : MemoryStore) : StoreCall → Prop
  | .putStream key chunks => isAttemptKey host key = true → Nameable host key ∧
      key.toList.length < maxInventoryLine ∧
      match t.objects.lookup key with
      | none => etag key chunks.flatten ≠ ""
      | some o => sha256 o.data = sha256 chunks.flatten → o.data.length = chunks.flatten.length →
          o.data = chunks.flatten
  | .openReader key | .stat key => isAttemptKey host key = true → Nameable host key ∨
      ∀ key' ∈ t.inventory, attemptDirectory key' ≠ attemptDirectory key
  | .delete key =>
      isAttemptKey host key = true → ∃ key' ∈ t.inventory, directory key' = directory key
  | .inventoryPageBefore _ limit scanId => 0 < limit → checkScanId scanId = .ok () →
      host.takes (LocalStore.temporaryCursor scanId) = true ∧
        (t.inventory.length : Int) - (t.cursors scanId).getD 0 ≠ limit
  | _ => True

theorem Alike.put (h : Alike host s t) {now : Time} {key : String} {chunks : List (List UInt8)}
    (hc : Comparable host sha256 etag t (.putStream key chunks)) :
    replyOf viewObject (s.putStream host sha256 now key chunks).1
        = replyOf viewObject (t.putStream host sha256 etag now key chunks).1 ∧
      Alike host (s.putStream host sha256 now key chunks).2
        (t.putStream host sha256 etag now key chunks).2 := by
  unfold LocalStore.putStream MemoryStore.putStream
  by_cases hkey : isAttemptKey host key = true
  · obtain ⟨hnames, hroom, hlook⟩ := hc hkey
    have hpayload : ¬ maxInventoryLine < (key.toList ++ ['\n']).length := by
      rw [List.length_append, List.length_singleton]
      exact Nat.not_lt.mpr hroom
    obtain ⟨dirs, hmake, hdirs⟩ := makeParents_ok (directory key) []
      { s with journal := some (s.journal.getD [] ++ (key.toList ++ ['\n'])) }
      hnames (h.unobstructed hkey)
    have hrecorded := h.record hkey hnames hroom hdirs
    have hmem : key ∈ t.inventory ++ [key] := by simp
    simp only [parseAttemptKey_valid hkey, LocalStore.recordInventory, hpayload, if_false,
      show (components key).dropLast = directory key from rfl, hmake]
    unfold LocalStore.link LocalStore.regular
    dsimp only
    have hfiles := hrecorded.objects key hkey
    have hdir := hrecorded.no_dir hkey
    dsimp only at hfiles hdir
    simp only [hfiles, hdir, Bool.false_or]
    cases hl : t.objects.lookup key with
    | some o =>
        rw [hl] at hlook
        -- the one compares digest and size, the other the bytes: the same unless digests collide
        have hsame : (sha256 o.data != sha256 chunks.flatten
            || o.data.length != chunks.flatten.length) = (o.data != chunks.flatten) := by
          rw [Bool.eq_iff_iff, Bool.or_eq_true, bne_iff_ne, bne_iff_ne, bne_iff_ne]
          constructor
          · rintro (hne | hne) heq
            · exact hne (by rw [heq])
            · exact hne (by rw [heq])
          · intro hne
            by_contra hboth
            push Not at hboth
            exact hne (hlook hboth.1 hboth.2)
        simp only [Option.map_some, Option.isSome_some, if_true,
          LocalStore.objectOf, hsame]
        by_cases hne : (o.data != chunks.flatten) = true
        · rw [if_pos hne, if_pos hne]
          exact ⟨rfl, hrecorded⟩
        · rw [if_neg hne, if_neg hne]
          exact ⟨rfl, hrecorded⟩
    | none =>
        rw [hl] at hlook
        -- an empty tag would make the memory store raise where the file is linked
        have htag : (etag key chunks.flatten).isEmpty = false := by
          rw [Bool.eq_false_iff]
          exact fun hempty => hlook (String.isEmpty_iff.mp hempty)
        simp only [Option.map_none, Option.isSome_none, Bool.false_eq_true, if_false,
          htag]
        exact ⟨rfl, hrecorded.insert hkey hmem hl ⟨_, now, _⟩⟩
  · simp only [parseAttemptKey_invalid hkey]
    exact ⟨trivial, h⟩

theorem Alike.delete (h : Alike host s t) {key : String}
    (hc : Comparable host sha256 etag t (.delete key)) :
    replyOf (fun _ => .deleted) (s.delete host key).1
        = replyOf (fun _ => .deleted) (t.delete host key).1 ∧
      Alike host (s.delete host key).2 (t.delete host key).2 := by
  unfold LocalStore.delete MemoryStore.delete
  by_cases hkey : isAttemptKey host key = true
  · obtain ⟨key', hmem, hdir⟩ := hc hkey
    have hopen : (do parseAttemptKey host key; s.openParents host [] (components key).dropLast)
        = .ok () := by
      rw [parseAttemptKey_valid hkey]
      exact h.opens hmem hdir
    rw [hopen, parseAttemptKey_valid hkey]
    dsimp only
    unfold LocalStore.regular
    simp only [h.objects key hkey, h.no_dir hkey]
    cases hl : t.objects.lookup key with
    | some o => exact ⟨rfl, h.remove hkey⟩
    | none =>
        refine ⟨rfl, ?_⟩
        have hall : t.objects.filter (·.1 != key) = t.objects := by
          refine List.filter_eq_self.mpr fun item hitem => bne_iff_ne.mpr fun heq => ?_
          exact bne_iff_ne.mp (List.lookup_eq_none_iff.mp hl item hitem) heq.symm
        simp only [Option.map_none, Bool.false_eq_true, if_false, hall]
        exact h
  · have hraises : (do parseAttemptKey host key; s.openParents host [] (components key).dropLast)
        = .error keyInvalid := by
      rw [parseAttemptKey_invalid hkey]
      rfl
    rw [hraises, parseAttemptKey_invalid hkey]
    exact ⟨rfl, h⟩

/-! ## Reading and runs -/

theorem Alike.read (h : Alike host s t) {α β : Type} {key : String} {f : StoredFile → α}
    {g : StoredObject → β} {view : α → StoreReply} {view' : β → StoreReply}
    (hview : ∀ o : StoredObject, view (f ⟨o.data, o.created⟩) = view' (g o))
    (hc : isAttemptKey host key = true → Nameable host key ∨
      ∀ key' ∈ t.inventory, attemptDirectory key' ≠ attemptDirectory key) :
    replyOf view ((s.reach host key).map f) = replyOf view' ((t.reach host key).map g) := by
  unfold MemoryStore.reach
  by_cases hkey : isAttemptKey host key = true
  · rw [parseAttemptKey_valid hkey]
    by_cases hnames : Nameable host key
    · rw [h.reach hkey hnames]
      cases hl : t.objects.lookup key with
      | none => rfl
      | some o => exact hview o
    · rw [(h.reach_unnameable hkey hnames).2 ((hc hkey).resolve_left hnames),
        h.unnameable hnames]
      rfl
  · unfold LocalStore.reach
    rw [parseAttemptKey_invalid hkey]
    rfl

/-- **One call**: the stores answer alike and stay alike. -/
theorem Alike.answer (h : Alike host s t) {now : Time} {call : StoreCall}
    (hc : Comparable host sha256 etag t call) :
    (s.answer host sha256 now call).1 = (t.answer host sha256 etag now call).1 ∧
      Alike host (s.answer host sha256 now call).2 (t.answer host sha256 etag now call).2 := by
  cases call with
  | putStream key chunks => exact h.put hc
  | openReader key => exact ⟨h.read (fun _ => rfl) hc, h⟩
  | stat key => exact ⟨h.read (fun _ => rfl) hc, h⟩
  | delete key => exact h.delete hc
  | listBefore cutoff => exact ⟨h.listBefore cutoff, h⟩
  | inventoryPageBefore cutoff limit scanId => exact h.page cutoff limit scanId hc

/-! ## Calls that tell them apart -/

/-- The store in memory raises for other bytes or for want of a tag. -/
theorem memory_put_raises {now : Time} {key : String} {chunks : List (List UInt8)} {e : StoreRaise}
    (hkey : isAttemptKey host key = true)
    (h : (t.putStream host sha256 etag now key chunks).1 = .error e) :
    e = differentBytes ∨ e = .value "etag factory must return a non-empty string" := by
  unfold MemoryStore.putStream at h
  rw [parseAttemptKey_valid hkey] at h
  dsimp only at h
  split at h
  · split at h
    · exact .inl (Except.error.inj h).symm
    · cases h
  · split at h
    · exact .inr (Except.error.inj h).symm
    · cases h

/-- What the local store raises before the link is never what the store in memory answers. -/
theorem put_differs_of_raised {now : Time} {key : String} {chunks : List (List UInt8)}
    {e : StoreRaise} (hkey : isAttemptKey host key = true)
    (hlocal : (s.putStream host sha256 now key chunks).1 = .error e)
    (he : e = .os ∨ e = .value "attempt key exceeds inventory record bound") :
    replyOf viewObject (s.putStream host sha256 now key chunks).1
      ≠ replyOf viewObject (t.putStream host sha256 etag now key chunks).1 := by
  rw [hlocal]
  cases hmemory : (t.putStream host sha256 etag now key chunks).1 with
  | ok o => exact fun heq => absurd heq (by simp [replyOf, viewObject])
  | error e' =>
      rcases he with rfl | rfl <;> rcases memory_put_raises hkey hmemory with rfl | rfl <;>
        simp [replyOf, StoreRaise.identified, differentBytes]

theorem Alike.put_differs (h : Alike host s t) {now : Time} {key : String}
    {chunks : List (List UInt8)}
    (hc : ¬ Comparable host sha256 etag t (.putStream key chunks)) :
    replyOf viewObject (s.putStream host sha256 now key chunks).1
      ≠ replyOf viewObject (t.putStream host sha256 etag now key chunks).1 := by
  obtain ⟨hkey, hc⟩ := Classical.not_imp.mp hc
  -- short lines and parts leave a collision or an empty tag; all else the directory refuses
  by_cases hroom : key.toList.length < maxInventoryLine
  · have hpayload : ¬ maxInventoryLine < (key.toList ++ ['\n']).length := by
      rw [List.length_append, List.length_singleton]
      exact Nat.not_lt.mpr hroom
    by_cases hnames : Nameable host key
    · obtain ⟨dirs, hmake, hdirs⟩ := makeParents_ok (directory key) []
        { s with journal := some (s.journal.getD [] ++ (key.toList ++ ['\n'])) }
        hnames (h.unobstructed hkey)
      have hfiles := (h.record hkey hnames hroom hdirs).objects key hkey
      have hdir := (h.record hkey hnames hroom hdirs).no_dir hkey
      unfold LocalStore.putStream MemoryStore.putStream
      simp only [parseAttemptKey_valid hkey, LocalStore.recordInventory, hpayload, if_false,
        show (components key).dropLast = directory key from rfl, hmake]
      unfold LocalStore.link LocalStore.regular
      dsimp only at hfiles hdir ⊢
      simp only [hfiles, hdir, Bool.false_or]
      have hc := not_and.mp (not_and.mp hc hnames) hroom
      cases hl : t.objects.lookup key with
      | some o =>
          rw [hl] at hc
          dsimp only at hc
          push Not at hc
          obtain ⟨hsha, hsize, hne⟩ := hc
          simp [LocalStore.objectOf, hsha, hsize, hne, replyOf, viewObject]
      | none =>
          rw [hl] at hc
          rw [not_not.mp hc]
          simp [replyOf, viewObject]
    · unfold Nameable at hnames
      push Not at hnames
      obtain ⟨part, hpart, hlong⟩ := hnames
      have hraises := makeParents_long (directory key) []
        { s with journal := some (s.journal.getD [] ++ (key.toList ++ ['\n'])) }
        ⟨part, hpart, Bool.eq_false_iff.mpr hlong⟩ (h.unobstructed hkey)
      refine put_differs_of_raised hkey ?_ (.inl rfl)
      unfold LocalStore.putStream
      simp only [parseAttemptKey_valid hkey, LocalStore.recordInventory, hpayload, if_false,
        show (components key).dropLast = directory key from rfl]
      split
      · rename_i hmade
        rw [hmade] at hraises
        rw [Except.error.inj hraises]
      · rename_i hmade
        rw [hmade] at hraises
        cases hraises
  · have hpayload : maxInventoryLine < (key.toList ++ ['\n']).length := by
      rw [List.length_append, List.length_singleton]
      exact Nat.lt_succ_of_le (Nat.not_lt.mp hroom)
    refine put_differs_of_raised hkey ?_ (.inr rfl)
    unfold LocalStore.putStream
    simp only [parseAttemptKey_valid hkey, LocalStore.recordInventory, hpayload, if_true]

/-- A key that cannot be named is another error than one that nothing lies under. -/
theorem Alike.read_differs (h : Alike host s t) {α β : Type} {key : String} {f : StoredFile → α}
    {g : StoredObject → β} {view : α → StoreReply} {view' : β → StoreReply}
    (hc : ¬ (isAttemptKey host key = true → Nameable host key ∨
      ∀ key' ∈ t.inventory, attemptDirectory key' ≠ attemptDirectory key)) :
    replyOf view ((s.reach host key).map f) ≠ replyOf view' ((t.reach host key).map g) := by
  push Not at hc
  obtain ⟨hkey, hnames, key', hmem, hsame⟩ := hc
  unfold MemoryStore.reach
  rw [(h.reach_unnameable hkey hnames).1 ⟨key', hmem, hsame⟩, parseAttemptKey_valid hkey,
    h.unnameable hnames]
  exact fun heq => absurd (StoreReply.raised.inj heq) (by simp [StoreRaise.identified])

/-- Where nothing was ever put, a delete finds no directory. -/
theorem Alike.delete_differs (h : Alike host s t) {key : String}
    (hc : ¬ Comparable host sha256 etag t (.delete key)) :
    replyOf (fun _ => .deleted) (s.delete host key).1
      ≠ replyOf (fun _ => .deleted) (t.delete host key).1 := by
  unfold Comparable at hc
  push Not at hc
  obtain ⟨hkey, hnone⟩ := hc
  have hne : directory key ≠ [] := fun hnil => by
    have := directory_length hkey
    rw [hnil] at this
    exact absurd this (by simp)
  have hparse : (do parseAttemptKey host key; s.openParents host [] (components key).dropLast)
      = s.openParents host [] (directory key) := by
    rw [parseAttemptKey_valid hkey]
    rfl
  unfold LocalStore.delete MemoryStore.delete
  rw [hparse, parseAttemptKey_valid hkey]
  cases hopen : s.openParents host [] (directory key) with
  | error e => exact fun heq => absurd heq (by simp [replyOf])
  | ok u =>
      obtain ⟨_, key', hmem, hp⟩ := (h.dirs _).mp (dirs_of_openParents _ [] hopen hne)
      refine absurd (hp.eq_of_length ?_).symm (hnone key' hmem)
      rw [List.nil_append, directory_length hkey, directory_length (h.keys key' hmem).1]

/-- A page whose cursor cannot be written raises. -/
theorem Alike.page_long (h : Alike host s t) (cutoff : Time) {limit : Int} {scanId : String}
    (hlimit : 0 < limit) (hscan : checkScanId scanId = .ok ())
    (hlong : host.takes (LocalStore.temporaryCursor scanId) = false) :
    (s.inventoryPageBefore host sha256 cutoff limit scanId).1 = .error .os := by
  have hpositive : positiveLimit limit = .ok () := if_neg (by omega)
  unfold LocalStore.inventoryPageBefore
  rw [hpositive, hscan, h.cursor scanId, h.pageFrom cutoff (by omega), takeName_long hlong]
  cases hname : host.takes (LocalStore.cursorName scanId) with
  | false =>
      rw [takeName_long hname]
      rfl
  | true =>
      rw [takeName_ok hname]
      rfl

/-- A page that stops where the journal ends is the last in memory, and not in the file. -/
theorem Alike.page_differs (h : Alike host s t) {cutoff : Time} {limit : Int} {scanId : String}
    (hc : ¬ Comparable host sha256 etag t (.inventoryPageBefore cutoff limit scanId)) :
    replyOf viewPage (s.inventoryPageBefore host sha256 cutoff limit scanId).1
      ≠ replyOf viewPage (t.inventoryPageBefore sha256 cutoff limit scanId).1 := by
  unfold Comparable at hc
  push Not at hc
  obtain ⟨hlimit, hscan, hstop⟩ := hc
  have hpositive : positiveLimit limit = .ok () := if_neg (by omega)
  cases hname : host.takes (LocalStore.temporaryCursor scanId) with
  | false =>
      rw [h.page_long cutoff hlimit hscan hname]
      unfold MemoryStore.inventoryPageBefore
      rw [hpositive, hscan]
      change StoreReply.raised _ ≠ StoreReply.page _ _ _
      simp
  | true =>
      replace hstop := hstop hname
      unfold LocalStore.inventoryPageBefore MemoryStore.inventoryPageBefore
      simp only [hpositive, hscan, takeName_ok (takes_cursorName hname), takeName_ok hname]
      simp only [show (do Except.ok (); Except.ok ()) = (Except.ok () : Except StoreRaise Unit)
        from rfl]
      rw [h.cursor scanId]
      generalize (t.cursors scanId).getD 0 = c at hstop ⊢
      have hlength : (t.inventory.drop c).length = limit.toNat := by
        rw [List.length_drop]
        omega
      rw [h.pageFrom cutoff (by omega) c]
      intro heq
      have hwrapped := (StoreReply.page.inj heq).2.2
      simp only [hlength, Nat.lt_irrefl, decide_false, List.length_take, Nat.min_self] at hwrapped
      have hreached : t.inventory.length ≤ c + limit.toNat := by
        rw [List.length_drop] at hlength
        omega
      exact absurd hwrapped (by simp [hreached])

/-- **One call tells the stores apart** exactly when it leaves the ground they share. -/
theorem Alike.answer_iff (h : Alike host s t) {now : Time} {call : StoreCall} :
    (s.answer host sha256 now call).1 = (t.answer host sha256 etag now call).1 ↔
      Comparable host sha256 etag t call := by
  refine ⟨fun heq => ?_, fun hc => (h.answer hc).1⟩
  by_contra hc
  cases call with
  | putStream key chunks => exact h.put_differs hc heq
  | openReader key => exact h.read_differs hc heq
  | stat key => exact h.read_differs hc heq
  | delete key => exact h.delete_differs hc heq
  | listBefore cutoff => exact hc trivial
  | inventoryPageBefore cutoff limit scanId => exact h.page_differs hc heq

/-! ## Runs -/

/-- Every call of a run is one on which the stores go the same way. -/
def Conforms (host : Host) (sha256 : List UInt8 → String) (etag : String → List UInt8 → String) :
    MemoryStore → List (Time × StoreCall) → Prop
  | _, [] => True
  | t, (now, call) :: calls =>
      Comparable host sha256 etag t call
        ∧ Conforms host sha256 etag (t.answer host sha256 etag now call).2 calls

theorem Alike.answers (calls : List (Time × StoreCall)) : ∀ {s : LocalStore} {t : MemoryStore},
    Alike host s t → Conforms host sha256 etag t calls →
      Alike host (s.answers host sha256 calls).2 (t.answers host sha256 etag calls).2 := by
  induction calls with
  | nil => exact fun h _ => h
  | cons call calls ih => exact fun h hc => ih (h.answer hc.1).2 hc.2

theorem Alike.answers_iff (calls : List (Time × StoreCall)) : ∀ {s : LocalStore} {t : MemoryStore},
    Alike host s t → ((s.answers host sha256 calls).1 = (t.answers host sha256 etag calls).1 ↔
      Conforms host sha256 etag t calls) := by
  induction calls with
  | nil => exact fun _ => ⟨fun _ => trivial, fun _ => rfl⟩
  | cons call calls ih =>
      intro s t h
      obtain ⟨now, call⟩ := call
      unfold LocalStore.answers MemoryStore.answers Conforms
      rw [List.cons.injEq, h.answer_iff]
      refine and_congr_right fun hc => ?_
      exact ih (h.answer hc).2

/-- The files of the one are the objects of the other, each where its key says. -/
def HoldSame (s : LocalStore) (t : MemoryStore) : Prop :=
  ∀ path file, s.files path = some file ↔
    ∃ key o, t.objects.lookup key = some o ∧ path = components key ∧ file = ⟨o.data, o.created⟩

theorem Alike.holdSame (h : Alike host s t) : HoldSame s t := by
  intro path file
  constructor
  · intro hfile
    obtain ⟨key, hkey, rfl⟩ := h.placed path file hfile
    rw [h.objects key hkey] at hfile
    obtain ⟨o, ho, rfl⟩ := Option.map_eq_some_iff.mp hfile
    exact ⟨key, o, ho, rfl, rfl⟩
  · rintro ⟨key, o, ho, rfl, rfl⟩
    have hkey := (h.keys key (h.known _ (mem_of_lookup ho))).1
    rw [h.objects key hkey, ho]
    rfl

/-- **The attempt stores are interchangeable** over exactly the runs whose every call keeps to the
ground they share: the replies are the same, and then so are the objects they end with. -/
theorem stores_interchangeable (host : Host) (sha256 : List UInt8 → String)
    (etag : String → List UInt8 → String) (calls : List (Time × StoreCall)) :
    ((LocalStore.empty.answers host sha256 calls).1
        = (MemoryStore.empty.answers host sha256 etag calls).1 ∧
      HoldSame (LocalStore.empty.answers host sha256 calls).2
        (MemoryStore.empty.answers host sha256 etag calls).2) ↔
      Conforms host sha256 etag .empty calls := by
  refine ⟨fun h => ((alike_empty host).answers_iff calls).mp h.1, fun hc => ?_⟩
  exact ⟨((alike_empty host).answers_iff calls).mpr hc, ((alike_empty host).answers calls hc).holdSame⟩

/-- A key as `attempt_key` spells it. -/
def sampleKey : String :=
  "attempts/00000000-0000-0000-0000-000000000001/00000000-0000-0000-0000-000000000002/epoch-1/" ++
    "output/00000000-0000-0000-0000-000000000003"

/-- The delete of an object nothing was ever put beside raises in the one and passes in the other. -/
theorem absent_delete_differs :
    isAttemptKey linux sampleKey = true ∧
      (LocalStore.empty.answers linux (fun _ => "digest") [(1, .delete sampleKey)]).1
        = [.raised .fileNotFound] ∧
      (MemoryStore.empty.answers linux (fun _ => "digest") (fun _ _ => "tag")
        [(1, .delete sampleKey)]).1
        = [.deleted] := by
  decide +kernel

end AttemptStorage

end NanoAural
