import NanoAural.Base.FileNames
import NanoAural.Durable.AttemptKeys

/-!
# Attempt keys round-trip

A key has one spelling. What `attempt_key` writes is parsed into its components, and
nothing else is accepted: the last step of the parser writes the key again, so that
only the readers' values of canonical texts matter, not which other texts they read.
-/

namespace NanoAural

open Relational

namespace AttemptKeys

open IntText UuidText

variable {limit : Option Nat}

/-! ## The writer -/

theorem strUuid_ok {text written : String} :
    strUuid text = .ok written ↔ ∃ n, ofText text = some n ∧ written = uuidText n := by
  unfold strUuid
  split
  · rename_i n heq
    exact ⟨fun h => ⟨n, heq, (Except.ok.inj h).symm⟩,
      fun ⟨m, hm, hw⟩ => by rw [hw, ← Option.some.inj (heq.symm.trans hm)]⟩
  · rename_i heq
    exact ⟨fun h => (by cases h), fun ⟨m, hm, _⟩ => by rw [heq] at hm; cases hm⟩

theorem strInt_ok {n : Int} {text : String} :
    strInt limit n = .ok text ↔ intText limit n.toNat = some text := by
  unfold strInt
  split
  · rename_i heq
    rw [heq]
    exact ⟨fun h => congrArg some (Except.ok.inj h), fun h => by rw [Option.some.inj h]⟩
  · rename_i heq
    rw [heq]
    exact ⟨fun h => (by cases h), fun h => (by cases h)⟩

/-- **When a key is written, and which.** -/
theorem attemptKey_ok {jobId attemptId publicationId key : String} {leaseEpoch : Int}
    {kind : ArtifactKind} :
    attemptKey limit jobId attemptId leaseEpoch kind publicationId = .ok key ↔
      ∃ job attempt publication epoch, ofText jobId = some job ∧ ofText attemptId = some attempt
        ∧ ofText publicationId = some publication ∧ 1 ≤ leaseEpoch
        ∧ intText limit leaseEpoch.toNat = some epoch
        ∧ key = keyText (uuidText job) (uuidText attempt) epoch kind (uuidText publication) := by
  unfold attemptKey
  simp only [except_bind_ok, strUuid_ok, strInt_ok, raiseIf_ok, exists_const,
    decide_eq_false_iff_not, Int.not_lt]
  constructor
  · rintro ⟨_, ⟨job, hjob, rfl⟩, _, ⟨attempt, hattempt, rfl⟩, _, ⟨publication, hpublication, rfl⟩,
      hepoch, epoch, htext, hkey⟩
    exact ⟨job, attempt, publication, epoch, hjob, hattempt, hpublication, hepoch, htext,
      (Except.ok.inj hkey).symm⟩
  · rintro ⟨job, attempt, publication, epoch, hjob, hattempt, hpublication, hepoch, htext, rfl⟩
    exact ⟨_, ⟨job, hjob, rfl⟩, _, ⟨attempt, hattempt, rfl⟩, _, ⟨publication, hpublication, rfl⟩,
      hepoch, epoch, htext, rfl⟩

/-! ## Splitting a written key -/

/-- A lowercase letter, a digit or a hyphen. -/
def isKeyChar (c : Char) : Bool := c == '-' || c.isDigit || ('a' ≤ c && c ≤ 'z')

theorem keyChar_plain {c : Char} (h : isKeyChar c = true) :
    c ≠ '/' ∧ c ≠ '\\' ∧ c ≠ '\x00' ∧ c ≠ '\n' := by
  refine ⟨?_, ?_, ?_, ?_⟩ <;> rintro rfl <;> exact absurd h (by decide)

theorem keyChar_ascii {c : Char} (h : isKeyChar c = true) : c.toNat < 128 := by
  simp only [isKeyChar, Char.isDigit, Bool.or_eq_true, Bool.and_eq_true, beq_iff_eq,
    decide_eq_true_eq] at h
  rcases h with (rfl | ⟨_, h⟩) | ⟨_, h⟩
  · decide
  · exact Nat.lt_of_le_of_lt (UInt32.le_iff_toNat_le.mp h) (by decide)
  · exact Nat.lt_of_le_of_lt (UInt32.le_iff_toNat_le.mp h) (by decide)

theorem keyChar_digit : ∀ d < 16, isKeyChar d.digitChar = true := by decide

/-- A word of a key: not empty, not a dot name, spelled with the characters of keys. -/
structure Word (word : String) : Prop where
  named : ["", ".", ".."].contains word = false
  spelled : ∀ c ∈ word.toList, isKeyChar c = true

theorem word_of_length {word : String} (hlen : 2 < word.toList.length)
    (hspelled : ∀ c ∈ word.toList, isKeyChar c = true) : Word word := by
  refine ⟨?_, hspelled⟩
  rw [Bool.eq_false_iff]
  intro hmem
  simp only [List.contains_cons, List.contains_nil, Bool.or_false, Bool.or_eq_true, beq_iff_eq]
    at hmem
  rcases hmem with rfl | rfl | rfl <;> exact absurd hlen (by decide)

/-- A word takes as many bytes as it has characters. -/
theorem Word.utf8ByteSize {word : String} (h : Word word) :
    word.utf8ByteSize = word.toList.length := by
  have hsize := FileNames.utf8ByteSize_ascii fun c hc => keyChar_ascii (h.spelled c hc)
  rwa [String.ofList_toList] at hsize

theorem uuidText_length (n : Nat) : (uuidText n).toList.length = 36 := by
  simp [uuidText, grouped, hexFixed_length]

theorem word_uuidText (n : Nat) : Word (uuidText n) := by
  refine word_of_length (by rw [uuidText_length]; decide) fun c hc => ?_
  rw [uuidText, String.toList_ofList] at hc
  rcases mem_grouped hc with rfl | hc
  · decide
  · obtain ⟨d, hd, rfl⟩ := hexFixed_lowerHex 32 n c hc
    exact keyChar_digit d hd

theorem intText_toList {n : Nat} {text : String} (h : intText limit n = some text) :
    text.toList = Nat.toDigits 10 n := by
  unfold intText at h
  split at h
  · rw [← Option.some.inj h, String.toList_ofList]
  · cases h

theorem word_epoch {n : Nat} {text : String} (h : intText limit n = some text) :
    Word ("epoch-" ++ text) := by
  have hprefix : "epoch-".toList = ['e', 'p', 'o', 'c', 'h', '-'] := rfl
  refine word_of_length ?_ fun c hc => ?_
  · rw [String.toList_append, hprefix, List.length_append]
    exact Nat.lt_of_lt_of_le (by decide) (Nat.le_add_right _ _)
  · rw [String.toList_append, hprefix, intText_toList h, List.mem_append] at hc
    rcases hc with hc | hc
    · simp only [List.mem_cons, List.not_mem_nil, or_false] at hc
      rcases hc with rfl | rfl | rfl | rfl | rfl | rfl <;> decide
    · obtain ⟨d, hd, rfl⟩ := lowerHex_toDigits n c hc
      exact keyChar_digit d hd

theorem word_attempts : Word "attempts" :=
  word_of_length (by decide) (List.all_eq_true.mp (by decide))

theorem word_kind (kind : ArtifactKind) : Word kind.value := by
  cases kind with
  | output => exact word_of_length (by decide) (List.all_eq_true.mp (by decide))
  | manifest => exact word_of_length (by decide) (List.all_eq_true.mp (by decide))

/-- The words of a written key. -/
def keyWords (job attempt epoch : String) (kind : ArtifactKind) (publication : String) :
    List String :=
  ["attempts", job, attempt, "epoch-" ++ epoch, kind.value, publication]

theorem keyText_toList (job attempt epoch : String) (kind : ArtifactKind) (publication : String) :
    (keyText job attempt epoch kind publication).toList
      = ['/'].intercalate ((keyWords job attempt epoch kind publication).map String.toList) := by
  have hslash : "/".toList = ['/'] := rfl
  have hattempts : "attempts/".toList = "attempts".toList ++ ['/'] := rfl
  have hepoch : "/epoch-".toList = ['/'] ++ "epoch-".toList := rfl
  unfold keyText
  simp only [keyWords, String.toList_append, List.map_cons, List.map_nil,
    List.intercalate_cons_cons, List.intercalate_singleton, hslash, hattempts, hepoch,
    List.append_assoc]

theorem components_keyText {job attempt epoch publication : String} {kind : ArtifactKind}
    (h : ∀ word ∈ keyWords job attempt epoch kind publication, Word word) :
    components (keyText job attempt epoch kind publication)
      = keyWords job attempt epoch kind publication := by
  have hsep : ∀ part ∈ (keyWords job attempt epoch kind publication).map String.toList,
      '/' ∉ part := by
    intro part hpart hmem
    obtain ⟨word, hword, rfl⟩ := List.mem_map.mp hpart
    exact (keyChar_plain ((h word hword).spelled '/' hmem)).1 rfl
  rw [components, keyText_toList,
    List.splitOn_intercalate '/' hsep (by simp [keyWords]), List.map_map]
  conv_rhs => rw [← List.map_id (keyWords job attempt epoch kind publication)]
  exact List.map_congr_left fun word _ => String.ofList_toList

theorem mem_intercalate {α : Type} {x c : α} :
    ∀ {ls : List (List α)}, c ∈ [x].intercalate ls → c = x ∨ ∃ l ∈ ls, c ∈ l := by
  intro ls
  induction ls with
  | nil => exact fun h => absurd h (by simp)
  | cons l ls ih =>
      intro h
      cases ls with
      | nil =>
          rw [List.intercalate_singleton] at h
          exact .inr ⟨l, List.mem_cons_self, h⟩
      | cons l' ls =>
          rw [List.intercalate_cons_cons, List.append_assoc] at h
          rcases List.mem_append.mp h with h | h
          · exact .inr ⟨l, List.mem_cons_self, h⟩
          · rcases List.mem_append.mp h with h | h
            · exact .inl (List.mem_singleton.mp h)
            · rcases ih h with rfl | ⟨w, hw, hc⟩
              · exact .inl rfl
              · exact .inr ⟨w, List.mem_cons_of_mem _ hw, hc⟩

/-- The characters of a written key are those of its words, and slashes. -/
theorem mem_keyText {job attempt epoch publication : String} {kind : ArtifactKind}
    (h : ∀ word ∈ keyWords job attempt epoch kind publication, Word word) {c : Char}
    (hc : c ∈ (keyText job attempt epoch kind publication).toList) :
    c = '/' ∨ isKeyChar c = true := by
  rw [keyText_toList] at hc
  rcases mem_intercalate hc with heq | ⟨part, hpart, hin⟩
  · exact .inl heq
  · obtain ⟨word, hword, rfl⟩ := List.mem_map.mp hpart
    exact .inr ((h word hword).spelled c hin)

/-- Nothing that the parser refuses stands in a written key, and it does not start with a slash. -/
theorem keyText_guard {job attempt epoch publication : String} {kind : ArtifactKind}
    (h : ∀ word ∈ keyWords job attempt epoch kind publication, Word word) :
    ((keyText job attempt epoch kind publication).toList.isEmpty
      || (keyText job attempt epoch kind publication).toList.contains '\x00'
      || (keyText job attempt epoch kind publication).toList.contains '\\'
      || (keyText job attempt epoch kind publication).toList.head? == some '/') = false := by
  have hnul : '\x00' ∉ (keyText job attempt epoch kind publication).toList := fun hmem =>
    absurd (mem_keyText h hmem) (by decide)
  have hback : '\\' ∉ (keyText job attempt epoch kind publication).toList := fun hmem =>
    absurd (mem_keyText h hmem) (by decide)
  have hstart : ∃ rest, (keyText job attempt epoch kind publication).toList = 'a' :: rest := by
    rw [keyText_toList]
    exact ⟨_, rfl⟩
  obtain ⟨rest, hrest⟩ := hstart
  rw [hrest] at hnul hback ⊢
  simp only [List.isEmpty_cons, Bool.false_or, List.head?_cons]
  rw [List.contains_eq_mem, List.contains_eq_mem, decide_eq_false hnul, decide_eq_false hback]
  rfl

/-! ## The parser -/

theorem artifactKind_value (kind : ArtifactKind) : artifactKind kind.value = some kind := by
  cases kind with
  | output => rfl
  | manifest => decide

theorem readEpoch_intText {epoch : Int} {text : String} (hpos : 1 ≤ epoch)
    (h : intText limit epoch.toNat = some text) :
    readEpoch limit ("epoch-" ++ text) = some epoch := by
  have hprefix : "epoch-".toList.isPrefixOf ("epoch-" ++ text).toList = true := by
    rw [String.toList_append]
    exact List.isPrefixOf_iff_prefix.mpr (List.prefix_append _ _)
  have hrest : String.ofList (("epoch-" ++ text).toList.drop 6) = text := by
    rw [String.toList_append, List.drop_left' (by rfl), String.ofList_toList]
  have hvalue : decInt limit text = some epoch := by
    rw [decInt_intText h, Int.toNat_of_nonneg (by omega)]
  simp only [readEpoch, hprefix, hrest, hvalue, guard, ↓reduceIte, bind, Option.bind, hpos, h]
  rfl

theorem words_of_epoch (job attempt publication : Nat) (kind : ArtifactKind) {n : Nat}
    {text : String} (htext : intText limit n = some text) :
    ∀ word ∈ keyWords (uuidText job) (uuidText attempt) text kind (uuidText publication),
      Word word := by
  intro word hword
  simp only [keyWords, List.mem_cons, List.not_mem_nil, or_false] at hword
  rcases hword with rfl | rfl | rfl | rfl | rfl | rfl
  · exact word_attempts
  · exact word_uuidText job
  · exact word_uuidText attempt
  · exact word_epoch htext
  · exact word_kind kind
  · exact word_uuidText publication

/-- **What is written is read back.** -/
theorem parseAttemptKey_keyText {job attempt publication : Nat} {epoch : Int} {text : String}
    {kind : ArtifactKind} (hjob : job < 2 ^ 128) (hattempt : attempt < 2 ^ 128)
    (hpublication : publication < 2 ^ 128) (hpos : 1 ≤ epoch)
    (htext : intText limit epoch.toNat = some text) :
    parseAttemptKey limit
        (keyText (uuidText job) (uuidText attempt) text kind (uuidText publication))
      = .ok ⟨uuidText job, uuidText attempt, epoch, kind, uuidText publication⟩ := by
  have hwords := words_of_epoch job attempt publication kind htext
  have hparts : (keyWords (uuidText job) (uuidText attempt) text kind (uuidText publication)).any
      (fun part => ["", ".", ".."].contains part) = false :=
    List.any_eq_false.mpr fun word hword => by rw [(hwords word hword).named]; exact Bool.false_ne_true
  have hread : readParts limit
      (keyWords (uuidText job) (uuidText attempt) text kind (uuidText publication))
        = some ⟨uuidText job, uuidText attempt, epoch, kind, uuidText publication⟩ := by
    simp only [readParts, keyWords, ofText_uuidText hjob, ofText_uuidText hattempt,
      ofText_uuidText hpublication, readEpoch_intText hpos htext, artifactKind_value]
    rfl
  have hwritten : AttemptParts.key limit
      ⟨uuidText job, uuidText attempt, epoch, kind, uuidText publication⟩
        = .ok (keyText (uuidText job) (uuidText attempt) text kind (uuidText publication)) :=
    attemptKey_ok.mpr ⟨job, attempt, publication, text, ofText_uuidText hjob,
      ofText_uuidText hattempt, ofText_uuidText hpublication, hpos, htext, rfl⟩
  simp only [parseAttemptKey, keyText_guard hwords, components_keyText hwords, hparts, hread,
    hwritten]
  simp [raiseIf, keyWords, bind, Except.bind, pure, Except.pure]

/-- **What is read is written back.** -/
theorem key_of_parseAttemptKey {storageKey : String} {parts : AttemptParts}
    (h : parseAttemptKey limit storageKey = .ok parts) : parts.key limit = .ok storageKey := by
  simp only [parseAttemptKey, raiseIf_bind_ok] at h
  obtain ⟨-, -, h⟩ := h
  split at h
  · cases h
  · rename_i found _
    rw [except_bind_ok] at h
    obtain ⟨expected, hexpected, h⟩ := h
    rw [raiseIf_bind_ok] at h
    obtain ⟨hsame, hfound⟩ := h
    rw [← Except.ok.inj hfound, hexpected, bne_eq_false_iff_eq.mp hsame]

theorem readEpoch_some {part : String} {epoch : Int} (h : readEpoch limit part = some epoch) :
    1 ≤ epoch ∧ ∃ text, intText limit epoch.toNat = some text := by
  simp only [readEpoch, guard, Option.pure_def, Option.failure_eq_none, Option.bind_eq_bind,
    Option.bind_eq_some_iff, Option.ite_none_right_eq_some, Option.some.injEq] at h
  obtain ⟨_, _, epoch', _, _, ⟨hpos, _⟩, text, htext, _, _, rfl⟩ := h
  exact ⟨hpos, text, htext⟩

/-- What has been read can be written. -/
theorem key_of_readParts {words : List String} {parts : AttemptParts}
    (h : readParts limit words = some parts) : ∃ key, parts.key limit = .ok key := by
  unfold readParts at h
  split at h
  · rename_i root job attempt epoch kind publication
    simp only [Option.bind_eq_bind, Option.bind_eq_some_iff, Option.some.injEq] at h
    obtain ⟨j, hj, a, ha, p, hp, e, he, k, -, rfl⟩ := h
    obtain ⟨hpos, text, htext⟩ := readEpoch_some he
    exact ⟨_, attemptKey_ok.mpr ⟨j, a, p, text, ofText_uuidText (ofText_lt hj),
      ofText_uuidText (ofText_lt ha), ofText_uuidText (ofText_lt hp), hpos, htext, rfl⟩⟩
  · cases h

/-- The parser has one error. -/
theorem parseAttemptKey_error {storageKey : String} {e : KeyRaise}
    (h : parseAttemptKey limit storageKey = .error e) : e = inexactKey := by
  simp only [parseAttemptKey, raiseIf] at h
  split at h
  · exact (Except.error.inj h).symm
  · simp only [bind, Except.bind] at h
    split at h
    · rename_i heq
      split at heq
      · rw [← Except.error.inj h, ← Except.error.inj heq]
      · cases heq
    · split at h
      · exact (Except.error.inj h).symm
      · rename_i found hread
        obtain ⟨key, hkey⟩ := key_of_readParts hread
        rw [hkey] at h
        dsimp only at h
        split at h
        · rename_i hdiffers
          split at hdiffers
          · rw [← Except.error.inj h, ← Except.error.inj hdiffers]
          · cases hdiffers
        · cases h

/-- An accepted key, with what it is made of. -/
structure Accepted (limit : Option Nat) (storageKey : String) where
  job : Nat
  attempt : Nat
  number : Nat
  epoch : String
  kind : ArtifactKind
  publication : Nat
  written : intText limit number = some epoch
  spelled : storageKey = keyText (uuidText job) (uuidText attempt) epoch kind (uuidText publication)

theorem accepted_of_ok {storageKey : String} {parts : AttemptParts}
    (h : parseAttemptKey limit storageKey = .ok parts) : Nonempty (Accepted limit storageKey) := by
  obtain ⟨job, attempt, publication, epoch, _, _, _, _, hwritten, hspelled⟩ :=
    attemptKey_ok.mp (key_of_parseAttemptKey h)
  exact ⟨⟨job, attempt, _, epoch, _, publication, hwritten, hspelled⟩⟩

theorem Accepted.words {storageKey : String} (k : Accepted limit storageKey) : ∀ word ∈
    keyWords (uuidText k.job) (uuidText k.attempt) k.epoch k.kind (uuidText k.publication),
      Word word :=
  words_of_epoch k.job k.attempt k.publication k.kind k.written

theorem Accepted.components {storageKey : String} (k : Accepted limit storageKey) :
    components storageKey =
    keyWords (uuidText k.job) (uuidText k.attempt) k.epoch k.kind (uuidText k.publication) := by
  conv_lhs => rw [k.spelled]
  exact components_keyText k.words

theorem Accepted.newline {storageKey : String} (k : Accepted limit storageKey) :
    '\n' ∉ storageKey.toList := by
  rw [k.spelled]
  exact fun hmem => absurd (mem_keyText k.words hmem) (by decide)

/-- **Attempt keys round-trip.** A key is written for every three texts of UUIDs, every positive
epoch whose text the interpreter's limit allows and every kind, and parses into the normalised
components; a text is accepted iff some components have it as their key, which then are the parsed
ones; so no two accepted texts denote the same object. What the ledger writes for a row is the key
of that row. -/
theorem attempt_keys_round_trip (limit : Option Nat) :
    (∀ (jobId attemptId publicationId : String) (leaseEpoch : Int) (kind : ArtifactKind)
        (job attempt publication : Nat),
      ofText jobId = some job → ofText attemptId = some attempt →
      ofText publicationId = some publication → 1 ≤ leaseEpoch →
      withinDigits limit (Nat.toDigits 10 leaseEpoch.toNat).length = true →
      ∃ key, attemptKey limit jobId attemptId leaseEpoch kind publicationId = .ok key
        ∧ parseAttemptKey limit key
          = .ok ⟨uuidText job, uuidText attempt, leaseEpoch, kind, uuidText publication⟩)
    ∧ (∀ storageKey, (∃ parts, parseAttemptKey limit storageKey = .ok parts) ↔
        ∃ jobId attemptId leaseEpoch kind publicationId,
          attemptKey limit jobId attemptId leaseEpoch kind publicationId = .ok storageKey)
    ∧ (∀ storageKey parts, parseAttemptKey limit storageKey = .ok parts →
        parts.key limit = .ok storageKey)
    ∧ (∀ first second parts, parseAttemptKey limit first = .ok parts →
        parseAttemptKey limit second = .ok parts → first = second)
    ∧ ∀ row : PublicationRow, row.jobId < 2 ^ 128 → row.attemptId < 2 ^ 128 → row.id < 2 ^ 128 →
        0 < row.leaseEpoch →
        attemptObjectKey limit row = attemptKey limit (uuidText row.jobId) (uuidText row.attemptId)
          row.leaseEpoch row.kind (uuidText row.id) := by
  refine ⟨?_, ?_, fun _ _ => key_of_parseAttemptKey, ?_, ?_⟩
  · intro jobId attemptId publicationId leaseEpoch kind job attempt publication hjob hattempt
      hpublication hpos hwithin
    -- the epoch is within the digits `str` writes
    have htext : intText limit leaseEpoch.toNat
        = some (String.ofList (Nat.toDigits 10 leaseEpoch.toNat)) := if_pos hwithin
    exact ⟨_, attemptKey_ok.mpr ⟨job, attempt, publication, _, hjob, hattempt, hpublication, hpos,
      htext, rfl⟩, parseAttemptKey_keyText (ofText_lt hjob) (ofText_lt hattempt)
      (ofText_lt hpublication) hpos htext⟩
  · intro storageKey
    constructor
    · rintro ⟨parts, hparts⟩
      exact ⟨_, _, _, _, _, key_of_parseAttemptKey hparts⟩
    · rintro ⟨jobId, attemptId, leaseEpoch, kind, publicationId, hkey⟩
      obtain ⟨job, attempt, publication, epoch, hjob, hattempt, hpublication, hpos, htext, rfl⟩ :=
        attemptKey_ok.mp hkey
      exact ⟨_, parseAttemptKey_keyText (ofText_lt hjob) (ofText_lt hattempt)
        (ofText_lt hpublication) hpos htext⟩
  · intro first second parts hfirst hsecond
    have := (key_of_parseAttemptKey hfirst).symm.trans (key_of_parseAttemptKey hsecond)
    exact Except.ok.inj this
  · intro row hjob hattempt hid hpos
    have hpos' : ¬ (row.leaseEpoch : Int) < 1 := by omega
    simp only [attemptObjectKey, attemptKey, strUuid, ofText_uuidText hjob,
      ofText_uuidText hattempt, ofText_uuidText hid, decide_eq_false hpos', raiseIf]
    rfl

end AttemptKeys

end NanoAural
