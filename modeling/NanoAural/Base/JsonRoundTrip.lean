import Mathlib.Data.List.TakeWhile
import NanoAural.Base.JsonText

/-!
# What is written is read

Character by character, then the numbers, then by induction over the value. A value
is followed by something that ends a number; a bound on the depth is never in the
way, since a text is longer than what it holds is deep.
-/

namespace JsonText

open Relational

/-! ## Characters -/

theorem hexValue_hexDigit (n : Nat) : hexValue (hexDigit n) = some (n % 16) := by
  have hall : ∀ k, k < 16 → hexValue k.digitChar = some k := by decide
  exact hall (n % 16) (Nat.mod_lt n (by decide))

theorem readHex4_hex4 {n : Nat} (hn : n < 65536) (rest : List Char) :
    readHex4 (hex4 n ++ rest) = some (n, rest) := by
  change (do
    let a ← hexValue (hexDigit (n / 4096))
    let b ← hexValue (hexDigit (n / 256))
    let c ← hexValue (hexDigit (n / 16))
    let d ← hexValue (hexDigit n)
    some (((a * 16 + b) * 16 + c) * 16 + d, rest)) = _
  rw [hexValue_hexDigit, hexValue_hexDigit, hexValue_hexDigit, hexValue_hexDigit]
  change some (((n / 4096 % 16 * 16 + n / 256 % 16) * 16 + n / 16 % 16) * 16 + n % 16, rest) = _
  congr 2
  omega

theorem shortEscape_some {c letter : Char} (h : shortEscape c = some letter) :
    unescape letter = some c ∧ letter ≠ 'u' := by
  unfold shortEscape at h
  split at h
  · rename_i hc
    rw [← Option.some.inj h, hc]
    decide
  split at h
  · rename_i hc
    rw [← Option.some.inj h, hc]
    decide
  split at h
  · rename_i hc
    rw [← Option.some.inj h, hc]
    decide
  split at h
  · rename_i hc
    rw [← Option.some.inj h, hc]
    decide
  split at h
  · rename_i hc
    rw [← Option.some.inj h, hc]
    decide
  split at h
  · rename_i hc
    rw [← Option.some.inj h, hc]
    decide
  split at h
  · rename_i hc
    rw [← Option.some.inj h, hc]
    decide
  · cases h

theorem shortEscape_none {c : Char} (h : shortEscape c = none) : c ≠ '"' ∧ c ≠ '\\' := by
  constructor
  · rintro rfl
    cases h
  · rintro rfl
    cases h

theorem readChar_escaped (letter : Char) (rest : List Char) :
    readChar ('\\' :: letter :: rest) =
      if letter = 'u' then readUnicode rest else (unescape letter).map fun c => (c, rest) := rfl

theorem readChar_short {c letter : Char} (h : shortEscape c = some letter) (rest : List Char) :
    readChar ('\\' :: letter :: rest) = some (c, rest) := by
  obtain ⟨hletter, hu⟩ := shortEscape_some h
  rw [readChar_escaped, if_neg hu, hletter]
  rfl

theorem readChar_plain {c : Char} (h : shortEscape c = none) (hc : 32 ≤ c.toNat)
    (rest : List Char) : readChar (c :: rest) = some (c, rest) := by
  obtain ⟨hquote, hslash⟩ := shortEscape_none h
  unfold readChar
  dsimp only
  rw [if_neg hslash, if_neg]
  rintro (h | h)
  · exact hquote h
  · omega

theorem toNat_valid (c : Char) : c.toNat < 0xD800 ∨ 0xDFFF < c.toNat ∧ c.toNat < 0x110000 :=
  c.valid

theorem readUnicode_plane {n : Nat} (hn : n < 0x10000) (hvalid : n < 0xD800 ∨ 0xDFFF < n)
    (rest : List Char) : readUnicode (hex4 n ++ rest) = some (Char.ofNat n, rest) := by
  unfold readUnicode
  rw [readHex4_hex4 hn]
  change (if n < 0xD800 ∨ 0xDFFF < n then some (Char.ofNat n, rest) else _) = _
  rw [if_pos hvalid]

/-- `\u` and the code of a character of the basic plane. -/
theorem readChar_unicode {c : Char} (hc : c.toNat < 0x10000) (rest : List Char) :
    readChar ('\\' :: 'u' :: (hex4 c.toNat ++ rest)) = some (c, rest) := by
  have hvalid : c.toNat < 0xD800 ∨ 0xDFFF < c.toNat := (toNat_valid c).imp_right And.left
  have hread := readUnicode_plane hc hvalid rest
  rw [Char.ofNat_toNat] at hread
  rw [readChar_escaped, if_pos rfl]
  exact hread

/-- The character two surrogates stand for. -/
def pairCode (n m : Nat) : Nat := 0x10000 + (n - 0xD800) * 0x400 + (m - 0xDC00)

theorem readUnicode_pair {n m : Nat} (hn : 0xD800 ≤ n) (hn' : n < 0xDC00) (hm : 0xDC00 ≤ m)
    (hm' : m ≤ 0xDFFF) (rest : List Char) :
    readUnicode (hex4 n ++ '\\' :: 'u' :: (hex4 m ++ rest)) = some (Char.ofNat (pairCode n m), rest) := by
  unfold readUnicode
  rw [readHex4_hex4 (by omega)]
  simp only [Option.bind_eq_bind, Option.bind_some]
  rw [if_neg (by omega), if_neg (by omega), readHex4_hex4 (by omega)]
  simp only [Option.bind_some]
  rw [if_neg (by omega)]
  rfl

theorem pairCode_eq {k : Nat} (hk : 0x10000 ≤ k) :
    pairCode (0xD800 + (k - 0x10000) / 0x400) (0xDC00 + (k - 0x10000) % 0x400) = k := by
  unfold pairCode
  omega

/-- Two surrogates. -/
theorem readChar_surrogates {c : Char} (hc : 0x10000 ≤ c.toNat) (rest : List Char) :
    readChar ('\\' :: 'u' :: (hex4 (0xD800 + (c.toNat - 0x10000) / 0x400)
      ++ '\\' :: 'u' :: (hex4 (0xDC00 + (c.toNat - 0x10000) % 0x400) ++ rest)))
        = some (c, rest) := by
  have hlt : c.toNat < 0x110000 := by
    rcases toNat_valid c with h | h <;> omega
  rw [readChar_escaped, if_pos rfl, readUnicode_pair (by omega) (by omega) (by omega) (by omega),
    pairCode_eq hc, Char.ofNat_toNat]

/-- An escape that is read back, and that does not look like the end of the string. -/
structure Readable (escape : Char → List Char) : Prop where
  reads : ∀ c rest, readChar (escape c ++ rest) = some (c, rest)
  begins : ∀ c, ∃ first rest, escape c = first :: rest ∧ first ≠ '"'

theorem readable_plainEscape : Readable plainEscape where
  reads c rest := by
    unfold plainEscape
    cases h : shortEscape c with
    | some letter => exact readChar_short h rest
    | none =>
        dsimp only
        by_cases hc : c.toNat < 32
        · rw [if_pos hc]
          exact readChar_unicode (by omega) rest
        · rw [if_neg hc]
          exact readChar_plain h (by omega) rest
  begins c := by
    unfold plainEscape
    cases h : shortEscape c with
    | some letter => exact ⟨'\\', _, rfl, by decide⟩
    | none =>
        dsimp only
        split
        · exact ⟨'\\', _, rfl, by decide⟩
        · exact ⟨c, _, rfl, (shortEscape_none h).1⟩

theorem readable_asciiEscape : Readable asciiEscape where
  reads c rest := by
    unfold asciiEscape
    cases h : shortEscape c with
    | some letter => exact readChar_short h rest
    | none =>
        dsimp only
        by_cases hc : 32 ≤ c.toNat ∧ c.toNat < 127
        · rw [if_pos hc]
          exact readChar_plain h hc.1 rest
        · rw [if_neg hc]
          by_cases hplane : c.toNat < 0x10000
          · rw [if_pos hplane]
            exact readChar_unicode hplane rest
          · rw [if_neg hplane]
            simp only [List.cons_append, List.append_assoc]
            exact readChar_surrogates (by omega) rest
  begins c := by
    unfold asciiEscape
    cases h : shortEscape c with
    | some letter => exact ⟨'\\', _, rfl, by decide⟩
    | none =>
        dsimp only
        split
        · exact ⟨c, _, rfl, (shortEscape_none h).1⟩
        · split
          · exact ⟨'\\', _, rfl, by decide⟩
          · exact ⟨'\\', _, rfl, by decide⟩

variable {escape : Char → List Char}

/-- **A string** is read back to its closing quote. -/
theorem readChars_write (hescape : Readable escape) (cs rest : List Char) :
    ∀ n, cs.length < n → readChars n (cs.flatMap escape ++ '"' :: rest) = some (cs, rest) := by
  induction cs with
  | nil =>
      intro n hn
      cases n with
      | zero => exact absurd hn (Nat.lt_irrefl 0)
      | succ n => rfl
  | cons c cs ih =>
      intro n hn
      cases n with
      | zero => exact absurd hn (Nat.not_lt_zero _)
      | succ n =>
          obtain ⟨first, tail, heq, hfirst⟩ := hescape.begins c
          have hread := hescape.reads c (cs.flatMap escape ++ '"' :: rest)
          rw [List.flatMap_cons, List.append_assoc]
          unfold readChars
          have hhead : (escape c ++ (cs.flatMap escape ++ '"' :: rest)).head? ≠ some '"' := by
            rw [heq]
            exact fun h => hfirst (Option.some.inj h)
          rw [if_neg hhead, hread]
          change (readChars n (cs.flatMap escape ++ '"' :: rest)).bind _ = _
          rw [ih n (by rw [List.length_cons] at hn; omega)]
          rfl

/-! ## Numbers -/

/-- What comes next ends a number. -/
def Ends (rest : List Char) : Prop := ∀ c, rest.head? = some c → isNumberChar c = false

theorem ends_nil : Ends [] := fun _ h => nomatch h

theorem ends_cons {c : Char} (rest : List Char) (h : isNumberChar c = false) : Ends (c :: rest) :=
  fun _ heq => Option.some.inj heq ▸ h

theorem takeWhile_ends {p : Char → Bool} {token rest : List Char} (htoken : ∀ c ∈ token, p c = true)
    (hrest : ∀ c, rest.head? = some c → p c = false) :
    (token ++ rest).takeWhile p = token ∧ (token ++ rest).dropWhile p = rest := by
  rw [List.takeWhile_append_of_pos htoken, List.dropWhile_append_of_pos htoken]
  cases rest with
  | nil => exact ⟨List.append_nil _, rfl⟩
  | cons c rest =>
      have hc := Bool.eq_false_iff.mp (hrest c rfl)
      rw [List.takeWhile_cons_of_neg hc, List.dropWhile_cons_of_neg hc, List.append_nil]
      exact ⟨rfl, rfl⟩

theorem isNumberChar_of_isDigit {c : Char} (h : c.isDigit = true) : isNumberChar c = true := by
  unfold isNumberChar
  rw [h]
  rfl

theorem isNatText_toDigits (n : Nat) : isNatText (Nat.toDigits 10 n) = true := by
  have hdigits : (Nat.toDigits 10 n).all Char.isDigit = true :=
    List.all_eq_true.mpr fun c hc => Nat.isDigit_of_mem_toDigits (by decide) (by decide) hc
  have hfirst : ∀ n : Nat, 0 < n → (Nat.toDigits 10 n).head? ≠ some '0' := by
    intro n
    induction n using Nat.strongRecOn with
    | ind n ih =>
        intro hn
        by_cases hlt : n < 10
        · have hall : ∀ k, k < 10 → 0 < k → Nat.digitChar k ≠ '0' := by decide
          rw [Nat.toDigits_of_lt_base hlt, List.head?_cons]
          exact fun h => hall n hlt hn (Option.some.inj h)
        · have hne := Nat.toDigits_ne_nil (n := n / 10) (b := 10)
          rw [Nat.toDigits_of_base_le (by decide) (Nat.not_lt.mp hlt)]
          rw [List.head?_append_of_ne_nil _ hne]
          exact ih (n / 10) (by omega) (by omega)
  cases h : Nat.toDigits 10 n with
  | nil => exact absurd h Nat.toDigits_ne_nil
  | cons c rest =>
      unfold isNatText
      dsimp only
      rw [← h, hdigits, Bool.true_and, Bool.or_eq_true, bne_iff_ne]
      by_cases hn : n = 0
      · subst hn
        rw [Nat.toDigits_zero] at h
        rw [← (List.cons.inj h).2]
        exact .inr rfl
      · refine .inl fun hc => hfirst n (Nat.pos_of_ne_zero hn) ?_
        rw [h, hc]
        rfl

theorem unsigned_cons_neg {c : Char} {rest : List Char} (h : c ≠ '-') :
    unsigned (c :: rest) = c :: rest := by
  unfold unsigned
  rw [List.head?_cons, if_neg fun heq => h (Option.some.inj heq)]

theorem toDigits_head (n : Nat) : ∃ c rest, Nat.toDigits 10 n = c :: rest ∧ c.isDigit = true := by
  cases h : Nat.toDigits 10 n with
  | nil => exact absurd h Nat.toDigits_ne_nil
  | cons c rest =>
      refine ⟨c, rest, rfl, Nat.isDigit_of_mem_toDigits (b := 10) (n := n) (by decide) (by decide) ?_⟩
      rw [h]
      exact List.mem_cons_self

theorem not_dash_of_isDigit {c : Char} (h : c.isDigit = true) : c ≠ '-' := by
  rintro rfl
  exact absurd h (by decide)

theorem isIntText_writeInt (n : Int) : isIntText (writeInt n) = true := by
  unfold isIntText writeInt
  split
  · exact isNatText_toDigits _
  · obtain ⟨c, rest, heq, hc⟩ := toDigits_head n.natAbs
    have htext := isNatText_toDigits n.natAbs
    rw [heq] at htext ⊢
    rw [unsigned_cons_neg (not_dash_of_isDigit hc)]
    exact htext

theorem intOf_writeInt (n : Int) : intOf (writeInt n) = n := by
  unfold intOf writeInt
  split
  · rw [List.head?_cons, if_pos rfl, List.tail_cons, Nat.ofDigitChars_ten_toDigits]
    omega
  · obtain ⟨c, rest, heq, hc⟩ := toDigits_head n.natAbs
    have hhead : (Nat.toDigits 10 n.natAbs).head? ≠ some '-' := by
      rw [heq]
      exact fun h => not_dash_of_isDigit hc (Option.some.inj h)
    rw [if_neg hhead, Nat.ofDigitChars_ten_toDigits]
    omega

theorem writeInt_chars (n : Int) : ∀ c ∈ writeInt n, isNumberChar c = true := by
  have hdigits : ∀ c ∈ Nat.toDigits 10 n.natAbs, isNumberChar c = true := fun c hc =>
    isNumberChar_of_isDigit (Nat.isDigit_of_mem_toDigits (by decide) (by decide) hc)
  intro c hc
  unfold writeInt at hc
  split at hc
  · rcases List.mem_cons.mp hc with rfl | hc
    · decide
    · exact hdigits c hc
  · exact hdigits c hc

theorem readNumber_int (n : Int) {rest : List Char} (hrest : Ends rest) :
    readNumber (writeInt n ++ rest) = some (.int n, rest) := by
  obtain ⟨htake, hdrop⟩ := takeWhile_ends (writeInt_chars n) hrest
  unfold readNumber
  rw [htake, hdrop, if_pos (isIntText_writeInt n), intOf_writeInt]

/-- A number with a fraction or an exponent does not read as an integer. -/
theorem isIntText_real {text : List Char} (h : isRealText text = true) : isIntText text = false := by
  unfold isRealText at h
  rw [Bool.and_eq_true] at h
  rw [Bool.eq_false_iff]
  intro hint
  unfold isIntText at hint
  have hall : (unsigned text).all Char.isDigit = true := by
    generalize unsigned text = body at hint
    cases body with
    | nil => rfl
    | cons c rest =>
        unfold isNatText at hint
        exact (Bool.and_eq_true _ _ ▸ hint).1
  have hnil : (unsigned text).dropWhile Char.isDigit = [] := by
    exact List.dropWhile_eq_nil_iff.mpr (List.all_eq_true.mp hall)
  rw [hnil] at h
  exact absurd h.2 (by decide)

theorem readNumber_real {text : String} (h : isRealText text.toList = true) {rest : List Char}
    (hrest : Ends rest) : readNumber (text.toList ++ rest) = some (.real text, rest) := by
  have hchars : ∀ c ∈ text.toList, isNumberChar c = true := by
    unfold isRealText at h
    rw [Bool.and_eq_true, Bool.and_eq_true] at h
    exact List.all_eq_true.mp h.1.1
  obtain ⟨htake, hdrop⟩ := takeWhile_ends hchars hrest
  unfold readNumber
  simp only [htake, hdrop, isIntText_real h, h, Bool.false_eq_true, if_false, if_true,
    String.ofList_toList]

/-! ## Values -/

/-- The floats that are not finite, as they are written. -/
def realWords : List String := ["NaN", "Infinity", "-Infinity"]

mutual

/-- Every number with a fraction or an exponent is spelled as one, unless it is not finite. -/
def Writable : JsonValue → Prop
  | .real text => isRealText text.toList = true ∨ text ∈ realWords
  | .array items => WritableItems items
  | .object members => WritableMembers members
  | .null | .bool _ | .int _ | .string _ => True

def WritableItems : List JsonValue → Prop
  | [] => True
  | v :: rest => Writable v ∧ WritableItems rest

def WritableMembers : List (String × JsonValue) → Prop
  | [] => True
  | (_, v) :: rest => Writable v ∧ WritableMembers rest

end

theorem isNumberChar_ne {c d : Char} (h : isNumberChar c = true) (hd : isNumberChar d = false) :
    c ≠ d := by
  rintro rfl
  exact absurd (h.symm.trans hd) (by simp)

/-- Where a number starts, the reader of values leaves it to the reader of numbers. -/
theorem readValue_number {text : List Char} (hchars : ∀ c ∈ text, isNumberChar c = true)
    (hbody : unsigned text ≠ []) (n : Nat) (rest : List Char) :
    readValue (n + 1) (text ++ rest) = readNumber (text ++ rest) := by
  cases text with
  | nil => exact absurd rfl hbody
  | cons c tail =>
      have hc := hchars c List.mem_cons_self
      have hinfinity : ¬ (c = '-' ∧ (tail ++ rest).head? = some 'I') := by
        rintro ⟨rfl, hhead⟩
        cases tail with
        | nil => exact hbody rfl
        | cons d tail =>
            have hd := hchars d (by simp)
            obtain rfl := Option.some.inj hhead
            exact absurd hd (by decide)
      rw [List.cons_append]
      unfold readValue
      rw [if_neg (isNumberChar_ne hc (by decide)), if_neg (isNumberChar_ne hc (by decide)),
        if_neg (isNumberChar_ne hc (by decide)), if_neg (isNumberChar_ne hc (by decide)),
        if_neg (isNumberChar_ne hc (by decide)), if_neg (isNumberChar_ne hc (by decide)),
        if_neg (isNumberChar_ne hc (by decide)), if_neg (isNumberChar_ne hc (by decide)),
        if_neg hinfinity]

theorem unsigned_writeInt (n : Int) : unsigned (writeInt n) ≠ [] := by
  intro h
  have := isIntText_writeInt n
  unfold isIntText at this
  rw [h] at this
  cases this

theorem unsigned_real {text : List Char} (h : isRealText text = true) : unsigned text ≠ [] := by
  intro hnil
  unfold isRealText at h
  rw [hnil] at h
  simp [isNatText] at h

theorem real_chars {text : List Char} (h : isRealText text = true) :
    ∀ c ∈ text, isNumberChar c = true := by
  unfold isRealText at h
  rw [Bool.and_eq_true, Bool.and_eq_true] at h
  exact List.all_eq_true.mp h.1.1

def isBlank (c : Char) : Bool := c == ' ' || c == '\t' || c == '\n' || c == '\r'

theorem skip_cons {c : Char} (rest : List Char) (h : isBlank c = false) :
    skip (c :: rest) = c :: rest := List.dropWhile_cons_of_neg (by rw [isBlank] at h; simp [h])

theorem begins_of_chars {text : List Char} (hchars : ∀ c ∈ text, isNumberChar c = true)
    (hbody : unsigned text ≠ []) :
    ∃ c tail, text = c :: tail ∧ isBlank c = false ∧ c ≠ ']' := by
  cases text with
  | nil => exact absurd rfl hbody
  | cons c tail =>
      have hc := hchars c List.mem_cons_self
      refine ⟨c, tail, rfl, ?_, isNumberChar_ne hc (by decide)⟩
      rw [Bool.eq_false_iff]
      intro hblank
      unfold isBlank at hblank
      simp only [Bool.or_eq_true, beq_iff_eq] at hblank
      rcases hblank with ((rfl | rfl) | rfl) | rfl
      · exact absurd hc (by decide)
      · exact absurd hc (by decide)
      · exact absurd hc (by decide)
      · exact absurd hc (by decide)

/-- A value starts with no blank, and does not look like the end of an array. -/
theorem write_begins {v : JsonValue} (h : Writable v) :
    ∃ c tail, write escape v = c :: tail ∧ isBlank c = false ∧ c ≠ ']' := by
  cases v with
  | null => exact ⟨'n', _, rfl, by decide, by decide⟩
  | bool b =>
      cases b with
      | true => exact ⟨'t', _, rfl, by decide, by decide⟩
      | false => exact ⟨'f', _, rfl, by decide, by decide⟩
  | int n => exact begins_of_chars (writeInt_chars n) (unsigned_writeInt n)
  | real text =>
      rcases h with h | h
      · exact begins_of_chars (real_chars h) (unsigned_real h)
      · simp only [realWords, List.mem_cons, List.not_mem_nil, or_false] at h
        rcases h with rfl | rfl | rfl
        · exact ⟨'N', _, rfl, by decide, by decide⟩
        · exact ⟨'I', _, rfl, by decide, by decide⟩
        · exact ⟨'-', _, rfl, by decide, by decide⟩
  | string s => exact ⟨'"', _, rfl, by decide, by decide⟩
  | array items => exact ⟨'[', _, rfl, by decide, by decide⟩
  | object members => exact ⟨'{', _, rfl, by decide, by decide⟩

theorem skip_write {v : JsonValue} (h : Writable v) (rest : List Char) :
    skip (write escape v ++ rest) = write escape v ++ rest := by
  obtain ⟨c, tail, heq, hblank, _⟩ := @write_begins escape v h
  rw [heq]
  exact skip_cons _ hblank

theorem write_pos {v : JsonValue} (h : Writable v) : 0 < (write escape v).length := by
  obtain ⟨c, tail, heq, _⟩ := @write_begins escape v h
  rw [heq]
  exact Nat.succ_pos _

/-- The end of an array or an object, or a comma before what comes next. -/
theorem ends_after (rest : List Char) : Ends (']' :: rest) ∧ Ends ('}' :: rest) ∧ Ends (',' :: rest) :=
  ⟨ends_cons _ (by decide), ends_cons _ (by decide), ends_cons _ (by decide)⟩

theorem length_flatMap_escape (hescape : Readable escape) (cs : List Char) :
    cs.length ≤ (cs.flatMap escape).length := by
  induction cs with
  | nil => exact Nat.le_refl _
  | cons c cs ih =>
      obtain ⟨first, tail, heq, _⟩ := hescape.begins c
      rw [List.flatMap_cons, heq, List.length_append, List.length_cons, List.length_cons]
      omega

/-- The items of an array start as its first item does. -/
theorem writeItems_begins {v : JsonValue} {vs : List JsonValue} (h : Writable v) :
    ∃ c tail, writeItems escape (v :: vs) = c :: tail ∧ isBlank c = false ∧ c ≠ ']' := by
  obtain ⟨c, tail, heq, hblank, hc⟩ := @write_begins escape v h
  cases vs with
  | nil => exact ⟨c, tail, heq, hblank, hc⟩
  | cons w vs =>
      refine ⟨c, tail ++ ',' :: writeItems escape (w :: vs), ?_, hblank, hc⟩
      change write escape v ++ ',' :: writeItems escape (w :: vs) = _
      rw [heq]
      rfl

theorem writeMembers_begins (m : String × JsonValue) (ms : List (String × JsonValue)) :
    ∃ tail, writeMembers escape (m :: ms) = '"' :: tail := by
  obtain ⟨key, v⟩ := m
  cases ms with
  | nil => exact ⟨_, rfl⟩
  | cons w ms => exact ⟨_, rfl⟩

theorem readWord_append (word : String) (v : JsonValue) (rest : List Char) :
    readWord word v (word.toList ++ rest) = some (v, rest) := by
  unfold readWord
  rw [if_pos (List.isPrefixOf_iff_prefix.mpr (List.prefix_append _ _)), List.drop_left]

theorem head_skip_cons {c : Char} (h : isBlank c = false) (rest : List Char) :
    (skip (c :: rest)).head? = some c ∧ (skip (c :: rest)).tail = rest := by
  rw [skip_cons rest h]
  exact ⟨rfl, rfl⟩

/-- The key of a member and the colon. -/
theorem readMembers_key (hescape : Readable escape) (key : String) (text rest : List Char) (n : Nat) :
    readMembers (n + 1) ((writeString escape key ++ ':' :: text) ++ rest) = (do
      let (v, rest) ← readValue n (skip (text ++ rest))
      if (skip rest).head? = some '}' then some ([(key, v)], (skip rest).tail)
      else if (skip rest).head? = some ',' then do
        let (vs, rest) ← readMembers n (skip rest).tail
        some ((key, v) :: vs, rest)
      else none) := by
  have htext : (writeString escape key ++ ':' :: text) ++ rest
      = '"' :: (key.toList.flatMap escape ++ '"' :: ':' :: (text ++ rest)) := by
    unfold writeString
    simp
  have hlength := length_flatMap_escape hescape key.toList
  obtain ⟨hhead, htail⟩ := head_skip_cons (c := '"') (by decide)
    (key.toList.flatMap escape ++ '"' :: ':' :: (text ++ rest))
  obtain ⟨hcolon, hafter⟩ := head_skip_cons (c := ':') (by decide) (text ++ rest)
  have hkey := readChars_write hescape key.toList (':' :: (text ++ rest))
    (('"' :: (key.toList.flatMap escape ++ '"' :: ':' :: (text ++ rest))).length + 1)
    (by rw [List.length_cons, List.length_append]; omega)
  rw [htext]
  conv => lhs; unfold readMembers
  rw [if_neg (not_not.mpr hhead), htail, hkey]
  simp only [Option.bind_eq_bind, Option.bind_some, hcolon, hafter, ne_eq, not_true_eq_false,
    if_false, String.ofList_toList]

mutual

/-- **A value** is read back, and what comes after it is left. -/
theorem readValue_write (hescape : Readable escape) : ∀ (v : JsonValue), Writable v →
    ∀ (n : Nat) (rest : List Char), (write escape v).length ≤ n → Ends rest →
      readValue n (write escape v ++ rest) = some (v, rest)
  | .null, _, n + 1, rest, _, _ => by
      have hword : "null".toList = 'n' :: "ull".toList := by decide
      unfold write
      rw [hword]
      exact readWord_append "ull" .null rest
  | .bool true, _, n + 1, rest, _, _ => by
      have hword : "true".toList = 't' :: "rue".toList := by decide
      unfold write
      rw [hword]
      exact readWord_append "rue" (.bool true) rest
  | .bool false, _, n + 1, rest, _, _ => by
      have hword : "false".toList = 'f' :: "alse".toList := by decide
      unfold write
      rw [hword]
      exact readWord_append "alse" (.bool false) rest
  | .int i, _, n + 1, rest, _, hrest => by
      change readValue (n + 1) (writeInt i ++ rest) = _
      rw [readValue_number (writeInt_chars i) (unsigned_writeInt i), readNumber_int i hrest]
  | .real text, .inl h, n + 1, rest, _, hrest => by
      change readValue (n + 1) (text.toList ++ rest) = _
      rw [readValue_number (real_chars h) (unsigned_real h), readNumber_real h hrest]
  | .real text, .inr h, n + 1, rest, _, _ => by
      change readValue (n + 1) (text.toList ++ rest) = _
      simp only [realWords, List.mem_cons, List.not_mem_nil, or_false] at h
      -- the three constants that are no numbers
      rcases h with rfl | rfl | rfl
      · exact readWord_append "aN" (.real "NaN") rest
      · exact readWord_append "nfinity" (.real "Infinity") rest
      · exact readWord_append "Infinity" (.real "-Infinity") rest
  | .string s, _, n + 1, rest, _, _ => by
      have hlength := length_flatMap_escape hescape s.toList
      change (readChars (((s.toList.flatMap escape ++ ['"']) ++ rest).length + 1)
        ((s.toList.flatMap escape ++ ['"']) ++ rest)).map
          (fun r => (JsonValue.string (String.ofList r.1), r.2)) = _
      -- the fuel of a string is its own length
      rw [List.append_assoc, List.singleton_append, readChars_write hescape]
      · rw [Option.map_some, String.ofList_toList]
      · rw [List.length_append]
        omega
  | .array [], _, n + 1, rest, _, _ => rfl
  | .array (v :: vs), h, n + 1, rest, hn, _ => by
      obtain ⟨c, tail, heq, hblank, hc⟩ := @writeItems_begins escape v vs h.1
      have hlength : (writeItems escape (v :: vs)).length < n := by
        change ('[' :: (writeItems escape (v :: vs) ++ [']'])).length ≤ n + 1 at hn
        rw [List.length_cons, List.length_append, List.length_singleton] at hn
        omega
      have hitems := readItems_write hescape v vs h.1 h.2 n rest hlength
      have hhead : (skip (writeItems escape (v :: vs) ++ ']' :: rest)).head? ≠ some ']' := by
        rw [heq, List.cons_append, (head_skip_cons hblank _).1]
        exact fun h => hc (Option.some.inj h)
      change readValue (n + 1) ('[' :: ((writeItems escape (v :: vs) ++ [']']) ++ rest)) = _
      rw [List.append_assoc, List.singleton_append]
      unfold readValue
      rw [if_neg (by decide), if_pos rfl, if_neg hhead, hitems]
      rfl
  | .object [], _, n + 1, rest, _, _ => rfl
  | .object (m :: ms), h, n + 1, rest, hn, _ => by
      obtain ⟨key, v⟩ := m
      obtain ⟨tail, heq⟩ := @writeMembers_begins escape (key, v) ms
      have hlength : (writeMembers escape ((key, v) :: ms)).length < n := by
        change ('{' :: (writeMembers escape ((key, v) :: ms) ++ ['}'])).length ≤ n + 1 at hn
        rw [List.length_cons, List.length_append, List.length_singleton] at hn
        omega
      have hmembers := readMembers_write hescape key v ms h.1 h.2 n rest hlength
      have hhead : (skip (writeMembers escape ((key, v) :: ms) ++ '}' :: rest)).head?
          ≠ some '}' := by
        rw [heq, List.cons_append, (head_skip_cons (by decide) _).1]
        exact fun h => absurd (Option.some.inj h) (by decide)
      change readValue (n + 1)
        ('{' :: ((writeMembers escape ((key, v) :: ms) ++ ['}']) ++ rest)) = _
      rw [List.append_assoc, List.singleton_append]
      unfold readValue
      rw [if_neg (by decide), if_neg (by decide), if_pos rfl, if_neg hhead, hmembers]
      rfl
  | v, h, 0, rest, hn, _ => absurd (@write_pos escape v h) (by omega)

theorem readItems_write (hescape : Readable escape) : ∀ (v : JsonValue) (vs : List JsonValue),
    Writable v → WritableItems vs → ∀ (n : Nat) (rest : List Char),
      (writeItems escape (v :: vs)).length < n →
        readItems n (writeItems escape (v :: vs) ++ ']' :: rest) = some (v :: vs, rest)
  | _, _, _, _, 0, _, hn => absurd hn (Nat.not_lt_zero _)
  | v, [], h, _, n + 1, rest, hn => by
      have hread := readValue_write hescape v h n (']' :: rest) (Nat.le_of_lt_succ hn)
        (ends_after rest).1
      obtain ⟨hhead, htail⟩ := head_skip_cons (c := ']') (by decide) rest
      change readItems (n + 1) (write escape v ++ ']' :: rest) = _
      unfold readItems
      rw [skip_write h, hread]
      simp only [Option.bind_eq_bind, Option.bind_some, hhead, htail, if_true]
  | v, w :: vs, h, hs, n + 1, rest, hn => by
      have hlength : (write escape v).length + (writeItems escape (w :: vs)).length < n := by
        change (write escape v ++ ',' :: writeItems escape (w :: vs)).length < n + 1 at hn
        rw [List.length_append, List.length_cons] at hn
        omega
      have hread := readValue_write hescape v h n (',' :: (writeItems escape (w :: vs) ++ ']' :: rest))
        (by omega) (ends_after _).2.2
      have hrest := readItems_write hescape w vs hs.1 hs.2 n rest (by omega)
      obtain ⟨hhead, htail⟩ := head_skip_cons (c := ',') (by decide)
        (writeItems escape (w :: vs) ++ ']' :: rest)
      change readItems (n + 1)
        ((write escape v ++ ',' :: writeItems escape (w :: vs)) ++ ']' :: rest) = _
      rw [List.append_assoc, List.cons_append]
      unfold readItems
      rw [skip_write h, hread]
      simp only [Option.bind_eq_bind, Option.bind_some, hhead, htail, hrest]
      rfl

theorem readMembers_write (hescape : Readable escape) : ∀ (key : String) (v : JsonValue)
    (ms : List (String × JsonValue)), Writable v → WritableMembers ms → ∀ (n : Nat)
      (rest : List Char), (writeMembers escape ((key, v) :: ms)).length < n →
        readMembers n (writeMembers escape ((key, v) :: ms) ++ '}' :: rest)
          = some ((key, v) :: ms, rest)
  | _, _, _, _, _, 0, _, hn => absurd hn (Nat.not_lt_zero _)
  | key, v, [], h, _, n + 1, rest, hn => by
      have hlength : (write escape v).length ≤ n := by
        change (writeString escape key ++ ':' :: write escape v).length < n + 1 at hn
        rw [List.length_append, List.length_cons] at hn
        omega
      have hread := readValue_write hescape v h n ('}' :: rest) hlength (ends_after rest).2.1
      obtain ⟨hhead, htail⟩ := head_skip_cons (c := '}') (by decide) rest
      change readMembers (n + 1) ((writeString escape key ++ ':' :: write escape v) ++ '}' :: rest) = _
      rw [readMembers_key hescape, skip_write h, hread]
      simp only [Option.bind_eq_bind, Option.bind_some, hhead, htail, if_true]
  | key, v, (key', w) :: ms, h, hs, n + 1, rest, hn => by
      have hlength : (write escape v).length + (writeMembers escape ((key', w) :: ms)).length < n := by
        change ((writeString escape key ++ ':' :: write escape v)
          ++ ',' :: writeMembers escape ((key', w) :: ms)).length < n + 1 at hn
        rw [List.length_append, List.length_append, List.length_cons, List.length_cons] at hn
        omega
      have hread := readValue_write hescape v h n
        (',' :: (writeMembers escape ((key', w) :: ms) ++ '}' :: rest)) (by omega) (ends_after _).2.2
      have hrest := readMembers_write hescape key' w ms hs.1 hs.2 n rest (by omega)
      obtain ⟨hhead, htail⟩ := head_skip_cons (c := ',') (by decide)
        (writeMembers escape ((key', w) :: ms) ++ '}' :: rest)
      change readMembers (n + 1) (((writeString escape key ++ ':' :: write escape v)
        ++ ',' :: writeMembers escape ((key', w) :: ms)) ++ '}' :: rest) = _
      rw [List.append_assoc, readMembers_key hescape, List.cons_append, skip_write h, hread]
      simp only [Option.bind_eq_bind, Option.bind_some, hhead, htail, hrest]
      rfl

end

/-- **A text** that was written is read as what was written, with blanks after it or none. -/
theorem read_write (hescape : Readable escape) {v : JsonValue} (h : Writable v) {blanks : List Char}
    (hblanks : ∀ c ∈ blanks, isBlank c = true) : read (write escape v ++ blanks) = some v := by
  have hends : Ends blanks := by
    intro c hc
    have hblank := hblanks c (List.mem_of_mem_head? hc)
    rw [Bool.eq_false_iff]
    intro hnumber
    unfold isBlank at hblank
    simp only [Bool.or_eq_true, beq_iff_eq] at hblank
    rcases hblank with ((rfl | rfl) | rfl) | rfl
    · exact absurd hnumber (by decide)
    · exact absurd hnumber (by decide)
    · exact absurd hnumber (by decide)
    · exact absurd hnumber (by decide)
  have hread := readValue_write hescape v h ((write escape v ++ blanks).length + 1) blanks
    (by rw [List.length_append]; omega) hends
  have hskip : skip blanks = [] := List.dropWhile_eq_nil_iff.mpr hblanks
  unfold read
  rw [skip_write h, hread]
  simp only [Option.bind_eq_bind, Option.bind_some, hskip]
  rfl

/-! ## Order of members -/

theorem writableItems_iff {items : List JsonValue} :
    WritableItems items ↔ ∀ v ∈ items, Writable v := by
  induction items with
  | nil => exact ⟨fun _ _ h => (by cases h), fun _ => trivial⟩
  | cons v rest ih => rw [List.forall_mem_cons, ← ih, WritableItems]

theorem writableMembers_iff {members : List (String × JsonValue)} :
    WritableMembers members ↔ ∀ m ∈ members, Writable m.2 := by
  induction members with
  | nil => exact ⟨fun _ _ h => (by cases h), fun _ => trivial⟩
  | cons m rest ih => rw [List.forall_mem_cons, ← ih, WritableMembers]

mutual

theorem writable_sortKeys : ∀ {v : JsonValue}, Writable v → Writable v.sortKeys
  | .null, h | .bool _, h | .int _, h | .real _, h | .string _, h => h
  | .array _, h => writable_sortItems h
  | .object _, h => writableMembers_iff.mpr fun m hm =>
      writableMembers_iff.mp (writable_sortMembers h) m (mem_orderBy.mp hm)

theorem writable_sortItems : ∀ {items : List JsonValue}, WritableItems items →
    WritableItems (sortItems items)
  | [], h => h
  | _ :: _, h => ⟨writable_sortKeys h.1, writable_sortItems h.2⟩

theorem writable_sortMembers : ∀ {members : List (String × JsonValue)}, WritableMembers members →
    WritableMembers (sortMembers members)
  | [], h => h
  | (_, _) :: _, h => ⟨writable_sortKeys h.1, writable_sortMembers h.2⟩

end

/-! ## Bytes -/

theorem readUtf8_utf8 (text : List Char) : readUtf8 (utf8 text) = some text := by
  unfold readUtf8 utf8
  change (text.utf8Encode.utf8Decode?).map Array.toList = _
  rw [List.utf8Decode?_utf8Encode]
  rfl

/-! ## ASCII -/

/-- Every character is an ASCII one. -/
def Ascii (text : List Char) : Prop := ∀ c ∈ text, c.toNat < 128

theorem ascii_append {text text' : List Char} (h : Ascii text) (h' : Ascii text') :
    Ascii (text ++ text') := fun c hc => (List.mem_append.mp hc).elim (h c) (h' c)

theorem ascii_cons {c : Char} {text : List Char} (hc : c.toNat < 128) (h : Ascii text) :
    Ascii (c :: text) := fun d hd => (List.mem_cons.mp hd).elim (fun heq => heq ▸ hc) (h d)

theorem ascii_nil : Ascii [] := fun _ h => (by cases h)

theorem ascii_of_all {text : List Char} (h : text.all (fun c => c.toNat < 128) = true) :
    Ascii text := fun c hc => of_decide_eq_true (List.all_eq_true.mp h c hc)

theorem ascii_hex4 (n : Nat) : Ascii (hex4 n) := by
  have hdigit : ∀ k, k < 16 → k.digitChar.toNat < 128 := by decide
  have hhex : ∀ k, (hexDigit k).toNat < 128 := fun k => hdigit (k % 16) (Nat.mod_lt k (by decide))
  exact ascii_cons (hhex _) (ascii_cons (hhex _) (ascii_cons (hhex _) (ascii_cons (hhex _) ascii_nil)))

theorem ascii_asciiEscape (c : Char) : Ascii (asciiEscape c) := by
  have hu : ∀ n, Ascii ('\\' :: 'u' :: hex4 n) := fun n =>
    ascii_cons (by decide) (ascii_cons (by decide) (ascii_hex4 n))
  unfold asciiEscape
  cases h : shortEscape c with
  | some letter =>
      have hletter : letter.toNat < 128 := by
        unfold shortEscape at h
        repeat' split at h
        all_goals first | cases h; decide | cases h
      exact ascii_cons (by decide) (ascii_cons hletter ascii_nil)
  | none =>
      dsimp only
      split
      · rename_i hc
        exact ascii_cons (by omega) ascii_nil
      · split
        · exact hu _
        · exact ascii_cons (by decide) (ascii_cons (by decide) (ascii_append (ascii_hex4 _) (hu _)))

theorem ascii_of_chars {text : List Char} (h : ∀ c ∈ text, isNumberChar c = true) : Ascii text := by
  intro c hc
  have hnumber := h c hc
  unfold isNumberChar at hnumber
  simp only [Bool.or_eq_true, beq_iff_eq] at hnumber
  rcases hnumber with ((((hdigit | rfl) | rfl) | rfl) | rfl) | rfl
  · unfold Char.isDigit at hdigit
    rw [Bool.and_eq_true, decide_eq_true_eq, decide_eq_true_eq] at hdigit
    have hle : c.val.toNat ≤ 57 := UInt32.le_iff_toNat_le.mp hdigit.2
    exact Nat.lt_of_le_of_lt hle (by decide)
  all_goals decide

theorem ascii_writeString (s : String) : Ascii (writeString asciiEscape s) := by
  refine ascii_cons (by decide) (ascii_append (fun c hc => ?_) (ascii_cons (by decide) ascii_nil))
  obtain ⟨d, _, hd⟩ := List.mem_flatMap.mp hc
  exact ascii_asciiEscape d c hd

mutual

/-- What is escaped as ASCII is ASCII. -/
theorem ascii_write : ∀ {v : JsonValue}, Writable v → Ascii (write asciiEscape v)
  | .null, _ => ascii_of_all rfl
  | .bool true, _ => ascii_of_all rfl
  | .bool false, _ => ascii_of_all rfl
  | .int n, _ => ascii_of_chars (writeInt_chars n)
  | .real _, .inl h => ascii_of_chars (real_chars h)
  | .real _, .inr h => by
      simp only [realWords, List.mem_cons, List.not_mem_nil, or_false] at h
      rcases h with rfl | rfl | rfl <;> exact ascii_of_all (by decide)
  | .string s, _ => ascii_writeString s
  | .array _, h => ascii_cons (by decide)
      (ascii_append (ascii_writeItems h) (ascii_cons (by decide) ascii_nil))
  | .object _, h => ascii_cons (by decide)
      (ascii_append (ascii_writeMembers h) (ascii_cons (by decide) ascii_nil))

theorem ascii_writeItems : ∀ {items : List JsonValue}, WritableItems items →
    Ascii (writeItems asciiEscape items)
  | [], _ => ascii_nil
  | [_], h => ascii_write h.1
  | _ :: _ :: _, h => ascii_append (ascii_write h.1) (ascii_cons (by decide) (ascii_writeItems h.2))

theorem ascii_writeMembers : ∀ {members : List (String × JsonValue)}, WritableMembers members →
    Ascii (writeMembers asciiEscape members)
  | [], _ => ascii_nil
  | [(key, _)], h => ascii_append (ascii_writeString key)
      (ascii_cons (by decide) (ascii_write h.1))
  | (key, _) :: _ :: _, h => ascii_append (ascii_append (ascii_writeString key)
      (ascii_cons (by decide) (ascii_write h.1))) (ascii_cons (by decide) (ascii_writeMembers h.2))

end

/-- A text of ASCII characters is as long as its bytes. -/
theorem utf8_length {text : List Char} (h : Ascii text) :
    (utf8 text).length = text.length := by
  induction text with
  | nil => rfl
  | cons c text ih =>
      have hsize : c.utf8Size = 1 := by
        rw [Char.utf8Size_eq_one_iff, UInt32.le_iff_toNat_le]
        exact Nat.le_of_lt_succ (h c List.mem_cons_self)
      have hrest := ih fun d hd => h d (List.mem_cons_of_mem _ hd)
      unfold utf8 at hrest ⊢
      rw [List.flatMap_cons, List.length_append, String.length_utf8EncodeChar, hsize, hrest,
        List.length_cons, Nat.add_comm]

end JsonText
