import Mathlib.Algebra.Group.Int.Defs
import NanoAural.Base.IntText

/-!
# UUIDs and decimal integers as text

What Python's `UUID(text)` and `int(text)` read, as values, and what `str` writes
for them. Both readers take many spellings for one value; the writers take one,
and what they write is read back (`ofText_uuidText`, `decInt_intText`).
-/

namespace IntText

/-! ## Hexadecimal values -/

def digitValue (c : Char) : Nat :=
  if c ≤ '9' then c.toNat - 48 else if c ≤ 'F' then c.toNat - 55 else c.toNat - 87

/-- The number that hexadecimal digits denote; underscores between them do not count. -/
def hexValue (s : List Char) : Nat :=
  (s.filter (· != '_')).foldl (fun n c => 16 * n + digitValue c) 0

def dropPrefix : List Char → List Char
  | '0' :: 'x' :: rest => rest
  | '0' :: 'X' :: rest => rest
  | rest => rest

/-- The text without the blanks around it. -/
def stripped (value : String) : List Char :=
  ((asciiForm value.toList).dropWhile isIntBlank).rdropWhile isIntBlank

/-- `int(value, 16)`, or nothing where it raises. -/
def hexInt (value : String) : Option Int :=
  if isHexInt value then
    some (match stripped value with
      | '+' :: rest => hexValue (dropPrefix rest)
      | '-' :: rest => -(hexValue (dropPrefix rest) : Int)
      | rest => hexValue (dropPrefix rest))
  else none

/-! ## Decimal values -/

/-- Decimal digits with single underscores between them. -/
def decDigits : List Char → Bool
  | [] => false
  | [c] => c.isDigit
  | c :: '_' :: rest => c.isDigit && decDigits rest
  | c :: rest => c.isDigit && decDigits rest

/-- So many digits are converted between a text and an integer; none where the interpreter's limit
is switched off. -/
def withinDigits (limit : Option Nat) (count : Nat) : Bool := limit.all (count ≤ ·)

def decValue (limit : Option Nat) (s : List Char) : Option Nat :=
  let digits := s.filter (· != '_')
  if decDigits s && withinDigits limit digits.length then some (Nat.ofDigitChars 10 digits 0)
  else none

/-- `int(value)`, or nothing where it raises. -/
def decInt (limit : Option Nat) (value : String) : Option Int :=
  match stripped value with
  | '+' :: rest => (decValue limit rest).map Int.ofNat
  | '-' :: rest => (decValue limit rest).map fun n => -(n : Int)
  | rest => (decValue limit rest).map Int.ofNat

/-- `str(n)` of a number that is not negative, or nothing where it raises. -/
def intText (limit : Option Nat) (n : Nat) : Option String :=
  if withinDigits limit (Nat.toDigits 10 n).length then some (String.ofList (Nat.toDigits 10 n))
  else none

/-! ## What is written is read -/

theorem stripped_of_plain {s : List Char} (hascii : isAscii s = true)
    (hplain : ∀ c ∈ s, isIntBlank c = false) : stripped (String.ofList s) = s := by
  have hlead : s.dropWhile isIntBlank = s :=
    List.dropWhile_eq_self_iff.mpr fun hlen => by simp [hplain _ (List.getElem_mem hlen)]
  have htrail : s.rdropWhile isIntBlank = s :=
    List.rdropWhile_eq_self_iff.mpr fun hne => by simp [hplain _ (List.getLast_mem hne)]
  rw [stripped, String.toList_ofList, asciiForm, if_pos hascii, hlead, htrail]

/-- What is no underscore, no sign, no blank and no letter `x`. -/
theorem digit_plain : ∀ d < 16, d.digitChar ≠ '_' ∧ d.digitChar ≠ '-' ∧ d.digitChar ≠ '+'
    ∧ d.digitChar ≠ 'x' ∧ d.digitChar ≠ 'X' ∧ isIntBlank d.digitChar = false
    ∧ d.digitChar.toNat < 128 ∧ isHexDigit d.digitChar = true ∧ digitValue d.digitChar = d := by
  decide

/-- Written with lowercase hexadecimal digits only. -/
def LowerHex (s : List Char) : Prop := ∀ c ∈ s, ∃ d < 16, c = d.digitChar

theorem LowerHex.filter_underscore {s : List Char} (h : LowerHex s) :
    s.filter (· != '_') = s := by
  refine List.filter_eq_self.mpr fun c hc => ?_
  obtain ⟨d, hd, rfl⟩ := h c hc
  exact bne_iff_ne.mpr (digit_plain d hd).1

theorem LowerHex.stripped {s : List Char} (h : LowerHex s) : stripped (String.ofList s) = s := by
  refine stripped_of_plain (List.all_eq_true.mpr fun c hc => ?_) fun c hc => ?_
  · obtain ⟨d, hd, rfl⟩ := h c hc
    simpa using (digit_plain d hd).2.2.2.2.2.2.1
  · obtain ⟨d, hd, rfl⟩ := h c hc
    exact (digit_plain d hd).2.2.2.2.2.1

theorem LowerHex.dropPrefix {s : List Char} (h : LowerHex s) : dropPrefix s = s := by
  unfold IntText.dropPrefix
  split
  · obtain ⟨d, hd, heq⟩ := h 'x' (by simp)
    exact absurd heq.symm (digit_plain d hd).2.2.2.1
  · obtain ⟨d, hd, heq⟩ := h 'X' (by simp)
    exact absurd heq.symm (digit_plain d hd).2.2.2.2.1
  · rfl

theorem LowerHex.isHexInt {s : List Char} (h : LowerHex s) (hne : s ≠ []) :
    isHexInt (String.ofList s) = true := by
  have hdigits : Digits s := digits_of_all hne fun c hc => by
    obtain ⟨d, hd, rfl⟩ := h c hc
    exact (digit_plain d hd).2.2.2.2.2.2.2.1
  have hcore : Core s := ⟨[], by simp, [], by simp [markers], s, hdigits, rfl⟩
  have hstripped := h.stripped
  unfold IntText.stripped at hstripped
  rw [IntText.isHexInt, hstripped]
  exact (hexAfterSign_iff s).mpr hcore

theorem LowerHex.hexInt {s : List Char} (h : LowerHex s) (hne : s ≠ []) :
    hexInt (String.ofList s) = some (hexValue s : Int) := by
  rw [IntText.hexInt, if_pos (h.isHexInt hne), h.stripped]
  congr 1
  split
  · obtain ⟨d, hd, heq⟩ := h '+' (by simp)
    exact absurd heq.symm (digit_plain d hd).2.2.1
  · obtain ⟨d, hd, heq⟩ := h '-' (by simp)
    exact absurd heq.symm (digit_plain d hd).2.1
  · rw [h.dropPrefix]

theorem decDigits_of_all {s : List Char} (hne : s ≠ []) (h : ∀ c ∈ s, c.isDigit = true) :
    decDigits s = true := by
  fun_induction decDigits s with
  | case1 => exact absurd rfl hne
  | case2 c => exact h c List.mem_cons_self
  | case3 c rest => exact absurd (h '_' (by simp)) (by decide)
  | case4 c rest hone _ ih =>
      rw [Bool.and_eq_true]
      exact ⟨h c List.mem_cons_self, ih hone fun d hd => h d (List.mem_cons_of_mem _ hd)⟩

/-- Decimal digits are among the hexadecimal ones. -/
theorem lowerHex_toDigits (n : Nat) : LowerHex (Nat.toDigits 10 n) := by
  have hdigits : ∀ n < 128, (Char.ofNat n).isDigit = true → ∃ d < 16, Char.ofNat n = d.digitChar := by
    decide
  intro c hc
  have hdigit := Nat.isDigit_of_mem_toDigits (b := 10) (n := n) (by decide) (by decide) hc
  have hlt : c.toNat < 128 := by
    have : c.toNat ≤ 57 := by
      simp only [Char.isDigit, Bool.and_eq_true, decide_eq_true_eq] at hdigit
      exact UInt32.le_iff_toNat_le.mp hdigit.2
    omega
  have := hdigits c.toNat hlt
  rw [Char.ofNat_toNat] at this
  exact this hdigit

theorem decValue_toDigits (limit : Option Nat) (n : Nat) :
    decValue limit (Nat.toDigits 10 n)
      = if withinDigits limit (Nat.toDigits 10 n).length then some n else none := by
  have hdigits : decDigits (Nat.toDigits 10 n) = true :=
    decDigits_of_all (List.ne_nil_of_length_pos Nat.length_toDigits_pos) fun c hc =>
      Nat.isDigit_of_mem_toDigits (by decide) (by decide) hc
  rw [decValue, (lowerHex_toDigits n).filter_underscore, hdigits, Bool.true_and,
    Nat.ofDigitChars_ten_toDigits]

/-- **An integer's text is read back**, where the interpreter writes it at all. -/
theorem decInt_intText {limit : Option Nat} {n : Nat} {text : String}
    (h : intText limit n = some text) : decInt limit text = some (n : Int) := by
  unfold intText at h
  split at h
  · rename_i hwithin
    rw [← Option.some.inj h, decInt, (lowerHex_toDigits n).stripped]
    have hvalue := decValue_toDigits limit n
    rw [if_pos hwithin] at hvalue
    split
    · rename_i heq
      obtain ⟨d, hd, hsign⟩ := lowerHex_toDigits n '+' (by rw [heq]; simp)
      exact absurd hsign.symm (digit_plain d hd).2.2.1
    · rename_i heq
      obtain ⟨d, hd, hsign⟩ := lowerHex_toDigits n '-' (by rw [heq]; simp)
      exact absurd hsign.symm (digit_plain d hd).2.1
    · rw [hvalue]
      rfl
  · cases h

end IntText

namespace UuidText

open IntText

/-- `text.replace(pattern, "")`, with so many characters of a match left to skip. -/
def removeAll (pattern : List Char) : Nat → List Char → List Char
  | _, [] => []
  | skip + 1, _ :: rest => removeAll pattern skip rest
  | 0, c :: rest =>
      if pattern.isPrefixOf (c :: rest) then removeAll pattern (pattern.length - 1) rest
      else c :: removeAll pattern 0 rest

def isBrace (c : Char) : Bool := c == '\x7b' || c == '\x7d'

/-- The digits that `UUID` looks for in the text. -/
def bareText (text : String) : List Char :=
  let plain := removeAll "uuid:".toList 0 (removeAll "urn:".toList 0 text.toList)
  ((plain.dropWhile isBrace).rdropWhile isBrace).filter (· != '-')

/-- `UUID(text)`, or nothing where it raises. -/
def ofText (text : String) : Option Nat :=
  let bare := bareText text
  if bare.length == 32 then
    match hexInt (String.ofList bare) with
    | some n => if 0 ≤ n ∧ n < 2 ^ 128 then some n.toNat else none
    | none => none
  else none

/-- A number's last so many hexadecimal digits. -/
def hexFixed : Nat → Nat → List Char
  | 0, _ => []
  | k + 1, n => hexFixed k (n / 16) ++ [(n % 16).digitChar]

/-- The 32 digits in their five groups. -/
def grouped (digits : List Char) : List Char :=
  digits.take 8 ++ '-' :: ((digits.drop 8).take 4 ++ '-' :: ((digits.drop 12).take 4
    ++ '-' :: ((digits.drop 16).take 4 ++ '-' :: digits.drop 20)))

/-- `str` of the UUID with this number. -/
def uuidText (n : Nat) : String := String.ofList (grouped (hexFixed 32 n))

/-! ## The digits of a number -/

theorem hexFixed_length (k n : Nat) : (hexFixed k n).length = k := by
  induction k generalizing n with
  | zero => rfl
  | succ k ih => rw [hexFixed, List.length_append, ih, List.length_singleton]

theorem hexFixed_lowerHex (k n : Nat) : LowerHex (hexFixed k n) := by
  induction k generalizing n with
  | zero => exact fun c hc => absurd hc (by simp [hexFixed])
  | succ k ih =>
      intro c hc
      rw [hexFixed, List.mem_append, List.mem_singleton] at hc
      rcases hc with hc | rfl
      · exact ih _ c hc
      · exact ⟨n % 16, Nat.mod_lt _ (by decide), rfl⟩

theorem hexValue_concat {s : List Char} {d : Nat} (hd : d < 16) :
    hexValue (s ++ [d.digitChar]) = 16 * hexValue s + d := by
  have hplain := digit_plain d hd
  have hlast : [d.digitChar].filter (· != '_') = [d.digitChar] :=
    List.filter_cons_of_pos (bne_iff_ne.mpr hplain.1)
  rw [hexValue, List.filter_append, hlast, List.foldl_append, List.foldl_cons, List.foldl_nil,
    hplain.2.2.2.2.2.2.2.2, hexValue]

theorem hexValue_hexFixed (k n : Nat) : hexValue (hexFixed k n) = n % 16 ^ k := by
  induction k generalizing n with
  | zero => simp [hexFixed, hexValue, Nat.mod_one]
  | succ k ih =>
      rw [hexFixed, hexValue_concat (Nat.mod_lt _ (by decide)), ih, Nat.pow_succ, Nat.mul_comm _ 16,
        Nat.mod_mul, Nat.add_comm]

/-! ## The canonical spelling -/

theorem removeAll_eq_self {pattern : List Char} {c : Char} (hc : c ∈ pattern) {s : List Char}
    (h : c ∉ s) : removeAll pattern 0 s = s := by
  induction s with
  | nil => rfl
  | cons d rest ih =>
      have hnot : ¬ pattern.isPrefixOf (d :: rest) = true := fun hprefix =>
        h ((List.isPrefixOf_iff_prefix.mp hprefix).subset hc)
      rw [removeAll, if_neg hnot, ih fun hmem => h (List.mem_cons_of_mem _ hmem)]

theorem mem_grouped {digits : List Char} {c : Char} (h : c ∈ grouped digits) :
    c = '-' ∨ c ∈ digits := by
  simp only [grouped, List.mem_append, List.mem_cons] at h
  rcases h with h | rfl | h | rfl | h | rfl | h | rfl | h
  · exact Or.inr (List.mem_of_mem_take h)
  · exact Or.inl rfl
  · exact Or.inr (List.mem_of_mem_drop (List.mem_of_mem_take h))
  · exact Or.inl rfl
  · exact Or.inr (List.mem_of_mem_drop (List.mem_of_mem_take h))
  · exact Or.inl rfl
  · exact Or.inr (List.mem_of_mem_drop (List.mem_of_mem_take h))
  · exact Or.inl rfl
  · exact Or.inr (List.mem_of_mem_drop h)

theorem filter_grouped {digits : List Char} (h : '-' ∉ digits) :
    (grouped digits).filter (· != '-') = digits := by
  have hkeep : ∀ part : List Char, part ⊆ digits → part.filter (· != '-') = part := fun part hpart =>
    List.filter_eq_self.mpr fun c hc => by
      have : c ≠ '-' := fun heq => h (heq ▸ hpart hc)
      simpa using this
  have hdash : ∀ rest : List Char, ('-' :: rest).filter (· != '-') = rest.filter (· != '-') :=
    fun rest => List.filter_cons_of_neg (by simp)
  have hpart : ∀ i, ((digits.drop i).take 4) ⊆ digits := fun i =>
    fun _ hc => List.mem_of_mem_drop (List.mem_of_mem_take hc)
  have hjoin : ∀ i, (digits.drop i).take 4 ++ digits.drop (i + 4) = digits.drop i := fun i => by
    rw [← List.drop_drop, List.take_append_drop]
  rw [grouped, List.filter_append, hdash, List.filter_append, hdash, List.filter_append, hdash,
    List.filter_append, hdash, hkeep _ (List.take_subset _ _), hkeep _ (hpart 8), hkeep _ (hpart 12),
    hkeep _ (hpart 16), hkeep _ (List.drop_subset _ _), hjoin 16, hjoin 12, hjoin 8,
    List.take_append_drop]

/-- What a digit or a hyphen is not. -/
theorem spelled_plain {digits : List Char} (h : LowerHex digits) {c : Char}
    (hc : c ∈ grouped digits) : c ≠ ':' ∧ isBrace c = false ∧ c ≠ '/' ∧ c ≠ '\\' ∧ c ≠ '\x00' := by
  have hdigit : ∀ d < 16, d.digitChar ≠ ':' ∧ isBrace d.digitChar = false ∧ d.digitChar ≠ '/'
      ∧ d.digitChar ≠ '\\' ∧ d.digitChar ≠ '\x00' := by decide
  rcases mem_grouped hc with rfl | hc
  · decide
  · obtain ⟨d, hd, rfl⟩ := h c hc
    exact hdigit d hd

theorem bareText_grouped {digits : List Char} (h : LowerHex digits) :
    bareText (String.ofList (grouped digits)) = digits := by
  have hcolon : ':' ∉ grouped digits := fun hmem => (spelled_plain h hmem).1 rfl
  have hlead : (grouped digits).dropWhile isBrace = grouped digits :=
    List.dropWhile_eq_self_iff.mpr fun hlen => by
      simp [(spelled_plain h (List.getElem_mem hlen)).2.1]
  have htrail : (grouped digits).rdropWhile isBrace = grouped digits :=
    List.rdropWhile_eq_self_iff.mpr fun hne => by
      simp [(spelled_plain h (List.getLast_mem hne)).2.1]
  have hdash : '-' ∉ digits := fun hmem => by
    obtain ⟨d, hd, heq⟩ := h '-' hmem
    exact (digit_plain d hd).2.1 heq.symm
  have hurn : ':' ∈ "urn:".toList := by decide
  have huuid : ':' ∈ "uuid:".toList := by decide
  simp only [bareText, String.toList_ofList]
  rw [removeAll_eq_self hurn hcolon, removeAll_eq_self huuid hcolon, hlead, htrail,
    filter_grouped hdash]

/-- **A UUID's text is read back.** -/
theorem ofText_uuidText {n : Nat} (h : n < 2 ^ 128) : ofText (uuidText n) = some n := by
  have hdigits := hexFixed_lowerHex 32 n
  have hne : hexFixed 32 n ≠ [] := by
    rw [← List.length_pos_iff, hexFixed_length]
    decide
  have hvalue : hexValue (hexFixed 32 n) = n := by
    rw [hexValue_hexFixed]
    exact Nat.mod_eq_of_lt h
  rw [ofText, uuidText, bareText_grouped hdigits, hexFixed_length, hdigits.hexInt hne, hvalue]
  simp only [beq_self_eq_true, ↓reduceIte]
  rw [if_pos ⟨by omega, by exact_mod_cast h⟩, Int.toNat_natCast]

theorem ofText_lt {text : String} {n : Nat} (h : ofText text = some n) : n < 2 ^ 128 := by
  simp only [ofText] at h
  split at h
  · split at h
    · split at h
      · rename_i hrange
        have := Option.some.inj h
        omega
      · cases h
    · cases h
  · cases h

end UuidText
