import Mathlib.Data.List.DropRight
import Mathlib.Data.List.Basic
import Mathlib.Data.Char
import Mathlib.Data.String.Basic

/-!
# Hexadecimal integers as text

Which texts Python's `int(value, 16)` reads, and the grammar they are the language
of: blanks, a sign, a prefix, digits with single underscores between them, blanks
again. Blanks and decimal digits of any script count as their ASCII counterparts.
-/

namespace IntText

/-! ## The ASCII form of a text -/

/-- `str.isspace` for one character beyond ASCII. -/
def isWideBlank (c : Char) : Bool :=
  let n := c.toNat
  n == 0x85 || n == 0xA0 || n == 0x1680 || (0x2000 ≤ n && n ≤ 0x200A) || n == 0x2028
    || n == 0x2029 || n == 0x202F || n == 0x205F || n == 0x3000

/-- The code points beyond ASCII at which a run of ten decimal digits starts: those of Unicode 15, as
in Python 3.12. -/
def decimalZeros : List Nat :=
  [0x660, 0x6F0, 0x7C0, 0x966, 0x9E6, 0xA66, 0xAE6, 0xB66, 0xBE6, 0xC66, 0xCE6, 0xD66,
   0xDE6, 0xE50, 0xED0, 0xF20, 0x1040, 0x1090, 0x17E0, 0x1810, 0x1946, 0x19D0, 0x1A80, 0x1A90,
   0x1B50, 0x1BB0, 0x1C40, 0x1C50, 0xA620, 0xA8D0, 0xA900, 0xA9D0, 0xA9F0, 0xAA50, 0xABF0,
   0xFF10, 0x104A0, 0x10D30, 0x11066, 0x110F0, 0x11136, 0x111D0, 0x112F0, 0x11450, 0x114D0,
   0x11650, 0x116C0, 0x11730, 0x118E0, 0x11950, 0x11C50, 0x11D50, 0x11DA0, 0x11F50, 0x16A60,
   0x16AC0, 0x16B50, 0x1D7CE, 0x1D7D8, 0x1D7E2, 0x1D7EC, 0x1D7F6, 0x1E140, 0x1E2F0, 0x1E4F0,
   0x1E950, 0x1FBF0]

/-- The digit a character beyond ASCII stands for. -/
def wideDigit (c : Char) : Option Nat :=
  (decimalZeros.find? fun z => z ≤ c.toNat && c.toNat < z + 10).map (c.toNat - ·)

def isAscii (s : List Char) : Bool := s.all fun c => c.toNat < 128

def asciiChar (c : Char) : Char :=
  if c.toNat < 127 then c
  else if isWideBlank c then ' '
  else match wideDigit c with
    | some digit => Char.ofNat ('0'.toNat + digit)
    | none => '?'

/-- The text in ASCII, as it is parsed; a `?` stands where nothing fits. -/
def asciiForm (s : List Char) : List Char := if isAscii s then s else s.map asciiChar

/-! ## The parser -/

def isIntBlank (c : Char) : Bool := c == ' ' || (9 ≤ c.toNat && c.toNat ≤ 13)

def isHexDigit (c : Char) : Bool :=
  ('0' ≤ c && c ≤ '9') || ('a' ≤ c && c ≤ 'f') || ('A' ≤ c && c ≤ 'F')

/-- Digits with single underscores between them. -/
def hexDigits : List Char → Bool
  | [] => false
  | [c] => isHexDigit c
  | c :: '_' :: rest => isHexDigit c && hexDigits rest
  | c :: rest => isHexDigit c && hexDigits rest

/-- The digits after an optional `0x`, which one underscore may follow. -/
def hexAfterPrefix : List Char → Bool
  | '0' :: 'x' :: '_' :: rest => hexDigits rest
  | '0' :: 'x' :: rest => hexDigits rest
  | '0' :: 'X' :: '_' :: rest => hexDigits rest
  | '0' :: 'X' :: rest => hexDigits rest
  | rest => hexDigits rest

def hexAfterSign : List Char → Bool
  | '+' :: rest => hexAfterPrefix rest
  | '-' :: rest => hexAfterPrefix rest
  | rest => hexAfterPrefix rest

/-- `int(value, 16)` accepts the text. -/
def isHexInt (value : String) : Bool :=
  hexAfterSign (((asciiForm value.toList).dropWhile isIntBlank).rdropWhile isIntBlank)

/-! ## The grammar -/

/-- One digit or more, with single underscores between them. -/
inductive Digits : List Char → Prop where
  | one {c : Char} : isHexDigit c = true → Digits [c]
  | cons {c : Char} {rest : List Char} : isHexDigit c = true → Digits rest → Digits (c :: rest)
  | join {c : Char} {rest : List Char} :
      isHexDigit c = true → Digits rest → Digits (c :: '_' :: rest)

/-- What may stand before the digits. -/
def markers : List (List Char) :=
  [[], ['0', 'x'], ['0', 'X'], ['0', 'x', '_'], ['0', 'X', '_']]

/-- A hexadecimal integer as it is written. -/
structure Numeral where
  lead : List Char
  sign : List Char
  marker : List Char
  body : List Char
  trail : List Char
  lead_blank : ∀ c ∈ lead, isIntBlank c = true
  sign_mem : sign ∈ [[], ['+'], ['-']]
  marker_mem : marker ∈ markers
  body_digits : Digits body
  trail_blank : ∀ c ∈ trail, isIntBlank c = true

namespace Numeral

def text (n : Numeral) : List Char := n.lead ++ (n.sign ++ (n.marker ++ n.body)) ++ n.trail

/-- Nothing is written but digits. -/
structure Bare (n : Numeral) : Prop where
  lead : n.lead = []
  sign : n.sign = []
  marker : n.marker = []
  joined : '_' ∉ n.body
  trail : n.trail = []

end Numeral

/-! ## Digits -/

theorem Digits.ne_nil {s : List Char} (h : Digits s) : s ≠ [] := by
  cases h <;> simp

theorem Digits.head {c : Char} {rest : List Char} (h : Digits (c :: rest)) :
    isHexDigit c = true := by
  cases h with
  | one hc => exact hc
  | cons hc _ => exact hc
  | join hc _ => exact hc

theorem Digits.last {s : List Char} (h : Digits s) :
    ∃ front c, s = front ++ [c] ∧ isHexDigit c = true := by
  induction h with
  | one hc => exact ⟨[], _, rfl, hc⟩
  | @cons c rest _ _ ih =>
      obtain ⟨front, d, hd, hdigit⟩ := ih
      exact ⟨c :: front, d, by rw [hd, List.cons_append], hdigit⟩
  | @join c rest _ _ ih =>
      obtain ⟨front, d, hd, hdigit⟩ := ih
      exact ⟨c :: '_' :: front, d, by rw [hd, List.cons_append, List.cons_append], hdigit⟩

theorem Digits.chars {s : List Char} (h : Digits s) : ∀ c ∈ s, isHexDigit c = true ∨ c = '_' := by
  induction h with
  | one hc => simpa using Or.inl hc
  | cons hc _ ih =>
      intro d hd
      rcases List.mem_cons.mp hd with rfl | hd
      · exact Or.inl hc
      · exact ih d hd
  | join hc _ ih =>
      intro d hd
      rcases List.mem_cons.mp hd with rfl | hd
      · exact Or.inl hc
      · rcases List.mem_cons.mp hd with rfl | hd
        · exact Or.inr rfl
        · exact ih d hd

/-- Without an underscore there are only digits. -/
theorem Digits.all {s : List Char} (h : Digits s) (hjoined : '_' ∉ s) :
    ∀ c ∈ s, isHexDigit c = true := by
  induction h with
  | one hc => simpa using hc
  | @cons c rest hc _ ih =>
      intro d hd
      rcases List.mem_cons.mp hd with rfl | hd
      · exact hc
      · exact ih (fun h => hjoined (List.mem_cons_of_mem _ h)) d hd
  | join => simp at hjoined

theorem digits_of_all {s : List Char} (hne : s ≠ []) (h : ∀ c ∈ s, isHexDigit c = true) :
    Digits s := by
  induction s with
  | nil => exact absurd rfl hne
  | cons c rest ih =>
      have hc : isHexDigit c = true := h c List.mem_cons_self
      cases rest with
      | nil => exact .one hc
      | cons d rest =>
          exact .cons hc (ih (by simp) fun x hx => h x (List.mem_cons_of_mem _ hx))

theorem hexDigits_iff (s : List Char) : hexDigits s = true ↔ Digits s := by
  fun_induction hexDigits s with
  | case1 => exact ⟨fun h => by simp at h, fun h => absurd rfl h.ne_nil⟩
  | case2 c =>
      refine ⟨.one, fun h => h.head⟩
  | case3 c rest ih =>
      rw [Bool.and_eq_true, ih]
      refine ⟨fun h => .join h.1 h.2, fun h => ?_⟩
      cases h with
      | cons _ hrest => exact absurd hrest.head (by decide)
      | join hc hrest => exact ⟨hc, hrest⟩
  | case4 c rest hone hjoin ih =>
      rw [Bool.and_eq_true, ih]
      refine ⟨fun h => .cons h.1 h.2, fun h => ?_⟩
      cases h with
      | one hc => exact absurd rfl hone
      | cons hc hrest => exact ⟨hc, hrest⟩
      | join _ _ => exact absurd rfl (hjoin _)

/-! ## The prefix and the sign -/

theorem Digits.second {c d : Char} {rest : List Char} (h : Digits (c :: d :: rest)) :
    d = '_' ∨ isHexDigit d = true := by
  cases h with
  | cons _ hrest => exact Or.inr hrest.head
  | join _ _ => exact Or.inl rfl

theorem hexAfterPrefix_iff (s : List Char) :
    hexAfterPrefix s = true ↔ ∃ marker ∈ markers, ∃ body, Digits body ∧ s = marker ++ body := by
  have hx : ∀ {rest}, ¬ Digits ('0' :: 'x' :: rest) := fun h => absurd h.second (by decide)
  have hX : ∀ {rest}, ¬ Digits ('0' :: 'X' :: rest) := fun h => absurd h.second (by decide)
  have hjoin : ∀ {rest}, ¬ Digits ('_' :: rest) := fun h => absurd h.head (by decide)
  constructor
  · intro h
    unfold hexAfterPrefix at h
    split at h
    all_goals rw [hexDigits_iff] at h
    · exact ⟨['0', 'x', '_'], by simp [markers], _, h, rfl⟩
    · exact ⟨['0', 'x'], by simp [markers], _, h, rfl⟩
    · exact ⟨['0', 'X', '_'], by simp [markers], _, h, rfl⟩
    · exact ⟨['0', 'X'], by simp [markers], _, h, rfl⟩
    · exact ⟨[], by simp [markers], _, h, rfl⟩
  · rintro ⟨marker, hmarker, body, hbody, rfl⟩
    simp only [markers, List.mem_cons, List.not_mem_nil, or_false] at hmarker
    rcases hmarker with rfl | rfl | rfl | rfl | rfl
    · -- digits never start with a prefix
      rw [List.nil_append]
      unfold hexAfterPrefix
      split
      · exact absurd hbody hx
      · exact absurd hbody hx
      · exact absurd hbody hX
      · exact absurd hbody hX
      · exact (hexDigits_iff _).mpr hbody
    · rw [List.cons_append, List.cons_append, List.nil_append, hexAfterPrefix]
      · exact (hexDigits_iff _).mpr hbody
      · rintro rest rfl
        exact hjoin hbody
    · rw [List.cons_append, List.cons_append, List.nil_append, hexAfterPrefix]
      · exact (hexDigits_iff _).mpr hbody
      · rintro rest rfl
        exact hjoin hbody
    · exact (hexDigits_iff _).mpr hbody
    · exact (hexDigits_iff _).mpr hbody

/-- A prefix starts with a digit, as digits do. -/
theorem marked_head {marker body : List Char} {c : Char} {rest : List Char}
    (hmarker : marker ∈ markers) (hbody : Digits body) (h : marker ++ body = c :: rest) :
    isHexDigit c = true := by
  simp only [markers, List.mem_cons, List.not_mem_nil, or_false] at hmarker
  rcases hmarker with rfl | rfl | rfl | rfl | rfl
  · rw [List.nil_append] at h
    exact (h ▸ hbody).head
  all_goals
    injection h with hc
    rw [← hc]
    decide

/-- What is left of a numeral without the blanks around it. -/
def Core (s : List Char) : Prop :=
  ∃ sign ∈ [[], ['+'], ['-']], ∃ marker ∈ markers, ∃ body, Digits body ∧ s = sign ++ (marker ++ body)

theorem hexAfterSign_iff (s : List Char) : hexAfterSign s = true ↔ Core s := by
  constructor
  · intro h
    unfold hexAfterSign at h
    split at h
    all_goals
      rw [hexAfterPrefix_iff] at h
      obtain ⟨marker, hmarker, body, hbody, rfl⟩ := h
    · exact ⟨['+'], by simp, marker, hmarker, body, hbody, rfl⟩
    · exact ⟨['-'], by simp, marker, hmarker, body, hbody, rfl⟩
    · exact ⟨[], by simp, marker, hmarker, body, hbody, rfl⟩
  · rintro ⟨sign, hsign, marker, hmarker, body, hbody, rfl⟩
    have hrest : hexAfterPrefix (marker ++ body) = true :=
      (hexAfterPrefix_iff _).mpr ⟨marker, hmarker, body, hbody, rfl⟩
    simp only [List.mem_cons, List.not_mem_nil, or_false] at hsign
    rcases hsign with rfl | rfl | rfl
    · -- neither a prefix nor a digit is a sign
      rw [List.nil_append]
      unfold hexAfterSign
      split
      · rename_i heq
        exact absurd (marked_head hmarker hbody heq) (by decide)
      · rename_i heq
        exact absurd (marked_head hmarker hbody heq) (by decide)
      · exact hrest
    · exact hrest
    · exact hrest

/-! ## The blanks around it -/

theorem isIntBlank_of_isHexDigit {c : Char} (h : isHexDigit c = true) : isIntBlank c = false := by
  simp only [isHexDigit, Bool.or_eq_true, Bool.and_eq_true, decide_eq_true_eq] at h
  have hle : ∀ a b : Char, a ≤ b → a.toNat ≤ b.toNat := fun a b hab => UInt32.le_iff_toNat_le.mp hab
  have hlow : 48 ≤ c.toNat := by
    rcases h with (h | h) | h
    · exact hle _ _ h.1
    · exact Nat.le_trans (by decide) (hle _ _ h.1)
    · exact Nat.le_trans (by decide) (hle _ _ h.1)
  have hspace : c ≠ ' ' := by
    rintro rfl
    exact absurd hlow (by decide)
  simp only [isIntBlank, Bool.or_eq_false_iff, beq_eq_false_iff_ne, Bool.and_eq_false_iff,
    decide_eq_false_iff_not]
  exact ⟨hspace, Or.inr (by omega)⟩

theorem Core.head {c : Char} {rest : List Char} (h : Core (c :: rest)) : isIntBlank c = false := by
  obtain ⟨sign, hsign, marker, hmarker, body, hbody, heq⟩ := h
  simp only [List.mem_cons, List.not_mem_nil, or_false] at hsign
  rcases hsign with rfl | rfl | rfl
  · exact isIntBlank_of_isHexDigit (marked_head hmarker hbody heq.symm)
  · injection heq with hc
    rw [hc]
    decide
  · injection heq with hc
    rw [hc]
    decide

theorem Core.last {s : List Char} (h : Core s) : ∃ front c, s = front ++ [c] ∧ isIntBlank c = false := by
  obtain ⟨sign, -, marker, -, body, hbody, rfl⟩ := h
  obtain ⟨front, c, rfl, hc⟩ := hbody.last
  exact ⟨sign ++ (marker ++ front), c, by simp, isIntBlank_of_isHexDigit hc⟩

/-- **The parser reads the grammar.** `int(value, 16)` accepts the texts of the numerals and no
others. -/
theorem isHexInt_iff (value : String) :
    isHexInt value = true ↔ ∃ n : Numeral, n.text = asciiForm value.toList := by
  unfold isHexInt
  rw [hexAfterSign_iff]
  set s := asciiForm value.toList
  constructor
  · rintro ⟨sign, hsign, marker, hmarker, body, hbody, hcore⟩
    refine ⟨⟨s.takeWhile isIntBlank, sign, marker, body, (s.dropWhile isIntBlank).rtakeWhile isIntBlank,
      fun c hc => List.mem_takeWhile_imp hc, hsign, hmarker, hbody,
      fun c hc => List.mem_rtakeWhile_imp hc⟩, ?_⟩
    rw [Numeral.text, ← hcore, List.append_assoc, List.rdropWhile_append_rtakeWhile,
      List.takeWhile_append_dropWhile]
  · rintro ⟨n, hn⟩
    have hcore : Core (n.sign ++ (n.marker ++ n.body)) :=
      ⟨n.sign, n.sign_mem, n.marker, n.marker_mem, n.body, n.body_digits, rfl⟩
    have htail : ((n.sign ++ (n.marker ++ n.body)) ++ n.trail).rdropWhile isIntBlank
        = n.sign ++ (n.marker ++ n.body) := by
      obtain ⟨front, c, heq, hc⟩ := hcore.last
      have htrail : ∀ x ∈ n.trail.reverse, isIntBlank x = true :=
        fun x hx => n.trail_blank x (List.mem_reverse.mp hx)
      rw [List.rdropWhile, List.reverse_append, List.dropWhile_append_of_pos htrail, heq,
        ← List.rdropWhile, List.rdropWhile_concat_neg _ _ _ (by simp [hc])]
    have hlead : (n.lead ++ ((n.sign ++ (n.marker ++ n.body)) ++ n.trail)).dropWhile isIntBlank
        = (n.sign ++ (n.marker ++ n.body)) ++ n.trail := by
      rw [List.dropWhile_append_of_pos n.lead_blank]
      cases heq : n.sign ++ (n.marker ++ n.body) with
      | nil =>
          obtain ⟨front, c, hlast, -⟩ := hcore.last
          rw [heq] at hlast
          exact absurd hlast (by simp)
      | cons c rest =>
          rw [heq] at hcore
          rw [List.cons_append, List.dropWhile_cons_of_neg (by simp [hcore.head])]
    rw [← hn, Numeral.text, List.append_assoc, hlead, htail]
    exact hcore

/-! ## Characters of numerals -/

/-- What a numeral is written with. -/
def numeralChar (c : Char) : Bool :=
  isIntBlank c || isHexDigit c || ['+', '-', 'x', 'X', '_'].contains c

theorem numeral_chars (n : Numeral) : ∀ c ∈ n.text, numeralChar c = true := by
  intro c hc
  unfold numeralChar
  rw [Bool.or_eq_true, Bool.or_eq_true]
  simp only [Numeral.text, List.mem_append] at hc
  rcases hc with (hc | hc | hc | hc) | hc
  · exact Or.inl (Or.inl (n.lead_blank c hc))
  · have hsign := n.sign_mem
    simp only [List.mem_cons, List.not_mem_nil, or_false] at hsign
    rcases hsign with hs | hs | hs <;> rw [hs] at hc
    · cases hc
    · rw [List.mem_singleton.mp hc]
      decide
    · rw [List.mem_singleton.mp hc]
      decide
  · have hmarkers : markers.all (fun marker => marker.all fun c =>
        isHexDigit c || ['+', '-', 'x', 'X', '_'].contains c) = true := by decide
    have h := List.all_eq_true.mp (List.all_eq_true.mp hmarkers _ n.marker_mem) c hc
    rcases (Bool.or_eq_true _ _).mp h with h | h
    · exact Or.inl (Or.inr h)
    · exact Or.inr h
  · rcases n.body_digits.chars c hc with h | rfl
    · exact Or.inl (Or.inr h)
    · exact Or.inr (by decide)
  · exact Or.inl (Or.inl (n.trail_blank c hc))

end IntText
