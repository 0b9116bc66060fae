import NanoAural.Durable.Digests
import NanoAural.Durable.Schema

/-!
# What the digest validators accept

`int(value, 16)` reads more than hexadecimal digits, so the validators do too. They
and the database agree on a text exactly when it is none of the spellings only
`int` knows: with blanks around it, a sign, a prefix, underscores, or characters
beyond ASCII. An object key has plain components all the same.
-/

namespace NanoAural

open Relational IntText

/-! ## One language for all validators -/

theorem requireDigest_ok {ε : Type} {shape hexadecimal : ε} {value : String} :
    requireDigest shape hexadecimal value = .ok () ↔ acceptsSha256 value = true := by
  have hupper : (value.toList.all fun c => !('A' ≤ c && c ≤ 'Z'))
      = !(value.toList.any fun c => 'A' ≤ c && c ≤ 'Z') := by
    rw [List.not_any_eq_all_not]
  unfold requireDigest acceptsSha256
  rw [hupper, raiseIf_bind_ok]
  cases IntText.isHexInt value <;> simp [raiseIf]

theorem requireSha256_ok {value name : String} :
    requireSha256 value name = .ok () ↔ acceptsSha256 value = true := by
  have hupper : (value.toList.all fun c => !('A' ≤ c && c ≤ 'Z'))
      = !(value.toList.any fun c => 'A' ≤ c && c ≤ 'Z') := by
    rw [List.not_any_eq_all_not]
  unfold requireSha256 acceptsSha256
  rw [hupper, raiseIf_bind_ok, raiseIf_bind_ok]
  cases IntText.isHexInt value <;> simp [raiseIf]

theorem canonicalKey_ok {sha256 key : String} :
    LocalBlobStore.canonicalKey sha256 = .ok key
      ↔ acceptsSha256 sha256 = true ∧ key = canonicalKey sha256 := by
  unfold LocalBlobStore.canonicalKey
  rw [except_bind_ok]
  constructor
  · rintro ⟨_, hdigest, h⟩
    exact ⟨requireDigest_ok.mp hdigest, (Except.ok.inj h).symm⟩
  · rintro ⟨h, rfl⟩
    exact ⟨(), requireDigest_ok.mpr h, rfl⟩

/-! ## Spellings only `int` knows -/

/-- A text the validators take for a digest although it is more than its digits: blanks around it, a
sign, a prefix, underscores, or characters beyond ASCII. -/
def Decorated (s : String) : Prop :=
  s.toList.length = 64 ∧ (∀ c ∈ s.toList, ¬('A' ≤ c ∧ c ≤ 'Z'))
    ∧ ∃ n : Numeral, n.text = asciiForm s.toList ∧ (isAscii s.toList = false ∨ ¬ n.Bare)

theorem accepts_iff (s : String) : acceptsSha256 s = true
    ↔ s.toList.length = 64 ∧ (∀ c ∈ s.toList, ¬('A' ≤ c ∧ c ≤ 'Z'))
      ∧ ∃ n : Numeral, n.text = asciiForm s.toList := by
  unfold acceptsSha256
  rw [Bool.and_eq_true, Bool.and_eq_true, beq_iff_eq, isHexInt_iff, List.all_eq_true, and_assoc]
  simp only [Bool.not_eq_true', Bool.and_eq_false_iff, decide_eq_false_iff_not, not_and_or]

theorem isHexDigit_of_lower {c : Char} (h : isLowerHex c = true) : isHexDigit c = true := by
  unfold isLowerHex at h
  unfold isHexDigit
  rw [Bool.or_eq_true] at h ⊢
  exact Or.inl (by rw [Bool.or_eq_true]; exact h)

theorem lower_of_isHexDigit {c : Char} (h : isHexDigit c = true) (hupper : ¬('A' ≤ c ∧ c ≤ 'Z')) :
    isLowerHex c = true := by
  unfold isHexDigit at h
  unfold isLowerHex
  rw [Bool.or_eq_true, Bool.or_eq_true] at h
  rw [Bool.or_eq_true]
  rcases h with h | h
  · exact h
  · rw [Bool.and_eq_true, decide_eq_true_eq, decide_eq_true_eq] at h
    exact absurd ⟨h.1, h.2.trans (by decide)⟩ hupper

theorem isAscii_of_lower {s : List Char} (h : ∀ c ∈ s, isLowerHex c = true) : isAscii s = true := by
  unfold isAscii
  rw [List.all_eq_true]
  intro c hc
  have hle : ∀ a b : Char, a ≤ b → a.toNat ≤ b.toNat := fun a b hab => UInt32.le_iff_toNat_le.mp hab
  have hlower := h c hc
  unfold isLowerHex at hlower
  simp only [Bool.or_eq_true, Bool.and_eq_true, decide_eq_true_eq] at hlower
  rw [decide_eq_true_eq]
  rcases hlower with hlower | hlower
  · exact Nat.lt_of_le_of_lt (hle _ _ hlower.2) (by decide)
  · exact Nat.lt_of_le_of_lt (hle _ _ hlower.2) (by decide)

/-- A numeral of hexadecimal digits alone is bare. -/
theorem bare_of_lower {n : Numeral} (h : ∀ c ∈ n.text, isLowerHex c = true) : n.Bare := by
  have hdigit : ∀ c ∈ n.text, isIntBlank c = false :=
    fun c hc => isIntBlank_of_isHexDigit (isHexDigit_of_lower (h c hc))
  have hnot : ∀ c ∈ n.text, c ≠ '+' ∧ c ≠ '-' ∧ c ≠ 'x' ∧ c ≠ 'X' ∧ c ≠ '_' := by
    intro c hc
    have := h c hc
    refine ⟨?_, ?_, ?_, ?_, ?_⟩ <;> (rintro rfl; exact absurd this (by decide))
  have hsub : ∀ c, c ∈ n.lead ∨ c ∈ n.sign ∨ c ∈ n.marker ∨ c ∈ n.body ∨ c ∈ n.trail → c ∈ n.text := by
    intro c hc
    simp only [Numeral.text, List.mem_append]
    tauto
  refine ⟨?_, ?_, ?_, fun hjoin => (hnot '_' (hsub _ (by tauto))).2.2.2.2 rfl, ?_⟩
  · refine List.eq_nil_iff_forall_not_mem.mpr fun c hc => ?_
    have := hdigit c (hsub c (by tauto))
    rw [n.lead_blank c hc] at this
    cases this
  · have hsign := n.sign_mem
    simp only [List.mem_cons, List.not_mem_nil, or_false] at hsign
    rcases hsign with hs | hs | hs
    · exact hs
    · exact absurd rfl (hnot '+' (hsub _ (by rw [hs]; simp))).1
    · exact absurd rfl (hnot '-' (hsub _ (by rw [hs]; simp))).2.1
  · have hmarker := n.marker_mem
    simp only [markers, List.mem_cons, List.not_mem_nil, or_false] at hmarker
    rcases hmarker with hm | hm | hm | hm | hm
    · exact hm
    · exact absurd rfl (hnot 'x' (hsub _ (by rw [hm]; simp))).2.2.1
    · exact absurd rfl (hnot 'X' (hsub _ (by rw [hm]; simp))).2.2.2.1
    · exact absurd rfl (hnot 'x' (hsub _ (by rw [hm]; simp))).2.2.1
    · exact absurd rfl (hnot 'X' (hsub _ (by rw [hm]; simp))).2.2.2.1
  · refine List.eq_nil_iff_forall_not_mem.mpr fun c hc => ?_
    have := hdigit c (hsub c (by tauto))
    rw [n.trail_blank c hc] at this
    cases this

theorem isSha256_iff {s : String} :
    isSha256 s = true ↔ s.toList.length = 64 ∧ ∀ c ∈ s.toList, isLowerHex c = true := by
  unfold isSha256
  rw [Bool.and_eq_true, beq_iff_eq, List.all_eq_true]

theorem accepts_of_isSha256 {s : String} (h : isSha256 s = true) :
    acceptsSha256 s = true ∧ ¬ Decorated s := by
  obtain ⟨hlength, hlower⟩ := isSha256_iff.mp h
  have hascii : isAscii s.toList = true := isAscii_of_lower hlower
  have hform : asciiForm s.toList = s.toList := by rw [asciiForm, if_pos hascii]
  have hupper : ∀ c ∈ s.toList, ¬('A' ≤ c ∧ c ≤ 'Z') := by
    intro c hc ⟨hA, hZ⟩
    have := hlower c hc
    simp only [isLowerHex, Bool.or_eq_true, Bool.and_eq_true, decide_eq_true_eq] at this
    rcases this with this | this
    · exact absurd (hA.trans this.2) (by decide)
    · exact absurd (this.1.trans hZ) (by decide)
  refine ⟨(accepts_iff s).mpr ⟨hlength, hupper, ?_⟩, ?_⟩
  · have hne : s.toList ≠ [] := fun hnil => by
      rw [hnil] at hlength
      cases hlength
    refine ⟨⟨[], [], [], s.toList, [], by simp, by simp, by simp [markers],
      digits_of_all hne fun c hc => isHexDigit_of_lower (hlower c hc), by simp⟩, ?_⟩
    rw [hform, Numeral.text, List.nil_append, List.nil_append, List.nil_append, List.append_nil]
  · rintro ⟨-, -, n, htext, hascii' | hbare⟩
    · rw [hascii] at hascii'
      cases hascii'
    · rw [hform] at htext
      exact hbare (bare_of_lower (by rw [htext]; exact hlower))

theorem isSha256_of_accepts {s : String} (h : acceptsSha256 s = true) (hplain : ¬ Decorated s) :
    isSha256 s = true := by
  obtain ⟨hlength, hupper, n, htext⟩ := (accepts_iff s).mp h
  have hascii : isAscii s.toList = true := by
    cases hc : isAscii s.toList with
    | true => rfl
    | false => exact absurd ⟨hlength, hupper, n, htext, Or.inl hc⟩ hplain
  have hbare : n.Bare := by
    by_contra hbare
    exact hplain ⟨hlength, hupper, n, htext, Or.inr hbare⟩
  rw [asciiForm, if_pos hascii, Numeral.text, hbare.lead, hbare.sign, hbare.marker, hbare.trail,
    List.nil_append, List.nil_append, List.nil_append, List.append_nil] at htext
  rw [isSha256_iff]
  refine ⟨hlength, fun c hc => lower_of_isHexDigit ?_ (hupper c hc)⟩
  exact n.body_digits.all hbare.joined c (htext ▸ hc)

/-! ## Object keys -/

/-- An accepted text has no ASCII character but those of numerals. -/
theorem accepts_chars {s : String} (h : acceptsSha256 s = true) {c : Char} (hc : c.toNat < 127)
    (hnot : numeralChar c = false) : c ∉ s.toList := by
  obtain ⟨-, -, n, htext⟩ := (accepts_iff s).mp h
  intro hmem
  have hform : c ∈ asciiForm s.toList := by
    unfold asciiForm
    split
    · exact hmem
    · exact List.mem_map.mpr ⟨c, hmem, by rw [asciiChar, if_pos hc]⟩
  have := numeral_chars n c (htext ▸ hform)
  rw [hnot] at this
  cases this

theorem canonicalKey_parts (s : String) : (canonicalKey s).toList
    = "blobs".toList ++ '/' :: ("sha256".toList ++ '/' :: (s.toList.take 2 ++ '/' ::
      ((s.toList.drop 2).take 2 ++ '/' :: s.toList))) := by
  simp [canonicalKey]

/-- **The key of a digest** is made of five plain components, of which the last is the digest. -/
theorem parseKey_canonicalKey {s : String} (h : acceptsSha256 s = true) :
    LocalBlobStore.parseKey (canonicalKey s)
      = .ok (String.ofList (s.toList.take 2), String.ofList ((s.toList.drop 2).take 2), s) := by
  have hslash : '/' ∉ s.toList := accepts_chars h (by decide) (by decide)
  have hbackslash : '\\' ∉ s.toList := accepts_chars h (by decide) (by decide)
  have hzero : Char.ofNat 0 ∉ s.toList := accepts_chars h (by decide) (by decide)
  have hdot : '.' ∉ s.toList := accepts_chars h (by decide) (by decide)
  have htake : ∀ {c : Char}, c ∉ s.toList → c ∉ s.toList.take 2 ∧ c ∉ (s.toList.drop 2).take 2 :=
    fun hc => ⟨fun hm => hc (List.mem_of_mem_take hm),
      fun hm => hc (List.mem_of_mem_drop (List.mem_of_mem_take hm))⟩
  -- no character of a digest separates, so the key has exactly the five parts it was built of
  have hsplit : ((canonicalKey s).toList.splitOn '/').map String.ofList
      = ["blobs", "sha256", String.ofList (s.toList.take 2),
        String.ofList ((s.toList.drop 2).take 2), s] := by
    rw [canonicalKey_parts, List.splitOn_append_cons_self_of_not_mem (by decide),
      List.splitOn_append_cons_self_of_not_mem (by decide),
      List.splitOn_append_cons_self_of_not_mem (htake hslash).1,
      List.splitOn_append_cons_self_of_not_mem (htake hslash).2, List.splitOn_eq_singleton hslash]
    simp
  have hlength : s.toList.length = 64 := ((accepts_iff s).mp h).1
  -- a part without a dot is none of the three that are refused
  have hpart : ∀ {part : List Char}, part ≠ [] → '.' ∉ part →
      ["", ".", ".."].contains (String.ofList part) = false := by
    intro part hne hpart
    rw [List.contains_eq_mem, decide_eq_false_iff_not]
    simp only [List.mem_cons, List.not_mem_nil, or_false]
    rintro (heq | heq | heq)
    all_goals
      have hlist := congrArg String.toList heq
      rw [String.toList_ofList] at hlist
    · exact hne hlist
    · exact hpart (hlist ▸ by decide)
    · exact hpart (hlist ▸ by decide)
  have hne : s.toList.take 2 ≠ [] ∧ (s.toList.drop 2).take 2 ≠ [] ∧ s.toList ≠ [] := by
    refine ⟨fun hnil => ?_, fun hnil => ?_, fun hnil => ?_⟩
    all_goals
      have := congrArg List.length hnil
      simp only [List.length_take, List.length_drop, hlength, List.length_nil] at this
      omega
  have hall : ["blobs", "sha256", String.ofList (s.toList.take 2),
      String.ofList ((s.toList.drop 2).take 2), s].any
        (fun part => ["", ".", ".."].contains part) = false := by
    have hs := hpart hne.2.2 hdot
    rw [String.ofList_toList] at hs
    rw [List.any_cons, List.any_cons, List.any_cons, List.any_cons, List.any_cons, List.any_nil,
      hpart hne.1 (htake hdot).1, hpart hne.2.1 (htake hdot).2, hs]
    rfl
  have hclean : ((canonicalKey s).toList.isEmpty || (canonicalKey s).toList.contains (Char.ofNat 0)
      || (canonicalKey s).toList.contains '\\' || (canonicalKey s).toList.head? == some '/')
      = false := by
    have hmem : ∀ {c : Char}, c ∉ s.toList → c ∉ "blobs".toList → c ∉ "sha256".toList → c ≠ '/' →
        (canonicalKey s).toList.contains c = false := by
      intro c hc hblobs hsha hslash'
      rw [List.contains_eq_mem, decide_eq_false_iff_not, canonicalKey_parts]
      simp only [List.mem_append, List.mem_cons, not_or]
      exact ⟨hblobs, hslash', hsha, hslash', (htake hc).1, hslash', (htake hc).2, hslash', hc⟩
    rw [hmem hzero (by decide) (by decide) (by decide),
      hmem hbackslash (by decide) (by decide) (by decide), canonicalKey_parts]
    rfl
  unfold LocalBlobStore.parseKey
  refine raiseIf_bind_ok.mpr ⟨hclean, ?_⟩
  rw [hsplit]
  refine raiseIf_bind_ok.mpr ⟨by rw [hall]; rfl, ?_⟩
  refine except_bind_ok.mpr ⟨canonicalKey s, canonicalKey_ok.mpr ⟨h, rfl⟩, ?_⟩
  exact raiseIf_bind_ok.mpr ⟨by simp, rfl⟩

/-! ## The database's language -/

/-- The validators and the column's check take a text for a digest alike, and the key of what they
take has five plain components. -/
structure ExactDigest (s : String) : Prop where
  domain : ∀ name, requireSha256 s name = .ok () ↔ isSha256 s = true
  publication : ∀ name, publicationSha256 (some s) name = .ok () ↔ isSha256 s = true
  uploads : uploadsSha256 s = .ok () ↔ isSha256 s = true
  artifactStorage : validateSha256 s = .ok () ↔ isSha256 s = true
  artifactPublication : artifactPublicationSha256 s = .ok () ↔ isSha256 s = true
  uploadRequest : uploadRequestSha256 (some s) = .ok () ↔ isSha256 s = true
  key : (∃ key, LocalBlobStore.canonicalKey s = .ok key) ↔ isSha256 s = true
  column : ∀ blob : BlobRow, blob.sha256 = s → (Schema.check blob = true ↔ isSha256 s = true)
  plain : ∀ key, LocalBlobStore.canonicalKey s = .ok key → LocalBlobStore.parseKey key
    = .ok (String.ofList (s.toList.take 2), String.ofList ((s.toList.drop 2).take 2), s)

/--
**Digest validators and the database.**

All of them take a text for a digest exactly when the database does, and make a key of five plain
components of it, if and only if the text is not one of the decorated spellings of a number.
-/
theorem exact_digest_iff (s : String) : ExactDigest s ↔ ¬ Decorated s := by
  constructor
  · intro h hdecorated
    have haccepts : acceptsSha256 s = true :=
      (accepts_iff s).mpr ⟨hdecorated.1, hdecorated.2.1, hdecorated.2.2.imp fun _ hn => hn.1⟩
    exact (accepts_of_isSha256 (h.uploads.mp (requireDigest_ok.mpr haccepts))).2 hdecorated
  · intro hplain
    have haccepts : acceptsSha256 s = true ↔ isSha256 s = true :=
      ⟨fun h => isSha256_of_accepts h hplain, fun h => (accepts_of_isSha256 h).1⟩
    refine ⟨fun _ => requireSha256_ok.trans haccepts, fun _ => requireDigest_ok.trans haccepts,
      requireDigest_ok.trans haccepts, requireDigest_ok.trans haccepts,
      requireDigest_ok.trans haccepts, requireDigest_ok.trans haccepts, ?_, ?_, ?_⟩
    · constructor
      · rintro ⟨key, hkey⟩
        exact haccepts.mp (canonicalKey_ok.mp hkey).1
      · exact fun h => ⟨_, canonicalKey_ok.mpr ⟨haccepts.mpr h, rfl⟩⟩
    · rintro blob rfl
      exact Iff.rfl
    · intro key hkey
      obtain ⟨haccepted, rfl⟩ := canonicalKey_ok.mp hkey
      exact parseKey_canonicalKey haccepted

/-- **A prefix**: every validator takes `0x` and 62 digits for a digest, and the database refuses
it. -/
theorem hex_marker_accepted :
    ¬ ExactDigest ("0x" ++ String.ofList (List.replicate 62 '0'))
      ∧ requireSha256 ("0x" ++ String.ofList (List.replicate 62 '0')) "sha256" = .ok ()
      ∧ isSha256 ("0x" ++ String.ofList (List.replicate 62 '0')) = false := by
  have haccepts : uploadsSha256 ("0x" ++ String.ofList (List.replicate 62 '0')) = .ok () := by
    decide +kernel
  have hrefused : isSha256 ("0x" ++ String.ofList (List.replicate 62 '0')) = false := by
    decide +kernel
  refine ⟨fun h => ?_, by decide +kernel, hrefused⟩
  have := h.uploads.mp haccepts
  rw [hrefused] at this
  cases this

end NanoAural
