import Mathlib.Data.List.Perm.Basic
import NanoAural.Base.JsonRoundTrip

/-!
# Values up to the order of their members

Two values are alike when they differ in nothing but the order in which the members
of their objects stand. Sorting the members finds out: two values with distinct keys
are written alike, byte for byte, exactly when they are alike.
-/

namespace JsonText

open Relational

mutual

/-- The same value, but for the order of members. -/
inductive Alike : JsonValue → JsonValue → Prop where
  | null : Alike .null .null
  | bool {b : Bool} : Alike (.bool b) (.bool b)
  | int {n : Int} : Alike (.int n) (.int n)
  | real {text : String} : Alike (.real text) (.real text)
  | string {s : String} : Alike (.string s) (.string s)
  | array {vs ws : List JsonValue} : AlikeItems vs ws → Alike (.array vs) (.array ws)
  | object {ms ns ordered : List (String × JsonValue)} :
      ns.Perm ordered → AlikeMembers ms ordered → Alike (.object ms) (.object ns)

/-- Item by item. -/
inductive AlikeItems : List JsonValue → List JsonValue → Prop where
  | nil : AlikeItems [] []
  | cons {v w : JsonValue} {vs ws : List JsonValue} :
      Alike v w → AlikeItems vs ws → AlikeItems (v :: vs) (w :: ws)

/-- Member by member, under the same keys. -/
inductive AlikeMembers : List (String × JsonValue) → List (String × JsonValue) → Prop where
  | nil : AlikeMembers [] []
  | cons {key : String} {v w : JsonValue} {ms ns : List (String × JsonValue)} :
      Alike v w → AlikeMembers ms ns → AlikeMembers ((key, v) :: ms) ((key, w) :: ns)

end

/-! ## Members as they are sorted -/

theorem sortMembers_eq_map (ms : List (String × JsonValue)) :
    sortMembers ms = ms.map fun m => (m.1, m.2.sortKeys) := by
  induction ms with
  | nil => rfl
  | cons m rest ih => rw [sortMembers, ih, List.map_cons]

theorem sortMembers_keys (ms : List (String × JsonValue)) :
    (sortMembers ms).map Prod.fst = ms.map Prod.fst := by
  rw [sortMembers_eq_map, List.map_map]
  rfl

theorem distinctMembers_iff {ms : List (String × JsonValue)} :
    distinctMembers ms = true ↔ ∀ m ∈ ms, m.2.distinctKeys = true := by
  induction ms with
  | nil => simp [distinctMembers]
  | cons m rest ih => rw [distinctMembers, Bool.and_eq_true, ih, List.forall_mem_cons]

/-- Members in another order are sorted into the same object. -/
theorem sortKeys_object_congr {ms ns : List (String × JsonValue)} (hperm : ms.Perm ns)
    (hkeys : (ns.map Prod.fst).Nodup) :
    (JsonValue.object ms).sortKeys = (JsonValue.object ns).sortKeys := by
  have hsorted : (sortMembers ms).Perm (sortMembers ns) := by
    rw [sortMembers_eq_map, sortMembers_eq_map]
    exact hperm.map _
  have hnames : ((sortMembers ms).map Prod.fst).Nodup := by
    rw [sortMembers_keys]
    exact (hperm.map _).nodup_iff.mpr hkeys
  rw [JsonValue.sortKeys, JsonValue.sortKeys, orderBy_congr hsorted hnames]

/-! ## Sorting tells alike values from others -/

mutual

/-- Alike values are sorted into the same one. -/
theorem Alike.sortKeys_eq : ∀ {v w : JsonValue}, Alike v w → w.distinctKeys = true →
    v.sortKeys = w.sortKeys
  | _, _, .null, _ | _, _, .bool, _ | _, _, .int, _ | _, _, .real, _ | _, _, .string, _ => rfl
  | _, _, .array h, hw => by
      rw [JsonValue.sortKeys, JsonValue.sortKeys, h.sortItems_eq hw]
  | _, _, @Alike.object _ ns ordered hperm h, hw => by
      rw [JsonValue.distinctKeys, Bool.and_eq_true, decide_eq_true_eq] at hw
      have hvalues : distinctMembers ordered = true :=
        distinctMembers_iff.mpr fun m hm => distinctMembers_iff.mp hw.2 m (hperm.mem_iff.mpr hm)
      rw [← sortKeys_object_congr hperm.symm hw.1, JsonValue.sortKeys, JsonValue.sortKeys,
        h.sortMembers_eq hvalues]

theorem AlikeItems.sortItems_eq : ∀ {vs ws : List JsonValue}, AlikeItems vs ws →
    distinctItems ws = true → sortItems vs = sortItems ws
  | _, _, .nil, _ => rfl
  | _, _, .cons h hs, hw => by
      rw [distinctItems, Bool.and_eq_true] at hw
      rw [sortItems, sortItems, h.sortKeys_eq hw.1, hs.sortItems_eq hw.2]

theorem AlikeMembers.sortMembers_eq : ∀ {ms ns : List (String × JsonValue)}, AlikeMembers ms ns →
    distinctMembers ns = true → sortMembers ms = sortMembers ns
  | _, _, .nil, _ => rfl
  | _, _, .cons h hs, hn => by
      rw [distinctMembers, Bool.and_eq_true] at hn
      rw [sortMembers, sortMembers, h.sortKeys_eq hn.1, hs.sortMembers_eq hn.2]

end

mutual

/-- Values sorted into the same one are alike. -/
theorem alike_of_sortKeys : ∀ {v w : JsonValue}, v.sortKeys = w.sortKeys → Alike v w
  | v, .null, h => by
      cases v with
      | null => exact .null
      | _ => simp [JsonValue.sortKeys] at h
  | v, .bool b, h => by
      cases v with
      | bool c =>
          injection h with h
          exact h ▸ .bool
      | _ => simp [JsonValue.sortKeys] at h
  | v, .int n, h => by
      cases v with
      | int m =>
          injection h with h
          exact h ▸ .int
      | _ => simp [JsonValue.sortKeys] at h
  | v, .real text, h => by
      cases v with
      | real text' =>
          injection h with h
          exact h ▸ .real
      | _ => simp [JsonValue.sortKeys] at h
  | v, .string s, h => by
      cases v with
      | string s' =>
          injection h with h
          exact h ▸ .string
      | _ => simp [JsonValue.sortKeys] at h
  | .array vs, .array ws, h => by
      rw [JsonValue.sortKeys, JsonValue.sortKeys] at h
      injection h with h
      exact .array (alikeItems_of_sortItems h)
  | .object ms, .object ns, h => by
      rw [JsonValue.sortKeys, JsonValue.sortKeys] at h
      injection h with h
      -- both orders are permutations of the one sorted list
      have hperm : (sortMembers ms).Perm (sortMembers ns) := by
        refine (orderBy_perm Prod.fst _).symm.trans ?_
        rw [h]
        exact orderBy_perm Prod.fst _
      rw [sortMembers_eq_map ns, ← congrFun₂ (List.eq_map_comp_perm _) _ _] at hperm
      obtain ⟨ordered, heq, hordered⟩ := hperm
      rw [← sortMembers_eq_map] at heq
      exact .object hordered.symm (alikeMembers_of_sortMembers heq)
  | .null, .array _, h | .bool _, .array _, h | .int _, .array _, h | .real _, .array _, h
  | .string _, .array _, h | .object _, .array _, h | .null, .object _, h | .bool _, .object _, h
  | .int _, .object _, h | .real _, .object _, h | .string _, .object _, h
  | .array _, .object _, h => by simp [JsonValue.sortKeys] at h

theorem alikeItems_of_sortItems : ∀ {vs ws : List JsonValue}, sortItems vs = sortItems ws →
    AlikeItems vs ws
  | [], [], _ => .nil
  | [], _ :: _, h | _ :: _, [], h => by simp [sortItems] at h
  | v :: vs, w :: ws, h => by
      rw [sortItems, sortItems] at h
      injection h with hv hvs
      exact .cons (alike_of_sortKeys hv) (alikeItems_of_sortItems hvs)

theorem alikeMembers_of_sortMembers : ∀ {ms ns : List (String × JsonValue)},
    sortMembers ms = sortMembers ns → AlikeMembers ms ns
  | [], [], _ => .nil
  | [], _ :: _, h | _ :: _, [], h => by simp [sortMembers] at h
  | (key, v) :: ms, (key', w) :: ns, h => by
      rw [sortMembers, sortMembers] at h
      injection h with hm hms
      injection hm with hkey hv
      exact hkey ▸ .cons (alike_of_sortKeys hv) (alikeMembers_of_sortMembers hms)

end

theorem sortKeys_eq_iff {v w : JsonValue} (hw : w.distinctKeys = true) :
    v.sortKeys = w.sortKeys ↔ Alike v w :=
  ⟨alike_of_sortKeys, fun h => h.sortKeys_eq hw⟩

/-! ## Alike objects and arrays -/

theorem AlikeMembers.keys_eq : ∀ {ms ns : List (String × JsonValue)}, AlikeMembers ms ns →
    ms.map Prod.fst = ns.map Prod.fst
  | _, _, .nil => rfl
  | _, _, .cons _ h => by rw [List.map_cons, List.map_cons, h.keys_eq]

/-- Two lists of the same members under the same distinct keys in the same order are one. -/
theorem eq_of_perm_keys {β : Type} {ms ns : List (String × β)} (hperm : ms.Perm ns)
    (hkeys : ms.map Prod.fst = ns.map Prod.fst) (hnodup : (ns.map Prod.fst).Nodup) : ms = ns := by
  have hlength : ms.length = ns.length := hperm.length_eq
  refine List.ext_getElem hlength fun i hi hi' => ?_
  refine List.inj_on_of_nodup_map hnodup (hperm.mem_iff.mp (List.getElem_mem hi))
    (List.getElem_mem hi') ?_
  have := congrArg (fun keys => keys[i]?) hkeys
  simpa [List.getElem?_map, List.getElem?_eq_getElem hi, List.getElem?_eq_getElem hi'] using this

/-- Objects with their members in the same order are alike member by member. -/
theorem alike_object_iff {ms ns : List (String × JsonValue)} (hnodup : (ns.map Prod.fst).Nodup)
    (hkeys : ms.map Prod.fst = ns.map Prod.fst) :
    Alike (.object ms) (.object ns) ↔ AlikeMembers ms ns := by
  constructor
  · rintro (_ | _ | _ | _ | _ | _ | @⟨_, _, ordered, hperm, h⟩)
    have hordered : ordered = ns :=
      eq_of_perm_keys hperm.symm (h.keys_eq.symm.trans hkeys) hnodup
    exact hordered ▸ h
  · exact fun h => .object (.refl _) h

/-- A member under a name of its own is compared apart from the others. -/
theorem alike_object_cons_iff {key : String} {v w : JsonValue} {ms ns : List (String × JsonValue)}
    (hkey : key ∉ ns.map Prod.fst) :
    Alike (.object ((key, v) :: ms)) (.object ((key, w) :: ns))
      ↔ Alike v w ∧ Alike (.object ms) (.object ns) := by
  constructor
  · rintro (_ | _ | _ | _ | _ | _ | @⟨_, _, ordered, hperm, h⟩)
    cases h with
    | @cons _ _ w' _ rest hv hrest =>
        have hw : w' = w := by
          have hmem := hperm.symm.subset (List.mem_cons_self (a := (key, w')) (l := rest))
          rcases List.mem_cons.mp hmem with heq | hns
          · exact (Prod.mk.inj heq).2
          · exact absurd (List.mem_map_of_mem (f := Prod.fst) hns) hkey
        subst hw
        exact ⟨hv, .object hperm.cons_inv hrest⟩
  · rintro ⟨hv, _ | _ | _ | _ | _ | _ | @⟨_, _, ordered, hperm, h⟩⟩
    exact .object (hperm.cons _) (.cons hv h)

theorem alike_string_iff {s t : String} : Alike (.string s) (.string t) ↔ s = t := by
  constructor
  · intro h
    cases h
    rfl
  · rintro rfl
    exact .string

theorem alikeMembers_cons_iff {key : String} {v w : JsonValue} {ms ns : List (String × JsonValue)} :
    AlikeMembers ((key, v) :: ms) ((key, w) :: ns) ↔ Alike v w ∧ AlikeMembers ms ns := by
  constructor
  · intro h
    cases h with
    | cons hv hms => exact ⟨hv, hms⟩
  · exact fun h => .cons h.1 h.2

theorem alikeMembers_nil : AlikeMembers [] [] ↔ True := ⟨fun _ => trivial, fun _ => .nil⟩

theorem alike_array_iff {vs ws : List JsonValue} : Alike (.array vs) (.array ws) ↔ AlikeItems vs ws := by
  constructor
  · intro h
    cases h with
    | array h => exact h
  · exact .array

/-- Arrays of encoded things are alike when the things are equal. -/
theorem alikeItems_map_iff {α : Type} {f : α → JsonValue} (hf : ∀ a b, Alike (f a) (f b) ↔ a = b) :
    ∀ {as bs : List α}, AlikeItems (as.map f) (bs.map f) ↔ as = bs
  | [], [] => ⟨fun _ => rfl, fun _ => .nil⟩
  | [], _ :: _ => ⟨fun h => (by cases h), fun h => (by cases h)⟩
  | _ :: _, [] => ⟨fun h => (by cases h), fun h => (by cases h)⟩
  | a :: as, b :: bs => by
      rw [List.map_cons, List.map_cons, List.cons.injEq, ← hf a b, ← alikeItems_map_iff hf]
      constructor
      · intro h
        cases h with
        | cons hv hvs => exact ⟨hv, hvs⟩
      · exact fun h => .cons h.1 h.2

/-! ## Sorted texts -/

/-- The bytes of a value with its members sorted. -/
def canonicalBytes (escape : Char → List Char) (v : JsonValue) : List UInt8 :=
  utf8 (write escape v.sortKeys)

/-- **Canonical bytes.** Two values are written as the same bytes exactly when they are alike. -/
theorem canonicalBytes_eq_iff {escape : Char → List Char} (hescape : Readable escape)
    {v w : JsonValue} (hv : Writable v) (hw : Writable w) (hkeys : w.distinctKeys = true) :
    canonicalBytes escape v = canonicalBytes escape w ↔ Alike v w := by
  rw [← sortKeys_eq_iff hkeys]
  constructor
  · intro h
    have htext : write escape v.sortKeys = write escape w.sortKeys := by
      have := congrArg readUtf8 h
      rwa [canonicalBytes, canonicalBytes, readUtf8_utf8, readUtf8_utf8, Option.some.injEq] at this
    have hread : ∀ {u : JsonValue}, Writable u → read (write escape u.sortKeys) = some u.sortKeys := by
      intro u hu
      have := read_write hescape (writable_sortKeys hu) (fun _ h => (by cases h) : ∀ c ∈ [], _)
      rwa [List.append_nil] at this
    have := congrArg read htext
    rwa [hread hv, hread hw, Option.some.injEq] at this
  · intro h
    rw [canonicalBytes, canonicalBytes, h]

end JsonText
