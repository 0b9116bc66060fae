import NanoAural.Proof.RecoverySteps
import NanoAural.Woosh.FeatureCache

/-!
# What the feature cache answers

A payload is *clean* when every mapping in it has texts for keys and it has no field
of its own called `kind`. On clean payloads the text that is hashed says which kind
and which payload it was made from, so a run of calls gets back exactly what it put
(`feature_cache_exact`).

A field called `kind` is written over the kind, and a key that is not a text is
written as one: with either, two calls that differ have one key.
-/

namespace NanoAural.FeatureCache

open JsonText Relational

/-! ## Equal payloads -/

mutual

/-- The same value of the same type, but for the order of a mapping and list or tuple. -/
inductive Same : PayloadValue → PayloadValue → Prop where
  | null : Same .null .null
  | bool {b : Bool} : Same (.bool b) (.bool b)
  | int {n : Int} : Same (.int n) (.int n)
  | float {repr : String} : Same (.float repr) (.float repr)
  | str {s : String} : Same (.str s) (.str s)
  | list {vs ws : List PayloadValue} : SameItems vs ws → Same (.list vs) (.list ws)
  | tuple {vs ws : List PayloadValue} : SameItems vs ws → Same (.tuple vs) (.tuple ws)
  | listTuple {vs ws : List PayloadValue} : SameItems vs ws → Same (.list vs) (.tuple ws)
  | tupleList {vs ws : List PayloadValue} : SameItems vs ws → Same (.tuple vs) (.list ws)
  | dict {es fs ordered : List (PayloadKey × PayloadValue)} :
      fs.Perm ordered → SameEntries es ordered → Same (.dict es) (.dict fs)

inductive SameItems : List PayloadValue → List PayloadValue → Prop where
  | nil : SameItems [] []
  | cons {v w : PayloadValue} {vs ws : List PayloadValue} :
      Same v w → SameItems vs ws → SameItems (v :: vs) (w :: ws)

inductive SameEntries : List (PayloadKey × PayloadValue) → List (PayloadKey × PayloadValue) →
    Prop where
  | nil : SameEntries [] []
  | cons {key : PayloadKey} {v w : PayloadValue} {es fs : List (PayloadKey × PayloadValue)} :
      Same v w → SameEntries es fs → SameEntries ((key, v) :: es) ((key, w) :: fs)

end

/-- Equal as typed JSON values. -/
def Payload.Same (p q : Payload) : Prop := FeatureCache.Same (.dict p.entries) (.dict q.entries)

mutual

/-- Every mapping has texts for keys. -/
def PayloadValue.stringKeys : PayloadValue → Bool
  | .list items => stringItems items
  | .tuple items => stringItems items
  | .dict entries => (entries.all fun e => e.1.isStr) && stringEntries entries
  | .null | .bool _ | .int _ | .float _ | .str _ => true

def stringItems : List PayloadValue → Bool
  | [] => true
  | v :: vs => v.stringKeys && stringItems vs

def stringEntries : List (PayloadKey × PayloadValue) → Bool
  | [] => true
  | (_, v) :: es => v.stringKeys && stringEntries es

end

/-- Texts for keys throughout, and no field called `kind` at the top. -/
def Payload.Clean (p : Payload) : Prop :=
  (PayloadValue.dict p.entries).stringKeys = true ∧ ∀ e ∈ p.entries, e.1 ≠ .str "kind"

/-! ## The JSON value of a payload -/

mutual

/-- A value as JSON, the members in the order in which they stand. -/
def toJson : PayloadValue → JsonValue
  | .null => .null
  | .bool b => .bool b
  | .int n => .int n
  | .float repr => .real repr
  | .str s => .string s
  | .list items => .array (toJsonItems items)
  | .tuple items => .array (toJsonItems items)
  | .dict entries => .object (toJsonEntries entries)

def toJsonItems : List PayloadValue → List JsonValue
  | [] => []
  | v :: vs => toJson v :: toJsonItems vs

def toJsonEntries : List (PayloadKey × PayloadValue) → List (String × JsonValue)
  | [] => []
  | (key, v) :: es => (key.text, toJson v) :: toJsonEntries es

end

theorem toJsonEntries_eq_map (es : List (PayloadKey × PayloadValue)) :
    toJsonEntries es = es.map fun e => (e.1.text, toJson e.2) := by
  induction es with
  | nil => rfl
  | cons e rest ih => rw [toJsonEntries, ih, List.map_cons]

theorem toJsonEntries_keys (es : List (PayloadKey × PayloadValue)) :
    (toJsonEntries es).map Prod.fst = es.map fun e => e.1.text := by
  rw [toJsonEntries_eq_map, List.map_map]
  rfl

theorem isStr_iff {key : PayloadKey} : key.isStr = true ↔ ∃ s, key = .str s := by
  cases key <;> simp [PayloadKey.isStr]

theorem PayloadKey.text_injective {key key' : PayloadKey} (h : key.isStr = true)
    (h' : key'.isStr = true) (htext : key.text = key'.text) : key = key' := by
  obtain ⟨s, rfl⟩ := isStr_iff.mp h
  obtain ⟨s', rfl⟩ := isStr_iff.mp h'
  exact congrArg PayloadKey.str htext

theorem PayloadKey.jsonText_str {key : PayloadKey} (h : key.isStr = true) :
    key.jsonText = key.text := by
  obtain ⟨s, rfl⟩ := isStr_iff.mp h
  rfl

/-! ## Equal payloads are alike as JSON -/

mutual

theorem Same.alike : ∀ {v w : PayloadValue}, Same v w → Alike (toJson v) (toJson w)
  | _, _, .null => .null
  | _, _, .bool => .bool
  | _, _, .int => .int
  | _, _, .float => .real
  | _, _, .str => .string
  | _, _, .list h | _, _, .tuple h | _, _, .listTuple h | _, _, .tupleList h => .array h.alike
  | _, _, @Same.dict _ fs ordered hperm h => by
      have hjson : (toJsonEntries fs).Perm (toJsonEntries ordered) := by
        rw [toJsonEntries_eq_map, toJsonEntries_eq_map]
        exact hperm.map _
      exact .object hjson h.alike

theorem SameItems.alike : ∀ {vs ws : List PayloadValue}, SameItems vs ws →
    AlikeItems (toJsonItems vs) (toJsonItems ws)
  | _, _, .nil => .nil
  | _, _, .cons h hs => .cons h.alike hs.alike

theorem SameEntries.alike : ∀ {es fs : List (PayloadKey × PayloadValue)}, SameEntries es fs →
    AlikeMembers (toJsonEntries es) (toJsonEntries fs)
  | _, _, .nil => .nil
  | _, _, .cons h hs => .cons h.alike hs.alike

end

theorem stringEntries_iff {es : List (PayloadKey × PayloadValue)} :
    stringEntries es = true ↔ ∀ e ∈ es, e.2.stringKeys = true := by
  induction es with
  | nil => simp [stringEntries]
  | cons e rest ih => rw [stringEntries, Bool.and_eq_true, ih, List.forall_mem_cons]

/-- A rearranged image is the image of a rearrangement. -/
theorem exists_perm_of_perm_map {α β : Type} {f : α → β} {as : List α} {bs : List β}
    (h : (as.map f).Perm bs) : ∃ as', as.Perm as' ∧ bs = as'.map f := by
  have hcomp : Relation.Comp (fun xs ys => xs = ys.map f) List.Perm bs as := by
    rw [List.eq_map_comp_perm]
    exact h.symm
  obtain ⟨as', hmap, hperm⟩ := hcomp
  exact ⟨as', hperm.symm, hmap⟩

mutual

/-- With texts for keys, values that are alike as JSON are equal. -/
theorem same_of_alike : ∀ {v w : PayloadValue}, v.stringKeys = true → w.stringKeys = true →
    Alike (toJson v) (toJson w) → Same v w
  | .null, w, _, _, h => by
      cases w with
      | null => exact .null
      | _ => cases h
  | .bool _, w, _, _, h => by
      cases w with
      | bool =>
          cases h
          exact .bool
      | _ => cases h
  | .int _, w, _, _, h => by
      cases w with
      | int =>
          cases h
          exact .int
      | _ => cases h
  | .float _, w, _, _, h => by
      cases w with
      | float =>
          cases h
          exact .float
      | _ => cases h
  | .str _, w, _, _, h => by
      cases w with
      | str =>
          cases h
          exact .str
      | _ => cases h
  | .list vs, w, hv, hw, h => by
      cases w with
      | list ws => exact .list (sameItems_of_alike hv hw (alike_array_iff.mp h))
      -- a tuple is written as a list, so the two share their keys
      | tuple ws => exact .listTuple (sameItems_of_alike hv hw (alike_array_iff.mp h))
      | _ => cases h
  | .tuple vs, w, hv, hw, h => by
      cases w with
      | list ws => exact .tupleList (sameItems_of_alike hv hw (alike_array_iff.mp h))
      | tuple ws => exact .tuple (sameItems_of_alike hv hw (alike_array_iff.mp h))
      | _ => cases h
  | .dict es, w, hv, hw, h => by
      cases w with
      | dict fs =>
          rw [PayloadValue.stringKeys, Bool.and_eq_true] at hv hw
          cases h with
          | object hperm h =>
              rw [toJsonEntries_eq_map fs] at hperm
              -- the writer sorts the keys: the entries agree in some order
              obtain ⟨fs', hfs', rfl⟩ := exists_perm_of_perm_map hperm
              rw [← toJsonEntries_eq_map] at h
              have hstr : (fs'.all fun e => e.1.isStr) = true :=
                List.all_eq_true.mpr fun e he => List.all_eq_true.mp hw.1 e (hfs'.mem_iff.mpr he)
              have hvalues : stringEntries fs' = true :=
                stringEntries_iff.mpr fun e he =>
                  stringEntries_iff.mp hw.2 e (hfs'.mem_iff.mpr he)
              exact .dict hfs' (sameEntries_of_alike hv.1 hstr hv.2 hvalues h)
      | _ => cases h

theorem sameItems_of_alike : ∀ {vs ws : List PayloadValue}, stringItems vs = true →
    stringItems ws = true → AlikeItems (toJsonItems vs) (toJsonItems ws) → SameItems vs ws
  | [], [], _, _, _ => .nil
  | [], _ :: _, _, _, h | _ :: _, [], _, _, h => by cases h
  | v :: vs, w :: ws, hv, hw, h => by
      rw [stringItems, Bool.and_eq_true] at hv hw
      cases h with
      | cons h hs => exact .cons (same_of_alike hv.1 hw.1 h) (sameItems_of_alike hv.2 hw.2 hs)

theorem sameEntries_of_alike : ∀ {es fs : List (PayloadKey × PayloadValue)},
    (es.all fun e => e.1.isStr) = true → (fs.all fun e => e.1.isStr) = true →
    stringEntries es = true → stringEntries fs = true →
    AlikeMembers (toJsonEntries es) (toJsonEntries fs) → SameEntries es fs
  | [], [], _, _, _, _, _ => .nil
  | [], _ :: _, _, _, _, _, h | _ :: _, [], _, _, _, _, h => by cases h
  | (key, v) :: es, (key', w) :: fs, hes, hfs, hv, hw, h => by
      rw [List.all_cons, Bool.and_eq_true] at hes hfs
      rw [stringEntries, Bool.and_eq_true] at hv hw
      obtain ⟨name, rfl⟩ := isStr_iff.mp hes.1
      obtain ⟨name', rfl⟩ := isStr_iff.mp hfs.1
      cases h with
      | cons h hs =>
          exact .cons (same_of_alike hv.1 hw.1 h) (sameEntries_of_alike hes.2 hfs.2 hv.2 hw.2 hs)

end

/-- **Equality of payloads.** With texts for keys, it is likeness of the JSON values. -/
theorem same_iff_alike {v w : PayloadValue} (hv : v.stringKeys = true) (hw : w.stringKeys = true) :
    Same v w ↔ Alike (toJson v) (toJson w) := ⟨Same.alike, same_of_alike hv hw⟩

/-! ## What is hashed -/

/-- Texts are sorted as texts, also when there is one or none. -/
theorem sortByKey_str {α : Type} {entries : List (PayloadKey × α)}
    (h : (entries.all fun e => e.1.isStr) = true) :
    sortByKey entries = .ok (orderBy (fun e => e.1.text) entries) := by
  unfold sortByKey
  by_cases hshort : entries.length ≤ 1
  · rw [if_pos hshort]
    match entries, hshort with
    | [], _ => rfl
    | [_], _ => rfl
  · rw [if_neg hshort, if_pos h]

/-- Sorting by keys and naming the members is naming them and sorting by name. -/
theorem orderBy_text {α : Type} {entries : List (PayloadKey × α)}
    (h : (entries.all fun e => e.1.isStr) = true) :
    (orderBy (fun e => e.1.text) entries).map (fun e => (e.1.jsonText, e.2))
      = orderBy Prod.fst (entries.map fun e => (e.1.text, e.2)) := by
  have hnames : (orderBy (fun e => e.1.text) entries).map (fun e => (e.1.jsonText, e.2))
      = (orderBy (fun e => e.1.text) entries).map fun e => (e.1.text, e.2) := by
    refine List.map_congr_left fun e he => ?_
    rw [PayloadKey.jsonText_str (List.all_eq_true.mp h e (mem_orderBy.mp he))]
  rw [hnames]
  exact List.map_insertionSort _ _ _ _ fun _ _ _ _ => Iff.rfl

mutual

/-- With texts for keys, what is dumped is the JSON value with its members sorted. -/
theorem dumped_eq : ∀ {v : PayloadValue}, v.stringKeys = true →
    dumped v = .ok (toJson v).sortKeys
  | .null, _ | .bool _, _ | .int _, _ | .float _, _ | .str _, _ => rfl
  | .list items, h | .tuple items, h => by
      rw [dumped, dumpedItems_eq h]
      rfl
  | .dict entries, h => by
      rw [PayloadValue.stringKeys, Bool.and_eq_true] at h
      have hstr : ((entries.map fun e => (e.1, (toJson e.2).sortKeys)).all fun e => e.1.isStr)
          = true := by
        rw [List.all_map]
        exact h.1
      rw [dumped, dumpedEntries_eq h.2]
      change (sortByKey _ >>= _) = _
      rw [sortByKey_str hstr]
      change Except.ok (JsonValue.object _) = _
      rw [orderBy_text hstr, toJson, JsonValue.sortKeys, sortMembers_eq_map, toJsonEntries_eq_map,
        List.map_map, List.map_map]
      rfl

theorem dumpedItems_eq : ∀ {vs : List PayloadValue}, stringItems vs = true →
    dumpedItems vs = .ok (JsonText.sortItems (toJsonItems vs))
  | [], _ => rfl
  | v :: vs, h => by
      rw [stringItems, Bool.and_eq_true] at h
      rw [dumpedItems, dumped_eq h.1, dumpedItems_eq h.2]
      rfl

theorem dumpedEntries_eq : ∀ {es : List (PayloadKey × PayloadValue)}, stringEntries es = true →
    dumpedEntries es = .ok (es.map fun e => (e.1, (toJson e.2).sortKeys))
  | [], _ => rfl
  | (key, v) :: es, h => by
      rw [stringEntries, Bool.and_eq_true] at h
      rw [dumpedEntries, dumped_eq h.1, dumpedEntries_eq h.2]
      rfl

end

mutual

theorem writable_toJson : ∀ {v : PayloadValue}, v.proper = true → Writable (toJson v)
  | .null, _ | .bool _, _ | .int _, _ | .str _, _ => trivial
  | .float _, h => by
      rw [PayloadValue.proper, Bool.or_eq_true] at h
      exact h.imp_right List.contains_iff_mem.mp
  | .list _, h | .tuple _, h => writable_toJsonItems h
  | .dict _, h => by
      rw [PayloadValue.proper, Bool.and_eq_true] at h
      exact writable_toJsonEntries h.2

theorem writable_toJsonItems : ∀ {vs : List PayloadValue}, properItems vs = true →
    WritableItems (toJsonItems vs)
  | [], _ => trivial
  | _ :: _, h => by
      rw [properItems, Bool.and_eq_true] at h
      exact ⟨writable_toJson h.1, writable_toJsonItems h.2⟩

theorem writable_toJsonEntries : ∀ {es : List (PayloadKey × PayloadValue)},
    properEntries es = true → WritableMembers (toJsonEntries es)
  | [], _ => trivial
  | (_, _) :: _, h => by
      rw [properEntries, Bool.and_eq_true] at h
      exact ⟨writable_toJson h.1, writable_toJsonEntries h.2⟩

end

/-- Texts that a dictionary tells apart are different names. -/
theorem text_nodup {α : Type} {es : List (PayloadKey × α)}
    (hstr : (es.all fun e => e.1.isStr) = true)
    (h : (es.map fun e => e.1.ident).Nodup) : (es.map fun e => e.1.text).Nodup := by
  have hident : (es.map fun e => e.1.ident)
      = (es.map fun e => e.1.text).map fun s => some (Sum.inl s) := by
    rw [List.map_map]
    refine List.map_congr_left fun e he => ?_
    obtain ⟨s, hs⟩ := isStr_iff.mp (List.all_eq_true.mp hstr e he)
    rw [Function.comp_apply, hs]
    rfl
  rw [hident] at h
  exact List.Nodup.of_map _ h

mutual

theorem distinctKeys_toJson : ∀ {v : PayloadValue}, v.proper = true → v.stringKeys = true →
    (toJson v).distinctKeys = true
  | .null, _, _ | .bool _, _, _ | .int _, _, _ | .float _, _, _ | .str _, _, _ => rfl
  | .list _, h, hstr | .tuple _, h, hstr => distinctItems_toJson h hstr
  | .dict es, h, hstr => by
      rw [PayloadValue.proper, Bool.and_eq_true, decide_eq_true_eq] at h
      rw [PayloadValue.stringKeys, Bool.and_eq_true] at hstr
      rw [toJson, JsonValue.distinctKeys, Bool.and_eq_true, decide_eq_true_eq, toJsonEntries_keys]
      exact ⟨text_nodup hstr.1 h.1, distinctEntries_toJson h.2 hstr.2⟩

theorem distinctItems_toJson : ∀ {vs : List PayloadValue}, properItems vs = true →
    stringItems vs = true → distinctItems (toJsonItems vs) = true
  | [], _, _ => rfl
  | _ :: _, h, hstr => by
      rw [properItems, Bool.and_eq_true] at h
      rw [stringItems, Bool.and_eq_true] at hstr
      rw [toJsonItems, distinctItems, Bool.and_eq_true]
      exact ⟨distinctKeys_toJson h.1 hstr.1, distinctItems_toJson h.2 hstr.2⟩

theorem distinctEntries_toJson : ∀ {es : List (PayloadKey × PayloadValue)},
    properEntries es = true → stringEntries es = true → distinctMembers (toJsonEntries es) = true
  | [], _, _ => rfl
  | (_, _) :: _, h, hstr => by
      rw [properEntries, Bool.and_eq_true] at h
      rw [stringEntries, Bool.and_eq_true] at hstr
      rw [toJsonEntries, distinctMembers, Bool.and_eq_true]
      exact ⟨distinctKeys_toJson h.1 hstr.1, distinctEntries_toJson h.2 hstr.2⟩

end

/-- What is hashed: the payload with the kind as one more field. -/
def keyed (kind : String) (payload : Payload) : PayloadValue :=
  .dict ((.str "kind", .str kind) :: payload.entries)

namespace Payload

variable {payload : Payload}

theorem Clean.strings (h : payload.Clean) :
    (payload.entries.all fun e => e.1.isStr) = true ∧ stringEntries payload.entries = true := by
  have hstr := h.1
  rw [PayloadValue.stringKeys, Bool.and_eq_true] at hstr
  exact hstr

theorem Clean.names (h : payload.Clean) :
    (payload.entries.map fun e => e.1.text).Nodup ∧ properEntries payload.entries = true := by
  have hproper := payload.proper
  rw [PayloadValue.proper, Bool.and_eq_true, decide_eq_true_eq] at hproper
  exact ⟨text_nodup h.strings.1 hproper.1, hproper.2⟩

theorem Clean.kind_notMem (h : payload.Clean) :
    "kind" ∉ payload.entries.map fun e => e.1.text := by
  intro hmem
  obtain ⟨e, he, htext⟩ := List.mem_map.mp hmem
  have hstr := List.all_eq_true.mp h.strings.1 e he
  exact h.2 e he (PayloadKey.text_injective hstr rfl htext)

end Payload

section Keyed

variable {payload : Payload} (h : payload.Clean) (kind : String)

include h

theorem writable_keyed : Writable (toJson (keyed kind payload)) :=
  ⟨trivial, writable_toJsonEntries h.names.2⟩

theorem distinctKeys_keyed : (toJson (keyed kind payload)).distinctKeys = true := by
  have hproper := payload.proper
  have hvalues := distinctKeys_toJson payload.proper h.1
  rw [toJson, JsonValue.distinctKeys, Bool.and_eq_true, decide_eq_true_eq] at hvalues
  rw [keyed, toJson, toJsonEntries, JsonValue.distinctKeys, Bool.and_eq_true, decide_eq_true_eq,
    List.map_cons, List.nodup_cons, toJsonEntries_keys]
  rw [toJsonEntries_keys] at hvalues
  exact ⟨⟨h.kind_notMem, hvalues.1⟩, hvalues.2⟩

/-- The mapping that is dumped: the kind first, then the fields in order. -/
theorem merged_items :
    (merged kind (orderBy (fun e => e.1.text) payload.entries)).items
      = ("kind", .str kind) ::
        (orderBy (fun e => e.1.text) payload.entries).map fun e => (e.1.text, e.2) := by
  have hperm := (orderBy_perm (fun e : PayloadKey × PayloadValue => e.1.text) payload.entries).map
    fun e => e.1.text
  unfold merged
  rw [OrderedMap.items_foldl_put (hperm.nodup_iff.mpr h.names.1)]
  · rfl
  · intro e he
    have hne : "kind" ≠ e.1.text := fun heq =>
      h.kind_notMem (hperm.mem_iff.mp (heq ▸ List.mem_map_of_mem he))
    rw [OrderedMap.get?_put, if_neg hne]
    rfl

/-- **What is hashed** of a clean payload is canonical. -/
theorem dumped_merged :
    dumped (.dict ((merged kind (orderBy (fun e => e.1.text) payload.entries)).items.map
      fun e => (.str e.1, e.2))) = .ok (toJson (keyed kind payload)).sortKeys := by
  rw [merged_items h]
  have hsorted := orderBy_perm (fun e : PayloadKey × PayloadValue => e.1.text) payload.entries
  have hstr : (PayloadValue.dict
      ((("kind", PayloadValue.str kind) ::
        (orderBy (fun e => e.1.text) payload.entries).map fun e => (e.1.text, e.2)).map
          fun e => (PayloadKey.str e.1, e.2))).stringKeys = true := by
    rw [PayloadValue.stringKeys, Bool.and_eq_true, List.map_cons, stringEntries]
    refine ⟨?_, ?_⟩
    · rw [List.map_map, List.all_cons, List.all_map]
      exact List.all_eq_true.mpr fun _ _ => rfl
    · rw [PayloadValue.stringKeys, Bool.true_and, List.map_map]
      refine stringEntries_iff.mpr fun e he => ?_
      obtain ⟨entry, hentry, rfl⟩ := List.mem_map.mp he
      exact stringEntries_iff.mp h.strings.2 entry (hsorted.mem_iff.mp hentry)
  rw [dumped_eq hstr]
  have hnames := distinctKeys_keyed h kind
  have hjson : (toJsonEntries ((("kind", PayloadValue.str kind) ::
      (orderBy (fun e => e.1.text) payload.entries).map fun e => (e.1.text, e.2)).map
        fun e => (PayloadKey.str e.1, e.2))).Perm
      (toJsonEntries ((.str "kind", .str kind) :: payload.entries)) := by
    rw [toJsonEntries_eq_map, toJsonEntries_eq_map, List.map_cons, List.map_cons, List.map_cons,
      List.map_map, List.map_map]
    exact (hsorted.map _).cons _
  rw [keyed, toJson, JsonValue.distinctKeys, Bool.and_eq_true, decide_eq_true_eq] at hnames
  rw [keyed, toJson, toJson, sortKeys_object_congr hjson hnames.1]

/-- **The key of a clean payload.** Where `cache_key` returns, it has hashed the canonical bytes of
the payload with its kind. -/
theorem cacheKey_ok {sha256 : List UInt8 → String} {key : String}
    (hkey : cacheKey sha256 kind payload = .ok key) :
    key = sha256 (canonicalBytes plainEscape (toJson (keyed kind payload))) := by
  unfold cacheKey at hkey
  simp only [except_bind_ok, raiseIf_ok, exists_const] at hkey
  obtain ⟨_, _, _, sorted, hsorted, value, hvalue, hresult⟩ := hkey
  rw [sortByKey_str h.strings.1] at hsorted
  cases hsorted
  rw [dumped_merged h kind] at hvalue
  cases hvalue
  exact (Except.ok.inj hresult).symm

end Keyed

theorem alike_keyed_iff {kind kind' : String} {p q : Payload} (hp : p.Clean) (hq : q.Clean) :
    Alike (toJson (keyed kind p)) (toJson (keyed kind' q)) ↔ kind = kind' ∧ p.Same q := by
  have hkey : "kind" ∉ (toJsonEntries q.entries).map Prod.fst := by
    rw [toJsonEntries_keys]
    exact hq.kind_notMem
  unfold Payload.Same
  rw [same_iff_alike hp.1 hq.1, ← alike_string_iff]
  exact alike_object_cons_iff hkey

/-- **Keys tell calls apart.** Clean payloads have the same key exactly when they are equal and go
with the same kind. -/
theorem cacheKey_eq_iff {sha256 : List UInt8 → String} (hsha : Function.Injective sha256)
    {kind kind' key key' : String} {p q : Payload} (hp : p.Clean) (hq : q.Clean)
    (hkey : cacheKey sha256 kind p = .ok key) (hkey' : cacheKey sha256 kind' q = .ok key') :
    key = key' ↔ kind = kind' ∧ p.Same q := by
  rw [cacheKey_ok hp kind hkey, cacheKey_ok hq kind' hkey', hsha.eq_iff,
    canonicalBytes_eq_iff readable_plainEscape (writable_keyed hp kind) (writable_keyed hq kind')
      (distinctKeys_keyed hq kind'), alike_keyed_iff hp hq]

/-! ## Runs -/

/-- `cache_key` returns for these arguments. -/
def Accepted (sha256 : List UInt8 → String) (kind : String) (payload : Payload) : Prop :=
  ∃ key, cacheKey sha256 kind payload = .ok key

/-- The call is a put that returns, for this kind and this payload. -/
def Call.Stores (sha256 : List UInt8 → String) (kind : String) (payload : Payload)
    (value : List UInt8) : Call → Prop
  | .put kind' payload' value' =>
      kind' = kind ∧ payload'.Same payload ∧ value' = value ∧ value ≠ [] ∧
        Accepted sha256 kind' payload'
  | .get _ _ => False

/-- The value of the last put for this kind and this payload, if there was one. -/
def LastPut (sha256 : List UInt8 → String) (kind : String) (payload : Payload)
    (calls : List Call) : Option (List UInt8) → Prop
  | none => ∀ c ∈ calls, ∀ value, ¬ c.Stores sha256 kind payload value
  | some value => ∃ before c later, calls = before ++ c :: later ∧
      c.Stores sha256 kind payload value ∧
      ∀ c' ∈ later, ∀ value', ¬ c'.Stores sha256 kind payload value'

section Runs

variable {sha256 : List UInt8 → String} {kind : String} {payload : Payload} {calls : List Call}
  {c : Call}

/-- A call that stores nothing for the payload leaves the last put as it was. -/
theorem LastPut.skip {result : Option (List UInt8)}
    (h : LastPut sha256 kind payload calls result)
    (hc : ∀ value, ¬ c.Stores sha256 kind payload value) :
    LastPut sha256 kind payload (calls ++ [c]) result := by
  cases result with
  | none =>
      intro c' hc'
      rcases List.mem_append.mp hc' with hold | hnew
      · exact h c' hold
      · exact List.mem_singleton.mp hnew ▸ hc
  | some value =>
      obtain ⟨before, stored, later, rfl, hstores, hlater⟩ := h
      refine ⟨before, stored, later ++ [c], by rw [List.append_assoc, List.cons_append], hstores,
        fun c' hc' => ?_⟩
      rcases List.mem_append.mp hc' with hold | hnew
      · exact hlater c' hold
      · exact List.mem_singleton.mp hnew ▸ hc

theorem LastPut.last {value : List UInt8} (hc : c.Stores sha256 kind payload value) :
    LastPut sha256 kind payload (calls ++ [c]) (some value) :=
  ⟨calls, c, [], rfl, hc, fun _ h => nomatch h⟩

theorem after_append : after sha256 (calls ++ [c]) = c.run sha256 (after sha256 calls) := by
  rw [after, List.foldl_append]
  rfl

variable (sha256 kind payload) in
/-- A get changes the counts only. -/
theorem get_store (cache : WooshFeatureCache) :
    (cache.get sha256 kind payload).2.mode = cache.mode ∧
      (cache.get sha256 kind payload).2.store = cache.store := by
  unfold WooshFeatureCache.get
  cases cacheKey sha256 kind payload with
  | error e => exact ⟨rfl, rfl⟩
  | ok key =>
      by_cases henabled : cache.enabled = true
      · simp only [henabled, if_true]
        cases cache.store.get? key with
        | none => exact ⟨rfl, rfl⟩
        | some value => exact ⟨rfl, rfl⟩
      · simp only [henabled]
        exact ⟨rfl, rfl⟩

variable (sha256 c) in
/-- What a call leaves in the store. -/
theorem run_store (cache : WooshFeatureCache) (henabled : cache.enabled = true) :
    (c.run sha256 cache).enabled = true ∧
      ((c.run sha256 cache).store = cache.store ∧
          (∀ kind payload value, ¬ c.Stores sha256 kind payload value) ∨
        ∃ kind payload value key, c = .put kind payload value ∧ value ≠ [] ∧
          cacheKey sha256 kind payload = .ok key ∧
          (c.run sha256 cache).store = cache.store.put key value) := by
  cases c with
  | get kind payload =>
      obtain ⟨hmode, hstore⟩ := get_store sha256 kind payload cache
      refine ⟨?_, .inl ⟨hstore, fun _ _ _ h => h⟩⟩
      unfold WooshFeatureCache.enabled at henabled ⊢
      rw [← hmode] at henabled
      exact henabled
  | put kind payload value =>
      unfold Call.run WooshFeatureCache.put
      by_cases hvalue : value = []
      · subst hvalue
        refine ⟨henabled, .inl ⟨rfl, ?_⟩⟩
        rintro _ _ _ ⟨_, _, rfl, hne, _⟩
        exact hne rfl
      · simp only [List.isEmpty_iff, hvalue, if_false]
        cases hkey : cacheKey sha256 kind payload with
        | error e =>
            refine ⟨henabled, .inl ⟨rfl, ?_⟩⟩
            rintro _ _ _ ⟨rfl, _, _, _, key, haccepted⟩
            rw [hkey] at haccepted
            cases haccepted
        | ok key =>
            simp only [henabled, if_true]
            exact ⟨henabled, .inr ⟨kind, payload, value, key, rfl, hvalue, hkey, rfl⟩⟩

/-- **The store answers for the last put**, in every run over clean payloads. -/
theorem store_lastPut (hsha : Function.Injective sha256) :
    ∀ {calls : List Call}, (∀ c ∈ calls, c.payload.Clean) →
      (after sha256 calls).enabled = true ∧
      ∀ {kind : String} {payload : Payload} {key : String}, payload.Clean →
        cacheKey sha256 kind payload = .ok key →
        LastPut sha256 kind payload calls ((after sha256 calls).store.get? key) := by
  intro calls
  induction calls using List.reverseRecOn with
  | nil => exact fun _ => ⟨rfl, fun _ _ _ h => nomatch h⟩
  | append_singleton calls c ih =>
      intro hclean
      obtain ⟨henabled, hlast⟩ := ih fun c' hc' => hclean c' (List.mem_append_left _ hc')
      obtain ⟨henabled', hstore⟩ := run_store sha256 c _ henabled
      rw [after_append]
      refine ⟨henabled', fun {kind payload key} hp hkey => ?_⟩
      rcases hstore with ⟨hsame, hnone⟩ | ⟨kind', payload', value, key', rfl, hvalue, hkey', hput⟩
      · rw [hsame]
        exact (hlast hp hkey).skip (hnone _ _)
      · have hp' : payload'.Clean := hclean _ (List.mem_append_right _ List.mem_cons_self)
        have hiff := cacheKey_eq_iff hsha hp' hp hkey' hkey
        rw [hput, OrderedMap.get?_put]
        by_cases heq : key' = key
        · obtain ⟨hkind, hsame⟩ := hiff.mp heq
          rw [if_pos heq]
          exact LastPut.last ⟨hkind, hsame, rfl, hvalue, key', hkey'⟩
        · rw [if_neg heq]
          refine (hlast hp hkey).skip ?_
          rintro _ ⟨hkind, hsame, _⟩
          exact heq (hiff.mpr ⟨hkind, hsame⟩)

end Runs

/-- **The feature cache on clean payloads.** Two keys are the same exactly when the kinds are the
same and the payloads are equal, and in a new cache, after any calls, a get whose key can be made
returns the value of the last put of the same kind and an equal payload, or nothing if there was
none. -/
theorem feature_cache_exact (sha256 : List UInt8 → String) (hsha : Function.Injective sha256) :
    (∀ (kind kind' key key' : String) (p q : Payload), p.Clean → q.Clean →
        cacheKey sha256 kind p = .ok key → cacheKey sha256 kind' q = .ok key' →
        (key = key' ↔ kind = kind' ∧ p.Same q)) ∧
      ∀ calls : List Call, (∀ c ∈ calls, c.payload.Clean) →
        ∀ (kind : String) (payload : Payload), payload.Clean → Accepted sha256 kind payload →
          ∃ result, ((after sha256 calls).get sha256 kind payload).1 = .ok result ∧
            LastPut sha256 kind payload calls result := by
  refine ⟨fun _ _ _ _ _ _ hp hq hkey hkey' => cacheKey_eq_iff hsha hp hq hkey hkey',
    fun calls hclean kind payload hp haccepted => ?_⟩
  obtain ⟨key, hkey⟩ := haccepted
  obtain ⟨henabled, hlast⟩ := store_lastPut hsha hclean
  refine ⟨(after sha256 calls).store.get? key, ?_, hlast hp hkey⟩
  unfold WooshFeatureCache.get
  simp only [hkey, henabled, if_true]
  cases (after sha256 calls).store.get? key with
  | none => rfl
  | some value => rfl

/-! ### Two payloads -/

/-- A digest that spells its bytes. -/
def spelledDigest (bytes : List UInt8) : String := String.ofList (bytes.map Char.ofUInt8)

theorem spelledDigest_injective : Function.Injective spelledDigest := by
  have hchars : Function.Injective Char.ofUInt8 :=
    Function.LeftInverse.injective (g := Char.toUInt8) UInt8.toUInt8_toUInt32
  intro a b h
  have hlist := congrArg String.toList h
  simp only [spelledDigest, String.toList_ofList] at hlist
  exact List.map_injective_iff.mpr hchars hlist

/-- A payload with a text and a number. -/
def promptPayload : Payload := ⟨[(.str "text", .str "rain"), (.str "n", .int 1)], by decide⟩

/-- The same fields the other way round. -/
def turnedPayload : Payload := ⟨[(.str "n", .int 1), (.str "text", .str "rain")], by decide⟩

theorem feature_cache_exact_turned :
    ∃ result, ((after spelledDigest [.put "text_tokens" promptPayload [7]]).get spelledDigest
        "text_tokens" turnedPayload).1 = .ok result ∧
      LastPut spelledDigest "text_tokens" turnedPayload
        [.put "text_tokens" promptPayload [7]] result := by
  refine (feature_cache_exact spelledDigest spelledDigest_injective).2 _ ?_ _ _ ?_ ?_
  · intro c hc
    cases List.mem_singleton.mp hc
    exact ⟨by decide, by decide⟩
  · exact ⟨by decide, by decide⟩
  · exact ⟨_, rfl⟩

def emptyPayload : Payload := ⟨[], rfl⟩

/-- A payload with a field of the name the kind goes under. -/
def kindPayload : Payload := ⟨[(.str "kind", .str "text_tokens")], by decide⟩

/-- **A field called `kind` replaces the kind.** What was put as text tokens is served as a
preprocessed video, of a kind and a payload that were never put. -/
theorem kind_field_served :
    Function.Injective spelledDigest ∧
      ((after spelledDigest [.put "text_tokens" emptyPayload [7]]).get spelledDigest
        "video_preprocess" kindPayload).1 = .ok (some [7]) ∧
      LastPut spelledDigest "video_preprocess" kindPayload
        [.put "text_tokens" emptyPayload [7]] none := by
  refine ⟨spelledDigest_injective, rfl, ?_⟩
  rintro c hc _ hstores
  cases List.mem_singleton.mp hc
  exact absurd hstores.1 (by decide)

end NanoAural.FeatureCache
