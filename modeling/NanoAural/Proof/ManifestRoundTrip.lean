import NanoAural.Base.JsonRoundTrip
import NanoAural.Durable.RecoveryManifests
import NanoAural.Proof.RecoveryContents

/-!
# A manifest is read as it was written

`_read_manifest` of the bytes `_atomic_json` wrote does what the checks of the
manifest do, for every manifest. How many bytes there are depends on the number of
objects and on the decimals of the sizes alone.
-/

namespace NanoAural

open JsonText Relational

namespace Recovery

/-! ## The order of the keys -/

/-- An object of the list as it is written. -/
def RecoveryObject.written (item : RecoveryObject) : JsonValue :=
  .object [("sha256", .string item.sha256), ("size_bytes", .int item.sizeBytes),
    ("storage_key", .string item.storageKey)]

/-- The manifest as it is written. -/
def RecoveryManifest.written (m : RecoveryManifest) : JsonValue :=
  .object [
    ("canonical", .object [("objects", .array (m.objects.map RecoveryObject.written)),
      ("total_bytes", .int m.totalBytes)]),
    ("database", .object [("format", .string "postgres-custom"), ("sha256", .string m.dumpSha256),
      ("size_bytes", .int m.dumpSizeBytes),
      ("source_database_identity", .string m.sourceDatabaseIdentity)]),
    ("schema", .string recoverySchema)]

theorem orderBy_object (key digest size : JsonValue) :
    orderBy Prod.fst [("storage_key", key), ("sha256", digest), ("size_bytes", size)] =
      [("sha256", digest), ("size_bytes", size), ("storage_key", key)] := by
  refine orderBy_eq (List.perm_append_comm : ([_] ++ [_, _]).Perm _) ?_
  change (["sha256", "size_bytes", "storage_key"] : List String).Pairwise (· < ·)
  decide +kernel

theorem orderBy_canonical (objects total : JsonValue) :
    orderBy Prod.fst [("objects", objects), ("total_bytes", total)] =
      [("objects", objects), ("total_bytes", total)] := by
  refine orderBy_eq (.refl _) ?_
  change (["objects", "total_bytes"] : List String).Pairwise (· < ·)
  decide +kernel

theorem orderBy_database (format digest size identity : JsonValue) :
    orderBy Prod.fst [("format", format), ("sha256", digest), ("size_bytes", size),
      ("source_database_identity", identity)] = [("format", format), ("sha256", digest),
      ("size_bytes", size), ("source_database_identity", identity)] := by
  refine orderBy_eq (.refl _) ?_
  change (["format", "sha256", "size_bytes", "source_database_identity"] : List String).Pairwise
    (· < ·)
  decide +kernel

theorem orderBy_manifest (schema database canonical : JsonValue) :
    orderBy Prod.fst [("schema", schema), ("database", database), ("canonical", canonical)] =
      [("canonical", canonical), ("database", database), ("schema", schema)] := by
  refine orderBy_eq (List.reverse_perm _).symm ?_
  change (["canonical", "database", "schema"] : List String).Pairwise (· < ·)
  decide +kernel

theorem object_sortKeys (item : RecoveryObject) : item.json.sortKeys = item.written := by
  unfold RecoveryObject.json RecoveryObject.written
  simp only [JsonValue.sortKeys, JsonText.sortMembers, orderBy_object]

theorem objects_sortKeys (objects : List RecoveryObject) :
    JsonText.sortItems (objects.map RecoveryObject.json) = objects.map RecoveryObject.written := by
  induction objects with
  | nil => rfl
  | cons item rest ih => rw [List.map_cons, List.map_cons, JsonText.sortItems, object_sortKeys, ih]

theorem manifest_sortKeys (m : RecoveryManifest) : m.json.sortKeys = m.written := by
  unfold RecoveryManifest.json RecoveryManifest.written
  simp only [JsonValue.sortKeys, JsonText.sortMembers, objects_sortKeys, orderBy_manifest, orderBy_database,
    orderBy_canonical]

/-! ## Reading what was written -/

theorem writable_manifest (m : RecoveryManifest) : Writable m.json := by
  have hobjects : ∀ v ∈ m.objects.map RecoveryObject.json, Writable v := by
    intro v hv
    obtain ⟨item, _, rfl⟩ := List.mem_map.mp hv
    exact ⟨trivial, trivial, trivial, trivial⟩
  exact ⟨trivial, ⟨trivial, trivial, trivial, trivial, trivial⟩,
    ⟨writableItems_iff.mpr hobjects, trivial, trivial⟩, trivial⟩

theorem distinctItems_iff {items : List JsonValue} :
    distinctItems items = true ↔ ∀ v ∈ items, v.distinctKeys = true := by
  induction items with
  | nil => exact ⟨fun _ _ h => (by cases h), fun _ => rfl⟩
  | cons v rest ih => rw [List.forall_mem_cons, ← ih, distinctItems, Bool.and_eq_true]

theorem distinct_manifest (m : RecoveryManifest) : m.written.distinctKeys = true := by
  have hobjects : distinctItems (m.objects.map RecoveryObject.written) = true := by
    refine distinctItems_iff.mpr fun v hv => ?_
    obtain ⟨item, _, rfl⟩ := List.mem_map.mp hv
    unfold RecoveryObject.written
    simp only [JsonValue.distinctKeys, distinctMembers, Bool.and_true, decide_eq_true_eq,
      List.map_cons, List.map_nil]
    decide
  simp only [RecoveryManifest.written, JsonValue.distinctKeys, distinctMembers, hobjects,
    Bool.and_true, Bool.and_eq_true, decide_eq_true_eq, List.map_cons, List.map_nil]
  decide

section Except

variable {α β : Type}

theorem ok_bind (a : α) (f : α → Except RecoveryRaise β) : (Except.ok a >>= f) = f a := rfl

theorem error_bind (e : RecoveryRaise) (f : α → Except RecoveryRaise β) :
    (Except.error e >>= f) = .error e := rfl

theorem demand_true_bind (code : String) (f : Unit → Except RecoveryRaise β) :
    (demand true code >>= f) = f () := rfl

theorem demand_false_bind (code : String) (f : Unit → Except RecoveryRaise β) :
    (demand false code >>= f) = .error (.recoverySet code) := rfl

end Except

theorem readBoundedJson_encode (m : RecoveryManifest) (maxBytes : Nat) :
    readBoundedJson (encodeManifest m) maxBytes = (do
      demand ((encodeManifest m).length ≤ maxBytes) "RECOVERY_MANIFEST_INVALID"
      .ok m.written) := by
  have hread : (readUtf8 (encodeManifest m)).bind read = some m.written := by
    have hwritable := writable_sortKeys (writable_manifest m)
    rw [manifest_sortKeys] at hwritable
    unfold encodeManifest atomicJson
    rw [readUtf8_utf8, Option.bind_some, manifest_sortKeys]
    refine read_write readable_asciiEscape hwritable fun c hc => ?_
    rw [List.mem_singleton.mp hc]
    rfl
  unfold readBoundedJson
  rw [hread]
  simp only [distinct_manifest, demand_true_bind]

theorem readObject_written (limits : RecoveryLimits) (item : RecoveryObject) (seen : List String)
    (total : Nat) : readObject limits item.written seen total = (do
      demand (isSha256 item.sha256 && item.storageKey == canonicalKey item.sha256
        && !seen.contains item.storageKey) "RECOVERY_MANIFEST_INVALID"
      demand (item.sizeBytes ≤ limits.maxSingleBlobBytes
        && total + item.sizeBytes ≤ limits.maxTotalBlobBytes) "RECOVERY_BOUND_EXCEEDED"
      .ok item) := rfl

theorem readObjectList_written (limits : RecoveryLimits) (objects : List RecoveryObject) :
    ∀ seen total, readObjectList limits (objects.map RecoveryObject.written) seen total = (do
      let total ← readObjects limits objects seen total
      .ok (objects, total)) := by
  induction objects with
  | nil => exact fun _ _ => rfl
  | cons item rest ih =>
      intro seen total
      unfold readObjects
      rw [List.map_cons, readObjectList, readObject_written]
      generalize (isSha256 item.sha256 && item.storageKey == canonicalKey item.sha256
        && !seen.contains item.storageKey) = named
      generalize (decide (item.sizeBytes ≤ limits.maxSingleBlobBytes)
        && decide (total + item.sizeBytes ≤ limits.maxTotalBlobBytes)) = bounded
      cases named with
      | false => simp only [demand_false_bind, error_bind]
      | true =>
          cases bounded with
          | false => simp only [demand_true_bind, demand_false_bind, error_bind]
          | true =>
              simp only [demand_true_bind, ok_bind, ih]
              cases readObjects limits rest (item.storageKey :: seen) (total + item.sizeBytes) with
              | error e => rfl
              | ok total => rfl

/-- What a `dict` of the manifest answers for a key. -/
def fieldOf (members : List (String × JsonValue)) (key : String) : JsonValue :=
  (members.lookup key).getD .null

theorem asDict_manifest (canonical database schema : JsonValue) :
    asDict ["schema", "database", "canonical"]
      (.object [("canonical", canonical), ("database", database), ("schema", schema)]) =
    .ok (fieldOf [("canonical", canonical), ("database", database), ("schema", schema)]) := rfl

theorem asDict_database (format digest size identity : JsonValue) :
    asDict ["format", "sha256", "size_bytes", "source_database_identity"]
      (.object [("format", format), ("sha256", digest), ("size_bytes", size),
        ("source_database_identity", identity)]) =
    .ok (fieldOf [("format", format), ("sha256", digest), ("size_bytes", size),
      ("source_database_identity", identity)]) := rfl

theorem asDict_canonical (objects total : JsonValue) :
    asDict ["objects", "total_bytes"] (.object [("objects", objects), ("total_bytes", total)]) =
    .ok (fieldOf [("objects", objects), ("total_bytes", total)]) := rfl

theorem fieldOf_cons (key : String) (value : JsonValue) (rest : List (String × JsonValue)) :
    fieldOf ((key, value) :: rest) key = value := by
  unfold fieldOf
  rw [List.lookup_cons_self]
  rfl

theorem fieldOf_skip {key other : String} (h : key ≠ other) (value : JsonValue)
    (rest : List (String × JsonValue)) :
    fieldOf ((other, value) :: rest) key = fieldOf rest key := by
  unfold fieldOf
  rw [List.lookup_cons, beq_false_of_ne h]

/-- **The manifest file is read as it was written**: the reader of the file does what the checks of
the manifest do, and returns what was written where they pass. -/
theorem readManifestFile_encode (floatEquals : String → Nat → Bool) (env : RecoveryEnv)
    (m : RecoveryManifest) :
    readManifestFile floatEquals env.limits (encodeManifest m) = (do
      readManifest env.encoding m
      .ok (m.dumpSha256, m.dumpSizeBytes, m.sourceDatabaseIdentity, m.objects)) := by
  unfold readManifestFile readManifest
  rw [readBoundedJson_encode]
  change _ = ((do
    demand ((encodeManifest m).length ≤ maxManifestBytes) "RECOVERY_MANIFEST_INVALID"
    _) >>= _)
  generalize decide ((encodeManifest m).length ≤ maxManifestBytes) = fits
  cases fits with
  | false => simp only [demand_false_bind, error_bind]
  | true =>
      -- the numbers of the manifest are natural, those of the reader any integers
      have hleast : decide (((1 : Nat) : Int) ≤ (m.dumpSizeBytes : Int)) =
          decide (1 ≤ m.dumpSizeBytes) := decide_eq_decide.mpr Int.ofNat_le
      have htotal : ∀ total, equalsTotal floatEquals total (.int m.totalBytes) =
          (m.totalBytes == total) := fun total => decide_eq_decide.mpr Int.ofNat_inj
      simp only [demand_true_bind, ok_bind, RecoveryManifest.written, asDict_manifest]
      simp (disch := decide) only [fieldOf_cons, fieldOf_skip, asDict_database, asDict_canonical,
        ok_bind, asStr, asInt, asList, beq_self_eq_true, demand_true_bind, hleast,
        List.length_map, readObjectList_written, Int.toNat_natCast]
      rw [show env.encoding.limits = env.limits from rfl]
      generalize decide (1 ≤ m.dumpSizeBytes) = positive
      cases positive with
      | false => simp only [Bool.and_false, Bool.false_and, demand_false_bind, error_bind]
      | true =>
          simp only [Bool.and_true, demand_true_bind, ok_bind]
          generalize (isSha256 m.dumpSha256 && decide (m.dumpSizeBytes ≤
            env.limits.maxDatabaseDumpBytes) && isSha256 m.sourceDatabaseIdentity) = formed
          generalize decide (m.objects.length ≤ env.limits.maxObjects) = few
          cases formed with
          | false => simp only [demand_false_bind, error_bind]
          | true =>
              cases few with
              | false => simp only [demand_true_bind, demand_false_bind, error_bind]
              | true =>
                  cases readObjects env.limits m.objects [] 0 with
                  | error e => rfl
                  | ok total =>
                      simp only [demand_true_bind, ok_bind, htotal]

/-! ## How many bytes there are -/

/-- How many decimals a number has. -/
def decimals (n : Nat) : Nat := (Nat.toDigits 10 n).length

/-- How long the manifest of objects of these sizes is: 306 characters that are always there, 191
more and the decimals of the size for each object, and the commas between them. -/
def manifestLength (sizes : List Nat) (dumpSize : Nat) : Nat :=
  306 + (sizes.map fun size => 191 + decimals size).sum + (sizes.length - 1)
    + decimals sizes.sum + decimals dumpSize

/-- A text that needs no escapes. -/
def Unescaped (s : String) : Prop := ∀ c ∈ s.toList, asciiEscape c = [c]

theorem writeString_length {s : String} (h : Unescaped s) :
    (writeString asciiEscape s).length = s.toList.length + 2 := by
  have hplain : s.toList.flatMap asciiEscape = s.toList := by
    refine (List.flatMap_congr h).trans ?_
    exact List.flatMap_singleton' _
  unfold writeString
  rw [hplain, List.length_cons, List.length_append]
  rfl

theorem writeInt_length (n : Nat) : (writeInt n).length = decimals n := by
  unfold writeInt
  rw [if_neg (by omega)]
  rfl

theorem asciiEscape_hex {c : Char} (h : isLowerHex c = true) : asciiEscape c = [c] := by
  have hall : ∀ n < 103, isLowerHex (Char.ofNat n) = true →
      asciiEscape (Char.ofNat n) = [Char.ofNat n] := by decide
  have hlt : c.toNat < 103 := by
    unfold isLowerHex at h
    simp only [Bool.or_eq_true, Bool.and_eq_true, decide_eq_true_eq] at h
    have hle : ∀ d : Char, c ≤ d → c.toNat ≤ d.toNat := fun d hd => UInt32.le_iff_toNat_le.mp hd
    rcases h with h | h
    · exact Nat.lt_of_le_of_lt (hle _ h.2) (by decide)
    · exact Nat.lt_of_le_of_lt (hle _ h.2) (by decide)
  have hc := hall c.toNat hlt
  rw [Char.ofNat_toNat] at hc
  exact hc h

theorem unescaped_sha256 {digest : String} (h : isSha256 digest = true) : Unescaped digest := by
  unfold isSha256 at h
  rw [Bool.and_eq_true, List.all_eq_true] at h
  exact fun c hc => asciiEscape_hex (h.2 c hc)

theorem unescaped_canonicalKey {digest : String} (h : isSha256 digest = true) :
    Unescaped (canonicalKey digest) := by
  have hdigest := unescaped_sha256 h
  have hroot : ∀ c ∈ "blobs/sha256/".toList, asciiEscape c = [c] := by
    simp
    decide
  have hslash : ∀ c ∈ "/".toList, asciiEscape c = [c] := by
    simp
    decide
  intro c hc
  rw [canonicalKey_toList] at hc
  unfold keyStem at hc
  simp only [String.toList_append, String.toList_ofList, List.mem_append] at hc
  rcases hc with ((((hc | hc) | hc) | hc) | hc) | hc
  · exact hroot c hc
  · exact hdigest c (List.mem_of_mem_take hc)
  · exact hslash c hc
  · exact hdigest c (List.mem_of_mem_drop (List.mem_of_mem_take hc))
  · exact hslash c hc
  · exact hdigest c hc

theorem canonicalKey_length {digest : String} (h : isSha256 digest = true) :
    (canonicalKey digest).toList.length = 83 := by
  rw [canonicalKey_toList, List.length_append, keyStem_length h, isSha256_length h]

theorem object_length {item : RecoveryObject} (hdigest : isSha256 item.sha256 = true)
    (hkey : item.storageKey = canonicalKey item.sha256) :
    (write asciiEscape item.written).length = 191 + decimals item.sizeBytes := by
  have hnames : (writeString asciiEscape "sha256").length = 8 ∧
      (writeString asciiEscape "size_bytes").length = 12 ∧
      (writeString asciiEscape "storage_key").length = 13 := by decide +kernel
  unfold RecoveryObject.written
  simp only [write, writeMembers, List.length_cons, List.length_append, List.length_nil,
    writeInt_length, writeString_length (unescaped_sha256 hdigest), isSha256_length hdigest, hkey,
    writeString_length (unescaped_canonicalKey hdigest), canonicalKey_length hdigest, hnames]
  omega

theorem objects_length {objects : List RecoveryObject}
    (h : ∀ item ∈ objects, isSha256 item.sha256 = true ∧
      item.storageKey = canonicalKey item.sha256) :
    (writeItems asciiEscape (objects.map RecoveryObject.written)).length =
      ((objects.map RecoveryObject.sizeBytes).map fun size => 191 + decimals size).sum
        + (objects.length - 1) := by
  induction objects with
  | nil => rfl
  | cons item rest ih =>
      have hitem := object_length (h item List.mem_cons_self).1 (h item List.mem_cons_self).2
      have hrest := ih fun i hi => h i (List.mem_cons_of_mem _ hi)
      cases rest with
      | nil =>
          simp only [List.map_cons, List.map_nil, writeItems, hitem, List.sum_cons, List.sum_nil,
            List.length_cons, List.length_nil]
          omega
      | cons next rest =>
          simp only [List.map_cons, writeItems, List.length_append, List.length_cons,
            List.sum_cons, hitem] at hrest ⊢
          omega

/-- **How long a manifest is**, where every object stands under the key of its digest. -/
theorem encodeManifest_length {m : RecoveryManifest} (hdump : isSha256 m.dumpSha256 = true)
    (hidentity : isSha256 m.sourceDatabaseIdentity = true)
    (hobjects : ∀ item ∈ m.objects, isSha256 item.sha256 = true ∧
      item.storageKey = canonicalKey item.sha256)
    (htotal : m.totalBytes = (m.objects.map RecoveryObject.sizeBytes).sum) :
    (encodeManifest m).length =
      manifestLength (m.objects.map RecoveryObject.sizeBytes) m.dumpSizeBytes := by
  have hwritable := writable_sortKeys (writable_manifest m)
  rw [manifest_sortKeys] at hwritable
  have hnames : (writeString asciiEscape "canonical").length = 11 ∧
      (writeString asciiEscape "database").length = 10 ∧
      (writeString asciiEscape "schema").length = 8 ∧
      (writeString asciiEscape recoverySchema).length = 28 := by decide +kernel
  have hcanonical : (writeString asciiEscape "objects").length = 9 ∧
      (writeString asciiEscape "total_bytes").length = 13 := by decide +kernel
  have hdatabase : (writeString asciiEscape "format").length = 8 ∧
      (writeString asciiEscape "postgres-custom").length = 17 ∧
      (writeString asciiEscape "sha256").length = 8 ∧
      (writeString asciiEscape "size_bytes").length = 12 ∧
      (writeString asciiEscape "source_database_identity").length = 26 := by decide +kernel
  unfold encodeManifest atomicJson
  rw [manifest_sortKeys, utf8_length (ascii_append (ascii_write hwritable)
    (ascii_cons (by decide) ascii_nil))]
  unfold RecoveryManifest.written manifestLength
  simp only [write, writeMembers, List.length_cons, List.length_append, List.length_nil,
    writeInt_length, writeString_length (unescaped_sha256 hdump), isSha256_length hdump,
    writeString_length (unescaped_sha256 hidentity), isSha256_length hidentity, hnames, hcanonical,
    hdatabase, objects_length hobjects, htotal, List.length_map]
  omega

end Recovery

end NanoAural
