import NanoAural.Proof.SafeTensors

/-!
# A built bundle is validated

What `build_u8_safe_tensor_bundle` writes is read by the validator: the header is
loaded as the dictionary it was written from, and the one range covers the value.
The builder takes one name that the header has another use for, and then writes a
header without metadata.
-/

namespace NanoAural

open Relational JsonText

namespace SafeTensor

open JsonLoads

/-! ## The header as it is written -/

/-- The metadata in the order of its keys. -/
def sortedMetadata (codecVersion schemaVersion : String) : JsonValue :=
  .object [("codec_version", .string codecVersion), ("format", .string format),
    ("schema_version", .string schemaVersion)]

/-- The descriptor in the order of its fields. -/
def sortedDescriptor (length : Nat) : JsonValue :=
  .object [("data_offsets", .array [.int 0, .int length]), ("dtype", .string "U8"),
    ("shape", .array [.int length])]

theorem sortKeys_metadata (codecVersion schemaVersion : String) :
    (JsonValue.object ((metadata codecVersion schemaVersion).map fun m => (m.1, .string m.2))).sortKeys
      = sortedMetadata codecVersion schemaVersion := by
  simp only [metadata, List.map_cons, List.map_nil, JsonValue.sortKeys, sortMembers, sortedMetadata]
  refine congrArg JsonValue.object (orderBy_eq (.swap _ _ _) ?_)
  simp only [List.map_cons, List.map_nil]
  decide

theorem sortKeys_descriptor (length : Nat) :
    (u8Descriptor length).sortKeys = sortedDescriptor length := by
  simp only [u8Descriptor, JsonValue.sortKeys, sortMembers, sortedDescriptor]
  refine congrArg JsonValue.object (orderBy_eq ?_ ?_)
  · exact ((List.Perm.swap _ _ _).cons _).trans (.swap _ _ _)
  · simp only [List.map_cons, List.map_nil]
    decide

/-- The header under the name it uses itself: its metadata are lost. -/
theorem sortKeys_reserved {codecVersion schemaVersion name : String} {length : Nat}
    (hname : name = metadataKey) :
    (u8Header codecVersion schemaVersion name length).sortKeys
      = .object [(metadataKey, sortedDescriptor length)] := by
  rw [u8Header, if_pos hname, ← sortKeys_descriptor]
  rfl

/-- The members of the header, in one order or the other. -/
theorem sortKeys_header (codecVersion schemaVersion : String) {name : String} (length : Nat)
    (hname : name ≠ metadataKey) :
    (u8Header codecVersion schemaVersion name length).sortKeys
        = .object [(metadataKey, sortedMetadata codecVersion schemaVersion),
            (name, sortedDescriptor length)]
      ∨ (u8Header codecVersion schemaVersion name length).sortKeys
        = .object [(name, sortedDescriptor length),
            (metadataKey, sortedMetadata codecVersion schemaVersion)] := by
  rw [u8Header, if_neg hname]
  simp only [JsonValue.sortKeys, sortMembers]
  have hmetadata := sortKeys_metadata codecVersion schemaVersion
  simp only [JsonValue.sortKeys] at hmetadata
  rw [hmetadata, sortKeys_descriptor]
  simp only [orderBy, List.insertionSort_cons, List.insertionSort_nil, List.orderedInsert]
  split
  · exact Or.inl rfl
  · exact Or.inr rfl

/-! ## How it is loaded -/

/-- A length that an interpreter converts. -/
theorem within_length (py : Interpreter) {length : Nat} (h : length < 2 ^ 63) (depth : Nat) :
    Within py.limits depth (.int length) := by
  have hbound : ∀ limit ∈ py.limits.digits, 0 < limit ∧ (length : Int).natAbs < 10 ^ limit := by
    intro limit hmem
    have hmin := py.digits_min limit hmem
    refine ⟨by omega, ?_⟩
    rw [Int.natAbs_natCast]
    calc length < 2 ^ 63 := h
      _ ≤ 10 ^ 19 := by decide
      _ ≤ 10 ^ limit := Nat.pow_le_pow_right (by decide) (by omega)
  cases depth <;> exact hbound

/-- The levels of the header: of its objects, of a descriptor's arrays, and of a hook that is
called from inside two objects. -/
def Interpreter.headerLevels (py : Interpreter) : Nat := max 3 (2 + py.limits.hook)

theorem within_descriptor (py : Interpreter) {length : Nat} (h : length < 2 ^ 63) {depth : Nat}
    (hhook : py.limits.hook ≤ depth + 1) :
    Within py.limits (depth + 2) (sortedDescriptor length) := by
  have hzero : Within py.limits depth (.int 0) := @within_length py 0 (by decide) depth
  have hlength := within_length py h depth
  have htext : Within py.limits (depth + 1) (.string "U8") := by
    cases depth <;> trivial
  have hkeys : ([("data_offsets", .array [.int 0, .int length]), ("dtype", .string "U8"),
      ("shape", .array [.int length])] : List (String × JsonValue)).map Prod.fst
        = ["data_offsets", "dtype", "shape"] := rfl
  refine ⟨hhook, ?_, ⟨hzero, hlength, ?_⟩, htext, ⟨hlength, ?_⟩, ?_⟩
  · rw [hkeys]
    decide
  all_goals cases depth <;> trivial

theorem within_metadata (limits : Limits) (codecVersion schemaVersion : String) {depth : Nat}
    (hhook : limits.hook ≤ depth) :
    Within limits (depth + 1) (sortedMetadata codecVersion schemaVersion) := by
  have hkeys : ([("codec_version", .string codecVersion), ("format", .string format),
      ("schema_version", .string schemaVersion)] : List (String × JsonValue)).map Prod.fst
        = ["codec_version", "format", "schema_version"] := rfl
  have htext : ∀ s, Within limits depth (.string s) := fun s => by cases depth <;> trivial
  refine ⟨hhook, ?_, htext _, htext _, htext _, ?_⟩
  · rw [hkeys]
    decide
  · cases depth <;> trivial

/-- What is needed of a header's value to load it. -/
structure Loadable (py : Interpreter) (v : JsonValue) : Prop where
  writable : Writable v
  within : ∀ depth, py.headerLevels ≤ depth → Within py.limits depth v
  height : (embed v).height py.limits = py.headerLevels

/-- **The header is loaded as it was written**, by a decoder that has the levels for it. -/
theorem Loadable.load {py : Interpreter} {v : JsonValue} (h : Loadable py v) :
    loadHeader py (utf8 (write asciiEscape v))
      = if py.headerLevels ≤ py.depth then .ok (embed v) else .error .recursion := by
  have hleast := loads_write readable_asciiEscape h.writable (h.within _ (Nat.le_refl _))
  unfold loadHeader
  rw [readUtf8_utf8]
  dsimp only
  by_cases hdepth : py.headerLevels ≤ py.depth
  · rw [loads_write readable_asciiEscape h.writable (h.within _ hdepth), if_pos hdepth]
  · rcases loads_depth hleast py.depth with ⟨hle, -⟩ | hrecursion
    · rw [h.height] at hle
      exact absurd hle hdepth
    · rw [hrecursion, if_neg hdepth]

theorem loadable_header (py : Interpreter) (codecVersion schemaVersion name : String)
    {length : Nat} (h : length < 2 ^ 63) :
    Loadable py (u8Header codecVersion schemaVersion name length).sortKeys := by
  have hlevels : ∀ depth, py.headerLevels ≤ depth →
      ∃ more, depth = more + 3 ∧ py.limits.hook ≤ more + 1 := by
    intro depth hdepth
    have := Nat.max_le.mp hdepth
    exact ⟨depth - 3, by omega, by omega⟩
  have hdescriptor := @within_descriptor py length h
  have hmetadata := @within_metadata py.limits codecVersion schemaVersion
  have hend : ∀ depth, WithinMembers py.limits depth [] := fun depth => by cases depth <;> trivial
  by_cases hname : name = metadataKey
  · rw [sortKeys_reserved hname]
    refine ⟨⟨⟨⟨trivial, trivial, trivial⟩, trivial, ⟨trivial, trivial⟩, trivial⟩, trivial⟩,
      fun depth hdepth => ?_, ?_⟩
    · obtain ⟨more, rfl, hhook⟩ := hlevels depth hdepth
      exact ⟨by omega, by simp, hdescriptor hhook, hend _⟩
    · change max py.limits.hook (max (max py.limits.hook 1 + 1) 0) + 1 = max 3 (2 + py.limits.hook)
      omega
  · rcases sortKeys_header codecVersion schemaVersion length hname with hsort | hsort
    · rw [hsort]
      refine ⟨⟨⟨trivial, trivial, trivial, trivial⟩,
        ⟨⟨trivial, trivial, trivial⟩, trivial, ⟨trivial, trivial⟩, trivial⟩, trivial⟩,
        fun depth hdepth => ?_, ?_⟩
      · obtain ⟨more, rfl, hhook⟩ := hlevels depth hdepth
        refine ⟨by omega, ?_, hmetadata hhook, hdescriptor hhook, hend _⟩
        simpa using fun heq => hname heq.symm
      · change max py.limits.hook (max (max py.limits.hook 0 + 1)
          (max (max py.limits.hook 1 + 1) 0)) + 1 = max 3 (2 + py.limits.hook)
        omega
    · rw [hsort]
      refine ⟨⟨⟨⟨trivial, trivial, trivial⟩, trivial, ⟨trivial, trivial⟩, trivial⟩,
        ⟨trivial, trivial, trivial, trivial⟩, trivial⟩, fun depth hdepth => ?_, ?_⟩
      · obtain ⟨more, rfl, hhook⟩ := hlevels depth hdepth
        refine ⟨by omega, ?_, hdescriptor hhook, hmetadata hhook, hend _⟩
        simpa using hname
      · change max py.limits.hook (max (max py.limits.hook 1 + 1)
          (max (max py.limits.hook 0 + 1) 0)) + 1 = max 3 (2 + py.limits.hook)
        omega

/-! ## How long it is -/

theorem length_asciiEscape_le (c : Char) : (asciiEscape c).length ≤ 12 := by
  unfold asciiEscape
  split
  · simp
  · split
    · simp
    · split
      · simp [hex4]
      · simp [hex4]

theorem length_writeString_le (s : String) :
    (writeString asciiEscape s).length ≤ 12 * s.toList.length + 2 := by
  have hflat : ∀ cs : List Char, (cs.flatMap asciiEscape).length ≤ 12 * cs.length := by
    intro cs
    induction cs with
    | nil => simp
    | cons c rest ih =>
        have := length_asciiEscape_le c
        rw [List.flatMap_cons, List.length_append, List.length_cons]
        omega
  have := hflat s.toList
  rw [writeString, List.length_cons, List.length_append, List.length_singleton]
  omega

theorem length_writeInt_le {n : Nat} (h : n < 2 ^ 63) : (writeInt n).length ≤ 19 := by
  have hpos : ¬ (n : Int) < 0 := by omega
  have hlt : n < 10 ^ 19 := Nat.lt_of_lt_of_le h (by decide)
  rw [writeInt, if_neg hpos, Int.natAbs_natCast]
  exact (Nat.length_toDigits_le_iff (by decide) (by decide)).mpr hlt

theorem length_of_isShortIdentifier {s : String} (h : isShortIdentifier (codes s) = true) :
    s.toList.length ≤ 64 := by
  unfold isShortIdentifier at h
  simp only [Bool.and_eq_true, decide_eq_true_eq] at h
  have := h.1.1.2
  rwa [codes, List.length_map] at this

theorem length_descriptor_le {length : Nat} (h : length < 2 ^ 63) :
    (write asciiEscape (sortedDescriptor length)).length ≤ 1000 := by
  have hint := length_writeInt_le h
  have hzero : (writeInt 0).length ≤ 19 := length_writeInt_le (n := 0) (by decide)
  have hoffsets : (writeString asciiEscape "data_offsets").length ≤ 146 := length_writeString_le _
  have hdtype : (writeString asciiEscape "dtype").length ≤ 62 := length_writeString_le _
  have hshape : (writeString asciiEscape "shape").length ≤ 62 := length_writeString_le _
  have hu8 : (writeString asciiEscape "U8").length ≤ 26 := length_writeString_le _
  simp only [sortedDescriptor, write, writeMembers, writeItems, List.length_cons, List.length_append,
    List.length_nil]
  omega

theorem length_metadata_le {codecVersion schemaVersion : String}
    (hcodec : codecVersion.toList.length ≤ 64) (hschema : schemaVersion.toList.length ≤ 64) :
    (write asciiEscape (sortedMetadata codecVersion schemaVersion)).length ≤ 3000 := by
  have hkey : (writeString asciiEscape "codec_version").length ≤ 158 := length_writeString_le _
  have hkey' : (writeString asciiEscape "format").length ≤ 74 := length_writeString_le _
  have hkey'' : (writeString asciiEscape "schema_version").length ≤ 170 := length_writeString_le _
  have hvalue : (writeString asciiEscape format).length ≤ 398 := length_writeString_le _
  have hcodec' := length_writeString_le codecVersion
  have hschema' := length_writeString_le schemaVersion
  simp only [sortedMetadata, write, writeMembers, List.length_cons, List.length_append,
    List.length_nil]
  omega

/-! ## How it is validated -/

/-- What the validator finds of a header's members. -/
structure Found (codecVersion schemaVersion name : String) (length : Nat)
    (members : List (List Nat × Loaded)) : Prop where
  metadata : members.lookup (codes metadataKey)
    = some (embed (sortedMetadata codecVersion schemaVersion))
  tensors : (members.filter fun m => m.1 != codes metadataKey)
    = [(codes name, embed (sortedDescriptor length))]

theorem found_header (codecVersion schemaVersion : String) {name : String} (length : Nat)
    (hname : name ≠ metadataKey) :
    ∃ members, embed (u8Header codecVersion schemaVersion name length).sortKeys = .object members
      ∧ Found codecVersion schemaVersion name length members := by
  have hne : codes name ≠ codes metadataKey := fun h => hname (codes_inj h)
  have hkeep : (codes name != codes metadataKey) = true := bne_iff_ne.mpr hne
  have hdrop : (codes metadataKey != codes metadataKey) = false := by simp
  rcases sortKeys_header codecVersion schemaVersion length hname with hsort | hsort
  · rw [hsort]
    refine ⟨_, rfl, ⟨?_, ?_⟩⟩
    · exact List.lookup_cons_self
    · simp only [embedMembers, List.filter_cons, List.filter_nil, hkeep, hdrop, ↓reduceIte,
        Bool.false_eq_true]
  · rw [hsort]
    refine ⟨_, rfl, ⟨?_, ?_⟩⟩
    · simp only [embedMembers]
      rw [List.lookup_cons, beq_eq_false_iff_ne.mpr hne.symm]
      exact List.lookup_cons_self
    · simp only [embedMembers, List.filter_cons, List.filter_nil, hkeep, hdrop, ↓reduceIte,
        Bool.false_eq_true]

/-- The metadata is that of its own identifiers and of no others. -/
theorem isExpectedMetadata_iff (codecVersion schemaVersion codecVersion' schemaVersion' : String) :
    isExpectedMetadata codecVersion' schemaVersion'
        (some (embed (sortedMetadata codecVersion schemaVersion))) = true
      ↔ codecVersion = codecVersion' ∧ schemaVersion = schemaVersion' := by
  have hformat : (codes "format" == codes "codec_version") = false := by decide
  have hschema : (codes "schema_version" == codes "codec_version") = false := by decide
  have hschema' : (codes "schema_version" == codes "format") = false := by decide
  have hcodes : ∀ s t, (codes s == codes t) = true ↔ s = t := fun s t =>
    ⟨fun h => codes_inj (beq_iff_eq.mp h), fun h => by rw [h, beq_self_eq_true]⟩
  simp only [isExpectedMetadata, metadata, sortedMetadata, embed, embedMembers, List.length_cons,
    List.length_nil, List.all_cons, List.all_nil, List.lookup_cons, hformat, hschema, hschema',
    beq_self_eq_true, Bool.and_true, Bool.true_and, Bool.and_eq_true, hcodes]

/-- The descriptor is accepted, as the only tensor over data of its length. -/
theorem readDescriptor_u8 {name : String} {length : Nat}
    (hname : isShortIdentifier (codes name) = true) (hpos : 0 < length) :
    readDescriptor length (codes name, embed (sortedDescriptor length))
      = .ok ⟨name, "U8", [length], 0, length⟩ := by
  have htext : String.ofList ((codes name).map Char.ofNat) = name := by
    have := codes_nameText hname
    exact codes_inj this
  have hdtype : (codes "dtype" == codes "data_offsets") = false := by decide
  have hshape : (codes "shape" == codes "data_offsets") = false := by decide
  have hshape' : (codes "shape" == codes "dtype") = false := by decide
  have hfields : ([codes "data_offsets", codes "dtype", codes "shape"].all descriptorFields.contains
      && descriptorFields.all [codes "data_offsets", codes "dtype", codes "shape"].contains) = true := by
    decide
  have hu8 : dtypeOf (some (.string (codes "U8"))) = some ("U8", 1) := by decide
  have hextent : readExtent (some (.array [.int length])) (some (.array [.int 0, .int length]))
      = some ([length], 0, (length : Int)) := by
    simp [readExtent, intOf?]
    omega
  have hsize : expectedBytes length 1 [length] = .ok length := by
    simp [expectedBytes]
  have hrange : (decide ((0 : Int) < 0) || decide ((length : Int) ≤ 0)
      || decide ((length : Int) < length) || (length : Int) - 0 != length) = false := by
    simp
    omega
  simp only [readDescriptor, except_bind_ok, raiseIf_ok, tensorName, hname, exists_const, sortedDescriptor,
    embed, embedMembers, embedItems]
  simp only [List.map_cons, List.map_nil, hfields, List.lookup_cons, hdtype, hshape,
    hshape', beq_self_eq_true, hu8, hextent, hsize, except_bind_ok, raiseIf_ok]
  refine ⟨rfl, rfl, length, rfl, (), hrange, ?_⟩
  rw [htext]
  rfl

/-- The outcome for a header that was found: it depends on the identifiers alone. -/
theorem validate_found {py : Interpreter} {payload headerBytes value : List UInt8}
    {codecVersion schemaVersion codecVersion' schemaVersion' name : String}
    {maxSizeBytes : Option Int} {members : List (List Nat × Loaded)}
    (hsplit : splitPayload payload codecVersion' schemaVersion' maxSizeBytes
      = .ok (headerBytes, value))
    (hload : loadHeader py headerBytes = .ok (.object members))
    (hfound : Found codecVersion schemaVersion name value.length members)
    (hname : isShortIdentifier (codes name) = true) (hvalue : value ≠ []) :
    validateSafeTensorBundle py payload codecVersion' schemaVersion' maxSizeBytes
      = if codecVersion = codecVersion' ∧ schemaVersion = schemaVersion' then
          .ok ⟨codecVersion', schemaVersion', [⟨name, "U8", [value.length], 0, value.length⟩], value⟩
        else .error (.value "safe tensor metadata does not match the sealed codec") := by
  have hmembers : members.isEmpty = false := by
    cases members with
    | nil => cases hfound.metadata
    | cons m rest => rfl
  have hread : [(codes name, embed (sortedDescriptor value.length))].mapM
      (readDescriptor value.length)
        = .ok [⟨name, "U8", [value.length], 0, value.length⟩] := by
    rw [List.mapM_cons, readDescriptor_u8 hname (List.length_pos_iff.mpr hvalue)]
    rfl
  have hcover : cover 0 (sortRanges [(0, value.length)]) = some value.length := by
    simp [sortRanges, cover]
  have hdecide := isExpectedMetadata_iff codecVersion schemaVersion codecVersion' schemaVersion'
  unfold validateSafeTensorBundle
  rw [hsplit]
  change (loadHeader py headerBytes >>= _) = _
  rw [hload]
  change (raiseIf members.isEmpty _ >>= _) = _
  rw [hmembers, hfound.metadata, hfound.tensors]
  by_cases hsame : codecVersion = codecVersion' ∧ schemaVersion = schemaVersion'
  · rw [if_pos hsame, hdecide.mpr hsame]
    change ([(codes name, embed (sortedDescriptor value.length))].mapM
      (readDescriptor value.length) >>= _) = _
    rw [hread]
    change (raiseIf (cover 0 (sortRanges [(0, value.length)]) != some value.length) _ >>= _) = _
    rw [hcover, bne_self_eq_false]
    rfl
  · rw [if_neg hsame, Bool.eq_false_iff.mpr fun h => hsame (hdecide.mp h)]
    rfl

/-- What is written for one tensor. -/
def u8Payload (value : List UInt8) (codecVersion schemaVersion name : String) : List UInt8 :=
  let headerBytes := utf8 (write asciiEscape
    (u8Header codecVersion schemaVersion name value.length).sortKeys)
  pack headerBytes.length ++ headerBytes ++ value

/-- What the builder accepts and writes. -/
theorem buildU8SafeTensorBundle_ok {value payload : List UInt8}
    {codecVersion schemaVersion name : String} :
    buildU8SafeTensorBundle value codecVersion schemaVersion name = .ok payload ↔
      value ≠ [] ∧ isShortIdentifier (codes codecVersion) = true
        ∧ isShortIdentifier (codes schemaVersion) = true ∧ isShortIdentifier (codes name) = true
        ∧ payload = u8Payload value codecVersion schemaVersion name := by
  have hempty : value.isEmpty = false ↔ value ≠ [] := by
    cases value <;> simp
  simp only [buildU8SafeTensorBundle, except_bind_ok, raiseIf_ok, exists_const, safeIdentifier,
    tensorName, Bool.not_eq_false', hempty]
  constructor
  · intro h
    obtain ⟨h₁, h₂, h₃, h₄, h⟩ := h
    exact ⟨h₁, h₂, h₃, h₄, (Except.ok.inj h).symm⟩
  · intro h
    obtain ⟨h₁, h₂, h₃, h₄, h⟩ := h
    exact ⟨h₁, h₂, h₃, h₄, congrArg Except.ok h.symm⟩

/-- The header starts with an object, and is short. -/
theorem header_head (codecVersion schemaVersion name : String) (length : Nat) :
    (utf8 (write asciiEscape (u8Header codecVersion schemaVersion name length).sortKeys)).head?
      = some 0x7b := by
  have hobject : ∃ members, (u8Header codecVersion schemaVersion name length).sortKeys
      = .object members := by
    unfold u8Header
    split
    · exact ⟨_, rfl⟩
    · exact ⟨_, rfl⟩
  obtain ⟨members, hmembers⟩ := hobject
  rw [hmembers]
  rfl

theorem length_header_le (py : Interpreter) {codecVersion schemaVersion name : String} {length : Nat}
    (hcodec : isShortIdentifier (codes codecVersion) = true)
    (hschema : isShortIdentifier (codes schemaVersion) = true)
    (hname : isShortIdentifier (codes name) = true) (h : length < 2 ^ 63) :
    (utf8 (write asciiEscape
      (u8Header codecVersion schemaVersion name length).sortKeys)).length ≤ maxHeaderBytes := by
  have hmetadata := length_metadata_le (length_of_isShortIdentifier hcodec)
    (length_of_isShortIdentifier hschema)
  have hdescriptor := length_descriptor_le h
  have hlimit : maxHeaderBytes = 65536 := rfl
  have hkey : (writeString asciiEscape metadataKey).length ≤ 146 := length_writeString_le _
  have hkey' := length_writeString_le name
  have hshort := length_of_isShortIdentifier hname
  rw [utf8_length (ascii_write (loadable_header py _ _ _ h).writable)]
  by_cases hreserved : name = metadataKey
  · rw [sortKeys_reserved hreserved]
    simp only [write, writeMembers, List.length_cons, List.length_append, List.length_nil]
    omega
  · rcases sortKeys_header codecVersion schemaVersion length hreserved with hsort | hsort
    · rw [hsort]
      simp only [write, writeMembers, List.length_cons, List.length_append, List.length_nil] at *
      omega
    · rw [hsort]
      simp only [write, writeMembers, List.length_cons, List.length_append, List.length_nil] at *
      omega

/-- A header that is too deep is not accepted. -/
theorem recursion_not_ok {py : Interpreter} {payload headerBytes value : List UInt8}
    {codecVersion schemaVersion : String} {maxSizeBytes : Option Int} {bundle : SafeTensorBundle}
    (hsplit : splitPayload payload codecVersion schemaVersion maxSizeBytes = .ok (headerBytes, value))
    (hload : loadHeader py headerBytes = .error .recursion) :
    validateSafeTensorBundle py payload codecVersion schemaVersion maxSizeBytes ≠ .ok bundle := by
  obtain ⟨text, htext, hdeep⟩ := loadHeader_recursion.mp hload
  rw [validate_recursion_iff.mpr ⟨_, _, text, hsplit, htext, hdeep⟩]
  exact fun h => by cases h

/-- A header without metadata is refused, whatever the identifiers. -/
theorem validate_reserved {py : Interpreter} {payload headerBytes value : List UInt8}
    {codecVersion schemaVersion : String} {maxSizeBytes : Option Int} {length : Nat}
    {members : List (List Nat × Loaded)}
    (hsplit : splitPayload payload codecVersion schemaVersion maxSizeBytes = .ok (headerBytes, value))
    (hload : loadHeader py headerBytes = .ok (.object members))
    (hlookup : members.lookup (codes metadataKey) = some (embed (sortedDescriptor length))) :
    validateSafeTensorBundle py payload codecVersion schemaVersion maxSizeBytes
      = .error (.value "safe tensor metadata does not match the sealed codec") := by
  have hmembers : members.isEmpty = false := by
    cases members with
    | nil => cases hlookup
    | cons m rest => rfl
  have hformat : ([(codes "data_offsets", embed (.array [.int 0, .int length])),
      (codes "dtype", embed (.string "U8")), (codes "shape", embed (.array [.int length]))]
        : List (List Nat × Loaded)).lookup (codes "format") = none := by
    have h : (codes "format" == codes "data_offsets") = false := by decide
    have h' : (codes "format" == codes "dtype") = false := by decide
    have h'' : (codes "format" == codes "shape") = false := by decide
    simp only [List.lookup_cons, h, h', h'', List.lookup_nil]
  have hmetadata : isExpectedMetadata codecVersion schemaVersion
      (some (embed (sortedDescriptor length))) = false := by
    simp only [isExpectedMetadata, sortedDescriptor, embed, embedMembers, metadata, List.all_cons]
    simp only [embed] at hformat
    rw [hformat]
    simp
  unfold validateSafeTensorBundle
  rw [hsplit]
  change (loadHeader py headerBytes >>= _) = _
  rw [hload]
  change (raiseIf members.isEmpty _ >>= _) = _
  rw [hmembers, hlookup, hmetadata]
  rfl

/-- A built payload passes the checks before its header is decoded. -/
theorem splitPayload_u8Payload (py : Interpreter) {value : List UInt8}
    {codecVersion schemaVersion name : String} {maxSizeBytes : Option Int}
    (hvalue : value ≠ []) (hcodec : isShortIdentifier (codes codecVersion) = true)
    (hschema : isShortIdentifier (codes schemaVersion) = true)
    (hname : isShortIdentifier (codes name) = true) (hlength : value.length < 2 ^ 63)
    (hlimit : ∀ limit ∈ maxSizeBytes,
      ((u8Payload value codecVersion schemaVersion name).length : Int) ≤ limit) :
    splitPayload (u8Payload value codecVersion schemaVersion name) codecVersion schemaVersion
        maxSizeBytes
      = .ok (utf8 (write asciiEscape
          (u8Header codecVersion schemaVersion name value.length).sortKeys), value) :=
  splitPayload_pack hcodec hschema hvalue (header_head _ _ _ _)
    (length_header_le py hcodec hschema hname hlength) hlimit

/-- Under the reserved name nothing that is built is accepted. -/
theorem reserved_not_ok (py : Interpreter) {value payload : List UInt8}
    {codecVersion schemaVersion : String} (hlength : value.length < 2 ^ 63)
    (hbuild : buildU8SafeTensorBundle value codecVersion schemaVersion metadataKey = .ok payload)
    (bundle : SafeTensorBundle) :
    validateSafeTensorBundle py payload codecVersion schemaVersion none ≠ .ok bundle := by
  obtain ⟨hvalue, hcodec, hschema, hname, rfl⟩ := buildU8SafeTensorBundle_ok.mp hbuild
  have hsplit := @splitPayload_u8Payload py _ _ _ _ none hvalue hcodec hschema hname hlength
    fun _ h => (by cases h)
  have hload := (loadable_header py codecVersion schemaVersion metadataKey hlength).load
  by_cases hdepth : py.headerLevels ≤ py.depth
  · rw [if_pos hdepth, sortKeys_reserved rfl] at hload
    rw [sortKeys_reserved rfl] at hsplit
    rw [validate_reserved hsplit hload List.lookup_cons_self]
    exact fun h => by cases h
  · rw [if_neg hdepth] at hload
    exact recursion_not_ok hsplit hload

/-- **Building and validating are inverse**, exactly for the names that the header does not use
itself: the built payload is accepted under its identifiers with the value under its name, and
refused under all others. The decoder has to have the header's levels left. -/
theorem u8_bundle_inverse_iff (py : Interpreter) (value payload : List UInt8)
    (codecVersion schemaVersion name : String) (hlength : value.length < 2 ^ 63)
    (hbuild : buildU8SafeTensorBundle value codecVersion schemaVersion name = .ok payload) :
    ((∀ maxSizeBytes : Option Int, (∀ limit ∈ maxSizeBytes, (payload.length : Int) ≤ limit) →
        ∃ bundle, validateSafeTensorBundle py payload codecVersion schemaVersion maxSizeBytes
            = .ok bundle
          ∧ bundle.tensorBytes name = .ok value)
      ∧ ∀ maxSizeBytes codecVersion' schemaVersion',
        ¬ (codecVersion = codecVersion' ∧ schemaVersion = schemaVersion') →
        ∃ message, validateSafeTensorBundle py payload codecVersion' schemaVersion' maxSizeBytes
          = .error (.value message))
    ↔ name ≠ "__metadata__" ∧ py.headerLevels ≤ py.depth := by
  by_cases hreserved : name = metadataKey
  · subst hreserved
    refine ⟨fun hboth => ?_, fun hsmall => absurd rfl hsmall.1⟩
    obtain ⟨bundle, hbundle, -⟩ := hboth.1 none fun _ h => (by cases h)
    exact absurd hbundle (reserved_not_ok py hlength hbuild bundle)
  · obtain ⟨hvalue, hcodec, hschema, hname, rfl⟩ := buildU8SafeTensorBundle_ok.mp hbuild
    have hsplit : ∀ maxSizeBytes : Option Int, (∀ limit ∈ maxSizeBytes,
        ((u8Payload value codecVersion schemaVersion name).length : Int) ≤ limit) → _ := fun _ =>
      splitPayload_u8Payload py hvalue hcodec hschema hname hlength
    have hload := (loadable_header py codecVersion schemaVersion name hlength).load
    by_cases hdepth : py.headerLevels ≤ py.depth
    · rw [if_pos hdepth] at hload
      obtain ⟨members, hmembers, hfound⟩ := found_header codecVersion schemaVersion value.length
        hreserved
      rw [hmembers] at hload
      refine ⟨fun _ => ⟨hreserved, hdepth⟩, fun _ => ⟨fun maxSizeBytes hlimit => ?_,
        fun maxSizeBytes codecVersion' schemaVersion' hother => ?_⟩⟩
      · refine ⟨_, (validate_found (hsplit _ hlimit) hload hfound hname hvalue).trans
          (if_pos ⟨rfl, rfl⟩), ?_⟩
        simp [SafeTensorBundle.tensorBytes, slice]
      · cases hsplit' : splitPayload (u8Payload value codecVersion schemaVersion name)
            codecVersion' schemaVersion' maxSizeBytes with
        | error e =>
            obtain ⟨message, rfl⟩ := tame_splitPayload (u8Payload value codecVersion schemaVersion name)
              codecVersion' schemaVersion' maxSizeBytes e hsplit'
            exact ⟨message, by rw [validateSafeTensorBundle, hsplit']; rfl⟩
        | ok r =>
            -- the same header and the same data are found under any identifiers
            obtain ⟨headerBytes, data⟩ := r
            obtain ⟨-, hheader, hdata⟩ := splitPayload_ok (hsplit none fun _ h => (by cases h))
            obtain ⟨-, hheader', hdata'⟩ := splitPayload_ok hsplit'
            rw [hheader'.trans hheader.symm, hdata'.trans hdata.symm] at hsplit'
            exact ⟨_, (validate_found hsplit' hload hfound hname hvalue).trans (if_neg hother)⟩
    · rw [if_neg hdepth] at hload
      refine ⟨fun hboth => ?_, fun hsmall => absurd hsmall.2 hdepth⟩
      obtain ⟨bundle, hbundle, -⟩ := hboth.1 none fun _ h => (by cases h)
      exact absurd hbundle (recursion_not_ok (hsplit none fun _ h => (by cases h)) hload)

/-- The sample of the tests is built, so it is accepted and refused as it should be. -/
theorem u8_bundle_inverse_condition :
    ((∀ maxSizeBytes : Option Int, (∀ limit ∈ maxSizeBytes,
        ((u8Payload [7, 8] "codec-v1" "schema-v1" "condition").length : Int) ≤ limit) →
        ∃ bundle, validateSafeTensorBundle standard
            (u8Payload [7, 8] "codec-v1" "schema-v1" "condition") "codec-v1" "schema-v1" maxSizeBytes
            = .ok bundle
          ∧ bundle.tensorBytes "condition" = .ok [7, 8])
      ∧ ∀ maxSizeBytes codecVersion' schemaVersion',
        ¬ ("codec-v1" = codecVersion' ∧ "schema-v1" = schemaVersion') →
        ∃ message, validateSafeTensorBundle standard
          (u8Payload [7, 8] "codec-v1" "schema-v1" "condition") codecVersion' schemaVersion'
          maxSizeBytes = .error (.value message)) :=
  (u8_bundle_inverse_iff standard [7, 8] _ "codec-v1" "schema-v1" "condition" (by decide)
    (buildU8SafeTensorBundle_ok.mpr
      ⟨by simp, by decide, by decide, by decide, rfl⟩)).mpr ⟨by decide, by decide⟩

/-- A tensor of the name `__metadata__` is built and never accepted. -/
theorem reserved_name_refused :
    ∃ payload, buildU8SafeTensorBundle [0] "codec-v1" "schema-v1" "__metadata__" = .ok payload
      ∧ ∀ bundle, validateSafeTensorBundle standard payload "codec-v1" "schema-v1" none
          ≠ .ok bundle := by
  have hbuild : buildU8SafeTensorBundle [0] "codec-v1" "schema-v1" metadataKey
      = .ok (u8Payload [0] "codec-v1" "schema-v1" metadataKey) :=
    buildU8SafeTensorBundle_ok.mpr ⟨by simp, by decide, by decide, by decide, rfl⟩
  exact ⟨_, hbuild, reserved_not_ok standard (by decide) hbuild⟩

end SafeTensor

end NanoAural
