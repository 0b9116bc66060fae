import NanoAural.Proof.RecoverySteps

/-!
# What validation accepts

The checks of a manifest, an object root and a whole recovery set, each as what it
amounts to; and the object root a copy loop makes, which passes them where its
source does. Nothing here takes a step.
-/

namespace NanoAural

open Relational

namespace Recovery

/-! ## Names -/

/-- What comes before the digest in its key. -/
def keyStem (digest : String) : String :=
  "blobs/sha256/" ++ String.ofList (digest.toList.take 2) ++ "/"
    ++ String.ofList ((digest.toList.drop 2).take 2) ++ "/"

theorem canonicalKey_toList (digest : String) :
    (canonicalKey digest).toList = (keyStem digest).toList ++ digest.toList :=
  String.toList_append ..

theorem isSha256_length {digest : String} (h : isSha256 digest = true) :
    digest.toList.length = 64 := by
  unfold isSha256 at h
  rw [Bool.and_eq_true, beq_iff_eq] at h
  exact h.1

theorem keyStem_length {digest : String} (h : isSha256 digest = true) :
    (keyStem digest).toList.length = 19 := by
  have hlength := isSha256_length h
  have hroot : "blobs/sha256/".toList.length = 13 := by decide
  have hslash : "/".toList.length = 1 := by decide
  unfold keyStem
  simp only [String.toList_append, List.length_append, String.toList_ofList, List.length_take,
    List.length_drop]
  omega

theorem baseName_canonicalKey {digest : String} (h : isSha256 digest = true) :
    baseName (canonicalKey digest) = digest := by
  have hslash : ∀ c ∈ digest.toList.reverse, (c != '/') = true := by
    intro c hc
    unfold isSha256 at h
    rw [Bool.and_eq_true, List.all_eq_true] at h
    refine bne_iff_ne.mpr fun heq => ?_
    have := h.2 c (List.mem_reverse.mp hc)
    rw [heq] at this
    exact absurd this (by decide)
  have hends : (keyStem digest).toList.reverse.takeWhile (· != '/') = [] := by
    unfold keyStem
    rw [String.toList_append, List.reverse_append]
    exact List.takeWhile_cons_of_neg (by decide)
  unfold baseName
  rw [canonicalKey_toList, List.reverse_append, List.takeWhile_append_of_pos hslash, hends,
    List.append_nil, List.reverse_reverse, String.ofList_toList]

theorem isCanonicalPath_canonicalKey {digest : String} (h : isSha256 digest = true) :
    isCanonicalPath (canonicalKey digest) = true := by
  unfold isCanonicalPath
  rw [baseName_canonicalKey h, h, beq_self_eq_true]
  rfl

/-! ## Object roots -/

theorem lookup_of_nodup {entries : List (String × List UInt8)}
    (hnodup : (entries.map Prod.fst).Nodup) {e : String × List UInt8} (he : e ∈ entries) :
    entries.lookup e.1 = some e.2 := by
  induction entries with
  | nil => cases he
  | cons x xs ih =>
      rw [List.map_cons, List.nodup_cons] at hnodup
      rcases List.mem_cons.mp he with rfl | hmem
      · exact List.lookup_cons_self
      · have hne : e.1 ≠ x.1 := fun heq => hnodup.1 (heq ▸ List.mem_map_of_mem hmem)
        rw [show x = (x.1, x.2) from rfl, List.lookup_cons, beq_false_of_ne hne]
        exact ih hnodup.2 hmem

theorem read_none_iff {t : ObjectTree} {path : String} :
    t.read path = none ↔ path ∉ t.files.map Prod.fst := by
  unfold ObjectTree.read
  rw [List.lookup_eq_none_iff, List.mem_map, not_exists]
  refine forall_congr' fun f => ?_
  rw [not_and, bne_iff_ne]
  exact ⟨fun h hf heq => h hf heq.symm, fun h hf heq => h hf heq.symm⟩

theorem isSome_read_iff {t : ObjectTree} {path : String} :
    (t.read path).isSome = true ↔ path ∈ t.files.map Prod.fst := by
  rw [← not_iff_not, ← read_none_iff, Bool.not_eq_true, Option.isSome_eq_false_iff,
    Option.isNone_iff_eq_none]

theorem canonicalKeys_ok {limits : RecoveryLimits} {t : ObjectTree} {keys : List String} :
    canonicalKeys limits t = .ok keys ↔
      (∀ f ∈ t.files, isCanonicalPath f.1 = true) ∧ t.files.length ≤ limits.maxObjects ∧
        (∀ d, d ∈ t.dirs ↔ d ∈ t.expectedDirectories) ∧
        keys = orderBy id (t.files.map Prod.fst) := by
  have hdirs : ((t.dirs.all (t.expectedDirectories.contains ·)
      && t.expectedDirectories.all (t.dirs.contains ·)) = true) ↔
      ∀ d, d ∈ t.dirs ↔ d ∈ t.expectedDirectories := by
    rw [Bool.and_eq_true, List.all_eq_true, List.all_eq_true]
    simp only [List.contains_iff_mem]
    exact ⟨fun ⟨h₁, h₂⟩ d => ⟨h₁ d, h₂ d⟩, fun h => ⟨fun d => (h d).mp, fun d => (h d).mpr⟩⟩
  unfold canonicalKeys
  simp only [demand_bind_ok, List.all_eq_true, decide_eq_true_eq, hdirs, Except.ok.injEq,
    eq_comm (a := keys)]

theorem intact_iff {sha256 : List UInt8 → String} {t : ObjectTree} {objects : List RecoveryObject} :
    intact sha256 t objects = true ↔ ∀ item ∈ objects, ∃ content,
      t.read item.storageKey = some content ∧ sha256 content = item.sha256 ∧
        content.length = item.sizeBytes := by
  unfold intact
  rw [List.all_eq_true]
  refine forall_congr' fun item => imp_congr_right fun _ => ?_
  cases t.read item.storageKey with
  | none => simp
  | some content => simp

/-- The object root holds the objects, each with its digest and size, and nothing else. -/
structure ObjectTree.Holds (sha256 : List UInt8 → String) (objects : List RecoveryObject)
    (t : ObjectTree) : Prop where
  paths : (t.files.map Prod.fst).Perm (objects.map RecoveryObject.storageKey)
  directories : ∀ d, d ∈ t.dirs ↔
    ∃ item ∈ objects, d ∈ canonicalDirectories (baseName item.storageKey)
  contents : ∀ item ∈ objects, ∃ content, t.read item.storageKey = some content ∧
    sha256 content = item.sha256 ∧ content.length = item.sizeBytes

theorem validateObjects_ok {env : RecoveryEnv} {t : ObjectTree} {objects : List RecoveryObject} :
    validateObjects env t objects = .ok () ↔
      canonicalKeys env.limits t = .ok (objects.map RecoveryObject.storageKey) ∧
        intact env.sha256 t objects = true := by
  unfold validateObjects
  rw [except_bind_ok]
  constructor
  · rintro ⟨keys, hkeys, hrest⟩
    obtain ⟨heq, hintact⟩ := demand_bind_ok.mp hrest
    rw [beq_iff_eq] at heq
    exact ⟨heq ▸ hkeys, demand_ok.mp hintact⟩
  · rintro ⟨hkeys, hintact⟩
    exact ⟨_, hkeys, demand_bind_ok.mpr ⟨beq_self_eq_true _, demand_ok.mpr hintact⟩⟩

/-- What `_validate_canonical_root` accepts holds exactly the objects. -/
theorem holds_of_validateObjects {env : RecoveryEnv} {t : ObjectTree}
    {objects : List RecoveryObject} (h : validateObjects env t objects = .ok ()) :
    t.Holds env.sha256 objects := by
  obtain ⟨hkeys, hintact⟩ := validateObjects_ok.mp h
  obtain ⟨_, _, hdirs, hsorted⟩ := canonicalKeys_ok.mp hkeys
  have hpaths : (t.files.map Prod.fst).Perm (objects.map RecoveryObject.storageKey) :=
    hsorted ▸ (orderBy_perm id _).symm
  refine ⟨hpaths, fun d => ?_, intact_iff.mp hintact⟩
  have hmem : ∀ path, path ∈ t.files.map Prod.fst ↔
      path ∈ objects.map RecoveryObject.storageKey := fun path => hpaths.mem_iff
  rw [hdirs d]
  unfold ObjectTree.expectedDirectories
  rw [List.mem_flatMap]
  constructor
  · rintro ⟨f, hf, hd⟩
    obtain ⟨item, hitem, heq⟩ := List.mem_map.mp ((hmem f.1).mp (List.mem_map_of_mem hf))
    exact ⟨item, hitem, heq ▸ hd⟩
  · rintro ⟨item, hitem, hd⟩
    obtain ⟨f, hf, heq⟩ := List.mem_map.mp ((hmem _).mpr (List.mem_map_of_mem hitem))
    exact ⟨f, hf, heq ▸ hd⟩

/-! ## Copies -/

/-- The object root after the files were copied to it one by one. -/
def ObjectTree.copies (t : ObjectTree) (entries : List (String × List UInt8)) : ObjectTree :=
  entries.foldl (fun t e => ObjectTree.copied t e.1 e.2) t

theorem copies_files (entries : List (String × List UInt8)) :
    ∀ t : ObjectTree, (t.copies entries).files = t.files ++ entries := by
  induction entries with
  | nil => exact fun t => (List.append_nil _).symm
  | cons e es ih =>
      intro t
      change ((ObjectTree.copied t e.1 e.2).copies es).files = _
      rw [ih]
      exact List.append_assoc _ _ _

theorem mem_copied_dirs {t : ObjectTree} {path d : String} {content : List UInt8} :
    d ∈ (ObjectTree.copied t path content).dirs ↔
      d ∈ t.dirs ∨ d ∈ canonicalDirectories (baseName path) := by
  unfold ObjectTree.copied ObjectTree.missing
  rw [List.mem_append, List.mem_filter, Bool.not_eq_true', ← Bool.not_eq_true, List.contains_iff_mem]
  by_cases hd : d ∈ t.dirs
  · exact ⟨fun _ => .inl hd, fun _ => .inl hd⟩
  · exact or_congr_right ⟨fun h => h.1, fun h => ⟨h, hd⟩⟩

theorem mem_copies_dirs {d : String} (entries : List (String × List UInt8)) :
    ∀ t : ObjectTree, d ∈ (t.copies entries).dirs ↔
      d ∈ t.dirs ∨ d ∈ entries.flatMap fun e => canonicalDirectories (baseName e.1) := by
  induction entries with
  | nil => exact fun t => ⟨.inl, fun h => h.elim id fun h => (by cases h)⟩
  | cons e es ih =>
      intro t
      change d ∈ ((ObjectTree.copied t e.1 e.2).copies es).dirs ↔ _
      rw [ih, mem_copied_dirs, List.flatMap_cons, List.mem_append, or_assoc]

theorem read_copied_none {t : ObjectTree} {path q : String} {content : List UInt8}
    (hread : t.read q = none) (hne : q ≠ path) :
    (ObjectTree.copied t path content).read q = none := by
  unfold ObjectTree.read ObjectTree.copied at *
  rw [List.lookup_append, hread, List.lookup_cons, beq_false_of_ne hne]
  rfl

/-- Copies of canonical files in order are a canonical object root. -/
theorem canonicalKeys_copies {limits : RecoveryLimits} {entries : List (String × List UInt8)}
    (hcanonical : ∀ e ∈ entries, isCanonicalPath e.1 = true)
    (hlength : entries.length ≤ limits.maxObjects)
    (hsorted : entries.map Prod.fst = orderBy id (entries.map Prod.fst)) :
    canonicalKeys limits (ObjectTree.copies ⟨[], []⟩ entries) = .ok (entries.map Prod.fst) := by
  have hfiles : (ObjectTree.copies ⟨[], []⟩ entries).files = entries := copies_files entries _
  refine canonicalKeys_ok.mpr ⟨by rwa [hfiles], by rwa [hfiles], fun d => ?_, by rwa [hfiles]⟩
  unfold ObjectTree.expectedDirectories
  rw [mem_copies_dirs, hfiles]
  exact ⟨fun h => h.elim (fun h => (by cases h)) id, .inr⟩

theorem orderBy_idem (keys : List String) :
    orderBy id (orderBy id keys) = orderBy id keys :=
  (orderBy_pairwise id keys).insertionSort_eq

/-! ## Manifests -/

/-- What `_read_manifest` accepts. -/
structure RecoveryManifest.Accepted (env : RecoveryEnv) (m : RecoveryManifest) : Prop where
  fits : (env.manifestBytes m).length ≤ maxManifestBytes
  dump_format : isSha256 m.dumpSha256 = true
  dump_pos : 1 ≤ m.dumpSizeBytes
  dump_bound : m.dumpSizeBytes ≤ env.limits.maxDatabaseDumpBytes
  identity_format : isSha256 m.sourceDatabaseIdentity = true
  count : m.objects.length ≤ env.limits.maxObjects
  keys : ∀ item ∈ m.objects, isSha256 item.sha256 = true ∧ item.storageKey = canonicalKey item.sha256
  single : ∀ item ∈ m.objects, item.sizeBytes ≤ env.limits.maxSingleBlobBytes
  distinct : (m.objects.map RecoveryObject.storageKey).Nodup
  total : m.totalBytes = (m.objects.map RecoveryObject.sizeBytes).sum
  total_bound : (m.objects.map RecoveryObject.sizeBytes).sum ≤ env.limits.maxTotalBlobBytes
  sorted : m.objects.map RecoveryObject.storageKey
    = orderBy id (m.objects.map RecoveryObject.storageKey)

theorem readObjects_ok {limits : RecoveryLimits} (objects : List RecoveryObject) :
    ∀ (seen : List String) (total total' : Nat), total ≤ limits.maxTotalBlobBytes →
      (readObjects limits objects seen total = .ok total' ↔
        (∀ item ∈ objects, isSha256 item.sha256 = true ∧
          item.storageKey = canonicalKey item.sha256) ∧
        (∀ item ∈ objects, item.sizeBytes ≤ limits.maxSingleBlobBytes) ∧
        (∀ item ∈ objects, item.storageKey ∉ seen) ∧
        (objects.map RecoveryObject.storageKey).Nodup ∧
        total + (objects.map RecoveryObject.sizeBytes).sum ≤ limits.maxTotalBlobBytes ∧
        total' = total + (objects.map RecoveryObject.sizeBytes).sum) := by
  induction objects with
  | nil =>
      intro seen total total' hle
      unfold readObjects
      rw [Except.ok.injEq]
      exact ⟨fun h => ⟨nofun, nofun, nofun, List.nodup_nil, hle, h.symm⟩,
        fun h => h.2.2.2.2.2.symm⟩
  | cons item rest ih =>
      intro seen total total' _
      unfold readObjects
      simp only [demand_bind_ok, Bool.and_eq_true, beq_iff_eq, Bool.not_eq_true', decide_eq_true_eq,
        List.contains_eq_mem, decide_eq_false_iff_not]
      by_cases hbound : total + item.sizeBytes ≤ limits.maxTotalBlobBytes
      · rw [ih (item.storageKey :: seen) (total + item.sizeBytes) total' hbound]
        simp only [List.mem_cons, forall_eq_or_imp, List.map_cons, List.nodup_cons, List.sum_cons,
          not_or, List.mem_map, not_exists, not_and]
        constructor
        · rintro ⟨⟨⟨hsha, hkey⟩, hseen⟩, ⟨hsingle, _⟩, hkeys, hsingles, hfresh, hnodup, hsum, htotal⟩
          exact ⟨⟨⟨hsha, hkey⟩, hkeys⟩, ⟨hsingle, hsingles⟩, ⟨hseen, fun i hi => (hfresh i hi).2⟩,
            ⟨fun i hi => (hfresh i hi).1, hnodup⟩, by omega, by omega⟩
        · rintro ⟨⟨⟨hsha, hkey⟩, hkeys⟩, ⟨hsingle, hsingles⟩, ⟨hseen, hnot⟩, ⟨hhead, hnodup⟩,
            hsum, htotal⟩
          exact ⟨⟨⟨hsha, hkey⟩, hseen⟩, ⟨hsingle, hbound⟩, hkeys, hsingles,
            fun i hi => ⟨hhead i hi, hnot i hi⟩, hnodup, by omega, by omega⟩
      · refine ⟨fun h => absurd h.2.1.2 hbound, fun h => absurd h.2.2.2.2.1 ?_⟩
        rw [List.map_cons, List.sum_cons]
        omega

theorem readManifest_ok {env : RecoveryEnv} {m : RecoveryManifest} :
    readManifest env m = .ok () ↔ m.Accepted env := by
  unfold readManifest
  simp only [↓demand_bind_ok, except_bind_ok, demand_ok, Bool.and_eq_true, beq_iff_eq,
    decide_eq_true_eq, readObjects_ok _ [] 0 _ (Nat.zero_le _)]
  constructor
  · rintro ⟨hfits, ⟨⟨⟨hdump, hpos⟩, hbound⟩, hidentity⟩, hcount, total,
      ⟨hkeys, hsingle, _, hdistinct, hsum, rfl⟩, htotal, hsorted⟩
    exact ⟨hfits, hdump, hpos, hbound, hidentity, hcount, hkeys, hsingle, hdistinct, by omega,
      by omega, hsorted⟩
  · intro h
    exact ⟨h.fits, ⟨⟨⟨h.dump_format, h.dump_pos⟩, h.dump_bound⟩, h.identity_format⟩, h.count, _,
      ⟨h.keys, h.single, fun _ _ hmem => (by cases hmem), h.distinct,
        by rw [Nat.zero_add]; exact h.total_bound, rfl⟩,
      by rw [Nat.zero_add]; exact h.total, h.sorted⟩

/-! ## Whole sets -/

/-- What `_validate_recovery_set` accepts, and what it returns. -/
theorem validateRecoverySet_ok {env : RecoveryEnv} {t : RecoveryTree} {v : ValidatedRecoverySet} :
    validateRecoverySet env t = .ok v ↔ ∃ dump m canonical,
      t = ⟨some dump, some m, some canonical, 0⟩ ∧ m.Accepted env ∧
        env.sha256 dump = m.dumpSha256 ∧ dump.length = m.dumpSizeBytes ∧
        canonicalKeys env.limits canonical = .ok (m.objects.map RecoveryObject.storageKey) ∧
        intact env.sha256 canonical m.objects = true ∧
        v = ⟨env.sha256 (env.manifestBytes m), m.dumpSha256, m.dumpSizeBytes,
          m.sourceDatabaseIdentity, m.objects⟩ := by
  obtain ⟨dump, manifest, canonical, temporaries⟩ := t
  unfold validateRecoverySet
  constructor
  · intro h
    split at h
    · rename_i dump' m canonical' hdump hmanifest hcanonical htemporaries
      dsimp only at hdump hmanifest hcanonical htemporaries
      subst hdump hmanifest hcanonical htemporaries
      obtain ⟨_, hread, h⟩ := except_bind_ok.mp h
      simp only [↓demand_bind_ok, except_bind_ok, Bool.and_eq_true, beq_iff_eq] at h
      obtain ⟨_, ⟨hsha, hlength⟩, keys, hkeys, heq, hintact, hv⟩ := h
      exact ⟨dump', m, canonical', rfl, readManifest_ok.mp hread, hsha, hlength, heq ▸ hkeys,
        hintact, (Except.ok.inj hv).symm⟩
    · cases h
  · rintro ⟨dump', m, canonical', heq, haccepted, hsha, hlength, hkeys, hintact, rfl⟩
    cases heq
    have hbound : dump'.length ≤ env.limits.maxDatabaseDumpBytes :=
      hlength ▸ haccepted.dump_bound
    refine except_bind_ok.mpr ⟨(), readManifest_ok.mpr haccepted, ?_⟩
    simp only [↓demand_bind_ok, except_bind_ok, Bool.and_eq_true, beq_iff_eq, decide_eq_true_eq]
    exact ⟨hbound, ⟨hsha, hlength⟩, _, hkeys, rfl, hintact, trivial⟩

/-! ## A set of one object -/

/-- The digest of the byte `a`. -/
def objectDigest : String := "ca978112ca1bbdcafac231b39a23dc4da786eff8147c4e72b9807785afee48bb"

/-- The digest of the byte `b`. -/
def dumpDigest : String := "3e23e8160039594a33894f6564e1b1348bbd7a0088d42c4acb73eeaed59c009d"

/-- The digest of the byte `c`. -/
def identityDigest : String := "2e7d2c03a9507ae265ecf5b5356885a53393a2029d241394997265a1a25aefc6"

/-- The manifest of the object `a` and the dump `b` of the database `c`. -/
def sampleManifest : RecoveryManifest :=
  ⟨dumpDigest, 1, identityDigest, [⟨canonicalKey objectDigest, objectDigest, 1⟩], 1⟩

/-- The manifest written out, in pieces. -/
def sampleManifestText : List String :=
  ["\x7b\"canonical\":\x7b\"objects\":[\x7b\"sha256\":\"", objectDigest,
    "\",\"size_bytes\":1,\"storage_key\":\"", "blobs/sha256/ca/97/", objectDigest,
    "\"\x7d],\"total_bytes\":1\x7d,\"database\":\x7b\"format\":\"postgres-custom\",",
    "\"sha256\":\"", dumpDigest, "\",\"size_bytes\":1,\"source_database_identity\":\"",
    identityDigest, "\"\x7d,\"schema\":\"nano-aural-recovery-set/v1\"\x7d\n"]

/-- SHA-256 of the bytes that are hashed of that set: the object, the dump and the manifest. -/
def sampleSha256 (data : List UInt8) : String :=
  if data = [97] then objectDigest
  else if data = [98] then dumpDigest
  else "7d75ed6499ed85dd3ef90f7b2c836c8fb08867b7267019af5a08500dc15c81c0"

def sampleEnv : RecoveryEnv where
  sha256 := sampleSha256
  sha256_format data := by
    unfold sampleSha256
    split
    · decide +kernel
    · split
      · decide +kernel
      · decide +kernel
  manifestBytes _ := sampleManifestText.flatMap fun piece => piece.toUTF8.data.toList
  limits := ⟨1, 1, 1, 1, 1⟩
  databaseIdentity := identityDigest
  identity_format := by decide +kernel
  databaseSealed := true

def sampleObjects : ObjectTree :=
  ⟨canonicalDirectories objectDigest, [(canonicalKey objectDigest, [97])]⟩

end Recovery

end NanoAural
