import Mathlib.Data.List.Induction
import NanoAural.Base.Timeline
import NanoAural.Durable.BlobStorage
import NanoAural.Proof.RecoveryContents

/-!
# When the canonical namespace can be backed up

The scanner refuses a tree with a name that is no digest, or with a directory that
no blob lies below. A write makes its directories first and its blob under a
temporary name, so a cut may leave either. Where it is cut decides: the states of
a write are laid out along a timeline, and each is accepted or not.
-/

namespace NanoAural

open Relational Faulty Faulty.Prog

namespace BlobStorage

open Recovery

/-! ## Names -/

theorem temporaryName_toList (stem token digest : String) :
    (temporaryName stem token digest).toList = (keyStem digest).toList ++ (stem ++ token).toList :=
  String.toList_append ..

/-- A canonical path is as long as every other one, and a digit follows its directory. -/
theorem isCanonicalPath_shape {path : String} (h : isCanonicalPath path = true) :
    path.toList.length = 83 ∧ ∃ c, path.toList[19]? = some c ∧ isLowerHex c = true := by
  unfold isCanonicalPath at h
  rw [Bool.and_eq_true, beq_iff_eq] at h
  obtain ⟨hdigest, hpath⟩ := h
  have hlength := isSha256_length hdigest
  have hstem := keyStem_length hdigest
  rw [hpath, canonicalKey_toList]
  refine ⟨by rw [List.length_append, hstem, hlength], ?_⟩
  rw [List.getElem?_append_right (by omega), hstem]
  refine ⟨(baseName path).toList[0], List.getElem?_eq_getElem (by omega), ?_⟩
  unfold isSha256 at hdigest
  rw [Bool.and_eq_true, List.all_eq_true] at hdigest
  exact hdigest.2 _ (List.getElem_mem _)

/-- A name that starts with a dot is no digest. -/
theorem not_isCanonicalPath_temporary {stem token digest : String} (hdigest : isSha256 digest = true)
    (hstem : stem.toList.head? = some '.') :
    isCanonicalPath (temporaryName stem token digest) = false := by
  rw [Bool.eq_false_iff]
  intro h
  obtain ⟨_, c, hc, hhex⟩ := isCanonicalPath_shape h
  have hlength := keyStem_length hdigest
  rw [temporaryName_toList, List.getElem?_append_right (by omega), hlength, String.toList_append]
    at hc
  cases hs : stem.toList with
  | nil =>
      rw [hs] at hstem
      cases hstem
  | cons first rest =>
      rw [hs, List.head?_cons, Option.some.injEq] at hstem
      rw [hs, hstem] at hc
      obtain rfl := Option.some.inj hc
      exact absurd hhex (by decide)

theorem canonicalDirectories_length {digest d : String} (h : d ∈ canonicalDirectories digest) :
    d.toList.length ≤ 18 := by
  have h₁ : "blobs".toList.length = 5 := by decide
  have h₂ : "blobs/sha256".toList.length = 12 := by decide
  have h₃ : "blobs/sha256/".toList.length = 13 := by decide
  have h₄ : "/".toList.length = 1 := by decide
  unfold canonicalDirectories at h
  simp only [List.mem_cons, List.not_mem_nil, or_false] at h
  rcases h with rfl | rfl | rfl | rfl
  · omega
  · omega
  · simp only [String.toList_append, List.length_append, String.toList_ofList, List.length_take]
    omega
  · simp only [String.toList_append, List.length_append, String.toList_ofList, List.length_take,
      List.length_drop]
    omega

theorem temporaryName_length {stem token digest : String} (hdigest : isSha256 digest = true) :
    18 < (temporaryName stem token digest).toList.length := by
  rw [temporaryName_toList, List.length_append, keyStem_length hdigest]
  omega

/-! ## Trees the scanner accepts -/

/-- Every file is a blob under its key, and every directory is above one. -/
structure Tidy (t : ObjectTree) : Prop where
  canonical : ∀ f ∈ t.files, isCanonicalPath f.1 = true
  distinct : (t.files.map Prod.fst).Nodup
  above : ∀ d, d ∈ t.dirs ↔ d ∈ t.expectedDirectories

theorem tidy_empty : Tidy ⟨[], []⟩ where
  canonical f hf := absurd hf (by simp)
  distinct := List.nodup_nil
  above _ := Iff.rfl

theorem Tidy.dir_length {t : ObjectTree} (h : Tidy t) {d : String} (hd : d ∈ t.dirs) :
    d.toList.length ≤ 18 := by
  obtain ⟨f, _, hmem⟩ := List.mem_flatMap.mp ((h.above d).mp hd)
  exact canonicalDirectories_length hmem

theorem Tidy.read_none {t : ObjectTree} (h : Tidy t) {path : String}
    (hpath : isCanonicalPath path = false) : t.read path = none := by
  refine read_none_iff.mpr fun hmem => ?_
  obtain ⟨f, hf, rfl⟩ := List.mem_map.mp hmem
  rw [h.canonical f hf] at hpath
  cases hpath

/-- A blob's directories are there. -/
theorem Tidy.directories {t : ObjectTree} (h : Tidy t) {digest : String}
    (hdigest : isSha256 digest = true) (hread : (t.read (canonicalKey digest)).isSome = true) :
    ∀ d ∈ canonicalDirectories digest, d ∈ t.dirs := by
  intro d hd
  have hmem : canonicalKey digest ∈ t.files.map Prod.fst := by
    by_contra hnot
    rw [read_none_iff.mpr hnot] at hread
    cases hread
  obtain ⟨f, hf, heq⟩ := List.mem_map.mp hmem
  refine (h.above d).mpr (List.mem_flatMap.mpr ⟨f, hf, ?_⟩)
  rwa [heq, baseName_canonicalKey hdigest]

/-! ## The timeline of a write -/

/-- How the calls of a write are laid out: so many before the first directory, so many between the
creation of the temporary file and the link, and whether the file is created before the `finally`
that removes it covers the calls. -/
structure Plan where
  entry : Nat
  writing : Nat
  outside : Bool

namespace Plan

variable (plan : Plan)

/-- The directories that were asked for when `n` calls have taken effect. -/
def made (n : Nat) : Nat := min 4 ((n + 1 - plan.entry) / 2)

/-- From here on the temporary name is there. -/
def named : Nat := plan.entry + 10

/-- From here on the blob is there. -/
def linked : Nat := plan.entry + 11 + plan.writing

/-- The calls before the `finally` covers them. -/
def before : Nat := plan.entry + if plan.outside then 10 else 8

/-- The calls the `finally` covers. -/
def within : Nat := plan.writing + if plan.outside then 2 else 4

theorem before_within : plan.before + plan.within = plan.linked + 1 := by
  unfold before within linked
  cases plan.outside <;> simp <;> omega

end Plan

/-- Some directories, those that are there passed over. -/
def addDirectories (dirs : List String) : List String → List String
  | [] => dirs
  | d :: rest => addDirectories (if dirs.contains d then dirs else dirs ++ [d]) rest

theorem addDirectories_append (ds ds' : List String) : ∀ dirs : List String,
    addDirectories dirs (ds ++ ds') = addDirectories (addDirectories dirs ds) ds' := by
  induction ds with
  | nil => exact fun _ => rfl
  | cons d ds ih => exact fun dirs => ih _

theorem mem_addDirectories {d : String} (ds : List String) : ∀ dirs : List String,
    d ∈ addDirectories dirs ds ↔ d ∈ dirs ∨ d ∈ ds := by
  induction ds with
  | nil => exact fun dirs => by simp [addDirectories]
  | cons x ds ih =>
      intro dirs
      unfold addDirectories
      rw [ih, List.mem_cons]
      by_cases hx : dirs.contains x = true
      · rw [if_pos hx]
        rw [List.contains_iff_mem] at hx
        constructor
        · rintro (h | h)
          · exact .inl h
          · exact .inr (.inr h)
        · rintro (h | rfl | h)
          · exact .inl h
          · exact .inl hx
          · exact .inr h
      · rw [if_neg hx, List.mem_append, List.mem_singleton, or_assoc]

/-- What is written where: the tree before, the digest of the data, the temporary name, and the
content of the temporary file after each call that writes. -/
structure Writing where
  tree : ObjectTree
  digest : String
  temporary : String
  content : Nat → List UInt8
  plan : Plan

/-- A write that has its blob still to make, in a tree the scanner accepts. -/
structure Writing.Fresh (w : Writing) : Prop where
  tidy : Tidy w.tree
  digest : isSha256 w.digest = true
  absent : w.tree.read (canonicalKey w.digest) = none
  temporary : isCanonicalPath w.temporary = false
  temporary_length : 18 < w.temporary.toList.length
  created : w.content 0 = []

/-- **The timeline**: the tree when `n` calls of the write have taken effect. -/
def Writing.treeAt (w : Writing) (n : Nat) : ObjectTree where
  dirs := addDirectories w.tree.dirs ((canonicalDirectories w.digest).take (w.plan.made n))
  files := w.tree.files
    ++ (if w.plan.named ≤ n then
        [(w.temporary, w.content (min (n - w.plan.named) w.plan.writing))] else [])
    ++ if w.plan.linked ≤ n then [(canonicalKey w.digest, w.content w.plan.writing)] else []

/-- The tree without the temporary name. -/
def cleared (temporary : String) (t : ObjectTree) : ObjectTree :=
  { t with files := t.files.filter (·.1 != temporary) }

section Timeline

variable {w : Writing} {n m : Nat}

theorem treeAt_zero (hentry : 1 ≤ w.plan.entry) : w.treeAt 0 = w.tree := by
  have hmade : w.plan.made 0 = 0 := by
    unfold Plan.made
    omega
  have hnamed : ¬ w.plan.named ≤ 0 := by
    unfold Plan.named
    omega
  have hlinked : ¬ w.plan.linked ≤ 0 := by
    unfold Plan.linked
    omega
  unfold Writing.treeAt
  rw [hmade, if_neg hnamed, if_neg hlinked, List.append_nil, List.append_nil]
  rfl

theorem treeAt_congr (hmade : w.plan.made n = w.plan.made m)
    (hnamed : w.plan.named ≤ n ↔ w.plan.named ≤ m)
    (hcontent : w.plan.named ≤ n → w.content (min (n - w.plan.named) w.plan.writing)
      = w.content (min (m - w.plan.named) w.plan.writing))
    (hlinked : w.plan.linked ≤ n ↔ w.plan.linked ≤ m) : w.treeAt n = w.treeAt m := by
  unfold Writing.treeAt
  rw [hmade, if_congr hlinked rfl rfl]
  by_cases h : w.plan.named ≤ n
  · rw [if_pos h, if_pos (hnamed.mp h), hcontent h]
  · rw [if_neg h, if_neg (mt hnamed.mpr h)]

variable (hf : w.Fresh)
include hf

theorem Writing.Fresh.ne : canonicalKey w.digest ≠ w.temporary := by
  intro heq
  have := isCanonicalPath_canonicalKey hf.digest
  rw [heq, hf.temporary] at this
  cases this

theorem Writing.Fresh.dir_length {d : String} (hd : d ∈ (w.treeAt n).dirs) :
    d.toList.length ≤ 18 := by
  rcases (mem_addDirectories _ _).mp hd with hd | hd
  · exact hf.tidy.dir_length hd
  · exact canonicalDirectories_length (List.mem_of_mem_take hd)

theorem Writing.Fresh.not_dir {path : String} (hpath : 18 < path.toList.length) :
    (w.treeAt n).dirs.contains path = false := by
  rw [Bool.eq_false_iff, Ne, List.contains_iff_mem]
  intro hmem
  have := hf.dir_length hmem
  omega

theorem Writing.Fresh.key_length : 18 < (canonicalKey w.digest).toList.length := by
  have := (isCanonicalPath_shape (isCanonicalPath_canonicalKey hf.digest)).1
  omega

/-- Nothing else comes to be there. -/
theorem Writing.Fresh.read_other {path : String} (hpath : isCanonicalPath path = false)
    (hne : path ≠ w.temporary) : (w.treeAt n).read path = none := by
  refine read_none_iff.mpr fun hmem => ?_
  have hkey : path ≠ canonicalKey w.digest := by
    rintro rfl
    rw [isCanonicalPath_canonicalKey hf.digest] at hpath
    cases hpath
  unfold Writing.treeAt at hmem
  rw [List.map_append, List.map_append, List.mem_append, List.mem_append] at hmem
  rcases hmem with (hmem | hmem) | hmem
  · exact read_none_iff.mp (hf.tidy.read_none hpath) hmem
  · split at hmem
    · exact hne (List.mem_singleton.mp hmem)
    · cases hmem
  · split at hmem
    · exact hkey (List.mem_singleton.mp hmem)
    · cases hmem

/-- No file has the name of a directory. -/
theorem Writing.Fresh.read_directory {d : String} (hd : d.toList.length ≤ 18) :
    (w.treeAt n).read d = none := by
  refine hf.read_other ?_ ?_
  · rw [Bool.eq_false_iff]
    intro hcanonical
    have := (isCanonicalPath_shape hcanonical).1
    omega
  · rintro rfl
    have := hf.temporary_length
    omega

theorem Writing.Fresh.read_key (h : n < w.plan.linked) :
    (w.treeAt n).read (canonicalKey w.digest) = none := by
  refine read_none_iff.mpr fun hmem => ?_
  unfold Writing.treeAt at hmem
  rw [if_neg (Nat.not_le.mpr h), List.append_nil, List.map_append, List.mem_append] at hmem
  rcases hmem with hmem | hmem
  · exact read_none_iff.mp hf.absent hmem
  · split at hmem
    · exact hf.ne (List.mem_singleton.mp hmem)
    · cases hmem

theorem Writing.Fresh.read_temporary : (w.treeAt n).read w.temporary =
    if w.plan.named ≤ n then some (w.content (min (n - w.plan.named) w.plan.writing))
    else none := by
  have hold : w.tree.files.lookup w.temporary = none := hf.tidy.read_none hf.temporary
  have hkey : (w.temporary == canonicalKey w.digest) = false := beq_false_of_ne hf.ne.symm
  unfold ObjectTree.read Writing.treeAt
  rw [List.lookup_append, List.lookup_append, hold, Option.none_or]
  by_cases h : w.plan.named ≤ n
  · rw [if_pos h, if_pos h, List.lookup_cons_self, Option.some_or]
  · rw [if_neg h, if_neg h]
    split
    · rw [List.lookup_cons, hkey]
      rfl
    · rfl

omit hf in
theorem follows_catching {α : Type} {p handler : BlobProg α} {kind : BlobRaise} {a : α}
    {T : Nat → ObjectTree} {i k : Nat} (hkind : kind ≠ .os)
    (hp : Follows (· = .os) p T i k a) : Follows (· = .os) (catching kind p handler) T i k a := by
  refine follows_tryCatch hp fun e he => ?_
  rw [he, if_neg hkind.symm]

omit hf in
theorem follows_catching_caught {α : Type} {p : BlobProg α} {kind : BlobRaise} {a : α}
    {T : Nat → ObjectTree} {i k : Nat} (hkind : kind ≠ .os)
    (hp : Fails (· = .os) p T i k kind) :
    Follows (· = .os) (catching kind p (pure a)) T i k a := by
  refine follows_caught hp (if_pos rfl) fun e he => ?_
  rw [he, if_neg hkind.symm]

/-- Two calls for each directory: the first makes it where it is missing, the second opens it. -/
theorem Writing.Fresh.follows_directory {done rest : List String} {d : String}
    (heq : canonicalDirectories w.digest = done ++ d :: rest) :
    Follows (· = .os) (do
      catching .fileExists (makeDirectory d) (pure ())
      openDirectory d) w.treeAt (w.plan.entry + 2 * done.length) 2 () := by
  have hlength : done.length ≤ 3 := by
    have := congrArg List.length heq
    rw [List.length_append, List.length_cons] at this
    change 4 = _ at this
    omega
  have hd : d.toList.length ≤ 18 := by
    refine @canonicalDirectories_length w.digest d ?_
    rw [heq]
    simp
  -- the two calls of one directory, in the counts of the plan
  have hmade : w.plan.made (w.plan.entry + 2 * done.length) = done.length := by
    unfold Plan.made
    omega
  have hmade' : w.plan.made (w.plan.entry + 2 * done.length + 1) = done.length + 1 := by
    unfold Plan.made
    omega
  have htake : (canonicalDirectories w.digest).take done.length = done := by
    rw [heq, List.take_left]
  have htake' : (canonicalDirectories w.digest).take (done.length + 1) = done ++ [d] := by
    rw [heq, List.take_length_add_append]
    rfl
  have hnext : w.treeAt (w.plan.entry + 2 * done.length + 1) =
      { w.treeAt (w.plan.entry + 2 * done.length) with
        dirs := if (w.treeAt (w.plan.entry + 2 * done.length)).dirs.contains d
          then (w.treeAt (w.plan.entry + 2 * done.length)).dirs
          else (w.treeAt (w.plan.entry + 2 * done.length)).dirs ++ [d] } := by
    have hnamed : ∀ k, k ≤ 7 → ¬ w.plan.named ≤ w.plan.entry + k := by
      unfold Plan.named
      omega
    have hlinked : ∀ k, k ≤ 7 → ¬ w.plan.linked ≤ w.plan.entry + k := by
      unfold Plan.linked
      omega
    unfold Writing.treeAt
    rw [hmade, hmade', htake, htake', addDirectories_append, Nat.add_assoc,
      if_neg (hnamed _ (by omega)), if_neg (hnamed _ (by omega)), if_neg (hlinked _ (by omega)),
      if_neg (hlinked _ (by omega))]
    rfl
  -- opening a directory changes no tree
  have hopened : w.treeAt (w.plan.entry + 2 * done.length + 1)
      = w.treeAt (w.plan.entry + 2 * done.length + 1 + 1) := by
    refine treeAt_congr ?_ ?_ ?_ ?_
    · unfold Plan.made
      omega
    · unfold Plan.named
      omega
    · unfold Plan.named
      omega
    · unfold Plan.linked
      omega
  have hmem : (w.treeAt (w.plan.entry + 2 * done.length + 1)).dirs.contains d = true := by
    rw [hnext]
    dsimp only
    split
    · assumption
    · simp
  refine follows_bind (n := 1) (m := 1) (a := ()) ?_ ?_
  · have hread := hf.read_directory (n := w.plan.entry + 2 * done.length) hd
    -- `mkdir` of a directory that is there raises what the call expects
    by_cases hthere : (w.treeAt (w.plan.entry + 2 * done.length)).dirs.contains d = true
    · refine follows_catching_caught (by decide) (fails_call ?_)
      rw [hnext, if_pos hthere, hread, hthere]
      rfl
    · refine follows_catching (by decide) (follows_call ?_)
      rw [hnext, if_neg hthere, hread, Bool.eq_false_iff.mpr hthere]
      rfl
  · refine follows_call ?_
    rw [if_pos hmem, ← hopened]

theorem Writing.Fresh.follows_parentFd (hentry : 1 ≤ w.plan.entry) :
    Follows (· = .os) (parentFd w.digest) w.treeAt (w.plan.entry - 1) 9 () := by
  unfold parentFd
  refine follows_bind (n := 1) (m := 8) (a := ()) ?_ ?_
  · refine follows_act (treeAt_congr ?_ ?_ ?_ ?_)
    · unfold Plan.made
      omega
    · unfold Plan.named
      omega
    · unfold Plan.named
      omega
    · unfold Plan.linked
      omega
  · rw [Nat.sub_add_cancel hentry]
    exact follows_forEach (k := 2) _ _ fun done d rest heq => hf.follows_directory heq

omit hf in
theorem treeAt_still (h : n + 1 ≤ w.plan.entry ∨ n = w.plan.entry + 8 ∨ w.plan.linked ≤ n) :
    w.treeAt n = w.treeAt (n + 1) := by
  refine treeAt_congr ?_ ?_ (fun _ => congrArg w.content ?_) ?_
  · unfold Plan.made
    unfold Plan.linked at h
    omega
  · unfold Plan.named
    unfold Plan.linked at h
    omega
  · unfold Plan.named at *
    unfold Plan.linked at h
    omega
  · unfold Plan.linked at *
    omega

omit hf in
theorem follows_still (h : n + 1 ≤ w.plan.entry ∨ n = w.plan.entry + 8 ∨ w.plan.linked ≤ n) :
    Follows (· = .os) quiet w.treeAt n 1 () := follows_act (treeAt_still h)

/-- The blob is looked for. -/
theorem Writing.Fresh.fails_openFile :
    Fails (· = .os) (openFile (canonicalKey w.digest)) w.treeAt (w.plan.entry + 8) 1
      .fileNotFound := by
  refine fails_call ?_
  have hlinked : w.plan.entry + 8 < w.plan.linked := by
    unfold Plan.linked
    omega
  rw [hf.read_key hlinked, hf.not_dir hf.key_length, ← treeAt_still (.inr (.inl rfl))]
  rfl

theorem Writing.Fresh.follows_createFile :
    Follows (· = .os) (createFile w.temporary) w.treeAt (w.plan.entry + 9) 1 () := by
  refine follows_call ?_
  have hnamed : ¬ w.plan.named ≤ w.plan.entry + 9 := by
    unfold Plan.named
    omega
  have hlinked : ∀ k, k ≤ 10 → ¬ w.plan.linked ≤ w.plan.entry + k := by
    unfold Plan.linked
    omega
  have hmade : w.plan.made (w.plan.entry + 9) = w.plan.made (w.plan.entry + 9 + 1) := by
    unfold Plan.made
    omega
  rw [hf.read_temporary, if_neg hnamed, hf.not_dir hf.temporary_length]
  unfold Writing.treeAt
  rw [hmade, if_neg hnamed, if_neg (hlinked 9 (by omega)), if_neg (hlinked (9 + 1) (by omega)),
    if_pos (show w.plan.named ≤ w.plan.entry + 9 + 1 from Nat.le_refl _)]
  have hplace : w.plan.entry + 9 + 1 - w.plan.named = 0 := by
    unfold Plan.named
    omega
  rw [hplace, Nat.zero_min, hf.created]
  simp

omit hf in
/-- The file after some of the calls that write. -/
theorem treeAt_writing {k : Nat} (hk : k ≤ w.plan.writing) :
    w.treeAt (w.plan.named + k) =
      ⟨addDirectories w.tree.dirs ((canonicalDirectories w.digest).take 4),
        w.tree.files ++ [(w.temporary, w.content k)]⟩ := by
  have hmade : w.plan.made (w.plan.named + k) = 4 := by
    unfold Plan.made Plan.named
    omega
  have hlinked : ¬ w.plan.linked ≤ w.plan.named + k := by
    unfold Plan.linked Plan.named
    omega
  unfold Writing.treeAt
  rw [hmade, if_neg hlinked, List.append_nil, if_pos (Nat.le_add_right _ _),
    Nat.add_sub_cancel_left, Nat.min_eq_left hk]

theorem Writing.Fresh.follows_append {k : Nat} {data : List UInt8} (hk : k < w.plan.writing)
    (hcontent : w.content (k + 1) = w.content k ++ data) :
    Follows (· = .os) (append w.temporary data) w.treeAt (w.plan.named + k) 1 () := by
  refine follows_act ?_
  have hothers : w.tree.files.map (fun f => if f.1 == w.temporary then (f.1, f.2 ++ data) else f)
      = w.tree.files := by
    refine (List.map_congr_left fun f hmem => ?_).trans (List.map_id _)
    have hne : (f.1 == w.temporary) = false := by
      refine beq_false_of_ne fun heq => ?_
      have := hf.tidy.canonical f hmem
      rw [heq, hf.temporary] at this
      cases this
    rw [hne]
    rfl
  rw [treeAt_writing (Nat.le_of_lt hk), Nat.add_assoc, treeAt_writing hk, hcontent]
  dsimp only
  rw [List.map_append, hothers]
  simp

omit hf in
theorem follows_written {k : Nat} (hk : k < w.plan.writing)
    (hcontent : w.content (k + 1) = w.content k) :
    Follows (· = .os) quiet w.treeAt (w.plan.named + k) 1 () := by
  refine follows_act ?_
  rw [treeAt_writing (Nat.le_of_lt hk), Nat.add_assoc, treeAt_writing hk, hcontent]
  rfl

theorem Writing.Fresh.follows_link :
    Follows (· = .os) (link w.temporary (canonicalKey w.digest)) w.treeAt
      (w.plan.named + w.plan.writing) 1 () := by
  refine follows_call ?_
  have hbefore : w.plan.named + w.plan.writing < w.plan.linked := by
    unfold Plan.linked Plan.named
    omega
  have hafter : w.plan.named + w.plan.writing + 1 = w.plan.linked := by
    unfold Plan.linked Plan.named
    omega
  have hmade : w.plan.made w.plan.linked = 4 := by
    unfold Plan.made Plan.linked
    omega
  have hnamed : w.plan.named ≤ w.plan.linked := by
    unfold Plan.linked Plan.named
    omega
  have hcontent : min (w.plan.linked - w.plan.named) w.plan.writing = w.plan.writing := by
    unfold Plan.linked Plan.named
    omega
  rw [hf.read_key hbefore, hf.not_dir hf.key_length, hf.read_temporary,
    if_pos (Nat.le_add_right _ _), Nat.add_sub_cancel_left, Nat.min_self, hafter,
    treeAt_writing (Nat.le_refl _)]
  unfold Writing.treeAt
  rw [hmade, if_pos hnamed, if_pos (Nat.le_refl _), hcontent]
  rfl

/-- The temporary name is taken away, if it is there. -/
theorem Writing.Fresh.follows_removeTemporary (j : Nat) :
    Follows (· = .os) (removeTemporary w.temporary)
      (fun k => if k = 0 then w.treeAt j else cleared w.temporary (w.treeAt j)) 0 1 () := by
  have hread := hf.read_temporary (n := j)
  by_cases hnamed : w.plan.named ≤ j
  · rw [if_pos hnamed] at hread
    refine follows_catching (by decide) (follows_call ?_)
    rw [if_pos rfl, hread]
    rfl
  · rw [if_neg hnamed] at hread
    refine follows_catching_caught (by decide) (fails_call ?_)
    have hall : cleared w.temporary (w.treeAt j) = w.treeAt j := by
      unfold cleared
      have hnone : (w.treeAt j).files.filter (·.1 != w.temporary) = (w.treeAt j).files := by
        refine List.filter_eq_self.mpr fun f hmem => bne_iff_ne.mpr fun heq => ?_
        exact read_none_iff.mp hread (heq ▸ List.mem_map_of_mem hmem)
      rw [hnone]
    rw [if_pos rfl, hread]
    exact congrArg _ hall.symm

end Timeline

/-! ## The two writes -/

/-- `put_immutable` of data whose blob is not there. -/
def immutableWriting (sha256 : List UInt8 → String) (token : String) (data : List UInt8)
    (t : ObjectTree) : Writing :=
  ⟨t, sha256 data, temporaryName ".put-" token (sha256 data),
    fun k => if k = 0 then [] else data, ⟨1, 2, true⟩⟩

/-- `put_stream` of data whose blob is not there. -/
def streamWriting (sha256 : List UInt8 → String) (token : String) (chunks : List (List UInt8))
    (t : ObjectTree) : Writing :=
  ⟨t, sha256 chunks.flatten, temporaryName ".stream-" token (sha256 chunks.flatten),
    fun k => ((pieces chunks.flatten).take (k / 2)).flatten,
    ⟨chunks.length + 2, 2 * (pieces chunks.flatten).length + 2, false⟩⟩

/-- The pieces put together again. -/
theorem pieces_flatten (data : List UInt8) : (pieces data).flatten = data := by
  have htaken : ∀ n, ((List.range n).map fun i =>
      (data.drop (i * chunkBytes)).take chunkBytes).flatten = data.take (n * chunkBytes) := by
    intro n
    induction n with
    | zero => simp
    | succ n ih =>
        rw [List.range_succ, List.map_append, List.flatten_append, ih, Nat.succ_mul, List.take_add]
        simp
  unfold pieces
  rw [htaken]
  refine List.take_of_length_le ?_
  unfold chunkBytes
  omega

section Writes

variable {sha256 : List UInt8 → String} {token : String} {t : ObjectTree}

theorem immutable_settles {data : List UInt8}
    (hf : (immutableWriting sha256 token data t).Fresh) :
    Settles (· = .os) (putImmutable sha256 token data)
      (immutableWriting sha256 token data t).treeAt
      (cleared (immutableWriting sha256 token data t).temporary) 0
      (immutableWriting sha256 token data t).plan.before
      (immutableWriting sha256 token data t).plan.within := by
  have hbefore : (immutableWriting sha256 token data t).plan.before = 9 + (1 + (1 + 0)) := rfl
  rw [hbefore]
  refine settles_bind (a := ()) (hf.follows_parentFd (Nat.le_refl _)) ?_
  refine settles_bind (a := none) ?_ ?_
  · exact follows_catching_caught (by decide) (fails_bind (fails_bind hf.fails_openFile))
  refine settles_bind (a := ()) hf.follows_createFile ?_
  refine settles_return (settles_tryFinally (n := 4) (a := ()) ?_ hf.follows_removeTemporary)
  refine follows_bind (n := 1) (m := 3) (a := ()) (hf.follows_append (k := 0) Nat.zero_lt_two rfl) ?_
  refine follows_bind (n := 1) (m := 2) (a := ()) (follows_written (k := 1) Nat.one_lt_two rfl) ?_
  refine follows_bind (n := 1) (m := 1) (a := ()) (follows_catching (by decide) hf.follows_link) ?_
  exact follows_still (.inr (.inr (Nat.le_refl _)))

theorem stream_settles {chunks : List (List UInt8)}
    (hf : (streamWriting sha256 token chunks t).Fresh) :
    Settles (· = .os) (putStream sha256 token chunks)
      (streamWriting sha256 token chunks t).treeAt
      (cleared (streamWriting sha256 token chunks t).temporary) 0
      (streamWriting sha256 token chunks t).plan.before
      (streamWriting sha256 token chunks t).plan.within := by
  have hentry : (streamWriting sha256 token chunks t).plan.entry = chunks.length + 2 := rfl
  have hwriting : (streamWriting sha256 token chunks t).plan.writing
      = 2 * (pieces chunks.flatten).length + 2 := rfl
  have hnamed : (streamWriting sha256 token chunks t).plan.named = chunks.length + 12 := rfl
  -- the plan's places, counted call by call
  have hbefore : (streamWriting sha256 token chunks t).plan.before
      = 1 + (1 * chunks.length + (9 + 0)) := by
    unfold Plan.before
    rw [hentry]
    change chunks.length + 2 + 8 = _
    omega
  have hwithin : (streamWriting sha256 token chunks t).plan.within
      = 1 + (1 + (2 * (pieces chunks.flatten).length + (1 + (1 + (1 + 1))))) := by
    unfold Plan.within
    rw [hwriting]
    change _ + 4 = _
    omega
  rw [hbefore, hwithin]
  refine settles_bind (a := ()) (follows_still (.inl ?_)) ?_
  · rw [hentry]
    omega
  refine settles_bind (a := ()) (follows_forEach (k := 1) _ _ fun done x rest heq => ?_) ?_
  · refine follows_still (.inl ?_)
    have := congrArg List.length heq
    rw [List.length_append, List.length_cons] at this
    rw [hentry]
    omega
  refine settles_bind (a := ()) ((hf.follows_parentFd ?_).at ?_) ?_
  · rw [hentry]
    omega
  · rw [hentry]
    omega
  -- from here on the temporary file may exist, and `finally` removes it
  refine settles_return (settles_tryFinally (a := ()) ?_ hf.follows_removeTemporary)
  refine follows_bind (a := none) ?_ ?_
  · refine (follows_catching_caught (by decide) (fails_bind hf.fails_openFile)).at ?_
    rw [hentry]
    omega
  refine follows_bind (a := ()) (hf.follows_createFile.at ?_) ?_
  · rw [hentry]
    omega
  -- each piece is one write with one call before it
  refine follows_bind (a := ()) (follows_forEach (k := 2) _ _ fun done piece rest heq => ?_) ?_
  · have hlength : 2 * done.length + 1 < 2 * (pieces chunks.flatten).length + 2 := by
      have := congrArg List.length heq
      rw [List.length_append, List.length_cons] at this
      omega
    have hcontent : ∀ k, (streamWriting sha256 token chunks t).content k
        = ((pieces chunks.flatten).take (k / 2)).flatten := fun _ => rfl
    refine follows_bind (n := 1) (m := 1) (a := ()) ?_ ?_
    · refine (follows_written (k := 2 * done.length) (Nat.lt_of_succ_lt hlength) ?_).at ?_
      · rw [hcontent, hcontent, show (2 * done.length + 1) / 2 = 2 * done.length / 2 by omega]
      · rw [hnamed]
        omega
    · refine (hf.follows_append (k := 2 * done.length + 1) hlength ?_).at ?_
      · rw [hcontent, hcontent, show (2 * done.length + 1 + 1) / 2 = done.length + 1 by omega,
          show (2 * done.length + 1) / 2 = done.length by omega, heq, List.take_left,
          List.take_length_add_append, List.flatten_append]
        simp
      · rw [hnamed]
        omega
  -- after the last piece the temporary file holds everything
  have hfull : ∀ k, 2 * (pieces chunks.flatten).length ≤ k →
      (streamWriting sha256 token chunks t).content k = chunks.flatten := by
    intro k hk
    change ((pieces chunks.flatten).take (k / 2)).flatten = _
    rw [List.take_of_length_le (by omega), pieces_flatten]
  refine follows_bind (a := ()) ?_ ?_
  · refine (follows_written (k := 2 * (pieces chunks.flatten).length) ?_ ?_).at ?_
    · rw [hwriting]
      omega
    · rw [hfull _ (by omega), hfull _ (by omega)]
    · rw [hnamed]
      omega
  refine follows_bind (a := ()) ?_ ?_
  · refine (follows_written (k := 2 * (pieces chunks.flatten).length + 1) ?_ ?_).at ?_
    · rw [hwriting]
      omega
    · rw [hfull _ (by omega), hfull _ (by omega)]
    · rw [hnamed]
      omega
  refine follows_bind (a := ()) ((follows_catching (by decide) hf.follows_link).at ?_) ?_
  · rw [hnamed, hwriting]
    omega
  · refine follows_still (.inr (.inr ?_))
    unfold Plan.linked
    rw [hentry, hwriting]
    omega

end Writes

/-! ## What is accepted of what is left -/

/-- None of the first `k` directories of a digest was missing. -/
def NothingNew (t : ObjectTree) (digest : String) (k : Nat) : Prop :=
  ∀ d ∈ (canonicalDirectories digest).take k, d ∈ t.dirs

section Accepted

variable {w : Writing} {n : Nat}

/-- With the temporary name there, or a directory nothing lies below, the scanner refuses; and
nothing else is amiss before the link. -/
theorem Writing.Fresh.tidy_treeAt (hf : w.Fresh) :
    Tidy (w.treeAt n) ↔ n < w.plan.named ∧ NothingNew w.tree w.digest (w.plan.made n) := by
  by_cases hnamed : w.plan.named ≤ n
  · refine ⟨fun h => ?_, fun h => absurd h.1 (Nat.not_lt.mpr hnamed)⟩
    have hmem : (w.temporary, w.content (min (n - w.plan.named) w.plan.writing))
        ∈ (w.treeAt n).files := by
      unfold Writing.treeAt
      rw [if_pos hnamed]
      simp
    have := h.canonical _ hmem
    rw [hf.temporary] at this
    cases this
  · have hlinked : ¬ w.plan.linked ≤ n := by
      unfold Plan.named at hnamed
      unfold Plan.linked
      omega
    have hfiles : (w.treeAt n).files = w.tree.files := by
      unfold Writing.treeAt
      rw [if_neg hnamed, if_neg hlinked, List.append_nil, List.append_nil]
    have hexpected : (w.treeAt n).expectedDirectories = w.tree.expectedDirectories := by
      unfold ObjectTree.expectedDirectories
      rw [hfiles]
    have hdirs : ∀ d, d ∈ (w.treeAt n).dirs ↔
        d ∈ w.tree.dirs ∨ d ∈ (canonicalDirectories w.digest).take (w.plan.made n) :=
      fun d => mem_addDirectories _ _
    constructor
    · refine fun h => ⟨Nat.not_le.mp hnamed, fun d hd => ?_⟩
      have := (h.above d).mp ((hdirs d).mpr (.inr hd))
      rw [hexpected] at this
      exact (hf.tidy.above d).mpr this
    · rintro ⟨_, hnew⟩
      refine ⟨hfiles ▸ hf.tidy.canonical, hfiles ▸ hf.tidy.distinct, fun d => ?_⟩
      rw [hexpected, hdirs d, ← hf.tidy.above d]
      exact ⟨fun h => h.elim id (hnew d), .inl⟩

theorem Writing.Fresh.cleared_files (hf : w.Fresh) :
    (cleared w.temporary (w.treeAt n)).files = w.tree.files ++
      if w.plan.linked ≤ n then [(canonicalKey w.digest, w.content w.plan.writing)] else [] := by
  have hold : w.tree.files.filter (·.1 != w.temporary) = w.tree.files := by
    refine List.filter_eq_self.mpr fun f hmem => bne_iff_ne.mpr fun heq => ?_
    have := hf.tidy.canonical f hmem
    rw [heq, hf.temporary] at this
    cases this
  unfold cleared Writing.treeAt
  dsimp only
  rw [List.filter_append, List.filter_append, hold]
  have htemporary : (if w.plan.named ≤ n then
      [(w.temporary, w.content (min (n - w.plan.named) w.plan.writing))] else []).filter
        (·.1 != w.temporary) = [] := by
    split <;> simp
  rw [htemporary, List.append_nil]
  split
  · simp [hf.ne]
  · rfl

theorem Writing.Fresh.tidy_cleared (hf : w.Fresh) :
    Tidy (cleared w.temporary (w.treeAt n)) ↔
      w.plan.linked ≤ n ∨ NothingNew w.tree w.digest (w.plan.made n) := by
  have hdirs : ∀ d, d ∈ (cleared w.temporary (w.treeAt n)).dirs ↔
      d ∈ w.tree.dirs ∨ d ∈ (canonicalDirectories w.digest).take (w.plan.made n) :=
    fun d => mem_addDirectories _ _
  have hfiles := hf.cleared_files (n := n)
  -- linked, the object accounts for its directories; before, only old ones may be there
  by_cases hlinked : w.plan.linked ≤ n
  · rw [if_pos hlinked] at hfiles
    have hmade : w.plan.made n = 4 := by
      unfold Plan.made
      unfold Plan.linked at hlinked
      omega
    refine ⟨fun _ => .inl hlinked, fun _ => ⟨?_, ?_, fun d => ?_⟩⟩
    · intro f hmem
      rw [hfiles] at hmem
      rcases List.mem_append.mp hmem with hmem | hmem
      · exact hf.tidy.canonical f hmem
      · rw [List.mem_singleton.mp hmem]
        exact isCanonicalPath_canonicalKey hf.digest
    · rw [hfiles, List.map_append, List.nodup_append]
      refine ⟨hf.tidy.distinct, List.nodup_singleton _, fun key hkey key' hkey' heq => ?_⟩
      rw [List.map_singleton, List.mem_singleton] at hkey'
      rw [heq, hkey'] at hkey
      exact read_none_iff.mp hf.absent hkey
    · unfold ObjectTree.expectedDirectories
      rw [hdirs d, hfiles, List.flatMap_append, List.mem_append, hmade, hf.tidy.above d]
      simp only [List.flatMap_singleton, baseName_canonicalKey hf.digest]
      exact Iff.rfl
  · rw [if_neg hlinked, List.append_nil] at hfiles
    have hexpected : (cleared w.temporary (w.treeAt n)).expectedDirectories
        = w.tree.expectedDirectories := by
      unfold ObjectTree.expectedDirectories
      rw [hfiles]
    constructor
    · refine fun h => .inr fun d hd => ?_
      have := (h.above d).mp ((hdirs d).mpr (.inr hd))
      rw [hexpected] at this
      exact (hf.tidy.above d).mpr this
    · intro h
      have hnew := h.resolve_left hlinked
      refine ⟨hfiles ▸ hf.tidy.canonical, hfiles ▸ hf.tidy.distinct, fun d => ?_⟩
      rw [hexpected, hdirs d, ← hf.tidy.above d]
      exact ⟨fun h => h.elim id (hnew d), .inl⟩

end Accepted

/-! ## A write whose blob is there -/

section Present

variable {sha256 : List UInt8 → String} {token : String} {t : ObjectTree} {content : List UInt8}

theorem parentFd_present {digest : String} (hdirs : ∀ d ∈ canonicalDirectories digest, d ∈ t.dirs) :
    Follows (· = .os) (parentFd digest) (fun _ => t) 0 9 () := by
  unfold parentFd
  refine follows_bind (n := 1) (m := 8) (a := ()) (follows_act rfl) ?_
  refine follows_forEach (k := 2) _ _ fun done d rest heq => ?_
  have hthere : t.dirs.contains d = true := by
    rw [List.contains_iff_mem]
    refine hdirs d ?_
    rw [heq]
    simp
  refine follows_bind (n := 1) (m := 1) (a := ()) ?_ ?_
  · refine follows_catching_caught (by decide) (fails_call ?_)
    rw [hthere]
    rfl
  · refine follows_call ?_
    rw [if_pos hthere]

theorem openFile_present {path : String} {i : Nat} (hread : t.read path = some content) :
    Follows (· = .os) (openFile path) (fun _ => t) i 1 (some content) := by
  refine follows_call ?_
  rw [hread]

theorem always_removeTemporary {temporary : String} (hread : t.read temporary = none) :
    Always (· = t) (removeTemporary temporary) := by
  refine always_tryCatch (always_call fun s hs => ?_) fun e => ?_
  · rw [hs, hread]
  · exact always_ite (fun _ => always_pure ()) fun _ => always_raise e

theorem always_compareExisting (data : List UInt8) (opened : Option (List UInt8)) :
    Always (· = t) (compareExisting sha256 data opened) := by
  cases opened with
  | none => exact always_raise _
  | some content =>
      refine always_bind (always_forEach (fun _ => always_act fun _ hs => hs) _) fun _ => ?_
      exact always_bind (always_act fun _ hs => hs) fun _ => always_raiseWhen _ _

theorem immutable_stays {data : List UInt8}
    (hdirs : ∀ d ∈ canonicalDirectories (sha256 data), d ∈ t.dirs)
    (hread : t.read (canonicalKey (sha256 data)) = some content) :
    Stays (· = .os) (putImmutable sha256 token data) t := by
  refine stays_bind (a := ()) (parentFd_present hdirs) ?_
  refine stays_bind (a := some content) (i := 0) (n := 3) ?_ ?_
  · refine follows_catching (by decide) ?_
    refine follows_bind (n := 3) (m := 0) (a := content) ?_ follows_pure
    refine follows_bind (n := 1) (m := 2) (a := some content) (openFile_present hread) ?_
    refine follows_bind (n := 1) (m := 1) (a := ()) (follows_act rfl) ?_
    exact follows_bind (n := 1) (m := 0) (a := ()) (follows_act rfl) follows_pure
  · exact Always.stays (always_bind (always_raiseWhen _ _) fun _ => always_pure _)

theorem stream_stays {chunks : List (List UInt8)}
    (hdirs : ∀ d ∈ canonicalDirectories (sha256 chunks.flatten), d ∈ t.dirs)
    (hread : t.read (canonicalKey (sha256 chunks.flatten)) = some content)
    (htemporary : t.read (temporaryName ".stream-" token (sha256 chunks.flatten)) = none) :
    Stays (· = .os) (putStream sha256 token chunks) t := by
  refine stays_bind (a := ()) (i := 0) (n := 1) (follows_act rfl) ?_
  refine stays_bind (a := ()) (i := 0) (follows_forEach (k := 1) _ _ fun _ _ _ _ => ?_) ?_
  · exact follows_act rfl
  refine stays_bind (a := ()) (parentFd_present hdirs) ?_
  refine stays_return (stays_tryFinally ?_ (always_removeTemporary htemporary))
  refine stays_bind (a := some (some content)) (i := 0) (n := 1) ?_ ?_
  · refine follows_catching (by decide) ?_
    exact follows_bind (n := 1) (m := 0) (a := some content) (openFile_present hread) follows_pure
  · exact Always.stays (always_compareExisting _ _)

end Present

/-! ## One put -/

section Put

variable {env : RecoveryEnv} {t : ObjectTree} {p : Put}

/-- How the put is laid out where its blob is not there. -/
def Put.writing (sha256 : List UInt8 → String) (p : Put) (t : ObjectTree) : Writing :=
  match p.method with
  | .immutable data => immutableWriting sha256 p.token data t
  | .stream chunks => streamWriting sha256 p.token chunks t

/-- The faults spare the write: it does not end with the temporary name there, nor with a directory
made and the blob not linked. -/
def Writing.Spared (w : Writing) (faults : List (Fault BlobRaise)) : Prop :=
  ((halt w.plan.before w.plan.within faults).1 < w.plan.named ∨
      (halt w.plan.before w.plan.within faults).2 = true) ∧
    (w.plan.linked ≤ (halt w.plan.before w.plan.within faults).1 ∨
      NothingNew w.tree w.digest (w.plan.made (halt w.plan.before w.plan.within faults).1))

/-- **The condition** on a put and the tree before it. -/
def Put.Spared (sha256 : List UInt8 → String) (p : Put) (t : ObjectTree) : Prop :=
  (t.read (canonicalKey (sha256 p.data))).isSome = true ∨ (p.writing sha256 t).Spared p.faults

theorem writing_tree : (p.writing env.sha256 t).tree = t := by
  unfold Put.writing
  cases p.method <;> rfl

theorem writing_digest : (p.writing env.sha256 t).digest = env.sha256 p.data := by
  unfold Put.writing Put.data
  cases p.method <;> rfl

theorem writing_entry : 1 ≤ (p.writing env.sha256 t).plan.entry := by
  unfold Put.writing
  cases p.method with
  | immutable data => exact Nat.le_refl 1
  | stream chunks => exact Nat.le_add_left 1 _

/-- What is linked in the end is the data. -/
theorem writing_content :
    (p.writing env.sha256 t).content (p.writing env.sha256 t).plan.writing = p.data := by
  unfold Put.writing Put.data
  cases p.method with
  | immutable data => rfl
  | stream chunks =>
      change ((pieces chunks.flatten).take ((2 * (pieces chunks.flatten).length + 2) / 2)).flatten
        = chunks.flatten
      rw [List.take_of_length_le (by omega), pieces_flatten]

theorem writing_temporary :
    ∃ stem : String, stem.toList.head? = some '.' ∧ (p.writing env.sha256 t).temporary
      = temporaryName stem p.token (env.sha256 p.data) := by
  unfold Put.writing Put.data
  cases p.method with
  | immutable data => exact ⟨".put-", by decide, rfl⟩
  | stream chunks => exact ⟨".stream-", by decide, rfl⟩

theorem fresh_writing (h : Tidy t) (habsent : t.read (canonicalKey (env.sha256 p.data)) = none) :
    (p.writing env.sha256 t).Fresh := by
  have hdigest := env.sha256_format p.data
  obtain ⟨stem, hstem, htemporary⟩ := @writing_temporary env t p
  refine ⟨writing_tree ▸ h, writing_digest ▸ hdigest, ?_, ?_, ?_, ?_⟩
  · rw [writing_tree, writing_digest]
    exact habsent
  · rw [htemporary]
    exact not_isCanonicalPath_temporary hdigest hstem
  · rw [htemporary]
    exact temporaryName_length hdigest
  · unfold Put.writing
    cases p.method <;> rfl

/-- Where the put ends is a place of its timeline, with the temporary name or without. -/
theorem run_absent (h : Tidy t) (habsent : t.read (canonicalKey (env.sha256 p.data)) = none) :
    (p.run env.sha256 t).2 = restingState (p.writing env.sha256 t).treeAt
        (cleared (p.writing env.sha256 t).temporary)
        (halt (p.writing env.sha256 t).plan.before (p.writing env.sha256 t).plan.within p.faults).1
        (halt (p.writing env.sha256 t).plan.before (p.writing env.sha256 t).plan.within p.faults).2 ∧
      ∀ o, (p.run env.sha256 t).1 = .returned o →
        (halt (p.writing env.sha256 t).plan.before (p.writing env.sha256 t).plan.within
          p.faults).1 = (p.writing env.sha256 t).plan.linked + 1 := by
  have hfresh := fresh_writing h habsent
  have hzero := treeAt_zero (w := p.writing env.sha256 t) writing_entry
  rw [writing_tree] at hzero
  rw [← Plan.before_within]
  unfold Put.run Put.writing at *
  cases hm : p.method with
  | immutable data =>
      rw [hm] at hfresh hzero
      have hsettles := immutable_settles hfresh p.faults p.io
      rw [hzero, Nat.zero_add] at hsettles
      exact hsettles
  | stream chunks =>
      rw [hm] at hfresh hzero
      have hsettles := stream_settles hfresh p.faults p.io
      rw [hzero, Nat.zero_add] at hsettles
      exact hsettles

/-- A put whose blob is there changes nothing. -/
theorem run_present (h : Tidy t)
    (hpresent : (t.read (canonicalKey (env.sha256 p.data))).isSome = true) :
    (p.run env.sha256 t).2 = t := by
  have hdirs := h.directories (env.sha256_format p.data) hpresent
  obtain ⟨content, hread⟩ := Option.isSome_iff_exists.mp hpresent
  unfold Put.run
  unfold Put.data at hdirs hread
  cases hm : p.method with
  | immutable data =>
      rw [hm] at hdirs hread
      exact immutable_stays hdirs hread p.faults p.io
  | stream chunks =>
      rw [hm] at hdirs hread
      refine stream_stays hdirs hread (h.read_none ?_) p.faults p.io
      exact not_isCanonicalPath_temporary (env.sha256_format _) (by decide)

/-- **One put** leaves a tree the scanner accepts exactly when the faults spare it. -/
theorem tidy_run_iff (h : Tidy t) :
    Tidy (p.run env.sha256 t).2 ↔ p.Spared env.sha256 t := by
  unfold Put.Spared
  cases hread : t.read (canonicalKey (env.sha256 p.data)) with
  | some content =>
      rw [run_present h (by rw [hread]; rfl)]
      exact ⟨fun _ => .inl rfl, fun _ => h⟩
  | none =>
      have hfresh := @fresh_writing env t p h hread
      rw [(run_absent h hread).1]
      unfold restingState Writing.Spared
      generalize halt (p.writing env.sha256 t).plan.before (p.writing env.sha256 t).plan.within
        p.faults = stop
      obtain ⟨n, unlinked⟩ := stop
      cases unlinked with
      | true =>
          simp only [if_true, hfresh.tidy_cleared, or_true, true_and, Option.isSome_none,
            Bool.false_eq_true, false_or]
      | false =>
          have hplaces : (p.writing env.sha256 t).plan.named < (p.writing env.sha256 t).plan.linked := by
            unfold Plan.named Plan.linked
            omega
          simp only [Bool.false_eq_true, if_false, hfresh.tidy_treeAt, or_false, Option.isSome_none,
            false_or]
          refine and_congr_right fun hn => ⟨.inr, fun hor => hor.resolve_left ?_⟩
          omega

/-- What a spared put does to the files. -/
theorem run_files (h : Tidy t) (hspared : p.Spared env.sha256 t) :
    (p.run env.sha256 t).2.files = t.files ∨
      (p.run env.sha256 t).2.files
        = t.files ++ [(canonicalKey (env.sha256 p.data), p.data)] := by
  cases hread : t.read (canonicalKey (env.sha256 p.data)) with
  | some content => exact .inl (by rw [run_present h (by rw [hread]; rfl)])
  | none =>
      have hfresh := @fresh_writing env t p h hread
      have hspared := hspared.resolve_left (by rw [hread]; simp)
      have hfiles := fun n => hfresh.cleared_files (n := n)
      rw [(run_absent h hread).1]
      unfold restingState
      unfold Writing.Spared at hspared
      generalize halt (p.writing env.sha256 t).plan.before (p.writing env.sha256 t).plan.within
        p.faults = stop at hspared ⊢
      obtain ⟨n, unlinked⟩ := stop
      rw [writing_tree, writing_content, writing_digest] at hfiles
      cases unlinked with
      | true =>
          rw [if_pos rfl, hfiles n]
          split
          · exact .inr rfl
          · exact .inl (List.append_nil _)
      | false =>
          have hn : n < (p.writing env.sha256 t).plan.named := hspared.1.resolve_right (by simp)
          have hlinked : ¬ (p.writing env.sha256 t).plan.linked ≤ n := by
            unfold Plan.named at hn
            unfold Plan.linked
            omega
          refine .inl ?_
          rw [if_neg (by simp)]
          unfold Writing.treeAt
          rw [if_neg (Nat.not_le.mpr hn), if_neg hlinked, List.append_nil, List.append_nil,
            writing_tree]

theorem run_returns : ∀ o, (p.run env.sha256 t).1 = .returned o →
    o = ⟨env.sha256 p.data, p.data.length, canonicalKey (env.sha256 p.data)⟩ := by
  unfold Put.run Put.data
  cases p.method with
  | immutable data =>
      refine fun o ho => (?_ : Returns (putImmutable env.sha256 p.token data) _) _ _ o ho
      refine returns_bind fun _ => returns_bind fun existing => ?_
      cases existing with
      | some content => exact returns_bind fun _ => returns_pure _
      | none => exact returns_bind fun _ => returns_bind fun _ => returns_pure _
  | stream chunks =>
      refine fun o ho => (?_ : Returns (putStream env.sha256 p.token chunks) _) _ _ o ho
      exact returns_bind fun _ => returns_bind fun _ => returns_bind fun _ =>
        returns_bind fun _ => returns_pure _

/-- The blob of a put that returned is there. -/
theorem run_stored (h : Tidy t) (hspared : p.Spared env.sha256 t) {o : BlobObject}
    (ho : (p.run env.sha256 t).1 = .returned o) :
    ((p.run env.sha256 t).2.read o.storageKey).isSome = true := by
  rw [run_returns o ho]
  dsimp only
  cases hread : t.read (canonicalKey (env.sha256 p.data)) with
  | some content =>
      rw [run_present h (by rw [hread]; rfl), hread]
      rfl
  | none =>
      have hfresh := @fresh_writing env t p h hread
      obtain ⟨hstate, hplace⟩ := @run_absent env t p h hread
      have hn := hplace o ho
      have hspared := hspared.resolve_left (by rw [hread]; simp)
      unfold Writing.Spared at hspared
      rw [hn] at hspared hstate
      have hunlinked := hspared.1.resolve_left (by unfold Plan.named Plan.linked; omega)
      rw [hstate, hunlinked]
      have hfiles := hfresh.cleared_files (n := (p.writing env.sha256 t).plan.linked + 1)
      rw [if_pos (Nat.le_succ _), writing_digest] at hfiles
      by_contra hnone
      rw [Bool.not_eq_true, Option.isSome_eq_false_iff, Option.isNone_iff_eq_none] at hnone
      refine read_none_iff.mp hnone ?_
      change canonicalKey (env.sha256 p.data) ∈ ((cleared _ _).files).map Prod.fst
      rw [hfiles]
      simp

end Put

/-! ## Runs -/

section Runs

variable (env : RecoveryEnv) {puts : List Put}

/-- Every put of a run is spared. -/
def SparedRun (puts : List Put) : Prop :=
  ∀ done p rest, puts = done ++ p :: rest → p.Spared env.sha256 (rootAfter env.sha256 done)

/-- The root after some puts can be backed up: the scan returns the keys of the blobs that are
stored, each of which is a put's data under its digest; and what a put returned is one of them. -/
structure Backed (puts : List Put) : Prop where
  accepted : ∀ limits : RecoveryLimits, (rootAfter env.sha256 puts).files.length ≤ limits.maxObjects →
    ∃ keys, canonicalKeys limits (rootAfter env.sha256 puts) = .ok keys ∧ keys.Pairwise (· < ·) ∧
      ∀ key, key ∈ keys ↔ ((rootAfter env.sha256 puts).read key).isSome = true
  stored : ∀ key content, (rootAfter env.sha256 puts).read key = some content →
    ∃ p ∈ puts, p.data = content ∧ key = canonicalKey (env.sha256 content)
  returned : ∀ done p rest, puts = done ++ p :: rest →
    ∀ o, (p.run env.sha256 (rootAfter env.sha256 done)).1 = .returned o →
      ((rootAfter env.sha256 puts).read o.storageKey).isSome = true

variable {env}

theorem rootAfter_concat (puts : List Put) (p : Put) : rootAfter env.sha256 (puts ++ [p])
    = (p.run env.sha256 (rootAfter env.sha256 puts)).2 := by
  unfold rootAfter
  rw [List.foldl_append]
  rfl

theorem SparedRun.prefix {p : Put} (h : SparedRun env (puts ++ [p])) : SparedRun env puts :=
  fun done q rest heq => h done q (rest ++ [p]) (by rw [heq]; simp)

theorem SparedRun.last {p : Put} (h : SparedRun env (puts ++ [p])) :
    p.Spared env.sha256 (rootAfter env.sha256 puts) := h puts p [] rfl

theorem tidy_rootAfter (h : SparedRun env puts) : Tidy (rootAfter env.sha256 puts) := by
  induction puts using List.reverseRecOn with
  | nil => exact tidy_empty
  | append_singleton puts p ih =>
      rw [rootAfter_concat]
      exact (tidy_run_iff (ih h.prefix)).mpr h.last

theorem stored_rootAfter (h : SparedRun env puts) {f : String × List UInt8}
    (hf : f ∈ (rootAfter env.sha256 puts).files) :
    ∃ p ∈ puts, f = (canonicalKey (env.sha256 p.data), p.data) := by
  induction puts using List.reverseRecOn with
  | nil => exact absurd hf (by simp [rootAfter])
  | append_singleton puts p ih =>
      rw [rootAfter_concat] at hf
      have hold : f ∈ (rootAfter env.sha256 puts).files →
          ∃ q ∈ puts ++ [p], f = (canonicalKey (env.sha256 q.data), q.data) := by
        intro hmem
        obtain ⟨q, hq, heq⟩ := ih h.prefix hmem
        exact ⟨q, List.mem_append_left _ hq, heq⟩
      rcases run_files (tidy_rootAfter h.prefix) h.last with hfiles | hfiles
      · exact hold (hfiles ▸ hf)
      · rw [hfiles] at hf
        rcases List.mem_append.mp hf with hmem | hmem
        · exact hold hmem
        · exact ⟨p, by simp, List.mem_singleton.mp hmem⟩

theorem returned_rootAfter (h : SparedRun env puts) {done rest : List Put} {p : Put}
    (heq : puts = done ++ p :: rest) {o : BlobObject}
    (ho : (p.run env.sha256 (rootAfter env.sha256 done)).1 = .returned o) :
    ((rootAfter env.sha256 puts).read o.storageKey).isSome = true := by
  induction rest using List.reverseRecOn generalizing puts with
  | nil =>
      subst heq
      rw [rootAfter_concat]
      exact run_stored (tidy_rootAfter h.prefix) h.last ho
  | append_singleton rest q ih =>
      rw [← List.cons_append, ← List.append_assoc] at heq
      subst heq
      have hread := isSome_read_iff.mp (ih h.prefix rfl)
      rw [rootAfter_concat]
      refine isSome_read_iff.mpr ?_
      rcases run_files (tidy_rootAfter h.prefix) h.last with hfiles | hfiles
      · rwa [hfiles]
      · rw [hfiles, List.map_append]
        exact List.mem_append_left _ hread

theorem Backed.of_spared (h : SparedRun env puts) : Backed env puts where
  accepted limits hcount := by
    have htidy := tidy_rootAfter h
    refine ⟨_, canonicalKeys_ok.mpr ⟨htidy.canonical, hcount, htidy.above, rfl⟩, ?_, fun key => ?_⟩
    · have hnodup : (orderBy id ((rootAfter env.sha256 puts).files.map Prod.fst)).Nodup :=
        (orderBy_perm id _).nodup_iff.mpr htidy.distinct
      exact (orderBy_pairwise id _).imp₂ (fun _ _ hle hne => lt_of_le_of_ne hle hne) hnodup
    · rw [mem_orderBy, isSome_read_iff]
  stored key content hread := by
    have hmem : (key, content) ∈ (rootAfter env.sha256 puts).files := by
      obtain ⟨l₁, l₂, heq, _⟩ := List.lookup_eq_some_iff.mp hread
      rw [heq]
      simp
    obtain ⟨p, hp, heq⟩ := stored_rootAfter h hmem
    obtain ⟨rfl, rfl⟩ := Prod.mk.inj heq
    exact ⟨p, hp, rfl, rfl⟩
  returned done p rest heq o ho := returned_rootAfter h heq ho

/-- What can be backed up is tidy. -/
theorem Backed.tidy (h : Backed env puts) : Tidy (rootAfter env.sha256 puts) := by
  obtain ⟨keys, hkeys, hsorted, _⟩ := h.accepted
    ⟨(rootAfter env.sha256 puts).files.length, 0, 0, 0, 0⟩ (Nat.le_refl _)
  obtain ⟨hcanonical, _, hdirs, rfl⟩ := canonicalKeys_ok.mp hkeys
  refine ⟨hcanonical, ?_, hdirs⟩
  exact (orderBy_perm id _).nodup_iff.mp (hsorted.imp fun h => h.ne)

/-- **The canonical namespace can be backed up** all along a run of puts exactly when the faults
spare each of them. -/
theorem namespace_backed (env : RecoveryEnv) (puts : List Put) :
    (∀ done, done <+: puts → Backed env done) ↔ SparedRun env puts := by
  constructor
  · rintro h done p rest heq
    have hbefore : Backed env done := h done ⟨p :: rest, heq.symm⟩
    have hafter : Backed env (done ++ [p]) := h (done ++ [p]) ⟨rest, by rw [heq]; simp⟩
    have htidy := hafter.tidy
    rw [rootAfter_concat] at htidy
    exact (tidy_run_iff hbefore.tidy).mp htidy
  · rintro h done ⟨rest, rfl⟩
    refine Backed.of_spared fun front p back heq => h front p (back ++ rest) ?_
    rw [heq]
    simp

/-- A put whose file could not be created, and a put that was killed before it wrote to it. -/
theorem namespace_refused :
    let sha256 : List UInt8 → String := fun _ => String.ofList (List.replicate 64 '0')
    let failed : Put := ⟨.immutable [1], "a", List.replicate 10 .none ++ [.raise .os false],
      fun e after h => by simp at h; exact h.1⟩
    let killed : Put := ⟨.immutable [1], "a", List.replicate 11 .none ++ [.kill false],
      fun e after h => by simp at h⟩
    (failed.run sha256 ⟨[], []⟩).1 = .raised .os ∧
      canonicalKeys ⟨9, 9, 9, 9, 9⟩ (rootAfter sha256 [failed])
        = .error (.recoverySet "RECOVERY_CANONICAL_NAMESPACE_INVALID") ∧
      canonicalKeys ⟨9, 9, 9, 9, 9⟩ (rootAfter sha256 [killed])
        = .error (.recoverySet "RECOVERY_CANONICAL_NAMESPACE_INVALID") := by
  decide +kernel

end Runs

end BlobStorage

end NanoAural
