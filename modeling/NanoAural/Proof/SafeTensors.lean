import NanoAural.ControlFoley.SafeTensor
import Mathlib.Algebra.BigOperators.Group.List.Basic

/-!
# Safe tensor bundles are well formed

What an accepted payload holds: distinct legal names, tensors of the size their shape
asks for, and ranges that lie one after the other and leave nothing of the data out.
The ranges are settled by the cursor over the sorted ranges, which starts at zero and
ends at the length of the data.
-/

namespace NanoAural

open Relational JsonText

namespace SafeTensor

open JsonLoads

/-! ## The cursor -/

/-- Ranges the cursor passes over lie one after the other. -/
theorem cover_pairwise {ranges : List (Nat × Nat)} {cursor last : Nat}
    (h : cover cursor ranges = some last) (hne : ∀ r ∈ ranges, r.1 < r.2) :
    cursor ≤ last ∧ (∀ r ∈ ranges, cursor ≤ r.1 ∧ r.2 ≤ last)
      ∧ ranges.Pairwise fun a b => a.2 ≤ b.1 := by
  induction ranges generalizing cursor with
  | nil =>
      rw [cover] at h
      exact ⟨Nat.le_of_eq (Option.some.inj h), fun _ hr => absurd hr List.not_mem_nil, .nil⟩
  | cons r rest ih =>
      obtain ⟨start, stop⟩ := r
      rw [cover] at h
      split at h
      · rename_i heq
        subst heq
        have hr : start < stop := hne (start, stop) List.mem_cons_self
        obtain ⟨hle, hin, hpair⟩ := ih h fun r hr => hne r (List.mem_cons_of_mem _ hr)
        refine ⟨by omega, fun r hmem => ?_, .cons (fun r hmem => (hin r hmem).1) hpair⟩
        rcases List.mem_cons.mp hmem with rfl | hmem
        · exact ⟨Nat.le_refl _, hle⟩
        · have := hin r hmem
          omega
      · cases h

/-- They leave no position out. -/
theorem cover_mem {ranges : List (Nat × Nat)} {cursor last : Nat}
    (h : cover cursor ranges = some last) {i : Nat} (hlow : cursor ≤ i) (hhigh : i < last) :
    ∃ r ∈ ranges, r.1 ≤ i ∧ i < r.2 := by
  induction ranges generalizing cursor with
  | nil =>
      rw [cover] at h
      have := Option.some.inj h
      omega
  | cons r rest ih =>
      obtain ⟨start, stop⟩ := r
      rw [cover] at h
      split at h
      · rename_i heq
        subst heq
        by_cases hin : i < stop
        · exact ⟨(start, stop), List.mem_cons_self, hlow, hin⟩
        · obtain ⟨r, hr, hi⟩ := ih h (by omega)
          exact ⟨r, List.mem_cons_of_mem _ hr, hi⟩
      · cases h

/-- What lies in them, one after the other, is what they cover. -/
theorem cover_flatten (data : List UInt8) {ranges : List (Nat × Nat)} {cursor last : Nat}
    (h : cover cursor ranges = some last) (hne : ∀ r ∈ ranges, r.1 < r.2)
    (hlast : last ≤ data.length) :
    (ranges.map fun r => slice data r.1 r.2).flatten = slice data cursor last := by
  induction ranges generalizing cursor with
  | nil =>
      rw [cover] at h
      rw [← Option.some.inj h, slice, List.drop_eq_nil_of_le (by rw [List.length_take]; omega)]
      rfl
  | cons r rest ih =>
      obtain ⟨start, stop⟩ := r
      rw [cover] at h
      split at h
      · rename_i heq
        subst heq
        have hne' := fun r hr => hne r (List.mem_cons_of_mem (start, stop) hr)
        have hr : start < stop := hne (start, stop) List.mem_cons_self
        have hle := (cover_pairwise h hne').1
        rw [List.map_cons, List.flatten_cons, ih h hne']
        -- the data up to the end is what lies before the stop and what lies after it
        have hsplit : data.take last = data.take stop ++ (data.take last).drop stop := by
          have htake : data.take stop = (data.take last).take stop := by
            rw [List.take_take, Nat.min_eq_left hle]
          rw [htake, List.take_append_drop]
        simp only [slice]
        conv_rhs => rw [hsplit]
        rw [List.drop_append_of_le_length (by rw [List.length_take]; omega)]
      · cases h

/-! ## One tensor -/

theorem expectedBytes_ok {length size total : Nat} {shape : List Nat}
    (h : expectedBytes length size shape = .ok total) : total = size * shape.prod := by
  induction shape generalizing size with
  | nil =>
      rw [expectedBytes] at h
      rw [← Except.ok.inj h, List.prod_nil, Nat.mul_one]
  | cons dimension rest ih =>
      rw [expectedBytes] at h
      split at h
      · cases h
      · rw [ih h, List.prod_cons, Nat.mul_assoc]

/-- A tensor whose range is that of its shape and lies in data of this length. -/
structure Sized (length : Nat) (t : SafeTensorDescriptor) : Prop where
  shaped : t.shape ≠ [] ∧ ∀ d ∈ t.shape, 0 < d
  bytes : ∃ width, (t.dtype, width) ∈ dtypeBytes ∧ t.dataEnd - t.dataStart = width * t.shape.prod
  nonEmpty : t.dataStart < t.dataEnd
  within : t.dataEnd ≤ length

/-- The text of a legal name. -/
def nameText (key : List Nat) : String := String.ofList (key.map Char.ofNat)

theorem tensorName_ok {key : List Nat} {u : Unit} (h : tensorName key = .ok u) :
    isShortIdentifier key = true := by
  rw [tensorName, raiseIf_ok] at h
  simpa using h

theorem isShortIdentifier_ascii {key : List Nat} (h : isShortIdentifier key = true) :
    ∀ c ∈ key, c < 128 := by
  unfold isShortIdentifier at h
  simp only [Bool.and_eq_true, List.all_eq_true, decide_eq_true_eq] at h
  exact h.1.2

theorem codes_nameText {key : List Nat} (h : isShortIdentifier key = true) :
    codes (nameText key) = key := by
  have hascii := isShortIdentifier_ascii h
  rw [codes, nameText, String.toList_ofList, List.map_map]
  conv_rhs => rw [← List.map_id key]
  refine List.map_congr_left fun c hc => ?_
  have := hascii c hc
  exact ofNat_toNat (Or.inl (by omega))

theorem readExtent_ok {shape offsets : Option Loaded} {dimensions : List Nat} {start stop : Int}
    (h : readExtent shape offsets = some (dimensions, start, stop)) :
    dimensions ≠ [] ∧ ∀ d ∈ dimensions, 0 < d := by
  unfold readExtent at h
  split at h
  · split at h
    · split at h
      · cases h
      · rename_i ns _ _ _ _ hpos
        cases h
        simp only [Bool.or_eq_true, List.isEmpty_iff, List.any_eq_true, decide_eq_true_eq, not_or,
          not_exists, not_and, Int.not_le] at hpos
        refine ⟨fun hnil => hpos.1 (List.map_eq_nil_iff.mp hnil), fun d hd => ?_⟩
        obtain ⟨n, hn, rfl⟩ := List.mem_map.mp hd
        have := hpos.2 n hn
        omega
    · cases h
  · cases h

/-- **What one step of the loop accepts.** -/
theorem readDescriptor_ok {length : Nat} {entry : List Nat × Loaded} {t : SafeTensorDescriptor}
    (h : readDescriptor length entry = .ok t) :
    isShortIdentifier entry.1 = true ∧ t.name = nameText entry.1 ∧ Sized length t := by
  unfold readDescriptor at h
  rw [except_bind_ok] at h
  obtain ⟨u, hname, h⟩ := h
  split at h
  · rw [raiseIf_bind_ok] at h
    obtain ⟨-, h⟩ := h
    split at h
    · cases h
    · rename_i dtype width hdtype
      split at h
      · cases h
      · rename_i shape start stop hextent
        rw [except_bind_ok] at h
        obtain ⟨size, hsize, h⟩ := h
        rw [raiseIf_bind_ok] at h
        obtain ⟨hrange, h⟩ := h
        simp only [Bool.or_eq_false_iff, decide_eq_false_iff_not, bne_eq_false_iff_eq, Int.not_lt,
          Int.not_le] at hrange
        obtain ⟨⟨⟨hstart, hstop⟩, hlength⟩, hspan⟩ := hrange
        have hwidth : (dtype, width) ∈ dtypeBytes := by
          unfold dtypeOf at hdtype
          split at hdtype
          · exact List.mem_of_find?_eq_some hdtype
          · cases hdtype
        rw [← Except.ok.inj h]
        refine ⟨tensorName_ok hname, rfl, readExtent_ok hextent, ⟨width, hwidth, ?_⟩, ?_, ?_⟩
        · rw [← expectedBytes_ok hsize]
          dsimp only
          omega
        · dsimp only
          omega
        · dsimp only
          omega
  · cases h

/-! ## The bundle -/

theorem mapM_forall₂ {ε α β : Type} {f : α → Except ε β} {xs : List α} {ys : List β}
    (h : xs.mapM f = .ok ys) : List.Forall₂ (fun x y => f x = .ok y) xs ys := by
  induction xs generalizing ys with
  | nil =>
      rw [List.mapM_nil] at h
      rw [← Except.ok.inj h]
      exact .nil
  | cons x rest ih =>
      rw [List.mapM_cons, except_bind_ok] at h
      obtain ⟨y, hy, h⟩ := h
      rw [except_bind_ok] at h
      obtain ⟨ys', hys, h⟩ := h
      rw [← Except.ok.inj h]
      exact .cons hy (ih hys)

/-- **Well-formed**: what a caller may rely on. -/
structure WellFormed (bundle : SafeTensorBundle) : Prop where
  distinct : (bundle.tensors.map SafeTensorDescriptor.name).Nodup
  legal : ∀ t ∈ bundle.tensors, isShortIdentifier (codes t.name) = true
  sized : ∀ t ∈ bundle.tensors, Sized bundle.data.length t
  disjoint : bundle.tensors.Pairwise fun s t => s.dataEnd ≤ t.dataStart ∨ t.dataEnd ≤ s.dataStart
  covered : ∀ i < bundle.data.length, ∃ t ∈ bundle.tensors, t.dataStart ≤ i ∧ i < t.dataEnd
  concatenated : ∃ (ordered : List SafeTensorDescriptor) (parts : List (List UInt8)),
    ordered.Perm bundle.tensors
    ∧ ordered.Pairwise (fun s t => s.dataStart < t.dataStart)
    ∧ ordered.mapM (fun t => bundle.tensorBytes t.name) = .ok parts ∧ parts.flatten = bundle.data

/-- A tensor's bytes are found under its name. -/
theorem tensorBytes_mem {bundle : SafeTensorBundle}
    (h : (bundle.tensors.map SafeTensorDescriptor.name).Nodup) {t : SafeTensorDescriptor}
    (ht : t ∈ bundle.tensors) :
    bundle.tensorBytes t.name = .ok (slice bundle.data t.dataStart t.dataEnd) := by
  have hfind : bundle.tensors.find? (fun tensor => tensor.name == t.name) = some t := by
    generalize bundle.tensors = tensors at h ht
    induction tensors with
    | nil => exact absurd ht List.not_mem_nil
    | cons s rest ih =>
        rw [List.map_cons, List.nodup_cons] at h
        rcases List.mem_cons.mp ht with rfl | ht
        · exact List.find?_cons_of_pos (by simp)
        · have hne : ¬ (s.name == t.name) = true := fun heq =>
            h.1 (List.mem_map.mpr ⟨t, ht, (beq_iff_eq.mp heq).symm⟩)
          rw [List.find?_cons_of_neg (p := fun tensor : SafeTensorDescriptor => tensor.name == t.name) hne]
          exact ih h.2 ht
  rw [SafeTensorBundle.tensorBytes, hfind]

theorem mapM_ok_map {ε α β : Type} {f : α → Except ε β} {g : α → β} {xs : List α}
    (h : ∀ x ∈ xs, f x = .ok (g x)) : xs.mapM f = .ok (xs.map g) := by
  induction xs with
  | nil => rfl
  | cons x rest ih =>
      rw [List.mapM_cons, h x List.mem_cons_self, ih fun y hy => h y (List.mem_cons_of_mem _ hy)]
      rfl

/-- The range of a tensor. -/
def SafeTensorDescriptor.range (t : SafeTensorDescriptor) : Nat × Nat := (t.dataStart, t.dataEnd)

/-- Tensors of legal names and sizes whose ranges the cursor passes over are well formed. -/
theorem wellFormed_of_cover {codecVersion schemaVersion : String}
    {tensors : List SafeTensorDescriptor} {data : List UInt8}
    (hdistinct : (tensors.map SafeTensorDescriptor.name).Nodup)
    (hlegal : ∀ t ∈ tensors, isShortIdentifier (codes t.name) = true)
    (hsized : ∀ t ∈ tensors, Sized data.length t)
    (hcover : cover 0 (sortRanges (tensors.map SafeTensorDescriptor.range)) = some data.length) :
    WellFormed ⟨codecVersion, schemaVersion, tensors, data⟩ := by
  let ordered := tensors.mergeSort fun s t => s.range.1 < t.range.1
    || (s.range.1 == t.range.1 && s.range.2 ≤ t.range.2)
  have hperm : ordered.Perm tensors := List.mergeSort_perm _ _
  have hordered : sortRanges (tensors.map SafeTensorDescriptor.range)
      = ordered.map SafeTensorDescriptor.range :=
    (List.map_mergeSort (f := SafeTensorDescriptor.range) fun _ _ _ _ => rfl).symm
  rw [hordered] at hcover
  have hne : ∀ r ∈ ordered.map SafeTensorDescriptor.range, r.1 < r.2 := by
    intro r hr
    obtain ⟨t, ht, rfl⟩ := List.mem_map.mp hr
    exact (hsized t (hperm.mem_iff.mp ht)).nonEmpty
  obtain ⟨-, -, hpair⟩ := cover_pairwise hcover hne
  rw [List.pairwise_map] at hpair
  have hbytes : ∀ t ∈ ordered, SafeTensorBundle.tensorBytes
      ⟨codecVersion, schemaVersion, tensors, data⟩ t.name
        = .ok (slice data t.range.1 t.range.2) := fun t ht =>
    tensorBytes_mem hdistinct (hperm.mem_iff.mp ht)
  refine ⟨hdistinct, hlegal, hsized, ?_, fun i hi => ?_, ordered, _, hperm, ?_,
    mapM_ok_map hbytes, ?_⟩
  · exact (hperm.pairwise_iff fun h => h.symm).mp (hpair.imp fun h => Or.inl h)
  · obtain ⟨r, hr, hin⟩ := cover_mem hcover (Nat.zero_le i) hi
    obtain ⟨t, ht, rfl⟩ := List.mem_map.mp hr
    exact ⟨t, hperm.mem_iff.mp ht, hin⟩
  · refine hpair.imp_of_mem fun {s t} hs _ hle => ?_
    have hrange : s.dataEnd ≤ t.dataStart := hle
    have := (hsized s (hperm.mem_iff.mp hs)).nonEmpty
    omega
  · have hflatten := cover_flatten data hcover hne (Nat.le_refl _)
    rw [List.map_map] at hflatten
    rw [slice, List.take_length, List.drop_zero] at hflatten
    exact hflatten

/-- What the loop accepts: the names are those of the header, and each tensor is legal and sized. -/
theorem readDescriptors_ok {length : Nat} {entries : List (List Nat × Loaded)}
    {tensors : List SafeTensorDescriptor}
    (h : List.Forall₂ (fun entry t => readDescriptor length entry = .ok t) entries tensors) :
    tensors.map (fun t => codes t.name) = entries.map Prod.fst
      ∧ ∀ t ∈ tensors, isShortIdentifier (codes t.name) = true ∧ Sized length t := by
  induction h with
  | nil => exact ⟨rfl, fun _ ht => absurd ht List.not_mem_nil⟩
  | cons hentry _ ih =>
      obtain ⟨hlegal, hname, hsized⟩ := readDescriptor_ok hentry
      have hcodes := codes_nameText hlegal
      rw [← hname] at hcodes
      refine ⟨by rw [List.map_cons, List.map_cons, ih.1, hcodes], fun t ht => ?_⟩
      rcases List.mem_cons.mp ht with rfl | ht
      · exact ⟨hcodes ▸ hlegal, hsized⟩
      · exact ih.2 t ht

/-- What the checks before the decoding hand on is fixed by the payload. -/
theorem splitPayload_ok {payload headerBytes data : List UInt8}
    {codecVersion schemaVersion : String} {maxSizeBytes : Option Int}
    (h : splitPayload payload codecVersion schemaVersion maxSizeBytes = .ok (headerBytes, data)) :
    (∀ limit ∈ maxSizeBytes, (payload.length : Int) ≤ limit)
      ∧ headerBytes = (payload.drop 8).take (unpack (payload.take 8))
      ∧ data = payload.drop (8 + unpack (payload.take 8)) := by
  simp only [splitPayload, except_bind_ok, raiseIf_ok, exists_const] at h
  obtain ⟨_, -, _, -, -, _, hcheck, -, -, h⟩ := h
  cases h
  refine ⟨fun limit hmem => ?_, rfl, rfl⟩
  cases hmem
  simp only [checkLimit, except_bind_ok, raiseIf_ok, exists_const, decide_eq_false_iff_not,
    Int.not_lt] at hcheck
  exact hcheck.2

/-- **What is accepted is well formed**, and within the limit. -/
theorem validate_wellFormed {py : Interpreter} {payload : List UInt8}
    {codecVersion schemaVersion : String} {maxSizeBytes : Option Int} {bundle : SafeTensorBundle}
    (h : validateSafeTensorBundle py payload codecVersion schemaVersion maxSizeBytes = .ok bundle) :
    WellFormed bundle ∧ (∀ limit ∈ maxSizeBytes, (payload.length : Int) ≤ limit)
      ∧ bundle.data = payload.drop (8 + unpack (payload.take 8)) := by
  unfold validateSafeTensorBundle at h
  rw [except_bind_ok] at h
  obtain ⟨⟨headerBytes, data⟩, hsplit, h⟩ := h
  obtain ⟨hlimit, -, hdata⟩ := splitPayload_ok hsplit
  rw [except_bind_ok] at h
  obtain ⟨header, hheader, h⟩ := h
  -- `object_pairs_hook` refuses a name that comes twice
  have hnodup : ∀ members, header = .object members → (members.map Prod.fst).Nodup := by
    rintro members rfl
    unfold loadHeader at hheader
    split at hheader
    · cases hheader
    · split at hheader
      · rename_i hload
        exact loads_nodup (hload.trans (congrArg Except.ok (Except.ok.inj hheader)))
      · cases hheader
      · cases hheader
      · cases hheader
  dsimp only at h
  split at h
  · rename_i members
    simp only [raiseIf_bind_ok] at h
    obtain ⟨-, -, h⟩ := h
    rw [except_bind_ok] at h
    obtain ⟨tensors, htensors, h⟩ := h
    rw [raiseIf_bind_ok] at h
    obtain ⟨hcover, h⟩ := h
    obtain ⟨hnames, heach⟩ := readDescriptors_ok (mapM_forall₂ htensors)
    have hkeys : (tensors.map fun t => codes t.name).Nodup := by
      rw [hnames]
      exact (hnodup members rfl).sublist (List.filter_sublist.map _)
    have hdistinct : (tensors.map SafeTensorDescriptor.name).Nodup := by
      rw [← Function.comp_def, ← List.map_map] at hkeys
      exact hkeys.of_map _
    rw [← Except.ok.inj h]
    exact ⟨wellFormed_of_cover hdistinct (fun t ht => (heach t ht).1) (fun t ht => (heach t ht).2)
      (bne_eq_false_iff_eq.mp hcover), hlimit, hdata⟩
  · cases h

/-! ## What is raised -/

/-- Nothing but a `ValueError` is raised. -/
def Tame {α : Type} (x : Except SafeRaise α) : Prop :=
  ∀ e, x = .error e → ∃ message, e = .value message

theorem tame_ok {α : Type} (a : α) : Tame (.ok a : Except SafeRaise α) := fun _ h => by cases h

theorem tame_value {α : Type} (message : String) :
    Tame (.error (.value message) : Except SafeRaise α) :=
  fun _ h => ⟨message, (Except.error.inj h).symm⟩

theorem tame_raiseIf (c : Bool) (message : String) : Tame (raiseIf c (.value message)) := by
  cases c with
  | true => exact tame_value message
  | false => exact tame_ok ()

theorem Tame.bind {α β : Type} {x : Except SafeRaise α} (h : Tame x) {f : α → Except SafeRaise β}
    (hf : ∀ a, Tame (f a)) : Tame (x >>= f) := by
  cases x with
  | error e => exact fun e' heq => h e' (congrArg Except.error (Except.error.inj heq))
  | ok a => exact hf a

theorem tame_mapM {α β : Type} {f : α → Except SafeRaise β} (hf : ∀ a, Tame (f a)) (xs : List α) :
    Tame (xs.mapM f) := by
  induction xs with
  | nil =>
      rw [List.mapM_nil]
      exact tame_ok _
  | cons x rest ih =>
      rw [List.mapM_cons]
      exact (hf x).bind fun y => ih.bind fun ys => tame_ok _

theorem tame_expectedBytes (length size : Nat) (shape : List Nat) :
    Tame (expectedBytes length size shape) := by
  induction shape generalizing size with
  | nil => exact tame_ok _
  | cons dimension rest ih =>
      rw [expectedBytes]
      split
      · exact tame_value _
      · exact ih _

theorem tame_readDescriptor (length : Nat) (entry : List Nat × Loaded) :
    Tame (readDescriptor length entry) := by
  unfold readDescriptor
  refine (tame_raiseIf _ _).bind fun _ => ?_
  split
  · refine (tame_raiseIf _ _).bind fun _ => ?_
    split
    · exact tame_value _
    · split
      · exact tame_value _
      · exact (tame_expectedBytes _ _ _).bind fun _ => (tame_raiseIf _ _).bind fun _ => tame_ok _
  · exact tame_value _

theorem tame_splitPayload (payload : List UInt8) (codecVersion schemaVersion : String)
    (maxSizeBytes : Option Int) :
    Tame (splitPayload payload codecVersion schemaVersion maxSizeBytes) := by
  have hlimit : Tame (checkLimit payload maxSizeBytes) := by
    unfold checkLimit
    split
    · exact tame_ok ()
    · exact (tame_raiseIf _ _).bind fun _ => tame_raiseIf _ _
  unfold splitPayload
  exact (tame_raiseIf _ _).bind fun _ => (tame_raiseIf _ _).bind fun _ =>
    (tame_raiseIf _ _).bind fun _ => hlimit.bind fun _ => (tame_raiseIf _ _).bind fun _ =>
      (tame_raiseIf _ _).bind fun _ => tame_ok _

/-- The header passes the checks before it is decoded, and asks for more levels than the decoder
has left. -/
def TooDeep (py : Interpreter) (payload : List UInt8) (codecVersion schemaVersion : String)
    (maxSizeBytes : Option Int) : Prop :=
  ∃ headerBytes data text,
    splitPayload payload codecVersion schemaVersion maxSizeBytes = .ok (headerBytes, data)
      ∧ readUtf8 headerBytes = some text ∧ py.depth < nesting py.limits text

theorem loadHeader_recursion {py : Interpreter} {headerBytes : List UInt8} :
    loadHeader py headerBytes = .error .recursion ↔
      ∃ text, readUtf8 headerBytes = some text ∧ py.depth < nesting py.limits text := by
  unfold loadHeader
  cases htext : readUtf8 headerBytes with
  | none => exact ⟨fun h => (by cases h), fun ⟨_, h, _⟩ => (by cases h)⟩
  | some text =>
      have hlimit := (loads_limited py.limits text).limited py.depth
      dsimp only at hlimit ⊢
      by_cases hdeep : py.depth < nesting py.limits text
      · rw [hlimit, if_pos hdeep]
        exact ⟨fun _ => ⟨text, rfl, hdeep⟩, fun _ => rfl⟩
      · have hunlimited := (loads_limited py.limits text).unlimited
        rw [hlimit, if_neg hdeep]
        refine ⟨fun h => ?_, fun ⟨_, heq, h⟩ => absurd (Option.some.inj heq ▸ h) hdeep⟩
        split at h
        · cases h
        · rename_i heq
          exact absurd heq hunlimited
        · cases h
        · cases h

theorem loadHeader_ne_stuck (py : Interpreter) (headerBytes : List UInt8) :
    loadHeader py headerBytes ≠ .error .stuck := by
  unfold loadHeader
  split
  · exact fun h => by cases h
  · split
    · exact fun h => by cases h
    · exact fun h => by cases h
    · rename_i heq
      exact absurd heq (loads_ne_stuck _ _)
    · exact fun h => by cases h

/-- **Where anything but a `ValueError` comes from**: the decoder. -/
theorem validate_error_iff {py : Interpreter} {payload : List UInt8}
    {codecVersion schemaVersion : String} {maxSizeBytes : Option Int} {e : SafeRaise}
    (he : ∀ message, e ≠ .value message) :
    validateSafeTensorBundle py payload codecVersion schemaVersion maxSizeBytes = .error e
      ↔ ∃ headerBytes data,
        splitPayload payload codecVersion schemaVersion maxSizeBytes = .ok (headerBytes, data)
          ∧ loadHeader py headerBytes = .error e := by
  -- all that is not the decoder raises a ValueError
  have htame : ∀ {α : Type} {x : Except SafeRaise α}, Tame x → x ≠ .error e := fun hx heq => by
    obtain ⟨message, hmessage⟩ := hx e heq
    exact he message hmessage
  unfold validateSafeTensorBundle
  cases hsplit : splitPayload payload codecVersion schemaVersion maxSizeBytes with
  | error fault =>
      have hsplit' := tame_splitPayload payload codecVersion schemaVersion maxSizeBytes
      rw [hsplit] at hsplit'
      refine ⟨fun h => absurd ?_ (htame hsplit'), fun ⟨_, _, h, _⟩ => (by cases h)⟩
      exact congrArg Except.error (Except.error.inj h)
  | ok r =>
      obtain ⟨headerBytes, data⟩ := r
      change (loadHeader py headerBytes >>= _) = _ ↔ _
      cases hload : loadHeader py headerBytes with
      | error fault =>
          constructor
          · intro h
            exact ⟨headerBytes, data, rfl, by rw [hload, ← Except.error.inj h]⟩
          · rintro ⟨_, _, heq, hheader⟩
            cases heq
            rw [hload] at hheader
            exact congrArg Except.error (Except.error.inj hheader)
      | ok header =>
          constructor
          · refine fun h => absurd h (htame ?_)
            cases header with
            | object members =>
                exact (tame_raiseIf _ _).bind fun _ => (tame_raiseIf _ _).bind fun _ =>
                  (tame_mapM (tame_readDescriptor _) _).bind fun _ => (tame_raiseIf _ _).bind fun _ =>
                    tame_ok _
            | _ => exact tame_value _
          · rintro ⟨_, _, heq, hheader⟩
            cases heq
            rw [hload] at hheader
            cases hheader

/-- **When the decoder's `RecursionError` gets out.** -/
theorem validate_recursion_iff {py : Interpreter} {payload : List UInt8}
    {codecVersion schemaVersion : String} {maxSizeBytes : Option Int} :
    validateSafeTensorBundle py payload codecVersion schemaVersion maxSizeBytes = .error .recursion
      ↔ TooDeep py payload codecVersion schemaVersion maxSizeBytes := by
  rw [validate_error_iff (by simp)]
  unfold TooDeep
  simp only [loadHeader_recursion, exists_and_left]

theorem validate_ne_stuck (py : Interpreter) (payload : List UInt8)
    (codecVersion schemaVersion : String) (maxSizeBytes : Option Int) :
    validateSafeTensorBundle py payload codecVersion schemaVersion maxSizeBytes ≠ .error .stuck := by
  rw [ne_eq, validate_error_iff (by simp)]
  rintro ⟨headerBytes, _, -, hload⟩
  exact loadHeader_ne_stuck py headerBytes hload

/-- **The validator's outcomes.** A call ends with a well-formed bundle of a payload within the limit,
or with a `ValueError`, exactly when the header asks for no more levels than the decoder has. -/
theorem safe_tensor_outcome_iff (py : Interpreter) (payload : List UInt8)
    (codecVersion schemaVersion : String) (maxSizeBytes : Option Int) :
    ((∃ bundle, validateSafeTensorBundle py payload codecVersion schemaVersion maxSizeBytes
          = .ok bundle
        ∧ WellFormed bundle ∧ (∀ limit ∈ maxSizeBytes, (payload.length : Int) ≤ limit)
        ∧ bundle.data = payload.drop (8 + unpack (payload.take 8)))
      ∨ ∃ message, validateSafeTensorBundle py payload codecVersion schemaVersion maxSizeBytes
          = .error (.value message))
    ↔ ¬ TooDeep py payload codecVersion schemaVersion maxSizeBytes := by
  rw [← validate_recursion_iff]
  cases h : validateSafeTensorBundle py payload codecVersion schemaVersion maxSizeBytes with
  | ok bundle => exact ⟨fun _ hdeep => (by cases hdeep), fun _ => Or.inl ⟨bundle, rfl, validate_wellFormed h⟩⟩
  | error e =>
      cases e with
      | value message => exact ⟨fun _ hdeep => (by cases hdeep), fun _ => Or.inr ⟨message, rfl⟩⟩
      | recursion =>
          refine ⟨?_, fun hdeep => absurd rfl hdeep⟩
          rintro (⟨_, h', _⟩ | ⟨_, h'⟩) <;> cases h'
      | stuck => exact absurd h (validate_ne_stuck _ _ _ _ _)

/-! ## A header that is too deep -/

theorem pack_length (n : Nat) : (pack n).length = 8 := by
  rw [pack, List.length_map, List.length_range]

theorem unpack_pack {n : Nat} (h : n < 2 ^ 64) : unpack (pack n) = n := by
  have hbytes : pack n = [UInt8.ofNat (n / 1), UInt8.ofNat (n / 256), UInt8.ofNat (n / 65536),
      UInt8.ofNat (n / 16777216), UInt8.ofNat (n / 4294967296), UInt8.ofNat (n / 1099511627776),
      UInt8.ofNat (n / 281474976710656), UInt8.ofNat (n / 72057594037927936)] := rfl
  rw [hbytes]
  simp only [unpack, List.foldr_cons, List.foldr_nil, UInt8.toNat_ofNat']
  omega

/-- A payload as the builder lays it out passes the checks before the decoding. -/
theorem splitPayload_pack {headerBytes value : List UInt8} {codecVersion schemaVersion : String}
    {maxSizeBytes : Option Int} (hcodec : isShortIdentifier (codes codecVersion) = true)
    (hschema : isShortIdentifier (codes schemaVersion) = true) (hvalue : value ≠ [])
    (hhead : headerBytes.head? = some 0x7b) (hlength : headerBytes.length ≤ maxHeaderBytes)
    (hlimit : ∀ limit ∈ maxSizeBytes,
      ((pack headerBytes.length ++ headerBytes ++ value).length : Int) ≤ limit) :
    splitPayload (pack headerBytes.length ++ headerBytes ++ value) codecVersion schemaVersion
      maxSizeBytes = .ok (headerBytes, value) := by
  have hpos : 0 < headerBytes.length := by
    cases headerBytes with
    | nil => cases hhead
    | cons b rest => exact Nat.succ_pos _
  have hvaluePos := List.length_pos_iff.mpr hvalue
  have hpack := pack_length headerBytes.length
  have htotal : (pack headerBytes.length ++ headerBytes ++ value).length
      = 8 + headerBytes.length + value.length := by
    rw [List.length_append, List.length_append, hpack]
  have hbound : headerBytes.length ≤ 65536 := hlength
  have hsize : unpack ((pack headerBytes.length ++ headerBytes ++ value).take 8)
      = headerBytes.length := by
    rw [List.append_assoc, ← hpack, List.take_left' rfl]
    rw [unpack_pack (by omega)]
  have hheader : ((pack headerBytes.length ++ headerBytes ++ value).drop 8).take headerBytes.length
      = headerBytes := by
    rw [List.append_assoc, List.drop_left' hpack, List.take_left' rfl]
  have hdata : (pack headerBytes.length ++ headerBytes ++ value).drop (8 + headerBytes.length)
      = value :=
    List.drop_left' (by rw [List.length_append, hpack])
  have hcheck : checkLimit (pack headerBytes.length ++ headerBytes ++ value) maxSizeBytes = .ok () := by
    cases maxSizeBytes with
    | none => rfl
    | some limit =>
        have hle := hlimit limit rfl
        simp only [checkLimit, except_bind_ok, raiseIf_ok, exists_const, decide_eq_false_iff_not,
          Int.not_lt, Int.not_le]
        exact ⟨by omega, hle⟩
  simp only [splitPayload, except_bind_ok, raiseIf_ok, exists_const, safeIdentifier, hcodec, hschema,
    hsize, hheader, hdata, hhead, htotal, hcheck]
  refine ⟨rfl, rfl, ?_, trivial, ?_, by simp, rfl⟩
  · rw [decide_eq_false_iff_not]
    omega
  · have hmax : maxHeaderBytes = 65536 := rfl
    simp only [Bool.or_eq_false_iff, beq_eq_false_iff_ne, decide_eq_false_iff_not]
    omega

/-- So many opening brackets are entered one inside the other. -/
theorem le_nestValue_brackets (limits : Limits) {k n : Nat} (h : 2 * k < n) :
    k ≤ nestValue limits n (List.replicate k '[') := by
  induction k generalizing n with
  | zero => exact Nat.zero_le _
  | succ k ih =>
      obtain ⟨n, rfl⟩ : ∃ m, n = m + 2 := ⟨n - 2, by omega⟩
      have hskip : skip (List.replicate k '[') = List.replicate k '[' := by
        cases k with
        | zero => rfl
        | succ k => rfl
      have hhead : (List.replicate k '[').head? ≠ some ']' := by
        cases k with
        | zero => simp
        | succ k => simp [List.replicate_succ]
      rw [List.replicate_succ, nestValue, List.head?_cons, if_pos rfl, List.tail_cons, hskip,
        if_neg hhead, nestItems, hskip]
      have := ih (n := n) (by omega)
      omega

/-- A header that opens so many arrays and closes none. -/
def deepHeader (k : Nat) : List Char := "\x7b\"a\":".toList ++ List.replicate k '['

theorem lt_nesting_deepHeader (limits : Limits) (k : Nat) :
    k < nesting limits (deepHeader k) := by
  have htext : deepHeader k = '\x7b' :: '"' :: 'a' :: '"' :: ':' :: List.replicate k '[' := rfl
  have hskip : skip (List.replicate k '[') = List.replicate k '[' := by
    cases k with
    | zero => rfl
    | succ k => rfl
  have hlength : (deepHeader k).length = k + 5 := by
    rw [htext]
    simp
  have hkey : scanKey ('"' :: 'a' :: '"' :: ':' :: List.replicate k '[')
      = some ([97], List.replicate k '[') := rfl
  have hnest := le_nestValue_brackets limits (k := k) (n := 2 * k + 9) (by omega)
  have hmembers : nestMembers limits (2 * k + 10) ('"' :: 'a' :: '"' :: ':' :: List.replicate k '[')
      ≥ k := by
    rw [nestMembers, hkey]
    dsimp only
    rw [hskip]
    exact Nat.le_trans hnest (Nat.le_max_left _ _)
  have hvalue : k + 1 ≤ nestValue limits (2 * k + 11) (deepHeader k) := by
    rw [htext, nestValue]
    exact Nat.succ_le_succ (Nat.le_trans hmembers (Nat.le_max_left _ _))
  rw [nesting, hlength]
  exact Nat.le_trans hvalue (Nat.le_max_left _ _)

/-- The levels that CPython 3.11 takes for its calls. -/
def raisingLevels : Fault → Nat
  | .unread | .duplicateKey => 2
  | .malformed => 3
  | .extraData => 1
  | .noValue | .longInteger | .recursion | .stuck => 0

/-- The interpreter's own limits. -/
def standard : Interpreter where
  depth := 1000
  limits := ⟨some 4300, 1, 1, raisingLevels⟩
  digits_min := fun limit h => by
    rw [← Option.some.inj h]
    decide

/-- A payload whose header opens a thousand arrays. -/
def deepPayload : List UInt8 :=
  pack (utf8 (deepHeader 1000)).length ++ utf8 (deepHeader 1000) ++ [0]

theorem tooDeep_deepPayload : TooDeep standard deepPayload "codec-v1" "schema-v1" none := by
  have hascii : Ascii (deepHeader 1000) := by
    refine ascii_append (ascii_of_all (by decide)) fun c hc => ?_
    rw [List.eq_of_mem_replicate hc]
    decide
  have hlength : (utf8 (deepHeader 1000)).length = 1005 := by
    rw [utf8_length hascii, deepHeader, List.length_append, List.length_replicate]
    rfl
  have hsplit := @splitPayload_pack (utf8 (deepHeader 1000)) [0] "codec-v1" "schema-v1" none (by decide) (by decide) (by simp) rfl (by rw [hlength]; decide) (fun _ h => by cases h)
  exact ⟨_, _, deepHeader 1000, hsplit, readUtf8_utf8 _, lt_nesting_deepHeader _ 1000⟩

/-- A header of a thousand opening brackets ends neither with a bundle nor with a `ValueError`. -/
theorem deep_header_escapes :
    ¬ ((∃ bundle, validateSafeTensorBundle standard deepPayload "codec-v1" "schema-v1" none
          = .ok bundle)
      ∨ ∃ message, validateSafeTensorBundle standard deepPayload "codec-v1" "schema-v1" none
          = .error (.value message)) := by
  rw [validate_recursion_iff.mpr tooDeep_deepPayload]
  rintro (⟨_, h⟩ | ⟨_, h⟩) <;> cases h

end SafeTensor

end NanoAural
