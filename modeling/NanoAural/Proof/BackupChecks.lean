import NanoAural.Proof.BackupRuns

/-!
# What a backup has checked

The scan of the names looks at no contents, and what the database dumps is not known
before it is written. A backup checks both on its way: by the time it has copied the
last object every one of them has hashed to its name, and all is within the limits.
A source that is not so is never published, because the copy stops at it.
-/

namespace NanoAural

open Relational Faulty Faulty.Prog

namespace Recovery

variable {env : RecoveryEnv} {source : ObjectTree} {dump : List UInt8}
  {J : RecoveryWorld RecoveryTree → Prop}

theorem yields_insist {P I : RecoveryWorld RecoveryTree → Prop} {c : Bool} {code : String}
    (hI : ∀ w, P w → I w) :
    Yields P I (insist c code : RecoveryProg RecoveryTree Unit) fun _ w => c = true ∧ P w :=
  (yields_raiseWhen hI).weaken (fun _ h => h) fun _ _ _ h => ⟨by simpa using h.1, h.2⟩

/-- A look at what no step changes. -/
theorem yields_inspect {α : Type} {P I : RecoveryWorld RecoveryTree → Prop}
    {x : Except RecoveryRaise α} (hI : ∀ w, P w → I w) :
    Yields P I (inspect fun _ => x) fun a w => x = .ok a ∧ P w :=
  yields_call hI hI fun w a w' hw heq => by
    obtain ⟨hok, rfl⟩ := Prod.mk.inj heq
    exact ⟨hok, hw⟩

/-- The paths of the files that the stage's object root has. -/
def Copied (names : List String) (w : RecoveryWorld RecoveryTree) : Prop :=
  ∃ t c, w.stage = some t ∧ t.canonical = some c ∧ c.files.map Prod.fst = names

/-- What leaves the files' paths as they are. -/
theorem Copied.modify {names : List String} {w : RecoveryWorld RecoveryTree}
    {f : ObjectTree → ObjectTree} (h : Copied names w)
    (hf : ∀ c, (f c).files.map Prod.fst = c.files.map Prod.fst) :
    Copied names { w with stage := w.stage.map (canonicalOf.modify f) } := by
  obtain ⟨t, c, hstage, hcanonical, hnames⟩ := h
  refine ⟨canonicalOf.modify f t, f c, by rw [hstage]; rfl, ?_, (hf c).trans hnames⟩
  exact congrArg (Option.map f) hcanonical

theorem Copied.add {names : List String} {w : RecoveryWorld RecoveryTree} {path : String}
    (h : Copied names w) :
    Copied (names ++ [path])
      { w with stage := w.stage.map (canonicalOf.modify (ObjectTree.addFile path)) } := by
  obtain ⟨t, c, hstage, hcanonical, hnames⟩ := h
  refine ⟨canonicalOf.modify (ObjectTree.addFile path) t, ObjectTree.addFile path c,
    by rw [hstage]; rfl, congrArg (Option.map _) hcanonical, ?_⟩
  rw [ObjectTree.addFile, List.map_append, hnames]
  rfl

/-- The bytes that were written were within the bound. -/
theorem yields_writeBytes {P I : RecoveryWorld RecoveryTree → Prop}
    {append : UInt8 → RecoveryTree → RecoveryTree} (hI : ∀ w, P w → I w)
    (hP : ∀ b w, P w → P { w with stage := w.stage.map (append b) }) {maxBytes : Nat}
    (content : List UInt8) (size : Nat) :
    Yields P I (writeBytes append maxBytes content size) fun _ w =>
      content.length ≤ maxBytes - size ∧ P w := by
  induction content generalizing size with
  | nil => exact yields_pure hI fun _ h => ⟨Nat.zero_le _, h⟩
  | cons b rest ih =>
      unfold writeBytes
      refine yields_ite (fun _ => yields_raise hI) fun hsize => ?_
      refine yields_seq (yields_act hI (fun w h => hI _ (hP b w h)) fun w h => hP b w h) fun _ =>
        (ih (size + 1)).weaken (fun _ h => h) fun _ _ _ h => ⟨?_, h.2⟩
      have := h.1
      rw [List.length_cons]
      omega

/-- **The copy of an object** puts a new file into the stage. -/
theorem yields_copyStream (hJ : Frame J) {names : List String} (path : String)
    (content : List UInt8) (maxBytes : Nat) :
    Yields (fun w => J w ∧ Copied names w) J (copyStream env canonicalOf path content maxBytes)
      fun r w => (r = (env.sha256 content, content.length) ∧ path ∉ names
        ∧ content.length ≤ maxBytes) ∧ J w ∧ Copied (names ++ [path]) w := by
  have hkeep : ∀ {names : List String} {f : ObjectTree → ObjectTree},
      (∀ c, (f c).files.map Prod.fst = c.files.map Prod.fst) → ∀ w : RecoveryWorld RecoveryTree,
      J w ∧ Copied names w → J { w with stage := w.stage.map (canonicalOf.modify f) }
        ∧ Copied names { w with stage := w.stage.map (canonicalOf.modify f) } :=
    fun hf w hw => ⟨hJ.stage w _ hw.1, hw.2.modify hf⟩
  have hjust : ∀ {names : List String} (w : RecoveryWorld RecoveryTree),
      J w ∧ Copied names w → J w := fun _ h => h.1
  refine Always.yields_bind (always_look _) hjust fun missing =>
    Always.yields_bind (always_forEach (fun d => always_act (hkeep (f := ObjectTree.addDirectory d) fun _ => rfl)) _) hjust fun _ =>
    yields_learn (c := fun _ => path ∉ names) (Q := fun w => J w ∧ Copied (names ++ [path]) w)
      (yields_call hjust (fun w hw => ?_) fun w _ w' hw heq => ?_) fun _ hnew => ?_
  · split
    · exact hw.1
    · exact hJ.stage w _ hw.1
  · split at heq
    · cases heq
    · rename_i hfree
      obtain ⟨-, rfl⟩ := Prod.mk.inj heq
      refine ⟨fun hmem => hfree ?_, hJ.stage w _ hw.1, hw.2.add⟩
      obtain ⟨t, c, hstage, hcanonical, rfl⟩ := hw.2
      obtain ⟨f, hf, rfl⟩ := List.mem_map.mp hmem
      have hget : w.stage.bind canonicalOf.get = some c := by
        rw [hstage]
        exact hcanonical
      rw [hget, Option.any_some]
      exact isSome_read_iff.mpr (List.mem_map_of_mem hf)
  · refine yields_learn (yields_writeBytes hjust (fun b => hkeep fun c => ?_) content 0)
      fun _ hlength => Always.yields_bind always_pause hjust fun _ =>
        yields_pure hjust fun w hw => ⟨⟨rfl, hnew, hlength⟩, hw⟩
    simp only [ObjectTree.append, List.map_map]
    refine List.map_congr_left fun f _ => ?_
    rw [Function.comp_apply]
    split <;> rfl

/-- What the copy loop has checked of an object. -/
structure Sound (env : RecoveryEnv) (source : ObjectTree) (key : String) (size : Nat) : Prop where
  content : ∃ content, source.read key = some content ∧ content.length = size
    ∧ env.sha256 content = baseName key
  single : size ≤ env.limits.maxSingleBlobBytes

/-- **The copy loop checks every object**: what it went through is sound, each object once, and all
together within the limits. -/
theorem yields_backupObjects (hJ : Frame J) (dumpSize : Nat) (keys : List String) :
    ∀ (done : List RecoveryObject) (total : Nat) (names : List String),
      total ≤ env.limits.maxTotalBlobBytes → dumpSize + total ≤ env.limits.maxTemporaryBytes →
      Yields (fun w => J w ∧ Copied names w) J (backupObjects env source dumpSize keys done total)
        fun _ _ => keys.Nodup ∧ (∀ key ∈ keys, key ∉ names) ∧ ∃ sizes,
          List.Forall₂ (Sound env source) keys sizes
            ∧ total + sizes.sum ≤ env.limits.maxTotalBlobBytes
            ∧ dumpSize + (total + sizes.sum) ≤ env.limits.maxTemporaryBytes := by
  have hjust : ∀ {names : List String} (w : RecoveryWorld RecoveryTree),
      J w ∧ Copied names w → J w := fun _ h => h.1
  induction keys with
  | nil =>
      intro done total names htotal htemporary
      exact yields_pure hjust fun _ _ => ⟨List.nodup_nil, by simp, [], .nil, htotal, htemporary⟩
  | cons key rest ih =>
      intro done total names htotal htemporary
      unfold backupObjects
      refine yields_learn (yields_inspect hjust) fun content hopen =>
        yields_learn (yields_copyStream hJ key content _) fun r hr =>
        yields_learn (yields_insist hjust) fun _ hdigest =>
        yields_learn (yields_insist hjust) fun _ htotal' => ?_
      -- an object that was copied twice would have been found in the stage
      obtain ⟨rfl, hnew, hbound⟩ := hr
      have hread : source.read key = some content := by
        split at hopen
        · cases hopen
        · rename_i heq
          rw [heq, Except.ok.inj hopen]
      rw [beq_iff_eq] at hdigest
      rw [decide_eq_true_eq] at htotal'
      dsimp only at hdigest htotal' ⊢
      refine (ih _ _ _ htotal' (by omega)).weaken (fun _ h => h) ?_
      rintro _ _ _ ⟨hnodup, hfresh, sizes, hsound, htotal'', htemporary''⟩
      refine ⟨List.nodup_cons.mpr ⟨fun hmem => hfresh key hmem (by simp), hnodup⟩, ?_,
        content.length :: sizes, .cons ⟨⟨content, hread, rfl, hdigest⟩, by omega⟩ hsound, ?_, ?_⟩
      · intro k hk
        rcases List.mem_cons.mp hk with rfl | hk
        · exact hnew
        · exact fun hmem => hfresh k hk (List.mem_append_left _ hmem)
      · rw [List.sum_cons]
        omega
      · rw [List.sum_cons]
        omega

theorem Sound.of_mem {size : Nat} {f : String × List UInt8} (h : Sound env source f.1 size)
    (hdistinct : (source.files.map Prod.fst).Nodup) (hf : f ∈ source.files) :
    f.2.length = size ∧ env.sha256 f.2 = baseName f.1 := by
  obtain ⟨content, hread, hlength, hdigest⟩ := h.content
  obtain rfl : f.2 = content :=
    Option.some.inj ((lookup_of_nodup hdistinct hf).symm.trans hread)
  exact ⟨hlength, hdigest⟩

theorem sound_of_mem {keys : List String} {sizes : List Nat} {key : String}
    (h : List.Forall₂ (Sound env source) keys sizes) (hkey : key ∈ keys) :
    ∃ size, Sound env source key size := by
  induction h with
  | nil => cases hkey
  | cons hfirst _ ih =>
      rcases List.mem_cons.mp hkey with rfl | hmem
      · exact ⟨_, hfirst⟩
      · exact ih hmem

/-- What the loop adds up is the size of the objects. -/
theorem sizes_of_sound (hdistinct : (source.files.map Prod.fst).Nodup)
    (rest : List (String × List UInt8)) :
    ∀ sizes, (∀ f ∈ rest, f ∈ source.files) →
      List.Forall₂ (Sound env source) (rest.map Prod.fst) sizes →
      sizes = rest.map fun f => f.2.length := by
  induction rest with
  | nil =>
      intro sizes _ hsound
      cases hsound
      rfl
  | cons f rest ih =>
      intro sizes hmem hsound
      cases hsound with
      | cons hf hrest =>
          rw [List.map_cons, ← ih _ (fun g hg => hmem g (List.mem_cons_of_mem _ hg)) hrest,
            (hf.of_mem hdistinct (hmem f List.mem_cons_self)).1]

/-- **What the checks come to.** -/
theorem permitted_of_sound {keys : List String} {sizes : List Nat}
    (hkeys : canonicalKeys env.limits source = .ok keys) (hnodup : keys.Nodup)
    (hsound : List.Forall₂ (Sound env source) keys sizes)
    (htotal : sizes.sum ≤ env.limits.maxTotalBlobBytes)
    (htemporary : dump.length + sizes.sum ≤ env.limits.maxTemporaryBytes) (hpos : 1 ≤ dump.length)
    (hbound : dump.length ≤ env.limits.maxDatabaseDumpBytes) (hsealed : env.databaseSealed = true) :
    Permitted env source dump := by
  have hlist := (canonicalKeys_ok.mp hkeys).2.2.2
  have hdistinct : (source.files.map Prod.fst).Nodup := by
    rw [hlist] at hnodup
    exact (orderBy_perm id _).nodup_iff.mp hnodup
  have hsizes : sizes = source.sizes :=
    sizes_of_sound hdistinct source.entries sizes (fun f hf => mem_entries.mp hf)
      (by rw [← keys_entries hdistinct, ← hlist]; exact hsound)
  have heach : ∀ f ∈ source.files, ∃ size, Sound env source f.1 size := fun f hf => by
    have hmem : f.1 ∈ keys := by
      rw [hlist, mem_orderBy]
      exact List.mem_map_of_mem hf
    exact sound_of_mem hsound hmem
  subst hsizes
  exact {
    keys := by rw [hkeys, hlist]
    distinct := hdistinct
    digests := fun f hf => by
      obtain ⟨size, hsize⟩ := heach f hf
      exact (hsize.of_mem hdistinct hf).2
    single := fun f hf => by
      obtain ⟨size, hsize⟩ := heach f hf
      rw [(hsize.of_mem hdistinct hf).1]
      exact hsize.single
    total := htotal
    dump_pos := hpos
    dump_bound := hbound
    temporary := htemporary
    sealed := hsealed }

/-! ## Up to the manifest -/

/-- The dump is written whole, is not empty and is within its bound. -/
theorem yields_dumpDatabase (hJ : Frame J) {names : List String} :
    Yields (fun w => J w ∧ Copied names w) J (dumpDatabase env dump) fun r w =>
      (r = (env.sha256 dump, dump.length) ∧ 1 ≤ dump.length
        ∧ dump.length ≤ env.limits.maxDatabaseDumpBytes) ∧ J w ∧ Copied names w := by
  have hjust : ∀ w : RecoveryWorld RecoveryTree, J w ∧ Copied names w → J w := fun _ h => h.1
  have hkeep : ∀ (dumped : RecoveryTree → Option (List UInt8)) (w : RecoveryWorld RecoveryTree),
      J w ∧ Copied names w →
        J { w with stage := w.stage.map fun t => { t with dump := dumped t } }
          ∧ Copied names { w with stage := w.stage.map fun t => { t with dump := dumped t } } := by
    rintro dumped w ⟨hw, t, c, hstage, hcanonical, hnames⟩
    exact ⟨hJ.stage w _ hw, { t with dump := dumped t }, c, by rw [hstage]; rfl, hcanonical, hnames⟩
  have hwrite := @yields_writeBytes (fun w => J w ∧ Copied names w) J
    (fun b t => { t with dump := t.dump.map (· ++ [b]) }) hjust
    (fun b w hw => hkeep (fun t => t.dump.map (· ++ [b])) w hw) env.limits.maxDatabaseDumpBytes
    dump 0
  refine yields_seq (φ := fun _ w => J w ∧ Copied names w) (yields_call hjust (fun w hw => ?_)
    fun w _ w' hw heq => ?_) fun _ => yields_learn hwrite fun _ hbound =>
    Always.yields_bind always_pause hjust fun _ => yields_learn (yields_insist hjust) fun _ hpos =>
    yields_pure hjust fun w hw => ⟨⟨rfl, of_decide_eq_true hpos, hbound⟩, hw⟩
  · split
    · exact hw.1
    · exact hJ.stage w _ hw.1
  · split at heq
    · cases heq
    · obtain ⟨-, rfl⟩ := Prod.mk.inj heq
      exact hkeep (fun _ => some []) w hw

/-- **A source that is not permitted** never gets to a manifest: the backup stops before. -/
theorem always_gatherSet (hJ : Frame J) (hsealed : env.databaseSealed = true)
    (hnot : ¬ Permitted env source dump) : Always J (gatherSet env source dump) := by
  have hjust : ∀ {names : List String} (w : RecoveryWorld RecoveryTree),
      J w ∧ Copied names w → J w := fun _ h => h.1
  refine Yields.always (φ := fun _ _ => True) (Always.yields_bind always_stageExists
    (fun _ h => h) fun _ => Always.yields_bind (always_insist _ _) (fun _ h => h) fun _ =>
    Always.yields_bind (hJ.writeOperationState _ _) (fun _ h => h) fun _ =>
    yields_seq (φ := fun _ w => J w ∧ w.stage = some .empty) (yields_call (fun _ h => h)
      (fun w hw => ?_) fun w _ w' hw heq => ?_) fun _ =>
    yields_seq (φ := fun _ w => J w ∧ Copied [] w) (yields_act (fun _ h => h.1)
      (fun w hw => hJ.stage w _ hw.1) fun w hw => ⟨hJ.stage w _ hw.1, ?_⟩) fun _ =>
    yields_learn (yields_dumpDatabase hJ) fun r hr =>
    Always.yields_bind always_pause hjust fun _ =>
    yields_learn (yields_insist hjust) fun _ _ =>
    yields_learn (yields_insist hjust) fun _ htemporary =>
    yields_learn (yields_inspect hjust) fun keys hkeys => ?_)
  · split
    · exact hw
    · exact hJ.stage w _ hw
  · split at heq
    · cases heq
    · obtain ⟨-, rfl⟩ := Prod.mk.inj heq
      exact ⟨hJ.stage w _ hw, rfl⟩
  · refine ⟨{ RecoveryTree.empty with canonical := some ⟨[], []⟩ }, ⟨[], []⟩, ?_, rfl, rfl⟩
    rw [hw.2]
    rfl
  · obtain ⟨rfl, hpos, hbound⟩ := hr
    rw [decide_eq_true_eq] at htemporary
    refine yields_bind (yields_backupObjects hJ dump.length keys [] 0 [] (Nat.zero_le _)
      htemporary) fun _ => fun _ w hw => ?_
    obtain ⟨-, hnodup, -, sizes, hsound, htotal, htemporary'⟩ := hw
    rw [Nat.zero_add] at htotal htemporary'
    exact absurd (permitted_of_sound hkeys hnodup hsound htotal htemporary' hpos hbound hsealed) hnot

end Recovery

end NanoAural
