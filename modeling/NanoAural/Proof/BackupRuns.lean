import NanoAural.Proof.ManifestRoundTrip
import NanoAural.Proof.RecoveryFrames

/-!
# What a backup gathers

A backup goes through the objects in the order of their keys, and its stage ends up
with the dump, a copy of every object and a manifest of them. Whether what is left
to do succeeds is up to the size of that manifest, which the limits on the objects
do not bound: that is `backup_restorable`.
-/

namespace NanoAural

open Relational Faulty Faulty.Prog

namespace Recovery

variable {env : RecoveryEnv} {source : ObjectTree} {dump : List UInt8}

/-- The objects by key. -/
def ObjectTree.entries (t : ObjectTree) : List (String × List UInt8) := orderBy Prod.fst t.files

/-- What the manifest says of a file. -/
def objectOf (env : RecoveryEnv) (f : String × List UInt8) : RecoveryObject :=
  ⟨f.1, env.sha256 f.2, f.2.length⟩

def objectsOf (env : RecoveryEnv) (source : ObjectTree) : List RecoveryObject :=
  source.entries.map (objectOf env)

/-- The sizes of the objects, in the order of their keys. -/
def ObjectTree.sizes (t : ObjectTree) : List Nat := t.entries.map fun f => f.2.length

/-- Canonical objects and a dump within the limits, of a database with the sealed ledger. -/
structure Permitted (env : RecoveryEnv) (source : ObjectTree) (dump : List UInt8) : Prop where
  keys : canonicalKeys env.limits source = .ok (orderBy id (source.files.map Prod.fst))
  distinct : (source.files.map Prod.fst).Nodup
  digests : ∀ f ∈ source.files, env.sha256 f.2 = baseName f.1
  single : ∀ f ∈ source.files, f.2.length ≤ env.limits.maxSingleBlobBytes
  total : source.sizes.sum ≤ env.limits.maxTotalBlobBytes
  dump_pos : 1 ≤ dump.length
  dump_bound : dump.length ≤ env.limits.maxDatabaseDumpBytes
  temporary : dump.length + source.sizes.sum ≤ env.limits.maxTemporaryBytes
  sealed : env.databaseSealed = true

/-- The manifest of what was gathered. -/
def gathered (env : RecoveryEnv) (source : ObjectTree) (dump : List UInt8) : RecoveryManifest :=
  ⟨env.sha256 dump, dump.length, env.databaseIdentity, objectsOf env source, source.sizes.sum⟩

/-- A recovery set of the source and the dump. -/
def backedUp (env : RecoveryEnv) (source : ObjectTree) (dump : List UInt8) : RecoveryTree :=
  ⟨some dump, some (gathered env source dump), some (ObjectTree.copies ⟨[], []⟩ source.entries), 0⟩

/-! ## The objects -/

theorem entries_perm (t : ObjectTree) : t.entries.Perm t.files := orderBy_perm Prod.fst t.files

theorem mem_entries {f : String × List UInt8} : f ∈ source.entries ↔ f ∈ source.files := mem_orderBy

/-- The keys a backup goes through are those of the objects by key. -/
theorem keys_entries (hdistinct : (source.files.map Prod.fst).Nodup) :
    orderBy id (source.files.map Prod.fst) = source.entries.map Prod.fst := by
  have hperm : (source.entries.map Prod.fst).Perm (source.files.map Prod.fst) :=
    (entries_perm source).map Prod.fst
  have hnodup : (source.entries.map Prod.fst).Nodup := hperm.nodup_iff.mpr hdistinct
  have hle : (source.entries.map Prod.fst).Pairwise (· ≤ ·) :=
    List.pairwise_map.mpr (orderBy_pairwise Prod.fst source.files)
  refine orderBy_eq hperm.symm ?_
  rw [List.map_id]
  exact hle.imp₂ (fun _ _ hle hne => lt_of_le_of_ne hle hne) hnodup

theorem objectsOf_keys :
    (objectsOf env source).map RecoveryObject.storageKey = source.entries.map Prod.fst := by
  unfold objectsOf
  rw [List.map_map]
  rfl

theorem objectsOf_sizes :
    (objectsOf env source).map RecoveryObject.sizeBytes = source.sizes := by
  unfold objectsOf ObjectTree.sizes
  rw [List.map_map]
  rfl

namespace Permitted

variable (h : Permitted env source dump)

include h

theorem canonical {f : String × List UInt8} (hf : f ∈ source.files) : isCanonicalPath f.1 = true :=
  (canonicalKeys_ok.mp h.keys).1 f hf

theorem nodup : (source.entries.map Prod.fst).Nodup :=
  ((entries_perm source).map Prod.fst).nodup_iff.mpr h.distinct

theorem count : source.entries.length ≤ env.limits.maxObjects :=
  (entries_perm source).length_eq ▸ (canonicalKeys_ok.mp h.keys).2.1

theorem read {f : String × List UInt8} (hf : f ∈ source.files) : source.read f.1 = some f.2 :=
  lookup_of_nodup h.distinct hf

theorem named {item : RecoveryObject} (hitem : item ∈ objectsOf env source) :
    isSha256 item.sha256 = true ∧ item.storageKey = canonicalKey item.sha256 := by
  obtain ⟨f, hf, rfl⟩ := List.mem_map.mp hitem
  have hcanonical := h.canonical (mem_entries.mp hf)
  unfold isCanonicalPath at hcanonical
  rw [Bool.and_eq_true, beq_iff_eq] at hcanonical
  unfold objectOf
  rw [h.digests f (mem_entries.mp hf)]
  exact hcanonical

/-- What was gathered is accepted where its manifest is not too long. -/
theorem accepted (hfits : (env.manifestBytes (gathered env source dump)).length ≤ maxManifestBytes) :
    (gathered env source dump).Accepted env where
  fits := hfits
  dump_format := env.sha256_format dump
  dump_pos := h.dump_pos
  dump_bound := h.dump_bound
  identity_format := env.identity_format
  count := by
    change (source.entries.map (objectOf env)).length ≤ env.limits.maxObjects
    rw [List.length_map]
    exact h.count
  keys _ := h.named
  single item hitem := by
    obtain ⟨f, hf, rfl⟩ := List.mem_map.mp hitem
    exact h.single f (mem_entries.mp hf)
  distinct := by
    change ((objectsOf env source).map RecoveryObject.storageKey).Nodup
    rw [objectsOf_keys]
    exact h.nodup
  total := by
    change source.sizes.sum = ((objectsOf env source).map RecoveryObject.sizeBytes).sum
    rw [objectsOf_sizes]
  total_bound := by
    change ((objectsOf env source).map RecoveryObject.sizeBytes).sum ≤ _
    rw [objectsOf_sizes]
    exact h.total
  sorted := by
    change (objectsOf env source).map RecoveryObject.storageKey
      = orderBy id ((objectsOf env source).map RecoveryObject.storageKey)
    rw [objectsOf_keys, ← keys_entries h.distinct, orderBy_idem]

/-- What `_validate_recovery_set` makes of a recovery set. -/
theorem validates (hfits : (env.manifestBytes (gathered env source dump)).length ≤ maxManifestBytes) :
    validateRecoverySet env (backedUp env source dump) =
      .ok ⟨env.sha256 (env.manifestBytes (gathered env source dump)), env.sha256 dump, dump.length,
        env.databaseIdentity, objectsOf env source⟩ := by
  have hkeys : canonicalKeys env.limits (ObjectTree.copies ⟨[], []⟩ source.entries) =
      .ok (source.entries.map Prod.fst) := by
    refine canonicalKeys_copies (fun e he => h.canonical (mem_entries.mp he)) h.count ?_
    rw [← keys_entries h.distinct, orderBy_idem]
  refine validateRecoverySet_ok.mpr ⟨dump, gathered env source dump, _, rfl, h.accepted hfits, rfl,
    rfl, ?_, intact_iff.mpr fun item hitem => ?_, rfl⟩
  · rw [hkeys]
    exact congrArg Except.ok objectsOf_keys.symm
  · obtain ⟨f, hf, rfl⟩ := List.mem_map.mp hitem
    refine ⟨f.2, ?_, rfl, rfl⟩
    unfold ObjectTree.read
    rw [copies_files]
    exact lookup_of_nodup h.nodup hf

end Permitted

/-! ## The steps -/

section Steps

variable {w : RecoveryWorld RecoveryTree} {I : RecoveryWorld RecoveryTree → Prop}

/-- A stage with the dump and copies of some objects. -/
def withCopies (dump : List UInt8) (t : ObjectTree) : RecoveryTree := ⟨some dump, none, some t, 0⟩

theorem places_withCopies : Places canonicalOf (withCopies dump) := ⟨fun _ => rfl, fun _ _ => rfl⟩

/-- The dump is written byte by byte. -/
theorem leads_dumpDatabase (hpos : 1 ≤ dump.length)
    (hbound : dump.length ≤ env.limits.maxDatabaseDumpBytes)
    (hany : ∀ d, I (w.staged ⟨d, none, some ⟨[], []⟩, 0⟩)) :
    Leads I (dumpDatabase env dump) (w.staged ⟨none, none, some ⟨[], []⟩, 0⟩)
      (env.sha256 dump, dump.length) (w.staged (withCopies dump ⟨[], []⟩)) := by
  have hwrite : Leads I (writeBytes
      (fun b (t : RecoveryTree) => { t with dump := t.dump.map (· ++ [b]) })
      env.limits.maxDatabaseDumpBytes dump 0) (w.staged ⟨some [], none, some ⟨[], []⟩, 0⟩) ()
      (w.staged (withCopies dump ⟨[], []⟩)) := by
    let stage (c : List UInt8) : RecoveryTree := ⟨some c, none, some ⟨[], []⟩, 0⟩
    have happend : ∀ (b : UInt8) (c : List UInt8),
        { stage c with dump := (stage c).dump.map (· ++ [b]) } = stage (c ++ [b]) := fun _ _ => rfl
    exact leads_writeBytes happend (fun c => hany (some c)) dump 0 [] (by omega)
  exact leads_bind (leads_call rfl (hany none) (hany (some []))) (leads_bind hwrite
    (leads_bind (leads_pause (hany _)) (leads_bind (leads_insist (decide_eq_true hpos) (hany _))
    (leads_pure (hany _)))))

/-- The copy loop goes through the objects, each within the bounds that are left. -/
theorem leads_backupObjects (h : Permitted env source dump)
    (hany : ∀ t, I (w.staged (withCopies dump t))) (rest : List (String × List UInt8)) :
    ∀ (done : List RecoveryObject) (t : ObjectTree) (total : Nat), (∀ f ∈ rest, f ∈ source.files) →
      (rest.map Prod.fst).Nodup → (∀ f ∈ rest, t.read f.1 = none) →
      total + (rest.map fun f => f.2.length).sum ≤ source.sizes.sum →
      Leads I (backupObjects env source dump.length (rest.map Prod.fst) done total)
        (w.staged (withCopies dump t))
        (done ++ rest.map (objectOf env), total + (rest.map fun f => f.2.length).sum)
        (w.staged (withCopies dump (t.copies rest))) := by
  induction rest with
  | nil =>
      intro done t total _ _ _ _
      rw [List.map_nil, List.map_nil, List.map_nil, List.append_nil]
      exact leads_pure (hany t)
  | cons f rest ih =>
      intro done t total hmem hnodup hfresh hsum
      rw [List.map_cons, List.nodup_cons] at hnodup
      rw [List.map_cons, List.sum_cons] at hsum
      have hf := hmem f List.mem_cons_self
      have hsingle := h.single f hf
      have htotal := h.total
      have htemporary := h.temporary
      have hrest := ih (done ++ [objectOf env f]) (ObjectTree.copied t f.1 f.2)
        (total + f.2.length) (fun g hg => hmem g (List.mem_cons_of_mem _ hg)) hnodup.2
        (fun g hg => read_copied_none (hfresh g (List.mem_cons_of_mem _ hg)) fun heq =>
          hnodup.1 (heq ▸ List.mem_map_of_mem hg)) (by omega)
      rw [List.map_cons, List.map_cons, List.map_cons, List.sum_cons, ← Nat.add_assoc,
        List.append_cons]
      refine leads_bind (leads_inspect (by rw [h.read hf]) (hany t)) (leads_bind
        (leads_copyStream places_withCopies hany (hfresh f List.mem_cons_self) ?_)
        (leads_bind (leads_insist (beq_iff_eq.mpr (h.digests f hf)) (hany _))
        (leads_bind (leads_insist (decide_eq_true ?_) (hany _)) hrest)))
      · omega
      · omega

theorem leads_writeManifest {m : RecoveryManifest} {t : ObjectTree} (hw : I (w.staged (withCopies dump t)))
    (hpartly : I (w.staged ⟨some dump, none, some t, 1⟩))
    (hw' : I (w.staged ⟨some dump, some m, some t, 0⟩)) :
    Leads I (writeManifest m) (w.staged (withCopies dump t)) ()
      (w.staged ⟨some dump, some m, some t, 0⟩) :=
  leads_bind (leads_onStage hw hpartly) (leads_bind (leads_pause hpartly)
    (leads_bind (leads_onStage hpartly hw') (leads_pause hw')))

/-- Nothing was begun, and nobody else is about. -/
structure Unbegun (w : RecoveryWorld RecoveryTree) : Prop where
  alone : w.Alone
  state : w.state = none
  stage : w.stage = none
  target : w.target = none

/-- A backup of the source and the dump is under way: the stage, if there is one, has no manifest
yet or is a recovery set. -/
structure Building (env : RecoveryEnv) (complete : RecoveryTree → Prop)
    (w : RecoveryWorld RecoveryTree) : Prop where
  alone : w.Alone
  state : w.state = some ⟨.building, env.databaseIdentity, none⟩
  target : w.target = none
  stage : ∀ t, w.stage = some t → t.manifest = none ∨ complete t

/-- What a backup does with a stage that has its manifest. -/
def finishSet (env : RecoveryEnv) (objectCount total dumpSize : Nat) :
    RecoveryProg RecoveryTree RecoveryEvidence := do
  pause
  pause
  let manifestDigest ← hashManifest env
  requireDatabaseIdentity env env.databaseIdentity
  writeOperationState env .publishing (some manifestDigest)
  pause
  publishDirectory
  pause
  unlinkState true
  pure ⟨objectCount, total, dumpSize⟩

/-- What a backup does with a target path that is free. -/
def gatherSet (env : RecoveryEnv) (source : ObjectTree) (dump : List UInt8) :
    RecoveryProg RecoveryTree RecoveryEvidence := do
  let staged ← stageExists
  insist (!staged) "RECOVERY_OPERATION_STAGE_INVALID"
  writeOperationState env .building none
  makeStage RecoveryTree.empty
  onStage fun t => { t with canonical := some ⟨[], []⟩ }
  let (dumpDigest, dumpSize) ← dumpDatabase env dump
  pause
  insist (1 ≤ dumpSize && isSha256 dumpDigest) "RECOVERY_DATABASE_DUMP_FAILED"
  insist (dumpSize ≤ env.limits.maxTemporaryBytes) "RECOVERY_BOUND_EXCEEDED"
  let keys ← inspect fun _ => canonicalKeys env.limits source
  let (objects, total) ← backupObjects env source dumpSize keys [] 0
  pause
  writeManifest ⟨dumpDigest, dumpSize, env.databaseIdentity, objects, total⟩
  finishSet env objects.length total dumpSize

theorem buildSet_eq : buildSet env source dump = (do
    let there ← targetExists
    insist (!there) "RECOVERY_TARGET_EXISTS"
    gatherSet env source dump) := rfl

/-- The world with the state file of a backup under way. -/
def RecoveryWorld.started (w : RecoveryWorld RecoveryTree) (env : RecoveryEnv) :
    RecoveryWorld RecoveryTree :=
  { w with state := some ⟨.building, env.databaseIdentity, none⟩ }

/-- **A backup gathers** the dump and the objects: the rest starts with a whole recovery set. -/
theorem backward_gatherSet {R : RecoveryProg RecoveryTree RecoveryEvidence →
      RecoveryWorld RecoveryTree → Prop} (hR : Backward I R) (h : Permitted env source dump)
    (hfree : w.stage = none) (hw : I w) (hstarted : I (w.started env))
    (hany : ∀ t : RecoveryTree, t.manifest = none ∨ t = backedUp env source dump →
      I ((w.started env).staged t))
    (hrest : R (finishSet env (objectsOf env source).length source.sizes.sum dump.length)
      ((w.started env).staged (backedUp env source dump))) : R (gatherSet env source dump) w := by
  have hcopies := leads_backupObjects h (fun t => hany (withCopies dump t) (.inl rfl))
    source.entries [] ⟨[], []⟩ 0 (fun f hf => mem_entries.mp hf) h.nodup (fun _ _ => rfl)
    (by rw [Nat.zero_add]; exact Nat.le_refl _)
  rw [Nat.zero_add, ← keys_entries h.distinct] at hcopies
  refine hR (leads_stageExists hw) (hR (leads_insist (by rw [hfree]; rfl) hw)
    (hR (leads_writeOperationState hw hstarted) (hR (leads_makeStage hfree hstarted
    (hany .empty (.inl rfl))) (hR (leads_onStage (hany .empty (.inl rfl))
    (hany ⟨none, none, some ⟨[], []⟩, 0⟩ (.inl rfl))) (hR (leads_dumpDatabase h.dump_pos
    h.dump_bound fun d => hany _ (.inl rfl)) (hR (leads_pause (hany _ (.inl rfl)))
    (hR (leads_insist ?_ (hany _ (.inl rfl))) (hR (leads_insist ?_ (hany _ (.inl rfl)))
    (hR (leads_inspect h.keys (hany _ (.inl rfl))) (hR hcopies (hR (leads_pause
    (hany _ (.inl rfl))) (hR (leads_writeManifest (hany _ (.inl rfl)) (hany _ (.inl rfl))
    (hany (backedUp env source dump) (.inr rfl))) hrest))))))))))))
  · rw [Bool.and_eq_true, decide_eq_true_eq]
    exact ⟨h.dump_pos, env.sha256_format dump⟩
  · have htemporary := h.temporary
    exact decide_eq_true (by omega)

/-- The world once the manifest is written. -/
def RecoveryWorld.built (w : RecoveryWorld RecoveryTree) (env : RecoveryEnv) (t : RecoveryTree) :
    RecoveryWorld RecoveryTree :=
  (w.later.started env).staged t

/-- A backup that nobody interferes with, from the beginning. -/
theorem backward_buildSet {R : RecoveryProg RecoveryTree RecoveryEvidence →
      RecoveryWorld RecoveryTree → Prop} (hR : Backward I R) (h : Permitted env source dump)
    (hunbegun : ∀ w, Unbegun w → I w)
    (hbuilding : ∀ w, Building env (· = backedUp env source dump) w → I w) (hw : Unbegun w)
    (hrest : R (finishSet env (objectsOf env source).length source.sizes.sum dump.length)
      (w.built env (backedUp env source dump))) : R (buildSet env source dump) w := by
  have hlater : Unbegun w.later := ⟨hw.alone, hw.state, hw.stage, hw.target⟩
  rw [buildSet_eq]
  refine hR (leads_targetExists hw.alone (hunbegun _ hlater)) (hR (leads_insist
    (by rw [hw.target]; rfl) (hunbegun _ hlater)) (backward_gatherSet hR h hlater.stage
    (hunbegun _ hlater) (hbuilding _ ⟨hw.alone, rfl, hw.target, fun t ht => ?_⟩) (fun t ht =>
    hbuilding _ ⟨hw.alone, rfl, hw.target, fun t' ht' => Option.some.inj ht' ▸ ht⟩) hrest))
  exact absurd (hw.stage.symm.trans ht) (by simp)

end Steps

/-! ## Where a backup can be left -/

/-- A dump the source can be backed up with: the manifest is not too long to be read again. -/
structure Backable (env : RecoveryEnv) (source : ObjectTree) (dump : List UInt8) : Prop where
  permitted : Permitted env source dump
  fits : (env.manifestBytes (gathered env source dump)).length ≤ maxManifestBytes

/-- A recovery set of the source, with some dump. -/
def Whole (env : RecoveryEnv) (source : ObjectTree) (t : RecoveryTree) : Prop :=
  ∃ dump, Backable env source dump ∧ t = backedUp env source dump

/-- The digest of the manifest of a backup. -/
def manifestDigest (env : RecoveryEnv) (source : ObjectTree) (dump : List UInt8) : String :=
  env.sha256 (env.manifestBytes (gathered env source dump))

/-- A whole recovery set is staged or was published, and the state file names its manifest. -/
structure Publishing (env : RecoveryEnv) (source : ObjectTree) (dump : List UInt8)
    (w : RecoveryWorld RecoveryTree) : Prop where
  alone : w.Alone
  state : w.state =
    some ⟨.publishing, env.databaseIdentity, some (manifestDigest env source dump)⟩
  stands : (w.target = none ∧ w.stage = some (backedUp env source dump)) ∨
    (w.stage = none ∧ w.target = some (backedUp env source dump))

/-- Everything was done. -/
structure Published (env : RecoveryEnv) (source : ObjectTree) (w : RecoveryWorld RecoveryTree) :
    Prop where
  state : w.state = none
  stage : w.stage = none
  target : ∃ t, w.target = some t ∧ Whole env source t
  finished : w.finished = true

/-- Where a kill can leave a backup nobody else interferes with. -/
inductive BackupPoint (env : RecoveryEnv) (source : ObjectTree) (w : RecoveryWorld RecoveryTree) :
    Prop where
  | unbegun (h : Unbegun w)
  | building (h : Building env (Whole env source) w)
  | publishing (dump : List UInt8) (hdump : Backable env source dump)
      (h : Publishing env source dump w)
  | published (h : Published env source w)

/-- What a backup returns. -/
def evidenceOf (env : RecoveryEnv) (source : ObjectTree) (dump : List UInt8) : RecoveryEvidence :=
  ⟨(objectsOf env source).length, source.sizes.sum, dump.length⟩

section Convergence

variable {w : RecoveryWorld RecoveryTree}

theorem leads_requireIdentity {I : RecoveryWorld RecoveryTree → Prop} (hw : I w) :
    Leads I (requireDatabaseIdentity env env.databaseIdentity) w () w :=
  leads_bind (leads_look hw) (leads_insist (beq_self_eq_true _) hw)

theorem Building.built (hdump : Backable env source dump) (hw : Unbegun w) :
    Building env (Whole env source) (w.built env (backedUp env source dump)) :=
  ⟨hw.alone, rfl, hw.target, fun _ ht => .inr ⟨dump, hdump, (Option.some.inj ht).symm⟩⟩

/-- The state file is removed last. -/
theorem ends_unlinkState (hdump : Backable env source dump) (h : Publishing env source dump w)
    (hstage : w.stage = none) (htarget : w.target = some (backedUp env source dump))
    {evidence : RecoveryEvidence} :
    Ends (BackupPoint env source) (do
      unlinkState true
      pure evidence) w fun e w' => e = evidence ∧ Published env source w' ∧
        w'.target = some (backedUp env source dump) := by
  have hdone : Published env source { w with state := none, finished := w.finished || true } :=
    ⟨rfl, hstage, ⟨_, htarget, dump, hdump, rfl⟩, Bool.or_true _⟩
  exact (leads_unlinkState h.state (.publishing dump hdump h) (.published hdone)).ends_bind
    (ends_pure (.published hdone) ⟨rfl, hdone, htarget⟩)

/-- A staged recovery set is published. -/
theorem ends_publishStaged (hdump : Backable env source dump) (h : Publishing env source dump w)
    (hstage : w.stage = some (backedUp env source dump)) (htarget : w.target = none)
    {evidence : RecoveryEvidence} :
    Ends (BackupPoint env source) (do
      publishDirectory
      pause
      unlinkState true
      pure evidence) w fun e w' => e = evidence ∧ Published env source w' ∧
        w'.target = some (backedUp env source dump) := by
  have hlater : Publishing env source dump w.later := ⟨h.alone, h.state, h.stands⟩
  have hnext : Publishing env source dump
      { w.later with stage := none, target := some (backedUp env source dump) } :=
    ⟨h.alone, h.state, .inr ⟨rfl, rfl⟩⟩
  have hpoint : BackupPoint env source
      { w.later with stage := none, target := some (backedUp env source dump) } :=
    .publishing dump hdump hnext
  exact (leads_publishDirectory h.alone htarget hstage (.publishing dump hdump hlater)
    hpoint).ends_bind ((leads_pause hpoint).ends_bind (ends_unlinkState hdump hnext rfl rfl))

/-- A backup with its manifest succeeds where the manifest can be read again. -/
theorem ends_finishSet (hdump : Backable env source dump) (hw : Unbegun w) :
    Ends (BackupPoint env source)
      (finishSet env (objectsOf env source).length source.sizes.sum dump.length)
      (w.built env (backedUp env source dump)) fun e w' =>
        e = evidenceOf env source dump ∧ Published env source w' ∧
          w'.target = some (backedUp env source dump) := by
  have hbuilt : BackupPoint env source (w.built env (backedUp env source dump)) :=
    .building (.built hdump hw)
  have hnext : Publishing env source dump { w.built env (backedUp env source dump) with
      state := some ⟨.publishing, env.databaseIdentity, some (manifestDigest env source dump)⟩ } :=
    ⟨hw.alone, rfl, .inl ⟨hw.target, rfl⟩⟩
  have hpublishing := BackupPoint.publishing dump hdump hnext
  refine (leads_pause hbuilt).ends_bind ((leads_pause hbuilt).ends_bind ((leads_inspect
    (a := manifestDigest env source dump) ?_ hbuilt).ends_bind ((leads_requireIdentity
    hbuilt).ends_bind ((leads_writeOperationState hbuilt hpublishing).ends_bind ((leads_pause
    hpublishing).ends_bind (ends_publishStaged hdump hnext rfl hw.target))))))
  exact demand_bind_ok.mpr ⟨decide_eq_true hdump.fits, rfl⟩

/-- A backup from the beginning. -/
theorem ends_buildSet (hdump : Backable env source dump) (hw : Unbegun w) :
    Ends (BackupPoint env source) (buildSet env source dump) w fun e w' =>
      e = evidenceOf env source dump ∧ Published env source w' ∧
        w'.target = some (backedUp env source dump) :=
  backward_buildSet (I := BackupPoint env source)
    (R := fun p w => Ends (BackupPoint env source) p w _) backward_ends hdump.permitted
    (fun _ => BackupPoint.unbegun) (fun _ h => BackupPoint.building ⟨h.alone, h.state, h.target,
      fun t ht => (h.stage t ht).imp_right fun heq => ⟨dump, hdump, heq⟩⟩) hw
    (ends_finishSet hdump hw)

/-! ### Invocations that find something -/

theorem ends_publishSet (hdump : Backable env source dump) (h : Publishing env source dump w) :
    Ends (BackupPoint env source)
      (publishSet env ⟨.publishing, env.databaseIdentity, some (manifestDigest env source dump)⟩) w
      fun e w' => e = evidenceOf env source dump ∧ Published env source w' ∧
        w'.target = some (backedUp env source dump) := by
  have hlater : Publishing env source dump w.later := ⟨h.alone, h.state, h.stands⟩
  have hlater' : Publishing env source dump w.later.later := ⟨h.alone, h.state, h.stands⟩
  have hpoint := BackupPoint.publishing dump hdump hlater
  have hpoint' := BackupPoint.publishing dump hdump hlater'
  have hvalid := hdump.permitted.validates hdump.fits
  have hevidence : ValidatedRecoverySet.evidence ⟨env.sha256 (env.manifestBytes
      (gathered env source dump)), env.sha256 dump, dump.length, env.databaseIdentity,
      objectsOf env source⟩ = evidenceOf env source dump := by
    unfold ValidatedRecoverySet.evidence evidenceOf
    rw [objectsOf_sizes]
  have hvalidate : ∀ (w : RecoveryWorld RecoveryTree)
      (path : RecoveryWorld RecoveryTree → Option RecoveryTree), BackupPoint env source w →
      path w = some (backedUp env source dump) →
      Leads (BackupPoint env source) (validateSet env path (some (manifestDigest env source dump))) w
        ⟨env.sha256 (env.manifestBytes (gathered env source dump)), env.sha256 dump, dump.length,
          env.databaseIdentity, objectsOf env source⟩ w := by
    intro w path hw hpath
    refine leads_bind (leads_inspect (by rw [hpath]; exact hvalid) hw) (leads_bind
      (leads_raiseWhen ?_ hw) (leads_pure hw))
    exact Bool.or_eq_false_iff.mpr ⟨bne_self_eq_false _, bne_self_eq_false _⟩
  rcases h.stands with ⟨htarget, hstage⟩ | ⟨hstage, htarget⟩
  · refine ends_whichExists_staged h.alone htarget (by rw [hstage]; rfl) hpoint hpoint' ?_
    refine (hvalidate w.later.later _ hpoint' hstage).ends_bind ((leads_requireIdentity
      hpoint').ends_bind ?_)
    rw [hevidence]
    exact ends_publishStaged hdump hlater' hstage htarget
  · refine ends_whichExists_published h.alone (by rw [htarget]; rfl) hstage hpoint ?_
    refine (hvalidate w.later _ hpoint htarget).ends_bind ?_
    rw [hevidence]
    exact ends_unlinkState hdump hlater hstage htarget

theorem remains_manifest {t t' : RecoveryTree} (hnone : t.manifest = none)
    (h : t' ∈ t.remains) : t'.manifest = none := by
  unfold RecoveryTree.remains at h
  rcases List.mem_append.mp h with h | h
  · obtain ⟨c, _, rfl⟩ := List.mem_map.mp h
    exact hnone
  · simp only [List.mem_cons, List.not_mem_nil, or_false] at h
    rcases h with rfl | rfl | rfl
    · exact hnone
    · exact hnone
    · rfl

theorem manifestDigest_format : isSha256 (manifestDigest env source dump) = true :=
  env.sha256_format _

/-- A backup that was left building: a stage with a manifest is a whole recovery set. -/
theorem ends_resumeBuilding (hdump : Backable env source dump)
    (h : Building env (Whole env source) w) :
    Ends (BackupPoint env source) (resumeBuilding env source dump) w fun e w' =>
      ∃ dump, Backable env source dump ∧ e = evidenceOf env source dump ∧ Published env source w' ∧
        w'.target = some (backedUp env source dump) := by
  have hw : BackupPoint env source w := .building h
  refine (leads_look hw).ends_bind (ends_ite (fun hcomplete => ?_) fun hpartial => ?_)
  -- a stage with a manifest is whole; its dump may be that of an earlier run
  · obtain ⟨t, ht, dump', hdump', rfl⟩ : ∃ t, w.stage = some t ∧ Whole env source t := by
      cases hstage : w.stage with
      | none => exact absurd hcomplete (by rw [hstage]; exact Bool.false_ne_true)
      | some t =>
          refine ⟨t, rfl, (h.stage t hstage).resolve_left fun hnone => ?_⟩
          rw [hstage] at hcomplete
          change t.manifest.isSome = true at hcomplete
          rw [hnone] at hcomplete
          cases hcomplete
    have hnext : Publishing env source dump' { w with
        state := some ⟨.publishing, env.databaseIdentity, some (manifestDigest env source dump')⟩ } :=
      ⟨h.alone, rfl, .inl ⟨h.target, ht⟩⟩
    have hpublishing := BackupPoint.publishing dump' hdump' hnext
    refine (leads_inspect (a := ⟨env.sha256 (env.manifestBytes (gathered env source dump')),
      env.sha256 dump', dump'.length, env.databaseIdentity, objectsOf env source⟩)
      (by rw [ht]; exact hdump'.permitted.validates hdump'.fits) hw).ends_bind ((leads_insist
      (beq_self_eq_true _) hw).ends_bind ((leads_pause hw).ends_bind ((leads_writeOperationState hw
      hpublishing).ends_bind ((leads_readOperationState rfl (fun s hs => ?_)
      hpublishing).ends_bind ((ends_publishSet hdump' hnext).weaken fun e w' hdone =>
        ⟨dump', hdump', hdone⟩)))))
    rw [← Option.some.inj hs]
    exact ⟨manifestDigest_format, env.identity_format⟩
  -- without one it is removed and everything begins anew
  · have hmanifest : ∀ t, w.stage = some t → t.manifest = none := by
      intro t ht
      rw [ht] at hpartial
      exact Option.not_isSome_iff_eq_none.mp hpartial
    have hcleared : Building env (Whole env source) { w with stage := none } :=
      ⟨h.alone, h.state, h.target, nofun⟩
    have hunbegun : Unbegun { w with
        stage := none, state := none, finished := w.finished || false } :=
      ⟨h.alone, rfl, rfl, h.target⟩
    have hremove : Leads (BackupPoint env source) (removeOwnedStage RecoveryTree.remains) w ()
        { w with stage := none } := by
      refine leads_removeOwnedStage (K := fun stage => ∀ t, stage = some t → t.manifest = none)
        (fun stage hstage => .building ⟨h.alone, h.state, h.target, fun t ht =>
          .inl (hstage t ht)⟩) nofun hmanifest fun t ht t' ht' u hu => ?_
      exact Option.some.inj hu ▸ remains_manifest (hmanifest t ht) ht'
    have hunlink : Leads (BackupPoint env source) (unlinkState false) { w with stage := none } ()
        { w with stage := none, state := none, finished := w.finished || false } :=
      leads_unlinkState h.state (.building hcleared) (.unbegun hunbegun)
    exact hremove.ends_bind (hunlink.ends_bind ((ends_buildSet hdump hunbegun).weaken
      fun e w' hdone => ⟨dump, hdump, hdone⟩))

/-- **From every point** a backup returns with a whole recovery set at the target path. -/
theorem ends_createRecoverySet (hdump : Backable env source dump) (h : BackupPoint env source w)
    (hfinished : w.finished = false) :
    Ends (BackupPoint env source) (createRecoverySet env source dump) w fun e w' =>
      ∃ dump, Backable env source dump ∧ e = evidenceOf env source dump ∧ Published env source w' ∧
        w'.target = some (backedUp env source dump) := by
  refine (leads_insist env.identity_format h).ends_bind ((leads_look h).ends_bind ((leads_insist
    hdump.permitted.sealed h).ends_bind ?_))
  cases h with
  | unbegun h =>
      refine (leads_operationState (fun s hs => absurd (h.state.symm.trans hs) (by simp))
        (.unbegun h)).ends_bind ?_
      rw [h.state]
      exact (ends_buildSet hdump h).weaken fun e w' hdone => ⟨dump, hdump, hdone⟩
  | building h =>
      refine (leads_operationState (fun s hs => ?_) (.building h)).ends_bind ?_
      · cases h.state.symm.trans hs
        exact ⟨rfl, env.identity_format⟩
      · rw [h.state]
        exact (leads_insist (beq_self_eq_true _) (.building h)).ends_bind
          (ends_resumeBuilding hdump h)
  | publishing dump' hdump' h =>
      refine (leads_operationState (fun s hs => ?_) (.publishing dump' hdump' h)).ends_bind ?_
      · cases h.state.symm.trans hs
        exact ⟨manifestDigest_format, env.identity_format⟩
      · rw [h.state]
        exact (leads_insist (beq_self_eq_true _) (.publishing dump' hdump' h)).ends_bind
          ((ends_publishSet hdump' h).weaken fun e w' hdone => ⟨dump', hdump', hdone⟩)
  | published h => exact absurd (hfinished.symm.trans h.finished) (by simp)

end Convergence

/-! ## The size of the manifest -/

section Size

variable {w : RecoveryWorld RecoveryTree}

/-- A manifest that is too long stops a backup that did everything else. -/
theorem raises_finishSet
    (hlong : ¬ (env.manifestBytes (gathered env source dump)).length ≤ maxManifestBytes)
    (hstage : w.stage = some (backedUp env source dump)) (count total size : Nat) :
    Raises (finishSet env count total size) w (.recoverySet "RECOVERY_BOUND_EXCEEDED") := by
  refine (leads_pause (I := fun _ => True) trivial).raises_bind ((leads_pause
    (I := fun _ => True) trivial).raises_bind (Raises.bind (raises_call (?_ : _ = (_, w)))))
  dsimp only
  rw [hstage]
  change ((do
    demand (decide ((env.manifestBytes (gathered env source dump)).length ≤ maxManifestBytes))
      "RECOVERY_BOUND_EXCEEDED"
    .ok (manifestDigest env source dump) : Except RecoveryRaise String), w) = _
  rw [decide_eq_false hlong]
  rfl

theorem raises_createRecoverySet (h : Permitted env source dump)
    (hlong : ¬ (env.manifestBytes (gathered env source dump)).length ≤ maxManifestBytes)
    (hw : Unbegun w) : Raises (createRecoverySet env source dump) w
      (.recoverySet "RECOVERY_BOUND_EXCEEDED") := by
  have hformat : w.StateWellFormed := fun s hs => absurd (hw.state.symm.trans hs) (by simp)
  refine (leads_insist (I := fun _ => True) env.identity_format trivial).raises_bind ((leads_look
    (I := fun _ => True) trivial).raises_bind ((leads_insist (I := fun _ => True) h.sealed
    trivial).raises_bind ((leads_operationState (I := fun _ => True) hformat
    trivial).raises_bind ?_)))
  rw [hw.state]
  exact backward_buildSet (I := fun _ => True) (R := fun p w => Raises p w _) backward_raises h
    (fun _ _ => trivial) (fun _ _ => trivial) hw (raises_finishSet hlong rfl _ _ _)

/-- How long the manifest of what was gathered is. -/
theorem gathered_length (h : Permitted env source dump) :
    (encodeManifest (gathered env source dump)).length = manifestLength source.sizes dump.length := by
  have hlength := encodeManifest_length (m := gathered env source dump) (env.sha256_format dump)
    env.identity_format (fun _ => h.named) (by
      change source.sizes.sum = ((objectsOf env source).map RecoveryObject.sizeBytes).sum
      rw [objectsOf_sizes])
  rw [hlength]
  exact congrArg (manifestLength · dump.length) objectsOf_sizes

theorem Permitted.encoding (h : Permitted env source dump) :
    Permitted env.encoding source dump :=
  ⟨h.keys, h.distinct, h.digests, h.single, h.total, h.dump_pos, h.dump_bound, h.temporary, h.sealed⟩

/-- An uninterrupted backup returns, and what it put at the target path is read back and validated
with the objects of the source. -/
def BackupRestorable (floatEquals : String → Nat → Bool) (env : RecoveryEnv) (source : ObjectTree)
    (dump : List UInt8) (w : RecoveryWorld RecoveryTree) : Prop :=
  ∃ evidence w' t m v,
    (createRecoverySet env.encoding source dump).run [] w = (.returned evidence, w') ∧
    w'.target = some t ∧ t.manifest = some m ∧
    readManifestFile floatEquals env.limits (encodeManifest m) =
      .ok (env.sha256 dump, dump.length, env.databaseIdentity, objectsOf env source) ∧
    validateRecoverySet env.encoding t = .ok v ∧ v.objects = objectsOf env source

/-- **A backup within the limits can be restored** exactly where its manifest is no longer than 16
MiB, which takes 191 bytes and more for each object. -/
theorem backup_restorable (floatEquals : String → Nat → Bool) (env : RecoveryEnv)
    (source : ObjectTree) (dump : List UInt8) (h : Permitted env source dump)
    (w : RecoveryWorld RecoveryTree) (hw : Unbegun w) :
    BackupRestorable floatEquals env source dump w ↔
      manifestLength source.sizes dump.length ≤ maxManifestBytes := by
  have hencoding := h.encoding
  rw [← gathered_length h]
  constructor
  · rintro ⟨evidence, w', _, _, _, hrun, _⟩
    by_contra hlong
    have hraises := raises_createRecoverySet hencoding hlong hw
    unfold Raises at hraises
    rw [hrun] at hraises
    cases hraises
  · intro hfits
    have hdump : Backable env.encoding source dump := ⟨hencoding, hfits⟩
    have hformat : w.StateWellFormed := fun s hs => absurd (hw.state.symm.trans hs) (by simp)
    have hends : Ends (BackupPoint env.encoding source) (createRecoverySet env.encoding source dump)
        w fun e w' => e = evidenceOf env.encoding source dump ∧
          Published env.encoding source w' ∧ w'.target = some (backedUp env.encoding source dump) := by
      refine (leads_insist env.identity_format (.unbegun hw)).ends_bind ((leads_look
        (.unbegun hw)).ends_bind ((leads_insist h.sealed (.unbegun hw)).ends_bind
        ((leads_operationState hformat (.unbegun hw)).ends_bind ?_)))
      rw [hw.state]
      exact ends_buildSet hdump hw
    obtain ⟨evidence, w', hrun, _, _, htarget⟩ := hends.run_returns
    refine ⟨evidence, w', _, gathered env source dump, _, hrun, htarget, rfl, ?_,
      hencoding.validates hfits, rfl⟩
    have haccepted : readManifest env.encoding (gathered env source dump) = .ok () :=
      readManifest_ok.mpr (hencoding.accepted hfits)
    rw [readManifestFile_encode, haccepted]
    rfl

end Size

/-! ## A small source and a large one -/

/-- The sample, within the default limits. -/
def roomyEnv : RecoveryEnv := { sampleEnv with limits := defaultLimits }

/-- Nothing was begun and nobody else is about. -/
def vacant : RecoveryWorld RecoveryTree := ⟨none, none, none, 0, fun _ => none, 0, none, false⟩

theorem vacant_unbegun : Unbegun vacant := ⟨fun _ => rfl, rfl, rfl, rfl⟩

theorem sample_permitted : Permitted roomyEnv sampleObjects [98] where
  keys := by decide +kernel
  distinct := by decide +kernel
  digests := by decide +kernel
  single := by decide +kernel
  total := by decide +kernel
  dump_pos := by decide
  dump_bound := by decide +kernel
  temporary := by decide +kernel
  sealed := rfl

/-- One object is not too many. -/
theorem backup_restorable_sample :
    BackupRestorable (fun _ _ => false) roomyEnv sampleObjects [98] vacant :=
  (backup_restorable _ roomyEnv sampleObjects [98] sample_permitted vacant vacant_unbegun).mpr
    (by decide +kernel)

/-- The manifest of so many objects takes 193 bytes for each, whatever their sizes. -/
theorem le_manifestLength (sizes : List Nat) (dumpSize : Nat) :
    193 * sizes.length ≤ manifestLength sizes dumpSize := by
  have hone : ∀ n, 1 ≤ decimals n := fun n => Nat.length_toDigits_pos
  have hsum : ∀ sizes : List Nat,
      192 * sizes.length ≤ (sizes.map fun size => 191 + decimals size).sum := by
    intro sizes
    induction sizes with
    | nil => exact Nat.le_refl _
    | cons size rest ih =>
        have hsize := hone size
        rw [List.map_cons, List.sum_cons, List.length_cons]
        omega
  have hsizes := hsum sizes
  unfold manifestLength
  omega

/-- A digest that is the number in hexadecimal. -/
def numeral (n : Nat) : String :=
  String.ofList ((List.range 64).map fun i => JsonText.hexDigit (n / 16 ^ (63 - i)))

theorem isSha256_numeral (n : Nat) : isSha256 (numeral n) = true := by
  have hdigit : ∀ k, k < 16 → isLowerHex k.digitChar = true := by decide
  unfold isSha256 numeral
  rw [String.toList_ofList, List.length_map, List.length_range, List.all_map, Bool.and_eq_true]
  refine ⟨rfl, List.all_eq_true.mpr fun i _ => ?_⟩
  exact hdigit _ (Nat.mod_lt _ (by decide))

theorem numeral_inj {n m : Nat} (hn : n < 16 ^ 5) (hm : m < 16 ^ 5) (h : numeral n = numeral m) :
    n = m := by
  have hlist : (List.range 64).map (fun i => JsonText.hexDigit (n / 16 ^ (63 - i))) =
      (List.range 64).map fun i => JsonText.hexDigit (m / 16 ^ (63 - i)) := by
    have := congrArg String.toList h
    rwa [numeral, numeral, String.toList_ofList, String.toList_ofList] at this
  have hdigit : ∀ k, k < 64 → n / 16 ^ (63 - k) % 16 = m / 16 ^ (63 - k) % 16 := by
    intro k hk
    have hk' := List.map_inj_left.mp hlist k (List.mem_range.mpr hk)
    have hvalue := congrArg JsonText.hexValue hk'
    rw [JsonText.hexValue_hexDigit, JsonText.hexValue_hexDigit] at hvalue
    exact Option.some.inj hvalue
  have h₀ : n / 1 % 16 = m / 1 % 16 := hdigit 63 (by decide)
  have h₁ : n / 16 % 16 = m / 16 % 16 := hdigit 62 (by decide)
  have h₂ : n / 256 % 16 = m / 256 % 16 := hdigit 61 (by decide)
  have h₃ : n / 4096 % 16 = m / 4096 % 16 := hdigit 60 (by decide)
  have h₄ : n / 65536 % 16 = m / 65536 % 16 := hdigit 59 (by decide)
  omega


/-- The sample, with digests that number the contents by their lengths. -/
def crowdedEnv : RecoveryEnv :=
  { roomyEnv with sha256 := fun data => numeral data.length
                  sha256_format := fun data => isSha256_numeral data.length }

def crowdedFile (i : Nat) : String × List UInt8 :=
  (canonicalKey (numeral i), List.replicate i 0)

/-- Objects of the lengths below `n`. -/
def crowdedObjects (n : Nat) : ObjectTree where
  dirs := ((List.range n).map crowdedFile).flatMap fun f => canonicalDirectories (baseName f.1)
  files := (List.range n).map crowdedFile

section Crowd

variable {n : Nat}

theorem crowded_file {f : String × List UInt8} (hf : f ∈ (crowdedObjects n).files) :
    ∃ i, i < n ∧ crowdedFile i = f := by
  obtain ⟨i, hi, heq⟩ := List.mem_map.mp hf
  exact ⟨i, List.mem_range.mp hi, heq⟩

theorem crowded_files : (crowdedObjects n).files.length = n := by
  unfold crowdedObjects
  rw [List.length_map, List.length_range]

theorem crowded_count : (crowdedObjects n).sizes.length = n := by
  unfold ObjectTree.sizes
  rw [List.length_map, (entries_perm (crowdedObjects n)).length_eq, crowded_files]

theorem crowded_sizes : ∀ size ∈ (crowdedObjects n).sizes, size < n := by
  intro size hsize
  obtain ⟨f, hf, rfl⟩ := List.mem_map.mp hsize
  obtain ⟨i, hi, rfl⟩ := crowded_file (mem_entries.mp hf)
  unfold crowdedFile
  rwa [List.length_replicate]

theorem sum_le_mul {sizes : List Nat} {n : Nat} (h : ∀ size ∈ sizes, size < n) :
    sizes.sum ≤ sizes.length * n := by
  induction sizes with
  | nil => exact Nat.zero_le _
  | cons size rest ih =>
      have hsize := h size List.mem_cons_self
      have hrest := ih fun s hs => h s (List.mem_cons_of_mem _ hs)
      rw [List.sum_cons, List.length_cons, Nat.add_mul]
      omega

theorem crowded_total (hn : n ≤ 100000) : (crowdedObjects n).sizes.sum ≤ 100000 * 100000 := by
  have hsum := sum_le_mul (crowded_sizes (n := n))
  rw [crowded_count] at hsum
  exact Nat.le_trans hsum (Nat.mul_le_mul hn hn)

theorem crowded_permitted (hn : n ≤ 100000) : Permitted crowdedEnv (crowdedObjects n) [98] where
  keys := by
    refine canonicalKeys_ok.mpr ⟨fun f hf => ?_, crowded_files.symm ▸ hn, fun d => Iff.rfl, rfl⟩
    obtain ⟨i, _, rfl⟩ := crowded_file hf
    exact isCanonicalPath_canonicalKey (isSha256_numeral i)
  distinct := by
    unfold crowdedObjects
    rw [List.map_map]
    refine List.Nodup.map_on (fun i hi j hj heq => ?_) List.nodup_range
    rw [List.mem_range] at hi hj
    have hname := congrArg baseName heq
    change baseName (canonicalKey (numeral i)) = baseName (canonicalKey (numeral j)) at hname
    rw [baseName_canonicalKey (isSha256_numeral i), baseName_canonicalKey (isSha256_numeral j)] at hname
    exact numeral_inj (by omega) (by omega) hname
  digests f hf := by
    obtain ⟨i, _, rfl⟩ := crowded_file hf
    change numeral (List.replicate i 0).length = baseName (canonicalKey (numeral i))
    rw [baseName_canonicalKey (isSha256_numeral i), List.length_replicate]
  single f hf := by
    have hsize := crowded_sizes f.2.length (List.mem_map.mpr ⟨f, mem_entries.mpr hf, rfl⟩)
    change f.2.length ≤ 2 ^ 36
    omega
  total := Nat.le_trans (crowded_total hn) (by decide)
  dump_pos := by decide
  dump_bound := by decide
  temporary := by
    have htotal := crowded_total hn
    change 1 + (crowdedObjects n).sizes.sum ≤ 2 ^ 41
    omega
  sealed := rfl

theorem crowded_refused (hn : n ≤ 100000) (hmany : 86929 < n) :
    ¬ BackupRestorable (fun _ _ => false) crowdedEnv (crowdedObjects n) [98] vacant := by
  have hpermitted := crowded_permitted hn
  have hlong : ¬ (encodeManifest (gathered crowdedEnv (crowdedObjects n) [98])).length ≤
      maxManifestBytes := by
    have hlength := le_manifestLength (crowdedObjects n).sizes [98].length
    rw [crowded_count] at hlength
    rw [gathered_length hpermitted]
    unfold maxManifestBytes
    omega
  rintro ⟨evidence, w', _, _, _, hrun, _⟩
  have hraises := raises_createRecoverySet hpermitted.encoding hlong vacant_unbegun
  unfold Raises at hraises
  rw [hrun] at hraises
  cases hraises

end Crowd

/-- **As many objects as the default limits allow** cannot be backed up. -/
theorem backup_of_crowd_refused :
    Permitted crowdedEnv (crowdedObjects 100000) [98] ∧ crowdedEnv.limits = defaultLimits ∧
      (crowdedObjects 100000).files.length = defaultLimits.maxObjects ∧
      ¬ BackupRestorable (fun _ _ => false) crowdedEnv (crowdedObjects 100000) [98] vacant :=
  ⟨crowded_permitted (Nat.le_refl _), rfl, crowded_files,
    crowded_refused (Nat.le_refl _) (by decide)⟩

end Recovery

end NanoAural
