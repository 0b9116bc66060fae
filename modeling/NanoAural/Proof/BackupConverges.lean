import NanoAural.Proof.BackupChecks

/-!
# A backup converges

A backup can be killed at any of its calls and as often as one likes. What it puts
at the target path it has just written without interruption, checking everything on
its way, or it has validated it right before; either way `_validate_recovery_set`
accepts it, whatever the source holds and the database dumps. Where nobody else
interferes and the source can be backed up, the stage either has no manifest and is
built anew, or it is a whole recovery set that only has to be published.
-/

namespace NanoAural

open Relational Faulty Faulty.Prog

namespace Recovery

variable {env : RecoveryEnv} {source : ObjectTree} {dump : List UInt8}

/-- `_validate_recovery_set` accepts the recovery set. -/
def Accepts (env : RecoveryEnv) (t : RecoveryTree) : Prop := ∃ v, validateRecoverySet env t = .ok v

theorem Backable.accepts (h : Backable env source dump) : Accepts env (backedUp env source dump) :=
  ⟨_, h.permitted.validates h.fits⟩

/-! ## Safety -/

section Safety

variable {w₀ : RecoveryWorld RecoveryTree}

/-- What the programs keep, with everybody about. -/
def Kept (env : RecoveryEnv) (w₀ w : RecoveryWorld RecoveryTree) : Prop :=
  Onward w₀ w ∧ Safe (Accepts env) w

theorem frame_kept : Frame (Kept env w₀) := frame_safe

theorem always_requireIdentity {J : RecoveryWorld RecoveryTree → Prop} (expected : String) :
    Always J (requireDatabaseIdentity env expected) :=
  always_bind (always_look _) fun _ => always_insist _ _

/-- What is published is a stage that validation accepts. -/
theorem yields_publishStaged {evidence : RecoveryEvidence} :
    Yields (fun w => Kept env w₀ w ∧ ∃ t, w.stage = some t ∧ Accepts env t) (Kept env w₀) (do
      publishDirectory
      pause
      unlinkState true
      pure evidence) fun _ _ => True := by
  have hrest : Always (Kept env w₀) (do
      pause
      unlinkState true
      pure evidence : RecoveryProg RecoveryTree RecoveryEvidence) :=
    always_bind always_pause fun _ => always_bind (frame_kept.unlinkState _) fun _ => always_pure _
  exact yields_bind yields_publishDirectory fun _ =>
    (hrest.yields fun _ h => h).weaken (fun _ h => h.1) fun _ _ _ _ => trivial

/-- A recovery set with its manifest is published as it is, unless its manifest is too long. -/
theorem kept_finishSet {w : RecoveryWorld RecoveryTree} (hpermitted : Permitted env source dump)
    (hw : Kept env w₀ w) (hstage : w.stage = some (backedUp env source dump))
    (count total size : Nat) :
    ∀ faults, Kept env w₀ (finishSet env count total size faults w).2.2 := by
  have hmanifest : w.stage.bind RecoveryTree.manifest = some (gathered env source dump) := by
    rw [hstage]
    rfl
  refine backward_kept (leads_pause hw) (backward_kept (leads_pause hw) ?_)
  by_cases hfits : (env.manifestBytes (gathered env source dump)).length ≤ maxManifestBytes
  · have hdump : Backable env source dump := ⟨hpermitted, hfits⟩
    have hstated := frame_kept.state w
      (some ⟨.publishing, env.databaseIdentity, some (manifestDigest env source dump)⟩) w.finished hw
    have hhash : Leads (Kept env w₀) (hashManifest env) w (manifestDigest env source dump) w := by
      refine leads_inspect ?_ hw
      rw [hmanifest]
      exact demand_bind_ok.mpr ⟨decide_eq_true hfits, rfl⟩
    refine backward_kept hhash (backward_kept (leads_requireIdentity hw) (backward_kept
      (leads_writeOperationState hw hstated) (backward_kept (leads_pause hstated) fun faults => ?_)))
    exact (yields_publishStaged faults _ ⟨hstated, _, hstage, hdump.accepts⟩).1
  · -- the program stops at the hash of its manifest
    have hraise : Yields (· = w) (Kept env w₀) (hashManifest env) fun _ _ => False := by
      refine yields_call (fun _ h => h ▸ hw) (fun _ h => h ▸ hw) fun w' _ w'' hw' heq => ?_
      have hok := (Prod.mk.inj heq).1
      dsimp only at hok
      rw [hw', hmanifest] at hok
      exact hfits (of_decide_eq_true (demand_bind_ok.mp hok).1)
    exact fun faults => (yields_bind (φ := fun _ _ => False) (ψ := fun _ _ => True) hraise
      (fun _ _ _ h => h.2.elim) faults w rfl).1

/-- A backup from the beginning only publishes what it wrote and checked itself. -/
theorem always_buildSet (hsealed : env.databaseSealed = true) :
    Always (Kept env w₀) (buildSet env source dump) := by
  rw [buildSet_eq]
  refine always_bind frame_kept.targetExists fun _ => always_bind (always_insist _ _) fun _ => ?_
  by_cases hpermitted : Permitted env source dump
  · intro faults w hw
    cases hstage : w.stage with
    | some t =>
        -- A stage without a state file is nobody's: the program stops there.
        have hraise : Yields (· = w) (· = w) (gatherSet env source dump) fun _ _ => True := by
          refine yields_bind (φ := fun staged _ => staged = true) (yields_look (fun _ h => h)
            fun w' hw' => by rw [hw', hstage]; rfl) fun staged => yields_bind (φ := fun _ _ => False)
            (((yields_raiseWhen fun _ h => h.1).weaken (fun _ h => h)) fun _ w' _ h => ?_) fun _ =>
              fun _ _ h => h.2.elim
          rw [h.2.2] at h
          exact absurd h.1 (by decide)
        rw [(hraise faults w rfl).1]
        exact hw
    | none =>
        exact backward_gatherSet (R := fun p w => ∀ faults, Kept env w₀ (p faults w).2.2)
          backward_kept hpermitted hstage hw (frame_kept.state w _ w.finished hw)
          (fun t _ => frame_kept.stage _ _ (frame_kept.state w _ w.finished hw))
          (kept_finishSet hpermitted (frame_kept.stage _ _ (frame_kept.state w _ w.finished hw)) rfl
            _ _ _)
          faults
  · exact always_gatherSet frame_kept hsealed hpermitted

/-- What validation leaves of a path is accepted. -/
theorem yields_validateSet {J : RecoveryWorld RecoveryTree → Prop}
    (path : RecoveryWorld RecoveryTree → Option RecoveryTree) (expected : Option String) :
    Yields J J (validateSet env path expected) fun _ w => ∃ t, path w = some t ∧ Accepts env t := by
  refine yields_bind (φ := fun _ w => ∃ t, path w = some t ∧ Accepts env t) (yields_call
    (fun _ h => h) (fun _ h => h) fun w v w' _ heq => ?_) fun _ => Always.yields_bind
      (always_raiseWhen _ _) (fun _ h => h.1) fun _ => yields_pure (fun _ h => h.1) fun _ h => h.2
  obtain ⟨hok, rfl⟩ := Prod.mk.inj heq
  dsimp only at hok
  cases hpath : path w with
  | none =>
      rw [hpath] at hok
      cases hok
  | some t =>
      rw [hpath] at hok
      exact ⟨t, rfl, v, hok⟩

/-- What was left to publish is validated right before. -/
theorem always_publishSet (s : OperationState) : Always (Kept env w₀) (publishSet env s) := by
  refine frame_kept.whichExists frame_safe_there ?_ ?_ _
  · exact always_bind (yields_validateSet _ _).always fun _ =>
      always_bind (frame_safe_there.unlinkState _) fun _ => always_pure _
  · refine Yields.always (φ := fun _ _ => True) (yields_bind (yields_validateSet _ _) fun v =>
      Always.yields_bind (always_requireIdentity _) (fun _ h => h.1) fun _ => ?_)
    exact yields_publishStaged

theorem always_resumeBuilding (hsealed : env.databaseSealed = true) :
    Always (Kept env w₀) (resumeBuilding env source dump) :=
  always_bind (always_look _) fun _ => always_ite
    (fun _ => always_bind (always_inspect _) fun _ => always_bind (always_insist _ _) fun _ =>
      always_bind always_pause fun _ => always_bind (frame_kept.writeOperationState _ _) fun _ =>
      always_bind always_readOperationState fun s => always_publishSet s)
    fun _ => always_bind (frame_kept.removeOwnedStage _) fun _ =>
      always_bind (frame_kept.unlinkState _) fun _ => always_buildSet hsealed

/-- **Whatever the source holds and the database dumps**: what is put at the target path is
accepted, and what is there stays. -/
theorem always_createRecoverySet : Always (Kept env w₀) (createRecoverySet env source dump) := by
  refine always_bind (always_insist _ _) fun _ => Yields.always (φ := fun _ _ => True)
    (yields_learn (c := fun sealed => sealed = env.databaseSealed) (yields_look (fun _ h => h)
      fun _ h => ⟨rfl, h⟩) fun sealed hsealed => yields_learn (yields_insist fun _ h => h)
      fun _ htrue => Always.yields_of (?_ : Always (Kept env w₀) _) fun _ _ _ => trivial)
  have hsealed : env.databaseSealed = true := hsealed ▸ htrue
  refine always_bind always_operationState fun state => ?_
  cases state with
  | none => exact always_buildSet hsealed
  | some s =>
      refine always_bind (always_insist _ _) fun _ => ?_
      cases hphase : s.phase with
      | building => exact always_resumeBuilding hsealed
      | publishing => exact always_publishSet s
      | preparing | prepared | databaseRestoring | databaseRestored => exact always_raise _

end Safety

/-! ## The result -/

/-- The invocations of a backup of the source, whatever the database dumps as by then. -/
def invocations (env : RecoveryEnv) (source : ObjectTree)
    (p : RecoveryProg RecoveryTree RecoveryEvidence) : Prop :=
  ∃ dump, p = createRecoverySet env source dump

/-- Those where the source and the dump can be backed up. -/
def backups (env : RecoveryEnv) (source : ObjectTree)
    (p : RecoveryProg RecoveryTree RecoveryEvidence) : Prop :=
  ∃ dump, Backable env source dump ∧ p = createRecoverySet env source dump

theorem BackupPoint.later {w : RecoveryWorld RecoveryTree} (h : BackupPoint env source w) :
    BackupPoint env source w.later := by
  cases h with
  | unbegun h => exact .unbegun ⟨h.alone, h.state, h.stage, h.target⟩
  | building h => exact .building ⟨h.alone, h.state, h.target, h.stage⟩
  | publishing dump hdump h => exact .publishing dump hdump ⟨h.alone, h.state, h.stands⟩
  | published h => exact .published ⟨h.state, h.stage, h.target, h.finished⟩

/-- **A backup converges over kills.** Whatever the source holds and the database dumps: wherever
kills leave it, what is at the target path stays there, and it is another party's or accepted by
validation; so it is at every moment of a further run. Where nobody else interferes and the source
can be backed up, an uninterrupted run returns, with a recovery set of exactly the objects of the
source at the target path and nothing left over. -/
theorem backup_converges (env : RecoveryEnv) (source : ObjectTree) :
    (∀ w, (killedRuns (invocations env source)).Reachable w →
      (∀ t, w.foreign = some t → w.target = some t) ∧
      (∀ t, w.target = some t → w.foreign = some t ∨ Accepts env t) ∧
      (∀ t w', w.target = some t → (killedRuns (invocations env source)).Runs w w' →
        w'.target = some t) ∧
      ∀ dump faults, (∀ t, w.target = some t →
          ((createRecoverySet env source dump).run faults w).2.target = some t) ∧
        ∀ t, ((createRecoverySet env source dump).run faults w).2.target = some t →
          ((createRecoverySet env source dump).run faults w).2.foreign = some t ∨ Accepts env t) ∧
    ∀ w, (killedRuns (backups env source)).Reachable w → w.Alone → w.foreign = none →
      ∀ dump, Backable env source dump →
        ∃ evidence w' t m, (createRecoverySet env source dump).run [] w = (.returned evidence, w') ∧
          w'.target = some t ∧ Accepts env t ∧ t.manifest = some m ∧
          m.objects = objectsOf env source ∧ w'.stage = none ∧ w'.state = none := by
  refine ⟨fun w hreach => ?_, fun w hreach halone hforeign dump hdump => ?_⟩
  · have hkept : ∀ p, invocations env source p → ∀ w₀,
        Always (fun w => Onward w₀ w ∧ Safe (Accepts env) w) p := by
      rintro p ⟨dump, rfl⟩ w₀
      exact always_createRecoverySet
    have hsafe := killed_reachable hkept hreach
    refine ⟨hsafe.theirs, hsafe.ours, fun t w' ht hrun =>
      (killed_onward hkept hreach hrun).target t ht, fun dump faults => ?_⟩
    have hrun := hkept _ ⟨dump, rfl⟩ w faults w ⟨.refl w, hsafe⟩
    exact ⟨fun t ht => hrun.1.target t ht, hrun.2.ours⟩
  · have hkept : ∀ p, backups env source p → ∀ w₀,
        Always (fun w => Onward w₀ w ∧ Safe (Accepts env) w) p := by
      rintro p ⟨dump, _, rfl⟩ w₀
      exact always_createRecoverySet
    have hends : ∀ p, backups env source p → ∀ w : RecoveryWorld RecoveryTree, w.Alone →
        BackupPoint env source w → w.finished = false →
        Ends (BackupPoint env source) p w fun _ _ => True := by
      rintro p ⟨dump, hdump, rfl⟩ w _ hpoint hfinished
      exact (ends_createRecoverySet hdump hpoint hfinished).weaken fun _ _ _ => trivial
    obtain ⟨hpoint, hfinished⟩ := killed_converges hkept
      (fun w hw halone hforeign => BackupPoint.unbegun ⟨halone, hw.state, hw.stage,
        hw.foreign.symm.trans hforeign⟩) (fun w _ hpoint => hpoint.later) hends hreach halone hforeign
    obtain ⟨evidence, w', hrun, dump', hdump', _, hdone, ht⟩ :=
      (ends_createRecoverySet hdump hpoint hfinished).run_returns
    exact ⟨evidence, w', _, _, hrun, ht, hdump'.accepts, rfl, rfl, hdone.stage, hdone.state⟩

/-! ## The sample -/

theorem sample_backable : Backable roomyEnv sampleObjects [98] :=
  ⟨sample_permitted, by decide +kernel⟩

/-- A kill when the manifest is written, before the state file says that it is. -/
def afterManifest : List (Fault RecoveryRaise) := List.replicate 30 .none ++ [.kill true]

def killedAfterManifest : RecoveryWorld RecoveryTree :=
  ((createRecoverySet roomyEnv sampleObjects [98]).run afterManifest vacant).2

theorem killedAfterManifest_ended :
    ((createRecoverySet roomyEnv sampleObjects [98]).run afterManifest vacant).1 = .killed ∧
    killedAfterManifest.finished = false ∧ killedAfterManifest.foreign = none ∧
    killedAfterManifest.target = none ∧
    (killedAfterManifest.stage.bind RecoveryTree.manifest).isSome = true := by decide +kernel

theorem vacant_killed : KilledStep (backups roomyEnv sampleObjects) vacant killedAfterManifest := by
  obtain ⟨hkilled, hfinished, _⟩ := killedAfterManifest_ended
  unfold killedAfterManifest at hfinished ⊢
  exact killedStep_run (createRecoverySet roomyEnv sampleObjects [98]) ⟨[98], sample_backable, rfl⟩
    afterManifest vacant hkilled hfinished

/-- An object root with a canonical name over a content it is not the digest of. -/
def misnamedObjects : ObjectTree :=
  ⟨canonicalDirectories objectDigest, [(canonicalKey objectDigest, [98])]⟩

/-- A kill when some of the dump and of the objects is in the stage. -/
def inCopy : List (Fault RecoveryRaise) := List.replicate 15 .none ++ [.kill true]

def killedInCopy : RecoveryWorld RecoveryTree :=
  ((createRecoverySet roomyEnv misnamedObjects [98]).run inCopy vacant).2

theorem killedInCopy_ended :
    ((createRecoverySet roomyEnv misnamedObjects [98]).run inCopy vacant).1 = .killed ∧
    killedInCopy.finished = false ∧ killedInCopy.stage.isSome = true := by decide +kernel

theorem vacant_killedInCopy :
    KilledStep (invocations roomyEnv misnamedObjects) vacant killedInCopy := by
  obtain ⟨hkilled, hfinished, _⟩ := killedInCopy_ended
  unfold killedInCopy at hfinished ⊢
  exact killedStep_run (createRecoverySet roomyEnv misnamedObjects [98]) ⟨[98], rfl⟩ inCopy vacant
    hkilled hfinished

/-- The run after the first kill publishes what the killed one left; what a run after the second one
leaves at the target path is accepted, if there is anything. -/
theorem backup_converges_after_manifest :
    (∃ evidence w' t, (createRecoverySet roomyEnv sampleObjects [98]).run [] killedAfterManifest =
      (.returned evidence, w') ∧ w'.target = some t ∧ Accepts roomyEnv t ∧ w'.stage = none) ∧
    killedInCopy.stage.isSome = true ∧ ∀ t,
      ((createRecoverySet roomyEnv misnamedObjects [98]).run [] killedInCopy).2.target = some t →
      ((createRecoverySet roomyEnv misnamedObjects [98]).run [] killedInCopy).2.foreign = some t ∨
        Accepts roomyEnv t := by
  obtain ⟨_, _, hforeign, _⟩ := killedAfterManifest_ended
  have hinit : vacant.Initial := ⟨rfl, rfl, rfl, rfl, rfl⟩
  refine ⟨?_, killedInCopy_ended.2.2, ?_⟩
  · have hreach : (killedRuns (backups roomyEnv sampleObjects)).Reachable killedAfterManifest :=
      (Machine.System.Reachable.of_init hinit).step vacant_killed
    have hkept : ∀ p, backups roomyEnv sampleObjects p → ∀ w₀,
        Always (fun w => Onward w₀ w ∧ Safe (Accepts roomyEnv) w) p := by
      rintro p ⟨dump, _, rfl⟩ w₀
      exact always_createRecoverySet
    have hsafe : Safe (Accepts roomyEnv) vacant :=
      ⟨fun _ h => (by cases h), fun _ h => (by cases h), Nat.zero_le 1⟩
    have halone : killedAfterManifest.Alone := fun m =>
      congrFun (killed_step hkept hsafe vacant_killed).1.arrivals m
    obtain ⟨evidence, w', t, _, hrun, ht, haccepts, _, _, hstage, _⟩ :=
      (backup_converges roomyEnv sampleObjects).2 killedAfterManifest hreach halone hforeign [98]
        sample_backable
    exact ⟨evidence, w', t, hrun, ht, haccepts, hstage⟩
  · exact (((backup_converges roomyEnv misnamedObjects).1 killedInCopy
      ((Machine.System.Reachable.of_init hinit).step vacant_killedInCopy)).2.2.2 [98] []).2

/-- The scan of the names does not look at contents; the copy does, and stops. -/
theorem misnamed_backup_refused :
    canonicalKeys roomyEnv.limits misnamedObjects = .ok [canonicalKey objectDigest] ∧
      misnamedObjects.sizes.sum ≤ roomyEnv.limits.maxTotalBlobBytes ∧
      ((createRecoverySet roomyEnv misnamedObjects [98]).run [] vacant).1 =
        .raised (.recoverySet "RECOVERY_CANONICAL_INTEGRITY_FAILED") := by decide +kernel

end Recovery

end NanoAural
