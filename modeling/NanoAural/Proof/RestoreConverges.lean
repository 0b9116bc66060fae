import NanoAural.Proof.RecoveryContents
import NanoAural.Proof.RecoveryFrames

/-!
# A restore converges

A restore can be killed at any of its calls and as often as one likes. The state
file names the phase, and what each phase has to find is a predicate on the world:
the stage is complete from `prepared` on, and the dump has taken effect exactly
once from `databaseRestored` on. From each of them an uninterrupted run returns,
and every call on its way leaves one of them.
-/

namespace NanoAural

open Relational Faulty Faulty.Prog

namespace Recovery

variable {env : RecoveryEnv} {source : RecoveryTree} {v : ValidatedRecoverySet}

/-- The object root passes `_validate_canonical_root`. -/
def Complete (env : RecoveryEnv) (v : ValidatedRecoverySet) (t : ObjectTree) : Prop :=
  validateObjects env t v.objects = .ok ()

/-! ## What validation leaves -/

theorem yields_validateCanonicalRoot {J : RecoveryWorld ObjectTree → Prop}
    {root : RecoveryWorld ObjectTree → Option ObjectTree}
    {make : RecoveryWorld ObjectTree → RecoveryWorld ObjectTree} {objects : List RecoveryObject}
    (hmake : ∀ w, J w → J (if (root w).isSome then w else make w))
    (hroot : ∀ w, root w = none → root (make w) = some ⟨[], []⟩) :
    Yields J J (validateCanonicalRoot env root make objects) fun _ w =>
      ∃ t, root w = some t ∧ validateObjects env t objects = .ok () := by
  have hmade : ∀ w, root (if (root w).isSome then w else make w) =
      some ((root w).getD ⟨[], []⟩) := by
    intro w
    cases heq : root w with
    | none => exact hroot w heq
    | some t => exact heq
  have hkeys : ∀ w, (do
      let keys ← canonicalKeys env.limits ((root w).getD ⟨[], []⟩)
      demand (keys == objects.map RecoveryObject.storageKey)
        "RECOVERY_CANONICAL_INTEGRITY_FAILED" : Except RecoveryRaise Unit) = .ok () →
      canonicalKeys env.limits ((root w).getD ⟨[], []⟩) =
        .ok (objects.map RecoveryObject.storageKey) := by
    intro w h
    obtain ⟨keys, hkeys, heq⟩ := except_bind_ok.mp h
    rw [demand_ok, beq_iff_eq] at heq
    exact heq ▸ hkeys
  refine yields_bind (φ := fun _ w => canonicalKeys env.limits ((root w).getD ⟨[], []⟩) =
    .ok (objects.map RecoveryObject.storageKey)) (yields_call (fun _ h => h) (fun _ h => h)
      fun w a w' hw heq => ?_) fun _ => yields_bind (φ := fun _ w => ∃ t, root w = some t ∧
        canonicalKeys env.limits t = .ok (objects.map RecoveryObject.storageKey))
        (yields_act (fun _ h => h.1) (fun w h => hmake w h.1) fun w h => ⟨_, hmade w, h.2⟩) fun _ =>
          yields_call (fun _ h => h.1) (fun _ h => h.1) fun w a w' hw heq => ?_
  · obtain ⟨hok, rfl⟩ := Prod.mk.inj heq
    exact hkeys w hok
  · obtain ⟨hok, rfl⟩ := Prod.mk.inj heq
    obtain ⟨t, ht, hcanonical⟩ := hw.2
    rw [demand_ok, ht] at hok
    exact ⟨t, ht, validateObjects_ok.mpr ⟨hcanonical, hok⟩⟩

theorem leads_validateCanonicalRoot {I : RecoveryWorld ObjectTree → Prop}
    {w : RecoveryWorld ObjectTree} {root : RecoveryWorld ObjectTree → Option ObjectTree}
    {make : RecoveryWorld ObjectTree → RecoveryWorld ObjectTree} {objects : List RecoveryObject}
    {t : ObjectTree} (ht : root w = some t) (hcomplete : validateObjects env t objects = .ok ())
    (hw : I w) : Leads I (validateCanonicalRoot env root make objects) w () w := by
  obtain ⟨hkeys, hintact⟩ := validateObjects_ok.mp hcomplete
  have hmake : (if (root w).isSome then w else make w) = w := by
    rw [ht]
    rfl
  have hact := leads_act (I := I) (ε := RecoveryRaise)
    (f := fun w => if (root w).isSome then w else make w) hw (hmake.symm ▸ hw)
  rw [hmake] at hact
  refine leads_bind (a := ()) (leads_inspect ?_ hw) (leads_bind hact (leads_inspect ?_ hw))
  · rw [ht]
    exact except_bind_ok.mpr ⟨_, hkeys, demand_ok.mpr (beq_self_eq_true _)⟩
  · rw [ht]
    exact demand_ok.mpr hintact

theorem leads_validateStage {I : RecoveryWorld ObjectTree → Prop} {w : RecoveryWorld ObjectTree}
    {t : ObjectTree} (ht : w.stage = some t) (hcomplete : Complete env v t) (hw : I w) :
    Leads I (validateStage env v.objects) w () w := leads_validateCanonicalRoot ht hcomplete hw

theorem leads_validateTarget {I : RecoveryWorld ObjectTree → Prop} {w : RecoveryWorld ObjectTree}
    {t : ObjectTree} (ht : w.target = some t) (hcomplete : Complete env v t) (hw : I w) :
    Leads I (validateTarget env v.objects) w () w := leads_validateCanonicalRoot ht hcomplete hw

/-! ## Safety -/

section Safety

variable {w₀ : RecoveryWorld ObjectTree}

theorem always_requireDatabaseIdentity {J : RecoveryWorld ObjectTree → Prop} (expected : String) :
    Always J (requireDatabaseIdentity env expected) :=
  always_bind (always_look _) fun _ => always_insist _ _

theorem Frame.restoreObjects {J : RecoveryWorld ObjectTree → Prop} (hJ : Frame J) (tree : ObjectTree)
    (objects : List RecoveryObject) : ∀ total, Always J (restoreObjects env tree objects total) := by
  induction objects with
  | nil => exact fun _ => always_pure ()
  | cons item rest ih =>
      exact fun total => always_bind (always_openReader _ _) fun _ =>
        always_bind (hJ.copyStream _ _ _ _) fun _ => always_bind (always_insist _ _) fun _ => ih _

theorem Frame.prepare {J : RecoveryWorld ObjectTree → Prop} (hJ : Frame J) (tree : ObjectTree) :
    Always J (prepare env tree v) :=
  always_bind (always_look _) fun _ => always_bind (always_insist _ _) fun _ =>
    always_bind (hJ.removeOwnedStage _) fun _ => always_bind (hJ.makeStage _) fun _ =>
    always_bind (hJ.restoreObjects _ _ _) fun _ => always_bind (always_inspect _) fun _ =>
    always_bind always_pause fun _ => always_bind (hJ.writeOperationState _ _) fun _ =>
    always_bind always_pause fun _ => always_pure _

theorem Frame.validateStage {J : RecoveryWorld ObjectTree → Prop} (hJ : Frame J)
    (objects : List RecoveryObject) : Yields J J (validateStage env objects) fun _ w =>
      ∃ t, w.stage = some t ∧ validateObjects env t objects = .ok () := by
  refine yields_validateCanonicalRoot (fun w hw => ?_) fun _ _ => rfl
  split
  · exact hw
  · exact hJ.stage w _ hw

theorem Frame.enterDatabase {J : RecoveryWorld ObjectTree → Prop} (hJ : Frame J) :
    Always J (enterDatabase env v) :=
  always_bind (always_look _) fun _ => always_bind (always_insist _ _) fun _ =>
    always_bind (hJ.validateStage _).always fun _ =>
    always_bind (always_requireDatabaseIdentity _) fun _ =>
    always_bind (hJ.writeOperationState _ _) fun _ => always_bind always_pause fun _ =>
    always_pure _

/-- The dump takes effect in a database that is empty. -/
theorem always_restoreDatabase (dump : List UInt8) :
    Always (fun w => Onward w₀ w ∧ Safe (Complete env v) w) (restoreDatabase env dump v) := by
  have hdump : Yields (fun w => (Onward w₀ w ∧ Safe (Complete env v) w) ∧ w.restores = 0)
      (fun w => Onward w₀ w ∧ Safe (Complete env v) w) (restoreDump env dump v.dumpSha256)
      fun _ _ => True := by
    refine Always.yields_bind (always_insist _ _) (fun _ h => h.1) fun _ =>
      Always.yields_bind (always_insist _ _) (fun _ h => h.1) fun _ =>
      yields_bind (φ := fun _ _ => True) (yields_act (fun _ h => h.1) (fun w h => ?_)
        fun _ _ => trivial) fun _ => ?_
    · obtain ⟨⟨honward, hsafe⟩, hnone⟩ := h
      exact ⟨⟨honward.arrivals, honward.target, honward.foreign⟩, ⟨hsafe.theirs, hsafe.ours, by
        rw [hnone]⟩⟩
    · exact (always_pause.yields fun _ h => h).weaken (fun _ h => h.1) fun _ _ _ _ => trivial
  refine Yields.always (φ := fun _ _ => True) (yields_bind
    (φ := fun empty w => empty = true → w.restores = 0)
    (yields_look (fun _ h => h) fun _ _ h => beq_iff_eq.mp h) fun empty =>
    yields_bind (φ := fun _ _ => True) (yields_ite (fun hempty => ?_) fun _ =>
      yields_pure (fun _ h => h.1) fun _ _ => trivial) fun _ => ?_)
  · exact hdump.weaken (fun _ h => ⟨h.1, h.2 hempty⟩) fun _ _ _ h => h
  · have hrest : Always (fun w => Onward w₀ w ∧ Safe (Complete env v) w) (do
        requireDatabaseIdentity env env.databaseIdentity
        let sealed ← databaseHasSealedLedger env
        insist sealed "RECOVERY_DATABASE_AUTHORITY_INVALID"
        writeOperationState env .databaseRestored (some v.manifestSha256)
        pause
        pure OperationPhase.databaseRestored : RecoveryProg ObjectTree OperationPhase) :=
      always_bind (always_requireDatabaseIdentity _) fun _ => always_bind (always_look _) fun _ =>
        always_bind (always_insist _ _) fun _ =>
        always_bind (frame_safe.writeOperationState _ _) fun _ =>
        always_bind always_pause fun _ => always_pure _
    exact (hrest.yields fun _ h => h).weaken (fun _ h => h.1) fun _ _ _ _ => trivial

/-- What is published was validated right before. -/
theorem always_publishObjects :
    Always (fun w => Onward w₀ w ∧ Safe (Complete env v) w) (publishObjects env v) := by
  refine always_bind (always_look _) fun _ => always_bind (always_insist _ _) fun _ =>
    always_bind (always_requireDatabaseIdentity _) fun _ =>
    always_bind (frame_safe.whichExists frame_safe_there ?_ ?_ _) fun _ =>
    always_bind (frame_safe.unlinkState _) fun _ => always_pure _
  · refine Yields.always (yields_validateCanonicalRoot (fun w hw => ?_) fun w hnone => ?_)
    · rw [if_pos hw.2]
      exact hw
    · rw [if_neg (by rw [hnone]; exact Bool.false_ne_true)]
  · refine Yields.always (φ := fun _ _ => True)
      (yields_bind (frame_safe.validateStage v.objects) fun _ => yields_bind
        (yields_publishDirectory.weaken (fun w hw => ⟨hw.1, hw.2⟩) fun _ _ _ h => h) fun _ => ?_)
    exact (always_pause.yields fun _ h => h).weaken (fun _ h => h.1) fun _ _ _ _ => trivial

theorem Frame.restorePhase {J : RecoveryWorld ObjectTree → Prop} (hJ : Frame J) :
    Always J (restorePhase env v) := by
  refine always_bind always_operationState fun state => ?_
  cases state with
  | none =>
      exact always_bind hJ.targetExists fun _ => always_bind (always_insist _ _) fun _ =>
        always_bind always_stageExists fun _ => always_bind (always_insist _ _) fun _ =>
        always_bind (always_look _) fun _ => always_bind (always_insist _ _) fun _ =>
        always_bind (hJ.writeOperationState _ _) fun _ => always_pure _
  | some s =>
      exact always_bind (always_raiseWhen _ _) fun _ => always_bind (always_insist _ _) fun _ =>
        always_pure _

theorem always_restoreRecoverySet (hvalid : validateRecoverySet env source = .ok v) :
    Always (fun w => Onward w₀ w ∧ Safe (Complete env v) w) (restoreRecoverySet env source) := by
  refine Yields.always (φ := fun _ _ => True) (yields_bind (φ := fun v' _ => v' = v)
    (yields_call (fun _ h => h) (fun _ h => h) fun w v' w' _ heq => ?_) fun v' =>
      yields_assume fun hv' => ?_)
  · obtain ⟨hok, _⟩ := Prod.mk.inj heq
    exact Except.ok.inj (hok.symm.trans hvalid)
  · subst hv'
    refine Always.yields_of (always_bind (always_insist _ _) fun _ =>
      always_bind frame_safe.restorePhase fun _ => always_bind (always_ite
        (fun _ => frame_safe.prepare _) fun _ => always_pure _) fun _ => always_bind (always_ite
        (fun _ => frame_safe.enterDatabase) fun _ => always_pure _) fun _ => always_bind (always_ite
        (fun _ => always_restoreDatabase _) fun _ => always_pure _) fun _ =>
      always_bind (always_raiseWhen _ _) fun _ => always_publishObjects) fun _ _ _ => trivial

end Safety

/-! ## Convergence -/

/-- A valid recovery set within the limits, with a dump that carries the sealed ledger. -/
structure Restorable (env : RecoveryEnv) (source : RecoveryTree) (v : ValidatedRecoverySet) :
    Prop where
  valid : validateRecoverySet env source = .ok v
  sealed : env.databaseSealed = true
  fits : (v.objects.map RecoveryObject.sizeBytes).sum ≤ env.limits.maxTemporaryBytes

/-- What a phase finds. -/
def Stands (env : RecoveryEnv) (v : ValidatedRecoverySet) :
    OperationPhase → RecoveryWorld ObjectTree → Prop
  | .preparing, w => w.target = none ∧ w.restores = 0
  | .prepared, w => w.target = none ∧ w.restores = 0 ∧ ∃ t, w.stage = some t ∧ Complete env v t
  | .databaseRestoring, w =>
      w.target = none ∧ w.restores ≤ 1 ∧ ∃ t, w.stage = some t ∧ Complete env v t
  | .databaseRestored, w => w.restores = 1 ∧
      ((w.target = none ∧ ∃ t, w.stage = some t ∧ Complete env v t) ∨
        (w.stage = none ∧ ∃ t, w.target = some t ∧ Complete env v t))
  | .building, _ => False
  | .publishing, _ => False

/-- The state file names the phase, and the phase finds what it has to. -/
structure InPhase (env : RecoveryEnv) (v : ValidatedRecoverySet) (phase : OperationPhase)
    (w : RecoveryWorld ObjectTree) : Prop where
  alone : w.Alone
  state : w.state = some ⟨phase, env.databaseIdentity, some v.manifestSha256⟩
  stands : Stands env v phase w

/-- Nothing was begun. -/
structure Fresh (w : RecoveryWorld ObjectTree) : Prop where
  alone : w.Alone
  state : w.state = none
  stage : w.stage = none
  target : w.target = none
  restores : w.restores = 0

/-- Everything was done. -/
structure Restored (env : RecoveryEnv) (v : ValidatedRecoverySet) (w : RecoveryWorld ObjectTree) :
    Prop where
  state : w.state = none
  stage : w.stage = none
  target : ∃ t, w.target = some t ∧ Complete env v t
  restores : w.restores = 1
  finished : w.finished = true

/-- Where a kill can leave a restore nobody else interferes with. -/
inductive RestorePoint (env : RecoveryEnv) (v : ValidatedRecoverySet)
    (w : RecoveryWorld ObjectTree) : Prop where
  | fresh (h : Fresh w)
  | within (phase : OperationPhase) (h : InPhase env v phase w)
  | restored (h : Restored env v w)

/-- What the copy loop makes of an object. -/
def entryOf (tree : ObjectTree) (item : RecoveryObject) : String × List UInt8 :=
  (item.storageKey, (tree.read item.storageKey).getD [])

theorem entries_paths {tree : ObjectTree} (objects : List RecoveryObject) :
    (objects.map (entryOf tree)).map Prod.fst = objects.map RecoveryObject.storageKey := by
  rw [List.map_map]
  rfl

section Convergence

variable {w : RecoveryWorld ObjectTree}

/-- The copy loop goes through the objects, each within the bounds that are left. -/
theorem leads_restoreObjects {I : RecoveryWorld ObjectTree → Prop} (hany : ∀ t, I (w.staged t))
    {tree : ObjectTree} (objects : List RecoveryObject) :
    ∀ (t : ObjectTree) (total : Nat),
      (∀ item ∈ objects, ∃ content, tree.read item.storageKey = some content ∧
        env.sha256 content = item.sha256 ∧ content.length = item.sizeBytes) →
      (∀ item ∈ objects, item.sizeBytes ≤ env.limits.maxSingleBlobBytes) →
      (objects.map RecoveryObject.storageKey).Nodup →
      (∀ item ∈ objects, t.read item.storageKey = none) →
      total + (objects.map RecoveryObject.sizeBytes).sum ≤ env.limits.maxTotalBlobBytes →
      total + (objects.map RecoveryObject.sizeBytes).sum ≤ env.limits.maxTemporaryBytes →
      Leads I (restoreObjects env tree objects total) (w.staged t) ()
        (w.staged (t.copies (objects.map (entryOf tree)))) := by
  induction objects with
  | nil => exact fun t _ _ _ _ _ _ _ => leads_pure (hany t)
  | cons item rest ih =>
      intro t total hread hsingle hnodup hfresh htotal htemporary
      rw [List.map_cons, List.nodup_cons] at hnodup
      rw [List.map_cons, List.sum_cons] at htotal htemporary
      obtain ⟨content, hcontent, hsha, hlength⟩ := hread item List.mem_cons_self
      have hfits := hsingle item List.mem_cons_self
      have hrest := ih (ObjectTree.copied t item.storageKey content) (total + content.length)
        (fun i hi => hread i (List.mem_cons_of_mem _ hi))
        (fun i hi => hsingle i (List.mem_cons_of_mem _ hi)) hnodup.2
        (fun i hi => read_copied_none (hfresh i (List.mem_cons_of_mem _ hi)) fun heq =>
          hnodup.1 (heq ▸ List.mem_map_of_mem hi)) (by omega) (by omega)
      have hentry : entryOf tree item = (item.storageKey, content) := by
        unfold entryOf
        rw [hcontent]
        rfl
      have hplaces : Places wholeStage (id : ObjectTree → ObjectTree) :=
        ⟨fun _ => rfl, fun _ _ => rfl⟩
      rw [List.map_cons, hentry]
      refine leads_bind (leads_inspect (by rw [hcontent]) (hany t)) (leads_bind
        (leads_copyStream hplaces hany
          (hfresh item List.mem_cons_self) ?_) (leads_bind (leads_insist ?_ (hany _)) hrest))
      · rw [hlength]
        omega
      · rw [hsha, hlength, beq_self_eq_true, beq_self_eq_true]
        rfl

/-- What the copy loop leaves is complete. -/
theorem complete_copies (hr : Restorable env source v) :
    Complete env v (ObjectTree.copies ⟨[], []⟩
      (v.objects.map (entryOf (source.canonical.getD ⟨[], []⟩)))) := by
  obtain ⟨dump, m, canonical, rfl, haccepted, _, _, hkeys, hintact, rfl⟩ :=
    validateRecoverySet_ok.mp hr.valid
  obtain ⟨hcanonical, _, _, hsorted⟩ := canonicalKeys_ok.mp hkeys
  have hpath : ∀ item ∈ m.objects, isCanonicalPath item.storageKey = true := by
    intro item hitem
    have hmem : item.storageKey ∈ orderBy id (canonical.files.map Prod.fst) :=
      hsorted ▸ List.mem_map_of_mem hitem
    obtain ⟨f, hf, heq⟩ := List.mem_map.mp (mem_orderBy.mp hmem)
    exact heq ▸ hcanonical f hf
  have hcopied : canonicalKeys env.limits (ObjectTree.copies ⟨[], []⟩
      (m.objects.map (entryOf canonical))) =
      .ok ((m.objects.map (entryOf canonical)).map Prod.fst) := by
    refine canonicalKeys_copies (fun e he => ?_) ?_ ?_
    · obtain ⟨item, hitem, rfl⟩ := List.mem_map.mp he
      exact hpath item hitem
    · rw [List.length_map]
      exact haccepted.count
    · rw [entries_paths]
      exact haccepted.sorted
  rw [entries_paths] at hcopied
  refine validateObjects_ok.mpr ⟨hcopied, intact_iff.mpr fun item hitem => ?_⟩
  obtain ⟨content, hcontent, hsha, hlength⟩ := intact_iff.mp hintact item hitem
  have hentry : (item.storageKey, content) ∈ m.objects.map (entryOf canonical) := by
    refine List.mem_map.mpr ⟨item, hitem, ?_⟩
    unfold entryOf
    rw [hcontent]
    rfl
  refine ⟨content, ?_, hsha, hlength⟩
  unfold ObjectTree.read
  rw [copies_files]
  refine lookup_of_nodup ?_ hentry
  exact (entries_paths m.objects).symm ▸ haccepted.distinct

theorem manifest_format (hr : Restorable env source v) : isSha256 v.manifestSha256 = true := by
  obtain ⟨_, m, _, _, _, _, _, _, _, rfl⟩ := validateRecoverySet_ok.mp hr.valid
  exact env.sha256_format _

theorem InPhase.stateWellFormed {phase : OperationPhase} (hr : Restorable env source v)
    (h : InPhase env v phase w) : w.StateWellFormed := by
  intro s hs
  cases h.state.symm.trans hs
  exact ⟨manifest_format hr, env.identity_format⟩

/-- `if phase == "preparing"` copies the objects. -/
theorem ends_prepare (hr : Restorable env source v) (h : InPhase env v .preparing w) :
    Ends (RestorePoint env v) (prepare env (source.canonical.getD ⟨[], []⟩) v) w
      fun phase w' => phase = .prepared ∧ InPhase env v .prepared w' := by
  obtain ⟨htarget, hrestores⟩ := h.stands
  have hany : ∀ stage, RestorePoint env v { w with stage := stage } := fun stage =>
    .within .preparing ⟨h.alone, h.state, htarget, hrestores⟩
  have hcomplete := complete_copies hr
  have hkeys := (validateObjects_ok.mp hcomplete).1
  have hprepared : InPhase env v .prepared { w.staged (ObjectTree.copies ⟨[], []⟩
      (v.objects.map (entryOf (source.canonical.getD ⟨[], []⟩)))) with
        state := some ⟨.prepared, env.databaseIdentity, some v.manifestSha256⟩ } :=
    ⟨h.alone, rfl, htarget, hrestores, _, rfl, hcomplete⟩
  have hcopies : Leads (RestorePoint env v)
      (restoreObjects env (source.canonical.getD ⟨[], []⟩) v.objects 0) (w.staged ⟨[], []⟩) ()
      (w.staged (ObjectTree.copies ⟨[], []⟩
        (v.objects.map (entryOf (source.canonical.getD ⟨[], []⟩))))) := by
    obtain ⟨dump, m, canonical, rfl, haccepted, _, _, _, hintact, rfl⟩ :=
      validateRecoverySet_ok.mp hr.valid
    exact leads_restoreObjects (fun t => hany (some t)) m.objects _ 0 (intact_iff.mp hintact)
      haccepted.single haccepted.distinct (fun _ _ => rfl)
      (by rw [Nat.zero_add]; exact haccepted.total_bound) (by rw [Nat.zero_add]; exact hr.fits)
  have hstaged := hany (some (ObjectTree.copies ⟨[], []⟩
    (v.objects.map (entryOf (source.canonical.getD ⟨[], []⟩)))))
  refine (leads_look (hany w.stage)).ends_bind ((leads_insist (beq_iff_eq.mpr hrestores)
    (hany w.stage)).ends_bind ((leads_removeOwnedStage (K := fun _ => True)
    (fun stage _ => hany stage) trivial trivial fun _ _ _ _ => trivial).ends_bind ((leads_makeStage rfl
    (hany none) (hany (some ⟨[], []⟩))).ends_bind (hcopies.ends_bind ((leads_inspect (a := ()) ?_
    hstaged).ends_bind ((leads_pause hstaged).ends_bind ((leads_writeOperationState hstaged
    (.within .prepared hprepared)).ends_bind ((leads_pause (.within .prepared hprepared)).ends_bind
    (ends_pure (.within .prepared hprepared) ⟨rfl, hprepared⟩)))))))))
  exact except_bind_ok.mpr ⟨_, hkeys, demand_ok.mpr (beq_self_eq_true _)⟩

theorem leads_requireDatabaseIdentity {I : RecoveryWorld ObjectTree → Prop} (hw : I w) :
    Leads I (requireDatabaseIdentity env env.databaseIdentity) w () w :=
  leads_bind (leads_look hw) (leads_insist (beq_self_eq_true _) hw)

/-- `if phase == "prepared"` only checks. -/
theorem ends_enterDatabase (h : InPhase env v .prepared w) :
    Ends (RestorePoint env v) (enterDatabase env v) w
      fun phase w' => phase = .databaseRestoring ∧ InPhase env v .databaseRestoring w' := by
  obtain ⟨htarget, hrestores, t, ht, hcomplete⟩ := h.stands
  have hw : RestorePoint env v w := .within .prepared h
  have hnext : InPhase env v .databaseRestoring { w with
      state := some ⟨.databaseRestoring, env.databaseIdentity, some v.manifestSha256⟩ } :=
    ⟨h.alone, rfl, htarget, by dsimp only; omega, t, ht, hcomplete⟩
  exact (leads_look hw).ends_bind ((leads_insist (beq_iff_eq.mpr hrestores) hw).ends_bind
    ((leads_validateStage ht hcomplete hw).ends_bind
    ((leads_requireDatabaseIdentity hw).ends_bind ((leads_writeOperationState hw
    (.within .databaseRestoring hnext)).ends_bind ((leads_pause
    (.within .databaseRestoring hnext)).ends_bind
    (ends_pure (.within .databaseRestoring hnext) ⟨rfl, hnext⟩))))))

/-- `if phase == "database_restoring"`: an empty database means retry, and one that is not empty
that the transaction committed before the kill. -/
theorem ends_restoreDatabase (hr : Restorable env source v) (h : InPhase env v .databaseRestoring w) :
    Ends (RestorePoint env v) (restoreDatabase env (source.dump.getD []) v) w
      fun phase w' => phase = .databaseRestored ∧ InPhase env v .databaseRestored w' := by
  obtain ⟨htarget, hrestores, t, ht, hcomplete⟩ := h.stands
  have hw : RestorePoint env v w := .within .databaseRestoring h
  have honce : RestorePoint env v { w with restores := 1 } :=
    .within .databaseRestoring ⟨h.alone, h.state, htarget, Nat.le_refl 1, t, ht, hcomplete⟩
  have hnext : InPhase env v .databaseRestored { w with
      restores := 1
      state := some ⟨.databaseRestored, env.databaseIdentity, some v.manifestSha256⟩ } :=
    ⟨h.alone, rfl, rfl, .inl ⟨htarget, t, ht, hcomplete⟩⟩
  have hdump : Leads (RestorePoint env v) (if w.restores == 0
      then restoreDump env (source.dump.getD []) v.dumpSha256 else pure ()) w ()
      { w with restores := 1 } := by
    refine leads_ite (fun hempty => ?_) fun hfull => ?_
    · rw [beq_iff_eq] at hempty
      have hcommit : { w with restores := w.restores + 1 } = { w with restores := 1 } := by
        rw [hempty]
      obtain ⟨dump, m, canonical, rfl, haccepted, hsha, hlength, _, _, rfl⟩ :=
        validateRecoverySet_ok.mp hr.valid
      have hact := leads_act (ε := RecoveryRaise) (I := RestorePoint env _)
        (f := fun w => { w with restores := w.restores + 1 }) hw (hcommit.symm ▸ honce)
      rw [hcommit] at hact
      refine leads_bind (leads_insist ?_ hw) (leads_bind (leads_insist ?_ hw) (leads_bind hact
        (leads_pause honce)))
      · exact decide_eq_true (hlength ▸ haccepted.dump_bound)
      · rw [Bool.and_eq_true, decide_eq_true_eq, beq_iff_eq]
        exact ⟨hlength ▸ haccepted.dump_pos, hsha⟩
    · rw [beq_iff_eq] at hfull
      have hone : w.restores = 1 := by omega
      rw [show { w with restores := 1 } = w by rw [← hone]]
      exact leads_pure hw
  refine (leads_look hw).ends_bind (hdump.ends_bind ((leads_requireDatabaseIdentity
    honce).ends_bind ((leads_look honce).ends_bind ((leads_insist ?_ honce).ends_bind
    ((leads_writeOperationState honce (.within .databaseRestored hnext)).ends_bind ((leads_pause
    (.within .databaseRestored hnext)).ends_bind (ends_pure (.within .databaseRestored hnext)
    ⟨rfl, hnext⟩)))))))
  rw [hr.sealed]
  rfl

theorem InPhase.later {phase : OperationPhase} (h : InPhase env v phase w) :
    InPhase env v phase w.later := by
  refine ⟨h.alone, h.state, ?_⟩
  have hstands := h.stands
  cases phase with
  | building | publishing | preparing | prepared | databaseRestoring | databaseRestored =>
      exact hstands

/-- What follows the phases: an object root that is published is checked, and one that is staged
is checked and published. -/
theorem ends_publishObjects (hr : Restorable env source v)
    (h : InPhase env v .databaseRestored w) :
    Ends (RestorePoint env v) (publishObjects env v) w
      fun evidence w' => evidence = v.evidence ∧ Restored env v w' := by
  have hw : RestorePoint env v w := .within .databaseRestored h
  have hlater : RestorePoint env v w.later := .within .databaseRestored h.later
  have hlater' : RestorePoint env v w.later.later := .within .databaseRestored h.later.later
  obtain ⟨hrestores, hwhich⟩ := h.stands
  have hsealed : (w.restores != 0 && env.databaseSealed) = true := by
    rw [hrestores, hr.sealed]
    rfl
  have hpublish : Ends (RestorePoint env v) (whichExists (validateTarget env v.objects) (do
      validateStage env v.objects
      publishDirectory
      pause) stateInvalid) w fun _ w' => w'.stage = none ∧ (∃ t, w'.target = some t ∧
        Complete env v t) ∧ InPhase env v .databaseRestored w' := by
    rcases hwhich with ⟨htarget, t, ht, hcomplete⟩ | ⟨hstage, t, ht, hcomplete⟩
    · have hpublished : InPhase env v .databaseRestored
          { w.later.later.later with stage := none, target := some t } :=
        ⟨h.alone, h.state, hrestores, .inr ⟨rfl, t, rfl, hcomplete⟩⟩
      have hpoint : RestorePoint env v { w.later.later.later with
          stage := none, target := some t } := .within .databaseRestored hpublished
      refine ends_whichExists_staged h.alone htarget (by rw [ht]; rfl) hlater hlater'
        ((leads_validateStage (w := w.later.later) ht hcomplete hlater').ends_bind ?_)
      refine (leads_publishDirectory (w := w.later.later) h.alone htarget ht
        (.within .databaseRestored h.later.later.later) hpoint).ends_bind ?_
      exact (leads_pause hpoint).ends ⟨rfl, ⟨t, rfl, hcomplete⟩, hpublished⟩
    · exact ends_whichExists_published h.alone (by rw [ht]; rfl) hstage hlater
        ((leads_validateTarget (w := w.later) ht hcomplete hlater).ends
        ⟨hstage, ⟨t, ht, hcomplete⟩, h.later⟩)
  refine (leads_look hw).ends_bind ((leads_insist hsealed hw).ends_bind
    ((leads_requireDatabaseIdentity hw).ends_bind (ends_bind hpublish fun _ w' hw' => ?_)))
  obtain ⟨hstage, htarget, h'⟩ := hw'
  have hdone : Restored env v { w' with state := none, finished := w'.finished || true } :=
    ⟨rfl, hstage, htarget, h'.stands.1, Bool.or_true _⟩
  exact (leads_unlinkState h'.state (.within .databaseRestored h') (.restored hdone)).ends_bind
    (ends_pure (.restored hdone) ⟨rfl, hdone⟩)

/-- The phase the state file names, or the first. -/
theorem ends_restorePhase (hr : Restorable env source v)
    (h : Fresh w ∨ ∃ phase, InPhase env v phase w) :
    Ends (RestorePoint env v) (restorePhase env v) w fun phase w' => InPhase env v phase w' := by
  rcases h with h | ⟨phase, h⟩
  · have hw : RestorePoint env v w := .fresh h
    have hlater : Fresh w.later := ⟨h.alone, h.state, h.stage, h.target, h.restores⟩
    have hnext : InPhase env v .preparing { w.later with
        state := some ⟨.preparing, env.databaseIdentity, some v.manifestSha256⟩ } :=
      ⟨h.alone, rfl, h.target, h.restores⟩
    refine (leads_operationState (fun s hs => absurd (h.state.symm.trans hs) (by simp))
      hw).ends_bind ?_
    rw [h.state]
    exact (leads_targetExists h.alone (.fresh hlater)).ends_bind ((leads_insist
      (by rw [h.target]; rfl) (.fresh hlater)).ends_bind ((leads_stageExists
      (.fresh hlater)).ends_bind ((leads_insist (by rw [hlater.stage]; rfl)
      (.fresh hlater)).ends_bind ((leads_look (.fresh hlater)).ends_bind ((leads_insist
      (beq_iff_eq.mpr h.restores) (.fresh hlater)).ends_bind ((leads_writeOperationState
      (.fresh hlater) (.within .preparing hnext)).ends_bind
      (ends_pure (.within .preparing hnext) hnext)))))))
  · have hw : RestorePoint env v w := .within phase h
    refine (leads_operationState (h.stateWellFormed hr) hw).ends_bind ?_
    rw [h.state]
    exact (leads_raiseWhen (bne_self_eq_false _) hw).ends_bind ((leads_insist
      (beq_self_eq_true _) hw).ends_bind (ends_pure hw h))

/-- **From every point** a restore returns the evidence with everything done. -/
theorem ends_restoreRecoverySet (hr : Restorable env source v)
    (h : Fresh w ∨ ∃ phase, InPhase env v phase w) :
    Ends (RestorePoint env v) (restoreRecoverySet env source) w
      fun evidence w' => evidence = v.evidence ∧ Restored env v w' := by
  have hw : RestorePoint env v w := by
    rcases h with h | ⟨phase, h⟩
    · exact .fresh h
    · exact .within phase h
  refine (leads_inspect hr.valid hw).ends_bind ((leads_insist env.identity_format hw).ends_bind
    (ends_bind (ends_restorePhase hr h) fun phase w₁ h₁ => ends_bind
      (Q := fun phase w => InPhase env v phase w ∧ phase ≠ .preparing) ?_
      fun phase w₂ h₂ => ends_bind
      (Q := fun phase w => InPhase env v phase w ∧ phase ≠ .preparing ∧ phase ≠ .prepared) ?_
      fun phase w₃ h₃ => ends_bind
      (Q := fun phase w => InPhase env v phase w ∧ phase = .databaseRestored) ?_
      fun phase w₄ h₄ => ?_))
  -- one `if` for each phase, and each leaves the phase behind it
  · refine ends_ite (fun heq => ?_) fun hne => ends_pure (.within phase h₁)
      ⟨h₁, fun heq => hne (beq_iff_eq.mpr heq)⟩
    rw [beq_iff_eq] at heq
    subst heq
    exact (ends_prepare hr h₁).weaken fun phase w h => ⟨h.1 ▸ h.2, by rw [h.1]; nofun⟩
  · refine ends_ite (fun heq => ?_) fun hne => ends_pure (.within phase h₂.1)
      ⟨h₂.1, h₂.2, fun heq => hne (beq_iff_eq.mpr heq)⟩
    rw [beq_iff_eq] at heq
    subst heq
    exact (ends_enterDatabase h₂.1).weaken fun phase w h =>
      ⟨h.1 ▸ h.2, by rw [h.1]; nofun, by rw [h.1]; nofun⟩
  · refine ends_ite (fun heq => ?_) fun hne => ends_pure (.within phase h₃.1) ⟨h₃.1, ?_⟩
    · rw [beq_iff_eq] at heq
      subst heq
      exact (ends_restoreDatabase hr h₃.1).weaken fun phase w h => ⟨h.1 ▸ h.2, h.1⟩
    · obtain ⟨h, hpreparing, hprepared⟩ := h₃
      have hstands := h.stands
      cases phase with
      | building | publishing => exact hstands.elim
      | preparing => exact absurd rfl hpreparing
      | prepared => exact absurd rfl hprepared
      | databaseRestoring => exact absurd rfl hne
      | databaseRestored => rfl
  · obtain ⟨h, rfl⟩ := h₄
    exact (leads_raiseWhen rfl (.within .databaseRestored h)).ends_bind (ends_publishObjects hr h)

end Convergence

/-! ## The result -/

/-- **A restore converges over kills.** Wherever kills leave it, what is at the target path stays
there, and it is another party's or holds exactly the objects; the dump has taken effect at most
once. Where nobody else interferes an uninterrupted run returns what a run that was never killed
returns, with the dump in effect once, the objects at the target path and nothing left over. -/
theorem restore_converges (env : RecoveryEnv) (source : RecoveryTree) (v : ValidatedRecoverySet)
    (hvalid : validateRecoverySet env source = .ok v) (hsealed : env.databaseSealed = true)
    (hfits : (v.objects.map RecoveryObject.sizeBytes).sum ≤ env.limits.maxTemporaryBytes)
    (w : RecoveryWorld ObjectTree)
    (hreach : (killedRuns fun p => p = restoreRecoverySet env source).Reachable w) :
    w.restores ≤ 1 ∧
      (∀ t, w.target = some t → w.foreign = some t ∨ t.Holds env.sha256 v.objects) ∧
      (∀ t w', w.target = some t →
        (killedRuns fun p => p = restoreRecoverySet env source).Runs w w' → w'.target = some t) ∧
      (∀ t faults, w.target = some t →
        ((restoreRecoverySet env source).run faults w).2.target = some t) ∧
      (w.Alone → w.foreign = none →
        ∃ w', (restoreRecoverySet env source).run [] w = (.returned v.evidence, w') ∧
          w'.restores = 1 ∧ (∃ t, w'.target = some t ∧ t.Holds env.sha256 v.objects) ∧
          w'.stage = none ∧ w'.state = none) := by
  have hr : Restorable env source v := ⟨hvalid, hsealed, hfits⟩
  have hkept : ∀ p, p = restoreRecoverySet env source → ∀ w₀,
      Always (fun w => Onward w₀ w ∧ Safe (Complete env v) w) p :=
    fun p hp w₀ => hp ▸ always_restoreRecoverySet hvalid
  have hsafe := killed_reachable hkept hreach
  refine ⟨hsafe.once, fun t ht => (hsafe.ours t ht).imp_right holds_of_validateObjects,
    fun t w' ht hrun => (killed_onward hkept hreach hrun).target t ht,
    fun t faults ht => ((hkept _ rfl w faults w ⟨.refl w, hsafe⟩).1).target t ht,
    fun halone hforeign => ?_⟩
  -- from every point of a restore that was killed the next one goes to the end
  have hends : ∀ w : RecoveryWorld ObjectTree, RestorePoint env v w → w.finished = false →
      Ends (RestorePoint env v) (restoreRecoverySet env source) w
        fun evidence w' => evidence = v.evidence ∧ Restored env v w' := by
    intro w hpoint hfinished
    cases hpoint with
    | fresh h => exact ends_restoreRecoverySet hr (.inl h)
    | within phase h => exact ends_restoreRecoverySet hr (.inr ⟨phase, h⟩)
    | restored h => exact absurd (hfinished.symm.trans h.finished) (by simp)
  obtain ⟨hpoint, hfinished⟩ := killed_converges hkept
    (fun w hw halone hforeign => RestorePoint.fresh ⟨halone, hw.state, hw.stage,
      hw.foreign.symm.trans hforeign, hw.restores⟩)
    (fun w halone hpoint => by
      cases hpoint with
      | fresh h => exact .fresh ⟨h.alone, h.state, h.stage, h.target, h.restores⟩
      | within phase h => exact .within phase h.later
      | restored h => exact .restored ⟨h.state, h.stage, h.target, h.restores, h.finished⟩)
    (fun p hp w _ hpoint hfinished => hp ▸ hends w hpoint hfinished) hreach halone hforeign
  obtain ⟨_, w', hrun, rfl, hdone⟩ := (hends w hpoint hfinished).run_returns
  obtain ⟨t, ht, hcomplete⟩ := hdone.target
  exact ⟨w', hrun, hdone.restores, ⟨t, ht, holds_of_validateObjects hcomplete⟩, hdone.stage,
    hdone.state⟩

def sampleSet : RecoveryTree := ⟨some [98], some sampleManifest, some sampleObjects, 0⟩

/-- Nothing was begun and nobody else is about. -/
def untouched : RecoveryWorld ObjectTree := ⟨none, none, none, 0, fun _ => none, 0, none, false⟩

/-- A kill when the dump has taken effect, before the state file says so. -/
def afterCommit : List (Fault RecoveryRaise) := List.replicate 37 .none ++ [.kill true]

def killedAfterCommit : RecoveryWorld ObjectTree :=
  ((restoreRecoverySet sampleEnv sampleSet).run afterCommit untouched).2

/-- What validation makes of the sample. -/
def sampleValidated : ValidatedRecoverySet :=
  ⟨sampleSha256 (sampleEnv.manifestBytes sampleManifest), dumpDigest, 1, identityDigest,
    sampleManifest.objects⟩

theorem sampleSet_valid : validateRecoverySet sampleEnv sampleSet = .ok sampleValidated := by
  decide +kernel

theorem killedAfterCommit_ended :
    ((restoreRecoverySet sampleEnv sampleSet).run afterCommit untouched).1 = .killed ∧
    killedAfterCommit.finished = false ∧ killedAfterCommit.foreign = none ∧
    killedAfterCommit.restores = 1 := by decide +kernel

theorem untouched_killed :
    KilledStep (fun p => p = restoreRecoverySet sampleEnv sampleSet) untouched killedAfterCommit := by
  obtain ⟨hkilled, hfinished, _⟩ := killedAfterCommit_ended
  unfold killedAfterCommit at hfinished ⊢
  refine killedStep_run (restoreRecoverySet sampleEnv sampleSet) ?_ afterCommit untouched hkilled
    hfinished
  rfl

/-- The run after that kill does not restore the dump again. -/
theorem restore_converges_after_commit : killedAfterCommit.restores = 1 ∧
    ∃ w', (restoreRecoverySet sampleEnv sampleSet).run [] killedAfterCommit =
      (.returned ⟨1, 1, 1⟩, w') ∧ w'.restores = 1 := by
  obtain ⟨_, _, hforeign, hrestores⟩ := killedAfterCommit_ended
  have hinit : untouched.Initial := ⟨rfl, rfl, rfl, rfl, rfl⟩
  have hreach : (killedRuns fun p => p = restoreRecoverySet sampleEnv sampleSet).Reachable
      killedAfterCommit := (Machine.System.Reachable.of_init hinit).step untouched_killed
  have hsafe : Safe (Complete sampleEnv sampleValidated) untouched := ⟨nofun, nofun, Nat.zero_le 1⟩
  have honward := (killed_step (fun p hp w₀ => hp ▸ always_restoreRecoverySet sampleSet_valid)
    hsafe untouched_killed).1
  have halone : killedAfterCommit.Alone := fun m => congrFun honward.arrivals m
  obtain ⟨w', hrun, honce, _⟩ := (restore_converges sampleEnv sampleSet sampleValidated
    sampleSet_valid rfl (Nat.le_refl 1) killedAfterCommit hreach).2.2.2.2 halone hforeign
  exact ⟨hrestores, w', hrun, honce⟩

end Recovery

end NanoAural
