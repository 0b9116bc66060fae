import NanoAural.Durable.RecoveryOperations

/-!
# Where the steps of a backup or a restore lead

One lemma for each step both operations share: what it makes of a world, and what
it asks of the property that has to hold wherever a kill may leave it. The copy of
an object ends with the file complete and its missing parents made, and what is
not changed at all is what other parties put at the target path.
-/

namespace NanoAural

open Faulty Faulty.Prog

namespace Recovery

variable {τ : Type} {env : RecoveryEnv} {I : RecoveryWorld τ → Prop} {w : RecoveryWorld τ}

/-! ## Checks and looks -/

theorem leads_insist {c : Bool} {code : String} (hc : c = true) (hw : I w) :
    Leads I (insist c code) w () w := leads_raiseWhen (by rw [hc]; rfl) hw

theorem leads_inspect {α : Type} {f : RecoveryWorld τ → Except RecoveryRaise α} {a : α}
    (hf : f w = .ok a) (hw : I w) : Leads I (inspect f) w a w := leads_call (by rw [hf]) hw hw

theorem leads_pause (hw : I w) : Leads I (pause : RecoveryProg τ Unit) w () w := leads_act hw hw

theorem demand_ok {c : Bool} {code : String} : demand c code = .ok () ↔ c = true := by
  cases c with
  | true => exact ⟨fun _ => rfl, fun _ => rfl⟩
  | false => exact ⟨fun h => (by cases h), fun h => (by cases h)⟩

theorem except_bind_ok {α β : Type} {x : Except RecoveryRaise α}
    {f : α → Except RecoveryRaise β} {b : β} :
    (x >>= f) = .ok b ↔ ∃ a, x = .ok a ∧ f a = .ok b := by
  cases x with
  | error e => exact ⟨fun h => (by cases h), fun ⟨_, h, _⟩ => (by cases h)⟩
  | ok a =>
      constructor
      · exact fun h => ⟨a, rfl, h⟩
      · rintro ⟨a', h, hf⟩
        cases h
        exact hf

theorem demand_bind_ok {β : Type} {c : Bool} {code : String} {f : Unit → Except RecoveryRaise β}
    {b : β} : (demand c code >>= f) = .ok b ↔ c = true ∧ f () = .ok b := by
  rw [except_bind_ok]
  exact ⟨fun ⟨_, hc, hf⟩ => ⟨demand_ok.mp hc, hf⟩, fun ⟨hc, hf⟩ => ⟨(), demand_ok.mpr hc, hf⟩⟩

/-! ## Paths -/

/-- The world after other parties had their chance. -/
def RecoveryWorld.later (w : RecoveryWorld τ) : RecoveryWorld τ := { w with moment := w.moment + 1 }

/-- Nobody else is about. -/
def RecoveryWorld.Alone (w : RecoveryWorld τ) : Prop := ∀ m, w.arrivals m = none

theorem visited_alone (halone : w.Alone) : w.visited = w.later := by
  unfold RecoveryWorld.visited
  rw [halone w.moment]
  split
  · rename_i heq
    cases heq
  · rfl

theorem leads_others (halone : w.Alone) (hw : I w.later) :
    Leads I (others : RecoveryProg τ Unit) w () w.later := by
  rw [← visited_alone halone] at hw ⊢
  exact leads_assign hw

theorem leads_targetExists (halone : w.Alone) (hw : I w.later) :
    Leads I (targetExists : RecoveryProg τ Bool) w w.target.isSome w.later :=
  leads_bind (leads_others halone hw) (leads_look hw)

theorem leads_stageExists (hw : I w) :
    Leads I (stageExists : RecoveryProg τ Bool) w w.stage.isSome w := leads_look hw

theorem leads_onStage {f : τ → τ} (hw : I w) (hw' : I { w with stage := w.stage.map f }) :
    Leads I (onStage f) w () { w with stage := w.stage.map f } := leads_act hw hw'

theorem leads_makeStage {empty : τ} (hstage : w.stage = none) (hw : I w)
    (hw' : I { w with stage := some empty }) :
    Leads I (makeStage empty) w () { w with stage := some empty } :=
  leads_call (by simp only [hstage]) hw hw'

/-- Whatever is left of the stage is removed, where what is left on the way will do. -/
theorem leads_removeOwnedStage {remains : τ → List τ} {K : Option τ → Prop}
    (hany : ∀ stage, K stage → I { w with stage := stage }) (hnone : K none) (hstage : K w.stage)
    (hremains : ∀ t, w.stage = some t → ∀ t' ∈ remains t, K (some t')) :
    Leads I (removeOwnedStage remains) w () { w with stage := none } := by
  refine leads_bind (leads_look (hany w.stage hstage)) ?_
  split
  · rename_i hgone
    rw [show { w with stage := none } = w by rw [← hgone]]
    exact leads_pure (hany w.stage hstage)
  · rename_i t ht
    have hloop : ∀ (ts : List τ) (stage : Option τ), K stage → (∀ t' ∈ ts, K (some t')) →
        ∃ stage', Leads I (forEach ts fun t' => act fun w => { w with stage := some t' } :
          RecoveryProg τ Unit) { w with stage := stage } () { w with stage := stage' } ∧ K stage' := by
      intro ts
      induction ts with
      | nil => exact fun stage hstage _ => ⟨stage, leads_pure (hany stage hstage), hstage⟩
      | cons t' ts ih =>
          intro stage hstage hts
          have ht' := hts t' List.mem_cons_self
          obtain ⟨stage', hleads, hK⟩ := ih (some t') ht' fun u hu =>
            hts u (List.mem_cons_of_mem _ hu)
          exact ⟨stage', leads_bind (leads_act (hany stage hstage) (hany _ ht')) hleads, hK⟩
    obtain ⟨stage, hleads, hK⟩ := hloop (remains t) w.stage hstage (hremains t ht)
    exact leads_bind hleads (leads_bind (leads_act (hany stage hK) (hany none hnone))
      (leads_pause (hany none hnone)))

theorem leads_publishDirectory {t : τ} (halone : w.Alone) (htarget : w.target = none)
    (hstage : w.stage = some t) (hw : I w.later)
    (hw' : I { w.later with stage := none, target := some t }) :
    Leads I (publishDirectory : RecoveryProg τ Unit) w ()
      { w.later with stage := none, target := some t } := by
  have hrename : w.later.rename = (.ok (), { w.later with stage := none, target := some t }) := by
    unfold RecoveryWorld.rename
    rw [show w.later.target = none from htarget, show w.later.stage = some t from hstage]
  exact leads_bind (leads_others halone hw) (leads_bind (leads_call hrename hw hw')
    (leads_pause hw'))

/-- Something is at the target path and there is no stage. -/
theorem ends_whichExists_published {α : Type} {published staged : RecoveryProg τ α}
    {invalid : RecoveryRaise} {Q : α → RecoveryWorld τ → Prop} (halone : w.Alone)
    (htarget : w.target.isSome = true) (hstage : w.stage = none) (hw : I w.later)
    (hpublished : Ends I published w.later Q) : Ends I (whichExists published staged invalid) w Q := by
  refine (leads_targetExists halone hw).ends_bind ((leads_stageExists hw).ends_bind ?_)
  rw [htarget, show w.later.stage = none from hstage]
  exact hpublished

/-- There is a stage and nothing is at the target path. -/
theorem ends_whichExists_staged {α : Type} {published staged : RecoveryProg τ α}
    {invalid : RecoveryRaise} {Q : α → RecoveryWorld τ → Prop} (halone : w.Alone)
    (htarget : w.target = none) (hstage : w.stage.isSome = true) (hw : I w.later)
    (hw' : I w.later.later) (hstaged : Ends I staged w.later.later Q) :
    Ends I (whichExists published staged invalid) w Q := by
  refine (leads_targetExists halone hw).ends_bind ((leads_stageExists hw).ends_bind ?_)
  rw [htarget]
  refine (leads_stageExists hw).ends_bind ((leads_targetExists (w := w.later) halone
    hw').ends_bind ?_)
  rw [show w.later.stage.isSome = true from hstage, show w.later.target = none from htarget]
  exact hstaged

/-! ## The state file -/

theorem leads_writeOperationState {phase : OperationPhase} {manifest : Option String} (hw : I w)
    (hw' : I { w with state := some ⟨phase, env.databaseIdentity, manifest⟩ }) :
    Leads I (writeOperationState env phase manifest) w ()
      { w with state := some ⟨phase, env.databaseIdentity, manifest⟩ } :=
  leads_bind (leads_insist env.identity_format hw) (leads_bind (leads_pause hw)
    (leads_bind (leads_act hw hw') (leads_pause hw')))

/-- The state file, where there is one, is well formed. -/
def RecoveryWorld.StateWellFormed (w : RecoveryWorld τ) : Prop :=
  ∀ s, w.state = some s → s.manifestSha256.all isSha256 = true ∧ isSha256 s.databaseIdentity = true

theorem stateRead_some {s : OperationState} (hstate : w.state = some s)
    (hformat : w.StateWellFormed) : w.stateRead = .ok s := by
  obtain ⟨hmanifest, hidentity⟩ := hformat s hstate
  unfold RecoveryWorld.stateRead
  rw [hstate]
  simp only [hmanifest, hidentity, Bool.and_self, if_true]

theorem leads_readOperationState {s : OperationState} (hstate : w.state = some s)
    (hformat : w.StateWellFormed) (hw : I w) :
    Leads I (readOperationState : RecoveryProg τ OperationState) w s w :=
  leads_inspect (stateRead_some hstate hformat) hw

/-- The state is read and nothing is changed, whatever befalls the reading. -/
theorem operationState_reads :
    Yields (· = w) (· = w) (operationState : RecoveryProg τ (Option OperationState))
      fun a _ => a = w.state := by
  refine yields_tryCatch (yields_bind (φ := fun s _ => w.state = some s) (yields_call
    (fun _ h => h) (fun _ h => h) fun s a s' hs heq => ?_) fun s => yields_pure (fun _ h => h.1)
      fun _ h => h.2.symm) fun e => yields_ite (fun _ => yields_raise fun _ h => h) fun _ => ?_
  · subst hs
    have hread : s.stateRead = .ok a := (Prod.mk.inj heq).1
    unfold RecoveryWorld.stateRead at hread
    cases hstate : s.state with
    | none =>
        rw [hstate] at hread
        cases hread
    | some st =>
        rw [hstate] at hread
        dsimp only at hread
        split at hread
        · rw [Except.ok.inj hread]
        · cases hread
  · refine yields_bind (φ := fun there _ => w.state.isSome = there) (yields_look (fun _ h => h)
      fun s h => by rw [h]) fun there => yields_assume fun hthere => yields_ite
        (fun _ => yields_raise fun _ h => h) fun hno => yields_pure (fun _ h => h) fun _ _ => ?_
    rw [Bool.not_eq_true] at hno
    rw [hno] at hthere
    exact (Option.not_isSome_iff_eq_none.mp (by simp [hthere])).symm

theorem leads_operationState (hformat : w.StateWellFormed) (hw : I w) :
    Leads I (operationState : RecoveryProg τ (Option OperationState)) w w.state w := by
  refine ⟨fun faults => ?_, fun faults b hb => ?_, ?_⟩
  · rw [(operationState_reads faults w rfl).1]
    exact hw
  · exact ⟨(operationState_reads faults w rfl).2 b hb, (operationState_reads faults w rfl).1⟩
  · cases hstate : w.state with
    | none =>
        have hread : w.stateRead = .error stateInvalid := by
          unfold RecoveryWorld.stateRead
          rw [hstate]
        have hbody : (do
            let s ← readOperationState
            pure (some s) : RecoveryProg τ (Option OperationState)) [] w =
            (.raised stateInvalid, [], w) := by
          change andThen (call fun w => (RecoveryWorld.stateRead w, w)) _ [] w = _
          simp only [andThen, call, attempt, hread]
        unfold operationState Prog.tryCatch
        rw [hbody]
        simp only [bne_self_eq_false, Bool.false_eq_true, if_false]
        change andThen (look fun w => w.state.isSome) _ [] w = _
        simp only [andThen, look, call, attempt, hstate]
        rfl
    | some s =>
        have hbody : (do
            let s ← readOperationState
            pure (some s) : RecoveryProg τ (Option OperationState)) [] w =
            (.returned (some s), [], w) := by
          change andThen (call fun w => (RecoveryWorld.stateRead w, w)) _ [] w = _
          simp only [andThen, call, attempt, stateRead_some hstate hformat]
          rfl
        unfold operationState Prog.tryCatch
        rw [hbody]

theorem leads_unlinkState {last : Bool} {s : OperationState} (hstate : w.state = some s) (hw : I w)
    (hw' : I { w with state := none, finished := w.finished || last }) :
    Leads I (unlinkState last : RecoveryProg τ Unit) w ()
      { w with state := none, finished := w.finished || last } :=
  leads_bind (leads_call (a := ()) (by simp only [hstate]) hw hw') (leads_pause hw')

/-! ## Copying -/

/-- The world with that stage. -/
def RecoveryWorld.staged (w : RecoveryWorld τ) (t : τ) : RecoveryWorld τ := { w with stage := some t }

/-- Writing goes through the stages `st`, one for each beginning of the bytes. -/
theorem leads_writeBytes {append : UInt8 → τ → τ} {st : List UInt8 → τ}
    (happend : ∀ b c, append b (st c) = st (c ++ [b])) (hany : ∀ c, I (w.staged (st c)))
    {maxBytes : Nat} (content : List UInt8) :
    ∀ (size : Nat) (written : List UInt8), size + content.length ≤ maxBytes →
      Leads I (writeBytes append maxBytes content size) (w.staged (st written)) ()
        (w.staged (st (written ++ content))) := by
  induction content with
  | nil =>
      intro size written _
      rw [List.append_nil]
      exact leads_pure (hany written)
  | cons b rest ih =>
      intro size written hbound
      rw [List.length_cons] at hbound
      have hwritten : { w.staged (st written) with
          stage := (w.staged (st written)).stage.map (append b) } =
          w.staged (st (written ++ [b])) := by
        rw [← happend b written]
        rfl
      have hstep := leads_onStage (f := append b) (hany written) (hwritten ▸ hany (written ++ [b]))
      rw [hwritten] at hstep
      have hrest := ih (size + 1) (written ++ [b]) (by omega)
      rw [List.append_assoc] at hrest
      exact leads_ite (fun hmax => absurd hmax (by omega)) fun _ => leads_bind hstep hrest

/-- The directories above the canonical key that are not there yet. -/
def ObjectTree.missing (t : ObjectTree) (path : String) : List String :=
  (canonicalDirectories (baseName path)).filter fun d => !t.dirs.contains d

/-- An object root with the file at `path` added, and the directories above it. -/
def ObjectTree.copied (t : ObjectTree) (path : String) (content : List UInt8) : ObjectTree :=
  ⟨t.dirs ++ ObjectTree.missing t path, t.files ++ [(path, content)]⟩

/-- `put` makes the stage around an object root. -/
structure Places (root : TreeAt τ) (put : ObjectTree → τ) : Prop where
  get : ∀ t, root.get (put t) = some t
  modify : ∀ f t, root.modify f (put t) = put (f t)

theorem append_last {dirs : List String} {files : List (String × List UInt8)} {path : String}
    (hfresh : files.lookup path = none) (c : List UInt8) (b : UInt8) :
    ObjectTree.append path b ⟨dirs, files ++ [(path, c)]⟩ = ⟨dirs, files ++ [(path, c ++ [b])]⟩ := by
  have hothers : files.map (fun f => if f.1 == path then (f.1, f.2 ++ [b]) else f) = files := by
    refine (List.map_congr_left fun f hf => ?_).trans (List.map_id files)
    have hne : path ≠ f.1 := bne_iff_ne.mp (List.lookup_eq_none_iff.mp hfresh f hf)
    rw [if_neg (by rw [beq_iff_eq]; exact Ne.symm hne)]
    rfl
  unfold ObjectTree.append
  simp only [List.map_append, hothers, List.map_cons, List.map_nil, beq_self_eq_true, if_true]

/-- The loop that makes the directories. -/
theorem leads_addDirectories {root : TreeAt τ} {put : ObjectTree → τ} (hplaces : Places root put)
    (hany : ∀ t, I (w.staged (put t))) (ds : List String) :
    ∀ t, Leads I (forEach ds fun d => onStage (root.modify (ObjectTree.addDirectory d)))
      (w.staged (put t)) () (w.staged (put ⟨t.dirs ++ ds, t.files⟩)) := by
  induction ds with
  | nil =>
      intro t
      rw [List.append_nil]
      exact leads_pure (hany t)
  | cons d ds ih =>
      intro t
      have hone : { w.staged (put t) with
          stage := (w.staged (put t)).stage.map (root.modify (ObjectTree.addDirectory d)) } =
          w.staged (put ⟨t.dirs ++ [d], t.files⟩) :=
        congrArg (fun t' => w.staged t') (hplaces.modify (ObjectTree.addDirectory d) t)
      have hstep := leads_onStage (f := root.modify (ObjectTree.addDirectory d)) (hany t)
        (hone ▸ hany ⟨t.dirs ++ [d], t.files⟩)
      rw [hone] at hstep
      have hrest := ih ⟨t.dirs ++ [d], t.files⟩
      simp only [List.append_assoc, List.singleton_append] at hrest
      exact leads_bind hstep hrest

/-- **A copy that is not cut short**: the file is complete and the directories above it are made. -/
theorem leads_copyStream {root : TreeAt τ} {put : ObjectTree → τ} (hplaces : Places root put)
    {t : ObjectTree} {path : String} {content : List UInt8} {maxBytes : Nat}
    (hany : ∀ t, I (w.staged (put t))) (hfresh : t.read path = none)
    (hbound : content.length ≤ maxBytes) :
    Leads I (copyStream env root path content maxBytes) (w.staged (put t))
      (env.sha256 content, content.length) (w.staged (put (ObjectTree.copied t path content))) := by
  have hget : ∀ t, (w.staged (put t)).stage.bind root.get = some t := hplaces.get
  have hmissing : (canonicalDirectories (baseName path)).filter (fun d =>
      !(((w.staged (put t)).stage.bind root.get).any fun t => t.dirs.contains d)) =
      ObjectTree.missing t path := by
    rw [hget]
    rfl
  have hadd : Leads I (call fun w =>
      if (w.stage.bind root.get).any fun t => (t.read path).isSome then (.error .os, w)
      else (.ok (), { w with stage := w.stage.map (root.modify (ObjectTree.addFile path)) })
        : RecoveryProg τ Unit)
      (w.staged (put ⟨t.dirs ++ ObjectTree.missing t path, t.files⟩)) ()
      (w.staged (put ⟨t.dirs ++ ObjectTree.missing t path, t.files ++ [(path, [])]⟩)) := by
    refine leads_call (a := ()) ?_ (hany _) (hany _)
    have hnot : ((w.staged (put ⟨t.dirs ++ ObjectTree.missing t path, t.files⟩)).stage.bind
        root.get).any (fun t => (t.read path).isSome) = false := by
      rw [hget]
      exact congrArg Option.isSome hfresh
    rw [hnot]
    exact congrArg (fun t' => (Except.ok (), w.staged t')) (hplaces.modify (ObjectTree.addFile path) _)
  have happend : ∀ b c, root.modify (ObjectTree.append path b)
      (put ⟨t.dirs ++ ObjectTree.missing t path, t.files ++ [(path, c)]⟩) =
      put ⟨t.dirs ++ ObjectTree.missing t path, t.files ++ [(path, c ++ [b])]⟩ := by
    intro b c
    rw [hplaces.modify, append_last hfresh]
  refine leads_bind (leads_look (hany t)) ?_
  rw [hmissing]
  exact leads_bind (leads_addDirectories hplaces hany _ t) (leads_bind hadd (leads_bind
    (leads_writeBytes happend (fun c => hany _) content 0 [] (by omega))
    (leads_bind (leads_pause (hany _)) (leads_pure (hany _)))))

end Recovery

end NanoAural
