import NanoAural.Proof.RecoverySteps

/-!
# What no kill undoes

Whatever is put at the target path stays there: what another party put, or what an
operation published after it validated it. The steps both operations share keep
every property that does not depend on the stage and on the state file; the one
step that is left to each of them is the publication.
-/

namespace NanoAural

open Faulty Faulty.Prog

namespace Recovery

variable {τ : Type} {env : RecoveryEnv}

/-- What does not depend on the stage and the state file, and is not undone by other parties. -/
structure Frame (J : RecoveryWorld τ → Prop) : Prop where
  stage : ∀ w stage, J w → J { w with stage := stage }
  state : ∀ w state finished, J w → J { w with state := state, finished := finished }
  visited : ∀ w, J w → J w.visited

section Frame

variable {J : RecoveryWorld τ → Prop}

theorem always_insist (c : Bool) (code : String) :
    Always J (insist c code : RecoveryProg τ Unit) := always_raiseWhen _ _

theorem always_inspect {α : Type} (f : RecoveryWorld τ → Except RecoveryRaise α) :
    Always J (inspect f) := always_call fun _ hw => hw

theorem always_pause : Always J (pause : RecoveryProg τ Unit) := always_act fun _ hw => hw

theorem always_readOperationState : Always J (readOperationState : RecoveryProg τ OperationState) :=
  always_inspect _

theorem always_operationState :
    Always J (operationState : RecoveryProg τ (Option OperationState)) :=
  always_tryCatch (always_bind always_readOperationState fun _ => always_pure _) fun _ =>
    always_ite (fun _ => always_raise _) fun _ => always_bind (always_look _) fun _ =>
      always_ite (fun _ => always_raise _) fun _ => always_pure _

theorem always_stageExists : Always J (stageExists : RecoveryProg τ Bool) := always_look _

theorem always_openReader (t : ObjectTree) (key : String) :
    Always J (openReader t key : RecoveryProg τ (List UInt8)) := always_inspect _

variable (hJ : Frame J)

include hJ

theorem Frame.others : Always J (others : RecoveryProg τ Unit) := always_assign hJ.visited

theorem Frame.targetExists : Always J (targetExists : RecoveryProg τ Bool) :=
  always_bind hJ.others fun _ => always_look _

theorem Frame.onStage (f : τ → τ) : Always J (onStage f) := always_act fun w => hJ.stage w _

theorem Frame.makeStage (empty : τ) : Always J (makeStage empty) := always_call fun w hw => by
  split
  · exact hw
  · exact hJ.stage w _ hw

theorem Frame.removeOwnedStage (remains : τ → List τ) : Always J (removeOwnedStage remains) := by
  refine always_bind (always_look _) fun stage => ?_
  cases stage with
  | none => exact always_pure ()
  | some t =>
      exact always_bind (always_forEach (fun _ => always_act fun w => hJ.stage w _) _) fun _ =>
        always_bind (always_act fun w => hJ.stage w _) fun _ => always_pause

theorem Frame.writeOperationState (phase : OperationPhase) (manifest : Option String) :
    Always J (writeOperationState env phase manifest) :=
  always_bind (always_insist _ _) fun _ => always_bind always_pause fun _ =>
    always_bind (always_act fun w hw => hJ.state w _ w.finished hw) fun _ => always_pause

theorem Frame.unlinkState (last : Bool) : Always J (unlinkState last : RecoveryProg τ Unit) :=
  always_bind (always_call fun w hw => by
    split
    · exact hw
    · exact hJ.state w _ _ hw) fun _ => always_pause

theorem Frame.writeBytes (append : UInt8 → τ → τ) (maxBytes : Nat) (content : List UInt8) :
    ∀ size, Always J (writeBytes append maxBytes content size) := by
  induction content with
  | nil => exact fun _ => always_pure ()
  | cons b rest ih =>
      exact fun size => always_ite (fun _ => always_raise _) fun _ =>
        always_bind (hJ.onStage _) fun _ => ih _

theorem Frame.copyStream (root : TreeAt τ) (path : String) (content : List UInt8)
    (maxBytes : Nat) : Always J (copyStream env root path content maxBytes) :=
  always_bind (always_look _) fun _ => always_bind (always_forEach (fun _ => hJ.onStage _) _)
    fun _ => always_bind (always_call fun w hw => by
      split
      · exact hw
      · exact hJ.stage w _ hw) fun _ => always_bind (hJ.writeBytes _ _ _ _) fun _ =>
        always_bind always_pause fun _ => always_pure _

/-- A branch for what is published has something at the target path to go by. -/
theorem Frame.whichExists {α : Type} {published staged : RecoveryProg τ α}
    (hthere : Frame fun w => J w ∧ w.target.isSome = true)
    (hpublished : Always (fun w => J w ∧ w.target.isSome = true) published)
    (hstaged : Always J staged) (invalid : RecoveryRaise) :
    Always J (whichExists published staged invalid) := by
  refine Yields.always (φ := fun _ _ => True) (yields_bind
    (φ := fun there w => there = true → w.target.isSome = true)
    (hJ.others.yields_bind (fun _ h => h) fun _ => yields_look (fun _ h => h) fun _ _ h => h)
    fun there => ?_)
  cases there with
  | true =>
      refine Always.yields_bind (P := fun w => J w ∧ w.target.isSome = true) always_stageExists
        (fun _ h => h.1) (fun stagedToo => yields_ite (fun _ => ?_) fun _ => ?_) |>.weaken
          (fun _ h => ⟨h.1, h.2 rfl⟩) fun _ _ _ h => h
      · exact (hpublished.yields (fun _ h => h.1)).weaken (fun _ h => h) fun _ _ _ _ => trivial
      · refine Always.yields_bind always_stageExists (fun _ h => h.1) fun _ =>
          Always.yields_bind hthere.targetExists (fun _ h => h.1) fun _ =>
            yields_ite (fun _ => ?_) fun _ => yields_raise fun _ h => h.1
        exact (hstaged.yields (fun _ h => h)).weaken (fun _ h => h.1) fun _ _ _ _ => trivial
  | false =>
      refine Always.yields_bind (P := J) always_stageExists (fun _ h => h)
        (fun stagedToo => yields_ite (fun h => absurd h (by simp)) fun _ => ?_) |>.weaken
          (fun _ h => h.1) fun _ _ _ h => h
      refine Always.yields_bind always_stageExists (fun _ h => h) fun _ =>
        Always.yields_bind hJ.targetExists (fun _ h => h) fun _ =>
          yields_ite (fun _ => ?_) fun _ => yields_raise fun _ h => h
      exact (hstaged.yields (fun _ h => h)).weaken (fun _ h => h) fun _ _ _ _ => trivial

end Frame

/-! ## The target path -/

/-- What is at the target path stays. -/
structure Onward (w w' : RecoveryWorld τ) : Prop where
  arrivals : w'.arrivals = w.arrivals
  target : ∀ t, w.target = some t → w'.target = some t
  foreign : ∀ t, w.foreign = some t → w'.foreign = some t

theorem Onward.refl (w : RecoveryWorld τ) : Onward w w := ⟨rfl, fun _ h => h, fun _ h => h⟩

theorem Onward.trans {w w' w'' : RecoveryWorld τ} (h : Onward w w') (h' : Onward w' w'') :
    Onward w w'' :=
  ⟨h'.arrivals.trans h.arrivals, fun t ht => h'.target t (h.target t ht),
    fun t ht => h'.foreign t (h.foreign t ht)⟩

/-- What is at the target path is what another party put there, or complete. -/
structure Safe (complete : τ → Prop) (w : RecoveryWorld τ) : Prop where
  theirs : ∀ t, w.foreign = some t → w.target = some t
  ours : ∀ t, w.target = some t → w.foreign = some t ∨ complete t
  once : w.restores ≤ 1

section Safe

variable {complete : τ → Prop} {w₀ : RecoveryWorld τ}

theorem onward_visited (w : RecoveryWorld τ) (h : w.target = none → w.foreign = none) :
    Onward w w.visited := by
  unfold RecoveryWorld.visited
  split
  · rename_i t hnone _
    exact ⟨rfl, fun _ ht => absurd ht (by simp [hnone]), fun _ ht => absurd ht (by simp [h hnone])⟩
  · exact ⟨rfl, fun _ h => h, fun _ h => h⟩

theorem safe_visited {w : RecoveryWorld τ} (h : Safe complete w) : Safe complete w.visited := by
  unfold RecoveryWorld.visited
  split
  · exact ⟨fun _ ht => ht, fun _ ht => .inl ht, h.once⟩
  · exact ⟨h.theirs, h.ours, h.once⟩

theorem Safe.foreign_none {w : RecoveryWorld τ} (h : Safe complete w) (hnone : w.target = none) :
    w.foreign = none := by
  cases hforeign : w.foreign with
  | none => rfl
  | some t => exact absurd (h.theirs t hforeign) (by simp [hnone])

theorem frame_safe : Frame fun w => Onward w₀ w ∧ Safe complete w where
  stage _ _ h := ⟨⟨h.1.arrivals, h.1.target, h.1.foreign⟩, ⟨h.2.theirs, h.2.ours, h.2.once⟩⟩
  state _ _ _ h := ⟨⟨h.1.arrivals, h.1.target, h.1.foreign⟩, ⟨h.2.theirs, h.2.ours, h.2.once⟩⟩
  visited w h := ⟨h.1.trans (onward_visited w h.2.foreign_none), safe_visited h.2⟩

theorem frame_safe_there :
    Frame fun w => (Onward w₀ w ∧ Safe complete w) ∧ w.target.isSome = true where
  stage w stage h := ⟨frame_safe.stage w stage h.1, h.2⟩
  state w state finished h := ⟨frame_safe.state w state finished h.1, h.2⟩
  visited w h := by
    refine ⟨frame_safe.visited w h.1, ?_⟩
    obtain ⟨t, ht⟩ := Option.isSome_iff_exists.mp h.2
    rw [(onward_visited w h.1.2.foreign_none).target t ht]
    rfl

/-- The publication of a complete stage. -/
theorem yields_publishDirectory :
    Yields (fun w => (Onward w₀ w ∧ Safe complete w) ∧ ∃ t, w.stage = some t ∧ complete t)
      (fun w => Onward w₀ w ∧ Safe complete w) (publishDirectory : RecoveryProg τ Unit)
      fun _ _ => True := by
  have hothers : Always (fun w => (Onward w₀ w ∧ Safe complete w) ∧
      ∃ t, w.stage = some t ∧ complete t) (others : RecoveryProg τ Unit) := by
    refine always_assign fun w hw => ⟨frame_safe.visited w hw.1, ?_⟩
    obtain ⟨t, ht, hcomplete⟩ := hw.2
    refine ⟨t, ?_, hcomplete⟩
    unfold RecoveryWorld.visited
    split
    · exact ht
    · exact ht
  have hrename : ∀ w : RecoveryWorld τ, ((Onward w₀ w ∧ Safe complete w) ∧
      ∃ t, w.stage = some t ∧ complete t) → Onward w₀ w.rename.2 ∧ Safe complete w.rename.2 := by
    intro w hw
    obtain ⟨t, ht, hcomplete⟩ := hw.2
    unfold RecoveryWorld.rename
    cases htarget : w.target with
    | some t' => exact hw.1
    | none =>
        rw [ht]
        have hforeign := hw.1.2.foreign_none htarget
        exact ⟨⟨hw.1.1.arrivals, fun t' h => absurd (hw.1.1.target t' h) (by simp [htarget]),
          hw.1.1.foreign⟩, ⟨fun t' h => absurd h (by simp [hforeign]),
            fun t' h => .inr (Option.some.inj h ▸ hcomplete), hw.1.2.once⟩⟩
  refine hothers.yields_bind (fun _ h => h.1) fun _ => yields_bind (φ := fun _ _ => True)
    (yields_call (fun _ h => h.1) hrename fun _ _ _ _ _ => trivial) fun _ => ?_
  exact (always_pause.yields fun _ h => h).weaken (fun _ h => h.1) fun _ _ _ _ => trivial

end Safe

/-! ## Runs -/

theorem killedStep_run {operation : RecoveryProg τ RecoveryEvidence → Prop}
    (p : RecoveryProg τ RecoveryEvidence) (hp : operation p) (faults : List (Fault RecoveryRaise))
    (w : RecoveryWorld τ) (hkilled : (p.run faults w).1 = .killed)
    (hfinished : (p.run faults w).2.finished = false) :
    KilledStep operation w (p.run faults w).2 :=
  .killed p hp faults _ (Prod.ext hkilled rfl) hfinished

section Runs

variable {operation : RecoveryProg τ RecoveryEvidence → Prop} {complete : τ → Prop}
  (hoperation : ∀ p, operation p → ∀ w₀, Always (fun w => Onward w₀ w ∧ Safe complete w) p)

include hoperation

theorem killed_step {w w' : RecoveryWorld τ} (h : Safe complete w)
    (hstep : KilledStep operation w w') : Onward w w' ∧ Safe complete w' := by
  cases hstep with
  | killed p hp faults _ hrun _ =>
      have hkept := hoperation p hp w faults w ⟨.refl w, h⟩
      rw [show (p faults w).2.2 = w' from congrArg Prod.snd hrun] at hkept
      exact hkept
  | others => exact ⟨onward_visited w h.foreign_none, safe_visited h⟩

/-- **At every moment** the target path is free, another party's, or complete. -/
theorem killed_reachable {w : RecoveryWorld τ} (h : (killedRuns operation).Reachable w) :
    Safe complete w := by
  refine h.invariant (I := Safe complete) (fun w hw => ?_) fun w w' _ hw hstep =>
    (killed_step hoperation hw hstep).2
  exact ⟨fun t ht => hw.foreign ▸ ht, fun t ht => .inl (hw.foreign.trans ht), by
    rw [hw.restores]
    exact Nat.zero_le 1⟩

theorem killed_onward {w w' : RecoveryWorld τ} (h : (killedRuns operation).Reachable w)
    (hrun : (killedRuns operation).Runs w w') : Onward w w' :=
  h.stable (P := Onward w) (fun _ _ hreach hw hstep =>
    hw.trans (killed_step hoperation (killed_reachable hoperation hreach) hstep).1) (.refl w) hrun

/-- Where nobody else is about, whatever an operation leads to from every point it can be killed
at holds of the end of the run. -/
theorem killed_converges {Point : RecoveryWorld τ → Prop}
    {Q : RecoveryEvidence → RecoveryWorld τ → Prop}
    (hinit : ∀ w, w.Initial → w.Alone → w.foreign = none → Point w)
    (hlater : ∀ w, w.Alone → Point w → Point w.later)
    (hends : ∀ p, operation p → ∀ w, w.Alone → Point w → w.finished = false → Ends Point p w Q)
    {w : RecoveryWorld τ} (h : (killedRuns operation).Reachable w) (halone : w.Alone)
    (hforeign : w.foreign = none) : Point w ∧ w.finished = false := by
  refine h.invariant (I := fun w => w.Alone → w.foreign = none → Point w ∧ w.finished = false)
    (fun w (hw : w.Initial) halone hforeign => ⟨hinit w hw halone hforeign, hw.finished⟩)
    (fun w w' hreach ih hstep halone hforeign => ?_) halone hforeign
  have honward := (killed_step hoperation (killed_reachable hoperation hreach) hstep).1
  have halone' : w.Alone := fun m => congrFun honward.arrivals m ▸ halone m
  have hforeign' : w.foreign = none := by
    cases heq : w.foreign with
    | none => rfl
    | some t => exact absurd (honward.foreign t heq) (by simp [hforeign])
  obtain ⟨hpoint, hfinished⟩ := ih halone' hforeign'
  cases hstep with
  | killed p hp faults _ hrun hfinished' =>
      have hkept := (hends p hp w halone' hpoint hfinished).run_kept faults
      rw [hrun] at hkept
      exact ⟨hkept, hfinished'⟩
  | others =>
      rw [visited_alone halone']
      exact ⟨hlater w halone' hpoint, hfinished⟩

end Runs

end Recovery

end NanoAural
