import NanoAural.Runtime.Session

/-!
# Single flight

The execution lock orders the invocations and the state machine keeps everything
else away from them: whoever is past `_acquire_invocation` holds the lock and has the
session in `RUNNING`, a state that only its own `_finish_invocation` leaves. What an
unload needs, `READY` or `FAILED`, is then never there while an adapter runs.
-/

namespace NanoAural

open Machine SessionWorld

variable {calls : Nat → SessionCall} {owner : Nat} {w w' : SessionWorld}

/-! ## Stages -/

/-- The stages that hold the execution lock. -/
def Stage.holds : Stage → Bool
  | .locked | .checked | .acquired | .invoking | .invoked _ | .finishing _ | .unlocking _ => true
  | _ => false

/-- The stages whose session is `RUNNING`. -/
def Stage.runs : Stage → Bool
  | .acquired | .invoking | .invoked _ | .finishing _ => true
  | _ => false

/-- The stages whose session is `UNLOADING`. -/
def Stage.unloads : Stage → Bool
  | .unloading | .unloaded _ => true
  | _ => false

theorem Stage.runs_holds {stage : Stage} (h : stage.runs = true) : stage.holds = true := by
  cases stage <;> first | rfl | exact absurd h (by simp [Stage.runs])

/-- The state an invocation that ran leaves the session in. -/
def Reply.leaves (reply : Reply) : SessionState := if reply.failed then .failed else .ready

/-- The replies of an invocation that did not run. -/
def Reply.refused (reply : Reply) : Bool := reply == .cancelled || reply == .sessionState

/-- What a call has done by the time it is at a stage. -/
def Stage.Fits : Stage → Track → Prop
  | .start, t | .bound, t | .waiting, t | .timedOut, t | .unloading, t | .unloaded _, t =>
      t = ⟨0, 0, false, none⟩
  | .locked, t | .checked, t => t = ⟨1, 0, false, none⟩
  | .acquired, t | .invoking, t | .invoked _, t | .finishing _, t => t = ⟨1, 0, true, none⟩
  | .unlocking reply, t =>
      t = ⟨1, 0, true, some reply.leaves⟩ ∨ t = ⟨1, 0, false, none⟩ ∧ reply.refused = true
  | .done reply, t =>
      t = ⟨1, 1, true, some reply.leaves⟩ ∨ (t = ⟨1, 1, false, none⟩ ∧ reply.refused = true)
        ∨ t = ⟨0, 0, false, none⟩

/-- What holds of the session while it is loaded. -/
def LoadStage.Fits (w : SessionWorld) : LoadStage → Prop
  | .created | .bound => w.state = .unloaded ∧ w.ended = false ∧ w.unloads = 0
  | .loading | .loaded _ => w.state = .loading ∧ w.ended = false ∧ w.unloads = 0
  | .done => True

/-- The session's invariant. -/
structure Orderly (w : SessionWorld) : Prop where
  executor : ∀ c, (w.stage c).holds = true → w.executor = some c
  running : ∀ c, (w.stage c).runs = true → w.state = .running
  unloading : ∀ c, (w.stage c).unloads = true → w.state = .unloading
  alone : ∀ c c', (w.stage c).unloads = true → (w.stage c').unloads = true → c = c'
  history : ∀ c, (w.stage c).Fits (w.track c)
  load : w.load.Fits w
  ended : w.ended = true → w.state = .failed ∨ w.state = .unloading ∨ w.state = .unloaded
  unloads : w.unloads = 0
    ∨ w.unloads = 1 ∧ (w.state = .unloaded ∨ ∃ c, w.stage c = .unloaded true)

theorem orderly_start : Orderly .start where
  executor _ h := nomatch h
  running _ h := nomatch h
  unloading _ h := nomatch h
  alone _ _ h := nomatch h
  history _ := rfl
  load := ⟨rfl, rfl, rfl⟩
  ended h := nomatch h
  unloads := .inl rfl

/-! ## Steps of one call -/

@[simp] theorem goto_stage (w : SessionWorld) (c : Nat) (stage : Stage) :
    (w.goto c stage).stage = Function.update w.stage c stage := rfl

@[simp] theorem goto_track (w : SessionWorld) (c : Nat) (stage : Stage) :
    (w.goto c stage).track = w.track := rfl

@[simp] theorem note_track (w : SessionWorld) (c : Nat) (track : Track) :
    (w.note c track).track = Function.update w.track c track := rfl

theorem transition_some {expected : List SessionState} {target : SessionState}
    (h : w.transition expected target = some w') :
    w.state ∈ expected ∧ w' = { w with
      state := target
      ended := w.ended || target == .failed || target == .unloaded } := by
  unfold transition at h
  split at h
  · exact ⟨‹_›, (Option.some.inj h).symm⟩
  · exact nomatch h

theorem note_self (w : SessionWorld) (c : Nat) : w.note c (w.track c) = w := by
  unfold note
  rw [Function.update_eq_self]

/-- What the invariant needs of the session a call leaves when it moves to a stage: of the call, and
of all the others. -/
structure Moved (w : SessionWorld) (c : Nat) (stage : Stage) (track : Track) : Prop where
  mine : (stage.holds = true → w.executor = some c) ∧ (stage.runs = true → w.state = .running)
    ∧ (stage.unloads = true → w.state = .unloading ∧ ∀ c', c' ≠ c → (w.stage c').unloads = false)
  others : ∀ c', c' ≠ c → ((w.stage c').holds = true → w.executor = some c')
    ∧ ((w.stage c').runs = true → w.state = .running)
    ∧ ((w.stage c').unloads = true → w.state = .unloading) ∧ (w.stage c').Fits (w.track c')
  alone : ∀ c₁ c₂, (w.stage c₁).unloads = true → (w.stage c₂).unloads = true → c₁ = c₂
  history : stage.Fits track
  load : w.load.Fits w
  ended : w.ended = true → w.state = .failed ∨ w.state = .unloading ∨ w.state = .unloaded
  unloads : w.unloads = 0 ∨ w.unloads = 1 ∧ (w.state = .unloaded ∨ stage = .unloaded true
    ∨ ∃ c', c' ≠ c ∧ w.stage c' = .unloaded true)

/-- **One call moves.** -/
theorem Moved.orderly {w₁ : SessionWorld} {c : Nat} {stage : Stage} {track : Track}
    (h : Moved w₁ c stage track) : Orderly ((w₁.note c track).goto c stage) where
  executor := (Function.forall_update_iff w₁.stage fun c s => s.holds = true → w₁.executor = some c).mpr
    ⟨h.mine.1, fun c' hne => (h.others c' hne).1⟩
  running := (Function.forall_update_iff w₁.stage fun _ s => s.runs = true → w₁.state = .running).mpr
    ⟨h.mine.2.1, fun c' hne => (h.others c' hne).2.1⟩
  unloading := (Function.forall_update_iff w₁.stage
      fun _ s => s.unloads = true → w₁.state = .unloading).mpr
    ⟨fun hs => (h.mine.2.2 hs).1, fun c' hne => (h.others c' hne).2.2.1⟩
  alone := by
    intro c₁ c₂ h₁ h₂
    show c₁ = c₂
    change (Function.update w₁.stage c stage c₁).unloads = true at h₁
    change (Function.update w₁.stage c stage c₂).unloads = true at h₂
    -- if the call that moved unloads, no other does
    by_cases hc₁ : c₁ = c
    · subst hc₁
      rw [Function.update_self] at h₁
      by_contra hne
      rw [Function.update_of_ne (Ne.symm hne), (h.mine.2.2 h₁).2 c₂ (Ne.symm hne)] at h₂
      exact nomatch h₂
    · rw [Function.update_of_ne hc₁] at h₁
      by_cases hc₂ : c₂ = c
      · subst hc₂
        rw [Function.update_self] at h₂
        rw [(h.mine.2.2 h₂).2 c₁ hc₁] at h₁
        exact nomatch h₁
      · rw [Function.update_of_ne hc₂] at h₂
        exact h.alone c₁ c₂ h₁ h₂
  history := by
    intro c'
    show (Function.update w₁.stage c stage c').Fits (Function.update w₁.track c track c')
    by_cases hc : c' = c
    · subst hc
      rw [Function.update_self, Function.update_self]
      exact h.history
    · rw [Function.update_of_ne hc, Function.update_of_ne hc]
      exact (h.others c' hc).2.2.2
  load := h.load
  ended := h.ended
  unloads := by
    refine h.unloads.imp_right fun ⟨hone, hwhere⟩ => ⟨hone, ?_⟩
    rcases hwhere with hun | rfl | ⟨c', hne, hc'⟩
    · exact .inl hun
    · exact .inr ⟨c, Function.update_self _ _ _⟩
    · exact .inr ⟨c', (Function.update_of_ne hne _ _).trans hc'⟩

/-- The same, for a step its call does not note. -/
theorem Moved.orderly_goto {w₁ : SessionWorld} {c : Nat} {stage : Stage}
    (h : Moved w₁ c stage (w₁.track c)) : Orderly (w₁.goto c stage) := by
  have := h.orderly
  rwa [note_self] at this

/-- A step that leaves the session alone and claims nothing new for its call. -/
theorem Orderly.pass (h : Orderly w) {c : Nat} {stage : Stage}
    (hholds : stage.holds = true → (w.stage c).holds = true)
    (hruns : stage.runs = true → (w.stage c).runs = true)
    (hunloads : stage.unloads = true → (w.stage c).unloads = true)
    (hkeep : w.stage c ≠ .unloaded true) (hfits : stage.Fits (w.track c)) :
    Orderly (w.goto c stage) := by
  refine Moved.orderly_goto ⟨⟨fun hs => h.executor c (hholds hs), fun hs => h.running c (hruns hs),
      fun hs => ⟨h.unloading c (hunloads hs), fun c' hne => ?_⟩⟩,
    fun c' _ => ⟨h.executor c', h.running c', h.unloading c', h.history c'⟩, h.alone, hfits, h.load,
    h.ended, h.unloads.imp_right fun ⟨hone, hwhere⟩ => ⟨hone, hwhere.imp_right fun ⟨c', hc'⟩ =>
      .inr ⟨c', fun he => hkeep (he ▸ hc'), hc'⟩⟩⟩
  by_contra hother
  exact hne (h.alone c' c (by simpa using hother) (hunloads hs))

/-- Nobody holds a free lock. -/
theorem Orderly.free (h : Orderly w) (hfree : w.executor = none) (c : Nat) :
    (w.stage c).holds = false := by
  by_contra hc
  have := h.executor c (by simpa using hc)
  rw [hfree] at this
  exact nomatch this

/-- Past the lock there is one call. -/
theorem Orderly.holder (h : Orderly w) {c c' : Nat} (hc : (w.stage c).holds = true)
    (hne : c' ≠ c) : (w.stage c').holds = false := by
  by_contra hc'
  have := (h.executor c hc).symm.trans (h.executor c' (by simpa using hc'))
  exact hne (Option.some.inj this).symm

theorem Orderly.acquire (h : Orderly w) {c : Nat} (hc : w.stage c = .waiting)
    (hfree : w.executor = none) :
    Orderly ((({ w with executor := some c } : SessionWorld).note c
      { w.track c with acquired := (w.track c).acquired + 1 }).goto c .locked) := by
  have hhistory := h.history c
  rw [hc] at hhistory
  have hhistory : w.track c = ⟨0, 0, false, none⟩ := hhistory
  refine Moved.orderly ⟨⟨fun _ => rfl, fun hs => (nomatch hs), fun hs => (nomatch hs)⟩,
    fun c' _ => ⟨fun hs => ?_, h.running c', h.unloading c', h.history c'⟩, h.alone, ?_, h.load,
    h.ended, h.unloads.imp_right fun ⟨hone, hwhere⟩ => ⟨hone, hwhere.imp_right fun ⟨c', hc'⟩ =>
      .inr ⟨c', fun he => ?_, hc'⟩⟩⟩
  · exact absurd (h.free hfree c') (by simp only [hs]; simp)
  · rw [hhistory]
    rfl
  · rw [he, hc] at hc'
    exact nomatch hc'

theorem Orderly.release (h : Orderly w) {c : Nat} {reply : Reply}
    (hc : w.stage c = .unlocking reply) :
    Orderly ((({ w with executor := none } : SessionWorld).note c
      { w.track c with released := (w.track c).released + 1 }).goto c (.done reply)) := by
  have hhistory := h.history c
  rw [hc] at hhistory
  refine Moved.orderly ⟨⟨fun hs => (nomatch hs), fun hs => (nomatch hs), fun hs => (nomatch hs)⟩,
    fun c' hne => ⟨fun hs => ?_, h.running c', h.unloading c', h.history c'⟩, h.alone, ?_, h.load,
    h.ended, h.unloads.imp_right fun ⟨hone, hwhere⟩ => ⟨hone, hwhere.imp_right fun ⟨c', hc'⟩ =>
      .inr ⟨c', fun he => ?_, hc'⟩⟩⟩
  · have := h.holder (show (w.stage c).holds = true by rw [hc]; rfl) hne
    exact absurd this (by simp only [hs]; simp)
  · rcases hhistory with htrack | ⟨htrack, hrefused⟩
    · rw [htrack]
      exact .inl rfl
    · rw [htrack]
      exact .inr (.inl ⟨rfl, hrefused⟩)
  · rw [he, hc] at hc'
    exact nomatch hc'

/-- Outside `UNLOADING` no unload is under way. -/
theorem Orderly.not_unloading (h : Orderly w) (hstate : w.state ≠ .unloading) (c : Nat) :
    (w.stage c).unloads = false := by
  by_contra hc
  exact hstate (h.unloading c (by simpa using hc))

/-- Outside `RUNNING` no invocation is under way. -/
theorem Orderly.not_running (h : Orderly w) (hstate : w.state ≠ .running) (c : Nat) :
    (w.stage c).runs = false := by
  by_contra hc
  exact hstate (h.running c (by simpa using hc))

/-- A session in use is loaded. -/
theorem Orderly.loaded (h : Orderly w) (hstate : w.state ≠ .unloaded) (hstate' : w.state ≠ .loading) :
    w.load = .done := by
  have hload := h.load
  cases hl : w.load with
  | created => rw [hl] at hload; exact absurd hload.1 hstate
  | bound => rw [hl] at hload; exact absurd hload.1 hstate
  | loading => rw [hl] at hload; exact absurd hload.1 hstate'
  | loaded success => rw [hl] at hload; exact absurd hload.1 hstate'
  | done => rfl

/-- A session that is up has never been down. -/
theorem Orderly.fresh (h : Orderly w) (hstate : w.state = .ready ∨ w.state = .running) :
    w.ended = false ∧ w.unloads = 0 := by
  have hnot : w.state ≠ .failed ∧ w.state ≠ .unloading ∧ w.state ≠ .unloaded := by
    rcases hstate with hs | hs <;> rw [hs] <;> decide
  refine ⟨?_, ?_⟩
  · by_contra hended
    rcases h.ended (by simpa using hended) with hs | hs | hs
    · exact hnot.1 hs
    · exact hnot.2.1 hs
    · exact hnot.2.2 hs
  · rcases h.unloads with hzero | ⟨_, hs | ⟨c, hc⟩⟩
    · exact hzero
    · exact absurd hs hnot.2.2
    · exact absurd (h.unloading c (by rw [hc]; rfl)) hnot.2.1

/-- An invocation moves the session to `RUNNING`. -/
theorem Orderly.enter (h : Orderly w) {c : Nat} (hc : w.stage c = .checked)
    (ht : w.transition [.ready] .running = some w') :
    Orderly ((w'.note c { w.track c with entered := true }).goto c .acquired) := by
  obtain ⟨hready, rfl⟩ := transition_some ht
  have hready : w.state = .ready := by simpa using hready
  have hhistory := h.history c
  rw [hc] at hhistory
  have hhistory : w.track c = ⟨1, 0, false, none⟩ := hhistory
  obtain ⟨hended, hunloads⟩ := h.fresh (.inl hready)
  have hloaded := h.loaded (by rw [hready]; decide) (by rw [hready]; decide)
  have hidle := h.not_unloading (by rw [hready]; decide)
  refine Moved.orderly
    ⟨⟨fun _ => h.executor c (by rw [hc]; rfl), fun _ => rfl, fun hs => (nomatch hs)⟩,
    fun c' _ => ⟨h.executor c', fun _ => rfl, fun hs => ?_, h.history c'⟩, h.alone, ?_, ?_, ?_,
    .inl hunloads⟩
  · exact absurd (hidle c') (by simp only [hs]; simp)
  · rw [hhistory]
    rfl
  · show w.load.Fits _
    rw [hloaded]
    trivial
  · intro hs
    simp [hended] at hs

/-- An invocation moves the session out of `RUNNING`. -/
theorem Orderly.leave (h : Orderly w) {c : Nat} {reply : Reply} (hc : w.stage c = .finishing reply)
    (ht : w.transition [.running] reply.leaves = some w') :
    Orderly ((w'.note c { w.track c with left := some w'.state }).goto c (.unlocking reply)) := by
  obtain ⟨hrunning, rfl⟩ := transition_some ht
  have hrunning : w.state = .running := by simpa using hrunning
  have hhistory := h.history c
  rw [hc] at hhistory
  have hhistory : w.track c = ⟨1, 0, true, none⟩ := hhistory
  obtain ⟨hended, hunloads⟩ := h.fresh (.inr hrunning)
  have hloaded := h.loaded (by rw [hrunning]; decide) (by rw [hrunning]; decide)
  have hidle := h.not_unloading (by rw [hrunning]; decide)
  have hholds : (w.stage c).holds = true := by rw [hc]; rfl
  refine Moved.orderly
    ⟨⟨fun _ => h.executor c hholds, fun hs => (nomatch hs), fun hs => (nomatch hs)⟩,
    fun c' hne => ⟨h.executor c', fun hs => ?_, fun hs => ?_, h.history c'⟩, h.alone, ?_, ?_, ?_,
    .inl hunloads⟩
  · exact absurd (h.holder hholds hne) (by rw [Stage.runs_holds hs]; simp)
  · exact absurd (hidle c') (by simp only [hs]; simp)
  · rw [hhistory]
    exact .inl rfl
  · show w.load.Fits _
    rw [hloaded]
    trivial
  · intro hs
    show reply.leaves = _ ∨ reply.leaves = _ ∨ reply.leaves = _
    unfold Reply.leaves at hs ⊢
    cases hfailed : reply.failed <;> simp [hended, hfailed] at hs ⊢

/-- An unload begins. -/
theorem Orderly.beginUnload (h : Orderly w) {c : Nat} (hc : w.stage c = .bound)
    (ht : w.transition [.ready, .failed] .unloading = some w') :
    Orderly (w'.goto c .unloading) := by
  obtain ⟨hstate, rfl⟩ := transition_some ht
  have hup : w.state = .ready ∨ w.state = .failed := by simpa using hstate
  have hnot : w.state ≠ .unloading ∧ w.state ≠ .running ∧ w.state ≠ .unloaded
      ∧ w.state ≠ .loading := by
    rcases hup with hs | hs <;> rw [hs] <;> decide
  have hidle := h.not_unloading hnot.1
  have hquiet := h.not_running hnot.2.1
  have hloaded := h.loaded hnot.2.2.1 hnot.2.2.2
  have hhistory := h.history c
  rw [hc] at hhistory
  refine Moved.orderly_goto
    ⟨⟨fun hs => (nomatch hs), fun hs => (nomatch hs), fun _ => ⟨rfl, fun c' _ => hidle c'⟩⟩,
    fun c' _ => ⟨h.executor c', fun hs => ?_, fun _ => rfl, h.history c'⟩, h.alone, hhistory, ?_,
    fun _ => .inr (.inl rfl), ?_⟩
  · exact absurd (hquiet c') (by simp only [hs]; simp)
  · show w.load.Fits _
    rw [hloaded]
    trivial
  · rcases h.unloads with hzero | ⟨_, hs | ⟨c', hc'⟩⟩
    · exact .inl hzero
    · exact absurd hs hnot.2.2.1
    · exact absurd (hidle c') (by rw [hc']; simp [Stage.unloads])

/-- `adapter.unload` returns or raises. -/
theorem Orderly.adapterUnload (h : Orderly w) {c : Nat} {success : Bool}
    (hc : w.stage c = .unloading) :
    Orderly (({ w with unloads := w.unloads + success.toNat } : SessionWorld).goto c
      (.unloaded success)) := by
  have hstate : w.state = .unloading := h.unloading c (by rw [hc]; rfl)
  have halone : ∀ c', c' ≠ c → (w.stage c').unloads = false := fun c' hne => by
    by_contra hs
    exact hne (h.alone c' c (by simpa using hs) (by rw [hc]; rfl))
  have hzero : w.unloads = 0 := by
    rcases h.unloads with hzero | ⟨_, hs | ⟨c', hc'⟩⟩
    · exact hzero
    · rw [hstate] at hs
      exact nomatch hs
    · by_cases he : c' = c
      · rw [he, hc] at hc'
        exact nomatch hc'
      · have := halone c' he
        rw [hc'] at this
        exact nomatch this
  have hloaded := h.loaded (by rw [hstate]; decide) (by rw [hstate]; decide)
  have hhistory := h.history c
  rw [hc] at hhistory
  refine Moved.orderly_goto
    ⟨⟨fun hs => (nomatch hs), fun hs => (nomatch hs), fun _ => ⟨hstate, halone⟩⟩,
    fun c' _ => ⟨h.executor c', h.running c', h.unloading c', h.history c'⟩, h.alone, hhistory, ?_,
    h.ended, ?_⟩
  · show w.load.Fits _
    rw [hloaded]
    trivial
  · show w.unloads + success.toNat = 0 ∨ w.unloads + success.toNat = 1 ∧ _
    rw [hzero]
    cases success with
    | false => exact .inl rfl
    | true => exact .inr ⟨rfl, .inr (.inl rfl)⟩

/-- An unload ends. -/
theorem Orderly.endUnload (h : Orderly w) {c : Nat} {success : Bool} {reply : Reply}
    (hc : w.stage c = .unloaded success)
    (ht : w.transition [.unloading] (if success then .unloaded else .failed) = some w') :
    Orderly (w'.goto c (.done reply)) := by
  obtain ⟨_, rfl⟩ := transition_some ht
  have hstate : w.state = .unloading := h.unloading c (by rw [hc]; rfl)
  have hquiet := h.not_running (by rw [hstate]; decide)
  have halone : ∀ c', c' ≠ c → (w.stage c').unloads = false := fun c' hne => by
    by_contra hs
    exact hne (h.alone c' c (by simpa using hs) (by rw [hc]; rfl))
  have hloaded := h.loaded (by rw [hstate]; decide) (by rw [hstate]; decide)
  have hhistory := h.history c
  rw [hc] at hhistory
  refine Moved.orderly_goto
    ⟨⟨fun hs => (nomatch hs), fun hs => (nomatch hs), fun hs => (nomatch hs)⟩,
    fun c' hne => ⟨h.executor c', fun hs => ?_, fun hs => ?_, h.history c'⟩, h.alone,
    .inr (.inr hhistory), ?_, fun _ => ?_, ?_⟩
  · exact absurd (hquiet c') (by simp only [hs]; simp)
  · exact absurd (halone c' hne) (by simp only [hs]; simp)
  · show w.load.Fits _
    rw [hloaded]
    trivial
  · cases success with
    | false => exact .inl rfl
    | true => exact .inr (.inr rfl)
  · rcases h.unloads with hzero | ⟨hone, hs | ⟨c', hc'⟩⟩
    · exact .inl hzero
    · rw [hstate] at hs
      exact nomatch hs
    · by_cases he : c' = c
      · rw [he, hc] at hc'
        obtain rfl : success = true := by simpa using hc'
        exact .inr ⟨hone, .inl rfl⟩
      · have := halone c' he
        rw [hc'] at this
        exact nomatch this

/-! ## Every step keeps the invariant -/

theorem orderly_invokeStep (h : Orderly w) {c runtime token : Nat} {choice : Choice}
    (hstep : w.invokeStep c runtime token choice = some w') : Orderly w' := by
  have hhistory := h.history c
  -- a step within the same stretch: before the lock, or under it
  have hpass : ∀ {stage : Stage}, (stage.holds = true → (w.stage c).holds = true) →
      (stage.runs = true → (w.stage c).runs = true) → stage.unloads = false →
      w.stage c ≠ .unloaded true → stage.Fits (w.track c) → Orderly (w.goto c stage) :=
    fun hholds hruns hunloads hkeep hfits =>
      h.pass hholds hruns (fun hs => by rw [hunloads] at hs; exact nomatch hs) hkeep hfits
  unfold invokeStep at hstep
  split at hstep
  · rename_i hs
    rw [hs] at hhistory hpass
    split at hstep <;> obtain rfl := Option.some.inj hstep
    · exact hpass (fun hh => nomatch hh) (fun hh => nomatch hh) rfl (fun hh => nomatch hh) hhistory
    · exact hpass (fun hh => nomatch hh) (fun hh => nomatch hh) rfl (fun hh => nomatch hh)
        (.inr (.inr hhistory))
  · rename_i hs
    rw [hs] at hhistory hpass
    split at hstep <;> obtain rfl := Option.some.inj hstep
    · exact hpass (fun hh => nomatch hh) (fun hh => nomatch hh) rfl (fun hh => nomatch hh)
        (.inr (.inr hhistory))
    · exact hpass (fun hh => nomatch hh) (fun hh => nomatch hh) rfl (fun hh => nomatch hh) hhistory
  · rename_i hs
    split at hstep
    · obtain rfl := Option.some.inj hstep
      exact h.acquire hs ‹_›
    · exact nomatch hstep
  · rename_i hs
    rw [hs] at hhistory hpass
    obtain rfl := Option.some.inj hstep
    exact hpass (fun hh => nomatch hh) (fun hh => nomatch hh) rfl (fun hh => nomatch hh) hhistory
  · rename_i hs
    rw [hs] at hhistory hpass
    split at hstep <;> obtain rfl := Option.some.inj hstep
    · exact hpass (fun hh => nomatch hh) (fun hh => nomatch hh) rfl (fun hh => nomatch hh)
        (.inr (.inr hhistory))
    · exact hpass (fun hh => nomatch hh) (fun hh => nomatch hh) rfl (fun hh => nomatch hh) hhistory
  · rename_i hs
    rw [hs] at hhistory hpass
    split at hstep <;> obtain rfl := Option.some.inj hstep
    · exact hpass (fun _ => rfl) (fun hh => nomatch hh) rfl (fun hh => nomatch hh)
        (.inr ⟨hhistory, rfl⟩)
    · exact hpass (fun _ => rfl) (fun hh => nomatch hh) rfl (fun hh => nomatch hh) hhistory
  · rename_i hs
    split at hstep
    · obtain rfl := Option.some.inj hstep
      exact h.enter hs ‹_›
    · rw [hs] at hhistory hpass
      obtain rfl := Option.some.inj hstep
      exact hpass (fun _ => rfl) (fun hh => nomatch hh) rfl (fun hh => nomatch hh)
        (.inr ⟨hhistory, rfl⟩)
  · rename_i hs
    rw [hs] at hhistory hpass
    obtain rfl := Option.some.inj hstep
    exact hpass (fun _ => rfl) (fun _ => rfl) rfl (fun hh => nomatch hh) hhistory
  · rename_i hs
    rw [hs] at hhistory hpass
    obtain rfl := Option.some.inj hstep
    exact hpass (fun _ => rfl) (fun _ => rfl) rfl (fun hh => nomatch hh) hhistory
  · rename_i hs
    rw [hs] at hhistory hpass
    obtain rfl := Option.some.inj hstep
    exact hpass (fun _ => rfl) (fun _ => rfl) rfl (fun hh => nomatch hh) hhistory
  · rename_i reply hs
    split at hstep
    · obtain rfl := Option.some.inj hstep
      exact h.leave hs ‹_›
    · rename_i ht
      -- the session of a running invocation is `RUNNING`
      have hrunning := h.running c (by rw [hs]; rfl)
      simp [transition, hrunning] at ht
  · rename_i hs
    obtain rfl := Option.some.inj hstep
    exact h.release hs
  · exact nomatch hstep

theorem orderly_unloadStep (h : Orderly w) {c runtime : Nat} {choice : Choice}
    (hstep : w.unloadStep c runtime choice = some w') : Orderly w' := by
  have hhistory := h.history c
  have hpass : ∀ {stage : Stage}, stage.holds = false → stage.runs = false →
      stage.unloads = false → w.stage c ≠ .unloaded true → stage.Fits (w.track c) →
      Orderly (w.goto c stage) := fun hholds hruns hunloads hkeep hfits =>
    h.pass (fun hs => by rw [hholds] at hs; exact nomatch hs)
      (fun hs => by rw [hruns] at hs; exact nomatch hs)
      (fun hs => by rw [hunloads] at hs; exact nomatch hs) hkeep hfits
  unfold unloadStep at hstep
  split at hstep
  · rename_i hs
    rw [hs] at hhistory hpass
    split at hstep <;> obtain rfl := Option.some.inj hstep
    · exact hpass rfl rfl rfl (fun hh => nomatch hh) hhistory
    · exact hpass rfl rfl rfl (fun hh => nomatch hh) (.inr (.inr hhistory))
  · rename_i hs
    split at hstep
    · obtain rfl := Option.some.inj hstep
      exact h.beginUnload hs ‹_›
    · rw [hs] at hhistory hpass
      obtain rfl := Option.some.inj hstep
      exact hpass rfl rfl rfl (fun hh => nomatch hh) (.inr (.inr hhistory))
  · rename_i hs
    obtain rfl := Option.some.inj hstep
    exact h.adapterUnload hs
  · rename_i success hs
    split at hstep
    · obtain rfl := Option.some.inj hstep
      exact h.endUnload hs ‹_›
    · rename_i ht
      -- the session of an unload under way is `UNLOADING`
      have hunloading := h.unloading c (by rw [hs]; rfl)
      simp [transition, hunloading] at ht
  · exact nomatch hstep

/-- The load changes the state under calls that have not begun. -/
theorem Orderly.reload (h : Orderly w) {runtime : Option Nat} {state : SessionState}
    {load : LoadStage} {ended : Bool} (hrunning : w.state ≠ .running)
    (hunloading : w.state ≠ .unloading) (hunloads : w.unloads = 0)
    (hload : load.Fits { w with
      runtime := runtime, state := state, load := load, ended := ended })
    (hended : ended = true → state = .failed ∨ state = .unloading ∨ state = .unloaded) :
    Orderly { w with runtime := runtime, state := state, load := load, ended := ended } where
  executor := h.executor
  running c hc := absurd (h.not_running hrunning c) (by rw [hc]; simp)
  unloading c hc := absurd (h.not_unloading hunloading c) (by rw [hc]; simp)
  alone := h.alone
  history := h.history
  load := hload
  ended := hended
  unloads := .inl hunloads

theorem orderly_loadStep (h : Orderly w) {success : Bool}
    (hstep : w.loadStep owner success = some w') : Orderly w' := by
  have hload := h.load
  unfold loadStep at hstep
  cases hl : w.load with
  | created =>
      rw [hl] at hstep hload
      obtain rfl := Option.some.inj hstep
      obtain ⟨hstate, hended, hunloads⟩ := hload
      exact h.reload (by rw [hstate]; decide) (by rw [hstate]; decide) hunloads
        ⟨hstate, hended, hunloads⟩ h.ended
  | bound =>
      rw [hl] at hstep hload
      obtain ⟨hstate, hended, hunloads⟩ := hload
      obtain ⟨w₁, ht, rfl⟩ := Option.map_eq_some_iff.mp hstep
      obtain ⟨_, rfl⟩ := transition_some ht
      exact h.reload (by rw [hstate]; decide) (by rw [hstate]; decide) hunloads
        ⟨rfl, by simp [hended], hunloads⟩ (fun hs => by simp [hended] at hs)
  | loading =>
      rw [hl] at hstep hload
      obtain rfl := Option.some.inj hstep
      obtain ⟨hstate, hended, hunloads⟩ := hload
      exact h.reload (by rw [hstate]; decide) (by rw [hstate]; decide) hunloads
        ⟨hstate, hended, hunloads⟩ h.ended
  | loaded success =>
      rw [hl] at hstep hload
      obtain ⟨hstate, hended, hunloads⟩ := hload
      obtain ⟨w₁, ht, rfl⟩ := Option.map_eq_some_iff.mp hstep
      obtain ⟨_, rfl⟩ := transition_some ht
      refine h.reload (by rw [hstate]; decide) (by rw [hstate]; decide) hunloads trivial fun hs => ?_
      cases success with
      | false => exact .inl rfl
      | true => simp [hended] at hs
  | done =>
      rw [hl] at hstep
      exact nomatch hstep

theorem orderly_step (h : Orderly w) (hstep : (sessionSystem calls owner).step w w') :
    Orderly w' := by
  obtain ⟨move, hmove⟩ := hstep
  cases move with
  | load success => exact orderly_loadStep h hmove
  | call c choice =>
      replace hmove : w.callStep calls c choice = some w' := hmove
      unfold callStep at hmove
      split at hmove
      · exact orderly_invokeStep h hmove
      · exact orderly_unloadStep h hmove
  | cancel token =>
      obtain rfl := Option.some.inj hmove
      exact ⟨h.executor, h.running, h.unloading, h.alone, h.history, by
        have := h.load
        cases hl : w.load <;> rw [hl] at this <;> exact this, h.ended, h.unloads⟩

theorem orderly_reachable (h : (sessionSystem calls owner).Reachable w) : Orderly w := by
  refine System.Reachable.invariant (fun w hinit => ?_) (fun w w' _ h hstep => ?_) h
  · obtain rfl : w = .start := hinit
    exact orderly_start
  · exact orderly_step h hstep

/-! ## What one step does to its own call, and to the others -/

theorem transition_same {expected : List SessionState} {target : SessionState}
    (h : w.transition expected target = some w') :
    w'.stage = w.stage ∧ w'.cancelled = w.cancelled := by
  obtain ⟨_, rfl⟩ := transition_some h
  exact ⟨rfl, rfl⟩

/-- A step of a call moves that call. -/
theorem invokeStep_goto {c runtime token : Nat} {choice : Choice}
    (hstep : w.invokeStep c runtime token choice = some w') :
    ∃ w₁ stage, w' = goto w₁ c stage ∧ w₁.stage = w.stage ∧ w₁.cancelled = w.cancelled := by
  unfold invokeStep at hstep
  split at hstep
  case h_7 | h_11 =>
    split at hstep <;> cases hstep
    · rename_i ht
      exact ⟨_, _, rfl, (transition_same ht).1, (transition_same ht).2⟩
    · exact ⟨_, _, rfl, rfl, rfl⟩
  all_goals try split at hstep
  all_goals cases hstep
  all_goals exact ⟨_, _, rfl, rfl, rfl⟩

theorem unloadStep_goto {c runtime : Nat} {choice : Choice}
    (hstep : w.unloadStep c runtime choice = some w') :
    ∃ w₁ stage, w' = goto w₁ c stage ∧ w₁.stage = w.stage ∧ w₁.cancelled = w.cancelled := by
  unfold unloadStep at hstep
  split at hstep
  case h_2 | h_4 =>
    split at hstep <;> cases hstep
    · rename_i ht
      exact ⟨_, _, rfl, (transition_same ht).1, (transition_same ht).2⟩
    · exact ⟨_, _, rfl, rfl, rfl⟩
  all_goals try split at hstep
  all_goals cases hstep
  all_goals exact ⟨_, _, rfl, rfl, rfl⟩

theorem callStep_other {c c' : Nat} {choice : Choice}
    (hstep : w.callStep calls c choice = some w') (hne : c' ≠ c) :
    w'.stage c' = w.stage c' ∧ w'.cancelled = w.cancelled := by
  have hgoto : ∃ w₁ stage, w' = goto w₁ c stage ∧ w₁.stage = w.stage
      ∧ w₁.cancelled = w.cancelled := by
    unfold callStep at hstep
    split at hstep
    · exact invokeStep_goto hstep
    · exact unloadStep_goto hstep
  obtain ⟨w₁, stage, rfl, hstage, hcancelled⟩ := hgoto
  exact ⟨by rw [goto_stage, Function.update_of_ne hne, hstage], hcancelled⟩

/-- `adapter.invoke` begins after `_acquire_invocation`, and that in a `READY` session. -/
theorem callStep_enters {c : Nat} {choice : Choice}
    (hstep : w.callStep calls c choice = some w') :
    (w'.stage c = .invoking → w.stage c = .acquired)
      ∧ (w'.stage c = .acquired → w.state = .ready ∧ w'.state = .running) := by
  unfold callStep at hstep
  split at hstep
  · unfold invokeStep at hstep
    split at hstep
    case h_7 =>
      split at hstep <;> cases hstep
      · rename_i ht
        obtain ⟨hready, rfl⟩ := transition_some ht
        simp only [goto_stage, Function.update_self]
        exact ⟨fun h => (nomatch h), fun _ => ⟨by simpa using hready, rfl⟩⟩
      · simp
    case h_8 =>
      rename_i hs
      cases hstep
      simpa using hs
    case h_11 => split at hstep <;> cases hstep <;> simp
    all_goals try split at hstep
    all_goals cases hstep
    all_goals simp
  · unfold unloadStep at hstep
    split at hstep
    all_goals try split at hstep
    all_goals cases hstep
    all_goals simp

theorem loadStep_same {success : Bool} (hstep : w.loadStep owner success = some w') :
    w'.stage = w.stage ∧ w'.cancelled = w.cancelled := by
  unfold loadStep at hstep
  split at hstep
  case h_2 | h_4 =>
    obtain ⟨w₁, ht, rfl⟩ := Option.map_eq_some_iff.mp hstep
    exact ⟨(transition_same ht).1, (transition_same ht).2⟩
  all_goals cases hstep
  all_goals exact ⟨rfl, rfl⟩

/-! ## The lock -/

/-- The steps to the release, at most. -/
def Stage.ahead : Stage → Nat
  | .locked => 7
  | .checked => 6
  | .acquired => 5
  | .invoking => 4
  | .invoked _ => 3
  | .finishing _ => 2
  | .unlocking _ => 1
  | .start | .bound | .waiting | .timedOut | .unloading | .unloaded _ | .done _ => 0

/-- **What a step of an invocation does to the lock**: it takes it, gives it back, or leaves it
alone and goes on. -/
theorem invokeStep_lock {c runtime token : Nat} {choice : Choice}
    (hstep : w.invokeStep c runtime token choice = some w') :
    (w.stage c = .waiting ∧ w.executor = none ∧ w'.executor = some c ∧ w'.stage c = .locked)
      ∨ (∃ reply, w.stage c = .unlocking reply ∧ w'.executor = none ∧ w'.stage c = .done reply)
      ∨ w'.executor = w.executor ∧ (w'.stage c).holds = (w.stage c).holds
        ∧ ((w.stage c).holds = true → (w'.stage c).ahead < (w.stage c).ahead) := by
  -- a step that leaves the lock alone goes from one stage to another
  have hgoto : ∀ {w₁ : SessionWorld} {stage stage' : Stage}, w.stage c = stage →
      w₁.executor = w.executor → stage'.holds = stage.holds →
      (stage.holds = true → stage'.ahead < stage.ahead) →
      (goto w₁ c stage').executor = w.executor
        ∧ ((goto w₁ c stage').stage c).holds = (w.stage c).holds
        ∧ ((w.stage c).holds = true → ((goto w₁ c stage').stage c).ahead < (w.stage c).ahead) := by
    intro w₁ stage stage' hs hexecutor hholds hahead
    rw [hs, goto_stage, Function.update_self]
    exact ⟨hexecutor, hholds, hahead⟩
  unfold invokeStep at hstep
  split at hstep
  case h_3 =>
    rename_i hs
    split at hstep <;> cases hstep
    exact .inl ⟨hs, ‹_›, rfl, by rw [goto_stage, Function.update_self]⟩
  case h_12 =>
    rename_i reply hs
    cases hstep
    exact .inr (.inl ⟨reply, hs, rfl, by rw [goto_stage, Function.update_self]⟩)
  case h_7 | h_11 =>
    rename_i hs
    refine .inr (.inr ?_)
    split at hstep <;> cases hstep
    · rename_i ht
      obtain ⟨_, rfl⟩ := transition_some ht
      exact hgoto hs rfl rfl fun _ => by simp [Stage.ahead]
    · exact hgoto hs rfl rfl fun _ => by simp [Stage.ahead]
  case h_13 => cases hstep
  all_goals
    rename_i hs
    refine .inr (.inr ?_)
    try split at hstep
  all_goals cases hstep
  all_goals refine hgoto hs rfl rfl fun hh => ?_
  all_goals first | exact absurd hh Bool.false_ne_true | simp only [Stage.ahead, Nat.reduceLT]

theorem unloadStep_lock {c runtime : Nat} {choice : Choice}
    (hstep : w.unloadStep c runtime choice = some w') :
    w'.executor = w.executor ∧ (w'.stage c).holds = false := by
  unfold unloadStep at hstep
  split at hstep
  case h_2 | h_4 =>
    split at hstep <;> cases hstep
    · rename_i ht
      obtain ⟨_, rfl⟩ := transition_some ht
      exact ⟨rfl, by rw [goto_stage, Function.update_self]; rfl⟩
    · exact ⟨rfl, by rw [goto_stage, Function.update_self]; rfl⟩
  all_goals try split at hstep
  all_goals cases hstep
  all_goals exact ⟨rfl, by rw [goto_stage, Function.update_self]; rfl⟩

/-- Whom the lock belongs to: an invocation that has acquired it and not yet released it. -/
structure Held (calls : Nat → SessionCall) (w : SessionWorld) : Prop where
  holder : ∀ c, w.executor = some c → (w.stage c).holds = true
  invokes : ∀ c, (w.stage c).holds = true → ∃ runtime token, calls c = .invoke runtime token

theorem held_callStep (h : Held calls w) {c : Nat} {choice : Choice}
    (hstep : w.callStep calls c choice = some w') : Held calls w' := by
  have hother : ∀ c', c' ≠ c → w'.stage c' = w.stage c' := fun c' hne =>
    (callStep_other hstep hne).1
  unfold callStep at hstep
  split at hstep
  · rename_i runtime token hcall
    constructor
    · intro c' hc'
      -- a call takes the lock, gives it back, or leaves it as it is
      rcases invokeStep_lock hstep with ⟨_, _, hexecutor, hstage⟩ | ⟨_, _, hexecutor, _⟩
          | ⟨hexecutor, hholds, _⟩
      · obtain rfl : c = c' := Option.some.inj (hexecutor.symm.trans hc')
        rw [hstage]
        rfl
      · rw [hexecutor] at hc'
        cases hc'
      · by_cases he : c' = c
        · rw [he, hholds]
          exact h.holder c (by rw [← hexecutor, hc', he])
        · rw [hother c' he]
          exact h.holder c' (by rw [← hexecutor, hc'])
    · intro c' hc'
      by_cases he : c' = c
      · exact ⟨runtime, token, by rw [he, hcall]⟩
      · exact h.invokes c' (by rw [← hother c' he]; exact hc')
  · rename_i runtime hcall
    obtain ⟨hexecutor, hholds⟩ := unloadStep_lock hstep
    -- an unload never holds the lock of the calls
    have hnot : ∀ c', (w.stage c').holds = true → c' ≠ c := by
      rintro c' hc' rfl
      obtain ⟨_, _, hinvoke⟩ := h.invokes c' hc'
      rw [hcall] at hinvoke
      cases hinvoke
    constructor
    · intro c' hc'
      have hwas := h.holder c' (by rw [← hexecutor, hc'])
      rw [hother c' (hnot c' hwas)]
      exact hwas
    · intro c' hc'
      by_cases he : c' = c
      · rw [he, hholds] at hc'
        cases hc'
      · exact h.invokes c' (by rw [← hother c' he]; exact hc')

theorem loadStep_executor {success : Bool} (hstep : w.loadStep owner success = some w') :
    w'.executor = w.executor := by
  unfold loadStep at hstep
  split at hstep
  case h_2 | h_4 =>
    obtain ⟨w₁, ht, rfl⟩ := Option.map_eq_some_iff.mp hstep
    obtain ⟨_, rfl⟩ := transition_some ht
    rfl
  all_goals cases hstep
  all_goals rfl

theorem held_reachable (h : (sessionSystem calls owner).Reachable w) : Held calls w := by
  refine System.Reachable.invariant (fun w hinit => ?_) (fun w w' _ h hstep => ?_) h
  · obtain rfl : w = .start := hinit
    exact ⟨fun _ h => (by cases h), fun _ h => (by cases h)⟩
  · obtain ⟨move, hmove⟩ := hstep
    cases move with
    | load success =>
        have hexecutor := loadStep_executor hmove
        have hstage := (loadStep_same hmove).1
        exact ⟨fun c hc => by rw [hstage]; exact h.holder c (by rw [← hexecutor, hc]),
          fun c hc => h.invokes c (by rw [← hstage]; exact hc)⟩
    | call c choice => exact held_callStep h hmove
    | cancel token =>
        obtain rfl := Option.some.inj hmove
        exact ⟨h.holder, h.invokes⟩

/-- A call that holds the lock can go on, whatever its adapter does. -/
theorem invokeStep_goesOn {c : Nat} (h : (w.stage c).holds = true) (runtime token : Nat) :
    (w.stage c = .invoking →
        ∀ outcome, ∃ w', w.invokeStep c runtime token (.outcome outcome) = some w')
      ∧ (w.stage c ≠ .invoking → ∃ w', w.invokeStep c runtime token .go = some w') := by
  refine ⟨fun hs outcome => ?_, fun hs => ?_⟩
  · simp only [invokeStep, hs]
    exact ⟨_, rfl⟩
  · cases hstage : w.stage c with
    | locked | checked | finishing _ =>
        simp only [invokeStep, hstage]
        split <;> exact ⟨_, rfl⟩
    | acquired | invoked _ | unlocking _ =>
        simp only [invokeStep, hstage]
        exact ⟨_, rfl⟩
    | invoking => exact absurd hstage hs
    | start | bound | waiting | timedOut | unloading | unloaded _ | done _ =>
        rw [hstage] at h
        cases h

/-- What a thread does to a lock that another call holds: nothing. -/
theorem step_keeps_lock (horder : Orderly w) {c : Nat} (hc : w.executor = some c)
    {move : SessionMove} (hmove : move.run calls owner w = some w')
    (hne : ∀ choice, move ≠ .call c choice) : w'.executor = some c ∧ w'.stage c = w.stage c := by
  cases move with
  | load success =>
      exact ⟨(loadStep_executor hmove).trans hc, by rw [(loadStep_same hmove).1]⟩
  | call c' choice =>
      replace hmove : w.callStep calls c' choice = some w' := hmove
      have hother : c ≠ c' := fun he => hne choice (by rw [he])
      refine ⟨?_, (callStep_other hmove hother).1⟩
      unfold callStep at hmove
      split at hmove
      · rcases invokeStep_lock hmove with ⟨_, hfree, _⟩ | ⟨reply, hstage, _⟩ | ⟨hexecutor, _⟩
        · rw [hc] at hfree
          cases hfree
        · have hholder := horder.executor c' (by rw [hstage]; rfl)
          exact absurd (Option.some.inj (hc.symm.trans hholder)) hother
        · exact hexecutor.trans hc
      · exact (unloadStep_lock hmove).1.trans hc
  | cancel token =>
      obtain rfl := Option.some.inj hmove
      exact ⟨hc, rfl⟩

/-! ## The state -/

/-- **Where an invocation changes the session's state**: as it begins to run and as it ends. -/
theorem invokeStep_state {c runtime token : Nat} {choice : Choice}
    (hstep : w.invokeStep c runtime token choice = some w') :
    w'.state = w.state
      ∨ (w.stage c = .checked ∧ w.state = .ready ∧ w'.state = .running ∧ w'.stage c = .acquired
        ∧ (w'.track c).entered = true)
      ∨ ∃ reply, w.stage c = .finishing reply ∧ w.state = .running ∧ w'.state = reply.leaves
        ∧ w'.stage c = .unlocking reply ∧ (w'.track c).entered = (w.track c).entered := by
  unfold invokeStep at hstep
  split at hstep
  case h_7 =>
    rename_i hs
    split at hstep <;> cases hstep
    · rename_i ht
      obtain ⟨hready, rfl⟩ := transition_some ht
      refine .inr (.inl ⟨hs, List.mem_singleton.mp hready, rfl, ?_, ?_⟩)
      · rw [goto_stage, Function.update_self]
      · rw [goto_track, note_track, Function.update_self]
    · exact .inl rfl
  case h_11 =>
    rename_i reply hs
    split at hstep <;> cases hstep
    · rename_i ht
      obtain ⟨hrunning, rfl⟩ := transition_some ht
      refine .inr (.inr ⟨reply, hs, List.mem_singleton.mp hrunning, rfl, ?_, ?_⟩)
      · rw [goto_stage, Function.update_self]
      · rw [goto_track, note_track, Function.update_self]
    · exact .inl rfl
  all_goals try split at hstep
  all_goals cases hstep
  all_goals exact .inl rfl

/-- A call that has begun to run stays one that has. -/
theorem entered_step {c : Nat} (h : (w.track c).entered = true)
    (hstep : (sessionSystem calls owner).step w w') : (w'.track c).entered = true := by
  -- a note of the call itself never takes `entered` back; other calls are left alone
  have hnote : ∀ {w₁ : SessionWorld} {c' : Nat} {track : Track} {stage : Stage},
      w₁.track = w.track → ((w.track c').entered = true → track.entered = true) →
      ((goto (note w₁ c' track) c' stage).track c).entered = true := by
    intro w₁ c' track stage htrack hentered
    change (Function.update w₁.track c' track c).entered = true
    rw [htrack]
    by_cases he : c = c'
    · rw [he, Function.update_self]
      exact hentered (he ▸ h)
    · rw [Function.update_of_ne he]
      exact h
  obtain ⟨move, hmove⟩ := hstep
  cases move with
  | load success =>
      unfold SessionMove.run loadStep at hmove
      dsimp only at hmove
      split at hmove
      case h_2 | h_4 =>
        obtain ⟨w₁, ht, rfl⟩ := Option.map_eq_some_iff.mp hmove
        obtain ⟨_, rfl⟩ := transition_some ht
        exact h
      all_goals cases hmove
      all_goals exact h
  | call c' choice =>
      replace hmove : w.callStep calls c' choice = some w' := hmove
      unfold callStep at hmove
      -- the stages of `invoke` that note something, and then all others
      split at hmove
      · unfold invokeStep at hmove
        split at hmove
        case h_3 =>
          split at hmove <;> cases hmove
          exact hnote rfl fun hh => hh
        case h_7 =>
          split at hmove <;> cases hmove
          · rename_i ht
            obtain ⟨_, rfl⟩ := transition_some ht
            exact hnote rfl fun _ => rfl
          · exact h
        case h_11 =>
          split at hmove <;> cases hmove
          · rename_i ht
            obtain ⟨_, rfl⟩ := transition_some ht
            exact hnote rfl fun hh => hh
          · exact h
        case h_12 =>
          cases hmove
          exact hnote rfl fun hh => hh
        all_goals try split at hmove
        all_goals cases hmove
        all_goals exact h
      · unfold unloadStep at hmove
        split at hmove
        case h_2 | h_4 =>
          split at hmove <;> cases hmove
          · rename_i ht
            obtain ⟨_, rfl⟩ := transition_some ht
            exact h
          · exact h
        all_goals try split at hmove
        all_goals cases hmove
        all_goals exact h
  | cancel token =>
      obtain rfl := Option.some.inj hmove
      exact h

theorem entered_runs {c : Nat} (h : (w.track c).entered = true)
    (hruns : (sessionSystem calls owner).Runs w w') : (w'.track c).entered = true := by
  induction hruns with
  | refl => exact h
  | tail _ hstep ih => exact entered_step ih hstep

/-! ## Cancelled callers -/

/-- The stages an invocation goes through when its token is cancelled while it waits. -/
def Stage.turned : Stage → Bool
  | .start | .bound | .waiting | .timedOut | .locked => true
  | .unlocking reply => reply == .cancelled
  | .done reply => reply.refused
  | _ => false

theorem turned_step {c runtime token : Nat} {choice : Choice} (hc : w.cancelled token = true)
    (ht : (w.stage c).turned = true) (hstep : w.invokeStep c runtime token choice = some w') :
    w'.state = w.state ∧ (w'.stage c).turned = true := by
  have hgoto : ∀ (w₁ : SessionWorld) {stage : Stage}, w₁.state = w.state → stage.turned = true →
      (goto w₁ c stage).state = w.state ∧ ((goto w₁ c stage).stage c).turned = true :=
    fun w₁ stage hstate hturned => ⟨hstate, by rw [goto_stage, Function.update_self]; exact hturned⟩
  unfold invokeStep at hstep
  split at hstep
  case h_1 => split at hstep <;> cases hstep <;> exact hgoto _ rfl rfl
  case h_3 =>
    split at hstep <;> cases hstep
    exact hgoto _ rfl rfl
  case h_4 => cases hstep; exact hgoto _ rfl rfl
  case h_2 | h_5 | h_6 =>
    -- the token is looked at, and it is cancelled
    rw [if_pos hc] at hstep
    cases hstep
    exact hgoto _ rfl rfl
  case h_12 =>
    rename_i reply hs
    rw [hs] at ht
    obtain rfl : reply = .cancelled := by simpa [Stage.turned] using ht
    cases hstep
    exact hgoto _ rfl rfl
  case h_13 => cases hstep
  all_goals
    rename_i hs
    rw [hs] at ht
    exact nomatch ht

/-- Other threads do not bring a cancelled caller back. -/
theorem turned_runs {c runtime token : Nat} (hcall : calls c = .invoke runtime token)
    (hc : w.cancelled token = true) (ht : (w.stage c).turned = true)
    (hruns : (sessionSystem calls owner).Runs w w') :
    w'.cancelled token = true ∧ (w'.stage c).turned = true := by
  induction hruns with
  | refl => exact ⟨hc, ht⟩
  | @tail w₁ w₂ _ hstep ih =>
      obtain ⟨hc, ht⟩ := ih
      obtain ⟨move, hmove⟩ := hstep
      cases move with
      | load success =>
          have hsame := loadStep_same hmove
          rw [hsame.1, hsame.2]
          exact ⟨hc, ht⟩
      | call c' choice =>
          replace hmove : w₁.callStep calls c' choice = some w₂ := hmove
          by_cases hne : c = c'
          · subst hne
            unfold callStep at hmove
            rw [hcall] at hmove
            obtain ⟨w₃, stage, rfl, _, hcancelled⟩ := invokeStep_goto hmove
            exact ⟨by rw [show (goto w₃ c stage).cancelled = w₁.cancelled from hcancelled]; exact hc,
              (turned_step hc ht hmove).2⟩
          · obtain ⟨hstage, hcancelled⟩ := callStep_other hmove hne
            rw [hstage, hcancelled]
            exact ⟨hc, ht⟩
      | cancel token' =>
          obtain rfl := Option.some.inj hmove
          refine ⟨?_, ht⟩
          show Function.update w₁.cancelled token' true token = true
          by_cases he : token = token'
          · rw [he, Function.update_self]
          · rw [Function.update_of_ne he]
            exact hc

/-! ## Single flight -/

/-- The stages of an invocation that has not looked at its token under the lock yet. -/
def Stage.waits : Stage → Bool
  | .start | .bound | .waiting | .timedOut | .locked => true
  | _ => false

theorem Stage.waits_turned {stage : Stage} (h : stage.waits = true) : stage.turned = true := by
  cases stage <;> first | rfl | exact absurd h (by simp [Stage.waits])

/-- What the runtime promises of a session and its calls. -/
structure SingleFlight (calls : Nat → SessionCall) (owner : Nat) (w : SessionWorld) : Prop where
  /-- One `adapter.invoke` at a time. -/
  one : ∀ c c', w.stage c = .invoking → w.stage c' = .invoking → c = c'
  /-- No `adapter.unload` during an `adapter.invoke`. -/
  apart : ∀ c c', w.stage c = .invoking → w.stage c' ≠ .unloading
  /-- One successful `adapter.unload` at most. -/
  once : w.unloads ≤ 1
  /-- An adapter runs in a session that was `READY` when its call took it, is `RUNNING` since, and
  was never `FAILED` or unloaded. -/
  up : ∀ c, w.stage c = .invoking → w.state = .running ∧ w.ended = false
  enters : ∀ c choice w', w.callStep calls c choice = some w' →
    (w'.stage c = .invoking → w.stage c = .acquired)
      ∧ (w'.stage c = .acquired → w.state = .ready ∧ w'.state = .running)
  /-- A caller cancelled while it waits never gets to the adapter, and none of its steps changes the
  session's state. -/
  cancelled : ∀ c runtime token, calls c = .invoke runtime token → w.cancelled token = true →
    (w.stage c).waits = true → ∀ w', (sessionSystem calls owner).Runs w w' →
      w'.stage c ≠ .acquired ∧ w'.stage c ≠ .invoking
        ∧ ∀ choice w'', w'.callStep calls c choice = some w'' → w''.state = w'.state
  /-- The execution lock belongs to the invocation that acquired it and has not released it. -/
  lock : ∀ c, w.executor = some c ↔ (w.stage c).holds = true
  /-- That invocation can go on, whatever its adapter does, and each of its steps brings it nearer
  to the release. -/
  goesOn : ∀ c, w.executor = some c →
    (w.stage c = .invoking →
        ∀ outcome, ∃ w', w.callStep calls c (.outcome outcome) = some w')
      ∧ (w.stage c ≠ .invoking → ∃ w', w.callStep calls c .go = some w')
      ∧ ∀ choice w', w.callStep calls c choice = some w' →
        (w'.stage c).ahead < (w.stage c).ahead
          ∧ (w'.executor = some c ∨ ∃ reply, w.stage c = .unlocking reply)
  /-- No other thread moves it or takes the lock from it. -/
  kept : ∀ c, w.executor = some c → ∀ move w', SessionMove.run calls owner move w = some w' →
    (∀ choice, move ≠ .call c choice) → w'.executor = some c ∧ w'.stage c = w.stage c
  /-- Its last step is the release. -/
  unlocks : ∀ c reply, w.stage c = .unlocking reply → ∃ w', w.callStep calls c .go = some w'
    ∧ w'.stage c = .done reply ∧ w'.executor = none ∧ w'.state = w.state
  /-- An invocation changes the session's state as it begins to run, and as it ends: to `READY` or
  `FAILED`, by its reply. -/
  steady : ∀ c runtime token, calls c = .invoke runtime token →
    ∀ choice w', w.callStep calls c choice = some w' → w'.state = w.state
      ∨ (w.stage c = .checked ∧ w.state = .ready ∧ w'.state = .running ∧ w'.stage c = .acquired)
      ∨ ∃ reply, w.stage c = .finishing reply ∧ w.state = .running ∧ w'.state = reply.leaves
        ∧ w'.stage c = .unlocking reply
  finishes : ∀ c reply, w.stage c = .finishing reply → ∃ w', w.callStep calls c .go = some w'
    ∧ w'.state = reply.leaves ∧ w'.stage c = .unlocking reply
  /-- An invocation that has not begun to run has changed the session's state at no step of its
  own. -/
  idle : ∀ c runtime token, calls c = .invoke runtime token →
    ∀ choice w₁, w.callStep calls c choice = some w₁ →
      ∀ w', (sessionSystem calls owner).Runs w₁ w' → (w'.track c).entered = false →
        w₁.state = w.state
  /-- An invocation that acquired the execution lock released it once. If it ran, it left the session
  `READY` or `FAILED`, by its reply; if it did not, it was cancelled or found the session not
  `READY`. -/
  released : ∀ c reply, w.stage c = .done reply →
    (w.track c).acquired = (w.track c).released ∧ (w.track c).acquired ≤ 1
      ∧ ((w.track c).entered = true → (w.track c).left = some reply.leaves)
      ∧ ((w.track c).entered = false → (w.track c).left = none
        ∧ ((w.track c).acquired = 1 → reply.refused = true))

/-- The end of an invocation, out of a session that is `RUNNING` until then. -/
theorem invokeStep_finishes (h : Orderly w) {c : Nat} {reply : Reply}
    (hc : w.stage c = .finishing reply) (runtime token : Nat) :
    ∃ w', w.invokeStep c runtime token .go = some w'
      ∧ w'.state = reply.leaves ∧ w'.stage c = .unlocking reply := by
  have hrunning : w.state ∈ [SessionState.running] := by
    rw [h.running c (by rw [hc]; rfl)]
    exact List.mem_singleton.mpr rfl
  simp only [invokeStep, hc, transition, if_pos hrunning]
  exact ⟨_, rfl, rfl, by rw [goto_stage, Function.update_self]⟩

/-- **Single flight.** Under every interleaving of invocations, unloads and cancellations, and for
everything an adapter does. -/
theorem single_flight (calls : Nat → SessionCall) (owner : Nat) (w : SessionWorld)
    (hw : (sessionSystem calls owner).Reachable w) : SingleFlight calls owner w := by
  have h := orderly_reachable hw
  have hheld := held_reachable hw
  have hruns : ∀ c, w.stage c = .invoking → w.state = .running := fun c hc =>
    h.running c (by rw [hc]; rfl)
  -- who holds the lock is an invocation
  have hinvoke : ∀ {c}, (w.stage c).holds = true → ∃ runtime token, ∀ choice,
      w.callStep calls c choice = w.invokeStep c runtime token choice := fun {c} hc => by
    obtain ⟨runtime, token, hcall⟩ := hheld.invokes c hc
    exact ⟨runtime, token, fun choice => by rw [callStep, hcall]⟩
  exact {
    one := fun c c' hc hc' => by
      have hsame := (h.executor c (by rw [hc]; rfl)).symm.trans (h.executor c' (by rw [hc']; rfl))
      exact Option.some.inj hsame
    apart := fun c c' hc hc' => by
      have hstate := (hruns c hc).symm.trans (h.unloading c' (by rw [hc']; rfl))
      exact nomatch hstate
    once := by
      rcases h.unloads with hzero | ⟨hone, _⟩ <;> omega
    up := fun c hc => ⟨hruns c hc, (h.fresh (.inr (hruns c hc))).1⟩
    enters := fun c choice w' hstep => callStep_enters hstep
    cancelled := fun c runtime token hcall hc hwaits w' hr => by
      obtain ⟨hc', ht'⟩ := turned_runs hcall hc (Stage.waits_turned hwaits) hr
      refine ⟨fun hs => ?_, fun hs => ?_, fun choice w'' hstep => ?_⟩
      · rw [hs] at ht'
        exact nomatch ht'
      · rw [hs] at ht'
        exact nomatch ht'
      · unfold callStep at hstep
        rw [hcall] at hstep
        exact (turned_step hc' ht' hstep).1
    lock := fun c => ⟨hheld.holder c, h.executor c⟩
    goesOn := fun c hc => by
      have hholds := hheld.holder c hc
      obtain ⟨runtime, token, hcall⟩ := hinvoke hholds
      simp only [hcall]
      refine ⟨(invokeStep_goesOn hholds runtime token).1, (invokeStep_goesOn hholds runtime token).2,
        fun choice w' hstep => ?_⟩
      rcases invokeStep_lock hstep with ⟨hstage, _⟩ | ⟨reply, hstage, _, hdone⟩
          | ⟨hexecutor, _, hahead⟩
      · rw [hstage] at hholds
        cases hholds
      · rw [hstage, hdone]
        exact ⟨Nat.one_pos, .inr ⟨reply, rfl⟩⟩
      · exact ⟨hahead hholds, .inl (hexecutor.trans hc)⟩
    kept := fun c hc move w' hmove hne => step_keeps_lock h hc hmove hne
    unlocks := fun c reply hc => by
      obtain ⟨runtime, token, hcall⟩ := hinvoke (show (w.stage c).holds = true by rw [hc]; rfl)
      rw [hcall]
      simp only [invokeStep, hc]
      exact ⟨_, rfl, by rw [goto_stage, Function.update_self], rfl, rfl⟩
    steady := fun c runtime token hcall choice w' hstep => by
      rw [callStep, hcall] at hstep
      rcases invokeStep_state hstep with hsame | ⟨hc, hs, hs', hc', _⟩ | ⟨reply, hc, hs, hs', hc', _⟩
      · exact .inl hsame
      · exact .inr (.inl ⟨hc, hs, hs', hc'⟩)
      · exact .inr (.inr ⟨reply, hc, hs, hs', hc'⟩)
    finishes := fun c reply hc => by
      obtain ⟨runtime, token, hcall⟩ := hinvoke (show (w.stage c).holds = true by rw [hc]; rfl)
      rw [hcall]
      exact invokeStep_finishes h hc runtime token
    idle := fun c runtime token hcall choice w₁ hstep w' hr hentered => by
      have hnever : (w₁.track c).entered ≠ true := fun he => by
        rw [entered_runs he hr] at hentered
        cases hentered
      rw [callStep, hcall] at hstep
      rcases invokeStep_state hstep with hsame | ⟨_, _, _, _, he⟩ | ⟨reply, hc, _, _, _, he⟩
      · exact hsame
      · exact absurd he hnever
      · -- an invocation that ends has begun to run
        have hhistory := h.history c
        rw [hc] at hhistory
        have hhistory : w.track c = ⟨1, 0, true, none⟩ := hhistory
        exact absurd (he.trans (by rw [hhistory])) hnever
    released := fun c reply hc => by
      have hhistory := h.history c
      rw [hc] at hhistory
      rcases hhistory with htrack | ⟨htrack, hrefused⟩ | htrack <;> rw [htrack]
      · exact ⟨rfl, Nat.le_refl _, fun _ => rfl, fun hh => nomatch hh⟩
      · exact ⟨rfl, Nat.le_refl _, fun hh => (nomatch hh), fun _ => ⟨rfl, fun _ => hrefused⟩⟩
      · exact ⟨rfl, Nat.zero_le _, fun hh => (nomatch hh), fun _ => ⟨rfl, fun hh => nomatch hh⟩⟩ }

/-! ## Two runs -/

/-- The world after a list of moves. -/
def SessionWorld.play (calls : Nat → SessionCall) (owner : Nat) :
    List SessionMove → SessionWorld → Option SessionWorld
  | [], w => some w
  | move :: moves, w => (move.run calls owner w).bind (play calls owner moves)

theorem play_runs : ∀ {moves : List SessionMove} {w w' : SessionWorld},
    w.play calls owner moves = some w' → (sessionSystem calls owner).Runs w w' := by
  intro moves
  induction moves with
  | nil =>
      intro w w' h
      obtain rfl := Option.some.inj h
      exact .refl
  | cons move moves ih =>
      intro w w' h
      obtain ⟨w₁, hmove, hrest⟩ := Option.bind_eq_some_iff.mp h
      exact .head ⟨move, hmove⟩ (ih hrest)

/-- Call 0 unloads the session, and every other call invokes its adapter. -/
def unloadThenInvoke (c : Nat) : SessionCall := if c = 0 then .unload 7 else .invoke 7 c

/-- The session is loaded. -/
def loadMoves : List SessionMove := [.load true, .load true, .load true, .load true]

/-- Call 1 is inside `adapter.invoke` while calls 2 and 3 wait for the lock and the token of 3 is
cancelled. -/
def overlapMoves : List SessionMove :=
  [.call 1 .go, .call 1 .go, .call 1 .go, .call 1 .go, .call 1 .go, .call 1 .go,
    .call 2 .go, .call 2 .go, .call 3 .go, .call 3 .go, .call 2 .timeout, .cancel 3]

/-- Call 1 returns, call 3 goes away, the adapter fails under call 2, and the session is unloaded. -/
def endingMoves : List SessionMove :=
  [.call 1 (.outcome (.result true true)), .call 1 .go, .call 1 .go, .call 1 .go,
    .call 3 .go, .call 3 .go, .call 3 .go,
    .call 2 .go, .call 2 .go, .call 2 .go, .call 2 .go, .call 2 .go,
    .call 2 (.outcome .exception), .call 2 .go, .call 2 .go, .call 2 .go,
    .call 0 .go, .call 0 .go, .call 0 (.unloads true), .call 0 .go]

def overlapWorld : Option SessionWorld :=
  SessionWorld.start.play unloadThenInvoke 7 (loadMoves ++ overlapMoves)

def endedWorld : Option SessionWorld :=
  SessionWorld.start.play unloadThenInvoke 7 (loadMoves ++ overlapMoves ++ endingMoves)

/-- An invocation during which another one waits and a third one is cancelled, and what becomes of
the three. -/
theorem single_flight_overlapped :
    (∃ w, overlapWorld = some w ∧ SingleFlight unloadThenInvoke 7 w
      ∧ w.stage 1 = .invoking ∧ w.stage 2 = .timedOut ∧ w.stage 3 = .waiting
      ∧ w.cancelled 3 = true)
    ∧ ∃ w, endedWorld = some w ∧ SingleFlight unloadThenInvoke 7 w
      ∧ w.stage 1 = .done .returned ∧ w.stage 2 = .done .execution ∧ w.stage 3 = .done .cancelled
      ∧ (w.track 3).acquired = 1 ∧ w.unloads = 1 := by
  have hreach : ∀ {moves w}, SessionWorld.start.play unloadThenInvoke 7 moves = some w →
      (sessionSystem unloadThenInvoke 7).Reachable w := fun hw =>
    (System.Reachable.of_init rfl).runs (play_runs hw)
  constructor
  · obtain ⟨w, hw⟩ := Option.isSome_iff_exists.mp (show overlapWorld.isSome = true by decide)
    have hrun : overlapWorld.map (fun w => (w.stage 1, w.stage 2, w.stage 3, w.cancelled 3))
        = some (.invoking, .timedOut, .waiting, true) := by decide
    rw [hw] at hrun
    simp only [Option.map_some, Option.some.injEq, Prod.mk.injEq] at hrun
    exact ⟨w, hw, single_flight unloadThenInvoke 7 w (hreach hw), hrun⟩
  · obtain ⟨w, hw⟩ := Option.isSome_iff_exists.mp (show endedWorld.isSome = true by decide)
    have hrun : endedWorld.map (fun w => (w.stage 1, w.stage 2, w.stage 3, (w.track 3).acquired,
        w.unloads)) = some (.done .returned, .done .execution, .done .cancelled, 1, 1) := by decide
    rw [hw] at hrun
    simp only [Option.map_some, Option.some.injEq, Prod.mk.injEq] at hrun
    exact ⟨w, hw, single_flight unloadThenInvoke 7 w (hreach hw), hrun⟩

/-- The session is unloaded, and call 1 invokes it. -/
def refusedMoves : List SessionMove :=
  [.call 0 .go, .call 0 .go, .call 0 (.unloads true), .call 0 .go,
    .call 1 .go, .call 1 .go, .call 1 .go, .call 1 .go, .call 1 .go, .call 1 .go]

def refusedWorld : Option SessionWorld :=
  SessionWorld.start.play unloadThenInvoke 7 (loadMoves ++ refusedMoves)

/-- **An invocation of an unloaded session.** It acquired the lock and raised, and the session is
`UNLOADED`, not `FAILED`. -/
theorem single_flight_unloaded : ∃ w, (sessionSystem unloadThenInvoke 7).Reachable w
    ∧ w.stage 1 = .done .sessionState ∧ (w.track 1).acquired = 1 ∧ w.state = .unloaded := by
  obtain ⟨w, hw⟩ := Option.isSome_iff_exists.mp (show refusedWorld.isSome = true by decide)
  have hrun : refusedWorld.map (fun w => (w.stage 1, (w.track 1).acquired, w.state))
      = some (.done .sessionState, 1, .unloaded) := by decide
  rw [hw] at hrun
  obtain ⟨hstage, hrest⟩ := Prod.mk.inj (Option.some.inj hrun)
  obtain ⟨hacquired, hstate⟩ := Prod.mk.inj hrest
  exact ⟨w, (System.Reachable.of_init rfl).runs (play_runs hw), hstage, hacquired, hstate⟩

end NanoAural
