import NanoAural.Runtime.EmbeddedOwner

/-!
# The life of an embedded runtime

Two sets of threads carry the argument: those between lease and release, which the
active count counts, and the one thread, if any, that has set `_closing`. A thread
that is past the wait for the invocations is that one, and the first set is empty
until it has finished; so nothing runs beside `runtime.close`. A thread that sleeps
has something to sleep for, which is why no notification is lost.
-/

namespace NanoAural

namespace EmbeddedOwner

open Machine OwnerWorld

variable {w w' : OwnerWorld} {i : Nat}

/-! ## Stages -/

/-- Between lease and release. -/
def OwnerStage.leases : OwnerStage → Bool
  | .leased | .invoking | .releasing => true
  | _ => false

/-- In `close`, having set `_closing`. -/
def OwnerStage.closes : OwnerStage → Bool
  | .awaitInvocations _ | .unloading _ | .unloadFailed | .unloaded => true
  | _ => false

/-- Past the wait for the invocations. -/
def OwnerStage.drained : OwnerStage → Bool
  | .unloading _ | .unloadFailed | .unloaded => true
  | _ => false

/-- In `close`. -/
def OwnerStage.pending : OwnerStage → Bool
  | .awaitClose _ => true
  | stage => stage.closes

theorem OwnerStage.drained_closes {s : OwnerStage} (h : s.drained = true) : s.closes = true := by
  cases s <;> first | rfl | cases h

theorem OwnerStage.leases_closes {s : OwnerStage} (h : s.leases = true) : s.closes = false := by
  cases s <;> first | rfl | cases h

@[simp] theorem OwnerStage.wake_leases (s : OwnerStage) : s.wake.leases = s.leases := by
  cases s <;> rfl

@[simp] theorem OwnerStage.wake_closes (s : OwnerStage) : s.wake.closes = s.closes := by
  cases s <;> rfl

@[simp] theorem OwnerStage.wake_drained (s : OwnerStage) : s.wake.drained = s.drained := by
  cases s <;> rfl

theorem OwnerStage.wake_unloading {s : OwnerStage} {runtime : Option Nat}
    (h : s.wake = .unloading runtime) : s = .unloading runtime := by
  cases s <;> first | exact h | cases h

theorem OwnerStage.wake_unloaded {s : OwnerStage} (h : s.wake = .unloaded) : s = .unloaded := by
  cases s <;> first | rfl | cases h

/-- Whoever was notified is not asleep. -/
theorem OwnerStage.wake_awake (s : OwnerStage) :
    s.wake ≠ .awaitClose false ∧ s.wake ≠ .awaitInvocations false := by
  cases s <;> exact ⟨fun h => (by cases h), fun h => (by cases h)⟩

/-! ## Who leases and who closes -/

/-- What holds of a thread at a stage, with these threads between lease and release and this one
closing. -/
structure Fits (w : OwnerWorld) (leasing : Finset Nat) (closer : Option Nat) (i : Nat)
    (s : OwnerStage) : Prop where
  leases : s.leases = true ↔ i ∈ leasing
  closes : s.closes = true ↔ closer = some i
  drained : s.drained = true → leasing = ∅
  held : ∀ runtime, s = .unloading runtime → w.runtime = runtime
  notified : s = .awaitClose false → w.closing = true
  busy : s = .awaitInvocations false → leasing ≠ ∅

/-- The threads agree with the owner's fields. -/
structure Coordinated (w : OwnerWorld) (leasing : Finset Nat) (closer : Option Nat) : Prop where
  active : w.activeInvocations = leasing.card
  closing : w.closing = closer.isSome
  threads : ∀ i, Fits w leasing closer i (w.stage i)

variable {leasing : Finset Nat} {closer : Option Nat}

theorem Coordinated.closer_eq (h : Coordinated w leasing closer)
    (hs : (w.stage i).closes = true) : closer = some i := (h.threads i).closes.mp hs

theorem Coordinated.no_closer (h : Coordinated w leasing closer) (hclosing : w.closing = false) :
    closer = none := by
  have hsome := h.closing
  rw [hclosing] at hsome
  exact Option.isSome_eq_false_iff.mp hsome.symm |> Option.isNone_iff_eq_none.mp

/-- A thread comes to a stage that fits, where every other thread fits. -/
theorem coordinated_goto {s : OwnerStage} (hactive : w.activeInvocations = leasing.card)
    (hclosing : w.closing = closer.isSome)
    (hothers : ∀ j, j ≠ i → Fits w leasing closer j (w.stage j)) (hs : Fits w leasing closer i s) :
    Coordinated (w.goto i s) leasing closer := by
  refine ⟨hactive, hclosing, fun j => ?_⟩
  change Fits _ _ _ j (Function.update w.stage i s j)
  by_cases hj : j = i
  · subst hj
    rw [Function.update_self]
    exact ⟨hs.leases, hs.closes, hs.drained, hs.held, hs.notified, hs.busy⟩
  · rw [Function.update_of_ne hj]
    have hold := hothers j hj
    exact ⟨hold.leases, hold.closes, hold.drained, hold.held, hold.notified, hold.busy⟩

theorem Coordinated.goto (h : Coordinated w leasing closer) {s : OwnerStage}
    (hs : Fits w leasing closer i s) : Coordinated (w.goto i s) leasing closer :=
  coordinated_goto h.active h.closing (fun j _ => h.threads j) hs

theorem Coordinated.note (h : Coordinated w leasing closer) (event : OwnerEvent) :
    Coordinated (w.note event) leasing closer :=
  ⟨h.active, h.closing, fun j =>
    have hold := h.threads j
    ⟨hold.leases, hold.closes, hold.drained, hold.held, hold.notified, hold.busy⟩⟩

theorem coordinated_enter (h : Coordinated w leasing closer) (hclosing : w.closing = false)
    (hstage : w.stage i = .idle) {runtime : Option Nat} :
    Coordinated ({ w with runtime := runtime }.enter i) (Insert.insert i leasing) closer := by
  have hi : i ∉ leasing := fun hmem => by
    have := (h.threads i).leases.mpr hmem
    rw [hstage] at this
    cases this
  have hnone := h.no_closer hclosing
  refine ⟨?_, h.closing, fun j => ?_⟩
  · change w.activeInvocations + 1 = _
    rw [Finset.card_insert_of_notMem hi, h.active]
    rfl
  · change Fits _ _ _ j (Function.update w.stage i .leased j)
    have hold := h.threads j
    have hcloses : (w.stage j).closes = false := by
      by_contra hc
      have := hold.closes.mp (Bool.not_eq_false _ ▸ hc)
      rw [hnone] at this
      cases this
    by_cases hj : j = i
    · subst hj
      rw [Function.update_self]
      refine ⟨⟨fun _ => Finset.mem_insert_self _ _, fun _ => rfl⟩, ⟨fun hc => (by cases hc), fun hc => ?_⟩,
        fun hc => (by cases hc), fun _ hc => (by cases hc), fun hc => (by cases hc),
        fun hc => (by cases hc)⟩
      rw [hnone] at hc
      cases hc
    · rw [Function.update_of_ne hj]
      refine ⟨?_, hold.closes, fun hc => ?_, fun r hc => ?_, hold.notified, fun hc => ?_⟩
      · rw [hold.leases, Finset.mem_insert]
        exact ⟨.inr, fun hm => hm.resolve_left hj⟩
      · rw [OwnerStage.drained_closes hc] at hcloses
        cases hcloses
      · rw [hc] at hcloses
        cases hcloses
      · rw [hc] at hcloses
        cases hcloses

/-- **An invocation ends.** Everyone who waited is awake. -/
theorem coordinated_release (h : Coordinated w leasing closer) (hstage : w.stage i = .releasing) :
    Coordinated (w.release i) (leasing.erase i) closer := by
  have hi : i ∈ leasing := (h.threads i).leases.mp (by rw [hstage]; rfl)
  have hpos : 0 < leasing.card := Finset.card_pos.mpr ⟨i, hi⟩
  refine ⟨?_, h.closing, fun j => ?_⟩
  · change w.activeInvocations - 1 = _
    rw [Finset.card_erase_of_mem hi, h.active]
    omega
  · change Fits _ _ _ j (Function.update (fun j => (w.stage j).wake) i .idle j)
    have hold := h.threads j
    by_cases hj : j = i
    · subst hj
      rw [hstage] at hold
      rw [Function.update_self]
      refine ⟨⟨fun hc => (by cases hc), fun hc => absurd hc (Finset.notMem_erase _ _)⟩, ?_,
        fun hc => (by cases hc), fun _ hc => (by cases hc), fun hc => (by cases hc),
        fun hc => (by cases hc)⟩
      exact hold.closes
    · rw [Function.update_of_ne hj]
      refine ⟨?_, ?_, fun hc => ?_, fun r hc => hold.held r (OwnerStage.wake_unloading hc),
        fun hc => absurd hc (OwnerStage.wake_awake _).1,
        fun hc => absurd hc (OwnerStage.wake_awake _).2⟩
      · rw [OwnerStage.wake_leases, hold.leases, Finset.mem_erase]
        exact ⟨fun hm => ⟨hj, hm⟩, And.right⟩
      · rw [OwnerStage.wake_closes]
        exact hold.closes
      · rw [OwnerStage.wake_drained] at hc
        rw [hold.drained hc] at hi
        exact absurd hi (Finset.notMem_empty i)

theorem Coordinated.closer_notMem (h : Coordinated w leasing (some i)) : i ∉ leasing := by
  intro hmem
  have hcloses := (h.threads i).closes.mpr rfl
  rw [OwnerStage.leases_closes ((h.threads i).leases.mpr hmem)] at hcloses
  cases hcloses

/-- The closing thread looks whether invocations are left. -/
theorem coordinated_drain (hactive : w.activeInvocations = leasing.card) (hclosing : w.closing = true)
    (hi : i ∉ leasing) (hothers : ∀ j, j ≠ i → Fits w leasing (some i) j (w.stage j)) :
    Coordinated (w.drain i) leasing (some i) := by
  unfold drain
  by_cases hnone : w.activeInvocations = 0
  · have hempty : leasing = ∅ := by
      rw [hactive] at hnone
      exact Finset.card_eq_zero.mp (by exact_mod_cast hnone)
    rw [if_neg (not_not.mpr hnone)]
    refine coordinated_goto hactive hclosing hothers ⟨⟨fun hc => (by cases hc), fun hc => absurd hc hi⟩,
      ⟨fun _ => rfl, fun _ => rfl⟩, fun _ => hempty, fun r hr => ?_, fun hc => (by cases hc),
      fun hc => (by cases hc)⟩
    cases hr
    rfl
  · rw [if_pos hnone]
    refine coordinated_goto hactive hclosing hothers ⟨⟨fun hc => (by cases hc), fun hc => absurd hc hi⟩,
      ⟨fun _ => rfl, fun _ => rfl⟩, fun hc => (by cases hc), fun _ hc => (by cases hc),
      fun hc => (by cases hc), fun _ hempty => ?_⟩
    rw [hactive, hempty] at hnone
    exact hnone rfl

/-- A closing thread lets go, and everyone who waited is awake. -/
theorem coordinated_letGo (h : Coordinated w leasing (some i)) (runtime : Option Nat)
    (closed : Bool) (reason : Option String) (history : List OwnerEvent)
    (hdrained : (w.stage i).drained = true) :
    Coordinated (({ w with
      runtime := runtime, closed := closed, unsafeReason := reason, history := history,
      closing := false }.notifyAll).goto i .idle) leasing none := by
  have hempty := (h.threads i).drained hdrained
  refine ⟨h.active, rfl, fun j => ?_⟩
  change Fits _ _ _ j (Function.update (fun j => (w.stage j).wake) i .idle j)
  have hold := h.threads j
  by_cases hj : j = i
  · subst hj
    rw [Function.update_self]
    refine ⟨⟨fun hc => (by cases hc), fun hc => ?_⟩, ⟨fun hc => (by cases hc), fun hc => (by cases hc)⟩,
      fun hc => (by cases hc), fun _ hc => (by cases hc), fun hc => (by cases hc),
      fun hc => (by cases hc)⟩
    rw [hempty] at hc
    exact absurd hc (Finset.notMem_empty _)
  · have hcloses : (w.stage j).closes = false := by
      by_contra hc
      have := hold.closes.mp (Bool.not_eq_false _ ▸ hc)
      exact hj (Option.some.inj this).symm
    rw [Function.update_of_ne hj]
    refine ⟨?_, ⟨fun hc => ?_, fun hc => (by cases hc)⟩, fun _ => hempty, fun r hc => ?_,
      fun hc => absurd hc (OwnerStage.wake_awake _).1,
      fun hc => absurd hc (OwnerStage.wake_awake _).2⟩
    · rw [OwnerStage.wake_leases]
      exact hold.leases
    · rw [OwnerStage.wake_closes, hcloses] at hc
      cases hc
    · rw [OwnerStage.wake_unloading hc] at hcloses
      cases hcloses

/-- A thread that neither leases nor closes goes to sleep, or is done. -/
theorem Coordinated.goto_waits (h : Coordinated w leasing closer) {s : OwnerStage}
    (hleases : i ∉ leasing) (hcloses : closer ≠ some i)
    (hs : s = .idle ∨ s = .awaitClose false ∧ w.closing = true) :
    Coordinated (w.goto i s) leasing closer := by
  refine h.goto ?_
  rcases hs with rfl | ⟨rfl, hclosing⟩
  · exact ⟨⟨fun hc => (by cases hc), fun hc => absurd hc hleases⟩,
      ⟨fun hc => (by cases hc), fun hc => absurd hc hcloses⟩, fun hc => (by cases hc),
      fun _ hc => (by cases hc), fun hc => (by cases hc), fun hc => (by cases hc)⟩
  · exact ⟨⟨fun hc => (by cases hc), fun hc => absurd hc hleases⟩,
      ⟨fun hc => (by cases hc), fun hc => absurd hc hcloses⟩, fun hc => (by cases hc),
      fun _ hc => (by cases hc), fun _ => hclosing, fun hc => (by cases hc)⟩

/-- `close`, from its start or after a wait for another. -/
theorem coordinated_tryClose (h : Coordinated w leasing closer)
    (hleases : (w.stage i).leases = false) (hcloses : (w.stage i).closes = false) :
    ∃ closer', Coordinated (w.tryClose i) leasing closer' := by
  have hnoLease : i ∉ leasing := fun hm => by
    have hstage := (h.threads i).leases.mpr hm
    rw [hleases] at hstage
    cases hstage
  have hnoClose : closer ≠ some i := fun hc => by
    have hstage := (h.threads i).closes.mpr hc
    rw [hcloses] at hstage
    cases hstage
  unfold tryClose
  by_cases hclosed : w.closed = true
  · rw [if_pos hclosed]
    exact ⟨closer, (h.note _).goto_waits hnoLease hnoClose (.inl rfl)⟩
  · rw [if_neg hclosed]
    unfold compete
    by_cases hclosing : w.closing = true
    · rw [if_pos hclosing]
      exact ⟨closer, h.goto_waits hnoLease hnoClose (.inr ⟨rfl, hclosing⟩)⟩
    · rw [if_neg hclosing]
      have hnone := h.no_closer (Bool.not_eq_true _ ▸ hclosing)
      subst hnone
      refine ⟨some i, coordinated_drain (w := { w with closing := true }) h.active rfl hnoLease
        fun j hj => ?_⟩
      have hold := h.threads j
      refine ⟨hold.leases, ⟨fun hc => ?_, fun hc => absurd (Option.some.inj hc).symm hj⟩, hold.drained,
        hold.held, fun _ => rfl, hold.busy⟩
      cases hold.closes.mp hc

/-! ## Steps -/

/-- A lease is given. -/
def OwnerWorld.Open (w : OwnerWorld) : Prop :=
  w.closed = false ∧ w.closing = false ∧ w.unsafeReason = none

/-- What a thread can do next. -/
inductive Transition (w : OwnerWorld) (i : Nat) : OwnerWorld → Prop where
  | refused : Transition w i w
  | entered (runtime : Nat) : w.stage i = .idle → w.Open → w.runtime = some runtime →
      Transition w i (w.enter i)
  | built (runtime : Nat) : w.stage i = .idle → w.Open → w.runtime = none →
      Transition w i (({ w with runtime := some runtime }.note (.built runtime)).enter i)
  | called : w.stage i = .leased → Transition w i (w.goto i .invoking)
  | returned : w.stage i = .invoking → Transition w i (w.goto i .releasing)
  | released : w.stage i = .releasing → Transition w i (w.release i)
  | closing : w.stage i = .idle → Transition w i ((w.note .closeBegan).tryClose i)
  | woken : w.stage i = .awaitClose true → Transition w i (w.tryClose i)
  | drained : w.stage i = .awaitInvocations true → Transition w i (w.drain i)
  | nothing : w.stage i = .unloading none → Transition w i (w.goto i .unloaded)
  | unloaded (runtime : Nat) (success : Bool) : w.stage i = .unloading (some runtime) →
      Transition w i ((w.note (.unloaded runtime success)).goto i
        (if success then .unloaded else .unloadFailed))
  | failed : w.stage i = .unloadFailed → Transition w i (w.closeFails i)
  | ended : w.stage i = .unloaded → Transition w i (w.closeEnds i)

theorem lease_transition {factory : Option Nat} (hstage : w.stage i = .idle) :
    Transition w i (w.lease i factory) := by
  unfold lease
  by_cases hclosed : w.closed = true
  · rw [if_pos hclosed]
    exact .refused
  by_cases hclosing : w.closing = true
  · rw [if_neg hclosed, if_pos hclosing]
    exact .refused
  by_cases hunsafe : w.unsafeReason.isSome = true
  · rw [if_neg hclosed, if_neg hclosing, if_pos hunsafe]
    exact .refused
  rw [if_neg hclosed, if_neg hclosing, if_neg hunsafe]
  have hopen : w.Open := ⟨Bool.not_eq_true _ ▸ hclosed, Bool.not_eq_true _ ▸ hclosing,
    Option.not_isSome_iff_eq_none.mp hunsafe⟩
  cases hruntime : w.runtime with
  | some runtime => exact .entered runtime hstage hopen hruntime
  | none =>
      cases factory with
      | some runtime => exact .built runtime hstage hopen hruntime
      | none => exact .refused

/-- **Inversion.** -/
theorem step_transition {choice : Choice} (hstep : w.step i choice = some w') :
    Transition w i w' := by
  unfold OwnerWorld.step at hstep
  split at hstep <;> cases hstep
  · exact lease_transition ‹_›
  · exact .called ‹_›
  · exact .returned ‹_›
  · exact .released ‹_›
  · exact .closing ‹_›
  · exact .woken ‹_›
  · exact .drained ‹_›
  · exact .nothing ‹_›
  · exact .unloaded _ _ ‹_›
  · exact .failed ‹_›
  · exact .ended ‹_›

/-- **Threads agree with the owner's fields** after every step of a thread. -/
theorem Coordinated.transition (h : Coordinated w leasing closer) (hstep : Transition w i w') :
    ∃ leasing' closer', Coordinated w' leasing' closer' := by
  have hfits := h.threads i
  cases hstep with
  | refused => exact ⟨leasing, closer, h⟩
  | entered runtime hstage hopen hruntime =>
      exact ⟨_, closer, coordinated_enter h hopen.2.1 hstage⟩
  | built runtime hstage hopen hruntime =>
      exact ⟨_, closer, coordinated_enter (h.note _) hopen.2.1 hstage⟩
  | called hstage | returned hstage =>
      rw [hstage] at hfits
      exact ⟨leasing, closer, h.goto ⟨hfits.leases, hfits.closes, fun hc => (by cases hc),
        fun _ hc => (by cases hc), fun hc => (by cases hc), fun hc => (by cases hc)⟩⟩
  | released hstage => exact ⟨_, closer, coordinated_release h hstage⟩
  -- who finds a lease or another closer waits, the first without either closes
  | closing hstage =>
      obtain ⟨closer', h'⟩ := coordinated_tryClose (i := i) (h.note .closeBegan)
        (show (w.stage i).leases = false by rw [hstage]; rfl)
        (show (w.stage i).closes = false by rw [hstage]; rfl)
      exact ⟨leasing, closer', h'⟩
  | woken hstage =>
      obtain ⟨closer', h'⟩ := coordinated_tryClose (i := i) h (by rw [hstage]; rfl)
        (by rw [hstage]; rfl)
      exact ⟨leasing, closer', h'⟩
  | drained hstage =>
      have hcloser : closer = some i := h.closer_eq (by rw [hstage]; rfl)
      subst hcloser
      exact ⟨leasing, some i, coordinated_drain h.active h.closing h.closer_notMem
        fun j _ => h.threads j⟩
  | nothing hstage =>
      rw [hstage] at hfits
      exact ⟨leasing, closer, h.goto ⟨hfits.leases, hfits.closes, hfits.drained,
        fun _ hc => (by cases hc), fun hc => (by cases hc), fun hc => (by cases hc)⟩⟩
  | unloaded runtime success hstage =>
      rw [hstage] at hfits
      refine ⟨leasing, closer, (h.note _).goto ?_⟩
      -- whether the runtime unloads does not matter to who holds what
      cases success with
      | true =>
          exact ⟨hfits.leases, hfits.closes, hfits.drained, fun _ hc => (by cases hc),
            fun hc => (by cases hc), fun hc => (by cases hc)⟩
      | false =>
          exact ⟨hfits.leases, hfits.closes, hfits.drained, fun _ hc => (by cases hc),
            fun hc => (by cases hc), fun hc => (by cases hc)⟩
  | failed hstage =>
      have hcloser : closer = some i := h.closer_eq (by rw [hstage]; rfl)
      subst hcloser
      exact ⟨leasing, none, coordinated_letGo h w.runtime w.closed _ w.history (by rw [hstage]; rfl)⟩
  | ended hstage =>
      have hcloser : closer = some i := h.closer_eq (by rw [hstage]; rfl)
      subst hcloser
      exact ⟨leasing, none, coordinated_letGo h none true w.unsafeReason
        (w.history ++ [OwnerEvent.closeReturned]) (by rw [hstage]; rfl)⟩

/-! ## The history -/

/-- The runtimes the factory returned. -/
def built (history : List OwnerEvent) : List Nat :=
  history.filterMap fun
    | .built runtime => some runtime
    | _ => none

/-- The runtimes that were closed successfully, once for each time. -/
def unloads (history : List OwnerEvent) : List Nat :=
  history.filterMap fun
    | .unloaded runtime true => some runtime
    | _ => none

/-- After this no invocation starts. -/
def OwnerEvent.bars : OwnerEvent → Bool
  | .markedUnsafe | .closeBegan | .unloaded _ false => true
  | _ => false

def Barred (history : List OwnerEvent) : Prop := ∃ e ∈ history, e.bars = true

/-- No invocation stands after an event that bars it. -/
def Ordered (history : List OwnerEvent) : Prop :=
  ∀ before e after, history = before ++ e :: after → e.bars = true → ∀ i, .invocation i ∉ after

variable {history : List OwnerEvent} {event : OwnerEvent}

theorem built_append (history later : List OwnerEvent) :
    built (history ++ later) = built history ++ built later := List.filterMap_append

theorem unloads_append (history later : List OwnerEvent) :
    unloads (history ++ later) = unloads history ++ unloads later := List.filterMap_append

theorem barred_append : Barred (history ++ [event]) ↔ Barred history ∨ event.bars = true := by
  unfold Barred
  constructor
  · rintro ⟨e, he, hbars⟩
    rcases List.mem_append.mp he with hold | hnew
    · exact .inl ⟨e, hold, hbars⟩
    · exact .inr (List.mem_singleton.mp hnew ▸ hbars)
  · rintro (⟨e, he, hbars⟩ | hbars)
    · exact ⟨e, List.mem_append_left _ he, hbars⟩
    · exact ⟨event, List.mem_append_right _ List.mem_cons_self, hbars⟩

/-- An event at the end keeps the order, if it is no invocation or nothing bars it. -/
theorem Ordered.append (h : Ordered history)
    (hevent : ∀ i, event = .invocation i → ¬ Barred history) : Ordered (history ++ [event]) := by
  intro before e after heq hbars i hmem
  rcases List.append_eq_append_iff.mp heq with ⟨mid, hbefore, hsplit⟩ | ⟨mid, hhistory, hsplit⟩
  · have hlength := congrArg List.length hsplit
    simp only [List.length_append, List.length_cons, List.length_nil] at hlength
    have hafter : after = [] := List.length_eq_zero_iff.mp (by omega)
    rw [hafter] at hmem
    cases hmem
  · cases mid with
    | nil =>
        rw [List.nil_append] at hsplit
        rw [(List.cons.inj hsplit).2] at hmem
        cases hmem
    | cons e' rest =>
        obtain ⟨rfl, hafter⟩ := List.cons.inj hsplit
        rw [hafter] at hmem
        rcases List.mem_append.mp hmem with hold | hnew
        · exact h before e rest hhistory hbars i hold
        · refine hevent i (List.mem_singleton.mp hnew).symm ⟨e, ?_, hbars⟩
          rw [hhistory]
          exact List.mem_append_right _ List.mem_cons_self

/-- What the history says of the runtime. -/
structure Recorded (w : OwnerWorld) : Prop where
  one : (built w.history).length ≤ 1
  kept : w.closed = false → built w.history = w.runtime.toList
  gone : w.closed = true → w.runtime = none ∧ w.closing = false ∧
    unloads w.history = built w.history
  done : ∀ i, w.stage i = .unloaded → unloads w.history = built w.history
  pending : w.closed = false → (∀ i, w.stage i ≠ .unloaded) → unloads w.history = []
  returned : .closeReturned ∈ w.history → w.closed = true
  tried : ∀ runtime success, .unloaded runtime success ∈ w.history → runtime ∈ built w.history
  order : Ordered w.history

/-- A step that is not recorded and leaves the runtime alone. -/
theorem Recorded.same (h : Recorded w) (hruntime : w'.runtime = w.runtime)
    (hclosed : w'.closed = w.closed) (hclosing : w'.closing = true → w.closed = false)
    (hhistory : w'.history = w.history)
    (hstage : ∀ j, w'.stage j = .unloaded ↔ w.stage j = .unloaded) : Recorded w' := by
  have hquiet : w'.closed = true → w'.closing = false := fun hc => by
    by_contra hbusy
    rw [hclosed, hclosing (Bool.not_eq_false _ ▸ hbusy)] at hc
    cases hc
  refine ⟨?_, fun hc => ?_, fun hc => ⟨?_, hquiet hc, ?_⟩, fun j hj => ?_, fun hc hnone => ?_, ?_, ?_, ?_⟩
  · rw [hhistory]
    exact h.one
  · rw [hhistory, hruntime]
    exact h.kept (hclosed ▸ hc)
  · rw [hruntime]
    exact (h.gone (hclosed ▸ hc)).1
  · rw [hhistory]
    exact (h.gone (hclosed ▸ hc)).2.2
  · rw [hhistory]
    exact h.done j ((hstage j).mp hj)
  · rw [hhistory]
    exact h.pending (hclosed ▸ hc) fun j hj => hnone j ((hstage j).mpr hj)
  · rw [hhistory, hclosed]
    exact h.returned
  · rw [hhistory]
    exact h.tried
  · rw [hhistory]
    exact h.order

/-- An event that is about no runtime. -/
theorem Recorded.note (h : Recorded w) (hbuilt : built [event] = [])
    (hunloaded : ∀ runtime success, event ≠ .unloaded runtime success)
    (hreturned : event = .closeReturned → w.closed = true)
    (hinvocation : ∀ i, event = .invocation i → ¬ Barred w.history) : Recorded (w.note event) := by
  have hunloads : unloads [event] = [] := by
    cases event with
    | unloaded runtime success => exact absurd rfl (hunloaded runtime success)
    | _ => rfl
  have hbuilt' : built (w.history ++ [event]) = built w.history := by
    rw [built_append, hbuilt, List.append_nil]
  have hunloads' : unloads (w.history ++ [event]) = unloads w.history := by
    rw [unloads_append, hunloads, List.append_nil]
  refine ⟨?_, fun hc => ?_, fun hc => ?_, fun j hj => ?_, fun hc hnone => ?_, fun hmem => ?_,
    fun runtime success hmem => ?_, h.order.append hinvocation⟩
  · change (built (w.history ++ [event])).length ≤ 1
    rw [hbuilt']
    exact h.one
  · change built (w.history ++ [event]) = _
    rw [hbuilt']
    exact h.kept hc
  · change _ ∧ _ ∧ unloads (w.history ++ [event]) = built (w.history ++ [event])
    rw [hbuilt', hunloads']
    exact h.gone hc
  · change unloads (w.history ++ [event]) = built (w.history ++ [event])
    rw [hbuilt', hunloads']
    exact h.done j hj
  · change unloads (w.history ++ [event]) = []
    rw [hunloads']
    exact h.pending hc hnone
  · rcases List.mem_append.mp hmem with hold | hnew
    · exact h.returned hold
    · exact hreturned (List.mem_singleton.mp hnew).symm
  · change runtime ∈ built (w.history ++ [event])
    rw [hbuilt']
    rcases List.mem_append.mp hmem with hold | hnew
    · exact h.tried runtime success hold
    · exact absurd (List.mem_singleton.mp hnew).symm (hunloaded runtime success)

/-! ### Fields that a step leaves alone -/

theorem goto_unloaded {s : OwnerStage} (hs : s ≠ .unloaded) (hstage : w.stage i ≠ .unloaded)
    (j : Nat) : (w.goto i s).stage j = .unloaded ↔ w.stage j = .unloaded := by
  change Function.update w.stage i s j = _ ↔ _
  by_cases hj : j = i
  · subst hj
    rw [Function.update_self]
    exact ⟨fun h => absurd h hs, fun h => absurd h hstage⟩
  · rw [Function.update_of_ne hj]

theorem wake_goto_unloaded (hstage : w.stage i ≠ .unloaded) (j : Nat) :
    (w.notifyAll.goto i .idle).stage j = .unloaded ↔ w.stage j = .unloaded := by
  have hwake : ∀ j, (w.stage j).wake = .unloaded ↔ w.stage j = .unloaded := fun j =>
    ⟨OwnerStage.wake_unloaded, fun h => by rw [h]; rfl⟩
  rw [goto_unloaded (by simp) fun h => hstage ((hwake i).mp h)]
  exact hwake j

theorem Recorded.goto (h : Recorded w) {s : OwnerStage} (hs : s ≠ .unloaded)
    (hstage : w.stage i ≠ .unloaded) : Recorded (w.goto i s) := by
  refine h.same rfl rfl (fun hclosing => ?_) rfl (goto_unloaded hs hstage)
  by_contra hclosed
  have hquiet := (h.gone (Bool.not_eq_false _ ▸ hclosed)).2.1
  change w.closing = true at hclosing
  rw [hquiet] at hclosing
  cases hclosing

theorem Recorded.drain (h : Recorded w) (hstage : w.stage i ≠ .unloaded) :
    Recorded (w.drain i) := by
  unfold OwnerWorld.drain
  by_cases hactive : w.activeInvocations = 0
  · rw [if_neg (not_not.mpr hactive)]
    exact h.goto (by simp) hstage
  · rw [if_pos hactive]
    exact h.goto (by simp) hstage

theorem Recorded.tryClose (h : Recorded w) (hstage : w.stage i ≠ .unloaded) :
    Recorded (w.tryClose i) := by
  unfold OwnerWorld.tryClose
  by_cases hclosed : w.closed = true
  · rw [if_pos hclosed]
    exact (h.note rfl (fun _ _ => by simp) (fun _ => hclosed) fun _ hc => (by cases hc)).goto
      (by simp) hstage
  · rw [if_neg hclosed]
    unfold compete
    by_cases hclosing : w.closing = true
    · rw [if_pos hclosing]
      exact h.goto (by simp) hstage
    · rw [if_neg hclosing]
      have hbegun : Recorded { w with closing := true } :=
        h.same rfl rfl (fun _ => Bool.not_eq_true _ ▸ hclosed) rfl fun _ => Iff.rfl
      exact hbegun.drain hstage

theorem Recorded.enter (h : Recorded w) (hopen : w.Open) (hbarred : ¬ Barred w.history)
    (hstage : w.stage i = .idle) : Recorded (w.enter i) := by
  have hnoted : Recorded (w.note (.invocation i)) :=
    h.note rfl (fun _ _ => by simp) (fun hc => (by cases hc)) fun _ _ => hbarred
  refine hnoted.same rfl rfl (fun _ => hopen.1) rfl (goto_unloaded (by simp) ?_)
  change w.stage i ≠ _
  rw [hstage]
  simp

/-- No thread is past `runtime.close` while nothing is being closed. -/
theorem Coordinated.not_unloaded (h : Coordinated w leasing closer) (hcloser : closer ≠ some i) :
    w.stage i ≠ .unloaded := fun hstage =>
  hcloser ((h.threads i).closes.mp (by rw [hstage]; rfl))

/-- The factory has returned a runtime. -/
theorem Recorded.built (h : Recorded w) (hcoordinated : Coordinated w leasing closer)
    (hopen : w.Open) (hruntime : w.runtime = none) (runtime : Nat) :
    Recorded ({ w with runtime := some runtime }.note (.built runtime)) := by
  have hnone : ∀ j, w.stage j ≠ .unloaded := fun j =>
    hcoordinated.not_unloaded (by rw [hcoordinated.no_closer hopen.2.1]; simp)
  have hold : EmbeddedOwner.built w.history = [] := by
    rw [h.kept hopen.1, hruntime]
    rfl
  have hbuilt : EmbeddedOwner.built (w.history ++ [.built runtime]) = [runtime] := by
    rw [built_append, hold]
    rfl
  refine ⟨?_, fun _ => hbuilt, fun hc => ?_, fun j hj => absurd hj (hnone j), fun _ _ => ?_,
    fun hmem => ?_, fun r success hmem => ?_, h.order.append fun _ hc => (by cases hc)⟩
  · exact (congrArg List.length hbuilt).le
  · exact absurd hopen.1 (by rw [show w.closed = true from hc]; simp)
  · change unloads (w.history ++ [.built runtime]) = []
    rw [unloads_append, h.pending hopen.1 hnone]
    rfl
  · rcases List.mem_append.mp hmem with hmem | hmem
    · exact h.returned hmem
    · cases List.mem_singleton.mp hmem
  · rcases List.mem_append.mp hmem with hmem | hmem
    · have hin := h.tried r success hmem
      rw [hold] at hin
      cases hin
    · cases List.mem_singleton.mp hmem

section Closing

variable (h : Recorded w) (hcoordinated : Coordinated w leasing (some i))

include h hcoordinated

/-- A thread closes, so nothing has been closed yet. -/
theorem closed_of_closer : w.closed = false := by
  by_contra hclosed
  have hquiet := (h.gone (Bool.not_eq_false _ ▸ hclosed)).2.1
  rw [hcoordinated.closing] at hquiet
  cases hquiet

theorem unloads_of_closer (hstage : w.stage i ≠ .unloaded) : unloads w.history = [] := by
  refine h.pending (closed_of_closer h hcoordinated) fun j hj => ?_
  have hcloses := (hcoordinated.threads j).closes.mp (by rw [hj]; rfl)
  rw [← Option.some.inj hcloses] at hj
  exact hstage hj

/-- There is no runtime to close. -/
theorem recorded_nothing (hstage : w.stage i = .unloading none) :
    Recorded (w.goto i .unloaded) := by
  have hclosed := closed_of_closer h hcoordinated
  have hruntime : w.runtime = none := (hcoordinated.threads i).held none hstage
  have hunloads := unloads_of_closer h hcoordinated (by rw [hstage]; simp)
  have hbuilt : built w.history = [] := by
    rw [h.kept hclosed, hruntime]
    rfl
  refine ⟨h.one, h.kept, h.gone, fun _ _ => hunloads.trans hbuilt.symm, fun _ _ => hunloads,
    h.returned, h.tried, h.order⟩

/-- `runtime.close` has ended. -/
theorem recorded_unloaded {runtime : Nat} {success : Bool}
    (hstage : w.stage i = .unloading (some runtime)) :
    Recorded ((w.note (.unloaded runtime success)).goto i
      (if success then .unloaded else .unloadFailed)) := by
  have hclosed := closed_of_closer h hcoordinated
  have hruntime : w.runtime = some runtime := (hcoordinated.threads i).held _ hstage
  have hunloads := unloads_of_closer h hcoordinated (by rw [hstage]; simp)
  -- one runtime was built, the one that is now unloaded
  have hold : built w.history = [runtime] := by
    rw [h.kept hclosed, hruntime]
    rfl
  have hbuilt : built (w.history ++ [.unloaded runtime success]) = [runtime] := by
    rw [built_append, hold]
    rfl
  have horder : Ordered (w.history ++ [.unloaded runtime success]) :=
    h.order.append fun _ hc => (by cases hc)
  have htried : ∀ r s, .unloaded r s ∈ w.history ++ [.unloaded runtime success] →
      r ∈ built (w.history ++ [.unloaded runtime success]) := by
    intro r s hmem
    rw [hbuilt, ← hold]
    rcases List.mem_append.mp hmem with hmem | hmem
    · exact h.tried r s hmem
    · cases List.mem_singleton.mp hmem
      rw [hold]
      exact List.mem_cons_self
  have hreturned : .closeReturned ∈ w.history ++ [.unloaded runtime success] → w.closed = true := by
    intro hmem
    rcases List.mem_append.mp hmem with hmem | hmem
    · exact h.returned hmem
    · cases List.mem_singleton.mp hmem
  have hkept : w.closed = false →
      built (w.history ++ [.unloaded runtime success]) = w.runtime.toList := fun _ => by
    rw [hbuilt, hruntime]
    rfl
  cases success with
  | true =>
      have hdone : unloads (w.history ++ [.unloaded runtime true])
          = built (w.history ++ [.unloaded runtime true]) := by
        rw [hbuilt, unloads_append, hunloads]
        rfl
      refine ⟨(congrArg List.length hbuilt).le, hkept, fun hc => ?_, fun _ _ => hdone,
        fun _ hnone => ?_, hreturned, htried, horder⟩
      · exact absurd hclosed (by rw [show w.closed = true from hc]; simp)
      -- this thread is the one that unloaded it
      · refine absurd ?_ (hnone i)
        change Function.update w.stage i OwnerStage.unloaded i = _
        exact Function.update_self ..
  | false =>
      have hpending : unloads (w.history ++ [.unloaded runtime false]) = [] := by
        rw [unloads_append, hunloads]
        rfl
      refine ⟨(congrArg List.length hbuilt).le, hkept, fun hc => ?_, fun j hj => ?_,
        fun _ _ => hpending, hreturned, htried, horder⟩
      · exact absurd hclosed (by rw [show w.closed = true from hc]; simp)
      -- there is one closing thread, and it is at `unloadFailed`
      · have hj' := (goto_unloaded (w := w) (by simp) (by rw [hstage]; simp) j).mp hj
        have hcloses := (hcoordinated.threads j).closes.mp (by rw [hj']; rfl)
        rw [← Option.some.inj hcloses, hstage] at hj'
        cases hj'

end Closing

/-- The handler of `close` keeps the runtime. -/
theorem recorded_closeFails (h : Recorded w) (hstage : w.stage i = .unloadFailed) :
    Recorded (w.closeFails i) :=
  h.same rfl rfl (fun hc => (by cases hc)) rfl (wake_goto_unloaded (by rw [hstage]; simp))

theorem recorded_closeEnds (h : Recorded w) (hstage : w.stage i = .unloaded) :
    Recorded (w.closeEnds i) := by
  have hdone := h.done i hstage
  have hbuilt : built (w.history ++ [.closeReturned]) = built w.history := by
    rw [built_append]
    exact List.append_nil _
  have hunloads : unloads (w.history ++ [.closeReturned]) = built w.history := by
    rw [unloads_append, hdone]
    exact List.append_nil _
  refine ⟨?_, fun hc => (by cases hc), fun _ => ⟨rfl, rfl, hunloads.trans hbuilt.symm⟩,
    fun _ _ => hunloads.trans hbuilt.symm, fun hc => (by cases hc), fun _ => rfl,
    fun r s hmem => ?_, h.order.append fun _ hc => (by cases hc)⟩
  · change (built (w.history ++ [.closeReturned])).length ≤ 1
    rw [hbuilt]
    exact h.one
  · change r ∈ built (w.history ++ [.closeReturned])
    rw [hbuilt]
    rcases List.mem_append.mp hmem with hmem | hmem
    · exact h.tried r s hmem
    · cases List.mem_singleton.mp hmem

/-- An invocation that starts has nothing before it that bars it. -/
def Shut (w : OwnerWorld) : Prop := Barred w.history → ¬ w.Open

/-- Whatever `close` finds, it leaves nothing to lease. -/
theorem tryClose_not_open (w : OwnerWorld) (i : Nat) : ¬ (w.tryClose i).Open := by
  rintro ⟨hclosed, hclosing, _⟩
  unfold OwnerWorld.tryClose at hclosed hclosing
  by_cases hc : w.closed = true
  · rw [if_pos hc] at hclosed
    change w.closed = false at hclosed
    rw [hc] at hclosed
    cases hclosed
  · rw [if_neg hc] at hclosing
    unfold compete at hclosing
    by_cases hbusy : w.closing = true
    · rw [if_pos hbusy] at hclosing
      change w.closing = false at hclosing
      rw [hbusy] at hclosing
      cases hclosing
    · rw [if_neg hbusy] at hclosing
      unfold OwnerWorld.drain at hclosing
      split at hclosing <;> cases hclosing

theorem drain_open : (w.drain i).Open ↔ w.Open := by
  unfold OwnerWorld.drain
  split <;> exact Iff.rfl

theorem drain_history : (w.drain i).history = w.history := by
  unfold OwnerWorld.drain
  split <;> rfl

/-- **Barred for good** by every step of a thread. -/
theorem Shut.transition (h : Shut w) (hcoordinated : Coordinated w leasing closer)
    (hstep : Transition w i w') : Shut w' := by
  have hclosing : (w.stage i).closes = true → ¬ w.Open := fun hcloses hopen => by
    rw [hcoordinated.no_closer hopen.2.1] at hcoordinated
    cases (hcoordinated.threads i).closes.mp hcloses
  cases hstep with
  | refused => exact h
  | entered runtime hstage hopen hruntime =>
      intro hbarred
      rcases barred_append.mp hbarred with hold | hnew
      · exact absurd hopen (h hold)
      · cases hnew
  | built runtime hstage hopen hruntime =>
      intro hbarred
      rcases barred_append.mp hbarred with hold | hnew
      · rcases barred_append.mp hold with hold | hnew
        · exact absurd hopen (h hold)
        · cases hnew
      · cases hnew
  | called hstage | returned hstage | released hstage | nothing hstage => exact h
  | closing hstage | woken hstage => exact fun _ => tryClose_not_open _ i
  | drained hstage =>
      intro hbarred hopen
      rw [drain_history] at hbarred
      exact h hbarred (drain_open.mp hopen)
  | unloaded runtime success hstage =>
      exact fun _ hopen => hclosing (by rw [hstage]; rfl) hopen
  | failed hstage => exact fun _ hopen => nomatch hopen.2.2
  | ended hstage => exact fun _ hopen => nomatch hopen.1

/-- **The history after a step of a thread.** -/
theorem Recorded.transition (h : Recorded w) (hcoordinated : Coordinated w leasing closer)
    (hshut : Shut w) (hstep : Transition w i w') : Recorded w' := by
  have hcloser : (w.stage i).closes = true → Coordinated w leasing (some i) := fun hcloses =>
    hcoordinated.closer_eq hcloses ▸ hcoordinated
  cases hstep with
  | refused => exact h
  | entered runtime hstage hopen hruntime =>
      exact h.enter hopen (fun hbarred => hshut hbarred hopen) hstage
  | built runtime hstage hopen hruntime =>
      refine (h.built hcoordinated hopen hruntime runtime).enter hopen (fun hbarred => ?_) hstage
      rcases barred_append.mp hbarred with hold | hnew
      · exact hshut hold hopen
      · cases hnew
  | called hstage | returned hstage => exact h.goto (by simp) (by rw [hstage]; simp)
  | released hstage =>
      refine h.same rfl rfl (fun hclosing => ?_) rfl (wake_goto_unloaded (by rw [hstage]; simp))
      by_contra hclosed
      have hquiet := (h.gone (Bool.not_eq_false _ ▸ hclosed)).2.1
      change w.closing = true at hclosing
      rw [hquiet] at hclosing
      cases hclosing
  | closing hstage =>
      have hnoted : Recorded (w.note .closeBegan) :=
        h.note rfl (fun _ _ => by simp) (fun hc => (by cases hc)) fun _ hc => (by cases hc)
      refine hnoted.tryClose ?_
      change w.stage i ≠ _
      rw [hstage]
      simp
  | woken hstage => exact h.tryClose (by rw [hstage]; simp)
  | drained hstage => exact h.drain (by rw [hstage]; simp)
  | nothing hstage => exact recorded_nothing h (hcloser (by rw [hstage]; rfl)) hstage
  | unloaded runtime success hstage =>
      exact recorded_unloaded h (hcloser (by rw [hstage]; rfl)) hstage
  | failed hstage => exact recorded_closeFails h hstage
  | ended hstage => exact recorded_closeEnds h hstage

/-! ## Every interleaving -/

/-- The invariant of the owner. -/
structure Sound (w : OwnerWorld) : Prop where
  coordinated : ∃ leasing closer, Coordinated w leasing closer
  recorded : Recorded w
  shut : Shut w

theorem sound_start : Sound .start := by
  refine ⟨⟨∅, none, rfl, rfl, fun _ => ?_⟩, ?_, ?_⟩
  · exact ⟨⟨fun hc => (by cases hc), fun hc => absurd hc (Finset.notMem_empty _)⟩,
      ⟨fun hc => (by cases hc), fun hc => (by cases hc)⟩, fun hc => (by cases hc),
      fun _ hc => (by cases hc), fun hc => (by cases hc), fun hc => (by cases hc)⟩
  · refine ⟨Nat.zero_le 1, fun _ => rfl, fun hc => (by cases hc), fun _ hc => (by cases hc),
      fun _ _ => rfl, fun hc => (by cases hc), fun _ _ hc => (by cases hc), fun before e after heq => ?_⟩
    cases before with
    | nil => cases heq
    | cons _ _ => cases heq
  · rintro ⟨_, hmem, _⟩
    cases hmem

/-- `mark_unsafe` bars what comes later. -/
theorem sound_markUnsafe (h : Sound w) (reason : String) : Sound (w.markUnsafe reason) := by
  obtain ⟨⟨leasing, closer, hcoordinated⟩, hrecorded, hshut⟩ := h
  unfold OwnerWorld.markUnsafe
  by_cases hclosed : w.closed = true
  · rw [if_pos hclosed]
    refine ⟨⟨leasing, closer, hcoordinated.note _⟩, ?_, fun _ hopen => ?_⟩
    · exact hrecorded.note rfl (fun _ _ => by simp) (fun hc => (by cases hc)) fun _ hc => (by cases hc)
    · have hnot : w.closed = false := hopen.1
      rw [hclosed] at hnot
      cases hnot
  · rw [if_neg hclosed]
    refine ⟨⟨leasing, closer, ?_⟩, ?_, fun _ hopen => nomatch hopen.2.2⟩
    · have hmarked : Coordinated { w with unsafeReason := some reason } leasing closer :=
        ⟨hcoordinated.active, hcoordinated.closing, fun j =>
          have hold := hcoordinated.threads j
          ⟨hold.leases, hold.closes, hold.drained, hold.held, hold.notified, hold.busy⟩⟩
      exact hmarked.note _
    · have hmarked : Recorded { w with unsafeReason := some reason } :=
        hrecorded.same rfl rfl (fun _ => Bool.not_eq_true _ ▸ hclosed) rfl fun _ => Iff.rfl
      exact hmarked.note rfl (fun _ _ => by simp) (fun hc => (by cases hc)) fun _ hc => (by cases hc)

/-- **The invariant** holds wherever the threads can get. -/
theorem sound_reachable (h : ownerSystem.Reachable w) : Sound w := by
  refine System.Reachable.invariant (fun w hw => ?_) (fun w w' _ hsound hstep => ?_) h
  · cases hw
    exact sound_start
  · obtain ⟨move, hmove⟩ := hstep
    cases move with
    | markUnsafe reason =>
        cases hmove
        exact sound_markUnsafe hsound reason
    | thread i choice =>
        obtain ⟨⟨leasing, closer, hcoordinated⟩, hrecorded, hshut⟩ := hsound
        have htransition := step_transition hmove
        exact ⟨hcoordinated.transition htransition,
          hrecorded.transition hcoordinated hshut htransition,
          hshut.transition hcoordinated htransition⟩

/-- **No lost wake-up.** With a close pending and no invocation left, a closing thread can go on. -/
theorem Sound.progress (h : Sound w) (hpending : (w.stage i).pending = true)
    (hidle : w.activeInvocations = 0) :
    ∃ j choice w', (w.stage j).pending = true ∧ w.step j choice = some w' := by
  obtain ⟨⟨leasing, closer, hcoordinated⟩, _, _⟩ := h
  have hempty : leasing = ∅ := by
    rw [hcoordinated.active] at hidle
    exact Finset.card_eq_zero.mp (by exact_mod_cast hidle)
  -- the thread that has set `_closing` is never asleep while nothing runs
  have hcloser : ∀ j, (w.stage j).closes = true → ∃ choice w', w.step j choice = some w' := by
    intro j hj
    unfold OwnerWorld.step
    cases hstage : w.stage j with
    | awaitInvocations notified =>
        cases notified with
        | false => exact absurd hempty ((hcoordinated.threads j).busy hstage)
        | true => exact ⟨.go, _, rfl⟩
    | unloading runtime =>
        cases runtime with
        | none => exact ⟨.go, _, rfl⟩
        | some runtime => exact ⟨.ends true, _, rfl⟩
    | unloadFailed | unloaded => exact ⟨.go, _, rfl⟩
    | idle | leased | invoking | releasing | awaitClose _ =>
        rw [hstage] at hj
        cases hj
  by_cases hasleep : w.stage i = .awaitClose false
  · have hclosing := (hcoordinated.threads i).notified hasleep
    rw [hcoordinated.closing] at hclosing
    obtain ⟨j, rfl⟩ := Option.isSome_iff_exists.mp hclosing
    have hcloses := (hcoordinated.threads j).closes.mpr rfl
    obtain ⟨choice, w', hstep⟩ := hcloser j hcloses
    refine ⟨j, choice, w', ?_, hstep⟩
    generalize w.stage j = s at hcloses
    cases s <;> first | rfl | cases hcloses
  · cases hstage : w.stage i with
    | awaitClose notified =>
        cases notified with
        | false => exact absurd hstage hasleep
        | true =>
            refine ⟨i, .go, w.tryClose i, hpending, ?_⟩
            unfold OwnerWorld.step
            rw [hstage]
    | awaitInvocations _ | unloading _ | unloadFailed | unloaded =>
        obtain ⟨choice, w', hstep⟩ := hcloser i (by rw [hstage]; rfl)
        exact ⟨i, choice, w', hpending, hstep⟩
    | idle | leased | invoking | releasing =>
        rw [hstage] at hpending
        cases hpending

/-- **The life of an embedded runtime.** In every interleaving at most one runtime is built; while
one is being closed no invocation is under way and nobody else closes one; no invocation starts
after `mark_unsafe`, the start of a close or a close that failed; a runtime whose close failed stays
the owner's, what a close comes to close is the owner's runtime, and `_closing` is set only while a
thread closes; once a close has returned, every runtime that was built has been closed
successfully, once; the active count is the number of threads between lease and release; and with a
close pending and none of them left, some closing thread can go on. -/
theorem owner_lifecycle (w : OwnerWorld) (h : ownerSystem.Reachable w) :
    (built w.history).length ≤ 1 ∧
    (∀ i runtime, w.stage i = .unloading runtime →
      (∀ j, (w.stage j).leases = false) ∧ ∀ j runtime', w.stage j = .unloading runtime' → j = i) ∧
    (∀ before e after, w.history = before ++ e :: after → e.bars = true →
      ∀ i, .invocation i ∉ after) ∧
    (∀ runtime, .unloaded runtime false ∈ w.history → w.closed = false →
      w.runtime = some runtime) ∧
    (∀ i runtime, w.stage i = .unloading runtime → w.runtime = runtime) ∧
    (w.closing = true ↔ ∃ i, (w.stage i).closes = true) ∧
    (.closeReturned ∈ w.history → unloads w.history = built w.history) ∧
    (∃ leasing : Finset Nat, (∀ i, i ∈ leasing ↔ (w.stage i).leases = true) ∧
      w.activeInvocations = leasing.card) ∧
    ((∃ i, (w.stage i).pending = true) → w.activeInvocations = 0 →
      ∃ j choice w', (w.stage j).pending = true ∧ w.step j choice = some w') := by
  obtain ⟨⟨leasing, closer, hcoordinated⟩, hrecorded, _⟩ := sound_reachable h
  refine ⟨hrecorded.one, fun i runtime hstage => ⟨fun j => ?_, fun j runtime' hstage' => ?_⟩,
    hrecorded.order, fun runtime hfailed hclosed => ?_,
    fun i runtime hstage => (hcoordinated.threads i).held runtime hstage, ?_,
    fun hreturned => (hrecorded.gone (hrecorded.returned hreturned)).2.2,
    ⟨leasing, fun i => (hcoordinated.threads i).leases.symm, hcoordinated.active⟩,
    fun ⟨i, hpending⟩ hidle => (sound_reachable h).progress hpending hidle⟩
  · have hempty := (hcoordinated.threads i).drained (by rw [hstage]; rfl)
    by_contra hleases
    have hmem := (hcoordinated.threads j).leases.mp (Bool.not_eq_false _ ▸ hleases)
    rw [hempty] at hmem
    cases hmem
  · have hi := hcoordinated.closer_eq (i := i) (by rw [hstage]; rfl)
    have hj := hcoordinated.closer_eq (i := j) (by rw [hstage']; rfl)
    exact Option.some.inj (hj.symm.trans hi)
  · have hmem := hrecorded.tried runtime false hfailed
    rw [hrecorded.kept hclosed] at hmem
    exact Option.mem_toList.mp hmem
  · rw [hcoordinated.closing, Option.isSome_iff_exists]
    exact exists_congr fun i => (hcoordinated.threads i).closes.symm

/-! ### A close that fails -/

/-- One invocation, after which another thread's `runtime.close` raises. -/
def afterFailedUnload : OwnerWorld :=
  (((((((OwnerWorld.start.lease 0 (some 7)).goto 0 .invoking).goto 0 .releasing).release 0).note
    .closeBegan).tryClose 1).note (.unloaded 7 false)).goto 1 .unloadFailed

theorem afterFailedUnload_reachable : ownerSystem.Reachable afterFailedUnload := by
  have hleased := (System.Reachable.of_init (S := ownerSystem) rfl).step
    ⟨.thread 0 (.invoke (some 7)), rfl⟩
  have hinvoked := (hleased.step ⟨.thread 0 .go, rfl⟩).step ⟨.thread 0 (.ends true), rfl⟩
  have hclosing := (hinvoked.step ⟨.thread 0 .go, rfl⟩).step ⟨.thread 1 .close, rfl⟩
  exact hclosing.step ⟨.thread 1 (.ends false), rfl⟩

theorem owner_lifecycle_failed :
    .unloaded 7 false ∈ afterFailedUnload.history ∧ (built afterFailedUnload.history).length ≤ 1 ∧
      afterFailedUnload.runtime = some 7 := by
  have hmem : .unloaded 7 false ∈ afterFailedUnload.history := List.mem_of_getElem? (i := 3) rfl
  have hlife := owner_lifecycle afterFailedUnload afterFailedUnload_reachable
  exact ⟨hmem, hlife.1, hlife.2.2.2.1 7 hmem rfl⟩

end EmbeddedOwner

end NanoAural
