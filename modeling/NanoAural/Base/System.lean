import Mathlib.Logic.Relation

/-!
# Transition systems

Initial states and a step relation, with the two induction principles every
safety argument is an instance of: an invariant holds wherever the system can
get, and a stable property, once true, stays true along every suffix.
-/

namespace Machine

/-- A transition system over states `σ`. -/
structure System (σ : Type) where
  init : σ → Prop
  step : σ → σ → Prop

namespace System

variable {σ : Type} (S : System σ)

/-- A finite run, of any length. -/
def Runs : σ → σ → Prop := Relation.ReflTransGen S.step

/-- A state some run from an initial state ends in. -/
def Reachable (s : σ) : Prop := ∃ s₀, S.init s₀ ∧ S.Runs s₀ s

variable {S}

theorem Reachable.of_init {s : σ} (h : S.init s) : S.Reachable s :=
  ⟨s, h, Relation.ReflTransGen.refl⟩

theorem Reachable.runs {s s' : σ} (h : S.Reachable s) (hr : S.Runs s s') : S.Reachable s' := by
  obtain ⟨s₀, h₀, h₁⟩ := h
  exact ⟨s₀, h₀, h₁.trans hr⟩

theorem Reachable.step {s s' : σ} (h : S.Reachable s) (hs : S.step s s') : S.Reachable s' :=
  h.runs (Relation.ReflTransGen.single hs)

/-- **Invariants.** True at the start and kept by every step out of a reachable state. -/
theorem Reachable.invariant {I : σ → Prop} (h₀ : ∀ s, S.init s → I s)
    (hstep : ∀ s s', S.Reachable s → I s → S.step s s' → I s') {s : σ} (h : S.Reachable s) :
    I s := by
  obtain ⟨s₀, hi, hr⟩ := h
  induction hr with
  | refl => exact h₀ _ hi
  | tail hr hs ih => exact hstep _ _ ⟨s₀, hi, hr⟩ ih hs

/-- **Stability.** A property no step out of a reachable state can falsify survives every run. -/
theorem Reachable.stable {P : σ → Prop}
    (hstep : ∀ s s', S.Reachable s → P s → S.step s s' → P s') {s s' : σ}
    (h : S.Reachable s) (hP : P s) (hr : S.Runs s s') : P s' := by
  induction hr with
  | refl => exact hP
  | tail hr hs ih => exact hstep _ _ (h.runs hr) ih hs

/-- A reflexive and transitive relation that every step respects holds across every run. -/
theorem Runs.respects {R : σ → σ → Prop} (hrefl : ∀ s, R s s)
    (htrans : ∀ a b c, R a b → R b c → R a c) (hstep : ∀ s s', S.step s s' → R s s') {s s' : σ}
    (hr : S.Runs s s') : R s s' := by
  induction hr with
  | refl => exact hrefl _
  | tail _ hs ih => exact htrans _ _ _ ih (hstep _ _ hs)

end System

end Machine
