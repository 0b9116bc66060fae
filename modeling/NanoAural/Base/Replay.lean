import Mathlib.Data.List.Basic
import Mathlib.Logic.Function.Basic

/-!
# Logs that can be replayed

One log holds the events of many subjects, each under its key. A `Reader` says what the first
event of a subject starts and what every later one makes of it; it reads no event that may not
come next. A log tells a view of the subjects if reading the events of each, in order, arrives at
exactly that view. Events are only ever added at the end, so it is enough to know what one event
does to the one subject it is about.
-/

namespace Replay

/-- What events mean. -/
structure Reader (ε σ : Type) where
  first : ε → Option σ
  next : σ → ε → Option σ

namespace Reader

variable {ε σ κ : Type} (R : Reader ε σ)

/-- What a subject with these events has become. -/
def replay : List ε → Option σ
  | [] => none
  | e :: es => (R.first e).bind fun s => es.foldlM R.next s

variable {R}

/-- Later events are read where the earlier ones arrived. -/
theorem replay_append {es : List ε} {s : σ} (h : R.replay es = some s) (later : List ε) :
    R.replay (es ++ later) = later.foldlM R.next s := by
  cases es with
  | nil => cases h
  | cons e es =>
      obtain ⟨s₀, hs₀, hes⟩ := Option.bind_eq_some_iff.mp h
      rw [List.cons_append, replay, hs₀, Option.bind_some, List.foldlM_append, hes]
      rfl

theorem replay_concat {es : List ε} {e : ε} {s : σ} (h : R.replay es = some s) :
    R.replay (es ++ [e]) = R.next s e := by
  rw [replay_append h, List.foldlM_cons]
  exact bind_pure (R.next s e)

/-- **Nothing follows an end.** Where no event can be read, a log that can still be replayed has
not grown. -/
theorem replay_ended {es later : List ε} {s s' : σ} (h : R.replay es = some s)
    (hend : ∀ e, R.next s e = none) (h' : R.replay (es ++ later) = some s') : later = [] := by
  cases later with
  | nil => rfl
  | cons e later =>
      rw [replay_append h, List.foldlM_cons, hend e] at h'
      cases h'

end Reader

variable {ε σ κ : Type} [DecidableEq κ] {R : Reader ε σ} {key : ε → κ} {log : List ε}
  {view view' : κ → Option σ}

/-- The events of one subject. -/
def logOf (key : ε → κ) (log : List ε) (k : κ) : List ε := log.filter fun e => decide (key e = k)

theorem logOf_concat (log : List ε) (e : ε) (k : κ) :
    logOf key (log ++ [e]) k = if key e = k then logOf key log k ++ [e] else logOf key log k := by
  unfold logOf
  rw [List.filter_append]
  by_cases hk : key e = k
  · simp [hk]
  · simp [hk]

/-- **The log tells the view.** -/
structure Tells (R : Reader ε σ) (key : ε → κ) (log : List ε) (view : κ → Option σ) : Prop where
  /-- Each subject is what its events say. -/
  known : ∀ k s, view k = some s → R.replay (logOf key log k) = some s
  /-- What there is not, has no events. -/
  unknown : ∀ k, view k = none → logOf key log k = []

namespace Tells

theorem congr (h : Tells R key log view) (hview : ∀ k, view' k = view k) :
    Tells R key log view' := by
  have heq : view' = view := funext hview
  rw [heq]
  exact h

/-- An event that nobody has seen before starts its subject. -/
theorem start {e : ε} {s : σ} (h : Tells R key log view) (hnew : view (key e) = none)
    (hs : R.first e = some s) (hview : view' = Function.update view (key e) (some s)) :
    Tells R key (log ++ [e]) view' := by
  subst hview
  constructor
  · intro k x hx
    rw [logOf_concat]
    by_cases hk : k = key e
    · subst hk
      rw [Function.update_self] at hx
      rw [if_pos rfl, h.unknown _ hnew, ← hx]
      show (R.first e).bind (fun s => [].foldlM R.next s) = some s
      rw [hs]
      rfl
    · rw [Function.update_of_ne hk] at hx
      rw [if_neg (Ne.symm hk)]
      exact h.known k x hx
  · intro k hx
    have hk : k ≠ key e := by
      intro hk
      rw [hk, Function.update_self] at hx
      cases hx
    rw [Function.update_of_ne hk] at hx
    rw [logOf_concat, if_neg (Ne.symm hk)]
    exact h.unknown k hx

/-- An event that may come next moves its subject on. -/
theorem move {e : ε} {s s' : σ} (h : Tells R key log view) (hold : view (key e) = some s)
    (hs : R.next s e = some s') (hview : view' = Function.update view (key e) (some s')) :
    Tells R key (log ++ [e]) view' := by
  subst hview
  constructor
  · intro k x hx
    rw [logOf_concat]
    by_cases hk : k = key e
    · subst hk
      rw [Function.update_self] at hx
      rw [if_pos rfl, Reader.replay_concat (h.known _ s hold), ← hx]
      exact hs
    · rw [Function.update_of_ne hk] at hx
      rw [if_neg (Ne.symm hk)]
      exact h.known k x hx
  · intro k hx
    have hk : k ≠ key e := by
      intro hk
      rw [hk, Function.update_self] at hx
      cases hx
    rw [Function.update_of_ne hk] at hx
    rw [logOf_concat, if_neg (Ne.symm hk)]
    exact h.unknown k hx

/-- **A subject's own log only grows**, and where it has ended it stays as it is. -/
theorem grows {log' : List ε} {k : κ} {s : σ} (h : Tells R key log view)
    (h' : Tells R key log' view') (hgrows : log <+: log') (hk : view k = some s) :
    logOf key log k <+: logOf key log' k
      ∧ ((∀ e, R.next s e = none) → logOf key log' k = logOf key log k) := by
  obtain ⟨later, rfl⟩ := hgrows
  have happend : logOf key (log ++ later) k = logOf key log k ++ logOf key later k :=
    List.filter_append ..
  refine ⟨⟨_, happend.symm⟩, fun hend => ?_⟩
  have hreplay := h.known k s hk
  cases hk' : view' k with
  | none =>
      -- its events are still there, so it has not vanished
      have hnil := h'.unknown k hk'
      rw [happend, List.append_eq_nil_iff] at hnil
      rw [hnil.1] at hreplay
      cases hreplay
  | some s' =>
      have hlater := h'.known k s' hk'
      rw [happend] at hlater ⊢
      rw [Reader.replay_ended hreplay hend hlater, List.append_nil]

end Tells

end Replay
