import Mathlib.Logic.Function.Basic
import NanoAural.Base.System

/-!
# Requests served over a shared state

A server answers many requests at once. Each is a `Dialogue`: a sequence of atomic
changes of a state it shares with all others, and anything the others may do happens in
between.

`Meets` is the rely-guarantee judgement of one dialogue: whatever the others do, each of
its changes keeps the guarantee, and what it answers is right in the state its last
change left. `server_guarded` is the rule for all dialogues together.
-/

namespace Dialogues

open Machine

/-- A request in service: it is answered, or makes one more change with something drawn for it
and goes on from the state it found. -/
inductive Dialogue (δ σ ω : Type) where
  | answer (a : ω)
  | transact (change : δ → σ → σ) (next : δ → σ → Dialogue δ σ ω)

namespace Dialogue

variable {δ σ α β : Type}

def bind : Dialogue δ σ α → (α → Dialogue δ σ β) → Dialogue δ σ β
  | .answer a, f => f a
  | .transact change next, f => .transact change fun d s => (next d s).bind f

instance : Monad (Dialogue δ σ) where
  pure := .answer
  bind := bind

end Dialogue

/-! ## One dialogue -/

section Judgement

variable {δ σ α β : Type} {rely guarantee : σ → σ → Prop} {φ : σ → α → Prop} {ψ : σ → β → Prop}
  {s : σ}

/-- From a state on that the others may change, the dialogue keeps its guarantee and comes to an
answer as described. -/
inductive Meets (rely guarantee : σ → σ → Prop) (φ : σ → α → Prop) : σ → Dialogue δ σ α → Prop
  | answer {s : σ} {a : α} (h : φ s a) : Meets rely guarantee φ s (.answer a)
  | transact {s : σ} {change : δ → σ → σ} {next : δ → σ → Dialogue δ σ α}
      (hchange : ∀ t d, rely s t → guarantee t (change d t))
      (hnext : ∀ t d, rely s t → Meets rely guarantee φ (change d t) (next d t)) :
      Meets rely guarantee φ s (.transact change next)

theorem Meets.weaken {φ' : σ → α → Prop} {p : Dialogue δ σ α} (h : Meets rely guarantee φ s p)
    (hφ : ∀ t a, φ t a → φ' t a) : Meets rely guarantee φ' s p := by
  induction h with
  | answer h => exact .answer (hφ _ _ h)
  | transact hchange _ ih => exact .transact hchange ih

/-- **The rule of the semicolon.** What comes second starts where the first left off. -/
theorem Meets.bind {p : Dialogue δ σ α} {f : α → Dialogue δ σ β} (hp : Meets rely guarantee φ s p)
    (hf : ∀ t a, φ t a → Meets rely guarantee ψ t (f a)) :
    Meets rely guarantee ψ s (p >>= f) := by
  induction hp with
  | answer h => exact hf _ _ h
  | transact hchange _ ih => exact .transact hchange ih

/-- A dialogue that is not answered yet takes what the others do. -/
theorem Meets.later (htrans : ∀ a b c, rely a b → rely b c → rely a c) {t : σ}
    {change : δ → σ → σ} {next : δ → σ → Dialogue δ σ α}
    (h : Meets rely guarantee φ s (.transact change next)) (ht : rely s t) :
    Meets rely guarantee φ t (.transact change next) := by
  cases h with
  | transact hchange hnext =>
      exact .transact (fun u d hu => hchange u d (htrans _ _ _ ht hu))
        fun u d hu => hnext u d (htrans _ _ _ ht hu)

end Judgement

/-! ## A server -/

/-- An answer, and the state it was given in. -/
structure Answered (ι ρ σ ω : Type) where
  asker : ι
  request : ρ
  state : σ
  answer : ω

/-- The shared state, what is in service for whom, and what has been answered. -/
structure Desk (ι δ σ ρ ω : Type) where
  state : σ
  pending : ι → Option (ρ × Dialogue δ σ ω)
  answered : List (Answered ι ρ σ ω)

section Server

variable {ι δ σ ρ ω : Type} {rely : σ → σ → Prop} {guarantee : ι → σ → σ → Prop}
  {φ : ι → ρ → σ → ω → Prop} {desk : Desk ι δ σ ρ ω}

/-- What is in service meets its guarantee, and what was answered was right. -/
structure Guarded (rely : σ → σ → Prop) (guarantee : ι → σ → σ → Prop)
    (φ : ι → ρ → σ → ω → Prop) (desk : Desk ι δ σ ρ ω) : Prop where
  pending : ∀ i request change next, desk.pending i = some (request, .transact change next) →
    Meets rely (guarantee i) (φ i request) desk.state (.transact change next)
  answered : ∀ x ∈ desk.answered, φ x.asker x.request x.state x.answer

theorem Guarded.later (htrans : ∀ a b c, rely a b → rely b c → rely a c)
    (h : Guarded rely guarantee φ desk) {t : σ} (ht : rely desk.state t) :
    Guarded rely guarantee φ { desk with state := t } where
  pending i request change next hp := (h.pending i request change next hp).later htrans ht
  answered := h.answered

/-- What a dialogue in service does next keeps its guarantee. -/
theorem Guarded.proceeds (h : Guarded rely guarantee φ desk) (hrefl : ∀ s, rely s s) {i : ι}
    {request : ρ} {change : δ → σ → σ} {next : δ → σ → Dialogue δ σ ω}
    (hp : desk.pending i = some (request, .transact change next)) (drawn : δ) :
    guarantee i desk.state (change drawn desk.state) := by
  cases h.pending i request change next hp with
  | transact hchange _ => exact hchange desk.state drawn (hrefl _)

variable [DecidableEq ι]

/-- A dialogue goes on, or its answer leaves. -/
def Desk.put (desk : Desk ι δ σ ρ ω) (i : ι) (request : ρ) : Dialogue δ σ ω → Desk ι δ σ ρ ω
  | .answer a => { desk with
      pending := Function.update desk.pending i none
      answered := ⟨i, request, desk.state, a⟩ :: desk.answered }
  | .transact change next => { desk with
      pending := Function.update desk.pending i (some (request, .transact change next)) }

/-- The dialogue in service for somebody makes its next change, if there is one. -/
def Desk.proceed (desk : Desk ι δ σ ρ ω) (i : ι) (drawn : δ) : Desk ι δ σ ρ ω :=
  match desk.pending i with
  | some (request, .transact change next) =>
      Desk.put { desk with state := change drawn desk.state } i request (next drawn desk.state)
  | _ => desk

/-- Somebody asks, a dialogue makes its next change, or the others do something. -/
inductive ServerStep (rely : σ → σ → Prop) (handle : ι → ρ → Dialogue δ σ ω)
    (desk : Desk ι δ σ ρ ω) : Desk ι δ σ ρ ω → Prop where
  | ask (i : ι) (request : ρ) : ServerStep rely handle desk (desk.put i request (handle i request))
  | proceed (i : ι) (drawn : δ) : ServerStep rely handle desk (desk.proceed i drawn)
  | other (t : σ) (h : rely desk.state t) : ServerStep rely handle desk { desk with state := t }

/-- A server over a state that begins as described. -/
def server (init : σ → Prop) (rely : σ → σ → Prop) (handle : ι → ρ → Dialogue δ σ ω) :
    System (Desk ι δ σ ρ ω) where
  init desk := init desk.state ∧ (∀ i, desk.pending i = none) ∧ desk.answered = []
  step := ServerStep rely handle

theorem Guarded.put (h : Guarded rely guarantee φ desk) {i : ι} {request : ρ}
    {p : Dialogue δ σ ω} (hp : Meets rely (guarantee i) (φ i request) desk.state p) :
    Guarded rely guarantee φ (desk.put i request p) := by
  cases hp with
  | answer ha =>
      refine ⟨fun k r change next hk => ?_, fun x hx => ?_⟩
      · have hki : k ≠ i := by
          rintro rfl
          rw [show (desk.put k request (.answer _)).pending k = none from Function.update_self ..] at hk
          cases hk
        exact h.pending k r change next ((Function.update_of_ne hki _ _).symm.trans hk)
      · rcases List.mem_cons.mp hx with rfl | hx
        · exact ha
        · exact h.answered x hx
  | transact hchange hnext =>
      refine ⟨fun k r change next hk => ?_, h.answered⟩
      by_cases hki : k = i
      · subst hki
        have hk := (Function.update_self k _ desk.pending).symm.trans hk
        obtain ⟨rfl, hp⟩ := Prod.mk.inj (Option.some.inj hk)
        rw [← hp]
        exact .transact hchange hnext
      · exact h.pending k r change next ((Function.update_of_ne hki _ _).symm.trans hk)

/-- **The rule of the server.** Where every request meets its guarantee, and every guarantee is one
the others may rely on, every dialogue keeps its guarantee beside all others, and every answer was
right when it was given. -/
theorem server_guarded {init proper : σ → Prop} {handle : ι → ρ → Dialogue δ σ ω}
    (htrans : ∀ a b c, rely a b → rely b c → rely a c) (hrefl : ∀ s, rely s s)
    (hrely : ∀ i s t, guarantee i s t → rely s t) (hinit : ∀ s, init s → proper s)
    (hproper : ∀ s t, rely s t → proper s → proper t)
    (hhandle : ∀ i request s, proper s →
      Meets rely (guarantee i) (φ i request) s (handle i request))
    (h : (server init rely handle).Reachable desk) :
    proper desk.state ∧ Guarded rely guarantee φ desk := by
  refine h.invariant (I := fun desk => proper desk.state ∧ Guarded rely guarantee φ desk) ?_ ?_
  · intro desk hdesk
    obtain ⟨hs, hpending, hanswered⟩ := hdesk
    refine ⟨hinit _ hs, fun i request change next hp => ?_, fun x hx => ?_⟩
    · rw [hpending i] at hp
      cases hp
    · rw [hanswered] at hx
      cases hx
  · intro desk desk' _ hi hs
    obtain ⟨hpr, hg⟩ := hi
    have hstate : ∀ (desk : Desk ι δ σ ρ ω) i request p, (desk.put i request p).state = desk.state :=
      fun desk i request p => by cases p <;> rfl
    cases hs with
    | ask i request =>
        rw [hstate]
        exact ⟨hpr, hg.put (hhandle i request _ hpr)⟩
    | proceed i drawn =>
        unfold Desk.proceed
        split
        · rename_i request change next hp
          -- the change is one the others rely on, and the dialogue goes on from where it led
          cases hg.pending i request change next hp with
          | transact hchange hnext =>
              have hlater := hrely i _ _ (hchange desk.state drawn (hrefl _))
              rw [hstate]
              exact ⟨hproper _ _ hlater hpr,
                (hg.later htrans hlater).put (hnext desk.state drawn (hrefl _))⟩
        · exact ⟨hpr, hg⟩
    | other t ht => exact ⟨hproper _ _ ht hpr, hg.later htrans ht⟩

end Server

end Dialogues
