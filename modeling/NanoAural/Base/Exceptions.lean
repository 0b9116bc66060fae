import NanoAural.Base.Faulty

/-!
# What a program may raise

`Ensures I may p φ` says what is kept, what is returned and what is raised at most. A handler is
where the exceptions of a program change: inside of it more may be raised than outside. With
`may` false everywhere the program returns, unless it is killed.
-/

namespace Faulty

variable {σ ε α β : Type}

/-- An end that returns an `a` with `φ`, or raises what `may` allows. A kill asks nobody. -/
def Exit.Within (may : ε → Prop) (φ : α → Prop) : Exit ε α → Prop
  | .returned a => φ a
  | .raised e => may e
  | .killed => True

namespace Prog

variable {I : σ → Prop} {may inner : ε → Prop} {φ : α → Prop} {ψ : β → Prop}

/-- From `I`, `p` keeps `I` however it ends, returns an `a` with `φ` or raises what `may` allows. -/
def Ensures (I : σ → Prop) (may : ε → Prop) (p : Prog σ ε α) (φ : α → Prop) : Prop :=
  Triple I p fun x s => I s ∧ x.Within may φ

theorem Ensures.weaken {p : Prog σ ε α} {φ' : α → Prop} (h : Ensures I inner p φ)
    (hmay : ∀ e, inner e → may e) (hφ : ∀ a, φ a → φ' a) : Ensures I may p φ' := by
  refine Triple.weaken h (fun _ hs => hs) fun x s hs => ⟨hs.1, ?_⟩
  cases x with
  | returned a => exact hφ a hs.2
  | raised e => exact hmay e hs.2
  | killed => trivial

theorem ensures_pure {a : α} (h : φ a) : Ensures I may (Pure.pure a : Prog σ ε α) φ :=
  triple_pure fun _ hs => ⟨hs, h⟩

theorem ensures_raise {e : ε} (h : may e) : Ensures I may (raise e : Prog σ ε α) φ :=
  triple_raise fun _ hs => ⟨hs, h⟩

/-- **The rule of the semicolon.** -/
theorem ensures_bind {p : Prog σ ε α} {f : α → Prog σ ε β} (hp : Ensures I may p φ)
    (hf : ∀ a, φ a → Ensures I may (f a) ψ) : Ensures I may (p >>= f) ψ :=
  triple_bind hp (fun a _ s hs => hf a hs.2 _ s hs.1) (fun _ _ h => h) fun _ h => h

theorem ensures_raiseWhen_bind {c : Bool} {e : ε} {p : Unit → Prog σ ε α}
    (hraise : c = true → may e) (hp : c = false → Ensures I may (p ()) φ) :
    Ensures I may (raiseWhen c e >>= p) φ :=
  triple_raiseWhen_bind (fun hc _ hs => ⟨hs, hraise hc⟩) hp

theorem ensures_ite {c : Prop} [Decidable c] {p q : Prog σ ε α} (hp : c → Ensures I may p φ)
    (hq : ¬ c → Ensures I may q φ) : Ensures I may (if c then p else q) φ := triple_ite hp hq

/-- **The rule of `try`.** The handler answers for whatever the body may raise. -/
theorem ensures_tryCatch {p : Prog σ ε α} {handler : ε → Prog σ ε α} (hp : Ensures I inner p φ)
    (hhandler : ∀ e, inner e → Ensures I may (handler e) φ) : Ensures I may (p.tryCatch handler) φ :=
  triple_tryCatch hp (fun e _ s hs => hhandler e hs.2 _ s hs.1) (fun _ _ h => h) fun _ h => h

/-- **The rule of `finally`.** -/
theorem ensures_tryFinally {p : Prog σ ε α} {last : Prog σ ε Unit} (hp : Ensures I may p φ)
    (hlast : Ensures I may last fun _ => True) : Ensures I may (p.tryFinally last) φ :=
  ensures_bind (ensures_tryCatch hp fun _ he =>
    ensures_bind hlast fun _ _ => ensures_raise he) fun _ ha =>
      ensures_bind hlast fun _ _ => ensures_pure ha

/-- However it is run, the program ends as it ensures. -/
theorem Ensures.run {p : Prog σ ε α} (h : Ensures I may p φ) {s : σ} (hs : I s)
    (faults : List (Fault ε)) : (p.run faults s).1.Within may φ := (h faults s hs).2

end Prog

end Faulty
