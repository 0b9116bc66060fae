/-!
# Programs whose calls may fail

A program calls on the outside world: the disk, a clock, another process. Any
such call may raise, before or after it took effect, and the program may be
killed there. What befalls the calls is a list of faults fixed in advance, so a
program is a function; a list that runs out means that nothing more goes wrong.

`Triple` speaks about every list of faults. Its postcondition sees how the
program ended, because what holds after a return, an exception and a kill is
rarely the same; what holds throughout is `Always`.
-/

namespace Faulty

/-- What befalls one call. `after` tells whether it had taken effect. -/
inductive Fault (ε : Type) where
  | none
  | raise (e : ε) (after : Bool)
  | kill (after : Bool)

/-- How a program ends. -/
inductive Exit (ε α : Type) where
  | returned (a : α)
  | raised (e : ε)
  | killed
  deriving DecidableEq, Repr

/-- A program over a state `σ` that raises an `ε` or returns an `α`. -/
def Prog (σ ε α : Type) : Type := List (Fault ε) → σ → Exit ε α × List (Fault ε) × σ

namespace Prog

variable {σ ε α β : Type}

def ret (a : α) : Prog σ ε α := fun faults s => (.returned a, faults, s)

def andThen (p : Prog σ ε α) (f : α → Prog σ ε β) : Prog σ ε β := fun faults s =>
  match p faults s with
  | (.returned a, faults', s') => f a faults' s'
  | (.raised e, faults', s') => (.raised e, faults', s')
  | (.killed, faults', s') => (.killed, faults', s')

instance : Monad (Prog σ ε) where
  pure := ret
  bind := andThen

/-- `raise`. -/
def raise (e : ε) : Prog σ ε α := fun faults s => (.raised e, faults, s)

/-- Read the program's own memory, which never fails. -/
def peek (f : σ → α) : Prog σ ε α := fun faults s => (.returned (f s), faults, s)

/-- Write the program's own memory. -/
def assign (f : σ → σ) : Prog σ ε Unit := fun faults s => (.returned (), faults, f s)

/-- A call that nothing befalls. -/
def attempt (f : σ → Except ε α × σ) : Prog σ ε α := fun faults s =>
  match f s with
  | (.ok a, s') => (.returned a, faults, s')
  | (.error e, s') => (.raised e, faults, s')

/-- A call on the outside world: its own outcome, unless something befalls it. -/
def call (f : σ → Except ε α × σ) : Prog σ ε α := fun faults s =>
  match faults with
  | [] => attempt f [] s
  | .none :: rest => attempt f rest s
  | .raise e after :: rest => (.raised e, rest, if after then (f s).2 else s)
  | .kill after :: rest => (.killed, rest, if after then (f s).2 else s)

/-- A call that only changes the world. -/
def act (f : σ → σ) : Prog σ ε Unit := call fun s => (.ok (), f s)

/-- A call that only looks at the world. -/
def look (f : σ → α) : Prog σ ε α := call fun s => (.ok (f s), s)

/-- A call that has taken effect only if it returns. -/
def atomic (f : σ → Except ε α × σ) : Prog σ ε α := do
  look fun _ => ()
  attempt f

/-- `try: p except e: handler(e)`. A kill is not caught. -/
def tryCatch (p : Prog σ ε α) (handler : ε → Prog σ ε α) : Prog σ ε α := fun faults s =>
  match p faults s with
  | (.raised e, faults', s') => handler e faults' s'
  | other => other

/-- `try: p finally: last`. -/
def tryFinally (p : Prog σ ε α) (last : Prog σ ε Unit) : Prog σ ε α := do
  let a ← p.tryCatch fun e => do
    last
    raise e
  last
  pure a

/-- `if c: raise e`. -/
def raiseWhen (c : Bool) (e : ε) : Prog σ ε Unit := if c then raise e else pure ()

/-- `for x in xs: body(x)`. -/
def forEach : List β → (β → Prog σ ε Unit) → Prog σ ε Unit
  | [], _ => pure ()
  | x :: xs, body => do
      body x
      forEach xs body

/-- How `p` ends, and where. -/
def run (p : Prog σ ε α) (faults : List (Fault ε)) (s : σ) : Exit ε α × σ :=
  ((p faults s).1, (p faults s).2.2)

/-! ## Pre- and postconditions -/

/-- From a state with `P`, whatever befalls the calls, `p` ends with `Q`. -/
def Triple (P : σ → Prop) (p : Prog σ ε α) (Q : Exit ε α → σ → Prop) : Prop :=
  ∀ faults s, P s → Q (p faults s).1 (p faults s).2.2

variable {P P' : σ → Prop} {I : σ → Prop}

theorem Triple.weaken {p : Prog σ ε α} {Q Q' : Exit ε α → σ → Prop} (h : Triple P p Q)
    (hP : ∀ s, P' s → P s) (hQ : ∀ x s, Q x s → Q' x s) : Triple P' p Q' :=
  fun faults s hs => hQ _ _ (h faults s (hP s hs))

theorem Triple.run {p : Prog σ ε α} {Q : Exit ε α → σ → Prop} {faults : List (Fault ε)} {s s' : σ}
    {x : Exit ε α} (h : Triple P p Q) (hs : P s) (hrun : p.run faults s = (x, s')) : Q x s' := by
  obtain ⟨rfl, rfl⟩ := Prod.mk.inj hrun
  exact h faults s hs

/-- A fact about the state before can be used as a hypothesis. -/
theorem Triple.assume {p : Prog σ ε α} {Q : Exit ε α → σ → Prop} {φ : Prop}
    (h : φ → Triple P p Q) : Triple (fun s => φ ∧ P s) p Q :=
  fun faults s hs => h hs.1 faults s hs.2

theorem triple_pure {Q : Exit ε α → σ → Prop} {a : α} (h : ∀ s, P s → Q (.returned a) s) :
    Triple P (Pure.pure a : Prog σ ε α) Q := fun _ s hs => h s hs

theorem triple_raise {Q : Exit ε α → σ → Prop} {e : ε} (h : ∀ s, P s → Q (.raised e) s) :
    Triple P (raise e) Q := fun _ s hs => h s hs

/-- **The rule of the semicolon.** A first part that does not return ends the whole. -/
theorem triple_bind {p : Prog σ ε α} {f : α → Prog σ ε β} {R : Exit ε α → σ → Prop}
    {Q : Exit ε β → σ → Prop} (hp : Triple P p R)
    (hf : ∀ a, Triple (R (.returned a)) (f a) Q)
    (hraised : ∀ e s, R (.raised e) s → Q (.raised e) s)
    (hkilled : ∀ s, R .killed s → Q .killed s) : Triple P (p >>= f) Q := by
  intro faults s hs
  have h := hp faults s hs
  show Q (andThen p f faults s).1 (andThen p f faults s).2.2
  unfold andThen
  split
  · rename_i a faults' s' heq
    rw [heq] at h
    exact hf a faults' s' h
  · rename_i e faults' s' heq
    rw [heq] at h
    exact hraised e s' h
  · rename_i faults' s' heq
    rw [heq] at h
    exact hkilled s' h

theorem triple_peek {f : σ → α} {Q : Exit ε α → σ → Prop} (h : ∀ s, P s → Q (.returned (f s)) s) :
    Triple P (peek f) Q := fun _ s hs => h s hs

theorem triple_assign {f : σ → σ} {Q : Exit ε Unit → σ → Prop}
    (h : ∀ s, P s → Q (.returned ()) (f s)) : Triple P (assign f) Q := fun _ s hs => h s hs

/-- Writing memory cannot fail, so the rest always runs. -/
theorem triple_assign_bind {f : σ → σ} {p : Prog σ ε α} {Q : Exit ε α → σ → Prop} {R : σ → Prop}
    (h : Triple R p Q) (hf : ∀ s, P s → R (f s)) : Triple P (assign f >>= fun _ => p) Q :=
  fun faults s hs => h faults (f s) (hf s hs)

/-- **The rule of a call.** It ends its own way, or is cut short before or after its effect. -/
theorem triple_call {f : σ → Except ε α × σ} {Q : Exit ε α → σ → Prop}
    (hok : ∀ s a s', P s → f s = (.ok a, s') → Q (.returned a) s')
    (herror : ∀ s e s', P s → f s = (.error e, s') → Q (.raised e) s')
    (hraised : ∀ e s, P s → Q (.raised e) s ∧ Q (.raised e) (f s).2)
    (hkilled : ∀ s, P s → Q .killed s ∧ Q .killed (f s).2) : Triple P (call f) Q := by
  intro faults s hs
  have hattempt : ∀ rest, Q (attempt f rest s).1 (attempt f rest s).2.2 := fun rest => by
    unfold attempt
    split
    · rename_i a s' heq
      exact hok s a s' hs heq
    · rename_i e s' heq
      exact herror s e s' hs heq
  unfold call
  split
  · exact hattempt []
  · exact hattempt _
  · rename_i e after rest
    cases after with
    | false => exact (hraised e s hs).1
    | true => exact (hraised e s hs).2
  · rename_i after rest
    cases after with
    | false => exact (hkilled s hs).1
    | true => exact (hkilled s hs).2

theorem triple_act {f : σ → σ} {Q : Exit ε Unit → σ → Prop}
    (hok : ∀ s, P s → Q (.returned ()) (f s))
    (hraised : ∀ e s, P s → Q (.raised e) s ∧ Q (.raised e) (f s))
    (hkilled : ∀ s, P s → Q .killed s ∧ Q .killed (f s)) : Triple P (act f) Q := by
  refine triple_call (fun s a s' hs h => ?_) (fun s e s' _ h => ?_) hraised hkilled
  · obtain ⟨_, rfl⟩ := Prod.mk.inj h
    exact hok s hs
  · cases h

theorem triple_look {f : σ → α} {Q : Exit ε α → σ → Prop}
    (hok : ∀ s, P s → Q (.returned (f s)) s) (hraised : ∀ e s, P s → Q (.raised e) s)
    (hkilled : ∀ s, P s → Q .killed s) : Triple P (look f) Q := by
  refine triple_call (fun s a s' hs h => ?_) (fun s e s' _ h => ?_)
    (fun e s hs => ⟨hraised e s hs, hraised e s hs⟩) fun s hs => ⟨hkilled s hs, hkilled s hs⟩
  · obtain ⟨ha, rfl⟩ := Prod.mk.inj h
    rw [← Except.ok.inj ha]
    exact hok s hs
  · cases h

theorem triple_attempt {f : σ → Except ε α × σ} {Q : Exit ε α → σ → Prop}
    (hok : ∀ s a s', P s → f s = (.ok a, s') → Q (.returned a) s')
    (herror : ∀ s e s', P s → f s = (.error e, s') → Q (.raised e) s') :
    Triple P (attempt f) Q := by
  intro faults s hs
  unfold attempt
  split
  · rename_i a s' heq
    exact hok s a s' hs heq
  · rename_i e s' heq
    exact herror s e s' hs heq

/-- **The rule of an atomic call.** Cut short, it has done nothing. -/
theorem triple_atomic {f : σ → Except ε α × σ} {Q : Exit ε α → σ → Prop}
    (hok : ∀ s a s', P s → f s = (.ok a, s') → Q (.returned a) s')
    (herror : ∀ s e s', P s → f s = (.error e, s') → Q (.raised e) s')
    (hraised : ∀ e s, P s → Q (.raised e) s) (hkilled : ∀ s, P s → Q .killed s) :
    Triple P (atomic f) Q := by
  refine triple_bind (R := fun x s => match x with
    | .returned _ => P s
    | .raised e => Q (.raised e) s
    | .killed => Q .killed s) ?_ (fun _ => triple_attempt hok herror) (fun _ _ h => h) fun _ h => h
  exact triple_look (fun _ hs => hs) hraised hkilled

/-- **The rule of `try`.** The handler starts where the body raised. -/
theorem triple_tryCatch {p : Prog σ ε α} {handler : ε → Prog σ ε α} {R Q : Exit ε α → σ → Prop}
    (hp : Triple P p R) (hhandler : ∀ e, Triple (R (.raised e)) (handler e) Q)
    (hreturned : ∀ a s, R (.returned a) s → Q (.returned a) s)
    (hkilled : ∀ s, R .killed s → Q .killed s) : Triple P (p.tryCatch handler) Q := by
  intro faults s hs
  have h := hp faults s hs
  unfold tryCatch
  cases hrun : p faults s with
  | mk x r =>
      rw [hrun] at h
      cases x with
      | returned a => exact hreturned a _ h
      | raised e => exact hhandler e _ _ h
      | killed => exact hkilled _ h

/-- **The rule of `finally`.** The last part starts where the body returned or raised, and ends the
whole the way the body ended unless it raises itself. -/
theorem triple_tryFinally {p : Prog σ ε α} {last : Prog σ ε Unit} {R Q : Exit ε α → σ → Prop}
    (hp : Triple P p R)
    (hreturned : ∀ a, Triple (R (.returned a)) last fun x s =>
      match x with
      | .returned _ => Q (.returned a) s
      | .raised e => Q (.raised e) s
      | .killed => Q .killed s)
    (hraised : ∀ e, Triple (R (.raised e)) last fun x s =>
      match x with
      | .returned _ => Q (.raised e) s
      | .raised e' => Q (.raised e') s
      | .killed => Q .killed s)
    (hkilled : ∀ s, R .killed s → Q .killed s) : Triple P (p.tryFinally last) Q := by
  refine triple_bind (R := fun x s =>
    match x with
    | .returned a => R (.returned a) s
    | .raised e => Q (.raised e) s
    | .killed => Q .killed s) ?_ (fun a => ?_) (fun _ _ h => h) fun _ h => h
  · refine triple_tryCatch hp (fun e => ?_) (fun _ _ h => h) hkilled
    exact triple_bind (hraised e) (fun _ => triple_raise fun _ h => h) (fun _ _ h => h) fun _ h => h
  · exact triple_bind (hreturned a) (fun _ => triple_pure fun _ h => h) (fun _ _ h => h) fun _ h => h

/-- **The rule of the loop.** `J rest` holds before each round over `rest`. -/
theorem triple_forEach {body : β → Prog σ ε Unit} {J : List β → σ → Prop}
    {Q : Exit ε Unit → σ → Prop}
    (hbody : ∀ x rest, Triple (J (x :: rest)) (body x) fun r s =>
      match r with
      | .returned _ => J rest s
      | .raised e => Q (.raised e) s
      | .killed => Q .killed s)
    (hdone : ∀ s, J [] s → Q (.returned ()) s) :
    ∀ xs, Triple (J xs) (forEach xs body) Q := by
  intro xs
  induction xs with
  | nil => exact triple_pure hdone
  | cons x rest ih =>
      exact triple_bind (hbody x rest) (fun _ => ih) (fun _ _ h => h) fun _ h => h

theorem triple_ite {c : Prop} [Decidable c] {p q : Prog σ ε α} {Q : Exit ε α → σ → Prop}
    (hp : c → Triple P p Q) (hq : ¬ c → Triple P q Q) : Triple P (if c then p else q) Q := by
  by_cases h : c
  · rw [if_pos h]
    exact hp h
  · rw [if_neg h]
    exact hq h

/-- A check that raises, before the rest. -/
theorem triple_raiseWhen_bind {c : Bool} {e : ε} {p : Unit → Prog σ ε α}
    {Q : Exit ε α → σ → Prop} (hraise : c = true → ∀ s, P s → Q (.raised e) s)
    (hp : c = false → Triple P (p ()) Q) : Triple P (raiseWhen c e >>= p) Q := by
  cases c with
  | true => exact fun _ s hs => hraise rfl s hs
  | false => exact fun faults s hs => hp rfl faults s hs

/-! ## What holds throughout -/

/-- `p` keeps `I`, however it ends. -/
def Always (I : σ → Prop) (p : Prog σ ε α) : Prop := Triple I p fun _ s => I s

theorem always_pure (a : α) : Always I (Pure.pure a : Prog σ ε α) := triple_pure fun _ h => h

theorem always_raise (e : ε) : Always I (raise e : Prog σ ε α) := triple_raise fun _ h => h

theorem always_bind {p : Prog σ ε α} {f : α → Prog σ ε β} (hp : Always I p)
    (hf : ∀ a, Always I (f a)) : Always I (p >>= f) :=
  triple_bind hp hf (fun _ _ h => h) fun _ h => h

theorem always_map {p : Prog σ ε α} (f : α → β) (hp : Always I p) : Always I (f <$> p) :=
  always_bind hp fun _ => always_pure _

theorem always_peek (f : σ → α) : Always I (peek f : Prog σ ε α) := triple_peek fun _ h => h

theorem always_assign {f : σ → σ} (h : ∀ s, I s → I (f s)) : Always I (assign f : Prog σ ε Unit) :=
  triple_assign h

theorem always_call {f : σ → Except ε α × σ} (h : ∀ s, I s → I (f s).2) : Always I (call f) :=
  triple_call (fun s _ s' hs heq => by rw [← show (f s).2 = s' by rw [heq]]; exact h s hs)
    (fun s _ s' hs heq => by rw [← show (f s).2 = s' by rw [heq]]; exact h s hs)
    (fun _ s hs => ⟨hs, h s hs⟩) fun s hs => ⟨hs, h s hs⟩

theorem always_act {f : σ → σ} (h : ∀ s, I s → I (f s)) : Always I (act f : Prog σ ε Unit) :=
  always_call h

theorem always_look (f : σ → α) : Always I (look f : Prog σ ε α) := always_call fun _ h => h

theorem always_tryCatch {p : Prog σ ε α} {handler : ε → Prog σ ε α} (hp : Always I p)
    (hhandler : ∀ e, Always I (handler e)) : Always I (p.tryCatch handler) :=
  triple_tryCatch hp hhandler (fun _ _ h => h) fun _ h => h

theorem always_tryFinally {p : Prog σ ε α} {last : Prog σ ε Unit} (hp : Always I p)
    (hlast : Always I last) : Always I (p.tryFinally last) :=
  always_bind (always_tryCatch hp fun _ => always_bind hlast fun _ => always_raise _) fun a =>
    always_bind hlast fun _ => always_pure a

theorem always_raiseWhen (c : Bool) (e : ε) : Always I (raiseWhen c e : Prog σ ε Unit) := by
  cases c with
  | true => exact always_raise e
  | false => exact always_pure ()

theorem always_forEach {body : β → Prog σ ε Unit} (h : ∀ x, Always I (body x)) (xs : List β) :
    Always I (forEach xs body) :=
  triple_forEach (J := fun _ => I)
    (fun x _ => (h x).weaken (fun _ hs => hs) fun r _ hs => by cases r <;> exact hs)
    (fun _ hs => hs) xs

/-- The same where the rounds differ. -/
theorem always_forEach_mem {body : β → Prog σ ε Unit} :
    ∀ xs, (∀ x ∈ xs, Always I (body x)) → Always I (forEach xs body) := by
  intro xs
  induction xs with
  | nil => exact fun _ => always_pure ()
  | cons x rest ih =>
      exact fun h => always_bind (h x List.mem_cons_self) fun _ =>
        ih fun y hy => h y (List.mem_cons_of_mem _ hy)

theorem always_ite {c : Prop} [Decidable c] {p q : Prog σ ε α} (hp : c → Always I p)
    (hq : ¬ c → Always I q) : Always I (if c then p else q) := triple_ite hp hq

/-! ## What a program yields -/

/-- From `P`, `p` keeps `I` however it ends, and `φ` holds of what it returns. -/
def Yields (P I : σ → Prop) (p : Prog σ ε α) (φ : α → σ → Prop) : Prop :=
  Triple P p fun x s => I s ∧ ∀ a, x = .returned a → φ a s

variable {φ : α → σ → Prop} {ψ : β → σ → Prop}

theorem Yields.weaken {p : Prog σ ε α} {φ' : α → σ → Prop} (h : Yields P I p φ)
    (hP : ∀ s, P' s → P s) (hφ : ∀ a s, I s → φ a s → φ' a s) : Yields P' I p φ' :=
  Triple.weaken h hP fun _ s hs => ⟨hs.1, fun a ha => hφ a s hs.1 (hs.2 a ha)⟩

theorem Yields.always {p : Prog σ ε α} (h : Yields I I p φ) : Always I p :=
  Triple.weaken h (fun _ hs => hs) fun _ _ hs => hs.1

/-- What keeps a stronger property has it afterwards. -/
theorem Always.yields {p : Prog σ ε α} (h : Always P p) (hI : ∀ s, P s → I s) :
    Yields P I p fun _ => P :=
  Triple.weaken h (fun _ hs => hs) fun _ s hs => ⟨hI s hs, fun _ _ => hs⟩

/-- To forget how much is kept however `p` ends, but not how much it keeps when it returns. -/
theorem Yields.out {p : Prog σ ε α} {J : σ → Prop} (h : Yields P J p φ) (hJ : ∀ s, J s → I s) :
    Yields P I p fun a s => J s ∧ φ a s :=
  Triple.weaken h (fun _ hs => hs) fun _ s hs => ⟨hJ s hs.1, fun a ha => ⟨hs.1, hs.2 a ha⟩⟩

theorem Always.yields_of {p : Prog σ ε α} (h : Always I p) (hφ : ∀ a s, I s → φ a s) :
    Yields I I p φ :=
  Triple.weaken h (fun _ hs => hs) fun _ s hs => ⟨hs, fun a _ => hφ a s hs⟩

/-- A fact about results alone can be used as a hypothesis. -/
theorem yields_assume {p : Prog σ ε α} {c : Prop} (h : c → Yields P I p φ) :
    Yields (fun s => P s ∧ c) I p φ := fun faults s hs => h hs.2 faults s hs.1

theorem yields_pure {a : α} (hI : ∀ s, P s → I s) (h : ∀ s, P s → φ a s) :
    Yields P I (Pure.pure a : Prog σ ε α) φ :=
  triple_pure fun s hs => ⟨hI s hs, fun _ ha => Exit.returned.inj ha ▸ h s hs⟩

theorem yields_raise {e : ε} (hI : ∀ s, P s → I s) : Yields P I (raise e : Prog σ ε α) φ :=
  triple_raise fun s hs => ⟨hI s hs, fun _ ha => by cases ha⟩

theorem yields_raiseWhen {c : Bool} {e : ε} (hI : ∀ s, P s → I s) :
    Yields P I (raiseWhen c e : Prog σ ε Unit) fun _ s => c = false ∧ P s := by
  cases c with
  | true => exact yields_raise hI
  | false => exact yields_pure hI fun s hs => ⟨rfl, hs⟩

theorem yields_peek {f : σ → α} (hI : ∀ s, P s → I s) (h : ∀ s, P s → φ (f s) s) :
    Yields P I (peek f : Prog σ ε α) φ :=
  triple_peek fun s hs => ⟨hI s hs, fun _ ha => Exit.returned.inj ha ▸ h s hs⟩

theorem yields_assign {f : σ → σ} {φ : Unit → σ → Prop} (hI : ∀ s, P s → I (f s))
    (h : ∀ s, P s → φ () (f s)) : Yields P I (assign f : Prog σ ε Unit) φ :=
  triple_assign fun s hs => ⟨hI s hs, fun _ _ => h s hs⟩

theorem yields_look {f : σ → α} (hI : ∀ s, P s → I s) (h : ∀ s, P s → φ (f s) s) :
    Yields P I (look f : Prog σ ε α) φ :=
  triple_look (fun s hs => ⟨hI s hs, fun _ ha => Exit.returned.inj ha ▸ h s hs⟩)
    (fun _ s hs => ⟨hI s hs, fun _ ha => by cases ha⟩) fun s hs => ⟨hI s hs, fun _ ha => by cases ha⟩

theorem yields_call {f : σ → Except ε α × σ} (hI : ∀ s, P s → I s)
    (hI' : ∀ s, P s → I (f s).2) (h : ∀ s a s', P s → f s = (.ok a, s') → φ a s') :
    Yields P I (call f) φ := by
  refine triple_call (fun s a s' hs heq => ?_) (fun s e s' hs heq => ?_)
    (fun _ s hs => ⟨⟨hI s hs, fun _ ha => by cases ha⟩, hI' s hs, fun _ ha => by cases ha⟩)
    fun s hs => ⟨⟨hI s hs, fun _ ha => by cases ha⟩, hI' s hs, fun _ ha => by cases ha⟩
  · have hs' := hI' s hs
    rw [heq] at hs'
    exact ⟨hs', fun a' ha => Exit.returned.inj ha ▸ h s a s' hs heq⟩
  · have hs' := hI' s hs
    rw [heq] at hs'
    exact ⟨hs', fun _ ha => by cases ha⟩

theorem yields_atomic {f : σ → Except ε α × σ} (hI : ∀ s, P s → I s)
    (h : ∀ s a s', P s → f s = (.ok a, s') → I s' ∧ φ a s')
    (herror : ∀ s e s', P s → f s = (.error e, s') → I s') : Yields P I (atomic f) φ :=
  triple_atomic
    (fun s a s' hs heq => ⟨(h s a s' hs heq).1, fun _ ha => Exit.returned.inj ha ▸ (h s a s' hs heq).2⟩)
    (fun s e s' hs heq => ⟨herror s e s' hs heq, fun _ ha => by cases ha⟩)
    (fun _ s hs => ⟨hI s hs, fun _ ha => by cases ha⟩) fun s hs => ⟨hI s hs, fun _ ha => by cases ha⟩

theorem yields_act {f : σ → σ} {φ : Unit → σ → Prop} (hI : ∀ s, P s → I s)
    (hI' : ∀ s, P s → I (f s)) (h : ∀ s, P s → φ () (f s)) :
    Yields P I (act f : Prog σ ε Unit) φ :=
  yields_call hI hI' fun s _ _ hs heq => (Prod.mk.inj heq).2 ▸ h s hs

/-- **The rule of the semicolon.** -/
theorem yields_bind {p : Prog σ ε α} {f : α → Prog σ ε β} (hp : Yields P I p φ)
    (hf : ∀ a, Yields (fun s => I s ∧ φ a s) I (f a) ψ) : Yields P I (p >>= f) ψ :=
  triple_bind hp (fun a _ s hs => hf a _ s ⟨hs.1, hs.2 a rfl⟩)
    (fun _ s hs => ⟨hs.1, fun _ ha => by cases ha⟩) fun s hs => ⟨hs.1, fun _ ha => by cases ha⟩

theorem yields_map {p : Prog σ ε α} {f : α → β} (hp : Yields P I p fun a s => ψ (f a) s) :
    Yields P I (f <$> p) ψ :=
  yields_bind hp fun _ => yields_pure (fun _ hs => hs.1) fun _ hs => hs.2

/-- The rule where the second part needs no more than the first yields. -/
theorem yields_seq {p : Prog σ ε α} {f : α → Prog σ ε β} (hp : Yields P I p φ)
    (hf : ∀ a, Yields (φ a) I (f a) ψ) : Yields P I (p >>= f) ψ :=
  yields_bind hp fun a => (hf a).weaken (fun _ hs => hs.2) fun _ _ _ h => h

/-- The rule where the first part yields a fact about its result. -/
theorem yields_learn {p : Prog σ ε α} {f : α → Prog σ ε β} {c : α → Prop} {Q : σ → Prop}
    (hp : Yields P I p fun a s => c a ∧ Q s) (hf : ∀ a, c a → Yields Q I (f a) ψ) :
    Yields P I (p >>= f) ψ :=
  yields_seq hp fun a => (yields_assume (hf a)).weaken (fun _ h => ⟨h.2, h.1⟩) fun _ _ _ h => h

theorem yields_raiseWhen_bind {c : Bool} {e : ε} {p : Unit → Prog σ ε α} (hI : ∀ s, P s → I s)
    (hp : c = false → Yields P I (p ()) φ) : Yields P I (raiseWhen c e >>= p) φ :=
  triple_raiseWhen_bind (fun _ s hs => ⟨hI s hs, fun _ ha => by cases ha⟩) hp

/-- A first part that keeps `P`. -/
theorem Always.yields_bind {p : Prog σ ε α} {f : α → Prog σ ε β} (hp : Always P p)
    (hI : ∀ s, P s → I s) (hf : ∀ a, Yields P I (f a) ψ) : Yields P I (p >>= f) ψ :=
  Prog.yields_bind (hp.yields hI) fun a => (hf a).weaken (fun _ hs => hs.2) fun _ _ _ h => h

theorem yields_ite {c : Prop} [Decidable c] {p q : Prog σ ε α} (hp : c → Yields P I p φ)
    (hq : ¬ c → Yields P I q φ) : Yields P I (if c then p else q) φ := triple_ite hp hq

theorem yields_tryCatch {p : Prog σ ε α} {handler : ε → Prog σ ε α} (hp : Yields P I p φ)
    (hhandler : ∀ e, Yields I I (handler e) φ) : Yields P I (p.tryCatch handler) φ :=
  triple_tryCatch hp (fun e => Triple.weaken (hhandler e) (fun _ hs => hs.1) fun _ _ hs => hs)
    (fun _ _ h => h) fun _ h => h

/-- **The rule of the loop.** `J rest` holds before each round over `rest`. -/
theorem yields_forEach {body : β → Prog σ ε Unit} {J : List β → σ → Prop}
    (hbody : ∀ x rest, Yields (fun s => I s ∧ J (x :: rest) s) I (body x) fun _ s => J rest s) :
    ∀ xs, Yields (fun s => I s ∧ J xs s) I (forEach xs body) fun _ s => J [] s := by
  intro xs
  induction xs with
  | nil => exact yields_pure (fun _ hs => hs.1) fun _ hs => hs.2
  | cons x rest ih => exact yields_bind (hbody x rest) fun _ => ih

theorem always_peek_bind {f : σ → α} {g : α → Prog σ ε β} {φ : α → Prop}
    (hf : ∀ s, I s → φ (f s)) (hg : ∀ a, φ a → Always I (g a)) : Always I (peek f >>= g) :=
  triple_bind (triple_peek (Q := fun x s => I s ∧ ∀ a, x = .returned a → φ a)
    fun s hs => ⟨hs, fun _ h => Exit.returned.inj h ▸ hf s hs⟩)
    (fun a _ s hs => hg a (hs.2 a rfl) _ s hs.1) (fun _ _ h => h.1) fun _ h => h.1

/-! ## Where a program leads -/

/-- From `s`, `p` ends within `I` whatever befalls its calls, returns nothing but `a` in `s'`, and
does return it where nothing befalls them. -/
structure Leads (I : σ → Prop) (p : Prog σ ε α) (s : σ) (a : α) (s' : σ) : Prop where
  always : ∀ faults, I (p faults s).2.2
  returns : ∀ faults b, (p faults s).1 = .returned b → b = a ∧ (p faults s).2.2 = s'
  completes : p [] s = (.returned a, [], s')

section Leads

variable {s s' s'' : σ} {a : α} {b : β}

theorem leads_pure (hs : I s) : Leads I (Pure.pure a : Prog σ ε α) s a s :=
  ⟨fun _ => hs, fun _ _ h => ⟨(Exit.returned.inj h).symm, rfl⟩, rfl⟩

/-- **The rule of the semicolon.** -/
theorem leads_bind {p : Prog σ ε α} {f : α → Prog σ ε β} (hp : Leads I p s a s')
    (hf : Leads I (f a) s' b s'') : Leads I (p >>= f) s b s'' := by
  have hrun : ∀ faults, (∃ faults', (p >>= f) faults s = f a faults' s') ∨
      ((∀ c, ((p >>= f) faults s).1 ≠ .returned c) ∧
        ((p >>= f) faults s).2.2 = (p faults s).2.2) := by
    intro faults
    change (∃ faults', andThen p f faults s = f a faults' s') ∨
      ((∀ c, (andThen p f faults s).1 ≠ .returned c) ∧
        (andThen p f faults s).2.2 = (p faults s).2.2)
    have hreturns := hp.returns faults
    unfold andThen
    generalize p faults s = r at hreturns ⊢
    obtain ⟨x, rest, s₁⟩ := r
    cases x with
    | returned c =>
        obtain ⟨rfl, hs'⟩ := hreturns c rfl
        change s₁ = s' at hs'
        exact .inl ⟨rest, by rw [hs']⟩
    | raised e => exact .inr ⟨fun c hc => (by cases hc), rfl⟩
    | killed => exact .inr ⟨fun c hc => (by cases hc), rfl⟩
  refine ⟨fun faults => ?_, fun faults c hc => ?_, ?_⟩
  · rcases hrun faults with ⟨faults', h⟩ | ⟨_, h⟩
    · rw [h]
      exact hf.always faults'
    · rw [h]
      exact hp.always faults
  · rcases hrun faults with ⟨faults', h⟩ | ⟨h, _⟩
    · rw [h] at hc ⊢
      exact hf.returns faults' c hc
    · exact absurd hc (h c)
  · change andThen p f [] s = _
    unfold andThen
    rw [hp.completes]
    exact hf.completes

theorem leads_assign {f : σ → σ} (hs : I (f s)) : Leads I (assign f : Prog σ ε Unit) s () (f s) :=
  ⟨fun _ => hs, fun _ _ _ => ⟨rfl, rfl⟩, rfl⟩

/-- **The rule of a call** that has an outcome of its own. -/
theorem leads_call {f : σ → Except ε α × σ} (hf : f s = (.ok a, s')) (hs : I s) (hs' : I s') :
    Leads I (call f) s a s' := by
  have hattempt : ∀ rest, attempt f rest s = (.returned a, rest, s') := fun rest => by
    unfold attempt
    rw [hf]
  refine ⟨fun faults => ?_, fun faults b hb => ?_, hattempt []⟩
  · unfold call
    split
    · rw [hattempt]
      exact hs'
    · rw [hattempt]
      exact hs'
    · split
      · rw [hf]
        exact hs'
      · exact hs
    · split
      · rw [hf]
        exact hs'
      · exact hs
  · unfold call at hb ⊢
    split at hb
    · rw [hattempt] at hb ⊢
      exact ⟨(Exit.returned.inj hb).symm, rfl⟩
    · rw [hattempt] at hb ⊢
      exact ⟨(Exit.returned.inj hb).symm, rfl⟩
    · cases hb
    · cases hb

theorem leads_act {f : σ → σ} (hs : I s) (hs' : I (f s)) :
    Leads I (act f : Prog σ ε Unit) s () (f s) := leads_call rfl hs hs'

theorem leads_look {f : σ → α} (hs : I s) : Leads I (look f : Prog σ ε α) s (f s) s :=
  leads_call rfl hs hs

theorem leads_raiseWhen {c : Bool} {e : ε} (hc : c = false) (hs : I s) :
    Leads I (raiseWhen c e : Prog σ ε Unit) s () s := by
  subst hc
  exact leads_pure hs

theorem leads_ite {c : Prop} [Decidable c] {p q : Prog σ ε α} (hp : c → Leads I p s a s')
    (hq : ¬ c → Leads I q s a s') : Leads I (if c then p else q) s a s' := by
  by_cases h : c
  · rw [if_pos h]
    exact hp h
  · rw [if_neg h]
    exact hq h

/-- Wherever `p` leads from `s`, `Q` holds of it. -/
def Ends (I : σ → Prop) (p : Prog σ ε α) (s : σ) (Q : α → σ → Prop) : Prop :=
  ∃ a s', Leads I p s a s' ∧ Q a s'

variable {p : Prog σ ε α} {Q : α → σ → Prop}

theorem Leads.ends (h : Leads I p s a s') (hQ : Q a s') : Ends I p s Q := ⟨a, s', h, hQ⟩

theorem Ends.weaken {Q' : α → σ → Prop} (h : Ends I p s Q) (hQ : ∀ a s, Q a s → Q' a s) :
    Ends I p s Q' := by
  obtain ⟨a, s', hleads, hQ'⟩ := h
  exact ⟨a, s', hleads, hQ a s' hQ'⟩

theorem ends_bind {f : α → Prog σ ε β} {R : β → σ → Prop} (hp : Ends I p s Q)
    (hf : ∀ a s', Q a s' → Ends I (f a) s' R) : Ends I (p >>= f) s R := by
  obtain ⟨a, s', hleads, hQ⟩ := hp
  obtain ⟨b, s'', hrest, hR⟩ := hf a s' hQ
  exact ⟨b, s'', leads_bind hleads hrest, hR⟩

/-- A first part with one way to go. -/
theorem Leads.ends_bind {f : α → Prog σ ε β} {R : β → σ → Prop} (hp : Leads I p s a s')
    (hf : Ends I (f a) s' R) : Ends I (p >>= f) s R := by
  obtain ⟨b, s'', hrest, hR⟩ := hf
  exact ⟨b, s'', leads_bind hp hrest, hR⟩

theorem ends_pure (hs : I s) (hQ : Q a s) : Ends I (Pure.pure a : Prog σ ε α) s Q :=
  (leads_pure hs).ends hQ

theorem ends_ite {c : Prop} [Decidable c] {q : Prog σ ε α} (hp : c → Ends I p s Q)
    (hq : ¬ c → Ends I q s Q) : Ends I (if c then p else q) s Q := by
  by_cases h : c
  · rw [if_pos h]
    exact hp h
  · rw [if_neg h]
    exact hq h

/-- Whatever befalls its calls, the program keeps to `I`. -/
theorem Ends.run_kept (h : Ends I p s Q) (faults : List (Fault ε)) : I (p.run faults s).2 := by
  obtain ⟨_, _, hleads, _⟩ := h
  exact hleads.always faults

/-- Where nothing befalls its calls, it returns. -/
theorem Ends.run_returns (h : Ends I p s Q) : ∃ a s', p.run [] s = (.returned a, s') ∧ Q a s' := by
  obtain ⟨a, s', hleads, hQ⟩ := h
  refine ⟨a, s', ?_, hQ⟩
  unfold run
  rw [hleads.completes]

/-! ### Programs that raise -/

/-- Where nothing befalls its calls, the program raises `e`. -/
def Raises (p : Prog σ ε α) (s : σ) (e : ε) : Prop := (p.run [] s).1 = .raised e

theorem raises_call {f : σ → Except ε α × σ} {e : ε} (hf : f s = (.error e, s')) :
    Raises (call f) s e := by
  unfold Raises run
  change (attempt f [] s).1 = _
  unfold attempt
  rw [hf]

/-- A first part that raises. -/
theorem Raises.bind {f : α → Prog σ ε β} {e : ε} (hp : Raises p s e) : Raises (p >>= f) s e := by
  unfold Raises run at hp ⊢
  change (andThen p f [] s).1 = _
  unfold andThen
  generalize p [] s = r at hp
  obtain ⟨x, rest, s₁⟩ := r
  dsimp only at hp
  rw [hp]

/-- A first part with one way to go. -/
theorem Leads.raises_bind {f : α → Prog σ ε β} {e : ε} (hp : Leads I p s a s')
    (hf : Raises (f a) s' e) : Raises (p >>= f) s e := by
  unfold Raises run at hf ⊢
  change (andThen p f [] s).1 = _
  unfold andThen
  rw [hp.completes]
  exact hf

/-- A property of programs that is found from their ends: it holds where it holds of what is left
after a first part with one way to go. -/
def Backward (I : σ → Prop) (R : Prog σ ε α → σ → Prop) : Prop :=
  ∀ {β : Type} {p : Prog σ ε β} {f : β → Prog σ ε α} {s s' : σ} {b : β},
    Leads I p s b s' → R (f b) s' → R (p >>= f) s

theorem backward_ends : Backward I fun (p : Prog σ ε α) s => Ends I p s Q := fun hp hf => hp.ends_bind hf

/-- To keep to `I`, whatever befalls the calls, is found so as well. -/
theorem backward_kept : Backward I fun (p : Prog σ ε α) s => ∀ faults, I (p faults s).2.2 := by
  intro β p f s s' b hp hf faults
  change I (andThen p f faults s).2.2
  have halways := hp.always faults
  have hreturns := hp.returns faults
  unfold andThen
  generalize p faults s = r at halways hreturns ⊢
  obtain ⟨x, rest, s₁⟩ := r
  cases x with
  | returned c =>
      obtain ⟨rfl, rfl⟩ := hreturns c rfl
      exact hf rest
  | raised e => exact halways
  | killed => exact halways

theorem backward_raises {e : ε} : Backward I fun (p : Prog σ ε α) s => Raises p s e :=
  fun hp hf => hp.raises_bind hf

end Leads

/-! ## Where nothing goes wrong -/

section Outcomes

variable {p : Prog σ ε α} {s s' : σ} {a : α} {e : ε}

theorem call_returned {f : σ → Except ε α × σ} (h : f s = (.ok a, s')) :
    call f [] s = (.returned a, [], s') := by
  show attempt f [] s = _
  unfold attempt
  rw [h]

theorem call_raised {f : σ → Except ε α × σ} (h : f s = (.error e, s')) :
    call f [] s = (.raised e, [], s') := by
  show attempt f [] s = _
  unfold attempt
  rw [h]

theorem bind_returned {f : α → Prog σ ε β} (h : p [] s = (.returned a, [], s')) :
    (p >>= f) [] s = f a [] s' := by
  show andThen p f [] s = _
  unfold andThen
  rw [h]

theorem bind_raised {f : α → Prog σ ε β} (h : p [] s = (.raised e, [], s')) :
    (p >>= f) [] s = (.raised e, [], s') := by
  show andThen p f [] s = _
  unfold andThen
  rw [h]

theorem tryCatch_returned {handler : ε → Prog σ ε α} (h : p [] s = (.returned a, [], s')) :
    p.tryCatch handler [] s = (.returned a, [], s') := by
  unfold tryCatch
  rw [h]

theorem tryCatch_raised {handler : ε → Prog σ ε α} (h : p [] s = (.raised e, [], s')) :
    p.tryCatch handler [] s = handler e [] s' := by
  unfold tryCatch
  rw [h]

/-- Where nothing befalls its calls, `p` ends as `R` says. -/
def Comes (p : Prog σ ε α) (s : σ) (R : Exit ε α → σ → Prop) : Prop :=
  ∃ x s', p [] s = (x, [], s') ∧ R x s'

variable {R : Exit ε α → σ → Prop} {Q : Exit ε β → σ → Prop}

theorem Comes.run (h : Comes p s R) : R (p.run [] s).1 (p.run [] s).2 := by
  obtain ⟨x, s', hrun, hR⟩ := h
  unfold Prog.run
  rw [hrun]
  exact hR

theorem comes_pure (h : R (.returned a) s) : Comes (Pure.pure a : Prog σ ε α) s R :=
  ⟨_, _, rfl, h⟩

theorem comes_raise (h : R (.raised e) s) : Comes (raise e : Prog σ ε α) s R := ⟨_, _, rfl, h⟩

/-- A first part that returns. -/
theorem comes_bind {f : α → Prog σ ε β} (hp : p [] s = (.returned a, [], s'))
    (hf : Comes (f a) s' Q) : Comes (p >>= f) s Q := by
  obtain ⟨x, s'', hrun, hQ⟩ := hf
  exact ⟨x, s'', (bind_returned hp).trans hrun, hQ⟩

/-- A first part that raises. -/
theorem comes_bind_raised {f : α → Prog σ ε β} (hp : p [] s = (.raised e, [], s'))
    (hQ : Q (.raised e) s') : Comes (p >>= f) s Q := ⟨_, _, bind_raised hp, hQ⟩

theorem comes_peek {f : σ → α} {g : α → Prog σ ε β} (h : Comes (g (f s)) s Q) :
    Comes (peek f >>= g) s Q := comes_bind rfl h

theorem comes_assign {f : σ → σ} {g : Unit → Prog σ ε β} (h : Comes (g ()) (f s) Q) :
    Comes (assign f >>= g) s Q := comes_bind rfl h

theorem comes_ite {c : Prop} [Decidable c] {q : Prog σ ε α} (hp : c → Comes p s R)
    (hq : ¬ c → Comes q s R) : Comes (if c then p else q) s R := by
  by_cases h : c
  · rw [if_pos h]
    exact hp h
  · rw [if_neg h]
    exact hq h

/-- What is made of the result. -/
theorem comes_map {f : α → β} (hreturned : ∀ a s', R (.returned a) s' → Q (.returned (f a)) s')
    (hraised : ∀ e s', R (.raised e) s' → Q (.raised e) s')
    (hkilled : ∀ s', R .killed s' → Q .killed s') (h : Comes p s R) : Comes (f <$> p) s Q := by
  obtain ⟨x, s', hrun, hR⟩ := h
  have hmap : (f <$> p) [] s = (p >>= fun a => Pure.pure (f a)) [] s := rfl
  cases x with
  | returned a => exact ⟨_, s', hmap.trans (bind_returned hrun), hreturned a s' hR⟩
  | raised e => exact ⟨_, s', hmap.trans (bind_raised hrun), hraised e s' hR⟩
  | killed =>
      refine ⟨.killed, s', hmap.trans ?_, hkilled s' hR⟩
      show andThen p _ [] s = _
      unfold andThen
      rw [hrun]

end Outcomes

/-- Where nothing befalls its calls, `p` keeps `I`; and no fault appears from nowhere. -/
def Calmly (I : σ → Prop) (p : Prog σ ε α) : Prop :=
  ∀ s, I s → (p [] s).2.1 = [] ∧ I (p [] s).2.2

theorem Calmly.run {p : Prog σ ε α} {I : σ → Prop} (h : Calmly I p) {s : σ} (hs : I s) :
    I (p.run [] s).2 := (h s hs).2

theorem calmly_pure {I : σ → Prop} (a : α) : Calmly I (Pure.pure a : Prog σ ε α) :=
  fun _ hs => ⟨rfl, hs⟩

theorem calmly_raise {I : σ → Prop} (e : ε) : Calmly I (raise e : Prog σ ε α) :=
  fun _ hs => ⟨rfl, hs⟩

theorem calmly_peek {I : σ → Prop} (f : σ → α) : Calmly I (peek f : Prog σ ε α) :=
  fun _ hs => ⟨rfl, hs⟩

theorem calmly_assign {I : σ → Prop} {f : σ → σ} (h : ∀ s, I s → I (f s)) :
    Calmly I (assign f : Prog σ ε Unit) := fun s hs => ⟨rfl, h s hs⟩

theorem calmly_call {I : σ → Prop} {f : σ → Except ε α × σ} (h : ∀ s, I s → I (f s).2) :
    Calmly I (call f) := by
  intro s hs
  have hkeeps := h s hs
  show (attempt f [] s).2.1 = [] ∧ I (attempt f [] s).2.2
  unfold attempt
  split <;> rename_i heq <;> rw [heq] at hkeeps <;> exact ⟨rfl, hkeeps⟩

theorem calmly_act {I : σ → Prop} {f : σ → σ} (h : ∀ s, I s → I (f s)) :
    Calmly I (act f : Prog σ ε Unit) := calmly_call h

theorem calmly_look {I : σ → Prop} (f : σ → α) : Calmly I (look f : Prog σ ε α) :=
  calmly_call fun _ hs => hs

/-- **The rule of the semicolon.** -/
theorem calmly_bind {I : σ → Prop} {p : Prog σ ε α} {f : α → Prog σ ε β} (hp : Calmly I p)
    (hf : ∀ a, Calmly I (f a)) : Calmly I (p >>= f) := by
  intro s hs
  obtain ⟨hspent, hkeeps⟩ := hp s hs
  show (andThen p f [] s).2.1 = [] ∧ I (andThen p f [] s).2.2
  unfold andThen
  split
  · rename_i a faults' s' heq
    rw [heq] at hspent hkeeps
    have hspent : faults' = [] := hspent
    rw [hspent]
    exact hf a s' hkeeps
  · rename_i e faults' s' heq
    rw [heq] at hspent hkeeps
    exact ⟨hspent, hkeeps⟩
  · rename_i faults' s' heq
    rw [heq] at hspent hkeeps
    exact ⟨hspent, hkeeps⟩

theorem calmly_tryCatch {I : σ → Prop} {p : Prog σ ε α} {handler : ε → Prog σ ε α}
    (hp : Calmly I p) (hhandler : ∀ e, Calmly I (handler e)) : Calmly I (p.tryCatch handler) := by
  intro s hs
  obtain ⟨hspent, hkeeps⟩ := hp s hs
  unfold tryCatch
  cases hrun : p [] s with
  | mk x r =>
      rw [hrun] at hspent hkeeps
      cases x with
      | raised e =>
          dsimp only
          rw [show r.1 = [] from hspent]
          exact hhandler e r.2 hkeeps
      | returned a => exact ⟨hspent, hkeeps⟩
      | killed => exact ⟨hspent, hkeeps⟩

theorem calmly_raiseWhen {I : σ → Prop} (c : Bool) (e : ε) :
    Calmly I (raiseWhen c e : Prog σ ε Unit) := by
  cases c with
  | true => exact calmly_raise e
  | false => exact calmly_pure ()

theorem calmly_ite {I : σ → Prop} {c : Prop} [Decidable c] {p q : Prog σ ε α}
    (hp : c → Calmly I p) (hq : ¬ c → Calmly I q) : Calmly I (if c then p else q) := by
  by_cases h : c
  · rw [if_pos h]
    exact hp h
  · rw [if_neg h]
    exact hq h

theorem calmly_forEach {I : σ → Prop} {body : β → Prog σ ε Unit} (h : ∀ x, Calmly I (body x)) :
    ∀ xs, Calmly I (forEach xs body)
  | [] => calmly_pure ()
  | x :: xs => calmly_bind (h x) fun _ => calmly_forEach h xs

/-! ### What it returns and raises -/

/-- Where nothing befalls its calls, `p` keeps `I`, returns nothing but results with `Q`, and raises
nothing but what `R` allows. -/
def Smoothly (I : σ → Prop) (Q : α → Prop) (R : ε → Prop) (p : Prog σ ε α) : Prop :=
  ∀ s, I s → Comes p s fun x s' => I s' ∧
    match x with
    | .returned a => Q a
    | .raised e => R e
    | .killed => False

section Smoothly

variable {I : σ → Prop} {Q : α → Prop} {R : ε → Prop}

theorem smoothly_pure {a : α} (ha : Q a) : Smoothly I Q R (Pure.pure a : Prog σ ε α) :=
  fun _ hs => comes_pure ⟨hs, ha⟩

theorem smoothly_raise {e : ε} (he : R e) : Smoothly I Q R (raise e : Prog σ ε α) :=
  fun _ hs => comes_raise ⟨hs, he⟩

theorem smoothly_peek {f : σ → α} (h : ∀ s, I s → Q (f s)) :
    Smoothly I Q R (peek f : Prog σ ε α) := fun s hs => ⟨_, s, rfl, hs, h s hs⟩

theorem smoothly_assign {Q : Unit → Prop} {f : σ → σ} (h : ∀ s, I s → I (f s)) (hQ : Q ()) :
    Smoothly I Q R (assign f : Prog σ ε Unit) := fun s hs => ⟨_, f s, rfl, h s hs, hQ⟩

theorem smoothly_call {f : σ → Except ε α × σ}
    (hok : ∀ s a s', I s → f s = (.ok a, s') → I s' ∧ Q a)
    (herror : ∀ s e s', I s → f s = (.error e, s') → I s' ∧ R e) : Smoothly I Q R (call f) := by
  intro s hs
  change Comes (attempt f) s _
  unfold Comes attempt
  split
  · rename_i a s' heq
    exact ⟨_, s', rfl, hok s a s' hs heq⟩
  · rename_i e s' heq
    exact ⟨_, s', rfl, herror s e s' hs heq⟩

theorem smoothly_act {Q : Unit → Prop} {f : σ → σ} (h : ∀ s, I s → I (f s)) (hQ : Q ()) :
    Smoothly I Q R (act f : Prog σ ε Unit) := fun s hs => ⟨_, f s, rfl, h s hs, hQ⟩

theorem smoothly_look {f : σ → α} (h : ∀ s, I s → Q (f s)) :
    Smoothly I Q R (look f : Prog σ ε α) := fun s hs => ⟨_, s, rfl, hs, h s hs⟩

/-- **The rule of the semicolon.** -/
theorem smoothly_bind {p : Prog σ ε β} {f : β → Prog σ ε α} {P : β → Prop}
    (hp : Smoothly I P R p) (hf : ∀ b, P b → Smoothly I Q R (f b)) : Smoothly I Q R (p >>= f) := by
  intro s hs
  obtain ⟨x, s', hrun, hs', hx⟩ := hp s hs
  cases x with
  | returned b => exact comes_bind hrun (hf b hx s' hs')
  | raised e => exact comes_bind_raised hrun ⟨hs', hx⟩
  | killed => exact hx.elim

/-- The same where what the first part returns does not matter. -/
theorem smoothly_andThen {p : Prog σ ε β} {f : β → Prog σ ε α}
    (hp : Smoothly I (fun _ => True) R p) (hf : ∀ b, Smoothly I Q R (f b)) :
    Smoothly I Q R (p >>= f) := smoothly_bind hp fun b _ => hf b

/-- **The rule of `try`.** -/
theorem smoothly_tryCatch {p : Prog σ ε α} {handler : ε → Prog σ ε α} {R' : ε → Prop}
    (hp : Smoothly I Q R' p) (hhandler : ∀ e, R' e → Smoothly I Q R (handler e)) :
    Smoothly I Q R (p.tryCatch handler) := by
  intro s hs
  obtain ⟨x, s', hrun, hs', hx⟩ := hp s hs
  cases x with
  | returned a => exact ⟨_, s', tryCatch_returned hrun, hs', hx⟩
  | raised e =>
      obtain ⟨x, s'', hrest, hx⟩ := hhandler e hx s' hs'
      exact ⟨x, s'', (tryCatch_raised hrun).trans hrest, hx⟩
  | killed => exact hx.elim

theorem smoothly_raiseWhen {Q : Unit → Prop} {c : Bool} {e : ε} (hraise : c = true → R e)
    (hpass : c = false → Q ()) : Smoothly I Q R (raiseWhen c e : Prog σ ε Unit) := by
  cases c with
  | true => exact smoothly_raise (hraise rfl)
  | false => exact smoothly_pure (hpass rfl)

theorem smoothly_ite {c : Prop} [Decidable c] {p q : Prog σ ε α} (hp : c → Smoothly I Q R p)
    (hq : ¬ c → Smoothly I Q R q) : Smoothly I Q R (if c then p else q) := by
  by_cases h : c
  · rw [if_pos h]
    exact hp h
  · rw [if_neg h]
    exact hq h

theorem smoothly_forEach {body : β → Prog σ ε Unit}
    (h : ∀ x, Smoothly I (fun _ => True) R (body x)) :
    ∀ xs, Smoothly I (fun _ => True) R (forEach xs body)
  | [] => smoothly_pure trivial
  | x :: xs => smoothly_andThen (h x) fun _ => smoothly_forEach h xs

end Smoothly

end Prog

end Faulty
