/-!
# Transactions

A transaction body reads and writes a session and may fail. Failing discards
every write, which is what the exception type buys: there is no state to keep.
Checks that a statement defers are queued in the session and run against the
final state; only a body whose deferred checks all pass is committed.
-/

namespace Relational

/-! ## Checks that may raise -/

theorem except_bind_ok {ε α β : Type} {x : Except ε α} {f : α → Except ε β} {b : β} :
    (x >>= f) = .ok b ↔ ∃ a, x = .ok a ∧ f a = .ok b := by
  cases x with
  | error e => exact ⟨fun h => (nomatch h), fun ⟨_, h, _⟩ => (nomatch h)⟩
  | ok a => exact ⟨fun h => ⟨a, rfl, h⟩, fun ⟨_, h, hf⟩ => Except.ok.inj h ▸ hf⟩

/-- `if c: raise e`. -/
def raiseIf {ε : Type} (c : Bool) (e : ε) : Except ε Unit := if c then .error e else .ok ()

theorem raiseIf_ok {ε : Type} {c : Bool} {e : ε} {u : Unit} : raiseIf c e = .ok u ↔ c = false := by
  cases c <;> simp [raiseIf]

/-- A condition under which a check raises does not hold where it passes. -/
theorem raiseIf_bind_ok {ε β : Type} {c : Bool} {e : ε} {f : Unit → Except ε β} {b : β} :
    (raiseIf c e >>= f) = .ok b ↔ c = false ∧ f () = .ok b := by
  cases c with
  | true => exact ⟨fun h => (nomatch h), fun h => (nomatch h.1)⟩
  | false => exact ⟨fun h => ⟨rfl, h⟩, fun h => h.2⟩

/-! ## Statements -/

/-- A sequence of statements over a state `σ`, failing with an `ε`. -/
def Tx (σ ε α : Type) : Type := σ → Except ε (α × σ)

namespace Tx

variable {σ ε α β : Type}

def pure (a : α) : Tx σ ε α := fun s => .ok (a, s)

def bind (x : Tx σ ε α) (f : α → Tx σ ε β) : Tx σ ε β := fun s =>
  match x s with
  | .error e => .error e
  | .ok (a, s') => f a s'

instance : Monad (Tx σ ε) where
  pure := Tx.pure
  bind := Tx.bind

/-- Raise: the transaction has no outcome but the error. -/
def fail (e : ε) : Tx σ ε α := fun _ => .error e

def read : Tx σ ε σ := fun s => .ok (s, s)

def modify (f : σ → σ) : Tx σ ε Unit := fun s => .ok ((), f s)

/-- Go on only if `b`. -/
def ensure (b : Bool) (e : ε) : Tx σ ε Unit := fun s => if b then .ok ((), s) else .error e

/-- Go on with the value, if there is one. -/
def orFail (o : Option α) (e : ε) : Tx σ ε α := fun s =>
  match o with
  | some a => .ok (a, s)
  | none => .error e

/-- Run a pure check inside the transaction. -/
def lift (x : Except ε α) : Tx σ ε α := fun s =>
  match x with
  | .ok a => .ok (a, s)
  | .error e => .error e

theorem bind_ok {x : Tx σ ε α} {f : α → Tx σ ε β} {s s' : σ} {b : β} :
    (x >>= f) s = .ok (b, s') ↔ ∃ a s₁, x s = .ok (a, s₁) ∧ f a s₁ = .ok (b, s') := by
  show Tx.bind x f s = _ ↔ _
  unfold Tx.bind
  constructor
  · intro h
    split at h
    · exact absurd h (by simp)
    · rename_i a s₁ hx
      exact ⟨a, s₁, hx, h⟩
  · rintro ⟨a, s₁, hx, hf⟩
    rw [hx]
    exact hf

/-- A statement that succeeds hands its result and its session to the next one. -/
theorem bind_eval {x : Tx σ ε α} {f : α → Tx σ ε β} {s s₁ : σ} {a : α}
    (h : x s = .ok (a, s₁)) : (x >>= f) s = f a s₁ := by
  show Tx.bind x f s = _
  unfold Tx.bind
  rw [h]

/-- A statement that raises ends the transaction. -/
theorem bind_error {x : Tx σ ε α} {f : α → Tx σ ε β} {s : σ} {e : ε}
    (h : x s = .error e) : (x >>= f) s = .error e := by
  show Tx.bind x f s = _
  unfold Tx.bind
  rw [h]

theorem bind_assoc {γ : Type} (x : Tx σ ε α) (f : α → Tx σ ε β) (g : β → Tx σ ε γ) :
    x >>= f >>= g = x >>= fun a => f a >>= g := by
  funext s
  show Tx.bind (Tx.bind x f) g s = Tx.bind x (fun a => Tx.bind (f a) g) s
  unfold Tx.bind
  cases x s with
  | error e => rfl
  | ok r => rfl

theorem pure_ok {a b : α} {s s' : σ} :
    (Pure.pure a : Tx σ ε α) s = .ok (b, s') ↔ a = b ∧ s = s' := by
  show Except.ok (a, s) = _ ↔ _
  simp

@[simp] theorem pure_run (a : α) (s : σ) : (Pure.pure a : Tx σ ε α) s = .ok (a, s) := rfl

@[simp] theorem read_run (s : σ) : (read : Tx σ ε σ) s = .ok (s, s) := rfl

@[simp] theorem modify_run (f : σ → σ) (s : σ) : (modify f : Tx σ ε Unit) s = .ok ((), f s) := rfl

theorem ensure_run (b : Bool) (e : ε) (s : σ) :
    (ensure b e : Tx σ ε Unit) s = if b then .ok ((), s) else .error e := rfl

theorem ensure_ok {b : Bool} {e : ε} {s s' : σ} {u : Unit} :
    (ensure b e : Tx σ ε Unit) s = .ok (u, s') ↔ b = true ∧ s = s' := by
  unfold ensure
  split <;> simp_all

theorem orFail_ok {o : Option α} {e : ε} {s s' : σ} {a : α} :
    (orFail o e : Tx σ ε α) s = .ok (a, s') ↔ o = some a ∧ s = s' := by
  unfold orFail
  split <;> simp

theorem lift_ok {x : Except ε α} {s s' : σ} {a : α} :
    (lift x : Tx σ ε α) s = .ok (a, s') ↔ x = .ok a ∧ s = s' := by
  unfold lift
  split <;> simp

/-! ### A check followed by the rest -/

theorem ensure_bind {b : Bool} {e : ε} {f : Unit → Tx σ ε β} {s : σ} {r : β × σ} :
    (ensure b e >>= f) s = .ok r ↔ b = true ∧ f () s = .ok r := by
  cases b with
  | false => simp [bind_error (f := f) (show ensure false e s = .error e from rfl)]
  | true => simp [bind_eval (f := f) (show ensure true e s = .ok ((), s) from rfl)]

theorem orFail_bind {o : Option α} {e : ε} {f : α → Tx σ ε β} {s : σ} {r : β × σ} :
    (orFail o e >>= f) s = .ok r ↔ ∃ a, o = some a ∧ f a s = .ok r := by
  cases o with
  | none => simp [bind_error (f := f) (show orFail none e s = .error e from rfl)]
  | some a => simp [bind_eval (f := f) (show orFail (some a) e s = .ok (a, s) from rfl)]

theorem lift_bind {x : Except ε α} {f : α → Tx σ ε β} {s : σ} {r : β × σ} :
    (lift x >>= f) s = .ok r ↔ ∃ a, x = .ok a ∧ f a s = .ok r := by
  cases x with
  | error e => simp [bind_error (f := f) (show lift (.error e) s = .error e from rfl)]
  | ok a => simp [bind_eval (f := f) (show lift (.ok a) s = .ok (a, s) from rfl)]

theorem ensure_eval {b : Bool} {e : ε} {f : Unit → Tx σ ε β} {s : σ} (h : b = true) :
    (ensure b e >>= f) s = f () s := bind_eval (by rw [ensure_run, if_pos h])

theorem ensure_fails {b : Bool} {e : ε} {f : Unit → Tx σ ε β} {s : σ} (h : b = false) :
    (ensure b e >>= f) s = .error e := bind_error (by rw [ensure_run, if_neg (by simp [h])])

theorem orFail_eval {o : Option α} {e : ε} {f : α → Tx σ ε β} {s : σ} {a : α} (h : o = some a) :
    (orFail o e >>= f) s = f a s := bind_eval (by rw [h]; rfl)

theorem orFail_fails {o : Option α} {e : ε} {f : α → Tx σ ε β} {s : σ} (h : o = none) :
    (orFail o e >>= f) s = .error e := bind_error (by rw [h]; rfl)

theorem lift_eval {x : Except ε α} {f : α → Tx σ ε β} {s : σ} {a : α} (h : x = .ok a) :
    (lift x >>= f) s = f a s := bind_eval (by rw [h]; rfl)

theorem lift_fails {x : Except ε α} {f : α → Tx σ ε β} {s : σ} {e : ε} (h : x = .error e) :
    (lift x >>= f) s = .error e := bind_error (by rw [h]; rfl)

theorem pure_eq {a : α} {s : σ} {r : α × σ} :
    (Pure.pure a : Tx σ ε α) s = .ok r ↔ r = (a, s) := by
  show Except.ok (a, s) = _ ↔ _
  simp [eq_comm]

end Tx

/-! ## What a body keeps -/

namespace Tx

variable {σ ε α β : Type}

/-- Where the body returns, `R` holds between the state before it and the state after. -/
def Keeps (R : σ → σ → Prop) (x : Tx σ ε α) : Prop := ∀ s a s', x s = .ok (a, s') → R s s'

variable {R : σ → σ → Prop}

/-- A statement that only looks. -/
theorem Keeps.of_same (hrefl : ∀ s, R s s) {x : Tx σ ε α}
    (h : ∀ s a s', x s = .ok (a, s') → s = s') : Keeps R x :=
  fun s a s' hx => h s a s' hx ▸ hrefl s

theorem keeps_pure (hrefl : ∀ s, R s s) (a : α) : Keeps R (Pure.pure a : Tx σ ε α) :=
  .of_same hrefl fun _ _ _ h => (pure_ok.mp h).2

theorem keeps_ensure (hrefl : ∀ s, R s s) (b : Bool) (e : ε) : Keeps R (ensure b e : Tx σ ε Unit) :=
  .of_same hrefl fun _ _ _ h => (ensure_ok.mp h).2

theorem keeps_orFail (hrefl : ∀ s, R s s) (o : Option α) (e : ε) :
    Keeps R (orFail o e : Tx σ ε α) := .of_same hrefl fun _ _ _ h => (orFail_ok.mp h).2

theorem keeps_lift (hrefl : ∀ s, R s s) (x : Except ε α) : Keeps R (lift x : Tx σ ε α) :=
  .of_same hrefl fun _ _ _ h => (lift_ok.mp h).2

/-- **The rule of the semicolon.** -/
theorem keeps_bind (htrans : ∀ {a b c}, R a b → R b c → R a c) {x : Tx σ ε α} {f : α → Tx σ ε β}
    (hx : Keeps R x) (hf : ∀ a, Keeps R (f a)) : Keeps R (x >>= f) := by
  intro s b s' h
  obtain ⟨a, s₁, h₁, h₂⟩ := bind_ok.mp h
  exact htrans (hx s a s₁ h₁) (hf a s₁ b s' h₂)

end Tx

/-- Run a body that defers no check, and roll back if it raises. -/
def atomically {σ ε α : Type} (body : Tx σ ε α) (db : σ) : Except ε α × σ :=
  match body db with
  | .error e => (.error e, db)
  | .ok (a, db') => (.ok a, db')

/-- What raised has changed nothing; what returned has run its body. -/
theorem atomically_cases {σ ε α : Type} (body : Tx σ ε α) (db : σ) :
    (∃ e, atomically body db = (.error e, db))
      ∨ ∃ a db', body db = .ok (a, db') ∧ atomically body db = (.ok a, db') := by
  unfold atomically
  cases h : body db with
  | error e => exact .inl ⟨e, rfl⟩
  | ok r => exact .inr ⟨r.1, r.2, rfl, rfl⟩

theorem atomically_ok {σ ε α : Type} {body : Tx σ ε α} {db db' : σ} {a : α}
    (h : atomically body db = (.ok a, db')) : body db = .ok (a, db') := by
  rcases atomically_cases body db with ⟨e, hrun⟩ | ⟨b, db₁, hbody, hrun⟩
  · rw [h] at hrun
    cases hrun
  · rw [h] at hrun
    obtain ⟨ha, rfl⟩ := Prod.mk.inj hrun
    rw [hbody, Except.ok.inj ha]

/-- A database inside a transaction, with the checks deferred to its commit. -/
structure Session (σ δ : Type) where
  db : σ
  deferred : List δ

section Commit

variable {σ δ ε α : Type} (verify : σ → δ → Except ε Unit)

/-- Run the deferred checks in the order they were queued. -/
def verifyAll (db : σ) : List δ → Except ε Unit
  | [] => .ok ()
  | d :: ds =>
      match verify db d with
      | .error e => .error e
      | .ok () => verifyAll db ds

/-- Begin, run the body, verify the deferred checks and commit; roll back on any error. -/
def transaction (body : Tx (Session σ δ) ε α) (db : σ) : Except ε α × σ :=
  match body ⟨db, []⟩ with
  | .error e => (.error e, db)
  | .ok (a, s) =>
      match verifyAll verify s.db s.deferred with
      | .error e => (.error e, db)
      | .ok () => (.ok a, s.db)

variable {verify}

theorem verifyAll_ok {db : σ} {ds : List δ} (h : verifyAll verify db ds = .ok ()) :
    ∀ d ∈ ds, verify db d = .ok () := by
  induction ds with
  | nil => intro d hd; cases hd
  | cons c cs ih =>
      unfold verifyAll at h
      split at h
      · exact absurd h (by simp)
      · rename_i hc
        intro d hd
        rcases List.mem_cons.mp hd with rfl | hd
        · exact hc
        · exact ih h d hd

theorem verifyAll_of {db : σ} {ds : List δ} (h : ∀ d ∈ ds, verify db d = .ok ()) :
    verifyAll verify db ds = .ok () := by
  induction ds with
  | nil => rfl
  | cons c cs ih =>
      unfold verifyAll
      rw [h c (by simp)]
      exact ih fun d hd => h d (by simp [hd])

/-- **Either a transaction commits its body's session, or it changes nothing.** -/
theorem transaction_cases (verify : σ → δ → Except ε Unit) (body : Tx (Session σ δ) ε α)
    (db : σ) :
    (∃ a s, body ⟨db, []⟩ = .ok (a, s) ∧ (∀ d ∈ s.deferred, verify s.db d = .ok ())
      ∧ transaction verify body db = (.ok a, s.db))
    ∨ ∃ e, transaction verify body db = (.error e, db) := by
  unfold transaction
  split
  · exact Or.inr ⟨_, rfl⟩
  · rename_i a s hb
    split
    · exact Or.inr ⟨_, rfl⟩
    · rename_i hv
      exact Or.inl ⟨a, s, hb, verifyAll_ok hv, rfl⟩

theorem transaction_error {body : Tx (Session σ δ) ε α} {db : σ} {e : ε}
    (h : body ⟨db, []⟩ = .error e) : transaction verify body db = (.error e, db) := by
  unfold transaction
  rw [h]

theorem transaction_commit {body : Tx (Session σ δ) ε α} {db : σ} {a : α} {s : Session σ δ}
    (h : body ⟨db, []⟩ = .ok (a, s)) (hv : ∀ d ∈ s.deferred, verify s.db d = .ok ()) :
    transaction verify body db = (.ok a, s.db) := by
  unfold transaction
  rw [h]
  dsimp only
  rw [verifyAll_of hv]

/-- A transaction keeps what its body keeps. -/
theorem transaction_keeps {R : σ → σ → Prop} (hrefl : ∀ db, R db db)
    {body : Tx (Session σ δ) ε α} (h : Tx.Keeps (fun s s' => R s.db s'.db) body) (db : σ) :
    R db (transaction verify body db).2 := by
  rcases transaction_cases verify body db with ⟨a, s, hb, _, ht⟩ | ⟨e, ht⟩
  · rw [ht]
    exact h ⟨db, []⟩ a s hb
  · rw [ht]
    exact hrefl db

end Commit

end Relational
