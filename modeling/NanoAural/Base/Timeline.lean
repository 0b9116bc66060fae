import NanoAural.Base.Faulty

/-!
# Where a cut leaves a program

A program that makes its calls one after another goes through a sequence of states
known in advance, its timeline. What befalls its calls decides how far along it
gets, and nothing else: the number of calls that took effect is the place on the
timeline where it stops. The counts add along the semicolon.
-/

namespace Faulty

variable {σ ε α β : Type}

/-- What becomes of some calls: all go through, or one of them raises or is the last. The number
is that of the calls that took effect, and the faults are those of the calls to come. -/
inductive Cutoff (ε : Type) where
  | through (rest : List (Fault ε))
  | raised (effects : Nat) (e : ε) (rest : List (Fault ε))
  | killed (effects : Nat) (rest : List (Fault ε))

/-- The same after so many calls that went through. -/
def Cutoff.later (n : Nat) : Cutoff ε → Cutoff ε
  | .through rest => .through rest
  | .raised effects e rest => .raised (n + effects) e rest
  | .killed effects rest => .killed (n + effects) rest

/-- What becomes of the next `n` calls. -/
def cutoff : Nat → List (Fault ε) → Cutoff ε
  | 0, faults => .through faults
  | _ + 1, [] => .through []
  | n + 1, .none :: rest => (cutoff n rest).later 1
  | _ + 1, .raise e after :: rest => .raised after.toNat e rest
  | _ + 1, .kill after :: rest => .killed after.toNat rest

@[simp] theorem cutoff_nil (n : Nat) : cutoff n ([] : List (Fault ε)) = .through [] := by
  cases n <;> rfl

theorem later_later (n m : Nat) (c : Cutoff ε) : (c.later m).later n = c.later (n + m) := by
  cases c <;> simp [Cutoff.later, Nat.add_assoc]

/-- **Counts add.** -/
theorem cutoff_add (n m : Nat) : ∀ faults : List (Fault ε), cutoff (n + m) faults =
    match cutoff n faults with
    | .through rest => (cutoff m rest).later n
    | other => other := by
  induction n with
  | zero =>
      intro faults
      rw [Nat.zero_add]
      change cutoff m faults = (cutoff m faults).later 0
      cases cutoff m faults <;> simp [Cutoff.later]
  | succ n ih =>
      intro faults
      rw [Nat.succ_add]
      cases faults with
      | nil => simp [Cutoff.later]
      | cons fault rest =>
          cases fault with
          | none =>
              change (cutoff (n + m) rest).later 1 = match (cutoff n rest).later 1 with
                | .through rest => (cutoff m rest).later (n + 1)
                | other => other
              rw [ih rest]
              cases cutoff n rest with
              | through rest' =>
                  change ((cutoff m rest').later n).later 1 = (cutoff m rest').later (n + 1)
                  rw [later_later, Nat.add_comm]
              | raised effects e rest' => rfl
              | killed effects rest' => rfl
          | raise e after => rfl
          | kill after => rfl

/-- No other errors befall the calls. -/
def Only (may : ε → Prop) (faults : List (Fault ε)) : Prop :=
  ∀ e after, Fault.raise e after ∈ faults → may e

theorem Only.tail {may : ε → Prop} {fault : Fault ε} {rest : List (Fault ε)}
    (h : Only may (fault :: rest)) : Only may rest :=
  fun e after hmem => h e after (List.mem_cons_of_mem _ hmem)

theorem Only.cutoff {may : ε → Prop} (n : Nat) : ∀ {faults : List (Fault ε)}, Only may faults →
    match cutoff n faults with
    | .through rest => Only may rest
    | .raised _ e rest => may e ∧ Only may rest
    | .killed _ _ => True := by
  induction n with
  | zero => exact fun h => h
  | succ n ih =>
      intro faults h
      cases faults with
      | nil => exact fun e after hmem => absurd hmem (by simp)
      | cons fault rest =>
          cases fault with
          | none =>
              have hrest := ih h.tail
              unfold Faulty.cutoff
              generalize Faulty.cutoff n rest = c at hrest ⊢
              cases c with
              | through rest' => exact hrest
              | raised effects e rest' => exact hrest
              | killed effects rest' => trivial
          | raise e after => exact ⟨h e after List.mem_cons_self, h.tail⟩
          | kill after => trivial

namespace Prog

/-- `n` calls along the timeline from place `i`, and then `a`. -/
def along (T : Nat → σ) (i n : Nat) (a : α) (faults : List (Fault ε)) :
    Exit ε α × List (Fault ε) × σ :=
  match cutoff n faults with
  | .through rest => (.returned a, rest, T (i + n))
  | .raised effects e rest => (.raised e, rest, T (i + effects))
  | .killed effects rest => (.killed, rest, T (i + effects))

/-- From place `i` of the timeline, `p` makes `n` calls along it and returns `a`. -/
def Follows (may : ε → Prop) (p : Prog σ ε α) (T : Nat → σ) (i n : Nat) (a : α) : Prop :=
  ∀ faults, Only may faults → p faults (T i) = along T i n a faults

section Follows

variable {may : ε → Prop} {T : Nat → σ} {i n m : Nat} {a : α} {b : β}

theorem Follows.at {p : Prog σ ε α} {j : Nat} (h : Follows may p T i n a) (hj : j = i) :
    Follows may p T j n a := hj ▸ h

theorem follows_pure : Follows may (Pure.pure a : Prog σ ε α) T i 0 a := fun _ _ => rfl

/-- **The rule of the semicolon.** -/
theorem follows_bind {p : Prog σ ε α} {f : α → Prog σ ε β} (hp : Follows may p T i n a)
    (hf : Follows may (f a) T (i + n) m b) : Follows may (p >>= f) T i (n + m) b := by
  intro faults hfaults
  have hrest := hfaults.cutoff n
  change andThen p f faults (T i) = _
  unfold andThen along
  rw [hp faults hfaults, cutoff_add]
  unfold along
  cases hc : cutoff n faults with
  | through rest =>
      rw [hc] at hrest
      dsimp only
      rw [hf rest hrest]
      unfold along
      cases cutoff m rest <;> simp [Cutoff.later, Nat.add_assoc]
  | raised effects e rest => rfl
  | killed effects rest => rfl

/-- **The rule of a call** whose outcome is its own. -/
theorem follows_call {f : σ → Except ε α × σ} (h : f (T i) = (.ok a, T (i + 1))) :
    Follows may (call f) T i 1 a := by
  intro faults _
  unfold call attempt along
  cases faults with
  | nil => simp [h]
  | cons fault rest =>
      cases fault with
      | none => simp [h, cutoff, Cutoff.later]
      | raise e after => cases after <;> simp [h, cutoff]
      | kill after => cases after <;> simp [h, cutoff]

theorem follows_act {f : σ → σ} (h : f (T i) = T (i + 1)) :
    Follows may (act f : Prog σ ε Unit) T i 1 () := follows_call (by rw [h])

/-- A handler for errors that do not befall the calls has nothing to do. -/
theorem follows_tryCatch {p : Prog σ ε α} {handler : ε → Prog σ ε α} (hp : Follows may p T i n a)
    (hhandler : ∀ e, may e → handler e = raise e) :
    Follows may (p.tryCatch handler) T i n a := by
  intro faults hfaults
  have hrest := hfaults.cutoff n
  unfold tryCatch
  rw [hp faults hfaults]
  unfold along
  cases hc : cutoff n faults with
  | through rest => rfl
  | raised effects e rest =>
      rw [hc] at hrest
      dsimp only
      rw [hhandler e hrest.1]
      rfl
  | killed effects rest => rfl

/-- From place `i` of the timeline, `p` makes `n` calls along it and raises `e`. -/
def Fails (may : ε → Prop) (p : Prog σ ε α) (T : Nat → σ) (i n : Nat) (e : ε) : Prop :=
  ∀ faults, Only may faults → p faults (T i) =
    match cutoff n faults with
    | .through rest => (.raised e, rest, T (i + n))
    | .raised effects e' rest => (.raised e', rest, T (i + effects))
    | .killed effects rest => (.killed, rest, T (i + effects))

theorem fails_call {f : σ → Except ε α × σ} {e : ε} (h : f (T i) = (.error e, T (i + 1))) :
    Fails may (call f) T i 1 e := by
  intro faults _
  unfold call attempt
  cases faults with
  | nil => simp [h]
  | cons fault rest =>
      cases fault with
      | none => simp [h, cutoff, Cutoff.later]
      | raise e' after => cases after <;> simp [h, cutoff]
      | kill after => cases after <;> simp [h, cutoff]

theorem fails_bind {p : Prog σ ε α} {f : α → Prog σ ε β} {e : ε} (hp : Fails may p T i n e) :
    Fails may (p >>= f) T i n e := by
  intro faults hfaults
  change andThen p f faults (T i) = _
  unfold andThen
  rw [hp faults hfaults]
  cases cutoff n faults <;> rfl

/-- A handler for the error that is raised. -/
theorem follows_caught {p : Prog σ ε α} {handler : ε → Prog σ ε α} {e : ε}
    (hp : Fails may p T i n e) (hcaught : handler e = pure a)
    (hhandler : ∀ e, may e → handler e = raise e) :
    Follows may (p.tryCatch handler) T i n a := by
  intro faults hfaults
  have hrest := hfaults.cutoff n
  unfold tryCatch along
  rw [hp faults hfaults]
  cases hc : cutoff n faults with
  | through rest =>
      dsimp only
      rw [hcaught]
      rfl
  | raised effects e' rest =>
      rw [hc] at hrest
      dsimp only
      rw [hhandler e' hrest.1]
      rfl
  | killed effects rest => rfl

/-- **The rule of the loop**, of `k` calls a round. -/
theorem follows_forEach {body : β → Prog σ ε Unit} {k : Nat} : ∀ (xs : List β) (i : Nat),
    (∀ done x rest, xs = done ++ x :: rest → Follows may (body x) T (i + k * done.length) k ()) →
    Follows may (forEach xs body) T i (k * xs.length) () := by
  intro xs
  induction xs with
  | nil => exact fun _ _ => follows_pure
  | cons x xs ih =>
      intro i h
      rw [List.length_cons, Nat.mul_succ, Nat.add_comm]
      refine follows_bind (h [] x xs rfl) (ih (i + k) fun done y rest heq => ?_)
      have := h (x :: done) y rest (by rw [heq]; rfl)
      rwa [List.length_cons, Nat.mul_succ, Nat.add_comm (k * done.length), ← Nat.add_assoc] at this

end Follows

/-! ## Where `finally` leaves it -/

/-- The next call takes effect. -/
def landed : List (Fault ε) → Bool
  | [] => true
  | .none :: _ => true
  | .raise _ after :: _ => after
  | .kill after :: _ => after

/-- Where a program stops that makes some calls and then some under a `finally` of one call: the
number of calls that took effect before that one, and whether that one did. -/
def halt (before within : Nat) (faults : List (Fault ε)) : Nat × Bool :=
  match cutoff before faults with
  | .raised effects _ _ => (effects, false)
  | .killed effects _ => (effects, false)
  | .through rest =>
      match cutoff within rest with
      | .through rest => (before + within, landed rest)
      | .raised effects _ rest => (before + effects, landed rest)
      | .killed effects _ => (before + effects, false)

theorem halt_zero (n : Nat) (faults : List (Fault ε)) : halt 0 n faults =
    match cutoff n faults with
    | .through rest => (n, landed rest)
    | .raised effects _ rest => (effects, landed rest)
    | .killed effects _ => (effects, false) := by
  unfold halt
  rw [show cutoff 0 faults = .through faults from rfl]
  dsimp only
  cases cutoff n faults <;> simp

theorem halt_add (n before within : Nat) (faults : List (Fault ε)) :
    halt (n + before) within faults =
      match cutoff n faults with
      | .through rest => (n + (halt before within rest).1, (halt before within rest).2)
      | .raised effects _ _ => (effects, false)
      | .killed effects _ => (effects, false) := by
  unfold halt
  rw [cutoff_add]
  cases cutoff n faults with
  | through rest =>
      dsimp only
      cases cutoff before rest with
      | through rest' =>
          dsimp only [Cutoff.later]
          cases cutoff within rest' <;> simp [Nat.add_assoc]
      | raised effects e rest' => rfl
      | killed effects rest' => rfl
  | raised effects e rest => rfl
  | killed effects rest => rfl

/-- The state at a place of the timeline, or what the `finally` makes of it. -/
def restingState (T : Nat → σ) (c : σ → σ) (place : Nat) (cleared : Bool) : σ :=
  if cleared then c (T place) else T place

/-- From place `i` of the timeline, `p` makes some calls along it and then some under a `finally`
that takes the state through `c`. -/
def Settles (may : ε → Prop) (p : Prog σ ε α) (T : Nat → σ) (c : σ → σ) (i before within : Nat) :
    Prop :=
  ∀ faults, Only may faults →
    (p faults (T i)).2.2
        = restingState T c (i + (halt before within faults).1) (halt before within faults).2 ∧
      ∀ b, (p faults (T i)).1 = .returned b → (halt before within faults).1 = before + within

section Settles

variable {may : ε → Prop} {T : Nat → σ} {c : σ → σ} {i n before within : Nat} {a : α} {b : β}

theorem along_one (T : Nat → σ) (i : Nat) (a : α) (faults : List (Fault ε)) :
    (along T i 1 a faults).2.2 = if landed faults then T (i + 1) else T i := by
  unfold along
  cases faults with
  | nil => rfl
  | cons fault rest =>
      cases fault with
      | none => rfl
      | raise e after => cases after <;> rfl
      | kill after => cases after <;> rfl

/-- The last call, and then an end that makes no call. -/
theorem last_bind {last : Prog σ ε Unit} {f : Unit → Prog σ ε α} {faults : List (Fault ε)} {j : Nat}
    (hlast : Follows may last (fun k => if k = 0 then T j else c (T j)) 0 1 ())
    (hf : ∀ faults s, (f () faults s).2.2 = s) (hfaults : Only may faults) :
    ((last >>= f) faults (T j)).2.2 = restingState T c j (landed faults) := by
  have hrun := hlast faults hfaults
  have hstate := along_one (fun k => if k = 0 then T j else c (T j)) 0 () faults
  change last faults (T j) = _ at hrun
  change (andThen last f faults (T j)).2.2 = _
  unfold andThen
  rw [hrun]
  generalize along (fun k => if k = 0 then T j else c (T j)) 0 1 () faults = r at hstate
  obtain ⟨x, rest, s'⟩ := r
  change s' = restingState T c j (landed faults) at hstate
  cases x with
  | returned u => exact (hf rest s').trans hstate
  | raised e => exact hstate
  | killed => exact hstate

/-- **The rule of `finally`.** -/
theorem settles_tryFinally {p : Prog σ ε α} {last : Prog σ ε Unit} (hp : Follows may p T i n a)
    (hlast : ∀ j, Follows may last (fun k => if k = 0 then T j else c (T j)) 0 1 ()) :
    Settles may (p.tryFinally last) T c i 0 n := by
  intro faults hfaults
  have hrest := hfaults.cutoff n
  have hrun := hp faults hfaults
  unfold along at hrun
  rw [halt_zero]
  change (andThen (p.tryCatch _) _ faults (T i)).2.2 = _ ∧
    ∀ b, (andThen (p.tryCatch _) _ faults (T i)).1 = .returned b → _
  unfold andThen tryCatch
  cases hc : cutoff n faults with
  | through rest =>
      rw [hc] at hrun hrest
      rw [hrun]
      dsimp only
      refine ⟨last_bind (f := fun _ => (Pure.pure a : Prog σ ε α)) (hlast (i + n))
        (fun _ _ => rfl) hrest, fun _ _ => (Nat.zero_add n).symm⟩
  | raised effects e rest =>
      rw [hc] at hrun hrest
      rw [hrun]
      dsimp only
      have hstate := last_bind (f := fun _ => (raise e : Prog σ ε α)) (hlast (i + effects))
        (fun _ _ => rfl) hrest.2
      have hraised : ∀ b, ((last >>= fun _ => (raise e : Prog σ ε α)) rest (T (i + effects))).1
          ≠ .returned b := by
        intro b hb
        change (andThen last _ rest (T (i + effects))).1 = _ at hb
        unfold andThen at hb
        split at hb <;> cases hb
      generalize (last >>= fun _ => (raise e : Prog σ ε α)) rest (T (i + effects)) = r
        at hstate hraised ⊢
      obtain ⟨x, rest', s'⟩ := r
      cases x with
      | returned b => exact absurd rfl (hraised b)
      | raised e' => exact ⟨hstate, fun _ h => by cases h⟩
      | killed => exact ⟨hstate, fun _ h => by cases h⟩
  | killed effects rest =>
      rw [hc] at hrun
      rw [hrun]
      exact ⟨rfl, fun _ h => by cases h⟩

/-- Calls before the rest. -/
theorem settles_bind {p : Prog σ ε α} {f : α → Prog σ ε β} (hp : Follows may p T i n a)
    (hf : Settles may (f a) T c (i + n) before within) :
    Settles may (p >>= f) T c i (n + before) within := by
  intro faults hfaults
  have hrest := hfaults.cutoff n
  have hrun := hp faults hfaults
  unfold along at hrun
  rw [halt_add]
  change (andThen p f faults (T i)).2.2 = _ ∧ ∀ b, (andThen p f faults (T i)).1 = .returned b → _
  unfold andThen
  cases hc : cutoff n faults with
  | through rest =>
      rw [hc] at hrun hrest
      rw [hrun]
      obtain ⟨hstate, hreturned⟩ := hf rest hrest
      dsimp only
      refine ⟨by rw [hstate, Nat.add_assoc], fun b hb => ?_⟩
      rw [hreturned b hb, Nat.add_assoc]
  | raised effects e rest =>
      rw [hc] at hrun
      rw [hrun]
      exact ⟨rfl, fun _ h => by cases h⟩
  | killed effects rest =>
      rw [hc] at hrun
      rw [hrun]
      exact ⟨rfl, fun _ h => by cases h⟩

theorem settles_return {p : Prog σ ε α} (hp : Settles may p T c i before within) :
    Settles may (p >>= fun _ => Pure.pure b) T c i before within := by
  intro faults hfaults
  have hrun := hp faults hfaults
  change (andThen p _ faults (T i)).2.2 = _ ∧ ∀ b, (andThen p _ faults (T i)).1 = .returned b → _
  unfold andThen
  generalize p faults (T i) = r at hrun
  obtain ⟨x, rest, s⟩ := r
  cases x with
  | returned a => exact ⟨hrun.1, fun _ _ => hrun.2 a rfl⟩
  | raised e => exact ⟨hrun.1, fun _ h => by cases h⟩
  | killed => exact ⟨hrun.1, fun _ h => by cases h⟩

end Settles

/-! ## What moves nothing, and what comes back -/

/-- Where no other errors befall its calls, `p` leaves the state at `s`. -/
def Stays (may : ε → Prop) (p : Prog σ ε α) (s : σ) : Prop :=
  ∀ faults, Only may faults → (p faults s).2.2 = s

section Stays

variable {may : ε → Prop} {s : σ} {i n : Nat} {a : α}

theorem Always.stays {p : Prog σ ε α} (h : Always (· = s) p) : Stays may p s :=
  fun faults _ => h faults s rfl

theorem stays_bind {p : Prog σ ε α} {f : α → Prog σ ε β}
    (hp : Follows may p (fun _ => s) i n a) (hf : Stays may (f a) s) : Stays may (p >>= f) s := by
  intro faults hfaults
  have hrest := hfaults.cutoff n
  have hrun := hp faults hfaults
  unfold along at hrun
  change (andThen p f faults s).2.2 = s
  unfold andThen
  cases hc : cutoff n faults with
  | through rest =>
      rw [hc] at hrun hrest
      rw [hrun]
      exact hf rest hrest
  | raised effects e rest =>
      rw [hc] at hrun
      rw [hrun]
  | killed effects rest =>
      rw [hc] at hrun
      rw [hrun]

theorem stays_return {p : Prog σ ε α} {b : β} (hp : Stays may p s) :
    Stays may (p >>= fun _ => Pure.pure b) s := by
  intro faults hfaults
  have hrun := hp faults hfaults
  change (andThen p _ faults s).2.2 = s
  unfold andThen
  generalize p faults s = r at hrun
  obtain ⟨x, rest, s'⟩ := r
  cases x <;> exact hrun

theorem stays_tryFinally {p : Prog σ ε α} {last : Prog σ ε Unit} (hp : Stays may p s)
    (hlast : Always (· = s) last) : Stays may (p.tryFinally last) s := by
  intro faults hfaults
  have hrun := hp faults hfaults
  change (andThen (p.tryCatch _) _ faults s).2.2 = s
  unfold andThen tryCatch
  generalize p faults s = r at hrun
  obtain ⟨x, rest, s'⟩ := r
  change s' = s at hrun
  subst hrun
  cases x with
  | returned a => exact always_bind hlast (fun _ => always_pure a) rest _ rfl
  | raised e =>
      have hraised := always_bind hlast (fun _ => always_raise (α := α) e) rest s' rfl
      dsimp only
      generalize (last >>= fun _ => (raise e : Prog σ ε α)) rest s' = r at hraised
      obtain ⟨x, rest', s''⟩ := r
      cases x with
      | returned a => exact always_bind hlast (fun _ => always_pure a) rest' _ hraised
      | raised e => exact hraised
      | killed => exact hraised
  | killed => rfl

end Stays

/-- `p` returns nothing but `a`. -/
def Returns (p : Prog σ ε α) (a : α) : Prop :=
  ∀ faults s b, (p faults s).1 = .returned b → b = a

theorem returns_pure (a : α) : Returns (Pure.pure a : Prog σ ε α) a :=
  fun _ _ _ h => (Exit.returned.inj h).symm

theorem returns_bind {p : Prog σ ε α} {f : α → Prog σ ε β} {b : β} (h : ∀ a, Returns (f a) b) :
    Returns (p >>= f) b := by
  intro faults s b' hb
  change (andThen p f faults s).1 = _ at hb
  unfold andThen at hb
  split at hb
  · exact h _ _ _ _ hb
  · cases hb
  · cases hb

end Prog

end Faulty
