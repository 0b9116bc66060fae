import NanoAural.Base.Faulty

/-!
# Copying a stream under a bound

A reader is the sequence of what its `read` returns; it has ended at the first thing
that is false. A copy hands every chunk on until then, and gives up as soon as more has
come than the bound allows, so that it ends whatever the reader does.
-/

namespace StreamCopy

open Faulty

/-- What `read` returns. What is no byte string may be false all the same, as `None` is. -/
inductive StreamRead where
  | bytes (chunk : List UInt8)
  | other (truthy : Bool)
  deriving DecidableEq, Repr

/-- `not chunk`. -/
def StreamRead.isEnd : StreamRead → Bool
  | .bytes chunk => chunk.isEmpty
  | .other truthy => !truthy

/-- From this read on up to its end, the reader gives these bytes. -/
inductive Gives (reads : Nat → StreamRead) : Nat → List UInt8 → Prop where
  | done {index : Nat} : (reads index).isEnd = true → Gives reads index []
  | chunk {index : Nat} {chunk rest : List UInt8} : reads index = .bytes chunk → chunk ≠ [] →
      Gives reads (index + 1) rest → Gives reads index (chunk ++ rest)

section Copy

variable {σ ε : Type} (reads : Nat → StreamRead) (bound : Nat) (notBytes tooLong : ε)
  (read : Prog σ ε Unit) (write : List UInt8 → Prog σ ε Unit)

/-- The loop of a copy, with what has been received so far. -/
def copyFrom (index : Nat) (received : List UInt8) : Prog σ ε (List UInt8) := do
  read
  match reads index with
  | .other true => Prog.raise notBytes
  -- anything falsy ends the copy
  | .other false => pure received
  | .bytes chunk =>
      if _hend : chunk = [] then pure received
      else if _hlong : bound < received.length + chunk.length then Prog.raise tooLong
      else do
        write chunk
        copyFrom (index + 1) (received ++ chunk)
termination_by bound - received.length
decreasing_by
  have := List.length_pos_iff.mpr _hend
  rw [List.length_append]
  omega

variable {reads bound notBytes tooLong read write}

/-- **The rule of a copy.** `J received` holds before each read; a copy that returns has received
all that the reader gives, within the bound. -/
theorem triple_copyFrom {J : List UInt8 → σ → Prop} {Q : Exit ε (List UInt8) → σ → Prop}
    (hread : ∀ received, Prog.Triple (J received) read fun x s =>
      match x with
      | .returned _ => J received s
      | .raised e => Q (.raised e) s
      | .killed => Q .killed s)
    (hwrite : ∀ received chunk, Prog.Triple (J received) (write chunk) fun x s =>
      match x with
      | .returned _ => J (received ++ chunk) s
      | .raised e => Q (.raised e) s
      | .killed => Q .killed s)
    (hraise : ∀ received s, J received s → Q (.raised notBytes) s ∧ Q (.raised tooLong) s)
    {index : Nat} {received : List UInt8} (hbound : received.length ≤ bound)
    (hdone : ∀ rest s, Gives reads index rest → (received ++ rest).length ≤ bound →
      J (received ++ rest) s → Q (.returned (received ++ rest)) s) :
    Prog.Triple (J received) (copyFrom reads bound notBytes tooLong read write index received) Q := by
  induction index, received using copyFrom.induct bound with
  | case1 index received ih =>
      unfold copyFrom
      refine Prog.triple_bind (hread received) (fun _ => ?_) (fun _ _ h => h) fun _ h => h
      have hend : (reads index).isEnd = true → Prog.Triple (J received)
          (Pure.pure received : Prog σ ε (List UInt8)) Q := fun hend =>
        Prog.triple_pure fun s hs => by
          have hnil := hdone [] s (.done hend)
          rw [List.append_nil] at hnil
          exact hnil hbound hs
      -- a falsy read ends the copy, whatever its type; a truthy one must be bytes
      cases heq : reads index with
      | other truthy =>
          cases truthy with
          | true => exact Prog.triple_raise fun s hs => (hraise received s hs).1
          | false => exact hend (by rw [heq]; rfl)
      | bytes chunk =>
          dsimp only
          by_cases hempty : chunk = []
          · rw [dif_pos hempty]
            exact hend (by rw [heq, hempty]; rfl)
          · rw [dif_neg hempty]
            by_cases hlong : bound < received.length + chunk.length
            · rw [dif_pos hlong]
              exact Prog.triple_raise fun s hs => (hraise received s hs).2
            · rw [dif_neg hlong]
              refine Prog.triple_bind (hwrite received chunk) (fun _ => ?_) (fun _ _ h => h)
                fun _ h => h
              refine ih chunk hempty hlong ?_ fun rest s hrest hlength hs => ?_
              · rw [List.length_append]
                omega
              · rw [List.append_assoc] at hlength hs ⊢
                exact hdone (chunk ++ rest) s (.chunk heq hempty hrest) hlength hs

/-- The rule of a copy that keeps `I` however it ends. -/
theorem yields_copyFrom {J : List UInt8 → σ → Prop} {I : σ → Prop} (hI : ∀ received s, J received s → I s)
    (hread : ∀ received, Prog.Yields (J received) I read fun _ => J received)
    (hwrite : ∀ received chunk, Prog.Yields (J received) I (write chunk) fun _ =>
      J (received ++ chunk)) :
    Prog.Yields (J []) I (copyFrom reads bound notBytes tooLong read write 0 []) fun received s =>
      J received s ∧ Gives reads 0 received ∧ received.length ≤ bound := by
  refine triple_copyFrom (J := J) (fun received => ?_) (fun received chunk => ?_)
    (fun received s hs => ?_) (by exact Nat.zero_le _) fun rest s hgives hbound hs => ?_
  · refine Prog.Triple.weaken (hread received) (fun _ h => h) fun x s hx => ?_
    cases x with
    | returned u => exact hx.2 u rfl
    | raised e => exact ⟨hx.1, fun _ h => by cases h⟩
    | killed => exact ⟨hx.1, fun _ h => by cases h⟩
  · refine Prog.Triple.weaken (hwrite received chunk) (fun _ h => h) fun x s hx => ?_
    cases x with
    | returned u => exact hx.2 u rfl
    | raised e => exact ⟨hx.1, fun _ h => by cases h⟩
    | killed => exact ⟨hx.1, fun _ h => by cases h⟩
  · exact ⟨⟨hI _ s hs, fun _ h => by cases h⟩, ⟨hI _ s hs, fun _ h => by cases h⟩⟩
  · exact ⟨hI _ s hs, fun received h => Exit.returned.inj h ▸ ⟨hs, hgives, hbound⟩⟩

end Copy

end StreamCopy
