import Mathlib.Data.String.Basic

/-!
# Names of files

A file system counts the bytes of a name and refuses one that has too many.
-/

namespace FileNames

/-- The file system takes the name; a call with a longer one ends in `ENAMETOOLONG`. There need not
be a limit. -/
def takes (nameMax : Option Nat) (name : String) : Bool := nameMax.all (name.utf8ByteSize ≤ ·)

theorem takes_iff {nameMax : Option Nat} {name : String} :
    takes nameMax name = true ↔ ∀ n ∈ nameMax, name.utf8ByteSize ≤ n := by
  cases nameMax with
  | none => simp [takes]
  | some n => simp [takes]

/-- What a longer name starts with is taken too. -/
theorem takes_of_append {nameMax : Option Nat} {name rest : String}
    (h : takes nameMax (name ++ rest) = true) : takes nameMax name = true := by
  rw [takes_iff] at h ⊢
  intro n hn
  have := h n hn
  rw [String.utf8ByteSize_append] at this
  omega

/-- In ASCII a character is a byte. -/
theorem utf8ByteSize_ascii {text : List Char} (h : ∀ c ∈ text, c.toNat < 128) :
    (String.ofList text).utf8ByteSize = text.length := by
  induction text with
  | nil => rfl
  | cons c text ih =>
      have hc : c.utf8Size = 1 := by
        rw [Char.utf8Size_eq_one_iff, UInt32.le_iff_toNat_le]
        exact Nat.le_of_lt_succ (h c List.mem_cons_self)
      rw [String.ofList_cons, String.utf8ByteSize_append, String.utf8ByteSize_singleton, hc,
        ih fun d hd => h d (List.mem_cons_of_mem _ hd), List.length_cons, Nat.add_comm]

end FileNames
