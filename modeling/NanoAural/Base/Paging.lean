import Mathlib.Order.Basic
import Mathlib.Data.List.Basic
import Mathlib.Order.Lattice

/-!
# Reading a growing list page by page

A list in strictly ascending order of a key that only grows at its end is read in
pages: each page holds the rows after a cursor, up to a limit, and one row more is
looked at to know whether there is another page. What the pages hold together is
always a prefix of the list, and the whole list once no cursor is left.
-/

namespace Paging

variable {α κ : Type} [LinearOrder κ] (key : α → κ)

/-- The rows behind the cursor. -/
def after (cursor : Option κ) (rows : List α) : List α :=
  rows.filter fun a => cursor.all fun c => decide (c < key a)

/-- The rows of one page. -/
def page (cursor : Option κ) (limit : Nat) (rows : List α) : List α :=
  (after key cursor rows).take limit

/-- The cursor of the next page, if there is one. -/
def nextCursor (cursor : Option κ) (limit : Nat) (rows : List α) : Option κ :=
  if limit < ((after key cursor rows).take (limit + 1)).length then
    (page key cursor limit rows).getLast?.map key
  else none

/-- What pages have returned so far, over the list as it was at the last of them, and the cursor
that page named. -/
inductive Chain : List α → List α → Option κ → Prop where
  | first {rows : List α} {limit : Nat} : 0 < limit →
      Chain rows (page key none limit rows) (nextCursor key none limit rows)
  | more {rows later seen : List α} {cursor : κ} {limit : Nat} : Chain rows seen (some cursor) →
      0 < limit →
      Chain (rows ++ later) (seen ++ page key (some cursor) limit (rows ++ later))
        (nextCursor key (some cursor) limit (rows ++ later))

/-- The keys ascend. -/
def Ascending (rows : List α) : Prop := rows.Pairwise fun a b => key a < key b

/-- A cursor stands at the end of what was seen. -/
def AtEnd (seen : List α) (cursor : Option κ) : Prop := seen.getLast?.map key = cursor

variable {key}

/-- Behind the end of a prefix are the other rows. -/
theorem after_append {seen rest : List α} {cursor : Option κ} (h : Ascending key (seen ++ rest))
    (hcursor : AtEnd key seen cursor) : after key cursor (seen ++ rest) = rest := by
  unfold Ascending at h
  rw [List.pairwise_append] at h
  obtain ⟨hseen, -, hrest⟩ := h
  unfold AtEnd at hcursor
  unfold after
  rcases List.eq_nil_or_concat seen with rfl | ⟨front, last, rfl⟩
  · subst hcursor
    simp
  · rw [List.concat_eq_append] at hseen hrest hcursor ⊢
    rw [List.getLast?_append, List.getLast?_singleton] at hcursor
    subst hcursor
    rw [List.filter_append, List.filter_eq_nil_iff.mpr, List.nil_append, List.filter_eq_self.mpr]
    · intro a ha
      simpa using hrest last (by simp) a ha
    · intro a ha
      rw [List.pairwise_append] at hseen
      rcases List.mem_append.mp ha with ha | ha
      · have := hseen.2.2 a ha last (by simp)
        simpa using this.le
      · rw [List.mem_singleton] at ha
        subst ha
        simp

/-- A prefix holds the rows up to the last of it. -/
theorem upTo_append {seen rest : List α} {c : κ} (h : Ascending key (seen ++ rest))
    (hc : AtEnd key seen (some c)) : ((seen ++ rest).filter fun a => decide (key a ≤ c)) = seen := by
  have hafter := after_append h hc
  unfold Ascending at h
  rw [List.pairwise_append] at h
  have hrest : rest.filter (fun a => decide (key a ≤ c)) = [] := by
    rw [List.filter_eq_nil_iff]
    intro a ha
    rw [← hafter, after, List.mem_filter] at ha
    simpa using ha.2
  have hseen : seen.filter (fun a => decide (key a ≤ c)) = seen := by
    rw [List.filter_eq_self]
    intro a ha
    have hnot : a ∉ rest := fun hrest => lt_irrefl _ (h.2.2 a ha a hrest)
    by_contra hlt
    refine hnot ?_
    rw [← hafter, after, List.mem_filter]
    exact ⟨List.mem_append_left _ ha, by simpa using hlt⟩
  rw [List.filter_append, hrest, hseen, List.append_nil]

/-- **One page**, read from the end of what was seen: either it holds all that is left, or it holds
as many rows as it may and its cursor is the last of them. -/
theorem page_spec {seen rest : List α} {cursor : Option κ} {limit : Nat} (hlimit : 0 < limit)
    (h : Ascending key (seen ++ rest)) (hcursor : AtEnd key seen cursor) :
    page key cursor limit (seen ++ rest) = rest.take limit
      ∧ ((rest.length ≤ limit ∧ nextCursor key cursor limit (seen ++ rest) = none)
        ∨ (limit < rest.length
          ∧ ∃ c, nextCursor key cursor limit (seen ++ rest) = some c
            ∧ AtEnd key (seen ++ rest.take limit) (some c))) := by
  unfold nextCursor page
  rw [after_append h hcursor]
  refine ⟨rfl, ?_⟩
  by_cases hlong : limit < rest.length
  · right
    have hne : rest.take limit ≠ [] := by
      rw [Ne, List.take_eq_nil_iff]
      rintro (rfl | rfl)
      · exact absurd hlimit (by omega)
      · exact absurd hlong (by simp)
    refine ⟨hlong, key ((rest.take limit).getLast hne), ?_, ?_⟩
    · rw [if_pos (by rw [List.length_take]; omega), List.getLast?_eq_some_getLast hne]
      rfl
    · rw [AtEnd, List.getLast?_append, List.getLast?_eq_some_getLast hne]
      rfl
  · left
    refine ⟨by omega, ?_⟩
    rw [if_neg (by rw [List.length_take]; omega)]

/-- A page read from the end of what was seen leaves a prefix seen. -/
theorem page_from_end {seen rest : List α} {cursor : Option κ} {limit : Nat} (hlimit : 0 < limit)
    (h : Ascending key (seen ++ rest)) (hcursor : AtEnd key seen cursor) :
    (∃ rest', seen ++ rest = (seen ++ page key cursor limit (seen ++ rest)) ++ rest'
        ∧ (nextCursor key cursor limit (seen ++ rest) = none → rest' = []))
      ∧ ∀ c, nextCursor key cursor limit (seen ++ rest) = some c →
        AtEnd key (seen ++ page key cursor limit (seen ++ rest)) (some c) := by
  obtain ⟨heq, hnext⟩ := page_spec hlimit h hcursor
  rw [heq]
  refine ⟨⟨rest.drop limit, by rw [List.append_assoc, List.take_append_drop], fun hnone => ?_⟩,
    fun c hc => ?_⟩
  · rcases hnext with ⟨hshort, -⟩ | ⟨-, c, hc, -⟩
    · exact List.drop_eq_nil_of_le hshort
    · rw [hnone] at hc
      cases hc
  · rcases hnext with ⟨-, hnone⟩ | ⟨-, c', hc', hend⟩
    · rw [hnone] at hc
      cases hc
    · rw [hc', Option.some.injEq] at hc
      exact hc ▸ hend

/-- **Pages together** are a prefix of the list, which ends at the cursor; without a cursor they
are the list. -/
theorem Chain.spec {rows seen : List α} {cursor : Option κ} (h : Chain key rows seen cursor)
    (hrows : Ascending key rows) :
    (∃ rest, rows = seen ++ rest ∧ (cursor = none → rest = []))
      ∧ ∀ c, cursor = some c → AtEnd key seen (some c) := by
  induction h with
  | first hlimit => exact @page_from_end _ _ _ key [] _ none _ hlimit hrows rfl
  | @more rows later seen cursor limit h hlimit ih =>
      obtain ⟨⟨rest, rfl, -⟩, hend⟩ := ih (List.pairwise_append.mp hrows).1
      rw [List.append_assoc] at hrows ⊢
      exact page_from_end hlimit hrows (hend cursor rfl)

end Paging
