import Mathlib.Data.List.Basic
import Mathlib.Data.List.Nodup
import Mathlib.Data.List.Pairwise

/-!
# Relations with a primary key

A `Table` is a list of rows in insertion order that carries the proof that every
row passes its check constraint and that no two rows share a primary key or
collide on a unique index. A write that would break one of these produces no
table at all, so nothing downstream has to re-prove them.
-/

namespace Relational

/-- The constraints a relation declares on its rows. -/
class Schema (ρ : Type) (κ : outParam Type) where
  [decKey : DecidableEq κ]
  /-- The primary key. -/
  key : ρ → κ
  /-- The conjunction of the row's check constraints. -/
  check : ρ → Bool
  /-- Two rows that some unique index refuses to hold together. -/
  clash : ρ → ρ → Bool
  clash_comm : ∀ a b, clash a b = clash b a

attribute [reducible, instance] Schema.decKey

variable {ρ κ : Type} [Schema ρ κ]

open Schema

/-- Two rows that may stand in one table. -/
def Apart (a b : ρ) : Prop := key a ≠ key b ∧ clash a b = false

instance (a b : ρ) : Decidable (Apart a b) := inferInstanceAs (Decidable (_ ∧ _))

theorem Apart.symm {a b : ρ} (h : Apart a b) : Apart b a :=
  ⟨h.1.symm, by rw [clash_comm]; exact h.2⟩

/-- A set of rows that satisfies its schema. -/
structure Table (ρ : Type) {κ : Type} [Schema ρ κ] where
  rows : List ρ
  /-- Every row passes its checks. -/
  checked : ∀ r ∈ rows, check r = true
  /-- Primary keys and unique indexes hold. -/
  apart : rows.Pairwise Apart

namespace Table

theorem ext {t u : Table ρ} (h : t.rows = u.rows) : t = u := by
  cases t; cases u; cases h; rfl

def empty : Table ρ := ⟨[], by simp, List.Pairwise.nil⟩

/-- Accept a list of rows as a table exactly when it satisfies the schema. -/
def validate (rows : List ρ) : Option (Table ρ) :=
  if h : (∀ r ∈ rows, check r = true) ∧ rows.Pairwise Apart then some ⟨rows, h.1, h.2⟩ else none

/-- The row with primary key `k`. -/
def find? (t : Table ρ) (k : κ) : Option ρ := t.rows.find? (fun r => key r = k)

/-- `INSERT`: append a row. -/
def insert? (t : Table ρ) (r : ρ) : Option (Table ρ) := validate (t.rows ++ [r])

/-- `UPDATE ... WHERE id = ...`: replace the row that has `r`'s primary key. -/
def put? (t : Table ρ) (r : ρ) : Option (Table ρ) :=
  validate (t.rows.map fun x => if key x = key r then r else x)

/-! ## Lookups -/

theorem validate_some {rows : List ρ} {t : Table ρ} (h : validate rows = some t) :
    t.rows = rows := by
  unfold validate at h
  split at h
  · injection h with h; subst h; rfl
  · exact absurd h (by simp)

theorem validate_of (rows : List ρ) (h₁ : ∀ r ∈ rows, check r = true)
    (h₂ : rows.Pairwise Apart) : ∃ t : Table ρ, validate rows = some t ∧ t.rows = rows := by
  unfold validate
  rw [dif_pos ⟨h₁, h₂⟩]
  exact ⟨_, rfl, rfl⟩

theorem key_of_find? {t : Table ρ} {k : κ} {r : ρ} (h : t.find? k = some r) : key r = k := by
  have := List.find?_some h
  simpa using this

theorem mem_of_find? {t : Table ρ} {k : κ} {r : ρ} (h : t.find? k = some r) : r ∈ t.rows :=
  List.mem_of_find?_eq_some h

theorem eq_of_key {t : Table ρ} {a b : ρ} (ha : a ∈ t.rows) (hb : b ∈ t.rows)
    (h : key a = key b) : a = b := by
  by_contra hne
  exact (List.Pairwise.forall_of_forall_of_flip
    (R := fun a b : ρ => a ≠ b → key a ≠ key b) (l := t.rows) (fun _ _ hx => absurd rfl hx)
    (t.apart.imp fun hab _ => hab.1) (t.apart.imp fun hab _ => hab.1.symm) ha hb) hne h

/-- Two rows that collide on a unique index are one row. -/
theorem eq_of_clash {t : Table ρ} {a b : ρ} (ha : a ∈ t.rows) (hb : b ∈ t.rows)
    (h : clash a b = true) : a = b := by
  by_contra hne
  have hclash := List.Pairwise.forall_of_forall_of_flip
    (R := fun a b : ρ => a ≠ b → clash a b = false) (l := t.rows) (fun _ _ hx => absurd rfl hx)
    (t.apart.imp fun hab _ => hab.2) (t.apart.imp fun hab _ => hab.symm.2) ha hb hne
  rw [h] at hclash
  exact Bool.noConfusion hclash

theorem find?_of_mem {t : Table ρ} {r : ρ} (h : r ∈ t.rows) : t.find? (key r) = some r := by
  cases hf : t.find? (key r) with
  | none =>
      unfold find? at hf
      have := List.find?_eq_none.mp hf r h
      simp at this
  | some x => rw [eq_of_key (mem_of_find? hf) h (key_of_find? hf)]

theorem check_of_find? {t : Table ρ} {k : κ} {r : ρ} (h : t.find? k = some r) :
    check r = true := t.checked r (mem_of_find? h)

/-! ## Inserting -/

theorem insert?_rows {t t' : Table ρ} {r : ρ} (h : t.insert? r = some t') :
    t'.rows = t.rows ++ [r] := validate_some h

theorem insert?_fresh {t t' : Table ρ} {r : ρ} (h : t.insert? r = some t') :
    t.find? (key r) = none := by
  have hp := t'.apart
  rw [insert?_rows h, List.pairwise_append] at hp
  unfold find?
  refine List.find?_eq_none.mpr fun x hx => ?_
  have := (hp.2.2 x hx r (by simp)).1
  simpa using this

theorem find?_insert? {t t' : Table ρ} {r : ρ} (h : t.insert? r = some t') (k : κ) :
    t'.find? k = if k = key r then some r else t.find? k := by
  have hf := insert?_fresh h
  unfold find? at hf ⊢
  rw [insert?_rows h, List.find?_append]
  by_cases hk : k = key r
  · subst hk
    rw [hf, if_pos rfl]
    simp
  · rw [if_neg hk]
    have : ¬ key r = k := fun e => hk e.symm
    simp [this]

theorem insert?_self {t t' : Table ρ} {r : ρ} (h : t.insert? r = some t') :
    t'.find? (key r) = some r := (find?_insert? h _).trans (if_pos rfl)

/-- A row that was there before an insert is still there. -/
theorem insert?_keep {t t' : Table ρ} {r x : ρ} {k : κ} (h : t.insert? r = some t')
    (hx : t.find? k = some x) : t'.find? k = some x := by
  rw [find?_insert? h]
  split
  · rename_i hk
    rw [hk, insert?_fresh h] at hx
    exact absurd hx (by simp)
  · exact hx

/-- A row found after an insert is the new one, or was there before. -/
theorem of_insert? {t t' : Table ρ} {r x : ρ} {k : κ} (h : t.insert? r = some t')
    (hx : t'.find? k = some x) : (k = key r ∧ x = r) ∨ (k ≠ key r ∧ t.find? k = some x) := by
  rw [find?_insert? h] at hx
  split at hx
  · rename_i hk
    injection hx with hx
    exact Or.inl ⟨hk, hx.symm⟩
  · rename_i hk
    exact Or.inr ⟨hk, hx⟩

/-- A row with a new key that passes its checks and clashes with none goes in. -/
theorem insert?_of {t : Table ρ} {r : ρ} (hfresh : t.find? (key r) = none) (hc : check r = true)
    (hcl : ∀ x ∈ t.rows, clash x r = false) : ∃ t' : Table ρ, t.insert? r = some t' := by
  obtain ⟨t', ht, _⟩ := validate_of (t.rows ++ [r])
    (fun x hx => by
      rcases List.mem_append.mp hx with hx | hx
      · exact t.checked x hx
      · rw [List.mem_singleton.mp hx]; exact hc)
    (List.pairwise_append.mpr ⟨t.apart, List.pairwise_singleton _ _, fun x hx y hy => by
      rw [List.mem_singleton.mp hy]
      refine ⟨fun hk => ?_, hcl x hx⟩
      rw [← hk, find?_of_mem hx] at hfresh
      exact absurd hfresh (by simp)⟩)
  exact ⟨t', ht⟩

/-! ## Updating -/

theorem put?_rows {t t' : Table ρ} {r : ρ} (h : t.put? r = some t') :
    t'.rows = t.rows.map fun x => if key x = key r then r else x := validate_some h

theorem mem_put? {t t' : Table ρ} {r x : ρ} (h : t.put? r = some t') :
    x ∈ t'.rows ↔ (x ∈ t.rows ∧ key x ≠ key r) ∨ (x = r ∧ ∃ y, t.find? (key r) = some y) := by
  rw [put?_rows h, List.mem_map]
  constructor
  · rintro ⟨y, hy, rfl⟩
    by_cases hk : key y = key r
    · rw [if_pos hk]
      exact Or.inr ⟨rfl, y, hk ▸ find?_of_mem hy⟩
    · rw [if_neg hk]
      exact Or.inl ⟨hy, hk⟩
  · rintro (⟨hx, hk⟩ | ⟨rfl, y, hy⟩)
    · exact ⟨x, hx, if_neg hk⟩
    · exact ⟨y, mem_of_find? hy, if_pos (key_of_find? hy)⟩

theorem find?_put? {t t' : Table ρ} {r old : ρ} (h : t.put? r = some t')
    (hold : t.find? (key r) = some old) (k : κ) :
    t'.find? k = if k = key r then some r else t.find? k := by
  by_cases hk : k = key r
  · subst hk
    rw [if_pos rfl]
    exact find?_of_mem ((mem_put? h).mpr (Or.inr ⟨rfl, old, hold⟩))
  · rw [if_neg hk]
    cases hf : t.find? k with
    | none =>
        unfold find? at hf ⊢
        refine List.find?_eq_none.mpr fun x hx => ?_
        rcases (mem_put? h).mp hx with ⟨hx, _⟩ | ⟨rfl, _⟩
        · exact List.find?_eq_none.mp hf x hx
        · simpa using fun e : key x = k => hk e.symm
    | some y =>
        have hy := key_of_find? hf
        subst hy
        exact find?_of_mem ((mem_put? h).mpr (Or.inl ⟨mem_of_find? hf, hk⟩))

theorem put?_self {t t' : Table ρ} {r old : ρ} (h : t.put? r = some t')
    (hold : t.find? (key r) = some old) : t'.find? (key r) = some r :=
  (find?_put? h hold _).trans (if_pos rfl)

theorem put?_other {t t' : Table ρ} {r old : ρ} {k : κ} (h : t.put? r = some t')
    (hold : t.find? (key r) = some old) (hk : k ≠ key r) : t'.find? k = t.find? k :=
  (find?_put? h hold _).trans (if_neg hk)

/-- A row found after an update is the new one, or is untouched. -/
theorem of_put? {t t' : Table ρ} {r old x : ρ} {k : κ} (h : t.put? r = some t')
    (hold : t.find? (key r) = some old) (hx : t'.find? k = some x) :
    (k = key r ∧ x = r) ∨ (k ≠ key r ∧ t.find? k = some x) := by
  rw [find?_put? h hold] at hx
  split at hx
  · rename_i hk
    injection hx with hx
    exact Or.inl ⟨hk, hx.symm⟩
  · rename_i hk
    exact Or.inr ⟨hk, hx⟩

/-- A row that passes its checks and clashes with no other row can be written. -/
theorem put?_of {t : Table ρ} {r : ρ} (hc : check r = true)
    (hcl : ∀ x ∈ t.rows, key x ≠ key r → clash x r = false) :
    ∃ t' : Table ρ, t.put? r = some t' := by
  obtain ⟨t', ht, _⟩ := validate_of (t.rows.map fun x => if key x = key r then r else x)
    (fun x hx => by
      obtain ⟨y, hy, rfl⟩ := List.mem_map.mp hx
      split
      · exact hc
      · exact t.checked y hy)
    (List.pairwise_map.mpr (t.apart.imp_of_mem fun {x y} hx hy hxy => by
      by_cases hkx : key x = key r
      · have hky : key y ≠ key r := fun hk => hxy.1 (hkx.trans hk.symm)
        rw [if_pos hkx, if_neg hky]
        exact Apart.symm ⟨hky, hcl y hy hky⟩
      · rw [if_neg hkx]
        by_cases hky : key y = key r
        · rw [if_pos hky]
          exact ⟨hkx, hcl x hx hkx⟩
        · rw [if_neg hky]
          exact hxy))
  exact ⟨t', ht⟩

/-- Replacing a row by one that projects alike leaves the projection of the table alone. -/
theorem map_put? {β : Type} {t t' : Table ρ} {r old : ρ} (f : ρ → β)
    (h : t.put? r = some t') (hold : t.find? (key r) = some old) (hf : f r = f old) :
    t'.rows.map f = t.rows.map f := by
  rw [put?_rows h, List.map_map]
  refine List.map_congr_left fun x hx => ?_
  by_cases hk : key x = key r
  · have : x = old := eq_of_key hx (mem_of_find? hold) (hk.trans (key_of_find? hold).symm)
    subst this
    rw [Function.comp_apply, if_pos hk, hf]
  · rw [Function.comp_apply, if_neg hk]

/-- The same for a query that filters as it projects. -/
theorem filterMap_put? {β : Type} {t t' : Table ρ} {r old : ρ} (f : ρ → Option β)
    (h : t.put? r = some t') (hold : t.find? (key r) = some old) (hf : f r = f old) :
    t'.rows.filterMap f = t.rows.filterMap f := by
  have hid : ∀ l : List ρ, l.filterMap f = (l.map f).filterMap id := fun l => by
    rw [List.filterMap_map]; rfl
  rw [hid, hid, map_put? f h hold hf]

/-- Rewriting rows without touching their keys rewrites what a lookup finds. -/
theorem find?_map {t t' : Table ρ} {g : ρ → ρ} (h : t'.rows = t.rows.map g)
    (hg : ∀ r, key (g r) = key r) (k : κ) : t'.find? k = (t.find? k).map g := by
  unfold find?
  rw [h, List.find?_map]
  congr 2
  funext r
  simp [hg r]

end Table

end Relational
