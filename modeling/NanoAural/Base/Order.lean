import Mathlib.Data.List.Sort

/-!
# `ORDER BY ... LIMIT n`

A stable sort by a key, and which rows a limit keeps: a row is within the limit
exactly when fewer rows than the limit precede it.
-/

namespace Relational

variable {ρ κ : Type} [LinearOrder κ]

/-- `ORDER BY f`. -/
def orderBy (f : ρ → κ) (rows : List ρ) : List ρ := rows.insertionSort fun a b => f a ≤ f b

theorem orderBy_perm (f : ρ → κ) (rows : List ρ) : (orderBy f rows).Perm rows :=
  List.perm_insertionSort _ rows

@[simp] theorem mem_orderBy {f : ρ → κ} {rows : List ρ} {r : ρ} :
    r ∈ orderBy f rows ↔ r ∈ rows := (orderBy_perm f rows).mem_iff

theorem orderBy_pairwise (f : ρ → κ) (rows : List ρ) :
    (orderBy f rows).Pairwise fun a b => f a ≤ f b := by
  have : Std.Total fun a b : ρ => f a ≤ f b := ⟨fun a b => le_total (f a) (f b)⟩
  have : IsTrans ρ fun a b => f a ≤ f b := ⟨fun _ _ _ => le_trans⟩
  exact List.pairwise_insertionSort (fun a b : ρ => f a ≤ f b) rows

/-- Rows in any order, under distinct keys, have one order by key. -/
theorem orderBy_eq {f : ρ → κ} {rows sorted : List ρ} (hperm : rows.Perm sorted)
    (hsorted : (sorted.map f).Pairwise (· < ·)) : orderBy f rows = sorted := by
  have hnodup : (sorted.map f).Nodup := hsorted.imp fun h => h.ne
  have hboth : (orderBy f rows).Perm sorted := (orderBy_perm f rows).trans hperm
  refine List.Perm.eq_of_pairwise (fun a b ha hb hab hba => ?_) (orderBy_pairwise f rows)
    ((List.pairwise_map.mp hsorted).imp fun h => h.le) hboth
  exact List.inj_on_of_nodup_map hnodup (hboth.mem_iff.mp ha) hb (le_antisymm hab hba)

/-- Rows under distinct keys have one order by key, whatever order they come in. -/
theorem orderBy_congr {f : ρ → κ} {rows rows' : List ρ} (hperm : rows.Perm rows')
    (hnodup : (rows.map f).Nodup) : orderBy f rows = orderBy f rows' := by
  have hkeys : ((orderBy f rows').map f).Nodup :=
    ((hperm.trans (orderBy_perm f rows').symm).map f).nodup_iff.mp hnodup
  refine orderBy_eq (hperm.trans (orderBy_perm f rows').symm) (List.pairwise_map.mpr ?_)
  refine (orderBy_pairwise f rows').imp₂ (fun _ _ hle hne => lt_of_le_of_ne hle hne) ?_
  exact List.pairwise_map.mp hkeys

end Relational
