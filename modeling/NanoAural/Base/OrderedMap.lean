import Mathlib.Data.List.Nodup
import Mathlib.Data.List.Perm.Basic
import Mathlib.Algebra.BigOperators.Group.List.Basic
import Mathlib.Algebra.Ring.Int.Defs

/-!
# Dictionaries that remember an order

A dictionary of Python's `OrderedDict` kind: keys are distinct and stand in the
order in which they were last put at the end. Besides the dictionary itself there
is what it means to drop the shortest run of oldest items that makes a list fit.
-/

/-- Keys and values, the key that was put at the end last standing last. -/
structure OrderedMap (κ ν : Type) where
  items : List (κ × ν)
  nodup : (items.map Prod.fst).Nodup

namespace OrderedMap

variable {κ ν : Type} [DecidableEq κ] (m : OrderedMap κ ν)

def empty : OrderedMap κ ν := ⟨[], List.nodup_nil⟩

def get? (k : κ) : Option ν := m.items.lookup k

/-- `pop(k, None)`. -/
def erase (k : κ) : OrderedMap κ ν :=
  ⟨m.items.filter fun p => p.1 != k, m.nodup.sublist (List.filter_sublist.map _)⟩

/-- `popitem(last=False)`, less what it returns. -/
def tail : OrderedMap κ ν := ⟨m.items.tail, m.nodup.sublist ((List.tail_sublist _).map _)⟩

theorem notMem_erase (k : κ) : k ∉ ((m.erase k).items.map Prod.fst) := by
  intro h
  obtain ⟨p, hp, rfl⟩ := List.mem_map.mp h
  have hne := (List.mem_filter.mp hp).2
  simp at hne

/-- `self[k] = v` of a key that was taken out: it stands at the end. -/
def push (k : κ) (v : ν) : OrderedMap κ ν :=
  ⟨(m.erase k).items ++ [(k, v)], by
    rw [List.map_append, List.nodup_append]
    refine ⟨(m.erase k).nodup, List.nodup_singleton _, fun a ha b hb hab => ?_⟩
    have hk : a = k := hab.trans (List.mem_singleton.mp hb)
    rw [hk] at ha
    exact m.notMem_erase k ha⟩

/-- `self[k] = v`: a key that is there keeps its place. -/
def put (k : κ) (v : ν) : OrderedMap κ ν :=
  if (m.get? k).isSome then
    ⟨m.items.map fun p => if p.1 = k then (k, v) else p, by
      have hkeys : (Prod.fst ∘ fun p : κ × ν => if p.1 = k then (k, v) else p) = Prod.fst := by
        funext p
        rw [Function.comp_apply]
        split
        · exact Eq.symm ‹p.1 = k›
        · rfl
      rw [List.map_map, hkeys]
      exact m.nodup⟩
  else m.push k v

/-- `move_to_end(k)` of a key that is there. -/
def moveToEnd (k : κ) : OrderedMap κ ν :=
  match m.get? k with
  | none => m
  | some v => m.push k v

variable {m} {k : κ} {v : ν} {p : κ × ν}

theorem mem_erase : p ∈ (m.erase k).items ↔ p ∈ m.items ∧ p.1 ≠ k := by
  unfold erase
  rw [List.mem_filter, bne_iff_ne]

theorem items_erase : (m.erase k).items = m.items.filter fun p => decide (p.1 ≠ k) :=
  List.filter_congr fun p _ => by rw [Bool.eq_iff_iff, bne_iff_ne, decide_eq_true_iff]

theorem mem_push : p ∈ (m.push k v).items ↔ (p ∈ m.items ∧ p.1 ≠ k) ∨ p = (k, v) := by
  unfold push
  rw [List.mem_append, List.mem_singleton, mem_erase]

omit [DecidableEq κ] in
/-- One key, one value. -/
theorem value_unique {v' : ν} (h : (k, v) ∈ m.items) (h' : (k, v') ∈ m.items) : v = v' :=
  (Prod.mk.inj (List.inj_on_of_nodup_map m.nodup h h' rfl)).2

theorem get?_eq_some : m.get? k = some v ↔ (k, v) ∈ m.items := by
  unfold get?
  rw [List.lookup_eq_some_iff]
  constructor
  · rintro ⟨l₁, l₂, heq, _⟩
    rw [heq]
    exact List.mem_append_right _ List.mem_cons_self
  · intro h
    obtain ⟨l₁, l₂, heq⟩ := List.append_of_mem h
    refine ⟨l₁, l₂, heq, fun q hq => ?_⟩
    have hnodup := m.nodup
    rw [heq, List.map_append, List.nodup_append] at hnodup
    exact bne_iff_ne.mpr fun hk => hnodup.2.2 q.1 (List.mem_map_of_mem hq) k
      (List.mem_map_of_mem List.mem_cons_self) hk.symm

theorem get?_eq_none : m.get? k = none ↔ ∀ v, (k, v) ∉ m.items := by
  rw [Option.eq_none_iff_forall_ne_some]
  exact forall_congr' fun v => not_congr get?_eq_some

theorem erase_eq_self (h : m.get? k = none) : m.erase k = m := by
  have hitems : (m.erase k).items = m.items := by
    refine List.filter_eq_self.mpr fun p hp => bne_iff_ne.mpr ?_
    rintro rfl
    exact get?_eq_none.mp h p.2 hp
  obtain ⟨items, hnodup⟩ := m
  unfold erase at hitems ⊢
  congr 1

theorem items_push (h : m.get? k = none) : (m.push k v).items = m.items ++ [(k, v)] := by
  change (m.erase k).items ++ _ = _
  rw [erase_eq_self h]

/-- The key that is pushed may have been taken out before. -/
theorem items_push_erase : ((m.erase k).push k v).items = (m.push k v).items := by
  have habsent : (m.erase k).get? k = none :=
    get?_eq_none.mpr fun _ h => (mem_erase.mp h).2 rfl
  exact items_push habsent

/-- Erasing takes one item out. -/
theorem perm_erase (h : (k, v) ∈ m.items) : m.items.Perm ((k, v) :: (m.erase k).items) := by
  have hnodup : m.items.Nodup := List.Nodup.of_map _ m.nodup
  have hcons : ((k, v) :: (m.erase k).items).Nodup :=
    List.nodup_cons.mpr ⟨fun hmem => (mem_erase.mp hmem).2 rfl,
      List.Nodup.of_map _ (m.erase k).nodup⟩
  refine (List.perm_ext_iff_of_nodup hnodup hcons).mpr fun p => ?_
  rw [List.mem_cons, mem_erase]
  constructor
  · intro hp
    by_cases hk : p.1 = k
    · subst hk
      exact .inl (Prod.ext rfl (value_unique hp h))
    · exact .inr ⟨hp, hk⟩
  · rintro (rfl | ⟨hp, _⟩)
    · exact h
    · exact hp

theorem get?_push (k k' : κ) : (m.push k v).get? k' = if k = k' then some v else m.get? k' := by
  refine Option.ext fun w => ?_
  rw [get?_eq_some, mem_push]
  by_cases hk : k = k'
  · subst hk
    rw [if_pos rfl]
    constructor
    · rintro (⟨_, hne⟩ | heq)
      · exact absurd rfl hne
      · exact congrArg some (Prod.mk.inj heq).2.symm
    · intro h
      exact .inr (Prod.ext rfl (Option.some.inj h).symm)
  · rw [if_neg hk, get?_eq_some]
    constructor
    · rintro (⟨hmem, _⟩ | heq)
      · exact hmem
      · exact absurd (Prod.mk.inj heq).1.symm hk
    · exact fun h => .inl ⟨h, fun heq => hk heq.symm⟩

/-- A key that is put stands with its new value, and the others as before. -/
theorem mem_put : p ∈ (m.put k v).items ↔ (p ∈ m.items ∧ p.1 ≠ k) ∨ p = (k, v) := by
  unfold put
  split
  · rename_i hsome
    obtain ⟨old, hold⟩ := Option.isSome_iff_exists.mp hsome
    rw [List.mem_map]
    constructor
    · rintro ⟨q, hq, rfl⟩
      by_cases hk : q.1 = k
      · exact .inr (if_pos hk)
      · rw [if_neg hk]
        exact .inl ⟨hq, hk⟩
    · rintro (⟨hp, hne⟩ | rfl)
      · exact ⟨p, hp, if_neg hne⟩
      · exact ⟨(k, old), get?_eq_some.mp hold, if_pos rfl⟩
  · exact mem_push

theorem get?_put (k k' : κ) : (m.put k v).get? k' = if k = k' then some v else m.get? k' := by
  have hsame : (m.put k v).get? k' = (m.push k v).get? k' := Option.ext fun w => by
    rw [get?_eq_some, get?_eq_some, mem_put, mem_push]
  rw [hsame, get?_push]

theorem items_put (h : m.get? k = none) : (m.put k v).items = m.items ++ [(k, v)] := by
  rw [put, h]
  exact items_push h

/-- Items under new and distinct keys are put at the end in their order. -/
theorem items_foldl_put {α : Type} {f : α → κ} {g : α → ν} :
    ∀ {as : List α} {m : OrderedMap κ ν}, (as.map f).Nodup →
      (∀ a ∈ as, m.get? (f a) = none) →
      (as.foldl (fun m a => m.put (f a) (g a)) m).items
        = m.items ++ as.map fun a => (f a, g a)
  | [], _, _, _ => (List.append_nil _).symm
  | a :: as, m, hnodup, habsent => by
      rw [List.map_cons, List.nodup_cons] at hnodup
      have hrest : ∀ b ∈ as, (m.put (f a) (g a)).get? (f b) = none := by
        intro b hb
        have hne : f a ≠ f b := fun h => hnodup.1 (h ▸ List.mem_map_of_mem hb)
        rw [get?_put, if_neg hne]
        exact habsent b (List.mem_cons_of_mem _ hb)
      rw [List.foldl_cons, items_foldl_put hnodup.2 hrest,
        items_put (habsent a List.mem_cons_self), List.append_assoc]
      rfl

/-- What a dictionary that is built of items holds. -/
theorem mem_foldl_put {α : Type} {f : α → κ} {g : α → ν} :
    ∀ {as : List α} {m : OrderedMap κ ν} {p : κ × ν},
      p ∈ (as.foldl (fun m a => m.put (f a) (g a)) m).items →
        p ∈ m.items ∨ ∃ a ∈ as, (f a, g a) = p
  | [], _, _, h => .inl h
  | a :: as, m, p, h => by
      rw [List.foldl_cons] at h
      rcases mem_foldl_put h with hput | ⟨b, hb, heq⟩
      · rcases mem_put.mp hput with ⟨hold, _⟩ | hnew
        · exact .inl hold
        · exact .inr ⟨a, List.mem_cons_self, hnew.symm⟩
      · exact .inr ⟨b, List.mem_cons_of_mem _ hb, heq⟩

theorem isSome_get?_foldl_put {α : Type} {f : α → κ} {g : α → ν} {k : κ} :
    ∀ {as : List α} {m : OrderedMap κ ν},
      ((as.foldl (fun m a => m.put (f a) (g a)) m).get? k).isSome
        ↔ (m.get? k).isSome ∨ k ∈ as.map f
  | [], m => by simp
  | a :: as, m => by
      rw [List.foldl_cons, isSome_get?_foldl_put, get?_put, List.map_cons, List.mem_cons]
      by_cases hk : f a = k
      · simp [hk]
      · rw [if_neg hk]
        have hne : ¬ k = f a := fun h => hk h.symm
        rw [or_iff_right hne]

theorem moveToEnd_of_mem (h : (k, v) ∈ m.items) : m.moveToEnd k = m.push k v := by
  unfold moveToEnd
  rw [get?_eq_some.mpr h]

/-- Moving a key changes the order only. -/
theorem perm_moveToEnd (k : κ) : (m.moveToEnd k).items.Perm m.items := by
  cases h : m.get? k with
  | none =>
      unfold moveToEnd
      rw [h]
  | some v =>
      have hmem := get?_eq_some.mp h
      rw [moveToEnd_of_mem hmem]
      exact (List.perm_append_singleton _ _).trans (perm_erase hmem).symm

theorem mem_moveToEnd : p ∈ (m.moveToEnd k).items ↔ p ∈ m.items := (perm_moveToEnd k).mem_iff

/-! ## Sums over the items -/

/-- The sum of a size over all items. -/
def total (size : ν → ℤ) (m : OrderedMap κ ν) : ℤ := (m.items.map fun p => size p.2).sum

variable {size : ν → ℤ}

theorem total_erase (h : (k, v) ∈ m.items) : (m.erase k).total size = m.total size - size v := by
  unfold total
  rw [((perm_erase h).map _).sum_eq, List.map_cons, List.sum_cons]
  exact (add_sub_cancel_left _ _).symm

theorem total_moveToEnd : (m.moveToEnd k).total size = m.total size :=
  ((perm_moveToEnd k).map _).sum_eq

theorem total_push (h : m.get? k = none) : (m.push k v).total size = m.total size + size v := by
  unfold total
  rw [items_push h, List.map_append, List.sum_append, List.map_singleton, List.sum_singleton]

end OrderedMap

/-! ## The shortest run of oldest items -/

/-- `dropped` is the shortest beginning of `l` without which it fits. -/
structure ShortestDrop {α : Type} (Fits : List α → Prop) (l dropped kept : List α) : Prop where
  split : l = dropped ++ kept
  fits : Fits kept
  shortest : ∀ pre suf, l = pre ++ suf → pre.length < dropped.length → ¬ Fits suf

namespace ShortestDrop

variable {α : Type} {Fits : List α → Prop} {l : List α}

theorem nil (h : Fits l) : ShortestDrop Fits l [] l := ⟨rfl, h, fun _ _ _ hlt => by cases hlt⟩

/-- One more at the front, which had to go. -/
theorem cons {x : α} {dropped kept : List α} (h : ShortestDrop Fits l dropped kept)
    (hx : ¬ Fits (x :: l)) : ShortestDrop Fits (x :: l) (x :: dropped) kept := by
  refine ⟨congrArg (x :: ·) h.split, h.fits, fun pre suf heq hlt => ?_⟩
  cases pre with
  | nil => exact (List.nil_append suf ▸ heq) ▸ hx
  | cons y pre =>
      exact h.shortest pre suf (List.cons.inj heq).2 (Nat.lt_of_succ_lt_succ hlt)

/-- What fits by itself at the end stays. -/
theorem keeps {pre suf dropped kept : List α} (h : ShortestDrop Fits (pre ++ suf) dropped kept)
    (hsuf : Fits suf) : ∃ mid, kept = mid ++ suf := by
  have hlength : dropped.length ≤ pre.length := by
    by_contra hlt
    exact h.shortest pre suf rfl (Nat.lt_of_not_le hlt) hsuf
  rcases List.append_eq_append_iff.mp h.split with ⟨mid, hdropped, hsplit⟩ | ⟨mid, _, hkept⟩
  · have hnil : mid = [] := by
      rw [hdropped, List.length_append] at hlength
      exact List.length_eq_zero_iff.mp (by omega)
    rw [hnil, List.nil_append] at hsplit
    exact ⟨[], hsplit.symm⟩
  · exact ⟨mid, hkept⟩

end ShortestDrop
