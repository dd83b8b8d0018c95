/-
# Lists up to the order of their elements

A list that is sorted by a key which tells its elements apart does not depend on the
order it was given in.  `Rearranged R` lists the same elements in another order, each
replaced by one related to it by `R`; with a normal form that respects `R`, the sorted
lists of normal forms are equal (`sortBy_map_eq`).
-/

import Mathlib.Data.List.Sort
import Mathlib.Data.List.Perm.Basic

namespace Hegira
namespace Arrangement

variable {α β κ : Type*}

/-! ### What `Finset.sort` asks of an order -/

instance isTrans_le [LinearOrder α] : IsTrans α fun a b => a ≤ b := inferInstance

instance antisymm_le [LinearOrder α] : Std.Antisymm fun a b : α => a ≤ b := inferInstance

/-! ### Lists up to an order -/

/-- `ys` are the elements of `xs` in some order, each replaced by one related to it. -/
def Rearranged (R : α → α → Prop) (xs ys : List α) : Prop :=
  ∃ zs, xs.Perm zs ∧ List.Forall₂ R zs ys

namespace Rearranged

variable {R : α → α → Prop} {xs ys : List α}

/-- A rearrangement by a symmetric relation is symmetric. -/
theorem symm (hR : ∀ x y, R x y → R y x) (h : Rearranged R xs ys) : Rearranged R ys xs := by
  obtain ⟨zs, hp, hf⟩ := h
  obtain ⟨ws, hf', hp'⟩ := List.perm_comp_forall₂ hp hf
  exact ⟨ws, hp'.symm, (hf'.imp hR).flip⟩

/-- A function that respects the relation gives the same values in another order. -/
theorem map_perm {f : α → β} (h : Rearranged R xs ys) (hf : ∀ x ∈ xs, ∀ y, R x y → f x = f y) :
    (xs.map f).Perm (ys.map f) := by
  obtain ⟨zs, hp, hr⟩ := h
  have hmap : zs.map f = ys.map f := by
    have hf : ∀ x ∈ zs, ∀ y, R x y → f x = f y := fun x hx => hf x (hp.mem_iff.2 hx)
    clear hp
    induction hr with
    | nil => rfl
    | @cons x y zs ys hxy _ ih =>
        rw [List.map_cons, List.map_cons, hf x (by simp) y hxy,
          ih fun x hx => hf x (List.mem_cons_of_mem _ hx)]
  exact hmap ▸ hp.map f

/-- It keeps the length. -/
theorem length_eq (h : Rearranged R xs ys) : xs.length = ys.length := by
  obtain ⟨zs, hp, hf⟩ := h
  rw [hp.length_eq, hf.length_eq]

end Rearranged

/-! ### Sorting by a key -/

variable [LinearOrder κ] {key : α → κ}

/-- The elements in the order of their keys; elements of one key keep their order. -/
def sortBy (key : α → κ) (xs : List α) : List α := xs.insertionSort fun a b => key a ≤ key b

/-- Sorting rearranges. -/
theorem sortBy_perm (key : α → κ) (xs : List α) : (sortBy key xs).Perm xs :=
  List.perm_insertionSort ..

@[simp] theorem mem_sortBy {xs : List α} {x : α} : x ∈ sortBy key xs ↔ x ∈ xs :=
  (sortBy_perm key xs).mem_iff

@[simp] theorem length_sortBy (key : α → κ) (xs : List α) : (sortBy key xs).length = xs.length :=
  (sortBy_perm key xs).length_eq

theorem pairwise_sortBy (key : α → κ) (xs : List α) :
    (sortBy key xs).Pairwise fun a b => key a ≤ key b :=
  List.pairwise_insertionSort ..

/-- Keys that differ leave one sorted list for all orders. -/
theorem sortBy_eq_of_perm {xs ys : List α} (h : xs.Perm ys) (hn : (xs.map key).Nodup) :
    sortBy key xs = sortBy key ys := by
  have hperm : (sortBy key xs).Perm (sortBy key ys) :=
    (sortBy_perm ..).trans (h.trans (sortBy_perm ..).symm)
  refine hperm.eq_of_pairwise (fun a b ha hb hab hba => ?_) (pairwise_sortBy ..) (pairwise_sortBy ..)
  exact List.inj_on_of_nodup_map hn (mem_sortBy.1 ha) (h.mem_iff.2 (mem_sortBy.1 hb))
    (le_antisymm hab hba)

/-- So do keys that no two values share. -/
theorem sortBy_eq_of_injective (hk : Function.Injective key) {xs ys : List α} (h : xs.Perm ys) :
    sortBy key xs = sortBy key ys := by
  have hperm : (sortBy key xs).Perm (sortBy key ys) :=
    (sortBy_perm ..).trans (h.trans (sortBy_perm ..).symm)
  exact hperm.eq_of_pairwise (fun a b _ _ hab hba => hk (le_antisymm hab hba))
    (pairwise_sortBy ..) (pairwise_sortBy ..)

/-- A function that keeps the keys commutes with the sort. -/
theorem map_sortBy {f : α → α} (hf : ∀ x, key (f x) = key x) (xs : List α) :
    (sortBy key xs).map f = sortBy key (xs.map f) :=
  List.map_insertionSort _ _ _ _ fun a _ b _ => by rw [hf a, hf b]

/-- **Normal forms in order.**  A function that keeps the keys and respects `R` leaves one
sorted list of all rearrangements, when the keys differ. -/
theorem sortBy_map_eq {R : α → α → Prop} {f : α → α} (hkey : ∀ x, key (f x) = key x)
    {xs ys : List α} (h : Rearranged R xs ys) (hf : ∀ x ∈ xs, ∀ y, R x y → f x = f y)
    (hn : (xs.map key).Nodup) : (sortBy key xs).map f = (sortBy key ys).map f := by
  have hmap : (xs.map f).map key = xs.map key := by
    rw [List.map_map]
    exact List.map_congr_left fun x _ => hkey x
  rw [map_sortBy hkey xs, map_sortBy hkey ys, sortBy_eq_of_perm (h.map_perm hf) (hmap ▸ hn)]

/-- Keys that differ name their elements. -/
theorem find?_key {κ : Type*} [DecidableEq κ] {key : α → κ} {xs : List α}
    (hn : (xs.map key).Nodup) {x : α} (hx : x ∈ xs) :
    (xs.find? fun y => key y = key x) = some x := by
  cases hf : xs.find? fun y => key y = key x with
  | none => exact absurd (decide_eq_true rfl) (List.find?_eq_none.1 hf x hx)
  | some y =>
      have hkey : key y = key x := by simpa using List.find?_some hf
      rw [List.inj_on_of_nodup_map hn (List.mem_of_find?_eq_some hf) hx hkey]

end Arrangement
end Hegira
