/-
# Placing a key among keyed items

A list of items, some of which have a key, and an item placed before the first one whose key
is above its own, or at the end.  Items of different keys are placed in any order
(`place_comm`), and keys that increase keep increasing (`pairwise_place`).
-/

import Mathlib.Data.List.Basic
import Mathlib.Order.Lattice

namespace Hegira
namespace KeyedPlacement

variable {α κ : Type*} [LinearOrder κ] (keyOf : α → Option κ)

/-- The keys of the items that have one. -/
def keys (items : List α) : List κ := items.filterMap keyOf

/-- An item placed before the first one whose key is above `k`. -/
def place (new : α) (k : κ) : List α → List α
  | [] => [new]
  | item :: items =>
      if (keyOf item).any (fun other => decide (k < other)) then new :: item :: items
      else item :: place new k items

variable {keyOf} {new new' : α} {k k' : κ} {items : List α}

theorem place_cons_of_lt {item : α} (h : (keyOf item).any (fun other => decide (k < other)) = true) :
    place keyOf new k (item :: items) = new :: item :: items :=
  if_pos h

theorem place_cons_of_not_lt {item : α}
    (h : ¬(keyOf item).any (fun other => decide (k < other)) = true) :
    place keyOf new k (item :: items) = item :: place keyOf new k items :=
  if_neg h

/-- **Items of different keys are placed in any order.** -/
theorem place_comm (hnew : keyOf new = some k) (hnew' : keyOf new' = some k') (hne : k ≠ k') :
    place keyOf new k (place keyOf new' k' items) =
      place keyOf new' k' (place keyOf new k items) := by
  induction items with
  | nil => rcases lt_or_gt_of_ne hne with h | h <;> simp [place, hnew, hnew', h, h.not_gt]
  | cons item items ih =>
      cases hitem : keyOf item with
      | none => simp [place, hitem, ih]
      | some other =>
          by_cases h : k < other
          · by_cases h' : k' < other
            · rcases lt_or_gt_of_ne hne with hlt | hlt <;>
                simp [place, hitem, hnew, hnew', h, h', hlt, hlt.not_gt]
            · have hlt : k < k' := h.trans_le (not_lt.1 h')
              simp [place, hitem, hnew, h, h', hlt.not_gt]
          · by_cases h' : k' < other
            · have hlt : k' < k := h'.trans_le (not_lt.1 h)
              simp [place, hitem, hnew', h, h', hlt.not_gt]
            · simp [place, hitem, h, h', ih]

/-- An item is placed between the items of smaller keys and one of a greater key. -/
theorem exists_place (new : α) (k : κ) (items : List α) : ∃ before after, items = before ++ after ∧
    place keyOf new k items = before ++ new :: after ∧
    (∀ item ∈ before, ∀ other, keyOf item = some other → ¬k < other) ∧
    ∀ item ∈ after.head?, ∃ other, keyOf item = some other ∧ k < other := by
  induction items with
  | nil => exact ⟨[], [], rfl, rfl, nofun, nofun⟩
  | cons item items ih =>
      by_cases h : (keyOf item).any (fun other => decide (k < other)) = true
      · refine ⟨[], item :: items, rfl, place_cons_of_lt h, nofun, ?_⟩
        rintro _ ⟨⟩
        obtain ⟨other, hother, hlt⟩ := (Option.any_eq_true _ _).1 h
        exact ⟨other, hother, of_decide_eq_true hlt⟩
      · obtain ⟨before, after, rfl, hplace, hbefore, hafter⟩ := ih
        refine ⟨item :: before, after, rfl, ?_, List.forall_mem_cons.2 ⟨?_, hbefore⟩, hafter⟩
        · rw [place_cons_of_not_lt h, hplace, List.cons_append]
        · rintro other hother hlt
          rw [hother] at h
          exact h (decide_eq_true hlt)

/-- The place depends on the keys only. -/
theorem place_append {before after : List α}
    (hbefore : ∀ item ∈ before, ∀ other, keyOf item = some other → ¬k < other)
    (hafter : ∀ item ∈ after.head?, ∃ other, keyOf item = some other ∧ k < other) :
    place keyOf new k (before ++ after) = before ++ new :: after := by
  induction before with
  | nil =>
      cases after with
      | nil => rfl
      | cons item after =>
          obtain ⟨other, hother, hlt⟩ := hafter item rfl
          refine place_cons_of_lt ?_
          rw [hother]
          exact decide_eq_true hlt
  | cons item before ih =>
      obtain ⟨hitem, hbefore⟩ := List.forall_mem_cons.1 hbefore
      rw [List.cons_append, place_cons_of_not_lt, ih hbefore, List.cons_append]
      cases hkey : keyOf item with
      | none => exact Bool.noConfusion
      | some other => exact fun h => hitem other hkey (of_decide_eq_true h)

theorem mem_keys_place (hnew : keyOf new = some k) {other : κ} :
    other ∈ keys keyOf (place keyOf new k items) ↔ other = k ∨ other ∈ keys keyOf items := by
  obtain ⟨before, after, rfl, hplace, -, -⟩ := @exists_place _ _ _ keyOf new k items
  rw [hplace, keys, keys, List.filterMap_append, List.filterMap_append, List.filterMap_cons, hnew]
  simp only [List.mem_append, List.mem_cons]
  tauto

/-- **Keys that increase keep increasing.** -/
theorem pairwise_place (hnew : keyOf new = some k) (hk : k ∉ keys keyOf items)
    (h : (keys keyOf items).Pairwise (· < ·)) :
    (keys keyOf (place keyOf new k items)).Pairwise (· < ·) := by
  induction items with
  | nil => simp [place, keys, hnew]
  | cons item items ih =>
      cases hitem : keyOf item with
      | none =>
          rw [keys, List.filterMap_cons, hitem] at h hk
          rw [place_cons_of_not_lt (by rw [hitem]; exact Bool.noConfusion), keys,
            List.filterMap_cons, hitem]
          exact ih hk h
      | some other =>
          rw [keys, List.filterMap_cons, hitem, List.pairwise_cons] at h
          rw [keys, List.filterMap_cons, hitem, List.mem_cons, not_or] at hk
          by_cases hlt : k < other
          · rw [place_cons_of_lt (by rw [hitem]; exact decide_eq_true hlt), keys,
              List.filterMap_cons, hnew, List.filterMap_cons, hitem, List.pairwise_cons,
              List.forall_mem_cons, List.pairwise_cons]
            exact ⟨⟨hlt, fun later hlater => hlt.trans (h.1 later hlater)⟩, h⟩
          · rw [place_cons_of_not_lt (by rw [hitem]; exact fun h => hlt (of_decide_eq_true h)),
              keys, List.filterMap_cons, hitem, List.pairwise_cons]
            refine ⟨fun later hlater => ?_, ih hk.2 h.2⟩
            rcases (mem_keys_place hnew).1 hlater with rfl | hlater
            · exact lt_of_le_of_ne (not_lt.1 hlt) (Ne.symm hk.1)
            · exact h.1 later hlater

end KeyedPlacement
end Hegira
