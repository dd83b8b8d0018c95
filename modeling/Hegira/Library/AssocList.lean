/-
# Association lists

Rows of named values: the names and the values are lists of one length, zipped.  With
distinct names each name finds its value (`map_lookup_zip`).  An `Option` traversal
succeeds when every step does (`mapM_eq_some`).
-/

import Mathlib.Data.List.Forall2
import Mathlib.Data.List.Nodup

namespace Hegira
namespace Library

variable {α β γ κ : Type}

/-- A list is mapped when each item is. -/
theorem mapM_eq_some {f : α → Option β} {xs : List α} {ys : List β} :
    xs.mapM f = some ys ↔ List.Forall₂ (fun x y => f x = some y) xs ys := by
  induction xs generalizing ys with
  | nil => simp [eq_comm]
  | cons x xs ih =>
      rw [List.mapM_cons, List.forall₂_cons_left_iff]
      constructor
      · intro h
        obtain ⟨y, hy, h⟩ := Option.bind_eq_some_iff.1 h
        obtain ⟨rest, hrest, h⟩ := Option.bind_eq_some_iff.1 h
        exact ⟨y, rest, hy, ih.1 hrest, (Option.some.inj h).symm⟩
      · rintro ⟨y, rest, hy, hrest, rfl⟩
        rw [hy, ih.2 hrest]
        rfl

/-- Every result is that of an item. -/
theorem exists_of_mapM {f : α → Option β} {xs : List α} {ys : List β}
    (h : List.Forall₂ (fun x y => f x = some y) xs ys) : ∀ y ∈ ys, ∃ x ∈ xs, f x = some y := by
  induction h with
  | nil => exact nofun
  | @cons x y xs ys hxy hrest ih =>
      intro z hz
      rcases List.mem_cons.1 hz with rfl | hz
      · exact ⟨x, List.mem_cons_self, hxy⟩
      · obtain ⟨x', hx', hf⟩ := ih z hz
        exact ⟨x', List.mem_cons_of_mem _ hx', hf⟩

/-- Equal on the items, equal on the list. -/
theorem mapM_congr {f g : α → Option β} {xs : List α} (h : ∀ x ∈ xs, f x = g x) :
    xs.mapM f = xs.mapM g := by
  induction xs with
  | nil => rfl
  | cons x xs ih =>
      obtain ⟨hx, hxs⟩ := List.forall_mem_cons.1 h
      rw [List.mapM_cons, List.mapM_cons, hx, ih hxs]

/-- Mapping that never fails. -/
theorem mapM_some (xs : List α) : xs.mapM (fun x => some x) = some xs :=
  mapM_eq_some.2 (List.forall₂_same.2 fun _ _ => rfl)

/-- A traversal that changes some elements, and not which ones these are. -/
theorem mapM_filter {p : α → Bool} {g : α → Option α} {xs ys : List α}
    (hg : ∀ x ∈ xs, ∀ y, p x = true → g x = some y → p y = true)
    (h : xs.mapM (fun x => if p x then g x else some x) = some ys) :
    (xs.filter p).mapM g = some (ys.filter p) := by
  induction xs generalizing ys with
  | nil =>
      obtain rfl : [] = ys := Option.some.inj h
      rfl
  | cons x xs ih =>
      rw [List.mapM_cons] at h
      obtain ⟨y, hy, h⟩ := Option.bind_eq_some_iff.1 h
      obtain ⟨rest, hrest, h⟩ := Option.bind_eq_some_iff.1 h
      obtain rfl := Option.some.inj h
      obtain ⟨hx, hxs⟩ := List.forall_mem_cons.1 hg
      have hrest := ih hxs hrest
      cases hp : p x with
      | true =>
          rw [hp, if_pos rfl] at hy
          rw [List.filter_cons_of_pos hp, List.filter_cons_of_pos (hx y hp hy), List.mapM_cons, hy,
            hrest]
          rfl
      | false =>
          rw [hp] at hy
          obtain rfl : x = y := by simpa using hy
          rw [List.filter_cons_of_neg (by simp [hp]), List.filter_cons_of_neg (by simp [hp]), hrest]

/-- Steps that give values under their keys. -/
theorem mapM_tagged (G : α → β → Option γ) (key : α → κ) {xs : List α} {values : List β}
    (hlength : xs.length = values.length) :
    (xs.zip values).mapM (fun p => (G p.1 p.2).map (key p.1, ·)) =
      ((xs.zip values).mapM fun p => G p.1 p.2).map ((xs.map key).zip ·) := by
  induction xs generalizing values with
  | nil => rfl
  | cons x xs ih =>
      cases values with
      | nil => cases hlength
      | cons value values =>
          rw [List.zip_cons_cons, List.mapM_cons, List.mapM_cons, ih (Nat.succ.inj hlength)]
          cases G x value with
          | none => rfl
          | some y => cases (xs.zip values).mapM fun p => G p.1 p.2 <;> rfl

section Lookup

variable [BEq κ] [LawfulBEq κ]

/-- Looking up the names of a record finds its values. -/
theorem map_lookup_zip {names : List κ} {values : List β} (hnames : names.Nodup)
    (hlength : names.length = values.length) :
    names.map (fun name => (names.zip values).lookup name) = values.map some := by
  induction names generalizing values with
  | nil => rw [List.length_eq_zero_iff.1 hlength.symm]; rfl
  | cons name names ih =>
      cases values with
      | nil => cases hlength
      | cons value values =>
          obtain ⟨hname, hnames⟩ := List.nodup_cons.1 hnames
          rw [List.zip_cons_cons, List.map_cons, List.map_cons, List.lookup_cons_self,
            ← ih hnames (Nat.succ.inj hlength)]
          congr 1
          refine List.map_congr_left fun other hother => ?_
          have hne : (other == name) = false := beq_false_of_ne fun h => hname (h ▸ hother)
          rw [List.lookup_cons, hne]

/-- A step that looks its key up finds the value at its own place. -/
theorem mapM_lookup_zip {F : α → Option β → Option γ} {key : α → κ} {xs : List α} {values : List β}
    (hnames : (xs.map key).Nodup) (hlength : xs.length = values.length) :
    xs.mapM (fun x => F x (((xs.map key).zip values).lookup (key x))) =
      (xs.zip values).mapM fun p => F p.1 (some p.2) := by
  have hkeys : (xs.map key).length = values.length := by rwa [List.length_map]
  have hlookup := map_lookup_zip hnames hkeys
  have hsteps : xs.map (fun x => F x (((xs.map key).zip values).lookup (key x))) =
      (xs.zip values).map fun p => F p.1 (some p.2) := by
    refine List.ext_getElem (by simp [hlength]) fun i hi hi' => ?_
    have hat := congrArg (fun l => l[i]?) hlookup
    rw [List.length_map] at hi
    have hv : i < values.length := hlength ▸ hi
    simp only [List.getElem?_map, List.getElem?_eq_getElem hi, List.getElem?_eq_getElem hv,
      Option.map_some, Option.some_inj] at hat
    simp only [List.getElem_map, List.getElem_zip, hat]
  have hmap := congrArg (List.mapM (m := Option) id) hsteps
  simpa only [List.mapM_map, Function.comp_def, id] using hmap

end Lookup

end Library
end Hegira
