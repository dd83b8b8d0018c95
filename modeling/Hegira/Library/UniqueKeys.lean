/-
# Maps filled from entries whose keys differ

`insertNew` puts an entry into a map and refuses a key that is taken.  Entries go in one
after another exactly when no key is taken and none comes twice, and the map then holds
what it held and the entries (`insertAll_eq_ok`).  So the order of the entries makes no
difference, but to the error (`insertAll_perm`).
-/

import Std.Data.ExtTreeMap
import Mathlib.Data.List.Nodup
import Mathlib.Order.Basic
import Hegira.Library.Validation

namespace Hegira
namespace UniqueKeys

open Std (ExtTreeMap TransOrd LawfulEqOrd)

variable {K V ε : Type} [Ord K] [TransOrd K]

/-- The entry goes in, when its key is not taken. -/
def insertNew (taken : V → K × V → ε) (m : ExtTreeMap K V) (entry : K × V) :
    Except ε (ExtTreeMap K V) :=
  match m[entry.1]? with
  | some existing => .error (taken existing entry)
  | none => .ok (m.insert entry.1 entry.2)

/-- The entries go in, one after another. -/
def insertAll (taken : V → K × V → ε) (m : ExtTreeMap K V) (entries : List (K × V)) :
    Except ε (ExtTreeMap K V) :=
  entries.foldlM (insertNew taken) m

/-- The keys of the entries differ, and none is taken. -/
structure Fresh (m : ExtTreeMap K V) (entries : List (K × V)) : Prop where
  nodup : (entries.map Prod.fst).Nodup
  free : ∀ e ∈ entries, m[e.1]? = none

section

variable {taken : V → K × V → ε} {m m' : ExtTreeMap K V} {entries entries' : List (K × V)}

/-- The order of fresh entries does not matter. -/
theorem Fresh.perm (h : Fresh m entries) (hp : entries.Perm entries') : Fresh m entries' :=
  ⟨((hp.map Prod.fst).nodup_iff).1 h.nodup, fun e he => h.free e (hp.mem_iff.2 he)⟩

/-- Two parts are inserted in turn. -/
theorem insertAll_append : insertAll taken m (entries ++ entries') = .ok m' ↔
    ∃ m₁, insertAll taken m entries = .ok m₁ ∧ insertAll taken m₁ entries' = .ok m' := by
  rw [insertAll, List.foldlM_append, Validation.bind_eq_ok]
  rfl

variable [LawfulEqOrd K]

/-- What is found after one insertion. -/
theorem getElem?_insert (m : ExtTreeMap K V) (k a : K) (v : V) [DecidableEq K] :
    (m.insert k v)[a]? = if k = a then some v else m[a]? := by
  rw [ExtTreeMap.getElem?_insert]
  by_cases h : k = a
  · rw [if_pos h, if_pos (Std.compare_eq_iff_eq.2 h)]
  · rw [if_neg h, if_neg fun hc => h (Std.compare_eq_iff_eq.1 hc)]

/-- Entries are fresh one after the other. -/
theorem fresh_cons {e : K × V} : Fresh m (e :: entries) ↔
    m[e.1]? = none ∧ Fresh (m.insert e.1 e.2) entries := by
  classical
  constructor
  · intro h
    obtain ⟨hnot, hnodup⟩ := List.nodup_cons.1 h.nodup
    refine ⟨h.free e (List.mem_cons_self ..), hnodup, fun e' he' => ?_⟩
    have hne : e.1 ≠ e'.1 := fun heq => hnot (heq ▸ List.mem_map_of_mem he')
    rw [getElem?_insert, if_neg hne]
    exact h.free e' (List.mem_cons_of_mem _ he')
  · rintro ⟨hfree, h⟩
    have hother : ∀ e' ∈ entries, e.1 ≠ e'.1 ∧ m[e'.1]? = none := by
      intro e' he'
      have hnone := h.free e' he'
      rw [getElem?_insert] at hnone
      split at hnone
      · cases hnone
      · next hne => exact ⟨hne, hnone⟩
    refine ⟨List.nodup_cons.2 ⟨fun hmem => ?_, h.nodup⟩, fun e' he' => ?_⟩
    · obtain ⟨e', he', heq⟩ := List.mem_map.1 hmem
      exact (hother e' he').1 heq.symm
    · rcases List.mem_cons.1 he' with rfl | he'
      · exact hfree
      · exact (hother e' he').2

/-- **The entries go in exactly when their keys are fresh**, and the map then holds what it
held and the entries. -/
theorem insertAll_eq_ok : insertAll taken m entries = .ok m' ↔ Fresh m entries ∧
    ∀ k v, m'[k]? = some v ↔ m[k]? = some v ∨ (k, v) ∈ entries := by
  classical
  induction entries generalizing m with
  | nil =>
      have hfresh : Fresh m [] := ⟨List.nodup_nil, fun e he => nomatch he⟩
      constructor
      · intro h
        obtain rfl : m = m' := Except.ok.inj h
        exact ⟨hfresh, fun k v => by simp⟩
      · rintro ⟨-, h⟩
        refine congrArg Except.ok (ExtTreeMap.ext_getElem? fun k => ?_)
        exact Option.ext fun v => by simpa using (h k v).symm
  | cons e entries ih =>
      rw [fresh_cons]
      cases he : m[e.1]? with
      | some existing =>
          have hstep : insertNew taken m e = .error (taken existing e) := by
            rw [insertNew, he]
          rw [insertAll, List.foldlM_cons, hstep]
          exact iff_of_false (by intro h; cases h) fun h => nomatch h.1.1
      | none =>
          have hstep : insertNew taken m e = .ok (m.insert e.1 e.2) := by rw [insertNew, he]
          rw [insertAll, List.foldlM_cons, hstep]
          refine (ih (m := m.insert e.1 e.2)).trans ?_
          rw [and_iff_right rfl]
          refine and_congr_right fun _ => forall₂_congr fun k v => ?_
          rw [getElem?_insert, List.mem_cons]
          by_cases hk : e.1 = k
          · subst hk
            rw [if_pos rfl, he, Option.some.injEq, Prod.ext_iff]
            simp [eq_comm]
          · rw [if_neg hk]
            have hne : (k, v) ≠ e := fun heq => hk (heq ▸ rfl)
            simp [hne]

/-- Entries in another order fill the same map, or fail too. -/
theorem insertAll_perm (hp : entries.Perm entries') (h : insertAll taken m entries = .ok m') :
    insertAll taken m entries' = .ok m' := by
  obtain ⟨hfresh, hmem⟩ := insertAll_eq_ok.1 h
  refine insertAll_eq_ok.2 ⟨hfresh.perm hp, fun k v => ?_⟩
  rw [hmem, hp.mem_iff]

/-- Fresh entries may be put in without a look at the keys. -/
theorem Fresh.insertAll (h : Fresh m entries) :
    insertAll taken m entries = .ok (entries.foldl (fun m e => m.insert e.1 e.2) m) := by
  induction entries generalizing m with
  | nil => rfl
  | cons e entries ih =>
      obtain ⟨he, h⟩ := fresh_cons.1 h
      have hstep : insertNew taken m e = .ok (m.insert e.1 e.2) := by rw [insertNew, he]
      rw [UniqueKeys.insertAll, List.foldlM_cons, hstep]
      exact ih h

/-- What is found after all of them. -/
theorem Fresh.getElem?_foldl (h : Fresh m entries) (k : K) (v : V) :
    (entries.foldl (fun m e => m.insert e.1 e.2) m)[k]? = some v ↔
      m[k]? = some v ∨ (k, v) ∈ entries := by
  have hall : UniqueKeys.insertAll (fun _ _ => ()) m entries =
      .ok (entries.foldl (fun m e => m.insert e.1 e.2) m) := h.insertAll
  exact (insertAll_eq_ok.1 hall).2 k v

end

end UniqueKeys
end Hegira
