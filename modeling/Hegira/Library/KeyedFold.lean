/-
# Folds of operations that each act at one key

A store is read through `lookup : M → K → Option V`.  An operation is addressed
to one key and either fails or replaces what the store holds there
(`Tracks`).  A list of such operations then runs on the store exactly when, at
every key, the operations addressed to that key run on what the store holds
there, and the result is read off key by key (`Tracks.lookup_of_foldlM`,
`Tracks.exists_foldlM`).  So a property of a whole run is a property of one
chain of operations at one key.
-/

import Mathlib.Logic.Function.Basic
import Mathlib.Data.List.Basic

namespace Hegira
namespace Keyed

variable {K V O M : Type*} [DecidableEq K]

/-- The operations of `os` addressed to `k`, in order. -/
def opsAt (key : O → K) (os : List O) (k : K) : List O :=
  os.filter fun o => key o = k

@[simp] theorem opsAt_nil (key : O → K) (k : K) : opsAt key [] k = [] := rfl

@[simp] theorem opsAt_cons (key : O → K) (o : O) (os : List O) (k : K) :
    opsAt key (o :: os) k = if key o = k then o :: opsAt key os k else opsAt key os k := by
  simp [opsAt, List.filter_cons]

@[simp] theorem opsAt_append (key : O → K) (os os' : List O) (k : K) :
    opsAt key (os ++ os') k = opsAt key os k ++ opsAt key os' k :=
  List.filter_append ..

/-- Every operation selected at `k` is addressed to `k`. -/
theorem key_of_mem_opsAt {key : O → K} {os : List O} {k : K} {o : O} (h : o ∈ opsAt key os k) :
    key o = k := by
  simpa using (List.mem_filter.1 h).2

/-- `f` does at the key of each operation what `step` says and nothing at any
other key. -/
structure Tracks (lookup : M → K → Option V) (key : O → K)
    (step : Option V → O → Option (Option V)) (f : M → O → Option M) : Prop where
  /-- A successful operation is a successful step at its key, seen in the store. -/
  ran : ∀ {m o m'}, f m o = some m' → ∃ v, step (lookup m (key o)) o = some v ∧
    lookup m' = Function.update (lookup m) (key o) v
  /-- An operation fails only where its step does. -/
  stuck : ∀ {m o}, f m o = none → step (lookup m (key o)) o = none

variable {lookup : M → K → Option V} {key : O → K} {step : Option V → O → Option (Option V)}
  {f : M → O → Option M}

/-- **A run is read off key by key.**  What the store holds at `k` after the
operations is what the operations addressed to `k` make of what it held. -/
theorem Tracks.lookup_of_foldlM (h : Tracks lookup key step f) (os : List O) {m m' : M}
    (hm : os.foldlM f m = some m') (k : K) :
    (opsAt key os k).foldlM step (lookup m k) = some (lookup m' k) := by
  induction os generalizing m with
  | nil =>
      obtain rfl : m = m' := by simpa using hm
      simp
  | cons o os ih =>
      rw [List.foldlM_cons] at hm
      obtain ⟨m₁, h₁, h₂⟩ := Option.bind_eq_some_iff.1 hm
      obtain ⟨v, hv, hl⟩ := h.ran h₁
      have ih := ih h₂
      rw [hl] at ih
      by_cases hk : key o = k
      · subst hk
        simpa [hv] using ih
      · rw [Function.update_of_ne (Ne.symm hk)] at ih
        simpa [hk] using ih

/-- **Operations that run at every key run on the store.** -/
theorem Tracks.exists_foldlM (h : Tracks lookup key step f) (os : List O) (m : M)
    (hm : ∀ k, ∃ v, (opsAt key os k).foldlM step (lookup m k) = some v) :
    ∃ m', os.foldlM f m = some m' := by
  induction os generalizing m with
  | nil => exact ⟨m, rfl⟩
  | cons o os ih =>
      obtain ⟨v, hv⟩ := hm (key o)
      rw [opsAt_cons, if_pos rfl, List.foldlM_cons] at hv
      obtain ⟨v₁, h₁, h₂⟩ := Option.bind_eq_some_iff.1 hv
      rcases hf : f m o with _ | m₁
      · rw [h.stuck hf] at h₁
        cases h₁
      · obtain ⟨w, hw, hl⟩ := h.ran hf
        obtain rfl : v₁ = w := Option.some.inj (h₁.symm.trans hw)
        obtain ⟨m', hm'⟩ := ih m₁ fun k => by
          rw [hl]
          by_cases hk : key o = k
          · subst hk
            exact ⟨v, by simpa using h₂⟩
          · rw [Function.update_of_ne (Ne.symm hk)]
            simpa [hk] using hm k
        exact ⟨m', by rw [List.foldlM_cons, hf]; exact hm'⟩

/-- On stores that are determined by what they hold, a run is exactly its runs
at every key. -/
theorem Tracks.foldlM_eq_some_iff (h : Tracks lookup key step f)
    (hl : Function.Injective lookup) (os : List O) (m m' : M) :
    os.foldlM f m = some m' ↔
      ∀ k, (opsAt key os k).foldlM step (lookup m k) = some (lookup m' k) := by
  refine ⟨fun hm k => h.lookup_of_foldlM os hm k, fun hk => ?_⟩
  obtain ⟨m₁, h₁⟩ := h.exists_foldlM os m fun k => ⟨_, hk k⟩
  have e : lookup m₁ = lookup m' := funext fun k =>
    Option.some.inj ((h.lookup_of_foldlM os h₁ k).symm.trans (hk k))
  rw [h₁, hl e]

/-- Forgetting the error of a failing fold forgets it in every step. -/
theorem toOption_foldlM {E : Type*} (g : M → O → Except E M) (os : List O) (m : M) :
    (os.foldlM g m).toOption = os.foldlM (fun m o => (g m o).toOption) m := by
  induction os generalizing m with
  | nil => rfl
  | cons o os ih =>
      rw [List.foldlM_cons, List.foldlM_cons]
      cases h : g m o with
      | error e => rfl
      | ok m' => exact ih m'

section TreeMap

variable [Ord K] [Std.TransOrd K] [Std.LawfulEqOrd K]

theorem lookup_insert (m : Std.TreeMap K V) (p : K) (v : V) :
    (fun k => (m.insert p v)[k]?) = Function.update (fun k => m[k]?) p (some v) := by
  funext k
  by_cases hk : p = k
  · subst hk
    simp
  · rw [Std.TreeMap.getElem?_insert, if_neg fun h => hk (Std.LawfulEqCmp.eq_of_compare h),
      Function.update_of_ne (Ne.symm hk)]

theorem lookup_erase (m : Std.TreeMap K V) (p : K) :
    (fun k => (m.erase p)[k]?) = Function.update (fun k => m[k]?) p none := by
  funext k
  by_cases hk : p = k
  · subst hk
    simp
  · rw [Std.TreeMap.getElem?_erase, if_neg fun h => hk (Std.LawfulEqCmp.eq_of_compare h),
      Function.update_of_ne (Ne.symm hk)]

/-- **A map collected from entries with distinct keys** holds them. -/
theorem getElem?_foldl_insert {key : O → K} {value : O → V} {os : List O}
    (h : (os.map key).Nodup) (k : K) (v : V) :
    (os.foldl (fun m o => m.insert (key o) (value o)) (∅ : Std.TreeMap K V))[k]? = some v ↔
      ∃ o ∈ os, key o = k ∧ value o = v := by
  suffices hm : ∀ m : Std.TreeMap K V,
      (os.foldl (fun m o => m.insert (key o) (value o)) m)[k]? = some v ↔
        (∃ o ∈ os, key o = k ∧ value o = v) ∨ k ∉ os.map key ∧ m[k]? = some v by
    rw [hm]
    simp
  induction os with
  | nil => simp
  | cons o os ih =>
      intro m
      rw [List.map_cons, List.nodup_cons] at h
      rw [List.foldl_cons, ih h.2, congrFun (lookup_insert m (key o) (value o)) k]
      by_cases hk : key o = k
      · subst hk
        simp only [Function.update_self, List.mem_cons, List.map_cons, Option.some.injEq,
          exists_eq_or_imp, true_and, not_true_eq_false, false_and, or_false, h.1,
          not_false_eq_true]
        exact or_comm
      · simp [hk, Ne.symm hk]

end TreeMap

end Keyed
end Hegira
