/-
# Checks that fail with an error

Validators are sequences of steps in `Except`.  Each step that may fail has a rule
for when it succeeds, so that a successful run of a validator is taken apart into
the facts it has checked.
-/

import Mathlib.Tactic.Common
import Mathlib.Data.List.Basic
import Mathlib.Data.List.Forall2
import Mathlib.Data.Set.Insert

namespace Hegira
namespace Validation

universe u

variable {ε ε' γ : Type*} {α β : Type u}

/-- A sequence succeeds when both steps do. -/
theorem bind_eq_ok {x : Except ε α} {f : α → Except ε β} {b : β} :
    (x >>= f) = .ok b ↔ ∃ a, x = .ok a ∧ f a = .ok b := by
  cases x with
  | error e => exact ⟨nofun, fun ⟨_, h, _⟩ => nomatch h⟩
  | ok a => exact ⟨fun h => ⟨a, rfl, h⟩, fun ⟨_, h, hf⟩ => Except.ok.inj h ▸ hf⟩

/-- When each step of a check succeeds, and what it returns. -/
@[simp] theorem pure_eq_ok {a b : α} : (pure a : Except ε α) = .ok b ↔ a = b :=
  ⟨Except.ok.inj, congrArg _⟩

@[simp] theorem throw_eq_ok {e : ε} {b : α} : (throw e : Except ε α) = .ok b ↔ False :=
  ⟨nofun, False.elim⟩

@[simp] theorem mapError_eq_ok {x : Except ε α} {f : ε → ε'} {b : α} :
    x.mapError f = .ok b ↔ x = .ok b := by
  cases x with
  | error e => exact ⟨nofun, nofun⟩
  | ok a => exact Iff.of_eq (by simp [Except.mapError])

@[simp] theorem map_eq_ok {x : Except ε α} {f : α → β} {b : β} :
    x.map f = .ok b ↔ ∃ a, x = .ok a ∧ f a = b := by
  cases x <;> simp [Except.map]

@[simp] theorem map_eq_error {x : Except ε α} {f : α → β} {e : ε} :
    x.map f = .error e ↔ x = .error e := by
  cases x <;> simp [Except.map]

/-- A guard succeeds when its condition does not hold. -/
theorem guard_eq_ok {p : Prop} [Decidable p] {e : ε} {u : PUnit} :
    (if p then throw e else pure PUnit.unit : Except ε PUnit) = .ok u ↔ ¬p := by
  by_cases hp : p <;> simp [hp]

/-- A guard, then the rest. -/
theorem guarded_eq_ok {p : Prop} [Decidable p] {e : ε} {f : PUnit → Except ε α} {b : α} :
    (if p then throw e >>= f else f PUnit.unit) = .ok b ↔ ¬p ∧ f PUnit.unit = .ok b := by
  by_cases hp : p
  · simp only [hp, not_true_eq_false, false_and, iff_false]
    exact nofun
  · simp [hp]

/-- A check of every element succeeds when each one does. -/
theorem forM_eq_ok {xs : List γ} {f : γ → Except ε PUnit} {u : PUnit} :
    xs.forM f = .ok u ↔ ∀ x ∈ xs, f x = .ok PUnit.unit := by
  induction xs with
  | nil => simp [List.forM]
  | cons x xs ih =>
      change (f x >>= fun _ => xs.forM f) = .ok u ↔ _
      rw [bind_eq_ok, List.forall_mem_cons]
      exact ⟨fun ⟨_, hx, hxs⟩ => ⟨hx, ih.1 hxs⟩, fun ⟨hx, hxs⟩ => ⟨_, hx, ih.2 hxs⟩⟩

/-- A list of results succeeds when each one does. -/
theorem mapM_eq_ok {xs : List γ} {f : γ → Except ε α} {ys : List α} :
    xs.mapM f = .ok ys ↔ List.Forall₂ (fun x y => f x = .ok y) xs ys := by
  induction xs generalizing ys with
  | nil => cases ys <;> simp [pure, Except.pure]
  | cons x xs ih =>
      rw [List.mapM_cons, bind_eq_ok]
      constructor
      · rintro ⟨y, hy, h⟩
        obtain ⟨zs, hzs, h⟩ := bind_eq_ok.1 h
        obtain rfl := pure_eq_ok.1 h
        exact .cons hy (ih.1 hzs)
      · rintro (_ | ⟨hy, h⟩)
        exact ⟨_, hy, bind_eq_ok.2 ⟨_, ih.2 h, rfl⟩⟩

/-- A check that succeeds on every item returns its results in turn. -/
theorem mapM_eq_ok_map {xs : List γ} {f : γ → Except ε α} {g : γ → α}
    (h : ∀ x ∈ xs, f x = .ok (g x)) : xs.mapM f = .ok (xs.map g) :=
  mapM_eq_ok.2 (List.forall₂_map_right_iff.2 (List.forall₂_same.2 h))

/-- A list that is accepted has accepted items. -/
theorem exists_of_mapM_eq_ok {xs : List γ} {f : γ → Except ε α} {ys : List α}
    (h : xs.mapM f = .ok ys) {x : γ} (hx : x ∈ xs) : ∃ y, f x = .ok y := by
  rw [mapM_eq_ok] at h
  induction h with
  | nil => cases hx
  | @cons x' y' xs ys hxy _ ih =>
      rcases List.mem_cons.1 hx with rfl | hx
      · exact ⟨y', hxy⟩
      · exact ih hx

/-- A value that passes a check is a result. -/
theorem exists_of_toOption_any {x : Except ε α} {p : α → Bool} (h : x.toOption.any p = true) :
    ∃ a, x = .ok a ∧ p a = true := by
  cases x with
  | error e => cases h
  | ok a => exact ⟨a, rfl, h⟩

/-! ### Loops with a state -/

variable {σ : Type u} {κ β' : Type*} {f : σ → γ → Except ε σ} {s s' : σ} {xs : List γ}

/-- A loop that succeeds takes its first step. -/
theorem foldlM_cons_eq_ok {x : γ} :
    (x :: xs).foldlM f s = .ok s' ↔ ∃ t, f s x = .ok t ∧ xs.foldlM f t = .ok s' := by
  rw [List.foldlM_cons, bind_eq_ok]

/-- Every turn of a loop that succeeds has succeeded. -/
theorem exists_of_foldlM_eq_ok (h : xs.foldlM f s = .ok s') {x : γ} (hx : x ∈ xs) :
    ∃ t t', f t x = .ok t' := by
  induction xs generalizing s with
  | nil => cases hx
  | cons y ys ih =>
      obtain ⟨t, hy, h⟩ := foldlM_cons_eq_ok.1 h
      rcases List.mem_cons.1 hx with rfl | hx
      · exact ⟨s, t, hy⟩
      · exact ih h hx

/-- A loop that refuses the keys it has seen has seen no key twice. -/
theorem nodup_of_foldlM_eq_ok (seen : σ → Set κ) (key : γ → κ)
    (hf : ∀ {s x s'}, f s x = .ok s' → key x ∉ seen s ∧ seen s' = insert (key x) (seen s))
    (h : xs.foldlM f s = .ok s') : (xs.map key).Nodup ∧ ∀ x ∈ xs, key x ∉ seen s := by
  induction xs generalizing s with
  | nil => exact ⟨List.nodup_nil, nofun⟩
  | cons x xs ih =>
      obtain ⟨t, hx, h⟩ := foldlM_cons_eq_ok.1 h
      obtain ⟨hnew, ht⟩ := hf hx
      obtain ⟨hnodup, hrest⟩ := ih h
      rw [ht] at hrest
      refine ⟨List.nodup_cons.2 ⟨fun hmem => ?_, hnodup⟩, List.forall_mem_cons.2 ⟨hnew, ?_⟩⟩
      · obtain ⟨y, hy, hkey⟩ := List.mem_map.1 hmem
        exact hrest y hy (.inl hkey)
      · exact fun y hy hseen => hrest y hy (.inr hseen)

/-- A loop that lists one value a turn. -/
theorem list_of_foldlM_eq_ok (out : σ → List β') (g : γ → β')
    (hf : ∀ {s x s'}, f s x = .ok s' → out s' = out s ++ [g x])
    (h : xs.foldlM f s = .ok s') : out s' = out s ++ xs.map g := by
  induction xs generalizing s with
  | nil =>
      obtain rfl : s = s' := Except.ok.inj h
      exact (List.append_nil _).symm
  | cons x xs ih =>
      obtain ⟨t, hx, h⟩ := foldlM_cons_eq_ok.1 h
      rw [ih h, hf hx, List.append_assoc, List.map_cons, List.singleton_append]

/-- A loop reads of its values what their normal forms say. -/
theorem foldlM_congr_of_map_eq {g : γ → β'} (hf : ∀ {s x y}, g x = g y → f s x = f s y)
    {xs ys : List γ} (h : xs.map g = ys.map g) (s : σ) : xs.foldlM f s = ys.foldlM f s := by
  induction xs generalizing ys s with
  | nil =>
      obtain rfl := List.map_eq_nil_iff.1 h.symm
      rfl
  | cons x xs ih =>
      obtain ⟨y, ys, rfl, hxy, hxs⟩ := List.map_eq_cons_iff.1 h.symm
      rw [List.foldlM_cons, List.foldlM_cons, hf hxy.symm]
      exact congrArg _ (funext fun t => ih hxs.symm t)

/-! ### What a check ensures -/

/-- A success has `Q`, and an error has `E`. -/
def Ensures (E : ε → Prop) (Q : α → Prop) : Except ε α → Prop
  | .ok a => Q a
  | .error e => E e

section Ensures

variable {E : ε → Prop} {P Q : α → Prop} {R : β → Prop} {x : Except ε α}

/-- What a success ensures. -/
theorem Ensures.of_eq_ok {a : α} (h : Ensures E Q x) (hx : x = .ok a) : Q a := by
  subst hx
  exact h

/-- What an error ensures. -/
theorem Ensures.of_eq_error {e : ε} (h : Ensures E Q x) (hx : x = .error e) : E e := by
  subst hx
  exact h

/-- A weaker condition on the result. -/
theorem Ensures.mono (h : Ensures E P x) (hpq : ∀ a, x = .ok a → P a → Q a) : Ensures E Q x := by
  cases x with
  | error e => exact h
  | ok a => exact hpq a rfl h

/-- Checks compose. -/
theorem Ensures.bind {k : α → Except ε β} (h : Ensures E P x)
    (hk : ∀ a, x = .ok a → P a → Ensures E R (k a)) : Ensures E R (x >>= k) := by
  cases x with
  | error e => exact h
  | ok a => exact hk a rfl h

/-- A guard that fails as it may, then the rest. -/
theorem Ensures.guarded {p : Prop} [Decidable p] {e : ε} {f : PUnit → Except ε α}
    (he : p → E e) (h : ¬p → Ensures E Q (f PUnit.unit)) :
    Ensures E Q (if p then throw e >>= f else f PUnit.unit) := by
  split
  · next hp => exact he hp
  · next hp => exact h hp

/-- A loop, by an invariant over what was passed and what is left. -/
theorem Ensures.foldlM_past {I : List γ → List γ → σ → Prop}
    (hf : ∀ past x rest s, I past (x :: rest) s → Ensures E (I (past ++ [x]) rest) (f s x))
    {past : List γ} (h : I past xs s) : Ensures E (I (past ++ xs) []) (xs.foldlM f s) := by
  induction xs generalizing past s with
  | nil =>
      rw [List.append_nil]
      exact h
  | cons x xs ih =>
      rw [List.foldlM_cons]
      refine (hf past x xs s h).bind fun t _ ht => ?_
      rw [List.append_cons]
      exact ih ht

/-- An invariant of a loop may speak of what is done and what is left. -/
theorem Ensures.foldlM {I : List γ → List γ → σ → Prop}
    (hf : ∀ past x rest s, I past (x :: rest) s → Ensures E (I (past ++ [x]) rest) (f s x))
    (h : I [] xs s) : Ensures E (I xs []) (xs.foldlM f s) :=
  Ensures.foldlM_past hf h

end Ensures

end Validation
end Hegira
