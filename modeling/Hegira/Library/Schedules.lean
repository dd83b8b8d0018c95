/-
# Schedules

Partial steps of a state, taken one after another.  Two steps meet when a state that
accepts both accepts them in either order and comes to the same state.  Steps that meet
pairwise and are each accepted at first are accepted in every order, and every order comes
to the same state (`run_perm`).
-/

import Mathlib.Data.List.Basic
import Mathlib.Data.List.Perm.Basic

namespace Hegira
namespace Schedules

variable {α σ : Type*} (step : α → σ → Option σ)

/-- The steps of a schedule, one after another. -/
def run : List α → σ → Option σ
  | [], s => some s
  | a :: rest, s => (step a s).bind (run rest)

/-- Two steps that a state accepts are accepted in either order, with one result. -/
def Meet (a b : α) : Prop :=
  ∀ ⦃s s₁ s₂⦄, step a s = some s₁ → step b s = some s₂ →
    ∃ s', step b s₁ = some s' ∧ step a s₂ = some s'

variable {step} {a b : α} {s s₁ : σ} {xs ys : List α}

/-- Meeting is symmetric. -/
theorem Meet.symm (h : Meet step a b) : Meet step b a := by
  intro s s₁ s₂ h₁ h₂
  obtain ⟨s', hb, ha⟩ := h h₂ h₁
  exact ⟨s', ha, hb⟩

/-- A schedule starts with its first step. -/
theorem run_cons_of_step (h : step a s = some s₁) : run step (a :: xs) s = run step xs s₁ := by
  rw [run, h, Option.bind_some]

/-- Two schedules in turn. -/
theorem run_append (xs ys : List α) (s : σ) :
    run step (xs ++ ys) s = (run step xs s).bind (run step ys) := by
  induction xs generalizing s with
  | nil => rfl
  | cons a xs ih =>
      rw [List.cons_append, run, run]
      cases step a s with
      | none => rfl
      | some s₁ => exact ih s₁

/-- A step leaves the steps that meet it accepted. -/
theorem accepts_of_step (h : step a s = some s₁) (hmeet : ∀ b ∈ xs, Meet step a b)
    (haccepts : ∀ b ∈ xs, (step b s).isSome = true) : ∀ b ∈ xs, (step b s₁).isSome = true := by
  intro b hb
  obtain ⟨s₂, hs₂⟩ := Option.isSome_iff_exists.1 (haccepts b hb)
  obtain ⟨s', hs', -⟩ := hmeet b hb h hs₂
  exact Option.isSome_iff_exists.2 ⟨s', hs'⟩

/-- Steps that meet and are accepted alone are accepted in turn. -/
theorem isSome_run (hmeet : xs.Pairwise (Meet step))
    (haccepts : ∀ b ∈ xs, (step b s).isSome = true) : (run step xs s).isSome = true := by
  induction xs generalizing s with
  | nil => rfl
  | cons a xs ih =>
      obtain ⟨ha, hrest⟩ := List.forall_mem_cons.1 haccepts
      obtain ⟨hfirst, hmeet⟩ := List.pairwise_cons.1 hmeet
      obtain ⟨s₁, hs₁⟩ := Option.isSome_iff_exists.1 ha
      rw [run_cons_of_step hs₁]
      exact ih hmeet (accepts_of_step hs₁ hfirst hrest)

/-- **The order of such steps does not matter.** The result is the same. -/
theorem run_eq_of_perm (hperm : xs.Perm ys) (hmeet : xs.Pairwise (Meet step))
    (haccepts : ∀ b ∈ xs, (step b s).isSome = true) : run step xs s = run step ys s := by
  induction hperm generalizing s with
  | nil => rfl
  | cons a h ih =>
      obtain ⟨ha, hrest⟩ := List.forall_mem_cons.1 haccepts
      obtain ⟨hfirst, hmeet⟩ := List.pairwise_cons.1 hmeet
      obtain ⟨s₁, hs₁⟩ := Option.isSome_iff_exists.1 ha
      rw [run_cons_of_step hs₁, run_cons_of_step hs₁]
      exact ih hmeet (accepts_of_step hs₁ hfirst hrest)
  | swap a b rest =>
      obtain ⟨hb, hothers⟩ := List.forall_mem_cons.1 haccepts
      obtain ⟨s₁, hs₁⟩ := Option.isSome_iff_exists.1 hb
      obtain ⟨s₂, hs₂⟩ := Option.isSome_iff_exists.1 (hothers a List.mem_cons_self)
      obtain ⟨s', h₁, h₂⟩ := (List.pairwise_cons.1 hmeet).1 a List.mem_cons_self hs₁ hs₂
      rw [run_cons_of_step hs₁, run_cons_of_step h₁, run_cons_of_step hs₂, run_cons_of_step h₂]
  | trans h h' ih ih' =>
      have hmeet' := (h.pairwise_iff fun h => h.symm).1 hmeet
      rw [ih hmeet haccepts, ih' hmeet' fun b hb => haccepts b (h.mem_iff.2 hb)]

/-- **Steps that meet pairwise are taken in any order.** -/
theorem run_perm (hmeet : xs.Pairwise (Meet step))
    (haccepts : ∀ b ∈ xs, (step b s).isSome = true) :
    ∃ s', ∀ ys, xs.Perm ys → run step ys s = some s' := by
  obtain ⟨s', hs'⟩ := Option.isSome_iff_exists.1 (isSome_run hmeet haccepts)
  exact ⟨s', fun ys hperm => (run_eq_of_perm hperm hmeet haccepts).symm.trans hs'⟩

/-- A step of a schedule that is accepted at first is taken first. -/
theorem run_of_step {front back : List α} {s' : σ} (hmeet : ∀ b ∈ front, Meet step b a)
    (ha : step a s = some s₁) (h : run step (front ++ a :: back) s = some s') :
    run step (front ++ back) s₁ = some s' := by
  induction front generalizing s s₁ with
  | nil =>
      rw [List.nil_append, run_cons_of_step ha] at h
      exact h
  | cons b front ih =>
      obtain ⟨hb, hfront⟩ := List.forall_mem_cons.1 hmeet
      obtain ⟨s₂, hs₂, hrest⟩ := Option.bind_eq_some_iff.1 h
      obtain ⟨s₃, hs₃, hs₃'⟩ := hb hs₂ ha
      rw [List.cons_append, run_cons_of_step hs₃']
      exact ih hfront hs₃ hrest

/-- **Two orders of one schedule that are both accepted come to the same state.** -/
theorem run_unique {s₂ : σ} (hperm : xs.Perm ys) (hmeet : xs.Pairwise (Meet step))
    (h : run step xs s = some s₁) (h' : run step ys s = some s₂) : s₁ = s₂ := by
  induction ys generalizing xs s with
  | nil =>
      rw [hperm.eq_nil] at h
      exact Option.some.inj (h.symm.trans h')
  | cons a ys ih =>
      obtain ⟨s₃, hs₃, hrest⟩ := Option.bind_eq_some_iff.1 h'
      obtain ⟨front, back, rfl⟩ := List.append_of_mem (hperm.mem_iff.2 List.mem_cons_self)
      have hfirst := (List.perm_middle.symm.trans hperm).cons_inv
      have hpairwise := (List.perm_middle.pairwise_iff fun h => h.symm).1 hmeet
      obtain ⟨ha, hothers⟩ := List.pairwise_cons.1 hpairwise
      exact ih hfirst hothers (run_of_step
        (fun b hb => (ha b (List.mem_append_left _ hb)).symm) hs₃ h) hrest

/-- Schedules whose steps meet are taken in either order. -/
theorem meet_run {as bs : List α} (hmeet : ∀ a ∈ as, ∀ b ∈ bs, Meet step a b) :
    Meet (run step) as bs := by
  have hone : ∀ {a : α} {bs : List α} {s s₁ s₂ : σ}, (∀ b ∈ bs, Meet step a b) →
      step a s = some s₁ → run step bs s = some s₂ →
        ∃ s', run step bs s₁ = some s' ∧ step a s₂ = some s' := by
    intro a bs
    induction bs with
    | nil =>
        intro s s₁ s₂ _ h₁ h₂
        obtain rfl := Option.some.inj h₂
        exact ⟨s₁, rfl, h₁⟩
    | cons b bs ih =>
        intro s s₁ s₂ hmeet h₁ h₂
        obtain ⟨hb, hbs⟩ := List.forall_mem_cons.1 hmeet
        obtain ⟨s₃, hs₃, hrest⟩ := Option.bind_eq_some_iff.1 h₂
        obtain ⟨s₄, hs₄, hs₄'⟩ := hb h₁ hs₃
        rw [run_cons_of_step hs₄]
        exact ih hbs hs₄' hrest
  induction as with
  | nil =>
      intro s s₁ s₂ h₁ h₂
      obtain rfl := Option.some.inj h₁
      exact ⟨s₂, h₂, rfl⟩
  | cons a as ih =>
      intro s s₁ s₂ h₁ h₂
      obtain ⟨ha, has⟩ := List.forall_mem_cons.1 hmeet
      obtain ⟨s₃, hs₃, hrest⟩ := Option.bind_eq_some_iff.1 h₁
      obtain ⟨s₄, hs₄, hs₄'⟩ := hone ha hs₃ h₂
      rw [run_cons_of_step hs₄']
      exact ih has hrest hs₄

end Schedules
end Hegira
