/-
# Programs as trees of atomic calls

A program either is done or makes a call and goes on with the reply
(`Program`).  What a call may do to a store is a relation `env` between the store
before, the call, its reply and the store after; faults, fresh values and
interference are so many replies that `env` admits.  `Runs` are the finite
prefixes of the executions of a program: the calls made so far, the program that
is left and the store it is left in, so that a run ends wherever the program may
be killed.

`Meets` is a weakest precondition over all of these at once: every event of every
run satisfies `ev`, and every complete run ends in a value and a store that
satisfy `post` (`Meets.of_runs`, `Meets.of_done`).  It is computed along the
program, so contracts compose with `bind` (`meets_bind`).
-/

import Mathlib.Tactic.Common

namespace Hegira

/-- Programs over calls `C` with replies `R`, returning an `α`. -/
inductive Program (C : Type) (R : C → Type) (α : Type) where
  | done (a : α)
  | call (c : C) (next : R c → Program C R α)

/-- One call of a run: the store before it, the call, its reply, the store after. -/
structure Event (C : Type) (R : C → Type) (σ : Type) where
  before : σ
  call : C
  reply : R call
  after : σ

namespace Program

variable {C : Type} {R : C → Type} {α β γ σ : Type}

/-- The program, then `f` of its value. -/
def bind : Program C R α → (α → Program C R β) → Program C R β
  | done a, f => f a
  | call c next, f => call c fun r => (next r).bind f

instance : Monad (Program C R) where
  pure := done
  bind := bind

@[simp] theorem pure_eq (a : α) : (pure a : Program C R α) = done a := rfl

@[simp] theorem done_bind (a : α) (f : α → Program C R β) : (done a >>= f) = f a := rfl

@[simp] theorem call_bind (c : C) (next : R c → Program C R α) (f : α → Program C R β) :
    (call c next >>= f) = call c fun r => next r >>= f := rfl

/-- `done` is a right unit. -/
theorem bind_done (p : Program C R α) : (p >>= done) = p := by
  induction p with
  | done a => rfl
  | call c next ih => exact congrArg (call c) (funext ih)

/-- A sequence of three programs reads the same either way. -/
theorem bind_assoc (p : Program C R α) (f : α → Program C R β) (g : β → Program C R γ) :
    (p >>= f >>= g) = p >>= fun a => f a >>= g := by
  induction p with
  | done a => rfl
  | call c next ih => exact congrArg (call c) (funext ih)

instance : LawfulMonad (Program C R) :=
  LawfulMonad.mk' _ bind_done (fun _ _ => rfl) bind_assoc

/-- One call, returning its reply. -/
def perform (c : C) : Program C R (R c) := call c done

/-- Every call of the program, whatever the replies, satisfies `ok`. -/
def Only (ok : C → Prop) : Program C R α → Prop
  | done _ => True
  | call c next => ok c ∧ ∀ r, (next r).Only ok

@[simp] theorem only_done (ok : C → Prop) (a : α) : (done a : Program C R α).Only ok := trivial

@[simp] theorem only_pure (ok : C → Prop) (a : α) : (pure a : Program C R α).Only ok := trivial

@[simp] theorem only_call (ok : C → Prop) (c : C) (next : R c → Program C R α) :
    (call c next).Only ok ↔ ok c ∧ ∀ r, (next r).Only ok := Iff.rfl

/-- A single call is the only call it makes. -/
@[simp] theorem only_perform (ok : C → Prop) (c : C) :
    (perform c : Program C R (R c)).Only ok ↔ ok c :=
  ⟨fun h => h.1, fun h => ⟨h, fun _ => trivial⟩⟩

/-- The calls of a sequence are those of its two parts. -/
theorem Only.bind {ok : C → Prop} {p : Program C R α} {f : α → Program C R β}
    (hp : p.Only ok) (hf : ∀ a, (f a).Only ok) : (p >>= f).Only ok := by
  induction p with
  | done a => exact hf a
  | call c next ih => exact ⟨hp.1, fun r => ih r (hp.2 r)⟩

/-- A weaker condition on the calls. -/
theorem Only.mono {ok ok' : C → Prop} {p : Program C R α} (h : ∀ c, ok c → ok' c)
    (hp : p.Only ok) : p.Only ok' := by
  induction p with
  | done a => trivial
  | call c next ih => exact ⟨h c hp.1, fun r => ih r (hp.2 r)⟩

end Program

open Program

variable {C : Type} {R : C → Type} {α β σ : Type}

/-- `p` on the store `s` may make the calls of the events in turn, and is then the
program `p'` on the store `s'`. -/
inductive Runs (env : σ → (c : C) → R c → σ → Prop) :
    Program C R α → σ → List (Event C R σ) → Program C R α → σ → Prop
  | refl (p : Program C R α) (s : σ) : Runs env p s [] p s
  | step {s s' s'' : σ} {c : C} {r : R c} {next : R c → Program C R α}
      {t : List (Event C R σ)} {p' : Program C R α} (he : env s c r s')
      (h : Runs env (next r) s' t p' s'') :
      Runs env (.call c next) s (⟨s, c, r, s'⟩ :: t) p' s''

/-- A property of the store that every call keeps is kept by a run. -/
theorem Runs.invariant {env : σ → (c : C) → R c → σ → Prop} {I : σ → Prop}
    {p p' : Program C R α} {s s' : σ} {t : List (Event C R σ)} (h : Runs env p s t p' s')
    (hcall : ∀ s c r s', env s c r s' → I s → I s') (hs : I s) : I s' := by
  induction h with
  | refl p s => exact hs
  | step he h ih => exact ih (hcall _ _ _ _ he hs)

/-- What follows an event is a run from the store it leaves. -/
theorem Runs.after {env : σ → (c : C) → R c → σ → Prop} {p p' : Program C R α} {s s' : σ}
    {t t' : List (Event C R σ)} {e : Event C R σ} (h : Runs env p s (t ++ e :: t') p' s') :
    ∃ q, Runs env q e.after t' p' s' := by
  induction t generalizing p s with
  | nil =>
      cases h with
      | step he h => exact ⟨_, h⟩
  | cons e' t ih =>
      cases h with
      | step he h => exact ih h

/-- A run of `p >>= f` is a run of `p`, or a complete run of `p` and a run of what
follows it. -/
theorem Runs.of_bind {env : σ → (c : C) → R c → σ → Prop} {p : Program C R α}
    {f : α → Program C R β} {q : Program C R β} {s s' : σ} {t : List (Event C R σ)}
    (h : Runs env (p >>= f) s t q s') :
    (∃ p', Runs env p s t p' s' ∧ q = p' >>= f) ∨
      ∃ a s₁ t₁ t₂, Runs env p s t₁ (.done a) s₁ ∧ Runs env (f a) s₁ t₂ q s' ∧ t = t₁ ++ t₂ := by
  induction p generalizing s t with
  | done a => exact Or.inr ⟨a, s, [], t, .refl _ _, h, rfl⟩
  | call c next ih =>
      cases h with
      | refl => exact Or.inl ⟨_, .refl _ _, rfl⟩
      | step he h =>
          rcases ih _ h with ⟨p', hp, rfl⟩ | ⟨a, s₁, t₁, t₂, hp, hf, rfl⟩
          · exact Or.inl ⟨p', .step he hp, rfl⟩
          · exact Or.inr ⟨a, s₁, _, t₂, .step he hp, hf, rfl⟩

/-- A complete run of `p`, then a run of what follows it. -/
theorem Runs.bind {env : σ → (c : C) → R c → σ → Prop} {p : Program C R α}
    {f : α → Program C R β} {q : Program C R β} {s s₁ s' : σ} {t t' : List (Event C R σ)} {a : α}
    (hp : Runs env p s t (.done a) s₁) (hf : Runs env (f a) s₁ t' q s') :
    Runs env (p >>= f) s (t ++ t') q s' := by
  generalize hdone : Program.done a = done at hp
  induction hp with
  | refl p s =>
      subst hdone
      exact hf
  | step he h ih => exact .step he (ih hf hdone)

/-- Every event of every run from `s` satisfies `ev`, and every complete run ends
in a value and a store that satisfy `post`. -/
def Meets (env : σ → (c : C) → R c → σ → Prop) (ev : Event C R σ → Prop) (post : α → σ → Prop) :
    Program C R α → σ → Prop
  | .done a, s => post a s
  | .call c next, s => ∀ r s', env s c r s' → ev ⟨s, c, r, s'⟩ ∧ Meets env ev post (next r) s'

section Meets

variable {env : σ → (c : C) → R c → σ → Prop} {ev ev' : Event C R σ → Prop}
  {post post' : α → σ → Prop}

@[simp] theorem meets_done {a : α} {s : σ} : Meets env ev post (.done a) s ↔ post a s := Iff.rfl

@[simp] theorem meets_pure {a : α} {s : σ} : Meets env ev post (pure a) s ↔ post a s := Iff.rfl

/-- **Contracts compose.** -/
theorem meets_bind {p : Program C R β} {f : β → Program C R α} {s : σ} :
    Meets env ev post (p >>= f) s ↔ Meets env ev (fun b s => Meets env ev post (f b) s) p s := by
  induction p generalizing s with
  | done b => exact Iff.rfl
  | call c next ih =>
      exact forall₂_congr fun r s' => imp_congr_right fun _ => and_congr_right fun _ => ih r

/-- Nothing is asked. -/
theorem Meets.trivial {p : Program C R α} {s : σ} :
    Meets env (fun _ => True) (fun _ _ => True) p s := by
  induction p generalizing s with
  | done a => exact True.intro
  | call c next ih => exact fun r s' _ => ⟨True.intro, ih r⟩

/-- Contracts weaken. -/
theorem Meets.mono {p : Program C R α} {s : σ} (h : Meets env ev post p s)
    (hev : ∀ e, ev e → ev' e) (hpost : ∀ a s, post a s → post' a s) :
    Meets env ev' post' p s := by
  induction p generalizing s with
  | done a => exact hpost a s h
  | call c next ih =>
      intro r s' he
      obtain ⟨h₁, h₂⟩ := h r s' he
      exact ⟨hev _ h₁, ih r h₂⟩

/-- Postconditions weaken. -/
theorem Meets.imp {p : Program C R α} {s : σ} (h : Meets env ev post p s)
    (hpost : ∀ a s, post a s → post' a s) : Meets env ev post' p s :=
  h.mono (fun _ => id) hpost

/-- Two contracts of one program hold together. -/
theorem Meets.and {p : Program C R α} {s : σ} (h : Meets env ev post p s)
    (h' : Meets env ev' post' p s) :
    Meets env (fun e => ev e ∧ ev' e) (fun a s => post a s ∧ post' a s) p s := by
  induction p generalizing s with
  | done a => exact ⟨h, h'⟩
  | call c next ih =>
      intro r s' he
      obtain ⟨h₁, h₂⟩ := h r s' he
      obtain ⟨h₃, h₄⟩ := h' r s' he
      exact ⟨⟨h₁, h₃⟩, ih r h₂ h₄⟩

/-- A program that only makes calls whose events satisfy `ev` meets `ev`. -/
theorem Program.Only.meets {ok : C → Prop} {p : Program C R α} (hp : p.Only ok)
    (h : ∀ s c r s', ok c → env s c r s' → ev ⟨s, c, r, s'⟩) (s : σ) :
    Meets env ev (fun _ _ => True) p s := by
  induction p generalizing s with
  | done a => trivial
  | call c next ih => exact fun r s' he => ⟨h s c r s' hp.1 he, ih r (hp.2 r) s'⟩

/-- A state property that every event of the program preserves holds in the end. -/
theorem Meets.preserves {I : σ → Prop} {p : Program C R α} {s : σ}
    (h : Meets env (fun e => I e.before → I e.after) post p s) (hs : I s) :
    Meets env (fun e => I e.before ∧ I e.after) (fun a s => post a s ∧ I s) p s := by
  induction p generalizing s with
  | done a => exact ⟨h, hs⟩
  | call c next ih =>
      intro r s' he
      obtain ⟨h₁, h₂⟩ := h r s' he
      exact ⟨⟨hs, h₁ hs⟩, ih r h₂ (h₁ hs)⟩

/-- A state property that no call of the program takes away holds throughout. -/
theorem Program.Only.meets_invariant {ok : C → Prop} {p : Program C R α} {I : σ → Prop} {s : σ}
    (hp : p.Only ok) (h : ∀ s c r s', ok c → env s c r s' → I s → I s') (hs : I s) :
    Meets env (fun e => I e.before ∧ I e.after) (fun _ s => I s) p s :=
  ((hp.meets (fun s c r s' hc he => h s c r s' hc he) s).preserves hs).imp fun _ _ h => h.2

/-- **Contracts are about runs.**  Along a run from a store where the contract
holds every event satisfies `ev`, and the contract holds of what is left. -/
theorem Meets.of_runs {p p' : Program C R α} {s s' : σ} {t : List (Event C R σ)}
    (h : Meets env ev post p s) (hr : Runs env p s t p' s') :
    (∀ e ∈ t, ev e) ∧ Meets env ev post p' s' := by
  induction hr with
  | refl p s => exact ⟨by simp, h⟩
  | step he hr ih =>
      obtain ⟨h₁, h₂⟩ := h _ _ he
      exact ⟨List.forall_mem_cons.2 ⟨h₁, (ih h₂).1⟩, (ih h₂).2⟩

/-- What holds at the start and after every event holds wherever a run stops. -/
theorem Meets.always {I : σ → Prop} {p p' : Program C R α} {s s' : σ}
    {t : List (Event C R σ)} (h : Meets env (fun e => I e.after) post p s) (hs : I s)
    (hr : Runs env p s t p' s') : I s' := by
  induction hr with
  | refl p s => exact hs
  | step he hr ih =>
      obtain ⟨h₁, h₂⟩ := h _ _ he
      exact ih h₂ h₁

/-- A complete run ends as the contract says. -/
theorem Meets.of_done {p : Program C R α} {s s' : σ} {t : List (Event C R σ)} {a : α}
    (h : Meets env ev post p s) (hr : Runs env p s t (.done a) s') : post a s' :=
  (h.of_runs hr).2

end Meets

/-! ### Contracts that see the events -/

/-- Every complete run from `s` ends with events, a value and a store that satisfy
`post`. -/
def Ends (env : σ → (c : C) → R c → σ → Prop) (post : List (Event C R σ) → α → σ → Prop)
    (p : Program C R α) (s : σ) : Prop :=
  ∀ t a s', Runs env p s t (.done a) s' → post t a s'

section Ends

variable {env : σ → (c : C) → R c → σ → Prop} {ev : Event C R σ → Prop}
  {post : List (Event C R σ) → α → σ → Prop}

/-- A program that is done makes no event. -/
theorem ends_done {a : α} {s : σ} (h : post [] a s) : Ends env post (.done a) s := by
  intro t b s' hr
  cases hr
  exact h

/-- The first call of a program is the first event of its complete runs. -/
theorem ends_call {c : C} {next : R c → Program C R α} {s : σ} :
    Ends env post (.call c next) s ↔ ∀ r s', env s c r s' →
      Ends env (fun t a s'' => post (⟨s, c, r, s'⟩ :: t) a s'') (next r) s' := by
  constructor
  · exact fun h r s' he t a s'' hr => h _ a s'' (.step he hr)
  · intro h t a s'' hr
    cases hr with
    | step he hr => exact h _ _ he _ a s'' hr

/-- Postconditions that see the events weaken. -/
theorem Ends.imp {post' : List (Event C R σ) → α → σ → Prop} {p : Program C R α} {s : σ}
    (h : Ends env post p s) (hp : ∀ t a s', post t a s' → post' t a s') : Ends env post' p s :=
  fun t a s' hr => hp t a s' (h t a s' hr)

/-- A contract also says what the events of a complete run are. -/
theorem Meets.ends {p : Program C R α} {s : σ} {Q : α → σ → Prop} (h : Meets env ev Q p s)
    (hp : ∀ t a s', (∀ e ∈ t, ev e) → Q a s' → post t a s') : Ends env post p s :=
  fun t a s' hr => hp t a s' (h.of_runs hr).1 (h.of_runs hr).2

/-- **Contracts that see the events compose.** -/
theorem Ends.bind {p : Program C R β} {f : β → Program C R α} {s : σ}
    {Q : List (Event C R σ) → β → σ → Prop} (h : Ends env Q p s)
    (hf : ∀ t b s', Q t b s' → Ends env (fun t' => post (t ++ t')) (f b) s') :
    Ends env post (p >>= f) s := by
  intro t a s' hr
  rcases hr.of_bind with ⟨p', hp, hq⟩ | ⟨b, s₁, t₁, t₂, hp, hq, rfl⟩
  · cases p' with
    | done b =>
        have hb : Program.done a = f b := hq
        simpa using hf t b s' (h t b s' hp) [] a s' (hb ▸ .refl _ _)
    | call c next => cases hq
  · exact hf t₁ b s₁ (h t₁ b s₁ hp) t₂ a s' hq

/-- A part whose events do not matter to the end, then the rest. -/
theorem Meets.ends_bind {p : Program C R β} {f : β → Program C R α} {s : σ}
    {Q : β → σ → Prop} (h : Meets env ev Q p s)
    (hpre : ∀ t t' a s', (∀ e ∈ t, ev e) → post t' a s' → post (t ++ t') a s')
    (hf : ∀ b s', Q b s' → Ends env post (f b) s') : Ends env post (p >>= f) s := by
  have hp : Ends env (fun t b s' => (∀ e ∈ t, ev e) ∧ Q b s') p s :=
    h.ends fun _ _ _ ht hb => ⟨ht, hb⟩
  exact hp.bind fun t b s' hb => (hf b s' hb.2).imp fun t' a s'' => hpre t t' a s'' hb.1

end Ends

/-! ### Deterministic runs -/

section Execute

variable {κ : Type} {env : σ → (c : C) → R c → σ → Prop}

/-- The complete run of a program whose calls are answered by a machine; `view` is
the store of a machine state. -/
def Program.execute (view : κ → σ) (answer : κ → (c : C) → R c × κ) :
    Program C R α → κ → List (Event C R σ) × α × κ
  | .done a, k => ([], a, k)
  | .call c next, k =>
      let run := (next (answer k c).1).execute view answer (answer k c).2
      (⟨view k, c, (answer k c).1, view (answer k c).2⟩ :: run.1, run.2)

/-- What a machine does is a run, when the store admits its answers. -/
theorem Program.runs_execute {view : κ → σ} {answer : κ → (c : C) → R c × κ}
    (h : ∀ k c, env (view k) c (answer k c).1 (view (answer k c).2)) (p : Program C R α) (k : κ) :
    Runs env p (view k) (p.execute view answer k).1 (.done (p.execute view answer k).2.1)
      (view (p.execute view answer k).2.2) := by
  induction p generalizing k with
  | done a => exact .refl _ _
  | call c next ih => exact .step (h k c) (ih _ _)

end Execute

/-! ### Programs that may fail -/

section Fallible

variable {ε : Type} {env : σ → (c : C) → R c → σ → Prop} {ev : Event C R σ → Prop}
  {post : Except ε α → σ → Prop}

/-- A program that returns a value or an error. -/
abbrev Fallible (ε : Type) (C : Type) (R : C → Type) := ExceptT ε (Program C R)

/-- Run a step and go on with its outcome, an error included. -/
def attempt {ε' : Type} (p : Fallible ε C R α) : Fallible ε' C R (Except ε α) :=
  ExceptT.lift p.run

/-- What is left to show after a fallible step: the rest of the program on a
value, the postcondition on an error. -/
def Continue (env : σ → (c : C) → R c → σ → Prop) (ev : Event C R σ → Prop)
    (post : Except ε α → σ → Prop) (f : β → Program C R (Except ε α)) : Except ε β → σ → Prop
  | .ok b, s => Meets env ev post (f b) s
  | .error e, s => post (.error e) s

@[simp] theorem continue_ok {f : β → Program C R (Except ε α)} {b : β} {s : σ} :
    Continue env ev post f (.ok b) s ↔ Meets env ev post (f b) s := Iff.rfl

@[simp] theorem continue_error {f : β → Program C R (Except ε α)} {e : ε} {s : σ} :
    Continue env ev post f (.error e) s ↔ post (.error e) s := Iff.rfl

/-- A sequence stops at the first error. -/
theorem fallible_bind_eq (p : Fallible ε C R β) (f : β → Fallible ε C R α) :
    (p >>= f : Fallible ε C R α).run = p.run >>= fun
      | .ok b => (f b).run
      | .error e => .done (.error e) := by
  refine congrArg (p.run >>= ·) (funext ?_)
  rintro (e | b) <;> rfl

/-- A fallible step, then the rest of the program. -/
theorem meets_fallible_bind {p : Fallible ε C R β} {f : β → Fallible ε C R α} {s : σ} :
    Meets env ev post (p >>= f : Fallible ε C R α).run s ↔
      Meets env ev (Continue env ev post fun b => (f b).run) p.run s := by
  rw [fallible_bind_eq, meets_bind]
  refine ⟨fun h => h.imp ?_, fun h => h.imp ?_⟩ <;> rintro (e | b) s hs <;> exact hs

/-- A function of the value leaves the calls. -/
theorem meets_fallible_map {p : Fallible ε C R β} {f : β → α} {s : σ} :
    Meets env ev post (f <$> p : Fallible ε C R α).run s ↔
      Meets env ev (fun r s => post (r.map f) s) p.run s := by
  have hmap : (f <$> p : Fallible ε C R α).run = p.run >>= fun r => .done (r.map f) := by
    refine congrArg (p.run >>= ·) (funext ?_)
    rintro (e | b) <;> rfl
  rw [hmap, meets_bind]
  exact Iff.rfl

@[simp] theorem meets_fallible_pure {a : α} {s : σ} :
    Meets env ev post (pure a : Fallible ε C R α).run s ↔ post (.ok a) s := Iff.rfl

@[simp] theorem meets_fallible_throw {e : ε} {s : σ} :
    Meets env ev post (throw e : Fallible ε C R α).run s ↔ post (.error e) s := Iff.rfl

@[simp] theorem meets_fallible_mk {p : Program C R (Except ε α)} {s : σ} :
    Meets env ev post (ExceptT.run (ExceptT.mk p)) s ↔ Meets env ev post p s := Iff.rfl

/-- A program that cannot fail, as one that may. -/
theorem meets_lift {p : Program C R α} {s : σ} :
    Meets env ev post (ExceptT.lift p : Fallible ε C R α).run s ↔
      Meets env ev (fun a s => post (.ok a) s) p s := by
  induction p generalizing s with
  | done a => exact Iff.rfl
  | call c next ih =>
      exact forall₂_congr fun r s' => imp_congr_right fun _ => and_congr_right fun _ => ih r

/-- An attempted program returns whatever it ended in. -/
theorem meets_attempt {ε' : Type} {post : Except ε (Except ε' α) → σ → Prop}
    {p : Fallible ε' C R α} {s : σ} :
    Meets env ev post (attempt p : Fallible ε C R _).run s ↔
      Meets env ev (fun r s => post (.ok r) s) p.run s :=
  meets_lift

/-- Renaming the error leaves the calls. -/
theorem meets_adapt {ε' : Type} {p : Fallible ε' C R α} {f : ε' → ε} {s : σ} :
    Meets env ev post (ExceptT.adapt f p : Fallible ε C R α).run s ↔
      Meets env ev (fun r s => post (r.mapError f) s) p.run s := by
  change Meets env ev post (p.run >>= fun r => .done (r.mapError f)) s ↔ _
  rw [meets_bind]
  exact Iff.rfl

@[simp] theorem meets_liftExcept {r : Except ε α} {s : σ} :
    Meets env ev post (liftExcept r : Fallible ε C R α).run s ↔ post r s := by
  cases r <;> exact Iff.rfl

/-- Lifting a program adds no call. -/
theorem Program.Only.lift {ok : C → Prop} {p : Program C R α} (hp : p.Only ok) :
    (ExceptT.lift p : Fallible ε C R α).run.Only ok :=
  hp.bind fun _ => trivial

theorem Program.Only.attempt {ε' : Type} {ok : C → Prop} {p : Fallible ε' C R α}
    (hp : p.run.Only ok) : (attempt p : Fallible ε C R _).run.Only ok :=
  hp.lift

theorem Program.Only.adapt {ε' : Type} {ok : C → Prop} {p : Fallible ε' C R α} {f : ε' → ε}
    (hp : p.run.Only ok) : (ExceptT.adapt f p : Fallible ε C R α).run.Only ok := by
  change (p.run >>= fun r => .done (r.mapError f)).Only ok
  exact hp.bind fun _ => trivial

@[simp] theorem Program.only_liftExcept {ok : C → Prop} {r : Except ε α} :
    (liftExcept r : Fallible ε C R α).run.Only ok := by
  cases r <;> trivial

/-- A fallible sequence makes the calls of its two parts. -/
theorem Program.Only.fallible_bind {ok : C → Prop} {p : Fallible ε C R β}
    {f : β → Fallible ε C R α} (hp : p.run.Only ok) (hf : ∀ b, (f b).run.Only ok) :
    (p >>= f : Fallible ε C R α).run.Only ok := by
  rw [fallible_bind_eq]
  refine hp.bind ?_
  rintro (e | b)
  · exact trivial
  · exact hf b

namespace Fallible

/-- The contract of a program of whose errors nothing is asked. -/
def Spec (p : Fallible ε C R α) (env : σ → (c : C) → R c → σ → Prop) (ev : Event C R σ → Prop)
    (post : α → σ → Prop) (s : σ) : Prop :=
  Meets env ev (fun r s => ∀ a, r = .ok a → post a s) p.run s

variable {post : α → σ → Prop} {s : σ}

@[simp] theorem spec_pure {a : α} : (pure a : Fallible ε C R α).Spec env ev post s ↔ post a s :=
  ⟨fun h => h a rfl, fun h _ ha => Except.ok.inj ha ▸ h⟩

@[simp] theorem spec_throw {e : ε} : (throw e : Fallible ε C R α).Spec env ev post s :=
  fun _ ha => nomatch ha

/-- Successes compose. -/
@[simp] theorem spec_bind {p : Fallible ε C R β} {f : β → Fallible ε C R α} :
    (p >>= f).Spec env ev post s ↔ p.Spec env ev (fun b s => (f b).Spec env ev post s) s := by
  rw [Spec, meets_fallible_bind]
  refine ⟨fun h => h.imp ?_, fun h => h.imp ?_⟩
  · rintro (e | b) s hs a ha
    · cases ha
    · exact Except.ok.inj ha ▸ hs
  · rintro (e | b) s hs
    · exact fun _ ha => nomatch ha
    · exact hs b rfl

@[simp] theorem spec_map {p : Fallible ε C R β} {f : β → α} :
    (f <$> p).Spec env ev post s ↔ p.Spec env ev (fun b s => post (f b) s) s := by
  rw [← bind_pure_comp, spec_bind]
  simp only [spec_pure]

/-- A result that is already there succeeds with itself. -/
@[simp] theorem spec_liftExcept {r : Except ε α} :
    (liftExcept r : Fallible ε C R α).Spec env ev post s ↔ ∀ a, r = .ok a → post a s := by
  rw [Spec, meets_liftExcept]

/-- A branch succeeds as the side that is taken does. -/
@[simp] theorem spec_ite {b : Prop} [Decidable b] {p q : Fallible ε C R α} :
    (if b then p else q).Spec env ev post s ↔
      (b → p.Spec env ev post s) ∧ (¬b → q.Spec env ev post s) := by
  by_cases hb : b <;> simp [hb]

/-- A weaker condition on the successes. -/
theorem Spec.imp {p : Fallible ε C R α} {post' : α → σ → Prop} (h : p.Spec env ev post s)
    (hp : ∀ a s, post a s → post' a s) : p.Spec env ev post' s :=
  Meets.imp h fun _ s hs a ha => hp a s (hs a ha)

/-- The program only makes such calls: `Only`, of a program built from parts. -/
structure Makes (p : Fallible ε C R α) (ok : C → Prop) : Prop where
  only : p.run.Only ok

namespace Makes

variable {p : Fallible ε C R α} {f : α → Fallible ε C R β} {ok ok' : C → Prop}

theorem pure {a : α} : (Pure.pure a : Fallible ε C R α).Makes ok := ⟨trivial⟩

theorem throw {e : ε} : (throw e : Fallible ε C R α).Makes ok := ⟨trivial⟩

/-- A sequence makes the calls of its two parts. -/
theorem bind (hp : p.Makes ok) (hf : ∀ a, (f a).Makes ok) : (p >>= f).Makes ok :=
  ⟨Program.Only.fallible_bind hp.only fun a => (hf a).only⟩

theorem map {g : α → β} (hp : p.Makes ok) : (g <$> p).Makes ok := by
  rw [← bind_pure_comp]
  exact hp.bind fun _ => .pure

/-- A weaker condition on the calls. -/
theorem mono (hp : p.Makes ok) (h : ∀ c, ok c → ok' c) : p.Makes ok' :=
  ⟨Program.Only.mono h hp.only⟩

theorem ite {b : Prop} [Decidable b] {q : Fallible ε C R α} (hp : p.Makes ok)
    (hq : q.Makes ok) : (if b then p else q).Makes ok := by
  split <;> assumption

theorem liftExcept {r : Except ε α} : (liftExcept r : Fallible ε C R α).Makes ok :=
  ⟨Program.only_liftExcept⟩

theorem attempt {ε' : Type} (hp : p.Makes ok) : (attempt p : Fallible ε' C R _).Makes ok :=
  ⟨Program.Only.attempt hp.only⟩

end Makes

end Fallible

/-- A fallible part, then the rest, with all the events. -/
theorem Ends.fallible_bind {post : List (Event C R σ) → Except ε α → σ → Prop}
    {p : Fallible ε C R β} {f : β → Fallible ε C R α} {s : σ}
    {Q : List (Event C R σ) → Except ε β → σ → Prop} (h : Ends env Q p.run s)
    (herr : ∀ t e s', Q t (.error e) s' → post t (.error e) s')
    (hf : ∀ t b s', Q t (.ok b) s' → Ends env (fun t' => post (t ++ t')) (f b).run s') :
    Ends env post (p >>= f : Fallible ε C R α).run s := by
  rw [fallible_bind_eq]
  refine h.bind ?_
  rintro t (e | b) s' hs
  · exact ends_done (by simpa using herr t e s' hs)
  · exact hf t b s' hs

/-- Renaming the error leaves the events. -/
theorem Ends.adapt {ε' : Type} {post : List (Event C R σ) → Except ε α → σ → Prop}
    {p : Fallible ε' C R α} {f : ε' → ε} {s : σ}
    (h : Ends env (fun t r => post t (r.mapError f)) p.run s) :
    Ends env post (ExceptT.adapt f p : Fallible ε C R α).run s :=
  Ends.bind h fun _ _ _ hr => ends_done (by simpa using hr)

theorem Ends.attempt {ε' : Type} {post : List (Event C R σ) → Except ε' (Except ε α) → σ → Prop}
    {p : Fallible ε C R α} {s : σ} (h : Ends env (fun t r => post t (.ok r)) p.run s) :
    Ends env post (attempt p : Fallible ε' C R _).run s :=
  Ends.bind h fun _ _ _ hr => ends_done (by simpa using hr)

/-- A fallible part whose events do not matter to the end, then the rest. -/
theorem Meets.ends_fallible_bind {post : List (Event C R σ) → Except ε α → σ → Prop}
    {p : Fallible ε C R β} {f : β → Fallible ε C R α} {s : σ} {Q : Except ε β → σ → Prop}
    (h : Meets env ev Q p.run s)
    (hpre : ∀ t t' a s', (∀ e ∈ t, ev e) → post t' a s' → post (t ++ t') a s')
    (herr : ∀ e s', Q (.error e) s' → post [] (.error e) s')
    (hf : ∀ b s', Q (.ok b) s' → Ends env post (f b).run s') :
    Ends env post (p >>= f : Fallible ε C R α).run s := by
  rw [fallible_bind_eq]
  refine h.ends_bind hpre ?_
  rintro (e | b) s' hs
  · exact ends_done (herr e s' hs)
  · exact hf b s' hs

/-! ### Programs that emit a list -/

namespace Fallible

/-- What `out` sees of a run of the program are the elements of `bs` in turn, and all of
them once it has returned a value. -/
structure Emits (p : Fallible ε C R α) (env : σ → (c : C) → R c → σ → Prop)
    (out : (c : C) → R c → Option β) (bs : List β) : Prop where
  along : ∀ {s t p' s'}, Runs env p.run s t p' s' →
    (t.filterMap fun e => out e.call e.reply) <+: bs
  complete : ∀ {s t a s'}, Runs env p.run s t (.done (.ok a)) s' →
    (t.filterMap fun e => out e.call e.reply) = bs

namespace Emits

variable {out : (c : C) → R c → Option γ} {p : Fallible ε C R β} {f : β → Fallible ε C R α}
  {bs bs' : List γ}

/-- A value on its own emits nothing. -/
theorem pure {b : β} : (Pure.pure b : Fallible ε C R β).Emits env out ([] : List γ) where
  along h := by
    cases h
    exact List.nil_prefix
  complete h := by
    cases h
    rfl

theorem throw {e : ε} : (throw e : Fallible ε C R β).Emits env out bs where
  along h := by
    cases h
    exact List.nil_prefix
  complete h := by cases h

theorem liftExcept {r : Except ε β} : (liftExcept r : Fallible ε C R β).Emits env out [] := by
  cases r with
  | error e => exact throw
  | ok b => exact pure

/-- A sequence emits what its parts emit, in turn. -/
theorem bind (hp : p.Emits env out bs) (hf : ∀ b, (f b).Emits env out bs') :
    (p >>= f).Emits env out (bs ++ bs') where
  along h := by
    rw [fallible_bind_eq] at h
    rcases h.of_bind with ⟨q, hq, -⟩ | ⟨r, s₁, t₁, t₂, hr, hrest, rfl⟩
    · exact (hp.along hq).trans (List.prefix_append ..)
    · rw [List.filterMap_append]
      cases r with
      | error e =>
          cases hrest
          simpa using (hp.along hr).trans (List.prefix_append ..)
      | ok b =>
          rw [hp.complete hr]
          exact (List.prefix_append_right_inj bs).2 ((hf b).along hrest)
  complete := by
    intro s t a s' h
    rw [fallible_bind_eq] at h
    rcases h.of_bind with ⟨q, hq, hdone⟩ | ⟨r, s₁, t₁, t₂, hr, hrest, rfl⟩
    · cases q with
      | call c next => cases hdone
      | done r =>
          cases r with
          | error e => cases hdone
          | ok b =>
              have hb : .done (.ok a) = (f b).run := hdone
              have hrun : Runs env (f b).run s' [] (.done (.ok a)) s' := hb ▸ .refl _ _
              rw [hp.complete hq, ← (hf b).complete hrun, List.filterMap_nil, List.append_nil]
    · rw [List.filterMap_append]
      cases r with
      | error e => cases hrest
      | ok b => rw [hp.complete hr, (hf b).complete hrest]

/-- A step that nothing is seen of. -/
theorem silent_bind (hp : p.Emits env out []) (hf : ∀ b, (f b).Emits env out bs) :
    (p >>= f).Emits env out bs := hp.bind hf

/-- Each turn of a loop emits its part. -/
theorem forM {κ : Type} {xs : List κ} {f : κ → Fallible ε C R PUnit} {g : κ → List γ}
    (hf : ∀ x ∈ xs, (f x).Emits env out (g x)) : (xs.forM f).Emits env out (xs.flatMap g) := by
  induction xs with
  | nil => exact pure
  | cons x xs ih =>
      rw [List.flatMap_cons]
      obtain ⟨hx, hxs⟩ := List.forall_mem_cons.1 hf
      exact hx.bind fun _ => ih hxs

/-- A loop that nothing is seen of. -/
theorem silent_forM {κ : Type} {xs : List κ} {f : κ → Fallible ε C R PUnit}
    (hf : ∀ x ∈ xs, (f x).Emits env out []) : (xs.forM f).Emits env out [] := by
  have h := forM hf
  rwa [List.flatMap_eq_nil_iff.2 fun _ _ => rfl] at h

end Emits

end Fallible

end Fallible

end Hegira
