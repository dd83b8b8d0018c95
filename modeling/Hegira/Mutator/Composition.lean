/-
# Composing change plans

`ChangePlan::compose` collapses ordered plans into one.  At every path it folds
the changes there into at most one net change (`chainStep`), so both directions
are about one chain of changes at one path.

*Complete* (`compose_complete`): plans that run one after another from a state
compose, and the composed plan does in that state what they do.  The simulation
is that the net change so far, applied to the initial bytes, gives the bytes
reached so far (`exists_chain_of_run`).

*Sound*: a creation followed by a retirement cancels to nothing, and with it
goes the only record that the path had to be absent.  `compose_sound_iff` says
exactly when that loses nothing.
-/

import Hegira.Library.Validation
import Hegira.Mutator.PlanSemantics

namespace Hegira
namespace Mutator

open Keyed

variable {D : Type} [ContentDigest D] [DecidableEq D]

namespace PlannedFileChange

/-- What `compose` makes of a further change at a path where it holds `previous`. -/
def chainStep : Option (PlannedFileChange D) → PlannedFileChange D →
    Option (Option (PlannedFileChange D))
  | none, change => some (some change)
  | some previous, change =>
      if change.precondition ≠ previous.resultPrecondition then none else previous.chained change

/-- What a net change, or none, does to the bytes at its path. -/
def netRun (net : Option (PlannedFileChange D)) (v : Option Bytes) : Option (Option Bytes) :=
  net.toList.foldlM run v

@[simp] theorem netRun_none (v : Option Bytes) :
    netRun (none : Option (PlannedFileChange D)) v = some v := rfl

@[simp] theorem netRun_some (c : PlannedFileChange D) (v : Option Bytes) :
    netRun (some c) v = run v c := by
  simp [netRun]

/-- A net change whose precondition holds leaves its result. -/
theorem netRun_of_holds {c : PlannedFileChange D} {v : Option Bytes} (h : c.precondition.Holds v) :
    netRun (some c) v = some c.resultingContent := by
  rw [netRun_some, run_eq_some]
  exact ⟨h, rfl⟩

omit [DecidableEq D] in
theorem path_of_chained {previous change c : PlannedFileChange D} {k : ChangePath}
    (hp : previous.path = k) (hc : change.path = k)
    (h : previous.chained change = some (some c)) : c.path = k := by
  cases previous <;> cases change <;>
    simp only [chained, Option.some.injEq, reduceCtorEq] at h <;> subst h <;> assumption

/-- `chainStep` keeps the path. -/
theorem path_of_chainStep {net net' : Option (PlannedFileChange D)} {change : PlannedFileChange D}
    {k : ChangePath} (hn : ∀ c ∈ net, c.path = k) (hc : change.path = k)
    (h : chainStep net change = some net') : ∀ c ∈ net', c.path = k := by
  rcases net with _ | previous
  · rw [chainStep, Option.some.injEq] at h
    subst h
    rintro c ⟨⟩
    exact hc
  · rw [chainStep] at h
    split_ifs at h
    rintro c ⟨⟩
    exact path_of_chained (hn previous rfl) hc h

/-- **One step of the simulation.**  Where the net change so far takes `v₀` to
`v` and the next change runs on `v`, the two chain, and the new net change takes
`v₀` to the result. -/
theorem exists_chainStep {net : Option (PlannedFileChange D)} {change : PlannedFileChange D}
    {v₀ v w : Option Bytes} (hn : netRun net v₀ = some v) (hr : run v change = some w) :
    ∃ net', chainStep net change = some net' ∧ netRun net' v₀ = some w := by
  rcases net with _ | previous
  · obtain rfl : v₀ = v := by simpa using hn
    exact ⟨some change, rfl, by simpa [netRun] using hr⟩
  · have hrun : run v₀ previous = some v := by simpa using hn
    obtain ⟨hp, rfl⟩ := run_eq_some.1 hrun
    obtain ⟨hc, rfl⟩ := run_eq_some.1 hr
    have he : change.precondition = previous.resultPrecondition :=
      hc.unique previous.holds_resultPrecondition
    rw [chainStep, if_neg (not_not.2 he)]
    -- Only the pairs `chained` accepts can run one after the other.
    cases previous with
    | create first =>
        cases change with
        | create second => simp [precondition, resultPrecondition, resultDigest] at he
        | edit second => exact ⟨_, rfl, netRun_of_holds hp⟩
        | retire second =>
            exact ⟨none, rfl, by simpa [precondition, resultingContent] using hp⟩
    | edit first =>
        cases change with
        | create second => simp [precondition, resultPrecondition, resultDigest] at he
        | edit second => exact ⟨_, rfl, netRun_of_holds hp⟩
        | retire second => exact ⟨_, rfl, netRun_of_holds hp⟩
    | retire first =>
        cases change with
        | create second => exact ⟨_, rfl, netRun_of_holds hp⟩
        | edit second => simp [precondition, resultPrecondition, resultDigest] at he
        | retire second => simp [precondition, resultPrecondition, resultDigest] at he

/-- **A chain that runs composes to its effect.** -/
theorem exists_chain_of_run {changes : List (PlannedFileChange D)}
    {net : Option (PlannedFileChange D)} {v₀ v w : Option Bytes} (hn : netRun net v₀ = some v)
    (hr : changes.foldlM run v = some w) :
    ∃ net', changes.foldlM chainStep net = some net' ∧ netRun net' v₀ = some w := by
  induction changes generalizing net v with
  | nil =>
      obtain rfl : v = w := by simpa using hr
      exact ⟨net, rfl, hn⟩
  | cons change rest ih =>
      rw [List.foldlM_cons] at hr
      obtain ⟨v₁, h₁, hr⟩ := Option.bind_eq_some_iff.1 hr
      obtain ⟨net₁, hs, hn₁⟩ := exists_chainStep hn h₁
      obtain ⟨net', hc, hw⟩ := ih hn₁ hr
      exact ⟨net', by rw [List.foldlM_cons, hs]; exact hc, hw⟩

/-- A change that follows another under the digest check of `compose` runs on
what that one leaves. -/
theorem run_of_precondition_eq {previous change : PlannedFileChange D}
    (h : change.precondition = previous.resultPrecondition) :
    run previous.resultingContent change = some change.resultingContent :=
  run_eq_some.2 ⟨h ▸ previous.holds_resultPrecondition, rfl⟩

/-- **A net edit or retirement never cancels.**  It keeps its precondition and
takes over the result of the change chained to it, which runs on what it leaves. -/
theorem chainStep_of_ne_create {previous change : PlannedFileChange D}
    {net : Option (PlannedFileChange D)} (hp : previous.operation ≠ .create)
    (h : chainStep (some previous) change = some net) :
    run previous.resultingContent change = some change.resultingContent ∧
      ∃ last, net = some last ∧ last.operation ≠ .create ∧
        last.precondition = previous.precondition ∧
        last.resultingContent = change.resultingContent := by
  rw [chainStep] at h
  split_ifs at h with he
  refine ⟨run_of_precondition_eq (not_not.1 he), ?_⟩
  cases previous <;> cases change <;>
    simp only [chained, Option.some.injEq, reduceCtorEq] at h <;> subst h <;>
    first
      | exact absurd rfl hp
      | exact ⟨_, rfl, by simp [operation], rfl, rfl⟩

/-- **A net creation absorbs an edit and cancels with a retirement.** -/
theorem chainStep_of_create {previous change : PlannedFileChange D}
    {net : Option (PlannedFileChange D)} (hp : previous.operation = .create)
    (h : chainStep (some previous) change = some net) :
    run previous.resultingContent change = some change.resultingContent ∧
      ((change.operation = .retire ∧ net = none) ∨
        (change.operation = .edit ∧ ∃ last, net = some last ∧ last.operation = .create ∧
          last.resultingContent = change.resultingContent)) := by
  rw [chainStep] at h
  split_ifs at h with he
  refine ⟨run_of_precondition_eq (not_not.1 he), ?_⟩
  cases previous <;> cases change <;>
    simp only [chained, Option.some.injEq, reduceCtorEq] at h <;> subst h <;>
    first
      | exact Or.inl ⟨rfl, rfl⟩
      | exact Or.inr ⟨rfl, _, rfl, rfl, rfl⟩
      | cases hp

/-- A chain that starts from a net edit or retirement runs, and ends in one with
the same precondition. -/
theorem run_of_chain_of_ne_create {changes : List (PlannedFileChange D)}
    {previous : PlannedFileChange D} {net : Option (PlannedFileChange D)}
    (hp : previous.operation ≠ .create)
    (h : changes.foldlM chainStep (some previous) = some net) :
    ∃ last, net = some last ∧ last.operation ≠ .create ∧
      last.precondition = previous.precondition ∧
      changes.foldlM run previous.resultingContent = some last.resultingContent := by
  induction changes generalizing previous with
  | nil =>
      obtain rfl : some previous = net := by simpa using h
      exact ⟨previous, rfl, hp, rfl, rfl⟩
  | cons change rest ih =>
      rw [List.foldlM_cons] at h
      obtain ⟨net₁, h₁, h⟩ := Option.bind_eq_some_iff.1 h
      obtain ⟨hr, mid, rfl, hm, hmp, hmc⟩ := chainStep_of_ne_create hp h₁
      obtain ⟨last, rfl, hl, hlp, hlc⟩ := ih hm h
      refine ⟨last, rfl, hl, hlp.trans hmp, ?_⟩
      rw [List.foldlM_cons, hr, ← hlc, hmc]
      rfl

/-- Every retirement of the chain is directly followed by a creation. -/
def Recreated : List (PlannedFileChange D) → Prop
  | [] => True
  | change :: rest =>
      (change.operation = .retire → ∃ next ∈ rest.head?, next.operation = .create) ∧
        Recreated rest

/-- A chain whose first change creates the path recreates it after every
retirement.  Then no cancelled creation is the last word on the path, or hides
the start of the chain from an edit or a retirement. -/
def KeepsFirstPrecondition (changes : List (PlannedFileChange D)) : Prop :=
  (∃ first ∈ changes.head?, first.operation = .create) → Recreated changes

/-- **Recreated chains run from an absent file.**  The net change is always a
creation, or nothing with a creation to come. -/
theorem run_of_chain_of_recreated {changes : List (PlannedFileChange D)}
    {net net' : Option (PlannedFileChange D)} (hn : ∀ c ∈ net, c.operation = .create)
    (hh : net = none → ∃ next ∈ changes.head?, next.operation = .create)
    (hr : Recreated changes) (h : changes.foldlM chainStep net = some net') :
    ∃ last, net' = some last ∧ last.operation = .create ∧
      changes.foldlM run (net.bind resultingContent) = some last.resultingContent := by
  induction changes generalizing net with
  | nil =>
      obtain rfl : net = net' := by simpa using h
      rcases net with _ | c
      · obtain ⟨_, h, -⟩ := hh rfl
        simp at h
      · exact ⟨c, rfl, hn c rfl, rfl⟩
  | cons change rest ih =>
      rw [List.foldlM_cons] at h
      obtain ⟨net₁, h₁, h⟩ := Option.bind_eq_some_iff.1 h
      rw [List.foldlM_cons]
      rcases net with _ | previous
      · -- After a cancellation: the next change creates the path again.
        obtain ⟨next, hm, ho⟩ := hh rfl
        obtain rfl : change = next := by simpa using hm
        rw [chainStep, Option.some.injEq] at h₁
        subst h₁
        have hrun : run none change = some change.resultingContent :=
          run_eq_some.2 ⟨by simp [precondition_of_create ho], rfl⟩
        rw [Option.bind_none, hrun]
        exact ih (by simpa using ho) (by simp) hr.2 h
      · obtain ⟨hrun, hc⟩ := chainStep_of_create (hn previous rfl) h₁
        rw [Option.bind_some, hrun]
        rcases hc with ⟨ho, rfl⟩ | ⟨ho, mid, rfl, hm, hmc⟩
        · have hnone : change.resultingContent = none := by
            cases change <;> simp_all [operation, resultingContent]
          rw [hnone]
          exact ih (by simp) (fun _ => hr.1 ho) hr.2 h
        · rw [← hmc]
          exact ih (by simpa using hm) (by simp) hr.2 h

/-- **A chain that ends in a net creation recreates.**  Were a retirement last,
the net change would be nothing; were it followed by an edit or a retirement,
that would stay the net change. -/
theorem recreated_of_chain_create {changes : List (PlannedFileChange D)}
    {net : Option (PlannedFileChange D)} {last : PlannedFileChange D}
    (hn : ∀ c ∈ net, c.operation = .create) (hl : last.operation = .create)
    (h : changes.foldlM chainStep net = some (some last)) :
    Recreated changes ∧ (net = none → ∃ next ∈ changes.head?, next.operation = .create) := by
  induction changes generalizing net with
  | nil =>
      refine ⟨trivial, ?_⟩
      rintro rfl
      simp at h
  | cons change rest ih =>
      rw [List.foldlM_cons] at h
      obtain ⟨net₁, h₁, h⟩ := Option.bind_eq_some_iff.1 h
      rcases net with _ | previous
      · rw [chainStep, Option.some.injEq] at h₁
        subst h₁
        have ho : change.operation = .create := by
          by_contra ho
          obtain ⟨_, he, hne, -⟩ := run_of_chain_of_ne_create ho h
          cases he
          exact hne hl
        have := ih (by simpa using ho) h
        exact ⟨⟨fun h => by simp [ho] at h, this.1⟩, fun _ => ⟨change, rfl, ho⟩⟩
      · obtain ⟨-, hc⟩ := chainStep_of_create (hn previous rfl) h₁
        rcases hc with ⟨-, rfl⟩ | ⟨ho, mid, rfl, hm, -⟩
        · have := ih (by simp) h
          exact ⟨⟨fun _ => this.2 rfl, this.1⟩, by simp⟩
        · have := ih (by simpa using hm) h
          exact ⟨⟨fun h => by simp [ho] at h, this.1⟩, by simp⟩

/-- A net change, or none, meets some bytes. -/
theorem exists_netRun (net : Option (PlannedFileChange D)) : ∃ v w, netRun net v = some w := by
  rcases net with _ | c
  · exact ⟨none, none, rfl⟩
  · obtain ⟨v, hv⟩ := c.exists_holds
    exact ⟨v, _, netRun_of_holds hv⟩

/-- **What one chain makes of its precondition.**  The chain runs wherever its
net change does, with the same result, exactly when it keeps its first
precondition. -/
theorem chain_sound_iff {changes : List (PlannedFileChange D)}
    {net : Option (PlannedFileChange D)} (h : changes.foldlM chainStep none = some net) :
    (∀ v w, netRun net v = some w → changes.foldlM run v = some w) ↔
      KeepsFirstPrecondition changes := by
  rcases changes with _ | ⟨first, rest⟩
  · obtain rfl : none = net := by simpa using h
    simp [KeepsFirstPrecondition, Recreated]
  have hrest : rest.foldlM chainStep (some first) = some net := by
    rw [List.foldlM_cons] at h
    exact h
  by_cases ho : first.operation = .create
  · constructor
    · intro hs _
      by_contra hr
      -- Some existing file meets the net change, and the first creation fails on it.
      have hb : ∃ b w, netRun net (some b) = some w := by
        rcases net with _ | last
        · exact ⟨[], some [], rfl⟩
        · by_cases hl : last.operation = .create
          · exact absurd (recreated_of_chain_create (by simp) hl h).1 hr
          · obtain ⟨b, hb⟩ := exists_holds_some hl
            exact ⟨b, _, netRun_of_holds hb⟩
      obtain ⟨b, w, hw⟩ := hb
      have hw := hs _ _ hw
      rw [List.foldlM_cons] at hw
      obtain ⟨_, h₁, -⟩ := Option.bind_eq_some_iff.1 hw
      rw [run_eq_some, precondition_of_create ho] at h₁
      simp at h₁
    · intro hk v w hw
      have hr := hk ⟨first, rfl, ho⟩
      obtain ⟨last, rfl, hl, hrun⟩ :=
        run_of_chain_of_recreated (by simp) (fun _ => ⟨first, rfl, ho⟩) hr h
      have hw : run v last = some w := by simpa using hw
      obtain ⟨hv, rfl⟩ := run_eq_some.1 hw
      obtain rfl : v = none := by simpa [precondition_of_create hl] using hv
      exact hrun
  · refine iff_of_true (fun v w hw => ?_) fun ⟨c, hm, hc⟩ => ?_
    · obtain ⟨last, rfl, -, hlp, hrun⟩ := run_of_chain_of_ne_create ho hrest
      have hw : run v last = some w := by simpa using hw
      obtain ⟨hv, rfl⟩ := run_eq_some.1 hw
      have hf : run v first = some first.resultingContent := run_eq_some.2 ⟨hlp ▸ hv, rfl⟩
      rw [List.foldlM_cons, hf]
      exact hrun
    · obtain rfl : first = c := by simpa using hm
      exact absurd hc ho

end PlannedFileChange

namespace ChangePlan

open PlannedFileChange

/-- The map `compose` builds, read as net changes. -/
abbrev Composed (D : Type) [ContentDigest D] := Std.TreeMap ChangePath (PlannedFileChange D)

/-- The inner loop of `compose` chains at the path of each change. -/
theorem tracks_composeChange :
    Tracks (fun (composed : Composed D) path => composed[path]?) path chainStep
      fun composed change => (composeChange composed change).toOption where
  ran {composed change composed'} h := by
    rcases hp : composed[change.path]? with _ | previous
    · obtain rfl : composed.insert change.path change = composed' := by
        simpa [composeChange, hp, Except.toOption] using h
      exact ⟨some change, rfl, lookup_insert ..⟩
    · by_cases he : change.precondition = previous.resultPrecondition
      · rcases hc : previous.chained change with _ | _ | chained
        · simp [composeChange, hp, he, hc, Except.toOption] at h
        · obtain rfl : composed.erase change.path = composed' := by
            simpa [composeChange, hp, he, hc, Except.toOption] using h
          exact ⟨none, by simp [chainStep, he, hc], lookup_erase ..⟩
        · obtain rfl : (composed.erase change.path).insert change.path chained = composed' := by
            simpa [composeChange, hp, he, hc, Except.toOption] using h
          refine ⟨some chained, by simp [chainStep, he, hc], ?_⟩
          simp only [lookup_insert, lookup_erase, Function.update_idem]
      · simp [composeChange, hp, he, Except.toOption] at h
  stuck {composed change} h := by
    rcases hp : composed[change.path]? with _ | previous
    · simp [composeChange, hp, Except.toOption] at h
    · by_cases he : change.precondition = previous.resultPrecondition
      · rcases hc : previous.chained change with _ | _ | chained
        · simp [chainStep, he, hc]
        · simp [composeChange, hp, he, hc, Except.toOption] at h
        · simp [composeChange, hp, he, hc, Except.toOption] at h
      · simp [chainStep, he]

/-- The outer loop of `compose` is the inner loop over all changes. -/
theorem toOption_foldlM_composePlan {plans : List (ChangePlan D)} (composed : Composed D)
    (h : ∀ plan ∈ plans, plan.validate = .ok ()) :
    (plans.foldlM composePlan composed).toOption =
      (allChanges plans).foldlM (fun m c => (composeChange m c).toOption) composed := by
  induction plans generalizing composed with
  | nil => rfl
  | cons plan plans ih =>
      rw [List.forall_mem_cons] at h
      have hp : composePlan composed plan = plan.changes.foldlM composeChange composed := by
        rw [composePlan, h.1]
        rfl
      rw [List.foldlM_cons, hp, allChanges, List.flatMap_cons, List.foldlM_append,
        ← toOption_foldlM]
      cases plan.changes.foldlM composeChange composed with
      | error e => rfl
      | ok m => exact ih m h.2

/-- `compose` accepts valid plans only. -/
theorem validate_of_foldlM_composePlan {plans : List (ChangePlan D)} {composed m : Composed D}
    (h : plans.foldlM composePlan composed = .ok m) : ∀ plan ∈ plans, plan.validate = .ok () := by
  induction plans generalizing composed with
  | nil => simp
  | cons plan plans ih =>
      rw [List.foldlM_cons] at h
      cases hv : plan.validate with
      | error e =>
          simp [composePlan, hv, bind, Except.bind] at h
      | ok _ =>
          cases hm : composePlan composed plan with
          | error e => simp [hm, bind, Except.bind] at h
          | ok m₁ =>
              rw [hm] at h
              exact List.forall_mem_cons.2 ⟨hv, ih h⟩

/-- Net changes stay at their path. -/
theorem path_of_foldlM_chainStep {changes : List (PlannedFileChange D)}
    {net net' : Option (PlannedFileChange D)} {k : ChangePath} (hn : ∀ c ∈ net, c.path = k)
    (hc : ∀ c ∈ changes, c.path = k) (h : changes.foldlM chainStep net = some net') :
    ∀ c ∈ net', c.path = k := by
  induction changes generalizing net with
  | nil =>
      obtain rfl : net = net' := by simpa using h
      exact hn
  | cons change rest ih =>
      rw [List.foldlM_cons] at h
      obtain ⟨net₁, h₁, h⟩ := Option.bind_eq_some_iff.1 h
      rw [List.forall_mem_cons] at hc
      exact ih (path_of_chainStep hn hc.1 h₁) hc.2 h

/-- The map of net changes holds at every path a change at that path. -/
theorem keyed_of_chain {plans : List (ChangePlan D)} {composed : Composed D}
    (h : ∀ path : ChangePath, (changesAt plans path).foldlM chainStep none = some composed[path]?)
    (k : ChangePath) (c : PlannedFileChange D) (hc : composed[k]? = some c) : c.path = k :=
  path_of_foldlM_chainStep (by simp) (fun _ hm => key_of_mem_opsAt hm) (h k) c hc

section IntoValues

variable {composed : Composed D} (hk : ∀ (k : ChangePath) c, composed[k]? = some c → c.path = k)

include hk

omit [DecidableEq D] in
theorem mem_intoValues {c : PlannedFileChange D} :
    c ∈ (intoValues composed).changes ↔ composed[c.path]? = some c := by
  simp only [intoValues, List.mem_map, Prod.exists, exists_eq_right,
    Std.TreeMap.mem_toList_iff_getElem?_eq_some]
  refine ⟨fun ⟨k, h⟩ => ?_, fun h => ⟨_, h⟩⟩
  rw [hk k c h]
  exact h

/-- The values of a map from paths to changes at those paths are a valid plan. -/
theorem validate_intoValues : (intoValues composed).validate = .ok () := by
  rw [validate_eq_ok_iff, intoValues, List.pairwise_map]
  refine (Std.TreeMap.ordered_keys_toList (t := composed)).imp_of_mem fun {a b} ha hb hab => ?_
  rw [hk _ _ (Std.TreeMap.mem_toList_iff_getElem?_eq_some.1 ha),
    hk _ _ (Std.TreeMap.mem_toList_iff_getElem?_eq_some.1 hb)]
  exact hab

/-- The values of the map at one path are what the map holds there. -/
theorem opsAt_intoValues (k : ChangePath) :
    opsAt path (intoValues composed).changes k = composed[k]?.toList := by
  have hmem : ∀ c, c ∈ opsAt path (intoValues composed).changes k ↔ composed[k]? = some c := by
    intro c
    rw [opsAt, List.mem_filter, mem_intoValues hk, decide_eq_true_iff]
    refine ⟨fun h => h.2 ▸ h.1, fun h => ?_⟩
    rw [hk k c h]
    exact ⟨h, rfl⟩
  have hne := (pairwise_path_ne (validate_intoValues hk)).sublist
    (List.filter_sublist (p := fun c => decide (c.path = k)))
  generalize hl : opsAt path (intoValues composed).changes k = l at hmem
  rw [← opsAt, hl] at hne
  rcases l with _ | ⟨c, _ | ⟨c', l⟩⟩
  · cases hc : composed[k]? with
    | none => rfl
    | some c => simpa using (hmem c).2 hc
  · rw [(hmem c).1 (by simp)]
    rfl
  · have h₁ := hk k c ((hmem c).1 (by simp))
    have h₂ := hk k c' ((hmem c').1 (by simp))
    exact absurd (h₁.trans h₂.symm) ((List.pairwise_cons.1 hne).1 c' (by simp))

end IntoValues

omit [DecidableEq D] in
/-- The loop of `new` adds the changes at their paths. -/
theorem getElem?_of_foldlM_collect {changes : List (PlannedFileChange D)}
    {ordered m : Composed D} (h : changes.foldlM collect ordered = .ok m) (k : ChangePath)
    (c : PlannedFileChange D) :
    m[k]? = some c ↔ ordered[k]? = some c ∨ c ∈ changes ∧ c.path = k := by
  induction changes generalizing ordered with
  | nil =>
      obtain rfl := Except.ok.inj h
      simp
  | cons change changes ih =>
      rw [List.foldlM_cons] at h
      obtain ⟨m₁, h₁, h⟩ := Validation.bind_eq_ok.1 h
      rw [collect] at h₁
      split at h₁
      · cases h₁
      next hnone =>
      obtain rfl := Except.ok.inj h₁
      rw [ih h, congrFun (lookup_insert ordered change.path change) k, List.mem_cons]
      by_cases hk : k = change.path
      · subst hk
        rw [Function.update_self, hnone, Option.some.injEq]
        constructor
        · rintro (rfl | ⟨hc, hp⟩)
          · exact Or.inr ⟨Or.inl rfl, rfl⟩
          · exact Or.inr ⟨Or.inr hc, hp⟩
        · rintro (hc | ⟨rfl | hc, hp⟩)
          · cases hc
          · exact Or.inl rfl
          · exact Or.inr ⟨hc, hp⟩
      · rw [Function.update_of_ne hk]
        refine or_congr_right (and_congr_left fun hp => ⟨Or.inr, ?_⟩)
        rintro (rfl | hc)
        · exact absurd hp.symm hk
        · exact hc

/-- **A plan has the changes it was made of**, and is valid. -/
theorem new_eq_ok {changes : List (PlannedFileChange D)} {plan : ChangePlan D}
    (h : ChangePlan.new changes = .ok plan) :
    plan.validate = .ok () ∧ ∀ c, c ∈ plan.changes ↔ c ∈ changes := by
  obtain ⟨m, hm, h⟩ := Validation.bind_eq_ok.1 h
  obtain ⟨⟨⟩, hvalid, h⟩ := Validation.bind_eq_ok.1 h
  obtain rfl := Validation.pure_eq_ok.1 h
  have hget := getElem?_of_foldlM_collect hm
  refine ⟨hvalid, fun c => ?_⟩
  rw [mem_intoValues fun k c hk => (((hget k c).1 hk).resolve_left (by simp)).2, hget]
  simp

omit [DecidableEq D] in
theorem exists_foldlM_collect {changes : List (PlannedFileChange D)} {ordered : Composed D}
    (hn : (changes.map PlannedFileChange.path).Nodup)
    (hnew : ∀ c ∈ changes, ordered[c.path]? = none) :
    ∃ m, changes.foldlM collect ordered = .ok m := by
  induction changes generalizing ordered with
  | nil => exact ⟨ordered, rfl⟩
  | cons change changes ih =>
      obtain ⟨hchange, hn⟩ := List.nodup_cons.1 hn
      have hcollect : collect ordered change = .ok (ordered.insert change.path change) := by
        simp only [collect, hnew change List.mem_cons_self]
      obtain ⟨m, hm⟩ := ih hn fun c hc => show (ordered.insert change.path change)[c.path]? = none by
        have hne : c.path ≠ change.path := fun he => hchange (he ▸ List.mem_map_of_mem hc)
        rw [congrFun (lookup_insert ordered change.path change) c.path, Function.update_of_ne hne]
        exact hnew c (List.mem_cons_of_mem _ hc)
      exact ⟨m, Validation.foldlM_cons_eq_ok.2 ⟨_, hcollect, hm⟩⟩

/-- Changes at distinct paths make a plan. -/
theorem exists_new_eq_ok {changes : List (PlannedFileChange D)}
    (hn : (changes.map PlannedFileChange.path).Nodup) :
    ∃ plan, ChangePlan.new changes = .ok plan := by
  obtain ⟨m, hm⟩ := exists_foldlM_collect hn fun c _ => (by simp : (∅ : Composed D)[c.path]? = none)
  have hget := getElem?_of_foldlM_collect hm
  have hvalid : (intoValues m).validate = .ok () :=
    validate_intoValues fun k c hk => (((hget k c).1 hk).resolve_left (by simp)).2
  exact ⟨intoValues m, Validation.bind_eq_ok.2 ⟨m, hm, Validation.bind_eq_ok.2 ⟨(), hvalid, rfl⟩⟩⟩

/-- **`compose` chains path by path.**  On valid plans it succeeds exactly when
the changes at every path chain, and the composed plan holds the net change of
every path. -/
theorem compose_eq_ok {plans : List (ChangePlan D)} {composed : ChangePlan D}
    (h : compose plans = .ok composed) :
    (∀ plan ∈ plans, plan.validate = .ok ()) ∧ composed.validate = .ok () ∧
      ∀ path, ∃ net, (changesAt plans path).foldlM chainStep none = some net ∧
        opsAt PlannedFileChange.path composed.changes path = net.toList := by
  unfold compose at h
  cases hm : plans.foldlM composePlan ∅ with
  | error e => simp [hm, bind, Except.bind] at h
  | ok m =>
      have hvalid := validate_of_foldlM_composePlan hm
      have hchain : ∀ path : ChangePath,
          (changesAt plans path).foldlM chainStep none = some m[path]? := by
        intro path
        have hf := toOption_foldlM_composePlan ∅ hvalid
        rw [hm] at hf
        simpa [changesAt] using tracks_composeChange.lookup_of_foldlM _ hf.symm path
      have hk := keyed_of_chain hchain
      have hv := validate_intoValues hk
      obtain rfl : intoValues m = composed := by
        simpa [hm, hv, bind, Except.bind, pure, Except.pure] using h
      exact ⟨hvalid, hv, fun path => ⟨_, hchain path, opsAt_intoValues hk path⟩⟩

/-- Valid plans whose changes chain at every path compose. -/
theorem exists_compose {plans : List (ChangePlan D)}
    (hv : ∀ plan ∈ plans, plan.validate = .ok ())
    (hc : ∀ path, ∃ net, (changesAt plans path).foldlM chainStep none = some net) :
    ∃ composed, compose plans = .ok composed := by
  obtain ⟨m, hm⟩ := tracks_composeChange.exists_foldlM (allChanges plans) ∅
    fun k => by simpa [changesAt] using hc k
  have hf := toOption_foldlM_composePlan ∅ hv
  rw [hm] at hf
  cases hp : plans.foldlM composePlan ∅ with
  | error e => simp [hp, Except.toOption] at hf
  | ok m' =>
      obtain rfl : m' = m := by simpa [hp, Except.toOption] using hf
      have hchain (path : ChangePath) :
          (changesAt plans path).foldlM chainStep none = some m'[path]? := by
        simpa [changesAt] using tracks_composeChange.lookup_of_foldlM _ hm path
      refine ⟨intoValues m', ?_⟩
      simp [compose, hp, validate_intoValues (keyed_of_chain hchain), bind, Except.bind, pure,
        Except.pure]

/-- What a composed plan does, path by path: the net change there, or nothing. -/
theorem apply_composed_eq_some_iff {plans : List (ChangePlan D)} {composed : ChangePlan D}
    (h : compose plans = .ok composed) {s s' : FileState} :
    composed.apply s = some s' ↔ ∀ path net,
      (changesAt plans path).foldlM chainStep none = some net →
        netRun net (s path) = some (s' path) := by
  obtain ⟨-, hv, hc⟩ := compose_eq_ok h
  rw [apply_eq_some_iff hv]
  refine forall_congr' fun path => ?_
  obtain ⟨net, hn, ho⟩ := hc path
  rw [ho, hn]
  simp [netRun]

/-- **Composition is complete.**  If valid plans can be applied one after another
from `s`, they compose, the preconditions of the composed plan hold in `s`, and
applying it once gives the state the plans give. -/
theorem compose_complete {plans : List (ChangePlan D)}
    (hv : ∀ plan ∈ plans, plan.validate = .ok ()) {s s' : FileState}
    (h : applyAll plans s = some s') :
    ∃ composed, compose plans = .ok composed ∧ composed.PreconditionsHold s ∧
      composed.apply s = some s' := by
  have hrun (path : ChangePath) : ∃ net,
      (changesAt plans path).foldlM chainStep none = some net ∧
        netRun net (s path) = some (s' path) :=
    exists_chain_of_run rfl ((applyAll_eq_some_iff hv).1 h path)
  obtain ⟨composed, hc⟩ := exists_compose hv fun path => (hrun path).imp fun _ => And.left
  have ha : composed.apply s = some s' := by
    refine (apply_composed_eq_some_iff hc).2 fun path net hn => ?_
    obtain ⟨net', hn', hw⟩ := hrun path
    obtain rfl : net' = net := Option.some.inj (hn'.symm.trans hn)
    exact hw
  refine ⟨composed, hc, ?_, ha⟩
  by_contra hp
  rw [ChangePlan.apply, if_neg hp] at ha
  cases ha

/-- A draft created, retired and created again from an empty application. -/
theorem compose_complete_draft :
    ∃ composed, compose [createDraft [1], retireDraft [1], createDraft [2]] = .ok composed ∧
      composed.PreconditionsHold (fun _ => none) ∧
      composed.apply (fun _ => none) =
        some (Function.update (fun _ => none) draftPath (some [2])) := by
  refine compose_complete (by decide) ?_
  simp [applyAll, ChangePlan.apply, PreconditionsHold, write, createDraft, retireDraft,
    precondition, resultingContent, PlannedFileChange.path, ContentDigest.calculate]

/-- **When composition is sound.**  The composed plan stands for the sequence in
every state it applies to, with the same result, exactly when the changes at
every path keep their first precondition: a path that is first created is created
again after every retirement. -/
theorem compose_sound_iff {plans : List (ChangePlan D)} {composed : ChangePlan D}
    (h : compose plans = .ok composed) :
    (∀ s s', composed.apply s = some s' → applyAll plans s = some s') ↔
      ∀ path, KeepsFirstPrecondition (changesAt plans path) := by
  obtain ⟨hv, -, hc⟩ := compose_eq_ok h
  constructor
  · intro hs path
    obtain ⟨net, hn, -⟩ := hc path
    refine (chain_sound_iff hn).1 fun v w hw => ?_
    -- A state that holds `v` at this path and meets the composed plan elsewhere.
    choose nets hnets _ using hc
    choose v₀ w₀ hw₀ using fun p => exists_netRun (nets p)
    have ha : composed.apply (Function.update v₀ path v) = some (Function.update w₀ path w) := by
      refine (apply_composed_eq_some_iff h).2 fun p net' hn' => ?_
      by_cases hp : p = path
      · subst hp
        obtain rfl : net = net' := Option.some.inj (hn.symm.trans hn')
        simpa using hw
      · obtain rfl : nets p = net' := Option.some.inj ((hnets p).symm.trans hn')
        simpa [hp] using hw₀ p
    simpa using (applyAll_eq_some_iff hv).1 (hs _ _ ha) path
  · intro hk s s' ha
    refine (applyAll_eq_some_iff hv).2 fun path => ?_
    obtain ⟨net, hn, -⟩ := hc path
    exact (chain_sound_iff hn).2 (hk path) _ _ ((apply_composed_eq_some_iff h).1 ha path net hn)

/-- An edit chained to a creation keeps the condition that the draft is absent. -/
theorem compose_sound_iff_draft :
    (∀ s s', (createDraft [2]).apply s = some s' →
        applyAll [createDraft [1], editDraft [1] [2]] s = some s') ↔
      ∀ path, KeepsFirstPrecondition (changesAt [createDraft [1], editDraft [1] [2]] path) :=
  compose_sound_iff (by decide +kernel)

/-- **Composition drops a precondition.**  A draft is created, retired and then
edited.  The plans compose to the edit alone, which applies to a draft that holds
the edited bytes, and there is no state in which the three plans run one after
another. -/
theorem compose_drops_precondition :
    compose [createDraft [1], retireDraft [1], editDraft [2] [3]] = .ok (editDraft [2] [3]) ∧
      (editDraft [2] [3]).PreconditionsHold (fun _ => some [2]) ∧
      ∀ s, applyAll [createDraft [1], retireDraft [1], editDraft [2] [3]] s = none := by
  refine ⟨by decide +kernel, by decide, fun s => ?_⟩
  cases h : s draftPath <;>
    simp [applyAll, ChangePlan.apply, PreconditionsHold, write, createDraft, retireDraft,
      editDraft, precondition, resultingContent, PlannedFileChange.path,
      ContentDigest.calculate, h]

end ChangePlan

end Mutator
end Hegira
