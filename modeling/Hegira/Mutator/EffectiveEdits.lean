/-
# Edits that change nothing

`StructuredFileEdit::new` refuses an edit whose result digest is its original
digest.  `ChangePlan::compose` and `compose_component_contributions` build edits
without it, from the original digest of one change and the result digest of
another, and a chain may come back to where it began.

Whether it does is read off the changes at a path.  A creation and everything up
to the retirement that follows it cancel; of the changes that are left
(`standing`) the first gives the composed change its precondition and the last
its result.  Both compositions build an edit that changes nothing exactly where
the last result is what the first change expects (`Returns`).
-/

import Hegira.Mutator.Contributions

namespace Hegira
namespace Mutator

open Keyed

variable {D : Type} [ContentDigest D]

namespace PlannedFileChange

/-- The changes of a chain that no cancelled creation removes, one change on. -/
def standStep (standing : List (PlannedFileChange D)) (change : PlannedFileChange D) :
    List (PlannedFileChange D) :=
  if standing.head?.any (fun first => first.operation = .create) ∧ change.operation = .retire then
    []
  else standing ++ [change]

/-- The changes that are left when every creation is dropped together with all
changes up to the retirement that follows it. -/
def standing (changes : List (PlannedFileChange D)) : List (PlannedFileChange D) :=
  changes.foldl standStep []

/-- The last change leaves what the first one expects. -/
def Returns (changes : List (PlannedFileChange D)) : Prop :=
  ∃ first ∈ changes.head?, ∃ last ∈ changes.getLast?,
    last.resultPrecondition = first.precondition

/-- Equal results give equal result preconditions. -/
theorem resultPrecondition_congr {c c' : PlannedFileChange D}
    (h : c.resultingContent = c'.resultingContent) :
    c.resultPrecondition = c'.resultPrecondition := by
  unfold resultPrecondition
  rw [resultDigest_eq_map, resultDigest_eq_map, h]

/-- **Only an edit can return.**  A change leaves what it expects exactly when it
is an edit whose result digest is its original digest. -/
theorem returns_singleton_iff {c : PlannedFileChange D} :
    Returns [c] ↔ ∃ e, c = .edit e ∧ e.originalDigest = e.resultDigest := by
  cases c with
  | create change => simp [Returns, resultPrecondition, resultDigest, precondition]
  | edit change =>
      simp [Returns, resultPrecondition, resultDigest, precondition, eq_comm]
  | retire change => simp [Returns, resultPrecondition, resultDigest, precondition]

/-- `net` has the precondition of the first standing change and the result of the
last one. -/
def Summarises : Option (PlannedFileChange D) → List (PlannedFileChange D) → Prop
  | none, standing => standing = []
  | some c, standing => ∃ first ∈ standing.head?, ∃ last ∈ standing.getLast?,
      (c.operation = .create ↔ first.operation = .create) ∧
        c.precondition = first.precondition ∧ c.resultPrecondition = last.resultPrecondition

/-- A net change returns when the changes it summarises do. -/
theorem Summarises.returns_iff {c : PlannedFileChange D} {changes : List (PlannedFileChange D)}
    (h : Summarises (some c) changes) : Returns [c] ↔ Returns changes := by
  obtain ⟨first, hf, last, hl, -, hp, hr⟩ := h
  simp only [Returns, List.head?_cons, List.getLast?_singleton, Option.mem_some_iff,
    exists_eq_left', hr, hp, Option.mem_def.1 hf, Option.mem_def.1 hl]

variable [DecidableEq D]

/-- **One step of a chain** keeps the summary. -/
theorem Summarises.chainStep {net net' : Option (PlannedFileChange D)}
    {changes : List (PlannedFileChange D)} {change : PlannedFileChange D}
    (h : Summarises net changes) (hs : chainStep net change = some net') :
    Summarises net' (standStep changes change) := by
  rcases net with _ | previous
  · obtain rfl : changes = [] := h
    rw [PlannedFileChange.chainStep, Option.some.injEq] at hs
    subst hs
    exact ⟨change, by simp [standStep], change, by simp [standStep], Iff.rfl, rfl, rfl⟩
  obtain ⟨first, hf, last, hl, ho, hp, -⟩ := h
  have hhead : (changes ++ [change]).head? = some first := by
    rw [List.head?_append, Option.mem_def.1 hf]
    rfl
  by_cases hc : previous.operation = .create
  · -- The chain is open at a creation: it absorbs an edit, or closes.
    obtain ⟨-, ⟨hr, rfl⟩ | ⟨he, mid, rfl, hm, hmc⟩⟩ := chainStep_of_create hc hs
    · have hany : changes.head?.any (fun first => first.operation = .create) := by
        simp [Option.mem_def.1 hf, ho.1 hc]
      rw [standStep, if_pos ⟨hany, hr⟩]
      rfl
    · rw [standStep, if_neg (by simp [he])]
      exact ⟨first, hhead, change, by simp, iff_of_true hm (ho.1 hc),
        by rw [← hp, precondition_of_create hm, precondition_of_create hc],
        resultPrecondition_congr hmc⟩
  · obtain ⟨-, mid, rfl, hm, hmp, hmc⟩ := chainStep_of_ne_create hc hs
    have hany : ¬changes.head?.any (fun first => first.operation = .create) := by
      simpa [Option.mem_def.1 hf] using fun h => hc (ho.2 h)
    rw [standStep, if_neg fun h => hany h.1]
    exact ⟨first, hhead, change, by simp, iff_of_false hm fun h => hc (ho.2 h), hmp.trans hp,
      resultPrecondition_congr hmc⟩

/-- **A chain summarises its standing changes.** -/
theorem summarises_of_chain {changes seen : List (PlannedFileChange D)}
    {net net' : Option (PlannedFileChange D)} (h : Summarises net seen)
    (hc : changes.foldlM PlannedFileChange.chainStep net = some net') :
    Summarises net' (changes.foldl standStep seen) := by
  induction changes generalizing net seen with
  | nil =>
      obtain rfl : net = net' := by simpa using hc
      exact h
  | cons change rest ih =>
      rw [List.foldlM_cons] at hc
      obtain ⟨net₁, h₁, hc⟩ := Option.bind_eq_some_iff.1 hc
      exact ih (h.chainStep h₁) hc

end PlannedFileChange

open PlannedFileChange

variable [DecidableEq D]

/-- The composed plan has an edit that changes nothing at a path exactly when the
changes standing there return. -/
theorem exists_unchanged_edit_iff {plans : List (ChangePlan D)} {composed : ChangePlan D}
    (h : ChangePlan.compose plans = .ok composed) (k : ChangePath) :
    (∃ e, .edit e ∈ composed.changes ∧ e.path = k ∧ e.originalDigest = e.resultDigest) ↔
      Returns (standing (changesAt plans k)) := by
  obtain ⟨-, -, hc⟩ := ChangePlan.compose_eq_ok h
  obtain ⟨net, hn, hops⟩ := hc k
  have hmem (e : StructuredFileEdit D) :
      .edit e ∈ composed.changes ∧ e.path = k ↔ net = some (.edit e) := by
    have : .edit e ∈ opsAt PlannedFileChange.path composed.changes k ↔ net = some (.edit e) := by
      rw [hops, Option.mem_toList]
    rw [← this, opsAt, List.mem_filter, decide_eq_true_iff]
    rfl
  have hsum : Summarises net (standing (changesAt plans k)) :=
    summarises_of_chain (show Summarises none [] from rfl) hn
  simp only [← and_assoc, hmem]
  rcases net with _ | c
  · rw [show standing (changesAt plans k) = [] from hsum]
    simp [Returns]
  · rw [← hsum.returns_iff, returns_singleton_iff]
    simp

/-- The composed contributions have an integration that changes nothing at a path
exactly when the contributions there return. -/
theorem exists_unchanged_integration_iff {contributions composed : List (ComponentContribution D)}
    (h : composeComponentContributions contributions = .ok composed) (k : ChangePath) :
    (∃ i, .integration i ∈ composed ∧ i.edit.path = k ∧
        i.edit.originalDigest = i.edit.resultDigest) ↔
      Returns ((opsAt ComponentContribution.path contributions k).map
        ComponentContribution.change) := by
  obtain ⟨net, hn, hmem⟩ := ComponentContribution.mem_composeComponentContributions h k
  have hint (i : ComponentIntegration D) :
      .integration i ∈ composed ∧ i.edit.path = k ↔ net = some (.integration i) :=
    hmem (.integration i)
  simp only [← and_assoc, hint]
  rcases hops : opsAt ComponentContribution.path contributions k with _ | ⟨first, rest⟩
  · rw [hops] at hn
    obtain rfl : none = net := by simpa using hn
    simp [Returns]
  · rw [hops, List.foldlM_cons] at hn
    obtain ⟨c, rfl, -, hpre, last, hl, hres⟩ := ComponentContribution.chain_eq_some hn
    have hret : Returns ((first :: rest).map ComponentContribution.change) ↔
        Returns [c.change] := by
      have hlast : ((first :: rest).map ComponentContribution.change).getLast? =
          some last.change := by
        rw [List.getLast?_map, Option.mem_def.1 hl]
        rfl
      rw [Returns, hlast]
      simp [Returns, hpre, hres]
    rw [hret, returns_singleton_iff]
    cases c with
    | artifact a => simp [ComponentContribution.change]
    | integration i => simp [ComponentContribution.change]

/-- **When composition keeps edits effective.**  Every edit of a composed plan,
and every integration of composed contributions, changes its file exactly when at
no path the changes that stand, or the contributions, return to the digest the
first of them expects. -/
theorem composed_edits_effective_iff :
    (∀ (plans : List (ChangePlan D)) composed, ChangePlan.compose plans = .ok composed →
      ((∀ e, .edit e ∈ composed.changes → e.originalDigest ≠ e.resultDigest) ↔
        ∀ k, ¬Returns (standing (changesAt plans k)))) ∧
    (∀ (contributions composed : List (ComponentContribution D)),
      composeComponentContributions contributions = .ok composed →
      ((∀ i, .integration i ∈ composed → i.edit.originalDigest ≠ i.edit.resultDigest) ↔
        ∀ k, ¬Returns ((opsAt ComponentContribution.path contributions k).map
          ComponentContribution.change))) := by
  constructor
  · intro plans composed h
    simp only [← exists_unchanged_edit_iff h]
    push Not
    exact ⟨fun hall k e he _ => hall e he, fun hall e he => hall _ e he rfl⟩
  · intro contributions composed h
    simp only [← exists_unchanged_integration_iff h]
    push Not
    exact ⟨fun hall k i hi _ => hall i hi, fun hall i hi => hall _ i hi rfl⟩

/-- A path the server owns. -/
def serverPath : ChangePath := ⟨"apps/server/main.rs", by decide⟩

theorem plainDigest_calculate (content : Bytes) :
    (⟨content⟩ : PlainDigest) = ContentDigest.calculate content := rfl

/-- An integration of the server's entry point that replaces `original` by
`content`. -/
def serverIntegration (original content : Bytes) : ComponentContribution PlainDigest :=
  .integration ⟨.server, ⟨serverPath, ⟨original⟩, content, ⟨content⟩, calculated original,
      plainDigest_calculate content⟩,
    (by decide : ApplicationFileOwner.server.owns serverPath),
    (by decide : isHistoricalMigration serverPath = false)⟩

/-- Two edits of the draft that end in a third content, and two integrations of
the entry point that do. -/
theorem composed_edits_effective_iff_draft :
    ((∀ e, .edit e ∈ (editDraft [1] [3]).changes → e.originalDigest ≠ e.resultDigest) ↔
      ∀ k, ¬Returns (standing (changesAt [editDraft [1] [2], editDraft [2] [3]] k))) ∧
    ((∀ i, .integration i ∈ [serverIntegration [1] [3]] →
        i.edit.originalDigest ≠ i.edit.resultDigest) ↔
      ∀ k, ¬Returns ((opsAt ComponentContribution.path
        [serverIntegration [1] [2], serverIntegration [2] [3]] k).map
          ComponentContribution.change)) :=
  ⟨composed_edits_effective_iff.1 _ _ (by decide +kernel),
    composed_edits_effective_iff.2 _ _ (by decide +kernel)⟩

/-- **A composed edit may change nothing.**  The draft is edited and edited back,
or retired and created again with its own bytes, and the entry point is integrated
and integrated back; every single edit changes its file. -/
theorem composed_edit_unchanged :
    ((StructuredFileEdit.new "src/draft.rs" [1] [2]).toOption.map .edit).toList =
        (editDraft [1] [2]).changes ∧
      (StructuredFileEdit.new "apps/server/main.rs" [1] [2]).toOption.bind (fun e =>
          (ComponentIntegration.new .server e).toOption.map .integration) =
        some (serverIntegration [1] [2]) ∧
      ChangePlan.compose [editDraft [1] [2], editDraft [2] [1]] = .ok (editDraft [1] [1]) ∧
      ChangePlan.compose [retireDraft [1], createDraft [1]] = .ok (editDraft [1] [1]) ∧
      composeComponentContributions [serverIntegration [1] [2], serverIntegration [2] [1]] =
        .ok [serverIntegration [1] [1]] ∧
      ¬∀ (plans : List (ChangePlan PlainDigest)) composed,
        ChangePlan.compose plans = .ok composed →
          ∀ e, .edit e ∈ composed.changes → e.originalDigest ≠ e.resultDigest := by
  have hback : ChangePlan.compose [editDraft [1] [2], editDraft [2] [1]] =
      .ok (editDraft [1] [1]) := by decide +kernel
  refine ⟨by decide +kernel, by decide +kernel, hback, by decide +kernel, by decide +kernel, fun hall => ?_⟩
  exact hall _ _ hback _ List.mem_cons_self rfl

end Mutator
end Hegira
