/-
# What a change plan does to a file state

A file state gives every path its bytes or nothing.  A plan applies to a state in
which all its preconditions hold and then writes all its results
(`ChangePlan.apply`); plans apply one after another (`applyAll`).

The paths of a valid plan are distinct (`ChangePlan.validate_eq_ok_iff`), so it
may as well be applied change by change (`ChangePlan.apply_eq_foldlM`), and a
sequence of plans is a list of changes each acting at one path
(`applyAll_eq_some_iff`).
-/

import Hegira.Library.KeyedFold
import Hegira.Mutator.ChangePlan

namespace Hegira
namespace Mutator

open Keyed

variable {D : Type} [ContentDigest D]

/-- The bytes of every path, `none` where there is no file. -/
abbrev FileState := ChangePath → Option Bytes

namespace FilePrecondition

/-- The digest a precondition expects to find, `none` for no file. -/
def expected : FilePrecondition D → Option D
  | .absent => none
  | .matchesDigest digest => some digest

/-- The precondition holds of the bytes at a path. -/
def Holds (precondition : FilePrecondition D) (v : Option Bytes) : Prop :=
  v.map ContentDigest.calculate = precondition.expected

instance [DecidableEq D] (precondition : FilePrecondition D) (v : Option Bytes) :
    Decidable (precondition.Holds v) :=
  inferInstanceAs (Decidable (_ = _))

@[simp] theorem holds_absent {v : Option Bytes} :
    (absent : FilePrecondition D).Holds v ↔ v = none := by
  cases v <;> simp [Holds, expected]

@[simp] theorem holds_matchesDigest {d : D} {v : Option Bytes} :
    (matchesDigest d).Holds v ↔ ∃ b, v = some b ∧ ContentDigest.calculate b = d := by
  cases v <;> simp [Holds, expected]

omit [ContentDigest D] in
theorem expected_injective : Function.Injective (expected : FilePrecondition D → Option D) := by
  rintro (_ | d) (_ | d') h <;> simp_all [expected]

/-- Two preconditions that hold of the same bytes are the same. -/
theorem Holds.unique {p q : FilePrecondition D} {v : Option Bytes} (hp : p.Holds v)
    (hq : q.Holds v) : p = q :=
  expected_injective (hp.symm.trans hq)

end FilePrecondition

namespace PlannedFileChange

/-- A change leaves behind exactly what its result precondition asks for. -/
theorem holds_resultPrecondition (change : PlannedFileChange D) :
    change.resultPrecondition.Holds change.resultingContent := by
  rw [FilePrecondition.Holds, ← resultDigest_eq_map]
  unfold resultPrecondition
  cases change.resultDigest <;> rfl

/-- Some file content, or its absence, meets the precondition of a change: an
original digest is the digest of something. -/
theorem exists_holds (change : PlannedFileChange D) : ∃ v, change.precondition.Holds v := by
  cases change with
  | create change => exact ⟨none, by simp [precondition]⟩
  | edit change =>
      obtain ⟨b, hb⟩ := change.observed
      exact ⟨some b, by simp [precondition, hb]⟩
  | retire change =>
      obtain ⟨b, hb⟩ := change.observed
      exact ⟨some b, by simp [precondition, hb]⟩

/-- Only a creation expects to find no file. -/
theorem exists_holds_some {change : PlannedFileChange D} (h : change.operation ≠ .create) :
    ∃ b, change.precondition.Holds (some b) := by
  obtain ⟨v, hv⟩ := change.exists_holds
  cases change with
  | create change => exact absurd rfl h
  | edit change =>
      obtain ⟨b, rfl, -⟩ := FilePrecondition.holds_matchesDigest.1 hv
      exact ⟨b, hv⟩
  | retire change =>
      obtain ⟨b, rfl, -⟩ := FilePrecondition.holds_matchesDigest.1 hv
      exact ⟨b, hv⟩

/-- A creation runs on an absent file only. -/
theorem precondition_of_create {change : PlannedFileChange D} (h : change.operation = .create) :
    change.precondition = .absent := by
  cases change with
  | create change => rfl
  | edit change => cases h
  | retire change => cases h

variable [DecidableEq D]

/-- The change at its own path: the bytes after it, if its precondition holds. -/
def run (v : Option Bytes) (change : PlannedFileChange D) : Option (Option Bytes) :=
  if change.precondition.Holds v then some change.resultingContent else none

theorem run_eq_some {v w : Option Bytes} {change : PlannedFileChange D} :
    run v change = some w ↔ change.precondition.Holds v ∧ change.resultingContent = w := by
  unfold run
  split_ifs with h <;> simp [h]

/-- The change in a file state. -/
def apply (s : FileState) (change : PlannedFileChange D) : Option FileState :=
  (run (s change.path) change).map (Function.update s change.path)

/-- A change acts at its path and nowhere else. -/
theorem tracks_apply :
    Tracks (fun s : FileState => s) path (run (D := D)) apply where
  ran {s change s'} h := by
    obtain ⟨v, hv, rfl⟩ := Option.map_eq_some_iff.1 h
    exact ⟨v, hv, rfl⟩
  stuck {s change} h := Option.map_eq_none_iff.1 h

end PlannedFileChange

namespace ChangePlan

variable [DecidableEq D]

theorem validateFrom_cons_eq_ok {previous : Option ChangePath} {change : PlannedFileChange D}
    {rest : List (PlannedFileChange D)} :
    validateFrom previous (change :: rest) = .ok () ↔
      (∀ path ∈ previous, compare path change.path = .lt) ∧
        validateFrom (some change.path) rest = .ok () := by
  have hd : ∀ content ∈ change.resultingContent, ∀ digest ∈ change.resultDigest,
      ContentDigest.calculate content = digest := by
    intro content hc digest hd
    rw [change.resultDigest_eq_map, Option.mem_def.1 hc] at hd
    simpa using hd
  have hr : change.resultingContent = none ∨ change.resultDigest = none →
      change.operation = .retire := by
    cases change <;> simp [PlannedFileChange.resultingContent, PlannedFileChange.resultDigest,
      PlannedFileChange.operation]
  rw [validateFrom]
  rcases previous with _ | path
  · rcases hc : change.resultingContent with _ | content <;>
      rcases hg : change.resultDigest with _ | digest <;> simp_all
  · have hge : (compare path change.path).isGE = false ↔ compare path change.path = .lt := by
      cases compare path change.path <;> simp
    cases hcmp : (compare path change.path).isGE
    · rcases hc : change.resultingContent with _ | content <;>
        rcases hg : change.resultDigest with _ | digest <;> simp_all
    · simp_all [bind, Except.bind, throw, throwThe, MonadExceptOf.throw]

theorem validateFrom_eq_ok {previous : Option ChangePath} {changes : List (PlannedFileChange D)} :
    validateFrom previous changes = .ok () ↔
      (∀ path ∈ previous, ∀ change ∈ changes, compare path change.path = .lt) ∧
        changes.Pairwise fun a b => compare a.path b.path = .lt := by
  induction changes generalizing previous with
  | nil => simp [validateFrom]
  | cons change rest ih =>
      rw [validateFrom_cons_eq_ok, ih, List.pairwise_cons]
      simp only [Option.mem_some_iff, forall_eq', List.forall_mem_cons]
      refine ⟨fun ⟨hp, hc, hr⟩ => ⟨fun path h => ⟨hp path h, fun c hm => ?_⟩, hc, hr⟩,
        fun ⟨hp, hc, hr⟩ => ⟨fun path h => (hp path h).1, hc, hr⟩⟩
      exact Std.TransCmp.lt_trans (hp path h) (hc c hm)

/-- **A plan is valid when its paths strictly increase.**  The digest checks of
`validate` never fail on changes the constructors and `compose` build. -/
theorem validate_eq_ok_iff {plan : ChangePlan D} :
    plan.validate = .ok () ↔ plan.changes.Pairwise fun a b => compare a.path b.path = .lt := by
  simp [validate, validateFrom_eq_ok]

/-- The paths of a valid plan are distinct. -/
theorem pairwise_path_ne {plan : ChangePlan D} (h : plan.validate = .ok ()) :
    plan.changes.Pairwise fun a b => a.path ≠ b.path :=
  (validate_eq_ok_iff.1 h).imp fun {a b} hab he => by
    have hrefl : compare b.path b.path = .eq := Std.ReflCmp.compare_self
    rw [he, hrefl] at hab
    cases hab

/-- All preconditions of the plan hold in `s`. -/
def PreconditionsHold (plan : ChangePlan D) (s : FileState) : Prop :=
  ∀ change ∈ plan.changes, change.precondition.Holds (s change.path)

instance (plan : ChangePlan D) (s : FileState) : Decidable (plan.PreconditionsHold s) :=
  inferInstanceAs (Decidable (∀ change ∈ plan.changes, _))

/-- The results of the plan written into `s`. -/
def write (plan : ChangePlan D) (s : FileState) : FileState :=
  plan.changes.foldl (fun s change => Function.update s change.path change.resultingContent) s

omit [DecidableEq D] in
theorem foldl_write_of_forall_ne {changes : List (PlannedFileChange D)} (s : FileState)
    {path : ChangePath} (h : ∀ change ∈ changes, change.path ≠ path) :
    changes.foldl (fun s change => Function.update s change.path change.resultingContent) s path =
      s path := by
  induction changes generalizing s with
  | nil => rfl
  | cons change rest ih =>
      rw [List.forall_mem_cons] at h
      rw [List.foldl_cons, ih _ h.2, Function.update_of_ne (Ne.symm h.1)]

omit [DecidableEq D] in
/-- A plan leaves the other paths alone. -/
theorem write_of_forall_ne {plan : ChangePlan D} (s : FileState) {path : ChangePath}
    (h : ∀ change ∈ plan.changes, change.path ≠ path) : plan.write s path = s path :=
  foldl_write_of_forall_ne s h

/-- A valid plan leaves the result of each change at its path. -/
theorem write_of_mem {plan : ChangePlan D} (hvalid : plan.validate = .ok ()) (s : FileState)
    {change : PlannedFileChange D} (h : change ∈ plan.changes) :
    plan.write s change.path = change.resultingContent := by
  have hne := pairwise_path_ne hvalid
  obtain ⟨pre, post, hsplit⟩ := List.append_of_mem h
  rw [hsplit, List.pairwise_append, List.pairwise_cons] at hne
  rw [write, hsplit, List.foldl_append, List.foldl_cons,
    foldl_write_of_forall_ne _ fun c hc => Ne.symm (hne.2.1.1 c hc), Function.update_self]

/-- The state a plan leaves behind, if it applies. -/
def apply (s : FileState) (plan : ChangePlan D) : Option FileState :=
  if plan.PreconditionsHold s then some (plan.write s) else none

theorem apply_eq_foldlM_of_pairwise {changes : List (PlannedFileChange D)} (s : FileState)
    (h : changes.Pairwise fun a b => a.path ≠ b.path) :
    apply s ⟨changes⟩ = changes.foldlM PlannedFileChange.apply s := by
  induction changes generalizing s with
  | nil => simp [apply, write, PreconditionsHold]
  | cons change rest ih =>
      rw [List.pairwise_cons] at h
      rw [List.foldlM_cons]
      by_cases hc : change.precondition.Holds (s change.path)
      · have hs : PlannedFileChange.apply s change =
            some (Function.update s change.path change.resultingContent) := by
          rw [PlannedFileChange.apply, PlannedFileChange.run, if_pos hc]
          rfl
        have hrest : (⟨rest⟩ : ChangePlan D).PreconditionsHold
              (Function.update s change.path change.resultingContent) ↔
            (⟨rest⟩ : ChangePlan D).PreconditionsHold s := by
          refine forall₂_congr fun c hm => ?_
          rw [Function.update_of_ne (Ne.symm (h.1 c hm))]
        rw [hs, Option.bind_eq_bind, Option.bind_some, ← ih _ h.2]
        simp only [apply, write, hrest, List.foldl_cons]
        congr 1
        simp [PreconditionsHold, hc]
      · have hs : PlannedFileChange.apply s change = none := by
          rw [PlannedFileChange.apply, PlannedFileChange.run, if_neg hc]
          rfl
        rw [hs, apply, if_neg fun hp => hc (hp change List.mem_cons_self)]
        rfl

/-- **A valid plan may be applied change by change.** -/
theorem apply_eq_foldlM {plan : ChangePlan D} (s : FileState) (h : plan.validate = .ok ()) :
    plan.apply s = plan.changes.foldlM PlannedFileChange.apply s :=
  apply_eq_foldlM_of_pairwise s (pairwise_path_ne h)

/-- What a valid plan does, path by path. -/
theorem apply_eq_some_iff {plan : ChangePlan D} (h : plan.validate = .ok ()) {s s' : FileState} :
    plan.apply s = some s' ↔ ∀ path, (opsAt PlannedFileChange.path plan.changes path).foldlM
      PlannedFileChange.run (s path) = some (s' path) := by
  rw [apply_eq_foldlM s h]
  exact PlannedFileChange.tracks_apply.foldlM_eq_some_iff Function.injective_id _ _ _

end ChangePlan

variable [DecidableEq D]

/-- The plans applied one after another, each with its preconditions holding
when it is reached. -/
def applyAll (plans : List (ChangePlan D)) (s : FileState) : Option FileState :=
  plans.foldlM ChangePlan.apply s

/-- All changes of a sequence of plans, in order. -/
def allChanges (plans : List (ChangePlan D)) : List (PlannedFileChange D) :=
  plans.flatMap ChangePlan.changes

/-- The changes of a sequence of plans at one path, in order. -/
def changesAt (plans : List (ChangePlan D)) (path : ChangePath) : List (PlannedFileChange D) :=
  opsAt PlannedFileChange.path (allChanges plans) path

theorem applyAll_eq_foldlM {plans : List (ChangePlan D)} (s : FileState)
    (h : ∀ plan ∈ plans, plan.validate = .ok ()) :
    applyAll plans s = (allChanges plans).foldlM PlannedFileChange.apply s := by
  induction plans generalizing s with
  | nil => rfl
  | cons plan plans ih =>
      rw [List.forall_mem_cons] at h
      rw [applyAll, List.foldlM_cons, ChangePlan.apply_eq_foldlM s h.1, allChanges,
        List.flatMap_cons, List.foldlM_append]
      exact bind_congr fun s => ih s h.2

/-- **What a sequence of valid plans does, path by path.** -/
theorem applyAll_eq_some_iff {plans : List (ChangePlan D)}
    (h : ∀ plan ∈ plans, plan.validate = .ok ()) {s s' : FileState} :
    applyAll plans s = some s' ↔
      ∀ path, (changesAt plans path).foldlM PlannedFileChange.run (s path) = some (s' path) := by
  rw [applyAll_eq_foldlM s h]
  exact PlannedFileChange.tracks_apply.foldlM_eq_some_iff Function.injective_id _ _ _

end Mutator
end Hegira
