/-
# Paths of managed transitions

`validate_managed_integrations` tells transitions apart by component, path and
integration, and ownership lets two integrations share a file.  The planner keeps one
owner a path: of two transitions that apply at one path it refuses the second, or leaves
it out when the path has a structured change.

Where every path is claimed under one component and one integration, an accepted graph
has one transition a path, the planner raises no such conflict and plans every
transition (`one_transition_per_path_iff`).  The graph of `sharedPath_conflict` is
accepted and has two integrations in one file.
-/

import Hegira.Mutator.Composition
import Hegira.Mutator.DependencyMatching
import Hegira.Template.UpgradePlanning
import Hegira.Template.UpgradeResolution

namespace Hegira
namespace Template

open Mutator (Bytes ChangePath ChangePlan ContentDigest FileCreation PlannedFileChange
  PlainDigest StructuredFileEdit Table intoBytes manifestToml)
open Validation

/-! ### Distinct identities -/

/-- The transitions of an edge that apply to a composition of it. -/
def applicableTransitions (edge : UpgradeEdgeManifest) (composition : UpgradeCompositionTransition) :
    List ManagedIntegrationTransition :=
  (resolvedUpgradeEdge edge composition).managedIntegrations.filter composition.applies

/-- A transition is accepted when its identity is new. -/
theorem validateApplicable_eq_ok {composition : UpgradeCompositionTransition}
    {seen seen' : Finset (String × String × String)} {transition : ManagedIntegrationTransition}
    (h : validateApplicable composition seen transition = .ok seen') :
    transition.identity ∉ seen ∧ seen' = insert transition.identity seen := by
  simp only [validateApplicable, bind_eq_ok, rejectIf_eq_ok, pure_eq_ok] at h
  obtain ⟨_, hseen, _, -, rfl⟩ := h
  exact ⟨hseen, rfl⟩

/-- No two transitions of an accepted composition have one identity. -/
theorem nodup_identity_of_validateIntegrationsOf {ctx : GraphContext}
    {shared : List ManagedIntegrationTransition} {composition : UpgradeCompositionTransition} {u : Unit}
    (h : validateIntegrationsOf ctx shared composition = .ok u) :
    (((shared ++ composition.managedIntegrations).filter composition.applies).map
      ManagedIntegrationTransition.identity).Nodup := by
  simp only [validateIntegrationsOf, bind_eq_ok, pure_eq_ok] at h
  obtain ⟨_, -, _, -, _, hloop, -⟩ := h
  exact (nodup_of_foldlM_eq_ok
    (fun seen : Finset (String × String × String) => (seen : Set (String × String × String)))
    ManagedIntegrationTransition.identity (fun h => by
      obtain ⟨hnew, hseen⟩ := validateApplicable_eq_ok h
      exact ⟨hnew, by rw [hseen, Finset.coe_insert]⟩) hloop).1

/-- In an accepted graph no two applicable transitions have one identity. -/
theorem nodup_identity {ctx : GraphContext} {edges normalized : List UpgradeEdgeManifest}
    (h : validateUpgradeGraph ctx edges = .ok normalized) {edge : UpgradeEdgeManifest}
    (he : edge ∈ normalized) {composition : UpgradeCompositionTransition}
    (hc : composition ∈ edge.compositions) :
    ((applicableTransitions edge composition).map ManagedIntegrationTransition.identity).Nodup := by
  have hnormalized := (validateUpgradeGraph_eq_ok h).1
  simp only [validateUpgradeGraph, bind_eq_ok, pure_eq_ok] at h
  obtain ⟨_, -, _, -, seen, hloop, -⟩ := h
  have hturn : validateEdge ctx = fun seen edge => validateSortedEdge ctx seen edge.sorted :=
    funext₂ validateEdge_eq
  rw [hturn, ← List.foldlM_map (g := validateSortedEdge ctx), ← hnormalized] at hloop
  obtain ⟨_, _, hedge⟩ := exists_of_foldlM_eq_ok hloop he
  simp only [validateSortedEdge, bind_eq_ok, pure_eq_ok] at hedge
  obtain ⟨_, -, _, -, transitions, hcompositions, _, -, _, -, _, hintegrations, -⟩ := hedge
  have hout := list_of_foldlM_eq_ok SeenCompositions.compositions (fun t => t)
    (fun h => (validateSortedTransition_eq_ok h).2.2) hcompositions
  rw [List.nil_append, List.map_id'] at hout
  rw [hout] at hintegrations
  exact nodup_identity_of_validateIntegrationsOf (forM_eq_ok.1 hintegrations composition hc)

/-! ### Steps that raise no such conflict -/

section Steps

variable {Document D : Type} [ContentDigest D] [DecidableEq D]

/-- The errors of a plan are not conflicts of owners. -/
theorem ensures_planError {α : Type} {Q : α → Prop} {x : Except Mutator.ChangePlanError α}
    (h : ∀ a, x = .ok a → Q a) : Ensures PlanningFailure.IsOther Q (x.mapError planError) := by
  cases x with
  | error e => trivial
  | ok a => exact h a rfl

/-- A missing source is not one either. -/
theorem ensures_requiredSource {source : Option Bytes} :
    Ensures PlanningFailure.IsOther (fun _ => True) (requiredSource source) := by
  cases source <;> trivial

theorem ensures_requiredTarget {target : Option Bytes} :
    Ensures PlanningFailure.IsOther (fun _ => True) (requiredTarget target) := by
  cases target <;> trivial

omit [DecidableEq D] in
/-- A creation is planned at its path. -/
theorem path_of_creation {path : String} {content : Bytes} {creation : FileCreation D}
    (h : FileCreation.new path content = .ok creation) : creation.path.text = path := by
  obtain ⟨_, hpath, h⟩ := bind_eq_ok.1 h
  obtain rfl := pure_eq_ok.1 h
  exact Mutator.ChangePath.text_of_new hpath

theorem path_of_edit {path : String} {observed content : Bytes} {edit : StructuredFileEdit D}
    (h : StructuredFileEdit.new path observed content = .ok edit) : edit.path.text = path := by
  obtain ⟨_, hpath, h⟩ := bind_eq_ok.1 h
  obtain ⟨-, h⟩ := guarded_eq_ok.1 h
  obtain rfl := pure_eq_ok.1 h
  exact Mutator.ChangePath.text_of_new hpath

omit [DecidableEq D] in
theorem path_of_retirement {ownership : SourceOwnership} {path integration : String}
    {observed : Bytes} {retirement : Mutator.ManagedFileRetirement D}
    (h : retireManagedFile ownership path integration observed = .ok retirement) :
    retirement.path.text = path := by
  obtain ⟨_, hpath, h⟩ := bind_eq_ok.1 h
  obtain ⟨_, -, h⟩ := bind_eq_ok.1 h
  obtain ⟨-, h⟩ := guarded_eq_ok.1 h
  obtain rfl := pure_eq_ok.1 h
  exact Mutator.ChangePath.text_of_new hpath

/-- A transition is planned at its own path. -/
theorem ensures_planTransition {ownership : SourceOwnership}
    {transition : ManagedIntegrationTransition} {source target : Option Bytes} :
    Ensures PlanningFailure.IsOther
      (fun change : PlannedFileChange D => change.path.text = transition.path)
      (planTransition ownership transition source target) := by
  rw [planTransition]
  split
  · trivial
  rw [transitionChange]
  split
  · refine ensures_requiredTarget.bind fun target _ _ => ?_
    exact (ensures_planError fun _ => path_of_creation).bind fun _ _ h => h
  · refine ensures_requiredSource.bind fun source _ _ => ?_
    refine ensures_requiredTarget.bind fun target _ _ => ?_
    exact (ensures_planError fun _ => path_of_edit).bind fun _ _ h => h
  · refine ensures_requiredSource.bind fun source _ _ => ?_
    exact (ensures_planError fun _ => path_of_retirement).bind fun _ _ h => h

/-- A removed dependency is not a conflict of owners. -/
theorem ensures_rejectRemoved {formats : Formats Document} {source : Bytes}
    {repository version : String} {targets : List FrameworkDependency} :
    Ensures PlanningFailure.IsOther (fun _ => True)
      (rejectRemovedFrameworkDependencies formats source repository version targets) := by
  rw [rejectRemovedFrameworkDependencies]
  split
  · refine (Ensures.foldlM (I := fun _ _ _ => True) (fun _ entry _ sourceNames _ => ?_)
      trivial).bind fun _ _ _ => ?_
    · rw [addSourceName]
      split
      · trivial
      · exact Ensures.guarded (fun _ => trivial) fun _ => trivial
    · split <;> trivial
  · trivial

/-- Moving dependencies raises no conflict of owners. -/
theorem ensures_moveDependencies {formats : Formats Document} {source target : FrameworkContract}
    {path : String} {original : Bytes} {dependencies : List FrameworkDependency} :
    Ensures PlanningFailure.IsOther (fun _ => True)
      (moveDependencies formats D source target path original dependencies) := by
  refine ensures_rejectRemoved.bind fun _ _ _ => ?_
  refine (Ensures.foldlM (I := fun _ _ _ => True) (fun _ dependency _ current _ => ?_) trivial)
  refine Ensures.bind (P := fun _ => True) ?_ fun outcome _ _ => ?_
  · rw [planRelease]
    split
    · trivial
    · split
      · cases Mutator.planCargoDependency (D := D) formats.toml path current .workspaceDependencies
          (frameworkRelease target dependency) <;> trivial
      · trivial
  · cases outcome <;> trivial

end Steps

/-! ### Drafts -/

section Drafts

variable {Document D : Type} [ContentDigest D] [DecidableEq D]
  {sources : List AuthenticatedManagedSource} {draft : Draft D}

/-- The paths of managed sources. -/
def managedPaths (sources : List AuthenticatedManagedSource) : List String :=
  sources.map fun managed => managed.transition.path

/-- What a draft has is owned by managed sources, and each owner has one change. -/
structure Draft.Tracks (sources : List AuthenticatedManagedSource) (draft : Draft D) : Prop where
  owned : ∀ path owner, draft.owners[path]? = some owner →
    ∃ managed ∈ sources, managed.transition.path = path ∧ owner = managed.transition.owner
  nodup : (draft.changes.map fun change => change.path.text).Nodup
  planned : ∀ path, path ∈ draft.owners ↔ path ∈ draft.changes.map fun change => change.path.text

omit [DecidableEq D] in
/-- The empty draft tracks any sources. -/
theorem tracks_empty : (Draft.empty : Draft D).Tracks sources where
  owned := by simp [Draft.empty]
  nodup := List.nodup_nil
  planned := by simp [Draft.empty]

/-- The draft with a change of a managed source. -/
def Draft.extended (draft : Draft D) (managed : AuthenticatedManagedSource)
    (change : PlannedFileChange D) : Draft D :=
  { draft with
    owners := draft.owners.insert managed.transition.path managed.transition.owner
    changes := draft.changes ++ [change] }

omit [DecidableEq D] in
/-- A change of a path without an owner is added. -/
theorem Draft.add_eq {managed : AuthenticatedManagedSource} {change : PlannedFileChange D}
    (hnew : managed.transition.path ∉ draft.owners) :
    draft.add managed.transition change = .ok (draft.extended managed change) := by
  rw [Draft.add, insertOwner, if_neg hnew]
  rfl

omit [DecidableEq D] in
/-- A draft that gained a managed change still tracks the sources. -/
theorem Draft.Tracks.extended (h : draft.Tracks sources) {managed : AuthenticatedManagedSource}
    (hm : managed ∈ sources) {change : PlannedFileChange D}
    (hpath : change.path.text = managed.transition.path)
    (hnew : managed.transition.path ∉ draft.owners) :
    (draft.extended managed change).Tracks sources where
  owned path owner howner := by
    simp only [Draft.extended, Std.TreeMap.getElem?_insert, Std.compare_eq_iff_eq] at howner
    split at howner
    · next he => exact ⟨managed, hm, he, (Option.some.inj howner).symm⟩
    · exact h.owned path owner howner
  nodup := by
    have hnew := mt (h.planned managed.transition.path).2 hnew
    rw [Draft.extended, List.map_append, List.map_singleton, hpath, ← List.concat_eq_append]
    exact h.nodup.concat hnew
  planned path := by
    simp only [Draft.extended, Std.TreeMap.mem_insert, Std.compare_eq_iff_eq, List.map_append,
      List.mem_append, ← h.planned, List.map_cons, List.map_nil, List.mem_singleton, hpath]
    rw [or_comm, eq_comm]

/-- Where no path has two managed sources, a required one is found without a conflict. -/
theorem ensures_requiredManagedSource {boundary : AuthenticatedUpgradeBoundary}
    (hn : (managedPaths boundary.managedSources).Nodup) {path integration : String} :
    Ensures PlanningFailure.IsOther (fun managed => managed ∈ boundary.managedSources ∧
        managed.transition.path = path ∧ managed.transition.integration = integration)
      (requiredManagedSource boundary path integration) := by
  have hmem (managed : AuthenticatedManagedSource) :
      managed ∈ boundary.managedSources.filter (fun managed =>
        managed.transition.path = path && managed.transition.integration = integration) ↔
        managed ∈ boundary.managedSources ∧
        managed.transition.path = path ∧ managed.transition.integration = integration := by
    simp [List.mem_filter]
  have hpaths : (managedPaths (boundary.managedSources.filter fun managed =>
      managed.transition.path = path && managed.transition.integration = integration)).Nodup :=
    hn.sublist (List.filter_sublist.map _)
  unfold requiredManagedSource
  generalize boundary.managedSources.filter _ = found at hmem hpaths
  match found with
  | [] => trivial
  | [managed] => exact (hmem managed).1 (by simp)
  | first :: second :: rest =>
      have hfirst := (hmem first).1 (by simp)
      have hsecond := (hmem second).1 (by simp)
      have hmem : first.transition.path ∈ managedPaths (second :: rest) := by
        rw [hfirst.2.1, ← hsecond.2.1]
        exact List.mem_cons_self
      exact absurd hmem (List.nodup_cons.1 hpaths).1

omit [DecidableEq D] in
/-- A structured change of a managed source whose path has no owner. -/
theorem Draft.Tracks.addStructured (h : draft.Tracks sources)
    (hs : ∀ path, path ∈ draft.structuredPaths ↔ path ∈ draft.owners)
    {managed : AuthenticatedManagedSource} (hm : managed ∈ sources) {change : PlannedFileChange D}
    (hpath : change.path.text = managed.transition.path)
    (hnew : managed.transition.path ∉ draft.owners) :
    Ensures PlanningFailure.IsOther (fun draft' : Draft D => draft'.Tracks sources ∧
        (∀ path, path ∈ draft'.structuredPaths ↔ path ∈ draft'.owners) ∧
        draft'.owners = draft.owners.insert managed.transition.path managed.transition.owner)
      (draft.addStructured managed.transition.path managed.transition change) := by
  rw [Draft.addStructured, Draft.add_eq hnew]
  have htracks := h.extended hm hpath hnew
  refine ⟨⟨htracks.owned, htracks.nodup, htracks.planned⟩, fun path => ?_, rfl⟩
  simp only [Draft.extended, Finset.mem_insert, Std.TreeMap.mem_insert, Std.compare_eq_iff_eq, hs]
  rw [eq_comm]

/-- After some manifests: their paths are owned, under the integration of dependencies. -/
structure FrameworkDraft (sources : List AuthenticatedManagedSource)
    (past : List (String × List FrameworkDependency)) (draft : Draft D) : Prop where
  tracks : draft.Tracks sources
  structured : ∀ path, path ∈ draft.structuredPaths ↔ path ∈ draft.owners
  framework : ∀ path owner, draft.owners[path]? = some owner →
    owner.integration = frameworkDependenciesIntegration ∧ path ∈ past.map Prod.fst

/-- One manifest keeps the draft, where no two sources share a path. -/
theorem ensures_planFrameworkManifest {formats : Formats Document}
    {boundary : AuthenticatedUpgradeBoundary} (hn : (managedPaths boundary.managedSources).Nodup)
    {past : List (String × List FrameworkDependency)} {entry : String × List FrameworkDependency}
    (hentry : entry.1 ∉ past.map Prod.fst) (h : FrameworkDraft boundary.managedSources past draft) :
    Ensures PlanningFailure.IsOther (FrameworkDraft boundary.managedSources (past ++ [entry]))
      (planFrameworkManifest formats boundary draft entry) := by
  refine (ensures_requiredManagedSource hn).bind fun managed _ ⟨hm, hpath, hintegration⟩ => ?_
  refine Ensures.guarded (fun _ => trivial) fun _ => ?_
  refine ensures_requiredSource.bind fun original _ _ => ?_
  refine ensures_moveDependencies.bind fun current _ _ => ?_
  refine (ensures_planError (Q := fun edit => edit.path.text = entry.1)
    fun _ => path_of_edit).bind fun edit _ hedit => ?_
  have hnew : managed.transition.path ∉ draft.owners := by
    intro howned
    obtain ⟨owner, howner⟩ := Option.isSome_iff_exists.1 (Std.TreeMap.isSome_getElem?_iff_mem.2 howned)
    exact hentry (hpath ▸ (h.framework _ _ howner).2)
  rw [← hpath] at hedit ⊢
  refine (h.tracks.addStructured h.structured hm
    (show (PlannedFileChange.edit edit).path.text = _ from hedit) hnew).mono fun draft' _ hdraft => ?_
  obtain ⟨htracks, hstructured, howners⟩ := hdraft
  refine ⟨htracks, hstructured, fun path owner howner => ?_⟩
  simp only [howners, Std.TreeMap.getElem?_insert, Std.compare_eq_iff_eq] at howner
  split at howner
  · next he =>
      obtain rfl := Option.some.inj howner
      refine ⟨hintegration, ?_⟩
      rw [← he, hpath, List.map_append]
      exact List.mem_append_right _ List.mem_cons_self
  · obtain ⟨hframework, hpast⟩ := h.framework path owner howner
    refine ⟨hframework, ?_⟩
    rw [List.map_append]
    exact List.mem_append_left _ hpast

/-- All the manifests keep it. -/
theorem ensures_planFrameworkDependencies {formats : Formats Document}
    {boundary : AuthenticatedUpgradeBoundary} (hn : (managedPaths boundary.managedSources).Nodup)
    {dependencies : List FrameworkDependency} :
    Ensures PlanningFailure.IsOther
      (FrameworkDraft (D := D) boundary.managedSources (byManifest dependencies).toList)
      (planFrameworkDependencies formats boundary dependencies .empty) := by
  have hkeys : ((byManifest dependencies).toList.map Prod.fst).Nodup := by
    rw [Std.TreeMap.map_fst_toList_eq_keys]
    exact Std.TreeMap.nodup_keys
  refine Ensures.foldlM (I := fun past rest (draft : Draft D) =>
    ((past ++ rest).map Prod.fst).Nodup ∧ FrameworkDraft boundary.managedSources past draft)
    (fun past entry rest draft h => ?_) ⟨hkeys, tracks_empty, by simp [Draft.empty], by simp [Draft.empty]⟩
    |>.mono fun draft _ h => h.2
  have hentry : entry.1 ∉ past.map Prod.fst := by
    have := h.1
    rw [List.map_append, List.nodup_append_comm, List.map_cons] at this
    exact fun hpast => (List.nodup_cons.1 this).1 (List.mem_append_right _ hpast)
  refine (ensures_planFrameworkManifest hn hentry h.2).mono fun draft' _ h' => ⟨?_, h'⟩
  rw [← List.append_cons]
  exact h.1

/-- The manifest of the application has no owner yet: its source is no source of
dependencies. -/
theorem ensures_planApplicationManifest {formats : Formats Document}
    {boundary : AuthenticatedUpgradeBoundary} (hn : (managedPaths boundary.managedSources).Nodup)
    {target : ApplicationManifest} {past : List (String × List FrameworkDependency)}
    (h : FrameworkDraft boundary.managedSources past draft) :
    Ensures PlanningFailure.IsOther (fun draft' : Draft D =>
        draft'.Tracks boundary.managedSources ∧
        ∀ path, path ∈ draft'.structuredPaths ↔ path ∈ draft'.owners)
      (planApplicationManifest formats boundary target draft) := by
  refine (ensures_requiredManagedSource hn).bind fun managed _ ⟨hm, hpath, hintegration⟩ => ?_
  refine Ensures.guarded (fun _ => trivial) fun _ => ?_
  split
  · next target _ =>
      refine (ensures_planError (Q := fun edit => edit.path.text = applicationManifestPath)
        fun _ => path_of_edit).bind fun edit _ hedit => ?_
      have hnew : managed.transition.path ∉ draft.owners := by
        intro howned
        obtain ⟨owner, howner⟩ :=
          Option.isSome_iff_exists.1 (Std.TreeMap.isSome_getElem?_iff_mem.2 howned)
        obtain ⟨other, hother, hsame, rfl⟩ := h.tracks.owned _ _ howner
        obtain rfl : other = managed := List.inj_on_of_nodup_map hn hother hm hsame
        have hframework := (h.framework _ _ howner).1
        exact absurd (hintegration.symm.trans hframework) (by decide)
      rw [← hpath] at hedit ⊢
      exact (h.tracks.addStructured h.structured hm
        (show (PlannedFileChange.edit edit).path.text = _ from hedit) hnew).mono
          fun draft' _ hdraft => ⟨hdraft.1, hdraft.2.1⟩
  · trivial

/-- While the managed sources are planned: owned is what has a structured change, and
what is done. -/
structure ManagedDraft (past rest : List AuthenticatedManagedSource) (draft : Draft D) : Prop where
  tracks : draft.Tracks (past ++ rest)
  structured : ∀ path ∈ draft.structuredPaths, path ∈ draft.owners
  owned : ∀ path ∈ draft.owners, path ∈ draft.structuredPaths ∨ path ∈ managedPaths past
  done : ∀ managed ∈ past, managed.transition.path ∈ draft.owners

/-- One managed source, whose path is new, keeps the draft. -/
theorem ensures_planManagedSource {composition : UpgradeCompositionTransition}
    {past rest : List AuthenticatedManagedSource} {managed : AuthenticatedManagedSource}
    (hn : (managedPaths (past ++ managed :: rest)).Nodup)
    (h : ManagedDraft past (managed :: rest) draft) :
    Ensures PlanningFailure.IsOther (ManagedDraft (past ++ [managed]) rest)
      (planManagedSource composition draft managed) := by
  have happ : past ++ [managed] ++ rest = past ++ managed :: rest := (List.append_cons ..).symm
  have hpaths (path : String) :
      path ∈ managedPaths (past ++ [managed]) ↔
        path ∈ managedPaths past ∨ path = managed.transition.path := by
    simp [managedPaths, List.mem_append]
  rw [planManagedSource]
  split
  · next hstructured =>
      have howned := h.structured _ hstructured
      refine ⟨happ ▸ h.tracks, h.structured, fun path hp => ?_, fun other hother => ?_⟩
      · exact (h.owned path hp).imp_right fun hpast => (hpaths path).2 (.inl hpast)
      · rcases List.mem_append.1 hother with hother | hother
        · exact h.done other hother
        · rwa [List.mem_singleton.1 hother]
  · next hstructured =>
      have hpast : managed.transition.path ∉ managedPaths past := by
        intro hpast
        rw [managedPaths, List.map_append, List.nodup_append] at hn
        exact hn.2.2 _ hpast _ List.mem_cons_self rfl
      have hnew : managed.transition.path ∉ draft.owners := fun howned =>
        (h.owned _ howned).elim hstructured hpast
      refine ensures_planTransition.bind fun change _ hpath => ?_
      rw [Draft.add_eq hnew]
      have htracks := h.tracks.extended (List.mem_append_right _ List.mem_cons_self) hpath hnew
      have hmem (path : String) : path ∈ (draft.extended managed change).owners ↔
          managed.transition.path = path ∨ path ∈ draft.owners := by
        rw [Draft.extended, Std.TreeMap.mem_insert, Std.compare_eq_iff_eq]
      refine ⟨happ ▸ htracks, fun path hp => (hmem path).2 (.inr (h.structured path hp)),
        fun path hp => ?_, fun other hother => (hmem _).2 ?_⟩
      · rcases (hmem path).1 hp with rfl | hp
        · exact .inr ((hpaths _).2 (.inr rfl))
        · exact (h.owned path hp).imp_right fun hpast => (hpaths path).2 (.inl hpast)
      · rcases List.mem_append.1 hother with hother | hother
        · exact .inr (h.done other hother)
        · exact .inl (by rw [List.mem_singleton.1 hother])

/-- The draft of an upgrade: every managed source has its owner. -/
theorem ensures_draftUpgrade {formats : Formats Document}
    {boundary : AuthenticatedUpgradeBoundary} (hn : (managedPaths boundary.managedSources).Nodup)
    {dependencies : List FrameworkDependency} {target : ApplicationManifest} :
    Ensures PlanningFailure.IsOther (fun draft : Draft D =>
        draft.Tracks boundary.managedSources ∧
        ∀ managed ∈ boundary.managedSources, managed.transition.path ∈ draft.owners)
      (draftUpgrade formats boundary dependencies target) := by
  refine (ensures_planFrameworkDependencies hn).bind fun draft _ hdraft => ?_
  refine (ensures_planApplicationManifest hn hdraft).bind fun draft _ ⟨htracks, hstructured⟩ => ?_
  refine (Ensures.foldlM (I := fun past rest (draft : Draft D) =>
    past ++ rest = boundary.managedSources ∧ ManagedDraft past rest draft)
    (fun past managed rest draft h => ?_) ⟨rfl, htracks, fun path => (hstructured path).1,
      fun path hp => .inl ((hstructured path).2 hp), by simp⟩).mono fun draft _ h => ?_
  · obtain ⟨hsources, h⟩ := h
    refine (ensures_planManagedSource (hsources ▸ hn) h).mono fun draft' _ h' => ⟨?_, h'⟩
    rw [← List.append_cons, hsources]
  · obtain ⟨hsources, h⟩ := h
    rw [List.append_nil] at hsources
    have htracks := h.tracks
    rw [List.append_nil] at htracks
    exact ⟨htracks, fun managed hm => h.done managed hm⟩

end Drafts

/-! ### One transition a path -/

/-- What `authenticate_upgrade_source` has read for a composition of an edge. -/
structure AuthenticatedUpgradeBoundary.Follows (boundary : AuthenticatedUpgradeBoundary)
    (edge : UpgradeEdgeManifest) (composition : UpgradeCompositionTransition) : Prop where
  resolved : boundary.edge = resolvedUpgradeEdge edge composition
  transitions : boundary.managedSources.map AuthenticatedManagedSource.transition =
    applicableTransitions edge composition

/-- The applicable transitions have distinct paths; the planner raises no conflict over a
path, and has a change and an owner for every transition. -/
structure PlansEveryTransition (edge : UpgradeEdgeManifest)
    (composition : UpgradeCompositionTransition) : Prop where
  paths : ((applicableTransitions edge composition).map ManagedIntegrationTransition.path).Nodup
  noConflict : ∀ (Document D : Type) [ContentDigest D] [DecidableEq D] (formats : Formats Document)
    (catalog : ManifestCatalog) (boundary : AuthenticatedUpgradeBoundary),
    boundary.Follows edge composition → ∀ error,
      UpgradePlan.fromAuthenticated (D := D) formats catalog boundary ≠ .error (.claimedTwice error)
  complete : ∀ (Document D : Type) [ContentDigest D] [DecidableEq D] (formats : Formats Document)
    (catalog : ManifestCatalog) (boundary : AuthenticatedUpgradeBoundary),
    boundary.Follows edge composition → ∀ plan : UpgradePlan D,
      UpgradePlan.fromAuthenticated formats catalog boundary = .ok plan →
      ∀ transition ∈ applicableTransitions edge composition,
        plan.owners[transition.path]? = some transition.owner ∧
        ∃ change ∈ plan.changePlan.changes, change.path.text = transition.path

/-- Every path is claimed under one component and one integration. -/
def OneClaimPerPath (edge : UpgradeEdgeManifest) (composition : UpgradeCompositionTransition) :
    Prop :=
  ∀ first ∈ applicableTransitions edge composition,
    ∀ second ∈ applicableTransitions edge composition,
      first.path = second.path →
        first.component = second.component ∧ first.integration = second.integration

instance (edge : UpgradeEdgeManifest) (composition : UpgradeCompositionTransition) :
    Decidable (OneClaimPerPath edge composition) :=
  inferInstanceAs (Decidable (∀ first ∈ _, ∀ second ∈ _, _))

/-- Resolving the target's dependencies raises no conflict of owners. -/
theorem ensures_targetFrameworkDependencies {catalog : ManifestCatalog}
    {graph : ResolvedComposition} :
    Ensures PlanningFailure.IsOther (fun _ => True) (targetFrameworkDependencies catalog graph) := by
  rw [targetFrameworkDependencies]
  split
  · refine (Ensures.foldlM (I := fun _ _ _ => True) (fun _ dependency _ _ _ => ?_)
      trivial).bind fun _ _ _ => trivial
    rw [addDependency]
    split <;> trivial
  · trivial

/-- Nor does validating the target's manifest. -/
theorem ensures_validatedTargetManifest {Document : Type} {formats : Formats Document}
    {catalog : ManifestCatalog} {boundary : AuthenticatedUpgradeBoundary} :
    Ensures PlanningFailure.IsOther (fun _ => True)
      (validatedTargetManifest formats catalog boundary) := by
  refine Ensures.bind (P := fun _ => True) ?_ fun graph _ _ => ?_
  · rw [resolveTargetComposition]
    split <;> trivial
  refine Ensures.bind (P := fun _ => True) ?_ fun _ _ _ => ?_
  · rw [rejectComponentRemoval]
    split <;> trivial
  refine ensures_targetFrameworkDependencies.bind fun _ _ _ => ?_
  refine Ensures.bind (P := fun _ => True) ?_ fun target _ _ => ?_
  · rw [targetManifest]
    split <;> trivial
  · exact Ensures.guarded (fun _ => trivial) fun _ => trivial

/-- With one managed source a path, a plan owns and changes the path of each. -/
theorem ensures_fromAuthenticated {Document D : Type} [ContentDigest D] [DecidableEq D]
    {formats : Formats Document} {catalog : ManifestCatalog}
    {boundary : AuthenticatedUpgradeBoundary} (hn : (managedPaths boundary.managedSources).Nodup) :
    Ensures PlanningFailure.IsOther (fun plan : UpgradePlan D =>
        ∀ managed ∈ boundary.managedSources,
          plan.owners[managed.transition.path]? = some managed.transition.owner ∧
          ∃ change ∈ plan.changePlan.changes, change.path.text = managed.transition.path)
      (UpgradePlan.fromAuthenticated formats catalog boundary) := by
  refine ensures_validatedTargetManifest.bind fun ⟨graph, target⟩ _ _ => ?_
  refine ensures_targetFrameworkDependencies.bind fun dependencies _ _ => ?_
  refine (ensures_draftUpgrade hn).bind fun draft _ ⟨htracks, hdone⟩ => ?_
  have hpaths : (draft.changes.map PlannedFileChange.path).Nodup :=
    List.Nodup.of_map ChangePath.text (by rw [List.map_map]; exact htracks.nodup)
  obtain ⟨plan, hplan⟩ := Mutator.ChangePlan.exists_new_eq_ok hpaths
  rw [hplan]
  intro managed hm
  obtain ⟨owner, howner⟩ := Option.isSome_iff_exists.1
    (Std.TreeMap.isSome_getElem?_iff_mem.2 (hdone managed hm))
  obtain ⟨other, hother, hsame, rfl⟩ := htracks.owned _ _ howner
  obtain rfl : other = managed := List.inj_on_of_nodup_map hn hother hm hsame
  obtain ⟨change, hchange, hpath⟩ := List.mem_map.1 ((htracks.planned _).1 (hdone other hm))
  exact ⟨howner, change, ((Mutator.ChangePlan.new_eq_ok hplan).2 change).2 hchange, hpath⟩

/-- **One transition a path.**  In an accepted graph the transitions that apply to a
composition have distinct paths, and the planner raises no conflict over a path and plans
each of them, exactly where every path is claimed under one component and one
integration. -/
theorem one_transition_per_path_iff (ctx : GraphContext)
    (edges normalized : List UpgradeEdgeManifest)
    (h : validateUpgradeGraph ctx edges = .ok normalized) (edge : UpgradeEdgeManifest)
    (he : edge ∈ normalized) (composition : UpgradeCompositionTransition)
    (hc : composition ∈ edge.compositions) :
    PlansEveryTransition edge composition ↔ OneClaimPerPath edge composition := by
  constructor
  · intro hplans first hfirst second hsecond hpath
    obtain rfl : first = second := List.inj_on_of_nodup_map hplans.paths hfirst hsecond hpath
    exact ⟨rfl, rfl⟩
  · intro hclaim
    have hidentities := nodup_identity h he hc
    have hpaths : ((applicableTransitions edge composition).map
        ManagedIntegrationTransition.path).Nodup := by
      refine (List.nodup_map_iff_inj_on (.of_map _ hidentities)).2 fun t ht t' ht' hpath => ?_
      obtain ⟨hcomponent, hintegration⟩ := hclaim t ht t' ht' hpath
      exact List.inj_on_of_nodup_map hidentities ht ht' (by
        rw [ManagedIntegrationTransition.identity, hcomponent, hpath, hintegration]
        rfl)
    have hmanaged {boundary : AuthenticatedUpgradeBoundary}
        (hfollows : boundary.Follows edge composition) :
        (managedPaths boundary.managedSources).Nodup := by
      have hmap : managedPaths boundary.managedSources = (boundary.managedSources.map
          AuthenticatedManagedSource.transition).map ManagedIntegrationTransition.path :=
        (List.map_map ..).symm
      rw [hmap, hfollows.transitions]
      exact hpaths
    refine ⟨hpaths, fun _ D _ _ formats catalog boundary hfollows error herror => ?_,
      fun _ D _ _ formats catalog boundary hfollows plan hplan transition ht => ?_⟩
    · exact (ensures_fromAuthenticated (hmanaged hfollows)).of_eq_error herror
    · rw [← hfollows.transitions] at ht
      obtain ⟨managed, hm, rfl⟩ := List.mem_map.1 ht
      exact (ensures_fromAuthenticated (hmanaged hfollows)).of_eq_ok hplan managed hm

/-! #### Two integrations in one file -/

def contentDigest (digit : Char) : String := "sha256:" ++ String.ofList (List.replicate 64 digit)

/-- An edit of a file of the base component. -/
def baseEdit (path integration : String) : ManagedIntegrationTransition where
  component := "layered-base"
  path := path
  integration := integration
  kind := .edit
  sourceSha256 := some (contentDigest 'a')
  targetSha256 := some (contentDigest 'b')

def routesEdit : ManagedIntegrationTransition :=
  baseEdit "apps/server/src/server.rs" "resource-bearer-routes"

def contextsEdit : ManagedIntegrationTransition :=
  baseEdit "apps/server/src/server.rs" "resource-leptos-contexts"

def manifestEdit : ManagedIntegrationTransition := baseEdit "hegira.toml" "application-manifest"

/-- The claims of the transitions. -/
def ownershipOf (transitions : List ManagedIntegrationTransition) : SourceOwnership :=
  ⟨.applicationOwned,
    transitions.map fun t => ⟨t.path, .managedIntegration, some t.integration⟩⟩

/-- A composition that stays, with edits of its files. -/
def editState (id : String) (state : UpgradeCompositionState)
    (transitions : List ManagedIntegrationTransition) : UpgradeCompositionTransition :=
  { keepState id state with
    sourceOwnership := ownershipOf transitions
    targetOwnership := ownershipOf transitions
    manifestTransitions := some [.framework, .package, .components]
    managedIntegrations := transitions }

/-- One file has two integrations in the second composition. -/
def serverEdge : UpgradeEdgeManifest :=
  releaseEdge [editState "identity" identityState [routesEdit, manifestEdit],
    editState "minimal" minimalState [routesEdit, contextsEdit, manifestEdit]]

def serverContext : GraphContext :=
  { releaseContext with
    componentPaths := (∅ : Std.TreeMap (String ×ₗ String) String).insertMany
      [(toLex ("layered-base", "apps/server/src/server.rs"), contentDigest 'b'),
        (toLex ("layered-base", "hegira.toml"), contentDigest 'b')] }

/-- The edge of the example is in order. -/
theorem sorted_serverEdge : serverEdge.sorted = serverEdge := by decide +kernel

/-- Its transitions are accepted. -/
theorem validateSortedTransition_server :
    serverEdge.compositions.foldlM
      (validateSortedTransition serverContext (releaseOf "v0.6.0")) (seenAfter []) =
        .ok (seenAfter serverEdge.compositions) := by
  have hcomposition (state) (h : state ∈ [identityState, minimalState]) :
      validateComposition serverContext state true = .ok () := validateComposition_release state h
  have hidentity : validateSortedTransition serverContext (releaseOf "v0.6.0") (seenAfter [])
      (editState "identity" identityState [routesEdit, manifestEdit]) =
        .ok (seenAfter [editState "identity" identityState [routesEdit, manifestEdit]]) := by
    rw [validateSortedTransition, show (editState "identity" identityState
      [routesEdit, manifestEdit]).target = identityState from rfl, hcomposition _ (by simp)]
    decide +kernel
  have hminimal : validateSortedTransition serverContext (releaseOf "v0.6.0")
      (seenAfter [editState "identity" identityState [routesEdit, manifestEdit]])
      (editState "minimal" minimalState [routesEdit, contextsEdit, manifestEdit]) =
        .ok (seenAfter serverEdge.compositions) := by
    rw [validateSortedTransition, show (editState "minimal" minimalState
      [routesEdit, contextsEdit, manifestEdit]).target = minimalState from rfl,
      hcomposition _ (by simp)]
    decide +kernel
  exact foldlM_cons_eq_ok.2 ⟨_, hidentity, foldlM_cons_eq_ok.2 ⟨_, hminimal, rfl⟩⟩

/-- The graph of that edge is accepted. -/
theorem validateUpgradeGraph_server :
    validateUpgradeGraph serverContext [serverEdge] = .ok [serverEdge] := by
  have hedge : validateSortedEdge serverContext ⟨∅, ∅, ∅, []⟩ serverEdge = .ok {
      ids := {"minor"}
      releasePairs := {("v0.6.0", "v0.7.0")}
      sourceStates := (seenAfter serverEdge.compositions).sourceStates
      edges := [serverEdge] } := by
    have hloop : serverEdge.compositions.foldlM
        (validateSortedTransition serverContext serverEdge.source) ⟨∅, ∅, []⟩ =
          .ok (seenAfter serverEdge.compositions) := validateSortedTransition_server
    rw [validateSortedEdge, hloop]
    decide +kernel
  have hloop : [serverEdge].foldlM (validateEdge serverContext) ⟨∅, ∅, ∅, []⟩ = _ :=
    foldlM_cons_eq_ok.2 ⟨_, (validateEdge_eq _ _).trans (sorted_serverEdge.symm ▸ hedge), rfl⟩
  rw [validateUpgradeGraph,
    show Arrangement.sortBy UpgradeEdgeManifest.id [serverEdge] = [serverEdge] from rfl, hloop]
  decide +kernel

/-- The composition whose server file has two integrations. -/
def sharedFile : UpgradeCompositionTransition :=
  editState "minimal" minimalState [routesEdit, contextsEdit, manifestEdit]

/-- The head of the text of a manifest. -/
def manifestHead (manifest : ApplicationManifest) : String :=
  "schema = 3\napplication = \"" ++ manifest.application ++ "\"\n\n[framework]\nrepository = \"" ++
    manifest.framework.repository ++ "\"\nversion = \"" ++ manifest.framework.version ++ "\"\n"

def serverFormats : Formats Table where
  toml := manifestToml
  table text := manifestToml.parse text
  toToml manifest := some (manifestHead manifest)

def serverCatalog : ManifestCatalog := ⟨some releaseContext.package, hegiraComponents⟩

def serverApplication : ApplicationManifest where
  schema := 3
  application := "orders"
  framework := ⟨hegiraFrameworkRepository, "v0.6.0"⟩
  selection := ⟨∅, {.postgres}, {.leptos}⟩
  composition := some ⟨⟨"hegira-canonical", "v0.6.0"⟩, [⟨"layered-base", "v0.6.0"⟩], [], ∅⟩
  upgrade := some ⟨⟨hegiraFrameworkRepository, "v0.6.0"⟩, ⟨"hegira-canonical", "v0.6.0"⟩,
    ownershipOf [routesEdit, contextsEdit, manifestEdit]⟩

/-- The files of the application, each as found and as the package has it. -/
def serverBoundary : AuthenticatedUpgradeBoundary where
  application := serverApplication
  manifestSource := intoBytes (manifestHead serverApplication)
  edge := resolvedUpgradeEdge serverEdge sharedFile
  sourcePackageDigest := serverEdge.sourcePackageDigest
  sourceBaselineDigest := sharedFile.sourceBaselineDigest
  managedSources :=
    [⟨routesEdit, some [97], some [98]⟩, ⟨contextsEdit, some [97], some [98]⟩,
      ⟨manifestEdit, some (intoBytes (manifestHead serverApplication)), some [98]⟩]

/-- The composition of the base component alone. -/
def baseGraph : ResolvedComposition where
  schema := 1
  framework := releaseContext.package.framework
  package := ⟨"hegira-canonical", "v0.7.0"⟩
  components := [⟨"layered-base", "v0.7.0", [], ["layered-leptos-identity"], [], [], [], none⟩]
  modules := []
  capabilities := ∅

/-- Its target composition resolves. -/
theorem resolveTargetComposition_server :
    resolveTargetComposition serverCatalog serverBoundary.edge = .ok baseGraph := by
  obtain ⟨search, hs, hreports, hordered⟩ : ∃ search,
      visitRoots 3 hegiraComponents (collectRoots ["layered-base"]).1 = some search ∧
        search.reports = [] ∧ search.ordered = ["layered-base"] :=
    exists_visitRoots_eq (show _ = ["layered-base"].toFinset by decide) (by decide) (by decide) (by decide)
  have hresolve : resolve 3 releaseContext.package hegiraComponents
      (recordedRequest serverBoundary.edge) = _ := resolve_eq hs
  have hconclude : conclude releaseContext.package hegiraComponents
      (recordedRequest serverBoundary.edge)
      (compatibilityDiagnostics releaseContext.package (recordedRequest serverBoundary.edge) ++
        (collectRoots ["layered-base"]).2 ++ []) ["layered-base"] = .ok baseGraph := by decide +kernel
  rw [hreports, hordered] at hresolve
  have hresolved : (serverCatalog.package.bind fun package =>
      resolve (serverCatalog.components.size + 1) package serverCatalog.components
        (recordedRequest serverBoundary.edge)) = some (.ok baseGraph) :=
    hresolve.trans (congrArg some hconclude)
  rw [resolveTargetComposition, hresolved]

/-- The manifest of the application after the upgrade. -/
def serverTarget : ApplicationManifest :=
  { serverApplication with
    framework := ⟨hegiraFrameworkRepository, "v0.7.0"⟩
    composition := some ⟨⟨"hegira-canonical", "v0.7.0"⟩, [⟨"layered-base", "v0.7.0"⟩], [], ∅⟩
    upgrade := some ⟨⟨hegiraFrameworkRepository, "v0.7.0"⟩, ⟨"hegira-canonical", "v0.7.0"⟩,
      ownershipOf [routesEdit, contextsEdit, manifestEdit]⟩ }

/-- Its plan fails on the path that two transitions share. -/
theorem fromAuthenticated_server :
    UpgradePlan.fromAuthenticated (D := PlainDigest) serverFormats serverCatalog serverBoundary =
      .error (.claimedTwice ⟨.conflict, "apps/server/src/server.rs"⟩) := by
  have hdependencies : targetFrameworkDependencies serverCatalog baseGraph = .ok [] := by
    decide +kernel
  have htarget : validatedTargetManifest serverFormats serverCatalog serverBoundary =
      .ok (baseGraph, serverTarget) :=
    bind_eq_ok.2 ⟨_, resolveTargetComposition_server, bind_eq_ok.2 ⟨(), by decide +kernel,
      bind_eq_ok.2 ⟨_, hdependencies, bind_eq_ok.2 ⟨serverTarget, by decide +kernel,
        by decide +kernel⟩⟩⟩⟩
  have hdraft : draftUpgrade (D := PlainDigest) serverFormats serverBoundary [] serverTarget =
      .error (.claimedTwice ⟨.conflict, "apps/server/src/server.rs"⟩) := by
    have hmap : (draftUpgrade (D := PlainDigest) serverFormats serverBoundary [] serverTarget).map
        (fun _ => ()) = .error (.claimedTwice ⟨.conflict, "apps/server/src/server.rs"⟩) := by
      decide +kernel
    exact map_eq_error.1 hmap
  simp only [UpgradePlan.fromAuthenticated, htarget, hdependencies, hdraft, bind, Except.bind]

/-- The accepted graph in which one file has two integrations, and the conflict of the
planner. -/
theorem sharedPath_conflict :
    validateUpgradeGraph serverContext [serverEdge] = .ok [serverEdge] ∧
    sharedFile ∈ serverEdge.compositions ∧
    ¬((applicableTransitions serverEdge sharedFile).map ManagedIntegrationTransition.path).Nodup ∧
    serverBoundary.Follows serverEdge sharedFile ∧
    UpgradePlan.fromAuthenticated (D := PlainDigest) serverFormats serverCatalog serverBoundary =
      .error (.claimedTwice ⟨.conflict, "apps/server/src/server.rs"⟩) :=
  ⟨validateUpgradeGraph_server, List.mem_cons_of_mem _ List.mem_cons_self, by decide +kernel,
    ⟨rfl, by decide +kernel⟩, fromAuthenticated_server⟩

/-- The other composition of the graph has one integration a file. -/
theorem one_transition_per_path_iff_identity :
    PlansEveryTransition serverEdge
      (editState "identity" identityState [routesEdit, manifestEdit]) :=
  (one_transition_per_path_iff serverContext [serverEdge] [serverEdge] validateUpgradeGraph_server
    serverEdge List.mem_cons_self _ List.mem_cons_self).2 (by decide +kernel)

end Template
end Hegira
