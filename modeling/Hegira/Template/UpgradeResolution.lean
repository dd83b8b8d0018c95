/-
# Upgrade resolution is total and unambiguous

`validate_upgrade_graph` tells the edges of a package apart by their release pairs and
the compositions of an edge by their source keys, and `resolve_upgrade_edge` takes the
first that is equal to the request.  An accepted graph has one edge for a source release
and one composition of it for a source state, so the first is the only one
(`upgrade_graph_resolves`); and what is accepted, with its normal form, does not depend
on the order in which the lists are written (`UpgradeEdgeManifest.Rearranged`).
-/

import Hegira.Library.Validation
import Hegira.Template.Resolution
import Hegira.Template.UpgradeGraph

namespace Hegira
namespace Template

open Arrangement (Rearranged sortBy)
open Validation (bind_eq_ok pure_eq_ok mapError_eq_ok)

/-! ### Rearrangements -/

/-- The same claims in another order. -/
structure SourceOwnership.Rearranged (o o' : SourceOwnership) : Prop where
  default : o.default = o'.default
  claims : o.claims.Perm o'.claims

/-- The same composition with its lists in another order. -/
structure UpgradeCompositionTransition.Rearranged (t t' : UpgradeCompositionTransition) :
    Prop where
  id : t.id = t'.id
  sourceBaselineDigest : t.sourceBaselineDigest = t'.sourceBaselineDigest
  sourceOwnership : t.sourceOwnership.Rearranged t'.sourceOwnership
  targetOwnership : t.targetOwnership.Rearranged t'.targetOwnership
  source : t.source = t'.source
  target : t.target = t'.target
  manifestTransitions : Option.Rel List.Perm t.manifestTransitions t'.manifestTransitions
  managedIntegrations : t.managedIntegrations.Perm t'.managedIntegrations

/-- The same edge with its lists in another order. -/
structure UpgradeEdgeManifest.Rearranged (e e' : UpgradeEdgeManifest) : Prop where
  schema : e.schema = e'.schema
  id : e.id = e'.id
  sourcePackageDigest : e.sourcePackageDigest = e'.sourcePackageDigest
  source : e.source = e'.source
  target : e.target = e'.target
  compositions : Arrangement.Rearranged UpgradeCompositionTransition.Rearranged
    e.compositions e'.compositions
  manifestTransitions : e.manifestTransitions.Perm e'.manifestTransitions
  managedIntegrations : e.managedIntegrations.Perm e'.managedIntegrations

/-- Being rearranged is symmetric. -/
theorem rel_symm {a b : Option (List UpgradeManifestTransition)} (h : Option.Rel List.Perm a b) :
    Option.Rel List.Perm b a := by
  cases h with
  | some hp => exact .some hp.symm
  | none => exact .none

/-- Rearranged lists are sorted to the same list. -/
theorem map_sortBy_of_rel {a b : Option (List UpgradeManifestTransition)}
    (h : Option.Rel List.Perm a b) :
    a.map (sortBy fun value => value) = b.map (sortBy fun value => value) := by
  cases h with
  | some hp => exact congrArg some (Arrangement.sortBy_eq_of_injective Function.injective_id hp)
  | none => rfl

theorem SourceOwnership.Rearranged.symm {o o' : SourceOwnership} (h : o.Rearranged o') :
    o'.Rearranged o :=
  ⟨h.default.symm, h.claims.symm⟩

theorem UpgradeCompositionTransition.Rearranged.symm {t t' : UpgradeCompositionTransition}
    (h : t.Rearranged t') : t'.Rearranged t where
  id := h.id.symm
  sourceBaselineDigest := h.sourceBaselineDigest.symm
  sourceOwnership := h.sourceOwnership.symm
  targetOwnership := h.targetOwnership.symm
  source := h.source.symm
  target := h.target.symm
  manifestTransitions := rel_symm h.manifestTransitions
  managedIntegrations := h.managedIntegrations.symm

theorem UpgradeEdgeManifest.Rearranged.symm {e e' : UpgradeEdgeManifest} (h : e.Rearranged e') :
    e'.Rearranged e where
  schema := h.schema.symm
  id := h.id.symm
  sourcePackageDigest := h.sourcePackageDigest.symm
  source := h.source.symm
  target := h.target.symm
  compositions := h.compositions.symm fun _ _ => UpgradeCompositionTransition.Rearranged.symm
  manifestTransitions := h.manifestTransitions.symm
  managedIntegrations := h.managedIntegrations.symm

/-! ### One normal form -/

/-- A claim is its sort key. -/
theorem SourceOwnershipClaim.sortKey_injective : Function.Injective SourceOwnershipClaim.sortKey := by
  rintro ⟨p, c, i⟩ ⟨p', c', i'⟩ h
  cases h
  rfl

theorem ManagedIntegrationTransition.sortKey_injective :
    Function.Injective ManagedIntegrationTransition.sortKey := by
  rintro ⟨⟩ ⟨⟩ h
  cases h
  rfl

/-- Rearranged ownerships are sorted to the same one. -/
theorem SourceOwnership.Rearranged.sorted_eq {o o' : SourceOwnership} (h : o.Rearranged o') :
    o.sorted = o'.sorted := by
  rw [SourceOwnership.sorted, SourceOwnership.sorted, h.default,
    Arrangement.sortBy_eq_of_injective SourceOwnershipClaim.sortKey_injective h.claims]

theorem UpgradeCompositionTransition.Rearranged.sorted_eq {t t' : UpgradeCompositionTransition}
    (h : t.Rearranged t') : t.sorted = t'.sorted := by
  have hmanaged := Arrangement.sortBy_eq_of_injective
    ManagedIntegrationTransition.sortKey_injective h.managedIntegrations
  rw [UpgradeCompositionTransition.sorted, UpgradeCompositionTransition.sorted,
    map_sortBy_of_rel h.manifestTransitions, hmanaged,
    h.sourceOwnership.sorted_eq, h.targetOwnership.sorted_eq, h.id, h.sourceBaselineDigest,
    h.source, h.target]

/-- The compositions of an edge tell one normal form from another by their ids. -/
theorem UpgradeEdgeManifest.Rearranged.sorted_eq {e e' : UpgradeEdgeManifest} (h : e.Rearranged e')
    (hn : (e.compositions.map UpgradeCompositionTransition.id).Nodup) : e.sorted = e'.sorted := by
  have hcompositions := Arrangement.sortBy_map_eq (f := UpgradeCompositionTransition.sorted)
    (fun _ => rfl) h.compositions (fun _ _ _ => UpgradeCompositionTransition.Rearranged.sorted_eq) hn
  have hmanifest : sortBy (fun value => value) e.manifestTransitions =
      sortBy (fun value => value) e'.manifestTransitions :=
    Arrangement.sortBy_eq_of_injective Function.injective_id h.manifestTransitions
  have hmanaged := Arrangement.sortBy_eq_of_injective
    ManagedIntegrationTransition.sortKey_injective h.managedIntegrations
  rw [UpgradeEdgeManifest.sorted, UpgradeEdgeManifest.sorted, hcompositions, hmanifest, hmanaged,
    h.schema, h.id, h.sourcePackageDigest, h.source, h.target]

/-- Sorting rearranges. -/
theorem SourceOwnership.rearranged_sorted (o : SourceOwnership) : o.Rearranged o.sorted :=
  ⟨rfl, (Arrangement.sortBy_perm ..).symm⟩

theorem UpgradeCompositionTransition.rearranged_sorted (t : UpgradeCompositionTransition) :
    t.Rearranged t.sorted where
  id := rfl
  sourceBaselineDigest := rfl
  sourceOwnership := t.sourceOwnership.rearranged_sorted
  targetOwnership := t.targetOwnership.rearranged_sorted
  source := rfl
  target := rfl
  manifestTransitions := by
    obtain ⟨_, _, _, _, _, _, manifestTransitions, _⟩ := t
    cases manifestTransitions with
    | some _ => exact .some (Arrangement.sortBy_perm ..).symm
    | none => exact .none
  managedIntegrations := (Arrangement.sortBy_perm ..).symm

theorem UpgradeEdgeManifest.rearranged_sorted (e : UpgradeEdgeManifest) : e.Rearranged e.sorted where
  schema := rfl
  id := rfl
  sourcePackageDigest := rfl
  source := rfl
  target := rfl
  compositions := ⟨_, (Arrangement.sortBy_perm ..).symm, List.forall₂_map_right_iff.2
    (List.forall₂_same.2 fun t _ => t.rearranged_sorted)⟩
  manifestTransitions := (Arrangement.sortBy_perm ..).symm
  managedIntegrations := (Arrangement.sortBy_perm ..).symm

/-! ### An edge and its normal form -/

variable {ctx : GraphContext}

/-- The turn of the loop over the edges, for an edge whose lists are in order. -/
def validateSortedEdge (ctx : GraphContext) (seen : SeenEdges) (edge : UpgradeEdgeManifest) :
    Except Fault SeenEdges := do
  validateIdentity ctx seen edge
  validateSizes edge
  let transitions ← edge.compositions.foldlM (validateSortedTransition ctx edge.source)
    ⟨∅, seen.sourceStates, []⟩
  rejectRepeats edge.manifestTransitions
  validateManagedIntegrations ctx edge.managedIntegrations
  transitions.compositions.forM (validateIntegrationsOf ctx edge.managedIntegrations)
  return {
    ids := insert edge.id seen.ids
    releasePairs := insert edge.releasePair seen.releasePairs
    sourceStates := transitions.sourceStates
    edges := seen.edges ++ [{ edge with compositions := transitions.compositions }] }

/-- Sorting keeps the number of integrations. -/
theorem integrationCount_sorted (edge : UpgradeEdgeManifest) :
    edge.sorted.integrationCount = edge.integrationCount := by
  have hlengths : (edge.sorted.compositions.map fun c => c.managedIntegrations.length).Perm
      (edge.compositions.map fun c => c.managedIntegrations.length) := by
    rw [UpgradeEdgeManifest.sorted, List.map_map]
    refine ((Arrangement.sortBy_perm ..).map _).trans (.of_eq (List.map_congr_left fun c _ => ?_))
    exact Arrangement.length_sortBy ..
  rw [UpgradeEdgeManifest.integrationCount, UpgradeEdgeManifest.integrationCount, hlengths.sum_nat]
  exact congrArg (· + _) (Arrangement.length_sortBy ..)

/-- So it keeps the check of the sizes. -/
theorem validateSizes_sorted (edge : UpgradeEdgeManifest) :
    validateSizes edge.sorted = validateSizes edge := by
  have hlength : edge.sorted.compositions.length = edge.compositions.length := by
    rw [UpgradeEdgeManifest.sorted, List.length_map, Arrangement.length_sortBy]
  have hempty : edge.sorted.compositions.isEmpty = edge.compositions.isEmpty := by
    rw [UpgradeEdgeManifest.sorted, List.isEmpty_map]
    exact (Arrangement.sortBy_perm ..).isEmpty_eq
  rw [validateSizes, validateSizes, hempty, hlength, integrationCount_sorted]

/-- The loop reads of an edge what its normal form says. -/
theorem validateEdge_eq (seen : SeenEdges) (edge : UpgradeEdgeManifest) :
    validateEdge ctx seen edge = validateSortedEdge ctx seen edge.sorted := by
  have hloop (s : SeenCompositions) :
      edge.sorted.compositions.foldlM (validateSortedTransition ctx edge.source) s =
        (sortBy UpgradeCompositionTransition.id edge.compositions).foldlM
          (validateTransition ctx edge.source) s := by
    rw [UpgradeEdgeManifest.sorted, List.foldlM_map]
    rfl
  rw [validateSortedEdge, validateSizes_sorted]
  simp only [show edge.sorted.source = edge.source from rfl, hloop]
  rfl

/-- What a composition that passes says of what the loop has seen. -/
theorem validateSortedTransition_eq_ok {release : UpgradeReleaseIdentity} {seen seen' : SeenCompositions}
    {transition : UpgradeCompositionTransition}
    (h : validateSortedTransition ctx release seen transition = .ok seen') :
    (transition.id ∉ seen.ids ∧ seen'.ids = insert transition.id seen.ids) ∧
    (compositionKey release transition.source ∉ seen.sourceStates ∧
      seen'.sourceStates = insert (compositionKey release transition.source) seen.sourceStates) ∧
    seen'.compositions = seen.compositions ++ [transition] := by
  simp only [validateSortedTransition, bind_eq_ok, rejectIf_eq_ok, pure_eq_ok] at h
  obtain ⟨-, -, -, -, -, hid, -, -, -, -, -, -, -, -, -, -, -, -, -, hkey, rfl⟩ := h
  exact ⟨⟨hid, rfl⟩, ⟨hkey, rfl⟩, rfl⟩

/-- `target` is the next patch, minor or major release after `source`. -/
def Version.Precedes (source target : Version) : Prop :=
  (target.major = source.major ∧ target.minor = source.minor ∧
      target.patch.toNat = source.patch.toNat + 1) ∨
    (target.major = source.major ∧ target.minor.toNat = source.minor.toNat + 1 ∧
      target.patch = 0) ∨
    (target.major.toNat = source.major.toNat + 1 ∧ target.minor = 0 ∧ target.patch = 0)

/-- The releases of an edge follow each other. -/
def DirectlyPrecedes (parsers : Parsers) (source target : UpgradeReleaseIdentity) : Prop :=
  ∃ s t, releaseVersion parsers source.framework.version = some s ∧
    releaseVersion parsers target.framework.version = some t ∧ s.Precedes t

/-- The successor that does not overflow. -/
theorem checkedSucc_eq_some {n m : UInt64} : checkedSucc n = some m ↔ m.toNat = n.toNat + 1 := by
  rw [checkedSucc]
  split
  · next h =>
      have hsucc : (n + 1).toNat = n.toNat + 1 := by
        rw [UInt64.toNat_add]
        exact Nat.mod_eq_of_lt h
      rw [Option.some.injEq, ← UInt64.toNat_inj, hsucc, eq_comm]
  · next h =>
      have := m.toNat_lt_size
      exact ⟨nofun, fun hm => absurd (hm ▸ this) h⟩

/-- A step is direct when the target is a next version. -/
theorem isDirect_iff {source target : Version} : isDirect source target ↔ source.Precedes target := by
  simp only [isDirect, Version.Precedes, Bool.or_eq_true, Bool.and_eq_true, beq_iff_eq,
    checkedSucc_eq_some, and_assoc, or_assoc]

/-- A release that parses is a version. -/
theorem parseRelease_eq_ok {parsers : Parsers} {value : String} {version : Version} :
    parseRelease parsers value = .ok version ↔ releaseVersion parsers value = some version := by
  rw [parseRelease]
  cases releaseVersion parsers value <;> simp

/-- An accepted pair of releases is one direct step. -/
theorem validateDirectRelease_eq_ok {parsers : Parsers} {source target : UpgradeReleaseIdentity}
    {u : Unit} (h : validateDirectRelease parsers source target = .ok u) :
    DirectlyPrecedes parsers source target := by
  simp only [validateDirectRelease, bind_eq_ok, rejectIf_eq_ok, parseRelease_eq_ok,
    Bool.not_eq_true', Bool.not_eq_false, isDirect_iff] at h
  obtain ⟨s, hs, t, ht, hdirect⟩ := h
  exact ⟨s, t, hs, ht, hdirect⟩

/-- What an accepted release says of its package. -/
theorem validateReleaseIdentity_eq_ok {release : UpgradeReleaseIdentity} {target : Bool} {u : Unit}
    (h : validateReleaseIdentity ctx release target = .ok u) :
    release.framework.repository = ctx.package.framework.repository ∧
      release.package = ⟨ctx.package.id, release.framework.version⟩ ∧
      (target = true → release.framework.version = ctx.package.framework.version ∧
        release.package.version = ctx.package.version) := by
  simp only [validateReleaseIdentity, bind_eq_ok, rejectIf_eq_ok, ne_eq, Bool.or_eq_true,
    Bool.and_eq_true, decide_eq_true_eq, not_or, not_not, not_and] at h
  obtain ⟨-, -, -, -, -, ⟨⟨hrepository, hid⟩, hversion⟩, htarget⟩ := h
  refine ⟨hrepository, ?_, htarget⟩
  rw [hversion, ← hid]

/-- What an accepted edge is, whatever the loop has seen. -/
structure UpgradeEdgeManifest.Accepted (ctx : GraphContext) (edge : UpgradeEdgeManifest) :
    Prop where
  source_framework : edge.source.framework.repository = ctx.package.framework.repository
  source_package : edge.source.package = ⟨ctx.package.id, edge.source.framework.version⟩
  target : edge.target = ⟨ctx.package.framework, ⟨ctx.package.id, ctx.package.version⟩⟩
  direct : DirectlyPrecedes ctx.parsers edge.source edge.target
  ids : (edge.compositions.map UpgradeCompositionTransition.id).Nodup
  sources : (edge.compositions.map UpgradeCompositionTransition.source).Nodup

/-- What an edge that passes says, and what the loop has seen after it. -/
theorem validateSortedEdge_eq_ok {seen seen' : SeenEdges} {edge : UpgradeEdgeManifest}
    (h : validateSortedEdge ctx seen edge = .ok seen') :
    edge.Accepted ctx ∧
    (edge.id ∉ seen.ids ∧ seen'.ids = insert edge.id seen.ids) ∧
    (edge.releasePair ∉ seen.releasePairs ∧
      seen'.releasePairs = insert edge.releasePair seen.releasePairs) ∧
    seen'.edges = seen.edges ++ [edge] := by
  simp only [validateSortedEdge, bind_eq_ok, pure_eq_ok] at h
  obtain ⟨_, hidentity, _, -, transitions, hloop, _, -, _, -, _, -, rfl⟩ := h
  simp only [validateIdentity, bind_eq_ok, rejectIf_eq_ok] at hidentity
  obtain ⟨_, -, _, -, _, hid, _, hsource, _, htarget, _, hdirect, _, -, hpair⟩ := hidentity
  have hsource := validateReleaseIdentity_eq_ok hsource
  have htarget := validateReleaseIdentity_eq_ok htarget
  have hout := Validation.list_of_foldlM_eq_ok SeenCompositions.compositions (fun t => t)
    (fun h => (validateSortedTransition_eq_ok h).2.2) hloop
  rw [List.nil_append, List.map_id'] at hout
  have hids := Validation.nodup_of_foldlM_eq_ok (fun s : SeenCompositions => (s.ids : Set String))
    UpgradeCompositionTransition.id (fun h => by
      obtain ⟨⟨hid, hseen⟩, -, -⟩ := validateSortedTransition_eq_ok h
      exact ⟨hid, by rw [hseen, Finset.coe_insert]⟩) hloop
  have hkeys := Validation.nodup_of_foldlM_eq_ok
    (fun s : SeenCompositions => (s.sourceStates : Set SourceCompositionKey))
    (fun t => compositionKey edge.source t.source) (fun h => by
      obtain ⟨-, ⟨hkey, hseen⟩, -⟩ := validateSortedTransition_eq_ok h
      exact ⟨hkey, by rw [hseen, Finset.coe_insert]⟩) hloop
  refine ⟨⟨hsource.1, hsource.2.1, ?_, validateDirectRelease_eq_ok hdirect, hids.1, ?_⟩, ⟨hid, rfl⟩,
    ⟨hpair, rfl⟩, by rw [hout]⟩
  · obtain ⟨hrepository, hpackage, hversions⟩ := htarget
    obtain ⟨hframework, hversion⟩ := hversions rfl
    have hid : edge.target.package.id = ctx.package.id := by rw [hpackage]
    calc edge.target
        = ⟨⟨edge.target.framework.repository, edge.target.framework.version⟩,
            ⟨edge.target.package.id, edge.target.package.version⟩⟩ := rfl
      _ = ⟨ctx.package.framework, ⟨ctx.package.id, ctx.package.version⟩⟩ := by
        rw [hrepository, hframework, hversion, hid]
  · refine List.Nodup.of_map (compositionKey edge.source) ?_
    rw [List.map_map]
    exact hkeys.1

/-! ### The graph -/

variable {edges normalized : List UpgradeEdgeManifest}

/-- What an accepted graph is. -/
theorem validateUpgradeGraph_eq_ok (h : validateUpgradeGraph ctx edges = .ok normalized) :
    normalized = (sortBy UpgradeEdgeManifest.id edges).map UpgradeEdgeManifest.sorted ∧
      (∀ edge ∈ normalized, edge.Accepted ctx) ∧
      (normalized.map UpgradeEdgeManifest.id).Nodup ∧
      (normalized.map UpgradeEdgeManifest.releasePair).Nodup := by
  simp only [validateUpgradeGraph, bind_eq_ok, rejectIf_eq_ok, pure_eq_ok] at h
  obtain ⟨_, -, _, -, seen, hloop, hedges⟩ := h
  have hturn : validateEdge ctx = fun seen edge => validateSortedEdge ctx seen edge.sorted :=
    funext₂ validateEdge_eq
  rw [hturn, ← List.foldlM_map (g := validateSortedEdge ctx)] at hloop
  have hout := Validation.list_of_foldlM_eq_ok SeenEdges.edges (fun e => e)
    (fun h => (validateSortedEdge_eq_ok h).2.2.2) hloop
  rw [hedges, List.nil_append, List.map_id'] at hout
  rw [← hout] at hloop
  have hids := Validation.nodup_of_foldlM_eq_ok (fun s : SeenEdges => (s.ids : Set String))
    UpgradeEdgeManifest.id (fun h => by
      obtain ⟨-, ⟨hid, hseen⟩, -⟩ := validateSortedEdge_eq_ok h
      exact ⟨hid, by rw [hseen, Finset.coe_insert]⟩) hloop
  have hpairs := Validation.nodup_of_foldlM_eq_ok
    (fun s : SeenEdges => (s.releasePairs : Set (String × String)))
    UpgradeEdgeManifest.releasePair (fun h => by
      obtain ⟨-, -, ⟨hpair, hseen⟩, -⟩ := validateSortedEdge_eq_ok h
      exact ⟨hpair, by rw [hseen, Finset.coe_insert]⟩) hloop
  refine ⟨hout, fun edge he => ?_, hids.1, hpairs.1⟩
  obtain ⟨_, _, h⟩ := Validation.exists_of_foldlM_eq_ok hloop he
  exact (validateSortedEdge_eq_ok h).1

/-- The release pairs of edges to one target tell their sources apart. -/
theorem nodup_sources (haccepted : ∀ edge ∈ normalized, edge.Accepted ctx)
    (hpairs : (normalized.map UpgradeEdgeManifest.releasePair).Nodup) :
    (normalized.map UpgradeEdgeManifest.source).Nodup := by
  refine (List.nodup_map_iff_inj_on (List.Nodup.of_map _ hpairs)).2 fun e he e' he' hsource => ?_
  refine List.inj_on_of_nodup_map hpairs he he' ?_
  rw [UpgradeEdgeManifest.releasePair, UpgradeEdgeManifest.releasePair, hsource,
    (haccepted e he).target, (haccepted e' he').target]

/-- The accepted edges, arranged as they were given. -/
theorem rearranged_normalized (h : validateUpgradeGraph ctx edges = .ok normalized) :
    Rearranged UpgradeEdgeManifest.Rearranged edges normalized := by
  rw [(validateUpgradeGraph_eq_ok h).1]
  exact ⟨_, (Arrangement.sortBy_perm ..).symm, List.forall₂_map_right_iff.2
    (List.forall₂_same.2 fun e _ => e.rearranged_sorted)⟩

/-- An edge and a composition of it answer the request for their sources. -/
theorem resolveUpgradeEdge_of_mem (hsources : (normalized.map UpgradeEdgeManifest.source).Nodup)
    {edge : UpgradeEdgeManifest} (he : edge ∈ normalized)
    (hstates : (edge.compositions.map UpgradeCompositionTransition.source).Nodup)
    {composition : UpgradeCompositionTransition} (hc : composition ∈ edge.compositions) :
    resolveUpgradeEdge normalized ⟨edge.source, composition.source⟩ =
      .ok (resolvedUpgradeEdge edge composition) := by
  rw [resolveUpgradeEdge, Arrangement.find?_key hsources he]
  dsimp only
  rw [Arrangement.find?_key hstates hc]

/-- An answer is an edge and a composition of it. -/
theorem resolveUpgradeEdge_eq_ok {request : UpgradeEdgeRequest} {resolved : ResolvedUpgradeEdge}
    (h : resolveUpgradeEdge normalized request = .ok resolved) :
    ∃ edge ∈ normalized, ∃ composition ∈ edge.compositions,
      edge.source = request.source ∧ composition.source = request.composition ∧
        resolved = resolvedUpgradeEdge edge composition := by
  rw [resolveUpgradeEdge] at h
  split at h
  · cases h
  · next edge hedge =>
      split at h
      · cases h
      · next composition hcomposition =>
          have hsource := List.find?_some hedge
          have hstate := List.find?_some hcomposition
          exact ⟨edge, List.mem_of_find?_eq_some hedge, composition,
            List.mem_of_find?_eq_some hcomposition, of_decide_eq_true hsource,
            of_decide_eq_true hstate, (Except.ok.inj h).symm⟩

/-- **One outcome for all arrangements.** -/
theorem validateUpgradeGraph_of_rearranged {edges' : List UpgradeEdgeManifest}
    (hr : Rearranged UpgradeEdgeManifest.Rearranged edges edges')
    (h : validateUpgradeGraph ctx edges = .ok normalized) :
    validateUpgradeGraph ctx edges' = .ok normalized := by
  obtain ⟨hnormalized, haccepted, hids, -⟩ := validateUpgradeGraph_eq_ok h
  have hsorted (edge) (he : edge ∈ edges) :
      (edge.compositions.map UpgradeCompositionTransition.id).Nodup := by
    have hmem : edge.sorted ∈ normalized := by
      rw [hnormalized]
      exact List.mem_map_of_mem (Arrangement.mem_sortBy.2 he)
    have hperm : (edge.sorted.compositions.map UpgradeCompositionTransition.id).Perm
        (edge.compositions.map UpgradeCompositionTransition.id) := by
      rw [UpgradeEdgeManifest.sorted, List.map_map]
      exact (Arrangement.sortBy_perm ..).map _
    exact hperm.nodup_iff.1 (haccepted _ hmem).ids
  have hnodup : (edges.map UpgradeEdgeManifest.id).Nodup := by
    rw [hnormalized, List.map_map] at hids
    exact ((Arrangement.sortBy_perm UpgradeEdgeManifest.id edges).map _).nodup_iff.1 hids
  have heq : (sortBy UpgradeEdgeManifest.id edges).map UpgradeEdgeManifest.sorted =
      (sortBy UpgradeEdgeManifest.id edges').map UpgradeEdgeManifest.sorted :=
    Arrangement.sortBy_map_eq (f := UpgradeEdgeManifest.sorted) (fun _ => rfl) hr
      (fun e he _ hr => hr.sorted_eq (hsorted e he)) hnodup
  rw [validateUpgradeGraph, hr.length_eq, Validation.foldlM_congr_of_map_eq
    (fun hxy => by rw [validateEdge_eq, validateEdge_eq, hxy]) heq] at h
  exact h

/-- **Upgrade resolution is total and unambiguous.**  In an accepted graph all edges lead
to the package's own release from a directly preceding one, every edge and composition
answers the request for its sources, and an answer comes from one edge and one
composition; and every arrangement of the lists has the same outcome. -/
theorem upgrade_graph_resolves (ctx : GraphContext) (edges : List UpgradeEdgeManifest) :
    (∀ normalized, validateUpgradeGraph ctx edges = .ok normalized →
      (Rearranged UpgradeEdgeManifest.Rearranged edges normalized ∧ normalized.Nodup ∧
        ∀ edge ∈ normalized, edge.compositions.Nodup) ∧
      (∀ edge ∈ normalized,
        edge.target = ⟨ctx.package.framework, ⟨ctx.package.id, ctx.package.version⟩⟩ ∧
        DirectlyPrecedes ctx.parsers edge.source edge.target) ∧
      (∀ edge ∈ normalized, ∀ composition ∈ edge.compositions,
        resolveUpgradeEdge normalized ⟨edge.source, composition.source⟩ =
          .ok (resolvedUpgradeEdge edge composition)) ∧
      ∀ request resolved, resolveUpgradeEdge normalized request = .ok resolved →
        ∃ edge ∈ normalized, ∃ composition ∈ edge.compositions,
          request = ⟨edge.source, composition.source⟩ ∧
          resolved = resolvedUpgradeEdge edge composition ∧
          ∀ edge' ∈ normalized, ∀ composition' ∈ edge'.compositions,
            request = ⟨edge'.source, composition'.source⟩ →
              edge' = edge ∧ composition' = composition) ∧
    ∀ edges', Rearranged UpgradeEdgeManifest.Rearranged edges edges' → ∀ normalized,
      validateUpgradeGraph ctx edges = .ok normalized ↔
        validateUpgradeGraph ctx edges' = .ok normalized := by
  refine ⟨fun normalized h => ?_, fun edges' hr normalized =>
    ⟨validateUpgradeGraph_of_rearranged hr, validateUpgradeGraph_of_rearranged
      (hr.symm fun _ _ => UpgradeEdgeManifest.Rearranged.symm)⟩⟩
  obtain ⟨-, haccepted, hids, hpairs⟩ := validateUpgradeGraph_eq_ok h
  have hsources := nodup_sources haccepted hpairs
  refine ⟨⟨rearranged_normalized h, .of_map _ hids, fun edge he => .of_map _ (haccepted edge he).ids⟩,
    fun edge he => ⟨(haccepted edge he).target, (haccepted edge he).direct⟩,
    fun edge he composition hc =>
      resolveUpgradeEdge_of_mem hsources he (haccepted edge he).sources hc,
    fun request resolved hanswer => ?_⟩
  obtain ⟨edge, he, composition, hc, hsource, hstate, hresolved⟩ := resolveUpgradeEdge_eq_ok hanswer
  refine ⟨edge, he, composition, hc, by rw [hsource, hstate], hresolved, ?_⟩
  rintro edge' he' composition' hc' rfl
  obtain rfl : edge' = edge := List.inj_on_of_nodup_map hsources he' he hsource.symm
  exact ⟨rfl, List.inj_on_of_nodup_map (haccepted edge' he').sources hc' hc hstate.symm⟩

/-! #### An edge with two compositions -/

/-- `url` and `semver` on the texts of the example. -/
def releaseParsers : Parsers where
  url text := if text = hegiraFrameworkRepository then
      some ⟨"https", "", none, some (.domain "github.com"), "/furkancemalcaliskan/hegira.git",
        none, none⟩
    else none
  version text :=
    if text = "0.6.0" then some ⟨0, 6, 0, "", ""⟩
    else if text = "0.7.0" then some ⟨0, 7, 0, "", ""⟩ else none

def releaseContext : GraphContext where
  parsers := releaseParsers
  package := { hegiraPackage with framework := ⟨hegiraFrameworkRepository, "v0.7.0"⟩ }
  components := hegiraComponents
  componentPaths := ∅
  lockfiles := ∅

def minimalState : UpgradeCompositionState :=
  { database := .postgres, client := .leptos, components := ["layered-base"] }

def identityState : UpgradeCompositionState :=
  { database := .postgres, client := .leptos, components := ["layered-base", "layered-leptos-identity"],
    modules := ["identity"], capabilities := [.authentication] }

/-- The transition that leaves a composition as it is. -/
def keepState (id : String) (state : UpgradeCompositionState) : UpgradeCompositionTransition where
  id := id
  sourceBaselineDigest := "sha256:" ++ String.ofList (List.replicate 64 '0')
  sourceOwnership := ⟨.applicationOwned, []⟩
  targetOwnership := ⟨.applicationOwned, []⟩
  source := state
  target := state

def releaseOf (version : String) : UpgradeReleaseIdentity :=
  ⟨⟨hegiraFrameworkRepository, version⟩, ⟨"hegira-canonical", version⟩⟩

def releaseEdge (compositions : List UpgradeCompositionTransition) : UpgradeEdgeManifest where
  schema := 1
  id := "minor"
  sourcePackageDigest := "sha256:" ++ String.ofList (List.replicate 64 '0')
  source := releaseOf "v0.6.0"
  target := releaseOf "v0.7.0"
  compositions := compositions

/-- The states of the example are accepted. -/
theorem validateTarget_release (state) (h : state ∈ [identityState, minimalState]) :
    validateTarget releaseContext state = .ok () := by
  have hvisit : ∀ state ∈ [identityState, minimalState],
      (collectRoots state.components).1 = state.components.toFinset ∧
      state.components.Nodup ∧ state.components.Pairwise (· ≤ ·) ∧
      (DepthFirst.visitAll (graph hegiraComponents) 3 state.components none .start).map
        (fun search => (search.reports, search.ordered)) = some ([], state.components) := by decide
  have houtcome : ∀ state ∈ [identityState, minimalState],
      targetOutcome state (some (conclude releaseContext.package hegiraComponents
        (targetRequest releaseContext.package state)
        (compatibilityDiagnostics releaseContext.package
          (targetRequest releaseContext.package state) ++ (collectRoots state.components).2 ++ [])
        state.components)) = .ok () := by decide +kernel
  obtain ⟨hroots, hnodup, hsorted, hvisit⟩ := hvisit state h
  obtain ⟨search, hs, hreports, hordered⟩ := exists_visitRoots_eq hroots hnodup hsorted hvisit
  have hresolve : resolve 3 releaseContext.package hegiraComponents
      (targetRequest releaseContext.package state) = _ := resolve_eq hs
  rw [hreports, hordered] at hresolve
  exact (congrArg (targetOutcome state) hresolve).trans (houtcome state h)

/-- The edge as `validate_upgrade_graph` leaves it. -/
def normalizedEdge : UpgradeEdgeManifest :=
  releaseEdge [keepState "identity" identityState, keepState "minimal" minimalState]

/-- What the loop has seen after some compositions. -/
def seenAfter (transitions : List UpgradeCompositionTransition) : SeenCompositions where
  ids := transitions.foldl (fun ids t => insert t.id ids) ∅
  sourceStates := transitions.foldl
    (fun keys t => insert (compositionKey (releaseOf "v0.6.0") t.source) keys) ∅
  compositions := transitions

theorem validateComposition_release (state) (h : state ∈ [identityState, minimalState]) :
    validateComposition releaseContext state true = .ok () := by
  rw [validateComposition, if_pos rfl, validateTarget_release state h]
  revert state
  decide +kernel

/-- The sorted edge of the example is accepted. -/
theorem validateSortedTransition_release :
    normalizedEdge.compositions.foldlM
      (validateSortedTransition releaseContext (releaseOf "v0.6.0")) (seenAfter []) =
        .ok (seenAfter normalizedEdge.compositions) := by
  have hidentity : validateSortedTransition releaseContext (releaseOf "v0.6.0") (seenAfter [])
      (keepState "identity" identityState) =
        .ok (seenAfter [keepState "identity" identityState]) := by
    rw [validateSortedTransition,
      show (keepState "identity" identityState).target = identityState from rfl,
      validateComposition_release identityState (by simp)]
    decide +kernel
  have hminimal : validateSortedTransition releaseContext (releaseOf "v0.6.0")
      (seenAfter [keepState "identity" identityState]) (keepState "minimal" minimalState) =
        .ok (seenAfter normalizedEdge.compositions) := by
    rw [validateSortedTransition,
      show (keepState "minimal" minimalState).target = minimalState from rfl,
      validateComposition_release minimalState (by simp)]
    decide +kernel
  exact Validation.foldlM_cons_eq_ok.2 ⟨_, hidentity,
    Validation.foldlM_cons_eq_ok.2 ⟨_, hminimal, rfl⟩⟩

/-- Its compositions in the other order. -/
def unsortedEdge : UpgradeEdgeManifest :=
  releaseEdge [keepState "minimal" minimalState, keepState "identity" identityState]

/-- Its other order is sorted to it. -/
theorem sorted_unsortedEdge : unsortedEdge.sorted = normalizedEdge := by decide +kernel

/-- So the graph of the other order is accepted. -/
theorem validateUpgradeGraph_release :
    validateUpgradeGraph releaseContext [unsortedEdge] = .ok [normalizedEdge] := by
  have hedge : validateSortedEdge releaseContext ⟨∅, ∅, ∅, []⟩ normalizedEdge = .ok {
      ids := {"minor"}
      releasePairs := {("v0.6.0", "v0.7.0")}
      sourceStates := (seenAfter normalizedEdge.compositions).sourceStates
      edges := [normalizedEdge] } := by
    have hloop : normalizedEdge.compositions.foldlM
        (validateSortedTransition releaseContext normalizedEdge.source) ⟨∅, ∅, []⟩ =
          .ok (seenAfter normalizedEdge.compositions) := validateSortedTransition_release
    rw [validateSortedEdge, hloop]
    decide +kernel
  have hloop : [unsortedEdge].foldlM (validateEdge releaseContext) ⟨∅, ∅, ∅, []⟩ = _ :=
    Validation.foldlM_cons_eq_ok.2 ⟨_, (validateEdge_eq _ _).trans (sorted_unsortedEdge ▸ hedge), rfl⟩
  rw [validateUpgradeGraph, show sortBy UpgradeEdgeManifest.id [unsortedEdge] = [unsortedEdge] from rfl,
    hloop]
  decide +kernel

/-- Both orders of the compositions are one graph, which answers for its compositions. -/
theorem upgrade_graph_resolves_release :
    validateUpgradeGraph releaseContext [normalizedEdge] = .ok [normalizedEdge] ∧
    (∀ composition ∈ normalizedEdge.compositions,
      resolveUpgradeEdge [normalizedEdge] ⟨releaseOf "v0.6.0", composition.source⟩ =
        .ok (resolvedUpgradeEdge normalizedEdge composition)) ∧
    ∃ edge ∈ [normalizedEdge], ∃ composition ∈ edge.compositions,
      resolvedUpgradeEdge normalizedEdge (keepState "minimal" minimalState) =
        resolvedUpgradeEdge edge composition := by
  obtain ⟨haccepted, harranged⟩ := upgrade_graph_resolves releaseContext [unsortedEdge]
  obtain ⟨-, -, hresolves, honly⟩ := haccepted _ validateUpgradeGraph_release
  have hedge : unsortedEdge.Rearranged normalizedEdge :=
    sorted_unsortedEdge ▸ unsortedEdge.rearranged_sorted
  have hresolves := hresolves normalizedEdge (by simp)
  have hminimal := hresolves (keepState "minimal" minimalState) (by simp [normalizedEdge, releaseEdge])
  obtain ⟨edge, he, composition, hc, -, hresolved, -⟩ := honly _ _ hminimal
  exact ⟨(harranged _ ⟨_, .refl _, .cons hedge .nil⟩ _).1 validateUpgradeGraph_release, hresolves,
    edge, he, composition, hc, hresolved⟩

end Template
end Hegira
