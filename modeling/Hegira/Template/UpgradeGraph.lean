/-
# Upgrade edges of a package

`tools/template_renderer/src/upgrade.rs`: the edges a package declares from earlier
releases to its own, `validate_upgrade_graph` that checks and normalises them, and
`resolve_upgrade_edge` that finds the edge and the composition for an application.

The source sorts the lists of an edge in place while it checks them; here each check
works on the sorted value and the normalised edges are the result.
-/

import Mathlib.Data.List.Sort
import Hegira.Library.Arrangement
import Hegira.Template.Composition

namespace Hegira
namespace Template

open Std (TreeMap)
open Arrangement (sortBy)

/-! ### Manifests -/

structure UpgradeReleaseIdentity where
  framework : FrameworkContract
  package : PackageIdentity
  deriving DecidableEq, Repr

structure UpgradeCompositionState where
  database : DatabaseAdapter
  client : ClientAdapter
  components : List String
  modules : List String := []
  capabilities : List ApplicationCapability := []
  deriving DecidableEq, Repr

inductive UpgradeManifestTransition where
  | schema
  | framework
  | package
  | components
  | modules
  | capabilities
  | ownership
  deriving DecidableEq, Repr

instance : LinearOrder UpgradeManifestTransition :=
  LinearOrder.lift' UpgradeManifestTransition.ctorIdx fun a b h => by
    cases a <;> cases b <;> first | rfl | cases h

inductive ManagedIntegrationTransitionKind where
  | create
  | edit
  | retire
  deriving DecidableEq, Repr

instance : LinearOrder ManagedIntegrationTransitionKind :=
  LinearOrder.lift' ManagedIntegrationTransitionKind.ctorIdx fun a b h => by
    cases a <;> cases b <;> first | rfl | cases h

structure ManagedIntegrationTransition where
  component : String
  path : String
  integration : String
  kind : ManagedIntegrationTransitionKind
  sourceSha256 : Option String := none
  targetSourceComponent : Option String := none
  targetLockfile : Option PathBuf := none
  targetSha256 : Option String := none
  deriving DecidableEq, Repr

structure UpgradeCompositionTransition where
  id : String
  sourceBaselineDigest : String
  sourceOwnership : SourceOwnership
  targetOwnership : SourceOwnership
  source : UpgradeCompositionState
  target : UpgradeCompositionState
  manifestTransitions : Option (List UpgradeManifestTransition) := none
  managedIntegrations : List ManagedIntegrationTransition := []
  deriving DecidableEq, Repr

structure UpgradeEdgeManifest where
  schema : ℕ
  id : String
  sourcePackageDigest : String
  source : UpgradeReleaseIdentity
  target : UpgradeReleaseIdentity
  compositions : List UpgradeCompositionTransition
  manifestTransitions : List UpgradeManifestTransition := []
  managedIntegrations : List ManagedIntegrationTransition := []
  deriving DecidableEq, Repr

structure UpgradeEdgeRequest where
  source : UpgradeReleaseIdentity
  composition : UpgradeCompositionState
  deriving DecidableEq, Repr

structure ResolvedUpgradeEdge where
  schema : ℕ
  id : String
  source : UpgradeReleaseIdentity
  target : UpgradeReleaseIdentity
  composition : UpgradeCompositionTransition
  manifestTransitions : List UpgradeManifestTransition
  managedIntegrations : List ManagedIntegrationTransition
  deriving DecidableEq, Repr

inductive UpgradeEdgeDiagnosticKind where
  | unsupportedRelease
  | unsupportedComposition
  deriving DecidableEq, Repr

structure UpgradeEdgeError where
  kind : UpgradeEdgeDiagnosticKind
  subject : String
  deriving DecidableEq, Repr

structure SourceCompositionKey where
  frameworkRepository : String
  frameworkVersion : String
  packageId : String
  database : DatabaseAdapter
  client : ClientAdapter
  components : List String
  modules : List String
  capabilities : List ApplicationCapability
  deriving DecidableEq, Repr

/-- What the edges are validated against. -/
structure GraphContext where
  parsers : Parsers
  package : ComponentPackageManifest
  components : Components
  componentPaths : TreeMap (String ×ₗ String) String
  lockfiles : TreeMap PathBuf String

def upgradeEdgeSchema : ℕ := 1
def maxUpgradeEdges : ℕ := 16
def maxCompositionsPerEdge : ℕ := 64
def maxManagedIntegrationsPerEdge : ℕ := 512
def maxCompositionMembers : ℕ := 64

/-! ### Normal forms -/

/-- The order of ownership claims: all of a claim, from the path on. -/
def SourceOwnershipClaim.sortKey (claim : SourceOwnershipClaim) :
    String ×ₗ SourceOwnershipClass ×ₗ WithBot String :=
  toLex (claim.path, toLex (claim.class, claim.integration))

/-- The derived order of managed integrations, field by field. -/
def ManagedIntegrationTransition.sortKey (t : ManagedIntegrationTransition) :
    String ×ₗ String ×ₗ String ×ₗ ManagedIntegrationTransitionKind ×ₗ WithBot String ×ₗ
      WithBot String ×ₗ WithBot PathBuf ×ₗ WithBot String :=
  toLex (t.component, toLex (t.path, toLex (t.integration, toLex (t.kind, toLex (t.sourceSha256,
    toLex (t.targetSourceComponent, toLex (t.targetLockfile, t.targetSha256)))))))

def SourceOwnership.sorted (ownership : SourceOwnership) : SourceOwnership :=
  { ownership with claims := sortBy SourceOwnershipClaim.sortKey ownership.claims }

/-- The lists of a composition in order, as the loop over the compositions leaves them. -/
def UpgradeCompositionTransition.sorted (transition : UpgradeCompositionTransition) :
    UpgradeCompositionTransition :=
  { transition with
    sourceOwnership := transition.sourceOwnership.sorted
    targetOwnership := transition.targetOwnership.sorted
    manifestTransitions := transition.manifestTransitions.map (sortBy fun value => value)
    managedIntegrations :=
      sortBy ManagedIntegrationTransition.sortKey transition.managedIntegrations }

/-- An edge with all its lists in order, as `validate_upgrade_graph` leaves it. -/
def UpgradeEdgeManifest.sorted (edge : UpgradeEdgeManifest) : UpgradeEdgeManifest :=
  { edge with
    compositions := (sortBy UpgradeCompositionTransition.id edge.compositions).map
      UpgradeCompositionTransition.sorted
    manifestTransitions := sortBy (fun value => value) edge.manifestTransitions
    managedIntegrations :=
      sortBy ManagedIntegrationTransition.sortKey edge.managedIntegrations }

/-! ### Checks of releases and compositions -/

/-- `validate_graph_identifier`. -/
def validateGraphIdentifier (value kind : String) : Except Fault Unit :=
  rejectIf (!isIdentifier value)
    (graphError .invalidIdentifier ("upgrade-graph." ++ kind.replace " " "-"))

/-- `validate_graph_path`. -/
def validateGraphPath (path : PathBuf) (kind : String) : Except Fault Unit :=
  rejectIf (!path.isRelative)
    (graphError .invalidManagedPath ("upgrade-graph." ++ kind.replace " " "-"))

/-- `validate_sha256` accepts it. -/
def isSha256 (value : String) : Bool :=
  match value.toList.dropPrefix? "sha256:".toList with
  | none => false
  | some digest =>
      digest.length == 64 && digest.all fun byte => byte.isDigit || ('a' ≤ byte && byte ≤ 'f')

/-- `validate_sha256`. -/
def validateSha256 (value subject : String) : Except Fault Unit :=
  rejectIf (!isSha256 value) (graphError .invalidDigest subject)

/-- The version a release text spells, when `parse_release` accepts it. -/
def releaseVersion (parsers : Parsers) (value : String) : Option Version := do
  let version ← value.toList.dropPrefix? ['v']
  let version ← parsers.version (String.ofList version)
  if version.pre = "" && version.build = "" then some version else none

/-- `parse_release`. -/
def parseRelease (parsers : Parsers) (value : String) : Except Fault Version :=
  match releaseVersion parsers value with
  | some version => .ok version
  | none => .error (graphError .invalidReleaseVersion "upgrade-release.version")

/-- `validate_release_identity`. -/
def validateReleaseIdentity (ctx : GraphContext) (release : UpgradeReleaseIdentity)
    (target : Bool) : Except Fault Unit := do
  let _ ← parseRelease ctx.parsers release.framework.version
  (release.framework.validate ctx.parsers).mapError
    fun _ => graphError .invalidReleaseIdentity "upgrade-release.framework"
  rejectIf (release.framework.repository ≠ ctx.package.framework.repository
      || release.package.id ≠ ctx.package.id
      || release.framework.version ≠ release.package.version)
    (graphError .invalidReleaseIdentity "upgrade-release.identity")
  rejectIf (target && (release.framework.version ≠ ctx.package.framework.version
      || release.package.version ≠ ctx.package.version))
    (graphError .targetReleaseMismatch "upgrade-edge.target")

/-- `u64::checked_add(1)`. -/
def checkedSucc (n : UInt64) : Option UInt64 :=
  if n.toNat + 1 < UInt64.size then some (n + 1) else none

/-- `target` is the next patch, minor or major release after `source`. -/
def isDirect (source target : Version) : Bool :=
  (target.major == source.major && target.minor == source.minor
      && checkedSucc source.patch == some target.patch)
    || (target.major == source.major && checkedSucc source.minor == some target.minor
      && target.patch == 0)
    || (checkedSucc source.major == some target.major && target.minor == 0 && target.patch == 0)

/-- `validate_direct_release`. -/
def validateDirectRelease (parsers : Parsers) (source target : UpgradeReleaseIdentity) :
    Except Fault Unit := do
  let source ← parseRelease parsers source.framework.version
  let target ← parseRelease parsers target.framework.version
  rejectIf (!isDirect source target) (graphError .nonDirectRelease "upgrade-edge.release")

/-- `validate_sorted_members`. -/
def validateSortedMembers (values : List String) (kind : String) (allowEmpty : Bool) :
    Except Fault Unit := do
  rejectIf (values.isEmpty && !allowEmpty)
    (graphError .nonCanonicalComposition s!"upgrade-composition.{kind}s")
  values.forM (validateGraphIdentifier · kind)
  rejectIf (unsorted values)
    (graphError .nonCanonicalComposition s!"upgrade-composition.{kind}s")

/-- `validate_sorted_capabilities`. -/
def validateSortedCapabilities (values : List ApplicationCapability) : Except Fault Unit :=
  rejectIf (unsorted values)
    (graphError .nonCanonicalComposition "upgrade-composition.capabilities")

/-- A component of a composition is declared, and a target one fits the adapters. -/
def validateMember (ctx : GraphContext) (state : UpgradeCompositionState) (target : Bool)
    (component : String) : Except Fault Unit :=
  match ctx.components[component]? with
  | none => throw (graphError .undeclaredComponent "upgrade-composition.components")
  | some manifest =>
      rejectIf (target && manifest.installation.any fun installation =>
          !installation.databases.contains state.database
            || !installation.clients.contains state.client)
        (graphError .unsupportedAdapter "upgrade-composition.adapters")

/-- The request for the target composition of a state. -/
def targetRequest (package : ComponentPackageManifest) (state : UpgradeCompositionState) :
    CompositionRequest where
  framework := package.framework
  package := ⟨package.id, package.version⟩
  components := state.components
  recordedModules := none
  recordedCapabilities := none

/-- A target state is the composition it asks for. -/
def isComposition (state : UpgradeCompositionState) (resolved : ResolvedComposition) : Bool :=
  (resolved.components.map ResolvedComponent.id).toFinset = state.components.toFinset
    && resolved.modules.map InstalledModule.id = state.modules
    && [.authentication, .authorization].filter (· ∈ resolved.capabilities) = state.capabilities

/-- What the resolution of a target says of it. -/
def targetOutcome (state : UpgradeCompositionState) :
    Option (Except Failure ResolvedComposition) → Except Fault Unit
  | some (.ok resolved) =>
      rejectIf (!isComposition state resolved)
        (graphError .targetCompositionMismatch "upgrade-composition.target")
  | some (.error (.panicked message)) => throw (.panicked message)
  | some (.error (.rejected _)) | none =>
      throw (graphError .targetCompositionMismatch "upgrade-composition.target")

/-- The last part of `validate_composition`, for a target.  The fuel is enough for every
request (`resolve_exact`). -/
def validateTarget (ctx : GraphContext) (state : UpgradeCompositionState) : Except Fault Unit :=
  targetOutcome state (resolve (ctx.components.size + 1) ctx.package ctx.components
    (targetRequest ctx.package state))

/-- `validate_composition`. -/
def validateComposition (ctx : GraphContext) (state : UpgradeCompositionState) (target : Bool) :
    Except Fault Unit := do
  rejectIf (maxCompositionMembers < state.components.length
      || maxCompositionMembers < state.modules.length
      || maxCompositionMembers < state.capabilities.length)
    (graphError .limitExceeded "upgrade-composition.members")
  validateSortedMembers state.components "component" false
  validateSortedMembers state.modules "module" true
  validateSortedCapabilities state.capabilities
  state.components.forM (validateMember ctx state target)
  rejectIf (state.modules.any fun module => module ∉ ctx.package.modules)
    (graphError .undeclaredModule "upgrade-composition.modules")
  rejectIf (state.capabilities.any fun capability =>
      ctx.components.values.all fun component => capability ∉ component.providesCapabilities)
    (graphError .undeclaredCapability "upgrade-composition.capabilities")
  if target then validateTarget ctx state else pure ()

/-- `composition_key`. -/
def compositionKey (release : UpgradeReleaseIdentity) (state : UpgradeCompositionState) :
    SourceCompositionKey where
  frameworkRepository := release.framework.repository
  frameworkVersion := release.framework.version
  packageId := release.package.id
  database := state.database
  client := state.client
  components := state.components
  modules := state.modules
  capabilities := state.capabilities

/-! ### Checks of managed integrations -/

/-- `ownership_declares`. -/
def ownershipDeclares (ownership : SourceOwnership) (transition : ManagedIntegrationTransition) :
    Bool :=
  ownership.claims.any fun claim =>
    claim.path == transition.path && claim.class == .managedIntegration
      && claim.integration == some transition.integration

/-- The digest the package has for the target of a transition. -/
def GraphContext.targetDigest (ctx : GraphContext) (transition : ManagedIntegrationTransition) :
    Option String :=
  match transition.targetLockfile with
  | some path => ctx.lockfiles[path]?
  | none =>
      let component := transition.targetSourceComponent.getD transition.component
      ctx.componentPaths[toLex (component, transition.path)]?

/-- The last check of `validate_transition_digests`. -/
def validateTargetDigest (ctx : GraphContext) (transition : ManagedIntegrationTransition)
    (target : String) : Except Fault Unit := do
  validateSha256 target "managed-integration.target-sha256"
  match ctx.targetDigest transition with
  | none => throw (graphError .undeclaredManagedPath "managed-integration.path")
  | some actual =>
      rejectIf (actual ≠ target) (graphError .invalidDigest "managed-integration.target-sha256")

/-- `validate_transition_digests`. -/
def validateTransitionDigests (ctx : GraphContext) (transition : ManagedIntegrationTransition) :
    Except Fault Unit := do
  let sourceRequired := transition.kind == .edit || transition.kind == .retire
  let targetRequired := transition.kind == .create || transition.kind == .edit
  rejectIf (sourceRequired ≠ transition.sourceSha256.isSome
      || targetRequired ≠ transition.targetSha256.isSome)
    (graphError .invalidDigest "managed-integration.digest-contract")
  transition.sourceSha256.elim (pure ()) (validateSha256 · "managed-integration.source-sha256")
  rejectIf (transition.kind = .edit && transition.sourceSha256 = transition.targetSha256)
    (graphError .invalidDigest "managed-integration.unchanged-edit")
  transition.targetSha256.elim (pure ()) (validateTargetDigest ctx transition)

/-- The component a transition takes its target from. -/
def validateTargetSource (ctx : GraphContext) (transition : ManagedIntegrationTransition)
    (sourceComponent : String) : Except Fault Unit := do
  validateGraphIdentifier sourceComponent "target source component"
  rejectIf (!ctx.components.contains sourceComponent)
    (graphError .undeclaredComponent "managed-integration.target-source-component")
  rejectIf (transition.kind = .retire)
    (graphError .invalidDigest "managed-integration.target-source-component")

/-- What identifies a managed integration. -/
def ManagedIntegrationTransition.identity (transition : ManagedIntegrationTransition) :
    String × String × String :=
  (transition.component, transition.path, transition.integration)

/-- One turn of the loop of `validate_managed_integrations`. -/
def validateManagedIntegration (ctx : GraphContext) (seen : Finset (String × String × String))
    (transition : ManagedIntegrationTransition) :
    Except Fault (Finset (String × String × String)) := do
  validateGraphIdentifier transition.component "managed integration component"
  validateGraphIdentifier transition.integration "managed integration"
  validateGraphPath (.ofString transition.path) "managed integration path"
  rejectIf (!ctx.components.contains transition.component)
    (graphError .undeclaredComponent "managed-integration.component")
  transition.targetSourceComponent.elim (pure ()) (validateTargetSource ctx transition)
  rejectIf (transition.targetLockfile.isSome && (transition.kind ≠ .edit
      || transition.path ≠ "Cargo.lock" || transition.integration ≠ "framework-lockfile"
      || transition.targetSourceComponent.isSome))
    (graphError .invalidManagedPath "managed-integration.target-lockfile")
  validateTransitionDigests ctx transition
  rejectIf (transition.identity ∈ seen)
    (graphError .conflictingManagedTransition "managed-integration")
  return insert transition.identity seen

/-- `validate_managed_integrations`. -/
def validateManagedIntegrations (ctx : GraphContext)
    (integrations : List ManagedIntegrationTransition) : Except Fault Unit := do
  let _ ← integrations.foldlM (validateManagedIntegration ctx) ∅

/-- A component of the source or the target of a composition. -/
def UpgradeCompositionTransition.applies (composition : UpgradeCompositionTransition)
    (transition : ManagedIntegrationTransition) : Bool :=
  composition.source.components.contains transition.component
    || composition.target.components.contains transition.component

/-- What the ownership of a composition says of a transition. -/
def validateTransitionOwnership (composition : UpgradeCompositionTransition)
    (transition : ManagedIntegrationTransition) : Except Fault Unit := do
  rejectIf (transition.kind = .edit
      && !ownershipDeclares composition.sourceOwnership transition)
    (graphError .invalidOwnership "managed-integration.source-ownership")
  let ownership := if transition.kind = .retire then composition.sourceOwnership
    else composition.targetOwnership
  rejectIf (!ownershipDeclares ownership transition)
    (graphError .invalidOwnership "managed-integration.ownership")

/-- One turn of the loop over the integrations that apply to a composition. -/
def validateApplicable (composition : UpgradeCompositionTransition)
    (seen : Finset (String × String × String)) (transition : ManagedIntegrationTransition) :
    Except Fault (Finset (String × String × String)) := do
  rejectIf (transition.identity ∈ seen)
    (graphError .conflictingManagedTransition "managed-integration")
  validateTransitionOwnership composition transition
  return insert transition.identity seen

/-- One turn of the second loop over the compositions of an edge. -/
def validateIntegrationsOf (ctx : GraphContext) (shared : List ManagedIntegrationTransition)
    (composition : UpgradeCompositionTransition) : Except Fault Unit := do
  validateManagedIntegrations ctx composition.managedIntegrations
  rejectIf (composition.managedIntegrations.any fun transition => !composition.applies transition)
    (graphError .undeclaredComponent "upgrade-composition.managed-integration.component")
  let _ ← ((shared ++ composition.managedIntegrations).filter composition.applies).foldlM
    (validateApplicable composition) ∅

/-! ### The graph -/

/-- What the first loop over the compositions of an edge has seen. -/
structure SeenCompositions where
  ids : Finset String
  sourceStates : Finset SourceCompositionKey
  compositions : List UpgradeCompositionTransition
  deriving DecidableEq

/-- `sort_unique` of a list that is sorted already. -/
def rejectRepeats (values : List UpgradeManifestTransition) : Except Fault Unit :=
  rejectIf ((values.zip values.tail).any fun pair => pair.1 = pair.2)
    (graphError .duplicateManifestTransition "upgrade-edge.manifest-transitions")

/-- The checks of one composition with its lists in order. -/
def validateSortedTransition (ctx : GraphContext) (release : UpgradeReleaseIdentity)
    (seen : SeenCompositions) (transition : UpgradeCompositionTransition) :
    Except Fault SeenCompositions := do
  transition.manifestTransitions.elim (pure ()) rejectRepeats
  validateGraphIdentifier transition.id "upgrade composition"
  rejectIf (transition.id ∈ seen.ids) (graphError .duplicateComposition "upgrade-composition.id")
  validateComposition ctx transition.source false
  validateComposition ctx transition.target true
  validateSha256 transition.sourceBaselineDigest "upgrade-composition.source-baseline-digest"
  transition.sourceOwnership.validate.mapError
    fun _ => graphError .invalidOwnership "upgrade-composition.source-ownership"
  transition.targetOwnership.validate.mapError
    fun _ => graphError .invalidOwnership "upgrade-composition.target-ownership"
  rejectIf (transition.source.database ≠ transition.target.database
      || transition.source.client ≠ transition.target.client)
    (graphError .adapterChange "upgrade-composition.adapters")
  rejectIf (compositionKey release transition.source ∈ seen.sourceStates)
    (graphError .ambiguousSourceComposition "upgrade-composition.source")
  return {
    ids := insert transition.id seen.ids
    sourceStates := insert (compositionKey release transition.source) seen.sourceStates
    compositions := seen.compositions ++ [transition] }

/-- One turn of the first loop over the compositions of an edge. -/
def validateTransition (ctx : GraphContext) (release : UpgradeReleaseIdentity)
    (seen : SeenCompositions) (transition : UpgradeCompositionTransition) :
    Except Fault SeenCompositions :=
  validateSortedTransition ctx release seen transition.sorted

/-- What the loop over the edges has seen. -/
structure SeenEdges where
  ids : Finset String
  releasePairs : Finset (String × String)
  sourceStates : Finset SourceCompositionKey
  edges : List UpgradeEdgeManifest
  deriving DecidableEq

/-- The releases of an edge. -/
def UpgradeEdgeManifest.releasePair (edge : UpgradeEdgeManifest) : String × String :=
  (edge.source.framework.version, edge.target.framework.version)

/-- What an edge says of itself, before its lists are looked at. -/
def validateIdentity (ctx : GraphContext) (seen : SeenEdges) (edge : UpgradeEdgeManifest) :
    Except Fault Unit := do
  rejectIf (edge.schema ≠ upgradeEdgeSchema) (graphError .invalidSchema "upgrade-edge.schema")
  validateGraphIdentifier edge.id "upgrade edge"
  rejectIf (edge.id ∈ seen.ids) (graphError .duplicateEdge "upgrade-edge.id")
  validateReleaseIdentity ctx edge.source false
  validateReleaseIdentity ctx edge.target true
  validateDirectRelease ctx.parsers edge.source edge.target
  validateSha256 edge.sourcePackageDigest "upgrade-edge.source-package-digest"
  rejectIf (edge.releasePair ∈ seen.releasePairs)
    (graphError .duplicateReleaseEdge "upgrade-edge.release")

/-- How many managed integrations an edge declares. -/
def UpgradeEdgeManifest.integrationCount (edge : UpgradeEdgeManifest) : ℕ :=
  edge.managedIntegrations.length
    + (edge.compositions.map fun composition => composition.managedIntegrations.length).sum

/-- The sizes of the lists of an edge. -/
def validateSizes (edge : UpgradeEdgeManifest) : Except Fault Unit := do
  rejectIf (edge.compositions.isEmpty)
    (graphError .emptyCompositionSet "upgrade-edge.compositions")
  rejectIf (maxCompositionsPerEdge < edge.compositions.length)
    (graphError .limitExceeded "upgrade-edge.compositions")
  rejectIf (maxManagedIntegrationsPerEdge < edge.integrationCount)
    (graphError .limitExceeded "upgrade-edge.managed-integrations")

/-- One turn of the loop over the edges. -/
def validateEdge (ctx : GraphContext) (seen : SeenEdges) (edge : UpgradeEdgeManifest) :
    Except Fault SeenEdges := do
  validateIdentity ctx seen edge
  validateSizes edge
  let transitions ← (sortBy UpgradeCompositionTransition.id edge.compositions).foldlM
    (validateTransition ctx edge.source) ⟨∅, seen.sourceStates, []⟩
  let manifestTransitions := sortBy (fun value => value) edge.manifestTransitions
  rejectRepeats manifestTransitions
  let managedIntegrations :=
    sortBy ManagedIntegrationTransition.sortKey edge.managedIntegrations
  validateManagedIntegrations ctx managedIntegrations
  transitions.compositions.forM (validateIntegrationsOf ctx managedIntegrations)
  return {
    ids := insert edge.id seen.ids
    releasePairs := insert edge.releasePair seen.releasePairs
    sourceStates := transitions.sourceStates
    edges := seen.edges ++ [{ edge with
      compositions := transitions.compositions, manifestTransitions, managedIntegrations }] }

/-- `validate_upgrade_graph`; the result is the edges as it leaves them. -/
def validateUpgradeGraph (ctx : GraphContext) (edges : List UpgradeEdgeManifest) :
    Except Fault (List UpgradeEdgeManifest) := do
  rejectIf (ctx.lockfiles.keys ≠ ctx.package.upgradeLockfiles)
    (graphError .undeclaredManagedPath "component-package.upgrade-lockfiles")
  rejectIf (maxUpgradeEdges < edges.length) (graphError .limitExceeded "upgrade-edges")
  let seen ← (sortBy UpgradeEdgeManifest.id edges).foldlM (validateEdge ctx) ⟨∅, ∅, ∅, []⟩
  return seen.edges

/-! ### Resolution of an edge -/

/-- What an application follows along one edge and one of its compositions. -/
def resolvedUpgradeEdge (edge : UpgradeEdgeManifest)
    (composition : UpgradeCompositionTransition) : ResolvedUpgradeEdge where
  schema := upgradeEdgeSchema
  id := edge.id
  source := edge.source
  target := edge.target
  composition := composition
  manifestTransitions := composition.manifestTransitions.getD edge.manifestTransitions
  managedIntegrations := edge.managedIntegrations ++ composition.managedIntegrations

/-- `resolve_upgrade_edge`. -/
def resolveUpgradeEdge (edges : List UpgradeEdgeManifest) (request : UpgradeEdgeRequest) :
    Except UpgradeEdgeError ResolvedUpgradeEdge :=
  match edges.find? fun edge => edge.source = request.source with
  | none => .error ⟨.unsupportedRelease, request.source.framework.version⟩
  | some matchingRelease =>
      match matchingRelease.compositions.find?
          fun transition => transition.source = request.composition with
      | none => .error ⟨.unsupportedComposition, matchingRelease.id⟩
      | some composition => .ok (resolvedUpgradeEdge matchingRelease composition)

end Template
end Hegira
