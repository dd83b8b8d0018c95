/-
# Upgrade plans

`tools/template_renderer/src/upgrade_planning.rs`: from the source files that
`authenticate_upgrade_source` has read to one change plan, `UpgradePlan::from_authenticated`.

The source has one error type.  Here `PlanningFailure` keeps apart the errors that are
raised because two transitions claim one path.  The texts of a manifest come from
`toml_edit`, `toml` and the printer of the application manifest (`Formats`).
-/

import Hegira.Mutator.CargoDependency
import Hegira.Template.UpgradeGraph

namespace Hegira
namespace Template

open Std (TreeMap)
open Arrangement (sortBy)
open Mutator (Bytes CargoDependency ChangePath ChangePlan ChangePlanError ContentDigest FileCreation
  Item ManagedFileRetirement PlannedFileChange StructuredEditError StructuredEditOutcome
  StructuredFileEdit Table TomlEdit calculated fromUtf8 intoBytes planCargoDependency
  planCargoDependencyTransition)

/-! ### The application and the package -/

structure ApplicationSelection where
  components : Finset String
  databases : Finset DatabaseAdapter
  clients : Finset ClientAdapter
  deriving DecidableEq

structure ApplicationComposition where
  package : PackageIdentity
  components : List InstalledComponent
  modules : List InstalledModule
  capabilities : Finset ApplicationCapability
  deriving DecidableEq

structure ApplicationUpgradeState where
  framework : FrameworkContract
  package : PackageIdentity
  ownership : SourceOwnership
  deriving DecidableEq

structure ApplicationManifest where
  schema : ℕ
  application : String
  framework : FrameworkContract
  selection : ApplicationSelection
  composition : Option ApplicationComposition
  upgrade : Option ApplicationUpgradeState
  deriving DecidableEq

def applicationManifestSchema : ℕ := 3

/-- What the planner reads of a `ManifestCatalog`. -/
structure ManifestCatalog where
  package : Option ComponentPackageManifest
  components : Components

/-- A managed file as it was found, and as the package has it. -/
structure AuthenticatedManagedSource where
  transition : ManagedIntegrationTransition
  source : Option Bytes
  target : Option Bytes
  deriving DecidableEq

structure AuthenticatedUpgradeBoundary where
  application : ApplicationManifest
  manifestSource : Bytes
  edge : ResolvedUpgradeEdge
  sourcePackageDigest : String
  sourceBaselineDigest : String
  managedSources : List AuthenticatedManagedSource
  deriving DecidableEq

/-- The texts the planner reads and writes. -/
structure Formats (Document : Type) where
  /-- The editor of `toml_edit`. -/
  toml : TomlEdit Document
  /-- `str::parse` to a `toml::Table`. -/
  table : String → Option Table
  /-- `ApplicationManifest::to_toml`. -/
  toToml : ApplicationManifest → Option String

/-! ### Errors -/

inductive UpgradePlanningErrorKind where
  | blocked
  | unsupported
  | incompatible
  | conflict
  deriving DecidableEq, Repr

/-- `planning_error`; the schema of the diagnostic is a constant. -/
structure UpgradePlanningError where
  kind : UpgradePlanningErrorKind
  subject : String
  deriving DecidableEq, Repr

/-- Why there is no plan. -/
inductive PlanningFailure where
  | rejected (error : UpgradePlanningError)
  /-- Two transitions, or two changes, have one path. -/
  | claimedTwice (error : UpgradePlanningError)
  | panicked (message : String)
  deriving DecidableEq, Repr

/-- The failures that are not about one path claimed twice. -/
def PlanningFailure.IsOther : PlanningFailure → Prop
  | .claimedTwice _ => False
  | .rejected _ | .panicked _ => True

def planningError (kind : UpgradePlanningErrorKind) (subject : String) : PlanningFailure :=
  .rejected ⟨kind, subject⟩

/-- `plan_error`. -/
def planError (error : ChangePlanError) : PlanningFailure :=
  planningError .conflict (error.path.elim "change-plan" ChangePath.text)

/-- `plan_error` of an error of `ChangePlan::new`, which refuses two changes of one path. -/
def newPlanError (error : ChangePlanError) : PlanningFailure :=
  if error.kind = .duplicatePath ∨ error.kind = .conflictingOperations then
    .claimedTwice ⟨.conflict, error.path.elim "change-plan" ChangePath.text⟩
  else planError error

/-- `structured_edit_error`. -/
def structuredEditError (error : StructuredEditError) : PlanningFailure :=
  planningError .conflict (error.path.elim "structured-edit" ChangePath.text)

/-! ### The target -/

/-- The request of `resolve_target_composition`. -/
def recordedRequest (edge : ResolvedUpgradeEdge) : CompositionRequest where
  framework := edge.target.framework
  package := edge.target.package
  components := edge.composition.target.components
  recordedModules := some (edge.composition.target.modules.map (⟨·, edge.target.package.version⟩))
  recordedCapabilities := some edge.composition.target.capabilities.toFinset

/-- `resolve_target_composition`.  The fuel is enough for every request (`resolve_exact`). -/
def resolveTargetComposition (catalog : ManifestCatalog) (edge : ResolvedUpgradeEdge) :
    Except PlanningFailure ResolvedComposition :=
  let resolved := catalog.package.bind fun package =>
    resolve (catalog.components.size + 1) package catalog.components (recordedRequest edge)
  match resolved with
  | some (.ok graph) => .ok graph
  | some (.error (.panicked message)) => .error (.panicked message)
  | some (.error (.rejected _)) | none =>
      .error (planningError .incompatible "target-composition")

/-- `reject_component_removal`. -/
def rejectComponentRemoval (edge : ResolvedUpgradeEdge) (graph : ResolvedComposition) :
    Except PlanningFailure Unit :=
  if (edge.composition.source.components.any
        fun component => component ∉ graph.components.map ResolvedComponent.id)
      || edge.composition.source.modules.any
        fun module => module ∉ graph.modules.map InstalledModule.id then
    throw (planningError .unsupported "component-removal")
  else pure ()

/-- `ManifestCatalog::components_for`. -/
def ManifestCatalog.componentsFor (catalog : ManifestCatalog) (graph : ResolvedComposition) :
    Option (List ComponentManifest) :=
  graph.components.mapM fun component => catalog.components[component.id]?

/-- The dependencies of a component, those of its installation after its own. -/
def ComponentManifest.dependencies (component : ComponentManifest) : List FrameworkDependency :=
  component.frameworkDependencies
    ++ component.installation.elim [] ComponentInstallationManifest.frameworkDependencies

/-- One turn of the loop of `target_framework_dependencies`. -/
def addDependency (dependencies : TreeMap (String ×ₗ String) FrameworkDependency)
    (dependency : FrameworkDependency) :
    Except PlanningFailure (TreeMap (String ×ₗ String) FrameworkDependency) :=
  let key := toLex (dependency.manifest, dependency.name)
  -- of one key, the manifests have one text, and the paths are compared by their components
  if dependencies[key]?.any fun existing => existing ≠ dependency then
    throw (planningError .incompatible ("framework-dependency." ++ dependency.name))
  else pure (dependencies.insert key dependency)

/-- `target_framework_dependencies`. -/
def targetFrameworkDependencies (catalog : ManifestCatalog) (graph : ResolvedComposition) :
    Except PlanningFailure (List FrameworkDependency) := do
  let some components := catalog.componentsFor graph
    | throw (planningError .incompatible "target-components")
  let dependencies ← (components.flatMap ComponentManifest.dependencies).foldlM addDependency ∅
  return dependencies.toList.map Prod.snd

section Formats

variable {Document : Type} (formats : Formats Document)

/-- `target_manifest`. -/
def targetManifest (boundary : AuthenticatedUpgradeBoundary) (graph : ResolvedComposition) :
    Except PlanningFailure ApplicationManifest := do
  let edge := boundary.edge
  let manifest := { boundary.application with
    schema := applicationManifestSchema
    framework := edge.target.framework
    composition := some {
      package := edge.target.package
      components := graph.components.map fun component => ⟨component.id, component.version⟩
      modules := graph.modules
      capabilities := graph.capabilities }
    upgrade := some {
      framework := edge.target.framework
      package := edge.target.package
      ownership := edge.composition.targetOwnership } }
  let some _ := formats.toToml manifest
    | throw (planningError .incompatible "target-manifest")
  return manifest

/-- `manifest_transitions`. -/
def manifestTransitions (source target : ApplicationManifest) : List UpgradeManifestTransition :=
  sortBy (fun value => value) <|
    (if source.schema ≠ target.schema then [.schema] else [])
    ++ (if source.framework ≠ target.framework then [.framework] else [])
    ++ (if source.composition.map ApplicationComposition.package
        ≠ target.composition.map ApplicationComposition.package then [.package] else [])
    ++ (if source.composition.map ApplicationComposition.components
        ≠ target.composition.map ApplicationComposition.components then [.components] else [])
    ++ (if source.composition.map ApplicationComposition.modules
        ≠ target.composition.map ApplicationComposition.modules then [.modules] else [])
    ++ (if source.composition.map ApplicationComposition.capabilities
        ≠ target.composition.map ApplicationComposition.capabilities then [.capabilities] else [])
    ++ (if source.upgrade.map ApplicationUpgradeState.ownership
        ≠ target.upgrade.map ApplicationUpgradeState.ownership then [.ownership] else [])

/-- `validated_target_manifest`. -/
def validatedTargetManifest (catalog : ManifestCatalog) (boundary : AuthenticatedUpgradeBoundary) :
    Except PlanningFailure (ResolvedComposition × ApplicationManifest) := do
  let graph ← resolveTargetComposition catalog boundary.edge
  rejectComponentRemoval boundary.edge graph
  let _ ← targetFrameworkDependencies catalog graph
  let target ← targetManifest formats boundary graph
  if manifestTransitions boundary.application target ≠ boundary.edge.manifestTransitions then
    throw (planningError .incompatible "manifest-transitions")
  return (graph, target)

end Formats

/-! ### Managed sources and their owners -/

structure UpgradeChangeOwner where
  component : String
  integration : String
  deriving DecidableEq, Repr

/-- The owner `insert_owner` records for a transition. -/
def ManagedIntegrationTransition.owner (transition : ManagedIntegrationTransition) :
    UpgradeChangeOwner :=
  ⟨transition.component, transition.integration⟩

/-- `required_managed_source`. -/
def requiredManagedSource (boundary : AuthenticatedUpgradeBoundary) (path integration : String) :
    Except PlanningFailure AuthenticatedManagedSource :=
  let found := boundary.managedSources.filter fun managed =>
    managed.transition.path = path && managed.transition.integration = integration
  match found with
  | [] => throw (planningError .incompatible integration)
  | [source] => pure source
  | _ :: _ :: _ => throw (.claimedTwice ⟨.conflict, integration⟩)

/-- `insert_owner`. -/
def insertOwner (owners : TreeMap String UpgradeChangeOwner)
    (transition : ManagedIntegrationTransition) :
    Except PlanningFailure (TreeMap String UpgradeChangeOwner) :=
  if transition.path ∈ owners then throw (.claimedTwice ⟨.conflict, transition.path⟩)
  else pure (owners.insert transition.path transition.owner)

/-- `required_source`. -/
def requiredSource (source : Option Bytes) : Except PlanningFailure Bytes :=
  match source with
  | some source => pure source
  | none => throw (planningError .incompatible "managed-integration.source")

/-- `required_target`. -/
def requiredTarget (target : Option Bytes) : Except PlanningFailure Bytes :=
  match target with
  | some target => pure target
  | none => throw (planningError .incompatible "managed-integration.target")

/-! ### Changes -/

variable {Document D : Type} [ContentDigest D] [DecidableEq D]

/-- The lists and maps `from_authenticated` fills. -/
structure Draft (D : Type) [ContentDigest D] where
  changes : List (PlannedFileChange D)
  owners : TreeMap String UpgradeChangeOwner
  structuredPaths : Finset String

def Draft.empty : Draft D := ⟨[], ∅, ∅⟩

/-- `ManagedFileRetirement::new`. -/
def retireManagedFile (ownership : SourceOwnership) (path integration : String)
    (observedContent : Bytes) : Except ChangePlanError (ManagedFileRetirement D) := do
  let path ← ChangePath.new path
  ownership.validate.mapError fun _ => ⟨.invalidOwnership, some path,
    "file retirement requires a valid source-ownership contract"⟩
  let declared := ownership.claims.any fun claim =>
    claim.path == path.text && claim.class == .managedIntegration
      && claim.integration == some integration
  if !declared then
    throw ⟨.invalidOwnership, some path,
      "file retirement requires an exact managed-integration ownership claim"⟩
  return ⟨path, ContentDigest.calculate observedContent, integration,
    calculated observedContent⟩

def historicalMigrationRoot : String := "crates/infrastructure/migrations/"

/-- The change of a transition, after the check of the migrations. -/
def transitionChange (ownership : SourceOwnership) (transition : ManagedIntegrationTransition)
    (source target : Option Bytes) : Except PlanningFailure (PlannedFileChange D) := do
  match transition.kind with
  | .create =>
      let target ← requiredTarget target
      let creation ← (FileCreation.new transition.path target).mapError planError
      return .create creation
  | .edit =>
      let source ← requiredSource source
      let target ← requiredTarget target
      let edit ← (StructuredFileEdit.new transition.path source target).mapError planError
      return .edit edit
  | .retire =>
      let source ← requiredSource source
      let retirement ← (retireManagedFile ownership transition.path transition.integration
        source).mapError planError
      return .retire retirement

/-- `plan_transition`. -/
def planTransition (ownership : SourceOwnership) (transition : ManagedIntegrationTransition)
    (source target : Option Bytes) : Except PlanningFailure (PlannedFileChange D) :=
  if transition.kind ≠ .create
      ∧ historicalMigrationRoot.toList.isPrefixOf transition.path.toList = true then
    throw (planningError .incompatible "immutable-history")
  else transitionChange ownership transition source target

/-- A change under the owner of a transition. -/
def Draft.add (draft : Draft D) (transition : ManagedIntegrationTransition)
    (change : PlannedFileChange D) : Except PlanningFailure (Draft D) := do
  let owners ← insertOwner draft.owners transition
  return { draft with owners, changes := draft.changes ++ [change] }

/-- One turn of the loop of `from_authenticated` over the managed sources. -/
def planManagedSource (composition : UpgradeCompositionTransition) (draft : Draft D)
    (managed : AuthenticatedManagedSource) : Except PlanningFailure (Draft D) := do
  let transition := managed.transition
  if transition.path ∈ draft.structuredPaths then
    return draft
  let ownership := if transition.kind = .retire then composition.sourceOwnership
    else composition.targetOwnership
  let change ← planTransition ownership transition managed.source managed.target
  draft.add transition change

/-! ### Structured changes -/

section Structured

variable (formats : Formats Document)

def applicationManifestPath : String := "hegira.toml"
def applicationManifestIntegration : String := "application-manifest"
def frameworkDependenciesIntegration : String := "framework-dependencies"

/-- A change that the loop over the managed sources leaves alone. -/
def Draft.addStructured (draft : Draft D) (path : String)
    (transition : ManagedIntegrationTransition) (change : PlannedFileChange D) :
    Except PlanningFailure (Draft D) := do
  let draft ← draft.add transition change
  return { draft with structuredPaths := insert path draft.structuredPaths }

/-- `plan_application_manifest`. -/
def planApplicationManifest (boundary : AuthenticatedUpgradeBoundary) (target : ApplicationManifest)
    (draft : Draft D) : Except PlanningFailure (Draft D) := do
  let managed ← requiredManagedSource boundary applicationManifestPath
    applicationManifestIntegration
  if managed.transition.kind ≠ .edit || managed.source ≠ some boundary.manifestSource then
    throw (planningError .incompatible "application-manifest")
  let some target := formats.toToml target
    | throw (planningError .incompatible "target-manifest")
  let edit ← (StructuredFileEdit.new applicationManifestPath boundary.manifestSource
    (intoBytes target)).mapError planError
  draft.addStructured applicationManifestPath managed.transition (.edit edit)

/-- One turn of the loop of `reject_removed_framework_dependencies`. -/
def addSourceName (repository version : String) (sourceNames : Finset String)
    (entry : String × Item) : Except PlanningFailure (Finset String) :=
  match entry.2.asTableLike with
  | none => return sourceNames
  | some declaration => do
      let repositoryMatches := (declaration.get "git").bind Item.asStr == some repository
      let versionMatches := (declaration.get "tag").bind Item.asStr == some version
      if repositoryMatches ≠ versionMatches then
        throw (planningError .conflict ("framework-dependency." ++ entry.1))
      return if repositoryMatches then insert entry.1 sourceNames else sourceNames

/-- The table `workspace.dependencies` of a manifest. -/
def workspaceDependencies (formats : Formats Document) (source : Bytes) : Option Table := do
  let source ← fromUtf8 source
  let document ← formats.table source
  document.find? ["workspace", "dependencies"]

/-- `reject_removed_framework_dependencies`. -/
def rejectRemovedFrameworkDependencies (source : Bytes) (repository version : String)
    (targets : List FrameworkDependency) : Except PlanningFailure Unit := do
  let some dependencies := workspaceDependencies formats source
    | throw (planningError .conflict "framework-dependencies")
  let sourceNames ← dependencies.foldlM (addSourceName repository version) ∅
  if ¬ sourceNames ⊆ (targets.map FrameworkDependency.name).toFinset then
    throw (planningError .unsupported "framework-dependency-removal")

/-- The release of a dependency as `CargoDependency::framework_release` has it. -/
def frameworkRelease (framework : FrameworkContract) (dependency : FrameworkDependency) :
    CargoDependency where
  name := dependency.name
  source := .frameworkRelease framework.repository framework.version
    (dependency.defaultFeatures.getD true)
  optional := false
  features := ∅

/-- The edit of one dependency: a transition, or an insertion where it is refused. -/
def planRelease (source target : FrameworkContract) (path : String) (current : Bytes)
    (dependency : FrameworkDependency) : Except PlanningFailure (StructuredEditOutcome D) :=
  match planCargoDependencyTransition formats.toml path current .workspaceDependencies
      (frameworkRelease source dependency) (frameworkRelease target dependency) with
  | .ok outcome => pure outcome
  | .error error =>
      if error.kind = .tomlConflict then
        (planCargoDependency formats.toml path current .workspaceDependencies
          (frameworkRelease target dependency)).mapError structuredEditError
      else throw (structuredEditError error)

/-- One turn of the loop over the dependencies of a manifest. -/
def moveDependency (D : Type) [ContentDigest D] [DecidableEq D] (source target : FrameworkContract)
    (path : String) (current : Bytes) (dependency : FrameworkDependency) :
    Except PlanningFailure Bytes := do
  let outcome : StructuredEditOutcome D ← planRelease formats source target path current dependency
  match outcome with
  | .planned _ edit => return edit.content
  | .alreadyPresent _ _ => throw (planningError .conflict "framework-dependencies")

/-- The content `plan_framework_dependencies` plans for one manifest. -/
def moveDependencies (D : Type) [ContentDigest D] [DecidableEq D] (source target : FrameworkContract)
    (path : String) (original : Bytes) (dependencies : List FrameworkDependency) :
    Except PlanningFailure Bytes := do
  rejectRemovedFrameworkDependencies formats original source.repository source.version dependencies
  dependencies.foldlM (moveDependency formats D source target path) original

/-- One turn of the loop of `plan_framework_dependencies`. -/
def planFrameworkManifest (boundary : AuthenticatedUpgradeBoundary) (draft : Draft D)
    (entry : String × List FrameworkDependency) : Except PlanningFailure (Draft D) := do
  let managed ← requiredManagedSource boundary entry.1 frameworkDependenciesIntegration
  if managed.transition.kind ≠ .edit then
    throw (planningError .incompatible "framework-dependencies")
  let original ← requiredSource managed.source
  let current ← moveDependencies formats D boundary.edge.source.framework
    boundary.edge.target.framework entry.1 original entry.2
  let edit ← (StructuredFileEdit.new entry.1 original current).mapError planError
  draft.addStructured entry.1 managed.transition (.edit edit)

/-- `by_manifest`: the dependencies by their manifests. -/
def byManifest (dependencies : List FrameworkDependency) :
    TreeMap String (List FrameworkDependency) :=
  dependencies.foldl (fun byManifest dependency =>
    byManifest.insert dependency.manifest
      (byManifest.getD dependency.manifest [] ++ [dependency])) ∅

/-- `plan_framework_dependencies`. -/
def planFrameworkDependencies (boundary : AuthenticatedUpgradeBoundary)
    (dependencies : List FrameworkDependency) (draft : Draft D) :
    Except PlanningFailure (Draft D) :=
  (byManifest dependencies).toList.foldlM (planFrameworkManifest formats boundary) draft

end Structured

/-! ### The plan -/

structure UpgradePlan (D : Type) [ContentDigest D] where
  edgeId : String
  source : UpgradeReleaseIdentity
  target : UpgradeReleaseIdentity
  sourcePackageDigest : String
  sourceBaselineDigest : String
  changePlan : ChangePlan D
  owners : TreeMap String UpgradeChangeOwner
  manifestTransitions : List UpgradeManifestTransition
  frameworkDependencies : List String
  targetComponents : List String
  targetModules : List String

/-- The changes of the plan, with their owners. -/
def draftUpgrade (formats : Formats Document) (boundary : AuthenticatedUpgradeBoundary)
    (dependencies : List FrameworkDependency) (target : ApplicationManifest) :
    Except PlanningFailure (Draft D) := do
  let draft ← planFrameworkDependencies formats boundary dependencies .empty
  let draft ← planApplicationManifest formats boundary target draft
  boundary.managedSources.foldlM (planManagedSource boundary.edge.composition) draft

/-- `UpgradePlan::from_authenticated`. -/
def UpgradePlan.fromAuthenticated (formats : Formats Document) (catalog : ManifestCatalog)
    (boundary : AuthenticatedUpgradeBoundary) : Except PlanningFailure (UpgradePlan D) := do
  let (graph, targetManifest) ← validatedTargetManifest formats catalog boundary
  let dependencies ← targetFrameworkDependencies catalog graph
  let draft ← draftUpgrade formats boundary dependencies targetManifest
  let changePlan ← (ChangePlan.new draft.changes).mapError newPlanError
  return {
    edgeId := boundary.edge.id
    source := boundary.edge.source
    target := boundary.edge.target
    sourcePackageDigest := boundary.sourcePackageDigest
    sourceBaselineDigest := boundary.sourceBaselineDigest
    changePlan
    owners := draft.owners
    manifestTransitions := Template.manifestTransitions boundary.application targetManifest
    frameworkDependencies := dependencies.map FrameworkDependency.name
    targetComponents := graph.components.map ResolvedComponent.id
    targetModules := graph.modules.map InstalledModule.id }

end Template
end Hegira
