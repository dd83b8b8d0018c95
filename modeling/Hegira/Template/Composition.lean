/-
# Composition resolution

`resolve` of `tools/template_renderer/src/composition.rs`: the components an
application asks for, closed under what they require, in an order that has every
component after what it needs, or the diagnostics that say why there is none.

The search is `DepthFirst.visit` over the component map.  Its recursion is fuelled:
`resolve` is `none` only when the fuel is used up.
-/

import Mathlib.Data.Finset.Sort
import Mathlib.Data.List.Destutter
import Mathlib.Order.WithBot
import Hegira.Library.Arrangement
import Hegira.Library.DepthFirst
import Hegira.Template.Manifest

namespace Hegira
namespace Template

open Std (TreeMap)

/-! ### Requests and results -/

structure CompositionRequest where
  framework : FrameworkContract
  package : PackageIdentity
  components : List String
  recordedModules : Option (List InstalledModule)
  recordedCapabilities : Option (Finset ApplicationCapability)

structure ResolvedComponent where
  id : String
  version : String
  requiredDependencies : List String
  optionalDependencies : List String
  modules : List String
  providesCapabilities : List ApplicationCapability
  requiresCapabilities : List ApplicationCapability
  installation : Option ComponentInstallationManifest
  deriving DecidableEq, Repr

structure ResolvedComposition where
  schema : ℕ
  framework : FrameworkContract
  package : PackageIdentity
  components : List ResolvedComponent
  modules : List InstalledModule
  capabilities : Finset ApplicationCapability
  deriving DecidableEq

def compositionGraphSchema : ℕ := 1

/-! ### Diagnostics -/

inductive CompositionDiagnosticKind where
  | packageUnavailable
  | invalidComponent
  | duplicateComponent
  | missingComponent
  | missingOptionalDependency
  | dependencyCycle
  | componentConflict
  | frameworkRepositoryMismatch
  | frameworkVersionMismatch
  | packageIdentityMismatch
  | packageVersionMismatch
  | componentVersionMismatch
  | undeclaredModule
  | duplicateModuleOwner
  | duplicateRecordedModule
  | missingRecordedModule
  | unexpectedRecordedModule
  | moduleVersionMismatch
  | missingCapability
  | recordedCapabilityMismatch
  | serialization
  deriving DecidableEq, Repr

structure CompositionDiagnostic where
  kind : CompositionDiagnosticKind
  subject : String
  related : Option String
  expected : Option String
  actual : Option String
  deriving DecidableEq, Repr

/-- The derived order compares the fields from the first to the last, and `None` is
the least. -/
def CompositionDiagnostic.sortKey (d : CompositionDiagnostic) :
    ℕ ×ₗ String ×ₗ WithBot String ×ₗ WithBot String ×ₗ WithBot String :=
  toLex (d.kind.ctorIdx, toLex (d.subject, toLex (d.related, toLex (d.expected, d.actual))))

theorem CompositionDiagnosticKind.ctorIdx_injective :
    Function.Injective CompositionDiagnosticKind.ctorIdx := by
  intro a b h
  cases a <;> cases b <;> first | rfl | cases h

theorem CompositionDiagnostic.sortKey_injective :
    Function.Injective CompositionDiagnostic.sortKey := by
  rintro ⟨k, s, r, e, a⟩ ⟨k', s', r', e', a'⟩ h
  obtain ⟨hk, h⟩ := Prod.ext_iff.1 (toLex.injective h)
  cases h
  obtain rfl : k = k' := CompositionDiagnosticKind.ctorIdx_injective hk
  rfl

instance : LinearOrder CompositionDiagnostic :=
  LinearOrder.lift' CompositionDiagnostic.sortKey CompositionDiagnostic.sortKey_injective

structure CompositionError where
  diagnostics : List CompositionDiagnostic
  deriving DecidableEq, Repr

/-- `CompositionError::from_diagnostics`: sorted, and without repetitions. -/
def CompositionError.fromDiagnostics (diagnostics : List CompositionDiagnostic) :
    CompositionError :=
  ⟨(diagnostics.mergeSort (· ≤ ·)).destutter (· ≠ ·)⟩

/-- Why `resolve` has no composition. -/
inductive Failure where
  | rejected (error : CompositionError)
  | panicked (message : String)
  deriving DecidableEq, Repr

/-! ### Resolution -/

/-- `valid_identifier`. -/
def validIdentifier (value : String) : Bool :=
  let characters := value.toList
  !characters.isEmpty
    && (characters.zipIdx.all fun (character, index) =>
      character.isLower || character.isDigit
        || (0 < index && (character == '-' || character == '_')))
    && characters.head?.any Char.isAlphanum

/-- `capability_name`. -/
def capabilityName : ApplicationCapability → String
  | .authentication => "authentication"
  | .authorization => "authorization"

/-- `format_capabilities`; a `BTreeSet` is in the order of the variants. -/
def formatCapabilities (capabilities : Finset ApplicationCapability) : String :=
  ",".intercalate
    (([.authentication, .authorization].filter (· ∈ capabilities)).map capabilityName)

/-- One row of `compatibility_diagnostics`. -/
def mismatch (kind : CompositionDiagnosticKind) (subject expected actual : String) :
    List CompositionDiagnostic :=
  if expected ≠ actual then [⟨kind, subject, none, some expected, some actual⟩] else []

/-- `compatibility_diagnostics`. -/
def compatibilityDiagnostics (package : ComponentPackageManifest) (request : CompositionRequest) :
    List CompositionDiagnostic :=
  mismatch .frameworkRepositoryMismatch "framework.repository"
      package.framework.repository request.framework.repository
    ++ mismatch .frameworkVersionMismatch "framework.version"
      package.framework.version request.framework.version
    ++ mismatch .packageIdentityMismatch "package.id" package.id request.package.id
    ++ mismatch .packageVersionMismatch "package.version" package.version request.package.version

/-- One turn of the loop over the requested components. -/
def addRoot (acc : Finset String × List CompositionDiagnostic) (component : String) :
    Finset String × List CompositionDiagnostic :=
  if !validIdentifier component then
    (acc.1, acc.2 ++ [⟨.invalidComponent, component, none, none, none⟩])
  else if component ∈ acc.1 then
    (acc.1, acc.2 ++ [⟨.duplicateComponent, component, none, none, none⟩])
  else (insert component acc.1, acc.2)

/-- The roots of a request, and what is wrong with them. -/
def collectRoots (components : List String) : Finset String × List CompositionDiagnostic :=
  components.foldl addRoot (∅, [])

/-- What `visit` follows and reports. -/
def graph (components : Components) : DepthFirst.Graph String CompositionDiagnostic where
  next id := components[id]?.map ComponentManifest.requires
  cycle stack id :=
    let start := (stack.idxOf? id).getD 0
    ⟨.dependencyCycle, id, some (" -> ".intercalate (stack.drop start ++ [id])), none, none⟩
  missing id requiredBy := ⟨.missingComponent, id, requiredBy, none, none⟩

/-- `visit` of the roots, one after another. -/
def visitRoots (fuel : ℕ) (components : Components) (roots : Finset String) :
    Option (DepthFirst.Search String CompositionDiagnostic) :=
  DepthFirst.visitAll (graph components) fuel (roots.sort (· ≤ ·)) none .start

/-- The diagnostics of one selected component. -/
def componentDiagnostics (package : ComponentPackageManifest) (components : Components)
    (selected : Finset String) (id : String) (component : ComponentManifest) :
    List CompositionDiagnostic :=
  let version := component.version.getD ""
  (if version ≠ package.version then
      [⟨.componentVersionMismatch, id, none, some package.version, some version⟩] else [])
    ++ (component.optionalDependencies.filter (!components.contains ·)).map
      (⟨.missingOptionalDependency, ·, some id, none, none⟩)
    ++ (component.conflicts.filter (· ∈ selected)).map (fun conflict =>
      if id < conflict then ⟨.componentConflict, id, some conflict, none, none⟩
      else ⟨.componentConflict, conflict, some id, none, none⟩)
    ++ (component.modules.filter (· ∉ package.modules)).map
      (⟨.undeclaredModule, ·, some id, none, none⟩)

/-- The capabilities the selected components provide. -/
def providedCapabilities (ordered : List (String × ComponentManifest)) :
    Finset ApplicationCapability :=
  ordered.foldl (fun provided entry => provided ∪ entry.2.providesCapabilities.toFinset) ∅

/-- `module_owners.entry(module).or_default().push(id)`. -/
def addOwner (id : String) (owners : TreeMap String (List String)) (module : String) :
    TreeMap String (List String) :=
  owners.insert module (owners.getD module [] ++ [id])

/-- Who owns which module. -/
def moduleOwners (ordered : List (String × ComponentManifest)) : TreeMap String (List String) :=
  ordered.foldl (fun owners entry => entry.2.modules.foldl (addOwner entry.1) owners) ∅

/-- The capabilities one selected component misses. -/
def capabilityDiagnostics (provided : Finset ApplicationCapability) (id : String)
    (component : ComponentManifest) : List CompositionDiagnostic :=
  (component.requiresCapabilities.filter (· ∉ provided)).map
    fun capability => ⟨.missingCapability, capabilityName capability, some id, none, none⟩

/-- The modules with more than one owner. -/
def ownerDiagnostics (owners : TreeMap String (List String)) : List CompositionDiagnostic :=
  (owners.toList.filter fun entry => 1 < entry.2.length).map
    fun entry => ⟨.duplicateModuleOwner, entry.1, some (",".intercalate entry.2), none, none⟩

/-- One turn of the loop over the recorded modules. -/
def addRecorded (acc : TreeMap String String × List CompositionDiagnostic)
    (module : InstalledModule) : TreeMap String String × List CompositionDiagnostic :=
  (acc.1.insert module.id module.version,
    if acc.1.contains module.id then
      acc.2 ++ [⟨.duplicateRecordedModule, module.id, none, none, none⟩]
    else acc.2)

/-- An expected module against the recorded version. -/
def expectModule (id version : String) : Option String → List CompositionDiagnostic
  | none => [⟨.missingRecordedModule, id, none, some version, none⟩]
  | some actualVersion =>
      if actualVersion ≠ version then
        [⟨.moduleVersionMismatch, id, none, some version, some actualVersion⟩]
      else []

/-- The first half of `validate_recorded_state`. -/
def recordedModuleDiagnostics (modules recorded : List InstalledModule) :
    List CompositionDiagnostic :=
  let expected : TreeMap String String :=
    modules.foldl (fun expected module => expected.insert module.id module.version) ∅
  let (actual, duplicates) := recorded.foldl addRecorded (∅, [])
  duplicates
    ++ expected.toList.flatMap (fun (id, version) => expectModule id version actual[id]?)
    ++ (actual.toList.filter fun entry => !expected.contains entry.1).map
      (fun entry => ⟨.unexpectedRecordedModule, entry.1, none, none, some entry.2⟩)

/-- `validate_recorded_state`. -/
def validateRecordedState (modules : List InstalledModule)
    (capabilities : Finset ApplicationCapability) (request : CompositionRequest) :
    List CompositionDiagnostic :=
  request.recordedModules.elim [] (recordedModuleDiagnostics modules)
    ++ request.recordedCapabilities.elim [] fun recorded =>
      if recorded ≠ capabilities then
        [⟨.recordedCapabilityMismatch, "capabilities", none,
          some (formatCapabilities capabilities), some (formatCapabilities recorded)⟩]
      else []

/-- The index `components[id]`. -/
def component (components : Components) (id : String) :
    Except Failure (String × ComponentManifest) :=
  match components[id]? with
  | some component => .ok (id, component)
  | none => .error (.panicked "no entry found for key")

/-- A component of the result. -/
def resolvedComponent (entry : String × ComponentManifest) : Except Failure ResolvedComponent :=
  match entry.2.version with
  | some version =>
      .ok {
        id := entry.1
        version
        requiredDependencies := entry.2.requires
        optionalDependencies := entry.2.optionalDependencies
        modules := entry.2.modules
        providesCapabilities := entry.2.providesCapabilities
        requiresCapabilities := entry.2.requiresCapabilities
        installation := entry.2.installation }
  | none => .error (.panicked "packaged components require a validated version")

/-- The modules of the result. -/
def installedModules (package : ComponentPackageManifest)
    (ordered : List (String × ComponentManifest)) : List InstalledModule :=
  (moduleOwners ordered).keys.map (⟨·, package.version⟩)

/-- What is wrong with the components in the order of the search. -/
def selectionDiagnostics (package : ComponentPackageManifest) (components : Components)
    (request : CompositionRequest) (ordered : List (String × ComponentManifest)) :
    List CompositionDiagnostic :=
  let selected := (ordered.map Prod.fst).toFinset
  let provided := providedCapabilities ordered
  ordered.flatMap (fun entry => componentDiagnostics package components selected entry.1 entry.2)
    ++ ordered.flatMap (fun entry => capabilityDiagnostics provided entry.1 entry.2)
    ++ ownerDiagnostics (moduleOwners ordered)
    ++ validateRecordedState (installedModules package ordered) provided request

/-- The rest of `resolve`, after the search. -/
def conclude (package : ComponentPackageManifest) (components : Components)
    (request : CompositionRequest) (diagnostics : List CompositionDiagnostic)
    (ids : List String) : Except Failure ResolvedComposition := do
  let ordered ← ids.mapM (component components)
  let diagnostics := diagnostics ++ selectionDiagnostics package components request ordered
  if diagnostics ≠ [] then
    throw (.rejected (.fromDiagnostics diagnostics))
  let resolved ← ordered.mapM resolvedComponent
  return {
    schema := compositionGraphSchema
    framework := package.framework
    package := ⟨package.id, package.version⟩
    components := resolved
    modules := installedModules package ordered
    capabilities := providedCapabilities ordered }

/-- `resolve`. -/
def resolve (fuel : ℕ) (package : ComponentPackageManifest) (components : Components)
    (request : CompositionRequest) : Option (Except Failure ResolvedComposition) := do
  let (roots, rootDiagnostics) := collectRoots request.components
  let search ← visitRoots fuel components roots
  return conclude package components request
    (compatibilityDiagnostics package request ++ rootDiagnostics ++ search.reports)
    search.ordered

end Template
end Hegira
