/-
# Package manifests

The manifests of a component package, from `tools/template_renderer/src/manifest.rs`,
with the checks each of them passes when it is read.

A `PathBuf` is the list of its components, which is what the source compares, orders and
joins it by; a message shows a path in its canonical spelling.  The manifest of a
`FrameworkDependency` keeps its text, since the upgrade planner reads it.
-/

import Mathlib.Data.List.Lex
import Mathlib.Order.Std
import Std.Data.TreeMap
import Hegira.Template.ApplicationManifest

namespace Hegira
namespace Template

open Std (TreeMap)

/-! ### Paths -/

/-- `std::path::Component` on Unix, with the bytes of a name. -/
inductive PathComponent where
  | rootDir
  | curDir
  | parentDir
  | normal (name : List UInt8)
  deriving DecidableEq, Repr

/-- The derived order: the variants from the first to the last, then the bytes. -/
def PathComponent.sortKey : PathComponent → ℕ ×ₗ List ℕ
  | .rootDir => toLex (0, [])
  | .curDir => toLex (1, [])
  | .parentDir => toLex (2, [])
  | .normal name => toLex (3, name.map UInt8.toNat)

theorem PathComponent.sortKey_injective : Function.Injective PathComponent.sortKey := by
  have hmap : Function.Injective (List.map UInt8.toNat) :=
    List.map_injective_iff.2 fun _ _ => UInt8.toNat_inj.1
  intro a b h
  cases a <;> cases b <;> simp [sortKey, hmap.eq_iff] at h ⊢
  exact h

instance : LinearOrder PathComponent :=
  LinearOrder.lift' PathComponent.sortKey PathComponent.sortKey_injective

structure PathBuf where
  components : List PathComponent
  deriving DecidableEq, Repr

namespace PathBuf

theorem components_injective : Function.Injective PathBuf.components := by
  rintro ⟨a⟩ ⟨b⟩ rfl
  rfl

instance : LinearOrder PathBuf := LinearOrder.lift' components components_injective

instance : Std.LawfulEqOrd PathBuf := ⟨compare_eq_iff_eq.1⟩

/-- The component of one segment between slashes. -/
def ofSegment (segment : List UInt8) : Option PathComponent :=
  if segment = [] || segment = ['.'.toUInt8] then none
  else if segment = ['.'.toUInt8, '.'.toUInt8] then some .parentDir
  else some (.normal segment)

/-- `Path::components`: a leading slash is the root, a leading `.` of a relative path
is kept. -/
def ofBytes (text : List UInt8) : PathBuf :=
  let segments := text.splitOn '/'.toUInt8
  let start := if text.head? = some '/'.toUInt8 then [.rootDir]
    else if segments.head? = some ['.'.toUInt8] then [.curDir] else []
  ⟨start ++ segments.filterMap ofSegment⟩

def ofString (text : String) : PathBuf := ofBytes text.toUTF8.toList

def isAbsolute (path : PathBuf) : Bool := path.components.head? == some .rootDir

/-- `Path::join`: an absolute path replaces what it is joined to, and the leading `.`
of a path that is joined to another one is dropped. -/
def join (path other : PathBuf) : PathBuf :=
  if other.isAbsolute || path.components = [] then other
  else ⟨path.components ++ other.components.filter (· ≠ .curDir)⟩

/-- `Path::starts_with`. -/
def startsWith (path root : PathBuf) : Bool := root.components.isPrefixOf path.components

/-- `Path::parent`. -/
def parent (path : PathBuf) : Option PathBuf :=
  match path.components.getLast? with
  | none | some .rootDir => none
  | some _ => some ⟨path.components.dropLast⟩

/-- `Path::file_name`. -/
def fileName (path : PathBuf) : Option (List UInt8) :=
  match path.components.getLast? with
  | some (.normal name) => some name
  | _ => none

/-- `Path::extension`: what follows the last dot of a name that does not start with it. -/
def extension (path : PathBuf) : Option (List UInt8) := do
  let name ← path.fileName
  let parts := name.splitOn '.'.toUInt8
  if parts.length < 2 || parts.dropLast = [[]] then none else parts.getLast?

/-- `validate_relative_path` accepts it. -/
def isRelative (path : PathBuf) : Bool :=
  path.components != [] && path.components.all fun
    | .normal _ | .curDir => true
    | .rootDir | .parentDir => false

end PathBuf

/-! ### Manifests -/

inductive ComponentInstallationContribution where
  | authenticationSeed
  | backgroundJobs
  | bearerApiRoutes
  | capabilityPreflight
  | configuration
  | cookieBffRoutes
  | leptosNavigation
  | leptosRoutes
  | openapi
  | postgresMigrationSource
  | sqliteMigrationSource
  deriving DecidableEq, Repr

instance : LinearOrder ComponentInstallationContribution :=
  LinearOrder.lift' ComponentInstallationContribution.ctorIdx fun a b h => by
    cases a <;> cases b <;> first | rfl | cases h

structure FrameworkDependency where
  manifest : String
  name : String
  path : PathBuf
  defaultFeatures : Option Bool
  deriving DecidableEq, Repr

structure ComponentInstallationManifest where
  module : String
  databases : List DatabaseAdapter
  clients : List ClientAdapter
  contributions : List ComponentInstallationContribution
  frameworkDependencies : List FrameworkDependency
  deriving DecidableEq, Repr

structure ComponentManifest where
  schema : ℕ
  id : String
  version : Option String := none
  source : PathBuf
  «include» : List PathBuf := []
  requires : List String := []
  conflicts : List String := []
  optionalDependencies : List String := []
  modules : List String := []
  providesCapabilities : List ApplicationCapability := []
  requiresCapabilities : List ApplicationCapability := []
  frameworkDependencies : List FrameworkDependency := []
  installation : Option ComponentInstallationManifest := none
  deriving DecidableEq, Repr

instance : Inhabited ComponentManifest := ⟨{ schema := 0, id := "", source := ⟨[]⟩ }⟩

structure ComponentPackageManifest where
  schema : ℕ
  id : String
  version : String
  framework : FrameworkContract
  templates : List String
  components : List String
  modules : List String
  upgradeEdges : List PathBuf := []
  upgradeLockfiles : List PathBuf := []
  contentDigest : String
  deriving DecidableEq, Repr

/-- The components of a package, by their ids. -/
abbrev Components := TreeMap String ComponentManifest

def hegiraFrameworkRepository : String := "https://github.com/furkancemalcaliskan/hegira.git"
def hegiraComponentPackage : String := "hegira-canonical"

/-! ### Errors -/

inductive UpgradeGraphDiagnosticKind where
  | invalidManifest
  | invalidSchema
  | invalidIdentifier
  | invalidReleaseIdentity
  | invalidReleaseVersion
  | targetReleaseMismatch
  | nonDirectRelease
  | duplicateEdge
  | duplicateReleaseEdge
  | emptyCompositionSet
  | duplicateComposition
  | nonCanonicalComposition
  | undeclaredComponent
  | undeclaredModule
  | undeclaredCapability
  | unsupportedAdapter
  | targetCompositionMismatch
  | adapterChange
  | ambiguousSourceComposition
  | duplicateManifestTransition
  | invalidManagedPath
  | invalidDigest
  | invalidOwnership
  | undeclaredManagedPath
  | conflictingManagedTransition
  | limitExceeded
  deriving DecidableEq, Repr

/-- `graph_diagnostic_kind_name`. -/
def UpgradeGraphDiagnosticKind.name : UpgradeGraphDiagnosticKind → String
  | .invalidManifest => "invalid-manifest"
  | .invalidSchema => "invalid-schema"
  | .invalidIdentifier => "invalid-identifier"
  | .invalidReleaseIdentity => "invalid-release-identity"
  | .invalidReleaseVersion => "invalid-release-version"
  | .targetReleaseMismatch => "target-release-mismatch"
  | .nonDirectRelease => "non-direct-release"
  | .duplicateEdge => "duplicate-edge"
  | .duplicateReleaseEdge => "duplicate-release-edge"
  | .emptyCompositionSet => "empty-composition-set"
  | .duplicateComposition => "duplicate-composition"
  | .nonCanonicalComposition => "non-canonical-composition"
  | .undeclaredComponent => "undeclared-component"
  | .undeclaredModule => "undeclared-module"
  | .undeclaredCapability => "undeclared-capability"
  | .unsupportedAdapter => "unsupported-adapter"
  | .targetCompositionMismatch => "target-composition-mismatch"
  | .adapterChange => "adapter-change"
  | .ambiguousSourceComposition => "ambiguous-source-composition"
  | .duplicateManifestTransition => "duplicate-manifest-transition"
  | .invalidManagedPath => "invalid-managed-path"
  | .invalidDigest => "invalid-digest"
  | .invalidOwnership => "invalid-ownership"
  | .undeclaredManagedPath => "undeclared-managed-path"
  | .conflictingManagedTransition => "conflicting-managed-transition"
  | .limitExceeded => "limit-exceeded"

structure UpgradeGraphDiagnostic where
  kind : UpgradeGraphDiagnosticKind
  subject : String
  deriving DecidableEq, Repr

structure RendererError where
  message : String
  upgradeGraphDiagnostic : Option UpgradeGraphDiagnostic
  deriving DecidableEq, Repr

/-- How a function of the catalog stops without a result. -/
inductive Fault where
  | error (error : RendererError)
  | panicked (message : String)
  deriving DecidableEq, Repr

/-- `RendererError::new`. -/
def rendererError (message : String) : Fault := .error ⟨message, none⟩

/-- `graph_error`. -/
def graphError (kind : UpgradeGraphDiagnosticKind) (subject : String) : Fault :=
  .error ⟨s!"{kind.name}: {subject}", some ⟨kind, subject⟩⟩

/-! ### Checks -/

/-- `if condition { return Err(fault) }`. -/
def rejectIf (condition : Prop) [Decidable condition] (fault : Fault) : Except Fault Unit :=
  if condition then throw fault else pure ()

@[simp] theorem rejectIf_eq_ok {condition : Prop} [Decidable condition] {fault : Fault} {u : Unit} :
    rejectIf condition fault = .ok u ↔ ¬condition := by
  by_cases h : condition <;> simp [rejectIf, h, pure, Except.pure, throw, throwThe,
    MonadExceptOf.throw]

/-- `values.windows(2).any(|pair| pair[0] >= pair[1])`. -/
def unsorted {α : Type*} [LinearOrder α] (values : List α) : Bool :=
  (values.zip values.tail).any fun pair => pair.2 ≤ pair.1

/-- `validate_identifier` accepts it. -/
def isIdentifier (value : String) : Bool :=
  let characters := value.toList
  !characters.isEmpty
    && (characters.zipIdx.all fun (character, index) =>
      character.isLower || character.isDigit
        || (0 < index && (character == '-' || character == '_')))
    && characters.head?.any Char.isAlphanum

/-- `validate_identifier`. -/
def validateIdentifier (value kind : String) : Except Fault Unit :=
  rejectIf (!isIdentifier value) (rendererError s!"invalid {kind} identifier: {value}")

end Template
end Hegira
