/-
# Contracts of the application manifest

What the package tools read of `crates/application_manifest/src/lib.rs`: the framework
contract, the adapters and capabilities of an application, and the ownership of its
source files with `SourceOwnership::validate`.

`url` and `semver` are third-party crates; their parsers are parameters.
-/

import Mathlib.Order.WithBot
import Mathlib.Data.Prod.Lex
import Mathlib.Data.UInt
import Hegira.Mutator.ChangePath

namespace Hegira
namespace Template

/-! ### Third-party values -/

/-- `url::Host`. -/
inductive Host where
  | domain (name : String)
  | ipv4 (a b c d : UInt8)
  | ipv6 (segments : List UInt16)
  deriving DecidableEq, Repr

/-- What is read of a `url::Url`. -/
structure Url where
  scheme : String
  username : String
  password : Option String
  host : Option Host
  path : String
  query : Option String
  fragment : Option String
  deriving DecidableEq, Repr

/-- `semver::Version`; the identifiers after the numbers are texts. -/
structure Version where
  major : UInt64
  minor : UInt64
  patch : UInt64
  pre : String
  build : String
  deriving DecidableEq, Repr

/-- The parsers of `url` and `semver`. -/
structure Parsers where
  url : String → Option Url
  version : String → Option Version

/-! ### Enumerations

The derived order of an enumeration is the order of its variants. -/

inductive ApplicationCapability where
  | authentication
  | authorization
  deriving DecidableEq, Repr

instance : LinearOrder ApplicationCapability :=
  LinearOrder.lift' ApplicationCapability.ctorIdx fun a b h => by
    cases a <;> cases b <;> first | rfl | cases h

inductive DatabaseAdapter where
  | postgres
  | sqlite
  deriving DecidableEq, Repr

instance : LinearOrder DatabaseAdapter :=
  LinearOrder.lift' DatabaseAdapter.ctorIdx fun a b h => by
    cases a <;> cases b <;> first | rfl | cases h

inductive ClientAdapter where
  | leptos
  deriving DecidableEq, Repr

instance : LinearOrder ClientAdapter :=
  LinearOrder.lift' ClientAdapter.ctorIdx fun a b _ => by cases a; cases b; rfl

inductive SourceOwnershipClass where
  | applicationOwned
  | managedIntegration
  | generatedOnce
  | immutableHistory
  deriving DecidableEq, Repr

instance : LinearOrder SourceOwnershipClass :=
  LinearOrder.lift' SourceOwnershipClass.ctorIdx fun a b h => by
    cases a <;> cases b <;> first | rfl | cases h

/-! ### Records -/

structure FrameworkContract where
  repository : String
  version : String
  deriving DecidableEq, Repr

structure PackageIdentity where
  id : String
  version : String
  deriving DecidableEq, Repr

structure InstalledComponent where
  id : String
  version : String
  deriving DecidableEq, Repr

structure InstalledModule where
  id : String
  version : String
  deriving DecidableEq, Repr

structure SourceOwnershipClaim where
  path : String
  «class» : SourceOwnershipClass
  integration : Option String
  deriving DecidableEq, Repr

structure SourceOwnership where
  default : SourceOwnershipClass
  claims : List SourceOwnershipClaim
  deriving DecidableEq, Repr

/-- What the modelled checks report of `ManifestError`. -/
inductive ManifestError where
  | parse (message : String)
  | unsupportedSchema (schema : ℕ)
  | invalidApplicationName (name : String)
  | invalidFrameworkRepository (repository : String)
  | invalidFrameworkVersion (version : String)
  | invalidComponent (component : String)
  | invalidModule (module : String)
  | invalidPackage (package : String)
  | unsupportedComponent (component : String)
  | missingComposition
  | missingUpgradeState
  | invalidOwnershipDefault
  | invalidOwnershipPath (path : String)
  | invalidOwnershipIntegration (integration : String)
  | invalidOwnershipClaim (reason : String)
  | duplicateOwnership (path : String) (integration : Option String)
  | overlappingOwnership (first second : String)
  | inconsistentUpgradeState (reason : String)
  | duplicateIdentity (kind identity : String)
  | emptyDatabaseSelection
  | emptyClientSelection
  | incompatibleSelection (reason : String)
  deriving DecidableEq, Repr

/-! ### Framework contract -/

def Host.isLocal : Host → Bool
  | .domain name => name.map Char.toLower == "localhost"
  | .ipv4 a _ _ _ => a == 127
  | .ipv6 segments => segments == [0, 0, 0, 0, 0, 0, 0, 1]

/-- `validate_release_version`. -/
def validReleaseVersion (parsers : Parsers) (version : String) : Bool :=
  match version.toList with
  | 'v' :: rest =>
      (parsers.version (String.ofList rest)).any fun parsed => parsed.pre == "" && parsed.build == ""
  | _ => false

/-- `validate_framework_contract`. -/
def FrameworkContract.validate (parsers : Parsers) (contract : FrameworkContract) :
    Except ManifestError Unit := do
  let some repository := parsers.url contract.repository
    | throw (.invalidFrameworkRepository contract.repository)
  if repository.scheme ≠ "https" || repository.host.all Host.isLocal
      || repository.username ≠ "" || repository.password.isSome || repository.query.isSome
      || repository.fragment.isSome || !".git".toList.isSuffixOf repository.path.toList then
    throw (.invalidFrameworkRepository contract.repository)
  if !validReleaseVersion parsers contract.version then
    throw (.invalidFrameworkVersion contract.version)

/-! ### Source ownership -/

/-- `validate_component_identifier`. -/
def validComponentIdentifier (component : String) : Bool :=
  let characters := component.toList
  !characters.isEmpty
    && (characters.zipIdx.all fun (character, index) =>
      character.isLower || character.isDigit
        || (character == '-' && 0 < index && index + 1 < characters.length
          && characters[index - 1]? != some '-'))
    && characters.head?.any Char.isLower

/-- `validate_ownership_path`. -/
def validateOwnershipPath (value : String) : Except ManifestError Unit := do
  if value = "" || 4096 < value.utf8ByteSize || value.toList.contains '\\'
      || value.toList.any Mutator.isControl || value.toList.head? = some '/' then
    throw (.invalidOwnershipPath value)
  let normalized ← (Mutator.normalizedSegments (Mutator.components value)).mapError
    fun _ => .invalidOwnershipPath value
  if "/".intercalate normalized ≠ value then
    throw (.invalidOwnershipPath value)

/-- `validate_ownership_integration`. -/
def validateOwnershipIntegration (value : String) : Except ManifestError Unit :=
  if 128 < value.utf8ByteSize || !validComponentIdentifier value then
    throw (.invalidOwnershipIntegration value)
  else pure ()

/-- `ownership_paths_overlap`. -/
def ownershipPathsOverlap (left right : String) : Bool :=
  left == right || (right ++ "/").toList.isPrefixOf left.toList
    || (left ++ "/").toList.isPrefixOf right.toList

/-- The integration of a claim against its class. -/
def SourceOwnershipClaim.validateIntegration (claim : SourceOwnershipClaim) :
    Except ManifestError Unit :=
  match claim.class, claim.integration with
  | .managedIntegration, some integration => validateOwnershipIntegration integration
  | .managedIntegration, none =>
      throw (.invalidOwnershipClaim
        s!"managed integration claim {claim.path} has no integration identity")
  | _, some _ =>
      throw (.invalidOwnershipClaim
        s!"non-managed ownership claim {claim.path} cannot name an integration")
  | _, none => pure ()

/-- One turn of the first loop of `SourceOwnership::validate`. -/
def SourceOwnershipClaim.validate (identities : Finset (String × Option String))
    (claim : SourceOwnershipClaim) : Except ManifestError (Finset (String × Option String)) := do
  validateOwnershipPath claim.path
  claim.validateIntegration
  if (claim.path, claim.integration) ∈ identities then
    throw (.duplicateOwnership claim.path claim.integration)
  return insert (claim.path, claim.integration) identities

/-- Two claims that no file may be under together. -/
def SourceOwnershipClaim.conflicts (left right : SourceOwnershipClaim) : Bool :=
  !(left.path == right.path && left.class == .managedIntegration
      && right.class == .managedIntegration)
    && ownershipPathsOverlap left.path right.path

/-- The second loop of `SourceOwnership::validate`: each claim against the later ones. -/
def rejectOverlaps : List SourceOwnershipClaim → Except ManifestError Unit
  | [] => pure ()
  | left :: claims => do
      if let some right := claims.find? left.conflicts then
        throw (.overlappingOwnership left.path right.path)
      rejectOverlaps claims

/-- `SourceOwnership::validate`. -/
def SourceOwnership.validate (ownership : SourceOwnership) : Except ManifestError Unit := do
  if ownership.default ≠ .applicationOwned then
    throw .invalidOwnershipDefault
  if 4096 < ownership.claims.length then
    throw (.invalidOwnershipClaim "source ownership may contain at most 4096 explicit claims")
  let _ ← ownership.claims.foldlM SourceOwnershipClaim.validate ∅
  rejectOverlaps ownership.claims

end Template
end Hegira
