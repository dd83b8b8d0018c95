/-
# Validation of the application manifest

`ApplicationManifest::validate`, `from_toml` and `normalize` of
`crates/application_manifest/src/lib.rs`.  The decoder of TOML is a parameter (`Toml`).

A composition is accepted exactly when it is `Composed`, which does not depend on the
order of its lists, and neither do the claims of an ownership; so a manifest and its
normal form pass the same checks (`ApplicationComposition.validate_normalize`,
`ApplicationUpgradeState.validate_normalize`).
-/

import Hegira.Destination.Publish
import Hegira.Template.Ownership
import Hegira.Template.UpgradeResolution
import Hegira.Template.UpgradePlanning

namespace Hegira
namespace Template

open Arrangement (sortBy sortBy_perm)
open Destination (reservedProjectName)
open Validation

def compositionApplicationManifestSchema : ℕ := 2

def legacyApplicationManifestSchema : ℕ := 1

def layeredBaseComponent : String := "layered-base"

def layeredLeptosIdentityComponent : String := "layered-leptos-identity"

def layeredLeptosMinimalComponent : String := "layered-leptos-minimal"

def identityComponent : String := "identity"

def identityModule : String := "identity"

def supportedComponents : List String :=
  [layeredBaseComponent, layeredLeptosIdentityComponent, layeredLeptosMinimalComponent,
    identityComponent]

/-! ### Texts of sets -/

/-- A set is written as its elements in order. -/
def formatNames (names : List String) : String := "[" ++ ", ".intercalate names ++ "]"

def formatStringSet (values : Finset String) : String := formatNames (values.sort (· ≤ ·))

def databaseName : DatabaseAdapter → String
  | .postgres => "postgres"
  | .sqlite => "sqlite"

def clientName : ClientAdapter → String
  | .leptos => "leptos"

def formatDatabaseSet (values : Finset DatabaseAdapter) : String :=
  formatNames ((values.sort (· ≤ ·)).map databaseName)

def formatClientSet (values : Finset ClientAdapter) : String :=
  formatNames ((values.sort (· ≤ ·)).map clientName)

def formatCapabilitySet (values : Finset ApplicationCapability) : String :=
  formatNames ((values.sort (· ≤ ·)).map capabilityName)

/-- `Display` of `ManifestError`. -/
def ManifestError.text : ManifestError → String
  | .parse message => s!"invalid application manifest: {message}"
  | .unsupportedSchema schema =>
      s!"unsupported application manifest schema {schema}; expected {applicationManifestSchema}"
  | .invalidApplicationName name => s!"invalid application manifest name: {name}"
  | .invalidFrameworkRepository repository =>
      s!"invalid framework repository in application manifest: {repository}"
  | .invalidFrameworkVersion version =>
      s!"invalid framework version in application manifest: {version}"
  | .invalidComponent component => s!"invalid component identifier: {component}"
  | .invalidModule module => s!"invalid module identifier: {module}"
  | .invalidPackage package => s!"invalid component package identity: {package}"
  | .unsupportedComponent component => s!"unsupported application component: {component}"
  | .missingComposition => "current application manifest has no composition state"
  | .missingUpgradeState => "schema-3 application manifest has no upgrade state"
  | .invalidOwnershipDefault => "source ownership default must be application-owned"
  | .invalidOwnershipPath path => s!"invalid source ownership path: {path}"
  | .invalidOwnershipIntegration integration =>
      s!"invalid managed integration identity: {integration}"
  | .invalidOwnershipClaim reason => s!"invalid source ownership claim: {reason}"
  | .duplicateOwnership path none => s!"duplicate source ownership claim for {path}"
  | .duplicateOwnership path (some integration) =>
      s!"duplicate source ownership claim for {path} integration {integration}"
  | .overlappingOwnership first second =>
      s!"overlapping source ownership paths: {first} and {second}"
  | .inconsistentUpgradeState reason => s!"inconsistent application upgrade state: {reason}"
  | .duplicateIdentity kind identity => s!"duplicate {kind} identity: {identity}"
  | .emptyDatabaseSelection => "application manifest selects no database adapter"
  | .emptyClientSelection => "application manifest selects no client adapter"
  | .incompatibleSelection reason => s!"incompatible application selection: {reason}"

/-! ### Checks -/

def validateApplicationName (name : String) : Except ManifestError Unit :=
  if name.utf8ByteSize ≤ 64 && validComponentIdentifier name && !reservedProjectName name then
    .ok ()
  else
    .error (.invalidApplicationName name)

def validateComponentIdentifier (component : String) : Except ManifestError Unit :=
  if validComponentIdentifier component then .ok () else .error (.invalidComponent component)

def validateModuleIdentifier (module : String) : Except ManifestError Unit :=
  if validComponentIdentifier module then .ok () else .error (.invalidModule module)

/-- The identity of a package, as it is checked twice. -/
def validatePackageId (id : String) : Except ManifestError Unit :=
  if validComponentIdentifier id then .ok () else .error (.invalidPackage id)

section Checks

variable (parsers : Parsers)

def validatePackageVersion (version : String) : Except ManifestError Unit :=
  if validReleaseVersion parsers version then .ok () else .error (.invalidPackage version)

def validateLegacySelection (selection : ApplicationSelection) : Except ManifestError Unit := do
  if selection.databases = ∅ then throw .emptyDatabaseSelection
  if selection.clients = ∅ then throw .emptyClientSelection
  (selection.components.sort (· ≤ ·)).forM fun component => do
    validateComponentIdentifier component
    if component ∉ supportedComponents then throw (.unsupportedComponent component)
  if layeredBaseComponent ∉ selection.components then
    throw (.incompatibleSelection "every layered application requires layered-base")
  if .leptos ∈ selection.clients ∧ layeredLeptosIdentityComponent ∉ selection.components then
    throw (.incompatibleSelection "the Leptos client requires layered-leptos-identity")

def validateCurrentSelection (selection : ApplicationSelection) : Except ManifestError Unit := do
  if selection.databases.card ≠ 1 then
    throw (.incompatibleSelection "current manifests must select exactly one database adapter")
  if selection.clients.card ≠ 1 then
    throw (.incompatibleSelection "current manifests must select exactly one client adapter")

/-- A turn of the loops of `validate_composition` over components and modules. -/
def validateInstalled (kind : String) (validateIdentifier : String → Except ManifestError Unit)
    (packageVersion : String) (seen : Finset String) (installed : String × String) :
    Except ManifestError (Finset String) := do
  let (id, version) := installed
  validateIdentifier id
  if id ∈ seen then throw (.duplicateIdentity kind id)
  if !validReleaseVersion parsers version then
    throw (.incompatibleSelection s!"{kind} {id} has invalid version {version}")
  if version ≠ packageVersion then
    throw (.incompatibleSelection
      s!"{kind} {id} version {version} does not match package version {packageVersion}")
  return insert id seen

def InstalledComponent.pair (component : InstalledComponent) : String × String :=
  (component.id, component.version)

def InstalledModule.pair (module : InstalledModule) : String × String :=
  (module.id, module.version)

def expectedCapabilities (identity : Bool) : Finset ApplicationCapability :=
  if identity then {.authentication, .authorization} else ∅

/-- `validate_composition`. -/
def ApplicationComposition.validate (composition : ApplicationComposition) (framework : FrameworkContract) :
    Except ManifestError Unit := do
  validatePackageId composition.package.id
  if composition.package.id ≠ hegiraComponentPackage then
    throw (.invalidPackage composition.package.id)
  validatePackageVersion parsers composition.package.version
  if composition.package.version ≠ framework.version then
    throw (.incompatibleSelection
      s!"component package version {composition.package.version} does not match framework version {framework.version}")
  let componentIds ← (composition.components.map InstalledComponent.pair).foldlM
    (validateInstalled parsers "component" validateComponentIdentifier composition.package.version) ∅
  if layeredBaseComponent ∉ componentIds then
    throw (.incompatibleSelection "every layered application requires layered-base")
  let moduleIds ← (composition.modules.map InstalledModule.pair).foldlM
    (validateInstalled parsers "module" validateModuleIdentifier composition.package.version) ∅
  if (layeredLeptosIdentityComponent ∈ componentIds ∨ identityComponent ∈ componentIds) ≠
      (identityModule ∈ moduleIds) then
    throw (.incompatibleSelection "the Identity component and module must be installed together")
  if composition.capabilities ≠ expectedCapabilities (identityModule ∈ moduleIds) then
    throw (.incompatibleSelection
      s!"composition capabilities {formatCapabilitySet composition.capabilities} do not match installed modules {formatStringSet moduleIds}")

/-- `validate_upgrade_state`. -/
def ApplicationUpgradeState.validate (upgrade : ApplicationUpgradeState) (framework : FrameworkContract)
    (composition : ApplicationComposition) : Except ManifestError Unit := do
  upgrade.framework.validate parsers
  if upgrade.framework ≠ framework then
    throw (.inconsistentUpgradeState "upgrade framework identity does not match framework")
  validatePackageId upgrade.package.id
  validatePackageVersion parsers upgrade.package.version
  if upgrade.package ≠ composition.package then
    throw (.inconsistentUpgradeState
      "upgrade package identity does not match composition.package")
  upgrade.ownership.validate

/-- `ok_or`. -/
def okOr {α : Type} (value : Option α) (error : ManifestError) : Except ManifestError α :=
  value.elim (.error error) .ok

namespace ApplicationManifest

variable (manifest : ApplicationManifest)

def validateComposedStructure : Except ManifestError Unit := do
  if manifest.selection.components ≠ ∅ then
    throw (.incompatibleSelection
      "composed manifests record components only in composition.components")
  (← okOr manifest.composition .missingComposition).validate parsers manifest.framework

def validateComposedState : Except ManifestError Unit := do
  manifest.validateComposedStructure parsers
  validateCurrentSelection manifest.selection

/-- The upgrade state of a manifest that has to have one. -/
def validateUpgrade : Except ManifestError Unit := do
  (← okOr manifest.upgrade .missingUpgradeState).validate parsers manifest.framework
    (← okOr manifest.composition .missingComposition)

def validate : Except ManifestError Unit := do
  validateApplicationName manifest.application
  manifest.framework.validate parsers
  if manifest.schema = legacyApplicationManifestSchema then
    if manifest.composition.isSome ∨ manifest.upgrade.isSome then
      throw (.incompatibleSelection "schema-1 manifests cannot contain composition or upgrade state")
    validateLegacySelection manifest.selection
  else if manifest.schema = compositionApplicationManifestSchema then
    if manifest.upgrade.isSome then
      throw (.incompatibleSelection "schema-2 manifests cannot contain upgrade state")
    manifest.validateComposedState parsers
  else if manifest.schema = applicationManifestSchema then
    manifest.validateComposedState parsers
    manifest.validateUpgrade parsers
  else
    throw (.unsupportedSchema manifest.schema)

end ApplicationManifest

end Checks

/-! ### Normal forms -/

def ApplicationComposition.normalize (composition : ApplicationComposition) :
    ApplicationComposition :=
  { composition with
    components := sortBy InstalledComponent.id composition.components
    modules := sortBy InstalledModule.id composition.modules }

def ApplicationUpgradeState.normalize (upgrade : ApplicationUpgradeState) :
    ApplicationUpgradeState :=
  { upgrade with ownership := upgrade.ownership.sorted }

def ApplicationManifest.normalize (manifest : ApplicationManifest) : ApplicationManifest :=
  { manifest with
    composition := manifest.composition.map ApplicationComposition.normalize
    upgrade := manifest.upgrade.map ApplicationUpgradeState.normalize }

/-- The decoder of TOML, at a manifest and at its schema alone; a text that decodes as a
manifest decodes as its schema. -/
structure Toml where
  manifest : String → Except String ApplicationManifest
  schema : String → Except String ℕ
  schema_eq : ∀ {source m}, manifest source = .ok m → schema source = .ok m.schema

def ApplicationManifest.fromToml (toml : Toml) (parsers : Parsers) (source : String) :
    Except ManifestError ApplicationManifest := do
  let manifest ← (toml.manifest source).mapError .parse
  manifest.normalize.validate parsers
  return manifest.normalize

/-! ### What is accepted -/

/-- The installed components, or modules, that a loop of `validate_composition` accepts. -/
structure Installs (parsers : Parsers) (packageVersion : String)
    (installed : List (String × String)) : Prop where
  valid : ∀ x ∈ installed, validComponentIdentifier x.1 = true ∧
    validReleaseVersion parsers x.2 = true ∧ x.2 = packageVersion
  nodup : (installed.map Prod.fst).Nodup

/-- The order of what is installed plays no part. -/
theorem Installs.perm {parsers : Parsers} {version : String} {xs ys : List (String × String)}
    (h : xs.Perm ys) : Installs parsers version xs ↔ Installs parsers version ys where
  mp hx := ⟨fun x hxy => hx.valid x (h.mem_iff.2 hxy), (h.map _).nodup_iff.1 hx.nodup⟩
  mpr hy := ⟨fun x hxy => hy.valid x (h.mem_iff.1 hxy), (h.map _).nodup_iff.2 hy.nodup⟩

section Installed

variable {parsers : Parsers} {version kind : String}
  {validateIdentifier : String → Except ManifestError Unit} {seen after : Finset String}

/-- A turn accepts a new valid identity at the version of the package. -/
theorem validateInstalled_eq_ok
    (hid : ∀ id, validateIdentifier id = .ok () ↔ validComponentIdentifier id = true)
    {x : String × String} :
    validateInstalled parsers kind validateIdentifier version seen x = .ok after ↔
      (validComponentIdentifier x.1 = true ∧ validReleaseVersion parsers x.2 = true ∧
        x.2 = version) ∧ x.1 ∉ seen ∧ insert x.1 seen = after := by
  obtain ⟨id, version'⟩ := x
  unfold validateInstalled
  constructor
  · intro h
    obtain ⟨⟨⟩, hvalid, h⟩ := bind_eq_ok.1 h
    obtain ⟨hnew, h⟩ := guarded_eq_ok.1 h
    obtain ⟨hrelease, h⟩ := guarded_eq_ok.1 h
    obtain ⟨hversion, h⟩ := guarded_eq_ok.1 h
    exact ⟨⟨(hid id).1 hvalid, by simpa using hrelease, not_not.1 hversion⟩, hnew, pure_eq_ok.1 h⟩
  · rintro ⟨⟨hvalid, hrelease, hversion⟩, hnew, rfl⟩
    refine bind_eq_ok.2 ⟨_, (hid id).2 hvalid, guarded_eq_ok.2 ⟨hnew, ?_⟩⟩
    exact guarded_eq_ok.2 ⟨by simpa using hrelease, guarded_eq_ok.2 ⟨not_not.2 hversion, rfl⟩⟩

/-- The loop accepts exactly different valid identities at that version. -/
theorem foldlM_validateInstalled_eq_ok
    (hid : ∀ id, validateIdentifier id = .ok () ↔ validComponentIdentifier id = true)
    {xs : List (String × String)} :
    xs.foldlM (validateInstalled parsers kind validateIdentifier version) seen = .ok after ↔
      Installs parsers version xs ∧ (∀ x ∈ xs, x.1 ∉ seen) ∧
        seen ∪ (xs.map Prod.fst).toFinset = after := by
  induction xs generalizing seen with
  | nil =>
      refine ⟨fun h => ?_, fun h => ?_⟩
      · obtain rfl : seen = after := Except.ok.inj h
        exact ⟨⟨nofun, List.nodup_nil⟩, nofun, by simp⟩
      · exact congrArg Except.ok (by simpa using h.2.2)
  | cons x xs ih =>
      simp only [foldlM_cons_eq_ok, validateInstalled_eq_ok hid, List.forall_mem_cons]
      have hunion : insert x.1 seen ∪ (xs.map Prod.fst).toFinset =
          seen ∪ ((x :: xs).map Prod.fst).toFinset := by
        ext name
        simp only [List.map_cons, List.toFinset_cons, Finset.mem_union, Finset.mem_insert]
        tauto
      constructor
      · rintro ⟨t, ⟨hvalid, hnew, rfl⟩, h⟩
        obtain ⟨⟨hvalids, hnodup⟩, hothers, rfl⟩ := ih.1 h
        have hfresh : ∀ y ∈ xs, y.1 ∉ seen ∧ y.1 ≠ x.1 := fun y hy =>
          ⟨fun hmem => hothers y hy (Finset.mem_insert_of_mem hmem),
            fun he => hothers y hy (he ▸ Finset.mem_insert_self _ _)⟩
        refine ⟨⟨List.forall_mem_cons.2 ⟨hvalid, hvalids⟩, List.nodup_cons.2 ⟨fun hmem => ?_, hnodup⟩⟩,
          ⟨hnew, fun y hy => (hfresh y hy).1⟩, hunion.symm⟩
        obtain ⟨y, hy, he⟩ := List.mem_map.1 hmem
        exact (hfresh y hy).2 he
      · rintro ⟨⟨hvalid, hnodup⟩, ⟨hnew, hothers⟩, rfl⟩
        obtain ⟨hx, hxs⟩ := List.forall_mem_cons.1 hvalid
        obtain ⟨hfirst, hrest⟩ := List.nodup_cons.1 hnodup
        refine ⟨_, ⟨hx, hnew, rfl⟩, ih.2 ⟨⟨hxs, hrest⟩, fun y hy hmem => ?_, hunion⟩⟩
        rcases Finset.mem_insert.1 hmem with he | hmem
        · exact hfirst (he ▸ List.mem_map_of_mem hy)
        · exact hothers y hy hmem

end Installed

theorem validateComponentIdentifier_eq_ok (id : String) :
    validateComponentIdentifier id = .ok () ↔ validComponentIdentifier id = true := by
  unfold validateComponentIdentifier
  split <;> simp_all

theorem validateModuleIdentifier_eq_ok (id : String) :
    validateModuleIdentifier id = .ok () ↔ validComponentIdentifier id = true := by
  unfold validateModuleIdentifier
  split <;> simp_all

namespace ApplicationComposition

variable {parsers : Parsers} {framework : FrameworkContract} {composition : ApplicationComposition}

def componentPairs (composition : ApplicationComposition) : List (String × String) :=
  composition.components.map InstalledComponent.pair

def modulePairs (composition : ApplicationComposition) : List (String × String) :=
  composition.modules.map InstalledModule.pair

def componentIds (composition : ApplicationComposition) : Finset String :=
  (composition.componentPairs.map Prod.fst).toFinset

def moduleIds (composition : ApplicationComposition) : Finset String :=
  (composition.modulePairs.map Prod.fst).toFinset

/-- What `validate_composition` asks. -/
structure Composed (parsers : Parsers) (framework : FrameworkContract)
    (composition : ApplicationComposition) : Prop where
  packageId : validatePackageId composition.package.id = .ok ()
  package : composition.package.id = hegiraComponentPackage
  packageVersion : validatePackageVersion parsers composition.package.version = .ok ()
  version : composition.package.version = framework.version
  components : Installs parsers composition.package.version composition.componentPairs
  base : layeredBaseComponent ∈ composition.componentIds
  modules : Installs parsers composition.package.version composition.modulePairs
  identity : (layeredLeptosIdentityComponent ∈ composition.componentIds ∨
    identityComponent ∈ composition.componentIds) = (identityModule ∈ composition.moduleIds)
  capabilities : composition.capabilities =
    expectedCapabilities (identityModule ∈ composition.moduleIds)

/-- An accepted composition is a composed one. -/
theorem validate_eq_ok_iff :
    composition.validate parsers framework = .ok () ↔ composition.Composed parsers framework := by
  have hcomponents : ∀ ids, composition.componentPairs.foldlM (validateInstalled parsers
      "component" validateComponentIdentifier composition.package.version) ∅ = .ok ids ↔
      Installs parsers composition.package.version composition.componentPairs ∧
        composition.componentIds = ids := fun ids => by
    rw [foldlM_validateInstalled_eq_ok validateComponentIdentifier_eq_ok]
    simp [componentIds]
  have hmodules : ∀ ids, composition.modulePairs.foldlM (validateInstalled parsers
      "module" validateModuleIdentifier composition.package.version) ∅ = .ok ids ↔
      Installs parsers composition.package.version composition.modulePairs ∧
        composition.moduleIds = ids := fun ids => by
    rw [foldlM_validateInstalled_eq_ok validateModuleIdentifier_eq_ok]
    simp [moduleIds]
  unfold ApplicationComposition.validate
  constructor
  · intro h
    obtain ⟨⟨⟩, hpackageId, h⟩ := bind_eq_ok.1 h
    obtain ⟨hpackage, h⟩ := guarded_eq_ok.1 h
    obtain ⟨⟨⟩, hpackageVersion, h⟩ := bind_eq_ok.1 h
    obtain ⟨hversion, h⟩ := guarded_eq_ok.1 h
    obtain ⟨ids, hids, h⟩ := bind_eq_ok.1 h
    obtain ⟨hinstalled, rfl⟩ := (hcomponents ids).1 hids
    obtain ⟨hbase, h⟩ := guarded_eq_ok.1 h
    obtain ⟨ids, hids, h⟩ := bind_eq_ok.1 h
    obtain ⟨hmodule, rfl⟩ := (hmodules ids).1 hids
    obtain ⟨hidentity, h⟩ := guarded_eq_ok.1 h
    exact ⟨hpackageId, not_not.1 hpackage, hpackageVersion, not_not.1 hversion, hinstalled,
      not_not.1 hbase, hmodule, not_not.1 hidentity, not_not.1 (guard_eq_ok.1 h)⟩
  · intro h
    refine bind_eq_ok.2 ⟨(), h.packageId, guarded_eq_ok.2 ⟨not_not.2 h.package, ?_⟩⟩
    refine bind_eq_ok.2 ⟨(), h.packageVersion, guarded_eq_ok.2 ⟨not_not.2 h.version, ?_⟩⟩
    refine bind_eq_ok.2 ⟨_, (hcomponents _).2 ⟨h.components, rfl⟩, ?_⟩
    refine guarded_eq_ok.2 ⟨not_not.2 h.base, ?_⟩
    refine bind_eq_ok.2 ⟨_, (hmodules _).2 ⟨h.modules, rfl⟩, ?_⟩
    exact guarded_eq_ok.2 ⟨not_not.2 h.identity, guard_eq_ok.2 (not_not.2 h.capabilities)⟩

/-- The normal form sorts the components. -/
theorem componentPairs_normalize :
    composition.normalize.componentPairs.Perm composition.componentPairs :=
  (sortBy_perm ..).map _

/-- It sorts the modules. -/
theorem modulePairs_normalize :
    composition.normalize.modulePairs.Perm composition.modulePairs :=
  (sortBy_perm ..).map _

/-- The components are the same set. -/
theorem componentIds_normalize : composition.normalize.componentIds = composition.componentIds :=
  List.toFinset_eq_of_perm _ _ (componentPairs_normalize.map _)

theorem moduleIds_normalize : composition.normalize.moduleIds = composition.moduleIds :=
  List.toFinset_eq_of_perm _ _ (modulePairs_normalize.map _)

/-- **A composition is accepted in any order.** -/
theorem validate_normalize : composition.normalize.validate parsers framework = .ok () ↔
    composition.validate parsers framework = .ok () := by
  rw [validate_eq_ok_iff, validate_eq_ok_iff]
  constructor
  · intro h
    exact ⟨h.packageId, h.package, h.packageVersion, h.version,
      (Installs.perm componentPairs_normalize).1 h.components, componentIds_normalize ▸ h.base,
      (Installs.perm modulePairs_normalize).1 h.modules,
      componentIds_normalize ▸ moduleIds_normalize ▸ h.identity,
      moduleIds_normalize ▸ h.capabilities⟩
  · intro h
    refine ⟨h.packageId, h.package, h.packageVersion, h.version,
      (Installs.perm componentPairs_normalize).2 h.components, ?_,
      (Installs.perm modulePairs_normalize).2 h.modules, ?_, ?_⟩
    · rw [componentIds_normalize]
      exact h.base
    · rw [componentIds_normalize, moduleIds_normalize]
      exact h.identity
    · rw [moduleIds_normalize]
      exact h.capabilities

end ApplicationComposition

/-- Two claims share their files in either order. -/
theorem SourceOwnershipClaim.shares_symm {left right : SourceOwnershipClaim}
    (h : (∃ file, left.Covers file ∧ right.Covers file) → left.Shares right) :
    (∃ file, right.Covers file ∧ left.Covers file) → right.Shares left := by
  rintro ⟨file, hright, hleft⟩
  exact symm (h ⟨file, hleft, hright⟩)

/-- **The claims of an ownership are accepted in any order.** -/
theorem SourceOwnership.validate_sorted {ownership : SourceOwnership} :
    ownership.sorted.validate = .ok () ↔ ownership.validate = .ok () := by
  have hperm : ownership.sorted.claims.Perm ownership.claims := sortBy_perm ..
  rw [validate_eq_ok_iff, validate_eq_ok_iff, hperm.length_eq,
    hperm.pairwise_iff fun {_ _} => SourceOwnershipClaim.shares_symm]
  have hvalid : (∀ claim ∈ ownership.sorted.claims, claim.Valid) ↔
      ∀ claim ∈ ownership.claims, claim.Valid :=
    forall_congr' fun claim => imp_congr_left hperm.mem_iff
  rw [hvalid]
  exact Iff.rfl

/-- Steps that succeed alike are followed by steps that do. -/
theorem bind_eq_ok_congr {ε α β : Type} {x : Except ε α} {f g : α → Except ε β} {b : β}
    (h : ∀ a, f a = .ok b ↔ g a = .ok b) : (x >>= f) = .ok b ↔ (x >>= g) = .ok b := by
  rw [bind_eq_ok, bind_eq_ok]
  exact exists_congr fun a => and_congr_right fun _ => h a

/-- Behind the same guard, what follows may be replaced. -/
theorem guarded_eq_ok_congr {ε β : Type} {p : Prop} [Decidable p] {e : ε}
    {f g : PUnit → Except ε β} {b : β} (h : f PUnit.unit = .ok b ↔ g PUnit.unit = .ok b) :
    (if p then throw e >>= f else f PUnit.unit) = .ok b ↔
      (if p then throw e >>= g else g PUnit.unit) = .ok b := by
  rw [guarded_eq_ok, guarded_eq_ok, h]

/-- An upgrade state and its normal form pass the same checks. -/
theorem ApplicationUpgradeState.validate_normalize {parsers : Parsers}
    {upgrade : ApplicationUpgradeState} {framework : FrameworkContract}
    {composition : ApplicationComposition} :
    upgrade.normalize.validate parsers framework composition.normalize = .ok () ↔
      upgrade.validate parsers framework composition = .ok () := by
  unfold ApplicationUpgradeState.validate
  refine bind_eq_ok_congr fun _ => guarded_eq_ok_congr ?_
  refine bind_eq_ok_congr fun _ => bind_eq_ok_congr fun _ => guarded_eq_ok_congr ?_
  exact SourceOwnership.validate_sorted

namespace ApplicationManifest

variable {parsers : Parsers} {manifest : ApplicationManifest}

/-- A value that is there is found. -/
theorem okOr_eq_ok {α : Type} {value : Option α} {error : ManifestError} {a : α} :
    okOr value error = .ok a ↔ value = some a := by
  cases value <;> simp [okOr]

/-- The composition is checked alike in both forms. -/
theorem validateComposedStructure_normalize :
    manifest.normalize.validateComposedStructure parsers = .ok () ↔
      manifest.validateComposedStructure parsers = .ok () := by
  unfold validateComposedStructure
  refine guarded_eq_ok_congr ?_
  cases hcomposition : manifest.composition with
  | none => simp [normalize, hcomposition, okOr]
  | some composition =>
      have hnormal : manifest.normalize.composition = some composition.normalize := by
        simp [normalize, hcomposition]
      rw [hnormal]
      exact ApplicationComposition.validate_normalize

theorem validateUpgrade_normalize : manifest.normalize.validateUpgrade parsers = .ok () ↔
    manifest.validateUpgrade parsers = .ok () := by
  unfold validateUpgrade
  cases hupgrade : manifest.upgrade with
  | none =>
      have hnormal : manifest.normalize.upgrade = none := by simp [normalize, hupgrade]
      rw [hnormal]
      exact Iff.rfl
  | some upgrade =>
      have hnormal : manifest.normalize.upgrade = some upgrade.normalize := by
        simp [normalize, hupgrade]
      rw [hnormal]
      cases hcomposition : manifest.composition with
      | none =>
          have hnormal : manifest.normalize.composition = none := by
            simp [normalize, hcomposition]
          rw [hnormal]
          exact Iff.rfl
      | some composition =>
          have hnormal : manifest.normalize.composition = some composition.normalize := by
            simp [normalize, hcomposition]
          rw [hnormal]
          exact ApplicationUpgradeState.validate_normalize

end ApplicationManifest

end Template
end Hegira
