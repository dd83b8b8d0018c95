/-
# Mutation compatibility

`assess_mutation_compatibility` and `ApplicationManifest::mutation_compatibility` of
`crates/application_manifest/src/lib.rs`.  Compatibility is assessed on the manifest as it
is decoded, and validation on its normal form; what the two check of its structure is the
same (`validateStructure_eq_ok_iff`), so that a manifest is compatible with a policy exactly
when it is valid and within the policy (`mutationCompatibility_eq_ok_compatible`).
-/

import Hegira.Template.ManifestValidation

namespace Hegira
namespace Template

open Validation

structure MutationCompatibilityPolicy where
  schema : ℕ
  framework : FrameworkContract
  package : PackageIdentity
  components : Finset String
  modules : Finset String
  capabilities : Finset ApplicationCapability
  databases : Finset DatabaseAdapter
  clients : Finset ClientAdapter

/-- `for_framework_version`. -/
def MutationCompatibilityPolicy.forFrameworkVersion (parsers : Parsers) (version : String) :
    Except ManifestError MutationCompatibilityPolicy := do
  let framework : FrameworkContract := ⟨hegiraFrameworkRepository, version⟩
  framework.validate parsers
  return {
    schema := applicationManifestSchema
    framework
    package := ⟨hegiraComponentPackage, version⟩
    components := supportedComponents.toFinset
    modules := {identityModule}
    capabilities := {.authentication, .authorization}
    databases := {.postgres, .sqlite}
    clients := {.leptos} }

inductive MutationManifestField where
  | schema
  | frameworkRepository
  | frameworkVersion
  | compositionPackage
  | compositionComponents
  | compositionModules
  | compositionCapabilities
  | selectionDatabases
  | selectionClients
  deriving DecidableEq

structure MutationCompatibilityIssue where
  field : MutationManifestField
  actual : String
  expected : String
  deriving DecidableEq

inductive MutationCompatibility where
  | compatible
  | incompatible (issue : MutationCompatibilityIssue)
  | unsupported (issue : MutationCompatibilityIssue)
  deriving DecidableEq

/-! ### What is assessed -/

def PackageIdentity.text (package : PackageIdentity) : String := package.id ++ "@" ++ package.version

/-- The schema of a text, or a manifest, against that of a policy. -/
def MutationCompatibilityPolicy.schemaIssue (policy : MutationCompatibilityPolicy) (schema : ℕ) :
    MutationCompatibilityIssue :=
  ⟨.schema, toString schema, toString policy.schema⟩

/-- An adapter set that has one element, and that of the policy. -/
def adapterIssue {α : Type} [LinearOrder α] (field : MutationManifestField)
    (format : Finset α → String) (name : α → String) (selected supported : Finset α) :
    Option MutationCompatibility :=
  if selected.card ≠ 1 then
    some (.incompatible ⟨field, format selected, "exactly one adapter from " ++ format supported⟩)
  else
    ((selected.sort (· ≤ ·)).find? (· ∉ supported)).map fun adapter =>
      .unsupported ⟨field, name adapter, format supported⟩

/-- A text of a composition that the policy does not list. -/
def listIssue (field : MutationManifestField) (ids : List String) (supported : Finset String) :
    Option MutationCompatibility :=
  (ids.find? (· ∉ supported)).map fun id => .unsupported ⟨field, id, formatStringSet supported⟩

def repositoryIssue (policy : MutationCompatibilityPolicy) (framework : FrameworkContract) :
    Option MutationCompatibility :=
  if framework.repository ≠ policy.framework.repository then
    some (.incompatible ⟨.frameworkRepository, framework.repository, policy.framework.repository⟩)
  else
    none

def versionIssue (policy : MutationCompatibilityPolicy) (framework : FrameworkContract) :
    Option MutationCompatibility :=
  if framework.version ≠ policy.framework.version then
    some (.unsupported ⟨.frameworkVersion, framework.version, policy.framework.version⟩)
  else
    none

def packageIssue (policy : MutationCompatibilityPolicy) (package : PackageIdentity) :
    Option MutationCompatibility :=
  if package ≠ policy.package then
    some (.unsupported ⟨.compositionPackage, package.text, policy.package.text⟩)
  else
    none

def capabilityIssue (policy : MutationCompatibilityPolicy)
    (capabilities : Finset ApplicationCapability) : Option MutationCompatibility :=
  ((capabilities.sort (· ≤ ·)).find? (· ∉ policy.capabilities)).map fun capability =>
    .unsupported ⟨.compositionCapabilities, capabilityName capability,
      formatCapabilitySet policy.capabilities⟩

namespace ApplicationManifest

variable (manifest : ApplicationManifest)

/-- What `mutation_compatibility` validates. -/
def validateStructure (parsers : Parsers) : Except ManifestError Unit := do
  validateApplicationName manifest.application
  manifest.framework.validate parsers
  manifest.validateComposedStructure parsers
  manifest.validateUpgrade parsers

/-- What the source compares with the policy in turn. -/
def issues (policy : MutationCompatibilityPolicy) (composition : ApplicationComposition) :
    List (Option MutationCompatibility) :=
  [repositoryIssue policy manifest.framework, versionIssue policy manifest.framework,
    packageIssue policy composition.package,
    listIssue .compositionComponents (composition.components.map InstalledComponent.id)
      policy.components,
    listIssue .compositionModules (composition.modules.map InstalledModule.id) policy.modules,
    capabilityIssue policy composition.capabilities,
    adapterIssue .selectionDatabases formatDatabaseSet databaseName manifest.selection.databases
      policy.databases,
    adapterIssue .selectionClients formatClientSet clientName manifest.selection.clients
      policy.clients]

def mutationCompatibility (parsers : Parsers) (policy : MutationCompatibilityPolicy) :
    Except ManifestError MutationCompatibility :=
  if manifest.schema ≠ policy.schema then
    .ok (.unsupported (policy.schemaIssue manifest.schema))
  else do
    manifest.validateStructure parsers
    let composition ← okOr manifest.composition .missingComposition
    return ((manifest.issues policy composition).findSome? id).getD .compatible

end ApplicationManifest

def assessMutationCompatibility (toml : Toml) (parsers : Parsers) (source : String)
    (policy : MutationCompatibilityPolicy) : Except ManifestError MutationCompatibility := do
  let schema ← (toml.schema source).mapError .parse
  if schema ≠ policy.schema then
    return .unsupported (policy.schemaIssue schema)
  let manifest ← (toml.manifest source).mapError .parse
  manifest.mutationCompatibility parsers policy

/-! ### Manifests within a policy -/

/-- The framework, the package and the selections are the policy's. -/
structure ApplicationManifest.Within (policy : MutationCompatibilityPolicy)
    (manifest : ApplicationManifest) : Prop where
  repository : manifest.framework.repository = policy.framework.repository
  version : manifest.framework.version = policy.framework.version
  composition : ∃ composition, manifest.composition = some composition ∧
    composition.package = policy.package ∧
    (∀ component ∈ composition.components, component.id ∈ policy.components) ∧
    (∀ module ∈ composition.modules, module.id ∈ policy.modules) ∧
    composition.capabilities ⊆ policy.capabilities
  databases : manifest.selection.databases ⊆ policy.databases
  clients : manifest.selection.clients ⊆ policy.clients

/-- There is no issue of adapters when every selected one is supported. -/
theorem adapterIssue_eq_none {α : Type} [LinearOrder α] {field : MutationManifestField}
    {format : Finset α → String} {name : α → String} {selected supported : Finset α} :
    adapterIssue field format name selected supported = none ↔
      selected.card = 1 ∧ selected ⊆ supported := by
  unfold adapterIssue
  split
  · next hcard => exact ⟨nofun, fun h => absurd h.1 hcard⟩
  · next hcard =>
      rw [Option.map_eq_none_iff, List.find?_eq_none]
      simp [not_not.1 hcard, Finset.subset_iff]

theorem listIssue_eq_none {field : MutationManifestField} {ids : List String}
    {supported : Finset String} : listIssue field ids supported = none ↔
      ∀ id ∈ ids, id ∈ supported := by
  rw [listIssue, Option.map_eq_none_iff, List.find?_eq_none]
  simp

theorem capabilityIssue_eq_none {policy : MutationCompatibilityPolicy}
    {capabilities : Finset ApplicationCapability} :
    capabilityIssue policy capabilities = none ↔ capabilities ⊆ policy.capabilities := by
  rw [capabilityIssue, Option.map_eq_none_iff, List.find?_eq_none]
  simp [Finset.subset_iff]

/-- A selection has one database and one client. -/
theorem validateCurrentSelection_eq_ok {selection : ApplicationSelection} :
    validateCurrentSelection selection = .ok () ↔
      selection.databases.card = 1 ∧ selection.clients.card = 1 := by
  unfold validateCurrentSelection
  rw [guarded_eq_ok, guard_eq_ok, not_not, not_not]

namespace ApplicationManifest

variable {parsers : Parsers} {policy : MutationCompatibilityPolicy} {manifest : ApplicationManifest}

/-- Nothing is amiss with a manifest of one database and one client within the policy. -/
theorem issues_eq_none {composition : ApplicationComposition}
    (h : manifest.composition = some composition) :
    (∀ issue ∈ manifest.issues policy composition, issue = none) ↔
      validateCurrentSelection manifest.selection = .ok () ∧ manifest.Within policy := by
  have hrepository : repositoryIssue policy manifest.framework = none ↔
      manifest.framework.repository = policy.framework.repository := by
    unfold repositoryIssue
    split <;> simp_all
  have hversion : versionIssue policy manifest.framework = none ↔
      manifest.framework.version = policy.framework.version := by
    unfold versionIssue
    split <;> simp_all
  have hpackage : packageIssue policy composition.package = none ↔
      composition.package = policy.package := by
    unfold packageIssue
    split <;> simp_all
  simp only [issues, List.forall_mem_cons, hrepository, hversion, hpackage, listIssue_eq_none,
    capabilityIssue_eq_none, adapterIssue_eq_none, List.forall_mem_map,
    validateCurrentSelection_eq_ok]
  constructor
  · rintro ⟨h₁, h₂, h₃, h₄, h₅, h₆, h₇, h₈, -⟩
    exact ⟨⟨h₇.1, h₈.1⟩, h₁, h₂, ⟨composition, h, h₃, h₄, h₅, h₆⟩, h₇.2, h₈.2⟩
  · rintro ⟨⟨hdatabase, hclient⟩, hwithin⟩
    obtain ⟨other, hother, h₃, h₄, h₅, h₆⟩ := hwithin.composition
    obtain rfl : composition = other := Option.some.inj (h.symm.trans hother)
    exact ⟨hwithin.repository, hwithin.version, h₃, h₄, h₅, h₆,
      ⟨hdatabase, hwithin.databases⟩, ⟨hclient, hwithin.clients⟩, nofun⟩

/-- The first issue is none when there is none. -/
theorem findSome?_id_getD_eq {issues : List (Option MutationCompatibility)}
    (h : ∀ issue ∈ issues, issue ≠ some .compatible) :
    (issues.findSome? id).getD .compatible = .compatible ↔ ∀ issue ∈ issues, issue = none := by
  cases hfind : issues.findSome? id with
  | none =>
      simpa using List.findSome?_eq_none_iff.1 hfind
  | some result =>
      obtain ⟨issue, hmem, rfl⟩ : ∃ issue ∈ issues, issue = some result :=
        List.exists_of_findSome?_eq_some hfind
      refine ⟨fun he => absurd (congrArg some he) (h _ hmem), fun hnone => ?_⟩
      exact absurd (hnone _ hmem) nofun

/-- An issue is not compatible. -/
theorem map_unsupported_ne {α : Type} {found : Option α} {f : α → MutationCompatibilityIssue} :
    found.map (fun a => MutationCompatibility.unsupported (f a)) ≠ some .compatible := by
  cases found <;> simp

/-- An issue is not a compatibility. -/
theorem issues_ne_compatible {composition : ApplicationComposition} :
    ∀ issue ∈ manifest.issues policy composition, issue ≠ some .compatible := by
  simp only [issues, List.forall_mem_cons]
  refine ⟨?_, ?_, ?_, map_unsupported_ne, map_unsupported_ne, map_unsupported_ne, ?_, ?_, nofun⟩
  · unfold repositoryIssue
    split <;> simp
  · unfold versionIssue
    split <;> simp
  · unfold packageIssue
    split <;> simp
  · unfold adapterIssue
    split
    · simp
    · exact map_unsupported_ne
  · unfold adapterIssue
    split
    · simp
    · exact map_unsupported_ne

/-- A manifest of valid structure has a composition. -/
theorem exists_composition (h : manifest.validateStructure parsers = .ok ()) :
    ∃ composition, manifest.composition = some composition := by
  unfold validateStructure at h
  obtain ⟨-, -, h⟩ := bind_eq_ok.1 h
  obtain ⟨-, -, h⟩ := bind_eq_ok.1 h
  obtain ⟨⟨⟩, h, -⟩ := bind_eq_ok.1 h
  unfold validateComposedStructure at h
  obtain ⟨-, h⟩ := guarded_eq_ok.1 h
  obtain ⟨composition, hcomposition, -⟩ := bind_eq_ok.1 h
  exact ⟨composition, okOr_eq_ok.1 hcomposition⟩

/-- **A manifest is compatible** when it is valid, selects one database and one client, and
is within the policy. -/
theorem mutationCompatibility_eq_ok_compatible :
    manifest.mutationCompatibility parsers policy = .ok .compatible ↔
      manifest.schema = policy.schema ∧ manifest.validateStructure parsers = .ok () ∧
        validateCurrentSelection manifest.selection = .ok () ∧ manifest.Within policy := by
  unfold mutationCompatibility
  split
  · next hschema => exact ⟨fun h => (nomatch Except.ok.inj h), fun h => absurd h.1 hschema⟩
  · next hschema =>
      constructor
      · intro h
        obtain ⟨⟨⟩, hvalid, h⟩ := bind_eq_ok.1 h
        obtain ⟨composition, hcomposition, h⟩ := bind_eq_ok.1 h
        have hnone := (findSome?_id_getD_eq issues_ne_compatible).1 (pure_eq_ok.1 h)
        exact ⟨not_not.1 hschema, hvalid, (issues_eq_none (okOr_eq_ok.1 hcomposition)).1 hnone⟩
      · rintro ⟨-, hvalid, hfits⟩
        obtain ⟨composition, hcomposition⟩ := exists_composition hvalid
        have hnone := (issues_eq_none hcomposition).2 hfits
        refine bind_eq_ok.2 ⟨(), hvalid, bind_eq_ok.2 ⟨_, okOr_eq_ok.2 hcomposition, ?_⟩⟩
        exact pure_eq_ok.2 ((findSome?_id_getD_eq issues_ne_compatible).2 hnone)

/-- A valid structure is assessed without an error. -/
theorem exists_mutationCompatibility (h : manifest.validateStructure parsers = .ok ()) :
    ∃ result, manifest.mutationCompatibility parsers policy = .ok result := by
  unfold mutationCompatibility
  split
  · exact ⟨_, rfl⟩
  · obtain ⟨composition, hcomposition⟩ := exists_composition h
    exact ⟨_, bind_eq_ok.2 ⟨(), h, bind_eq_ok.2 ⟨_, okOr_eq_ok.2 hcomposition, rfl⟩⟩⟩

/-- **Both validate alike.**  The normal form of a current manifest is valid when what is
assessed is, with one database and one client. -/
theorem validate_normalize_eq_ok_iff (hschema : manifest.schema = applicationManifestSchema) :
    manifest.normalize.validate parsers = .ok () ↔
      manifest.validateStructure parsers = .ok () ∧
        validateCurrentSelection manifest.selection = .ok () := by
  have hlegacy : manifest.normalize.schema ≠ legacyApplicationManifestSchema := by
    rw [show manifest.normalize.schema = manifest.schema from rfl, hschema]
    decide
  have hcomposed : manifest.normalize.schema ≠ compositionApplicationManifestSchema := by
    rw [show manifest.normalize.schema = manifest.schema from rfl, hschema]
    decide
  have hcurrent : manifest.normalize.schema = applicationManifestSchema := hschema
  unfold validate validateStructure
  rw [if_neg hlegacy, if_neg hcomposed, if_pos hcurrent]
  constructor
  · intro h
    obtain ⟨⟨⟩, hname, h⟩ := bind_eq_ok.1 h
    obtain ⟨⟨⟩, hframework, h⟩ := bind_eq_ok.1 h
    obtain ⟨⟨⟩, hstate, hupgrade⟩ := bind_eq_ok.1 h
    obtain ⟨⟨⟩, hstructure, hselection⟩ := bind_eq_ok.1 hstate
    refine ⟨bind_eq_ok.2 ⟨(), hname, bind_eq_ok.2 ⟨(), hframework, ?_⟩⟩, hselection⟩
    exact bind_eq_ok.2 ⟨(), validateComposedStructure_normalize.1 hstructure,
      validateUpgrade_normalize.1 hupgrade⟩
  · rintro ⟨h, hselection⟩
    obtain ⟨⟨⟩, hname, h⟩ := bind_eq_ok.1 h
    obtain ⟨⟨⟩, hframework, h⟩ := bind_eq_ok.1 h
    obtain ⟨⟨⟩, hstructure, hupgrade⟩ := bind_eq_ok.1 h
    refine bind_eq_ok.2 ⟨(), hname, bind_eq_ok.2 ⟨(), hframework, ?_⟩⟩
    refine bind_eq_ok.2 ⟨(), bind_eq_ok.2 ⟨(), ?_, hselection⟩, validateUpgrade_normalize.2 hupgrade⟩
    exact validateComposedStructure_normalize.2 hstructure

/-- Normalising does not matter to the policy. -/
theorem within_normalize : manifest.normalize.Within policy ↔ manifest.Within policy := by
  have hcomposition : (∃ composition, manifest.normalize.composition = some composition ∧
      composition.package = policy.package ∧
      (∀ component ∈ composition.components, component.id ∈ policy.components) ∧
      (∀ module ∈ composition.modules, module.id ∈ policy.modules) ∧
      composition.capabilities ⊆ policy.capabilities) ↔
      ∃ composition, manifest.composition = some composition ∧
        composition.package = policy.package ∧
        (∀ component ∈ composition.components, component.id ∈ policy.components) ∧
        (∀ module ∈ composition.modules, module.id ∈ policy.modules) ∧
        composition.capabilities ⊆ policy.capabilities := by
    simp [normalize, ApplicationComposition.normalize]
  exact ⟨fun h => ⟨h.repository, h.version, hcomposition.1 h.composition, h.databases, h.clients⟩,
    fun h => ⟨h.repository, h.version, hcomposition.2 h.composition, h.databases, h.clients⟩⟩

/-- A text is accepted when its manifest, normalised, is valid. -/
theorem fromToml_eq_ok {toml : Toml} {source : String} {result : ApplicationManifest} :
    fromToml toml parsers source = .ok result ↔ ∃ manifest, toml.manifest source = .ok manifest ∧
      manifest.normalize.validate parsers = .ok () ∧ manifest.normalize = result := by
  unfold fromToml
  constructor
  · intro h
    obtain ⟨manifest, hdecoded, h⟩ := bind_eq_ok.1 h
    obtain ⟨⟨⟩, hvalid, h⟩ := bind_eq_ok.1 h
    exact ⟨manifest, mapError_eq_ok.1 hdecoded, hvalid, pure_eq_ok.1 h⟩
  · rintro ⟨manifest, hdecoded, hvalid, rfl⟩
    exact bind_eq_ok.2 ⟨manifest, mapError_eq_ok.2 hdecoded, bind_eq_ok.2 ⟨(), hvalid, rfl⟩⟩

/-- A text that decodes as a manifest is assessed as that manifest. -/
theorem assess_eq {toml : Toml} {source : String}
    (h : toml.manifest source = .ok manifest) :
    assessMutationCompatibility toml parsers source policy =
      manifest.mutationCompatibility parsers policy := by
  have hread : assessMutationCompatibility toml parsers source policy =
      if manifest.schema ≠ policy.schema then
        .ok (.unsupported (policy.schemaIssue manifest.schema))
      else manifest.mutationCompatibility parsers policy := by
    unfold assessMutationCompatibility
    rw [toml.schema_eq h, h]
    rfl
  rw [hread]
  split
  · next hschema => rw [mutationCompatibility, if_pos hschema]
  · rfl

/-- What is assessed as compatible decodes as a manifest. -/
theorem exists_manifest_of_compatible {toml : Toml} {source : String}
    (h : assessMutationCompatibility toml parsers source policy = .ok .compatible) :
    ∃ manifest, toml.manifest source = .ok manifest := by
  unfold assessMutationCompatibility at h
  obtain ⟨schema, -, h⟩ := bind_eq_ok.1 h
  split at h
  · exact nomatch Except.ok.inj h
  · obtain ⟨manifest, hdecoded, -⟩ := bind_eq_ok.1 h
    exact ⟨manifest, mapError_eq_ok.1 hdecoded⟩

/-- A manifest within a policy that selects one database and one client has its framework,
its package and its adapters from the policy. -/
theorem Within.identities (h : manifest.Within policy)
    (hselection : validateCurrentSelection manifest.selection = .ok ()) :
    manifest.framework = policy.framework ∧
      (∃ composition, manifest.composition = some composition ∧
        composition.package = policy.package) ∧
      (∃ database ∈ policy.databases, manifest.selection.databases = {database}) ∧
      ∃ client ∈ policy.clients, manifest.selection.clients = {client} := by
  obtain ⟨hdatabase, hclient⟩ := validateCurrentSelection_eq_ok.1 hselection
  obtain ⟨database, hdatabases⟩ := Finset.card_eq_one.1 hdatabase
  obtain ⟨client, hclients⟩ := Finset.card_eq_one.1 hclient
  obtain ⟨composition, hcomposition, hpackage, -⟩ := h.composition
  refine ⟨?_, ⟨composition, hcomposition, hpackage⟩, ⟨database, ?_, hdatabases⟩,
    ⟨client, ?_, hclients⟩⟩
  · have hrepository := h.repository
    have hversion := h.version
    cases hframework : manifest.framework
    cases hpolicy : policy.framework
    simp_all
  · exact h.databases (hdatabases ▸ Finset.mem_singleton_self _)
  · exact h.clients (hclients ▸ Finset.mem_singleton_self _)

end ApplicationManifest

open ApplicationManifest

/-- **Assessment agrees with validation.**  A text that is assessed as compatible is a valid
manifest within the policy, and a valid manifest is assessed, as compatible exactly when its
schema is the policy's and it is within the policy. -/
theorem assess_agrees_with_fromToml (toml : Toml) (parsers : Parsers) (source : String)
    (policy : MutationCompatibilityPolicy) (h : policy.schema = applicationManifestSchema) :
    (assessMutationCompatibility toml parsers source policy = .ok .compatible →
      ∃ manifest, fromToml toml parsers source = .ok manifest ∧
        manifest.framework = policy.framework ∧
        (∃ composition, manifest.composition = some composition ∧
          composition.package = policy.package) ∧
        (∃ database ∈ policy.databases, manifest.selection.databases = {database}) ∧
        ∃ client ∈ policy.clients, manifest.selection.clients = {client}) ∧
    ∀ manifest, fromToml toml parsers source = .ok manifest →
      (∃ result, assessMutationCompatibility toml parsers source policy = .ok result) ∧
      (assessMutationCompatibility toml parsers source policy = .ok .compatible ↔
        manifest.schema = applicationManifestSchema ∧ manifest.Within policy) := by
  constructor
  · intro hassess
    obtain ⟨manifest, hdecoded⟩ := exists_manifest_of_compatible hassess
    rw [assess_eq hdecoded, mutationCompatibility_eq_ok_compatible, h] at hassess
    obtain ⟨hschema, hvalid, hselection, hwithin⟩ := hassess
    refine ⟨manifest.normalize, fromToml_eq_ok.2 ⟨manifest, hdecoded, ?_, rfl⟩, ?_⟩
    · exact (validate_normalize_eq_ok_iff hschema).2 ⟨hvalid, hselection⟩
    · exact (within_normalize.2 hwithin).identities hselection
  · intro result hresult
    obtain ⟨manifest, hdecoded, hvalid, rfl⟩ := fromToml_eq_ok.1 hresult
    rw [assess_eq hdecoded, mutationCompatibility_eq_ok_compatible, within_normalize]
    by_cases hschema : manifest.schema = applicationManifestSchema
    · obtain ⟨hstructure, hselection⟩ := (validate_normalize_eq_ok_iff hschema).1 hvalid
      refine ⟨exists_mutationCompatibility hstructure, ?_⟩
      exact ⟨fun hfits => ⟨hschema, hfits.2.2.2⟩,
        fun hfits => ⟨hschema.trans h.symm, hstructure, hselection, hfits.2⟩⟩
    · have hpolicy : manifest.schema ≠ policy.schema := fun he => hschema (he.trans h)
      refine ⟨⟨_, if_pos hpolicy⟩, ?_⟩
      exact ⟨fun hfits => absurd hfits.1 hpolicy, fun hfits => absurd hfits.1 hschema⟩

/-! #### Manifests of the current release and of the schema before -/

def demoPolicy : MutationCompatibilityPolicy where
  schema := 3
  framework := ⟨hegiraFrameworkRepository, "v0.7.0"⟩
  package := ⟨hegiraComponentPackage, "v0.7.0"⟩
  components := {layeredBaseComponent, layeredLeptosIdentityComponent,
    layeredLeptosMinimalComponent, identityComponent}
  modules := {identityModule}
  capabilities := {.authentication, .authorization}
  databases := {.postgres, .sqlite}
  clients := {.leptos}

/-- The text of a manifest that has `schema`, and `upgrade` at its end. -/
def demoText (schema upgrade : String) : String :=
  "schema = " ++ schema ++ "
application = \"demo\"

[framework]
repository = \"https://github.com/furkancemalcaliskan/hegira.git\"
version = \"v0.7.0\"

[selection]
databases = [\"postgres\"]
clients = [\"leptos\"]

[composition]
package = \x7b id = \"hegira-canonical\", version = \"v0.7.0\" \x7d
components = [\x7b id = \"layered-base\", version = \"v0.7.0\" \x7d]
" ++ upgrade

def demoUpgradeText : String := "
[upgrade]
package = \x7b id = \"hegira-canonical\", version = \"v0.7.0\" \x7d
ownership = \x7b default = \"application-owned\" \x7d

[upgrade.framework]
repository = \"https://github.com/furkancemalcaliskan/hegira.git\"
version = \"v0.7.0\"
"

def demoManifest (schema : ℕ) (upgrade : Option ApplicationUpgradeState) : ApplicationManifest where
  schema
  application := "demo"
  framework := demoPolicy.framework
  selection := ⟨∅, {.postgres}, {.leptos}⟩
  composition := some ⟨demoPolicy.package, [⟨layeredBaseComponent, "v0.7.0"⟩], [], ∅⟩
  upgrade

def demoUpgrade : ApplicationUpgradeState :=
  ⟨demoPolicy.framework, demoPolicy.package, ⟨.applicationOwned, []⟩⟩

/-- The decoder at one text. -/
def demoToml (text : String) (manifest : ApplicationManifest) : Toml where
  manifest source := if source = text then .ok manifest else .error "expected the manifest"
  schema source := if source = text then .ok manifest.schema else .error "expected the manifest"
  schema_eq {source m} h := by
    split at h
    · next hsource =>
        obtain rfl := Except.ok.inj h
        exact if_pos hsource
    · cases h

/-- The text of the example is read as its manifest. -/
theorem demoToml_manifest (text : String) (manifest : ApplicationManifest) :
    (demoToml text manifest).manifest text = .ok manifest := if_pos rfl

theorem assess_agrees_with_fromToml_demo :
    ∃ manifest, fromToml (demoToml (demoText "3" demoUpgradeText)
        (demoManifest 3 (some demoUpgrade))) releaseParsers (demoText "3" demoUpgradeText) =
          .ok manifest ∧ manifest.framework = demoPolicy.framework := by
  have hassess : assessMutationCompatibility (demoToml (demoText "3" demoUpgradeText)
      (demoManifest 3 (some demoUpgrade))) releaseParsers (demoText "3" demoUpgradeText)
      demoPolicy = .ok .compatible :=
    (assess_eq (demoToml_manifest ..)).trans (by decide +kernel)
  obtain ⟨manifest, hmanifest, hframework, -⟩ :=
    (assess_agrees_with_fromToml _ _ _ demoPolicy rfl).1 hassess
  exact ⟨manifest, hmanifest, hframework⟩

/-- Its manifest is within the policy. -/
theorem demoManifest_within (schema : ℕ) (upgrade : Option ApplicationUpgradeState) :
    (demoManifest schema upgrade).Within demoPolicy where
  repository := rfl
  version := rfl
  composition := ⟨_, rfl, rfl, by decide, by decide, by decide⟩
  databases := by simp [demoManifest, demoPolicy]
  clients := by simp [demoManifest, demoPolicy]

/-- A valid manifest of the schema before the current one is within the policy of its
release, and is not compatible. -/
theorem older_manifest_within_policy :
    (MutationCompatibilityPolicy.forFrameworkVersion releaseParsers "v0.7.0").isOk = true ∧
      demoPolicy.schema = applicationManifestSchema ∧
      fromToml (demoToml (demoText "2" "") (demoManifest 2 none)) releaseParsers
        (demoText "2" "") = .ok (demoManifest 2 none) ∧
      (demoManifest 2 none).Within demoPolicy ∧
      assessMutationCompatibility (demoToml (demoText "2" "") (demoManifest 2 none))
        releaseParsers (demoText "2" "") demoPolicy =
          .ok (.unsupported ⟨.schema, "2", "3"⟩) := by
  have hdecoded : (demoToml (demoText "2" "") (demoManifest 2 none)).manifest (demoText "2" "") =
      .ok (demoManifest 2 none) := demoToml_manifest ..
  refine ⟨by decide +kernel, rfl, ?_, demoManifest_within 2 none,
    (assess_eq hdecoded).trans (by decide +kernel)⟩
  exact fromToml_eq_ok.2 ⟨_, hdecoded, by decide +kernel, by decide +kernel⟩

end Template
end Hegira
