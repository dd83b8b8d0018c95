/-
# Resource specifications

`ResourceSpecification::resolve` of `tools/resource_generator/src/specification.rs`: what
the generators of a resource are given.  An accepted specification has names that were
resolved and between one and 64 fields, in the order of their names (`Accepted`).
-/

import Hegira.Generator.Naming
import Hegira.Template.ManifestValidation

namespace Hegira
namespace Generator

open Std (TreeMap)
open Template (ApplicationCapability ApplicationManifest ClientAdapter DatabaseAdapter
  ManifestError Parsers capabilityName)

def maxFields : ℕ := 64

def rustFieldKeywords : List String :=
  ["as", "async", "await", "break", "const", "continue", "crate", "dyn", "else", "enum", "extern",
    "false", "fn", "for", "gen", "if", "impl", "in", "let", "loop", "match", "mod", "move", "mut",
    "pub", "ref", "return", "self", "static", "struct", "super", "trait", "true", "try", "type",
    "unsafe", "use", "where", "while"]

def sqlFieldKeywords : List String :=
  ["all", "and", "as", "asc", "between", "by", "case", "check", "column", "constraint", "create",
    "default", "delete", "desc", "distinct", "drop", "else", "end", "exists", "false", "foreign",
    "from", "group", "having", "in", "index", "insert", "into", "is", "join", "key", "limit", "not",
    "null", "offset", "on", "or", "order", "primary", "references", "select", "set", "table",
    "then", "true", "union", "unique", "update", "user", "values", "when", "where"]

/-! ### Errors -/

inductive SpecificationErrorKind where
  | naming
  | invalidManifest
  | missingCapability
  | unsupportedSelection
  | invalidField
  | reservedField
  | duplicateField
  | unsupportedScalar
  | invalidCombination
  deriving DecidableEq, Repr

structure SpecificationError where
  kind : SpecificationErrorKind
  message : String
  deriving DecidableEq, Repr

namespace SpecificationError

def naming (error : NamingError) : SpecificationError := ⟨.naming, error.message⟩

/-- `SpecificationError::invalid_manifest`. -/
def invalidManifest (error : ManifestError) : SpecificationError :=
  ⟨.invalidManifest, "cannot resolve resource generation context: " ++ error.text⟩

end SpecificationError

/-! ### Scalars -/

inductive ScalarType where
  | string
  | bool
  | i64
  | uuid
  | dateTime
  deriving DecidableEq, Repr

def ScalarType.identifier : ScalarType → String
  | .string => "string"
  | .bool => "bool"
  | .i64 => "i64"
  | .uuid => "uuid"
  | .dateTime => "datetime"

/-- `ScalarType::from_str`. -/
def ScalarType.fromStr : String → Except SpecificationError ScalarType
  | "string" => .ok .string
  | "bool" => .ok .bool
  | "i64" => .ok .i64
  | "uuid" => .ok .uuid
  | "datetime" => .ok .dateTime
  | _ => .error ⟨.unsupportedScalar,
      "unsupported scalar type; expected one of string, bool, i64, uuid, or datetime"⟩

/-! ### Inputs -/

structure ResourceFieldInput where
  name : String
  scalar : String
  nullable : Bool
  deriving DecidableEq

structure ResourceSpecificationInput where
  naming : LayeredNamingInput
  fields : List ResourceFieldInput
  deriving DecidableEq

/-! ### Specifications -/

inductive SelectedClient where
  | leptos
  deriving DecidableEq, Repr

structure ResourceSelection where
  database : SelectedDatabase
  client : SelectedClient
  deriving DecidableEq

structure ResourceField where
  name : String
  scalar : ScalarType
  nullable : Bool
  deriving DecidableEq

structure ResourceSpecification where
  names : LayeredArtifactNames
  selection : ResourceSelection
  fields : List ResourceField
  deriving DecidableEq

/-- `ResourceCapabilityRequirements::evaluate` and `ensure_supported`. -/
def ensureSupported (parsers : Parsers) (manifest : ApplicationManifest) :
    Except SpecificationError Unit := do
  (manifest.validate parsers).mapError .invalidManifest
  let some composition := manifest.composition
    | throw ⟨.invalidManifest,
        "resource generation requires current application composition state"⟩
  let missing := [ApplicationCapability.authentication, .authorization].filter
    (· ∉ composition.capabilities)
  if missing ≠ [] then
    throw ⟨.missingCapability,
      "resource generation requires authentication and authorization; missing: " ++
        ", ".intercalate (missing.map capabilityName) ++
        ". Install the official Identity component with `hegira component add identity` before generating protected resources"⟩

def exactlyOne {α : Type} [LinearOrder α] (selection : Finset α) (label : String) :
    Except SpecificationError α :=
  match selection.sort (· ≤ ·) with
  | [value] => .ok value
  | _ => .error ⟨.unsupportedSelection,
      "resource generation requires exactly one selected " ++ label ++ " adapter"⟩

def ResourceSelection.resolve (parsers : Parsers) (manifest : ApplicationManifest) :
    Except SpecificationError ResourceSelection := do
  (manifest.validate parsers).mapError .invalidManifest
  let database ← exactlyOne manifest.selection.databases "database"
  let client ← exactlyOne manifest.selection.clients "client"
  return {
    database := match database with
      | .postgres => .postgres
      | .sqlite => .sqlite
    client := match client with
      | .leptos => .leptos }

/-- The spelling that `validate_field_name` asks. -/
def snakeCase (name : String) : Bool :=
  let characters := name.toList
  name ≠ "" && name.utf8ByteSize ≤ 64 && characters.head?.any Char.isLower
    && characters.getLast?.any (fun c => c.isAlphanum)
    && characters.all (fun c => c.isLower || c.isDigit || c == '_')
    && !(characters.zip characters.tail).any fun pair => pair.1 == '_' && pair.2 == '_'

def validateFieldName (name : String) : Except SpecificationError Unit := do
  if !snakeCase name then
    throw ⟨.invalidField, "field names must use 1–64 bytes of lowercase ASCII snake_case"⟩
  if name ∈ rustFieldKeywords || name ∈ sqlFieldKeywords then
    throw ⟨.reservedField, "field name `" ++ name ++ "` is reserved by Rust or SQL"⟩

/-- A turn of the loop over the fields. -/
def collectField (seen : TreeMap String ResourceFieldInput) (input : ResourceFieldInput) :
    Except SpecificationError (TreeMap String ResourceFieldInput) := do
  validateFieldName input.name
  if input.name = "id" then
    throw ⟨.reservedField, "field `id` is reserved for the required non-null UUID identifier"⟩
  if seen.contains input.name then
    throw ⟨.duplicateField,
      "resource field `" ++ input.name ++ "` is declared more than once"⟩
  return seen.insert input.name input

def ResourceFieldInput.resolve (input : ResourceFieldInput) :
    Except SpecificationError ResourceField := do
  let scalar ← ScalarType.fromStr input.scalar
  return ⟨input.name, scalar, input.nullable⟩

def resolveFields (inputs : List ResourceFieldInput) :
    Except SpecificationError (List ResourceField) := do
  if inputs = [] then
    throw ⟨.invalidCombination, "a resource requires at least one non-identifier field"⟩
  if maxFields < inputs.length then
    throw ⟨.invalidCombination,
      s!"a resource may define at most {maxFields} non-identifier fields"⟩
  let fields ← inputs.foldlM collectField ∅
  (fields.toList.map Prod.snd).mapM ResourceFieldInput.resolve

def ResourceSpecification.resolve (parsers : Parsers) (input : ResourceSpecificationInput)
    (occupied : ArtifactNamespace) (manifest : ApplicationManifest) :
    Except SpecificationError ResourceSpecification := do
  ensureSupported parsers manifest
  let selection ← ResourceSelection.resolve parsers manifest
  let names ← (LayeredArtifactNames.resolve input.naming occupied).mapError .naming
  let fields ← resolveFields input.fields
  return ⟨names, selection, fields⟩

/-! ### What is accepted -/

/-- A field name that is accepted. -/
structure ValidField (name : String) : Prop where
  spelling : snakeCase name = true
  rust : name ∉ rustFieldKeywords
  sql : name ∉ sqlFieldKeywords
  identifier : name ≠ "id"

/-- The names that were resolved from the types of a resource. -/
structure ResolvedNames (names : LayeredArtifactNames) : Prop where
  singular : ∃ words, ValidType names.singularType words ∧ names.rustModule = joined "_" words
  plural : ∃ words, ValidType names.pluralType words ∧ names.databaseTable = joined "_" words ∧
    names.routeSegment = joined "-" words ∧ names.permissionPrefix = joined "-" words
  distinct : names.singularType.toList.map Char.toLower ≠ names.pluralType.toList.map Char.toLower

/-- A specification that is accepted. -/
structure ResourceSpecification.Accepted (specification : ResourceSpecification) : Prop where
  names : ResolvedNames specification.names
  nonempty : specification.fields ≠ []
  length : specification.fields.length ≤ maxFields
  valid : ∀ field ∈ specification.fields, ValidField field.name
  nodup : (specification.fields.map ResourceField.name).Nodup

/-- Names that resolve are resolved. -/
theorem resolvedNames_of_resolve {input : LayeredNamingInput} {occupied : ArtifactNamespace}
    {names : LayeredArtifactNames} (h : LayeredArtifactNames.resolve input occupied = .ok names) :
    ResolvedNames names := by
  unfold LayeredArtifactNames.resolve at h
  obtain ⟨singular, hsingular, h⟩ := Validation.bind_eq_ok.1 h
  obtain ⟨plural, hplural, h⟩ := Validation.bind_eq_ok.1 h
  obtain ⟨hdistinct, h⟩ := Validation.guarded_eq_ok.1 h
  obtain ⟨-, -, h⟩ := Validation.bind_eq_ok.1 h
  obtain ⟨-, -, h⟩ := Validation.bind_eq_ok.1 h
  obtain ⟨-, -, h⟩ := Validation.bind_eq_ok.1 h
  obtain ⟨-, -, h⟩ := Validation.bind_eq_ok.1 h
  obtain ⟨-, -, h⟩ := Validation.bind_eq_ok.1 h
  obtain ⟨-, -, h⟩ := Validation.bind_eq_ok.1 h
  obtain ⟨artifacts, -, h⟩ := Validation.bind_eq_ok.1 h
  obtain rfl := Validation.pure_eq_ok.1 h
  have hsingular := validateRustType_eq_ok.1 hsingular
  have hplural := validateRustType_eq_ok.1 hplural
  rw [hsingular.identity, hplural.identity, String.ofList_inj] at hdistinct
  exact ⟨⟨singular, hsingular, rfl⟩, ⟨plural, hplural, rfl, rfl, rfl⟩, hdistinct⟩

/-- What is collected of the fields: each under its own accepted name. -/
def Collected (seen : TreeMap String ResourceFieldInput) : Prop :=
  ∀ entry ∈ seen.toList, ValidField entry.1 ∧ entry.2.name = entry.1

/-- A field is collected when its name is valid and new. -/
theorem collectField_eq_ok {seen seen' : TreeMap String ResourceFieldInput}
    {input : ResourceFieldInput} (h : collectField seen input = .ok seen') :
    ValidField input.name ∧ input.name ∉ seen ∧
      seen' = seen.insert input.name input := by
  unfold collectField at h
  obtain ⟨⟨⟩, hvalid, h⟩ := Validation.bind_eq_ok.1 h
  obtain ⟨hid, h⟩ := Validation.guarded_eq_ok.1 h
  obtain ⟨hnew, h⟩ := Validation.guarded_eq_ok.1 h
  unfold validateFieldName at hvalid
  obtain ⟨hspelling, hvalid⟩ := Validation.guarded_eq_ok.1 hvalid
  have hkeywords := Validation.guard_eq_ok.1 hvalid
  simp only [Bool.or_eq_true, decide_eq_true_eq, not_or] at hkeywords
  exact ⟨⟨by simpa using hspelling, hkeywords.1, hkeywords.2, hid⟩, by simpa using hnew,
    (Validation.pure_eq_ok.1 h).symm⟩

/-- Then the fields stay valid. -/
theorem Collected.insert {seen : TreeMap String ResourceFieldInput} (h : Collected seen)
    {input : ResourceFieldInput} (hvalid : ValidField input.name) :
    Collected (seen.insert input.name input) := by
  rintro ⟨name, field⟩ hmem
  rw [TreeMap.mem_toList_iff_getElem?_eq_some, TreeMap.getElem?_insert] at hmem
  split at hmem
  · next hname =>
      obtain rfl := Option.some.inj hmem
      obtain rfl := Std.LawfulEqOrd.eq_of_compare hname
      exact ⟨hvalid, rfl⟩
  · exact h _ (TreeMap.mem_toList_iff_getElem?_eq_some.2 hmem)

/-- The loop collects every field. -/
theorem Collected.foldlM {inputs : List ResourceFieldInput}
    {seen seen' : TreeMap String ResourceFieldInput} (hs : Collected seen)
    (h : inputs.foldlM collectField seen = .ok seen') :
    Collected seen' ∧ seen'.size = seen.size + inputs.length := by
  induction inputs generalizing seen with
  | nil =>
      obtain rfl : seen = seen' := Except.ok.inj h
      exact ⟨hs, rfl⟩
  | cons input inputs ih =>
      obtain ⟨t, ht, hrest⟩ := Validation.foldlM_cons_eq_ok.1 h
      obtain ⟨hvalid, hnew, rfl⟩ := collectField_eq_ok ht
      obtain ⟨hcollected, hsize⟩ := ih (hs.insert hvalid) hrest
      refine ⟨hcollected, ?_⟩
      rw [hsize, TreeMap.size_insert, if_neg (by simpa using hnew), List.length_cons]
      omega

/-- A field that resolves keeps its name. -/
theorem resolve_field {input : ResourceFieldInput} {field : ResourceField}
    (h : input.resolve = .ok field) : field.name = input.name := by
  obtain ⟨scalar, -, h⟩ := Validation.bind_eq_ok.1 h
  obtain rfl := Validation.pure_eq_ok.1 h
  rfl

theorem names_of_resolved {entries : List (String × ResourceFieldInput)}
    {fields : List ResourceField}
    (h : List.Forall₂ (fun entry field => entry.2.resolve = .ok field) entries fields)
    (hnames : ∀ entry ∈ entries, entry.2.name = entry.1) :
    fields.map ResourceField.name = entries.map Prod.fst := by
  induction h with
  | nil => rfl
  | @cons entry field entries fields hfield hrest ih =>
      obtain ⟨hname, hnames⟩ := List.forall_mem_cons.1 hnames
      rw [List.map_cons, List.map_cons, ih hnames, resolve_field hfield, hname]

/-- The fields are those collected, under their names. -/
theorem resolveFields_names {inputs : List ResourceFieldInput} {fields : List ResourceField}
    (h : resolveFields inputs = .ok fields) : ∃ seen, Collected seen ∧
      fields.map ResourceField.name = seen.toList.map Prod.fst ∧ inputs ≠ [] ∧
      inputs.length ≤ maxFields ∧ seen.size = inputs.length := by
  unfold resolveFields at h
  obtain ⟨hnonempty, h⟩ := Validation.guarded_eq_ok.1 h
  obtain ⟨hlength, h⟩ := Validation.guarded_eq_ok.1 h
  obtain ⟨seen, hseen, h⟩ := Validation.bind_eq_ok.1 h
  obtain ⟨hcollected, hsize⟩ := Collected.foldlM (by simp [Collected]) hseen
  rw [TreeMap.size_emptyc, Nat.zero_add] at hsize
  refine ⟨seen, hcollected, ?_, hnonempty, Nat.not_lt.1 hlength, hsize⟩
  have hresolved := List.forall₂_map_left_iff.1 (Validation.mapM_eq_ok.1 h)
  exact names_of_resolved hresolved fun entry hentry => (hcollected entry hentry).2

/-- **A specification that resolves** is accepted. -/
theorem accepted_of_resolve {parsers : Parsers} {input : ResourceSpecificationInput}
    {occupied : ArtifactNamespace} {manifest : ApplicationManifest}
    {specification : ResourceSpecification}
    (h : ResourceSpecification.resolve parsers input occupied manifest = .ok specification) :
    specification.Accepted := by
  unfold ResourceSpecification.resolve at h
  obtain ⟨-, -, h⟩ := Validation.bind_eq_ok.1 h
  obtain ⟨selection, -, h⟩ := Validation.bind_eq_ok.1 h
  obtain ⟨names, hnames, h⟩ := Validation.bind_eq_ok.1 h
  obtain ⟨fields, hfields, h⟩ := Validation.bind_eq_ok.1 h
  obtain rfl := Validation.pure_eq_ok.1 h
  obtain ⟨seen, hcollected, hkeys, hnonempty, hlength, hsize⟩ := resolveFields_names hfields
  have hcount : fields.length = seen.size := by
    have hlengths := congrArg List.length hkeys
    rwa [List.length_map, List.length_map, TreeMap.length_toList] at hlengths
  have hinputs := List.length_pos_iff.2 hnonempty
  refine ⟨resolvedNames_of_resolve (Validation.mapError_eq_ok.1 hnames), ?_, ?_, ?_, ?_⟩
  · show fields ≠ []
    rw [← List.length_pos_iff, hcount, hsize]
    exact hinputs
  · show fields.length ≤ maxFields
    rw [hcount, hsize]
    exact hlength
  · show ∀ field ∈ fields, ValidField field.name
    intro field hfield
    have hname : field.name ∈ seen.toList.map Prod.fst := hkeys ▸ List.mem_map_of_mem hfield
    obtain ⟨entry, hentry, he⟩ := List.mem_map.1 hname
    exact he ▸ (hcollected entry hentry).1
  · show (fields.map ResourceField.name).Nodup
    rw [hkeys, TreeMap.map_fst_toList_eq_keys]
    exact TreeMap.nodup_keys

/-! ### An application with identities -/

def demoPackage : Template.PackageIdentity := ⟨Template.hegiraComponentPackage, "v0.7.0"⟩

def demoFramework : Template.FrameworkContract := ⟨Template.hegiraFrameworkRepository, "v0.7.0"⟩

/-- The manifest of an application with the official identity component. -/
def demoApplication (database : DatabaseAdapter) : ApplicationManifest where
  schema := Template.applicationManifestSchema
  application := "demo"
  framework := demoFramework
  selection := ⟨∅, {database}, {.leptos}⟩
  composition := some {
    package := demoPackage
    components := [⟨Template.layeredBaseComponent, "v0.7.0"⟩,
      ⟨Template.layeredLeptosIdentityComponent, "v0.7.0"⟩]
    modules := [⟨Template.identityModule, "v0.7.0"⟩]
    capabilities := {.authentication, .authorization} }
  upgrade := some ⟨demoFramework, demoPackage, ⟨.applicationOwned, []⟩⟩

/-- The names that are taken in it. -/
def demoNamespace : ArtifactNamespace :=
  (ArtifactNamespace.new "demo" ["identity"] ["dashboard"]).toOption.getD ∅

def demoResolve (singular : String) (plural : Option String) (fields : List ResourceFieldInput) :
    Except SpecificationError ResourceSpecification :=
  ResourceSpecification.resolve Template.releaseParsers ⟨⟨singular, plural⟩, fields⟩ demoNamespace
    (demoApplication .postgres)

end Generator
end Hegira
