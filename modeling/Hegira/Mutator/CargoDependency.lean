/-
# Cargo dependency declarations

`CargoDependency` of `tools/application_mutator/src/editor.rs`, its encoder
`cargo_dependency_value`, its matcher `cargo_dependency_matches`, and the two
editors that use them.

TOML documents come from the `toml_edit` crate (`TomlEdit`): a document is read
through its tables and changed by inserting an entry, and the rest of it (spacing,
comments) is its own business.  A table is the list of its entries, in order.
-/

import Mathlib.Data.Finset.Sort
import Mathlib.Data.String.Basic
import Mathlib.Order.Lex
import Hegira.Library.Arrangement
import Hegira.Mutator.Editor

namespace Hegira
namespace Mutator

/-! ### TOML -/

/-- `toml_edit::Item` without its formatting.  A table may be written as a table of
its own, inline or dotted. -/
inductive Item where
  | boolean (value : Bool)
  | string (value : String)
  | integer (value : Int)
  | float (text : String)
  | datetime (text : String)
  | array (items : List Item)
  | inlineTable (entries : List (String × Item))
  | table (entries : List (String × Item))
  | arrayOfTables (tables : List (List (String × Item)))

abbrev Table := List (String × Item)

namespace Table

/-- `TableLike::get`. -/
def get (t : Table) (key : String) : Option Item := t.lookup key

/-- `TableLike::insert`: in its place when the key is there, else at the end. -/
def insert (t : Table) (key : String) (item : Item) : Table :=
  if (t.get key).isSome then t.map fun e => if e.1 = key then (key, item) else e
  else t ++ [(key, item)]

theorem get_cons (e : String × Item) (t : Table) (key : String) :
    get (e :: t) key = if key = e.1 then some e.2 else get t key := by
  rw [get, List.lookup_cons]
  by_cases h : key = e.1
  · simp [h]
  · rw [beq_false_of_ne h, if_neg h, get]

@[simp] theorem get_nil (key : String) : get [] key = none := rfl

theorem get_append (t t' : Table) (key : String) :
    get (t ++ t') key = (get t key).or (get t' key) :=
  List.lookup_append

theorem get_replace (t : Table) (key key' : String) (item : Item) :
    get (t.map fun e => if e.1 = key then (key, item) else e) key' =
      if key' = key then (t.get key').map fun _ => item else t.get key' := by
  induction t with
  | nil => simp
  | cons e t ih =>
      rw [List.map_cons, get_cons, get_cons, ih]
      by_cases he : e.1 = key
      · subst he
        by_cases hk : key' = e.1 <;> simp [hk]
      · by_cases hk : key' = e.1
        · simp [hk, he]
        · simp [hk, he]

/-- **What an insertion leaves behind.** -/
@[simp] theorem get_insert (t : Table) (key key' : String) (item : Item) :
    (t.insert key item).get key' = if key' = key then some item else t.get key' := by
  rw [insert]
  split
  · next hsome =>
      obtain ⟨old, hold⟩ := Option.isSome_iff_exists.1 hsome
      rw [get_replace]
      split
      · next he => rw [he, hold, Option.map_some]
      · rfl
  · next hnone =>
      have hnone : t.get key = none := by simpa using hnone
      rw [get_append, get_cons]
      by_cases he : key' = key
      · simp [he, hnone]
      · simp [he]

end Table

/-- `Item::as_bool`. -/
def Item.asBool : Item → Option Bool
  | .boolean value => some value
  | _ => none

/-- `Item::as_str`. -/
def Item.asStr : Item → Option String
  | .string value => some value
  | _ => none

/-- `Item::as_array`. -/
def Item.asArray : Item → Option (List Item)
  | .array items => some items
  | _ => none

/-- `Item::as_table_like`. -/
def Item.asTableLike : Item → Option Table
  | .inlineTable entries => some entries
  | .table entries => some entries
  | _ => none

/-- The item with `f` of its table, if it is one. -/
def Item.mapTable (f : Table → Table) : Item → Item
  | .inlineTable entries => .inlineTable (f entries)
  | .table entries => .table (f entries)
  | item => item

namespace Table

/-- The loop of `find_table`. -/
def find? (t : Table) : List String → Option Table
  | [] => some t
  | segment :: path => do
      let item ← t.get segment
      let child ← item.asTableLike
      find? child path

/-- The table with `f` of the table at the path. -/
def modifyAt (f : Table → Table) : List String → Table → Table
  | [], t => f t
  | segment :: path, t =>
      t.map fun e => if e.1 = segment then (e.1, e.2.mapTable (modifyAt f path)) else e

end Table

/-- Documents of `toml_edit`. -/
structure TomlEdit (Document : Type) where
  /-- `str::parse`. -/
  parse : String → Option Document
  /-- `DocumentMut::to_string`. -/
  print : Document → String
  /-- The root table of a document. -/
  root : Document → Table
  /-- `TableLike::insert` in the table at a path. -/
  insert : Document → List String → String → Item → Document
  /-- An insertion changes the root table at its place only. -/
  root_insert : ∀ document path key item, ((root document).find? path).isSome →
    root (insert document path key item) =
      (root document).modifyAt (fun t => t.insert key item) path

/-! ### Dependencies -/

/-- `CargoDependencySection`. -/
inductive CargoDependencySection where
  | workspaceDependencies
  | dependencies
  | devDependencies
  | buildDependencies
  deriving DecidableEq, Repr

/-- `CargoDependencySection::table_path`. -/
def CargoDependencySection.tablePath : CargoDependencySection → List String
  | .workspaceDependencies => ["workspace", "dependencies"]
  | .dependencies => ["dependencies"]
  | .devDependencies => ["dev-dependencies"]
  | .buildDependencies => ["build-dependencies"]

/-- `CargoDependencySource`. -/
inductive CargoDependencySource where
  | workspace
  | registry (version : String)
  | frameworkRelease (repository version : String) (defaultFeatures : Bool)
  deriving DecidableEq, Repr

/-- `CargoDependency`; the features are a `BTreeSet`. -/
structure CargoDependency where
  name : String
  source : CargoDependencySource
  optional : Bool
  features : Finset String
  deriving DecidableEq

/-- `valid_cargo_name`. -/
def validCargoName (value : String) : Bool :=
  value ≠ "" && value.utf8ByteSize ≤ 128 &&
    value.toList.zipIdx.all fun (c, index) =>
      c.isLower || c.isDigit || (0 < index && (c == '-' || c == '_'))

/-- `valid_cargo_feature`.  The bytes it allows are no white space. -/
def validCargoFeature (value : String) : Bool :=
  value ≠ "" && value.utf8ByteSize ≤ 256 &&
    value.toList.all fun c => c.isAlphanum || "-_:/?.".toList.contains c

/-- `valid_https_repository`. -/
def validHttpsRepository (value : String) : Bool :=
  "https://".toList.isPrefixOf value.toList &&
    let location := value.toList.drop 8
    location ≠ [] && location.contains '/' &&
      location.all fun c => 0x20 < c.toNat && c.toNat ≠ 0x7F && !"@?#\\".toList.contains c

/-- The parts of a version: three numbers without leading zeros. -/
def validVersionParts (value : List Char) : Bool :=
  let parts := value.splitOn '.'
  parts.length == 3 &&
    parts.all fun part => part ≠ [] && part.all Char.isDigit && (part == ['0'] || part.head? ≠ some '0')

/-- `valid_release_version`. -/
def validReleaseVersion (value : String) : Bool :=
  match value.toList with
  | 'v' :: version => validVersionParts version
  | _ => false

/-- `valid_registry_version`. -/
def validRegistryVersion (value : String) : Bool := validVersionParts value.toList

/-- `validate_cargo_dependency`. -/
def validateCargoDependency (sec : CargoDependencySection) (dependency : CargoDependency)
    (path : ChangePath) : Except StructuredEditError Unit :=
  if !validCargoName dependency.name || ∃ feature ∈ dependency.features, !validCargoFeature feature then
    .error (.atPath .invalidInput path
      "Cargo dependency names and feature selections must use validated Cargo identifiers")
  else match dependency.source, sec with
    | .frameworkRelease repository version _, .workspaceDependencies =>
        if !dependency.optional && validHttpsRepository repository && validReleaseVersion version then
          .ok ()
        else .error (.atPath .invalidInput path
          "framework dependencies require a credential-free HTTPS repository and stable SemVer tag")
    | .workspace, .workspaceDependencies => .error (.atPath .invalidInput path
        "workspace dependency declarations require an immutable framework release source")
    | .registry version, .workspaceDependencies =>
        if !dependency.optional && validRegistryVersion version then .ok ()
        else .error (.atPath .invalidInput path
          "registry workspace dependencies require an exact stable SemVer version")
    | .workspace, _ => .ok ()
    | .registry _, _ | .frameworkRelease _ _ _, _ => .error (.atPath .invalidInput path
        "application package dependencies must consume the workspace declaration")

/-- The keys `cargo_dependency_matches` allows. -/
def allowedKeys : List String :=
  ["workspace", "git", "tag", "version", "default-features", "optional", "features"]

/-- A flag as `cargo_dependency_matches` reads it: a value that is no boolean counts
as none. -/
def flagMatches (declaration : Table) (key : String) (default expected : Bool) : Bool :=
  match (declaration.get key).bind Item.asBool with
  | some value => value == expected
  | none => default == expected

/-- The `source_matches` of `cargo_dependency_matches`. -/
def sourceMatches (declaration : Table) : CargoDependencySource → Bool
  | .workspace =>
      (declaration.get "workspace").bind Item.asBool == some true &&
        (declaration.get "git").isNone && (declaration.get "tag").isNone &&
        (declaration.get "default-features").isNone
  | .registry version =>
      (declaration.get "workspace").isNone && (declaration.get "git").isNone &&
        (declaration.get "tag").isNone &&
        (declaration.get "version").bind Item.asStr == some version &&
        (declaration.get "default-features").isNone
  | .frameworkRelease repository version defaultFeatures =>
      (declaration.get "workspace").isNone &&
        (declaration.get "git").bind Item.asStr == some repository &&
        (declaration.get "tag").bind Item.asStr == some version &&
        flagMatches declaration "default-features" true defaultFeatures

/-- The `features_match` of `cargo_dependency_matches`. -/
def featuresMatch (declaration : Table) (features : Finset String) : Bool :=
  match (declaration.get "features").bind Item.asArray with
  | some items =>
      match items.mapM Item.asStr with
      | some entries => entries.length == features.card && entries.toFinset == features
      | none => false
  | none => (declaration.get "features").isNone && features == ∅

/-- `cargo_dependency_matches`. -/
def cargoDependencyMatches (existing : Item) (dependency : CargoDependency) : Bool :=
  match existing.asTableLike with
  | none => false
  | some declaration =>
      declaration.all (fun e => allowedKeys.contains e.1) &&
        sourceMatches declaration dependency.source &&
        flagMatches declaration "optional" false dependency.optional &&
        featuresMatch declaration dependency.features

/-- The entries of `cargo_dependency_value` for the source of a dependency. -/
def CargoDependencySource.entries : CargoDependencySource → Table
  | .workspace => [("workspace", .boolean true)]
  | .registry version => [("version", .string version)]
  | .frameworkRelease repository version defaultFeatures =>
      [("git", .string repository), ("tag", .string version)] ++
        if defaultFeatures then [] else [("default-features", .boolean false)]

/-- The table of `cargo_dependency_value`. -/
def CargoDependency.declaration (dependency : CargoDependency) : Table :=
  dependency.source.entries ++
    (if dependency.optional then [("optional", .boolean true)] else []) ++
    if dependency.features = ∅ then []
    else [("features", .array ((dependency.features.sort (· ≤ ·)).map .string))]

/-- `cargo_dependency_value`. -/
def cargoDependencyValue (dependency : CargoDependency) : Item :=
  .inlineTable dependency.declaration

/-! ### The editors -/

section Editors

variable {Document D : Type} [ContentDigest D] [DecidableEq D] (toml : TomlEdit Document)

/-- `parse_toml`, after `str::from_utf8`. -/
def parseToml (observedSource : Bytes) (path : ChangePath) : Except StructuredEditError Document :=
  match fromUtf8 observedSource with
  | none => .error (.atPath .invalidSource path "Cargo integration source must be UTF-8")
  | some source =>
      match toml.parse source with
      | none => .error (.atPath .invalidSource path
          "TOML integration source is not a supported document")
      | some document => .ok document

/-- `find_table`. -/
def findTable (document : Document) (tablePath : List String) (path : ChangePath) :
    Except StructuredEditError Table :=
  match (toml.root document).find? tablePath with
  | none => .error (.atPath .missingIntegrationPoint path
      "declared TOML table integration point is missing or ambiguous")
  | some table => .ok table

/-- `plan_cargo_dependency`. -/
def planCargoDependency (path : String) (observedSource : Bytes) (sec : CargoDependencySection)
    (dependency : CargoDependency) : Except StructuredEditError (StructuredEditOutcome D) := do
  let path ← liftPlan (ChangePath.new path)
  validateCargoDependency sec dependency path
  let document ← parseToml toml observedSource path
  let table ← findTable toml document sec.tablePath path
  match table.get dependency.name with
  | some existing =>
      if cargoDependencyMatches existing dependency then
        return .alreadyPresent .cargoDependency path
      throw (.atPath .tomlConflict path
        "Cargo dependency already exists with a different declaration")
  | none =>
      let document := toml.insert document sec.tablePath dependency.name
        (cargoDependencyValue dependency)
      planned .cargoDependency path observedSource (intoBytes (toml.print document))

/-- What a transition keeps: the contracts differ in the version only. -/
def sameContract (source target : CargoDependency) : Bool :=
  match source.source, target.source with
  | .frameworkRelease sourceRepository sourceVersion sourceDefaultFeatures,
    .frameworkRelease targetRepository targetVersion targetDefaultFeatures =>
      source.name == target.name && source.optional == target.optional &&
        source.features == target.features && sourceRepository == targetRepository &&
        sourceDefaultFeatures == targetDefaultFeatures && sourceVersion != targetVersion
  | _, _ => false

/-- `plan_cargo_dependency_transition`. -/
def planCargoDependencyTransition (path : String) (observedSource : Bytes)
    (sec : CargoDependencySection) (source target : CargoDependency) :
    Except StructuredEditError (StructuredEditOutcome D) := do
  let path ← liftPlan (ChangePath.new path)
  validateCargoDependency sec source path
  validateCargoDependency sec target path
  match source.source, target.source with
  | .frameworkRelease .., .frameworkRelease .. => pure ()
  | _, _ => throw (.atPath .invalidInput path
      "framework dependency transitions may change only the authenticated release source")
  if !sameContract source target then
    throw (.atPath .invalidInput path
      "framework dependency transitions may change only the authenticated release version")
  let document ← parseToml toml observedSource path
  let table ← findTable toml document sec.tablePath path
  match table.get source.name with
  | none => throw (.atPath .tomlConflict path
      "framework dependency required by the target composition is missing")
  | some existing =>
      if !cargoDependencyMatches existing source then
        throw (.atPath .tomlConflict path
          "framework dependency does not match the authenticated source release")
      let document := toml.insert document sec.tablePath target.name (cargoDependencyValue target)
      planned .cargoDependency path observedSource (intoBytes (toml.print document))

end Editors

end Mutator
end Hegira
