/-
# Application migrations

`plan_application_migration` of `tools/resource_generator/src/migration.rs`: a plan
that adds one migration file to the directory of a database and moves the next
version in the state file of the generator.

The application is what the planner looks at: files at plannable paths, and what else
there is to find (`Application`).  The names in a directory are bytes, and `read_dir`
gives them in any order, so the listing is an argument.  The state file is written and
read by the `toml` crate (`Toml`).
-/

import Mathlib.Data.List.Basic
import Std.Data.TreeMap
import Hegira.Mutator.Editor
import Hegira.Mutator.PlanSemantics

namespace Hegira
namespace Generator

open Mutator (Bytes ChangePath ChangePlan ContentDigest FileCreation FileState PlannedFileChange
  StructuredFileEdit fromUtf8 intoBytes)
open Std (TreeMap)

def migrationStateSchema : ℕ := 1
def applicationMigrationVersionFloor : ℤ := 1000000
def migrationRoot : String := "crates/infrastructure/migrations"
def maxIdentityBytes : ℕ := 64

/-- `i64::MAX`. -/
def i64Max : ℤ := 9223372036854775807

/-- `MIGRATION_STATE`. -/
def migrationState : ChangePath :=
  ⟨"crates/infrastructure/migrations/.hegira-generator.toml", by decide +kernel⟩

inductive SelectedDatabase where
  | postgres
  | sqlite
  deriving DecidableEq, Repr

inductive MigrationErrorKind where
  | invalidIdentity
  | unsafeApplication
  | invalidHistory
  | identityCollision
  | versionExhausted
  | invalidState
  | planning
  deriving DecidableEq, Repr

structure MigrationError where
  kind : MigrationErrorKind
  message : String
  deriving DecidableEq, Repr

/-! ### Identities -/

/-- The checks of `MigrationIdentity::new`. -/
def MigrationIdentity.check (value : String) : Except MigrationError Unit := do
  let characters := value.toList
  let valid := !characters.isEmpty
    && value.utf8ByteSize ≤ maxIdentityBytes
    && characters.head?.any Char.isLower
    && characters.getLast?.any Char.isAlphanum
    && characters.all (fun c => c.isLower || c.isDigit || c == '_')
    && !(characters.zip characters.tail).any fun pair => pair.1 == '_' && pair.2 == '_'
  if !valid then
    throw ⟨.invalidIdentity,
      "migration identities must use 1–64 bytes of lowercase ASCII snake_case"⟩
  if value ∈ ["migration", "up", "down", "hegira"] then
    throw ⟨.invalidIdentity, "migration identity `" ++ value ++ "` is reserved"⟩

/-- `MigrationIdentity`. -/
structure MigrationIdentity where
  value : String
  checked : MigrationIdentity.check value = .ok ()
  deriving DecidableEq

/-- `MigrationIdentity::new`. -/
def MigrationIdentity.new (value : String) : Except MigrationError MigrationIdentity :=
  match h : MigrationIdentity.check value with
  | .ok () => .ok ⟨value, h⟩
  | .error e => .error e

/-! ### File names -/

/-- `format!("{version:03}")`; no version is negative here. -/
def formatVersion (version : ℤ) : String :=
  let digits := Nat.toDigits 10 version.toNat
  String.ofList (List.replicate (3 - digits.length) '0' ++ digits)

/-- `format!("{version:03}_{}.sql", identity)`. -/
def migrationFilename (version : ℤ) (identity : MigrationIdentity) : String :=
  formatVersion version ++ "_" ++ identity.value ++ ".sql"

/-- `str::strip_suffix`. -/
def stripSuffix (suffix text : List Char) : Option (List Char) :=
  if suffix.isSuffixOf text then some (text.take (text.length - suffix.length)) else none

/-- `str::split_once` at a character. -/
def splitOnce (separator : Char) (text : List Char) : Option (List Char × List Char) :=
  if separator ∈ text then
    some (text.takeWhile (· ≠ separator), (text.dropWhile (· ≠ separator)).tail)
  else none

/-- `parse_migration_filename`.  The length of the version is counted in characters: a
version with other characters than digits is refused with the same error. -/
def parseMigrationFilename (name : String) : Except MigrationError (ℤ × MigrationIdentity) := do
  let some source := stripSuffix ".sql".toList name.toList
    | throw ⟨.invalidHistory, "application migration filenames must end in .sql"⟩
  let some (digits, identity) := splitOnce '_' source
    | throw ⟨.invalidHistory, "application migration filenames must use <version>_<identity>.sql"⟩
  if digits.length < 3 || !digits.all Char.isDigit
      || (digits.length > 3 && digits.head? == some '0') then
    throw ⟨.invalidHistory,
      "application migration versions must be canonical integers padded to at least three digits"⟩
  let version : ℤ := Nat.ofDigitChars 10 digits 0
  if version > i64Max then
    throw ⟨.invalidHistory, "application migration version is outside the supported integer range"⟩
  if version ≤ 0 || formatVersion version ≠ String.ofList digits then
    throw ⟨.invalidHistory, "application migration version is not in canonical positive form"⟩
  match MigrationIdentity.new (String.ofList identity) with
  | .error _ =>
      throw ⟨.invalidHistory, "application migration filename contains an invalid identity"⟩
  | .ok identity => return (version, identity)

/-! ### The state file -/

structure MigrationState where
  schema : ℕ
  database : SelectedDatabase
  nextVersion : ℤ
  deriving DecidableEq, Repr

/-- The `toml` crate on `MigrationState`: what it writes, with or without a newline
after it, it reads back. -/
structure Toml where
  toString : MigrationState → Option String
  fromStr : String → Option MigrationState
  fromStr_toString : ∀ {state text}, toString state = some text → fromStr text = some state
  fromStr_newline : ∀ {state text}, toString state = some text →
    fromStr (text ++ "\n") = some state

/-- `parse_state`. -/
def parseState (toml : Toml) (source : Bytes) : Except MigrationError MigrationState := do
  let some source := fromUtf8 source
    | throw ⟨.invalidState, "migration generator state must be UTF-8 TOML"⟩
  let some state := toml.fromStr source
    | throw ⟨.invalidState, "migration generator state is invalid"⟩
  if state.schema ≠ migrationStateSchema || state.nextVersion ≤ 0 then
    throw ⟨.invalidState, "migration generator state has an unsupported schema or next version"⟩
  return state

/-- `serialize_state`. -/
def serializeState (toml : Toml) (state : MigrationState) : Except MigrationError Bytes := do
  let some source := toml.toString state
    | throw ⟨.planning, "cannot serialize migration generator state"⟩
  return intoBytes (if source.toList.getLast? = some '\n' then source else source ++ "\n")

/-! ### The application -/

/-- `std::fs::FileType`. -/
inductive FileType where
  | regular
  | directory
  | symlink
  | other
  deriving DecidableEq, Repr

/-- What `symlink_metadata` says about a path. -/
inductive Metadata where
  | missing
  | failed
  | found (fileType : FileType)
  deriving DecidableEq, Repr

/-- An entry of `read_dir` and its `symlink_metadata`. -/
inductive DirEntry where
  | failed
  | named (name : Bytes) (metadata : Metadata)
  deriving DecidableEq, Repr

/-- What the planner sees of an application. -/
structure Application where
  /-- `Path::is_absolute` of the root. -/
  absolute : Bool
  /-- Whether `canonicalize` gives the root back, if it works. -/
  canonical : Option Bool
  /-- The regular files at plannable paths. -/
  files : TreeMap ChangePath Bytes
  /-- `symlink_metadata` of all other paths below the root, which is `[]`. -/
  others : List String → Metadata
  /-- Whether `read_dir` of a migration directory works. -/
  readable : SelectedDatabase → Bool
  /-- The other entries of a migration directory. -/
  strays : SelectedDatabase → List DirEntry

namespace Application

variable (app : Application)

/-- The files as a plan sees them. -/
def fileState : FileState := fun path => app.files[path]?

/-- `database_directory`. -/
def databaseDirectory : SelectedDatabase → String
  | .postgres => "postgres"
  | .sqlite => "sqlite"

/-- The directory of the migrations of a database, with a slash. -/
def directoryPrefix (database : SelectedDatabase) : String :=
  migrationRoot ++ "/" ++ databaseDirectory database ++ "/"

/-- The entry of a directory that the file at a path is, or is below. -/
def entryOf (directory : String) (path : ChangePath) : Option DirEntry :=
  if directory.toList.isPrefixOf path.text.toList then
    let rest := path.text.toList.drop directory.toList.length
    some (.named (intoBytes (String.ofList (rest.takeWhile (· ≠ '/'))))
      (.found (if '/' ∈ rest then .directory else .regular)))
  else none

/-- The entries of a migration directory, which `read_dir` gives in any order. -/
def entries (database : SelectedDatabase) : List DirEntry :=
  app.files.keys.filterMap (entryOf (directoryPrefix database)) ++ app.strays database

/-- `safe_application_root`. -/
def safeApplicationRoot : Except MigrationError Unit := do
  if !app.absolute then
    throw ⟨.unsafeApplication, "application root must be absolute before migration planning"⟩
  let some same := app.canonical
    | throw ⟨.unsafeApplication, "application root must be an existing real directory"⟩
  if !same then
    throw ⟨.unsafeApplication,
      "application root may not contain symlinks or a non-canonical spelling"⟩
  match app.others [] with
  | .missing | .failed => throw ⟨.unsafeApplication, "cannot inspect the application root"⟩
  | .found fileType =>
      if fileType ≠ .directory then
        throw ⟨.unsafeApplication, "application root must be a real directory"⟩

/-- The loop of `checked_directory`. -/
def checkedComponents (parent : List String) : List Mutator.Component →
    Except MigrationError (List String)
  | [] => return parent
  | .normal component :: rest =>
      let path := parent ++ [component]
      match app.others path with
      | .missing | .failed =>
          throw ⟨.unsafeApplication, "required application migration directory is missing"⟩
      | .found fileType =>
          if fileType ≠ .directory then
            throw ⟨.unsafeApplication,
              "application migration path components must be real directories"⟩
          else checkedComponents path rest
  | _ :: _ =>
      throw ⟨.unsafeApplication, "application migration paths must contain only normal components"⟩

/-- `checked_directory`. -/
def checkedDirectory (parent : List String) (child : String) :
    Except MigrationError (List String) :=
  app.checkedComponents parent (Mutator.components child)

/-- The state file, as `observe_history` reads it. -/
def observeState : Except MigrationError (Option Bytes) :=
  match app.files[migrationState]? with
  | some source => .ok (some source)
  | none =>
      match app.others migrationState.segments with
      | .found .regular =>
          .error ⟨.unsafeApplication, "cannot read application migration generator state"⟩
      | .found _ =>
          .error ⟨.unsafeApplication,
            "application migration generator state must be a regular file"⟩
      | .missing => .ok none
      | .failed =>
          .error ⟨.unsafeApplication, "cannot inspect application migration generator state"⟩

end Application

/-! ### Planning -/

/-- `ObservedHistory`. -/
structure ObservedHistory where
  highestVersion : ℤ
  identities : TreeMap String ℤ
  state : Option Bytes

/-- The versions and the identities seen so far. -/
abbrev Seen := TreeMap ℤ String × TreeMap String ℤ

/-- The name of an entry, which must be a regular SQL file. -/
def entryName (name : Bytes) : Metadata → Except MigrationError String
  | .missing | .failed =>
      .error ⟨.unsafeApplication, "cannot inspect an application migration entry"⟩
  | .found fileType =>
      if fileType ≠ .regular then
        .error ⟨.unsafeApplication,
          "application migration directories may contain only regular files"⟩
      else match fromUtf8 name with
        | none =>
            .error ⟨.invalidHistory, "application migration filenames must be valid UTF-8"⟩
        | some name =>
            if !".sql".toList.isSuffixOf name.toList then
              .error ⟨.invalidHistory,
                "selected application migration directory contains a non-SQL file"⟩
            else .ok name

/-- A migration is new to what has been seen. -/
def observeMigration (seen : Seen) (version : ℤ) (identity : MigrationIdentity) :
    Except MigrationError Seen :=
  match seen.1[version]?, seen.2[identity.value]? with
  | some existing, _ =>
      .error ⟨.invalidHistory, "migration version " ++ toString version ++ " is used by both `"
        ++ existing ++ "` and `" ++ identity.value ++ "`"⟩
  | none, some existing =>
      .error ⟨.invalidHistory, "migration identity `" ++ identity.value ++ "` is used by versions "
        ++ toString existing ++ " and " ++ toString version⟩
  | none, none =>
      .ok (seen.1.insert version identity.value, seen.2.insert identity.value version)

/-- One turn of the loop of `observe_history`. -/
def observeEntry (seen : Seen) : DirEntry → Except MigrationError Seen
  | .failed =>
      .error ⟨.unsafeApplication, "cannot inspect the selected application migration directory"⟩
  | .named name metadata => do
      let name ← entryName name metadata
      let (version, identity) ← parseMigrationFilename name
      observeMigration seen version identity

/-- `observe_history`, with the listing `read_dir` gives. -/
def observeHistory (app : Application) (listing : List DirEntry) (database : SelectedDatabase) :
    Except MigrationError ObservedHistory := do
  app.safeApplicationRoot
  let migrationRoot ← app.checkedDirectory [] migrationRoot
  let _ ← app.checkedDirectory migrationRoot (Application.databaseDirectory database)
  if !app.readable database then
    throw ⟨.unsafeApplication, "cannot read the selected application migration directory"⟩
  let (versions, identities) ← listing.foldlM observeEntry (∅, ∅)
  let state ← app.observeState
  return ⟨versions.keys.getLast?.getD 0, identities, state⟩

section Plan

variable (D : Type) [ContentDigest D]

/-- `PlannedMigration`. -/
structure PlannedMigration where
  version : ℤ
  identity : MigrationIdentity
  path : String
  plan : ChangePlan D

end Plan

variable {D : Type} [ContentDigest D] [DecidableEq D]

/-- A step that fails with the message of a plan. -/
def liftPlan {α : Type} (r : Except Mutator.ChangePlanError α) : Except MigrationError α :=
  r.mapError fun error => ⟨.planning, error.message⟩

/-- `i64::checked_add(1)`. -/
def checkedSucc (version : ℤ) : Except MigrationError ℤ :=
  if version + 1 ≤ i64Max then .ok (version + 1)
  else .error ⟨.versionExhausted, "migration version space is exhausted"⟩

/-- The change of the state file. -/
def planState (D : Type) [ContentDigest D] [DecidableEq D] (observed : Option Bytes)
    (source : Bytes) : Except MigrationError (PlannedFileChange D) :=
  match observed with
  | some observed =>
      (liftPlan (StructuredFileEdit.new migrationState.text observed source)).map .edit
  | none => (liftPlan (FileCreation.new migrationState.text source)).map .create

/-- `plan_application_migration_with_source`. -/
def planApplicationMigrationWithSource (D : Type) [ContentDigest D] [DecidableEq D] (toml : Toml)
    (app : Application) (listing : List DirEntry) (database : SelectedDatabase)
    (identity : MigrationIdentity) (source : Bytes) :
    Except MigrationError (PlannedMigration D) := do
  let history ← observeHistory app listing database
  if let some version := history.identities[identity.value]? then
    throw ⟨.identityCollision, "migration identity `" ++ identity.value
      ++ "` already exists at version " ++ toString version⟩
  let observedState ← history.state.mapM (parseState toml)
  if observedState.any fun state => state.database ≠ database then
    throw ⟨.invalidState, "migration generator state belongs to a different database adapter"⟩
  let stateNext := observedState.elim applicationMigrationVersionFloor MigrationState.nextVersion
  let historyNext ← checkedSucc history.highestVersion
  let version := max (max stateNext historyNext) applicationMigrationVersionFloor
  if version ≤ 0 then
    throw ⟨.invalidState, "migration generator state must contain a positive next version"⟩
  let nextVersion ← checkedSucc version
  let path := Application.directoryPrefix database ++ migrationFilename version identity
  let migration ← liftPlan (FileCreation.new path source)
  let stateSource ← serializeState toml ⟨migrationStateSchema, database, nextVersion⟩
  let stateChange ← planState D history.state stateSource
  let plan ← liftPlan (ChangePlan.new [.create migration, stateChange])
  return { version, identity, path, plan }

/-- `migration_source`. -/
def migrationSource (database : SelectedDatabase) (identity : MigrationIdentity) : Bytes :=
  let provider := match database with
    | .postgres => "PostgreSQL"
    | .sqlite => "SQLite"
  intoBytes ("-- Application-owned " ++ provider ++ " migration: " ++ identity.value
    ++ "\n-- Add forward-only " ++ provider ++ " SQL below this line.\n")

/-- `plan_application_migration`. -/
def planApplicationMigration (D : Type) [ContentDigest D] [DecidableEq D] (toml : Toml)
    (app : Application) (listing : List DirEntry) (database : SelectedDatabase)
    (identity : MigrationIdentity) : Except MigrationError (PlannedMigration D) :=
  planApplicationMigrationWithSource D toml app listing database identity
    (migrationSource database identity)

end Generator
end Hegira
