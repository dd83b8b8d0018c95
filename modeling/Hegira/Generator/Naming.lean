/-
# Names of generated resources

`tools/resource_generator/src/lib.rs`: from the type names of a resource to the module,
table, route and permission names of its artifacts, `LayeredArtifactNames::resolve`.

The words of a type name are its characters in lower case, cut before the capitals that
start a word (`flatten_words`); so the identity of a type is its name in lower case, and
words joined by a separator give it back when the separator is taken out.
-/

import Hegira.Generator.Migration
import Hegira.Library.Validation

namespace Hegira
namespace Generator

open Mutator (ChangePath)
open Std (TreeMap)

def reservedIdentities : List String :=
  ["app", "application", "applicationcontracts", "audit", "config", "crate", "dashboard",
    "database", "domain", "domainshared", "hegira", "http", "identity", "infrastructure", "lib",
    "main", "operations", "presentation", "root", "routes", "security", "self", "server",
    "settings", "shared", "super", "web", "workeroperations"]

def rustKeywords : List String :=
  ["abstract", "as", "async", "await", "become", "box", "break", "const", "continue", "crate",
    "do", "dyn", "else", "enum", "extern", "false", "final", "fn", "for", "gen", "if", "impl",
    "in", "let", "loop", "macro", "match", "mod", "move", "mut", "override", "priv", "pub", "ref",
    "return", "self", "static", "struct", "super", "trait", "true", "try", "type", "typeof",
    "unsafe", "unsized", "use", "virtual", "where", "while", "yield"]

/-! ### Layers -/

inductive LayerOwner where
  | domain
  | applicationContracts
  | application
  | infrastructure
  | presentation
  | web
  deriving DecidableEq, Repr

def LayerOwner.all : List LayerOwner :=
  [.domain, .applicationContracts, .application, .infrastructure, .presentation, .web]

def LayerOwner.sourceRoot : LayerOwner → String
  | .domain => "crates/domain/src"
  | .applicationContracts => "crates/application_contracts/src"
  | .application => "crates/application/src"
  | .infrastructure => "crates/infrastructure/src"
  | .presentation => "crates/presentation/src"
  | .web => "apps/web/src"

inductive PermissionAction where
  | list
  | read
  | create
  | update
  | delete
  deriving DecidableEq, Repr

def PermissionAction.all : List PermissionAction := [.list, .read, .create, .update, .delete]

def PermissionAction.identifier : PermissionAction → String
  | .list => "list"
  | .read => "read"
  | .create => "create"
  | .update => "update"
  | .delete => "delete"

/-! ### Errors -/

inductive NamingErrorKind where
  | invalidIdentity
  | reservedIdentity
  | collision
  | invalidPath
  deriving DecidableEq, Repr

structure NamingError where
  kind : NamingErrorKind
  message : String
  deriving DecidableEq, Repr

/-! ### Occupied names -/

inductive OccupiedNameOwner where
  | application
  | officialModule
  | applicationSource
  deriving DecidableEq, Repr

def OccupiedNameOwner.text : OccupiedNameOwner → String
  | .application => "the application identity"
  | .officialModule => "an official module"
  | .applicationSource => "existing application source"

def isSeparator (c : Char) : Bool := c == '-' || c == '_'

def canonicalOccupiedName (value : String) : Except NamingError String := do
  let characters := value.toList
  if value = "" || maxIdentityBytes < value.utf8ByteSize || !characters.all (·.toNat < 128) then
    throw ⟨.invalidIdentity, "occupied names must contain 1–64 ASCII bytes"⟩
  let validBytes := characters.all fun c => c.isAlphanum || isSeparator c
  let startsAndEnds := characters.head?.any Char.isAlphanum && characters.getLast?.any Char.isAlphanum
  let hasAdjacent := (characters.zip characters.tail).any fun pair =>
    isSeparator pair.1 && isSeparator pair.2
  if !validBytes || !startsAndEnds || hasAdjacent then
    throw ⟨.invalidIdentity,
      "occupied names must use ASCII letters and digits separated by single hyphens or underscores"⟩
  let canonical := (characters.filter Char.isAlphanum).map Char.toLower
  if canonical = [] then
    throw ⟨.invalidIdentity, "occupied names must contain at least one ASCII letter or digit"⟩
  return String.ofList canonical

/-- `ArtifactNamespace`: the canonical names that are occupied, with their owners. -/
abbrev ArtifactNamespace := TreeMap String OccupiedNameOwner

/-- `entry(..).or_insert(owner)` for the canonical forms of names. -/
def ArtifactNamespace.occupy (occupied : ArtifactNamespace) (owner : OccupiedNameOwner)
    (names : List String) : Except NamingError ArtifactNamespace := do
  let names ← names.mapM canonicalOccupiedName
  return names.foldl (fun occupied name => occupied.insertIfNew name owner) occupied

def ArtifactNamespace.new (application : String) (officialModules applicationSourceNames : List String) :
    Except NamingError ArtifactNamespace := do
  let occupied ← ArtifactNamespace.occupy ∅ .application [application]
  let occupied ← occupied.occupy .officialModule officialModules
  occupied.occupy .applicationSource applicationSourceNames

/-! ### Type names -/

/-- The words of a type name after the characters of `current`, the last of which was `prev`. -/
def splitWords (current : List Char) (prev : Option Char) : List Char → List (List Char)
  | [] => [current]
  | c :: rest =>
      -- a capital starts a word after a lower case letter or a digit, or before a lower case letter
      if c.isUpper && prev.any fun p => p.isLower || p.isDigit || rest.head?.any Char.isLower then
        current :: splitWords [c.toLower] (some c) rest
      else
        splitWords (current ++ [c.toLower]) (some c) rest

/-- Words joined by a separator. -/
def joined (separator : String) (words : List (List Char)) : String :=
  separator.intercalate (words.map String.ofList)

def validateRustType (label value : String) : Except NamingError (List (List Char)) := do
  let characters := value.toList
  if value = "" || maxIdentityBytes < value.utf8ByteSize then
    throw ⟨.invalidIdentity, label ++ " type must contain 1–64 ASCII bytes"⟩
  if !characters.all Char.isAlphanum then
    throw ⟨.invalidIdentity, label ++ " type must contain only ASCII letters and digits"⟩
  if !characters.head?.any Char.isUpper then
    throw ⟨.invalidIdentity,
      label ++ " type must use UpperCamelCase and start with an ASCII letter"⟩
  let words := splitWords [] none characters
  let module := joined "_" words
  if module ∈ rustKeywords then
    throw ⟨.reservedIdentity,
      label ++ " type resolves to reserved Rust identifier `" ++ module ++ "`"⟩
  return words

def rejectReservedOrOccupied (identity : String) (occupied : ArtifactNamespace) :
    Except NamingError Unit := do
  if identity ∈ reservedIdentities then
    throw ⟨.reservedIdentity,
      "resource identity `" ++ identity ++ "` is reserved by the canonical application"⟩
  match occupied[identity]? with
  | some owner =>
      throw ⟨.collision, "resource identity `" ++ identity ++ "` collides with " ++ owner.text⟩
  | none => pure ()

def validateDerivedIdentity (value : String) (separator : Char) (label : String) :
    Except NamingError Unit :=
  let characters := value.toList
  let valid := value ≠ "" && value.utf8ByteSize ≤ maxIdentityBytes
    && characters.all (fun c => c.isLower || c.isDigit || c == separator)
    && characters.head? ≠ some separator && characters.getLast? ≠ some separator
    && !(characters.zip characters.tail).any fun pair => pair.1 == separator && pair.2 == separator
  if !valid then
    throw ⟨.invalidIdentity, "generated " ++ label ++ " identifier is invalid"⟩
  else
    pure ()

/-! ### The names of a resource -/

structure LayeredNamingInput where
  singularType : String
  pluralType : Option String
  deriving DecidableEq

structure LayeredArtifactNames where
  singularType : String
  pluralType : String
  rustModule : String
  routeSegment : String
  databaseTable : String
  permissionPrefix : String
  /-- One artifact a layer. -/
  artifacts : List (LayerOwner × ChangePath)
  deriving DecidableEq

/-- `ChangePath::new`. -/
def changePath (text : String) : Except NamingError ChangePath :=
  match h : ChangePath.check text with
  | .ok () => .ok ⟨text, h⟩
  | .error e => .error ⟨.invalidPath, "generated artifact path is invalid: " ++ e⟩

def LayeredArtifactNames.resolve (input : LayeredNamingInput) (occupied : ArtifactNamespace) :
    Except NamingError LayeredArtifactNames := do
  let singularWords ← validateRustType "resource" input.singularType
  let pluralType := input.pluralType.getD (input.singularType ++ "s")
  let pluralWords ← validateRustType "plural resource" pluralType
  let singularIdentity := joined "" singularWords
  let pluralIdentity := joined "" pluralWords
  if singularIdentity = pluralIdentity then
    throw ⟨.invalidIdentity, "singular and plural resource identities must be distinct"⟩
  rejectReservedOrOccupied singularIdentity occupied
  rejectReservedOrOccupied pluralIdentity occupied
  let rustModule := joined "_" singularWords
  let routeSegment := joined "-" pluralWords
  let databaseTable := joined "_" pluralWords
  let permissionPrefix := routeSegment
  validateDerivedIdentity rustModule '_' "Rust module"
  validateDerivedIdentity routeSegment '-' "route"
  validateDerivedIdentity databaseTable '_' "database"
  validateDerivedIdentity permissionPrefix '-' "permission"
  let artifacts ← LayerOwner.all.mapM fun owner => do
    let path ← changePath (owner.sourceRoot ++ "/" ++ rustModule ++ ".rs")
    return (owner, path)
  return {
    singularType := input.singularType
    pluralType, rustModule, routeSegment, databaseTable, permissionPrefix, artifacts }

namespace LayeredArtifactNames

def routePath (names : LayeredArtifactNames) : String := "/api/" ++ names.routeSegment

def permission (names : LayeredArtifactNames) (action : PermissionAction) : String :=
  names.permissionPrefix ++ "." ++ action.identifier

end LayeredArtifactNames

/-! ### Words -/

/-- The words are the characters in lower case. -/
theorem flatten_splitWords (current : List Char) (prev : Option Char) (characters : List Char) :
    (splitWords current prev characters).flatten = current ++ characters.map Char.toLower := by
  induction characters generalizing current prev with
  | nil => simp [splitWords]
  | cons c rest ih =>
      rw [splitWords]
      split
      · rw [List.flatten_cons, ih, List.map_cons, List.singleton_append]
      · rw [ih, List.map_cons, List.append_assoc, List.singleton_append]

theorem flatten_intersperse_nil : ∀ words : List (List Char),
    (words.intersperse []).flatten = words.flatten
  | [] | [_] => rfl
  | word :: next :: words => by
      rw [List.intersperse_cons_cons, List.flatten_cons, List.flatten_cons,
        flatten_intersperse_nil (next :: words), List.flatten_cons]
      rfl

theorem joined_empty (words : List (List Char)) : joined "" words = String.ofList words.flatten := by
  apply String.toList_inj.1
  rw [joined, String.toList_intercalate]
  simp [List.intercalate, flatten_intersperse_nil]

/-- A type name that is accepted. -/
structure ValidType (value : String) (words : List (List Char)) : Prop where
  nonempty : value ≠ ""
  length : value.utf8ByteSize ≤ maxIdentityBytes
  alphanumeric : ∀ c ∈ value.toList, c.isAlphanum = true
  upper : value.toList.head?.any Char.isUpper = true
  split : splitWords [] none value.toList = words
  keyword : joined "_" words ∉ rustKeywords

theorem validateRustType_eq_ok {label value : String} {words : List (List Char)} :
    validateRustType label value = .ok words ↔ ValidType value words := by
  unfold validateRustType
  constructor
  · intro h
    obtain ⟨hlength, h⟩ := Validation.guarded_eq_ok.1 h
    obtain ⟨halphanumeric, h⟩ := Validation.guarded_eq_ok.1 h
    obtain ⟨hupper, h⟩ := Validation.guarded_eq_ok.1 h
    obtain ⟨hkeyword, h⟩ := Validation.guarded_eq_ok.1 h
    obtain rfl := Validation.pure_eq_ok.1 h
    simp only [Bool.or_eq_true, decide_eq_true_eq, not_or, Nat.not_lt] at hlength
    exact ⟨hlength.1, hlength.2, by simpa using halphanumeric, by simpa using hupper, rfl, hkeyword⟩
  · rintro ⟨hnonempty, hlength, halphanumeric, hupper, rfl, hkeyword⟩
    refine Validation.guarded_eq_ok.2 ⟨?_, Validation.guarded_eq_ok.2 ⟨by simpa using halphanumeric, ?_⟩⟩
    · simpa [hnonempty] using hlength
    · exact Validation.guarded_eq_ok.2 ⟨by simpa using hupper,
        Validation.guarded_eq_ok.2 ⟨hkeyword, rfl⟩⟩

/-- The identity of a type is its name in lower case. -/
theorem ValidType.identity {value : String} {words : List (List Char)} (h : ValidType value words) :
    joined "" words = String.ofList (value.toList.map Char.toLower) := by
  rw [joined_empty, ← h.split, flatten_splitWords, List.nil_append]

end Generator
end Hegira
