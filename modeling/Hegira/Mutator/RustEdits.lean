/-
# Edits of Rust sources

`plan_rust_module` and `plan_rust_managed_entry` of
`tools/application_mutator/src/editor.rs`: the edits that insert a line, or a keyed group
of lines, between the markers of a block.

The editors work on the lines of a source (`SourceLines`); what they insert, and where, is
`insertModule` and `insertEntry`.
-/

import Mathlib.Data.List.Sort
import Hegira.Library.FirstMatch
import Hegira.Mutator.Editor
import Hegira.Mutator.SourceLines

namespace Hegira
namespace Mutator

/-! ### Text -/

/-- `char::is_whitespace`. -/
def isWhitespace (c : Char) : Bool :=
  let n := c.toNat
  decide (9 ≤ n ∧ n ≤ 13) || n == 32 || n == 133 || n == 160 || n == 5760 ||
    decide (8192 ≤ n ∧ n ≤ 8202) || n == 8232 || n == 8233 || n == 8239 || n == 8287 || n == 12288

/-- `str::trim`. -/
def trim (text : List Char) : List Char :=
  ((text.dropWhile isWhitespace).reverse.dropWhile isWhitespace).reverse

/-- The indices of the lines that satisfy a predicate. -/
def positions (p : List Char → Bool) (lines : List (List Char)) : List ℕ :=
  (lines.zipIdx.filter fun line => p line.1).map Prod.snd

/-- `marker_positions`. -/
def markerPositions (lines : List (List Char)) (marker : List Char) : List ℕ :=
  positions (fun line => decide (line = marker)) lines

/-- `trimmed_marker_positions`. -/
def trimmedMarkerPositions (lines : List (List Char)) (marker : List Char) : List ℕ :=
  positions (fun line => decide (trim line = marker)) lines

/-- Whether no key is repeated, and whether each key is below the next. -/
def increasing (keys : List String) : Bool :=
  (keys.zip keys.tail).all fun pair => decide (pair.1 < pair.2)

/-- What `plan_rust_module` and `plan_rust_managed_entry` do first: the lines between two
markers that are there once. -/
def blockOf (path : ChangePath) (starts ends : List ℕ) (missing ambiguous : String) :
    Except StructuredEditError (ℕ × ℕ) := do
  if starts = [] ∨ ends = [] then
    throw (.atPath .missingIntegrationPoint path missing)
  match starts, ends with
  | [start], [finish] =>
      if start < finish then return (start, finish)
      else throw (.atPath .ambiguousIntegrationPoint path ambiguous)
  | _, _ => throw (.atPath .ambiguousIntegrationPoint path ambiguous)

/-! ### Modules -/

def rustModulesStart : String := "// hegira:generated-modules:start"
def rustModulesEnd : String := "// hegira:generated-modules:end"

def rustIdentifierKeywords : List String :=
  ["as", "async", "await", "break", "const", "continue", "crate", "dyn", "else", "enum", "extern",
    "false", "fn", "for", "if", "impl", "in", "let", "loop", "match", "mod", "move", "mut", "pub",
    "ref", "return", "self", "Self", "static", "struct", "super", "trait", "true", "type",
    "unsafe", "use", "where", "while"]

/-- `validate_rust_identifier`. -/
def validRustIdentifier (identifier : List Char) : Bool :=
  !identifier.isEmpty && identifier.length ≤ 128
    && identifier.zipIdx.all (fun (c, index) => c.isLower
      || (c == '_' && 0 < index && index + 1 < identifier.length) || (c.isDigit && 0 < index))
    && !FirstMatch.contains ['_', '_'] identifier
    && String.ofList identifier ∉ rustIdentifierKeywords

/-- The line that declares a module. -/
def moduleLine (module : String) : List Char := "pub mod ".toList ++ module.toList ++ [';']

/-- The module that a line of the block declares. -/
def declaredModule (path : ChangePath) (line : List Char) :
    Except StructuredEditError String := do
  let declaration := "pub mod ".toList
  if !(declaration.isPrefixOf line && (line.drop declaration.length).getLast? = some ';') then
    throw (.atPath .ambiguousIntegrationPoint path
      "managed Rust module block contains an unsupported registration")
  let module := (line.drop declaration.length).dropLast
  if !validRustIdentifier module then
    throw (.atPath .ambiguousIntegrationPoint path
      "managed Rust module block contains an invalid registration")
  return String.ofList module

/-- The lines with a module inserted, unless it is there. -/
def insertModule (path : ChangePath) (module : String) (lines : List (List Char)) :
    Except StructuredEditError (Option (List (List Char))) := do
  let (start, finish) ← blockOf path (markerPositions lines rustModulesStart.toList)
    (markerPositions lines rustModulesEnd.toList)
    "Rust source is missing the generated-module integration block"
    "Rust source has an ambiguous generated-module integration block"
  if (lines.take start ++ lines.drop (finish + 1)).any (fun line =>
      decide (trim line = moduleLine module)) then
    throw (.atPath .existingOutsideManagedBlock path
      "Rust module is already registered outside the managed integration block")
  let modules ← ((lines.take finish).drop (start + 1)).mapM (declaredModule path)
  if ¬modules.Nodup then
    throw (.atPath .duplicateRegistration path
      "managed Rust module block contains duplicate registrations")
  if !increasing modules then
    throw (.atPath .reorderedRegistrations path
      "managed Rust module registrations are not in deterministic order")
  if module ∈ modules then return none
  let sorted := (modules ++ [module]).insertionSort (· ≤ ·)
  return some (lines.take (start + 1) ++ sorted.map moduleLine ++ lines.drop finish)

/-! ### Keyed entries -/

def blockMarker (block : String) : String := "// hegira:" ++ block
def entryStart (block key : String) : String := blockMarker block ++ ":" ++ key ++ ":start"
def entryEnd (block key : String) : String := blockMarker block ++ ":" ++ key ++ ":end"

def validMarkerIdentifier (value : List Char) : Bool :=
  !value.isEmpty && value.length ≤ 128
    && value.all fun c => c.isLower || c.isDigit || c == '-' || c == '_'

/-- An entry of a block: its key, and the indices of its markers. -/
structure ManagedEntry where
  key : String
  start : ℕ
  finish : ℕ
  deriving DecidableEq

/-- `strip_prefix` of the block and `strip_suffix` of `:start`. -/
def entryKey (block : String) (marker : List Char) : Option (List Char) :=
  let first := (blockMarker block ++ ":").toList
  let last := ":start".toList
  if first.isPrefixOf marker && last.isSuffixOf (marker.drop first.length) then
    some ((marker.drop first.length).take ((marker.drop first.length).length - last.length))
  else none

/-- The loop over the lines of a block, the first of which is at the cursor. -/
def scanEntries (path : ChangePath) (block : String) (cursor : ℕ) :
    List (List Char) → Except StructuredEditError (List ManagedEntry)
  | [] => .ok []
  | line :: rest =>
      if trim line = [] then scanEntries path block (cursor + 1) rest
      else do
        let some key := entryKey block (trim line)
          | throw (.atPath .ambiguousIntegrationPoint path
              ("managed `" ++ block ++ "` block contains source outside a keyed entry"))
        if !validMarkerIdentifier key then
          throw (.atPath .ambiguousIntegrationPoint path
            ("managed `" ++ block ++ "` block contains an invalid entry key"))
        let key := String.ofList key
        let some relative := rest.findIdx? (fun line =>
            decide (trim line = (entryEnd block key).toList))
          | throw (.atPath .ambiguousIntegrationPoint path
              ("managed `" ++ block ++ "` entry `" ++ key ++ "` is not terminated"))
        if (rest.take relative).any (fun line =>
            (blockMarker block ++ ":").toList.isPrefixOf (trim line)) then
          throw (.atPath .ambiguousIntegrationPoint path
            ("managed `" ++ block ++ "` entries cannot be nested"))
        let entries ← scanEntries path block (cursor + relative + 2) (rest.drop (relative + 1))
        return ⟨key, cursor, cursor + 1 + relative⟩ :: entries
  termination_by lines => lines.length
  decreasing_by
    all_goals
      simp only [List.length_cons, List.length_drop]
      omega

/-- The lines of an entry between its markers, indented. -/
def generatedLines (block key : String) (entry indentation : List Char) : List (List Char) :=
  [indentation ++ (entryStart block key).toList]
    ++ (textLines entry).map (fun line => if line = [] then [] else indentation ++ line)
    ++ [indentation ++ (entryEnd block key).toList]

/-- The lines with an entry inserted, unless its key is there. -/
def insertEntry (path : ChangePath) (block key : String) (entry : List Char)
    (lines : List (List Char)) : Except StructuredEditError (Option (List (List Char))) := do
  let (start, finish) ← blockOf path (trimmedMarkerPositions lines (blockMarker block).toList)
    (trimmedMarkerPositions lines (blockMarker block ++ ":end").toList)
    ("Rust source is missing the `" ++ block ++ "` integration block")
    ("Rust source has an ambiguous `" ++ block ++ "` integration block")
  if (lines.take start ++ lines.drop (finish + 1)).any (fun line =>
      decide (trim line = (entryStart block key).toList ∨
        trim line = (entryEnd block key).toList)) then
    throw (.atPath .existingOutsideManagedBlock path
      "managed Rust entry markers exist outside their declared integration block")
  let entries ← scanEntries path block (start + 1) ((lines.take finish).drop (start + 1))
  let keys := entries.map ManagedEntry.key
  if ¬keys.Nodup then
    throw (.atPath .duplicateRegistration path
      ("managed `" ++ block ++ "` block contains duplicate entry keys"))
  if !increasing keys then
    throw (.atPath .reorderedRegistrations path
      ("managed `" ++ block ++ "` entries are not in deterministic order"))
  if key ∈ keys then return none
  let insertion := ((entries.find? fun existing => decide (key < existing.key)).map
    ManagedEntry.start).getD finish
  let indentation := (lines.getD start []).takeWhile isWhitespace
  return some (lines.take insertion ++ generatedLines block key entry indentation
    ++ lines.drop insertion)

/-! ### Editors -/

variable {D : Type} [ContentDigest D] [DecidableEq D]

/-- The lines of the observed source. -/
def observedLines (path : ChangePath) (observedSource : Bytes) :
    Except StructuredEditError SourceLines := do
  let some source := fromUtf8 observedSource
    | throw (.atPath .invalidSource path "Rust integration source must be UTF-8")
  let some source := SourceLines.read source.toList
    | throw (.atPath .invalidSource path
        "Rust integration source must use consistent LF or CRLF newlines")
  return source

/-- The edit that replaces the lines of the observed source. -/
def plannedLines (kind : StructuredEditKind) (path : ChangePath) (observedSource : Bytes)
    (source : SourceLines) :
    Option (List (List Char)) → Except StructuredEditError (StructuredEditOutcome D)
  | none => .ok (.alreadyPresent kind path)
  | some lines =>
      planned kind path observedSource
        (intoBytes (String.ofList { source with lines := lines }.write))

def planRustModule (path : String) (observedSource : Bytes) (module : String) :
    Except StructuredEditError (StructuredEditOutcome D) := do
  let path ← liftPlan (ChangePath.new path)
  if !validRustIdentifier module.toList then
    throw (.atPath .invalidInput path
      "Rust module identifiers must be non-keyword lowercase ASCII snake_case")
  let source ← observedLines path observedSource
  let lines ← insertModule path module source.lines
  plannedLines .rustModule path observedSource source lines

def planRustManagedEntry (path : String) (observedSource : Bytes) (block key entry : String) :
    Except StructuredEditError (StructuredEditOutcome D) := do
  let path ← liftPlan (ChangePath.new path)
  if !validMarkerIdentifier block.toList || !validMarkerIdentifier key.toList
      || decide (trim entry.toList = []) then
    throw (.atPath .invalidInput path
      "managed Rust block, key, and entry must use validated non-empty values")
  if FirstMatch.contains "// hegira:".toList entry.toList || entry.toList.contains '\r' then
    throw (.atPath .invalidInput path
      "managed Rust entries cannot contain integration markers or carriage returns")
  let source ← observedLines path observedSource
  let lines ← insertEntry path block key entry.toList source.lines
  plannedLines .rustManagedEntry path observedSource source lines

/-! ### What is inserted -/

open Validation

/-- A block is found when it has one start, one end, and in that order. -/
theorem blockOf_eq_ok {path : ChangePath} {starts ends : List ℕ} {missing ambiguous : String}
    {start finish : ℕ} : blockOf path starts ends missing ambiguous = .ok (start, finish) ↔
      starts = [start] ∧ ends = [finish] ∧ start < finish := by
  unfold blockOf
  constructor
  · intro h
    obtain ⟨-, h⟩ := guarded_eq_ok.1 h
    split at h
    · split at h
      · next hlt =>
          obtain ⟨rfl, rfl⟩ := Prod.mk.inj (pure_eq_ok.1 h)
          exact ⟨rfl, rfl, hlt⟩
      · cases h
    · cases h
  · rintro ⟨rfl, rfl, hlt⟩
    refine guarded_eq_ok.2 ⟨by simp, ?_⟩
    simp only [if_pos hlt]
    rfl

/-- A position is of a line that matches. -/
theorem lt_of_mem_positions {p : List Char → Bool} {lines : List (List Char)} {i : ℕ}
    (h : i ∈ positions p lines) : ∃ hi : i < lines.length, p lines[i] = true := by
  obtain ⟨⟨line, j⟩, hmem, rfl⟩ := List.mem_map.1 h
  obtain ⟨hmem, hp⟩ := List.mem_filter.1 hmem
  obtain ⟨-, hj, hline⟩ := List.mem_zipIdx hmem
  simp only [Nat.zero_add, Nat.sub_zero] at hj hline
  exact ⟨hj, hline ▸ hp⟩

/-- The text that the markers of the entries of a block start with. -/
def markerStart (block : String) : List Char := (blockMarker block ++ ":").toList

/-- The markers of an entry, as characters. -/
theorem entryStart_toList (block key : String) :
    (entryStart block key).toList = markerStart block ++ key.toList ++ ":start".toList := by
  simp [entryStart, markerStart]

theorem entryEnd_toList (block key : String) :
    (entryEnd block key).toList = markerStart block ++ key.toList ++ ":end".toList := by
  simp [entryEnd, markerStart]

/-- The key that a start marker names. -/
theorem entryKey_eq_some {block : String} {marker key : List Char} :
    entryKey block marker = some key ↔ marker = markerStart block ++ key ++ ":start".toList := by
  unfold entryKey
  constructor
  · intro h
    dsimp only at h
    split at h
    · next hboth =>
        rw [Bool.and_eq_true, List.isPrefixOf_iff_prefix, List.isSuffixOf_iff_suffix] at hboth
        obtain ⟨⟨rest, rfl⟩, hlast⟩ := hboth
        rw [List.drop_left] at hlast h
        obtain ⟨front, rfl⟩ := hlast
        obtain rfl := Option.some.inj h
        rw [List.length_append, Nat.add_sub_cancel, List.take_left, markerStart, List.append_assoc]
    · cases h
  · rintro rfl
    have hstarts : (blockMarker block ++ ":").toList.isPrefixOf
        (markerStart block ++ key ++ ":start".toList) = true := by
      rw [List.isPrefixOf_iff_prefix, List.append_assoc]
      exact List.prefix_append _ _
    have hdrop : (markerStart block ++ key ++ ":start".toList).drop
        (blockMarker block ++ ":").toList.length = key ++ ":start".toList := by
      rw [List.append_assoc]
      exact List.drop_left ..
    have hsuffix : ":start".toList.isSuffixOf (key ++ ":start".toList) = true :=
      List.isSuffixOf_iff_suffix.2 (List.suffix_append _ _)
    simp only [hstarts, hdrop, hsuffix, Bool.and_self, if_true]
    rw [List.length_append, Nat.add_sub_cancel, List.take_left]

/-- The entries of a block, as the loop reads them. -/
inductive Scanned (block : String) : ℕ → List (List Char) → List ManagedEntry → Prop
  | nil (cursor : ℕ) : Scanned block cursor [] []
  | blank {cursor : ℕ} {line : List Char} {rest : List (List Char)} {entries : List ManagedEntry}
      (hblank : trim line = []) (h : Scanned block (cursor + 1) rest entries) :
      Scanned block cursor (line :: rest) entries
  | entry {cursor : ℕ} {first last : List Char} {body rest : List (List Char)} {key : String}
      {entries : List ManagedEntry} (hkey : validMarkerIdentifier key.toList = true)
      (hfirst : trim first = (entryStart block key).toList)
      (hbody : ∀ line ∈ body, ¬markerStart block <+: trim line)
      (hlast : trim last = (entryEnd block key).toList)
      (h : Scanned block (cursor + body.length + 2) rest entries) :
      Scanned block cursor (first :: (body ++ last :: rest))
        (⟨key, cursor, cursor + 1 + body.length⟩ :: entries)

/-- What it takes to scan past a line that is not blank. -/
theorem scanEntries_cons_eq_ok {path : ChangePath} {block : String} {cursor : ℕ}
    {line : List Char} {rest : List (List Char)} {entries : List ManagedEntry}
    (hblank : trim line ≠ []) :
    scanEntries path block cursor (line :: rest) = .ok entries ↔
      ∃ key relative others, trim line = (entryStart block key).toList ∧
        validMarkerIdentifier key.toList = true ∧
        rest.findIdx? (fun line => decide (trim line = (entryEnd block key).toList)) =
          some relative ∧
        (∀ line ∈ rest.take relative, ¬markerStart block <+: trim line) ∧
        scanEntries path block (cursor + relative + 2) (rest.drop (relative + 1)) = .ok others ∧
        entries = ⟨key, cursor, cursor + 1 + relative⟩ :: others := by
  rw [scanEntries, if_neg hblank]
  constructor
  · intro h
    cases hkey : entryKey block (trim line) with
    | none =>
        rw [hkey] at h
        cases h
    | some key =>
        simp only [hkey] at h
        obtain ⟨hvalid, h⟩ := guarded_eq_ok.1 h
        cases hfind : rest.findIdx? (fun line =>
            decide (trim line = (entryEnd block (String.ofList key)).toList)) with
        | none =>
            rw [hfind] at h
            cases h
        | some relative =>
            simp only [hfind] at h
            obtain ⟨hnested, h⟩ := guarded_eq_ok.1 h
            obtain ⟨others, hothers, h⟩ := bind_eq_ok.1 h
            refine ⟨String.ofList key, relative, others, ?_, ?_, hfind, ?_, hothers,
              (pure_eq_ok.1 h).symm⟩
            · rw [entryStart_toList, String.toList_ofList]
              exact entryKey_eq_some.1 hkey
            · simpa using hvalid
            · simpa [markerStart] using hnested
  · rintro ⟨key, relative, others, hfirst, hvalid, hfind, hnested, hothers, rfl⟩
    have hkey : entryKey block (trim line) = some key.toList :=
      entryKey_eq_some.2 (hfirst.trans (entryStart_toList block key))
    simp only [hkey, String.ofList_toList, hfind]
    refine guarded_eq_ok.2 ⟨by simpa using hvalid, guarded_eq_ok.2 ⟨?_, bind_eq_ok.2
      ⟨others, hothers, rfl⟩⟩⟩
    simpa [markerStart] using hnested

/-- The end of an entry starts as every marker of its block does. -/
theorem entryEnd_of_markerStart {block key : String} {line : List Char}
    (h : trim line = (entryEnd block key).toList) : markerStart block <+: trim line := by
  rw [h, entryEnd_toList, List.append_assoc]
  exact List.prefix_append _ _

/-- A marker is not empty. -/
theorem entryStart_ne_nil (block key : String) : (entryStart block key).toList ≠ [] := by
  rw [entryStart_toList, markerStart, blockMarker]
  simp

/-- **The loop reads the entries.** -/
theorem scanEntries_eq_ok {path : ChangePath} {block : String} {cursor : ℕ}
    {lines : List (List Char)} {entries : List ManagedEntry} :
    scanEntries path block cursor lines = .ok entries ↔ Scanned block cursor lines entries := by
  constructor
  · intro h
    induction hn : lines.length using Nat.strong_induction_on generalizing cursor lines entries with
    | _ n ih =>
        cases lines with
        | nil =>
            rw [scanEntries] at h
            obtain rfl := Except.ok.inj h
            exact .nil cursor
        | cons line rest =>
            rw [List.length_cons] at hn
            by_cases hblank : trim line = []
            · rw [scanEntries, if_pos hblank] at h
              exact .blank hblank (ih rest.length (by omega) h rfl)
            · obtain ⟨key, relative, others, hfirst, hkey, hfind, hbody, hothers, rfl⟩ :=
                (scanEntries_cons_eq_ok hblank).1 h
              obtain ⟨hlt, hlast, -⟩ := List.findIdx?_eq_some_iff_getElem.1 hfind
              have hrest : rest = rest.take relative ++ rest[relative] ::
                  rest.drop (relative + 1) := by
                rw [List.getElem_cons_drop, List.take_append_drop]
              have hlength : (rest.take relative).length = relative :=
                List.length_take_of_le (by omega)
              have hscan := ih (rest.drop (relative + 1)).length
                (by rw [List.length_drop]; omega) hothers rfl
              have hcursor : cursor + relative + 2 = cursor + (rest.take relative).length + 2 := by
                rw [hlength]
              rw [hcursor] at hscan
              have hentry := Scanned.entry hkey hfirst hbody (of_decide_eq_true hlast) hscan
              rw [← hrest, hlength] at hentry
              exact hentry
  · intro h
    induction h with
    | nil cursor => rw [scanEntries]
    | blank hblank h ih => rw [scanEntries, if_pos hblank, ih]
    | @entry cursor first last body rest key entries hkey hfirst hbody hlast h ih =>
        have hblank : trim first ≠ [] := hfirst ▸ entryStart_ne_nil block key
        refine (scanEntries_cons_eq_ok hblank).2 ⟨key, body.length, entries, hfirst, hkey, ?_, ?_, ?_,
          rfl⟩
        · have hnone : body.findIdx? (fun line =>
              decide (trim line = (entryEnd block key).toList)) = none := by
            rw [List.findIdx?_eq_none_iff]
            exact fun line hline => decide_eq_false fun heq =>
              hbody line hline (entryEnd_of_markerStart heq)
          rw [List.findIdx?_append, hnone, List.findIdx?_cons]
          simp [hlast]
        · rw [List.take_left]
          exact hbody
        · have hdrop : (body ++ last :: rest).drop (body.length + 1) = rest := by
            rw [← List.singleton_append, ← List.append_assoc]
            exact List.drop_left' (by simp)
          rw [hdrop]
          exact ih

/-- The entries that were scanned lie within the lines. -/
theorem Scanned.start {block : String} {cursor : ℕ} {lines : List (List Char)}
    {entries : List ManagedEntry} (h : Scanned block cursor lines entries) :
    ∀ e ∈ entries, cursor ≤ e.start ∧ e.start < cursor + lines.length := by
  induction h with
  | nil => exact nofun
  | blank hblank h ih =>
      intro e he
      have hstart := ih e he
      rw [List.length_cons]
      omega
  | entry hkey hfirst hbody hlast h ih =>
      intro e he
      simp only [List.length_cons, List.length_append]
      rcases List.mem_cons.1 he with rfl | he
      · exact ⟨le_rfl, Nat.lt_add_of_pos_right (by omega)⟩
      · have hstart := ih e he
        omega

/-- **An entry is inserted before a line of its block or the end of the block.** -/
theorem insertEntry_eq_ok {path : ChangePath} {block key : String} {entry : List Char}
    {lines result : List (List Char)}
    (h : insertEntry path block key entry lines = .ok (some result)) :
    ∃ start insertion finish indentation, start < insertion ∧ insertion ≤ finish ∧
      finish < lines.length ∧ indentation = (lines.getD start []).takeWhile isWhitespace ∧
      result = lines.take insertion ++ generatedLines block key entry indentation ++
        lines.drop insertion := by
  unfold insertEntry at h
  obtain ⟨⟨start, finish⟩, hblock, h⟩ := bind_eq_ok.1 h
  obtain ⟨hstarts, hends, hlt⟩ := blockOf_eq_ok.1 hblock
  obtain ⟨-, h⟩ := guarded_eq_ok.1 h
  obtain ⟨entries, hentries, h⟩ := bind_eq_ok.1 h
  obtain ⟨-, h⟩ := guarded_eq_ok.1 h
  obtain ⟨-, h⟩ := guarded_eq_ok.1 h
  obtain ⟨hfinish, -⟩ := lt_of_mem_positions (hends ▸ List.mem_singleton_self finish)
  split at h
  · cases h
  · obtain rfl := Option.some.inj (pure_eq_ok.1 h)
    have hinsertion : start < ((entries.find? fun existing => decide (key < existing.key)).map
        ManagedEntry.start).getD finish ∧ ((entries.find? fun existing =>
          decide (key < existing.key)).map ManagedEntry.start).getD finish ≤ finish := by
      cases hfind : entries.find? fun existing => decide (key < existing.key) with
      | none => exact ⟨hlt, le_rfl⟩
      | some existing =>
          obtain ⟨hlow, hhigh⟩ := (scanEntries_eq_ok.1 hentries).start existing
            (List.mem_of_find?_eq_some hfind)
          rw [List.length_drop, List.length_take_of_le hfinish.le] at hhigh
          show start < existing.start ∧ existing.start ≤ finish
          omega
    exact ⟨start, _, finish, _, hinsertion.1, hinsertion.2, hfinish, rfl, rfl⟩

/-- A valid identifier has no line break. -/
theorem plain_of_validMarkerIdentifier {value : List Char}
    (h : validMarkerIdentifier value = true) : '\n' ∉ value ∧ '\r' ∉ value := by
  simp only [validMarkerIdentifier, Bool.and_eq_true, List.all_eq_true] at h
  constructor
  · intro hc
    have := h.2 _ hc
    revert this
    decide
  · intro hc
    have := h.2 _ hc
    revert this
    decide

theorem plain_generatedLines {block key : String} {entry indentation : List Char}
    (hblock : validMarkerIdentifier block.toList = true)
    (hkey : validMarkerIdentifier key.toList = true) (hentry : '\r' ∉ entry)
    (hindentation : '\n' ∉ indentation ∧ '\r' ∉ indentation) :
    ∀ line ∈ generatedLines block key entry indentation, '\n' ∉ line ∧ '\r' ∉ line := by
  have hb := plain_of_validMarkerIdentifier hblock
  have hk := plain_of_validMarkerIdentifier hkey
  intro line hline
  simp only [generatedLines, List.mem_append, List.mem_singleton, List.mem_map] at hline
  rcases hline with (rfl | ⟨line, hline, rfl⟩) | rfl
  · simp [entryStart, blockMarker, hb, hk, hindentation]
  · have hplain : '\n' ∉ line ∧ '\r' ∉ line :=
      ⟨textLines_plain hline, fun hc => hentry (SourceLines.mem_of_mem_textLines hline hc)⟩
    split
    · simp
    · simp [hplain, hindentation]
  · simp [entryEnd, blockMarker, hb, hk, hindentation]

/-- Lines inserted in the source leave it one. -/
theorem wellFormed_insert {source : SourceLines} {insertion : ℕ} {inserted : List (List Char)}
    (h : source.WellFormed) (hinsertion : insertion < source.lines.length)
    (hinserted : ∀ line ∈ inserted, '\n' ∉ line ∧ '\r' ∉ line) :
    SourceLines.WellFormed { source with
      lines := source.lines.take insertion ++ inserted ++ source.lines.drop insertion } := by
  have hrest : source.lines.drop insertion ≠ [] :=
    List.ne_nil_of_length_pos (by rw [List.length_drop]; omega)
  refine ⟨List.append_ne_nil_of_right_ne_nil _ hrest, fun line hline => ?_, fun hfinal => ?_, ?_⟩
  · rcases List.mem_append.1 hline with hline | hline
    · rcases List.mem_append.1 hline with hline | hline
      · exact h.plain line (List.mem_of_mem_take hline)
      · exact hinserted line hline
    · exact h.plain line (List.mem_of_mem_drop hline)
  · have hlast := h.final hfinal
    rw [List.getLast?_append_of_ne_nil _ hrest]
    rwa [List.getLast?_drop, if_neg (by omega)]
  · refine h.newline.imp_right fun hnewline => ⟨hnewline.1, hnewline.2.imp_left fun hlong => ?_⟩
    simp only [List.length_append, List.length_take, List.length_drop]
    omega

section Planned

variable {path block key entry : String} {observed : Bytes} {kind : StructuredEditKind}
  {edit : StructuredFileEdit D}

/-- Bytes are read when they are a text whose lines end alike. -/
theorem observedLines_eq_ok {p : ChangePath} {source : SourceLines} :
    observedLines p observed = .ok source ↔
      ∃ text, fromUtf8 observed = some text ∧ SourceLines.read text.toList = some source := by
  unfold observedLines
  cases hutf8 : fromUtf8 observed with
  | none => exact iff_of_false nofun nofun
  | some text =>
      cases hread : SourceLines.read text.toList with
      | none => simp [hread]
      | some source' => simp [hread]

/-- A planned edit writes the lines it was given. -/
theorem plannedLines_eq_ok {p : ChangePath} {source : SourceLines}
    {lines : Option (List (List Char))} {kind' : StructuredEditKind}
    (h : plannedLines kind p observed source lines = .ok (.planned kind' edit)) :
    ∃ result, lines = some result ∧ kind' = kind ∧ edit.path = p ∧
      edit.content = intoBytes (String.ofList { source with lines := result }.write) := by
  cases lines with
  | none => cases h
  | some result =>
      obtain ⟨edit', hedit, hpath, hcontent⟩ := planned_eq_ok h
      obtain ⟨rfl, rfl⟩ := StructuredEditOutcome.planned.inj hedit
      exact ⟨result, rfl, rfl, hpath, hcontent⟩

/-- What an entry that is planned has passed, and what it writes. -/
theorem planRustManagedEntry_eq_ok
    (h : planRustManagedEntry path observed block key entry = .ok (.planned kind edit)) :
    ∃ p source result, ChangePath.new path = .ok p ∧
      validMarkerIdentifier block.toList = true ∧ validMarkerIdentifier key.toList = true ∧
      trim entry.toList ≠ [] ∧ ¬"// hegira:".toList <:+: entry.toList ∧ '\r' ∉ entry.toList ∧
      observedLines p observed = .ok source ∧
      insertEntry p block key entry.toList source.lines = .ok (some result) ∧
      kind = .rustManagedEntry ∧ edit.path = p ∧
      edit.content = intoBytes (String.ofList { source with lines := result }.write) := by
  unfold planRustManagedEntry at h
  obtain ⟨p, hp, h⟩ := bind_eq_ok.1 h
  obtain ⟨hvalid, h⟩ := guarded_eq_ok.1 h
  obtain ⟨hmarker, h⟩ := guarded_eq_ok.1 h
  obtain ⟨source, hsource, h⟩ := bind_eq_ok.1 h
  obtain ⟨lines, hlines, h⟩ := bind_eq_ok.1 h
  obtain ⟨result, rfl, hkind, hpath, hcontent⟩ := plannedLines_eq_ok h
  simp only [Bool.or_eq_true, Bool.not_eq_true', decide_eq_true_eq, not_or,
    Bool.not_eq_false] at hvalid
  simp only [Bool.or_eq_true, not_or, FirstMatch.contains_iff (show "// hegira:".toList ≠ [] by decide),
    List.contains_iff_mem] at hmarker
  exact ⟨p, source, result, mapError_eq_ok.1 hp, hvalid.1.1, hvalid.1.2, hvalid.2, hmarker.1,
    hmarker.2, hsource, hlines, hkind, hpath, hcontent⟩

/-- Lines that are planned for change the source. -/
theorem plannedLines_some {p : ChangePath} {source : SourceLines} {lines : List (List Char)}
    (hchanged : (ContentDigest.calculate observed : D) ≠ ContentDigest.calculate
      (intoBytes (String.ofList { source with lines := lines }.write))) :
    ∃ edit : StructuredFileEdit D,
      edit.content = intoBytes (String.ofList { source with lines := lines }.write) ∧
      plannedLines kind p observed source (some lines) = .ok (.planned kind edit) :=
  (planned_eq kind p observed _).2 hchanged

/-- An entry is planned when it is inserted in the lines. -/
theorem planRustManagedEntry_of_insertEntry {p : ChangePath} {source : SourceLines}
    {lines : List (List Char)} (hblock : validMarkerIdentifier block.toList = true)
    (hkey : validMarkerIdentifier key.toList = true) (hentry : trim entry.toList ≠ [])
    (hmarker : FirstMatch.contains "// hegira:".toList entry.toList = false)
    (hreturn : entry.toList.contains '\r' = false) (hsource : observedLines p observed = .ok source)
    (hinsert : insertEntry p block key entry.toList source.lines = .ok (some lines))
    (hchanged : (ContentDigest.calculate observed : D) ≠ ContentDigest.calculate
      (intoBytes (String.ofList { source with lines := lines }.write))) :
    ∃ edit : StructuredFileEdit D,
      edit.content = intoBytes (String.ofList { source with lines := lines }.write) ∧
      planRustManagedEntry p.text observed block key entry =
        .ok (.planned .rustManagedEntry edit) := by
  obtain ⟨edit, hcontent, hplanned⟩ := plannedLines_some hchanged
  refine ⟨edit, hcontent, bind_eq_ok.2 ⟨p, mapError_eq_ok.2 p.new_text, guarded_eq_ok.2 ⟨?_,
    guarded_eq_ok.2 ⟨?_, bind_eq_ok.2 ⟨source, hsource, bind_eq_ok.2 ⟨_, hinsert, hplanned⟩⟩⟩⟩⟩⟩
  · simp [hblock, hkey, hentry]
  · rw [hmarker, hreturn]
    decide

/-- A module is planned when it is inserted in the lines. -/
theorem planRustModule_of_insertModule {p : ChangePath} {source : SourceLines} {module : String}
    {lines : List (List Char)} (hmodule : validRustIdentifier module.toList = true)
    (hsource : observedLines p observed = .ok source)
    (hinsert : insertModule p module source.lines = .ok (some lines))
    (hchanged : (ContentDigest.calculate observed : D) ≠ ContentDigest.calculate
      (intoBytes (String.ofList { source with lines := lines }.write))) :
    ∃ edit : StructuredFileEdit D,
      edit.content = intoBytes (String.ofList { source with lines := lines }.write) ∧
      planRustModule p.text observed module = .ok (.planned .rustModule edit) := by
  obtain ⟨edit, hcontent, hplanned⟩ := plannedLines_some hchanged
  refine ⟨edit, hcontent, bind_eq_ok.2 ⟨p, mapError_eq_ok.2 p.new_text, guarded_eq_ok.2 ⟨?_,
    bind_eq_ok.2 ⟨source, hsource, bind_eq_ok.2 ⟨_, hinsert, hplanned⟩⟩⟩⟩⟩
  simp [hmodule]

/-- **A planned entry is in the source, and every line of the source is kept.** -/
theorem lines_of_planRustManagedEntry
    (h : planRustManagedEntry path observed block key entry = .ok (.planned kind edit)) :
    ∃ p source result, observedLines p observed = .ok source ∧
      observedLines p edit.content = .ok result ∧
      (∀ line ∈ source.lines, line ∈ result.lines) ∧
      ∀ line ∈ textLines entry.toList, line ≠ [] →
        ∃ indentation, indentation ++ line ∈ result.lines := by
  obtain ⟨p, source, result, -, hblock, hkey, -, -, hentry, hsource, hinsert, -, -, hcontent⟩ :=
    planRustManagedEntry_eq_ok h
  obtain ⟨start, insertion, finish, indentation, hstart, hinsertion, hfinish, rfl, rfl⟩ :=
    insertEntry_eq_ok hinsert
  obtain ⟨text, -, hread⟩ := observedLines_eq_ok.1 hsource
  have hwell := SourceLines.wellFormed_of_read hread (by omega)
  have hindentation : '\n' ∉ (source.lines.getD start []).takeWhile isWhitespace ∧
      '\r' ∉ (source.lines.getD start []).takeWhile isWhitespace := by
    have hbound : start < source.lines.length := by omega
    have hmem : source.lines.getD start [] ∈ source.lines := by
      rw [← List.getElem_eq_getD (h := hbound) []]
      exact List.getElem_mem hbound
    exact ⟨fun hc => (hwell.plain _ hmem).1 ((List.takeWhile_sublist _).mem hc),
      fun hc => (hwell.plain _ hmem).2 ((List.takeWhile_sublist _).mem hc)⟩
  have hresult := wellFormed_insert hwell (hinsertion.trans_lt hfinish)
    (plain_generatedLines hblock hkey hentry hindentation)
  have hutf8 := (congrArg fromUtf8 hcontent).trans (fromUtf8_intoBytes _)
  have hwritten := (congrArg SourceLines.read String.toList_ofList).trans
    (SourceLines.read_write hresult)
  refine ⟨p, source, _, hsource, observedLines_eq_ok.2 ⟨_, hutf8, hwritten⟩, fun line hline => ?_,
    fun line hline hne => ⟨(source.lines.getD start []).takeWhile isWhitespace, ?_⟩⟩
  · rw [← List.take_append_drop insertion source.lines] at hline
    rcases List.mem_append.1 hline with hline | hline
    · exact List.mem_append_left _ (List.mem_append_left _ hline)
    · exact List.mem_append_right _ hline
  · refine List.mem_append_left _ (List.mem_append_right _ ?_)
    rw [generatedLines]
    refine List.mem_append_left _ (List.mem_append_right _ (List.mem_map.2 ⟨line, hline, ?_⟩))
    rw [if_neg hne]

end Planned

end Mutator
end Hegira
