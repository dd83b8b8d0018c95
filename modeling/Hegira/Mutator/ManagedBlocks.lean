/-
# Managed blocks

What `plan_rust_managed_entry` of `tools/application_mutator/src/editor.rs` reads of a
block: outside of it the head and the tail of the file, inside of it blank lines and keyed
entries (`Segment`).  The loop over the lines of the block reads its segments
(`exists_segments`, `scanned_locate`), and an insertion places a segment among them
(`insertEntry_layout`).
-/

import Hegira.Library.KeyedPlacement
import Hegira.Mutator.RustEdits

namespace Hegira
namespace Mutator

open KeyedPlacement (keys place)
open Validation

/-! ### Trimmed lines -/

/-- A trimmed text is a part of the text. -/
theorem trim_isInfix (text : List Char) : trim text <:+: text := by
  have hfront : text.dropWhile isWhitespace <:+ text := List.dropWhile_suffix _
  have hback : ((text.dropWhile isWhitespace).reverse.dropWhile isWhitespace).reverse <+:
      text.dropWhile isWhitespace := by
    rw [← List.reverse_suffix, List.reverse_reverse]
    exact List.dropWhile_suffix _
  exact hback.isInfix.trans hfront.isInfix

/-- White space in front is trimmed. -/
theorem trim_append {space text : List Char} (h : ∀ c ∈ space, isWhitespace c = true) :
    trim (space ++ text) = trim text := by
  rw [trim, List.dropWhile_append_of_pos h, trim]

/-- A text that no whitespace bounds is what is left of it. -/
theorem trim_of_bounds {text : List Char} (hfirst : text.head?.any isWhitespace = false)
    (hlast : text.getLast?.any isWhitespace = false) : trim text = text := by
  have hdrop : ∀ {text : List Char}, text.head?.any isWhitespace = false →
      text.dropWhile isWhitespace = text := by
    intro text h
    cases text with
    | nil => rfl
    | cons c text => exact List.dropWhile_cons_of_neg (Bool.eq_false_iff.1 h)
  rw [trim, hdrop hfirst, hdrop (by rwa [List.head?_reverse]), List.reverse_reverse]

/-! ### Markers -/

/-- A valid identifier is not empty and has no colon. -/
theorem plainMarker_of_valid {value : List Char} (h : validMarkerIdentifier value = true) :
    value ≠ [] ∧ ':' ∉ value := by
  simp only [validMarkerIdentifier, Bool.and_eq_true, List.all_eq_true, Bool.not_eq_true',
    List.isEmpty_eq_false_iff] at h
  refine ⟨h.1.1, fun hc => ?_⟩
  have := h.2 _ hc
  revert this
  decide

/-- A key before a colon is read back. -/
theorem eq_of_append_colon {a b a' b' : List Char} (ha : ':' ∉ a) (hb : ':' ∉ b)
    (h : a ++ ':' :: a' = b ++ ':' :: b') : a = b := by
  have htake : ∀ {front rest : List Char}, ':' ∉ front →
      (front ++ ':' :: rest).takeWhile (· != ':') = front := by
    intro front rest hfront
    have hpos : ∀ c ∈ front, (c != ':') = true := by
      rintro c hc
      exact bne_iff_ne.2 fun heq => hfront (heq ▸ hc)
    rw [List.takeWhile_append_of_pos hpos]
    simp
  rw [← @htake a a' ha, h, htake hb]

/-- The marker of a block, as characters. -/
theorem blockMarker_toList (block : String) :
    (blockMarker block).toList = "// hegira:".toList ++ block.toList := by
  simp [blockMarker]

/-- What every other marker of the block starts with. -/
theorem markerStart_eq (block : String) :
    markerStart block = "// hegira:".toList ++ (block.toList ++ [':']) := by
  simp [markerStart, blockMarker]

/-- The marker that ends a block. -/
theorem blockEnd_toList (block : String) :
    (blockMarker block ++ ":end").toList = markerStart block ++ "end".toList := by
  simp [markerStart]

section Blocks

variable {block block' : String}

/-- Only the markers of a block start with the start of its markers. -/
theorem eq_of_markerStart (hblock : ':' ∉ block.toList) (hblock' : ':' ∉ block'.toList)
    {rest : List Char} (h : markerStart block <+: markerStart block' ++ rest) : block = block' := by
  obtain ⟨rest', h⟩ := h
  rw [markerStart_eq, markerStart_eq] at h
  simp only [List.append_assoc, List.append_cancel_left_eq, List.singleton_append] at h
  exact String.toList_inj.1 (eq_of_append_colon hblock hblock' h)

/-- No block's own marker starts like that. -/
theorem not_markerStart_blockMarker (block : String) (hblock' : ':' ∉ block'.toList) :
    ¬markerStart block <+: (blockMarker block').toList := by
  rintro ⟨rest, h⟩
  rw [markerStart_eq, blockMarker_toList] at h
  simp only [List.append_assoc, List.append_cancel_left_eq] at h
  exact hblock' (h ▸ List.mem_append_right _ (List.mem_append_left _ (List.mem_singleton_self _)))

/-- Nor is a marker with a key the marker of a block. -/
theorem markerStart_ne_blockMarker (hblock : ':' ∉ block.toList) {rest : List Char} :
    markerStart block' ++ rest ≠ (blockMarker block).toList := by
  intro h
  rw [markerStart_eq, blockMarker_toList] at h
  simp only [List.append_assoc, List.append_cancel_left_eq] at h
  exact hblock (h ▸ List.mem_append_right _ (List.mem_append_left _ (List.mem_singleton_self _)))

/-- The markers of an entry do not end its block. -/
theorem entryStart_ne_blockEnd (block key : String) :
    (entryStart block key).toList ≠ (blockMarker block ++ ":end").toList := by
  intro h
  rw [entryStart_toList, blockEnd_toList, List.append_assoc, List.append_cancel_left_eq] at h
  have hlength := congrArg List.length h
  rw [List.length_append] at hlength
  have hstart : ":start".toList.length = 6 := rfl
  have hend : "end".toList.length = 3 := rfl
  omega

/-- The end of an entry is not the end of the block. -/
theorem entryEnd_ne_blockEnd {key : String} (hkey : key.toList ≠ []) :
    (entryEnd block key).toList ≠ (blockMarker block ++ ":end").toList := by
  intro h
  rw [entryEnd_toList, blockEnd_toList, List.append_assoc, List.append_cancel_left_eq] at h
  have hlength := congrArg List.length h
  rw [List.length_append] at hlength
  have hpositive := List.length_pos_iff.2 hkey
  have hlast : ":end".toList.length = 4 := rfl
  have hend : "end".toList.length = 3 := rfl
  omega

end Blocks

/-! ### Segments -/

/-- A piece of a block. -/
inductive Segment where
  | blank (line : List Char)
  | entry (key : String) (first : List Char) (body : List (List Char)) (last : List Char)

namespace Segment

def lines : Segment → List (List Char)
  | .blank line => [line]
  | .entry _ first body last => first :: (body ++ [last])

def key? : Segment → Option String
  | .blank _ => none
  | .entry key _ _ _ => some key

/-- A piece that the loop accepts. -/
def Valid (block : String) : Segment → Prop
  | .blank line => trim line = []
  | .entry key first body last => validMarkerIdentifier key.toList = true ∧
      trim first = (entryStart block key).toList ∧ (∀ line ∈ body, ¬markerStart block <+: trim line) ∧
      trim last = (entryEnd block key).toList

end Segment

/-- The lines of the pieces of a block. -/
def segmentLines (segments : List Segment) : List (List Char) := segments.flatMap Segment.lines

/-- The entries of the pieces, with the indices of their markers. -/
def locateEntries : ℕ → List Segment → List ManagedEntry
  | _, [] => []
  | cursor, .blank _ :: rest => locateEntries (cursor + 1) rest
  | cursor, .entry key _ body _ :: rest =>
      ⟨key, cursor, cursor + 1 + body.length⟩ :: locateEntries (cursor + body.length + 2) rest

/-- The lines of an entry are its body between its markers. -/
theorem segmentLines_entry (key : String) (first last : List Char) (body : List (List Char))
    (rest : List Segment) : segmentLines (.entry key first body last :: rest) =
      first :: (body ++ last :: segmentLines rest) := by
  rw [segmentLines, List.flatMap_cons, Segment.lines, List.cons_append, List.append_assoc,
    List.singleton_append, segmentLines]

/-- Lines that are scanned are those of valid segments. -/
theorem exists_segments {block : String} {cursor : ℕ} {lines : List (List Char)}
    {entries : List ManagedEntry} (h : Scanned block cursor lines entries) :
    ∃ segments, (∀ segment ∈ segments, segment.Valid block) ∧ lines = segmentLines segments ∧
      entries = locateEntries cursor segments := by
  induction h with
  | nil cursor => exact ⟨[], nofun, rfl, rfl⟩
  | @blank cursor line rest entries hblank h ih =>
      obtain ⟨segments, hvalid, rfl, rfl⟩ := ih
      exact ⟨.blank line :: segments, List.forall_mem_cons.2 ⟨hblank, hvalid⟩, rfl, rfl⟩
  | @entry cursor first last body rest key entries hkey hfirst hbody hlast h ih =>
      obtain ⟨segments, hvalid, rfl, rfl⟩ := ih
      exact ⟨.entry key first body last :: segments,
        List.forall_mem_cons.2 ⟨⟨hkey, hfirst, hbody, hlast⟩, hvalid⟩,
        (segmentLines_entry ..).symm, rfl⟩

/-- The lines of valid segments are scanned, each entry where it stands. -/
theorem scanned_locate {block : String} {segments : List Segment}
    (h : ∀ segment ∈ segments, segment.Valid block) (cursor : ℕ) :
    Scanned block cursor (segmentLines segments) (locateEntries cursor segments) := by
  induction segments generalizing cursor with
  | nil => exact .nil cursor
  | cons segment segments ih =>
      obtain ⟨hsegment, hrest⟩ := List.forall_mem_cons.1 h
      cases segment with
      | blank line => exact .blank hsegment (ih hrest _)
      | entry key first body last =>
          obtain ⟨hkey, hfirst, hbody, hlast⟩ := hsegment
          rw [segmentLines_entry]
          exact .entry hkey hfirst hbody hlast (ih hrest _)

/-- The located keys are those of the segments. -/
theorem map_key_locate (cursor : ℕ) (segments : List Segment) :
    (locateEntries cursor segments).map ManagedEntry.key = keys Segment.key? segments := by
  induction segments generalizing cursor with
  | nil => rfl
  | cons segment segments ih =>
      cases segment with
      | blank line => exact ih _
      | entry key first body last => exact congrArg (key :: ·) (ih _)

/-- The place of a new key is before the first greater one. -/
theorem find_cons_of_lt {key key' : String} {start finish : ℕ} {rest : List ManagedEntry}
    (h : key < key') : (⟨key', start, finish⟩ :: rest).find? (fun existing =>
      decide (key < existing.key)) = some ⟨key', start, finish⟩ :=
  List.find?_cons_of_pos (p := fun existing : ManagedEntry => decide (key < existing.key))
    (decide_eq_true h)

theorem find_cons_of_not_lt {key key' : String} {start finish : ℕ} {rest : List ManagedEntry}
    (h : ¬key < key') : (⟨key', start, finish⟩ :: rest).find? (fun existing =>
      decide (key < existing.key)) = rest.find? fun existing => decide (key < existing.key) :=
  List.find?_cons_of_neg (p := fun existing : ManagedEntry => decide (key < existing.key))
    fun hlt => h (of_decide_eq_true hlt)

/-- Where the loop finds the place of a key. -/
theorem find_locate {key : String} {before after : List Segment} (cursor : ℕ)
    (hbefore : ∀ segment ∈ before, ∀ other, segment.key? = some other → ¬key < other)
    (hafter : ∀ segment ∈ after.head?, ∃ other, segment.key? = some other ∧ key < other) :
    (((locateEntries cursor (before ++ after)).find? fun existing => decide (key < existing.key)).map
      ManagedEntry.start).getD (cursor + (segmentLines (before ++ after)).length) =
        cursor + (segmentLines before).length := by
  induction before generalizing cursor with
  | nil =>
      cases after with
      | nil => rfl
      | cons segment after =>
          obtain ⟨other, hother, hlt⟩ := hafter segment rfl
          cases segment with
          | blank line => cases hother
          | entry key' first body last =>
              obtain rfl := Option.some.inj hother
              rw [List.nil_append, locateEntries, find_cons_of_lt hlt]
              rfl
  | cons segment before ih =>
      obtain ⟨hsegment, hothers⟩ := List.forall_mem_cons.1 hbefore
      cases segment with
      | blank line =>
          have hlength : ∀ rest, cursor + (segmentLines (.blank line :: rest)).length =
              cursor + 1 + (segmentLines rest).length := by
            intro rest
            have hcons : segmentLines (.blank line :: rest) = line :: segmentLines rest := rfl
            rw [hcons, List.length_cons]
            omega
          rw [List.cons_append, locateEntries, hlength, hlength]
          exact ih (cursor + 1) hothers
      | entry key' first body last =>
          have hlength : ∀ rest, cursor + (segmentLines (.entry key' first body last :: rest)).length =
              cursor + body.length + 2 + (segmentLines rest).length := by
            intro rest
            rw [segmentLines_entry, List.length_cons, List.length_append, List.length_cons]
            omega
          rw [List.cons_append, locateEntries, find_cons_of_not_lt (hsegment key' rfl), hlength, hlength]
          exact ih (cursor + body.length + 2) hothers

/-! ### Layouts -/

/-- The positions in two pieces, the second shifted. -/
theorem positions_append (p : List Char → Bool) (front rest : List (List Char)) :
    positions p (front ++ rest) =
      positions p front ++ (positions p rest).map (· + front.length) := by
  have hzip : rest.zipIdx (0 + front.length) =
      rest.zipIdx.map (Prod.map id (· + front.length)) := by
    rw [Nat.zero_add, List.map_snd_add_zipIdx_eq_zipIdx, Nat.add_zero]
  have hmap : (rest.zipIdx (0 + front.length)).filter (fun line => p line.1) =
      (rest.zipIdx.filter fun line => p line.1).map (Prod.map id (· + front.length)) := by
    rw [hzip, List.filter_map]
    rfl
  rw [positions, List.zipIdx_append, List.filter_append, List.map_append, hmap, List.map_map,
    positions, positions, List.map_map]
  rfl

/-- No position where no line matches. -/
theorem positions_eq_nil {p : List Char → Bool} {lines : List (List Char)} :
    positions p lines = [] ↔ ∀ line ∈ lines, ¬p line = true := by
  rw [positions, List.map_eq_nil_iff, List.filter_eq_nil_iff]
  constructor
  · rintro h line hline
    obtain ⟨i, hi, rfl⟩ := List.getElem_of_mem hline
    exact h (lines[i], i) (List.mk_mem_zipIdx_iff_getElem?.2 (List.getElem?_eq_getElem hi))
  · exact fun h line hline => h _ (List.fst_mem_of_mem_zipIdx hline)

/-- A line of the only index is the only one. -/
theorem positions_eq_singleton {p : List Char → Bool} {head tail : List (List Char)}
    {line : List Char} : positions p (head ++ line :: tail) = [head.length] ↔
      p line = true ∧ ∀ other ∈ head ++ tail, ¬p other = true := by
  have hcons : positions p (line :: tail) =
      (if p line = true then [0] else []) ++ (positions p tail).map (· + 1) := by
    rw [← List.singleton_append, positions_append]
    by_cases hline : p line = true <;> simp [positions, hline]
  rw [positions_append, hcons, List.forall_mem_append, ← positions_eq_nil, ← positions_eq_nil]
  constructor
  · intro h
    have hlength : ∀ i ∈ positions p head, i < head.length := fun i hi =>
      (lt_of_mem_positions hi).1
    have hhead : positions p head = [] := by
      cases hpositions : positions p head with
      | nil => rfl
      | cons i rest =>
          rw [hpositions, List.cons_append] at h
          have hi := hlength i (hpositions ▸ List.mem_cons_self)
          exact absurd (List.cons.inj h).1 hi.ne
    rw [hhead] at h
    by_cases hline : p line = true
    · rw [if_pos hline] at h
      simp only [List.singleton_append, List.nil_append, List.map_cons, List.cons.injEq,
        List.map_eq_nil_iff] at h
      exact ⟨hline, hhead, h.2⟩
    · rw [if_neg hline] at h
      simp only [List.nil_append, List.map_map, List.map_eq_singleton_iff] at h
      obtain ⟨i, -, hi⟩ := h
      have hbound : i + 1 + head.length = head.length := hi
      omega
  · rintro ⟨hline, hhead, htail⟩
    rw [if_pos hline, hhead, htail]
    simp

/-- Two lines that are there once are the bounds of a block. -/
theorem blockOf_positions {path : ChangePath} {p q : List Char → Bool}
    (hdisjoint : ∀ line, p line = true → ¬q line = true) {missing ambiguous : String}
    {start finish : ℕ} {lines : List (List Char)} :
    blockOf path (positions p lines) (positions q lines) missing ambiguous = .ok (start, finish) ↔
      ∃ head first middle last tail, lines = head ++ first :: (middle ++ last :: tail) ∧
        start = head.length ∧ finish = head.length + 1 + middle.length ∧
        p first = true ∧ q last = true ∧
        ∀ line ∈ head ++ middle ++ tail, ¬p line = true ∧ ¬q line = true := by
  have hsplit : ∀ (head middle tail : List (List Char)) (first last : List Char),
      head ++ first :: (middle ++ last :: tail) = (head ++ first :: middle) ++ last :: tail := by
    intro head middle tail first last
    rw [List.append_assoc, List.cons_append]
  have hlength : ∀ (head middle : List (List Char)) (first : List Char),
      head.length + 1 + middle.length = (head ++ first :: middle).length := by
    intro head middle first
    rw [List.length_append, List.length_cons]
    omega
  rw [blockOf_eq_ok]
  constructor
  · rintro ⟨hstarts, hends, hlt⟩
    obtain ⟨hfinish, -⟩ := lt_of_mem_positions (hends ▸ List.mem_singleton_self finish)
    obtain ⟨head, rest, rfl, rfl⟩ : ∃ head rest, lines = head ++ rest ∧ start = head.length :=
      ⟨lines.take start, lines.drop start, (List.take_append_drop ..).symm,
        (List.length_take_of_le (by omega)).symm⟩
    obtain ⟨first, rest, rfl⟩ : ∃ first rest', rest = first :: rest' := by
      refine List.exists_cons_of_ne_nil fun hnil => ?_
      rw [hnil, List.append_nil] at hfinish
      omega
    obtain ⟨middle, rest, rfl, hmiddle⟩ : ∃ middle rest', rest = middle ++ rest' ∧
        finish = head.length + 1 + middle.length := by
      refine ⟨rest.take (finish - head.length - 1), rest.drop (finish - head.length - 1),
        (List.take_append_drop ..).symm, ?_⟩
      rw [List.length_append, List.length_cons] at hfinish
      rw [List.length_take_of_le (by omega)]
      omega
    obtain ⟨last, tail, rfl⟩ : ∃ last tail, rest = last :: tail := by
      refine List.exists_cons_of_ne_nil fun hnil => ?_
      rw [hnil, List.append_nil, List.length_append, List.length_cons] at hfinish
      omega
    rw [hmiddle, hlength head middle first, hsplit] at hends
    obtain ⟨hfirst, hothers⟩ := positions_eq_singleton.1 hstarts
    obtain ⟨hlast, hothers'⟩ := positions_eq_singleton.1 hends
    refine ⟨head, first, middle, last, tail, rfl, rfl, hmiddle, hfirst, hlast, fun line hline =>
      ⟨hothers line ?_, hothers' line ?_⟩⟩
    · simp only [List.mem_append, List.mem_cons] at hline ⊢
      tauto
    · simp only [List.mem_append, List.mem_cons] at hline ⊢
      tauto
  · rintro ⟨head, first, middle, last, tail, rfl, rfl, rfl, hfirst, hlast, hinner⟩
    simp only [List.mem_append] at hinner
    refine ⟨positions_eq_singleton.2 ⟨hfirst, fun line hline => ?_⟩, ?_, by omega⟩
    · simp only [List.mem_append, List.mem_cons] at hline
      rcases hline with hline | hline | rfl | hline
      · exact (hinner line (.inl (.inl hline))).1
      · exact (hinner line (.inl (.inr hline))).1
      · exact fun hp => hdisjoint line hp hlast
      · exact (hinner line (.inr hline)).1
    · rw [hlength head middle first, hsplit]
      refine positions_eq_singleton.2 ⟨hlast, fun line hline => ?_⟩
      simp only [List.mem_append, List.mem_cons] at hline
      rcases hline with (hline | rfl | hline) | hline
      · exact (hinner line (.inl (.inl hline))).2
      · exact hdisjoint line hfirst
      · exact (hinner line (.inl (.inr hline))).2
      · exact (hinner line (.inr hline)).2

/-- The check of the order of the keys, as a property. -/
theorem increasing_iff {keys : List String} : increasing keys = true ↔ keys.Pairwise (· < ·) := by
  rw [← List.isChain_iff_pairwise]
  induction keys with
  | nil => exact iff_of_true rfl .nil
  | cons key keys ih =>
      cases keys with
      | nil => exact iff_of_true rfl (.singleton _)
      | cons next keys =>
          rw [List.isChain_cons_cons, ← ih, increasing, List.tail_cons, List.zip_cons_cons,
            List.all_cons, Bool.and_eq_true, decide_eq_true_eq]
          rfl

/-- A block between the head and the tail of a source. -/
structure Layout (block : String) (head : List (List Char)) (first : List Char)
    (segments : List Segment) (last : List Char) (tail : List (List Char)) : Prop where
  first : trim first = (blockMarker block).toList
  last : trim last = (blockMarker block ++ ":end").toList
  inner : ∀ line ∈ head ++ segmentLines segments ++ tail,
    trim line ≠ (blockMarker block).toList ∧ trim line ≠ (blockMarker block ++ ":end").toList
  valid : ∀ segment ∈ segments, segment.Valid block
  increasing : (keys Segment.key? segments).Pairwise (· < ·)

/-- The markers of an entry are not outside of its block. -/
def OutsideBlock (block key : String) (head tail : List (List Char)) : Prop :=
  ∀ line ∈ head ++ tail,
    trim line ≠ (entryStart block key).toList ∧ trim line ≠ (entryEnd block key).toList

/-- The lines of a source with a block. -/
def layoutLines (head : List (List Char)) (first : List Char) (segments : List Segment)
    (last : List Char) (tail : List (List Char)) : List (List Char) :=
  head ++ first :: (segmentLines segments ++ last :: tail)

/-- The piece that is inserted. -/
def newSegment (block key : String) (entry indentation : List Char) : Segment :=
  .entry key (indentation ++ (entryStart block key).toList)
    ((textLines entry).map fun line => if line = [] then [] else indentation ++ line)
    (indentation ++ (entryEnd block key).toList)

section Insert

variable {path : ChangePath} {block key : String} {entry : List Char}
  {head tail : List (List Char)} {first last : List Char} {segments : List Segment}

/-- The pieces after an insertion. -/
def inserted (block key : String) (entry first : List Char) (segments : List Segment) :
    List Segment :=
  place Segment.key? (newSegment block key entry (first.takeWhile isWhitespace)) key segments

/-- A block's end is not its start. -/
theorem blockEnd_ne_blockMarker (block : String) :
    (blockMarker block ++ ":end").toList ≠ (blockMarker block).toList := by
  intro h
  have hlength := congrArg List.length h
  rw [String.toList_append, List.length_append] at hlength
  have hlast : ":end".toList.length = 4 := rfl
  omega

/-- The markers of a block are where its layout has them. -/
theorem blockOf_layout {missing ambiguous : String} {start finish : ℕ} {lines : List (List Char)} :
    blockOf path (trimmedMarkerPositions lines (blockMarker block).toList)
      (trimmedMarkerPositions lines (blockMarker block ++ ":end").toList) missing ambiguous =
        .ok (start, finish) ↔
      ∃ head first middle last tail, lines = head ++ first :: (middle ++ last :: tail) ∧
        start = head.length ∧ finish = head.length + 1 + middle.length ∧
        trim first = (blockMarker block).toList ∧
        trim last = (blockMarker block ++ ":end").toList ∧
        ∀ line ∈ head ++ middle ++ tail, trim line ≠ (blockMarker block).toList ∧
          trim line ≠ (blockMarker block ++ ":end").toList := by
  rw [trimmedMarkerPositions, trimmedMarkerPositions, blockOf_positions fun line hstart hend =>
    blockEnd_ne_blockMarker block
      ((of_decide_eq_true hend).symm.trans (of_decide_eq_true hstart))]
  simp only [decide_eq_true_eq, ne_eq]

/-- The lines of two lists of segments. -/
theorem segmentLines_append (before after : List Segment) :
    segmentLines (before ++ after) = segmentLines before ++ segmentLines after :=
  List.flatMap_append

/-- The lines of a layout with those of a piece placed in it. -/
theorem layoutLines_inserted : ∃ before after, segments = before ++ after ∧
    inserted block key entry first segments =
      before ++ newSegment block key entry (first.takeWhile isWhitespace) :: after ∧
    layoutLines head first (inserted block key entry first segments) last tail =
      (head ++ first :: segmentLines before) ++
        generatedLines block key entry (first.takeWhile isWhitespace) ++
          (segmentLines after ++ last :: tail) ∧
    (((locateEntries (head.length + 1) segments).find? fun existing => decide (key < existing.key)).map
      ManagedEntry.start).getD (head.length + 1 + (segmentLines segments).length) =
        (head ++ first :: segmentLines before).length := by
  obtain ⟨before, after, rfl, hplace, hbefore, hafter⟩ := @KeyedPlacement.exists_place _ _ _
    Segment.key? (newSegment block key entry (first.takeWhile isWhitespace)) key segments
  refine ⟨before, after, rfl, hplace, ?_, ?_⟩
  · have hnew : segmentLines (newSegment block key entry (first.takeWhile isWhitespace) :: after) =
        generatedLines block key entry (first.takeWhile isWhitespace) ++ segmentLines after := rfl
    rw [inserted, hplace, layoutLines, segmentLines_append, hnew]
    simp
  · rw [find_locate _ hbefore hafter, List.length_append, List.length_cons]
    omega

/-- What is left after a block. -/
theorem drop_block (head middle tail : List (List Char)) (first last : List Char) :
    (head ++ first :: (middle ++ last :: tail)).drop (head.length + 1 + middle.length + 1) =
      tail := by
  have hsplit : head ++ first :: (middle ++ last :: tail) =
      (head ++ first :: (middle ++ [last])) ++ tail := by simp
  rw [hsplit]
  exact List.drop_left' (by simp; omega)

/-- What stands inside a block. -/
theorem middle_block (head middle tail : List (List Char)) (first last : List Char) :
    ((head ++ first :: (middle ++ last :: tail)).take (head.length + 1 + middle.length)).drop
      (head.length + 1) = middle := by
  have hsplit : head ++ first :: (middle ++ last :: tail) =
      ((head ++ [first]) ++ middle) ++ last :: tail := by simp
  rw [hsplit, List.take_left' (by simp; omega), List.drop_left' (by simp)]

/-- An entry's markers outside its block, as a property. -/
theorem any_outside_iff : (head ++ tail).any (fun line =>
    decide (trim line = (entryStart block key).toList ∨
      trim line = (entryEnd block key).toList)) = true ↔ ¬OutsideBlock block key head tail := by
  simp only [List.any_eq_true, decide_eq_true_eq, OutsideBlock, not_forall, exists_prop]
  refine exists_congr fun line => and_congr_right fun _ => ?_
  tauto

/-- What is inserted in the lines of a layout. -/
theorem insertion_layoutLines :
    let insertion := (((locateEntries (head.length + 1) segments).find? fun existing =>
      decide (key < existing.key)).map ManagedEntry.start).getD
        (head.length + 1 + (segmentLines segments).length)
    (layoutLines head first segments last tail).take insertion ++
      generatedLines block key entry
        (((layoutLines head first segments last tail).getD head.length []).takeWhile isWhitespace)
      ++ (layoutLines head first segments last tail).drop insertion =
        layoutLines head first (inserted block key entry first segments) last tail := by
  obtain ⟨before, after, rfl, -, hlines, hinsertion⟩ :=
    @layoutLines_inserted block key entry head tail first last segments
  have hsplit : layoutLines head first (before ++ after) last tail =
      (head ++ first :: segmentLines before) ++ (segmentLines after ++ last :: tail) := by
    simp [layoutLines, segmentLines_append]
  have hfirst : (layoutLines head first (before ++ after) last tail).getD head.length [] =
      first := by
    simp [layoutLines, List.getD_eq_getElem?_getD]
  dsimp only
  rw [hinsertion, hfirst, hsplit, List.take_left, List.drop_left, hlines]

/-- **What an insertion does to a layout.** -/
theorem insertEntry_eq_ok_iff {lines : List (List Char)} {result : Option (List (List Char))} :
    insertEntry path block key entry lines = .ok result ↔
      ∃ head first segments last tail, lines = layoutLines head first segments last tail ∧
        Layout block head first segments last tail ∧ OutsideBlock block key head tail ∧
        result = if key ∈ keys Segment.key? segments then none
          else some (layoutLines head first (inserted block key entry first segments) last tail) := by
  unfold insertEntry
  constructor
  · intro h
    obtain ⟨⟨start, finish⟩, hblock, h⟩ := bind_eq_ok.1 h
    obtain ⟨head, first, middle, last, tail, rfl, rfl, rfl, hfirst, hlast, hinner⟩ :=
      blockOf_layout.1 hblock
    obtain ⟨hout, h⟩ := guarded_eq_ok.1 h
    obtain ⟨entries, hentries, h⟩ := bind_eq_ok.1 h
    obtain ⟨-, h⟩ := guarded_eq_ok.1 h
    obtain ⟨hincreasing, h⟩ := guarded_eq_ok.1 h
    rw [List.take_left, drop_block, any_outside_iff, not_not] at hout
    obtain ⟨segments, hvalid, hmiddle, rfl⟩ := exists_segments (scanEntries_eq_ok.1 hentries)
    rw [middle_block] at hmiddle
    obtain rfl := hmiddle
    rw [map_key_locate, Bool.not_eq_true, Bool.not_eq_false', increasing_iff] at hincreasing
    refine ⟨head, first, segments, last, tail, rfl,
      ⟨hfirst, hlast, hinner, hvalid, hincreasing⟩, hout, ?_⟩
    rw [map_key_locate] at h
    split at h
    · next hmem =>
        rw [if_pos hmem]
        exact (pure_eq_ok.1 h).symm
    · next hmem =>
        rw [if_neg hmem, ← insertion_layoutLines]
        exact (pure_eq_ok.1 h).symm
  · rintro ⟨head, first, segments, last, tail, rfl, hlayout, hout, rfl⟩
    have hblock := (@blockOf_layout path block
      ("Rust source is missing the `" ++ block ++ "` integration block")
      ("Rust source has an ambiguous `" ++ block ++ "` integration block") _ _
      (layoutLines head first segments last tail)).2 ⟨head, first, segmentLines segments, last, tail,
        rfl, rfl, rfl, hlayout.first, hlayout.last, hlayout.inner⟩
    have hscan : scanEntries path block (head.length + 1)
        (((layoutLines head first segments last tail).take
          (head.length + 1 + (segmentLines segments).length)).drop (head.length + 1)) =
            .ok (locateEntries (head.length + 1) segments) := by
      rw [layoutLines, middle_block]
      exact scanEntries_eq_ok.2 (scanned_locate hlayout.valid _)
    refine bind_eq_ok.2 ⟨_, hblock, guarded_eq_ok.2 ⟨?_, bind_eq_ok.2 ⟨_, hscan,
      guarded_eq_ok.2 ⟨?_, guarded_eq_ok.2 ⟨?_, ?_⟩⟩⟩⟩⟩
    · rw [layoutLines, drop_block, List.take_left, any_outside_iff, not_not]
      exact hout
    · rw [map_key_locate, not_not]
      exact hlayout.increasing.imp ne_of_lt
    · rw [map_key_locate, increasing_iff.2 hlayout.increasing]
      exact Bool.noConfusion
    · rw [map_key_locate]
      split
      · rfl
      · exact congrArg (fun lines => Except.ok (some lines)) insertion_layoutLines

/-- A source has one layout of a block. -/
theorem Layout.unique (path : ChangePath) {head' tail' : List (List Char)}
    {first' last' : List Char} {segments' : List Segment} (h : Layout block head first segments last tail)
    (h' : Layout block head' first' segments' last' tail')
    (hlines : layoutLines head first segments last tail =
      layoutLines head' first' segments' last' tail') :
    head = head' ∧ first = first' ∧ segmentLines segments = segmentLines segments' ∧
      last = last' ∧ tail = tail' ∧ keys Segment.key? segments = keys Segment.key? segments' := by
  have hblock : ∀ {head tail : List (List Char)} {first last : List Char} {segments : List Segment},
      Layout block head first segments last tail →
        trimmedMarkerPositions (layoutLines head first segments last tail)
          (blockMarker block).toList = [head.length] ∧
        trimmedMarkerPositions (layoutLines head first segments last tail)
          (blockMarker block ++ ":end").toList =
            [head.length + 1 + (segmentLines segments).length] := by
    intro head tail first last segments h
    obtain ⟨hstarts, hends, -⟩ := blockOf_eq_ok.1 ((@blockOf_layout path block "" "" _ _
      (layoutLines head first segments last tail)).2 ⟨head, first, segmentLines segments, last, tail,
        rfl, rfl, rfl, h.first, h.last, h.inner⟩)
    exact ⟨hstarts, hends⟩
  obtain ⟨hstart, hfinish⟩ := hblock h
  obtain ⟨hstart', hfinish'⟩ := hblock h'
  rw [hlines, hstart', List.singleton_inj] at hstart
  rw [hlines, hfinish', List.singleton_inj, hstart, Nat.add_left_cancel_iff] at hfinish
  obtain ⟨rfl, hblock⟩ := List.append_inj hlines hstart.symm
  obtain ⟨rfl, hinner⟩ := List.cons.inj hblock
  obtain ⟨hmiddle, hrest⟩ := List.append_inj hinner hfinish.symm
  obtain ⟨rfl, rfl⟩ := List.cons.inj hrest
  have hentries := (@scanEntries_eq_ok path _ _ _ _).2 (scanned_locate h.valid 0)
  rw [hmiddle, (@scanEntries_eq_ok path _ _ _ _).2 (scanned_locate h'.valid 0),
    Except.ok.injEq] at hentries
  refine ⟨rfl, rfl, hmiddle, rfl, rfl, ?_⟩
  rw [← map_key_locate 0, ← hentries, map_key_locate]

end Insert

/-! ### The inserted piece -/

section Generated

variable {block key : String} {entry indentation : List Char}

/-- A marker is its own trimmed text. -/
theorem trim_marker {middle last : List Char} (hne : last ≠ [])
    (hlast : last.getLast?.any isWhitespace = false) :
    trim ("// hegira:".toList ++ middle ++ last) = "// hegira:".toList ++ middle ++ last := by
  refine trim_of_bounds ?_ ?_
  · rw [List.append_assoc]
    rfl
  · rwa [List.getLast?_append_of_ne_nil _ hne]

/-- An indented marker trims to the marker. -/
theorem trim_entryStart (hindentation : ∀ c ∈ indentation, isWhitespace c = true) :
    trim (indentation ++ (entryStart block key).toList) = (entryStart block key).toList := by
  rw [trim_append hindentation, entryStart_toList, markerStart_eq, List.append_assoc
    "// hegira:".toList]
  exact trim_marker (by decide) (by decide)

theorem trim_entryEnd (hindentation : ∀ c ∈ indentation, isWhitespace c = true) :
    trim (indentation ++ (entryEnd block key).toList) = (entryEnd block key).toList := by
  rw [trim_append hindentation, entryEnd_toList, markerStart_eq, List.append_assoc
    "// hegira:".toList]
  exact trim_marker (by decide) (by decide)

/-- The lines of an entry hold no marker. -/
theorem plain_body (hentry : ¬"// hegira:".toList <:+: entry)
    (hindentation : ∀ c ∈ indentation, isWhitespace c = true) :
    ∀ line ∈ (textLines entry).map (fun line => if line = [] then [] else indentation ++ line),
      ¬"// hegira:".toList <+: trim line := by
  intro line hline hmarker
  obtain ⟨line, hmem, rfl⟩ := List.mem_map.1 hline
  have hline : line <:+: entry := by
    have htext := textLines_intercalate entry
    have hlines := (@infix_intercalate ['\n'] _ _ hmem).trans
      (List.prefix_append _ (if entry.getLast? = some '\n' then ['\n'] else [])).isInfix
    rwa [htext] at hlines
  split at hmarker
  · exact absurd (List.prefix_nil.1 hmarker) (by decide)
  · rw [trim_append hindentation] at hmarker
    exact hentry (hmarker.isInfix.trans ((trim_isInfix line).trans hline))

/-- A marker of the block is a marker. -/
theorem marker_of_markerStart {rest : List Char} (h : markerStart block <+: rest) :
    "// hegira:".toList <+: rest := by
  rw [markerStart_eq] at h
  exact (List.prefix_append _ _).trans h

/-- The segment of a new entry is valid. -/
theorem valid_newSegment (hkey : validMarkerIdentifier key.toList = true)
    (hentry : ¬"// hegira:".toList <:+: entry)
    (hindentation : ∀ c ∈ indentation, isWhitespace c = true) :
    (newSegment block key entry indentation).Valid block :=
  ⟨hkey, trim_entryStart hindentation, fun line hline hstart =>
    plain_body hentry hindentation line hline (marker_of_markerStart hstart),
    trim_entryEnd hindentation⟩

/-- Each generated line is a marker of the entry or holds no marker. -/
theorem trim_generatedLines (hentry : ¬"// hegira:".toList <:+: entry)
    (hindentation : ∀ c ∈ indentation, isWhitespace c = true) :
    ∀ line ∈ generatedLines block key entry indentation,
      trim line = (entryStart block key).toList ∨ trim line = (entryEnd block key).toList ∨
        ¬"// hegira:".toList <+: trim line := by
  intro line hline
  simp only [generatedLines, List.mem_append, List.mem_singleton] at hline
  rcases hline with (rfl | hline) | rfl
  · exact .inl (trim_entryStart hindentation)
  · exact .inr (.inr (plain_body hentry hindentation line hline))
  · exact .inr (.inl (trim_entryEnd hindentation))

/-- The indentation of a line is white space. -/
theorem takeWhile_isWhitespace (first : List Char) :
    ∀ c ∈ first.takeWhile isWhitespace, isWhitespace c = true :=
  List.all_eq_true.1 List.all_takeWhile

/-- **The lines after an insertion have a layout.** -/
theorem Layout.insert {head tail : List (List Char)} {first last : List Char}
    {segments : List Segment} (h : Layout block head first segments last tail)
    (hblock : validMarkerIdentifier block.toList = true)
    (hkey : validMarkerIdentifier key.toList = true) (hentry : ¬"// hegira:".toList <:+: entry)
    (hnew : key ∉ keys Segment.key? segments) :
    Layout block head first (inserted block key entry first segments) last tail := by
  have hindentation := takeWhile_isWhitespace first
  have hplace : (keys Segment.key? (inserted block key entry first segments)).Pairwise (· < ·) :=
    KeyedPlacement.pairwise_place rfl hnew h.increasing
  obtain ⟨before, after, rfl, hinserted, -, -⟩ :=
    @layoutLines_inserted block key entry head tail first last segments
  refine ⟨h.first, h.last, fun line hline => ?_, fun segment hsegment => ?_, hplace⟩
  · rw [hinserted, segmentLines_append] at hline
    have hcons : segmentLines (newSegment block key entry (first.takeWhile isWhitespace) :: after) =
        generatedLines block key entry (first.takeWhile isWhitespace) ++ segmentLines after := rfl
    have hinner := h.inner line
    rw [segmentLines_append] at hinner
    simp only [hcons, List.mem_append] at hline hinner
    by_cases hgenerated : line ∈ generatedLines block key entry (first.takeWhile isWhitespace)
    · have hplain := plainMarker_of_valid hblock
      have hmarker : ∀ text : String, "// hegira:".toList <+: (blockMarker block ++ text).toList := by
        intro text
        rw [String.toList_append, blockMarker_toList, List.append_assoc]
        exact List.prefix_append _ _
      rcases trim_generatedLines hentry hindentation line hgenerated with hline | hline | hline
      · rw [hline]
        refine ⟨?_, entryStart_ne_blockEnd block key⟩
        rw [entryStart_toList, List.append_assoc]
        exact markerStart_ne_blockMarker hplain.2
      · rw [hline]
        refine ⟨?_, entryEnd_ne_blockEnd (plainMarker_of_valid hkey).1⟩
        rw [entryEnd_toList, List.append_assoc]
        exact markerStart_ne_blockMarker hplain.2
      · refine ⟨fun heq => hline ?_, fun heq => hline (heq ▸ hmarker ":end")⟩
        rw [heq, blockMarker_toList]
        exact List.prefix_append _ _
    · exact hinner (by tauto)
  · rw [hinserted] at hsegment
    have hvalid := h.valid segment
    simp only [List.mem_append, List.mem_cons] at hsegment hvalid
    rcases hsegment with hsegment | rfl | hsegment
    · exact hvalid (.inl hsegment)
    · exact valid_newSegment hkey hentry hindentation
    · exact hvalid (.inr hsegment)

end Generated

end Mutator
end Hegira
