/-
# Managed insertions

What a planned entry does to a source, and what several planned entries do together.  An
insertion splits the lines of a source at its place (`Gap`).  Lines that hold no marker of
the block may be added above or below that place, even between the markers of one of its
entries, and the insertion is the same (`Gap.extend_above`, `Gap.extend_below`); the
lines that an insertion adds to another block are such lines.
-/

import Hegira.Library.Schedules
import Hegira.Mutator.ManagedBlocks

namespace Hegira
namespace Mutator

open KeyedPlacement (keys place)
open Validation

/-! ### Lines of no block -/

/-- A line that is none of the markers of a block and none of those of its entries. -/
def ForeignLine (block : String) (line : List Char) : Prop :=
  trim line ≠ (blockMarker block).toList ∧ ¬markerStart block <+: trim line

section Foreign

variable {block block' key : String} {line : List Char}

/-- A foreign line is no marker of the block. -/
theorem ForeignLine.ne_blockEnd (h : ForeignLine block line) :
    trim line ≠ (blockMarker block ++ ":end").toList := by
  rintro heq
  rw [blockEnd_toList] at heq
  exact h.2 (heq ▸ List.prefix_append _ _)

theorem ForeignLine.ne_entryStart (h : ForeignLine block line) :
    trim line ≠ (entryStart block key).toList := by
  rintro heq
  rw [entryStart_toList, List.append_assoc] at heq
  exact h.2 (heq ▸ List.prefix_append _ _)

theorem ForeignLine.ne_entryEnd (h : ForeignLine block line) : trim line ≠ (entryEnd block key).toList :=
  fun heq => h.2 (entryEnd_of_markerStart heq)

/-- A marker of a block is foreign to every other block. -/
theorem foreign_of_markerStart (hblock : ':' ∉ block.toList) (hblock' : ':' ∉ block'.toList)
    (hne : block ≠ block') {rest : List Char} (h : trim line = markerStart block ++ rest) :
    ForeignLine block' line := by
  refine ⟨?_, ?_⟩
  · rw [h]
    exact markerStart_ne_blockMarker hblock'
  · rw [h]
    exact fun hstart => hne (eq_of_markerStart hblock' hblock hstart).symm

/-- The lines generated for another block are foreign. -/
theorem foreign_generatedLines {entry indentation : List Char} (hblock : ':' ∉ block.toList)
    (hblock' : ':' ∉ block'.toList) (hne : block ≠ block')
    (hentry : ¬"// hegira:".toList <:+: entry)
    (hindentation : ∀ c ∈ indentation, isWhitespace c = true) :
    ∀ line ∈ generatedLines block key entry indentation, ForeignLine block' line := by
  intro line hline
  rcases trim_generatedLines hentry hindentation line hline with hline | hline | hline
  · rw [entryStart_toList, List.append_assoc] at hline
    exact foreign_of_markerStart hblock hblock' hne hline
  · rw [entryEnd_toList, List.append_assoc] at hline
    exact foreign_of_markerStart hblock hblock' hne hline
  · refine ⟨fun heq => hline ?_, fun hstart => hline (marker_of_markerStart hstart)⟩
    rw [heq, blockMarker_toList]
    exact List.prefix_append _ _

end Foreign

/-! ### Places -/

/-- The place of a key among the pieces of a block. -/
structure Gap (block key : String) (head : List (List Char)) (first : List Char)
    (before after : List Segment) (last : List Char) (tail : List (List Char)) : Prop where
  layout : Layout block head first (before ++ after) last tail
  outside : OutsideBlock block key head tail
  fresh : key ∉ keys Segment.key? (before ++ after)
  before : ∀ segment ∈ before, ∀ other, segment.key? = some other → ¬key < other
  after : ∀ segment ∈ after.head?, ∃ other, segment.key? = some other ∧ key < other

/-- The lines above the place. -/
def linesAbove (head : List (List Char)) (first : List Char) (before : List Segment) :
    List (List Char) := head ++ first :: segmentLines before

/-- The lines below the place. -/
def linesBelow (after : List Segment) (last : List Char) (tail : List (List Char)) :
    List (List Char) := segmentLines after ++ last :: tail

section Slots

variable {path : ChangePath} {block key : String} {entry : List Char}
  {head tail : List (List Char)} {first last : List Char} {before after : List Segment}

/-- The lines above and below a place in the block. -/
theorem layoutLines_append : layoutLines head first (before ++ after) last tail =
    linesAbove head first before ++ linesBelow after last tail := by
  simp [layoutLines, linesAbove, linesBelow, segmentLines_append]

/-- An insertion puts the generated lines at the place. -/
theorem Gap.insertEntry_eq (h : Gap block key head first before after last tail) :
    insertEntry path block key entry (linesAbove head first before ++ linesBelow after last tail) =
      .ok (some (linesAbove head first before ++
        generatedLines block key entry (first.takeWhile isWhitespace) ++
          linesBelow after last tail)) := by
  refine insertEntry_eq_ok_iff.2 ⟨head, first, before ++ after, last, tail,
    layoutLines_append.symm, h.layout, h.outside, ?_⟩
  have hplace : inserted block key entry first (before ++ after) =
      before ++ newSegment block key entry (first.takeWhile isWhitespace) :: after :=
    KeyedPlacement.place_append h.before h.after
  have hnew : segmentLines (newSegment block key entry (first.takeWhile isWhitespace) :: after) =
      generatedLines block key entry (first.takeWhile isWhitespace) ++ segmentLines after := rfl
  rw [if_neg h.fresh, hplace, layoutLines, segmentLines_append, hnew, linesAbove, linesBelow]
  simp

/-- What is inserted is inserted at a place. -/
theorem exists_gap {lines result : List (List Char)}
    (h : insertEntry path block key entry lines = .ok (some result)) :
    ∃ head first before after last tail, Gap block key head first before after last tail ∧
      lines = linesAbove head first before ++ linesBelow after last tail ∧
      result = linesAbove head first before ++
        generatedLines block key entry (first.takeWhile isWhitespace) ++
          linesBelow after last tail := by
  obtain ⟨head, first, segments, last, tail, hlines, hlayout, hout, hresult⟩ :=
    insertEntry_eq_ok_iff.1 h
  split at hresult
  · cases hresult
  · next hfresh =>
      obtain ⟨before, after, rfl, -, hbefore, hafter⟩ := @KeyedPlacement.exists_place _ _ _
        Segment.key? (newSegment block key entry (first.takeWhile isWhitespace)) key segments
      have hgap : Gap block key head first before after last tail :=
        ⟨hlayout, hout, hfresh, hbefore, hafter⟩
      rw [layoutLines_append] at hlines
      have hinsert := @Gap.insertEntry_eq path block key entry _ _ _ _ _ _ hgap
      rw [← hlines, h, Except.ok.injEq, Option.some.injEq] at hinsert
      exact ⟨head, first, before, after, last, tail, hgap, hlines, hinsert⟩

/-- The first line below the place is a marker of the block. -/
theorem Gap.exists_marker (h : Gap block key head first before after last tail) :
    ∃ line rest suffix, linesBelow after last tail = line :: rest ∧
      trim line = markerStart block ++ suffix := by
  cases after with
  | nil => exact ⟨last, tail, _, rfl, h.layout.last.trans (blockEnd_toList block)⟩
  | cons segment after =>
      obtain ⟨other, hother, -⟩ := h.after segment rfl
      cases segment with
      | blank line => cases hother
      | entry key' first' body last' =>
          obtain ⟨-, hfirst, -⟩ := h.layout.valid _ (List.mem_append_right _ List.mem_cons_self)
          rw [entryStart_toList, List.append_assoc] at hfirst
          refine ⟨first', body ++ last' :: linesBelow after last tail, _, ?_, hfirst⟩
          rw [linesBelow, segmentLines_entry]
          simp [linesBelow]

/-! ### Foreign lines around a place -/

variable {group : List (List Char)} {line : List Char}

/-- Foreign lines before a foreign line of the pieces are in the body of an entry. -/
theorem extend_segments {segments : List Segment} {above below : List (List Char)}
    (hvalid : ∀ segment ∈ segments, segment.Valid block)
    (hgroup : ∀ other ∈ group, ForeignLine block other) (hline : ForeignLine block line)
    (hblank : trim line ≠ []) (hlines : segmentLines segments = above ++ line :: below) :
    ∃ segments', segmentLines segments' = above ++ group ++ line :: below ∧
      (∀ segment ∈ segments', segment.Valid block) ∧
      segments'.map Segment.key? = segments.map Segment.key? := by
  induction segments generalizing above with
  | nil => simp [segmentLines] at hlines
  | cons segment segments ih =>
      obtain ⟨hsegment, hothers⟩ := List.forall_mem_cons.1 hvalid
      cases segment with
      | blank blank =>
          have hcons : segmentLines (.blank blank :: segments) = blank :: segmentLines segments := rfl
          rw [hcons] at hlines
          cases above with
          | nil =>
              obtain ⟨rfl, -⟩ := List.cons.inj hlines
              exact absurd hsegment hblank
          | cons other above =>
              obtain ⟨rfl, hrest⟩ := List.cons.inj hlines
              obtain ⟨segments', hlines', hvalid', hkeys⟩ := ih hothers hrest
              exact ⟨.blank blank :: segments', congrArg (blank :: ·) hlines',
                List.forall_mem_cons.2 ⟨hsegment, hvalid'⟩, congrArg (none :: ·) hkeys⟩
      | entry key' first' body last' =>
          obtain ⟨hkey, hfirst, hbody, hlast⟩ := hsegment
          rw [segmentLines_entry] at hlines
          cases above with
          | nil =>
              obtain ⟨rfl, -⟩ := List.cons.inj hlines
              exact absurd hfirst hline.ne_entryStart
          | cons other above =>
              obtain ⟨rfl, hrest⟩ := List.cons.inj hlines
              rcases List.append_eq_append_iff.1 hrest with ⟨more, rfl, hmore⟩ | ⟨more, rfl, hmore⟩
              · cases more with
                | nil =>
                    obtain ⟨rfl, -⟩ := List.cons.inj hmore
                    exact absurd hlast hline.ne_entryEnd
                | cons other' more =>
                    obtain ⟨rfl, htail⟩ := List.cons.inj hmore
                    obtain ⟨segments', hlines', hvalid', hkeys⟩ := ih hothers htail
                    refine ⟨.entry key' first' body last' :: segments', ?_,
                      List.forall_mem_cons.2 ⟨⟨hkey, hfirst, hbody, hlast⟩, hvalid'⟩,
                      congrArg (some key' :: ·) hkeys⟩
                    rw [segmentLines_entry, hlines']
                    simp
              · cases more with
                | nil =>
                    obtain ⟨rfl, -⟩ := List.cons.inj hmore
                    exact absurd hlast hline.ne_entryEnd
                | cons other' more =>
                    obtain ⟨rfl, rfl⟩ := List.cons.inj hmore
                    refine ⟨.entry key' first' (above ++ group ++ line :: more) last' :: segments, ?_,
                      List.forall_mem_cons.2 ⟨⟨hkey, hfirst, fun other hother => ?_, hlast⟩, hothers⟩,
                      rfl⟩
                    · rw [segmentLines_entry]
                      simp
                    · simp only [List.mem_append, List.mem_cons] at hother hbody
                      rcases hother with (hother | hother) | rfl | hother
                      · exact hbody other (.inl hother)
                      · exact (hgroup other hother).2
                      · exact hline.2
                      · exact hbody other (.inr (.inr hother))

/-- Pieces with the same keys are before and after a place together. -/
theorem Gap.of_map_key? {head' tail' : List (List Char)} {before' after' : List Segment}
    (h : Gap block key head first before after last tail)
    (hbefore : before'.map Segment.key? = before.map Segment.key?)
    (hafter : after'.map Segment.key? = after.map Segment.key?)
    (hlayout : Layout block head' first (before' ++ after') last tail')
    (houtside : OutsideBlock block key head' tail') :
    Gap block key head' first before' after' last tail' := by
  have hkeys : keys Segment.key? (before' ++ after') = keys Segment.key? (before ++ after) := by
    have hmap : ∀ segments : List Segment, keys Segment.key? segments =
        (segments.map Segment.key?).filterMap id := by
      intro segments
      rw [List.filterMap_map, Function.id_comp, keys]
    rw [hmap, hmap, List.map_append, List.map_append, hbefore, hafter]
  refine ⟨hlayout, houtside, hkeys ▸ h.fresh, fun segment hsegment => ?_, fun segment hsegment => ?_⟩
  · have hmem := List.mem_map_of_mem (f := Segment.key?) hsegment
    rw [hbefore] at hmem
    obtain ⟨other, hother, hkey⟩ := List.mem_map.1 hmem
    rw [← hkey]
    exact h.before other hother
  · have hhead := congrArg List.head? hafter
    rw [List.head?_map, List.head?_map, Option.mem_def.1 hsegment, Option.map_some] at hhead
    obtain ⟨other, hother, hkey⟩ := Option.map_eq_some_iff.1 hhead.symm
    rw [← hkey]
    exact h.after other hother

/-- Foreign lines around the block stay outside it. -/
theorem outside_of_foreign {head' tail' : List (List Char)} (h : OutsideBlock block key head tail)
    (hlines : ∀ other ∈ head' ++ tail', other ∈ head ++ tail ∨ ForeignLine block other) :
    OutsideBlock block key head' tail' := by
  intro other hother
  rcases hlines other hother with hother | hother
  · exact h other hother
  · exact ⟨hother.ne_entryStart, hother.ne_entryEnd⟩

/-- The pieces of a block with foreign lines added to them or around them. -/
theorem Layout.of_foreign {head' tail' : List (List Char)} {segments segments' : List Segment}
    (h : Layout block head first segments last tail)
    (hvalid : ∀ segment ∈ segments', segment.Valid block)
    (hkeys : segments'.map Segment.key? = segments.map Segment.key?)
    (hlines : ∀ other ∈ head' ++ segmentLines segments' ++ tail',
      other ∈ head ++ segmentLines segments ++ tail ∨ ForeignLine block other) :
    Layout block head' first segments' last tail' := by
  refine ⟨h.first, h.last, fun other hother => ?_, hvalid, ?_⟩
  · rcases hlines other hother with hother | hother
    · exact h.inner other hother
    · exact ⟨hother.1, hother.ne_blockEnd⟩
  · have hmap : ∀ segments : List Segment, keys Segment.key? segments =
        (segments.map Segment.key?).filterMap id := by
      intro segments
      rw [List.filterMap_map, Function.id_comp, keys]
    rw [hmap, hkeys, ← hmap]
    exact h.increasing

/-- Foreign lines above a place. -/
theorem Gap.extend_above {above below : List (List Char)}
    (h : Gap block key head first before after last tail)
    (hgroup : ∀ other ∈ group, ForeignLine block other) (hline : ForeignLine block line)
    (hblank : trim line ≠ []) (hlines : linesAbove head first before = above ++ line :: below) :
    ∃ head' before', linesAbove head' first before' = above ++ group ++ line :: below ∧
      Gap block key head' first before' after last tail := by
  rcases List.append_eq_append_iff.1 hlines with ⟨more, rfl, hmore⟩ | ⟨more, rfl, hmore⟩
  · cases more with
    | nil =>
        obtain ⟨rfl, -⟩ := List.cons.inj hmore
        exact absurd h.layout.first hline.1
    | cons other more =>
        obtain ⟨rfl, hcons⟩ := List.cons.inj hmore
        have hsegments : segmentLines before = more ++ line :: below := hcons
        have hvalid := List.forall_mem_append.1 h.layout.valid
        obtain ⟨before', hlines', hvalid', hkeys⟩ :=
          extend_segments hvalid.1 hgroup hline hblank hsegments
        have hmap : (before' ++ after).map Segment.key? = (before ++ after).map Segment.key? := by
          rw [List.map_append, hkeys, List.map_append]
        refine ⟨head, before', by rw [linesAbove, hlines']; simp, h.of_map_key? hkeys rfl
          (h.layout.of_foreign (List.forall_mem_append.2 ⟨hvalid', hvalid.2⟩) hmap
            fun other hother => ?_) h.outside⟩
        rw [segmentLines_append, hlines'] at hother
        rw [segmentLines_append, hsegments]
        simp only [List.mem_append] at hother ⊢
        have hforeign := hgroup other
        tauto
  · cases more with
    | nil =>
        obtain ⟨rfl, -⟩ := List.cons.inj hmore
        exact absurd h.layout.first hline.1
    | cons other more =>
        obtain ⟨rfl, rfl⟩ := List.cons.inj hmore
        have hmem : ∀ {rest : List (List Char)} {other : List Char},
            other ∈ (above ++ group ++ line :: more) ++ rest →
              other ∈ (above ++ line :: more) ++ rest ∨ ForeignLine block other := by
          intro rest other hother
          simp only [List.mem_append] at hother ⊢
          have hforeign := hgroup other
          tauto
        refine ⟨above ++ group ++ line :: more, before, by simp [linesAbove],
          h.of_map_key? rfl rfl (h.layout.of_foreign h.layout.valid rfl fun other hother => ?_)
            (outside_of_foreign h.outside fun other => hmem)⟩
        rw [List.append_assoc (above ++ group ++ line :: more)] at hother
        rw [List.append_assoc (above ++ line :: more)]
        exact hmem hother

/-- Foreign lines below a place. -/
theorem Gap.extend_below {above below : List (List Char)}
    (h : Gap block key head first before after last tail)
    (hgroup : ∀ other ∈ group, ForeignLine block other) (hline : ForeignLine block line)
    (hblank : trim line ≠ []) (hlines : linesBelow after last tail = above ++ line :: below) :
    ∃ after' tail', linesBelow after' last tail' = above ++ group ++ line :: below ∧
      Gap block key head first before after' last tail' := by
  rcases List.append_eq_append_iff.1 hlines with ⟨more, rfl, hmore⟩ | ⟨more, hsegments, hmore⟩
  · cases more with
    | nil =>
        obtain ⟨rfl, -⟩ := List.cons.inj hmore
        exact absurd h.layout.last hline.ne_blockEnd
    | cons other more =>
        obtain ⟨rfl, rfl⟩ := List.cons.inj hmore
        have hmem : ∀ {front : List (List Char)} {other : List Char},
            other ∈ front ++ (more ++ group ++ line :: below) →
              other ∈ front ++ (more ++ line :: below) ∨ ForeignLine block other := by
          intro front other hother
          simp only [List.mem_append] at hother ⊢
          have hforeign := hgroup other
          tauto
        exact ⟨after, more ++ group ++ line :: below, by simp [linesBelow],
          h.of_map_key? rfl rfl (h.layout.of_foreign h.layout.valid rfl fun other => hmem)
            (outside_of_foreign h.outside fun other => hmem)⟩
  · cases more with
    | nil =>
        obtain ⟨rfl, -⟩ := List.cons.inj hmore
        exact absurd h.layout.last hline.ne_blockEnd
    | cons other more =>
        obtain ⟨rfl, rfl⟩ := List.cons.inj hmore
        have hvalid := List.forall_mem_append.1 h.layout.valid
        obtain ⟨after', hlines', hvalid', hkeys⟩ :=
          extend_segments hvalid.2 hgroup hline hblank hsegments
        have hmap : (before ++ after').map Segment.key? = (before ++ after).map Segment.key? := by
          rw [List.map_append, hkeys, List.map_append]
        refine ⟨after', tail, by rw [linesBelow, hlines']; simp, h.of_map_key? rfl hkeys
          (h.layout.of_foreign (List.forall_mem_append.2 ⟨hvalid.1, hvalid'⟩) hmap
            fun other hother => ?_) h.outside⟩
        rw [segmentLines_append, hlines'] at hother
        rw [segmentLines_append, hsegments]
        simp only [List.mem_append] at hother ⊢
        have hforeign := hgroup other
        tauto

end Slots

/-! ### Two insertions -/

section Two

variable {path : ChangePath} {block block' key key' : String} {entry entry' : List Char}
  {lines result result' : List (List Char)}

/-- An inserted entry adds its key only. -/
theorem mem_keys_inserted {other : String} {first : List Char} {segments : List Segment} :
    other ∈ keys Segment.key? (inserted block key entry first segments) ↔
      other = key ∨ other ∈ keys Segment.key? segments :=
  @KeyedPlacement.mem_keys_place _ _ _ Segment.key? _ _ _ rfl _

/-- An entry is there after its insertion. -/
theorem insertEntry_again (hblock : validMarkerIdentifier block.toList = true)
    (hkey : validMarkerIdentifier key.toList = true) (hentry : ¬"// hegira:".toList <:+: entry)
    (h : insertEntry path block key entry lines = .ok (some result)) :
    insertEntry path block key entry' result = .ok none := by
  obtain ⟨head, first, segments, last, tail, -, hlayout, hout, hresult⟩ := insertEntry_eq_ok_iff.1 h
  split at hresult
  · cases hresult
  · next hfresh =>
      obtain rfl := Option.some.inj hresult
      refine insertEntry_eq_ok_iff.2 ⟨head, first, _, last, tail, rfl,
        hlayout.insert hblock hkey hentry hfresh, hout, ?_⟩
      rw [if_pos (mem_keys_inserted.2 (.inl rfl))]

/-- Entries of one block are inserted in any order. -/
theorem insertEntry_comm_keys (hblock : validMarkerIdentifier block.toList = true)
    (hkey : validMarkerIdentifier key.toList = true)
    (hkey' : validMarkerIdentifier key'.toList = true)
    (hentry : ¬"// hegira:".toList <:+: entry) (hentry' : ¬"// hegira:".toList <:+: entry')
    (hne : key ≠ key') (h : insertEntry path block key entry lines = .ok (some result))
    (h' : insertEntry path block key' entry' lines = .ok (some result')) :
    ∃ both, insertEntry path block key' entry' result = .ok (some both) ∧
      insertEntry path block key entry result' = .ok (some both) := by
  obtain ⟨head, first, segments, last, tail, rfl, hlayout, hout, hresult⟩ :=
    insertEntry_eq_ok_iff.1 h
  obtain ⟨_, _, segments', _, _, hlines, hlayout', hout', hresult'⟩ := insertEntry_eq_ok_iff.1 h'
  obtain ⟨rfl, rfl, -, rfl, rfl, hkeys⟩ := hlayout.unique path hlayout' hlines
  -- what the second insertion does to the lines in the layout of the first
  have hsame : insertEntry path block key' entry' (layoutLines head first segments last tail) =
      .ok (if key' ∈ keys Segment.key? segments then none
        else some (layoutLines head first (inserted block key' entry' first segments) last tail)) :=
    insertEntry_eq_ok_iff.2 ⟨head, first, segments, last, tail, rfl, hlayout, hout', rfl⟩
  rw [h', Except.ok.injEq] at hsame
  split at hresult
  · cases hresult
  · next hfresh =>
      split at hsame
      · cases hsame
      · next hfresh' =>
          obtain rfl := Option.some.inj hresult
          obtain rfl := Option.some.inj hsame
          have hcomm : inserted block key' entry' first (inserted block key entry first segments) =
              inserted block key entry first (inserted block key' entry' first segments) :=
            KeyedPlacement.place_comm rfl rfl hne.symm
          refine ⟨layoutLines head first
            (inserted block key' entry' first (inserted block key entry first segments)) last tail,
            insertEntry_eq_ok_iff.2 ⟨head, first, _, last, tail, rfl,
              hlayout.insert hblock hkey hentry hfresh, hout', ?_⟩,
            insertEntry_eq_ok_iff.2 ⟨head, first, _, last, tail, rfl,
              hlayout.insert hblock hkey' hentry' hfresh', hout, ?_⟩⟩
          · have hnot : key' ∉ keys Segment.key? (inserted block key entry first segments) := by
              intro hmem
              rcases mem_keys_inserted.1 hmem with heq | hmem
              · exact hne heq.symm
              · exact hfresh' hmem
            rw [if_neg hnot]
          · have hnot : key ∉ keys Segment.key? (inserted block key' entry' first segments) := by
              intro hmem
              rcases mem_keys_inserted.1 hmem with heq | hmem
              · exact hne heq
              · exact hfresh hmem
            rw [if_neg hnot, hcomm]

/-- An insertion above the place of an insertion in another block. -/
theorem insertEntry_comm_above {head tail head' tail' : List (List Char)}
    {first last first' last' : List Char} {before after before' after' : List Segment}
    (hblock : ':' ∉ block.toList) (hblock' : ':' ∉ block'.toList) (hne : block ≠ block')
    (hentry : ¬"// hegira:".toList <:+: entry) (hentry' : ¬"// hegira:".toList <:+: entry')
    (h : Gap block key head first before after last tail)
    (h' : Gap block' key' head' first' before' after' last' tail')
    (hlines : linesAbove head first before ++ linesBelow after last tail =
      linesAbove head' first' before' ++ linesBelow after' last' tail')
    (hlength : (linesAbove head first before).length ≤ (linesAbove head' first' before').length) :
    ∃ both, insertEntry path block' key' entry' (linesAbove head first before ++
        generatedLines block key entry (first.takeWhile isWhitespace) ++
          linesBelow after last tail) = .ok (some both) ∧
      insertEntry path block key entry (linesAbove head' first' before' ++
        generatedLines block' key' entry' (first'.takeWhile isWhitespace) ++
          linesBelow after' last' tail') = .ok (some both) := by
  obtain ⟨line, rest, suffix, hbelow, hline⟩ := h.exists_marker
  obtain ⟨line', rest', suffix', hbelow', hline'⟩ := h'.exists_marker
  have hforeign := foreign_of_markerStart hblock hblock' hne hline
  have hforeign' := foreign_of_markerStart hblock' hblock hne.symm hline'
  have hblank : ∀ {line rest : List Char} {block : String},
      trim line = markerStart block ++ rest → trim line ≠ [] := by
    intro line rest block hline
    rw [hline, markerStart_eq]
    exact List.append_ne_nil_of_left_ne_nil (List.append_ne_nil_of_left_ne_nil (by decide) _) _
  obtain ⟨between, habove⟩ : ∃ between, linesAbove head' first' before' =
      linesAbove head first before ++ between := by
    refine ⟨(linesAbove head' first' before').drop (linesAbove head first before).length, ?_⟩
    have htake := congrArg (List.take (linesAbove head first before).length) hlines
    rw [List.take_left, List.take_append_of_le_length hlength] at htake
    rw [htake, List.length_take_of_le hlength, List.take_append_drop]
  have hrest : linesBelow after last tail = between ++ linesBelow after' last' tail' := by
    rw [habove, List.append_assoc] at hlines
    exact List.append_cancel_left hlines
  cases between with
  | nil =>
      rw [hbelow, hbelow', List.nil_append] at hrest
      obtain ⟨rfl, -⟩ := List.cons.inj hrest
      rw [hline'] at hline
      exact absurd (eq_of_markerStart hblock' hblock ⟨suffix', hline⟩).symm hne
  | cons other between =>
      obtain rfl : line = other := by
        rw [hbelow, List.cons_append] at hrest
        exact (List.cons.inj hrest).1
      rw [hbelow'] at hrest
      obtain ⟨head₂, before₂, habove₂, hgap₂⟩ := h'.extend_above
        (@foreign_generatedLines block block' key entry _ hblock hblock' hne hentry
          (takeWhile_isWhitespace first)) hforeign (hblank hline) habove
      obtain ⟨after₁, tail₁, hbelow₁, hgap₁⟩ := h.extend_below
        (@foreign_generatedLines block' block key' entry' _ hblock' hblock hne.symm hentry'
          (takeWhile_isWhitespace first')) hforeign' (hblank hline') hrest
      have hinsert := @Gap.insertEntry_eq path block' key' entry' _ _ _ _ _ _ hgap₂
      have hinsert' := @Gap.insertEntry_eq path block key entry _ _ _ _ _ _ hgap₁
      rw [habove₂] at hinsert
      rw [hbelow₁] at hinsert'
      refine ⟨linesAbove head first before ++
        generatedLines block key entry (first.takeWhile isWhitespace) ++ line :: between ++
          generatedLines block' key' entry' (first'.takeWhile isWhitespace) ++
            linesBelow after' last' tail', ?_, ?_⟩
      · rw [hrest, ← hbelow', ← List.append_assoc]
        exact hinsert
      · rw [habove, hbelow']
        simp only [List.append_assoc] at hinsert' ⊢
        exact hinsert'

/-- Entries of different blocks are inserted in any order. -/
theorem insertEntry_comm_blocks (hblock : validMarkerIdentifier block.toList = true)
    (hblock' : validMarkerIdentifier block'.toList = true)
    (hentry : ¬"// hegira:".toList <:+: entry) (hentry' : ¬"// hegira:".toList <:+: entry')
    (hne : block ≠ block') (h : insertEntry path block key entry lines = .ok (some result))
    (h' : insertEntry path block' key' entry' lines = .ok (some result')) :
    ∃ both, insertEntry path block' key' entry' result = .ok (some both) ∧
      insertEntry path block key entry result' = .ok (some both) := by
  obtain ⟨head, first, before, after, last, tail, hgap, hlines, rfl⟩ := exists_gap h
  obtain ⟨head', first', before', after', last', tail', hgap', hlines', rfl⟩ := exists_gap h'
  have hcolon := (plainMarker_of_valid hblock).2
  have hcolon' := (plainMarker_of_valid hblock').2
  rcases Nat.le_total (linesAbove head first before).length
    (linesAbove head' first' before').length with hlength | hlength
  · exact insertEntry_comm_above hcolon hcolon' hne hentry hentry' hgap hgap'
      (hlines.symm.trans hlines') hlength
  · obtain ⟨both, hfirst, hsecond⟩ := @insertEntry_comm_above path block' block key' key entry' entry
      _ _ _ _ _ _ _ _ _ _ _ _ hcolon' hcolon hne.symm hentry' hentry hgap' hgap
      (hlines'.symm.trans hlines) hlength
    exact ⟨both, hsecond, hfirst⟩

end Two

/-! ### Planned entries -/

/-- An entry that is planned: where it is put, and its text. -/
structure ManagedInsertion where
  block : String
  key : String
  entry : String
  deriving DecidableEq

/-- What `plan_rust_managed_entry` asks of its arguments. -/
structure ManagedInsertion.Accepted (op : ManagedInsertion) : Prop where
  block : validMarkerIdentifier op.block.toList = true
  key : validMarkerIdentifier op.key.toList = true
  entry : trim op.entry.toList ≠ []
  marker : ¬"// hegira:".toList <:+: op.entry.toList
  plain : '\r' ∉ op.entry.toList

section Planned

variable {D : Type} [ContentDigest D] [DecidableEq D]

/-- The content that a planned entry leaves. -/
def planEntry (D : Type) [ContentDigest D] [DecidableEq D] (path : String) (op : ManagedInsertion)
    (observed : Bytes) : Option Bytes :=
  match (planRustManagedEntry path observed op.block op.key op.entry :
      Except StructuredEditError (StructuredEditOutcome D)) with
  | .ok (.planned _ edit) => some edit.content
  | _ => none

variable {path : String} {op op' : ManagedInsertion} {observed content : Bytes}
  {p : ChangePath} {source : SourceLines} {result : List (List Char)}

/-- The bytes of the lines of a source. -/
def sourceBytes (source : SourceLines) (lines : List (List Char)) : Bytes :=
  intoBytes (String.ofList { source with lines := lines }.write)

/-- The lines with an insertion are read back. -/
theorem observedLines_insertEntry (hop : op.Accepted) (hsource : observedLines p observed = .ok source)
    (hinsert : insertEntry p op.block op.key op.entry.toList source.lines = .ok (some result)) :
    observedLines p (sourceBytes source result) = .ok { source with lines := result } := by
  obtain ⟨start, insertion, finish, indentation, hstart, hinsertion, hfinish, rfl, rfl⟩ :=
    insertEntry_eq_ok hinsert
  obtain ⟨text, -, hread⟩ := observedLines_eq_ok.1 hsource
  have hwell := SourceLines.wellFormed_of_read hread (by omega)
  have hbound : start < source.lines.length := by omega
  have hmem : source.lines.getD start [] ∈ source.lines := by
    rw [← List.getElem_eq_getD (h := hbound) []]
    exact List.getElem_mem hbound
  have hindentation : '\n' ∉ (source.lines.getD start []).takeWhile isWhitespace ∧
      '\r' ∉ (source.lines.getD start []).takeWhile isWhitespace :=
    ⟨fun hc => (hwell.plain _ hmem).1 ((List.takeWhile_sublist _).mem hc),
      fun hc => (hwell.plain _ hmem).2 ((List.takeWhile_sublist _).mem hc)⟩
  have hresult := wellFormed_insert hwell (hinsertion.trans_lt hfinish)
    (plain_generatedLines hop.block hop.key hop.plain hindentation)
  exact observedLines_eq_ok.2 ⟨_, fromUtf8_intoBytes _,
    (congrArg SourceLines.read String.toList_ofList).trans (SourceLines.read_write hresult)⟩

/-- An insertion changes the source. -/
theorem sourceBytes_ne (hop : op.Accepted) (hsource : observedLines p observed = .ok source)
    (hinsert : insertEntry p op.block op.key op.entry.toList source.lines = .ok (some result)) :
    observed ≠ sourceBytes source result := by
  rintro heq
  have hback := observedLines_insertEntry hop hsource hinsert
  rw [← heq, hsource, Except.ok.injEq] at hback
  have hlines : source.lines = result := congrArg SourceLines.lines hback
  obtain ⟨head, first, before, after, last, tail, -, habove, hresult⟩ := exists_gap hinsert
  rw [habove, hresult] at hlines
  have hlength := congrArg List.length hlines
  simp only [List.length_append, generatedLines, List.length_singleton] at hlength
  omega

/-- **What it means that an entry is planned.** -/
theorem planEntry_eq_some (hD : Function.Injective (ContentDigest.calculate : Bytes → D)) :
    planEntry D path op observed = some content ↔
      op.Accepted ∧ ∃ p source result, ChangePath.new path = .ok p ∧
        observedLines p observed = .ok source ∧
        insertEntry p op.block op.key op.entry.toList source.lines = .ok (some result) ∧
        content = sourceBytes source result := by
  unfold planEntry
  constructor
  · intro h
    split at h
    · next kind edit hplan =>
        obtain rfl := Option.some.inj h
        obtain ⟨p, source, result, hp, hblock, hkey, hentry, hmarker, hplain, hsource, hinsert, -, -,
          hcontent⟩ := planRustManagedEntry_eq_ok hplan
        exact ⟨⟨hblock, hkey, hentry, hmarker, hplain⟩, p, source, result, hp, hsource, hinsert,
          hcontent⟩
    · cases h
  · rintro ⟨hop, p, source, result, hp, hsource, hinsert, rfl⟩
    obtain rfl := ChangePath.text_of_new hp
    have hmarker : FirstMatch.contains "// hegira:".toList op.entry.toList = false := by
      rw [← Bool.not_eq_true, FirstMatch.contains_iff (by decide)]
      exact hop.marker
    obtain ⟨edit, hcontent, hplan⟩ := @planRustManagedEntry_of_insertEntry D _ _ op.block op.key
      op.entry observed p source result hop.block hop.key hop.entry hmarker
      (by simpa using hop.plain) hsource hinsert fun heq =>
        sourceBytes_ne hop hsource hinsert (hD heq)
    rw [hplan]
    exact congrArg some hcontent

/-- Entries of different places are planned in either order. -/
theorem planEntry_meet (hD : Function.Injective (ContentDigest.calculate : Bytes → D))
    (hne : (op.block, op.key) ≠ (op'.block, op'.key)) :
    Schedules.Meet (planEntry D path) op op' := by
  intro observed content content' h h'
  obtain ⟨hop, p, source, result, hp, hsource, hinsert, rfl⟩ := (planEntry_eq_some hD).1 h
  obtain ⟨hop', p', source', result', hp', hsource', hinsert', rfl⟩ := (planEntry_eq_some hD).1 h'
  obtain rfl := Except.ok.inj (hp.symm.trans hp')
  obtain rfl := Except.ok.inj (hsource.symm.trans hsource')
  obtain ⟨both, hboth, hboth'⟩ : ∃ both,
      insertEntry p op'.block op'.key op'.entry.toList result = .ok (some both) ∧
        insertEntry p op.block op.key op.entry.toList result' = .ok (some both) := by
    by_cases hblock : op.block = op'.block
    · have hkey : op.key ≠ op'.key := fun hkey => hne (Prod.ext hblock hkey)
      rw [← hblock] at hinsert' ⊢
      exact insertEntry_comm_keys hop.block hop.key hop'.key hop.marker hop'.marker hkey hinsert
        hinsert'
    · exact insertEntry_comm_blocks hop.block hop'.block hop.marker hop'.marker hblock hinsert
        hinsert'
  exact ⟨sourceBytes source both,
    (planEntry_eq_some hD).2 ⟨hop', p, _, both, hp, observedLines_insertEntry hop hsource hinsert,
      hboth, rfl⟩,
    (planEntry_eq_some hD).2 ⟨hop, p, _, both, hp, observedLines_insertEntry hop' hsource hinsert',
      hboth', rfl⟩⟩

/-- An entry whose key is there is not planned. -/
theorem planRustManagedEntry_of_present (hop : op.Accepted)
    (hsource : observedLines p observed = .ok source)
    (hinsert : insertEntry p op.block op.key op.entry.toList source.lines = .ok none) :
    (planRustManagedEntry p.text observed op.block op.key op.entry :
      Except StructuredEditError (StructuredEditOutcome D)) =
        .ok (.alreadyPresent .rustManagedEntry p) := by
  refine bind_eq_ok.2 ⟨p, mapError_eq_ok.2 p.new_text, guarded_eq_ok.2 ⟨?_, guarded_eq_ok.2 ⟨?_,
    bind_eq_ok.2 ⟨source, hsource, bind_eq_ok.2 ⟨none, hinsert, rfl⟩⟩⟩⟩⟩
  · simp [hop.block, hop.key, hop.entry]
  · have hmarker : FirstMatch.contains "// hegira:".toList op.entry.toList = false := by
      rw [← Bool.not_eq_true, FirstMatch.contains_iff (by decide)]
      exact hop.marker
    have hplain : op.entry.toList.contains '\r' = false := by simpa using hop.plain
    rw [hmarker, hplain]
    exact Bool.noConfusion

/-- Lines are written with the newline after each that another follows. -/
theorem write_append {above below : List (List Char)} (hbelow : below ≠ []) :
    SourceLines.write { source with lines := above ++ below } =
      above.flatMap (· ++ source.newline) ++ SourceLines.write { source with lines := below } := by
  have hjoin : source.newline.intercalate (above ++ below) =
      above.flatMap (· ++ source.newline) ++ source.newline.intercalate below := by
    induction above with
    | nil => rfl
    | cons line above ih =>
        obtain ⟨next, rest, hrest⟩ := List.exists_cons_of_ne_nil
          (List.append_ne_nil_of_right_ne_nil above hbelow)
        rw [List.cons_append, hrest, List.intercalate_cons_cons, ← hrest, ih, List.flatMap_cons]
        simp only [List.append_assoc]
  simp only [SourceLines.write, hjoin, List.append_assoc]

/-- There is always the end of the block below. -/
theorem linesBelow_ne_nil (after : List Segment) (last : List Char) (tail : List (List Char)) :
    linesBelow after last tail ≠ [] :=
  List.append_ne_nil_of_right_ne_nil _ (List.cons_ne_nil _ _)

end Planned

/-! ### A source with two blocks -/

/-- Routes between a function's braces, and links after it. -/
def draftSource : SourceLines :=
  ⟨["fn routes() \x7b".toList, "    // hegira:routes".toList, "    // hegira:routes:end".toList,
    "\x7d".toList, "// hegira:links".toList, "// hegira:links:end".toList], ['\n'], true⟩

def draftBytes : Bytes := sourceBytes draftSource draftSource.lines

/-- The source of the example is read. -/
theorem draft_observed : observedLines draftPath draftBytes = .ok draftSource := by
  have hwell : draftSource.WellFormed := ⟨by decide, by decide, nofun, .inl rfl⟩
  exact observedLines_eq_ok.2 ⟨_, fromUtf8_intoBytes _,
    (congrArg SourceLines.read String.toList_ofList).trans (SourceLines.read_write hwell)⟩

/-- It has a place for an entry in its first block. -/
theorem routes_gap (key : String) (houtside : OutsideBlock "routes" key ["fn routes() \x7b".toList]
    ["\x7d".toList, "// hegira:links".toList, "// hegira:links:end".toList]) :
    Gap "routes" key ["fn routes() \x7b".toList] "    // hegira:routes".toList [] []
      "    // hegira:routes:end".toList
      ["\x7d".toList, "// hegira:links".toList, "// hegira:links:end".toList] :=
  ⟨⟨by decide, by decide, by decide, nofun, .nil⟩, houtside, nofun, nofun, nofun⟩

theorem links_gap : Gap "links" "books"
    ["fn routes() \x7b".toList, "    // hegira:routes".toList, "    // hegira:routes:end".toList,
      "\x7d".toList] "// hegira:links".toList [] [] "// hegira:links:end".toList [] :=
  ⟨⟨by decide, by decide, by decide, nofun, .nil⟩, by rw [OutsideBlock]; decide, nofun, nofun, nofun⟩

/-- An entry that fits its place is planned. -/
theorem draft_planned {op : ManagedInsertion} {result : List (List Char)} (hop : op.Accepted)
    (h : insertEntry draftPath op.block op.key op.entry.toList draftSource.lines =
      .ok (some result)) : (planEntry PlainDigest draftPath.text op draftBytes).isSome = true :=
  Option.isSome_iff_exists.2 ⟨_, (planEntry_eq_some PlainDigest.calculate_injective).2
    ⟨hop, draftPath, draftSource, result, draftPath.new_text, draft_observed, h, rfl⟩⟩

/-! ### What a planned entry does -/

section Placed

variable {D : Type} [ContentDigest D] [DecidableEq D] {observed : Bytes}

/-- The content is the observed source with one group of lines between the markers of the
block, the keys of the block increase before and after, and the key is there afterwards. -/
def PlacedEntry (D : Type) [ContentDigest D] [DecidableEq D] (path : String) (observed : Bytes)
    (block key entry : String) (content : Bytes) : Prop :=
  ∃ p source head first before after last tail,
    let group := generatedLines block key entry.toList (first.takeWhile isWhitespace)
    let front := (linesAbove head first before).flatMap (· ++ source.newline)
    let back := SourceLines.write { source with lines := linesBelow after last tail }
    observedLines p observed = .ok source ∧
    source.lines = linesAbove head first before ++ linesBelow after last tail ∧
    Layout block head first (before ++ after) last tail ∧
    observed = intoBytes (String.ofList (front ++ back)) ∧
    content = intoBytes (String.ofList (front ++ group.flatMap (· ++ source.newline) ++ back)) ∧
    observedLines p content = .ok { source with
      lines := linesAbove head first before ++ group ++ linesBelow after last tail } ∧
    Layout block head first (before ++
      newSegment block key entry.toList (first.takeWhile isWhitespace) :: after) last tail ∧
    ∀ other, ManagedInsertion.Accepted ⟨block, key, other⟩ →
      (planRustManagedEntry path content block key other :
        Except StructuredEditError (StructuredEditOutcome D)) =
          .ok (.alreadyPresent .rustManagedEntry p)

/-- **A planned entry is one group of lines in the order of the keys of its block.** -/
theorem planned_entry_placed {path block key entry : String} {kind : StructuredEditKind}
    {edit : StructuredFileEdit D}
    (h : planRustManagedEntry path observed block key entry = .ok (.planned kind edit)) :
    PlacedEntry D path observed block key entry edit.content := by
  obtain ⟨p, source, result, hp, hblock, hkey, hentry, hmarker, hplain, hsource, hinsert, -, -,
    hcontent⟩ := planRustManagedEntry_eq_ok h
  have hop : ManagedInsertion.Accepted ⟨block, key, entry⟩ :=
    ⟨hblock, hkey, hentry, hmarker, hplain⟩
  have hback := observedLines_insertEntry hop hsource hinsert
  have hread : intoBytes (String.ofList source.write) = observed := by
    obtain ⟨text, hutf8, hread⟩ := observedLines_eq_ok.1 hsource
    rw [SourceLines.write_of_read hread, String.ofList_toList]
    exact fromUtf8_eq_some hutf8
  obtain ⟨head, first, before, after, last, tail, hgap, hlines, rfl⟩ := exists_gap hinsert
  have hbelow := linesBelow_ne_nil after last tail
  have hplace : inserted block key entry.toList first (before ++ after) =
      before ++ newSegment block key entry.toList (first.takeWhile isWhitespace) :: after :=
    KeyedPlacement.place_append hgap.before hgap.after
  refine ⟨p, source, head, first, before, after, last, tail, ?_⟩
  intro group front back
  have hobserved : source.write = front ++ back := by
    have hwritten := @write_append source (linesAbove head first before) _ hbelow
    rwa [← hlines] at hwritten
  have hinserted : SourceLines.write { source with
      lines := linesAbove head first before ++
        generatedLines block key entry.toList (first.takeWhile isWhitespace) ++
          linesBelow after last tail } =
        front ++ group.flatMap (· ++ source.newline) ++ back := by
    rw [write_append hbelow, List.flatMap_append]
  have hlayout := hgap.layout.insert hblock hkey hmarker hgap.fresh
  rw [hplace] at hlayout
  refine ⟨hsource, hlines, hgap.layout, ?_, ?_, ?_, hlayout, fun other hother => ?_⟩
  · exact hread.symm.trans (congrArg (fun text => intoBytes (String.ofList text)) hobserved)
  · exact hcontent.trans (congrArg (fun text => intoBytes (String.ofList text)) hinserted)
  · exact (congrArg (observedLines p) hcontent).trans hback
  · obtain rfl := ChangePath.text_of_new hp
    have hpresent := @planRustManagedEntry_of_present D _ _ _ _ _ _ hother hback
      (insertEntry_again hblock hkey hmarker hinsert)
    rw [hcontent]
    exact hpresent

/-- The entry of the example is placed. -/
theorem draft_entry_placed : ∃ edit : StructuredFileEdit PlainDigest,
    PlacedEntry PlainDigest draftPath.text draftBytes "routes" "books" "route(books);"
      edit.content := by
  have hgap := routes_gap "books" (by rw [OutsideBlock]; decide)
  have hop : ManagedInsertion.Accepted ⟨"routes", "books", "route(books);"⟩ :=
    ⟨by decide, by decide, by decide, by decide, by decide⟩
  have hinsert := @Gap.insertEntry_eq draftPath "routes" "books" "route(books);".toList _ _ _ _ _ _
    hgap
  obtain ⟨edit, -, hplan⟩ := @planRustManagedEntry_of_insertEntry PlainDigest _ _ "routes" "books"
    "route(books);" draftBytes draftPath draftSource _ hop.block hop.key hop.entry (by decide)
    (by decide) draft_observed hinsert fun heq =>
      sourceBytes_ne hop draft_observed hinsert (PlainDigest.calculate_injective heq)
  exact ⟨edit, planned_entry_placed hplan⟩

/-- **Entries of different places are planned in any order, to the same source.** -/
theorem entries_planned_in_any_order {path : String}
    (hD : Function.Injective (ContentDigest.calculate : Bytes → D)) {ops : List ManagedInsertion}
    (hplaces : (ops.map fun op => (op.block, op.key)).Nodup)
    (hplanned : ∀ op ∈ ops, (planEntry D path op observed).isSome = true) :
    ∃ content, ∀ schedule, ops.Perm schedule →
      Schedules.run (planEntry D path) schedule observed = some content := by
  refine Schedules.run_perm ?_ hplanned
  rw [List.Nodup, List.pairwise_map] at hplaces
  exact hplaces.imp fun hne => planEntry_meet hD hne

/-- Three entries are planned in any order with one result. -/
theorem draft_entries_planned : ∃ content, ∀ schedule,
    List.Perm [⟨"routes", "books", "route(books);"⟩, ⟨"links", "books", "link(books);"⟩,
      ⟨"routes", "authors", "route(authors);"⟩] schedule →
    Schedules.run (planEntry PlainDigest draftPath.text) schedule draftBytes = some content :=
  entries_planned_in_any_order PlainDigest.calculate_injective (by decide)
    (List.forall_mem_cons.2 ⟨draft_planned ⟨by decide, by decide, by decide, by decide, by decide⟩
        (routes_gap "books" (by rw [OutsideBlock]; decide)).insertEntry_eq,
      List.forall_mem_cons.2 ⟨draft_planned ⟨by decide, by decide, by decide, by decide, by decide⟩
          links_gap.insertEntry_eq,
        List.forall_mem_cons.2 ⟨draft_planned
            ⟨by decide, by decide, by decide, by decide, by decide⟩
            (routes_gap "authors" (by rw [OutsideBlock]; decide)).insertEntry_eq, nofun⟩⟩⟩)

end Placed

end Mutator
end Hegira
