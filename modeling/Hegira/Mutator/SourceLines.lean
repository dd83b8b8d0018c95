/-
# The lines of a source

`normalize_newlines` and `restore_newlines` of `tools/application_mutator/src/editor.rs`,
with `str::lines` between them: a source with consistent newlines is its lines, the newline
that ends them and whether the last line is ended.

Reading and writing are inverse to each other (`write_of_read`, `read_write`), so that an
edit of the lines is an edit of the source.
-/

import Mathlib.Data.List.Infix

namespace Hegira
namespace Mutator

/-- `source.replace("\r\n", with)`. -/
def replaceCrlf (replacement : List Char) : List Char → List Char
  | [] => []
  | '\r' :: '\n' :: rest => replacement ++ replaceCrlf replacement rest
  | c :: rest => c :: replaceCrlf replacement rest

/-- `str::lines`, on a text without carriage returns. -/
def textLines (text : List Char) : List (List Char) :=
  if text = [] then []
  else if text.getLast? = some '\n' then text.dropLast.splitOn '\n'
  else text.splitOn '\n'

/-- A source by its lines. -/
structure SourceLines where
  lines : List (List Char)
  newline : List Char
  finalNewline : Bool
  deriving DecidableEq

namespace SourceLines

/-- `normalize_newlines`, and the lines of what it gives. -/
def read (source : List Char) : Option SourceLines :=
  if '\r' ∈ source then
    let withoutCrlf := replaceCrlf [] source
    if '\r' ∈ withoutCrlf ∨ '\n' ∈ withoutCrlf then none
    else some ⟨textLines (replaceCrlf ['\n'] source), ['\r', '\n'], ['\r', '\n'].isSuffixOf source⟩
  else some ⟨textLines source, ['\n'], source.getLast? = some '\n'⟩

/-- `restore_newlines`. -/
def write (self : SourceLines) : List Char :=
  self.newline.intercalate self.lines ++ if self.finalNewline then self.newline else []

/-- What is read of a source that has lines. -/
structure WellFormed (s : SourceLines) : Prop where
  nonempty : s.lines ≠ []
  plain : ∀ line ∈ s.lines, '\n' ∉ line ∧ '\r' ∉ line
  final : s.finalNewline = false → s.lines.getLast? ≠ some []
  newline : s.newline = ['\n'] ∨
    s.newline = ['\r', '\n'] ∧ (2 ≤ s.lines.length ∨ s.finalNewline = true)

end SourceLines

/-! ### Carriage returns -/

/-- The text with a carriage return before each newline. -/
def withCrlf (text : List Char) : List Char :=
  text.flatMap fun c => if c = '\n' then ['\r', '\n'] else [c]

/-- A character that starts no line ending stays. -/
theorem replaceCrlf_cons {replacement rest : List Char} {c : Char} (h : c ≠ '\r') :
    replaceCrlf replacement (c :: rest) = c :: replaceCrlf replacement rest := by
  rw [replaceCrlf]
  exact fun _ hc => absurd hc h

theorem withCrlf_cons_newline (text : List Char) :
    withCrlf ('\n' :: text) = '\r' :: '\n' :: withCrlf text := rfl

theorem withCrlf_cons {c : Char} (h : c ≠ '\n') (text : List Char) :
    withCrlf (c :: text) = c :: withCrlf text := by
  simp [withCrlf, h]

/-- The line endings of a text are those of its parts. -/
theorem withCrlf_append (text rest : List Char) :
    withCrlf (text ++ rest) = withCrlf text ++ withCrlf rest := List.flatMap_append

/-- A text without newlines has no line endings to change. -/
theorem withCrlf_of_notMem {text : List Char} (h : '\n' ∉ text) : withCrlf text = text := by
  induction text with
  | nil => rfl
  | cons c text ih =>
      rw [List.mem_cons, not_or] at h
      rw [withCrlf_cons (Ne.symm h.1), ih h.2]

/-- Line endings that were written are found again. -/
theorem replaceCrlf_withCrlf (replacement : List Char) {text : List Char} (h : '\r' ∉ text) :
    replaceCrlf replacement (withCrlf text) =
      text.flatMap fun c => if c = '\n' then replacement else [c] := by
  induction text with
  | nil => rfl
  | cons c text ih =>
      rw [List.mem_cons, not_or] at h
      by_cases hc : c = '\n'
      · subst hc
        rw [withCrlf_cons_newline, replaceCrlf, ih h.2]
        rfl
      · rw [withCrlf_cons hc, replaceCrlf_cons (Ne.symm h.1), ih h.2]
        simp [hc]

/-- A text whose line endings are all `\r\n` is the text with `\n`, written so. -/
theorem withCrlf_replaceCrlf {source : List Char}
    (h : ∀ c ∈ replaceCrlf [] source, c ≠ '\r' ∧ c ≠ '\n') :
    withCrlf (replaceCrlf ['\n'] source) = source ∧ '\r' ∉ replaceCrlf ['\n'] source := by
  induction source using replaceCrlf.induct with
  | case1 => exact ⟨rfl, nofun⟩
  | case2 rest ih =>
      obtain ⟨heq, hnot⟩ := ih fun c hc => h c hc
      rw [replaceCrlf, List.singleton_append, withCrlf_cons_newline, heq]
      exact ⟨rfl, by simp [hnot]⟩
  | case3 c rest hpair ih =>
      have hone : ∀ replacement, replaceCrlf replacement (c :: rest) =
          c :: replaceCrlf replacement rest := fun replacement => by
        rw [replaceCrlf]
        exact hpair
      rw [hone] at h
      obtain ⟨⟨hcr, hlf⟩, hrest⟩ := List.forall_mem_cons.1 h
      obtain ⟨heq, hnot⟩ := ih hrest
      rw [hone, withCrlf_cons hlf, heq]
      exact ⟨rfl, by simp [hnot, Ne.symm hcr]⟩

/-! ### Lines -/

/-- Lines are joined by either ending alike. -/
theorem withCrlf_intercalate {lines : List (List Char)} (h : ∀ line ∈ lines, '\n' ∉ line) :
    withCrlf (['\n'].intercalate lines) = ['\r', '\n'].intercalate lines := by
  induction lines with
  | nil => rfl
  | cons line lines ih =>
      obtain ⟨hline, hlines⟩ := List.forall_mem_cons.1 h
      cases lines with
      | nil => rw [List.intercalate_singleton, List.intercalate_singleton, withCrlf_of_notMem hline]
      | cons next lines =>
          rw [List.intercalate_cons_cons, List.intercalate_cons_cons, withCrlf_append,
            withCrlf_append, ih hlines, withCrlf_of_notMem hline]
          rfl

/-- A line has no newline in it. -/
theorem notMem_of_mem_splitOn {text line : List Char} (h : line ∈ text.splitOn '\n') :
    '\n' ∉ line := by
  induction text generalizing line with
  | nil =>
      rw [List.splitOn_nil, List.mem_singleton] at h
      rw [h]
      exact nofun
  | cons c text ih =>
      rw [List.splitOn_cons_eq_if_modifyHead] at h
      split at h
      · rcases List.mem_cons.1 h with rfl | h
        · exact nofun
        · exact ih h
      · next hc =>
          obtain ⟨first, rest, hsplit⟩ := List.exists_cons_of_ne_nil (List.splitOn_ne_nil '\n' text)
          rw [hsplit] at h ih
          rcases List.mem_cons.1 h with rfl | h
          · have hfirst := ih List.mem_cons_self
            simp only [List.mem_cons, not_or]
            exact ⟨fun heq => hc (beq_iff_eq.2 heq.symm), hfirst⟩
          · exact ih (List.mem_cons_of_mem _ h)

/-- A line stands in the text it is joined into. -/
theorem infix_intercalate {separator line : List Char} {lines : List (List Char)}
    (h : line ∈ lines) : line <:+: separator.intercalate lines := by
  induction lines with
  | nil => cases h
  | cons first lines ih =>
      cases lines with
      | nil =>
          obtain rfl := List.mem_singleton.1 h
          rw [List.intercalate_singleton]
      | cons next lines =>
          rw [List.intercalate_cons_cons, List.append_assoc]
          rcases List.mem_cons.1 h with rfl | h
          · exact (List.prefix_append _ _).isInfix
          · exact (ih h).trans ((List.suffix_append _ _).trans (List.suffix_append _ _)).isInfix

theorem mem_intercalate {separator line : List Char} {lines : List (List Char)} {c : Char}
    (hline : line ∈ lines) (hc : c ∈ line) : c ∈ separator.intercalate lines :=
  (infix_intercalate hline).mem hc

/-- A character of the text is in a separator or in a line. -/
theorem mem_of_mem_intercalate {separator : List Char} {lines : List (List Char)} {c : Char}
    (h : c ∈ separator.intercalate lines) : c ∈ separator ∨ ∃ line ∈ lines, c ∈ line := by
  induction lines with
  | nil => cases h
  | cons first lines ih =>
      cases lines with
      | nil =>
          rw [List.intercalate_singleton] at h
          exact .inr ⟨first, List.mem_singleton_self _, h⟩
      | cons next lines =>
          rw [List.intercalate_cons_cons, List.mem_append, List.mem_append] at h
          rcases h with (h | h) | h
          · exact .inr ⟨first, List.mem_cons_self, h⟩
          · exact .inl h
          · rcases ih h with h | ⟨line, hline, hc⟩
            · exact .inl h
            · exact .inr ⟨line, List.mem_cons_of_mem _ hline, hc⟩

/-- A last empty line is a final newline. -/
theorem intercalate_concat_nil {lines : List (List Char)} (h : lines ≠ []) :
    ['\n'].intercalate (lines ++ [[]]) = ['\n'].intercalate lines ++ ['\n'] := by
  induction lines with
  | nil => exact absurd rfl h
  | cons line lines ih =>
      cases lines with
      | nil => simp [List.intercalate_cons_cons, List.intercalate_singleton]
      | cons next lines =>
          rw [List.cons_append, List.cons_append, List.intercalate_cons_cons,
            List.intercalate_cons_cons, ← List.cons_append, ih (List.cons_ne_nil _ _),
            List.append_assoc, List.append_assoc, List.append_assoc]

/-- A text is its lines. -/
theorem textLines_intercalate (text : List Char) :
    ['\n'].intercalate (textLines text) ++ (if text.getLast? = some '\n' then ['\n'] else []) =
      text := by
  unfold textLines
  by_cases hempty : text = []
  · rw [if_pos hempty, hempty]
    rfl
  · rw [if_neg hempty]
    by_cases hlast : text.getLast? = some '\n'
    · rw [if_pos hlast, if_pos hlast, List.intercalate_splitOn]
      rw [List.getLast?_eq_some_getLast hempty, Option.some.injEq] at hlast
      rw [← hlast, List.dropLast_append_getLast]
    · rw [if_neg hlast, if_neg hlast, List.intercalate_splitOn, List.append_nil]

/-- The lines of a text hold no newline. -/
theorem textLines_plain {text line : List Char} (h : line ∈ textLines text) : '\n' ∉ line := by
  unfold textLines at h
  split at h
  · cases h
  · split at h <;> exact notMem_of_mem_splitOn h

/-- The lines that were written are the lines that are read. -/
theorem textLines_of_intercalate {lines : List (List Char)} {finalNewline : Bool}
    (hnonempty : lines ≠ []) (hplain : ∀ line ∈ lines, '\n' ∉ line)
    (hfinal : finalNewline = false → lines.getLast? ≠ some []) :
    textLines (['\n'].intercalate lines ++ if finalNewline then ['\n'] else []) = lines ∧
      ((['\n'].intercalate lines ++ if finalNewline then ['\n'] else []).getLast? = some '\n' ↔
        finalNewline = true) := by
  cases finalNewline with
  | true =>
      have hlast : (['\n'].intercalate lines ++ ['\n']).getLast? = some '\n' :=
        List.getLast?_concat ..
      refine ⟨?_, iff_of_true hlast rfl⟩
      rw [if_pos rfl, textLines, if_neg (List.concat_ne_nil _ _), if_pos hlast, List.dropLast_concat,
        List.splitOn_intercalate '\n' hplain hnonempty]
  | false =>
      have hsplit := List.splitOn_intercalate '\n' hplain hnonempty
      have hempty : ['\n'].intercalate lines ≠ [] := fun h => by
        rw [h, List.splitOn_nil] at hsplit
        exact hfinal rfl (hsplit ▸ rfl)
      have hlast : ¬(['\n'].intercalate lines).getLast? = some '\n' := fun h => by
        rw [List.getLast?_eq_some_getLast hempty, Option.some.injEq] at h
        rw [← List.dropLast_append_getLast hempty, h, List.splitOn_append_cons_self,
          List.splitOn_nil] at hsplit
        exact hfinal rfl (hsplit ▸ List.getLast?_concat ..)
      rw [if_neg Bool.false_ne_true, List.append_nil]
      refine ⟨?_, iff_of_false hlast Bool.false_ne_true⟩
      rw [textLines, if_neg hempty, if_neg hlast, hsplit]

/-- A text ends with its line ending in one spelling exactly if it does in the other. -/
theorem isSuffixOf_withCrlf (text : List Char) :
    ['\r', '\n'].isSuffixOf (withCrlf text) = true ↔ text.getLast? = some '\n' := by
  rw [List.isSuffixOf_iff_suffix]
  rcases List.eq_nil_or_concat' text with rfl | ⟨front, c, rfl⟩
  · simp [withCrlf]
  · rw [List.getLast?_concat, Option.some.injEq, withCrlf_append]
    constructor
    · intro h
      by_contra hc
      have hlast := List.suffix_iff_eq_drop.1 h
      have hget := congrArg List.getLast? hlast
      rw [withCrlf_cons hc] at h
      obtain ⟨rest, hrest⟩ := h
      have heq := congrArg List.getLast? hrest
      simp [withCrlf] at heq
      exact hc heq.symm
    · rintro rfl
      exact List.suffix_append _ _

/-! ### Reading and writing -/

namespace SourceLines

variable {source : List Char} {s : SourceLines}

/-- What is written with `\r\n` is what is written with `\n`, respelled. -/
theorem write_withCrlf {lines : List (List Char)} {finalNewline : Bool}
    (h : ∀ line ∈ lines, '\n' ∉ line) :
    write ⟨lines, ['\r', '\n'], finalNewline⟩ =
      withCrlf (write ⟨lines, ['\n'], finalNewline⟩) := by
  cases finalNewline <;> simp only [write, withCrlf_append, withCrlf_intercalate h] <;> rfl

/-- A text is written back as it was read. -/
theorem write_textLines (text : List Char) :
    write ⟨textLines text, ['\n'], decide (text.getLast? = some '\n')⟩ = text := by
  simpa [write] using textLines_intercalate text

/-- **A source is what was read of it.** -/
theorem write_of_read (h : read source = some s) : s.write = source := by
  unfold read at h
  split at h
  · dsimp only at h
    split at h
    · cases h
    · next hplain =>
        rw [not_or] at hplain
        obtain rfl := Option.some.inj h
        obtain ⟨hsource, hnot⟩ := @withCrlf_replaceCrlf source fun c hc =>
          ⟨fun heq => hplain.1 (heq ▸ hc), fun heq => hplain.2 (heq ▸ hc)⟩
        have hfinal : ['\r', '\n'].isSuffixOf source =
            decide ((replaceCrlf ['\n'] source).getLast? = some '\n') := by
          rw [Bool.eq_iff_iff, decide_eq_true_eq, ← isSuffixOf_withCrlf, hsource]
        rw [hfinal, write_withCrlf fun _ hline => textLines_plain hline, write_textLines, hsource]
  · obtain rfl := Option.some.inj h
    exact write_textLines source

/-- Without a final newline the last line is not empty. -/
theorem textLines_final {text : List Char} (h : text.getLast? ≠ some '\n') :
    (textLines text).getLast? ≠ some [] := by
  unfold textLines
  split
  · exact nofun
  · next hempty =>
      intro hlast
      obtain ⟨front, hfront⟩ := List.getLast?_eq_some_iff.1 hlast
      have htext : ['\n'].intercalate (text.splitOn '\n') = text := List.intercalate_splitOn _
      rw [hfront] at htext
      by_cases hnil : front = []
      · rw [hnil, List.nil_append, List.intercalate_singleton] at htext
        exact hempty htext.symm
      · rw [intercalate_concat_nil hnil] at htext
        exact h (htext ▸ List.getLast?_concat ..)

/-- The lines hold nothing that the text does not. -/
theorem mem_of_mem_textLines {text line : List Char} {c : Char} (hline : line ∈ textLines text)
    (hc : c ∈ line) : c ∈ text := by
  rw [← textLines_intercalate text]
  exact List.mem_append_left _ (mem_intercalate hline hc)

/-- What is read can be written and read again. -/
theorem wellFormed_of_read (h : read source = some s) (hlines : 2 ≤ s.lines.length) :
    s.WellFormed := by
  have hnonempty : s.lines ≠ [] := List.ne_nil_of_length_pos (by omega)
  unfold read at h
  split at h
  · dsimp only at h
    split at h
    · cases h
    · next hplain =>
        rw [not_or] at hplain
        obtain rfl := Option.some.inj h
        obtain ⟨hsource, hnot⟩ := withCrlf_replaceCrlf fun c hc =>
          ⟨fun heq => hplain.1 (heq ▸ hc), fun heq => hplain.2 (heq ▸ hc)⟩
        refine ⟨hnonempty, fun line hline => ⟨textLines_plain hline, fun hc =>
          hnot (mem_of_mem_textLines hline hc)⟩, fun hfinal => textLines_final fun hlast => ?_,
          .inr ⟨rfl, .inl hlines⟩⟩
        rw [← isSuffixOf_withCrlf, hsource] at hlast
        exact absurd hfinal (by simp [hlast])
  · next hnot =>
      obtain rfl := Option.some.inj h
      refine ⟨hnonempty, fun line hline => ⟨textLines_plain hline, fun hc =>
        hnot (mem_of_mem_textLines hline hc)⟩, fun hfinal => textLines_final ?_, .inl rfl⟩
      simpa using hfinal

/-- **What is written is read.** -/
theorem read_write (h : s.WellFormed) : read s.write = some s := by
  obtain ⟨lines, newline, finalNewline⟩ := s
  have hplain := fun line hline => (h.plain line hline).1
  obtain ⟨hread, hlast⟩ := textLines_of_intercalate h.nonempty hplain h.final
  have htext : textLines (write ⟨lines, ['\n'], finalNewline⟩) = lines := hread
  have hfinal : decide ((write ⟨lines, ['\n'], finalNewline⟩).getLast? = some '\n') =
      finalNewline := by
    rw [Bool.eq_iff_iff, decide_eq_true_eq]
    exact hlast
  have hcr : '\r' ∉ write ⟨lines, ['\n'], finalNewline⟩ := fun hmem => by
    rcases List.mem_append.1 hmem with hmem | hmem
    · rcases mem_of_mem_intercalate hmem with hmem | ⟨line, hline, hmem⟩
      · simp at hmem
      · exact (h.plain line hline).2 hmem
    · cases finalNewline <;> simp at hmem
  rcases h.newline with hnewline | ⟨hnewline, hlong⟩
  · obtain rfl : newline = ['\n'] := hnewline
    rw [read, if_neg hcr, htext, hfinal]
  · obtain rfl : newline = ['\r', '\n'] := hnewline
    have hlf : '\n' ∈ write ⟨lines, ['\n'], finalNewline⟩ := by
      rcases hlong with hlong | hlong
      · obtain ⟨first, next, rest, rfl⟩ : ∃ first next rest, lines = first :: next :: rest := by
          match lines, hlong with
          | first :: next :: rest, _ => exact ⟨first, next, rest, rfl⟩
        simp [write, List.intercalate_cons_cons]
      · obtain rfl : finalNewline = true := hlong
        simp [write]
    have hmem : '\r' ∈ withCrlf (write ⟨lines, ['\n'], finalNewline⟩) := by
      rw [withCrlf, List.mem_flatMap]
      exact ⟨'\n', hlf, by simp⟩
    have hempty : ∀ c, c ∈ replaceCrlf [] (withCrlf (write ⟨lines, ['\n'], finalNewline⟩)) →
        c ≠ '\r' ∧ c ≠ '\n' := by
      intro c hc
      rw [replaceCrlf_withCrlf [] hcr, List.mem_flatMap] at hc
      obtain ⟨c', hc', hc⟩ := hc
      split at hc
      · cases hc
      · next hne =>
          obtain rfl := List.mem_singleton.1 hc
          exact ⟨fun heq => hcr (heq ▸ hc'), hne⟩
    have hback : replaceCrlf ['\n'] (withCrlf (write ⟨lines, ['\n'], finalNewline⟩)) =
        write ⟨lines, ['\n'], finalNewline⟩ := by
      have hsame : ∀ c : Char, (if c = '\n' then ['\n'] else [c]) = [c] := fun c => by
        split
        · next hc => rw [hc]
        · rfl
      rw [replaceCrlf_withCrlf _ hcr]
      simp only [hsame, List.flatMap_singleton']
    have hsuffix : ['\r', '\n'].isSuffixOf (withCrlf (write ⟨lines, ['\n'], finalNewline⟩)) =
        finalNewline := by
      rw [Bool.eq_iff_iff, isSuffixOf_withCrlf]
      exact hlast
    rw [write_withCrlf hplain, read, if_pos hmem]
    dsimp only
    rw [if_neg (by rintro (hc | hc) <;> simpa using hempty _ hc), hback, htext, hsuffix]

end SourceLines

end Mutator
end Hegira
