/-
# Template variables: `substitute_variables`

`tools/template_renderer/src/render.rs`.

The scanner cuts the text at the next `{{` and, after it, at the next `}}`.  What is in
between is the name of a variable, unless the braces follow a `$` in a GitHub workflow,
where they are an expression that stays as it is.

`Segment` says what a template is made of.  The scanner accepts exactly the texts that
are made of segments where the text before a variable does not run into its braces
(`Separated`), and replaces each variable by its value (`substitutes_exactly`).  Values
are output, never scanned.
-/

import Mathlib.Data.List.Chain
import Hegira.Library.FirstMatch
import Hegira.Library.LossyText
import Hegira.Mutator.Editor
import Hegira.Template.Manifest

namespace Hegira
namespace Template

open Std (TreeMap)
open FirstMatch
open Mutator (Bytes fromUtf8 fromUtf8_intoBytes intoBytes)

/-! ### The scanner -/

/-- `path.display()`, in the canonical spelling. -/
def PathBuf.display (path : PathBuf) : String :=
  if path.components = [.rootDir] then "/"
  else "/".intercalate (path.components.map fun
    | .rootDir => ""
    | .curDir => "."
    | .parentDir => ".."
    | .normal name => LossyText.lossy name)

/-- `{{`; the braces are spelled out, as a text may not hold them here. -/
def opening : List Char := ['{', '{']

/-- `}}`. -/
def closing : List Char := ['}', '}']

/-- A marker is not empty. -/
theorem opening_ne_nil : opening ≠ [] := List.cons_ne_nil _ _

theorem closing_ne_nil : closing ≠ [] := List.cons_ne_nil _ _

/-- GitHub evaluates the expressions of this file. -/
def isGithubYaml (path : PathBuf) : Bool :=
  (path.startsWith (.ofString ".github/workflows") ||
      path.startsWith (.ofString ".github/actions")) &&
    (path.extension = some (intoBytes "yml") || path.extension = some (intoBytes "yaml"))

def unmatchedToken (path : PathBuf) : Fault :=
  rendererError s!"unmatched template token in {path.display}"

/-- The value of a variable. -/
def variableValue (path : PathBuf) (values : TreeMap String String) (name : String) :
    Except Fault String := do
  validateIdentifier name "template variable"
  match values[name]? with
  | none => throw (rendererError s!"missing template variable {name} required by {path.display}")
  | some value => return value

/-- The loop of `substitute_variables`. -/
def substituteLoop (path : PathBuf) (values : TreeMap String String)
    (remaining output : List Char) : Except Fault (List Char) :=
  match _h : cut opening remaining with
  | none =>
      if contains closing remaining then throw (unmatchedToken path)
      else return output ++ remaining
  | some (before, token) =>
      if contains closing before then throw (unmatchedToken path)
      else
        match _h' : cut closing token with
        | none => throw (unmatchedToken path)
        | some (name, rest) =>
            if before.getLast? = some '$' ∧ isGithubYaml path = true then
              substituteLoop path values rest (output ++ before ++ opening ++ name ++ closing)
            else do
              let value ← variableValue path values (String.ofList name)
              substituteLoop path values rest (output ++ before ++ value.toList)
termination_by remaining.length
decreasing_by
  all_goals
    exact (length_after_lt closing_ne_nil _h').trans (length_after_lt opening_ne_nil _h)

/-- `substitute_variables`. -/
def substituteVariables (path : PathBuf) (bytes : Bytes) (values : TreeMap String String) :
    Except Fault Bytes :=
  match fromUtf8 bytes with
  | none => .ok bytes
  | some source =>
      if !contains opening source.toList && !contains closing source.toList then
        .ok (intoBytes source)
      else
        (substituteLoop path values source.toList []).map fun output =>
          intoBytes (String.ofList output)

/-! ### The grammar -/

/-- What a template is made of. -/
inductive Segment where
  | plain (text : List Char)
  | reference (name : String)
  | expression (content : List Char)

namespace Segment

/-- The text of a segment. -/
def text : Segment → List Char
  | plain text => text
  | reference name => opening ++ name.toList ++ closing
  | expression content => ['$'] ++ opening ++ content ++ closing

/-- What becomes of a segment. -/
def render (values : TreeMap String String) : Segment → List Char
  | plain text => text
  | reference name => (values[name]?.getD "").toList
  | expression content => ['$'] ++ opening ++ content ++ closing

/-- The segment may stand in the file: plain text has no braces, a variable has a value,
and the first closing braces end an expression. -/
def Valid (path : PathBuf) (values : TreeMap String String) : Segment → Prop
  | plain text => ¬opening <:+: text ∧ ¬closing <:+: text
  | reference name => isIdentifier name = true ∧ name ∈ values
  | expression content => isGithubYaml path = true ∧ ¬closing <:+: content ++ ['}']

/-- The text before a variable does not run into its braces, and plain text is all the
text between two tokens. -/
def Separate (path : PathBuf) : Segment → Segment → Prop
  | plain _, plain _ => False
  | plain text, reference _ =>
      text.getLast? ≠ some '{' ∧ (isGithubYaml path = true → text.getLast? ≠ some '$')
  | _, _ => True

end Segment

/-- The text is made of the segments. -/
structure MadeOf (path : PathBuf) (values : TreeMap String String) (segments : List Segment)
    (source : List Char) : Prop where
  text : source = segments.flatMap Segment.text
  valid : ∀ s ∈ segments, s.Valid path values
  separate : segments.IsChain (Segment.Separate path)

/-! ### What the scanner does with a segment -/

section Scan

variable {path : PathBuf} {values : TreeMap String String}

/-- Where two characters may stand after one more. -/
theorem infix_concat {c d : Char} {s : List Char} :
    [c, c] <:+: s ++ [d] ↔ [c, c] <:+: s ∨ s.getLast? = some c ∧ d = c := by
  rw [List.infix_concat_iff, or_comm]
  refine or_congr_right ?_
  constructor
  · rintro ⟨t, ht⟩
    have h : t ++ [c] ++ [c] = s ++ [d] := by simpa using ht
    obtain ⟨rfl, hd⟩ := List.append_inj' h rfl
    exact ⟨by simp, by simpa using hd.symm⟩
  · rintro ⟨hs, rfl⟩
    obtain ⟨t, rfl⟩ := List.getLast?_eq_some_iff.1 hs
    exact ⟨t, by simp⟩

/-- A variable has a value when its name is an identifier of the map. -/
theorem variableValue_eq_ok {name value : String} :
    variableValue path values name = .ok value ↔
      isIdentifier name = true ∧ values[name]? = some value := by
  have hname : validateIdentifier name "template variable" = .ok () ↔ isIdentifier name = true := by
    rw [validateIdentifier, rejectIf_eq_ok]
    simp
  unfold variableValue
  rw [Validation.bind_eq_ok]
  constructor
  · rintro ⟨_, hid, hvalue⟩
    refine ⟨hname.1 hid, ?_⟩
    cases hv : values[name]? with
    | none =>
        rw [hv] at hvalue
        cases hvalue
    | some v =>
        rw [hv] at hvalue
        rw [Except.ok.inj hvalue]
  · rintro ⟨hid, hvalue⟩
    refine ⟨(), hname.2 hid, ?_⟩
    rw [hvalue]
    rfl

/-- The names of variables hold no braces. -/
theorem braces_notMem {name : String} (h : isIdentifier name = true) :
    '{' ∉ name.toList ∧ '}' ∉ name.toList := by
  unfold isIdentifier at h
  simp only [Bool.and_eq_true, List.all_eq_true] at h
  have hall : ∀ c ∈ name.toList, ∃ i, (c, i) ∈ name.toList.zipIdx := by
    intro c hc
    obtain ⟨i, hi, rfl⟩ := List.getElem_of_mem hc
    exact ⟨i, List.mk_mem_zipIdx_iff_getElem?.2 (List.getElem?_eq_getElem hi)⟩
  constructor
  · intro hc
    obtain ⟨i, hi⟩ := hall _ hc
    have := h.1.2 _ hi
    simp at this
  · intro hc
    obtain ⟨i, hi⟩ := hall _ hc
    have := h.1.2 _ hi
    simp at this

/-- Plain text is output. -/
theorem substituteLoop_plain {text output : List Char} (hopen : ¬opening <:+: text)
    (hclose : ¬closing <:+: text) :
    substituteLoop path values text output = .ok (output ++ text) := by
  have hnone : cut opening text = none := (cut_eq_none opening_ne_nil).2 hopen
  have hcontains : ¬contains closing text = true := by rwa [contains_iff closing_ne_nil]
  rw [substituteLoop]
  split
  · rw [if_neg hcontains]
    rfl
  · next h => rw [hnone] at h; cases h

/-- A text is cut at its first opening marker. -/
theorem cut_opening {before after s : List Char} : cut opening s = some (before, after) ↔
    s = before ++ opening ++ after ∧ ¬opening <:+: before ++ ['{'] :=
  cut_eq_some opening_ne_nil

theorem cut_closing {before after s : List Char} : cut closing s = some (before, after) ↔
    s = before ++ closing ++ after ∧ ¬closing <:+: before ++ ['}'] :=
  cut_eq_some closing_ne_nil

/-- One turn of the loop. -/
theorem substituteLoop_token {before name rest output : List Char}
    (hfirst : ¬opening <:+: before ++ ['{']) (hplain : ¬closing <:+: before)
    (hname : ¬closing <:+: name ++ ['}']) :
    substituteLoop path values (before ++ opening ++ (name ++ closing ++ rest)) output =
      if before.getLast? = some '$' ∧ isGithubYaml path = true then
        substituteLoop path values rest (output ++ before ++ opening ++ name ++ closing)
      else variableValue path values (String.ofList name) >>= fun value =>
        substituteLoop path values rest (output ++ before ++ value.toList) := by
  have hopen : cut opening (before ++ opening ++ (name ++ closing ++ rest)) =
      some (before, name ++ closing ++ rest) := cut_opening.2 ⟨rfl, hfirst⟩
  have hclose : cut closing (name ++ closing ++ rest) = some (name, rest) :=
    cut_closing.2 ⟨rfl, hname⟩
  have hcontains : ¬contains closing before = true := by rwa [contains_iff closing_ne_nil]
  rw [substituteLoop]
  split
  · next h => rw [hopen] at h; cases h
  · next b token h =>
      obtain ⟨rfl, rfl⟩ := Prod.mk.inj (Option.some.inj (hopen.symm.trans h))
      rw [if_neg hcontains]
      split
      · next h => rw [hclose] at h; cases h
      · next n r h =>
          obtain ⟨rfl, rfl⟩ := Prod.mk.inj (Option.some.inj (hclose.symm.trans h))
          rfl

/-- A variable, after plain text that does not run into its braces. -/
theorem substituteLoop_variable {text rest output : List Char} {name value : String}
    (htext : (Segment.plain text).Valid path values)
    (hsep : Segment.Separate path (.plain text) (.reference name))
    (hname : isIdentifier name = true) (hvalue : values[name]? = some value) :
    substituteLoop path values (text ++ (Segment.reference name).text ++ rest) output =
      substituteLoop path values rest (output ++ text ++ value.toList) := by
  have hfirst : ¬opening <:+: text ++ ['{'] := by
    rintro h
    rcases infix_concat.1 h with h | ⟨h, -⟩
    · exact htext.1 h
    · exact hsep.1 h
  have hclose : ¬closing <:+: name.toList ++ ['}'] := by
    rintro h
    have hnot := (braces_notMem hname).2
    rcases infix_concat.1 h with h | ⟨h, -⟩
    · exact hnot (h.subset (List.mem_cons_self ..))
    · exact hnot (List.mem_of_getLast? h)
  have hgithub : ¬(text.getLast? = some '$' ∧ isGithubYaml path = true) := fun h => hsep.2 h.2 h.1
  have htoken : text ++ (Segment.reference name).text ++ rest =
      text ++ opening ++ (name.toList ++ closing ++ rest) := by
    simp only [Segment.text, List.append_assoc]
  rw [htoken, substituteLoop_token hfirst htext.2 hclose, if_neg hgithub, String.ofList_toList,
    variableValue_eq_ok.2 ⟨hname, hvalue⟩]
  rfl

/-- An expression, after plain text. -/
theorem substituteLoop_expression {text content rest output : List Char}
    (htext : (Segment.plain text).Valid path values)
    (hcontent : (Segment.expression content).Valid path values) :
    substituteLoop path values (text ++ (Segment.expression content).text ++ rest) output =
      substituteLoop path values rest (output ++ text ++ (Segment.expression content).text) := by
  have hfirst : ¬opening <:+: (text ++ ['$']) ++ ['{'] := by
    rintro h
    rcases infix_concat.1 h with h | ⟨h, -⟩
    · rcases infix_concat.1 h with h | ⟨-, h⟩
      · exact htext.1 h
      · cases h
    · simp at h
  have hplain : ¬closing <:+: text ++ ['$'] := by
    rintro h
    rcases infix_concat.1 h with h | ⟨-, h⟩
    · exact htext.2 h
    · cases h
  have hgithub : (text ++ ['$']).getLast? = some '$' ∧ isGithubYaml path = true :=
    ⟨by simp, hcontent.1⟩
  have htoken : text ++ (Segment.expression content).text ++ rest =
      text ++ ['$'] ++ opening ++ (content ++ closing ++ rest) := by
    simp only [Segment.text, List.append_assoc]
  rw [htoken, substituteLoop_token hfirst hplain hcontent.2, if_pos hgithub]
  simp only [Segment.text, List.append_assoc]

/-- The empty text has no marker. -/
theorem not_infix_nil (c : Char) : ¬[c, c] <:+: []  := by
  intro h
  have := h.length_le
  simp at this

/-- The empty segment is valid. -/
theorem valid_empty : (Segment.plain []).Valid path values := ⟨not_infix_nil _, not_infix_nil _⟩

/-- And stands apart from a reference. -/
theorem separate_empty (name : String) :
    Segment.Separate path (.plain []) (.reference name) := ⟨nofun, fun _ => nofun⟩

/-- A reference is rendered as its value. -/
theorem render_reference {name value : String} (h : values[name]? = some value) :
    (Segment.reference name).render values = value.toList := by
  rw [Segment.render, h, Option.getD_some]

/-- **The scanner goes through the segments**, a token and the plain text before it at a
time. -/
theorem substituteLoop_segments : ∀ (segments : List Segment) (output : List Char),
    (∀ s ∈ segments, s.Valid path values) → segments.IsChain (Segment.Separate path) →
      substituteLoop path values (segments.flatMap Segment.text) output =
        .ok (output ++ segments.flatMap (Segment.render values))
  | [], _, _, _ => substituteLoop_plain (not_infix_nil _) (not_infix_nil _)
  | [.plain text], output, hvalid, _ => by
      obtain ⟨hopen, hclose⟩ := hvalid _ (List.mem_singleton_self _)
      rw [List.flatMap_singleton, List.flatMap_singleton]
      exact substituteLoop_plain hopen hclose
  | .plain _ :: .plain _ :: _, _, _, hchain => (List.isChain_cons_cons.1 hchain).1.elim
  | .plain text :: .reference name :: rest, output, hvalid, hchain => by
      obtain ⟨htext, hrest⟩ := List.forall_mem_cons.1 hvalid
      obtain ⟨⟨hname, hmem⟩, hrest⟩ := List.forall_mem_cons.1 hrest
      obtain ⟨hsep, hchain⟩ := List.isChain_cons_cons.1 hchain
      obtain ⟨value, hvalue⟩ := Option.isSome_iff_exists.1 (TreeMap.mem_iff_isSome_getElem?.1 hmem)
      have hrest := substituteLoop_segments rest (output ++ text ++ value.toList) hrest hchain.tail
      simp only [List.flatMap_cons, render_reference hvalue, ← List.append_assoc] at hrest ⊢
      exact (substituteLoop_variable htext hsep hname hvalue).trans hrest
  | .plain text :: .expression content :: rest, output, hvalid, hchain => by
      obtain ⟨htext, hrest⟩ := List.forall_mem_cons.1 hvalid
      obtain ⟨hcontent, hrest⟩ := List.forall_mem_cons.1 hrest
      have hrest := substituteLoop_segments rest
        (output ++ text ++ (Segment.expression content).text) hrest
        (List.isChain_cons_cons.1 hchain).2.tail
      simp only [List.flatMap_cons, ← List.append_assoc] at hrest ⊢
      exact (substituteLoop_expression htext hcontent).trans hrest
  | .reference name :: rest, output, hvalid, hchain => by
      obtain ⟨⟨hname, hmem⟩, hrest⟩ := List.forall_mem_cons.1 hvalid
      obtain ⟨value, hvalue⟩ := Option.isSome_iff_exists.1 (TreeMap.mem_iff_isSome_getElem?.1 hmem)
      have hrest := substituteLoop_segments rest (output ++ value.toList) hrest hchain.tail
      have hturn : substituteLoop path values
          ([] ++ (Segment.reference name).text ++ rest.flatMap Segment.text) output =
            substituteLoop path values (rest.flatMap Segment.text) (output ++ [] ++ value.toList) :=
        substituteLoop_variable valid_empty (separate_empty name) hname hvalue
      rw [List.nil_append, List.append_nil] at hturn
      simp only [List.flatMap_cons, render_reference hvalue, ← List.append_assoc] at hrest ⊢
      exact hturn.trans hrest
  | .expression content :: rest, output, hvalid, hchain => by
      obtain ⟨hcontent, hrest⟩ := List.forall_mem_cons.1 hvalid
      have hrest := substituteLoop_segments rest (output ++ (Segment.expression content).text) hrest
        hchain.tail
      have hturn : substituteLoop path values
          ([] ++ (Segment.expression content).text ++ rest.flatMap Segment.text) output =
            substituteLoop path values (rest.flatMap Segment.text)
              (output ++ [] ++ (Segment.expression content).text) :=
        substituteLoop_expression valid_empty hcontent
      rw [List.nil_append, List.append_nil] at hturn
      simp only [List.flatMap_cons, ← List.append_assoc] at hrest ⊢
      exact hturn.trans hrest

/-- A token with the plain text before it, in front of a text that is made of segments. -/
theorem MadeOf.cons {text rest : List Char} {token : Segment} {segments : List Segment}
    (h : MadeOf path values segments rest) (htext : (Segment.plain text).Valid path values)
    (htoken : token.Valid path values) (hsep : Segment.Separate path (.plain text) token)
    (hnext : ∀ s, Segment.Separate path token s) :
    MadeOf path values (.plain text :: token :: segments) (text ++ token.text ++ rest) where
  text := by
    rw [h.text, List.flatMap_cons, List.flatMap_cons, List.append_assoc]
    rfl
  valid := List.forall_mem_cons.2 ⟨htext, List.forall_mem_cons.2 ⟨htoken, h.valid⟩⟩
  separate := by
    refine .cons_cons hsep ?_
    cases segments with
    | nil => exact .singleton _
    | cons s segments => exact .cons_cons (hnext s) h.separate

/-- What comes before the first opening braces. -/
theorem valid_before {before : List Char} (hfirst : ¬opening <:+: before ++ ['{'])
    (hplain : ¬contains closing before = true) : (Segment.plain before).Valid path values := by
  rw [contains_iff closing_ne_nil] at hplain
  exact ⟨fun h => hfirst (infix_concat.2 (.inl h)), hplain⟩

/-- **What the scanner accepts is made of segments.** -/
theorem exists_segments {remaining output result : List Char}
    (h : substituteLoop path values remaining output = .ok result) :
    ∃ segments, MadeOf path values segments remaining ∧
      result = output ++ segments.flatMap (Segment.render values) := by
  fun_induction substituteLoop path values remaining output generalizing result with
  | case1 => cases h
  | case2 remaining output hcut hclose =>
      obtain rfl := Except.ok.inj h
      rw [contains_iff closing_ne_nil] at hclose
      refine ⟨[.plain remaining], ⟨?_, ?_, .singleton _⟩, ?_⟩
      · rw [List.flatMap_singleton]
        rfl
      · rintro s hs
        rw [List.mem_singleton.1 hs]
        exact ⟨(cut_eq_none opening_ne_nil).1 hcut, hclose⟩
      · rw [List.flatMap_singleton]
        rfl
  | case3 => cases h
  | case4 => cases h
  | case5 remaining output before token hcut hplain name rest hcut' hgithub ih =>
      obtain ⟨segments, hmade, rfl⟩ := ih h
      obtain ⟨rfl, hfirst⟩ := cut_opening.1 hcut
      obtain ⟨rfl, hname⟩ := cut_closing.1 hcut'
      obtain ⟨text, rfl⟩ := List.getLast?_eq_some_iff.1 hgithub.1
      -- the dollar belongs to the expression
      have hbefore : (Segment.plain (text ++ ['$'])).Valid path values := valid_before hfirst hplain
      have htext : (Segment.plain text).Valid path values :=
        ⟨fun h => hbefore.1 (infix_concat.2 (.inl h)), fun h => hbefore.2 (infix_concat.2 (.inl h))⟩
      have hexpr : (Segment.expression name).Valid path values := ⟨hgithub.2, hname⟩
      refine ⟨.plain text :: .expression name :: segments, ?_, ?_⟩
      · have := hmade.cons htext hexpr trivial fun _ => trivial
        simpa only [Segment.text, List.append_assoc] using this
      · simp only [List.flatMap_cons, Segment.render, List.append_assoc]
  | case6 remaining output before token hcut hplain name rest hcut' hgithub ih =>
      obtain ⟨value, hvalue, h⟩ := Validation.bind_eq_ok.1 h
      obtain ⟨segments, hmade, rfl⟩ := ih value h
      obtain ⟨hid, hvalue⟩ := variableValue_eq_ok.1 hvalue
      obtain ⟨rfl, hfirst⟩ := cut_opening.1 hcut
      obtain ⟨rfl, hname⟩ := cut_closing.1 hcut'
      have htext : (Segment.plain before).Valid path values := valid_before hfirst hplain
      have hmem : String.ofList name ∈ values := by
        rw [TreeMap.mem_iff_isSome_getElem?, hvalue]
        rfl
      have href : (Segment.reference (String.ofList name)).Valid path values := ⟨hid, hmem⟩
      have hsep : Segment.Separate path (.plain before) (.reference (String.ofList name)) :=
        ⟨fun h => hfirst (infix_concat.2 (.inr ⟨h, rfl⟩)), fun hg hd => hgithub ⟨hd, hg⟩⟩
      refine ⟨.plain before :: .reference (String.ofList name) :: segments, ?_, ?_⟩
      · have := hmade.cons htext href hsep fun _ => trivial
        simpa only [Segment.text, String.toList_ofList, List.append_assoc] using this
      · simp only [List.flatMap_cons, Segment.render, hvalue, Option.getD_some, List.append_assoc]

end Scan

/-! ### The whole file -/

section File

variable {path : PathBuf} {values : TreeMap String String}

/-- A text without braces needs no scan. -/
theorem substituteVariables_text {bytes : Bytes} {source : String} (h : fromUtf8 bytes = some source)
    (path : PathBuf) (values : TreeMap String String) :
    substituteVariables path bytes values =
      (substituteLoop path values source.toList []).map fun output =>
        intoBytes (String.ofList output) := by
  unfold substituteVariables
  rw [h]
  dsimp only
  split
  · next hplain =>
      rw [Bool.and_eq_true, Bool.not_eq_true', Bool.not_eq_true', ← Bool.not_eq_true,
        ← Bool.not_eq_true, contains_iff opening_ne_nil, contains_iff closing_ne_nil] at hplain
      rw [substituteLoop_plain hplain.1 hplain.2]
      simp [Except.map]
  · rfl

end File

/-- **Substitution is exact.**  Bytes that are no text are copied.  A text is accepted
exactly when it is made of segments, and the result is the same segments with each
variable replaced by its value. -/
theorem substitutes_exactly (path : PathBuf) (bytes : Bytes) (values : TreeMap String String) :
    (fromUtf8 bytes = none → substituteVariables path bytes values = .ok bytes) ∧
      ∀ source, fromUtf8 bytes = some source → ∀ result,
        substituteVariables path bytes values = .ok result ↔
          ∃ segments, MadeOf path values segments source.toList ∧
            result = intoBytes (String.ofList (segments.flatMap (Segment.render values))) := by
  refine ⟨fun h => by rw [substituteVariables, h], fun source h result => ?_⟩
  rw [substituteVariables_text h, Validation.map_eq_ok]
  constructor
  · rintro ⟨output, hloop, rfl⟩
    obtain ⟨segments, hmade, rfl⟩ := exists_segments hloop
    exact ⟨segments, hmade, rfl⟩
  · rintro ⟨segments, hmade, rfl⟩
    refine ⟨_, ?_, rfl⟩
    rw [hmade.text, substituteLoop_segments segments [] hmade.valid hmade.separate]
    rfl

/-- An opening brace before a variable: plain text and a declared variable, but the
scanner takes the first two of the three braces for the opening. -/
theorem three_braces_rejected :
    let values : TreeMap String String := (∅ : TreeMap String String).insert "a" "x"
    let path : PathBuf := .ofString "src/config.rs"
    let segments : List Segment := [.plain ['{'], .reference "a"]
    (∀ s ∈ segments, s.Valid path values) ∧
      ∀ result, substituteVariables path
        (intoBytes (String.ofList (segments.flatMap Segment.text))) values ≠ .ok result := by
  intro values path segments
  refine ⟨?_, fun result h => ?_⟩
  · intro s hs
    rcases List.mem_cons.1 hs with rfl | hs
    · exact ⟨by decide, by decide⟩
    · rw [List.mem_singleton.1 hs]
      exact ⟨by decide, by simp [values]⟩
  · rw [substituteVariables_text (fromUtf8_intoBytes _), Validation.map_eq_ok,
      String.toList_ofList] at h
    obtain ⟨output, hloop, -⟩ := h
    change substituteLoop path values ([] ++ opening ++ (['{', 'a'] ++ closing ++ [])) [] = _ at hloop
    rw [substituteLoop_token (by decide) (by decide) (by decide),
      if_neg (fun h => nomatch h.1), Validation.bind_eq_ok] at hloop
    obtain ⟨value, hvalue, -⟩ := hloop
    exact absurd (variableValue_eq_ok.1 hvalue).1 (by decide)

end Template
end Hegira
