/-
# The files of a transaction

The names a transaction makes up, the directories its plan leads to, and what
`prepare_changes` establishes: every prepared change is the change of the plan
with its target located and its original observed (`Prepares`), and its content
lies staged next to the target.

Two things are asked of the tree.  It is a tree: no directory has two names, and
none lies below itself (`Tree.WellFormed`), so that different paths lead to
different files.  And the names of the transaction, made of the process id and
the time in nanoseconds, are not in use (`Unused`).
-/

import Mathlib.Data.List.Induction
import Hegira.Mutator.Contracts

namespace Hegira
namespace Mutator

open Program

set_option linter.unusedSectionVars false

/-! ### Names -/

/-- Different numbers are written differently. -/
theorem toString_injective {i j : Nat} (h : toString i = toString j) : i = j := by
  have hd : Nat.toDigits 10 i = Nat.toDigits 10 j := by
    simpa [toString, Nat.repr] using congrArg String.toList h
  rw [← Nat.ofDigitChars_toDigits (b := 10) (n := i) (by decide) (by decide), hd,
    Nat.ofDigitChars_toDigits (by decide) (by decide)]

/-- Strings that differ in their first characters differ. -/
theorem append_ne {p q : String} (n : Nat) (hp : n ≤ p.toList.length) (hq : n ≤ q.toList.length)
    (hne : p.toList.take n ≠ q.toList.take n) (x y : String) : p ++ x ≠ q ++ y := by
  intro h
  have h' := congrArg (fun s => s.toList.take n) h
  simp only [String.toList_append, List.take_append_of_le_length hp,
    List.take_append_of_le_length hq] at h'
  exact hne h'

theorem mutationMarker_eq : mutationMarker = ".hegira-mutation." ++ "lock" := by decide +kernel

/-- Different changes have different temporary names. -/
theorem tempName_injective {transaction : String} {i j : Nat}
    (h : tempName transaction i = tempName transaction j) : i = j :=
  toString_injective ((String.append_right_inj _).1 ((String.append_right_inj _).1 h))

/-- No temporary name is that of the marker. -/
theorem tempName_ne_marker {transaction : String} {i : Nat} :
    tempName transaction i ≠ mutationMarker :=
  mutationMarker_eq ▸
    append_ne 17 (by decide +kernel) (by decide +kernel) (by decide +kernel) _ _

/-- No probe is named like the marker. -/
theorem probeName_ne_marker {transaction : String} {i : Nat} {side : Char} :
    probeName transaction i side ≠ mutationMarker :=
  mutationMarker_eq ▸
    append_ne 14 (by decide +kernel) (by decide +kernel) (by decide +kernel) _ _

/-- No probe is named like a temporary file. -/
theorem tempName_ne_probeName {transaction : String} {i j : Nat} {side : Char} :
    tempName transaction i ≠ probeName transaction j side :=
  append_ne 14 (by decide +kernel) (by decide +kernel) (by decide +kernel) _ _

/-- The names a transaction makes up, the marker apart. -/
def Reserved (transaction name : String) : Prop :=
  (∃ i, name = tempName transaction i) ∨ ∃ i side, name = probeName transaction i side

/-- The marker has a name of its own. -/
theorem Reserved.ne_marker {transaction name : String} (h : Reserved transaction name) :
    name ≠ mutationMarker := by
  rcases h with ⟨i, rfl⟩ | ⟨i, side, rfl⟩
  · exact tempName_ne_marker
  · exact probeName_ne_marker

/-- Temporary names are among those of the transaction. -/
theorem reserved_tempName {transaction : String} {i : Nat} :
    Reserved transaction (tempName transaction i) := Or.inl ⟨i, rfl⟩

theorem reserved_probeName {transaction : String} {i : Nat} {side : Char} :
    Reserved transaction (probeName transaction i side) := Or.inr ⟨i, side, rfl⟩

variable {D : Type} [ContentDigest D] [DecidableEq D]

/-- The names of the transaction are used neither in the tree nor by the plan. -/
structure Unused (transaction : String) (plan : ChangePlan D) (tree : Tree) : Prop where
  tree : ∀ l, Reserved transaction l.name → tree l = none
  plan : ∀ c ∈ plan.changes, ¬Reserved transaction c.path.fileName

/-! ### Directories -/

/-- The directories form a tree. -/
structure Tree.WellFormed (tree : Tree) : Prop where
  unique : ∀ l l' d, tree l = some (.directory d) → tree l' = some (.directory d) → l = l'
  acyclic : ∃ rank : Identity → Nat,
    ∀ l d, tree l = some (.directory d) → rank l.directory < rank d

/-- The trees have the same directories. -/
def SameDirectories (tree tree' : Tree) : Prop :=
  ∀ l d, tree' l = some (.directory d) ↔ tree l = some (.directory d)

/-- Trees with the same directories, one after another. -/
theorem SameDirectories.trans {tree tree' tree'' : Tree} (h : SameDirectories tree tree')
    (h' : SameDirectories tree' tree'') : SameDirectories tree tree'' :=
  fun l d => (h' l d).trans (h l d)

/-- Only directories decide whether a tree is well formed. -/
theorem Tree.WellFormed.congr {tree tree' : Tree} (h : SameDirectories tree tree')
    (hw : tree.WellFormed) : tree'.WellFormed := by
  refine ⟨fun l l' d hl hl' => hw.unique l l' d ((h l d).1 hl) ((h l' d).1 hl'), ?_⟩
  obtain ⟨rank, hrank⟩ := hw.acyclic
  exact ⟨rank, fun l d hl => hrank l d ((h l d).1 hl)⟩

/-- Where a path leads only depends on the directories. -/
theorem resolve_congr {tree tree' : Tree} (h : SameDirectories tree tree') (fd : Identity)
    (path : List Component) : resolve tree' fd path = resolve tree fd path := by
  induction path generalizing fd with
  | nil => rfl
  | cons component rest ih =>
      cases component with
      | rootDir | curDir | parentDir => rfl
      | normal name =>
          rcases ht : tree ⟨fd, name⟩ with _ | (f | d | i | i)
          case some.directory => simp only [resolve, ht, (h _ _).2 ht, ih]
          all_goals
            have hd : ∀ d, tree' ⟨fd, name⟩ ≠ some (.directory d) := fun d hd => by
              simpa [ht] using (h _ _).1 hd
            simp only [resolve, ht]

/-- A path is resolved part by part. -/
theorem resolve_append {tree : Tree} {fd : Identity} {path path' : List Component} :
    resolve tree fd (path ++ path') = (resolve tree fd path).bind (resolve tree · path') := by
  induction path generalizing fd with
  | nil => rfl
  | cons component rest ih =>
      cases component with
      | rootDir | curDir | parentDir => rfl
      | normal name =>
          simp only [List.cons_append, resolve]
          split
          · exact ih
          · rfl

/-- The last directory of a path is an entry of the one before. -/
theorem resolve_concat {tree : Tree} {fd d : Identity} {path : List Component} {name : String} :
    resolve tree fd (path ++ [.normal name]) = some d ↔
      ∃ parent, resolve tree fd path = some parent ∧ tree ⟨parent, name⟩ = some (.directory d) := by
  rw [resolve_append, Option.bind_eq_some_iff]
  refine exists_congr fun parent => and_congr_right fun _ => ?_
  simp only [resolve]
  split <;> simp_all

namespace Tree.WellFormed

variable {tree : Tree}

/-- A directory below another one has a higher rank. -/
theorem rank_le {rank : Identity → Nat}
    (hr : ∀ l d, tree l = some (.directory d) → rank l.directory < rank d) {fd d : Identity}
    {names : List String} (h : resolve tree fd (names.map .normal) = some d) :
    rank fd + names.length ≤ rank d := by
  induction names generalizing fd with
  | nil => cases h; simp
  | cons name rest ih =>
      simp only [List.map_cons, resolve] at h
      split at h
      next d' hd' =>
        have h₁ := hr _ _ hd'
        have h₂ := ih h
        simp only [List.length_cons] at *
        omega
      next => cases h

/-- **Different paths lead to different directories.** -/
theorem resolve_injective (hw : tree.WellFormed) {fd d : Identity} {names names' : List String}
    (h : resolve tree fd (names.map .normal) = some d)
    (h' : resolve tree fd (names'.map .normal) = some d) : names = names' := by
  obtain ⟨rank, hr⟩ := hw.acyclic
  induction names using List.reverseRecOn generalizing names' d with
  | nil =>
      cases h
      have := rank_le hr h'
      exact (List.length_eq_zero_iff.1 (by omega)).symm
  | append_singleton names name ih =>
      rcases names'.eq_nil_or_concat with rfl | ⟨names', name', rfl⟩
      · cases h'
        have := rank_le hr h
        simp at this
      · rw [List.map_append] at h
        rw [List.concat_eq_append, List.map_append] at h'
        obtain ⟨parent, hp, hd⟩ := resolve_concat.1 h
        obtain ⟨parent', hp', hd'⟩ := resolve_concat.1 h'
        obtain ⟨rfl, rfl⟩ : parent = parent' ∧ name = name' := by
          simpa using hw.unique _ _ _ hd hd'
        rw [ih hp hp', List.concat_eq_append]

end Tree.WellFormed

/-- Where the file named by a change path is. -/
def locate (tree : Tree) (root : Identity) (path : ChangePath) : Option Location :=
  (resolve tree root (path.parent.map .normal)).map fun parent => ⟨parent, path.fileName⟩

/-- A path leads to one place as long as the directories stay. -/
theorem locate_congr {tree tree' : Tree} (h : SameDirectories tree tree') (root : Identity)
    (path : ChangePath) : locate tree' root path = locate tree root path := by
  rw [locate, locate, resolve_congr h]

/-- **Different change paths name different files.** -/
theorem Tree.WellFormed.locate_injective {tree : Tree} (hw : tree.WellFormed) {root : Identity}
    {p q : ChangePath} {l : Location} (hp : locate tree root p = some l)
    (hq : locate tree root q = some l) : p = q := by
  obtain ⟨d, hd, rfl⟩ := Option.map_eq_some_iff.1 hp
  obtain ⟨d', hd', he⟩ := Option.map_eq_some_iff.1 hq
  obtain ⟨rfl, hn⟩ : d' = d ∧ q.fileName = p.fileName := by simpa using he
  exact ChangePath.segments_injective
    (by rw [p.segments_eq, q.segments_eq, hw.resolve_injective hd hd', hn])

/-- Only the path of the marker names the marker. -/
theorem Tree.WellFormed.text_of_locate_marker {tree : Tree} (hw : tree.WellFormed)
    {root : Identity} {p : ChangePath} (h : locate tree root p = some ⟨root, mutationMarker⟩) :
    p.text = mutationMarker := by
  obtain ⟨d, hd, he⟩ := Option.map_eq_some_iff.1 h
  obtain ⟨rfl, hn⟩ : d = root ∧ p.fileName = mutationMarker := by simpa using he
  have hnil : p.parent = [] :=
    hw.resolve_injective hd (rfl : resolve tree d (List.map .normal []) = some d)
  rw [← p.intercalate_segments, p.segments_eq, hnil, hn]
  decide +kernel

/-! ### Prepared changes -/

/-- What the original of a prepared change says about the tree. -/
def Observes (tree : Tree) (l : Location) (c : PlannedFileChange D)
    (original : Option (ObservedFile D)) : Prop :=
  match c.precondition with
  | .absent => original = none ∧ tree l = none
  | .matchesDigest digest => ∃ f, tree l = some (.file f) ∧ original = some (observe f) ∧
      ContentDigest.calculate f.bytes = digest

/-- `p` is the change `c` of the plan, prepared in `tree`. -/
structure Prepares (tree : Tree) (root : Identity) (transaction : String) (index : Nat)
    (c : PlannedFileChange D) (p : PreparedChange D) : Prop where
  path : p.path = c.path
  target : locate tree root c.path = some p.target
  tempName : p.tempName = tempName transaction index
  operation : p.operation = c.operation
  expected : p.expected = c.precondition
  resultDigest : p.resultDigest = c.resultDigest
  original : Observes tree p.target c p.original
  resultMode : p.resultMode = c.resultingContent.map fun _ =>
    p.original.elim createdMode fun observed => observed.mode &&& 0o777

variable {slash : Identity} {actor : Actor}
  {ev : Event PublisherCall PublisherCall.Reply Tree → Prop} {tree : Tree}

/-- A change is accepted only over what it expects, which is kept as the original. -/
theorem meets_verifyInitialPrecondition (hev : Passive ev) {l : Location}
    {c : PlannedFileChange D} :
    Meets (environment slash actor) ev (Saw tree fun original => Observes tree l c original)
      (verifyInitialPrecondition l c).run tree := by
  unfold verifyInitialPrecondition Observes
  rcases c.precondition with _ | expected
  · exact meets_saw_bind (meets_ensureAbsent hev) (by simp) fun _ h => saw_ok.2 ⟨rfl, rfl, h⟩
  · refine meets_saw_bind (meets_readRegularFile hev) (by simp) ?_
    rintro o ⟨f, hf, rfl⟩
    dsimp only
    split
    · exact saw_error.2 rfl
    next hd => exact saw_ok.2 ⟨rfl, f, hf, rfl, not_not.1 hd⟩

/-- The content of a change lies at its temporary file. -/
def PreparedChange.stage (p : PreparedChange D) (c : PlannedFileChange D) (tree : Tree) : Tree :=
  match c.resultingContent with
  | some content => Function.update tree p.temp (some (privateFile p.stagedIdentity content))
  | none => tree

/-- A staged file has the planned bytes and the mode of the original. -/
theorem meets_stageChange {l : Location} {c : PlannedFileChange D}
    {original : Option (ObservedFile D)} :
    Meets (environment slash actor) (fun _ => True)
      (DidOrStuck tree fun staged tree' =>
        staged.2 = c.resultingContent.map (fun _ =>
          original.elim createdMode fun observed => observed.mode &&& 0o777) ∧
        tree' = match c.resultingContent with
          | some content => Function.update tree l (some (privateFile staged.1 content))
          | none => tree)
      (stageChange l c original).run tree := by
  unfold stageChange
  rcases c.resultingContent with _ | content
  · exact ⟨rfl, rfl⟩
  · refine meets_fallible_bind.2 (meets_stageFile.imp ?_)
    rintro (e | identity) tree' h
    · exact h
    · exact ⟨rfl, h.2⟩

/-- No parent of a change is called `.`. -/
theorem normal_dot_not_mem (p : ChangePath) :
    (.normal "." : Component) ∉ (components p.text).dropLast :=
  fun h => normal_mem_components (List.dropLast_subset _ h) rfl

/-- The directories of a change are those of its parent. -/
theorem components_dropLast (p : ChangePath) :
    (components p.text).dropLast = p.parent.map .normal := by
  rw [p.components_eq, ChangePath.parent, List.map_dropLast]

/-- A prepared change knows its places, and its file is staged. -/
theorem meets_prepareChange {root : Root} {transaction : String} {index : Nat}
    {c : PlannedFileChange D} :
    Meets (environment slash actor) (fun _ => True)
      (DidOrStuck tree fun p tree' =>
        (Prepares tree root.fd transaction index c p ∧ p.published = false) ∧
          tree' = p.stage c tree)
      (prepareChange root transaction index c).run tree := by
  refine meets_saw_bind (meets_descend passive_true (normal_dot_not_mem _))
    (fun _ => Or.inr rfl) fun parent hparent => ?_
  refine meets_saw_bind (meets_verifyInitialPrecondition passive_true)
    (fun _ => Or.inr rfl) fun original horiginal => ?_
  refine meets_fallible_bind.2 (meets_stageChange.imp ?_)
  rintro (e | ⟨identity, mode⟩) tree' h
  · exact h
  obtain ⟨rfl, rfl⟩ := h
  rw [components_dropLast] at hparent
  exact ⟨⟨⟨rfl, by simp [locate, hparent, PreparedChange.target], rfl, rfl, rfl, rfl, horiginal,
    rfl⟩, rfl⟩, rfl⟩

end Mutator
end Hegira
