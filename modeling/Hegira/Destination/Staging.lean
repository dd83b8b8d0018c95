/-
# The staging directory and what is around it

A `Shape` says what the staging directory holds, by relative path: a directory, a file or
nothing.  `Shaped` relates it to the tree, where the directories of the shape are told
apart by their identities, and `Staged` adds that every other place of the tree is as
others left it.  What a single entry of a directory of the shape becomes is an update of
the shape at one path (`Staged.put`, `Staged.makeDirectory`, `Staged.removeDirectory`);
what others do at a hook leaves the shape as it was (`Staged.hook`).

`Recorded` relates a shape to the record of the publisher.
-/

import Hegira.Destination.Publish

namespace Hegira
namespace Destination

open Mutator (Bytes Identity)

/-- What a directory holds, itself included, by relative path. -/
abbrev Shape := RelativePath → Option Node

/-- The location `staging` of the tree holds this. -/
structure Shaped (staging : Location) (shape : Shape) (tree : Tree) : Prop where
  root : tree staging = shape []
  entries : ∀ q i n, shape q = some (.directory i) → tree ⟨i, n⟩ = shape (q ++ [n])
  closed : ∀ q n, shape (q ++ [n]) ≠ none → ∃ i, shape q = some (.directory i)
  injective : ∀ q q' i, shape q = some (.directory i) → shape q' = some (.directory i) → q = q'
  apart : ∀ q, shape q ≠ some (.directory staging.directory)

/-- The location `staging` of the tree holds this, and the rest is as it was left. -/
structure Staged (left : Tree) (staging : Location) (shape : Shape) (tree : Tree) : Prop
    extends Shaped staging shape tree where
  elsewhere : ∀ l, l ≠ staging → (∀ q, shape q ≠ some (.directory l.directory)) →
    tree l = left l
  free : left staging = none
  freeEntries : ∀ q i n, shape q = some (.directory i) → left ⟨i, n⟩ = none

variable {slash : Identity} {left tree : Tree} {staging : Location} {shape : Shape}

namespace Shaped

/-- Below something that is no directory there is nothing. -/
theorem eq_none_below (h : Shaped staging shape tree) {q : RelativePath}
    (hq : ∀ i, shape q ≠ some (.directory i)) (n : Name) (rest : RelativePath) :
    shape (q ++ n :: rest) = none := by
  induction rest using List.reverseRecOn with
  | nil =>
      by_contra hne
      obtain ⟨i, hi⟩ := h.closed q n hne
      exact hq i hi
  | append_singleton rest m ih =>
      by_contra hne
      obtain ⟨i, hi⟩ := h.closed (q ++ n :: rest) m (by simpa using hne)
      rw [ih] at hi
      cases hi

/-- The directories below the staging directory are those of the shape. -/
theorem reachable_iff (h : Shaped staging shape tree) {root d : Identity}
    (hroot : shape [] = some (.directory root)) :
    Reachable tree root d ↔ ∃ q, shape q = some (.directory d) := by
  constructor
  · intro hd
    induction hd with
    | refl => exact ⟨[], hroot⟩
    | step _ hchild ih =>
        obtain ⟨q, hq⟩ := ih
        exact ⟨q ++ [_], by rw [← h.entries q _ _ hq, hchild]⟩
  · rintro ⟨q, hq⟩
    induction q using List.reverseRecOn generalizing d with
    | nil =>
        rw [hroot] at hq
        cases hq
        exact .refl
    | append_singleton q n ih =>
        obtain ⟨i, hi⟩ := h.closed q n (by rw [hq]; simp)
        exact .step (ih hi) (by rw [h.entries q i n hi, hq])

theorem inStaging_iff (h : Shaped staging shape tree) {root : Identity}
    (hroot : shape [] = some (.directory root)) {l : Location} :
    InStaging staging tree l ↔ l = staging ∨ ∃ q, shape q = some (.directory l.directory) := by
  refine or_congr_right ⟨?_, fun hq => ⟨root, by rw [h.root, hroot], (h.reachable_iff hroot).2 hq⟩⟩
  rintro ⟨i, hi, hd⟩
  rw [h.root, hroot] at hi
  cases hi
  exact (h.reachable_iff hroot).1 hd

end Shaped

namespace Staged

theorem inStaging_of_entry (h : Staged left staging shape tree) {root : Identity}
    (hroot : shape [] = some (.directory root)) {q : RelativePath} {i : Identity}
    (hq : shape q = some (.directory i)) (n : Name) : InStaging staging tree ⟨i, n⟩ :=
  (h.inStaging_iff hroot).2 (.inr ⟨q, hq⟩)

/-- An entry of a directory is not the staging directory itself. -/
theorem entry_ne (h : Staged left staging shape tree) {q : RelativePath} {i : Identity}
    (hq : shape q = some (.directory i)) (n : Name) : (⟨i, n⟩ : Location) ≠ staging := by
  rintro rfl
  exact h.apart q hq

/-- What others do at a hook leaves the shape as it is. -/
theorem hook (h : Staged left staging shape tree) {tree' left' : Tree} {root : Identity}
    (hroot : shape [] = some (.directory root))
    (huntouched : ∀ l, InStaging staging tree l → tree' l = tree l)
    (hleft : Without staging tree' left') : Staged left' staging shape tree' := by
  have hin : ∀ {l}, (l = staging ∨ ∃ q, shape q = some (.directory l.directory)) →
      tree' l = tree l := fun hl => huntouched _ ((h.inStaging_iff hroot).2 hl)
  have hshaped : Shaped staging shape tree' :=
    { h.toShaped with
      root := by rw [hin (.inl rfl), h.root]
      entries := fun q i n hq => by rw [hin (.inr ⟨q, hq⟩), h.entries q i n hq] }
  refine { hshaped with elsewhere := ?_, free := ?_, freeEntries := ?_ }
  · intro l hl hown
    refine (hleft.outside l fun hin => ?_).symm
    rcases (hshaped.inStaging_iff hroot).1 hin with rfl | ⟨q, hq⟩
    · exact hl rfl
    · exact hown q hq
  · exact hleft.inside _ (.inl rfl)
  · exact fun q i n hq => hleft.inside _ ((hshaped.inStaging_iff hroot).2 (.inr ⟨q, hq⟩))

/-- Another entry of the tree, or another path of the shape, is as before. -/
theorem entries_put (h : Staged left staging shape tree) {q : RelativePath} {i : Identity}
    (hq : shape q = some (.directory i)) (n : Name) (v : Option Node) {q' : RelativePath}
    {i' : Identity} (hq' : shape q' = some (.directory i')) (n' : Name) :
    Function.update tree ⟨i, n⟩ v ⟨i', n'⟩ = Function.update shape (q ++ [n]) v (q' ++ [n']) := by
  by_cases heq : q' ++ [n'] = q ++ [n]
  · obtain ⟨rfl, hn⟩ := List.append_inj' heq rfl
    cases hn
    rw [hq] at hq'
    cases hq'
    rw [Function.update_self, Function.update_self]
  · have hne : (⟨i', n'⟩ : Location) ≠ ⟨i, n⟩ := by
      intro hl
      cases hl
      exact heq (by rw [h.injective q' q i hq' hq])
    rw [Function.update_of_ne heq, Function.update_of_ne hne, h.entries q' i' n' hq']

/-- What is no directory becomes what is no directory. -/
theorem put (h : Staged left staging shape tree) {q : RelativePath} {i : Identity}
    (hq : shape q = some (.directory i)) {n : Name}
    (hold : ∀ j, shape (q ++ [n]) ≠ some (.directory j)) {v : Option Node}
    (hv : ∀ j, v ≠ some (.directory j)) :
    Staged left staging (Function.update shape (q ++ [n]) v)
      (Function.update tree ⟨i, n⟩ v) := by
  have hdir : ∀ {q' j}, Function.update shape (q ++ [n]) v q' = some (.directory j) ↔
      shape q' = some (.directory j) := by
    intro q' j
    by_cases heq : q' = q ++ [n]
    · subst heq
      rw [Function.update_self]
      exact iff_of_false (hv j) (hold j)
    · rw [Function.update_of_ne heq]
  constructor
  · constructor
    · rw [Function.update_of_ne (h.entry_ne hq n).symm, Function.update_of_ne (by simp), h.root]
    · exact fun q' i' n' hq' => h.entries_put hq n v (hdir.1 hq') n'
    · intro q' n' hne
      by_cases heq : q' ++ [n'] = q ++ [n]
      · obtain ⟨rfl, -⟩ := List.append_inj' heq rfl
        exact ⟨i, hdir.2 hq⟩
      · rw [Function.update_of_ne heq] at hne
        obtain ⟨j, hj⟩ := h.closed q' n' hne
        exact ⟨j, hdir.2 hj⟩
    · exact fun q₁ q₂ j h₁ h₂ => h.injective q₁ q₂ j (hdir.1 h₁) (hdir.1 h₂)
    · exact fun q' hq' => h.apart q' (hdir.1 hq')
  · intro l hl hown
    have hne : l ≠ ⟨i, n⟩ := fun heq => hown q (hdir.2 (heq ▸ hq))
    rw [Function.update_of_ne hne]
    exact h.elsewhere l hl fun q' hq' => hown q' (hdir.2 hq')
  · exact h.free
  · exact fun q' i' n' hq' => h.freeEntries q' i' n' (hdir.1 hq')

/-- The nodes of the shape are nodes of the tree. -/
theorem exists_location (h : Staged left staging shape tree) {q : RelativePath} {node : Node}
    (hq : shape q = some node) : ∃ l, tree l = some node := by
  induction q using List.reverseRecOn with
  | nil => exact ⟨staging, by rw [h.root, hq]⟩
  | append_singleton q n _ =>
      obtain ⟨i, hi⟩ := h.closed q n (by rw [hq]; simp)
      exact ⟨⟨i, n⟩, by rw [h.entries q i n hi, hq]⟩

/-- Nothing that is not in the staging directory lies in a directory nobody uses. -/
theorem left_unused (h : Staged left staging shape tree) {fresh : Identity}
    (hfresh : Unused slash tree fresh) (hparent : staging.directory ≠ fresh) (n : Name) :
    left ⟨fresh, n⟩ = none := by
  rw [← h.elsewhere ⟨fresh, n⟩, hfresh.entries n]
  · rintro rfl
    exact hparent rfl
  · intro q hq
    obtain ⟨l, hl⟩ := h.exists_location hq
    exact hfresh.nodes l _ hl rfl

/-- A new directory. -/
theorem makeDirectory (h : Staged left staging shape tree) {q : RelativePath} {i : Identity}
    (hq : shape q = some (.directory i)) {n : Name} (hold : shape (q ++ [n]) = none)
    {fresh : Identity} (hfresh : Unused slash tree fresh) (hparent : staging.directory ≠ fresh) :
    Staged left staging (Function.update shape (q ++ [n]) (some (.directory fresh)))
      (Function.update tree ⟨i, n⟩ (some (.directory fresh))) := by
  have hnew : ∀ {q'}, shape q' ≠ some (.directory fresh) := by
    intro q' hq'
    obtain ⟨l, hl⟩ := h.exists_location hq'
    exact hfresh.nodes l _ hl rfl
  have hdir : ∀ {q' j}, Function.update shape (q ++ [n]) (some (.directory fresh)) q' =
      some (.directory j) ↔ q' = q ++ [n] ∧ j = fresh ∨ shape q' = some (.directory j) := by
    intro q' j
    by_cases heq : q' = q ++ [n]
    · subst heq
      rw [Function.update_self, hold]
      simp [eq_comm]
    · rw [Function.update_of_ne heq]
      simp [heq]
  constructor
  · constructor
    · rw [Function.update_of_ne (h.entry_ne hq n).symm, Function.update_of_ne (by simp), h.root]
    · intro q' i' n' hq'
      rcases hdir.1 hq' with ⟨rfl, rfl⟩ | hq'
      · have hi : i' ≠ i := by
          rintro rfl
          exact hnew hq
        rw [Function.update_of_ne (by simpa using fun h => absurd h hi),
          Function.update_of_ne (by simp), hfresh.entries]
        refine (h.eq_none_below (fun j => ?_) n' []).symm
        rw [hold]
        simp
      · exact h.entries_put hq n _ hq' n'
    · intro q' n' hne
      by_cases heq : q' ++ [n'] = q ++ [n]
      · obtain ⟨rfl, -⟩ := List.append_inj' heq rfl
        exact ⟨i, hdir.2 (.inr hq)⟩
      · rw [Function.update_of_ne heq] at hne
        obtain ⟨j, hj⟩ := h.closed q' n' hne
        exact ⟨j, hdir.2 (.inr hj)⟩
    · intro q₁ q₂ j h₁ h₂
      rcases hdir.1 h₁ with ⟨rfl, rfl⟩ | hold₁ <;> rcases hdir.1 h₂ with ⟨rfl, hj⟩ | hold₂
      · rfl
      · exact absurd hold₂ hnew
      · subst hj
        exact absurd hold₁ hnew
      · exact h.injective q₁ q₂ j hold₁ hold₂
    · intro q' hq'
      rcases hdir.1 hq' with ⟨-, heq⟩ | hq'
      · exact hparent heq
      · exact h.apart q' hq'
  · intro l hl hown
    have hne : l ≠ ⟨i, n⟩ := fun heq => hown q (hdir.2 (.inr (heq ▸ hq)))
    rw [Function.update_of_ne hne]
    exact h.elsewhere l hl fun q' hq' => hown q' (hdir.2 (.inr hq'))
  · exact h.free
  · intro q' i' n' hq'
    rcases hdir.1 hq' with ⟨-, rfl⟩ | hq'
    · exact h.left_unused hfresh hparent n'
    · exact h.freeEntries q' i' n' hq'

/-- A directory without entries goes. -/
theorem removeDirectory (h : Staged left staging shape tree) {q : RelativePath} {i j : Identity}
    (hq : shape q = some (.directory i)) {n : Name}
    (hold : shape (q ++ [n]) = some (.directory j)) (hempty : ∀ m, shape (q ++ [n] ++ [m]) = none) :
    Staged left staging (Function.update shape (q ++ [n]) none)
      (Function.update tree ⟨i, n⟩ none) := by
  have hdir : ∀ {q' k}, Function.update shape (q ++ [n]) none q' = some (.directory k) ↔
      q' ≠ q ++ [n] ∧ shape q' = some (.directory k) := by
    intro q' k
    by_cases heq : q' = q ++ [n]
    · subst heq
      simp
    · rw [Function.update_of_ne heq]
      simp [heq]
  have hstay : q ≠ q ++ [n] := by simp
  constructor
  · constructor
    · rw [Function.update_of_ne (h.entry_ne hq n).symm, Function.update_of_ne (by simp), h.root]
    · exact fun q' i' n' hq' => h.entries_put hq n none (hdir.1 hq').2 n'
    · intro q' n' hne
      by_cases heq : q' ++ [n'] = q ++ [n]
      · rw [heq, Function.update_self] at hne
        exact absurd rfl hne
      · rw [Function.update_of_ne heq] at hne
        obtain ⟨k, hk⟩ := h.closed q' n' hne
        refine ⟨k, hdir.2 ⟨?_, hk⟩⟩
        rintro rfl
        exact hne (hempty n')
    · exact fun q₁ q₂ k h₁ h₂ => h.injective q₁ q₂ k (hdir.1 h₁).2 (hdir.1 h₂).2
    · exact fun q' hq' => h.apart q' (hdir.1 hq').2
  · intro l hl hown
    have hne : l ≠ ⟨i, n⟩ := fun heq => hown q (hdir.2 ⟨hstay, heq ▸ hq⟩)
    rw [Function.update_of_ne hne]
    by_cases hj : l.directory = j
    · obtain ⟨d, m⟩ := l
      cases hj
      rw [h.entries _ _ m hold, hempty, h.freeEntries _ _ m hold]
    · refine h.elsewhere l hl fun q' hq' => hown q' (hdir.2 ⟨?_, hq'⟩)
      rintro rfl
      rw [hold] at hq'
      cases hq'
      exact hj rfl
  · exact h.free
  · exact fun q' i' n' hq' => h.freeEntries q' i' n' (hdir.1 hq').2

/-- Without the staging directory the tree is as it was left. -/
theorem remove (h : Staged left staging shape tree) {root : Identity}
    (hroot : shape [] = some (.directory root)) (hempty : ∀ q, q ≠ [] → shape q = none) :
    Function.update tree staging none = left := by
  funext l
  by_cases hl : l = staging
  · subst hl
    rw [Function.update_self, h.free]
  rw [Function.update_of_ne hl]
  by_cases hown : l.directory = root
  · obtain ⟨d, n⟩ := l
    cases hown
    rw [h.entries _ _ n hroot, h.freeEntries _ _ n hroot]
    exact hempty _ (by simp)
  · refine h.elsewhere l hl fun q hq => ?_
    cases q with
    | nil =>
        rw [hroot] at hq
        cases hq
        exact hown rfl
    | cons n q =>
        rw [hempty _ (by simp)] at hq
        cases hq

end Staged

/-! ### The record -/

/-- The record lists what the staging directory holds. -/
structure Recorded (record : Staging) (shape : Shape) : Prop where
  root : shape [] = some (.directory record.fd)
  directories : ∀ q, q ∈ record.directories ↔ q ≠ [] ∧ ∃ i, shape q = some (.directory i)
  files : ∀ q, q ∈ record.files ↔ ∃ i bytes, shape q = some (.file i bytes)
  other : ∀ q i, shape q ≠ some (.other i)
  nodupDirectories : record.directories.Nodup
  nodupFiles : record.files.Nodup

namespace Recorded

variable {record : Staging}

/-- What is not recorded is not there. -/
theorem eq_none (h : Recorded record shape) {q : RelativePath} (hne : q ≠ [])
    (hd : q ∉ record.directories) (hf : q ∉ record.files) : shape q = none := by
  cases hq : shape q with
  | none => rfl
  | some node =>
      cases node with
      | file i bytes => exact absurd ((h.files q).2 ⟨i, bytes, hq⟩) hf
      | directory i => exact absurd ((h.directories q).2 ⟨hne, i, hq⟩) hd
      | other i => exact absurd hq (h.other q i)

/-- A directory is made and recorded. -/
theorem makeDirectory (h : Recorded record shape) {q : RelativePath} (hne : q ≠ [])
    (hold : shape q = none) (fresh : Identity) :
    Recorded { record with directories := record.directories ++ [q] }
      (Function.update shape q (some (.directory fresh))) := by
  have hnew : q ∉ record.directories := by
    rw [h.directories, hold]
    simp
  refine ⟨?_, ?_, ?_, ?_, ?_, h.nodupFiles⟩
  · rw [Function.update_of_ne hne.symm, h.root]
  · intro q'
    by_cases heq : q' = q
    · subst heq
      simp [hne]
    · rw [Function.update_of_ne heq]
      simp [heq, h.directories]
  · intro q'
    by_cases heq : q' = q
    · subst heq
      simp [h.files, hold]
    · rw [Function.update_of_ne heq]
      exact h.files q'
  · intro q' i
    by_cases heq : q' = q
    · subst heq
      simp
    · rw [Function.update_of_ne heq]
      exact h.other q' i
  · exact h.nodupDirectories.append (by simp) (by simpa using hnew)

/-- A file is created and recorded. -/
theorem createFile (h : Recorded record shape) {q : RelativePath} (hne : q ≠ [])
    (hold : shape q = none) (i : Identity) (bytes : Bytes) :
    Recorded { record with files := record.files ++ [q] }
      (Function.update shape q (some (.file i bytes))) := by
  have hnew : q ∉ record.files := by
    rw [h.files, hold]
    simp
  refine ⟨?_, ?_, ?_, ?_, h.nodupDirectories, ?_⟩
  · rw [Function.update_of_ne hne.symm, h.root]
  · intro q'
    by_cases heq : q' = q
    · subst heq
      simp [h.directories, hold]
    · rw [Function.update_of_ne heq]
      exact h.directories q'
  · intro q'
    by_cases heq : q' = q
    · subst heq
      simp
    · rw [Function.update_of_ne heq]
      simp [heq, h.files]
  · intro q' j
    by_cases heq : q' = q
    · subst heq
      simp
    · rw [Function.update_of_ne heq]
      exact h.other q' j
  · exact h.nodupFiles.append (by simp) (by simpa using hnew)

/-- A recorded file is written. -/
theorem writeFile (h : Recorded record shape) {q : RelativePath} {i : Identity} {old : Bytes}
    (hold : shape q = some (.file i old)) (bytes : Bytes) :
    Recorded record (Function.update shape q (some (.file i bytes))) := by
  have hkind : ∀ q', (∀ j, Function.update shape q (some (.file i bytes)) q' = some (.directory j) ↔
      shape q' = some (.directory j)) ∧
      ((∃ j b, Function.update shape q (some (.file i bytes)) q' = some (.file j b)) ↔
        ∃ j b, shape q' = some (.file j b)) ∧
      ∀ j, Function.update shape q (some (.file i bytes)) q' = some (.other j) ↔
        shape q' = some (.other j) := by
    intro q'
    by_cases heq : q' = q
    · subst heq
      simp [hold]
    · simp [Function.update_of_ne heq]
  refine ⟨((hkind []).1 _).2 h.root, ?_, ?_, ?_, h.nodupDirectories, h.nodupFiles⟩
  · exact fun q' => by simp only [(hkind q').1, h.directories]
  · exact fun q' => by rw [(hkind q').2.1, h.files]
  · exact fun q' j hq' => h.other q' j (((hkind q').2.2 j).1 hq')

end Recorded

/-- Where the staging directory is. -/
def Staging.location (record : Staging) : Location := ⟨record.parent, record.name⟩

/-- The staging directory holds this, all of it is recorded, and the rest of the tree is
as it was left. -/
structure Holds (record : Staging) (shape : Shape) (w : World) : Prop where
  staged : Staged w.left record.location shape w.tree
  recorded : Recorded record shape

/-- The directory is the root directory or found in what was left. -/
def Known (slash : Identity) (left : Tree) (directory : Identity) : Prop :=
  directory = slash ∨ ∃ l node, left l = some node ∧ node.identity = directory

theorem Staged.known_ne (h : Staged left staging shape tree)
    (hknown : Known slash left staging.directory) {fresh : Identity}
    (hfresh : Unused slash tree fresh) : staging.directory ≠ fresh := by
  rcases hknown with heq | ⟨l, node, hl, heq⟩
  · exact fun hf => hfresh.slash (hf ▸ heq)
  · have htree : tree l = left l := by
      refine h.elsewhere l ?_ fun q hq => ?_
      · rintro rfl
        rw [h.free] at hl
        cases hl
      · rw [← show (⟨l.directory, l.name⟩ : Location) = l from rfl,
          h.freeEntries q _ l.name hq] at hl
        cases hl
    exact fun hf => hfresh.nodes l node (by rw [htree, hl]) (heq.trans hf)

/-- The shape is that of these files, and of the directories down to `current`. -/
structure Represents (done : List (RelativePath × Bytes)) (current : RelativePath)
    (shape : Shape) : Prop where
  files : ∀ q bytes, (∃ i, shape q = some (.file i bytes)) ↔ (q, bytes) ∈ done
  directories : ∀ q, (∃ i, shape q = some (.directory i)) ↔
    q <+: current ∨ ∃ f ∈ done, q <+: f.1 ∧ q ≠ f.1

namespace Represents

variable {done : List (RelativePath × Bytes)} {current : RelativePath}

theorem prefix_concat {q d : RelativePath} {n : Name} :
    q <+: d ++ [n] ↔ q <+: d ∨ q = d ++ [n] := by
  rw [List.prefix_concat_iff, or_comm]

/-- The next directory was made before. -/
theorem enter (h : Represents done current shape) {n : Name} {i : Identity}
    (hq : shape (current ++ [n]) = some (.directory i)) :
    Represents done (current ++ [n]) shape := by
  refine ⟨h.files, fun q => ?_⟩
  rw [h.directories, prefix_concat, or_assoc]
  refine or_congr_right ⟨.inr, ?_⟩
  rintro (rfl | hf)
  · rcases (h.directories _).1 ⟨i, hq⟩ with hpre | hf
    · exact absurd hpre.length_le (by simp)
    · exact hf
  · exact hf

/-- The next directory is made. -/
theorem makeDirectory (h : Represents done current shape) {n : Name}
    (hold : shape (current ++ [n]) = none) (fresh : Identity) :
    Represents done (current ++ [n])
      (Function.update shape (current ++ [n]) (some (.directory fresh))) := by
  refine ⟨fun q bytes => ?_, fun q => ?_⟩
  · by_cases heq : q = current ++ [n]
    · subst heq
      simp [← h.files, hold]
    · rw [Function.update_of_ne heq, h.files]
  · by_cases heq : q = current ++ [n]
    · subst heq
      simp
    · rw [Function.update_of_ne heq, h.directories, prefix_concat]
      simp [heq]

/-- The file is there. -/
theorem createFile (h : Represents done current shape) {n : Name}
    (hold : shape (current ++ [n]) = none) (i : Identity) (bytes : Bytes) :
    Represents (done ++ [(current ++ [n], bytes)]) []
      (Function.update shape (current ++ [n]) (some (.file i bytes))) := by
  have hmem : ∀ b, (current ++ [n], b) ∉ done := by
    intro b hb
    obtain ⟨j, hj⟩ := (h.files _ _).2 hb
    rw [hold] at hj
    cases hj
  refine ⟨fun q b => ?_, fun q => ?_⟩
  · by_cases heq : q = current ++ [n]
    · subst heq
      simp [hmem, eq_comm]
    · rw [Function.update_of_ne heq, h.files]
      simp [heq]
  · have hempty : q <+: ([] : RelativePath) → q <+: current := fun hq => by
      rw [List.prefix_nil.1 hq]
      exact List.nil_prefix
    by_cases heq : q = current ++ [n]
    · subst heq
      have hnot : ¬∃ j, shape (current ++ [n]) = some (.directory j) := by simp [hold]
      rw [h.directories, not_or] at hnot
      simpa using hnot.2
    · rw [Function.update_of_ne heq, h.directories]
      constructor
      · rintro (hq | ⟨f, hf, hq⟩)
        · exact .inr ⟨_, List.mem_concat_self .., prefix_concat.2 (.inl hq), heq⟩
        · exact .inr ⟨f, List.mem_append_left _ hf, hq⟩
      · rintro (hq | ⟨f, hf, hq, hne⟩)
        · exact .inl (hempty hq)
        · rcases List.mem_append.1 hf with hf | hf
          · exact .inr ⟨f, hf, hq, hne⟩
          · cases List.mem_singleton.1 hf
            exact .inl ((prefix_concat.1 hq).resolve_right heq)

end Represents

end Destination
end Hegira
