/-
# Taking the staging directory away

`drop` removes what the record lists: the files, then the directories, those below before
those above, since a directory comes before what is in it in the order of the paths, then
the staging directory.  No call of it fails of its own, so when the record lists all there
is, the tree is as others left it (`meets_drop`).
-/

import Hegira.Destination.Files

namespace Hegira
namespace Destination

open Mutator (Bytes Identity)

variable {slash : Identity} {shape : Shape} {record : Staging} {w : World}

namespace Recorded

/-- The first file is taken away. -/
theorem removeFile {parent fd : Identity} {name : Name} {q : RelativePath}
    {rest directories : List RelativePath}
    (h : Recorded ⟨parent, name, fd, q :: rest, directories⟩ shape) (hne : q ≠ []) :
    Recorded ⟨parent, name, fd, rest, directories⟩ (Function.update shape q none) := by
  obtain ⟨i, bytes, hq⟩ := (h.files q).1 (List.mem_cons_self ..)
  have hnodup := List.nodup_cons.1 h.nodupFiles
  refine ⟨?_, fun q' => ?_, fun q' => ?_, fun q' => ?_, h.nodupDirectories, hnodup.2⟩
  · rw [Function.update_of_ne hne.symm, h.root]
  · by_cases heq : q' = q
    · subst heq
      simpa [hq] using h.directories q'
    · rw [Function.update_of_ne heq]
      exact h.directories q'
  · by_cases heq : q' = q
    · subst heq
      simpa using hnodup.1
    · rw [Function.update_of_ne heq, ← h.files q', List.mem_cons, or_iff_right heq]
  · by_cases heq : q' = q
    · subst heq
      simp
    · rw [Function.update_of_ne heq]
      exact h.other q'

/-- The first directory is taken away. -/
theorem removeDirectory {parent fd : Identity} {name : Name} {q : RelativePath}
    {files rest : List RelativePath}
    (h : Recorded ⟨parent, name, fd, files, q :: rest⟩ shape) :
    Recorded ⟨parent, name, fd, files, rest⟩ (Function.update shape q none) := by
  obtain ⟨hne, i, hq⟩ := (h.directories q).1 (List.mem_cons_self ..)
  have hnodup := List.nodup_cons.1 h.nodupDirectories
  refine ⟨?_, fun q' => ?_, fun q' => ?_, fun q' => ?_, hnodup.2, h.nodupFiles⟩
  · rw [Function.update_of_ne hne.symm, h.root]
  · by_cases heq : q' = q
    · subst heq
      simpa using hnodup.1
    · rw [Function.update_of_ne heq, ← h.directories q', List.mem_cons, or_iff_right heq]
  · by_cases heq : q' = q
    · subst heq
      simpa [hq] using h.files q'
    · rw [Function.update_of_ne heq]
      exact h.files q'
  · by_cases heq : q' = q
    · subst heq
      simp
    · rw [Function.update_of_ne heq]
      exact h.other q'

/-- The record in another order. -/
theorem perm {directories : List RelativePath} (h : Recorded record shape)
    (hp : directories.Perm record.directories) :
    Recorded { record with directories := directories } shape :=
  { h with
    directories := fun q => by rw [← h.directories q]; exact hp.mem_iff
    nodupDirectories := hp.nodup_iff.2 h.nodupDirectories }

end Recorded

/-- A path that names something, apart from its last name. -/
theorem dropLast_concat {q : RelativePath} (hne : q ≠ []) :
    q.dropLast ++ [q.getLastD []] = q := by
  rw [List.getLastD_eq_getLast?, List.getLast?_eq_some_getLast hne, Option.getD_some,
    List.dropLast_concat_getLast]

/-- The directory of a recorded path is reached. -/
theorem meets_descend_parent (h : Holds record shape w) {q : RelativePath} (hne : q ≠ [])
    (hq : shape q ≠ none) :
    Meets (Step slash) Still (fun r w' => w' = w ∧
        ∃ fd, r = .ok fd ∧ shape q.dropLast = some (.directory fd))
      (descend .cleanup record.fd q.dropLast).run w := by
  refine (meets_descend h.staged.toShaped h.recorded.root q.dropLast).imp ?_
  rintro (fault | fd) w' ⟨rfl, hfd⟩
  · obtain ⟨i, hi⟩ := h.staged.closed q.dropLast (q.getLastD []) (by rwa [dropLast_concat hne])
    rcases hfd with hphase | hno
    · cases hphase
    · exact absurd hi (hno i)
  · exact ⟨rfl, fd, rfl, hfd⟩

/-- One round of the loop over the files. -/
theorem meets_removeFile {q : RelativePath} {rest : List RelativePath}
    (h : Holds { record with files := q :: rest } shape w) :
    Meets (Step slash) (Inside record.location)
      (fun _ w' => ∃ shape', Holds { record with files := rest } shape' w')
      (removeFile record.fd q) w := by
  obtain ⟨i, bytes, hq⟩ := (h.recorded.files q).1 (List.mem_cons_self ..)
  have hne : q ≠ [] := by
    rintro rfl
    rw [h.recorded.root] at hq
    cases hq
  rw [removeFile, meets_bind]
  refine (meets_descend_parent h hne (by simp [hq])).mono (fun e he => he.confined _) ?_
  rintro _ w' ⟨rfl, fd, rfl, hfd⟩
  have hentry := h.staged.entries _ _ (q.getLastD []) hfd
  rw [dropLast_concat hne, hq] at hentry
  intro r w' hstep
  cases hstep with
  | effect heffect =>
      cases heffect with
      | notUnlinked e hdir =>
          obtain ⟨j, hj⟩ := hdir _ hentry
          cases hj
      | unlinked hnode hfile =>
          have hput := h.staged.put (v := none) (n := q.getLastD []) hfd
            (by rw [dropLast_concat hne]; simp [hq]) (by simp)
          rw [dropLast_concat hne] at hput
          exact ⟨confined_update nofun rfl (.inl (h.inStaging hfd _)), _, hput,
            h.recorded.removeFile hne⟩

theorem meets_removeFiles (files : List RelativePath)
    (h : Holds { record with files := files } shape w) :
    Meets (Step slash) (Inside record.location)
      (fun _ w' => ∃ shape', Holds { record with files := [] } shape' w')
      (files.forM (removeFile record.fd)) w := by
  induction files generalizing shape w with
  | nil => exact ⟨shape, h⟩
  | cons q rest ih =>
      change Meets _ _ _ (removeFile record.fd q >>= fun _ => rest.forM _) _
      rw [meets_bind]
      refine (meets_removeFile h).imp ?_
      rintro _ w' ⟨shape', h'⟩
      exact ih h'

/-- One round of the loop over the directories, those below being gone. -/
theorem meets_removeDirectory {q : RelativePath} {rest : List RelativePath}
    (h : Holds { record with files := [], directories := q :: rest } shape w)
    (hbelow : ∀ n, q ++ [n] ∉ rest) :
    Meets (Step slash) (Inside record.location)
      (fun _ w' => ∃ shape', Holds { record with files := [], directories := rest } shape' w')
      (removeDirectory record.fd q) w := by
  obtain ⟨hne, i, hq⟩ := (h.recorded.directories q).1 (List.mem_cons_self ..)
  have hempty : ∀ n, shape (q ++ [n]) = none := fun n => by
    refine h.recorded.eq_none (by simp) (fun hmem => ?_) (List.not_mem_nil)
    rcases List.mem_cons.1 hmem with heq | hmem
    · simp at heq
    · exact hbelow n hmem
  rw [removeDirectory, meets_bind]
  refine (meets_descend_parent h hne (by simp [hq])).mono (fun e he => he.confined _) ?_
  rintro _ w' ⟨rfl, fd, rfl, hfd⟩
  have hentry := h.staged.entries _ _ (q.getLastD []) hfd
  rw [dropLast_concat hne, hq] at hentry
  intro r w' hstep
  cases hstep with
  | effect heffect =>
      cases heffect with
      | notRemoved e hfull =>
          obtain ⟨n, hn⟩ := hfull i hentry
          exact absurd ((h.staged.entries q i n hq).trans (hempty n)) hn
      | removed hdir hgone =>
          have hremove := h.staged.removeDirectory (n := q.getLastD []) (j := i) hfd
            (by rw [dropLast_concat hne, hq])
            (by rw [dropLast_concat hne]; exact hempty)
          rw [dropLast_concat hne] at hremove
          exact ⟨confined_update nofun rfl (.inl (h.inStaging hfd _)), _, hremove,
            h.recorded.removeDirectory⟩

/-- What is below a directory comes after it. -/
theorem pathKey_lt (q : RelativePath) (n : Name) : pathKey q < pathKey (q ++ [n]) := by
  calc
    pathKey q = pathKey q ++ [] := (List.append_nil _).symm
    _ < pathKey q ++ pathKey [n] := List.append_left_lt (List.nil_lt_cons _ _)
    _ = pathKey (q ++ [n]) := (List.map_append ..).symm

theorem meets_removeDirectories (directories : List RelativePath)
    (hsorted : directories.Pairwise fun a b => pathKey b ≤ pathKey a)
    (h : Holds { record with files := [], directories := directories } shape w) :
    Meets (Step slash) (Inside record.location)
      (fun _ w' => ∃ shape', Holds { record with files := [], directories := [] } shape' w')
      (directories.forM (removeDirectory record.fd)) w := by
  induction directories generalizing shape w with
  | nil => exact ⟨shape, h⟩
  | cons q rest ih =>
      obtain ⟨hfirst, hsorted⟩ := List.pairwise_cons.1 hsorted
      change Meets _ _ _ (removeDirectory record.fd q >>= fun _ => rest.forM _) _
      rw [meets_bind]
      refine (meets_removeDirectory h fun n hmem => ?_).imp ?_
      · exact absurd (hfirst _ hmem) (not_le_of_gt (pathKey_lt q n))
      · rintro _ w' ⟨shape', h'⟩
        exact ih hsorted h'

theorem meets_sameDirectory (a b : Identity) :
    Meets (Step slash) Still (fun r w' => w' = w ∧ r = .ok (a == b))
      (sameDirectory .cleanup a b).run w := by
  rw [sameDirectory, meets_fallible_bind]
  refine meets_read (by trivial) fun r w' hstep => ?_
  cases hstep with
  | effect heffect =>
      cases heffect with
      | stated =>
          change Meets _ _ _ (ExceptT.run (_ >>= _)) _
          rw [meets_fallible_bind]
          refine meets_read (by trivial) fun r w' hstep => ?_
          cases hstep with
          | effect heffect =>
              cases heffect with
              | stated => exact ⟨rfl, rfl⟩

/-- The staging directory, when nothing is left in it. -/
theorem meets_removeStaging (h : Holds { record with files := [], directories := [] } shape w) :
    Meets (Step slash) (Inside record.location) (fun _ w' => w'.tree = w'.left)
      (removeStaging record) w := by
  have hempty : ∀ q, q ≠ [] → shape q = none := fun q hne =>
    h.recorded.eq_none hne List.not_mem_nil List.not_mem_nil
  have hroot : w.tree record.location = some (.directory record.fd) :=
    h.staged.root.trans h.recorded.root
  intro r w₁ hstep
  cases hstep with
  | effect heffect =>
      cases heffect with
      | notOpened e hno => exact absurd hroot (hno _)
      | opened hfd =>
          cases hroot.symm.trans hfd
          refine ⟨confined_same nofun rfl, meets_bind.2 ?_⟩
          refine (meets_sameDirectory record.fd record.fd).mono (fun e he => he.confined _) ?_
          rintro _ w₂ ⟨rfl, rfl⟩
          rw [beq_self_eq_true]
          intro r w₃ hstep
          cases hstep with
          | effect heffect =>
              cases heffect with
              | notRemoved e hfull =>
                  obtain ⟨n, hn⟩ := hfull record.fd hroot
                  rw [h.staged.entries [] _ n h.recorded.root] at hn
                  exact absurd (hempty _ (by simp)) hn
              | removed =>
                  exact ⟨confined_update nofun rfl (.inl (.inl rfl)),
                    h.staged.remove h.recorded.root hempty⟩

/-- **The clean-up is complete.**  When the record lists what the staging directory holds,
nothing of it is left. -/
theorem meets_drop (h : Holds record shape w) :
    Meets (Step slash) (Inside record.location) (fun _ w' => w'.tree = w'.left) (drop record) w := by
  change Meets _ _ _ (_ >>= fun _ => _ >>= fun _ => _) w
  rw [meets_bind]
  refine (meets_removeFiles record.files h).imp ?_
  rintro _ w' ⟨shape', h'⟩
  have hperm := (List.reverse_perm _).trans (Arrangement.sortBy_perm pathKey record.directories)
  have hsorted : (Arrangement.sortBy pathKey record.directories).reverse.Pairwise
      fun a b => pathKey b ≤ pathKey a :=
    List.pairwise_reverse.2 (Arrangement.pairwise_sortBy ..)
  rw [meets_bind]
  refine (meets_removeDirectories _ hsorted ⟨h'.staged, h'.recorded.perm hperm⟩).imp ?_
  rintro _ w'' ⟨shape'', h''⟩
  exact meets_removeStaging h''

end Destination
end Hegira
