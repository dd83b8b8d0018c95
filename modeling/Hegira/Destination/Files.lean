/-
# Writing the files

What a call of the publisher may change is an entry of the staging directory
(`Confined`); what only looks changes nothing (`Looks.meets`).  Over these, each round of
the loop over the files ends with a record that lists everything that was created, whether
it fails or not (`meets_writeFile`), and the whole loop with exactly the files it was given
(`meets_writeFiles`).
-/

import Hegira.Destination.Staging

namespace Hegira
namespace Destination

open Mutator (Bytes Identity)

variable {slash : Identity} {left tree : Tree} {staging : Location} {shape : Shape}

/-! ### Calls -/

/-- The staging directory was made, but could not be opened. -/
def StagingNotOpened : Event Call Call.Reply World → Prop
  | ⟨_, .fs _ (.openStaging _), .error _, _⟩ => True
  | _ => False

/-- The call does not open the staging directory for the first time. -/
def Call.Later (c : Call) : Prop := ∀ phase l, c ≠ .fs phase (.openStaging l)

/-- A later call does not open the staging directory. -/
theorem Call.Later.opened {w w' : World} {c : Call} {r : c.Reply} (h : c.Later) :
    ¬StagingNotOpened ⟨w, c, r, w'⟩ := by
  intro hnot
  rcases c with ⟨phase, c⟩ | ⟨point, l⟩
  · cases c with
    | openStaging l => exact h phase l rfl
    | _ => exact hnot.elim
  · exact hnot.elim

/-- Nothing changes. -/
structure Still (e : Event Call Call.Reply World) : Prop where
  opened : ¬StagingNotOpened e
  same : e.after = e.before

/-- What is not a call of a hook changes the staging directory only, and what is
`published`. -/
structure Confined (staging : Location) (published : Location → Prop)
    (e : Event Call Call.Reply World) : Prop where
  opened : ¬StagingNotOpened e
  changes : ∀ phase c, e.call = .fs phase c → ∀ l, e.after.tree l ≠ e.before.tree l →
    InStaging staging e.before.tree l ∨ published l

/-- Nothing is published. -/
abbrev Inside (staging : Location) : Event Call Call.Reply World → Prop :=
  Confined staging fun _ => False

/-- More published locations allow more. -/
theorem Confined.mono {published published' : Location → Prop}
    {e : Event Call Call.Reply World} (h : Confined staging published e)
    (hp : ∀ l, published l → published' l) : Confined staging published' e :=
  ⟨h.opened, fun phase c hc l hl => (h.changes phase c hc l hl).imp_right (hp l)⟩

/-- A call that changes nothing. -/
theorem confined_same {w w' : World} {c : Call} {r : c.Reply} {published : Location → Prop}
    (hc : c.Later) (h : w'.tree = w.tree) : Confined staging published ⟨w, c, r, w'⟩ := by
  refine ⟨hc.opened, fun _ _ _ l hne => ?_⟩
  dsimp only at hne
  rw [h] at hne
  exact absurd rfl hne

/-- A call that changes nothing is confined to any set of locations. -/
theorem Still.confined {e : Event Call Call.Reply World} (h : Still e)
    (published : Location → Prop) : Confined staging published e := by
  refine ⟨h.opened, fun _ _ _ l hne => ?_⟩
  rw [h.same] at hne
  exact absurd rfl hne

/-- A change at one place. -/
theorem confined_update {w w' : World} {c : Call} {r : c.Reply} {l : Location} {v : Option Node}
    {published : Location → Prop} (hc : c.Later) (h : w'.tree = Function.update w.tree l v)
    (hl : InStaging staging w.tree l ∨ published l) :
    Confined staging published ⟨w, c, r, w'⟩ := by
  refine ⟨hc.opened, fun _ _ _ l' hne => ?_⟩
  by_cases heq : l' = l
  · exact heq ▸ hl
  · dsimp only at hne
    rw [h, Function.update_of_ne heq] at hne
    exact absurd rfl hne

/-- The call only looks. -/
def FsCall.Reads : FsCall → Prop
  | .openSlash | .openDirectory _ | .duplicate _ | .stat _ | .statAt _ => True
  | _ => False

/-- A reading call does not open the staging directory. -/
theorem FsCall.Reads.later {c : FsCall} (h : c.Reads) (phase : Phase) :
    (Call.fs phase c).Later := by
  rintro _ l heq
  cases heq
  exact h

/-- A reading call changes nothing. -/
theorem Step.of_reads {w w' : World} {phase : Phase} {c : FsCall} {r : Except Errno c.Value}
    (h : Step slash w (.fs phase c) r w') (hc : c.Reads) : w' = w := by
  cases h with
  | effect h => cases h <;> first | rfl | exact hc.elim
  | fault => rfl
  | partly => exact hc.elim

section Calls

variable {w : World} {phase : Phase} {ev : Event Call Call.Reply World → Prop}

/-- One call and the renaming of its error. -/
theorem meets_fs {c : FsCall} {onError : Errno → Template.Fault}
    {post : Except Template.Fault c.Value → World → Prop} :
    Meets (Step slash) ev post (fs phase c onError).run w ↔ ∀ r w',
      Step slash w (.fs phase c) r w' →
        ev ⟨w, .fs phase c, r, w'⟩ ∧ post (r.mapError onError) w' := Iff.rfl

/-- One reading call. -/
theorem meets_read {c : FsCall} (hc : c.Reads) {onError : Errno → Template.Fault}
    {post : Except Template.Fault c.Value → World → Prop}
    (h : ∀ r w', Step slash w (.fs phase c) r w' → post (r.mapError onError) w') :
    Meets (Step slash) Still post (fs phase c onError).run w :=
  meets_fs.2 fun r w' hstep => ⟨⟨(hc.later phase).opened, hstep.of_reads hc⟩, h r w' hstep⟩

/-- A part that only looks. -/
def Looks {α : Type} (p : Publisher α) : Prop :=
  p.Makes fun c => ∃ phase c', c = .fs phase c' ∧ c'.Reads

/-- A program that only looks leaves the world. -/
theorem Looks.meets {α : Type} {p : Publisher α} (h : Looks p) :
    Meets (Step slash) Still (fun _ w' => w' = w) p.run w := by
  have hstill : Meets (Step slash) Still (fun _ _ => True) p.run w :=
    h.only.meets (fun s c r s' hc hstep => by
      obtain ⟨phase, c', rfl, hreads⟩ := hc
      exact ⟨(hreads.later phase).opened, hstep.of_reads hreads⟩) w
  have hkeep : Meets (Step slash) (fun e => e.before = w → e.after = w) (fun _ _ => True) p.run w :=
    hstill.mono (fun e he hw => he.same.trans hw) fun _ _ h => h
  exact (hstill.and (hkeep.preserves (I := (· = w)) rfl)).mono (fun e he => he.1)
    fun _ _ h => h.2.2

/-- A reading call looks. -/
theorem looks_fs {c : FsCall} (hc : c.Reads) (onError : Errno → Template.Fault) :
    Looks (fs phase c onError) := ⟨⟨phase, c, rfl, hc⟩, fun _ => trivial⟩

/-- Opening the parent looks. -/
theorem looks_openParent (path : Template.PathBuf) : Looks (openParent path) := by
  refine .bind .liftExcept fun parent => .bind (looks_fs (by trivial) _) fun fd => ?_
  induction parent.components generalizing fd with
  | nil => exact .pure
  | cons part rest ih =>
      rw [List.foldlM_cons]
      refine .bind ?_ ih
      cases part <;> first | exact .pure | exact looks_fs (by trivial) _

/-- So does asking whether the destination is absent. -/
theorem looks_ensureAbsent (parent : Identity) (path : Template.PathBuf) :
    Looks (ensureAbsent parent path) := by
  refine .bind .liftExcept fun name => ⟨⟨_, _, rfl, trivial⟩, ?_⟩
  rintro (error | found)
  · cases error <;> trivial
  · trivial

theorem looks_sameDirectory (a b : Identity) : Looks (sameDirectory phase a b) :=
  .bind (looks_fs (by trivial) _) fun _ => .bind (looks_fs (by trivial) _) fun _ => .pure

/-! ### The files -/

/-- A directory was reached; only its absence, or a failure, stops the way there. -/
def Descended (phase : Phase) (shape : Shape) (q : RelativePath) :
    Except Template.Fault Identity → Prop
  | .ok fd => shape q = some (.directory fd)
  | .error _ => phase = .publication ∨ ∀ i, shape q ≠ some (.directory i)

/-- Opening the rest of a path ends in the directory the shape has there. -/
theorem meets_openNames (h : Shaped staging shape w.tree) (rest : List Name) {q : RelativePath}
    {i : Identity} (hq : shape q = some (.directory i)) :
    Meets (Step slash) Still (fun r w' => w' = w ∧ Descended phase shape (q ++ rest) r)
      (rest.foldlM (fun fd name => fs phase (.openDirectory ⟨fd, name⟩) fun _ =>
        safety "staging directory changed during rendering") i : Publisher Identity).run w := by
  induction rest generalizing q i with
  | nil => exact ⟨rfl, by simpa [Descended] using hq⟩
  | cons n rest ih =>
      rw [List.foldlM_cons, meets_fallible_bind]
      refine meets_read (by trivial) fun r w' hstep => ?_
      cases hstep with
      | effect heffect =>
          cases heffect with
          | opened hl =>
              rw [h.entries q i n hq] at hl
              have hrest := ih hl
              rw [List.append_assoc, List.singleton_append] at hrest
              exact hrest
          | notOpened e hl =>
              refine ⟨rfl, .inr fun j hj => ?_⟩
              rw [h.entries q i n hq] at hl
              cases rest with
              | nil => exact hl j hj
              | cons m rest =>
                  have hnone := h.eq_none_below hl m rest
                  simp only [List.append_assoc, List.singleton_append] at hnone
                  rw [hnone] at hj
                  cases hj
      | fault e => exact ⟨rfl, .inl rfl⟩

/-- Descending from the root ends in the directory the shape has there. -/
theorem meets_descend (h : Shaped staging shape w.tree) {root : Identity}
    (hroot : shape [] = some (.directory root)) (q : RelativePath) :
    Meets (Step slash) Still (fun r w' => w' = w ∧ Descended phase shape q r)
      (descend phase root q).run w := by
  rw [descend, meets_fallible_bind]
  refine meets_read (by trivial) fun r w' hstep => ?_
  cases hstep with
  | effect heffect =>
      cases heffect with
      | duplicated => exact meets_openNames h q hroot
  | fault e => exact ⟨rfl, .inl rfl⟩

end Calls

/-! ### The record along the way -/

/-- Whatever was created is recorded. -/
def Kept (location : Location) (record : Staging) (w : World) : Prop :=
  record.location = location ∧ ∃ shape, Holds record shape w

/-- The files are written, and the directories down to `current` made. -/
def Progress (slash : Identity) (location : Location) (done : List (RelativePath × Bytes))
    (current : RelativePath) (record : Staging) (w : World) : Prop :=
  record.location = location ∧ Known slash w.left location.directory ∧
    ∃ shape, Holds record shape w ∧ Represents done current shape

/-- The next stage is reached, or what there is is recorded. -/
def Advances (slash : Identity) (location : Location) (done : List (RelativePath × Bytes))
    (current : RelativePath) : Except Stopped Staging → World → Prop
  | .ok record, w => Progress slash location done current record w
  | .error stopped, w => Kept location stopped.staging w

/-- What is in progress is kept by its record. -/
theorem Progress.kept {location : Location} {done : List (RelativePath × Bytes)}
    {current : RelativePath} {record : Staging} {w : World}
    (h : Progress slash location done current record w) : Kept location record w := by
  obtain ⟨hloc, -, shape, hholds, -⟩ := h
  exact ⟨hloc, shape, hholds⟩

section Files

variable {location : Location} {done : List (RelativePath × Bytes)} {current : RelativePath}
  {record : Staging} {w : World}

/-- A name in a directory of the shape lies in the staging directory. -/
theorem Holds.inStaging (h : Holds record shape w) {q : RelativePath} {i : Identity}
    (hq : shape q = some (.directory i)) (n : Name) :
    InStaging record.location w.tree ⟨i, n⟩ :=
  h.staged.inStaging_of_entry h.recorded.root hq n

/-- One directory more is there and recorded. -/
theorem meets_makeDirectory (h : Progress slash location done current record w) (part : Name) :
    Meets (Step slash) (Inside location) (Advances slash location done (current ++ [part]))
      (makeDirectory record current part).run w := by
  have hkept := h.kept
  obtain ⟨rfl, hknown, shape, hholds, hrep⟩ := h
  have hstaged := hholds.staged
  rw [makeDirectory, meets_fallible_bind, onto, meets_adapt]
  refine (meets_descend hstaged.toShaped hholds.recorded.root current).mono
    (fun e he => he.confined _) ?_
  rintro (fault | fd) w' ⟨rfl, hfd⟩
  · exact hkept
  change Meets _ _ _ (ExceptT.run (ite _ _ _)) _
  split
  · rename_i hmem
    obtain ⟨-, i, hi⟩ := (hholds.recorded.directories _).1 hmem
    exact ⟨rfl, hknown, shape, hholds, hrep.enter hi⟩
  · rw [meets_fallible_bind, onto, meets_adapt]
    refine meets_fs.2 fun r w' hstep => ?_
    cases hstep with
    | effect heffect =>
        cases heffect with
        | madeDirectory hnone hfresh =>
            rw [hstaged.entries _ _ _ hfd] at hnone
            have hnext := hstaged.makeDirectory hfd hnone hfresh
              (hstaged.known_ne hknown hfresh)
            refine ⟨confined_update nofun rfl (.inl (hholds.inStaging hfd part)), rfl, hknown, _,
              ⟨hnext, ?_⟩, hrep.makeDirectory hnone _⟩
            exact hholds.recorded.makeDirectory (by simp) hnone _
        | notMade => exact ⟨confined_same nofun rfl, hkept⟩
    | fault e => exact ⟨confined_same nofun rfl, hkept⟩

/-- Making the directories of a path advances the shape by each of them. -/
theorem meets_makeDirectories (rest : List Name)
    (h : Progress slash location done current record w) :
    Meets (Step slash) (Inside location) (Advances slash location done (current ++ rest))
      (makeDirectories record current rest).run w := by
  induction rest generalizing current record w with
  | nil => simpa [Advances, makeDirectories] using h
  | cons part rest ih =>
      rw [makeDirectories, meets_fallible_bind]
      refine (meets_makeDirectory h part).imp ?_
      rintro (stopped | record') w' hr
      · exact hr
      · simpa using ih hr

/-- A new file is held where its name was free. -/
theorem Holds.create (h : Holds record shape w) {fd : Identity} {name : Name}
    (hfd : shape current = some (.directory fd)) (hnone : shape (current ++ [name]) = none)
    (fresh : Identity) :
    Holds { record with files := record.files ++ [current ++ [name]] }
      (Function.update shape (current ++ [name]) (some (.file fresh [])))
      ⟨Function.update w.tree ⟨fd, name⟩ (some (.file fresh [])), w.left⟩ :=
  ⟨h.staged.put hfd (by simp [hnone]) (by simp), h.recorded.createFile (by simp) hnone fresh []⟩

theorem Holds.write (h : Holds record shape w) {fd i : Identity} {name : Name} {old : Bytes}
    (hfd : shape current = some (.directory fd))
    (hfile : shape (current ++ [name]) = some (.file i old)) (bytes : Bytes) :
    Holds record (Function.update shape (current ++ [name]) (some (.file i bytes)))
      ⟨Function.update w.tree ⟨fd, name⟩ (some (.file i bytes)), w.left⟩ :=
  ⟨h.staged.put hfd (by simp [hfile]) (by simp), h.recorded.writeFile hfile bytes⟩

/-- The file that was just created gets its bytes, or some others. -/
theorem meets_writeAll (h : Holds record shape w) {fd i : Identity} {name : Name}
    (hfd : shape current = some (.directory fd))
    (hfile : shape (current ++ [name]) = some (.file i [])) (bytes : Bytes)
    (onError : Errno → Template.Fault) :
    Meets (Step slash) (Inside record.location)
      (fun r w' => w'.left = w.left ∧ ∃ shape', Holds record shape' w' ∧ (r = .ok () →
        shape' = Function.update shape (current ++ [name]) (some (.file i bytes))))
      (fs .publication (.writeAll ⟨fd, name⟩ bytes) onError).run w := by
  have hinside : InStaging record.location w.tree ⟨fd, name⟩ := h.inStaging hfd name
  refine meets_fs.2 fun r w' hstep => ?_
  cases hstep with
  | fault e => exact ⟨confined_same nofun rfl, rfl, shape, h, fun hok => nomatch hok⟩
  | partly written e hold =>
      rw [h.staged.entries _ _ _ hfd, hfile] at hold
      cases hold
      exact ⟨confined_update nofun rfl (.inl hinside), rfl, _, h.write hfd hfile written,
        fun hok => nomatch hok⟩
  | effect heffect =>
      cases heffect with
      | wrote hold =>
          rw [h.staged.entries _ _ _ hfd, hfile] at hold
          cases hold
          rw [List.drop_nil, List.append_nil]
          exact ⟨confined_update nofun rfl (.inl hinside), rfl, _, h.write hfd hfile bytes, fun _ => rfl⟩

/-- The file is there with its bytes; when it could not be written, it is recorded. -/
theorem meets_createFile (h : Progress slash location done current record w) (name : Name)
    (bytes : Bytes) :
    Meets (Step slash) (Inside location)
      (Advances slash location (done ++ [(current ++ [name], bytes)]) [])
      (createFile record current name bytes).run w := by
  have hkept := h.kept
  obtain ⟨rfl, hknown, shape, hholds, hrep⟩ := h
  have hstaged := hholds.staged
  rw [createFile, meets_fallible_bind, onto, meets_adapt]
  refine (meets_descend hstaged.toShaped hholds.recorded.root current).mono
    (fun e he => he.confined _) ?_
  rintro (fault | fd) w' ⟨rfl, hfd⟩
  · exact hkept
  change Meets _ _ _ (ExceptT.run (_ >>= _)) _
  rw [meets_fallible_bind, onto, meets_adapt]
  refine meets_fs.2 fun r w' hstep => ?_
  cases hstep with
  | fault e => exact ⟨confined_same nofun rfl, hkept⟩
  | effect heffect =>
    cases heffect with
    | notCreated => exact ⟨confined_same nofun rfl, hkept⟩
    | @created _ fresh hnone hfresh =>
      rw [hstaged.entries _ _ _ hfd] at hnone
      have hstay : current ≠ current ++ [name] := by simp
      have hcreated := hholds.create hfd hnone fresh
      refine ⟨confined_update nofun rfl (.inl (hholds.inStaging hfd name)), ?_⟩
      change Meets _ _ _ (ExceptT.run (_ >>= _)) _
      rw [meets_fallible_bind, onto, meets_adapt]
      refine (meets_writeAll hcreated ((Function.update_of_ne hstay ..).trans hfd)
        (Function.update_self ..) bytes _).imp ?_
      rintro (fault | ok) w'' ⟨hleft, shape', hholds', hshape⟩
      · exact ⟨rfl, shape', hholds'⟩
      · refine ⟨rfl, hleft ▸ hknown, shape', hholds', ?_⟩
        rw [hshape rfl, Function.update_idem]
        exact hrep.createFile hnone fresh bytes

/-- The files of the plan by their names. -/
def written (files : List (Template.PathBuf × Bytes)) : List (RelativePath × Bytes) :=
  files.filterMap fun file => (relativeNames file.1).map (·, file.2)

/-- **One file more.**  Its directories are made and the file is written. -/
theorem meets_writeFile (h : Progress slash location done [] record w)
    (file : Template.PathBuf × Bytes) :
    Meets (Step slash) (Inside location) (Advances slash location (done ++ written [file]) [])
      (writeFile record file).run w := by
  rw [writeFile]
  split
  · exact h.kept
  · exact h.kept
  · rename_i first rest hnames
    have hlast : (first :: rest).dropLast ++ [(first :: rest).getLastD []] = first :: rest := by
      rw [List.getLastD_eq_getLast?, List.getLast?_eq_some_getLast (by simp), Option.getD_some,
        List.dropLast_concat_getLast]
    have hwritten : written [file] = [(first :: rest, file.2)] := by simp [written, hnames]
    rw [meets_fallible_bind, hwritten]
    refine (meets_makeDirectories _ h).imp ?_
    rintro (stopped | record') w' hr
    · exact hr
    · rw [List.nil_append] at hr
      have hcreate := meets_createFile hr ((first :: rest).getLastD []) file.2
      rw [hlast] at hcreate
      exact hcreate

/-- The whole loop. -/
theorem meets_writeFiles (files : List (Template.PathBuf × Bytes))
    (h : Progress slash location done [] record w) :
    Meets (Step slash) (Inside location) (Advances slash location (done ++ written files) [])
      (files.foldlM writeFile record).run w := by
  induction files generalizing done record w with
  | nil => simpa [Advances, written] using h
  | cons file files ih =>
      rw [List.foldlM_cons, meets_fallible_bind]
      refine (meets_writeFile h file).imp ?_
      rintro (stopped | record') w' hr
      · exact hr
      · have happend : written (file :: files) = written [file] ++ written files := by
          rw [written, written, written, ← List.filterMap_append, List.singleton_append]
        rw [happend, ← List.append_assoc]
        exact ih hr

end Files

end Destination
end Hegira
