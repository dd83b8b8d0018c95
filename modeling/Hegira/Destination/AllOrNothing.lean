/-
# Creating an application is all or nothing

`AllOrNothing` says what a run of `publish_with` may leave: the application with exactly
the files of the plan where there was nothing, or the tree as others left it; and that on
the way nothing changes but the staging directory.  It holds of every run in which the
staging directory, once made, can be opened, and of no other
(`publish_all_or_nothing_iff`): the record that takes the directory away again is created
after it is opened.
-/

import Hegira.Destination.Cleanup

namespace Hegira
namespace Destination

open Mutator (Bytes Identity intoBytes)
open Template (Fault PathBuf PathComponent)

/-! ### What is meant -/

def directoryAt (tree : Tree) (l : Location) : Option Identity :=
  match tree l with
  | some (.directory i) => some i
  | _ => none

/-- The directory a component leads to. -/
def enter (tree : Tree) (fd : Identity) : PathComponent → Option Identity
  | .rootDir | .curDir => some fd
  | .normal name => directoryAt tree ⟨fd, name⟩
  | .parentDir => directoryAt tree ⟨fd, intoBytes ".."⟩

/-- Where the application is to be. -/
def destinationOf (slash : Identity) (currentDir : Option PathBuf) (output : Bytes) (tree : Tree) :
    Option Location := do
  let path ← (checkedPath currentDir output).toOption
  let parent ← path.parent
  let fd ← parent.components.foldlM (enter tree) slash
  let name ← path.fileName
  return ⟨fd, name⟩

/-- What a relative path leads to from a directory. -/
def lookup (tree : Tree) : Identity → RelativePath → Option Node
  | d, [] => some (.directory d)
  | d, n :: rest =>
      match tree ⟨d, n⟩ with
      | some (.directory i) => lookup tree i rest
      | node => if rest = [] then node else none

/-- The directory holds exactly the files of the plan, and the directories they are in. -/
structure Contains (plan : RenderPlan) (tree : Tree) (root : Identity) : Prop where
  files : ∀ q bytes, (∃ i, lookup tree root q = some (.file i bytes)) ↔
    ∃ path, plan.files[path]? = some bytes ∧ relativeNames path = some q
  directories : ∀ q, (∃ i, lookup tree root q = some (.directory i)) ↔
    q = [] ∨ ∃ path ∈ plan.files, ∃ names, relativeNames path = some names ∧
      q <+: names ∧ q ≠ names
  other : ∀ q i, lookup tree root q ≠ some (.other i)

/-- What a publication may do to the tree `start`. -/
structure AllOrNothing (slash : Identity) (currentDir : Option PathBuf) (processId : Nat)
    (now : Option Nat) (output : Bytes) (plan : RenderPlan) (start : Tree)
    (events : List (Event Call Call.Reply World)) (r : Except Fault Unit) (w : World) : Prop where
  ok : r = .ok () → ∃ destination root,
    destinationOf slash currentDir output start = some destination ∧
      w.left destination = none ∧ w.tree destination = some (.directory root) ∧
      Contains plan w.tree root ∧
      ∀ l, l ≠ destination → ¬Reachable w.tree root l.directory → w.tree l = w.left l
  error : r ≠ .ok () → w.tree = w.left
  confined : ∀ e ∈ events, ∀ phase c, e.call = .fs phase c →
    ∀ l, e.after.tree l ≠ e.before.tree l → ∃ destination nonce,
      destinationOf slash currentDir output start = some destination ∧ now = some nonce ∧
      (InStaging ⟨destination.directory, stagingName processId nonce⟩ e.before.tree l ∨
        r = .ok () ∧ l = destination)

variable {slash : Identity} {left tree : Tree} {staging destination : Location} {shape : Shape}
  {record : Staging} {w : World}

/-! ### The application in its place -/

/-- The staging directory is at the destination, and the rest is as it was left. -/
structure Published (destination : Location) (shape : Shape) (w : World) : Prop where
  shaped : Shaped destination shape w.tree
  absent : w.left destination = none
  elsewhere : ∀ l, l ≠ destination → (∀ q, shape q ≠ some (.directory l.directory)) →
    w.tree l = w.left l

/-- Renaming the staging directory publishes its shape. -/
theorem Staged.published (h : Staged left staging shape tree)
    (hparent : destination.directory = staging.directory) {node : Node}
    (hsource : tree staging = some node) (hfree : tree destination = none) :
    Published destination shape
      ⟨Function.update (Function.update tree staging none) destination (some node), left⟩ := by
  have hne : destination ≠ staging := by
    rintro rfl
    rw [hsource] at hfree
    cases hfree
  have hapart : ∀ q, shape q ≠ some (.directory destination.directory) := fun q => by
    rw [hparent]
    exact h.apart q
  refine ⟨⟨?_, fun q i n hq => ?_, h.closed, h.injective, hapart⟩, ?_, fun l hl hown => ?_⟩
  · dsimp only
    rw [Function.update_self, ← hsource, h.root]
  · have hentry : (⟨i, n⟩ : Location) ≠ destination := by
      rintro rfl
      exact hapart q hq
    dsimp only
    rw [Function.update_of_ne hentry, Function.update_of_ne (h.entry_ne hq n), h.entries q i n hq]
  · exact (h.elsewhere destination hne hapart).symm.trans hfree
  · dsimp only
    rw [Function.update_of_ne hl]
    by_cases hs : l = staging
    · subst hs
      rw [Function.update_self, h.free]
    · rw [Function.update_of_ne hs]
      exact h.elsewhere l hs hown

/-- Looking a path up finds what the shape has there. -/
theorem Shaped.lookup_eq (h : Shaped staging shape tree) (rest : RelativePath) {q : RelativePath}
    {i : Identity} (hq : shape q = some (.directory i)) :
    lookup tree i rest = shape (q ++ rest) := by
  induction rest generalizing q i with
  | nil => rw [lookup, List.append_nil, hq]
  | cons n rest ih =>
      rw [lookup, h.entries q i n hq]
      split
      · rename_i j hj
        rw [ih hj, List.append_assoc, List.singleton_append]
      · rename_i hno
        cases rest with
        | nil => rw [if_pos rfl]
        | cons m rest =>
            have hbelow := h.eq_none_below hno m rest
            rw [if_neg (by simp), ← hbelow, List.append_assoc, List.singleton_append]

/-- A directory of the shape of a plan contains the plan. -/
theorem Represents.contains {plan : RenderPlan} {root : Identity} (h : Shaped staging shape tree)
    (hroot : shape [] = some (.directory root)) (hother : ∀ q i, shape q ≠ some (.other i))
    (hrep : Represents (written plan.files.toList) [] shape) : Contains plan tree root := by
  have hlookup : ∀ q, lookup tree root q = shape q := fun q => h.lookup_eq q hroot
  have hwritten : ∀ q bytes, (q, bytes) ∈ written plan.files.toList ↔
      ∃ path, plan.files[path]? = some bytes ∧ relativeNames path = some q := by
    intro q bytes
    simp [written, Std.TreeMap.mem_toList_iff_getElem?_eq_some]
  refine ⟨fun q bytes => ?_, fun q => ?_, fun q i => ?_⟩
  · rw [hlookup, hrep.files, hwritten]
  · rw [hlookup, hrep.directories, List.prefix_nil]
    refine or_congr_right ⟨?_, ?_⟩
    · rintro ⟨⟨names, bytes⟩, hf, hq⟩
      obtain ⟨path, hpath, hnames⟩ := (hwritten names bytes).1 hf
      exact ⟨path, Std.TreeMap.mem_iff_isSome_getElem?.2 (by simp [hpath]), names, hnames, hq⟩
    · rintro ⟨path, hpath, names, hnames, hq⟩
      obtain ⟨bytes, hbytes⟩ := Option.isSome_iff_exists.1
        (Std.TreeMap.mem_iff_isSome_getElem?.1 hpath)
      exact ⟨(names, bytes), (hwritten names bytes).2 ⟨path, hbytes, hnames⟩, hq⟩
  · rw [hlookup]
    exact hother q i

/-! ### The last steps -/

/-- The events change the staging directory only, or publish it in the end. -/
def Reports {ε : Type} (staging destination : Location) (Q : Except ε Unit → World → Prop)
    (events : List (Event Call Call.Reply World)) (r : Except ε Unit) (w : World) : Prop :=
  (∀ e ∈ events, Confined staging (fun l => r = .ok () ∧ l = destination) e) ∧ Q r w

/-- A part that stays in the staging directory, then the rest. -/
theorem reports_bind {ε β : Type} {Q : Except ε Unit → World → Prop}
    {Q' : Except ε β → World → Prop} {p : Fallible ε Call Call.Reply β}
    {f : β → Fallible ε Call Call.Reply Unit}
    (h : Meets (Step slash) (Inside staging) Q' p.run w)
    (herr : ∀ e w', Q' (.error e) w' → Q (.error e) w')
    (hf : ∀ b w', Q' (.ok b) w' →
      Ends (Step slash) (Reports staging destination Q) (f b).run w') :
    Ends (Step slash) (Reports staging destination Q) (p >>= f).run w := by
  refine h.ends_fallible_bind (fun t t' r w' ht hr => ⟨fun e he => ?_, hr.2⟩)
    (fun e w' hw => ⟨by simp, herr e w' hw⟩) hf
  rcases List.mem_append.1 he with he | he
  · exact (ht e he).mono fun _ h => h.elim
  · exact hr.1 e he

/-- A hook that keeps its promise keeps the shape. -/
theorem meets_hook (h : Holds record shape w) (point : HookPoint) :
    Meets (Step slash) (Inside record.location) (fun _ w' => Holds record shape w')
      (hook point record.location).run w := by
  intro r w' hstep
  cases hstep with
  | hook r huntouched hleft =>
      refine ⟨⟨fun hnot => hnot.elim, fun _ _ hc => nomatch hc⟩, ?_⟩
      exact ⟨h.staged.hook h.recorded.root huntouched hleft, h.recorded⟩

/-- What came of the last steps. -/
def Finished (destination : Location) (record : Staging) (shape : Shape) :
    Except Fault Unit → World → Prop
  | .ok (), w => Published destination shape w
  | .error _, w => Holds record shape w

/-- A part that only looks, then the rest. -/
theorem reports_look {β : Type} {p : Publisher β} {f : β → Publisher Unit} (hp : Looks p)
    (h : Holds record shape w)
    (hf : ∀ b, Ends (Step slash)
      (Reports record.location destination (Finished destination record shape)) (f b).run w) :
    Ends (Step slash) (Reports record.location destination (Finished destination record shape))
      (p >>= f).run w := by
  refine reports_bind (hp.meets.mono (fun e he => he.confined _) fun _ _ h => h) ?_ ?_
  · rintro e w' rfl
    exact h
  · rintro b w' rfl
    exact hf b

/-- The rename is the end of the publication, whether it fails or not. -/
theorem ends_rename (h : Holds record shape w) (hparent : destination.directory = record.parent)
    (onError : Errno → Fault) :
    Ends (Step slash) (Reports record.location destination (Finished destination record shape))
      (fs .publication (.rename record.location destination) onError).run w := by
  refine ends_call.2 fun r w' hstep => ends_done ?_
  have hsame : ∀ e : Errno, Reports record.location destination (Finished destination record shape)
      [⟨w, .fs .publication (.rename record.location destination), .error e, w⟩]
      (.error (onError e)) w := by
    refine fun e => ⟨fun e' he => ?_, h⟩
    cases List.mem_singleton.1 he
    exact confined_same nofun rfl
  cases hstep with
  | fault e => exact hsame e
  | effect heffect =>
      cases heffect with
      | occupied => exact hsame _
      | vanished => exact hsame _
      | renamed hsource hfree =>
          refine ⟨fun e he => ?_, h.staged.published hparent hsource hfree⟩
          cases List.mem_singleton.1 he
          refine ⟨Call.Later.opened nofun, fun _ _ _ l hne => ?_⟩
          by_cases hl : l = destination
          · exact .inr ⟨rfl, hl⟩
          · dsimp only at hne
            rw [Function.update_of_ne hl] at hne
            by_cases hs : l = record.location
            · exact .inl (.inl hs)
            · rw [Function.update_of_ne hs] at hne
              exact absurd rfl hne

theorem ends_stopped (h : Holds record shape w) (fault : Fault) :
    Ends (Step slash) (Reports record.location destination (Finished destination record shape))
      (throw fault : Publisher Unit).run w :=
  ends_done ⟨by simp, h⟩

/-- **The last steps publish the staging directory, or leave it.** -/
theorem ends_finish {output : PathBuf} (h : Holds record shape w)
    (hparent : destination.directory = record.parent)
    (hname : ∀ name, fileName output = .ok name → destination.name = name) :
    Ends (Step slash) (Reports record.location destination (Finished destination record shape))
      (finish output record).run w := by
  rw [finish]
  refine reports_bind (meets_hook h _) (fun _ _ h => h) fun _ w h => ?_
  refine reports_look (looks_openParent output) h fun currentParent => ?_
  refine reports_look (looks_sameDirectory _ _) h fun same => ?_
  split
  · exact ends_stopped h _
  refine reports_look (looks_ensureAbsent _ _) h fun _ => ?_
  refine reports_look (looks_fs (by trivial) _) h fun currentStaging => ?_
  refine reports_look (looks_sameDirectory _ _) h fun same => ?_
  split
  · exact ends_stopped h _
  refine reports_bind (meets_hook h _) (fun _ _ h => h) fun _ w h => ?_
  have hlift : Meets (Step slash) (Inside record.location)
      (fun r w' => w' = w ∧ r = fileName output) (liftExcept (fileName output) : Publisher _).run w :=
    meets_liftExcept.2 ⟨rfl, rfl⟩
  refine reports_bind hlift ?_ ?_
  · rintro e w' ⟨rfl, -⟩
    exact h
  · rintro name w' ⟨rfl, hok⟩
    have hdestination : (⟨record.parent, name⟩ : Location) = destination := by
      rw [← hparent, ← hname name hok.symm]
    rw [hdestination]
    exact ends_rename h hparent _

/-! ### The whole -/

/-- What came of the staging. -/
def Settled (location destination : Location) (plan : RenderPlan) :
    Except Stopped Unit → World → Prop
  | .ok (), w => ∃ shape root, Published destination shape w ∧
      shape [] = some (.directory root) ∧ Contains plan w.tree root
  | .error stopped, w => Kept location stopped.staging w

/-- What a staged publication may end in. -/
theorem ends_stage {output : PathBuf} {plan : RenderPlan} {location : Location}
    (h : Progress slash location [] [] record w)
    (hparent : destination.directory = location.directory)
    (hname : ∀ name, fileName output = .ok name → destination.name = name) :
    Ends (Step slash) (Reports location destination (Settled location destination plan))
      (stage output plan record).run w := by
  rw [stage]
  refine reports_bind (meets_writeFiles plan.files.toList h) (fun _ _ h => h) ?_
  rintro record w ⟨rfl, -, shape, hholds, hrep⟩
  refine Ends.adapt ((ends_finish hholds hparent hname).imp ?_)
  rintro t (fault | ok) w' ⟨hevents, hr⟩
  · exact ⟨fun e he => (hevents e he).mono fun _ h => (nomatch h.1), rfl, shape, hr⟩
  · refine ⟨fun e he => (hevents e he).mono fun _ h => ⟨rfl, h.2⟩, shape, record.fd, hr,
      hholds.recorded.root, ?_⟩
    exact hrep.contains hr.shaped hholds.recorded.root hholds.recorded.other

/-- The destination was free and holds the plan, or everything is as it was left. -/
def Concluded (destination : Location) (plan : RenderPlan) : Except Fault Unit → World → Prop
  | .ok (), w => ∃ root, w.left destination = none ∧
      w.tree destination = some (.directory root) ∧ Contains plan w.tree root ∧
      ∀ l, l ≠ destination → ¬Reachable w.tree root l.directory → w.tree l = w.left l
  | .error _, w => w.tree = w.left

/-- A published plan is the conclusion that was claimed. -/
theorem Published.concluded {plan : RenderPlan} {root : Identity}
    (h : Published destination shape w) (hroot : shape [] = some (.directory root))
    (hcontains : Contains plan w.tree root) : Concluded destination plan (.ok ()) w := by
  refine ⟨root, h.absent, h.shaped.root.trans hroot, hcontains, fun l hl hreach => ?_⟩
  refine h.elsewhere l hl fun q hq => hreach ?_
  exact (h.shaped.reachable_iff hroot).2 ⟨q, hq⟩

/-- **From the moment the staging directory is open, it is all or nothing.** -/
theorem ends_publishStaging (destination : Location) {output : PathBuf} {plan : RenderPlan}
    (h : Progress slash record.location [] [] record w)
    (hparent : destination.directory = record.parent)
    (hname : ∀ name, fileName output = .ok name → destination.name = name) :
    Ends (Step slash) (Reports record.location destination (Concluded destination plan))
      (publishStaging output plan record).run w := by
  rw [publishStaging]
  have hstage : Ends (Step slash)
      (fun t r w' => ∃ r', r = .ok r' ∧
        Reports record.location destination (Settled record.location destination plan) t r' w')
      (attempt (stage output plan record) : Publisher _).run w :=
    Ends.attempt ((ends_stage h hparent hname).imp fun t r w hr => ⟨r, rfl, hr⟩)
  refine hstage.fallible_bind (fun t e w' hr => ?_) ?_
  · obtain ⟨r', heq, -⟩ := hr
    cases heq
  · rintro t r w' ⟨_, heq, hevents, hr⟩
    cases heq
    rcases r with stopped | ok
    · obtain ⟨hloc, shape', hholds⟩ := hr
      have hdrop : Meets (Step slash) (Inside record.location)
          (fun r w => r = .ok () ∧ w.tree = w.left)
          (ExceptT.lift (drop stopped.staging) : Publisher Unit).run w' :=
        meets_lift.2 ((hloc ▸ meets_drop hholds).imp fun _ _ hw => ⟨rfl, hw⟩)
      refine hdrop.ends_fallible_bind (fun t₁ t₂ r w ht₁ hr => ⟨fun e he => ?_, hr.2⟩)
        (fun _ _ hw => nomatch hw.1) fun _ w hw => ends_done ⟨?_, hw.2⟩
      · rcases List.mem_append.1 he with he | he
        · exact hr.1 e (List.mem_append_left _ he)
        · rcases List.mem_append.1 he with he | he
          · exact (ht₁ e he).mono fun _ h => h.elim
          · exact hr.1 e (List.mem_append_right _ he)
      · rw [List.append_nil]
        exact fun e he => (hevents e he).mono fun _ h => (nomatch h.1)
    · obtain ⟨shape', root, hpublished, hroot, hcontains⟩ := hr
      refine ends_done ⟨?_, hpublished.concluded hroot hcontains⟩
      simpa using hevents

/-! ### The way to the staging directory -/

/-- Opening one component enters it. -/
theorem meets_openComponent (fd : Identity) (component : PathComponent) :
    Meets (Step slash) Still
      (fun r w' => w' = w ∧ ∀ i, r = .ok i → enter w.tree fd component = some i)
      (openComponent fd component).run w := by
  have hopen : ∀ name, Meets (Step slash) Still
      (fun r w' => w' = w ∧ ∀ i, r = .ok i → directoryAt w.tree ⟨fd, name⟩ = some i)
      (fs .publication (.openDirectory ⟨fd, name⟩) fun _ =>
        safety "destination parent must already exist and contain no symlinks; choose or create a real parent directory").run
      w := by
    refine fun name => meets_read (by trivial) fun r w' hstep => ?_
    cases hstep with
    | fault e => exact ⟨rfl, fun i hi => nomatch hi⟩
    | effect heffect =>
        cases heffect with
        | notOpened e hno => exact ⟨rfl, fun i hi => nomatch hi⟩
        | opened hl =>
            refine ⟨rfl, fun i hi => ?_⟩
            cases hi
            simp only [directoryAt, hl]
  cases component with
  | rootDir | curDir => exact ⟨rfl, fun i hi => by cases hi; rfl⟩
  | normal name => exact hopen name
  | parentDir => exact hopen (intoBytes "..")

/-- Opening them in turn enters the directory they name. -/
theorem meets_openComponents (parts : List PathComponent) (fd : Identity) :
    Meets (Step slash) Still
      (fun r w' => w' = w ∧ ∀ i, r = .ok i → parts.foldlM (enter w.tree) fd = some i)
      (parts.foldlM openComponent fd).run w := by
  induction parts generalizing fd w with
  | nil => exact ⟨rfl, fun i hi => by cases hi; rfl⟩
  | cons component parts ih =>
      change Meets _ _ _ (ExceptT.run (openComponent fd component >>= parts.foldlM openComponent)) _
      rw [meets_fallible_bind]
      refine (meets_openComponent fd component).imp ?_
      rintro (fault | i) w' ⟨rfl, hi⟩
      · exact ⟨rfl, fun j hj => nomatch hj⟩
      · refine (ih i).imp fun r w'' hr => ⟨hr.1, fun j hj => ?_⟩
        rw [List.foldlM_cons, hi i rfl]
        exact hr.2 j hj

/-- The parent that is opened is the one the path names. -/
theorem meets_openParent (path : PathBuf) :
    Meets (Step slash) Still
      (fun r w' => w' = w ∧ ∀ i, r = .ok i → ∃ parent, path.parent = some parent ∧
        parent.components.foldlM (enter w.tree) slash = some i)
      (openParent path).run w := by
  rw [openParent, meets_fallible_bind, meets_liftExcept]
  cases hparent : path.parent with
  | none => exact ⟨rfl, fun i hi => nomatch hi⟩
  | some parent =>
      change Meets _ _ _ (ExceptT.run (_ >>= _)) _
      rw [meets_fallible_bind]
      refine meets_read (by trivial) fun r w' hstep => ?_
      cases hstep with
      | fault e => exact ⟨rfl, fun i hi => nomatch hi⟩
      | effect heffect =>
          cases heffect with
          | openedSlash =>
              exact (meets_openComponents parent.components slash).imp fun r w' hr =>
                ⟨hr.1, fun i hi => ⟨parent, rfl, hr.2 i hi⟩⟩

/-- A directory that was opened is known. -/
theorem known_of_enter {parts : List PathComponent} {fd i : Identity}
    (hfd : Known slash tree fd) (h : parts.foldlM (enter tree) fd = some i) :
    Known slash tree i := by
  induction parts generalizing fd with
  | nil =>
      cases h
      exact hfd
  | cons component parts ih =>
      rw [List.foldlM_cons] at h
      obtain ⟨j, hj, h⟩ := Option.bind_eq_some_iff.1 h
      refine ih ?_ h
      have hat : ∀ l, directoryAt tree l = some j → Known slash tree j := by
        intro l hl
        rw [directoryAt] at hl
        split at hl
        · rename_i k hk
          cases hl
          exact .inr ⟨l, _, hk, rfl⟩
        · cases hl
      cases component with
      | rootDir | curDir =>
          cases hj
          exact hfd
      | normal name => exact hat _ hj
      | parentDir => exact hat _ hj

/-- A destination that is absent has a name. -/
theorem meets_ensureAbsent (parent : Identity) (path : PathBuf) :
    Meets (Step slash) Still
      (fun r w' => w' = w ∧ (r = .ok () → ∃ name, path.fileName = some name))
      (ensureAbsent parent path).run w := by
  cases hname : path.fileName with
  | some name =>
      exact (looks_ensureAbsent parent path).meets.imp fun _ _ h => ⟨h, fun _ => ⟨name, rfl⟩⟩
  | none =>
      rw [ensureAbsent, meets_fallible_bind, meets_liftExcept, fileName, hname]
      exact ⟨rfl, fun h => nomatch h⟩

/-- A fresh directory is a staging directory with nothing in it. -/
theorem progress_start {parent fresh : Identity} {name : Name} (hknown : Known slash tree parent)
    (hnone : tree ⟨parent, name⟩ = none) (hfresh : Unused slash tree fresh) :
    Progress slash ⟨parent, name⟩ [] [] ⟨parent, name, fresh, [], []⟩
      ⟨Function.update tree ⟨parent, name⟩ (some (.directory fresh)), tree⟩ := by
  have hne : parent ≠ fresh := by
    rintro rfl
    rcases hknown with heq | ⟨l, node, hl, heq⟩
    · exact hfresh.slash heq
    · exact hfresh.nodes l node hl heq
  let shape : Shape := fun q => if q = [] then some (.directory fresh) else none
  have hdir : ∀ q i, shape q = some (.directory i) ↔ q = [] ∧ i = fresh := by
    intro q i
    by_cases hq : q = [] <;> simp [shape, hq, eq_comm]
  have hcons : ∀ q n, shape (q ++ [n]) = none := fun q n => if_neg (by simp)
  have hentry : ∀ n, (⟨fresh, n⟩ : Location) ≠ ⟨parent, name⟩ := fun n heq => by
    cases heq
    exact hne rfl
  refine ⟨rfl, hknown, shape, ⟨⟨⟨?_, ?_, ?_, ?_, ?_⟩, ?_, hnone, ?_⟩, ?_⟩, ?_, ?_⟩
  · exact Function.update_self ..
  · intro q i n hq
    obtain ⟨rfl, rfl⟩ := (hdir q i).1 hq
    rw [hcons]
    exact (Function.update_of_ne (hentry n) ..).trans (hfresh.entries n)
  · exact fun q n h => absurd (hcons q n) h
  · exact fun q q' i hq hq' => ((hdir q i).1 hq).1.trans ((hdir q' i).1 hq').1.symm
  · exact fun q hq => hne ((hdir q _).1 hq).2
  · exact fun l hl _ => Function.update_of_ne hl ..
  · intro q i n hq
    obtain ⟨rfl, rfl⟩ := (hdir q i).1 hq
    exact hfresh.entries n
  · refine ⟨(hdir [] fresh).2 ⟨rfl, rfl⟩, fun q => ?_, fun q => ?_, fun q i hq => ?_,
      List.nodup_nil, List.nodup_nil⟩
    · simp only [hdir]
      simp
    · by_cases hq : q = [] <;> simp [shape, hq]
    · by_cases hq' : q = [] <;> simp [shape, hq'] at hq
  · intro q bytes
    by_cases hq : q = [] <;> simp [shape, hq]
  · intro q
    simp only [hdir]
    simp

/-! ### Runs -/

section Runs

variable {currentDir : Option PathBuf} {processId : Nat} {now : Option Nat} {output : Bytes}
  {plan : RenderPlan} {events events' : List (Event Call Call.Reply World)}
  {r : Except Fault Unit}

/-- What changes nothing does not matter. -/
theorem allOrNothing_append (h : ∀ e ∈ events, Still e) :
    AllOrNothing slash currentDir processId now output plan tree (events ++ events') r w ↔
      AllOrNothing slash currentDir processId now output plan tree events' r w := by
  constructor <;> intro ha
  · exact ⟨ha.ok, ha.error, fun e he => ha.confined e (List.mem_append_right _ he)⟩
  · refine ⟨ha.ok, ha.error, fun e he phase c hc l hne => ?_⟩
    rcases List.mem_append.1 he with he | he
    · rw [(h e he).same] at hne
      exact absurd rfl hne
    · exact ha.confined e he phase c hc l hne

/-- The publication is all or nothing just when the staging directory could be opened. -/
def Exact (slash : Identity) (currentDir : Option PathBuf) (processId : Nat) (now : Option Nat)
    (output : Bytes) (plan : RenderPlan) (tree : Tree)
    (events : List (Event Call Call.Reply World)) (r : Except Fault Unit) (w : World) : Prop :=
  AllOrNothing slash currentDir processId now output plan tree events r w ↔
    ∀ e ∈ events, ¬StagingNotOpened e

/-- Calls that change nothing may come first. -/
theorem Exact.append (h : ∀ e ∈ events, Still e)
    (hexact : Exact slash currentDir processId now output plan tree events' r w) :
    Exact slash currentDir processId now output plan tree (events ++ events') r w := by
  refine (allOrNothing_append h).trans (Iff.trans hexact ?_)
  rw [List.forall_mem_append]
  exact (and_iff_right fun e he => (h e he).opened).symm

/-- Nothing was done. -/
theorem exact_failed (fault : Fault) :
    Exact slash currentDir processId now output plan tree [] (.error fault) ⟨tree, tree⟩ :=
  iff_of_true ⟨fun h => (nomatch h), fun _ => rfl, fun _ h => (nomatch h)⟩ fun _ h => (nomatch h)

/-- The report of a publication, in terms of the tree it started from. -/
theorem Reports.exact
    (hdestination : destinationOf slash currentDir output tree = some destination)
    {nonce : Nat} (hnow : now = some nonce)
    (h : Reports ⟨destination.directory, stagingName processId nonce⟩ destination
      (Concluded destination plan) events r w) :
    Exact slash currentDir processId now output plan tree events r w := by
  refine iff_of_true ⟨?_, ?_, ?_⟩ fun e he => (h.1 e he).opened
  · rintro rfl
    obtain ⟨root, habsent, hplace, hcontains, helsewhere⟩ := h.2
    exact ⟨destination, root, hdestination, habsent, hplace, hcontains, helsewhere⟩
  · intro hr
    cases r with
    | ok => exact absurd rfl hr
    | error fault => exact h.2
  · exact fun e he phase c hc l hne =>
      ⟨destination, nonce, hdestination, hnow, (h.1 e he).changes phase c hc l hne⟩

/-- A part that only looks, before anything was done. -/
theorem ends_look {β : Type} {p : Publisher β} {f : β → Publisher Unit}
    {Q : Except Fault β → Prop}
    (h : Meets (Step slash) Still (fun r w' => w' = ⟨tree, tree⟩ ∧ Q r) p.run ⟨tree, tree⟩)
    (hf : ∀ b, Q (.ok b) → Ends (Step slash)
      (Exact slash currentDir processId now output plan tree) (f b).run ⟨tree, tree⟩) :
    Ends (Step slash) (Exact slash currentDir processId now output plan tree) (p >>= f).run
      ⟨tree, tree⟩ := by
  refine h.ends_fallible_bind (fun t t' r w ht hr => hr.append ht) ?_ ?_
  · rintro fault w' ⟨rfl, -⟩
    exact exact_failed fault
  · rintro b w' ⟨rfl, hb⟩
    exact hf b hb

/-- A pure check in front ends in its error, or not at all. -/
theorem ends_lift {β : Type} {x : Except Fault β} {f : β → Publisher Unit}
    (hf : ∀ b, x = .ok b → Ends (Step slash)
      (Exact slash currentDir processId now output plan tree) (f b).run ⟨tree, tree⟩) :
    Ends (Step slash) (Exact slash currentDir processId now output plan tree)
      (liftExcept x >>= f).run ⟨tree, tree⟩ :=
  ends_look (Q := (x = ·)) (meets_liftExcept.2 ⟨rfl, rfl⟩) hf

/-- A call that changed nothing, before anything was done. -/
theorem exact_refused {c : FsCall} (e : Errno) (fault : Fault)
    (hc : (Call.fs .publication c).Later) :
    Exact slash currentDir processId now output plan tree
      [⟨⟨tree, tree⟩, .fs .publication c, .error e, ⟨tree, tree⟩⟩] (.error fault) ⟨tree, tree⟩ := by
  change Exact slash currentDir processId now output plan tree ([_] ++ []) _ _
  refine (exact_failed fault).append fun e' he => ?_
  cases List.mem_singleton.1 he
  exact ⟨hc.opened, rfl⟩

/-- The staging directory is made and could not be opened: it stays. -/
theorem exact_notOpened {l : Location} {fresh : Identity} (hnone : tree l = none)
    (fault : Fault) (hnot : ∃ e ∈ events, StagingNotOpened e) :
    Exact slash currentDir processId now output plan tree events (.error fault)
      ⟨Function.update tree l (some (.directory fresh)), tree⟩ := by
  obtain ⟨e, he, hnot⟩ := hnot
  refine iff_of_false (fun h => ?_) fun h => h e he hnot
  have hl := congrFun (h.error nofun) l
  dsimp only at hl
  rw [Function.update_self, hnone] at hl
  cases hl

/-- From the absence of the destination on. -/
theorem ends_staged {path : PathBuf} {parent : Identity} {name : Name} {nonce : ℕ}
    (hdestination : destinationOf slash currentDir output tree = some ⟨parent, name⟩)
    (hname : path.fileName = some name) (hnow : now = some nonce)
    (hknown : Known slash tree parent) (onError onError' : Errno → Fault) :
    Ends (Step slash) (Exact slash currentDir processId now output plan tree)
      ((fs .publication (.makeDirectory ⟨parent, stagingName processId nonce⟩) onError >>= fun _ =>
        fs .publication (.openStaging ⟨parent, stagingName processId nonce⟩) onError' >>= fun fd =>
          publishStaging path plan ⟨parent, stagingName processId nonce, fd, [], []⟩ :
        Publisher Unit).run) ⟨tree, tree⟩ := by
  refine ends_call.2 fun r w hstep => ?_
  cases hstep with
  | fault e => exact ends_done (exact_refused e _ nofun)
  | effect heffect =>
    cases heffect with
    | notMade => exact ends_done (exact_refused _ _ nofun)
    | @madeDirectory _ fresh hnone hfresh =>
      have hmade := progress_start hknown hnone hfresh
      refine ends_call.2 fun r w hstep => ?_
      cases hstep with
      | fault e =>
        exact ends_done (exact_notOpened hnone _ ⟨_, .tail _ (.head _), trivial⟩)
      | effect heffect =>
        cases heffect with
        | notOpenedStaging e hno => exact absurd (Function.update_self ..) (hno fresh)
        | @openedStaging _ opened hfd =>
          obtain rfl : fresh = opened := by simpa using hfd
          have hfile : ∀ name', fileName path = .ok name' → name = name' := fun name' h => by
            rw [fileName, hname] at h
            exact Except.ok.inj h
          refine (ends_publishStaging ⟨parent, name⟩ hmade rfl hfile).imp fun t r w hr => ?_
          refine Reports.exact hdestination hnow ⟨?_, hr.2⟩
          refine List.forall_mem_cons.2 ⟨?_, List.forall_mem_cons.2 ⟨?_, hr.1⟩⟩
          · exact confined_update nofun rfl (.inl (.inl rfl))
          · exact ⟨fun h => h.elim, fun _ _ _ l hne => absurd rfl hne⟩

/-- **Every complete run** ends as `Exact` says. -/
theorem ends_publishWith :
    Ends (Step slash) (Exact slash currentDir processId now output plan tree)
      (publishWith currentDir processId now output plan).run ⟨tree, tree⟩ := by
  rw [publishWith]
  refine ends_lift fun path hpath => ?_
  refine ends_look (meets_openParent path) fun parent hparent => ?_
  obtain ⟨parentPath, hpp, hfold⟩ := hparent parent rfl
  refine ends_look (meets_ensureAbsent parent path) fun _ habsent => ?_
  obtain ⟨name, hname⟩ := habsent rfl
  refine ends_lift fun nonce hnonce => ?_
  have hnow : now = some nonce := by
    cases now with
    | none => cases hnonce
    | some n => exact congrArg some (Except.ok.inj hnonce)
  have hdestination : destinationOf slash currentDir output tree = some ⟨parent, name⟩ := by
    simp [destinationOf, hpath, hpp, hfold, hname, Except.toOption]
  exact ends_staged hdestination hname hnow (known_of_enter (.inl rfl) hfold) _ _

/-- **Creating an application is all or nothing**, just when the staging directory that
was made can be opened. -/
theorem publish_all_or_nothing_iff
    (hrun : Runs (Step slash) (publishWith currentDir processId now output plan).run
      ⟨tree, tree⟩ events (.done r) w) :
    AllOrNothing slash currentDir processId now output plan tree events r w ↔
      ∀ e ∈ events, ¬StagingNotOpened e :=
  ends_publishWith events r w hrun

end Runs

/-! ### Trees with few entries -/

/-- The directory `/`. -/
@[simp] def rootDirectory : Identity := ⟨0, 0⟩

/-- The tree with these entries. -/
def treeOf (entries : List (Location × Node)) : Tree := fun l => entries.lookup l

section Entries

variable {α β : Type} {entries : List (Location × Node)} {left : Tree} {l : Location}
  {fresh : Identity}

@[simp] theorem treeOf_nil (l : Location) : treeOf [] l = none := rfl

/-- The first entry of a location counts. -/
@[simp] theorem treeOf_cons (l l' : Location) (node : Node) :
    treeOf ((l', node) :: entries) l = if l = l' then some node else treeOf entries l := by
  by_cases h : l = l'
  · subst h
    simp [treeOf]
  · simp [treeOf, h, List.lookup_cons, beq_eq_false_iff_ne.2 h]

/-- A new entry hides an old one. -/
theorem update_treeOf (l : Location) (node : Node) :
    Function.update (treeOf entries) l (some node) = treeOf ((l, node) :: entries) := by
  funext l'
  rw [Function.update_apply, treeOf_cons]

/-- Looking up among the entries that are kept. -/
theorem lookup_filter (kept : Location → Bool) :
    (entries.filter fun e => kept e.1).lookup l = if kept l then entries.lookup l else none := by
  induction entries with
  | nil => simp
  | cons e entries ih =>
      obtain ⟨l', node⟩ := e
      by_cases h : l = l'
      · subst h
        by_cases hk : kept l <;> simp [hk, ih]
      · by_cases hk : kept l' <;> simp [hk, List.lookup_cons, beq_eq_false_iff_ne.2 h, ih]

/-- An entry goes. -/
theorem update_treeOf_none (l : Location) :
    Function.update (treeOf entries) l none = treeOf (entries.filter (·.1 ≠ l)) := by
  funext l'
  rw [treeOf, lookup_filter fun l' => l' ≠ l]
  by_cases h : l' = l <;> simp [treeOf, h]

/-- What is in the tree is an entry. -/
theorem mem_of_treeOf {node : Node} (h : treeOf entries l = some node) : (l, node) ∈ entries := by
  obtain ⟨l₁, l₂, rfl, -⟩ := List.lookup_eq_some_iff.1 h
  simp

/-- A directory without entries is empty. -/
theorem empty_treeOf {d : Identity} (h : ∀ e ∈ entries, e.1.directory ≠ d) (name : Name) :
    treeOf entries ⟨d, name⟩ = none := by
  by_contra hne
  obtain ⟨node, hnode⟩ := Option.ne_none_iff_exists'.1 hne
  exact h _ (mem_of_treeOf hnode) rfl

/-- An identity that no entry has is unused. -/
theorem unused_treeOf (h : fresh ≠ rootDirectory ∧
    ∀ e ∈ entries, e.1.directory ≠ fresh ∧ e.2.identity ≠ fresh) :
    Unused rootDirectory (treeOf entries) fresh where
  slash := h.1
  entries := empty_treeOf fun e he => (h.2 e he).1
  nodes _ _ hl := (h.2 _ (mem_of_treeOf hl)).2

/-- The file that is made and written to. -/
theorem written_treeOf (identity : Identity) (bytes : Bytes) :
    Function.update (Function.update (treeOf entries) l (some (.file identity []))) l
      (some (.file identity bytes)) = treeOf ((l, .file identity bytes) :: entries) := by
  rw [Function.update_idem, update_treeOf]

/-- A directory is made by one more entry. -/
theorem made_treeOf (h : treeOf entries l = none)
    (hfresh : Unused rootDirectory (treeOf entries) fresh) :
    Effect rootDirectory (treeOf entries) (.makeDirectory l) (.ok ())
      (treeOf ((l, .directory fresh) :: entries)) := by
  rw [← update_treeOf]
  exact .madeDirectory h hfresh

/-- A file is unlinked by leaving its entries out. -/
theorem unlinked_treeOf {node : Node} {rest : List (Location × Node)}
    (h : treeOf entries l = some node) (hfile : ∀ identity, node ≠ .directory identity)
    (hrest : entries.filter (·.1 ≠ l) = rest) :
    Effect rootDirectory (treeOf entries) (.unlink l) (.ok ()) (treeOf rest) := by
  rw [← hrest, ← update_treeOf_none]
  exact .unlinked h hfile

theorem removed_treeOf {identity : Identity} {rest : List (Location × Node)}
    (h : treeOf entries l = some (.directory identity))
    (hempty : ∀ e ∈ entries, e.1.directory ≠ identity) (hrest : entries.filter (·.1 ≠ l) = rest) :
    Effect rootDirectory (treeOf entries) (.removeDirectory l) (.ok ()) (treeOf rest) := by
  rw [← hrest, ← update_treeOf_none]
  exact .removed h (empty_treeOf hempty)

/-- A node is renamed by moving its entry. -/
theorem renamed_treeOf {l' : Location} {node : Node} {rest : List (Location × Node)}
    (h : treeOf entries l = some node) (hfree : treeOf entries l' = none)
    (hrest : entries.filter (·.1 ≠ l) = rest) :
    Effect rootDirectory (treeOf entries) (.rename l l') (.ok ()) (treeOf ((l', node) :: rest)) := by
  rw [← hrest, ← update_treeOf, ← update_treeOf_none]
  exact .renamed h hfree

/-- The directories below `root` are these. -/
theorem reachable_treeOf {root d : Identity} {directories : List Identity}
    (hclosed : ∀ e ∈ entries, e.1.directory ∈ directories → e.2 = .directory e.2.identity →
      e.2.identity ∈ directories) (hroot : root ∈ directories)
    (h : Reachable (treeOf entries) root d) : d ∈ directories := by
  induction h with
  | refl => exact hroot
  | step h hchild ih => exact hclosed _ (mem_of_treeOf hchild) ih rfl

/-- Others are left what lies outside the staging directory. -/
theorem without_treeOf {staging : Location} {root : Identity} {directories : List Identity}
    (hstaging : treeOf entries staging = some (.directory root))
    (hdirectories : ∀ d, d ∈ directories ↔ Reachable (treeOf entries) root d) :
    Without staging (treeOf entries)
      (treeOf (entries.filter fun e => e.1 ≠ staging ∧ e.1.directory ∉ directories)) := by
  have hin : ∀ l, InStaging staging (treeOf entries) l ↔
      l = staging ∨ l.directory ∈ directories := by
    intro l
    simp only [InStaging, hstaging, hdirectories]
    refine or_congr_right ⟨?_, fun h => ⟨root, rfl, h⟩⟩
    rintro ⟨i, hi, h⟩
    cases hi
    exact h
  constructor
  · intro l hl
    rw [treeOf, lookup_filter fun l => l ≠ staging ∧ l.directory ∉ directories, if_neg]
    simpa [imp_iff_not_or] using (hin l).1 hl
  · intro l hl
    rw [treeOf, lookup_filter fun l => l ≠ staging ∧ l.directory ∉ directories, if_pos]
    · rfl
    · simpa [not_or] using mt (hin l).2 hl

/-- The fault of a write that fails. -/
def writeFailed : Fault :=
  safety "failed to write rendered file; check disk space and permissions"

/-- A complete run in which the staging directory could be opened. -/
def Completes (p : Program Call Call.Reply α) (w : World) (a : α) (w' : World) : Prop :=
  ∃ events, Runs (Step rootDirectory) p w events (.done a) w' ∧ ∀ e ∈ events, ¬StagingNotOpened e

namespace Completes

variable {a : α} {b : β} {w w₁ w' : World}

/-- A program that is done completes where it is. -/
theorem done : Completes (.done a) w a w :=
  ⟨[], .refl _ _, fun _ h => by cases h⟩

/-- A call completes as its continuation does. -/
theorem call {c : Call} {r : c.Reply} {next : c.Reply → Program Call Call.Reply α}
    (hstep : Step rootDirectory w c r w₁) (hopened : ¬StagingNotOpened ⟨w, c, r, w₁⟩)
    (h : Completes (next r) w₁ a w') : Completes (.call c next) w a w' := by
  obtain ⟨events, hrun, hevents⟩ := h
  exact ⟨_, .step hstep hrun, List.forall_mem_cons.2 ⟨hopened, hevents⟩⟩

/-- Complete runs compose. -/
theorem bind {p : Program Call Call.Reply α} {f : α → Program Call Call.Reply β}
    (hp : Completes p w a w₁) (hf : Completes (f a) w₁ b w') : Completes (p >>= f) w b w' := by
  obtain ⟨events, hrun, hevents⟩ := hp
  obtain ⟨events', hrun', hevents'⟩ := hf
  exact ⟨_, hrun.bind hrun', List.forall_mem_append.2 ⟨hevents, hevents'⟩⟩

variable {ε : Type}

/-- Successes compose. -/
theorem ok_bind {p : Fallible ε Call Call.Reply α} {f : α → Fallible ε Call Call.Reply β}
    {r : Except ε β} (hp : Completes p.run w (.ok a) w₁) (hf : Completes (f a).run w₁ r w') :
    Completes (p >>= f).run w r w' := by
  rw [fallible_bind_eq]
  exact hp.bind hf

/-- An error ends a sequence. -/
theorem error_bind {p : Fallible ε Call Call.Reply α} {f : α → Fallible ε Call Call.Reply β}
    {e : ε} (hp : Completes p.run w (.error e) w₁) : Completes (p >>= f).run w (.error e) w₁ := by
  rw [fallible_bind_eq]
  exact hp.bind .done

/-- Naming the staging directory in the error leaves the run. -/
theorem onto {p : Publisher α} {staging : Staging} {r : Except Fault α}
    (hp : Completes p.run w r w') :
    Completes (onto staging p).run w (r.mapError fun fault => ⟨fault, staging⟩) w' :=
  hp.bind .done

/-- A call that works. -/
theorem effect {phase : Phase} {c : FsCall} {value : c.Value} {onError : Errno → Fault}
    {tree : Tree} (h : Effect rootDirectory w.tree c (.ok value) tree) :
    Completes (fs phase c onError).run w (.ok value) ⟨tree, w.left⟩ :=
  call (.effect h) (by simp [StagingNotOpened]) done

variable {staging : Staging} {directory : RelativePath} {name : Name} {bytes : Bytes}
  {fd : Identity}

/-- A file is made and written. -/
theorem createFile (hfd : Completes (descend .publication staging.fd directory).run
      ⟨treeOf entries, left⟩ (.ok fd) ⟨treeOf entries, left⟩)
    (hnone : treeOf entries ⟨fd, name⟩ = none)
    (hfresh : Unused rootDirectory (treeOf entries) fresh) :
    Completes (createFile staging directory name bytes).run ⟨treeOf entries, left⟩
      (.ok { staging with files := staging.files ++ [directory ++ [name]] })
      ⟨treeOf ((⟨fd, name⟩, .file fresh bytes) :: entries), left⟩ := by
  rw [← written_treeOf]
  refine (onto hfd).ok_bind <| (onto (effect (.created hnone hfresh))).ok_bind <|
    (onto (effect (.wrote (Function.update_self ..)))).ok_bind ?_
  rw [List.drop_nil, List.append_nil]
  exact done

/-- A write that fails when a part is written. -/
theorem partly {identity : Identity} {old : Bytes} {onError : Errno → Fault} (written : Bytes)
    (e : Errno) (h : w.tree l = some (.file identity old)) :
    Completes (fs .publication (.writeAll l bytes) onError).run w (.error (onError e))
      ⟨Function.update w.tree l (some (.file identity written)), w.left⟩ :=
  call (.partly written e h) not_false done

/-- A file is made, and cannot be written whole. -/
theorem createFile_partly (hfd : Completes (descend .publication staging.fd directory).run
      ⟨treeOf entries, left⟩ (.ok fd) ⟨treeOf entries, left⟩)
    (hnone : treeOf entries ⟨fd, name⟩ = none)
    (hfresh : Unused rootDirectory (treeOf entries) fresh) (written : Bytes) (e : Errno) :
    Completes (Destination.createFile staging directory name bytes).run ⟨treeOf entries, left⟩
      (.error ⟨writeFailed, { staging with files := staging.files ++ [directory ++ [name]] }⟩)
      ⟨treeOf ((⟨fd, name⟩, .file fresh written) :: entries), left⟩ := by
  rw [← written_treeOf]
  let w : World := ⟨Function.update (treeOf entries) ⟨fd, name⟩ (some (.file fresh [])), left⟩
  have hmade : w.tree ⟨fd, name⟩ = some (.file fresh []) := Function.update_self ..
  exact (onto hfd).ok_bind <| (onto (effect (.created hnone hfresh))).ok_bind <|
    error_bind (onto (partly written e hmade))

/-- Descending along no name duplicates the descriptor. -/
theorem duplicate {phase : Phase} {root : Identity} :
    Completes (descend phase root []).run w (.ok root) w :=
  (effect .duplicated).ok_bind done

/-- A directory in the staging directory is opened. -/
theorem descend {phase : Phase} {root : Identity} {name : Name} (fd : Identity)
    (h : treeOf entries ⟨root, name⟩ = some (.directory fd)) :
    Completes (descend phase root [name]).run ⟨treeOf entries, left⟩ (.ok fd)
      ⟨treeOf entries, left⟩ :=
  (effect .duplicated).ok_bind <| (effect (.opened h)).ok_bind done

/-- The clean-up of a recorded file. -/
theorem removeFile {root fd : Identity} {file : RelativePath} {rest : List (Location × Node)}
    (hfd : Completes (Destination.descend .cleanup root file.dropLast).run ⟨treeOf entries, left⟩
      (.ok fd) ⟨treeOf entries, left⟩) (identity : Identity) (bytes : Bytes)
    (h : treeOf entries ⟨fd, file.getLastD []⟩ = some (.file identity bytes))
    (hrest : entries.filter (·.1 ≠ ⟨fd, file.getLastD []⟩) = rest) :
    Completes (removeFile root file) ⟨treeOf entries, left⟩ () ⟨treeOf rest, left⟩ :=
  hfd.bind <| call (.effect (unlinked_treeOf h (fun _ h => by cases h) hrest)) not_false done

/-- The clean-up of a recorded directory that is empty. -/
theorem removeDirectory {root fd : Identity} {directory : RelativePath}
    {rest : List (Location × Node)}
    (hfd : Completes (Destination.descend .cleanup root directory.dropLast).run
      ⟨treeOf entries, left⟩ (.ok fd) ⟨treeOf entries, left⟩) (identity : Identity)
    (h : treeOf entries ⟨fd, directory.getLastD []⟩ = some (.directory identity))
    (hempty : ∀ e ∈ entries, e.1.directory ≠ identity)
    (hrest : entries.filter (·.1 ≠ ⟨fd, directory.getLastD []⟩) = rest) :
    Completes (removeDirectory root directory) ⟨treeOf entries, left⟩ () ⟨treeOf rest, left⟩ :=
  hfd.bind <| call (.effect (removed_treeOf h hempty hrest)) not_false done

/-- Two directories are the same when their identities are. -/
theorem sameDirectory {phase : Phase} {a b : Identity} :
    Completes (sameDirectory phase a b).run w (.ok (a == b)) w :=
  (effect .stated).ok_bind <| (effect .stated).ok_bind done

/-- The clean-up of the staging directory itself. -/
theorem removeStaging {staging : Staging} {rest : List (Location × Node)}
    (h : treeOf entries ⟨staging.parent, staging.name⟩ = some (.directory staging.fd))
    (hempty : ∀ e ∈ entries, e.1.directory ≠ staging.fd)
    (hrest : entries.filter (·.1 ≠ ⟨staging.parent, staging.name⟩) = rest) :
    Completes (removeStaging staging) ⟨treeOf entries, left⟩ () ⟨treeOf rest, left⟩ := by
  refine call (.effect (.opened h)) not_false (sameDirectory.bind ?_)
  rw [beq_self_eq_true]
  exact call (.effect (removed_treeOf h hempty hrest)) not_false done

/-- A hook may change the tree outside the staging directory. -/
theorem hook {point : HookPoint} {staging : Location} {tree : Tree}
    (huntouched : ∀ l, InStaging staging w.tree l → tree l = w.tree l)
    (hleft : Without staging tree left) :
    Completes (hook point staging).run w (.ok ()) ⟨tree, left⟩ :=
  call (.hook _ huntouched hleft) not_false done

end Completes

end Entries

/-! ### A file and a file in a directory -/

def cargoName : Name := intoBytes "Cargo.toml"

def sourceName : Name := intoBytes "src"

def mainName : Name := intoBytes "main.rs"

def cargoPath : PathBuf := ⟨[.normal cargoName]⟩

def mainPath : PathBuf := ⟨[.normal sourceName, .normal mainName]⟩

def cargoBytes : Bytes := intoBytes "[package]"

def mainBytes : Bytes := intoBytes "mod app;"

def appPlan : RenderPlan := ⟨.ofList [(mainPath, mainBytes), (cargoPath, cargoBytes)]⟩

/-- The files of the plan, in order. -/
theorem appPlan_files :
    appPlan.files.toList = [(cargoPath, cargoBytes), (mainPath, mainBytes)] := by
  decide +kernel

def appPath : PathBuf := ⟨[.rootDir, .normal (intoBytes "app")]⟩

@[simp] def appLocation : Location := ⟨rootDirectory, intoBytes "app"⟩

@[simp] def appStaging : Location := ⟨rootDirectory, stagingName 1 7⟩

@[simp] def freshDirectory : Identity := ⟨0, 1⟩

@[simp] def cargoFile : Identity := ⟨0, 2⟩

@[simp] def sourceDirectory : Identity := ⟨0, 3⟩

@[simp] def mainFile : Identity := ⟨0, 4⟩

/-- The tree when the staging directory is opened, and its record. -/
@[simp] def stagedEntries : List (Location × Node) := [(appStaging, .directory freshDirectory)]

@[simp] def openedStaging : Staging := ⟨rootDirectory, stagingName 1 7, freshDirectory, [], []⟩

/-- The tree and the record when the first file is written. -/
@[simp] def cargoEntries : List (Location × Node) :=
  (⟨freshDirectory, cargoName⟩, .file cargoFile cargoBytes) :: stagedEntries

@[simp] def cargoStaging : Staging := { openedStaging with files := [[cargoName]] }

/-- The tree and the record when the directory of the second file is made. -/
@[simp] def sourceEntries : List (Location × Node) :=
  (⟨freshDirectory, sourceName⟩, .directory sourceDirectory) :: cargoEntries

@[simp] def sourceStaging : Staging := { cargoStaging with directories := [[sourceName]] }

/-- The tree and the record when both files are there. -/
@[simp] def appEntries (bytes : Bytes) : List (Location × Node) :=
  (⟨sourceDirectory, mainName⟩, .file mainFile bytes) :: sourceEntries

@[simp] def fullStaging : Staging :=
  { sourceStaging with files := [[cargoName], [sourceName, mainName]] }

/-- The names in one directory differ. -/
@[simp] theorem names_app : (sourceName ≠ cargoName ∧ cargoName ≠ sourceName) ∧
    (stagingName 1 7 ≠ intoBytes "app" ∧ intoBytes "app" ≠ stagingName 1 7) ∧
    (stagingName 1 7 ≠ intoBytes "notes" ∧ intoBytes "notes" ≠ stagingName 1 7) ∧
    intoBytes "app" ≠ intoBytes "notes" := by
  decide +kernel

variable {left : Tree}

/-- The first file is written. -/
theorem completes_cargo : Completes (writeFile openedStaging (cargoPath, cargoBytes)).run
    ⟨treeOf stagedEntries, left⟩ (.ok cargoStaging) ⟨treeOf cargoEntries, left⟩ :=
  Completes.createFile .duplicate (by simp) (unused_treeOf (by simp [Node.identity]))

/-- The directory of the second is made. -/
theorem completes_source : Completes (makeDirectories cargoStaging [] [sourceName]).run
    ⟨treeOf cargoEntries, left⟩ (.ok sourceStaging) ⟨treeOf sourceEntries, left⟩ := by
  have hmade : Effect rootDirectory (treeOf cargoEntries)
      (.makeDirectory ⟨freshDirectory, sourceName⟩) (.ok ()) (treeOf sourceEntries) :=
    made_treeOf (by simp) (unused_treeOf (by simp [Node.identity]))
  refine Completes.ok_bind (a := sourceStaging) ?_ .done
  exact (Completes.onto .duplicate).ok_bind <| (Completes.onto (.effect hmade)).ok_bind .done

/-- The second file is written there. -/
theorem completes_main : Completes (writeFile cargoStaging (mainPath, mainBytes)).run
    ⟨treeOf cargoEntries, left⟩ (.ok fullStaging) ⟨treeOf (appEntries mainBytes), left⟩ :=
  completes_source.ok_bind <| Completes.createFile (.descend sourceDirectory (by simp))
    (by simp) (unused_treeOf (by simp [Node.identity]))

/-- The disk is full when three bytes of the second file are written. -/
theorem completes_main_partly : Completes (writeFile cargoStaging (mainPath, mainBytes)).run
    ⟨treeOf cargoEntries, left⟩ (.error ⟨writeFailed, fullStaging⟩)
    ⟨treeOf (appEntries (mainBytes.take 3)), left⟩ :=
  completes_source.ok_bind <| .createFile_partly (.descend sourceDirectory (by simp))
    (by simp) (unused_treeOf (by simp [Node.identity])) _ (.other 28)

/-- The files, the directory they are in and the staging directory are taken away. -/
theorem completes_drop : Completes (drop fullStaging)
    ⟨treeOf (appEntries (mainBytes.take 3)), left⟩ () ⟨treeOf [], left⟩ := by
  have hcargo : Completes (removeFile freshDirectory [cargoName])
      ⟨treeOf (appEntries (mainBytes.take 3)), left⟩ ()
      ⟨treeOf [(⟨sourceDirectory, mainName⟩, .file mainFile (mainBytes.take 3)),
        (⟨freshDirectory, sourceName⟩, .directory sourceDirectory),
        (appStaging, .directory freshDirectory)], left⟩ :=
    .removeFile .duplicate cargoFile cargoBytes (by simp) (by simp)
  have hmain : Completes (removeFile freshDirectory [sourceName, mainName])
      ⟨treeOf [(⟨sourceDirectory, mainName⟩, .file mainFile (mainBytes.take 3)),
        (⟨freshDirectory, sourceName⟩, .directory sourceDirectory),
        (appStaging, .directory freshDirectory)], left⟩ ()
      ⟨treeOf [(⟨freshDirectory, sourceName⟩, .directory sourceDirectory),
        (appStaging, .directory freshDirectory)], left⟩ :=
    .removeFile (.descend sourceDirectory (by simp)) mainFile (mainBytes.take 3)
      (by simp) (by simp)
  have hsource : Completes (removeDirectory freshDirectory [sourceName])
      ⟨treeOf [(⟨freshDirectory, sourceName⟩, .directory sourceDirectory),
        (appStaging, .directory freshDirectory)], left⟩ ()
      ⟨treeOf [(appStaging, .directory freshDirectory)], left⟩ :=
    .removeDirectory .duplicate sourceDirectory (by simp) (by simp)
      (by simp)
  exact (hcargo.bind <| hmain.bind .done).bind <| (hsource.bind .done).bind <|
    .removeStaging (by simp) (by simp) (by simp)

/-- Somebody else's file in the parent directory. -/
@[simp] def notes : Location × Node := (⟨rootDirectory, intoBytes "notes"⟩, .file ⟨0, 9⟩ [])

/-- The directories below the staging directory. -/
theorem reachable_app {entries : List (Location × Node)}
    (hclosed : ∀ e ∈ entries, e.1.directory ∈ [freshDirectory, sourceDirectory] →
      e.2 = .directory e.2.identity → e.2.identity ∈ [freshDirectory, sourceDirectory])
    (hsource : treeOf entries ⟨freshDirectory, sourceName⟩ = some (.directory sourceDirectory))
    (d : Identity) :
    d ∈ [freshDirectory, sourceDirectory] ↔ Reachable (treeOf entries) freshDirectory d := by
  refine ⟨fun hd => ?_, reachable_treeOf hclosed List.mem_cons_self⟩
  rcases List.mem_pair.1 hd with rfl | rfl
  · exact .refl
  · exact .step .refl hsource

/-- Somebody puts the notes next to the staging directory. -/
theorem untouched_notes (l : Location) (h : InStaging appStaging (treeOf (appEntries mainBytes)) l) :
    treeOf (notes :: appEntries mainBytes) l = treeOf (appEntries mainBytes) l := by
  have hne : l ≠ notes.1 := by
    rcases h with rfl | ⟨root, hroot, hl⟩
    · decide +kernel
    · have happ : treeOf (appEntries mainBytes) appStaging = some (.directory freshDirectory) := by
        simp
      rw [happ] at hroot
      cases hroot
      have hd := (reachable_app (by simp [Node.identity]) (by simp) _).2 hl
      rintro rfl
      revert hd
      decide +kernel
  rw [notes, ← update_treeOf]
  exact Function.update_of_ne hne ..

/-- What another program put into the parent is not in the staging directory. -/
theorem without_notes :
    Without appStaging (treeOf (notes :: appEntries mainBytes)) (treeOf [notes]) := by
  have hleft : (notes :: appEntries mainBytes).filter (fun e => e.1 ≠ appStaging ∧
      e.1.directory ∉ [freshDirectory, sourceDirectory]) = [notes] := by
    simp
  have hstaging : treeOf (notes :: appEntries mainBytes) appStaging =
      some (.directory freshDirectory) := by
    simp
  have h := without_treeOf hstaging (reachable_app (by simp [Node.identity]) (by simp))
  rwa [hleft] at h

/-- The application, and the notes. -/
def publishedEntries : List (Location × Node) :=
  [(appLocation, .directory freshDirectory), notes,
    (⟨sourceDirectory, mainName⟩, .file mainFile mainBytes),
    (⟨freshDirectory, sourceName⟩, .directory sourceDirectory),
    (⟨freshDirectory, cargoName⟩, .file cargoFile cargoBytes)]

/-- The notes appear at the first hook. -/
theorem completes_finish : Completes (finish appPath fullStaging).run
    ⟨treeOf (appEntries mainBytes), left⟩ (.ok ()) ⟨treeOf publishedEntries, treeOf [notes]⟩ := by
  let w : World := ⟨treeOf (notes :: appEntries mainBytes), treeOf [notes]⟩
  have hparent : Completes (openParent appPath).run w (.ok rootDirectory) w :=
    (Completes.effect .openedSlash).ok_bind .done
  have hfree : w.tree appLocation = none := by simp [w]
  have habsent : Completes (ensureAbsent rootDirectory appPath).run w (.ok ()) w :=
    .call (.effect (.absent hfree)) not_false .done
  have hstaging : w.tree appStaging = some (.directory freshDirectory) := by simp [w]
  have hrename : Effect rootDirectory w.tree (.rename appStaging appLocation) (.ok ())
      (treeOf publishedEntries) :=
    renamed_treeOf hstaging hfree (by simp)
  exact (Completes.hook untouched_notes without_notes).ok_bind <| hparent.ok_bind <|
    Completes.sameDirectory.ok_bind <| habsent.ok_bind <|
    (Completes.effect (.opened hstaging)).ok_bind <| Completes.sameDirectory.ok_bind <|
    (Completes.hook (fun _ _ => rfl) without_notes).ok_bind <| Completes.effect hrename

/-- The destination of the example is an absolute path. -/
theorem checkedPath_app : checkedPath none (intoBytes "/app") = .ok appPath := by
  decide +kernel

/-- From the empty tree to the staging directory. -/
theorem completes_opened {r : Except Fault Unit} {w : World}
    (h : Completes (publishStaging appPath appPlan openedStaging).run
      ⟨treeOf stagedEntries, treeOf []⟩ r w) :
    Completes (publishWith none 1 (some 7) (intoBytes "/app") appPlan).run
      ⟨treeOf [], treeOf []⟩ r w := by
  have hparent : Completes (openParent appPath).run ⟨treeOf [], treeOf []⟩ (.ok rootDirectory)
      ⟨treeOf [], treeOf []⟩ := (Completes.effect .openedSlash).ok_bind .done
  have habsent : Completes (ensureAbsent rootDirectory appPath).run ⟨treeOf [], treeOf []⟩ (.ok ())
      ⟨treeOf [], treeOf []⟩ := .call (.effect (.absent rfl)) not_false .done
  have hmade : Effect rootDirectory (treeOf []) (.makeDirectory appStaging) (.ok ())
      (treeOf stagedEntries) := made_treeOf rfl (unused_treeOf (by simp [Node.identity]))
  have hopened : Effect rootDirectory (treeOf stagedEntries) (.openStaging appStaging)
      (.ok freshDirectory) (treeOf stagedEntries) := .openedStaging (by simp)
  rw [publishWith, checkedPath_app]
  exact Completes.ok_bind .done <| hparent.ok_bind <| habsent.ok_bind <| Completes.ok_bind .done <|
    (Completes.effect hmade).ok_bind <| (Completes.effect hopened).ok_bind h

/-- The application is published next to the notes. -/
theorem completes_published : Completes (publishStaging appPath appPlan openedStaging).run
    ⟨treeOf stagedEntries, left⟩ (.ok ()) ⟨treeOf publishedEntries, treeOf [notes]⟩ := by
  have hfiles : Completes (appPlan.files.toList.foldlM writeFile openedStaging).run
      ⟨treeOf stagedEntries, left⟩ (.ok fullStaging) ⟨treeOf (appEntries mainBytes), left⟩ := by
    rw [appPlan_files]
    exact completes_cargo.ok_bind <| completes_main.ok_bind .done
  have hstage : Completes (stage appPath appPlan openedStaging).run ⟨treeOf stagedEntries, left⟩
      (.ok ()) ⟨treeOf publishedEntries, treeOf [notes]⟩ :=
    hfiles.ok_bind completes_finish.onto
  exact Completes.ok_bind (hstage.bind .done) .done

/-- The write fails, and nothing is left. -/
theorem completes_withdrawn : Completes (publishStaging appPath appPlan openedStaging).run
    ⟨treeOf stagedEntries, left⟩ (.error writeFailed) ⟨treeOf [], left⟩ := by
  have hstage : Completes (stage appPath appPlan openedStaging).run ⟨treeOf stagedEntries, left⟩
      (.error ⟨writeFailed, fullStaging⟩) ⟨treeOf (appEntries (mainBytes.take 3)), left⟩ := by
    rw [stage, appPlan_files]
    exact (completes_cargo.ok_bind completes_main_partly.error_bind).error_bind
  have hstopped : Completes (attempt (stage appPath appPlan openedStaging) : Publisher _).run
      ⟨treeOf stagedEntries, left⟩ (.ok (.error ⟨writeFailed, fullStaging⟩))
      ⟨treeOf (appEntries (mainBytes.take 3)), left⟩ := hstage.bind .done
  have hdrop : Completes (ExceptT.lift (drop fullStaging) : Publisher Unit).run
      ⟨treeOf (appEntries (mainBytes.take 3)), left⟩ (.ok ()) ⟨treeOf [], left⟩ :=
    completes_drop.bind .done
  exact hstopped.ok_bind <| hdrop.ok_bind .done

/-- Two files, one in a directory, and a hook during which another program writes to the
parent. -/
theorem publish_all_or_nothing_iff_app :
    (∃ events, Runs (Step rootDirectory)
      (publishWith none 1 (some 7) (intoBytes "/app") appPlan).run ⟨treeOf [], treeOf []⟩ events
        (.done (.ok ())) ⟨treeOf publishedEntries, treeOf [notes]⟩ ∧
      AllOrNothing rootDirectory none 1 (some 7) (intoBytes "/app") appPlan (treeOf []) events
        (.ok ()) ⟨treeOf publishedEntries, treeOf [notes]⟩) ∧
    ∃ events, Runs (Step rootDirectory)
      (publishWith none 1 (some 7) (intoBytes "/app") appPlan).run ⟨treeOf [], treeOf []⟩ events
        (.done (.error writeFailed)) ⟨treeOf [], treeOf []⟩ ∧
      AllOrNothing rootDirectory none 1 (some 7) (intoBytes "/app") appPlan (treeOf []) events
        (.error writeFailed) ⟨treeOf [], treeOf []⟩ := by
  obtain ⟨events, hrun, hopened⟩ := completes_opened completes_published
  obtain ⟨events', hrun', hopened'⟩ := completes_opened completes_withdrawn
  exact ⟨⟨events, hrun, (publish_all_or_nothing_iff hrun).2 hopened⟩,
    events', hrun', (publish_all_or_nothing_iff hrun').2 hopened'⟩

/-- The publication of the example, its checks aside. -/
theorem publishWith_app :
    (publishWith none 1 (some 7) (intoBytes "/app") appPlan).run =
      (openParent appPath >>= fun parent => ensureAbsent parent appPath >>= fun _ =>
        fs .publication (.makeDirectory ⟨parent, stagingName 1 7⟩)
          (fun _ => safety "cannot allocate private staging directory") >>= fun _ =>
        fs .publication (.openStaging ⟨parent, stagingName 1 7⟩)
          (fun _ => safety "cannot open private staging directory") >>= fun fd =>
        publishStaging appPath appPlan ⟨parent, stagingName 1 7, fd, [], []⟩ : Publisher Unit).run := by
  rw [publishWith, checkedPath_app]
  rfl

/-- The process has no descriptor left for the staging directory it just made: the
publication fails, and the directory stays. -/
theorem staging_directory_stays : ∃ events fault w, Runs (Step rootDirectory)
    (publishWith none 1 (some 7) (intoBytes "/app") appPlan).run ⟨treeOf [], treeOf []⟩ events
    (.done (.error fault)) w ∧
    w.tree appStaging = some (.directory freshDirectory) ∧ w.left appStaging = none ∧
    ¬AllOrNothing rootDirectory none 1 (some 7) (intoBytes "/app") appPlan (treeOf []) events
      (.error fault) w := by
  have hmade : Effect rootDirectory (treeOf []) (.makeDirectory appStaging) (.ok ())
      (treeOf stagedEntries) := made_treeOf rfl (unused_treeOf (by simp [Node.identity]))
  have hstaged : treeOf stagedEntries appStaging = some (.directory freshDirectory) := by
    simp
  rw [publishWith_app]
  refine ⟨_, _, ⟨treeOf stagedEntries, treeOf []⟩, .step (.effect .openedSlash) <|
    .step (.effect (.absent rfl)) <|
    .step (.effect hmade) <|
    .step (.fault (.other 24)) (.refl _ _), hstaged, rfl, fun h => ?_⟩
  have htree : treeOf stagedEntries = treeOf [] := h.error nofun
  rw [htree] at hstaged
  cases hstaged

end Destination
end Hegira
