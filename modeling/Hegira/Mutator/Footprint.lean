/-
# Which entries the publisher may touch

What each function of the publisher may write, whatever the file system answers:
the temporary file of a change, its target, the probes next to it, the marker.
Everything else is left alone by the frame rule of the file system, also when a
call fails half way (`Program.Only.frame`), which is how the marker is known to
stay while a publication is under way.  The same lemmas record from which part
of a publication a directory is synchronised.
-/

import Hegira.Mutator.Publisher

namespace Hegira
namespace Mutator

open Program

set_option linter.unusedSectionVars false

variable {D : Type} [ContentDigest D] [DecidableEq D]

/-- The part of a publication a call names. -/
def FsCall.site : FsCall → Option Site
  | .duplicate site _ | .statDirectory site _ | .syncDirectory site _
  | .rename site _ _ _ _ => some site
  | _ => none

/-- Calls that write inside `S` only and belong to `sites`; a hook is none of them. -/
def Allowed (S : Location → Prop) (sites : Site → Prop) : PublisherCall → Prop
  | .fs c => (∀ l ∈ c.writes, S l) ∧ ∀ site ∈ c.site, sites site
  | .hook _ => False

/-- The same with hooks. -/
def AllowedOrHook (S : Location → Prop) (sites : Site → Prop) : PublisherCall → Prop
  | .fs c => (∀ l ∈ c.writes, S l) ∧ ∀ site ∈ c.site, sites site
  | .hook _ => True

/-- What is allowed is allowed where hooks are as well. -/
theorem Allowed.orHook {S : Location → Prop} {sites : Site → Prop} {c : PublisherCall}
    (h : Allowed S sites c) : AllowedOrHook S sites c := by
  cases c with
  | fs c => exact h
  | hook point => trivial

section

variable {S : Location → Prop} {sites : Site → Prop} {α : Type}

/-- One system call writes where it may and stands where it may. -/
theorem only_sys {c : FsCall} (hw : ∀ l ∈ c.writes, S l) (hs : ∀ site ∈ c.site, sites site) :
    (sys c).run.Only (Allowed S sites) :=
  ⟨⟨hw, hs⟩, fun _ => trivial⟩

/-- A call that writes nothing and names no site. -/
theorem only_read {c : FsCall} (hw : c.writes = []) (hs : c.site = none) :
    (sys c).run.Only (Allowed S sites) :=
  only_sys (by simp [hw]) (by simp [hs])

/-- A call that writes one location and names no site. -/
theorem only_write {c : FsCall} {l : Location} (hl : S l) (hw : c.writes = [l])
    (hs : c.site = none) : (sys c).run.Only (Allowed S sites) :=
  only_sys (by simpa [hw] using hl) (by simp [hs])

/-- Opening a path writes nothing. -/
theorem only_openComponents {fd : Identity} {path : List Component} :
    (openComponents fd path).run.Only (Allowed S sites) := by
  induction path generalizing fd with
  | nil => trivial
  | cons component rest ih =>
      cases component with
      | rootDir | curDir => exact ih
      | normal name => exact .fallible_bind (only_read rfl rfl).adapt fun _ => ih
      | parentDir => trivial

/-- Opening the root writes nothing. -/
theorem only_openDirectoryPath {path : List Component} :
    (openDirectoryPath path).run.Only (Allowed S sites) :=
  .fallible_bind (only_read rfl rfl).adapt fun _ => only_openComponents

/-- Going down to a parent directory writes nothing. -/
theorem only_descend {root : Identity} {path : List Component} {change : ChangePath} :
    (descend root path change).run.Only (Allowed S sites) := by
  refine .fallible_bind (only_read rfl rfl).adapt fun fd => ?_
  induction path generalizing fd with
  | nil => trivial
  | cons component rest ih =>
      cases component with
      | normal name => exact .fallible_bind (only_read rfl rfl).adapt fun _ => ih _
      | rootDir | curDir | parentDir => trivial

/-- The identity of a directory is read at its place in the run. -/
theorem only_directoryIdentity {site : Site} {fd : Identity} (hs : sites site) :
    (directoryIdentity site fd).run.Only (Allowed S sites) :=
  (only_sys (by simp [FsCall.writes]) (by simpa [FsCall.site] using hs)).adapt

/-- The root is opened during the preparation. -/
theorem only_open {process : Process} {path : Option String} (hs : sites .preparation) :
    (Root.open process path).run.Only (Allowed S sites) :=
  .fallible_bind only_liftExcept fun _ => .fallible_bind only_openDirectoryPath fun _ =>
    .fallible_bind (only_directoryIdentity hs) fun _ => trivial

/-- The root is looked at again during the publication. -/
theorem only_verifyNamespace {root : Root} (hs : sites .publication) :
    root.verifyNamespace.run.Only (Allowed S sites) := by
  refine .fallible_bind only_openDirectoryPath.adapt fun current => ?_
  refine .fallible_bind (only_directoryIdentity hs) fun identity => ?_
  split <;> trivial

/-- A directory is made durable at its place in the run. -/
theorem only_syncDirectory {site : Site} {fd : Identity} (hs : sites site) :
    (syncDirectory site fd).run.Only (Allowed S sites) :=
  .fallible_bind (only_sys (by simp [FsCall.writes]) (by simpa [FsCall.site] using hs)).adapt
    fun _ => (only_sys (by simp [FsCall.writes]) (by simpa [FsCall.site] using hs)).adapt

theorem only_syncUniqueParents {site : Site} {prepared : List (PreparedChange D)}
    (hs : sites site) : (syncUniqueParents site prepared).run.Only (Allowed S sites) := by
  unfold syncUniqueParents
  generalize ([] : List Identity) = seen
  induction prepared generalizing seen with
  | nil => trivial
  | cons change rest ih =>
      refine .fallible_bind (only_directoryIdentity hs) fun identity => ?_
      split
      · exact ih _
      · exact .fallible_bind (only_syncDirectory hs) fun _ => ih _

/-- Whether a name is free is only looked at. -/
theorem only_ensureAbsent {location : Location} {path : ChangePath} :
    (ensureAbsent location path).run.Only (Allowed S sites) := by
  refine .fallible_bind (only_read rfl rfl).attempt fun r => ?_
  split <;> trivial

/-- A file is only read. -/
theorem only_readRegularFile {location : Location} {path : ChangePath} :
    (readRegularFile location path : Publishing (ObservedFile D)).run.Only (Allowed S sites) := by
  refine .fallible_bind (only_read rfl rfl).adapt fun _ => ?_
  refine .fallible_bind (only_read rfl rfl).adapt fun metadata => ?_
  split
  · trivial
  · exact .fallible_bind (only_read rfl rfl).adapt fun _ => trivial

/-- The identity of an open file is only read. -/
theorem only_fileIdentity {location : Location} :
    (fileIdentity location).run.Only (Allowed S sites) :=
  .fallible_bind (only_read rfl rfl) fun _ => trivial

/-- The identity of a name is only read. -/
theorem only_readIdentity {location : Location} :
    (readIdentity location).run.Only (Allowed S sites) :=
  .fallible_bind (only_read rfl rfl) fun _ => only_fileIdentity

/-- A name is removed only at its own location. -/
theorem only_removeNamedIfIdentity {location : Location} {expected : Identity} (hl : S location) :
    (removeNamedIfIdentity location expected).run.Only (Allowed S sites) := by
  refine .fallible_bind only_readIdentity.adapt fun identity => ?_
  split
  · trivial
  · exact (only_write hl rfl rfl).adapt

/-- The marker is only looked at. -/
theorem only_verifyMarker {root : Root} {marker : Marker} :
    (verifyMarker root marker).run.Only (Allowed S sites) := by
  refine .fallible_bind only_readIdentity.adapt fun observed => ?_
  split <;> trivial

/-- The marker is made at its location, during the preparation. -/
theorem only_createMarker {root : Root} {plan : ChangePlan D} {transaction : String}
    (hm : S root.marker) (hs : sites .preparation) :
    (createMarker root plan transaction).run.Only (Allowed S sites) := by
  refine .fallible_bind (only_write hm rfl rfl).adapt fun _ => ?_
  refine .fallible_bind only_fileIdentity.adapt fun identity => ?_
  refine .fallible_bind (only_write hm rfl rfl).adapt fun _ => ?_
  refine .fallible_bind (only_read rfl rfl).adapt fun _ => ?_
  exact .fallible_bind (only_syncDirectory hs).adapt fun _ => trivial

/-- The marker is removed at its location. -/
theorem only_removeMarker {root : Root} {marker : Marker} (hm : S root.marker) :
    (removeMarker root marker).run.Only (Allowed S sites) :=
  .fallible_bind only_verifyMarker fun _ => (only_write hm rfl rfl).adapt

/-- A file is staged at its temporary name. -/
theorem only_stageFile {location : Location} {path : ChangePath} {content : Bytes}
    (hl : S location) : (stageFile location path content).run.Only (Allowed S sites) := by
  refine .fallible_bind (only_write hl rfl rfl).adapt fun _ => ?_
  refine .fallible_bind only_fileIdentity.adapt fun identity => ?_
  refine .fallible_bind (Only.attempt (.fallible_bind (only_write hl rfl rfl).adapt
    fun _ => (only_read rfl rfl).adapt)) fun result => ?_
  split
  · trivial
  · refine .fallible_bind (only_removeNamedIfIdentity hl).attempt fun removed => ?_
    split <;> trivial

/-- What a change expects to find is only looked at. -/
theorem only_verifyInitialPrecondition {location : Location} {change : PlannedFileChange D} :
    (verifyInitialPrecondition location change).run.Only (Allowed S sites) := by
  unfold verifyInitialPrecondition
  split
  · exact .fallible_bind only_ensureAbsent fun _ => trivial
  · refine .fallible_bind only_readRegularFile fun observed => ?_
    split <;> trivial

/-- Preparing a change writes under the name of its temporary file, in whichever
directory the path leads to. -/
theorem only_prepareChange {root : Root} {transaction : String} {index : Nat}
    {change : PlannedFileChange D} (h : ∀ d, S ⟨d, tempName transaction index⟩) :
    (prepareChange root transaction index change).run.Only (Allowed S sites) := by
  refine .fallible_bind only_descend fun parent => ?_
  refine .fallible_bind only_verifyInitialPrecondition fun original => ?_
  refine .fallible_bind ?_ fun staged => trivial
  unfold stageChange
  split
  · exact .fallible_bind (only_stageFile (h _)) fun _ => trivial
  · trivial

/-- The parent of a change is looked at again during the publication. -/
theorem only_verifyParentNamespace {root : Root} {change : PreparedChange D}
    (hs : sites .publication) :
    (verifyParentNamespace root change).run.Only (Allowed S sites) := by
  refine .fallible_bind only_descend fun current => ?_
  refine .fallible_bind (only_directoryIdentity hs) fun current => ?_
  refine .fallible_bind (only_directoryIdentity hs) fun parent => ?_
  split <;> trivial

/-- A precondition is looked at again before the change is published. -/
theorem only_verifyPrecondition {change : PreparedChange D} :
    (verifyPrecondition change).run.Only (Allowed S sites) := by
  unfold verifyPrecondition
  split
  · exact only_ensureAbsent
  · refine .fallible_bind only_readRegularFile fun observed => ?_
    split <;> trivial
  · trivial

/-- All preconditions and parents are looked at. -/
theorem only_verifyAllPreconditions {root : Root} {prepared : List (PreparedChange D)}
    (hs : sites .publication) :
    (verifyAllPreconditions root prepared).run.Only (Allowed S sites) := by
  induction prepared with
  | nil => trivial
  | cons change rest ih =>
      exact .fallible_bind (only_verifyParentNamespace hs) fun _ =>
        .fallible_bind only_verifyPrecondition fun _ => ih

/-- All parents are looked at. -/
theorem only_verifyAllParentNamespaces {root : Root} {prepared : List (PreparedChange D)}
    (hs : sites .publication) :
    (verifyAllParentNamespaces root prepared).run.Only (Allowed S sites) := by
  induction prepared with
  | nil => trivial
  | cons change rest ih =>
      exact .fallible_bind (only_verifyParentNamespace hs) fun _ => ih

/-- A probe is made at its location. -/
theorem only_createProbe {location : Location} {path : ChangePath} (hl : S location) :
    (createProbe location path).run.Only (Allowed S sites) := by
  refine .fallible_bind (only_write hl rfl rfl).adapt fun _ => ?_
  refine .fallible_bind only_fileIdentity.adapt fun identity => ?_
  refine .fallible_bind (only_read rfl rfl).attempt fun synced => ?_
  split
  · trivial
  · refine .fallible_bind (only_removeNamedIfIdentity hl).attempt fun removed => ?_
    split <;> trivial

/-- Probing writes under the two probe names of the change. -/
theorem only_preflightChange {transaction : String} {index : Nat} {change : PreparedChange D}
    (ha : S ⟨change.parent, probeName transaction index 'a'⟩)
    (hb : S ⟨change.parent, probeName transaction index 'b'⟩) (hs : sites .preparation) :
    (preflightChange transaction index change).run.Only (Allowed S sites) := by
  refine .fallible_bind (only_createProbe ha) fun first => ?_
  refine .fallible_bind ?_ fun second => ?_
  · refine .fallible_bind (only_createProbe hb).attempt fun created => ?_
    split
    · trivial
    · refine .fallible_bind (only_removeNamedIfIdentity ha).attempt fun removed => ?_
      split <;> trivial
  · refine .fallible_bind (only_sys (by simp [FsCall.writes, ha, hb])
      (by simpa [FsCall.site] using hs)).attempt fun renamed => ?_
    refine .fallible_bind ?_ fun _ => only_liftExcept
    refine .fallible_bind (only_removeNamedIfIdentity ha).attempt fun firstCleanup => ?_
    refine .fallible_bind (only_removeNamedIfIdentity hb).attempt fun secondCleanup => ?_
    split <;> trivial

/-- A change is published between its temporary name and its target. -/
theorem only_publishOne {change : PreparedChange D} (ht : S change.target) (hp : S change.temp)
    (hs : sites .publication) : (publishOne change).run.Only (Allowed S sites) := by
  unfold publishOne PreparedChange.renaming
  cases change.operation <;>
    exact (only_sys (by simpa [FsCall.writes] using by tauto)
      (by simpa [FsCall.site] using hs)).adapt

/-- The mode is set at the target. -/
theorem only_setPublishedMode {change : PreparedChange D} (ht : S change.target) :
    (setPublishedMode change).run.Only (Allowed S sites) := by
  unfold setPublishedMode
  split
  · refine .fallible_bind (only_read rfl rfl).adapt fun _ => ?_
    refine .fallible_bind (only_read rfl rfl).adapt fun metadata => ?_
    split
    · trivial
    · refine .fallible_bind only_fileIdentity.adapt fun identity => ?_
      split
      · trivial
      · exact .fallible_bind (only_write ht rfl rfl).adapt fun _ => (only_read rfl rfl).adapt
  · trivial

/-- A file is compared with the one observed. -/
theorem only_requireObserved {location : Location} {path : ChangePath} {original : ObservedFile D}
    {error : MutationError} :
    (requireObserved location path original error).run.Only (Allowed S sites) := by
  refine .fallible_bind only_readRegularFile fun observed => ?_
  split <;> trivial

/-- What was published is only looked at. -/
theorem only_verifyPublished {change : PreparedChange D} :
    (verifyPublished change).run.Only (Allowed S sites) := by
  refine .fallible_bind ?_ fun _ => ?_
  · unfold verifyResult
    split
    · exact only_ensureAbsent.adapt
    · refine .fallible_bind only_readRegularFile fun result => ?_
      split <;> trivial
  · split
    · trivial
    · exact only_requireObserved

/-- The staged file is removed at its temporary name. -/
theorem only_removeStagedTemp {change : PreparedChange D} (hp : S change.temp) :
    (removeStagedTemp change).run.Only (Allowed S sites) :=
  (only_removeNamedIfIdentity hp).adapt

theorem only_removeTempIfPresent {change : PreparedChange D} (hp : S change.temp) :
    (removeTempIfPresent change).run.Only (Allowed S sites) := by
  refine .fallible_bind (only_read rfl rfl).attempt fun r => ?_
  split
  · trivial
  · exact only_removeStagedTemp hp
  · trivial

/-- What is taken back is looked at first. -/
theorem only_verifyBeforeRollback {change : PreparedChange D} :
    (verifyBeforeRollback change).run.Only (Allowed S sites) := by
  unfold verifyBeforeRollback
  split
  · exact only_ensureAbsent.adapt
  · refine .fallible_bind only_readRegularFile.adapt fun result => ?_
    split <;> trivial

/-- The original returns from the temporary name to the target. -/
theorem only_restoreOriginal {change : PreparedChange D} {original : ObservedFile D}
    {flags : RenameFlags} {texts : RestoreTexts} (ht : S change.target) (hp : S change.temp)
    (hs : sites .rollback) :
    (restoreOriginal change original flags texts).run.Only (Allowed S sites) := by
  refine .fallible_bind only_readRegularFile.adapt fun backup => ?_
  split
  · trivial
  · exact .fallible_bind (only_sys (by simpa [FsCall.writes] using ⟨hp, ht⟩)
      (by simpa [FsCall.site] using hs)).adapt fun _ => only_requireObserved

/-- A change is taken back between its target and its temporary name. -/
theorem only_rollbackOne {change : PreparedChange D} (ht : S change.target) (hp : S change.temp)
    (hs : sites .rollback) : (rollbackOne change).run.Only (Allowed S sites) := by
  refine .fallible_bind only_verifyBeforeRollback fun _ => ?_
  refine .fallible_bind ?_ fun _ => only_syncDirectory hs
  unfold takeBackChange
  split
  · exact (only_write ht rfl rfl).adapt
  · exact .fallible_bind (only_restoreOriginal ht hp hs) fun _ => only_removeStagedTemp hp
  · exact only_restoreOriginal ht hp hs
  · trivial
  · trivial

/-- Steps over all changes write where each of them does. -/
theorem only_allOk {step : PreparedChange D → Publishing Unit}
    {prepared : List (PreparedChange D)}
    (h : ∀ change ∈ prepared, (step change).run.Only (Allowed S sites)) :
    (allOk step prepared).Only (Allowed S sites) := by
  induction prepared with
  | nil => trivial
  | cons change rest ih =>
      exact (h change (by simp)).bind fun _ =>
        (ih fun change hc => h change (by simp [hc])).bind fun _ => trivial

/-- A backup is removed at the temporary name. -/
theorem only_removeBackup {change : PreparedChange D} (hp : S change.temp) :
    (removeBackup change).run.Only (Allowed S sites) := by
  unfold removeBackup
  split
  · trivial
  · exact (only_removeNamedIfIdentity hp).adapt

/-- All backups are. -/
theorem only_removeBackups {prepared : List (PreparedChange D)}
    (h : ∀ change ∈ prepared, S change.temp) :
    (removeBackups prepared).run.Only (Allowed S sites) := by
  induction prepared with
  | nil => trivial
  | cons change rest ih =>
      have hr := ih fun change hc => h change (by simp [hc])
      unfold removeBackups
      split
      · exact .fallible_bind (only_removeBackup (h change (by simp))) fun _ => hr
      · exact hr

/-! Whole parts of a publication. -/

/-- The preparation writes at temporary names only. -/
theorem only_prepareFrom {root : Root} {transaction : String} {index : Nat}
    {changes : List (PlannedFileChange D)} (h : ∀ d i, S ⟨d, tempName transaction i⟩) :
    (prepareFrom root transaction index changes).Only (Allowed S sites) := by
  induction changes generalizing index with
  | nil => trivial
  | cons c rest ih =>
      refine (only_prepareChange fun d => h d index).bind fun r => ?_
      rcases r with e | p
      · trivial
      · exact ih.bind fun _ => trivial

theorem only_prepareChanges {root : Root} {plan : ChangePlan D} {transaction : String}
    (h : ∀ d i, S ⟨d, tempName transaction i⟩) (hs : sites .preparation) :
    (prepareChanges root plan transaction).Only (Allowed S sites) := by
  refine (only_prepareFrom h).bind fun r => ?_
  rcases r with ⟨prepared, e | _⟩
  · trivial
  · exact (only_syncUniqueParents hs).bind fun _ => trivial

/-- The trial of the file system writes at the names of its probes only. -/
theorem only_preflightFilesystemSemantics {prepared : List (PreparedChange D)}
    {transaction : String} (h : ∀ d i side, S ⟨d, probeName transaction i side⟩)
    (hs : sites .preparation) :
    (preflightFilesystemSemantics prepared transaction).run.Only (Allowed S sites) := by
  unfold preflightFilesystemSemantics
  generalize 0 = index
  induction prepared generalizing index with
  | nil => trivial
  | cons p rest ih =>
      exact .fallible_bind (only_preflightChange (h _ _ _) (h _ _ _) hs) fun _ => ih (index + 1)

/-- Taking back removes what was staged, and the marker unless recovery is required. -/
theorem only_takeBack {root : Root} {marker : Marker} {prepared : List (PreparedChange D)}
    {error : MutationError} (hp : ∀ p ∈ prepared, S p.temp)
    (hm : error.kind ≠ .recoveryRequired → S root.marker) (hs : sites .rollback) :
    (takeBack root marker prepared error).Only (Allowed S sites) := by
  refine (only_allOk fun p hm => only_removeTempIfPresent (hp p hm)).bind fun complete => ?_
  split
  · trivial
  refine (only_syncUniqueParents hs).bind fun synced => ?_
  split
  · trivial
  split
  · trivial
  next hk => exact (only_removeMarker (hm hk)).bind fun _ => trivial

/-- The commit removes the backups and the marker. -/
theorem only_commit {root : Root} {marker : Marker} {prepared : List (PreparedChange D)}
    (hp : ∀ p ∈ prepared, S p.temp) (hm : S root.marker) (hs : sites .commit)
    (hs' : sites .completion) : (commit root marker prepared).run.Only (Allowed S sites) := by
  refine .fallible_bind (only_removeBackups hp) fun _ => ?_
  refine .fallible_bind (only_syncUniqueParents hs) fun _ => ?_
  refine .fallible_bind (only_removeMarker hm).adapt fun _ => ?_
  exact .fallible_bind (only_syncDirectory hs').adapt fun _ => trivial

/-- The clean-up before a publication removes what was staged and the marker. -/
theorem only_cleanupBeforePublication {root : Root} {marker : Marker}
    {prepared : List (PreparedChange D)} {error : MutationError} (hp : ∀ p ∈ prepared, S p.temp)
    (hm : error.kind ≠ .recoveryRequired → S root.marker) (hs : sites .rollback) :
    (cleanupBeforePublication root marker prepared error).run.Only (Allowed S sites) := by
  refine .fallible_bind (only_takeBack hp hm hs).lift fun complete => ?_
  split <;> trivial

/-- The rollback writes at the targets, the temporary names and the marker. -/
theorem only_rollbackOrReport {root : Root} {marker : Marker}
    {prepared : List (PreparedChange D)} {error : MutationError}
    (ht : ∀ p ∈ prepared, S p.target) (hp : ∀ p ∈ prepared, S p.temp)
    (hm : error.kind ≠ .recoveryRequired → S root.marker) (hs : sites .rollback) :
    (rollbackOrReport root marker prepared error).run.Only (Allowed S sites) := by
  refine .fallible_bind (Only.lift (only_allOk fun p h => ?_)) fun complete => ?_
  · have h : p ∈ prepared := by simpa using (List.mem_filter.1 h).1
    exact only_rollbackOne (ht p h) (hp p h) hs
  rcases complete with _ | _
  · trivial
  refine .fallible_bind (only_takeBack hp hm hs).lift fun complete => ?_
  rcases complete with _ | _
  · trivial
  exact .fallible_bind (only_syncDirectory hs).attempt fun _ => trivial

/-- A hook may be called. -/
theorem only_hook {point : HookPoint} : (hook point).run.Only (AllowedOrHook S sites) :=
  ⟨trivial, fun _ => trivial⟩

/-- A part without hooks is one where hooks may be. -/
theorem only_orHook {p : Program PublisherCall PublisherCall.Reply α}
    (h : p.Only (Allowed S sites)) : p.Only (AllowedOrHook S sites) :=
  h.mono fun _ => Allowed.orHook

/-- A change is published with its hook before. -/
theorem only_beforePublished {root : Root} {marker : Marker} {index : Nat}
    {p : PreparedChange D} (ht : S p.target) (hp : S p.temp) (hs : sites .publication) :
    (beforePublished root marker index p).run.Only (AllowedOrHook S sites) := by
  refine .fallible_bind (only_orHook (only_verifyNamespace hs)) fun _ => ?_
  refine .fallible_bind (only_orHook only_verifyMarker) fun _ => ?_
  refine .fallible_bind (only_orHook (only_verifyParentNamespace hs)) fun _ => ?_
  refine .fallible_bind only_hook fun _ => ?_
  refine .fallible_bind (only_orHook (only_verifyParentNamespace hs)) fun _ => ?_
  refine .fallible_bind (only_orHook only_verifyPrecondition) fun _ => ?_
  exact only_orHook (only_publishOne ht hp hs)

/-- The mode is set with its hook after. -/
theorem only_afterPublished {root : Root} {marker : Marker} {index : Nat}
    {p : PreparedChange D} (ht : S p.target) (hs : sites .publication) :
    (afterPublished root marker index p).run.Only (AllowedOrHook S sites) := by
  refine .fallible_bind (only_orHook (only_setPublishedMode ht)) fun _ => ?_
  refine .fallible_bind (only_orHook only_verifyPublished) fun _ => ?_
  refine .fallible_bind (only_orHook (only_syncDirectory hs)) fun _ => ?_
  refine .fallible_bind only_hook fun _ => ?_
  refine .fallible_bind (only_orHook (only_verifyNamespace hs)) fun _ => ?_
  refine .fallible_bind (only_orHook only_verifyMarker) fun _ => ?_
  exact only_orHook (only_verifyParentNamespace hs)

/-- The changes write at their targets and temporary names, one after another. -/
theorem only_publishFrom {root : Root} {marker : Marker} {index : Nat}
    {prepared : List (PreparedChange D)} (h : ∀ p ∈ prepared, S p.target ∧ S p.temp)
    (hs : sites .publication) :
    (publishFrom root marker index prepared).Only (AllowedOrHook S sites) := by
  induction prepared generalizing index with
  | nil => trivial
  | cons p rest ih =>
      obtain ⟨ht, hp⟩ := h p (by simp)
      refine (only_beforePublished ht hp hs).bind fun r => ?_
      rcases r with e | _
      · trivial
      refine (only_afterPublished ht hs).bind fun r => ?_
      rcases r with e | _
      · trivial
      exact (ih fun q hq => h q (by simp [hq])).bind fun _ => trivial

/-- The publication writes at targets, temporary names and probes only. -/
theorem only_publishPrepared {root : Root} {marker : Marker} {transaction : String}
    {prepared : List (PreparedChange D)} (h : ∀ p ∈ prepared, S p.target ∧ S p.temp)
    (hp : ∀ d i side, S ⟨d, probeName transaction i side⟩) (hs : sites .publication)
    (hs' : sites .preparation) :
    (publishPrepared root marker transaction prepared).Only (AllowedOrHook S sites) := by
  refine Only.bind ?_ fun r => ?_
  · refine .fallible_bind only_hook fun _ => ?_
    refine .fallible_bind (only_orHook (only_preflightFilesystemSemantics hp hs')) fun _ => ?_
    refine .fallible_bind (only_orHook (only_verifyNamespace hs)) fun _ => ?_
    refine .fallible_bind (only_orHook only_verifyMarker) fun _ => ?_
    exact .fallible_bind (only_orHook (only_verifyAllPreconditions hs)) fun _ => only_hook
  rcases r with e | _
  · trivial
  refine (only_publishFrom h hs).bind fun r => ?_
  rcases r with ⟨prepared', e | _⟩
  · trivial
  refine Only.bind ?_ fun _ => trivial
  refine .fallible_bind (only_orHook (only_verifyNamespace hs)) fun _ => ?_
  exact .fallible_bind (only_orHook only_verifyMarker) fun _ =>
    only_orHook (only_verifyAllParentNamespaces hs)

end

end Mutator
end Hegira
