/-
# What a migration plan knows

`migrationOf` reads an entry of a directory as a migration.  A listing the planner
accepts has nothing but migrations, no two with one version or one identity
(`observeEntries`), and the plan is for a version above all of them
(`Planned`, `planned_of_eq_ok`): it creates the file of that version and moves the state
file on, from what was read to a next version above.
-/

import Hegira.Library.Validation
import Hegira.Generator.MigrationNames
import Hegira.Mutator.Composition

namespace Hegira
namespace Generator

open Mutator (Bytes ChangePath ChangePlan ContentDigest FileCreation FilePrecondition FileState
  PlannedFileChange StructuredFileEdit fromUtf8 intoBytes)
open Std (TreeMap)
open Validation

/-! ### What is in a directory -/

/-- The migration an entry is. -/
def migrationOf : DirEntry → Option (ℤ × MigrationIdentity)
  | .named name (.found .regular) => do
      let name ← fromUtf8 name
      (parseMigrationFilename name).toOption
  | _ => none

/-- The migrations of a directory. -/
def migrations (listing : List DirEntry) : List (ℤ × MigrationIdentity) :=
  listing.filterMap migrationOf

/-- No two migrations of a directory share a version or an identity. -/
structure Distinct (listing : List DirEntry) : Prop where
  versions : ((migrations listing).map Prod.fst).Nodup
  identities : ((migrations listing).map Prod.snd).Nodup

theorem Distinct.subperm {listing listing' : List DirEntry} (h : Distinct listing)
    (hs : listing'.Subperm listing) : Distinct listing' := by
  obtain ⟨l, hperm, hsub⟩ := hs
  exact ⟨((hperm.filterMap _).map _).nodup_iff.1 (h.versions.sublist ((hsub.filterMap _).map _)),
    ((hperm.filterMap _).map _).nodup_iff.1 (h.identities.sublist ((hsub.filterMap _).map _))⟩

/-- A migration with a new version and a new identity joins the directory. -/
theorem Distinct.cons {listing : List DirEntry} {entry : DirEntry} {version : ℤ}
    {identity : MigrationIdentity} (h : Distinct listing)
    (he : migrationOf entry = some (version, identity))
    (hnew : ∀ m ∈ migrations listing, m.1 ≠ version ∧ m.2 ≠ identity) :
    Distinct (entry :: listing) := by
  have hm : migrations (entry :: listing) = (version, identity) :: migrations listing :=
    List.filterMap_cons_some he
  constructor
  · rw [hm, List.map_cons, List.nodup_cons]
    refine ⟨fun hv => ?_, h.versions⟩
    obtain ⟨m, hmem, hv⟩ := List.mem_map.1 hv
    exact (hnew m hmem).1 hv
  · rw [hm, List.map_cons, List.nodup_cons]
    refine ⟨fun hi => ?_, h.identities⟩
    obtain ⟨m, hmem, hi⟩ := List.mem_map.1 hi
    exact (hnew m hmem).2 hi

/-! ### Observing a history -/

/-- An accepted entry is a migration that nothing seen before shares anything with. -/
theorem observeEntry_eq_ok {seen seen' : Seen} {entry : DirEntry}
    (h : observeEntry seen entry = .ok seen') :
    ∃ version identity, migrationOf entry = some (version, identity) ∧
      version ∉ seen.1 ∧ identity.value ∉ seen.2 ∧
      seen' = (seen.1.insert version identity.value, seen.2.insert identity.value version) := by
  cases entry with
  | failed => cases h
  | named name metadata =>
      obtain ⟨text, hname, h⟩ := bind_eq_ok.1 h
      obtain ⟨⟨version, identity⟩, hparse, h⟩ := bind_eq_ok.1 h
      refine ⟨version, identity, ?_, ?_⟩
      · unfold entryName at hname
        split at hname
        · cases hname
        · cases hname
        · split at hname
          · cases hname
          · next hregular =>
              obtain rfl := not_not.1 hregular
              split at hname
              · cases hname
              · next hutf8 =>
                  split at hname
                  · cases hname
                  · obtain rfl := Except.ok.inj hname
                    simp [migrationOf, hutf8, hparse, Except.toOption]
      · dsimp only at h
        rw [observeMigration] at h
        rcases hv : seen.1[version]? with _ | existing
        · rcases hi : seen.2[identity.value]? with _ | existing
          · rw [hv, hi] at h
            rw [TreeMap.mem_iff_isSome_getElem?, TreeMap.mem_iff_isSome_getElem?, hv, hi]
            exact ⟨by simp, by simp, (Except.ok.inj h).symm⟩
          · rw [hv, hi] at h
            cases h
        · rw [hv] at h
          cases h

/-- **An accepted listing** has only migrations, which share nothing, and they are what
has been seen. -/
theorem foldlM_observeEntry {listing : List DirEntry} {seen seen' : Seen}
    (h : listing.foldlM observeEntry seen = .ok seen') :
    (∀ entry ∈ listing, migrationOf entry ≠ none) ∧ Distinct listing ∧
      (∀ m ∈ migrations listing, m.1 ∉ seen.1 ∧ m.2.value ∉ seen.2) ∧
      (∀ version, version ∈ seen'.1 ↔ version ∈ seen.1 ∨ ∃ m ∈ migrations listing, m.1 = version) ∧
      ∀ value, value ∈ seen'.2 ↔ value ∈ seen.2 ∨ ∃ m ∈ migrations listing, m.2.value = value := by
  induction listing generalizing seen with
  | nil =>
      obtain rfl := Except.ok.inj h
      exact ⟨by simp, ⟨by simp [migrations], by simp [migrations]⟩, by simp [migrations],
        by simp [migrations], by simp [migrations]⟩
  | cons entry listing ih =>
      rw [List.foldlM_cons] at h
      obtain ⟨seen₁, h₁, h⟩ := bind_eq_ok.1 h
      obtain ⟨version, identity, he, hv, hi, rfl⟩ := observeEntry_eq_ok h₁
      obtain ⟨hall, hdistinct, hnew, hversions, hidentities⟩ := ih h
      have hm : migrations (entry :: listing) = (version, identity) :: migrations listing :=
        List.filterMap_cons_some he
      simp only [TreeMap.mem_insert, Std.compare_eq_iff_eq, not_or] at hnew hversions hidentities
      refine ⟨List.forall_mem_cons.2 ⟨by simp [he], hall⟩, hdistinct.cons he fun m hmem => ?_, ?_,
        fun w => ?_, fun value => ?_⟩
      · exact ⟨fun e => (hnew m hmem).1.1 e.symm,
          fun e => (hnew m hmem).2.1 (congrArg MigrationIdentity.value e).symm⟩
      · rw [hm]
        exact List.forall_mem_cons.2 ⟨⟨hv, hi⟩,
          fun m hmem => ⟨(hnew m hmem).1.2, (hnew m hmem).2.2⟩⟩
      · rw [hversions, hm]
        simp only [List.mem_cons, exists_eq_or_imp]
        exact (or_congr_left or_comm).trans or_assoc
      · rw [hidentities, hm]
        simp only [List.mem_cons, exists_eq_or_imp]
        exact (or_congr_left or_comm).trans or_assoc

theorem observeHistory_eq_ok {app : Application} {listing : List DirEntry}
    {database : SelectedDatabase} {history : ObservedHistory}
    (h : observeHistory app listing database = .ok history) :
    Distinct listing ∧ (∀ entry ∈ listing, migrationOf entry ≠ none) ∧
      (∀ m ∈ migrations listing, m.1 ≤ history.highestVersion ∧ m.2.value ∈ history.identities) ∧
      app.observeState = .ok history.state := by
  obtain ⟨⟨⟩, -, h⟩ := bind_eq_ok.1 h
  obtain ⟨root, -, h⟩ := bind_eq_ok.1 h
  obtain ⟨directory, -, h⟩ := bind_eq_ok.1 h
  dsimp only at h
  split at h
  · cases h
  obtain ⟨⟨versions, identities⟩, hfold, h⟩ := bind_eq_ok.1 h
  obtain ⟨state, hstate, h⟩ := bind_eq_ok.1 h
  obtain rfl := pure_eq_ok.1 h
  obtain ⟨hall, hdistinct, -, hversions, hidentities⟩ := foldlM_observeEntry hfold
  refine ⟨hdistinct, hall, fun m hm => ⟨?_, (hidentities _).2 (Or.inr ⟨m, hm, rfl⟩)⟩, hstate⟩
  have hmem : m.1 ∈ versions := (hversions _).2 (Or.inr ⟨m, hm, rfl⟩)
  obtain ⟨highest, hmax⟩ := Option.isSome_iff_exists.1 (TreeMap.isSome_maxKey?_of_mem hmem)
  have hle := TreeMap.le_maxKey?_of_mem hmem (show _ = highest by simp [hmax])
  rw [← TreeMap.maxKey?_eq_getLast?_keys, hmax]
  exact Std.isLE_compare.1 hle

/-! ### Planning -/

/-- What the state file is given is read back. -/
theorem parseState_of_serializeState {toml : Toml} {state : MigrationState} {source : Bytes}
    (h : serializeState toml state = .ok source) (hschema : state.schema = migrationStateSchema)
    (hnext : 0 < state.nextVersion) : parseState toml source = .ok state := by
  rcases htext : toml.toString state with _ | text
  · rw [serializeState, htext] at h
    cases h
  rw [serializeState, htext] at h
  obtain rfl := Except.ok.inj h
  have hread : toml.fromStr (if text.toList.getLast? = some '\n' then text else text ++ "\n") =
      some state := by
    split
    · exact toml.fromStr_toString htext
    · exact toml.fromStr_newline htext
  rw [parseState, Mutator.fromUtf8_intoBytes]
  dsimp only
  rw [hread]
  dsimp only
  rw [if_neg (by simp [hschema, hnext])]
  rfl

theorem checkedSucc_eq_ok {version next : ℤ} (h : checkedSucc version = .ok next) :
    next = version + 1 ∧ version + 1 ≤ i64Max := by
  rw [checkedSucc] at h
  split at h
  · next hle => exact ⟨(Except.ok.inj h).symm, hle⟩
  · cases h

variable {D : Type} [ContentDigest D] [DecidableEq D]

/-- What a plan for a migration has in it, and what it was made from. -/
structure Planned (toml : Toml) (app : Application) (listing : List DirEntry)
    (database : SelectedDatabase) (migration : PlannedMigration D) : Prop where
  distinct : Distinct listing
  parsed : ∀ entry ∈ listing, migrationOf entry ≠ none
  /-- The version is above all versions of the listing, and the identity is new. -/
  fresh : ∀ m ∈ migrations listing, m.1 < migration.version ∧ m.2 ≠ migration.identity
  floor : applicationMigrationVersionFloor ≤ migration.version
  max : migration.version ≤ i64Max
  path : migration.path = Application.directoryPrefix database ++
    migrationFilename migration.version migration.identity
  /-- The state that was read belongs to the database, and was not ahead. -/
  state : ∀ source, app.files[migrationState]? = some source → ∃ state,
    parseState toml source = .ok state ∧ state.database = database ∧
      state.nextVersion ≤ migration.version
  changes : ∃ (creation : FileCreation D) (stateChange : PlannedFileChange D) (source : Bytes),
    migration.plan.validate = .ok () ∧
    (∀ c, c ∈ migration.plan.changes ↔ c = .create creation ∨ c = stateChange) ∧
    creation.path.text = migration.path ∧
    stateChange.path = migrationState ∧
    stateChange.precondition.Holds app.files[migrationState]? ∧
    stateChange.resultingContent = some source ∧
    parseState toml source = .ok ⟨migrationStateSchema, database, migration.version + 1⟩

theorem observeState_eq_ok {app : Application} {state : Option Bytes}
    (h : app.observeState = .ok state) : app.files[migrationState]? = state := by
  rw [Application.observeState] at h
  split at h
  · next hs => rw [hs, Except.ok.inj h]
  · next hs =>
      rw [hs]
      split at h
      · cases h
      · cases h
      · exact Except.ok.inj h
      · cases h

/-- The change of the state file is at the state file, expects what was read and writes
what it is given. -/
theorem planState_eq_ok {observed : Option Bytes} {source : Bytes} {change : PlannedFileChange D}
    (h : planState D observed source = .ok change) :
    change.path = migrationState ∧ change.precondition.Holds observed ∧
      change.resultingContent = some source := by
  rw [planState.eq_def] at h
  rcases observed with _ | observed
  · obtain ⟨creation, hcreation, rfl⟩ := map_eq_ok.1 h
    rw [liftPlan, mapError_eq_ok] at hcreation
    obtain ⟨path, hpath, hcreation⟩ := bind_eq_ok.1 hcreation
    obtain rfl := pure_eq_ok.1 hcreation
    exact ⟨ChangePath.ext (Mutator.ChangePath.text_of_new hpath),
      by simp [PlannedFileChange.precondition], rfl⟩
  · obtain ⟨edit, hedit, rfl⟩ := map_eq_ok.1 h
    rw [liftPlan, mapError_eq_ok] at hedit
    obtain ⟨path, hpath, hedit⟩ := bind_eq_ok.1 hedit
    obtain ⟨-, hedit⟩ := guarded_eq_ok.1 hedit
    obtain rfl := pure_eq_ok.1 hedit
    exact ⟨ChangePath.ext (Mutator.ChangePath.text_of_new hpath),
      by simp [PlannedFileChange.precondition], rfl⟩

/-- **What a plan knows.** -/
theorem planned_of_eq_ok {toml : Toml} {app : Application} {listing : List DirEntry}
    {database : SelectedDatabase} {identity : MigrationIdentity} {source : Bytes}
    {migration : PlannedMigration D}
    (h : planApplicationMigrationWithSource D toml app listing database identity source =
      .ok migration) :
    migration.identity = identity ∧ Planned toml app listing database migration := by
  obtain ⟨history, hhistory, h⟩ := bind_eq_ok.1 h
  obtain ⟨hdistinct, hparsed, hseen, hstate⟩ := observeHistory_eq_ok hhistory
  split at h
  · cases h
  next hidentity =>
  obtain ⟨observed, hobserved, h⟩ := bind_eq_ok.1 h
  split at h
  · cases h
  next hdatabase =>
  obtain ⟨historyNext, hnext, h⟩ := bind_eq_ok.1 h
  dsimp only at h
  split at h
  · cases h
  obtain ⟨nextVersion, hversion, h⟩ := bind_eq_ok.1 h
  obtain ⟨creation, hcreation, h⟩ := bind_eq_ok.1 h
  obtain ⟨stateSource, hsource, h⟩ := bind_eq_ok.1 h
  obtain ⟨stateChange, hchange, h⟩ := bind_eq_ok.1 h
  obtain ⟨plan, hplan, h⟩ := bind_eq_ok.1 h
  obtain rfl := pure_eq_ok.1 h
  obtain ⟨rfl, -⟩ := checkedSucc_eq_ok hnext
  obtain ⟨rfl, hmax⟩ := checkedSucc_eq_ok hversion
  generalize hv : max (max (observed.elim applicationMigrationVersionFloor
    MigrationState.nextVersion) (history.highestVersion + 1)) applicationMigrationVersionFloor =
    version at *
  rw [liftPlan, mapError_eq_ok] at hcreation hplan
  obtain ⟨path, hpath, hcreation⟩ := bind_eq_ok.1 hcreation
  obtain rfl := pure_eq_ok.1 hcreation
  obtain ⟨hchangePath, hholds, hcontent⟩ := planState_eq_ok hchange
  obtain ⟨hvalid, hchanges⟩ := ChangePlan.new_eq_ok hplan
  have hfloor : applicationMigrationVersionFloor ≤ version := by omega
  have hpos : 0 < version := lt_of_lt_of_le (by decide) hfloor
  refine ⟨rfl, hdistinct, hparsed, fun m hm => ⟨?_, ?_⟩, hfloor, by dsimp only; omega, rfl,
    fun bytes hbytes => ?_, _, stateChange, stateSource, hvalid, by simpa using hchanges,
    Mutator.ChangePath.text_of_new hpath, hchangePath, ?_, hcontent,
    parseState_of_serializeState hsource rfl (by dsimp only; omega)⟩
  · have := (hseen m hm).1
    dsimp only
    omega
  · rintro rfl
    have hmem := (hseen m hm).2
    rw [TreeMap.mem_iff_isSome_getElem?, Option.isSome_iff_exists] at hmem
    obtain ⟨version, hversion⟩ := hmem
    exact hidentity _ hversion
  · rw [observeState_eq_ok hstate] at hbytes
    rw [hbytes] at hobserved
    obtain ⟨state, hparse, hobserved⟩ := map_eq_ok.1 hobserved
    subst hobserved
    refine ⟨state, hparse, ?_, ?_⟩
    · simpa using hdatabase
    · rw [Option.elim_some] at hv
      dsimp only
      omega
  · rw [observeState_eq_ok hstate]
    exact hholds

end Generator
end Hegira
