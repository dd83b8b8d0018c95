/-
# The history of an application's migrations

Migrations are planned against what the application was like at some time and published
later, if their preconditions still hold; in between migration files may go, and the
state file stays (`Step`).

The next version of the state file only grows (`nextVersion`), so a plan whose
precondition on the state file holds was made from the state file as it is, and nothing
was published since.  Hence the versions of the published migrations increase, each is
above everything in its directory, and no two migrations share a version or an identity
(`migrations_append_only`).
-/

import Mathlib
import Hegira.Generator.MigrationPlanning

namespace Hegira
namespace Generator

open Mutator (Bytes ChangePath ChangePlan ContentDigest FilePrecondition FileState
  PlannedFileChange fromUtf8 intoBytes)
open Relation (ReflTransGen)
open Std (TreeMap)
open Validation

variable {D : Type} [ContentDigest D] [DecidableEq D]

/-! ### Publication -/

namespace Application

/-- One change of a plan, written. -/
def writeChange (files : TreeMap ChangePath Bytes) (change : PlannedFileChange D) :
    TreeMap ChangePath Bytes :=
  match change.resultingContent with
  | some content => files.insert change.path content
  | none => files.erase change.path

/-- The application after a plan, if the preconditions of the plan hold. -/
def publish (app : Application) (plan : ChangePlan D) : Option Application :=
  if plan.PreconditionsHold app.fileState then
    some { app with files := plan.changes.foldl writeChange app.files }
  else none

omit [DecidableEq D] in
theorem getElem?_foldl_writeChange (changes : List (PlannedFileChange D))
    (files : TreeMap ChangePath Bytes) :
    (fun path => (changes.foldl writeChange files)[path]?) =
      changes.foldl (fun s change => Function.update s change.path change.resultingContent)
        fun path => files[path]? := by
  induction changes generalizing files with
  | nil => rfl
  | cons change changes ih =>
      rw [List.foldl_cons, List.foldl_cons, ih]
      congr 1
      rw [writeChange]
      split
      · next content hc => rw [hc, Keyed.lookup_insert]
      · next hc => rw [hc, Keyed.lookup_erase]

/-- A publication is what the plan does to the files. -/
theorem publish_eq_some {app app' : Application} {plan : ChangePlan D}
    (h : app.publish plan = some app') :
    plan.PreconditionsHold app.fileState ∧ app'.fileState = plan.write app.fileState ∧
      app'.strays = app.strays := by
  rw [publish] at h
  split at h
  · next hp =>
      obtain rfl := Option.some.inj h
      exact ⟨hp, getElem?_foldl_writeChange _ _, rfl⟩
  · cases h

/-! ### The entries of the migration directories -/

/-- The state file is in no migration directory. -/
theorem entryOf_migrationState (database : SelectedDatabase) :
    entryOf (directoryPrefix database) migrationState = none := by
  cases database <;> rfl

/-- A name without a slash, in its directory. -/
theorem entryOf_directoryPrefix {database : SelectedDatabase} {path : ChangePath} {name : String}
    (hpath : path.text = directoryPrefix database ++ name) (hname : '/' ∉ name.toList) :
    entryOf (directoryPrefix database) path =
      some (.named (intoBytes name) (.found .regular)) := by
  have hwhile : name.toList.takeWhile (· ≠ '/') = name.toList := by
    refine List.takeWhile_eq_self_iff.2 fun c hc => ?_
    simpa using fun he : c = '/' => hname (he ▸ hc)
  rw [entryOf, hpath, String.toList_append, if_pos (by simp)]
  dsimp only
  rw [List.drop_left, hwhile, if_neg hname, String.ofList_toList]

/-- The directory of the other database does not have it. -/
theorem entryOf_directoryPrefix_of_ne {database database' : SelectedDatabase} {path : ChangePath}
    {name : String} (hpath : path.text = directoryPrefix database ++ name)
    (hne : database' ≠ database) : entryOf (directoryPrefix database') path = none := by
  rw [entryOf, hpath, String.toList_append, if_neg]
  cases database <;> cases database' <;> first | exact absurd rfl hne | exact Bool.false_ne_true

/-- The files below a directory do not count the state file. -/
theorem filterMap_entryOf (database : SelectedDatabase) (paths : List ChangePath) :
    paths.filterMap (entryOf (directoryPrefix database)) =
      (paths.filter (· ≠ migrationState)).filterMap (entryOf (directoryPrefix database)) := by
  rw [List.filterMap_filter]
  refine List.filterMap_congr fun path _ => ?_
  by_cases hp : path = migrationState
  · simp [hp, entryOf_migrationState]
  · simp [hp]

/-- **A new file next to the state file** is one new entry of its directory. -/
theorem entries_perm {app app' : Application} {path : ChangePath} (database : SelectedDatabase)
    (hstrays : app'.strays = app.strays) (hnew : path ∉ app.files)
    (hne : path ≠ migrationState)
    (hfiles : ∀ k, k ∈ app'.files ↔ k = path ∨ k = migrationState ∨ k ∈ app.files) :
    (app'.entries database).Perm
      ((entryOf (directoryPrefix database) path).toList ++ app.entries database) := by
  have hkeys : (app'.files.keys.filter (· ≠ migrationState)).Perm
      (path :: app.files.keys.filter (· ≠ migrationState)) := by
    refine (List.perm_ext_iff_of_nodup (TreeMap.nodup_keys.filter _) (List.nodup_cons.2
      ⟨by simp [hnew], TreeMap.nodup_keys.filter _⟩)).2 fun k => ?_
    simp only [List.mem_filter, List.mem_cons, TreeMap.mem_keys, hfiles, decide_eq_true_eq]
    constructor
    · rintro ⟨rfl | rfl | hk, hks⟩
      · exact Or.inl rfl
      · exact absurd rfl hks
      · exact Or.inr ⟨hk, hks⟩
    · rintro (rfl | ⟨hk, hks⟩)
      · exact ⟨Or.inl rfl, hne⟩
      · exact ⟨Or.inr (Or.inr hk), hks⟩
  rw [entries, entries, hstrays, filterMap_entryOf, filterMap_entryOf database app.files.keys,
    ← List.append_assoc]
  refine List.Perm.append_right _ ((hkeys.filterMap _).trans ?_)
  rw [List.filterMap_cons]
  cases entryOf (directoryPrefix database) path <;> rfl

end Application

/-- The entry of a published migration. -/
def PlannedMigration.entry (migration : PlannedMigration D) : DirEntry :=
  .named (intoBytes (migrationFilename migration.version migration.identity)) (.found .regular)

variable {toml : Toml} {app app' app₀ : Application} {listing : List DirEntry}
  {database : SelectedDatabase} {migration : PlannedMigration D}

namespace Planned

/-- The file name of a planned migration is read back. -/
theorem parse (h : Planned toml app listing database migration) :
    parseMigrationFilename (migrationFilename migration.version migration.identity) =
      .ok (migration.version, migration.identity) :=
  parseMigrationFilename_migrationFilename _ (lt_of_lt_of_le (by decide) h.floor) h.max

theorem migrationOf_entry (h : Planned toml app listing database migration) :
    migrationOf migration.entry = some (migration.version, migration.identity) := by
  rw [PlannedMigration.entry, migrationOf, Mutator.fromUtf8_intoBytes]
  simp [h.parse, Except.toOption]

/-- **What a publication finds and leaves.** -/
theorem of_publish (hdigest : Function.Injective (ContentDigest.calculate : Bytes → D))
    (h : Planned toml app₀ listing database migration)
    (hpublish : app.publish migration.plan = some app') :
    app.files[migrationState]? = app₀.files[migrationState]? ∧
      (∃ source, app'.files[migrationState]? = some source ∧
        parseState toml source = .ok ⟨migrationStateSchema, database, migration.version + 1⟩) ∧
      (app'.entries database).Perm (migration.entry :: app.entries database) ∧
      ∀ database' ≠ database, (app'.entries database').Perm (app.entries database') := by
  obtain ⟨creation, stateChange, source, hvalid, hchanges, hcreation, hstatePath, hholds, hcontent,
    hparse⟩ := h.changes
  obtain ⟨hpre, hwrite, hstrays⟩ := Application.publish_eq_some hpublish
  have hcreate := hpre (.create creation) ((hchanges _).2 (Or.inl rfl))
  have hstate := hpre stateChange ((hchanges _).2 (Or.inr rfl))
  have hpath : creation.path.text = Application.directoryPrefix database ++
      migrationFilename migration.version migration.identity := hcreation.trans h.path
  have hentry := Application.entryOf_directoryPrefix hpath (slash_notMem_migrationFilename _ _)
  have hne : creation.path ≠ migrationState := by
    rintro he
    rw [he, Application.entryOf_migrationState] at hentry
    cases hentry
  have hnew : creation.path ∉ app.files := by
    rw [TreeMap.mem_iff_isSome_getElem?]
    have := FilePrecondition.holds_absent.1 hcreate
    rw [show app.files[creation.path]? = none from this]
    simp
  have hread (k : ChangePath) : app'.files[k]? =
      if k = creation.path then some creation.content
      else if k = migrationState then some source else app.files[k]? := by
    rw [show app'.files[k]? = migration.plan.write app.fileState k from congrFun hwrite k]
    split
    · next hk =>
        subst hk
        exact ChangePlan.write_of_mem hvalid _ ((hchanges (.create creation)).2 (Or.inl rfl))
    · next hk =>
        split
        · next hs =>
            rw [hs, ← hstatePath, ← hcontent]
            exact ChangePlan.write_of_mem hvalid _ ((hchanges stateChange).2 (Or.inr rfl))
        · next hs =>
            refine ChangePlan.write_of_forall_ne _ fun change hc => ?_
            rcases (hchanges change).1 hc with rfl | rfl
            · exact Ne.symm hk
            · exact hstatePath ▸ Ne.symm hs
  have hfiles (k : ChangePath) :
      k ∈ app'.files ↔ k = creation.path ∨ k = migrationState ∨ k ∈ app.files := by
    rw [TreeMap.mem_iff_isSome_getElem?, hread, TreeMap.mem_iff_isSome_getElem?]
    split
    · simp_all
    · split <;> simp_all
  refine ⟨?_, ⟨source, by rw [hread, if_neg hne.symm, if_pos rfl], hparse⟩, ?_, fun d hd => ?_⟩
  · rw [hstatePath] at hstate
    exact Option.map_injective hdigest (hstate.trans hholds.symm)
  · have := Application.entries_perm database hstrays hnew hne hfiles
    rwa [hentry] at this
  · have := Application.entries_perm d hstrays hnew hne hfiles
    rwa [Application.entryOf_directoryPrefix_of_ne hpath hd] at this

end Planned

/-! ### Runs -/

/-- A published migration, and the directory it was published into. -/
structure Publication (D : Type) [ContentDigest D] where
  database : SelectedDatabase
  migration : PlannedMigration D
  directory : List DirEntry

/-- An application, the migrations that have been planned, and those that have been
published, in order. -/
structure Situation (D : Type) [ContentDigest D] where
  app : Application
  planned : List (SelectedDatabase × PlannedMigration D)
  published : List (Publication D)

/-- What may happen. -/
inductive Step (toml : Toml) : Situation D → Situation D → Prop where
  /-- A migration is planned against the application as it is. -/
  | plan {s : Situation D} {database listing identity source migration}
      (hlisting : listing.Perm (s.app.entries database))
      (h : planApplicationMigrationWithSource D toml s.app listing database identity source =
        .ok migration) :
      Step toml s { s with planned := (database, migration) :: s.planned }
  /-- A planned migration is published, if its preconditions hold now. -/
  | publish {s : Situation D} {database migration app}
      (hplanned : (database, migration) ∈ s.planned)
      (h : s.app.publish migration.plan = some app) :
      Step toml s { s with
        app, published := s.published ++ [⟨database, migration, s.app.entries database⟩] }
  /-- Entries of the migration directories go, and the state file stays; the rest of the
  application is its own business. -/
  | erode {s : Situation D} {app : Application}
      (hstate : app.files[migrationState]? = s.app.files[migrationState]?)
      (hentries : ∀ database, (app.entries database).Subperm (s.app.entries database)) :
      Step toml s { s with app }

/-- The next version a state file has. -/
def nextVersion (toml : Toml) (observed : Option Bytes) : WithBot ℤ :=
  match observed.map (parseState toml) with
  | some (.ok state) => state.nextVersion
  | _ => ⊥

/-- A plan is for a version that the state file has not reached. -/
theorem Planned.nextVersion_le (h : Planned toml app listing database migration) :
    nextVersion toml app.files[migrationState]? ≤ (migration.version : WithBot ℤ) := by
  rcases hf : app.files[migrationState]? with _ | source
  · exact bot_le
  · obtain ⟨state, hparse, -, hle⟩ := h.state source hf
    simp only [nextVersion, Option.map_some, hparse]
    exact_mod_cast hle

/-- What holds in every situation after `start`. -/
structure Invariant (toml : Toml) (start s : Situation D) : Prop where
  /-- A planned migration was planned against the state file as it is, and nothing has
  come since; or the state file has moved on. -/
  planned : ∀ p ∈ s.planned, ∃ app listing, Planned toml app listing p.1 p.2 ∧
    (app.files[migrationState]? = s.app.files[migrationState]? ∧
        (s.app.entries p.1).Subperm listing ∨
      nextVersion toml app.files[migrationState]? < nextVersion toml s.app.files[migrationState]?)
  increasing : s.published.Pairwise fun p q => p.migration.version < q.migration.version
  fresh : ∀ p ∈ s.published, applicationMigrationVersionFloor ≤ p.migration.version ∧
    ∀ m ∈ migrations p.directory, m.1 < p.migration.version
  /-- The state file is ahead of what was published. -/
  ahead : ∀ p ∈ s.published, ∃ source state, s.app.files[migrationState]? = some source ∧
    parseState toml source = .ok state ∧ state.database = p.database ∧
      p.migration.version < state.nextVersion
  distinct : ∀ database,
    (Distinct (start.app.entries database) ∨ ∃ p ∈ s.published, p.database = database) →
      Distinct (s.app.entries database)

namespace Invariant

variable {start s s' : Situation D}

/-- **The step of a publication.** -/
theorem publish (hdigest : Function.Injective (ContentDigest.calculate : Bytes → D))
    (h : Invariant toml start s) (hplanned : (database, migration) ∈ s.planned)
    (hpublish : s.app.publish migration.plan = some app) :
    Invariant toml start { s with
      app, published := s.published ++ [⟨database, migration, s.app.entries database⟩] } := by
  obtain ⟨app₀, listing, hp, halt⟩ := h.planned _ hplanned
  obtain ⟨hsame, ⟨source, hsource, hparse⟩, hperm, hother⟩ := hp.of_publish hdigest hpublish
  have hsub : (s.app.entries database).Subperm listing := by
    rcases halt with ⟨-, hsub⟩ | hlt
    · exact hsub
    · rw [hsame] at hlt
      exact absurd hlt (lt_irrefl _)
  have hadvance : nextVersion toml s.app.files[migrationState]? <
      nextVersion toml app.files[migrationState]? := by
    refine (hsame ▸ hp.nextVersion_le).trans_lt ?_
    rw [hsource]
    simp only [nextVersion, Option.map_some, hparse]
    exact_mod_cast Int.lt_succ migration.version
  have hfresh (m) (hm : m ∈ migrations (s.app.entries database)) :
      m.1 < migration.version ∧ m.2 ≠ migration.identity :=
    hp.fresh m (List.filterMap_subset _ hsub.subset hm)
  have hbelow (p) (hpub : p ∈ s.published) :
      p.database = database ∧ p.migration.version < migration.version := by
    obtain ⟨source, state, hsource, hparse, hdatabase, hlt⟩ := h.ahead p hpub
    obtain ⟨state', hparse', hdatabase', hle⟩ := hp.state source (hsame ▸ hsource)
    obtain rfl := Except.ok.inj (hparse.symm.trans hparse')
    exact ⟨hdatabase.symm.trans hdatabase', hlt.trans_le hle⟩
  refine ⟨fun p hpl => ?_, ?_, ?_, ?_, fun d hd => ?_⟩
  · obtain ⟨app₁, listing₁, hp₁, hsub₁ | hlt⟩ := h.planned p hpl
    · exact ⟨app₁, listing₁, hp₁, Or.inr (hsub₁.1 ▸ hadvance)⟩
    · exact ⟨app₁, listing₁, hp₁, Or.inr (hlt.trans hadvance)⟩
  · refine List.pairwise_append.2 ⟨h.increasing, List.pairwise_singleton _ _, fun p hpub q hq => ?_⟩
    rw [List.mem_singleton.1 hq]
    exact (hbelow p hpub).2
  · refine List.forall_mem_append.2 ⟨h.fresh, List.forall_mem_singleton.2 ⟨hp.floor, ?_⟩⟩
    exact fun m hm => (hfresh m hm).1
  · refine List.forall_mem_append.2 ⟨fun p hpub => ?_, List.forall_mem_singleton.2 ?_⟩
    · obtain ⟨hdatabase, hlt⟩ := hbelow p hpub
      exact ⟨source, _, hsource, hparse, hdatabase.symm, hlt.trans (Int.lt_succ _)⟩
    · exact ⟨source, _, hsource, hparse, rfl, Int.lt_succ _⟩
  · by_cases hd' : d = database
    · subst hd'
      refine Distinct.subperm ?_ hperm.subperm
      refine (hp.distinct.subperm hsub).cons hp.migrationOf_entry fun m hm => ?_
      exact ⟨(hfresh m hm).1.ne, (hfresh m hm).2⟩
    · refine (h.distinct d (hd.imp_right ?_)).subperm (hother d hd').subperm
      rintro ⟨p, hpub, hpd⟩
      rcases List.mem_append.1 hpub with hpub | hpub
      · exact ⟨p, hpub, hpd⟩
      · rw [List.mem_singleton.1 hpub] at hpd
        exact absurd hpd.symm hd'

/-- **What one step preserves.** -/
theorem step (hdigest : Function.Injective (ContentDigest.calculate : Bytes → D))
    (h : Invariant toml start s) (hstep : Step toml s s') : Invariant toml start s' := by
  cases hstep with
  | plan hlisting hplan =>
      refine ⟨List.forall_mem_cons.2 ⟨?_, h.planned⟩, h.increasing, h.fresh, h.ahead, h.distinct⟩
      exact ⟨s.app, _, (planned_of_eq_ok hplan).2, Or.inl ⟨rfl, hlisting.symm.subperm⟩⟩
  | publish hplanned hpublish => exact h.publish hdigest hplanned hpublish
  | erode hstate hentries =>
      refine ⟨fun p hp => ?_, h.increasing, h.fresh, fun p hp => ?_, fun d hd => ?_⟩
      · obtain ⟨app, listing, hplan, halt⟩ := h.planned p hp
        refine ⟨app, listing, hplan, ?_⟩
        dsimp only
        rw [hstate]
        exact halt.imp_left fun ⟨he, hsub⟩ => ⟨he, (hentries p.1).trans hsub⟩
      · dsimp only
        rw [hstate]
        exact h.ahead p hp
      · exact (h.distinct d hd).subperm (hentries d)

end Invariant

/-- **Migrations are append-only.**  In every run the versions of the published
migrations increase, from the floor on, and each is above everything in its directory;
no two migrations of a directory share a version or an identity, once the directory has
been published into, or if it started so; and the file name of what is planned is read
back. -/
theorem migrations_append_only (hdigest : Function.Injective (ContentDigest.calculate : Bytes → D))
    {toml : Toml} {app : Application} {s : Situation D}
    (hrun : ReflTransGen (Step toml) ⟨app, [], []⟩ s) :
    s.published.Pairwise (fun p q => p.migration.version < q.migration.version) ∧
      (∀ p ∈ s.published, applicationMigrationVersionFloor ≤ p.migration.version ∧
        ∀ m ∈ migrations p.directory, m.1 < p.migration.version) ∧
      (∀ database,
        (Distinct (app.entries database) ∨ ∃ p ∈ s.published, p.database = database) →
          Distinct (s.app.entries database)) ∧
      ∀ p ∈ s.planned, p.2.path = Application.directoryPrefix p.1 ++
          migrationFilename p.2.version p.2.identity ∧
        parseMigrationFilename (migrationFilename p.2.version p.2.identity) =
          .ok (p.2.version, p.2.identity) := by
  have h : Invariant toml ⟨app, [], []⟩ s := by
    induction hrun with
    | refl => exact ⟨by simp, .nil, by simp, by simp, by simp⟩
    | tail _ hstep ih => exact ih.step hdigest hstep
  refine ⟨h.increasing, h.fresh, h.distinct, fun p hp => ?_⟩
  obtain ⟨app, listing, hplan, -⟩ := h.planned p hp
  exact ⟨hplan.path, hplan.parse⟩

/-! #### Two migrations of a new application -/

/-- A migration planned and published at once. -/
def migrate (toml : Toml) (database : SelectedDatabase) (identity : MigrationIdentity)
    (s : Situation D) : Option (Situation D) := do
  let migration ← (planApplicationMigration D toml s.app (s.app.entries database) database
    identity).toOption
  let app ← s.app.publish migration.plan
  return {
    app
    planned := (database, migration) :: s.planned
    published := s.published ++ [⟨database, migration, s.app.entries database⟩] }

theorem run_of_migrate {toml : Toml} {database : SelectedDatabase} {identity : MigrationIdentity}
    {s s' : Situation D} (h : migrate toml database identity s = some s') :
    ReflTransGen (Step toml) s s' := by
  obtain ⟨migration, hplan, h⟩ := Option.bind_eq_some_iff.1 h
  obtain ⟨app, hpublish, h⟩ := Option.bind_eq_some_iff.1 h
  obtain rfl := Option.some.inj h
  rcases hr : planApplicationMigration D toml s.app (s.app.entries database) database identity
    with e | migration'
  · rw [hr] at hplan
    cases hplan
  · rw [hr] at hplan
    obtain rfl := Option.some.inj hplan
    exact .tail (.single (.plan (.refl _) hr)) (.publish List.mem_cons_self hpublish)

/-- What the generator's state looks like before its next version. -/
def stateHeader (database : SelectedDatabase) : List Char :=
  ("schema = 1\ndatabase = \"" ++ Application.databaseDirectory database
    ++ "\"\nnext_version = ").toList

/-- A reading of the state file: the header, and the digits after it. -/
def readState (text : List Char) (database : SelectedDatabase) : Option MigrationState :=
  if (stateHeader database).isPrefixOf text then
    let digits := (text.drop (stateHeader database).length).takeWhile Char.isDigit
    some ⟨migrationStateSchema, database, Nat.ofDigitChars 10 digits 0⟩
  else none

/-- The text of a state of the generator. -/
def writeState (state : MigrationState) : Option (List Char) :=
  if state.schema = migrationStateSchema ∧ 0 ≤ state.nextVersion then
    some (stateHeader state.database ++ Nat.toDigits 10 state.nextVersion.toNat ++ ['\n'])
  else none

theorem readState_of_writeState {state : MigrationState} {text : List Char} (rest : List Char)
    (h : writeState state = some text) :
    (readState (text ++ rest) .postgres).or (readState (text ++ rest) .sqlite) = some state := by
  rw [writeState] at h
  split at h
  · next hstate =>
      obtain ⟨schema, database, next⟩ := state
      obtain ⟨rfl, hnext⟩ : schema = migrationStateSchema ∧ 0 ≤ next := hstate
      obtain rfl := Option.some.inj h
      have hdigits : ((Nat.toDigits 10 next.toNat ++ ['\n']) ++ rest).takeWhile Char.isDigit =
          Nat.toDigits 10 next.toNat := by
        rw [List.append_assoc, List.takeWhile_append_of_pos fun c hc =>
          Nat.isDigit_of_mem_toDigits (by omega) (by omega) hc]
        simp
      have hread : readState (stateHeader database ++ Nat.toDigits 10 next.toNat ++ ['\n'] ++ rest)
          database = some ⟨migrationStateSchema, database, next⟩ := by
        rw [readState, List.append_assoc, List.append_assoc, ← List.append_assoc _ ['\n'],
          if_pos (by simp)]
        dsimp only
        rw [List.drop_left, hdigits, Nat.ofDigitChars_ten_toDigits, Int.toNat_of_nonneg hnext]
      cases database with
      | postgres => rw [hread, Option.some_or]
      | sqlite =>
          have hother (l : List Char) :
              (stateHeader .postgres).isPrefixOf (stateHeader .sqlite ++ l) = false := by
            simp only [stateHeader, Application.databaseDirectory, String.reduceAppend,
              String.toList]
            rfl
          rw [hread]
          simp [readState, hother]
  · cases h

/-- The state file in the format of the generator. -/
def plainToml : Toml where
  toString state := (writeState state).map String.ofList
  fromStr text := (readState text.toList .postgres).or (readState text.toList .sqlite)
  fromStr_toString h := by
    obtain ⟨text, ht, rfl⟩ := Option.map_eq_some_iff.1 h
    have := readState_of_writeState [] ht
    simpa using this
  fromStr_newline h := by
    obtain ⟨text, ht, rfl⟩ := Option.map_eq_some_iff.1 h
    have := readState_of_writeState ['\n'] ht
    simpa using this

/-- An application with one migration of the framework. -/
def freshApplication : Application where
  absolute := true
  canonical := some true
  files := (∅ : TreeMap ChangePath Bytes).insert
    ⟨"crates/infrastructure/migrations/sqlite/009_existing.sql", by decide +kernel⟩ []
  others path :=
    if path ∈ [[], ["crates"], ["crates", "infrastructure"],
      ["crates", "infrastructure", "migrations"],
      ["crates", "infrastructure", "migrations", "sqlite"],
      ["crates", "infrastructure", "migrations", "postgres"]] then .found .directory else .missing
  readable _ := true
  strays _ := []

def addOrders : MigrationIdentity := ⟨"add_orders", by decide +kernel⟩

def addItems : MigrationIdentity := ⟨"add_items", by decide +kernel⟩

/-- Two migrations, one after the other. -/
theorem migrations_append_only_two :
    ∃ s : Situation Mutator.PlainDigest,
      s.published.map (fun p => p.migration.version) = [1000000, 1000001] ∧
      s.published.Pairwise (fun p q => p.migration.version < q.migration.version) ∧
      Distinct (s.app.entries .sqlite) := by
  have hrun : (((migrate (D := Mutator.PlainDigest) plainToml .sqlite addOrders
      ⟨freshApplication, [], []⟩).bind (migrate plainToml .sqlite addItems)).map
      fun s => s.published.map fun p => p.migration.version) = some [1000000, 1000001] := by
    decide +kernel
  obtain ⟨s₂, hs₂, hversions⟩ := Option.map_eq_some_iff.1 hrun
  obtain ⟨s₁, hs₁, hs₂⟩ := Option.bind_eq_some_iff.1 hs₂
  obtain ⟨hincreasing, -, hdistinct, -⟩ := migrations_append_only
    Mutator.PlainDigest.calculate_injective ((run_of_migrate hs₁).trans (run_of_migrate hs₂))
  exact ⟨s₂, hversions, hincreasing, hdistinct .sqlite (Or.inl (by
    constructor <;> decide +kernel))⟩

end Generator
end Hegira
