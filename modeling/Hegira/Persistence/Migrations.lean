/-
# The migrations of a host: `MigrationPlan::new`

`crates/persistence/src/migrations.rs`.

Modules contribute their migrations; the plan orders them by version.  The sources are
looked at one after another, in the order of their identities, and the first thing that
is wrong is reported.  Whether there is a plan, and which, depends on the sources as a
set (`new_eq_ok`): the identities are well formed and differ, and no version comes twice.

`Migrator` and `Migration` are the types of `sqlx`, of which the plan reads the list of
migrations and their columns.
-/

import Std.Data.ExtTreeSet
import Mathlib.Data.List.Sort
import Mathlib.Data.List.Nodup
import Mathlib.Data.List.Perm.Basic
import Mathlib.Data.String.Basic
import Hegira.Library.UniqueKeys

namespace Hegira
namespace Persistence

open Std (ExtTreeMap ExtTreeSet)
open UniqueKeys

inductive MigrationType where
  | simple
  | reversibleUp
  | reversibleDown
  deriving DecidableEq

/-- `is_down_migration`. -/
def MigrationType.isDownMigration : MigrationType → Bool
  | reversibleDown => true
  | _ => false

structure Migration where
  version : Int
  description : String
  migrationType : MigrationType
  sql : String
  checksum : List UInt8
  noTx : Bool
  deriving DecidableEq

/-- `ModuleMigrationSource`, with the migrations of its migrator. -/
structure ModuleMigrationSource where
  moduleId : String
  migrator : List Migration
  deriving DecidableEq

structure MigrationPlan where
  moduleIds : List String
  migrationOwners : ExtTreeMap Int String
  migrator : List Migration

inductive MigrationPlanError where
  | invalidModuleIdentity (moduleId : String)
  | duplicateModuleIdentity (moduleId : String)
  | duplicateMigrationIdentity (version : Int) (firstModuleId secondModuleId : String)
  | checksumConflict (version : Int) (firstModuleId secondModuleId : String)
  deriving DecidableEq

def validCharacter (character : Char) : Bool :=
  character.isLower || character.isDigit || character == '.' || character == '-' ||
    character == '_'

def validBoundary (character : Char) : Bool := character.isLower || character.isDigit

/-- The test of `validate_module_id`. -/
def validModuleId (moduleId : String) : Bool :=
  moduleId.toList.all validCharacter && moduleId.toList.head?.any validBoundary &&
    moduleId.toList.getLast?.any validBoundary

def validateModuleId (moduleId : String) : Except MigrationPlanError Unit :=
  if validModuleId moduleId then .ok () else .error (.invalidModuleIdentity moduleId)

/-- A version that two migrations have. -/
def versionTaken (existing : String × Migration) (entry : Int × String × Migration) :
    MigrationPlanError :=
  if existing.2.checksum ≠ entry.2.2.checksum then
    .checksumConflict entry.1 existing.1 entry.2.1
  else .duplicateMigrationIdentity entry.1 existing.1 entry.2.1

abbrev Collected := ExtTreeSet String × ExtTreeMap Int (String × Migration)

/-- One round of the inner loop. -/
def addMigration (moduleId : String) (migrations : ExtTreeMap Int (String × Migration))
    (migration : Migration) : Except MigrationPlanError (ExtTreeMap Int (String × Migration)) :=
  insertNew versionTaken migrations (migration.version, moduleId, migration)

/-- One round of the outer loop. -/
def addSource (collected : Collected) (source : ModuleMigrationSource) :
    Except MigrationPlanError Collected := do
  validateModuleId source.moduleId
  if source.moduleId ∈ collected.1 then
    throw (.duplicateModuleIdentity source.moduleId)
  let migrations ← source.migrator.foldlM (addMigration source.moduleId) collected.2
  return (collected.1.insert source.moduleId, migrations)

/-- `sort_unstable_by_key`: elements of one key may come in any order. -/
structure UnstableSort {α κ : Type} [LE κ] (key : α → κ) where
  sort : List α → List α
  perm : ∀ xs, (sort xs).Perm xs
  sorted : ∀ xs, (sort xs).Pairwise fun x y => key x ≤ key y

namespace MigrationPlan

/-- The plan of what was collected. -/
def ofCollected (collected : Collected) : MigrationPlan where
  moduleIds := collected.1.toList
  migrationOwners := collected.2.map fun _ entry => entry.1
  migrator := collected.2.toList.map fun entry => entry.2.2

/-- `MigrationPlan::new`. -/
def new (order : UnstableSort ModuleMigrationSource.moduleId)
    (sources : List ModuleMigrationSource) : Except MigrationPlanError MigrationPlan :=
  ((order.sort sources).foldlM addSource (∅, ∅)).map ofCollected

end MigrationPlan

/-! ### What is collected -/

/-- The migrations of the sources, with their versions and owners. -/
def entries (sources : List ModuleMigrationSource) : List (Int × String × Migration) :=
  sources.flatMap fun source =>
    source.migrator.map fun migration => (migration.version, source.moduleId, migration)

/-- The sources make a plan. -/
structure Accepted (sources : List ModuleMigrationSource) : Prop where
  valid : ∀ s ∈ sources, validModuleId s.moduleId = true
  modules : (sources.map ModuleMigrationSource.moduleId).Nodup
  versions : ((entries sources).map Prod.fst).Nodup

/-- The entries of the sources. -/
theorem mem_entries {sources : List ModuleMigrationSource} {v : Int} {o : String} {m : Migration} :
    (v, o, m) ∈ entries sources ↔
      ∃ s ∈ sources, m ∈ s.migrator ∧ v = m.version ∧ o = s.moduleId := by
  simp only [entries, List.mem_flatMap, List.mem_map, Prod.mk.injEq]
  constructor
  · rintro ⟨s, hs, m', hm, rfl, rfl, rfl⟩
    exact ⟨s, hs, hm, rfl, rfl⟩
  · rintro ⟨s, hs, hm, rfl, rfl⟩
    exact ⟨s, hs, m, hm, rfl, rfl, rfl⟩

/-- The order of the sources rearranges them. -/
theorem entries_perm {sources sources' : List ModuleMigrationSource} (h : sources.Perm sources') :
    (entries sources).Perm (entries sources') :=
  h.flatMap_right _

/-- Whether they are accepted does not depend on it. -/
theorem Accepted.perm {sources sources' : List ModuleMigrationSource} (h : Accepted sources)
    (hp : sources.Perm sources') : Accepted sources' :=
  ⟨fun s hs => h.valid s (hp.mem_iff.2 hs), (hp.map _).nodup_iff.1 h.modules,
    ((entries_perm hp).map _).nodup_iff.1 h.versions⟩

/-- Adding a migrator is inserting its entries. -/
theorem foldlM_addMigration (moduleId : String)
    (migrations : ExtTreeMap Int (String × Migration)) (ms : List Migration) :
    ms.foldlM (addMigration moduleId) migrations =
      insertAll versionTaken migrations (ms.map fun m => (m.version, moduleId, m)) := by
  rw [insertAll, List.foldlM_map]
  rfl

/-- One source is added: it is well formed, and what it brings is new. -/
theorem addSource_eq_ok {c c' : Collected} {s : ModuleMigrationSource} :
    addSource c s = .ok c' ↔ validModuleId s.moduleId = true ∧ s.moduleId ∉ c.1 ∧
      c'.1 = c.1.insert s.moduleId ∧
      insertAll versionTaken c.2 (s.migrator.map fun m => (m.version, s.moduleId, m)) = .ok c'.2 := by
  unfold addSource validateModuleId
  cases hv : validModuleId s.moduleId with
  | false => simp [bind, Except.bind]
  | true =>
      by_cases hm : s.moduleId ∈ c.1
      · simp [bind, Except.bind, hm, throw, throwThe, MonadExceptOf.throw]
      · rw [← foldlM_addMigration]
        simp only [hm]
        cases s.migrator.foldlM (addMigration s.moduleId) c.2 with
        | error e => simp [bind, Except.bind]
        | ok ms => simp [bind, Except.bind, pure, Except.pure, Prod.ext_iff, eq_comm]

/-- **What the loops collect**: every source is well formed, no identity and no version
comes twice, and the entries are there. -/
theorem foldlM_addSource_eq_ok {c c' : Collected} {sources : List ModuleMigrationSource} :
    sources.foldlM addSource c = .ok c' ↔
      (∀ s ∈ sources, validModuleId s.moduleId = true) ∧
        (sources.map ModuleMigrationSource.moduleId).Nodup ∧
        (∀ s ∈ sources, s.moduleId ∉ c.1) ∧
        (∀ x, x ∈ c'.1 ↔ x ∈ c.1 ∨ x ∈ sources.map ModuleMigrationSource.moduleId) ∧
        insertAll versionTaken c.2 (entries sources) = .ok c'.2 := by
  induction sources generalizing c with
  | nil =>
      constructor
      · intro h
        obtain rfl : c = c' := Except.ok.inj h
        exact ⟨fun s hs => (nomatch hs), List.nodup_nil, fun s hs => (nomatch hs),
          fun x => by simp, rfl⟩
      · rintro ⟨-, -, -, hids, hms⟩
        have hids : c.1 = c'.1 := ExtTreeSet.ext_mem fun x => by simpa using (hids x).symm
        exact congrArg Except.ok (Prod.ext hids (Except.ok.inj hms))
  | cons s sources ih =>
      have hentries : entries (s :: sources) =
          s.migrator.map (fun m => (m.version, s.moduleId, m)) ++ entries sources :=
        List.flatMap_cons ..
      rw [Validation.foldlM_cons_eq_ok, hentries, insertAll_append, List.forall_mem_cons,
        List.map_cons, List.nodup_cons]
      constructor
      · rintro ⟨c₁, hs, hrest⟩
        obtain ⟨hvalid, hnew, hids, hms⟩ := addSource_eq_ok.1 hs
        obtain ⟨hvalids, hnodup, hfree, hids', hms'⟩ := ih.1 hrest
        have hmem : ∀ x, x ∈ c₁.1 ↔ x ∈ c.1 ∨ x = s.moduleId := by
          intro x
          rw [hids, ExtTreeSet.mem_insert, Std.compare_eq_iff_eq, or_comm, eq_comm]
        refine ⟨⟨hvalid, hvalids⟩, ⟨fun hin => ?_, hnodup⟩, ?_, fun x => ?_, c₁.2, hms, hms'⟩
        · obtain ⟨s', hs', heq⟩ := List.mem_map.1 hin
          exact hfree s' hs' ((hmem _).2 (.inr heq))
        · exact List.forall_mem_cons.2 ⟨hnew, fun s' hs' hin => hfree s' hs' ((hmem _).2 (.inl hin))⟩
        · rw [hids', hmem, List.mem_cons, or_assoc]
      · rintro ⟨⟨hvalid, hvalids⟩, ⟨hnot, hnodup⟩, hfree, hids, ms, hms, hms'⟩
        obtain ⟨hnew, hfree⟩ := List.forall_mem_cons.1 hfree
        refine ⟨(c.1.insert s.moduleId, ms), addSource_eq_ok.2 ⟨hvalid, hnew, rfl, hms⟩, ?_⟩
        have hmem : ∀ x, x ∈ c.1.insert s.moduleId ↔ x ∈ c.1 ∨ x = s.moduleId := by
          intro x
          rw [ExtTreeSet.mem_insert, Std.compare_eq_iff_eq, or_comm, eq_comm]
        refine ih.2 ⟨hvalids, hnodup, fun s' hs' hin => ?_, fun x => ?_, hms'⟩
        · rcases (hmem _).1 hin with hin | heq
          · exact hfree s' hs' hin
          · exact hnot (heq ▸ List.mem_map_of_mem hs')
        · rw [hids, hmem, List.mem_cons, or_assoc]

/-! ### The plan -/

/-- The plan lists what the sources bring: each identity and each migration, in order,
and who brings it. -/
structure PlanOf (sources : List ModuleMigrationSource) (plan : MigrationPlan) : Prop where
  modules_sorted : plan.moduleIds.Pairwise (· < ·)
  modules : ∀ x, x ∈ plan.moduleIds ↔ x ∈ sources.map ModuleMigrationSource.moduleId
  versions_increasing : (plan.migrator.map Migration.version).Pairwise (· < ·)
  migrations : ∀ m, m ∈ plan.migrator ↔ ∃ s ∈ sources, m ∈ s.migrator
  owners : ∀ v o, plan.migrationOwners[v]? = some o ↔
    ∃ s ∈ sources, s.moduleId = o ∧ v ∈ s.migrator.map Migration.version
  owner_unique : ∀ s ∈ sources, ∀ s' ∈ sources, ∀ v ∈ s.migrator.map Migration.version,
    v ∈ s'.migrator.map Migration.version → s = s'

/-- A version of accepted sources is one migration of one of them. -/
theorem Accepted.eq_of_version {sources : List ModuleMigrationSource} (h : Accepted sources)
    {s s' : ModuleMigrationSource} (hs : s ∈ sources) (hs' : s' ∈ sources) {m m' : Migration}
    (hm : m ∈ s.migrator) (hm' : m' ∈ s'.migrator) (hv : m.version = m'.version) :
    s = s' ∧ m = m' := by
  have he : (m.version, s.moduleId, m) ∈ entries sources := mem_entries.2 ⟨s, hs, hm, rfl, rfl⟩
  have he' : (m'.version, s'.moduleId, m') ∈ entries sources :=
    mem_entries.2 ⟨s', hs', hm', rfl, rfl⟩
  have heq := (Prod.mk.inj (List.inj_on_of_nodup_map h.versions he he' hv)).2
  obtain ⟨hid, hmig⟩ := Prod.mk.inj heq
  exact ⟨List.inj_on_of_nodup_map h.modules hs hs' hid, hmig⟩

section OfCollected

variable {sources : List ModuleMigrationSource} {c : Collected}

/-- The plan has the migrations of the sources. -/
theorem mem_migrator (hms : ∀ v e, c.2[v]? = some e ↔ (v, e) ∈ entries sources) {m : Migration} :
    m ∈ (MigrationPlan.ofCollected c).migrator ↔ ∃ s ∈ sources, m ∈ s.migrator := by
  unfold MigrationPlan.ofCollected
  constructor
  · intro hm
    obtain ⟨⟨v, o, m⟩, he, rfl⟩ := List.mem_map.1 hm
    obtain ⟨s, hs, hm, -, -⟩ :=
      mem_entries.1 ((hms _ _).1 (ExtTreeMap.mem_toList_iff_getElem?_eq_some.1 he))
    exact ⟨s, hs, hm⟩
  · rintro ⟨s, hs, hm⟩
    have he := (hms m.version (s.moduleId, m)).2 (mem_entries.2 ⟨s, hs, hm, rfl, rfl⟩)
    exact List.mem_map.2 ⟨_, ExtTreeMap.mem_toList_iff_getElem?_eq_some.2 he, rfl⟩

/-- A migration is kept under its version. -/
theorem migrator_versions (hms : ∀ v e, c.2[v]? = some e ↔ (v, e) ∈ entries sources) :
    (MigrationPlan.ofCollected c).migrator.map Migration.version = c.2.toList.map Prod.fst := by
  unfold MigrationPlan.ofCollected
  rw [List.map_map]
  refine List.map_congr_left fun e he => ?_
  obtain ⟨s, -, -, hv, -⟩ :=
    mem_entries.1 ((hms _ _).1 (ExtTreeMap.mem_toList_iff_getElem?_eq_some.1 he))
  exact hv.symm

/-- What was collected makes the plan of the sources. -/
theorem PlanOf.ofCollected (ha : Accepted sources)
    (hids : ∀ x, x ∈ c.1 ↔ x ∈ sources.map ModuleMigrationSource.moduleId)
    (hms : ∀ v e, c.2[v]? = some e ↔ (v, e) ∈ entries sources) :
    PlanOf sources (.ofCollected c) where
  modules_sorted := ExtTreeSet.ordered_toList.imp fun h => compare_lt_iff_lt.1 h
  modules x := ExtTreeSet.mem_toList.trans (hids x)
  versions_increasing := by
    rw [migrator_versions hms, List.pairwise_map]
    exact ExtTreeMap.ordered_keys_toList.imp fun h => compare_lt_iff_lt.1 h
  migrations m := mem_migrator hms
  owners v o := by
    unfold MigrationPlan.ofCollected
    rw [ExtTreeMap.getElem?_map, Option.map_eq_some_iff]
    constructor
    · rintro ⟨⟨o, m⟩, he, rfl⟩
      obtain ⟨s, hs, hm, rfl, rfl⟩ := mem_entries.1 ((hms _ _).1 he)
      exact ⟨s, hs, rfl, List.mem_map_of_mem hm⟩
    · rintro ⟨s, hs, rfl, hv⟩
      obtain ⟨m, hm, rfl⟩ := List.mem_map.1 hv
      exact ⟨_, (hms _ _).2 (mem_entries.2 ⟨s, hs, hm, rfl, rfl⟩), rfl⟩
  owner_unique s hs s' hs' v hv hv' := by
    obtain ⟨m, hm, rfl⟩ := List.mem_map.1 hv
    obtain ⟨m', hm', heq⟩ := List.mem_map.1 hv'
    exact (ha.eq_of_version hs hs' hm hm' heq.symm).1

end OfCollected

section New

variable {order order' : UnstableSort ModuleMigrationSource.moduleId}
  {sources sources' : List ModuleMigrationSource} {plan : MigrationPlan}

/-- **When there is a plan, and which.** -/
theorem new_eq_ok : MigrationPlan.new order sources = .ok plan ↔ Accepted sources ∧
    ∃ c : Collected, plan = .ofCollected c ∧
      (∀ x, x ∈ c.1 ↔ x ∈ sources.map ModuleMigrationSource.moduleId) ∧
      insertAll versionTaken ∅ (entries sources) = .ok c.2 := by
  have hp := order.perm sources
  unfold MigrationPlan.new
  rw [Validation.map_eq_ok]
  constructor
  · rintro ⟨c, hc, rfl⟩
    obtain ⟨hvalid, hnodup, -, hids, hms⟩ := foldlM_addSource_eq_ok.1 hc
    have ha : Accepted (order.sort sources) := ⟨hvalid, hnodup, (insertAll_eq_ok.1 hms).1.nodup⟩
    refine ⟨ha.perm hp, c, rfl, fun x => ?_, insertAll_perm (entries_perm hp) hms⟩
    rw [hids, (hp.map _).mem_iff]
    simp
  · rintro ⟨ha, c, rfl, hids, hms⟩
    have ha' := ha.perm hp.symm
    refine ⟨c, foldlM_addSource_eq_ok.2 ⟨ha'.valid, ha'.modules, fun s _ => ?_, fun x => ?_, ?_⟩, rfl⟩
    · simp
    · rw [hids, (hp.map _).mem_iff]
      simp
    · exact insertAll_perm (entries_perm hp.symm) hms

/-- **Every plan** is that of its sources. -/
theorem planOf_new (h : MigrationPlan.new order sources = .ok plan) : PlanOf sources plan := by
  obtain ⟨ha, c, rfl, hids, hms⟩ := new_eq_ok.1 h
  refine .ofCollected ha hids fun v e => ?_
  rw [(insertAll_eq_ok.1 hms).2]
  simp

/-- **The order of the sources makes no difference.** -/
theorem new_perm (hp : sources.Perm sources') (h : MigrationPlan.new order sources = .ok plan) :
    MigrationPlan.new order' sources' = .ok plan := by
  obtain ⟨ha, c, rfl, hids, hms⟩ := new_eq_ok.1 h
  refine new_eq_ok.2 ⟨ha.perm hp, c, rfl, fun x => ?_, insertAll_perm (entries_perm hp) hms⟩
  rw [hids, (hp.map _).mem_iff]

end New

end Persistence
end Hegira
