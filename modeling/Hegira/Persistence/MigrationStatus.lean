/-
# The history of a database against the plan: `MigrationPlan::compare_history`

`crates/persistence/src/migrations/status.rs`.

The rows of the history are put into a map, and each row is then looked up in the plan.
The comparison succeeds exactly when the rows have different versions and each records a
migration of the plan (`Recorded`); the report then lists the versions of the plan, each
once, with its owner (`compareHistory_eq_ok`).  A migration that is meant for going back
is no version of the plan.

`None` is the panic of the index `migration_owners[version]`, which no plan of
`MigrationPlan::new` reaches.
-/

import Hegira.Library.Arrangement
import Hegira.Persistence.Migrations

namespace Hegira
namespace Persistence

open Std (ExtTreeMap)
open UniqueKeys

inductive MigrationHistoryState where
  | databaseMissing
  | metadataMissing
  | present
  deriving DecidableEq

inductive MigrationState where
  | applied
  | pending
  deriving DecidableEq

structure MigrationStatus where
  moduleId : String
  version : Int
  state : MigrationState
  deriving DecidableEq

structure MigrationStatusReport where
  outputSchema : Nat
  history : MigrationHistoryState
  migrations : List MigrationStatus
  deriving DecidableEq

/-- The errors of `MigrationStatusError` that the comparison gives. -/
inductive MigrationStatusError where
  | duplicateHistory (version : Int)
  | unexpectedHistory (version : Int)
  | failedMigration (version : Int)
  | checksumConflict (version : Int)
  deriving DecidableEq

/-- `HistoryRow`: the version, the success and the checksum. -/
abbrev HistoryRow := Int × Bool × List UInt8

namespace MigrationPlan

/-- The migrations of the plan that are not for going back. -/
def upMigrations (plan : MigrationPlan) : List Migration :=
  plan.migrator.filter fun migration => !migration.migrationType.isDownMigration

/-- `expected`. -/
def expected (plan : MigrationPlan) : ExtTreeMap Int Migration :=
  plan.upMigrations.foldl (fun map migration => map.insert migration.version migration) ∅

/-- One row against the plan. -/
def checkRow (expected : ExtTreeMap Int Migration) (row : HistoryRow) :
    Except MigrationStatusError Unit :=
  match expected[row.1]? with
  | none => .error (.unexpectedHistory row.1)
  | some migration =>
      if !row.2.1 then .error (.failedMigration row.1)
      else if row.2.2 ≠ migration.checksum then .error (.checksumConflict row.1)
      else .ok ()

/-- The line of the report for a version. -/
def status (plan : MigrationPlan) (applied : ExtTreeMap Int (Bool × List UInt8)) (version : Int) :
    Option MigrationStatus :=
  plan.migrationOwners[version]?.map fun moduleId =>
    ⟨moduleId, version, if version ∈ applied then .applied else .pending⟩

/-- The rows of the history, by their versions. -/
def collectRows (rows : List HistoryRow) :
    Except MigrationStatusError (ExtTreeMap Int (Bool × List UInt8)) :=
  insertAll (fun _ row => .duplicateHistory row.1) ∅ (Arrangement.sortBy Prod.fst rows)

/-- `compare_history`. -/
def compareHistory (plan : MigrationPlan) (history : MigrationHistoryState)
    (rows : List HistoryRow) : Except MigrationStatusError (Option MigrationStatusReport) := do
  let applied ← collectRows rows
  applied.toList.forM (checkRow plan.expected)
  return (plan.expected.keys.mapM (plan.status applied)).map fun migrations =>
    ⟨1, history, migrations⟩

end MigrationPlan

/-! ### What the plan expects -/

section Expected

variable {plan : MigrationPlan} {sources : List ModuleMigrationSource}

/-- The versions of a plan are in order. -/
theorem PlanOf.versions_nodup (h : PlanOf sources plan) :
    (plan.upMigrations.map Migration.version).Pairwise (· < ·) :=
  h.versions_increasing.sublist (List.filter_sublist.map _)

/-- `expected` holds each migration under its version. -/
theorem PlanOf.getElem?_expected (h : PlanOf sources plan) (v : Int) (m : Migration) :
    plan.expected[v]? = some m ↔ m ∈ plan.upMigrations ∧ m.version = v := by
  have hfresh : Fresh (∅ : ExtTreeMap Int Migration)
      (plan.upMigrations.map fun m => (m.version, m)) := by
    refine ⟨?_, fun e _ => by simp⟩
    rw [List.map_map]
    exact h.versions_nodup.imp ne_of_lt
  have hfold := hfresh.getElem?_foldl v m
  rw [List.foldl_map] at hfold
  refine hfold.trans ?_
  simp only [ExtTreeMap.getElem?_empty, reduceCtorEq, false_or, List.mem_map, Prod.mk.injEq]
  constructor
  · rintro ⟨m, hm, rfl, rfl⟩
    exact ⟨hm, rfl⟩
  · rintro ⟨hm, rfl⟩
    exact ⟨m, hm, rfl, rfl⟩

/-- What is expected are its versions. -/
theorem PlanOf.keys_expected (h : PlanOf sources plan) :
    plan.expected.keys = plan.upMigrations.map Migration.version := by
  have hsorted : plan.expected.keys.Pairwise (· < ·) :=
    ExtTreeMap.ordered_keys.imp fun h => compare_lt_iff_lt.1 h
  have hmem : ∀ v, v ∈ plan.expected.keys ↔ v ∈ plan.upMigrations.map Migration.version := by
    intro v
    rw [ExtTreeMap.mem_keys, ExtTreeMap.mem_iff_isSome_getElem?, Option.isSome_iff_exists,
      List.mem_map]
    exact exists_congr fun m => h.getElem?_expected v m
  have hperm := (List.perm_ext_iff_of_nodup (hsorted.imp ne_of_lt)
    (h.versions_nodup.imp ne_of_lt)).2 hmem
  exact hperm.eq_of_pairwise (fun a b _ _ hab hba => absurd hba (lt_asymm hab)) hsorted
    h.versions_nodup

end Expected

/-! ### What the comparison accepts -/

/-- The row records a migration of the plan. -/
def Recorded (plan : MigrationPlan) (row : HistoryRow) : Prop :=
  ∃ m ∈ plan.upMigrations, m.version = row.1 ∧ row.2.1 = true ∧ row.2.2 = m.checksum

/-- The report lists the versions of the plan, each once, with its owner and whether a row
records it. -/
structure ReportOf (plan : MigrationPlan) (history : MigrationHistoryState)
    (rows : List HistoryRow) (report : MigrationStatusReport) : Prop where
  outputSchema : report.outputSchema = 1
  history : report.history = history
  versions : report.migrations.map MigrationStatus.version =
    plan.upMigrations.map Migration.version
  owners : ∀ s ∈ report.migrations, plan.migrationOwners[s.version]? = some s.moduleId
  states : ∀ s ∈ report.migrations, s.state = .applied ↔ ∃ row ∈ rows, row.1 = s.version

section Compare

variable {plan : MigrationPlan} {sources : List ModuleMigrationSource}
  {applied : ExtTreeMap Int (Bool × List UInt8)} {rows : List HistoryRow}

/-- A row is accepted when the plan has its migration. -/
theorem PlanOf.checkRow_eq_ok (h : PlanOf sources plan) {row : HistoryRow} :
    MigrationPlan.checkRow plan.expected row = .ok () ↔ Recorded plan row := by
  unfold MigrationPlan.checkRow Recorded
  cases he : plan.expected[row.1]? with
  | none =>
      refine iff_of_false (fun h => nomatch h) ?_
      rintro ⟨m, hm, hv, -, -⟩
      rw [(h.getElem?_expected row.1 m).2 ⟨hm, hv⟩] at he
      cases he
  | some m =>
      obtain ⟨hm, hv⟩ := (h.getElem?_expected row.1 m).1 he
      have honly : ∀ m' ∈ plan.upMigrations, m'.version = row.1 → m' = m := by
        intro m' hm' hv'
        have he' := (h.getElem?_expected row.1 m').2 ⟨hm', hv'⟩
        exact Option.some.inj (he'.symm.trans he)
      dsimp only
      constructor
      · intro hok
        split at hok
        · cases hok
        · next hs =>
            split at hok
            · cases hok
            · next hc => exact ⟨m, hm, hv, by simpa using hs, by simpa using hc⟩
      · rintro ⟨m', hm', hv', hs, hc⟩
        obtain rfl := honly m' hm' hv'
        simp [hs, hc]

/-- The rows are collected when no version repeats. -/
theorem collectRows_eq_ok : MigrationPlan.collectRows rows = .ok applied ↔
    (rows.map Prod.fst).Nodup ∧ ∀ v e, applied[v]? = some e ↔ (v, e) ∈ rows := by
  have hp := Arrangement.sortBy_perm (Prod.fst : HistoryRow → Int) rows
  rw [MigrationPlan.collectRows, insertAll_eq_ok]
  constructor
  · rintro ⟨hfresh, hmem⟩
    refine ⟨(hfresh.perm hp).nodup, fun v e => ?_⟩
    rw [hmem, hp.mem_iff]
    simp
  · rintro ⟨hnodup, hmem⟩
    have hfresh : Fresh (∅ : ExtTreeMap Int (Bool × List UInt8)) rows :=
      ⟨hnodup, fun e _ => by simp⟩
    refine ⟨hfresh.perm hp.symm, fun v e => ?_⟩
    rw [hmem, hp.mem_iff]
    simp

/-- A map that succeeds on every item. -/
theorem mapM_eq_some_map {α β : Type} {xs : List α} {f : α → Option β} {g : α → β}
    (h : ∀ x ∈ xs, f x = some (g x)) : xs.mapM f = some (xs.map g) := by
  induction xs with
  | nil => rfl
  | cons x xs ih =>
      obtain ⟨hx, hxs⟩ := List.forall_mem_cons.1 h
      rw [List.mapM_cons, hx, ih hxs]
      rfl

/-- Every migration of a plan has an owner. -/
theorem PlanOf.owner (h : PlanOf sources plan) {m : Migration} (hm : m ∈ plan.upMigrations) :
    ∃ o, plan.migrationOwners[m.version]? = some o := by
  obtain ⟨s, hs, hm⟩ := (h.migrations m).1 (List.mem_filter.1 hm).1
  exact ⟨s.moduleId, (h.owners _ _).2 ⟨s, hs, rfl, List.mem_map_of_mem hm⟩⟩

/-- The report is complete: every version of the plan has an owner. -/
theorem PlanOf.exists_report (h : PlanOf sources plan) (history : MigrationHistoryState)
    (hrows : ∀ v e, applied[v]? = some e ↔ (v, e) ∈ rows) :
    ∃ report, (plan.expected.keys.mapM (plan.status applied)).map
        (fun migrations => ⟨1, history, migrations⟩) = some report ∧
      ReportOf plan history rows report := by
  have hstatus : ∀ v ∈ plan.expected.keys, plan.status applied v =
      some ⟨(plan.migrationOwners[v]?).getD "", v, if v ∈ applied then .applied else .pending⟩ := by
    intro v hv
    rw [h.keys_expected] at hv
    obtain ⟨m, hm, rfl⟩ := List.mem_map.1 hv
    obtain ⟨o, ho⟩ := h.owner hm
    rw [MigrationPlan.status, ho]
    rfl
  have happlied : ∀ v, v ∈ applied ↔ ∃ row ∈ rows, row.1 = v := by
    intro v
    rw [ExtTreeMap.mem_iff_isSome_getElem?, Option.isSome_iff_exists]
    constructor
    · rintro ⟨e, he⟩
      exact ⟨(v, e), (hrows v e).1 he, rfl⟩
    · rintro ⟨⟨v, e⟩, hrow, rfl⟩
      exact ⟨e, (hrows v e).2 hrow⟩
  rw [mapM_eq_some_map hstatus]
  refine ⟨_, rfl, rfl, rfl, ?_, fun s hs => ?_, fun s hs => ?_⟩
  · rw [List.map_map, ← h.keys_expected]
    exact List.map_id _
  · obtain ⟨v, hv, rfl⟩ := List.mem_map.1 hs
    rw [h.keys_expected] at hv
    obtain ⟨m, hm, rfl⟩ := List.mem_map.1 hv
    obtain ⟨o, ho⟩ := h.owner hm
    simp only [ho, Option.getD_some]
  · obtain ⟨v, -, rfl⟩ := List.mem_map.1 hs
    rw [← happlied v]
    dsimp only
    split
    · next hv => exact iff_of_true rfl hv
    · next hv => exact iff_of_false (fun h => nomatch h) hv

/-- The comparison, turn by turn. -/
theorem compareHistory_eq_ok {history : MigrationHistoryState}
    {result : Option MigrationStatusReport} :
    plan.compareHistory history rows = .ok result ↔
      ∃ applied, MigrationPlan.collectRows rows = .ok applied ∧
        (∀ row ∈ applied.toList, MigrationPlan.checkRow plan.expected row = .ok ()) ∧
        (plan.expected.keys.mapM (plan.status applied)).map
          (fun migrations => ⟨1, history, migrations⟩) = result := by
  unfold MigrationPlan.compareHistory
  rw [Validation.bind_eq_ok]
  refine exists_congr fun applied => and_congr_right fun _ => ?_
  rw [Validation.bind_eq_ok]
  constructor
  · rintro ⟨_, hchecks, h⟩
    exact ⟨Validation.forM_eq_ok.1 hchecks, Validation.pure_eq_ok.1 h⟩
  · rintro ⟨hchecks, h⟩
    exact ⟨(), Validation.forM_eq_ok.2 hchecks, Validation.pure_eq_ok.2 h⟩

/-- **What the comparison accepts.** -/
theorem PlanOf.accepts (h : PlanOf sources plan) {history : MigrationHistoryState} :
    (∃ result, plan.compareHistory history rows = .ok result) ↔
      (rows.map Prod.fst).Nodup ∧ ∀ row ∈ rows, Recorded plan row := by
  constructor
  · rintro ⟨result, hc⟩
    obtain ⟨applied, happlied, hchecks, -⟩ := compareHistory_eq_ok.1 hc
    obtain ⟨hnodup, hrows⟩ := collectRows_eq_ok.1 happlied
    refine ⟨hnodup, fun row hrow => h.checkRow_eq_ok.1 (hchecks row ?_)⟩
    exact ExtTreeMap.mem_toList_iff_getElem?_eq_some.2 ((hrows row.1 row.2).2 hrow)
  · rintro ⟨hnodup, hrecorded⟩
    have hfresh : Fresh (∅ : ExtTreeMap Int (Bool × List UInt8))
        (Arrangement.sortBy Prod.fst rows) :=
      Fresh.perm ⟨hnodup, fun e _ => by simp⟩ (Arrangement.sortBy_perm _ rows).symm
    obtain ⟨-, hrows⟩ := collectRows_eq_ok.1 hfresh.insertAll
    refine ⟨_, compareHistory_eq_ok.2 ⟨_, hfresh.insertAll, fun row hrow => ?_, rfl⟩⟩
    refine h.checkRow_eq_ok.2 (hrecorded row ((hrows row.1 row.2).1 ?_))
    exact ExtTreeMap.mem_toList_iff_getElem?_eq_some.1 hrow

/-- **What it reports then.** -/
theorem PlanOf.report (h : PlanOf sources plan) {history : MigrationHistoryState}
    {result : Option MigrationStatusReport}
    (hc : plan.compareHistory history rows = .ok result) :
    ∃ report, result = some report ∧ ReportOf plan history rows report := by
  obtain ⟨applied, happlied, -, rfl⟩ := compareHistory_eq_ok.1 hc
  obtain ⟨-, hrows⟩ := collectRows_eq_ok.1 happlied
  exact h.exists_report history hrows

end Compare

/-- **Planning does not depend on the order of the sources, and the comparison accepts
exactly the histories of the plan.**  All orders of the sources, and all ways of sorting
them, give one plan or none; a plan lists what the sources bring, each version with one
owner; and a history, in any order of its rows, is accepted when its versions differ and
each row records a migration of the plan. -/
theorem planning_and_history_agree (order order' : UnstableSort ModuleMigrationSource.moduleId)
    (sources sources' : List ModuleMigrationSource) (hp : sources.Perm sources') :
    (MigrationPlan.new order sources).toOption = (MigrationPlan.new order' sources').toOption ∧
      ∀ plan, MigrationPlan.new order sources = .ok plan → PlanOf sources plan ∧
        ∀ history rows,
          ((∃ result, plan.compareHistory history rows = .ok result) ↔
            (rows.map Prod.fst).Nodup ∧ ∀ row ∈ rows, Recorded plan row) ∧
          ∀ result, plan.compareHistory history rows = .ok result →
            ∃ report, result = some report ∧ ReportOf plan history rows report := by
  refine ⟨?_, fun plan hplan => ?_⟩
  · cases hnew : MigrationPlan.new order sources with
    | ok plan => rw [new_perm hp hnew]
    | error e =>
        cases hnew' : MigrationPlan.new order' sources' with
        | error e' => rfl
        | ok plan =>
            rw [new_perm hp.symm hnew'] at hnew
            cases hnew
  · have hof := planOf_new hplan
    exact ⟨hof, fun history rows => ⟨hof.accepts, fun result => hof.report⟩⟩

/-- A sort that keeps the order of equal identities. -/
def stableOrder : UnstableSort ModuleMigrationSource.moduleId where
  sort := Arrangement.sortBy ModuleMigrationSource.moduleId
  perm := Arrangement.sortBy_perm _
  sorted := Arrangement.pairwise_sortBy _

/-- Two modules, in both orders, and a history of one row. -/
theorem two_modules_planned :
    let orders : ModuleMigrationSource :=
      ⟨"orders", [⟨20, "orders", .simple, "SELECT 20", [2], false⟩]⟩
    let identity : ModuleMigrationSource :=
      ⟨"identity", [⟨10, "identity", .simple, "SELECT 10", [1], false⟩]⟩
    ∃ plan, MigrationPlan.new stableOrder [orders, identity] = .ok plan ∧
      (MigrationPlan.new stableOrder [identity, orders]).toOption = some plan ∧
      ∃ result, plan.compareHistory .present [(10, true, [1])] = .ok result := by
  intro orders identity
  obtain ⟨hsame, hplans⟩ := planning_and_history_agree stableOrder stableOrder
    [orders, identity] [identity, orders] (.swap ..)
  cases hnew : MigrationPlan.new stableOrder [orders, identity] with
  | error e =>
      have hok : (MigrationPlan.new stableOrder [orders, identity]).isOk = true := by decide +kernel
      rw [hnew] at hok
      cases hok
  | ok plan =>
      obtain ⟨hof, hhistory⟩ := hplans plan hnew
      rw [hnew] at hsame
      refine ⟨plan, rfl, hsame.symm, ((hhistory .present _).1).2 ⟨by decide, fun row hrow => ?_⟩⟩
      rw [List.mem_singleton.1 hrow]
      have hm : (⟨10, "identity", .simple, "SELECT 10", [1], false⟩ : Migration) ∈ plan.migrator :=
        (hof.migrations _).2 ⟨identity, by decide, by decide⟩
      exact ⟨_, List.mem_filter.2 ⟨hm, rfl⟩, rfl, rfl, rfl⟩

end Persistence
end Hegira
