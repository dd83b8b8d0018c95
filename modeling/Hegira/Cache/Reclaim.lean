/-
# The reclamation of caches

`Storage::reclaim`, `Tree::verify`, `Tree::remove` and `maintain` of
`tools/hegira_cli/src/operations/execution/platform/cache.rs`, as programs over the calls
they make: nothing is assumed of the replies, and anybody may change the disk between two
calls.  The selection is made before the first call (`select`).

The calls that remove something are known beforehand (`Tree.removals`), and a run makes
them in that order (`emits_reclaim`), none before all has been verified
(`verified_of_removal`).
-/

import Mathlib.Data.Prod.Lex
import Mathlib.Data.String.Basic
import Hegira.Cache.Storage
import Hegira.Library.Arrangement
import Hegira.Library.Program

namespace Hegira
namespace Cache

/-! ### Calls -/

/-- Paths are relative to the storage. -/
inductive Check where
  | claim (path : List String) (kind : String)
  | directory (path : List String)

inductive Removal where
  | unlink (path : List String) (name : String)
  | removeDirectory (path : List String) (name : String)
  deriving DecidableEq

inductive LockReply where
  | held
  | wouldBlock
  | failed

inductive Call where
  | anchor
  | check (c : Check)
  | stat (path : List String) (name : String)
  | remove (r : Removal)
  | lock (exclusive : Bool)
  | ensureNoRecovery
  | inspect

abbrev Call.Reply : Call → Type
  | .anchor | .ensureNoRecovery => Except OperationError Unit
  | .check _ | .remove _ => Bool
  | .stat .. => Option (FileId × Stat)
  | .lock _ => LockReply
  | .inspect => Except OperationError (Option Storage)

abbrev Action := Fallible OperationError Call Call.Reply

def ask (c : Call) : Action c.Reply := ExceptT.lift (Program.perform c)

def anchor : Action Unit := do
  liftExcept (← ask .anchor)

def check (c : Check) : Action Unit := do
  if (← ask (.check c)) = false then throw invalid

def remove (r : Removal) : Action Unit := do
  if (← ask (.remove r)) = false then throw invalid

def statAt (path : List String) (name : String) : Action (FileId × Stat) := do
  match ← ask (.stat path name) with
  | some now => return now
  | none => throw invalid

def inspectStorage : Action (Option Storage) := do
  liftExcept (← ask .inspect)

/-! ### The removal of a cache -/

/-- The look at a file that `verify` takes. -/
def FileEntry.verify (kind : String) (file : FileEntry) : Action Unit := do
  check (.directory (kind :: file.parent))
  let now ← statAt (kind :: file.parent) file.name
  if now ≠ (file.id, file.observed) then throw invalid

/-- `Tree::verify`, of the tree in the directory `kind`. -/
def Tree.verify (tree : Tree) (kind : String) : Action Unit := do
  tree.files.forM fun file => file.verify kind
  tree.directories.forM fun directory => check (.directory (kind :: directory.1 ++ [directory.2]))

/-- The marker of a cache itself. -/
def FileEntry.isMarker (file : FileEntry) : Bool := file.parent = [] && file.name = markerName

def FileEntry.removal (kind : String) (file : FileEntry) : Removal :=
  .unlink (kind :: file.parent) file.name

/-- A link other than the marker.  The unlinking of an internal hard link changes the
times and the link count of its aliases. -/
def FileEntry.remove (kind : String) (file : FileEntry) : Action Unit := do
  anchor
  check (.directory [])
  check (.directory [kind])
  check (.directory (kind :: file.parent))
  let now ← statAt (kind :: file.parent) file.name
  if now.1 ≠ file.id ∨ now.2.mode ≠ file.observed.mode ∨ now.2.size ≠ file.observed.size then
    throw invalid
  Cache.remove (file.removal kind)

def directoryRemoval (kind : String) (directory : List String × String) : Removal :=
  .removeDirectory (kind :: directory.1) directory.2

def removeDirectory (kind : String) (directory : List String × String) : Action Unit := do
  check (.directory [kind])
  check (.directory (kind :: directory.1))
  check (.directory (kind :: directory.1 ++ [directory.2]))
  remove (directoryRemoval kind directory)

/-- The files that are unlinked before the directories. -/
def Tree.unclaimed (tree : Tree) : List FileEntry := tree.files.filter fun file => !file.isMarker

/-- `Tree::remove`: the marker goes when all other files and directories are gone. -/
def Tree.remove (tree : Tree) (kind : String) : Action Unit := do
  anchor
  check (.claim [] "root")
  check (.claim [kind] kind)
  tree.verify kind
  tree.unclaimed.forM (FileEntry.remove kind)
  tree.directories.forM (removeDirectory kind)
  check (.claim [kind] kind)
  Cache.remove (.unlink [kind] markerName)
  check (.directory [])
  check (.directory [kind])
  Cache.remove (.removeDirectory [] kind)

/-! ### The selection -/

/-- The loop of `reclaim` over the candidates, from the bytes `total`. -/
def select (budget : Nat) : List ClaimedCache → Nat → Except OperationError (List String × Nat)
  | [], total => .ok ([], total)
  | cache :: candidates, total =>
      if total ≤ budget then
        .ok ([], total)
      else if total < cache.tree.allocated then
        .error invalid
      else do
        let (selected, rest) ← select budget candidates (total - cache.tree.allocated)
        return (cache.kind :: selected, rest)

/-- The candidates of `reclaim`, in the order of `(used, kind)`. -/
def Storage.candidates (storage : Storage) (active : Option String) : List ClaimedCache :=
  Arrangement.sortBy (fun cache => toLex (cache.used, cache.kind))
    (storage.caches.filter fun cache => some cache.kind ≠ active && !cache.active)

/-- No mutation until every observed tree and claim has passed. -/
def Storage.verification (storage : Storage) : Action Unit :=
  storage.caches.forM fun cache => do
    check (.claim [cache.kind] cache.kind)
    cache.tree.verify cache.kind

/-- The removal of the cache of a kind; without one the source panics. -/
def Storage.removeKind (storage : Storage) (kind : String) : Action Unit :=
  match storage.caches.find? fun cache => cache.kind == kind with
  | some cache => cache.tree.remove kind
  | none => throw invalid

def Storage.reclaim (storage : Storage) (budget : Nat) (active : Option String)
    (execute : Bool) : Action (List String × Nat) := do
  let (selected, total) ←
    liftExcept (select budget (storage.candidates active) storage.allocated)
  storage.verification
  if execute then selected.forM storage.removeKind
  return (selected, total)

/-! ### Maintenance -/

inductive CacheAction where
  | status
  | preview
  | prune
  deriving DecidableEq

def CacheAction.name : CacheAction → String
  | .status => "status"
  | .preview => "preview"
  | .prune => "prune"

structure CacheEntry where
  cache : String
  logicalBytes : Nat
  allocatedBytes : Nat
  uniqueFiles : Nat
  lastUsed : Nat
  active : Bool
  cleanupEligible : Bool
  deriving DecidableEq

structure CacheReport where
  outputSchema : Nat
  mode : String
  application : String
  path : String
  operationActivity : String
  budgetBytes : Nat
  allocatedBytes : Nat
  logicalBytes : Nat
  remainingBytes : Nat
  budgetSatisfied : Bool
  caches : List CacheEntry
  selected : List String
  guidance : String
  deriving DecidableEq

def executionActive : OperationError where
  kind := .conflict
  code := "execution-active"
  message := "Another application operation is active; no cache was removed."

/-- What the operation lock says, `"idle"` or `"active"`. -/
def CacheAction.activity (action : CacheAction) : LockReply → Except OperationError String
  | .held => .ok "idle"
  | .wouldBlock => if action = .prune then .error executionActive else .ok "active"
  | .failed => .error invalid

def ClaimedCache.entry (activity : String) (cache : ClaimedCache) : CacheEntry where
  cache := cache.kind
  logicalBytes := cache.tree.logical
  allocatedBytes := cache.tree.allocated
  uniqueFiles := cache.tree.uniqueFiles
  lastUsed := cache.used
  active := activity ≠ "idle" || cache.active
  cleanupEligible := activity = "idle" && !cache.active

/-- The report before anything is reclaimed. -/
def report (plan : OperationPlan) (budget : Nat) (action : CacheAction) (activity : String)
    (storage : Option Storage) : CacheReport where
  outputSchema := 1
  mode := action.name
  application := plan.application
  path := "target/hegira/validation"
  operationActivity := activity
  budgetBytes := budget
  allocatedBytes := storage.elim 0 Storage.allocated
  logicalBytes := storage.elim 0 Storage.logical
  remainingBytes := 0
  budgetSatisfied := true
  caches := storage.elim [] fun storage => storage.caches.map (ClaimedCache.entry activity)
  selected := []
  guidance := "Only claimed inactive validation caches are eligible. Developer output, ordinary release bundles, global Cargo/Git/toolchain caches, frontend dependencies and Docker are excluded. Explicit execution reauthenticates; previews grant no deletion authority."

/-- The part of `maintain` that may reclaim: the kinds selected and the bytes that remain. -/
def Storage.maintain (storage : Storage) (budget : Nat) (action : CacheAction)
    (activity : String) : Action (List String × Nat) :=
  if action ≠ .status ∧ activity = "idle" then do
    let (selected, total) ← storage.reclaim budget none (action = .prune)
    if action = .prune then
      match ← inspectStorage with
      | some after => return (selected, after.allocated)
      | none => throw invalid
    else
      return (selected, total)
  else
    return ([], storage.allocated)

def maintain (plan : OperationPlan) (budget : Nat) (action : CacheAction) :
    Action CacheReport := do
  anchor
  let activity ← liftExcept (action.activity (← ask (.lock (action = .prune))))
  if action = .prune then liftExcept (← ask .ensureNoRecovery)
  let storage ← inspectStorage
  let (selected, remaining) ← storage.elim (pure ([], 0)) fun storage =>
    storage.maintain budget action activity
  anchor
  return { report plan budget action activity storage with
    selected
    remainingBytes := remaining
    budgetSatisfied := remaining ≤ budget }

/-! ### What is removed -/

/-- The calls that remove the tree in the directory `kind`. -/
def Tree.removals (tree : Tree) (kind : String) : List Removal :=
  tree.unclaimed.map (FileEntry.removal kind) ++ (tree.directories.map (directoryRemoval kind) ++
    [.unlink [kind] markerName, .removeDirectory [] kind])

def ClaimedCache.removals (cache : ClaimedCache) : List Removal := cache.tree.removals cache.kind

/-- A call that has removed something. -/
def removed? : (c : Call) → c.Reply → Option Removal
  | .remove r, true => some r
  | _, _ => none

section Removals

variable {σ : Type} {env : σ → (c : Call) → c.Reply → σ → Prop}

/-- What the events have removed, in turn. -/
def removals (t : List (Event Call Call.Reply σ)) : List Removal :=
  t.filterMap fun e => removed? e.call e.reply

/-- The removals of two parts of a run. -/
theorem removals_append (t t' : List (Event Call Call.Reply σ)) :
    removals (t ++ t') = removals t ++ removals t' := List.filterMap_append

open Fallible

/-- A call that removes nothing emits nothing. -/
theorem emits_ask {c : Call} (hc : ∀ r, removed? c r = none) : (ask c).Emits env removed? [] where
  along h := by
    cases h with
    | refl => exact List.nil_prefix
    | step he h =>
        cases h
        simp [hc]
  complete h := by
    cases h with
    | step he h =>
        cases h
        simp [hc]

/-- A removal emits itself. -/
theorem emits_remove (r : Removal) : (remove r).Emits env removed? [r] where
  along h := by
    cases h with
    | refl => exact List.nil_prefix
    | @step _ _ _ _ reply _ _ _ he h =>
        cases reply <;> cases h <;> simp [removed?]
  complete h := by
    cases h with
    | @step _ _ _ _ reply _ _ _ he h =>
        cases reply <;> cases h
        simp [removed?]

/-- No check removes anything. -/
theorem emits_anchor : anchor.Emits env removed? [] :=
  (emits_ask fun _ => rfl).silent_bind fun _ => .liftExcept

theorem emits_check (c : Check) : (check c).Emits env removed? [] := by
  refine (emits_ask fun _ => rfl).silent_bind fun reply => ?_
  cases reply
  · exact .throw
  · exact .pure

theorem emits_statAt (path : List String) (name : String) :
    (statAt path name).Emits env removed? [] := by
  refine (emits_ask fun _ => rfl).silent_bind fun reply => ?_
  cases reply
  · exact .throw
  · exact .pure

theorem emits_inspectStorage : inspectStorage.Emits env removed? [] :=
  (emits_ask fun _ => rfl).silent_bind fun _ => .liftExcept

/-- Verifying removes nothing. -/
theorem emits_verifyFile (kind : String) (file : FileEntry) :
    (file.verify kind).Emits env removed? [] := by
  refine (emits_check _).silent_bind fun _ => (emits_statAt ..).silent_bind fun now => ?_
  split
  · exact .throw
  · exact .pure

theorem emits_verify (tree : Tree) (kind : String) :
    (tree.verify kind).Emits env removed? [] :=
  (Emits.silent_forM fun file _ => emits_verifyFile kind file).silent_bind fun _ =>
    .silent_forM fun _ _ => emits_check _

/-- **A verification removes nothing.** -/
theorem emits_verification (storage : Storage) : storage.verification.Emits env removed? [] :=
  .silent_forM fun _ _ => (emits_check _).silent_bind fun _ => emits_verify ..

/-- A file and a directory are removed by one call each. -/
theorem emits_removeFile (kind : String) (file : FileEntry) :
    (file.remove kind).Emits env removed? [file.removal kind] := by
  refine emits_anchor.silent_bind fun _ => (emits_check _).silent_bind fun _ =>
    (emits_check _).silent_bind fun _ => (emits_check _).silent_bind fun _ =>
    (emits_statAt ..).silent_bind fun now => ?_
  split
  · exact .throw
  · exact emits_remove _

theorem emits_removeDirectory (kind : String) (directory : List String × String) :
    (removeDirectory kind directory).Emits env removed? [directoryRemoval kind directory] :=
  (emits_check _).silent_bind fun _ => (emits_check _).silent_bind fun _ =>
    (emits_check _).silent_bind fun _ => emits_remove _

/-- **The removal of a tree** unlinks its files, removes its directories, and then the
marker and its own directory. -/
theorem emits_removeTree (tree : Tree) (kind : String) :
    (tree.remove kind).Emits env removed? (tree.removals kind) := by
  refine emits_anchor.silent_bind fun _ => (emits_check _).silent_bind fun _ =>
    (emits_check _).silent_bind fun _ => (emits_verify ..).silent_bind fun _ => ?_
  rw [Tree.removals, List.map_eq_flatMap, List.map_eq_flatMap]
  refine (Emits.forM fun file _ => emits_removeFile kind file).bind fun _ =>
    (Emits.forM fun directory _ => emits_removeDirectory kind directory).bind fun _ =>
    (emits_check _).silent_bind fun _ => ?_
  exact (emits_remove _).bind fun _ => (emits_check _).silent_bind fun _ =>
    (emits_check _).silent_bind fun _ => emits_remove _

end Removals

/-! ### What is selected -/

/-- The shortest selection of candidates that brings the storage to the budget. -/
structure Selection (storage : Storage) (budget : Nat) (active : Option String)
    (chosen : List ClaimedCache) (total : Nat) : Prop where
  leading : chosen <+: storage.candidates active
  sum : total + allocatedSum chosen = storage.allocated
  enough : total ≤ budget ∨ chosen = storage.candidates active
  shortest : ∀ fewer, fewer <+: chosen → fewer ≠ chosen →
    budget < storage.allocated - allocatedSum fewer

/-- A selection within the total succeeds with a prefix of the candidates. -/
theorem exists_select (budget : Nat) : ∀ (candidates : List ClaimedCache) (total : Nat),
    allocatedSum candidates ≤ total → ∃ chosen rest,
      select budget candidates total = .ok (chosen.map ClaimedCache.kind, rest) ∧
      chosen <+: candidates ∧ rest + allocatedSum chosen = total ∧
      (rest ≤ budget ∨ chosen = candidates) ∧
      ∀ fewer, fewer <+: chosen → fewer ≠ chosen → budget < total - allocatedSum fewer
  | [], total, _ => ⟨[], total, rfl, List.nil_prefix, by simp, .inr rfl,
      fun fewer h hne => absurd (List.prefix_nil.1 h) hne⟩
  | cache :: candidates, total, hsum => by
      rw [allocatedSum_cons] at hsum
      rw [select]
      split
      · next hbudget =>
          exact ⟨[], total, rfl, List.nil_prefix, by simp, .inl hbudget,
            fun fewer h hne => absurd (List.prefix_nil.1 h) hne⟩
      · next hbudget =>
          have hcache : ¬total < cache.tree.allocated := by omega
          rw [if_neg hcache]
          have hrest : allocatedSum candidates ≤ total - cache.tree.allocated := by omega
          obtain ⟨chosen, rest, hselect, hleading, htotal, henough, hshortest⟩ :=
            exists_select budget candidates (total - cache.tree.allocated) hrest
          refine ⟨cache :: chosen, rest, ?_, List.cons_prefix_cons.2 ⟨rfl, hleading⟩, ?_, ?_, ?_⟩
          · rw [hselect]
            rfl
          · rw [allocatedSum_cons]
            omega
          · exact henough.imp_right (congrArg (cache :: ·))
          · intro fewer hfewer hne
            cases fewer with
            | nil =>
                rw [allocatedSum_nil]
                omega
            | cons first fewer =>
                obtain ⟨rfl, htail⟩ := List.cons_prefix_cons.1 hfewer
                have h := hshortest fewer htail fun he => hne (congrArg (first :: ·) he)
                rw [allocatedSum_cons]
                omega

/-- The candidates are the caches that are neither active nor leased. -/
theorem candidates_perm (storage : Storage) (active : Option String) :
    (storage.candidates active).Perm
      (storage.caches.filter fun cache => some cache.kind ≠ active && !cache.active) :=
  Arrangement.sortBy_perm ..

/-- They are in the order of their last use. -/
theorem candidates_sorted (storage : Storage) (active : Option String) :
    (storage.candidates active).Pairwise fun a b =>
      toLex (a.used, a.kind) ≤ toLex (b.used, b.kind) :=
  Arrangement.pairwise_sortBy ..

/-- They allocate no more than all the caches. -/
theorem allocatedSum_candidates (storage : Storage) (active : Option String) :
    allocatedSum (storage.candidates active) ≤ allocatedSum storage.caches := by
  have hperm := (candidates_perm storage active).map fun cache => cache.tree.allocated
  rw [allocatedSum, hperm.sum_eq]
  exact List.Sublist.sum_le_sum (List.filter_sublist.map _) fun _ _ => Nat.zero_le _

/-- **The selection of an inspected storage.** -/
theorem Inspected.exists_selection {storage : Storage}
    (h : Inspected storage.caches storage.allocated) (budget : Nat) (active : Option String) :
    ∃ chosen total, select budget (storage.candidates active) storage.allocated =
      .ok (chosen.map ClaimedCache.kind, total) ∧ Selection storage budget active chosen total := by
  have hsum := (allocatedSum_candidates storage active).trans h.sum
  obtain ⟨chosen, total, hselect, hleading, htotal, henough, hshortest⟩ :=
    exists_select budget _ _ hsum
  exact ⟨chosen, total, hselect, hleading, htotal, henough, hshortest⟩

/-- What is selected is a cache of the storage. -/
theorem Selection.mem {storage : Storage} {budget : Nat} {active : Option String}
    {chosen : List ClaimedCache} {total : Nat} (h : Selection storage budget active chosen total)
    {cache : ClaimedCache} (hc : cache ∈ chosen) :
    cache ∈ storage.caches ∧ some cache.kind ≠ active ∧ cache.active = false := by
  have hmem := (candidates_perm storage active).mem_iff.1 (h.leading.subset hc)
  simpa using List.mem_filter.1 hmem

/-! ### The runs of a reclamation -/

section Runs

open Fallible

variable {σ : Type} {env : σ → (c : Call) → c.Reply → σ → Prop} {storage : Storage}
  {budget total : Nat} {active : Option String} {chosen : List ClaimedCache} {execute : Bool}

/-- `reclaim` after the selection. -/
theorem reclaim_eq {selected : List String}
    (h : select budget (storage.candidates active) storage.allocated = .ok (selected, total)) :
    storage.reclaim budget active execute = (do
      storage.verification
      if execute then selected.forM storage.removeKind
      return (selected, total)) := by
  rw [Storage.reclaim, h]
  rfl

/-- The calls of a reclamation that remove something. -/
def planned (execute : Bool) (chosen : List ClaimedCache) : List Removal :=
  if execute then chosen.flatMap ClaimedCache.removals else []

/-- Removing a cache emits the removals of its tree. -/
theorem emits_removeKind (h : Inspected storage.caches storage.allocated) {cache : ClaimedCache}
    (hc : cache ∈ storage.caches) :
    (storage.removeKind cache.kind).Emits env removed? cache.removals := by
  have hfind : storage.caches.find? (fun c => c.kind == cache.kind) = some cache :=
    Arrangement.find?_key h.nodup hc
  rw [Storage.removeKind, hfind]
  exact emits_removeTree ..

/-- Removing the selection emits them in turn. -/
theorem emits_removeSelected (h : Inspected storage.caches storage.allocated)
    (hchosen : ∀ cache ∈ chosen, cache ∈ storage.caches) :
    ((chosen.map ClaimedCache.kind).forM storage.removeKind).Emits env removed?
      (chosen.flatMap ClaimedCache.removals) := by
  have hmap : (chosen.map ClaimedCache.kind).forM storage.removeKind =
      chosen.forM fun cache => storage.removeKind cache.kind := List.forM_map ..
  rw [hmap]
  exact .forM fun cache hc => emits_removeKind h (hchosen cache hc)

/-- **A reclamation removes the caches it has selected**, one after the other. -/
theorem emits_reclaim (h : Inspected storage.caches storage.allocated)
    (hchosen : ∀ cache ∈ chosen, cache ∈ storage.caches)
    (hselect : select budget (storage.candidates active) storage.allocated =
      .ok (chosen.map ClaimedCache.kind, total)) :
    (storage.reclaim budget active execute).Emits env removed? (planned execute chosen) := by
  rw [reclaim_eq hselect]
  refine (emits_verification storage).silent_bind fun _ => ?_
  cases execute with
  | false => exact .pure
  | true =>
      have hremove := @emits_removeSelected _ env _ _ h hchosen
      simpa [planned] using hremove.bind fun _ => .pure

/-- A reclamation that succeeds returns what was selected. -/
theorem reclaim_result {selected : List String} {s s' : σ}
    {t : List (Event Call Call.Reply σ)} {result : List String × Nat}
    (hselect : select budget (storage.candidates active) storage.allocated =
      .ok (selected, total))
    (hr : Runs env (storage.reclaim budget active execute).run s t (.done (.ok result)) s') :
    result = (selected, total) := by
  have hspec : (storage.reclaim budget active execute).Spec env (fun _ => True)
      (fun result _ => result = (selected, total)) s := by
    rw [reclaim_eq hselect]
    refine spec_bind.2 (Meets.trivial.imp fun _ s _ _ _ => ?_)
    cases execute with
    | false => exact spec_pure.2 rfl
    | true =>
        refine spec_bind.2 ?_
        refine Meets.trivial.imp fun _ s _ _ _ => ?_
        exact spec_pure.2 rfl
  exact Meets.of_done hspec hr result rfl

/-- **Nothing is removed before all has been verified.** -/
theorem verified_of_removal {selected : List String} {s s' : σ}
    {t : List (Event Call Call.Reply σ)} {q : Program Call Call.Reply _}
    (hselect : select budget (storage.candidates active) storage.allocated =
      .ok (selected, total))
    (hr : Runs env (storage.reclaim budget active execute).run s t q s') :
    removals t = [] ∨ ∃ t₁ t₂ s₁, t = t₁ ++ t₂ ∧ removals t₁ = [] ∧
      Runs env storage.verification.run s t₁ (.done (.ok ())) s₁ := by
  rw [reclaim_eq hselect, fallible_bind_eq] at hr
  rcases hr.of_bind with ⟨p, hp, -⟩ | ⟨r, s₁, t₁, t₂, hverified, hrest, rfl⟩
  · exact .inl (List.prefix_nil.1 ((emits_verification storage).along hp))
  · have hnone : removals t₁ = [] :=
      List.prefix_nil.1 ((emits_verification storage).along hverified)
    cases r with
    | error e =>
        cases hrest
        rw [List.append_nil]
        exact .inl hnone
    | ok u => exact .inr ⟨t₁, t₂, s₁, rfl, hnone, hverified⟩

/-! ### The runs of maintenance -/

/-- What an inspection has found. -/
def inspection? : (c : Call) → c.Reply → Option (Except OperationError (Option Storage))
  | .inspect, found => some found
  | _, _ => none

/-- The first inspection of a run. -/
def firstInspection (t : List (Event Call Call.Reply σ)) :
    Option (Except OperationError (Option Storage)) :=
  (t.filterMap fun e => inspection? e.call e.reply).head?

/-- What a report says of the caches that were selected and removed. -/
def Reported (chosen : List ClaimedCache) (total : Nat) (action : CacheAction)
    (t : List (Event Call Call.Reply σ)) (report : CacheReport) : Prop :=
  report.operationActivity = "idle" → action ≠ .status →
    report.selected = chosen.map ClaimedCache.kind ∧
      (action = .preview → report.remainingBytes = total) ∧
      removals t = planned (action = .prune) chosen

/-- The inspection after a pruning. -/
def inspectAfter (selected : List String) : Action (List String × Nat) := do
  match ← inspectStorage with
  | some after => return (selected, after.allocated)
  | none => throw invalid

/-- The second inspection removes nothing. -/
theorem emits_inspectAfter (selected : List String) :
    (inspectAfter selected).Emits env removed? [] := by
  refine emits_inspectStorage.silent_bind fun after => ?_
  cases after with
  | none => exact .throw
  | some after => exact .pure

/-- It reports what was selected. -/
theorem spec_inspectAfter (selected : List String) (s : σ) :
    (inspectAfter selected).Spec env (fun _ => True) (fun result _ => result.1 = selected) s := by
  refine spec_bind.2 (Meets.trivial.imp fun _ s _ after _ => ?_)
  cases after with
  | none => exact spec_throw
  | some after => exact spec_pure.2 rfl

/-- The maintenance of an inspected storage removes its selection. -/
theorem ends_storage_maintain {action : CacheAction} {activity : String}
    (h : Inspected storage.caches storage.allocated)
    (hchosen : ∀ cache ∈ chosen, cache ∈ storage.caches)
    (hselect : select budget (storage.candidates none) storage.allocated =
      .ok (chosen.map ClaimedCache.kind, total)) (s : σ) :
    Ends env (fun t r _ => ∀ result, r = .ok result → activity = "idle" → action ≠ .status →
        result.1 = chosen.map ClaimedCache.kind ∧ (action = .preview → result.2 = total) ∧
          removals t = planned (action = .prune) chosen)
      (storage.maintain budget action activity).run s := by
  rw [Storage.maintain]
  split
  · have hreclaim : Ends env (fun t r _ => ∀ result, r = .ok result →
        result = (chosen.map ClaimedCache.kind, total) ∧
          removals t = planned (action = .prune) chosen)
        (storage.reclaim budget none (action = .prune)).run s := by
      rintro t r s' hr result rfl
      exact ⟨reclaim_result hselect hr, (emits_reclaim h hchosen hselect).complete hr⟩
    refine hreclaim.fallible_bind (fun _ _ _ _ _ he => nomatch he) fun t result s' hresult => ?_
    obtain ⟨rfl, hremoved⟩ := hresult _ rfl
    by_cases hprune : action = .prune
    · simp only [hprune, if_true]
      rintro t' r s'' (hr : Runs env (inspectAfter _).run s' t' _ s'') result rfl - -
      have hnone : removals t' = [] := (emits_inspectAfter _).complete hr
      refine ⟨Meets.of_done (spec_inspectAfter _ s') hr result rfl, nofun, ?_⟩
      rw [removals_append, hnone, hremoved, List.append_nil]
      simp only [hprune]
    · simp only [hprune, if_false]
      refine ends_done fun result hr _ _ => ?_
      obtain rfl := Except.ok.inj hr
      refine ⟨rfl, fun _ => rfl, ?_⟩
      rw [List.append_nil, hremoved]
      simp only [hprune, decide_false]
  · next hidle =>
      exact ends_done fun result _ hactivity haction => absurd ⟨haction, hactivity⟩ hidle

/-- A call that neither removes nor inspects. -/
def Call.Quiet : Call → Prop
  | .remove _ | .inspect => False
  | _ => True

/-- A quiet call is the only call of its program. -/
theorem makes_ask {c : Call} (hc : c.Quiet) : (ask c).Makes Call.Quiet :=
  ⟨((Program.only_perform _ c).2 hc).lift⟩

/-- The check of the anchor is quiet. -/
theorem makes_anchor : anchor.Makes Call.Quiet :=
  (makes_ask (c := .anchor) trivial).bind fun _ => .liftExcept

/-- Quiet calls neither remove nor inspect. -/
theorem quiet_events {t : List (Event Call Call.Reply σ)} (h : ∀ e ∈ t, e.call.Quiet) :
    removals t = [] ∧ t.filterMap (fun e => inspection? e.call e.reply) = [] := by
  have hnone : ∀ e ∈ t, removed? e.call e.reply = none ∧ inspection? e.call e.reply = none := by
    rintro ⟨s, c, r, s'⟩ he
    have hquiet : c.Quiet := h _ he
    cases c <;> first | exact ⟨rfl, rfl⟩ | cases hquiet
  exact ⟨List.filterMap_eq_nil_iff.2 fun e he => (hnone e he).1,
    List.filterMap_eq_nil_iff.2 fun e he => (hnone e he).2⟩

/-- What a run shows that has found `storage` first. -/
def Maintained (storage : Storage) (chosen : List ClaimedCache) (total : Nat)
    (action : CacheAction) (t : List (Event Call Call.Reply σ))
    (r : Except OperationError CacheReport) : Prop :=
  firstInspection t = some (.ok (some storage)) → ∀ report, r = .ok report →
    Reported chosen total action t report

/-- Quiet calls in front do not matter. -/
theorem Maintained.quiet {action : CacheAction} {t t' : List (Event Call Call.Reply σ)}
    {r : Except OperationError CacheReport} (ht : ∀ e ∈ t, e.call.Quiet)
    (h : Maintained storage chosen total action t' r) :
    Maintained storage chosen total action (t ++ t') r := by
  obtain ⟨hremovals, hinspections⟩ := quiet_events ht
  intro hfirst report hr hidle haction
  rw [firstInspection, List.filterMap_append, hinspections, List.nil_append] at hfirst
  rw [removals_append, hremovals, List.nil_append]
  exact h hfirst report hr hidle haction

/-- A quiet part, then the rest. -/
theorem ends_quiet_bind {α : Type} {action : CacheAction} {p : Action α}
    {f : α → Action CacheReport} (hp : p.Makes Call.Quiet) {s : σ}
    (hf : ∀ a s, Ends env (fun t r _ => Maintained storage chosen total action t r)
      (f a).run s) :
    Ends env (fun t r _ => Maintained storage chosen total action t r) (p >>= f).run s := by
  have hmeets : Meets env (fun e => e.call.Quiet) (fun _ _ => True) p.run s :=
    hp.only.meets (fun _ _ _ _ hc _ => hc) s
  exact hmeets.ends_fallible_bind (fun t t' r _ ht h => h.quiet ht)
    (fun _ _ _ _ _ hr => nomatch hr) fun a s _ => hf a s

/-- An inspection, then what is done with the storage. -/
theorem ends_inspect_bind {action : CacheAction} {f : Option Storage → Action CacheReport} {s : σ}
    (hf : ∀ s, Ends env (fun t r _ => ∀ report, r = .ok report →
      Reported chosen total action t report) (f (some storage)).run s) :
    Ends env (fun t r _ => Maintained storage chosen total action t r)
      (inspectStorage >>= f).run s := by
  have hinspect : Ends env (fun t r _ => firstInspection t = some r ∧ removals t = [])
      inspectStorage.run s := by
    refine ends_call.2 fun reply s' _ => ?_
    cases reply <;> exact ends_done ⟨rfl, rfl⟩
  refine hinspect.fallible_bind (fun _ _ _ _ _ _ hr => nomatch hr) fun t found s' hfound => ?_
  intro t' r s'' hr hfirst report hreport
  have hsome : found = some storage := by
    have hhead : firstInspection (t ++ t') = some (.ok found) := by
      rw [firstInspection, List.filterMap_append, List.head?_append, ← firstInspection, hfound.1]
      rfl
    exact Except.ok.inj (Option.some.inj (hhead.symm.trans hfirst))
  subst hsome
  have hrest := hf s' t' r s'' hr report hreport
  rw [Reported, removals_append, hfound.2, List.nil_append]
  exact hrest

/-- The check returns what it was given. -/
theorem returned_after_anchor {α : Type} {a b : α} {s s' : σ}
    {t : List (Event Call Call.Reply σ)}
    (hr : Runs env (anchor >>= fun _ => pure a : Action α).run s t (.done (.ok b)) s') : b = a := by
  have hspec : (anchor >>= fun _ => pure a : Action α).Spec env (fun _ => True)
      (fun b _ => b = a) s :=
    spec_bind.2 (Meets.trivial.imp fun _ _ _ _ _ => spec_pure.2 rfl)
  exact Meets.of_done hspec hr b rfl

/-- The plan maintains as the storage does. -/
theorem ends_maintain {plan : OperationPlan} {action : CacheAction}
    (h : Inspected storage.caches storage.allocated)
    (hchosen : ∀ cache ∈ chosen, cache ∈ storage.caches)
    (hselect : select budget (storage.candidates none) storage.allocated =
      .ok (chosen.map ClaimedCache.kind, total)) (s : σ) :
    Ends env (fun t r _ => Maintained storage chosen total action t r)
      (maintain plan budget action).run s := by
  rw [maintain]
  refine ends_quiet_bind makes_anchor fun _ s => ?_
  refine ends_quiet_bind (makes_ask (c := .lock _) trivial) fun reply s => ?_
  refine ends_quiet_bind .liftExcept fun activity s => ?_
  have hinspect : ∀ s, Ends env (fun t r _ => Maintained storage chosen total action t r)
      (inspectStorage >>= fun found => (do
        let (selected, remaining) ← found.elim (pure ([], 0)) fun storage =>
          storage.maintain budget action activity
        anchor
        return { report plan budget action activity found with
          selected
          remainingBytes := remaining
          budgetSatisfied := remaining ≤ budget })).run s := by
    intro s
    refine ends_inspect_bind fun s => ?_
    refine (ends_storage_maintain h hchosen hselect s).fallible_bind
      (fun _ _ _ _ _ hr => nomatch hr) fun t result s' hresult => ?_
    rintro t' r s'' hr report rfl
    have hnone : removals t' = [] := (emits_anchor.silent_bind fun _ => .pure).complete hr
    obtain rfl := returned_after_anchor hr
    intro hidle haction
    obtain ⟨hselected, hpreview, hremoved⟩ := hresult _ rfl hidle haction
    refine ⟨hselected, hpreview, ?_⟩
    rw [removals_append, hnone, hremoved, List.append_nil]
  split
  · refine ends_quiet_bind (makes_ask (c := .ensureNoRecovery) trivial) fun reply s => ?_
    exact ends_quiet_bind .liftExcept fun _ s => hinspect s
  · exact hinspect s

/-- The removals of a run of a reclamation are those planned, in turn. -/
structure Reclaims (storage : Storage) (chosen : List ClaimedCache) (total : Nat)
    (execute : Bool) (env : σ → (c : Call) → c.Reply → σ → Prop) (s : σ)
    (t : List (Event Call Call.Reply σ))
    (q : Program Call Call.Reply (Except OperationError (List String × Nat))) : Prop where
  along : removals t <+: planned execute chosen
  complete : ∀ result, q = .done (.ok result) →
    result = (chosen.map ClaimedCache.kind, total) ∧ removals t = planned execute chosen
  verified : removals t = [] ∨ ∃ t₁ t₂ s₁, t = t₁ ++ t₂ ∧ removals t₁ = [] ∧
    Runs env storage.verification.run s t₁ (.done (.ok ())) s₁

end Runs

/-- **Reclamation is minimal and safe.**  An inspected storage has one selection for a
budget and an active kind; every run of a reclamation reports it and removes its caches one
after the other when it is to execute, nothing before all has been verified, and nothing
otherwise; a preview and a pruning of the storage found report it too. -/
theorem reclaim_minimal_and_safe {plan : OperationPlan} {disk : Disk} {storage : Storage}
    (h : inspect plan disk = .ok (some storage)) (budget : Nat) (active : Option String) :
    ∃ chosen total, Selection storage budget active chosen total ∧
      (storage.candidates active).Perm
        (storage.caches.filter fun cache => some cache.kind ≠ active && !cache.active) ∧
      ((storage.candidates active).Pairwise fun a b =>
        toLex (a.used, a.kind) ≤ toLex (b.used, b.kind)) ∧
      (∀ {σ : Type} {env : σ → (c : Call) → c.Reply → σ → Prop} {execute : Bool} {s s' : σ}
        {t : List (Event Call Call.Reply σ)} {q : Program Call Call.Reply _},
        Runs env (storage.reclaim budget active execute).run s t q s' →
          Reclaims storage chosen total execute env s t q) ∧
      (active = none → ∀ {σ : Type} {env : σ → (c : Call) → c.Reply → σ → Prop}
        {action : CacheAction} {s s' : σ} {t : List (Event Call Call.Reply σ)}
        {report : CacheReport},
        Runs env (maintain plan budget action).run s t (.done (.ok report)) s' →
          firstInspection t = some (.ok (some storage)) →
            Reported chosen total action t report) := by
  have hinspected := inspected_of_inspect h
  obtain ⟨chosen, total, hselect, hselection⟩ := hinspected.exists_selection budget active
  have hchosen : ∀ cache ∈ chosen, cache ∈ storage.caches := fun _ hc => (hselection.mem hc).1
  refine ⟨chosen, total, hselection, candidates_perm .., candidates_sorted .., ?_, ?_⟩
  · intro σ env execute s s' t q hr
    have hemits : (storage.reclaim budget active execute).Emits env removed?
        (planned execute chosen) := emits_reclaim hinspected hchosen hselect
    refine ⟨hemits.along hr, ?_, verified_of_removal hselect hr⟩
    rintro result rfl
    exact ⟨reclaim_result hselect hr, hemits.complete hr⟩
  · rintro rfl σ env action s s' t report hr hfirst
    exact ends_maintain hinspected hchosen hselect s t _ s' hr hfirst report rfl

/-- A storage with three caches: `build` is leased, `test` was used at 12 and `check` at 20. -/
def demoPlan : OperationPlan where
  application := "demo"
  toVec fields := some ((String.join ["\x7b\"application\":\"", fields.application,
    "\",\"cache\":\"", fields.cache, "\",\"output_schema\":1,\"owner\":\"", fields.owner,
    "\"\x7d"]).toUTF8.data.toList)

/-- A cache in the inodes from `inode` on. -/
def demoCache (kind : String) (inode : Nat) : Node :=
  .directory kind ⟨1, inode⟩ [.file markerName ⟨1, inode + 1⟩, .file accessName ⟨1, inode + 2⟩,
    .directory "debug" ⟨1, inode + 3⟩ [.file "unit" ⟨1, inode + 4⟩]]

def demoEntries : Listing where
  entries := [.file markerName ⟨1, 2⟩, demoCache "build" 10, demoCache "check" 20,
    demoCache "test" 30]
  nodup := by decide

def demoDisk : Disk where
  place := .present ⟨1, 1⟩ demoEntries
  outside _ := 0
  mode _ := 0o100644
  blocks _ := 8
  stamp _ := 0
  content id := match id.inode with
    | 2 => (demoPlan.cacheMarker "root").toOption.getD []
    | 11 => (demoPlan.cacheMarker "build").toOption.getD []
    | 21 => (demoPlan.cacheMarker "check").toOption.getD []
    | 31 => (demoPlan.cacheMarker "test").toOption.getD []
    | 12 => [51]
    | 22 => [50, 48]
    | 32 => [49, 50]
    | _ => []
  leased id := id.inode = 10
  access _ := ⟨fun _ => true, 1024⟩

/-- What is inspected: the bytes of the storage, and its candidates in turn. -/
theorem inspect_demoDisk : ((inspect demoPlan demoDisk).toOption.bind id).map (fun storage =>
    (storage.allocated, (storage.candidates none).map fun cache =>
      (cache.kind, cache.used, cache.tree.allocated))) =
    some (17 * 4096, [("test", 12, 5 * 4096), ("check", 20, 5 * 4096)]) := by
  decide +kernel

/-- One of the two candidates is enough: the one that was used before the other. -/
theorem reclaim_minimal_and_safe_demo : ∃ storage chosen total,
    inspect demoPlan demoDisk = .ok (some storage) ∧
      Selection storage (12 * 4096) none chosen total ∧
      chosen.map ClaimedCache.kind = ["test"] ∧ total = 12 * 4096 := by
  have hinspect := inspect_demoDisk
  cases heq : inspect demoPlan demoDisk with
  | error error =>
      rw [heq] at hinspect
      cases hinspect
  | ok found =>
      cases found with
      | none =>
          rw [heq] at hinspect
          cases hinspect
      | some storage =>
          obtain ⟨chosen, total, hselection, -⟩ := reclaim_minimal_and_safe heq (12 * 4096) none
          refine ⟨storage, chosen, total, rfl, hselection, ?_⟩
          rw [heq] at hinspect
          obtain ⟨hallocated, hcandidates⟩ := Prod.mk.inj (Option.some.inj hinspect)
          obtain ⟨test, rest, hlist, htest, hrest⟩ := List.map_eq_cons_iff.1 hcandidates
          obtain ⟨checked, rest, rfl, -, hnil⟩ := List.map_eq_cons_iff.1 hrest
          obtain rfl := List.map_eq_nil_iff.1 hnil
          obtain ⟨hkind, htest⟩ := Prod.mk.inj htest
          obtain ⟨-, hbytes⟩ := Prod.mk.inj htest
          have hsum := hselection.sum
          have henough := hselection.enough
          have hleading := hselection.leading
          rw [hlist] at hleading henough
          rcases List.prefix_cons_iff.1 hleading with rfl | ⟨tail, rfl, htail⟩
          · rw [allocatedSum_nil] at hsum
            rcases henough with hle | hnil
            · omega
            · cases hnil
          · rcases List.prefix_cons_iff.1 htail with rfl | ⟨last, rfl, hlast⟩
            · refine ⟨congrArg (fun kind => [kind]) hkind, ?_⟩
              rw [allocatedSum_cons, allocatedSum_nil] at hsum
              omega
            · have hshort := hselection.shortest [test] (List.prefix_cons_inj _ |>.2 List.nil_prefix)
                (by simp)
              rw [allocatedSum_cons, allocatedSum_nil] at hshort
              omega

end Cache
end Hegira
