/-
# The search projection: `SearchIndexJobHandler` and `SqliteSearchIndexJobHandler`

`crates/search/src/jobs.rs` and `crates/search/src/projection_sqlite.rs`.

A handler applies one command to an external index.  For a command with a revision
it keeps the last revision applied to the document in `search_projection_versions`:
it reads it, skips a command that is not newer, writes the index, and records the
new revision.  Reading and recording are statements of one transaction, the index
write is not; what keeps two handlers apart in between differs per database.
Postgres takes an advisory lock on the document (`Backend.postgres`).  SQLite takes
none: its transaction reads a snapshot, and the statement that records the revision
fails when another transaction has committed since, or is writing
(`Backend.sqlite`, in the journal mode and with the locks that
`persistence::connect_sqlite` sets).

Every statement may fail, and the worker may die at every one; a failed or dead
index write or commit may have taken effect (`Answer`).
-/

import Mathlib.Logic.Function.Basic
import Mathlib.Tactic.Common
import Hegira.Library.Program

namespace Hegira
namespace Search

/-- An index and the id of a document in it. -/
abbrev Key := String × String

/-- `SearchDocument`; the fields are `φ`. -/
structure SearchDocument (φ : Type) where
  id : String
  fields : φ
  deriving DecidableEq

/-- `SearchIndexCommand`. -/
inductive SearchIndexCommand (φ : Type) where
  | upsert (index : String) (documents : List (SearchDocument φ)) (revision : Option Int)
  | delete (index : String) (documentId : String) (revision : Option Int)
  deriving DecidableEq

variable {φ : Type}

/-- The document and the revision of a command that is applied by revision. -/
def SearchIndexCommand.target : SearchIndexCommand φ → Option (Key × Int)
  | .upsert index [document] (some revision) => some ((index, document.id), revision)
  | .delete index documentId (some revision) => some ((index, documentId), revision)
  | _ => none

/-- The command changes the document. -/
def SearchIndexCommand.Mentions (k : Key) : SearchIndexCommand φ → Prop
  | .upsert index documents _ => ∃ document ∈ documents, (index, document.id) = k
  | .delete index documentId _ => (index, documentId) = k

instance (k : Key) : (command : SearchIndexCommand φ) → Decidable (command.Mentions k)
  | .upsert index documents _ =>
      inferInstanceAs (Decidable (∃ document ∈ documents, (index, document.id) = k))
  | .delete index documentId _ => inferInstanceAs (Decidable ((index, documentId) = k))

/-- What an index shows of each document, after a command. -/
def SearchIndexCommand.apply : SearchIndexCommand φ → (Key → Option φ) → Key → Option φ
  | .upsert name documents _, index => documents.foldl
      (fun index document => Function.update index (name, document.id) (some document.fields)) index
  | .delete name documentId _, index => Function.update index (name, documentId) none

/-- A command leaves the documents it does not mention. -/
theorem SearchIndexCommand.apply_of_not_mentions {index : Key → Option φ} {k : Key}
    {command : SearchIndexCommand φ} (h : ¬command.Mentions k) : command.apply index k = index k := by
  cases command with
  | delete name documentId revision => exact Function.update_of_ne (Ne.symm h) _ _
  | upsert name documents revision =>
      rw [apply]
      induction documents generalizing index with
      | nil => rfl
      | cons document documents ih =>
          rw [List.foldl_cons, ih fun ⟨d, hd, hk⟩ => h ⟨d, List.mem_cons_of_mem _ hd, hk⟩]
          exact Function.update_of_ne
            (fun hk => h ⟨document, List.mem_cons_self, hk.symm⟩) _ _

/-- What a command with a revision leaves of its document. -/
def SearchIndexCommand.effect (command : SearchIndexCommand φ) (k : Key) : Option φ :=
  command.apply (fun _ => none) k

/-- A command puts its own effect on the document it is revisioned for. -/
theorem SearchIndexCommand.apply_target {index : Key → Option φ} {k : Key} {revision : Int}
    {command : SearchIndexCommand φ} (h : command.target = some (k, revision)) :
    command.apply index k = command.effect k := by
  unfold target at h
  split at h
  · obtain ⟨rfl, rfl⟩ := Prod.mk.inj (Option.some.inj h)
    simp [apply, effect]
  · obtain ⟨rfl, rfl⟩ := Prod.mk.inj (Option.some.inj h)
    simp [apply, effect]
  · cases h

/-- A command mentions the document it is revisioned for. -/
theorem SearchIndexCommand.mentions_of_target {k : Key} {revision : Int}
    {command : SearchIndexCommand φ} (h : command.target = some (k, revision)) :
    command.Mentions k := by
  unfold target at h
  split at h
  · obtain ⟨rfl, rfl⟩ := Prod.mk.inj (Option.some.inj h)
    exact ⟨_, List.mem_cons_self, rfl⟩
  · obtain ⟨rfl, rfl⟩ := Prod.mk.inj (Option.some.inj h)
    rfl
  · cases h

/-- A revisioned command mentions no other document. -/
theorem SearchIndexCommand.eq_of_mentions {k k' : Key} {revision : Int}
    {command : SearchIndexCommand φ} (h : command.target = some (k, revision))
    (hk : command.Mentions k') : k = k' := by
  unfold target at h
  split at h
  · obtain ⟨rfl, rfl⟩ := Prod.mk.inj (Option.some.inj h)
    simpa [Mentions] using hk
  · obtain ⟨rfl, rfl⟩ := Prod.mk.inj (Option.some.inj h)
    exact hk
  · cases h

/-! ### The database and the index -/

inductive Backend where
  | postgres
  | sqlite
  deriving DecidableEq

/-- An open transaction: its advisory locks, the commit its snapshot is of, and the
version row it has written. -/
structure Transaction where
  locks : List String
  snapshot : Option Nat
  staged : Option (Key × Int)

/-- A transaction that has done nothing yet. -/
def Transaction.fresh : Transaction := ⟨[], none, none⟩

/-- `search_projection_versions`, the external index, the advisory locks that are
held, SQLite's write lock, and the number of commits so far. -/
structure Store (φ : Type) where
  versions : Key → Option Int
  index : Key → Option φ
  locked : String → Bool
  writing : Bool
  commits : Nat

/-- Before the first command. -/
def Store.empty : Store φ := ⟨fun _ => none, fun _ => none, fun _ => false, false, 0⟩

/-- The transaction ends without effect. -/
def Store.finish (s : Store φ) (tx : Transaction) : Store φ :=
  { s with
    locked := fun name => s.locked name && !tx.locks.contains name
    writing := s.writing && tx.staged.isNone }

/-- The transaction commits. -/
def Store.commit (s : Store φ) (tx : Transaction) : Store φ :=
  match tx.staged with
  | none => s.finish tx
  | some (k, revision) =>
      { s.finish tx with
        versions := Function.update s.versions k (some revision)
        commits := s.commits + 1 }

/-- A failed statement, or the death of the worker. -/
inductive Failure where
  | error (message : String)
  | crashed

/-- The statements of the handlers; `write` is `SearchAdapter::upsert` or
`SearchAdapter::delete`, with the transaction that is open meanwhile. -/
inductive Call (φ : Type) where
  | begin
  | lockShared (tx : Transaction) (name : String)
  | lock (tx : Transaction) (name : String)
  | selectRevision (tx : Transaction) (key : Key)
  | write (tx : Option Transaction) (command : SearchIndexCommand φ)
  | insertVersion (tx : Transaction) (key : Key) (revision : Int)
  | commit (tx : Transaction)
  | rollback (tx : Transaction)

namespace Call

abbrev Value : Call φ → Type
  | begin => Transaction
  | lockShared .. => Unit
  | lock .. => Transaction
  | selectRevision .. => Option Int × Transaction
  | write .. => Unit
  | insertVersion .. => Transaction
  | commit _ => Unit
  | rollback _ => Unit

abbrev Reply (c : Call φ) : Type := Except Failure c.Value

/-- The transaction in which the call is made. -/
def transaction : Call φ → Option Transaction
  | begin => none
  | lockShared tx _ => some tx
  | lock tx _ => some tx
  | selectRevision tx _ => some tx
  | write tx _ => tx
  | insertVersion tx _ _ => some tx
  | commit tx => some tx
  | rollback tx => some tx

/-- The call ends its transaction, whatever comes of it. -/
def ends : Call φ → Bool
  | commit _ => true
  | rollback _ => true
  | _ => false

/-- The call may take effect although its failure is reported. -/
def late : Call φ → Bool
  | write .. => true
  | commit _ => true
  | _ => false

end Call

/-- The transaction, if any, ends without effect. -/
def Store.drop (s : Store φ) : Option Transaction → Store φ
  | none => s
  | some tx => s.finish tx

/-- What the database or the index does; `none` while the call has to wait. -/
def Store.perform (b : Backend) (s : Store φ) : (c : Call φ) → Option (c.Reply × Store φ)
  | .begin => some (.ok .fresh, s)
  | .lockShared _ _ => some (.ok (), s)
  | .lock tx name =>
      if s.locked name then none
      else some (.ok { tx with locks := name :: tx.locks },
        { s with locked := Function.update s.locked name true })
  | .selectRevision tx key =>
      some (.ok (s.versions key, { tx with snapshot := some s.commits }), s)
  | .write _ command => some (.ok (), { s with index := command.apply s.index })
  | .insertVersion tx key revision =>
      match b with
      | .postgres => some (.ok { tx with staged := some (key, revision) }, s)
      | .sqlite =>
          -- `SQLITE_BUSY`, or `SQLITE_BUSY_SNAPSHOT` when the snapshot is not the last commit
          if s.writing || tx.snapshot != some s.commits then
            some (.error (.error "database is locked"), s)
          else some (.ok { tx with staged := some (key, revision) }, { s with writing := true })
  | .commit tx => some (.ok (), s.commit tx)
  | .rollback tx => some (.ok (), s.finish tx)

/-- A lock that was granted was free, and the transaction now holds it. -/
theorem Store.perform_lock {b : Backend} {s s' : Store φ} {tx tx' : Transaction} {name : String}
    (h : s.perform b (.lock tx name) = some (.ok tx', s')) :
    s.locked name = false ∧ tx' = { tx with locks := name :: tx.locks } ∧
      s' = { s with locked := Function.update s.locked name true } := by
  rw [perform] at h
  split at h
  · cases h
  · next hl =>
      obtain ⟨h₁, h₂⟩ := Prod.mk.inj (Option.some.inj h)
      exact ⟨by simpa using hl, (Except.ok.inj h₁).symm, h₂.symm⟩

/-- Inserting a version stages it and nothing more. -/
theorem Store.perform_insertVersion {b : Backend} {s s' : Store φ} {tx tx' : Transaction} {k : Key}
    {revision : Int} (h : s.perform b (.insertVersion tx k revision) = some (.ok tx', s')) :
    tx' = { tx with staged := some (k, revision) } ∧
      (b = .sqlite → s.writing = false ∧ tx.snapshot = some s.commits) ∧
      s' = { s with writing := s.writing || b == .sqlite } := by
  cases b with
  | postgres =>
      obtain ⟨h₁, rfl⟩ := Prod.mk.inj (Option.some.inj h)
      exact ⟨(Except.ok.inj h₁).symm, nofun, by rw [Bool.or_comm]; rfl⟩
  | sqlite =>
      rw [perform] at h
      split at h
      · cases h
      · next hw =>
          obtain ⟨h₁, rfl⟩ := Prod.mk.inj (Option.some.inj h)
          simp only [Bool.or_eq_true, bne_iff_ne, ne_eq, not_or, Bool.not_eq_true, not_not] at hw
          exact ⟨(Except.ok.inj h₁).symm, fun _ => hw, by simp⟩

/-- What may come of a call: its answer; a failure, before or after its effect; or
the death of the worker, which ends its transaction. -/
inductive Answer (b : Backend) (s : Store φ) : (c : Call φ) → c.Reply → Store φ → Prop
  | answered {c : Call φ} {r : c.Reply} {s' : Store φ} (h : s.perform b c = some (r, s')) :
      Answer b s c r s'
  | failed (c : Call φ) (message : String) :
      Answer b s c (.error (.error message)) (if c.ends then s.drop c.transaction else s)
  | failedLate {c : Call φ} {r : c.Reply} {s' : Store φ} (message : String) (hl : c.late = true)
      (h : s.perform b c = some (r, s')) : Answer b s c (.error (.error message)) s'
  | crashed (c : Call φ) : Answer b s c (.error .crashed) (s.drop c.transaction)
  | crashedLate {c : Call φ} {r : c.Reply} {s' : Store φ} (hl : c.late = true)
      (h : s.perform b c = some (r, s')) : Answer b s c (.error .crashed) (s'.drop c.transaction)

/-! ### What an answer changes -/

section Answer

variable {b : Backend} {s s' : Store φ} {c : Call φ} {r : c.Reply}

/-- A call that was answered without an error took effect. -/
theorem Answer.perform_of_ok {v : c.Value} (h : Answer b s c (.ok v) s') :
    s.perform b c = some (.ok v, s') := by
  cases h with
  | answered h => exact h

/-- A dropped transaction leaves versions, index and commits. -/
@[simp] theorem Store.versions_drop (tx : Option Transaction) :
    (s.drop tx).versions = s.versions := by cases tx <;> rfl

@[simp] theorem Store.index_drop (tx : Option Transaction) : (s.drop tx).index = s.index := by
  cases tx <;> rfl

@[simp] theorem Store.commits_drop (tx : Option Transaction) :
    (s.drop tx).commits = s.commits := by cases tx <;> rfl

/-- A commit leaves the index; its locks are released as at any end. -/
@[simp] theorem Store.index_commit (tx : Transaction) : (s.commit tx).index = s.index := by
  unfold commit; split <;> rfl

@[simp] theorem Store.locked_commit (tx : Transaction) :
    (s.commit tx).locked = (s.finish tx).locked := by
  unfold commit; split <;> rfl

@[simp] theorem Store.writing_commit (tx : Transaction) :
    (s.commit tx).writing = (s.finish tx).writing := by
  unfold commit; split <;> rfl

/-- What a call does when it is performed. -/
def Store.Performed (b : Backend) (s s' : Store φ) : Call φ → Prop
  | .lock _ name => s.locked name = false ∧
      s' = { s with locked := Function.update s.locked name true }
  | .write _ command => s' = { s with index := command.apply s.index }
  | .insertVersion .. => s' = s ∨ b = .sqlite ∧ s.writing = false ∧ s' = { s with writing := true }
  | .commit tx => s' = s.commit tx
  | .rollback tx => s' = s.finish tx
  | _ => s' = s

/-- What a call that took effect may have changed. -/
theorem Store.performed (h : s.perform b c = some (r, s')) : s.Performed b s' c := by
  cases c with
  | lock tx name =>
      rw [perform] at h
      split at h
      · cases h
      · next hl =>
          exact ⟨by simpa using hl, (Prod.mk.inj (Option.some.inj h)).2.symm⟩
  | insertVersion tx k revision =>
      cases b with
      | postgres => exact Or.inl (Prod.mk.inj (Option.some.inj h)).2.symm
      | sqlite =>
          rw [perform] at h
          split at h
          · exact Or.inl (Prod.mk.inj (Option.some.inj h)).2.symm
          · next hw =>
              simp only [Bool.or_eq_true, not_or, Bool.not_eq_true] at hw
              exact Or.inr ⟨rfl, hw.1, (Prod.mk.inj (Option.some.inj h)).2.symm⟩
  | _ => exact (Prod.mk.inj (Option.some.inj h)).2.symm

/-- The store after the answer: what the call does, if it does it, and what the end
of its transaction then does. -/
theorem Answer.performed (h : Answer b s c r s') :
    ∃ s₁, (s.Performed b s₁ c ∨ s₁ = s) ∧ (s' = s₁ ∨ s' = s₁.drop c.transaction) := by
  cases h with
  | answered h => exact ⟨_, Or.inl (Store.performed h), Or.inl rfl⟩
  | failed message => exact ⟨s, Or.inr rfl, by split <;> simp⟩
  | failedLate message hl h => exact ⟨_, Or.inl (Store.performed h), Or.inl rfl⟩
  | crashed => exact ⟨s, Or.inr rfl, Or.inr rfl⟩
  | crashedLate hl h => exact ⟨_, Or.inl (Store.performed h), Or.inr rfl⟩

/-- Only a commit changes the recorded revisions. -/
theorem Answer.versions (h : Answer b s c r s') :
    (s'.versions = s.versions ∧ s'.commits = s.commits) ∨
      ∃ tx k revision, c = .commit tx ∧ tx.staged = some (k, revision) ∧
        s'.versions = Function.update s.versions k (some revision) ∧
        s'.commits = s.commits + 1 := by
  obtain ⟨s₁, h₁, h₂⟩ := h.performed
  have h' : s'.versions = s₁.versions ∧ s'.commits = s₁.commits := by
    rcases h₂ with rfl | rfl <;> simp
  rw [h'.1, h'.2]
  rcases h₁ with h₁ | rfl
  · cases c with
    | commit tx =>
        obtain rfl : s₁ = s.commit tx := h₁
        cases hs : tx.staged with
        | none => exact Or.inl (by simp [Store.commit, hs, Store.finish])
        | some staged => exact Or.inr ⟨tx, staged.1, staged.2, rfl, hs, by simp [Store.commit, hs]⟩
    | insertVersion tx k revision => rcases h₁ with rfl | ⟨-, -, rfl⟩ <;> exact Or.inl ⟨rfl, rfl⟩
    | lock tx name => exact Or.inl (by rw [h₁.2]; exact ⟨rfl, rfl⟩)
    | _ => exact Or.inl (by rw [show s₁ = _ from h₁]; exact ⟨rfl, rfl⟩)
  · exact Or.inl ⟨rfl, rfl⟩

/-- Only a write changes the index. -/
theorem Answer.index (h : Answer b s c r s') :
    s'.index = s.index ∨ ∃ tx command, c = .write tx command ∧ s'.index = command.apply s.index := by
  obtain ⟨s₁, h₁, h₂⟩ := h.performed
  have h' : s'.index = s₁.index := by rcases h₂ with rfl | rfl <;> simp
  rw [h']
  rcases h₁ with h₁ | rfl
  · cases c with
    | write tx command => exact Or.inr ⟨tx, command, rfl, by rw [show s₁ = _ from h₁]⟩
    | commit tx => exact Or.inl (by rw [show s₁ = _ from h₁]; simp)
    | insertVersion tx k revision => rcases h₁ with rfl | ⟨-, -, rfl⟩ <;> exact Or.inl rfl
    | lock tx name => exact Or.inl (by rw [h₁.2])
    | rollback tx => exact Or.inl (by rw [show s₁ = s.finish tx from h₁]; rfl)
    | _ => exact Or.inl (congrArg Store.index (show s₁ = s from h₁))
  · exact Or.inl rfl

/-- A lock stays held while its transaction makes no call. -/
theorem Answer.keeps_lock (h : Answer b s c r s') {name : String} (hn : s.locked name = true)
    (hc : ∀ tx, c.transaction = some tx → name ∉ tx.locks) : s'.locked name = true := by
  have hdrop : ∀ s₁ : Store φ, s₁.locked name = true →
      (s₁.drop c.transaction).locked name = true := by
    intro s₁ h₁
    cases ht : c.transaction with
    | none => exact h₁
    | some tx => simpa [Store.drop, Store.finish, h₁] using hc tx ht
  obtain ⟨s₁, h₁, h₂⟩ := h.performed
  have h₁' : s₁.locked name = true := by
    rcases h₁ with h₁ | rfl
    · cases c with
      | commit tx => rw [show s₁ = _ from h₁, Store.locked_commit]; exact hdrop s hn
      | rollback tx => rw [show s₁ = _ from h₁]; exact hdrop s hn
      | insertVersion tx k revision => rcases h₁ with rfl | ⟨-, -, rfl⟩ <;> exact hn
      | lock tx name' =>
          rw [h₁.2]
          by_cases hne : name = name'
          · subst hne; simp
          · simpa [Function.update_of_ne hne] using hn
      | _ => rw [show s₁ = _ from h₁]; exact hn
    · exact hn
  rcases h₂ with rfl | rfl
  · exact h₁'
  · exact hdrop _ h₁'

/-- The write lock stays held while its transaction makes no call. -/
theorem Answer.keeps_writing (h : Answer b s c r s') (hw : s.writing = true)
    (hc : ∀ tx, c.transaction = some tx → tx.staged = none) : s'.writing = true := by
  have hdrop : ∀ s₁ : Store φ, s₁.writing = true → (s₁.drop c.transaction).writing = true := by
    intro s₁ h₁
    cases ht : c.transaction with
    | none => exact h₁
    | some tx => simp [Store.drop, Store.finish, h₁, hc tx ht]
  obtain ⟨s₁, h₁, h₂⟩ := h.performed
  have h₁' : s₁.writing = true := by
    rcases h₁ with h₁ | rfl
    · cases c with
      | commit tx => rw [show s₁ = _ from h₁, Store.writing_commit]; exact hdrop s hw
      | rollback tx => rw [show s₁ = _ from h₁]; exact hdrop s hw
      | insertVersion tx k revision => rcases h₁ with rfl | ⟨-, -, rfl⟩ <;> simp [hw]
      | lock tx name => rw [h₁.2]; exact hw
      | _ => rw [show s₁ = _ from h₁]; exact hw
    · exact hw
  rcases h₂ with rfl | rfl
  · exact h₁'
  · exact hdrop _ h₁'

end Answer

/-! ### The handlers -/

abbrev Handling (φ : Type) := Fallible Failure (Call φ) Call.Reply

def query (c : Call φ) : Handling φ c.Value := ExceptT.mk (Program.perform c)

/-- A statement of a transaction that is dropped on an error. -/
def statement (tx : Transaction) (c : Call φ) : Handling φ c.Value := do
  match ← attempt (query c) with
  | .ok value => return value
  | .error .crashed => throw .crashed
  | .error (.error message) =>
      query (.rollback tx)
      throw (.error message)

/-- `SEARCH_REBUILD_LOCK`. -/
def searchRebuildLock : String := "search:rebuild"

/-- The name of the advisory lock of a document. -/
def Key.lockName (k : Key) : String := s!"{k.1}:{k.2}"

/-- `applied.is_some_and(|applied| applied >= revision)`. -/
def stale (applied : Option Int) (revision : Int) : Bool :=
  applied.any (revision ≤ ·)

/-- The end of both `apply_revisioned`: write the index, record the revision. -/
def applyNewer (tx : Transaction) (key : Key) (revision : Int) (operation : SearchIndexCommand φ) :
    Handling φ Bool := do
  statement tx (.write (some tx) operation)
  let tx ← statement tx (.insertVersion tx key revision)
  query (.commit tx)
  return true

/-- From the version row on, both `apply_revisioned` are alike. -/
def applyUnlessStale (tx : Transaction) (key : Key) (revision : Int)
    (operation : SearchIndexCommand φ) : Handling φ Bool := do
  let (applied, tx) ← statement tx (.selectRevision tx key)
  if stale applied revision then do
    query (.commit tx)
    return false
  else applyNewer tx key revision operation

/-- `SearchIndexJobHandler::apply_revisioned`. -/
def Postgres.applyRevisioned (key : Key) (revision : Int) (operation : SearchIndexCommand φ) :
    Handling φ Bool := do
  let tx ← query .begin
  statement tx (.lockShared tx searchRebuildLock)
  let tx ← statement tx (.lock tx key.lockName)
  applyUnlessStale tx key revision operation

/-- `SqliteSearchIndexJobHandler::apply_revisioned`. -/
def Sqlite.applyRevisioned (key : Key) (revision : Int) (operation : SearchIndexCommand φ) :
    Handling φ Bool := do
  let tx ← query .begin
  applyUnlessStale tx key revision operation

def applyRevisioned : Backend → Key → Int → SearchIndexCommand φ → Handling φ Bool
  | .postgres => Postgres.applyRevisioned
  | .sqlite => Sqlite.applyRevisioned

/-- `DurableJobHandler::handle`: the two handlers send the same commands to
`apply_revisioned`, the others to the index. -/
def handle (b : Backend) : SearchIndexCommand φ → Handling φ Unit
  | .upsert index [document] (some revision) => do
      let _ ← applyRevisioned b (index, document.id) revision (.upsert index [document] none)
      return ()
  | .delete index documentId (some revision) => do
      let _ ← applyRevisioned b (index, documentId) revision (.delete index documentId none)
      return ()
  | .upsert index documents _ => query (.write none (.upsert index documents none))
  | .delete index documentId _ => query (.write none (.delete index documentId none))

end Search
end Hegira
