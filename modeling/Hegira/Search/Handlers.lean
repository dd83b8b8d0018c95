/-
# The handlers of search commands at work

What every handler does, whatever its statements answer (`Follows`): it makes the
calls of one transaction; it writes the index only after it has read a version
below its revision and, on Postgres, under the lock of its document; it records its
revision only after it has written the index; and it succeeds by committing.

In a run of any number of handlers an advisory lock has one holder
(`Reaches.holds_exclusive`), and so does SQLite's write lock
(`Reaches.writes_exclusive`).
-/

import Hegira.Library.Interleaving
import Hegira.Search.Projection

namespace Hegira
namespace Search

variable {φ : Type} {b : Backend}

/-- The handlers at work on commands. -/
def handlers (b : Backend) :
    Site (SearchIndexCommand φ) (Call φ) Call.Reply (Except Failure Unit) (Store φ) where
  serve command := (handle b command).run
  answer := Answer b
  drift s s' := s' = s

abbrev Log (φ : Type) := List (Event (Call φ) Call.Reply (Store φ))

/-! ### What a handler has done so far -/

/-- The transaction a call leaves open. -/
def opened : (c : Call φ) → c.Reply → Option Transaction
  | _, .error .crashed => none
  | c, .error (.error _) => if c.ends then none else c.transaction
  | .begin, .ok tx => some tx
  | .lockShared tx _, .ok _ => some tx
  | .lock _ _, .ok tx => some tx
  | .selectRevision _ _, .ok (_, tx) => some tx
  | .write tx _, .ok _ => tx
  | .insertVersion _ _ _, .ok tx => some tx
  | .commit _, .ok _ => none
  | .rollback _, .ok _ => none

/-- The transaction a handler has open. -/
def openAfter (log : Log φ) : Option Transaction :=
  log.getLast?.bind fun e => opened e.call e.reply

/-- The transaction that is open after one more call. -/
@[simp] theorem openAfter_concat {log : Log φ} {e : Event (Call φ) Call.Reply (Store φ)} :
    openAfter (log ++ [e]) = opened e.call e.reply := by
  simp [openAfter]

@[simp] theorem opened_crashed {c : Call φ} : opened c (.error .crashed) = none := by
  cases c <;> rfl

@[simp] theorem opened_error {c : Call φ} {message : String} :
    opened c (.error (.error message)) = if c.ends then none else c.transaction := by
  cases c <;> rfl

/-- The last call read the version row of a document. -/
def Read (log : Log φ) (k : Key) (applied : Option Int) (tx : Transaction) : Prop :=
  ∃ s tx₀ s', log.getLast? = some ⟨s, .selectRevision tx₀ k, .ok (applied, tx), s'⟩ ∧
    tx.staged = none

/-- The last call wrote the index. -/
def Wrote (log : Log φ) (tx : Transaction) : Prop :=
  ∃ s command s', log.getLast? = some ⟨s, .write (some tx) command, .ok (), s'⟩ ∧
    tx.staged = none

/-- The last call recorded a revision. -/
def Staged (log : Log φ) (k : Key) (revision : Int) (tx : Transaction) : Prop :=
  ∃ s tx₀ s', log.getLast? = some ⟨s, .insertVersion tx₀ k revision, .ok tx, s'⟩ ∧
    tx.staged = some (k, revision)

/-- The last call committed. -/
def Committed (log : Log φ) : Prop :=
  ∃ s tx s', log.getLast? = some ⟨s, .commit tx, .ok (), s'⟩

/-- A handler has read the revision when that was its last call. -/
theorem Read.last {log : Log φ} {s s' : Store φ} {tx₀ tx : Transaction} {k : Key}
    {applied : Option Int} (h : tx.staged = none) :
    Read (log ++ [⟨s, .selectRevision tx₀ k, .ok (applied, tx), s'⟩]) k applied tx :=
  ⟨s, tx₀, s', by simp, h⟩

theorem Wrote.last {log : Log φ} {s s' : Store φ} {tx : Transaction}
    {operation : SearchIndexCommand φ} (h : tx.staged = none) :
    Wrote (log ++ [⟨s, .write (some tx) operation, .ok (), s'⟩]) tx :=
  ⟨s, operation, s', by simp, h⟩

/-- It has staged the revision when that was its last call. -/
theorem Staged.last {log : Log φ} {s s' : Store φ} {tx₀ tx : Transaction} {k : Key}
    {revision : Int} (h : tx.staged = some (k, revision)) :
    Staged (log ++ [⟨s, .insertVersion tx₀ k revision, .ok tx, s'⟩]) k revision tx :=
  ⟨s, tx₀, s', by simp, h⟩

/-- The calls a handler of `command` makes after `log`. -/
def Follows (b : Backend) (command : SearchIndexCommand φ) (log : Log φ) (c : Call φ) : Prop :=
  c.transaction = openAfter log ∧
  match c with
  | .lock tx _ => tx.staged = none
  | .selectRevision tx k => tx.staged = none ∧ (∃ revision, command.target = some (k, revision)) ∧
      (b = .postgres → k.lockName ∈ tx.locks)
  | .write none operation => command.target = none ∧ ∀ k, operation.Mentions k → command.Mentions k
  | .write (some tx) operation => ∃ k revision applied, command.target = some (k, revision) ∧
      operation.apply = command.apply ∧ Read log k applied tx ∧ stale applied revision = false ∧
      (b = .postgres → k.lockName ∈ tx.locks)
  | .insertVersion tx k revision => command.target = some (k, revision) ∧ Wrote log tx ∧
      (b = .postgres → k.lockName ∈ tx.locks)
  | .commit tx => ∃ k revision, command.target = some (k, revision) ∧
      ((∃ applied, Read log k applied tx ∧ stale applied revision = true) ∨
        Staged log k revision tx)
  | _ => True

/-- A handler succeeds by committing. -/
def Closes (command : SearchIndexCommand φ) : Except Failure Unit → Log φ → Prop
  | .ok _, log => command.target.isSome → Committed log
  | .error _, _ => True

section Contract

variable {α : Type} {command : SearchIndexCommand φ} {post : Except Failure α → Log φ → Prop}
  {log : Log φ}

/-- What holds of every call of a handler. -/
abbrev Disciplined (b : Backend) (command : SearchIndexCommand φ) :
    Event (Call φ) Call.Reply (Log φ) → Prop :=
  fun e => Follows b command e.before e.call

/-- A call that follows the log is disciplined. -/
theorem meets_query {c : Call φ} {post : Except Failure c.Value → Log φ → Prop}
    (hf : Follows b command log c)
    (h : ∀ s r s', Answer b s c r s' → post r (log ++ [⟨s, c, r, s'⟩])) :
    Meets (Heard (Answer b)) (Disciplined b command) post (query c).run log := by
  rintro r log' ⟨s, s', ha, rfl⟩
  exact ⟨hf, h s r s' ha⟩

/-- So is a statement, whose error rolls back. -/
theorem meets_statement {tx : Transaction} {c : Call φ}
    {post : Except Failure c.Value → Log φ → Prop} (hc : c.ends = false)
    (htx : c.transaction = some tx) (hf : Follows b command log c)
    (hok : ∀ s v s', Answer b s c (.ok v) s' → post (.ok v) (log ++ [⟨s, c, .ok v, s'⟩]))
    (herr : ∀ e log', post (.error e) log') :
    Meets (Heard (Answer b)) (Disciplined b command) post (statement tx c).run log := by
  rw [statement, meets_fallible_bind, meets_attempt]
  refine meets_query hf ?_
  intro s r s' ha
  rw [continue_ok]
  rcases r with (message | _) | v
  · dsimp only
    rw [meets_fallible_bind]
    refine meets_query ⟨?_, trivial⟩ ?_
    · rw [openAfter_concat, opened_error, hc]
      exact htx.symm
    · rintro s₁ (e | _) s₁' _
      · exact herr _ _
      · exact herr _ _
  · exact herr _ _
  · exact hok s v s' ha

/-- Only a revisioned command commits. -/
theorem target_isSome_of_closes {k : Key} {revision : Int} (_ : command.target = some (k, revision))
    {log : Log φ} {s s' : Store φ} {tx : Transaction} :
    Closes command (.ok ()) (log ++ [⟨s, .commit tx, .ok (), s'⟩]) :=
  fun _ => ⟨s, tx, s', by simp⟩

/-- From the version row on, a handler keeps to `Follows`. -/
theorem meets_applyUnlessStale {tx : Transaction} {k : Key} {revision : Int}
    {operation : SearchIndexCommand φ} (ht : command.target = some (k, revision))
    (ho : operation.apply = command.apply) (hlog : openAfter log = some tx)
    (hs : tx.staged = none) (hl : b = .postgres → k.lockName ∈ tx.locks) :
    Meets (Heard (Answer b)) (Disciplined b command)
      (fun r log => Closes command (r.map fun _ => ()) log)
      (applyUnlessStale tx k revision operation).run log := by
  rw [applyUnlessStale, meets_fallible_bind]
  refine meets_statement rfl rfl ⟨hlog.symm, hs, ⟨revision, ht⟩, hl⟩ ?_ fun _ _ => trivial
  rintro s ⟨applied, tx₁⟩ s' ha
  obtain ⟨h₁, rfl⟩ := Prod.mk.inj (Option.some.inj ha.perform_of_ok)
  obtain ⟨rfl, rfl⟩ := Prod.mk.inj (Except.ok.inj h₁)
  rw [continue_ok]
  dsimp only
  split
  · next hst =>
      rw [meets_fallible_bind]
      refine meets_query ⟨?_, k, revision, ht, Or.inl ⟨_, Read.last hs, hst⟩⟩ ?_
      · rw [openAfter_concat]; rfl
      · rintro s₁ (e | _) s₁' _
        · exact trivial
        · exact target_isSome_of_closes ht
  · next hst =>
      rw [applyNewer, meets_fallible_bind]
      refine meets_statement rfl rfl ⟨?_, k, revision, _, ht, ho, Read.last hs, by simpa using hst, hl⟩
        ?_ fun _ _ => trivial
      · rw [openAfter_concat]; rfl
      rintro s₁ ⟨⟩ s₁' _
      rw [continue_ok, meets_fallible_bind]
      refine meets_statement rfl rfl ⟨?_, ht, Wrote.last hs, hl⟩ ?_ fun _ _ => trivial
      · rw [openAfter_concat]; rfl
      rintro s₂ tx₂ s₂' ha₂
      obtain ⟨rfl, -⟩ := Store.perform_insertVersion ha₂.perform_of_ok
      rw [continue_ok, meets_fallible_bind]
      refine meets_query ⟨?_, k, revision, ht, Or.inr (Staged.last rfl)⟩ ?_
      · rw [openAfter_concat]; rfl
      · rintro s₃ (e | _) s₃' _
        · exact trivial
        · exact target_isSome_of_closes ht

/-- The revisioned path is disciplined. -/
theorem meets_applyRevisioned {k : Key} {revision : Int} {operation : SearchIndexCommand φ}
    (ht : command.target = some (k, revision)) (ho : operation.apply = command.apply) :
    Meets (Heard (Answer b)) (Disciplined b command)
      (fun r log => Closes command (r.map fun _ => ()) log)
      (applyRevisioned b k revision operation).run [] := by
  cases b with
  | postgres =>
      rw [applyRevisioned, Postgres.applyRevisioned, meets_fallible_bind]
      refine meets_query ⟨rfl, trivial⟩ ?_
      rintro s (e | tx) s' ha
      · exact trivial
      obtain ⟨h, rfl⟩ := Prod.mk.inj (Option.some.inj ha.perform_of_ok)
      obtain rfl := Except.ok.inj h
      rw [continue_ok, meets_fallible_bind]
      refine meets_statement rfl rfl ⟨rfl, trivial⟩ ?_ fun _ _ => trivial
      rintro s₁ ⟨⟩ s₁' _
      rw [continue_ok, meets_fallible_bind]
      refine meets_statement rfl rfl ⟨?_, rfl⟩ ?_ fun _ _ => trivial
      · rw [openAfter_concat]; rfl
      rintro s₂ tx₂ s₂' ha₂
      obtain ⟨-, rfl, -⟩ := Store.perform_lock ha₂.perform_of_ok
      exact meets_applyUnlessStale ht ho rfl rfl fun _ => List.mem_cons_self
  | sqlite =>
      rw [applyRevisioned, Sqlite.applyRevisioned, meets_fallible_bind]
      refine meets_query ⟨rfl, trivial⟩ ?_
      rintro s (e | tx) s' ha
      · exact trivial
      obtain ⟨h, rfl⟩ := Prod.mk.inj (Option.some.inj ha.perform_of_ok)
      obtain rfl := Except.ok.inj h
      exact meets_applyUnlessStale ht ho rfl rfl nofun

/-- **Every handler keeps to `Follows`, and succeeds by committing.** -/
theorem meets_handle (command : SearchIndexCommand φ) :
    Meets (Heard (Answer b)) (Disciplined b command) (Closes command)
      (handle b command).run [] := by
  unfold handle
  split
  · next index document revision =>
      have ht : (SearchIndexCommand.upsert index [document] (some revision)).target =
          some ((index, document.id), revision) := rfl
      have ho : (SearchIndexCommand.upsert index [document] none).apply =
          (SearchIndexCommand.upsert index [document] (some revision)).apply := rfl
      rw [meets_fallible_bind]
      refine (meets_applyRevisioned ht ho).imp ?_
      rintro (e | _) log h
      · exact trivial
      · exact h
  · next index documentId revision =>
      have ht : (.delete index documentId (some revision) : SearchIndexCommand φ).target =
          some ((index, documentId), revision) := rfl
      have ho : (.delete index documentId none : SearchIndexCommand φ).apply =
          (SearchIndexCommand.delete index documentId (some revision)).apply := rfl
      rw [meets_fallible_bind]
      refine (meets_applyRevisioned ht ho).imp ?_
      rintro (e | _) log h
      · exact trivial
      · exact h
  · next index documents revision hn =>
      have ht : (SearchIndexCommand.upsert index documents revision).target = none := by
        unfold SearchIndexCommand.target
        split
        · next h => simp_all
        · simp_all
        · rfl
      refine meets_query ⟨rfl, ht, fun _ => id⟩ ?_
      rintro s (e | _) s' _
      · exact trivial
      · simp [Closes, ht]
  · next index documentId revision hn =>
      have ht : (.delete index documentId revision : SearchIndexCommand φ).target = none := by
        cases revision with
        | none => rfl
        | some revision => exact absurd rfl (hn revision)
      refine meets_query ⟨rfl, ht, fun _ => id⟩ ?_
      rintro s (e | _) s' _
      · exact trivial
      · simp [Closes, ht]

end Contract

/-! ### Handlers at work -/

abbrev Handler (φ : Type) :=
  Flight (SearchIndexCommand φ) (Call φ) Call.Reply (Except Failure Unit) (Store φ)

abbrev Handlers (φ : Type) :=
  Config (SearchIndexCommand φ) (Call φ) Call.Reply (Except Failure Unit) (Store φ)

/-- The transaction `tx'` that a call leaves open, and what the call took for it:
nothing, an advisory lock, or the version row and with it SQLite's write lock. -/
inductive Opens (b : Backend) (s s' : Store φ) : Call φ → Transaction → Prop
  | begin : s' = s → Opens b s s' .begin .fresh
  | same {c : Call φ} {tx tx' : Transaction} (hc : c.transaction = some tx)
      (hl : tx'.locks = tx.locks) (hs : tx'.staged = tx.staged) (hlocked : s'.locked = s.locked)
      (hw : s'.writing = s.writing) : Opens b s s' c tx'
  | lock {tx : Transaction} {name : String} (hn : s.locked name = false)
      (hs' : s' = { s with locked := Function.update s.locked name true }) :
      Opens b s s' (.lock tx name) { tx with locks := name :: tx.locks }
  | insert {tx : Transaction} {k : Key} {revision : Int}
      (hw : b = .sqlite → s.writing = false ∧ s'.writing = true) (hl : s'.locked = s.locked) :
      Opens b s s' (.insertVersion tx k revision) { tx with staged := some (k, revision) }

/-- A failed statement leaves the locks as they were. -/
theorem Answer.locks_of_error {s s' : Store φ} {c : Call φ} {message : String}
    (h : Answer b s c (.error (.error message)) s') (hc : c.ends = false) :
    s'.locked = s.locked ∧ s'.writing = s.writing := by
  cases h with
  | failed => simp [hc]
  | failedLate message hl h =>
      cases c with
      | write tx command =>
          obtain ⟨-, rfl⟩ := Prod.mk.inj (Option.some.inj h)
          exact ⟨rfl, rfl⟩
      | commit tx => cases hc
      | _ => cases hl
  | answered h =>
      cases c with
      | insertVersion tx k revision =>
          cases b with
          | postgres => cases (Prod.mk.inj (Option.some.inj h)).1
          | sqlite =>
              rw [Store.perform] at h
              split at h
              · obtain ⟨-, rfl⟩ := Prod.mk.inj (Option.some.inj h)
                exact ⟨rfl, rfl⟩
              · cases (Prod.mk.inj (Option.some.inj h)).1
      | lock tx name =>
          rw [Store.perform] at h
          split at h
          · cases h
          · cases (Prod.mk.inj (Option.some.inj h)).1
      | _ => cases (Prod.mk.inj (Option.some.inj h)).1

/-- A call that leaves a transaction open has opened or kept it. -/
theorem Answer.opens {s s' : Store φ} {c : Call φ} {r : c.Reply} {tx : Transaction}
    (h : Answer b s c r s') (ho : opened c r = some tx) : Opens b s s' c tx := by
  rcases r with (message | _) | v
  · rw [opened_error] at ho
    split at ho
    · cases ho
    next hc =>
    obtain ⟨hl, hw⟩ := h.locks_of_error (by simpa using hc)
    exact .same ho rfl rfl hl hw
  · rw [opened_crashed] at ho
    cases ho
  · have hp := h.perform_of_ok
    cases c with
    | begin =>
        obtain ⟨hv, rfl⟩ := Prod.mk.inj (Option.some.inj hp)
        obtain rfl := Except.ok.inj hv
        obtain rfl := Option.some.inj ho
        exact .begin rfl
    | lockShared tx₀ name =>
        obtain ⟨-, rfl⟩ := Prod.mk.inj (Option.some.inj hp)
        exact .same ho rfl rfl rfl rfl
    | lock tx₀ name =>
        obtain ⟨hn, rfl, hs'⟩ := Store.perform_lock hp
        obtain rfl := Option.some.inj ho
        exact .lock hn hs'
    | selectRevision tx₀ k =>
        obtain ⟨hv, rfl⟩ := Prod.mk.inj (Option.some.inj hp)
        obtain rfl := Except.ok.inj hv
        obtain rfl := Option.some.inj ho
        exact .same rfl rfl rfl rfl rfl
    | write tx₀ command =>
        obtain ⟨-, rfl⟩ := Prod.mk.inj (Option.some.inj hp)
        exact .same ho rfl rfl rfl rfl
    | insertVersion tx₀ k revision =>
        obtain ⟨rfl, hw, rfl⟩ := Store.perform_insertVersion hp
        obtain rfl := Option.some.inj ho
        refine .insert ?_ rfl
        rintro rfl
        exact ⟨(hw rfl).1, by simp⟩
    | commit tx₀ => cases ho
    | rollback tx₀ => cases ho

/-- The next call of a flight of which the contract holds follows its log. -/
theorem Follows.of_heard {q : SearchIndexCommand φ} {c : Call φ}
    {next : c.Reply → Program (Call φ) Call.Reply (Except Failure Unit)} {log : Log φ}
    (h : Meets (Heard (Answer b)) (Disciplined b q) (Closes q) (.call c next) log) :
    Follows b q log c :=
  (h _ _ ⟨.empty, _, .crashed c, rfl⟩).1

/-! ### The locks -/

/-- The handler holds an advisory lock. -/
def Holds (f : Handler φ) (name : String) : Prop :=
  ∃ tx, openAfter f.log = some tx ∧ name ∈ tx.locks

/-- The handler has recorded a revision, and holds SQLite's write lock. -/
def Writes (f : Handler φ) (_ : Unit) : Prop :=
  ∃ tx, openAfter f.log = some tx ∧ tx.staged ≠ none

/-- The contract of a handler holds of what is left of it. -/
def Sound (b : Backend) (f : Handler φ) : Prop :=
  Meets (Heard (Answer b)) (Disciplined b f.request) (Closes f.request) f.rest f.log

section Locks

variable {allow : Handlers φ → Nat → Prop} {cfg cfg' : Handlers φ}

/-- Every handler of a run is sound. -/
theorem Reaches.handlers_sound (hr : Reaches (handlers b) allow cfg cfg')
    (h : cfg.flights = []) : ∀ f ∈ cfg'.flights, Sound b f :=
  hr.heard meets_handle (by simp [h])

/-- **An advisory lock has one holder.** -/
theorem Reaches.holds_exclusive (hr : Reaches (handlers b) allow cfg cfg')
    (h : cfg.flights = []) :
    Exclusive Holds (fun (s : Store φ) name => s.locked name = true) cfg' := by
  refine hr.exclusive ?_ ?_ ?_ ?_
  · rintro q n ⟨tx, ho, -⟩
    cases ho
  · intro s c r s' q next log fs i hr₁ _ hi ha
    have hf := Follows.of_heard (Reaches.handlers_sound hr₁ h _ (List.mem_of_getElem? hi))
    refine ⟨?_, ?_⟩
    · rintro n ⟨tx, ho, hn⟩
      rw [openAfter_concat] at ho
      cases Answer.opens ha ho with
      | begin => cases hn
      | same hc hl hs hlocked hw =>
          refine Or.inl ⟨⟨_, hf.1 ▸ hc, hl ▸ hn⟩, ?_⟩
          rw [hlocked]
          exact id
      | lock hfree hs' =>
          rename_i tx₀ name
          rcases List.mem_cons.1 hn with rfl | hn
          · refine Or.inr ⟨by simp [hfree], by simp [hs']⟩
          · refine Or.inl ⟨⟨tx₀, hf.1.symm, hn⟩, ?_⟩
            intro ht
            by_cases hne : n = name
            · simp [hs', hne]
            · simpa [hs', Function.update_of_ne hne] using ht
      | insert hw hl => exact Or.inl ⟨⟨_, hf.1.symm, hn⟩, hl ▸ id⟩
    · intro n ht hn
      exact Answer.keeps_lock ha ht fun tx htx hmem => hn ⟨tx, hf.1 ▸ htx, hmem⟩
  · rintro s s' n rfl
    exact id
  · exact ⟨by simp [h], by simp [h]⟩

/-- **SQLite's write lock has one holder.** -/
theorem Reaches.writes_exclusive (hr : Reaches (handlers .sqlite) allow cfg cfg')
    (h : cfg.flights = []) :
    Exclusive Writes (fun (s : Store φ) _ => s.writing = true) cfg' := by
  refine hr.exclusive ?_ ?_ ?_ ?_
  · rintro q n ⟨tx, ho, -⟩
    cases ho
  · intro s c r s' q next log fs i hr₁ _ hi ha
    have hf := Follows.of_heard (Reaches.handlers_sound hr₁ h _ (List.mem_of_getElem? hi))
    refine ⟨?_, ?_⟩
    · rintro n ⟨tx, ho, hn⟩
      rw [openAfter_concat] at ho
      cases Answer.opens ha ho with
      | begin => exact absurd rfl hn
      | same hc hl hs hlocked hw => exact Or.inl ⟨⟨_, hf.1 ▸ hc, hs ▸ hn⟩, hw ▸ id⟩
      | lock hfree hs' => exact Or.inl ⟨⟨_, hf.1.symm, hn⟩, by simp [hs']⟩
      | insert hw hl => exact Or.inr ⟨by simp [(hw rfl).1], (hw rfl).2⟩
    · intro n ht hn
      refine Answer.keeps_writing ha ht fun tx htx => ?_
      by_contra hs
      exact hn ⟨tx, hf.1 ▸ htx, hs⟩
  · rintro s s' n rfl
    exact id
  · exact ⟨by simp [h], by simp [h]⟩

end Locks

end Search
end Hegira
