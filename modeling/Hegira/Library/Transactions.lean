/-
# Transactions that take locks

A `Database` says what a statement does to the tables it sees: its result, what it
writes and the locks it takes.  A program opens a transaction and hands it from
statement to statement; a statement sees what is committed under what its own
transaction has written (`Database.view`), and waits for a lock that another
transaction holds.  Nothing is written before the commit, and every end of a
transaction releases its locks.  A statement outside a transaction is one that
commits at once.

A call may fail; a transaction that fails is gone, and so is one whose program is
never heard of again: this is a failure that nobody hears of.  A commit, or a
statement on its own, may also fail after it has taken effect.

The log of a flight says which transaction it has open (`openTx`).  When every flight
uses the one it has open (`Threads`), a lock has one holder
(`Reaches.locks_exclusive`).
-/

import Mathlib.Data.List.Basic
import Hegira.Library.Interleaving

namespace Hegira

/-- An open transaction: what it has written, and the locks it holds. -/
structure Tx (W L : Type) where
  writes : List W
  locks : List L

/-- A transaction that has just begun. -/
def Tx.empty {W L : Type} : Tx W L := ⟨[], []⟩

/-- The transaction after a statement. -/
def Tx.extend {W L : Type} (tx : Tx W L) (writes : List W) (locks : List L) : Tx W L :=
  ⟨tx.writes ++ writes, tx.locks ++ locks⟩

/-- The effect of a write, and of a statement on the tables it sees: none when it
breaks a constraint, else its result, its writes and its locks.  A statement may use
values drawn for it, such as a fresh identifier. -/
structure Database (T St : Type) (Res : St → Type) (W L D : Type) where
  write : T → W → T
  execute : T → D → (st : St) → Option (Res st × List W × List L)

/-- The committed tables, and the locks that are held. -/
structure Locked (T L : Type) where
  tables : T
  held : L → Bool

namespace Locked

variable {T L : Type} [DecidableEq L]

/-- The locks are taken. -/
def take (s : Locked T L) (locks : List L) : Locked T L :=
  { s with held := fun l => s.held l || locks.contains l }

/-- The locks are released. -/
def release (s : Locked T L) (locks : List L) : Locked T L :=
  { s with held := fun l => s.held l && !locks.contains l }

/-- Taking and releasing locks leaves the tables. -/
@[simp] theorem take_tables (s : Locked T L) (locks : List L) : (s.take locks).tables = s.tables :=
  rfl

@[simp] theorem release_tables (s : Locked T L) (locks : List L) :
    (s.release locks).tables = s.tables := rfl

/-- The locks held after some were taken. -/
@[simp] theorem held_take {s : Locked T L} {locks : List L} {l : L} :
    (s.take locks).held l = true ↔ s.held l = true ∨ l ∈ locks := by
  simp [take]

/-- The locks held after some were released. -/
@[simp] theorem held_release {s : Locked T L} {locks : List L} {l : L} :
    (s.release locks).held l = true ↔ s.held l = true ∧ l ∉ locks := by
  simp [release]

end Locked

inductive TxCall (St W L : Type) where
  | begin
  | exec (tx : Tx W L) (st : St)
  | commit (tx : Tx W L)
  | rollback (tx : Tx W L)
  | auto (st : St)

namespace TxCall

variable {St W L : Type}

abbrev Reply (Res : St → Type) : TxCall St W L → Type
  | begin => Except String Unit
  | exec _ st => Except String (Res st × Tx W L)
  | commit _ => Except String Unit
  | rollback _ => Unit
  | auto st => Except String (Res st)

/-- The locks of the transaction that the call is made in. -/
def locks : TxCall St W L → List L
  | begin => []
  | exec tx _ => tx.locks
  | commit tx => tx.locks
  | rollback tx => tx.locks
  | auto _ => []

end TxCall

namespace Database

variable {T St W L D : Type} {Res : St → Type} (db : Database T St Res W L D)

/-- The tables under the writes. -/
def view (tables : T) (writes : List W) : T := writes.foldl db.write tables

@[simp] theorem view_nil (tables : T) : db.view tables [] = tables := rfl

/-- The writes of a transaction are seen in the order they were made. -/
@[simp] theorem view_append (tables : T) (ws ws' : List W) :
    db.view tables (ws ++ ws') = db.view (db.view tables ws) ws' := List.foldl_append

variable [DecidableEq L]

/-- The store after a commit. -/
def publish (s : Locked T L) (tx : Tx W L) : Locked T L :=
  { s.release tx.locks with tables := db.view s.tables tx.writes }

/-- What may come of a call. -/
inductive Answer (s : Locked T L) : (c : TxCall St W L) → c.Reply Res → Locked T L → Prop
  | begun : Answer s .begin (.ok ()) s
  | notBegun (message : String) : Answer s .begin (.error message) s
  | executed {tx : Tx W L} {st : St} {d : D} {res : Res st} {writes : List W} {locks : List L}
      (he : db.execute (db.view s.tables tx.writes) d st = some (res, writes, locks))
      (hfree : ∀ l ∈ locks, l ∈ tx.locks ∨ s.held l = false) :
      Answer s (.exec tx st) (.ok (res, tx.extend writes locks)) (s.take locks)
  | aborted {tx : Tx W L} {st : St} (message : String) :
      Answer s (.exec tx st) (.error message) (s.release tx.locks)
  | committed {tx : Tx W L} : Answer s (.commit tx) (.ok ()) (db.publish s tx)
  | committedLate {tx : Tx W L} (message : String) :
      Answer s (.commit tx) (.error message) (db.publish s tx)
  | notCommitted {tx : Tx W L} (message : String) :
      Answer s (.commit tx) (.error message) (s.release tx.locks)
  | rolledBack {tx : Tx W L} : Answer s (.rollback tx) () (s.release tx.locks)
  | done {st : St} {d : D} {res : Res st} {writes : List W} {locks : List L}
      (he : db.execute s.tables d st = some (res, writes, locks))
      (hfree : ∀ l ∈ locks, s.held l = false) :
      Answer s (.auto st) (.ok res) { s with tables := db.view s.tables writes }
  | doneLate {st : St} {d : D} {res : Res st} {writes : List W} {locks : List L}
      (he : db.execute s.tables d st = some (res, writes, locks))
      (hfree : ∀ l ∈ locks, s.held l = false) (message : String) :
      Answer s (.auto st) (.error message) { s with tables := db.view s.tables writes }
  | notDone {st : St} (message : String) : Answer s (.auto st) (.error message) s

/-- The answer of a database that does not fail, with the values drawn. -/
def choose (d : D) (s : Locked T L) : (c : TxCall St W L) → Option (c.Reply Res × Locked T L)
  | .begin => some (.ok (), s)
  | .exec tx st =>
      (db.execute (db.view s.tables tx.writes) d st).bind fun (res, writes, locks) =>
        if ∀ l ∈ locks, l ∈ tx.locks ∨ s.held l = false then
          some (.ok (res, tx.extend writes locks), s.take locks)
        else none
  | .commit tx => some (.ok (), db.publish s tx)
  | .rollback tx => some ((), s.release tx.locks)
  | .auto st =>
      (db.execute s.tables d st).bind fun (res, writes, locks) =>
        if ∀ l ∈ locks, s.held l = false then
          some (.ok res, { s with tables := db.view s.tables writes })
        else none

/-- A database that picks its answer by a rule gives an answer it may give. -/
theorem choose_sound {d : D} {s s' : Locked T L} {c : TxCall St W L} {r : c.Reply Res}
    (h : db.choose d s c = some (r, s')) : db.Answer s c r s' := by
  cases c with
  | begin =>
      obtain ⟨rfl, rfl⟩ := Prod.mk.inj (Option.some.inj h)
      exact .begun
  | exec tx st =>
      obtain ⟨⟨res, writes, locks⟩, he, h⟩ := Option.bind_eq_some_iff.1 h
      dsimp only at h
      split at h
      · next hfree =>
          obtain ⟨rfl, rfl⟩ := Prod.mk.inj (Option.some.inj h)
          exact .executed he hfree
      · cases h
  | commit tx =>
      obtain ⟨rfl, rfl⟩ := Prod.mk.inj (Option.some.inj h)
      exact .committed
  | rollback tx =>
      obtain ⟨rfl, rfl⟩ := Prod.mk.inj (Option.some.inj h)
      exact .rolledBack
  | auto st =>
      obtain ⟨⟨res, writes, locks⟩, he, h⟩ := Option.bind_eq_some_iff.1 h
      dsimp only at h
      split at h
      · next hfree =>
          obtain ⟨rfl, rfl⟩ := Prod.mk.inj (Option.some.inj h)
          exact .done he hfree
      · cases h

/-- The answer of a database that breaks off: `text` is its message. -/
def refuse (text : String) (s : Locked T L) : (c : TxCall St W L) → c.Reply Res × Locked T L
  | .begin => (.error text, s)
  | .exec tx _ => (.error text, s.release tx.locks)
  | .commit tx => (.error text, s.release tx.locks)
  | .rollback tx => ((), s.release tx.locks)
  | .auto _ => (.error text, s)

/-- The answer of a database that fails only where it cannot do otherwise. -/
def reply (text : String) (d : D) (s : Locked T L) (c : TxCall St W L) :
    c.Reply Res × Locked T L :=
  (db.choose d s c).getD (refuse text s c)

end Database

/-! ### One client -/

section Client

variable {T St W L D α β ε : Type} {Res : St → Type} [DecidableEq L]
  (db : Database T St Res W L D) (text : String) (d : D)

/-- What a program comes to when nobody else uses the database. -/
def Database.outcome (p : Program (TxCall St W L) (TxCall.Reply Res) α) (s : Locked T L) :
    α × Locked T L :=
  (p.execute id (db.reply text d) s).2

/-- What a program comes to, and the tables that it leaves. -/
def Database.settle (p : Program (TxCall St W L) (TxCall.Reply Res) α) (t : T) : α × T :=
  let outcome := db.outcome text d p ⟨t, fun _ => false⟩
  (outcome.1, outcome.2.tables)

/-- The locks that are held are those of the transaction. -/
def Tx.Alone (tx : Tx W L) (s : Locked T L) : Prop := ∀ l, s.held l = true → l ∈ tx.locks

omit [DecidableEq L] in
/-- A transaction without writes and locks is alone where no lock is held. -/
theorem Tx.alone_empty (t : T) : (Tx.empty : Tx W L).Alone ⟨t, fun _ => false⟩ := nofun

/-- More writes and locks keep a transaction alone with its locks. -/
theorem Tx.Alone.extend {tx : Tx W L} {s : Locked T L} (h : tx.Alone s) (writes : List W)
    (locks : List L) : (tx.extend writes locks).Alone (s.take locks) := by
  intro l hl
  rcases Locked.held_take.1 hl with hl | hl
  · exact List.mem_append_left _ (h l hl)
  · exact List.mem_append_right _ hl

namespace Database

variable {db text d} {s : Locked T L} {tx : Tx W L}

/-- A statement of the one client waits for nobody. -/
theorem reply_exec (h : tx.Alone s) (st : St) : db.reply text d s (.exec tx st) =
    match db.execute (db.view s.tables tx.writes) d st with
    | none => (.error text, s.release tx.locks)
    | some (res, writes, locks) => (.ok (res, tx.extend writes locks), s.take locks) := by
  rw [reply]
  dsimp only [choose]
  cases he : db.execute (db.view s.tables tx.writes) d st with
  | none => rfl
  | some result =>
      obtain ⟨res, writes, locks⟩ := result
      have hfree : ∀ l ∈ locks, l ∈ tx.locks ∨ s.held l = false := by
        intro l _
        cases hl : s.held l with
        | false => exact .inr rfl
        | true => exact .inl (h l hl)
      rw [Option.bind_some]
      dsimp only
      rw [if_pos hfree]
      rfl

/-- A statement of its own, answered where no lock is held. -/
theorem reply_auto (h : ∀ l, s.held l = false) (st : St) : db.reply text d s (.auto st) =
    match db.execute s.tables d st with
    | none => (.error text, s)
    | some (res, writes, _) => (.ok res, { s with tables := db.view s.tables writes }) := by
  rw [reply]
  dsimp only [choose]
  cases he : db.execute s.tables d st with
  | none => rfl
  | some result =>
      obtain ⟨res, writes, locks⟩ := result
      rw [Option.bind_some]
      dsimp only
      rw [if_pos fun l _ => h l]
      rfl

/-- The outcome of a sequence is that of its second part where the first one ended. -/
theorem outcome_bind (p : Program (TxCall St W L) (TxCall.Reply Res) β)
    (f : β → Program (TxCall St W L) (TxCall.Reply Res) α) (s : Locked T L) :
    db.outcome text d (p >>= f) s =
      db.outcome text d (f (db.outcome text d p s).1) (db.outcome text d p s).2 := by
  induction p generalizing s with
  | done b => rfl
  | call c next ih => exact ih _ _

/-- A part that returns a value. -/
theorem outcome_ok {p : Fallible ε (TxCall St W L) (TxCall.Reply Res) β}
    {f : β → Fallible ε (TxCall St W L) (TxCall.Reply Res) α} {b : β} {s' : Locked T L}
    (h : db.outcome text d p.run s = (.ok b, s')) :
    db.outcome text d (p >>= f : Fallible ε (TxCall St W L) (TxCall.Reply Res) α).run s =
      db.outcome text d (f b).run s' := by
  rw [fallible_bind_eq, outcome_bind, h]

/-- A part that fails. -/
theorem outcome_error {p : Fallible ε (TxCall St W L) (TxCall.Reply Res) β}
    {f : β → Fallible ε (TxCall St W L) (TxCall.Reply Res) α} {e : ε} {s' : Locked T L}
    (h : db.outcome text d p.run s = (.error e, s')) :
    db.outcome text d (p >>= f : Fallible ε (TxCall St W L) (TxCall.Reply Res) α).run s =
      (.error e, s') := by
  rw [fallible_bind_eq, outcome_bind, h]
  rfl

end Database

end Client

/-! ### The transaction that a flight has open -/

section Open

variable {T St W L D : Type} {Res : St → Type}

abbrev TxLog (T St : Type) (Res : St → Type) (W L : Type) :=
  List (Event (TxCall St W L) (TxCall.Reply Res) (Locked T L))

/-- The open transaction after a call. -/
def openAfter (o : Option (Tx W L)) :
    Event (TxCall St W L) (TxCall.Reply Res) (Locked T L) → Option (Tx W L)
  | ⟨_, .begin, .ok _, _⟩ => some .empty
  | ⟨_, .exec _ _, .ok (_, tx), _⟩ => some tx
  | ⟨_, .auto _, _, _⟩ => o
  | _ => none

/-- The transaction that is open after the calls. -/
def openTx (log : TxLog T St Res W L) : Option (Tx W L) := log.foldl openAfter none

@[simp] theorem openTx_nil : openTx ([] : TxLog T St Res W L) = none := rfl

/-- The transaction that is open after one more event. -/
@[simp] theorem openTx_concat {log : TxLog T St Res W L}
    {e : Event (TxCall St W L) (TxCall.Reply Res) (Locked T L)} :
    openTx (log ++ [e]) = openAfter (openTx log) e := by
  simp [openTx]

/-- A call is made in the transaction that is open. -/
def Threads (o : Option (Tx W L)) : TxCall St W L → Prop
  | .begin => o = none
  | .exec tx _ => o = some tx
  | .commit tx => o = some tx
  | .rollback tx => o = some tx
  | .auto _ => o = none

/-- A call can only name locks of the transaction that is open. -/
theorem Threads.locks {o : Option (Tx W L)} {c : TxCall St W L} (h : Threads o c) {l : L}
    (hl : l ∈ c.locks) : ∃ tx, o = some tx ∧ l ∈ tx.locks := by
  cases c with
  | begin => cases hl
  | exec tx st => exact ⟨tx, h, hl⟩
  | commit tx => exact ⟨tx, h, hl⟩
  | rollback tx => exact ⟨tx, h, hl⟩
  | auto st => cases hl

variable {Q α : Type}

/-- The flight holds the lock. -/
def Holds (f : Flight Q (TxCall St W L) (TxCall.Reply Res) α (Locked T L)) (l : L) : Prop :=
  ∃ tx, openTx f.log = some tx ∧ l ∈ tx.locks

variable [DecidableEq L] {db : Database T St Res W L D}

/-- How a call trades locks. -/
theorem Database.Answer.trades {s s' : Locked T L} {q : Q} {c : TxCall St W L}
    {next : c.Reply Res → Program (TxCall St W L) (TxCall.Reply Res) α}
    {log : TxLog T St Res W L} {r : c.Reply Res} (ht : Threads (openTx log) c)
    (h : db.Answer s c r s') :
    Trades Holds (fun s l => s.held l = true) ⟨q, .call c next, log⟩
      ⟨q, next r, log ++ [⟨s, c, r, s'⟩]⟩ s s' := by
  have hfreed : ∀ l, l ∉ c.locks → s.held l = true → (s.release c.locks).held l = true :=
    fun l hl hh => Locked.held_release.2 ⟨hh, hl⟩
  have hmine : ∀ l, ¬Holds (⟨q, .call c next, log⟩ : Flight Q _ _ α _) l → l ∉ c.locks :=
    fun l hn hl => hn (ht.locks hl)
  cases h with
  | begun =>
      refine ⟨?_, fun l hl _ => hl⟩
      rintro l ⟨tx, ho, hl⟩
      rw [openTx_concat] at ho
      obtain rfl := Option.some.inj ho
      cases hl
  | executed he hfree =>
      refine ⟨?_, fun l hl _ => Locked.held_take.2 (Or.inl hl)⟩
      rintro l ⟨tx', ho, hl⟩
      rw [openTx_concat] at ho
      obtain rfl := Option.some.inj ho
      rcases List.mem_append.1 hl with hl | hl
      · exact Or.inl ⟨⟨_, ht, hl⟩, fun hh => Locked.held_take.2 (Or.inl hh)⟩
      · rcases hfree l hl with hold | hnew
        · exact Or.inl ⟨⟨_, ht, hold⟩, fun hh => Locked.held_take.2 (Or.inl hh)⟩
        · exact Or.inr ⟨by simp [hnew], Locked.held_take.2 (Or.inr hl)⟩
  | done he hfree =>
      refine ⟨?_, fun l hl _ => hl⟩
      rintro l ⟨tx, ho, hl⟩
      rw [openTx_concat] at ho
      exact Or.inl ⟨⟨tx, ho, hl⟩, id⟩
  | doneLate he hfree =>
      refine ⟨?_, fun l hl _ => hl⟩
      rintro l ⟨tx, ho, hl⟩
      rw [openTx_concat] at ho
      exact Or.inl ⟨⟨tx, ho, hl⟩, id⟩
  | notDone =>
      refine ⟨?_, fun l hl _ => hl⟩
      rintro l ⟨tx, ho, hl⟩
      rw [openTx_concat] at ho
      exact Or.inl ⟨⟨tx, ho, hl⟩, id⟩
  | notBegun =>
      refine ⟨?_, fun l hl _ => hl⟩
      rintro l ⟨tx, ho, hl⟩
      rw [openTx_concat] at ho
      cases ho
  | _ =>
      refine ⟨?_, fun l hl hn => hfreed l (hmine l hn) hl⟩
      rintro l ⟨tx, ho, hl⟩
      rw [openTx_concat] at ho
      cases ho

/-- **A lock has one holder.** -/
theorem Reaches.locks_exclusive
    {S : Site Q (TxCall St W L) (TxCall.Reply Res) α (Locked T L)}
    {allow : Config Q (TxCall St W L) (TxCall.Reply Res) α (Locked T L) → Nat → Prop}
    {cfg cfg' : Config Q (TxCall St W L) (TxCall.Reply Res) α (Locked T L)}
    (hr : Reaches S allow cfg cfg') (hS : ∀ s c r s', S.answer s c r s' → db.Answer s c r s')
    (hthreads : ∀ s c r s' q next log fs (i : Nat), Reaches S allow cfg ⟨s, fs⟩ →
      allow ⟨s, fs⟩ i → fs[i]? = some ⟨q, .call c next, log⟩ → S.answer s c r s' →
        Threads (openTx log) c)
    (hdrift : ∀ s s' l, S.drift s s' → s.held l = true → s'.held l = true)
    (h : cfg.flights = []) :
    Exclusive Holds (fun s l => s.held l = true) cfg' := by
  refine hr.exclusive ?_ ?_ hdrift ⟨by simp [h], by simp [h]⟩
  · rintro q l ⟨tx, ho, -⟩
    cases ho
  · intro s c r s' q next log fs i hr₁ ha hi he
    exact (hS s c r s' he).trades (hthreads s c r s' q next log fs i hr₁ ha hi he)

end Open

end Hegira
