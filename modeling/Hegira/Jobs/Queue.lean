/-
# The durable job queue

`crates/background_jobs/src/sqlx/sqlite.rs` and
`crates/background_jobs/src/sqlx/postgres.rs`, and the tables `outbox_messages` and
`inbox_messages` of their migrations.

A worker claims a batch of messages in one statement, which charges an attempt to
each of them, and processes them one by one: it looks the message up in the inbox,
runs its handler, and marks it completed or failed.  The two backends differ in how
a payload is stored (`Column`): SQLite keeps its text, which the claim decodes.

Each statement or transaction is one call.  The database may be down, so that a
call has no effect, and an answer may be lost on its way back (`Link`).
-/

import Mathlib.Algebra.Ring.Int.Defs
import Mathlib.Data.List.Sort
import Hegira.Library.Program

namespace Hegira
namespace Jobs

/-- A row of `outbox_messages`; times are in seconds. -/
structure OutboxMessage (ρ : Type) where
  id : Nat
  name : String
  payload : ρ
  idempotencyKey : Option String
  attempts : Nat
  maxAttempts : Nat
  availableAt : Int
  createdAt : Int
  lockedAt : Option Int
  lockOwner : Option String
  processedAt : Option Int
  lastError : Option String

/-- `outbox_messages`. -/
structure Outbox (ρ : Type) where
  messages : List (OutboxMessage ρ)
  primaryKey : (messages.map OutboxMessage.id).Nodup

variable {ρ ν : Type}

namespace Outbox

def empty : Outbox ρ := ⟨[], List.nodup_nil⟩

def get (o : Outbox ρ) (id : Nat) : Option (OutboxMessage ρ) :=
  o.messages.find? fun m => m.id == id

/-- `UPDATE outbox_messages SET .. WHERE id IN ids`. -/
def update (o : Outbox ρ) (ids : List Nat) (f : OutboxMessage ρ → OutboxMessage ρ)
    (hf : ∀ m, (f m).id = m.id) : Outbox ρ where
  messages := o.messages.map fun m => if m.id ∈ ids then f m else m
  primaryKey := by
    have h : OutboxMessage.id ∘ (fun m => if m.id ∈ ids then f m else m) = OutboxMessage.id := by
      funext m
      dsimp only [Function.comp]
      split
      · exact hf m
      · rfl
    rw [List.map_map, h]
    exact o.primaryKey

/-- `INSERT INTO outbox_messages` with an id that is not in use. -/
def insert (o : Outbox ρ) (m : OutboxMessage ρ) (hm : o.get m.id = none) : Outbox ρ where
  messages := o.messages ++ [m]
  primaryKey := by
    rw [List.map_append, List.nodup_append]
    refine ⟨o.primaryKey, by simp, ?_⟩
    rintro id hid _ hid' rfl
    obtain ⟨n, hn, rfl⟩ := List.mem_map.1 hid
    rw [List.map_singleton, List.mem_singleton] at hid'
    simpa [hid'] using List.find?_eq_none.1 hm n hn

theorem mem_iff_get {o : Outbox ρ} {m : OutboxMessage ρ} : m ∈ o.messages ↔ o.get m.id = some m := by
  constructor
  · intro hm
    cases hg : o.get m.id with
    | none => simpa using List.find?_eq_none.1 hg m hm
    | some n =>
        have hid : n.id = m.id := by simpa using List.find?_some hg
        exact congrArg some (List.inj_on_of_nodup_map o.primaryKey (List.mem_of_find?_eq_some hg) hm hid)
  · exact List.mem_of_find?_eq_some

theorem id_of_get {o : Outbox ρ} {id : Nat} {m : OutboxMessage ρ} (h : o.get id = some m) :
    m.id = id := by
  simpa using List.find?_some h

theorem get_update {o : Outbox ρ} {ids : List Nat} {f : OutboxMessage ρ → OutboxMessage ρ}
    (hf : ∀ m, (f m).id = m.id) {id : Nat} :
    (o.update ids f hf).get id = (o.get id).map fun m => if id ∈ ids then f m else m := by
  rw [get, get, update, List.find?_map]
  have hp : ((fun m : OutboxMessage ρ => m.id == id) ∘ fun m => if m.id ∈ ids then f m else m) =
      fun m => m.id == id := by
    funext m
    dsimp only [Function.comp]
    split
    · rw [hf m]
    · rfl
  rw [hp]
  refine Option.map_congr fun m hm => ?_
  rw [show m.id = id by simpa using List.find?_some hm]

theorem get_insert {o : Outbox ρ} {m : OutboxMessage ρ} {hm : o.get m.id = none} {id : Nat} :
    (o.insert m hm).get id = if m.id = id then some m else o.get id := by
  rw [get, insert, List.find?_append, List.find?_singleton]
  by_cases h : m.id = id
  · subst h
    rw [show o.messages.find? (fun n => n.id == m.id) = none from hm]
    simp
  · simp [h, get]

end Outbox

/-- How a backend stores payloads. -/
structure Column (ρ ν : Type) where
  encode : ν → ρ
  decode : ρ → Except String ν

/-- A `JSONB` column. -/
def Postgres.column : Column ν ν := ⟨id, .ok⟩

/-- Whether the next call reaches the database, and its answer the caller. -/
inductive Link where
  | up
  | down
  | lost
  deriving DecidableEq

/-- The tables, the time, and the state of the database connection. -/
structure Store (ρ : Type) where
  outbox : Outbox ρ
  inbox : List (String × Nat)
  clock : Int
  link : Link

/-- `DurableJobOptions`. -/
structure DurableJobOptions where
  idempotencyKey : Option String
  maxAttempts : Nat

/-- `DurableWorkerConfig`; the polling fields play no part in an iteration. -/
structure DurableWorkerConfig where
  batchSize : Nat
  lockTimeoutSeconds : Int

/-- A worker: its id, the names in its registry, its configuration. -/
structure Worker where
  workerId : String
  registry : List String
  config : DurableWorkerConfig

/-- `ClaimedMessage`; `π` is the payload. -/
structure ClaimedMessage (π : Type) where
  id : Nat
  name : String
  payload : π
  attempts : Nat
  maxAttempts : Nat

/-- The message can be claimed now. -/
def OutboxMessage.claimable (m : OutboxMessage ρ) (now staleBefore : Int) : Bool :=
  m.processedAt.isNone && m.availableAt ≤ now && m.attempts < m.maxAttempts &&
    m.lockedAt.all (· < staleBefore)

/-- `ORDER BY available_at, created_at`. -/
def OutboxMessage.Before (m n : OutboxMessage ρ) : Prop :=
  m.availableAt < n.availableAt ∨ m.availableAt = n.availableAt ∧ m.createdAt ≤ n.createdAt

instance (m n : OutboxMessage ρ) : Decidable (m.Before n) := by
  unfold OutboxMessage.Before
  infer_instance

instance : Std.Total (@OutboxMessage.Before ρ) where
  total m n := by
    unfold OutboxMessage.Before
    omega

instance : IsTrans (OutboxMessage ρ) OutboxMessage.Before where
  trans m n o h₁ h₂ := by
    unfold OutboxMessage.Before at *
    omega

/-- The messages a worker could claim. -/
def Store.candidates (s : Store ρ) (w : Worker) : List (OutboxMessage ρ) :=
  s.outbox.messages.filter
    (·.claimable s.clock (s.clock - w.config.lockTimeoutSeconds))

/-- A batch of the claim: the first candidates in order of time, ties broken and
rows returned in any order. -/
def Store.Selects (s : Store ρ) (w : Worker) (batch : List (OutboxMessage ρ)) : Prop :=
  ∃ sorted : List (OutboxMessage ρ), sorted.Perm (s.candidates w) ∧
    sorted.Pairwise OutboxMessage.Before ∧ batch.Perm (sorted.take w.config.batchSize)

/-- The row of a new message. -/
abbrev OutboxMessage.fresh (id : Nat) (name : String) (payload : ρ) (idempotencyKey : Option String)
    (maxAttempts : Nat) (now : Int) : OutboxMessage ρ :=
  ⟨id, name, payload, idempotencyKey, 0, maxAttempts, now, now, none, none, none, none⟩

/-- What the claim sets. -/
def OutboxMessage.claim (w : Worker) (now : Int) (m : OutboxMessage ρ) : OutboxMessage ρ :=
  { m with lockedAt := some now, lockOwner := some w.workerId, attempts := m.attempts + 1 }

/-- What the claim returns. -/
def OutboxMessage.claimed (m : OutboxMessage ρ) : ClaimedMessage ρ :=
  ⟨m.id, m.name, m.payload, m.attempts + 1, m.maxAttempts⟩

/-- `2_i64.pow(attempts.clamp(1, 8)).min(300)`. -/
def retrySeconds (attempts : Nat) : Int := min (2 ^ (min (max attempts 1) 8)) 300

/-- The `UPDATE` of the claim. -/
def Store.claim (s : Store ρ) (w : Worker) (ids : List Nat) : Store ρ :=
  { s with outbox := s.outbox.update ids (OutboxMessage.claim w s.clock) fun _ => rfl }

/-- What `mark_completed` sets. -/
def OutboxMessage.complete (now : Int) (m : OutboxMessage ρ) : OutboxMessage ρ :=
  { m with processedAt := some now, lockedAt := none, lockOwner := none, lastError := none }

/-- The transaction of `mark_completed`. -/
def Store.markCompleted (s : Store ρ) (messageId : Nat) (consumer : String) : Store ρ :=
  { s with
    inbox :=
      if (consumer, messageId) ∈ s.inbox then s.inbox else (consumer, messageId) :: s.inbox
    outbox := s.outbox.update [messageId] (OutboxMessage.complete s.clock) fun _ => rfl }

/-- What `mark_failed` sets. -/
def OutboxMessage.fail (now : Int) (attempts : Nat) (error : String) (m : OutboxMessage ρ) :
    OutboxMessage ρ :=
  { m with
    lockedAt := none, lockOwner := none, lastError := some error,
    availableAt := now + retrySeconds attempts }

/-- The `UPDATE` of `mark_failed`. -/
def Store.markFailed (s : Store ρ) (message : ClaimedMessage ν) (error : String) : Store ρ :=
  { s with
    outbox := s.outbox.update [message.id]
      (OutboxMessage.fail s.clock message.attempts error) fun _ => rfl }

inductive Call (ρ ν : Type) where
  | insert (name : String) (payload : ρ) (idempotencyKey : Option String) (maxAttempts : Nat)
  | claim (w : Worker)
  | isProcessed (consumer : String) (messageId : Nat)
  | handle (message : ClaimedMessage ν)
  | markCompleted (messageId : Nat) (consumer : String)
  | markFailed (message : ClaimedMessage ν) (error : String)

namespace Call

abbrev Value : Call ρ ν → Type
  | insert .. => Nat
  | claim _ => List (ClaimedMessage ρ)
  | isProcessed .. => Bool
  | handle _ => Unit
  | markCompleted .. => Unit
  | markFailed .. => Unit

abbrev Reply (c : Call ρ ν) : Type := Except String c.Value

end Call

/-- What a statement returns and does. -/
inductive Performs (s : Store ρ) : (c : Call ρ ν) → c.Value → Store ρ → Prop
  | inserted {name : String} {payload : ρ} {idempotencyKey : Option String} {maxAttempts : Nat}
      {id : Nat} (hid : s.outbox.get id = none)
      (hkey : ∀ key, idempotencyKey = some key → ∀ m ∈ s.outbox.messages,
        ¬(m.name = name ∧ m.idempotencyKey = some key)) :
      Performs s (.insert name payload idempotencyKey maxAttempts) id
        { s with
          outbox := s.outbox.insert (.fresh id name payload idempotencyKey maxAttempts s.clock)
            hid }
  | conflict {name : String} {payload : ρ} {key : String} {maxAttempts : Nat}
      {m : OutboxMessage ρ} (hm : m ∈ s.outbox.messages) (hname : m.name = name)
      (hkey : m.idempotencyKey = some key) :
      Performs s (.insert name payload (some key) maxAttempts) m.id s
  | claim {w : Worker} {batch : List (OutboxMessage ρ)} (h : s.Selects w batch) :
      Performs s (.claim w) (batch.map OutboxMessage.claimed)
        (s.claim w (batch.map OutboxMessage.id))
  | isProcessed (consumer : String) (id : Nat) :
      Performs s (.isProcessed consumer id) (s.inbox.contains (consumer, id)) s
  | markCompleted (id : Nat) (consumer : String) :
      Performs s (.markCompleted id consumer) () (s.markCompleted id consumer)
  | markFailed (message : ClaimedMessage ν) (error : String) :
      Performs s (.markFailed message error) () (s.markFailed message error)

/-- What may come of a call.  A handler returns what it likes; the database answers
according to its link. -/
inductive Answer (s : Store ρ) : (c : Call ρ ν) → c.Reply → Store ρ → Prop
  | handled (message : ClaimedMessage ν) (r : Except String Unit) : Answer s (.handle message) r s
  | answered {c : Call ρ ν} {v : c.Value} {s' : Store ρ} (hl : s.link = .up)
      (h : Performs s c v s') : Answer s c (.ok v) s'
  | failed {c : Call ρ ν} (hl : s.link = .down) (hc : ∀ message, c ≠ .handle message)
      (error : String) : Answer s c (.error error) s
  | lost {c : Call ρ ν} {v : c.Value} {s' : Store ρ} (hl : s.link = .lost) (h : Performs s c v s')
      (error : String) : Answer s c (.error error) s'

/-- Time passes, and the link comes and goes. -/
def Drifts (s s' : Store ρ) : Prop := ∃ clock link, s' = { s with clock := clock, link := link }

/-! ### The programs -/

abbrev Working (ρ ν : Type) := Fallible String (Call ρ ν) Call.Reply

def query (c : Call ρ ν) : Working ρ ν c.Value := ExceptT.mk (Program.perform c)

/-- `i32::MAX`. -/
def maxI32 : Nat := 2147483647

/-- `DurableJobQueue::enqueue`. -/
def enqueue (column : Column ρ ν) (name : String) (payload : ν) (options : DurableJobOptions) :
    Working ρ ν Nat := do
  let maxAttempts := max options.maxAttempts 1
  if maxI32 < maxAttempts then
    throw "durable job max_attempts is too large"
  query (.insert name (column.encode payload) options.idempotencyKey maxAttempts)

def ClaimedMessage.decode (column : Column ρ ν) (message : ClaimedMessage ρ) :
    Except String (ClaimedMessage ν) := do
  let payload ← column.decode message.payload
  return { message with payload := payload }

/-- `claim`: one payload that does not decode fails the whole batch. -/
def claim (column : Column ρ ν) (w : Worker) : Working ρ ν (List (ClaimedMessage ν)) := do
  let rows ← query (.claim w)
  liftExcept (rows.mapM (ClaimedMessage.decode column))

/-- `process`; on Postgres, `process_inner`. -/
def process (w : Worker) (message : ClaimedMessage ν) : Working ρ ν Unit := do
  if message.name ∈ w.registry then
    let duplicate ← query (.isProcessed message.name message.id)
    if duplicate then
      query (.markCompleted message.id message.name)
    else
      match ← attempt (query (.handle message)) with
      | .ok _ => query (.markCompleted message.id message.name)
      | .error error => query (.markFailed message error)
  else
    query (.markFailed message s!"no handler registered for `{message.name}`")

/-- `run_once`. -/
def runOnce (column : Column ρ ν) (w : Worker) : Working ρ ν Nat := do
  let messages ← claim column w
  messages.forM (process w)
  return messages.length

end Jobs
end Hegira
