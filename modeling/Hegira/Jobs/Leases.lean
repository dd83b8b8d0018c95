/-
# The lease of a claimed message

A claim locks its messages for `lock_timeout`; a message whose lock is older than
that may be claimed again.  The updates that end a message clear its lock whoever
holds it: `lock_owner` is written and never read.  So a worker that comes back
after another one has claimed its message clears the lock of that one
(`late_worker_breaks_lease`).

The attempts of a message tell its claims apart (`one_claim_of_reaches`): each claim
raises them by one.  As long as every worker starts and ends the messages it has
claimed before they are claimed again (`Prompt`), leases are exclusive: whoever
holds a message holds its lock, or has lost it to time (`Leased`, kept by every
call: `leased_of_reaches`).
-/

import Hegira.Jobs.Attempts

namespace Hegira
namespace Jobs

variable {ρ ν : Type}

/-- Time goes on, and the link comes and goes. -/
def Ticks (s s' : Store ρ) : Prop :=
  ∃ clock link, s.clock ≤ clock ∧ s' = { s with clock := clock, link := link }

/-- Producers and workers whose common clock never goes back. -/
def clockedQueue (column : Column ρ ν) :
    Site (Request ν) (Call ρ ν) Call.Reply (Except String Nat) (Store ρ) :=
  { queue column with drift := Ticks }

/-- The worker that makes an iteration. -/
def Request.workerId : Request ν → Option String
  | .enqueue .. => none
  | .runOnce w => some w.workerId

/-- The lock of a message: since when, and whose. -/
def Store.lock (s : Store ρ) (id : Nat) : Option Int × Option String :=
  (s.outbox.get id).elim (none, none) fun m => (m.lockedAt, m.lockOwner)

/-- The call has claimed the message, and with which attempt. -/
def takes (e : Event (Call ρ ν) Call.Reply (Store ρ)) (id attempt : Nat) : Prop :=
  e.before.attempts id < e.after.attempts id ∧ e.after.attempts id = attempt

/-- The call has recorded the end of the message. -/
def settles (e : Event (Call ρ ν) Call.Reply (Store ρ)) (id : Nat) : Prop :=
  e.call.marks = some id ∧ e.before.link ≠ .down

/-- The iteration has claimed the message at `since` with this attempt, and has
neither completed nor failed it. -/
def Holds (log : Log ρ ν) (id attempt : Nat) (since : Int) : Prop :=
  (∃ e ∈ log, takes e id attempt ∧ e.before.clock = since) ∧ ∀ e ∈ log, ¬settles e id

/-- What a call of the flight `j` may do: it leaves the messages that another worker
has claimed less than `lockTimeout` ago to that worker, and processed messages
alone. -/
structure Respects (lockTimeout : Int) (cfg : Workers ρ ν) (j : Iteration ρ ν)
    (e : Event (Call ρ ν) Call.Reply (Store ρ)) : Prop where
  leased : ∀ f ∈ cfg.flights, f.request.workerId ≠ j.request.workerId → ∀ id attempt since,
    Holds f.log id attempt since → e.before.clock < since + lockTimeout →
      (∀ attempt', ¬takes e id attempt') ∧ e.after.lock id = e.before.lock id
  processed : ∀ id m, e.before.outbox.get id = some m → m.processedAt ≠ none →
    (∀ attempt, ¬takes e id attempt) ∧ e.call.starts ≠ some id

/-- Every call that may come next respects the leases. -/
def LeasesExclusive (column : Column ρ ν) (lockTimeout : Int)
    (allow : Workers ρ ν → Nat → Prop) (cfg : Workers ρ ν) : Prop :=
  ∀ (j : Nat) q c next log r s', cfg.flights[j]? = some ⟨q, .call c next, log⟩ → allow cfg j →
    (clockedQueue column).answer cfg.store c r s' →
      Respects lockTimeout cfg ⟨q, .call c next, log⟩ ⟨cfg.store, c, r, s'⟩

/-- The workers share one `lock_timeout`. -/
def Timeout (lockTimeout : Int) (cfg : Workers ρ ν) (j : Nat) : Prop :=
  ∀ q w next log, cfg.flights[j]? = some ⟨q, .call (.claim w) next, log⟩ →
    w.config.lockTimeoutSeconds = lockTimeout

/-- The next call of a worker is prompt: it starts a message, or records its end,
only while the message has the attempts that it was claimed with, that is, before
another claim. -/
def Prompt (lockTimeout : Int) (cfg : Workers ρ ν) (j : Nat) : Prop :=
  Timeout lockTimeout cfg j ∧
    ∀ q c next log, cfg.flights[j]? = some ⟨q, .call c next, log⟩ →
      ∀ id, c.starts = some id ∨ c.marks = some id →
        ∀ e ∈ log, ∀ attempt, takes e id attempt → cfg.store.attempts id = attempt

/-! ### What one call does -/

section Effects

variable {s s' : Store ρ} {c : Call ρ ν} {r : c.Reply}

/-- What may become of the row of a message: it stays, it is claimed, or its end is
recorded. -/
inductive RowChange (s : Store ρ) (c : Call ρ ν) (m : OutboxMessage ρ) :
    OutboxMessage ρ → Prop
  | same : RowChange s c m m
  | claimed (w : Worker) (hc : c = .claim w)
      (h : m.claimable s.clock (s.clock - w.config.lockTimeoutSeconds) = true) :
      RowChange s c m (m.claim w s.clock)
  | completed (hc : c.marks = some m.id) (hl : s.link ≠ .down) :
      RowChange s c m (m.complete s.clock)
  | failed (hc : c.marks = some m.id) (hl : s.link ≠ .down) (attempts : Nat) (error : String) :
      RowChange s c m (m.fail s.clock attempts error)

/-- What each statement does to one row. -/
theorem Store.get_markCompleted {id id' : Nat} {consumer : String} :
    (s.markCompleted id' consumer).outbox.get id =
      (s.outbox.get id).map fun m => if id ∈ [id'] then m.complete s.clock else m :=
  Outbox.get_update (f := OutboxMessage.complete s.clock) fun _ => rfl

theorem Store.get_markFailed {id : Nat} {message : ClaimedMessage ν} {error : String} :
    (s.markFailed message error).outbox.get id = (s.outbox.get id).map fun m =>
      if id ∈ [message.id] then m.fail s.clock message.attempts error else m :=
  Outbox.get_update (f := OutboxMessage.fail s.clock message.attempts error) fun _ => rfl

/-- **One statement** changes a row as `RowChange` says. -/
theorem RowChange.of_performs {v : c.Value} (h : Performs s c v s') (hl : s.link ≠ .down)
    {id : Nat} {m : OutboxMessage ρ} (hm : s.outbox.get id = some m) :
    ∃ m', s'.outbox.get id = some m' ∧ RowChange s c m m' := by
  have hid := Outbox.id_of_get hm
  cases h with
  | @inserted name payload idempotencyKey maxAttempts id' hfree hkey =>
      have hne : id' ≠ id := by
        rintro rfl
        rw [hm] at hfree
        cases hfree
      exact ⟨m, by rw [Outbox.get_insert, if_neg hne, hm], .same⟩
  | conflict => exact ⟨m, hm, .same⟩
  | @claim w batch hs =>
      rw [Store.get_claim, hm]
      refine ⟨_, rfl, ?_⟩
      split
      · next hmem =>
          obtain ⟨n, hn, hnid⟩ := List.mem_map.1 hmem
          obtain ⟨hget, hclaim⟩ := hs.claimable hn
          rw [hnid, hm] at hget
          exact .claimed w rfl (Option.some.inj hget ▸ hclaim)
      · exact .same
  | isProcessed => exact ⟨m, hm, .same⟩
  | markCompleted id' consumer =>
      rw [Store.get_markCompleted, hm]
      refine ⟨_, rfl, ?_⟩
      split
      · next hmem =>
          have hmark : (Call.markCompleted id' consumer : Call ρ ν).marks = some m.id :=
            congrArg some ((List.mem_singleton.1 hmem).symm.trans hid.symm)
          exact .completed hmark hl
      · exact .same
  | markFailed message error =>
      rw [Store.get_markFailed, hm]
      refine ⟨_, rfl, ?_⟩
      split
      · next hmem =>
          obtain rfl := List.mem_singleton.1 hmem
          have hmark : (Call.markFailed message error : Call ρ ν).marks = some m.id :=
            congrArg some hid.symm
          exact .failed hmark hl _ _
      · exact .same

/-- **What a call does to a message.** -/
theorem Answer.rowChange (h : Answer s c r s') {id : Nat} {m : OutboxMessage ρ}
    (hm : s.outbox.get id = some m) :
    ∃ m', s'.outbox.get id = some m' ∧ RowChange s c m m' := by
  cases h with
  | handled => exact ⟨m, hm, .same⟩
  | failed => exact ⟨m, hm, .same⟩
  | answered hl h => exact RowChange.of_performs h (by simp [hl]) hm
  | lost hl h => exact RowChange.of_performs h (by simp [hl]) hm

/-- Time does not pass during a call. -/
theorem Answer.clock_eq (h : Answer s c r s') : s'.clock = s.clock := by
  have hp : ∀ {c : Call ρ ν} {v : c.Value}, Performs s c v s' → s'.clock = s.clock := by
    intro c v h
    cases h <;> rfl
  cases h with
  | handled => rfl
  | failed => rfl
  | answered hl h => exact hp h
  | lost hl h => exact hp h

/-- The attempts and the lock of a row. -/
theorem Store.attempts_of_get {id : Nat} {m : OutboxMessage ρ} (h : s.outbox.get id = some m) :
    s.attempts id = m.attempts := by
  rw [Store.attempts, h]
  rfl

theorem Store.lock_of_get {id : Nat} {m : OutboxMessage ρ} (h : s.outbox.get id = some m) :
    s.lock id = (m.lockedAt, m.lockOwner) := by
  rw [Store.lock, h]
  rfl

/-- A call that claims a message finds it claimable, and locks it. -/
theorem Answer.takes (h : Answer s c r s') {id attempt : Nat}
    (ht : Jobs.takes ⟨s, c, r, s'⟩ id attempt) :
    ∃ w m, c = .claim w ∧ s.outbox.get id = some m ∧ m.attempts + 1 = attempt ∧
      m.claimable s.clock (s.clock - w.config.lockTimeoutSeconds) = true ∧
      s'.outbox.get id = some (m.claim w s.clock) := by
  obtain ⟨hlt, heq⟩ := ht
  rcases h.attempts with hsame | ⟨w, batch, rfl, hs, rfl⟩
  · rw [hsame] at hlt
    exact absurd hlt (lt_irrefl _)
  · dsimp only at hlt heq
    rw [hs.attempts] at hlt heq
    split at hlt
    · next hmem =>
        obtain ⟨m, hm, rfl⟩ := List.mem_map.1 hmem
        obtain ⟨hget, hclaim⟩ := hs.claimable hm
        rw [if_pos hmem, Store.attempts_of_get hget] at heq
        exact ⟨w, m, rfl, hget, heq, hclaim, by rw [Store.get_claim, hget, Option.map_some, if_pos hmem]⟩
    · exact absurd hlt (by omega)

end Effects

/-! ### What an iteration works on -/

/-- The ids an iteration has still to work on, after a call. -/
abbrev Narrows (ids : List Nat) (c : Call ρ ν) (_ : c.Reply) (ids' : List Nat) : Prop :=
  ids' = ids.filter fun id => c.marks ≠ some id

/-- The call claims nothing, and starts and ends only what is left to work on. -/
def Works (e : Event (Call ρ ν) Call.Reply (List Nat)) : Prop :=
  e.call.ClaimsNothing ∧ ∀ id, e.call.starts = some id ∨ e.call.marks = some id → id ∈ e.before

section Work

variable {column : Column ρ ν} {ids : List Nat}

/-- A call that claims nothing. -/
theorem spec_query {c : Call ρ ν} {post : c.Value → List Nat → Prop} (hc : c.ClaimsNothing)
    (hw : ∀ id, c.starts = some id ∨ c.marks = some id → id ∈ ids)
    (hp : ∀ v, post v (ids.filter fun id => c.marks ≠ some id)) :
    (query c).Spec Narrows Works post ids := by
  rintro r _ rfl
  exact ⟨⟨hc, hw⟩, fun v _ => hp v⟩

/-- Recording the end of a message. -/
theorem spec_mark {c : Call ρ ν} {i : Nat} (hm : c.marks = some i) (hid : i ∈ ids)
    {post : c.Value → List Nat → Prop} (hp : ∀ v, post v (ids.filter fun id' => id' ≠ i)) :
    (query c).Spec Narrows Works post ids := by
  refine spec_query (by rintro w rfl; cases hm) ?_ fun v => ?_
  · rintro id' (h | h)
    · cases c <;> cases hm <;> cases h
    · rw [hm] at h
      exact Option.some.inj h ▸ hid
  · have hf : (fun id' => decide (c.marks ≠ some id')) = fun id' => decide (id' ≠ i) := by
      funext id'
      rw [hm]
      exact decide_eq_decide.2 ⟨fun h hi => h (hi ▸ rfl), fun h hi => h (Option.some.inj hi).symm⟩
    rw [hf]
    exact hp v

/-- A worker works on one message, and then no more on that one. -/
theorem spec_process {w : Worker} {message : ClaimedMessage ν} (hid : message.id ∈ ids) :
    (process w message : Working ρ ν Unit).Spec Narrows Works
      (fun _ ids' => ids' = ids.filter fun id => id ≠ message.id) ids := by
  have hstay : ids.filter (fun id => decide ((none : Option Nat) ≠ some id)) = ids :=
    List.filter_eq_self.2 fun _ _ => by simp
  unfold process
  split
  · refine Fallible.spec_bind.2 (spec_query (by nofun) (by rintro id (h | h) <;> cases h) fun duplicate => ?_)
    rw [show (Call.isProcessed message.name message.id : Call ρ ν).marks = none from rfl, hstay]
    split
    · exact spec_mark (i := message.id) rfl hid fun _ => rfl
    · refine Fallible.spec_bind.2 (meets_attempt.2 ?_)
      rintro r _ rfl
      refine ⟨⟨by nofun, ?_⟩, ?_⟩
      · rintro id (h | h)
        · exact Option.some.inj h ▸ hid
        · cases h
      · rintro a ⟨⟩
        rw [show (Call.handle message : Call ρ ν).marks = none from rfl, hstay]
        cases r with
        | ok v => exact spec_mark (i := message.id) rfl hid fun _ => rfl
        | error error => exact spec_mark (i := message.id) rfl hid fun _ => rfl
  · exact spec_mark (i := message.id) rfl hid fun _ => rfl

/-- Processing a batch handles each of its messages once. -/
theorem spec_processAll {w : Worker} {messages : List (ClaimedMessage ν)}
    (hn : (messages.map ClaimedMessage.id).Nodup)
    (hids : ∀ message ∈ messages, message.id ∈ ids) :
    (messages.forM (process w) : Working ρ ν PUnit).Spec Narrows Works (fun _ _ => True) ids := by
  induction messages generalizing ids with
  | nil => exact Fallible.spec_pure.2 trivial
  | cons message messages ih =>
      change (process w message >>= fun _ => messages.forM (process w)).Spec Narrows Works _ _
      obtain ⟨hne, hn⟩ := List.nodup_cons.1 hn
      obtain ⟨hid, hids⟩ := List.forall_mem_cons.1 hids
      refine Fallible.spec_bind.2 ((spec_process hid).imp ?_)
      rintro _ _ rfl
      refine ih hn fun m hm => List.mem_filter.2 ⟨hids m hm, ?_⟩
      exact decide_eq_true fun he => hne (he ▸ List.mem_map_of_mem hm)

/-- Decoding keeps the ids. -/
theorem ids_of_mapM_decode {rows : List (ClaimedMessage ρ)} {messages : List (ClaimedMessage ν)}
    (h : rows.mapM (ClaimedMessage.decode column) = .ok messages) :
    messages.map ClaimedMessage.id = rows.map ClaimedMessage.id := by
  induction rows generalizing messages with
  | nil =>
      cases h
      rfl
  | cons row rows ih =>
      rw [List.mapM_cons, ClaimedMessage.decode] at h
      cases hp : column.decode row.payload with
      | error e =>
          rw [hp] at h
          cases h
      | ok payload =>
          cases hr : rows.mapM (ClaimedMessage.decode column) with
          | error e =>
              rw [hp, hr] at h
              cases h
          | ok rest =>
              rw [hp, hr] at h
              cases h
              rw [List.map_cons, List.map_cons, ih hr]

/-- What is left of an iteration after its claim. -/
theorem spec_claimed (column : Column ρ ν) (w : Worker) {rows : List (ClaimedMessage ρ)}
    (hn : (rows.map ClaimedMessage.id).Nodup) :
    (liftExcept (rows.mapM (ClaimedMessage.decode column)) >>= fun messages => do
        messages.forM (process w)
        return messages.length : Working ρ ν Nat).Spec Narrows Works (fun _ _ => True)
      (rows.map ClaimedMessage.id) := by
  rw [Fallible.spec_bind, Fallible.spec_liftExcept]
  intro messages hm
  have hids := ids_of_mapM_decode hm
  rw [Fallible.spec_bind]
  refine (spec_processAll (hids ▸ hn) fun message hmem => ?_).imp fun _ _ _ => ?_
  · exact hids ▸ List.mem_map_of_mem hmem
  · exact Fallible.spec_pure.2 trivial

end Work

/-! ### Runs -/

section Run

variable {column : Column ρ ν} {allow : Workers ρ ν → Nat → Prop} {cfg cfg' : Workers ρ ν}
  {lockTimeout : Int}

/-- A worker first claims its batch. -/
theorem serve_runOnce (w : Worker) : serve column (.runOnce w : Request ν) =
    Program.call (Call.claim w) fun r => (liftExcept r >>= fun rows =>
      liftExcept (rows.mapM (ClaimedMessage.decode column)) >>= fun messages => do
        messages.forM (process w)
        return messages.length : Working ρ ν Nat).run := by
  rw [serve, runOnce, claim, bind_assoc, fallible_bind_eq]
  refine congrArg (Program.call (Call.claim w)) (funext ?_)
  rintro (error | rows) <;> rfl

/-- An iteration is at its start, or works on messages that it holds. -/
def AtWork (column : Column ρ ν) (f : Iteration ρ ν) : Prop :=
  (f.rest = serve column f.request ∧ f.log = []) ∨
    ∃ ids, Meets Narrows Works (fun _ _ => True) f.rest ids ∧
      ∀ id ∈ ids, ∃ attempt since, Holds f.log id attempt since

/-- What the next call of an iteration is. -/
theorem AtWork.next {q : Request ν} {c : Call ρ ν} {next} {log : Log ρ ν}
    (h : AtWork column ⟨q, .call c next, log⟩) (r : c.Reply) :
    (log = [] ∧ .call c next = serve column q) ∨
      c.ClaimsNothing ∧ ∀ id, c.starts = some id ∨ c.marks = some id →
        ∃ attempt since, Holds log id attempt since := by
  rcases h with ⟨hrest, hlog⟩ | ⟨ids, hm, hids⟩
  · exact Or.inl ⟨hlog, hrest⟩
  · obtain ⟨⟨hc, hw⟩, -⟩ := hm r _ rfl
    exact Or.inr ⟨hc, fun id hid => hids id (hw id hid)⟩

/-- A message stays held until it is settled. -/
theorem Holds.concat {log : Log ρ ν} {id attempt : Nat} {since : Int}
    (h : Holds log id attempt since) {e : Event (Call ρ ν) Call.Reply (Store ρ)}
    (he : ¬settles e id) : Holds (log ++ [e]) id attempt since := by
  obtain ⟨⟨e', hmem, ht⟩, hs⟩ := h
  refine ⟨⟨e', List.mem_append_left _ hmem, ht⟩, fun e' hmem => ?_⟩
  rcases List.mem_append.1 hmem with hmem | hmem
  · exact hs e' hmem
  · exact List.mem_singleton.1 hmem ▸ he

/-- **An iteration works only on messages that it holds.** -/
theorem atWork_of_reaches (hr : Reaches (clockedQueue column) allow cfg cfg')
    (h : cfg.flights = []) : ∀ f ∈ cfg'.flights, AtWork column f := by
  refine hr.flight_invariant (fun q => Or.inl ⟨rfl, rfl⟩) ?_ (by simp [h])
  intro s c r s' q next log fs i hp _ _ _ ha
  have ha : Answer s c r s' := ha
  rcases hp with ⟨hrest, rfl⟩ | ⟨ids, hm, hids⟩
  · cases q with
    | enqueue name payload options =>
        refine Or.inr ⟨[], ?_, by simp⟩
        have hrest : .call c next = serve column (.enqueue name payload options) := hrest
        unfold serve enqueue at hrest
        dsimp only at hrest
        split at hrest
        · cases hrest
        · obtain ⟨rfl, hn⟩ := Program.call.inj hrest
          obtain rfl := eq_of_heq hn
          trivial
    | runOnce w =>
        obtain ⟨rfl, hn⟩ := Program.call.inj (hrest.trans (serve_runOnce w))
        obtain rfl := eq_of_heq hn
        refine Or.inr ?_
        rcases r with error | rows
        · exact ⟨[], trivial, by simp⟩
        · cases ha with
          | answered hl hperf =>
              cases hperf with
              | @claim _ batch hs =>
                  have hids : (batch.map OutboxMessage.claimed).map ClaimedMessage.id =
                      batch.map OutboxMessage.id := by
                    rw [List.map_map]
                    rfl
                  have hspec := spec_claimed column w (hids ▸ hs.nodup)
                  refine ⟨_, Meets.imp hspec fun _ _ _ => trivial, ?_⟩
                  intro id hid
                  rw [hids] at hid
                  refine ⟨(s.claim w (batch.map OutboxMessage.id)).attempts id, s.clock,
                    ⟨_, List.mem_singleton_self _, ⟨?_, rfl⟩, rfl⟩, ?_⟩
                  · dsimp only
                    rw [hs.attempts, if_pos hid]
                    omega
                  · rintro e he ⟨hmark, -⟩
                    obtain rfl := List.mem_singleton.1 he
                    cases hmark
  · obtain ⟨-, hnext⟩ := hm r _ rfl
    refine Or.inr ⟨_, hnext, fun id hid => ?_⟩
    obtain ⟨hid, hne⟩ := List.mem_filter.1 hid
    obtain ⟨attempt, since, hh⟩ := hids id hid
    exact ⟨attempt, since, hh.concat fun hs => of_decide_eq_true hne hs.1⟩

/-- **The attempts of a message tell its claims apart.** -/
theorem one_claim_of_reaches (hr : Reaches (clockedQueue column) allow cfg cfg')
    (h : cfg.flights = []) : Exclusive
      (fun (f : Iteration ρ ν) (n : Nat × Nat) => ∃ e ∈ f.log, takes e n.1 n.2)
      (fun s n => n.2 ≤ s.attempts n.1) cfg' := by
  refine hr.exclusive (by rintro q n ⟨e, he, -⟩; cases he) ?_ ?_ ⟨by simp [h], by simp [h]⟩
  · intro s c r s' q next log fs i _ _ _ ha
    have ha : Answer s c r s' := ha
    have hmono (n : Nat × Nat) (hn : n.2 ≤ s.attempts n.1) : n.2 ≤ s'.attempts n.1 :=
      hn.trans (ha.attempts_le n.1).1
    refine ⟨?_, fun n hn _ => hmono n hn⟩
    rintro n ⟨e, he, ht⟩
    rcases List.mem_append.1 he with he | he
    · exact Or.inl ⟨⟨e, he, ht⟩, hmono n⟩
    · obtain rfl := List.mem_singleton.1 he
      obtain ⟨hlt, heq⟩ := ht
      dsimp only at hlt heq
      exact Or.inr ⟨by omega, heq.ge⟩
  · rintro s s' n ⟨clock, link, -, rfl⟩ hn
    exact hn

/-- What the holder of a message relies on: either its claim is the last one, so that
the message is not processed and locked since then, or it has lost the message to
time. -/
def Leased (lockTimeout : Int) (f : Iteration ρ ν) (s : Store ρ) : Prop :=
  ∀ id attempt since, Holds f.log id attempt since →
    ∃ m, s.outbox.get id = some m ∧ attempt ≤ m.attempts ∧
      (attempt = m.attempts → m.processedAt = none ∧ m.lockedAt = some since) ∧
      (attempt = m.attempts ∨ since + lockTimeout ≤ s.clock)

/-- A claim waits until a lock has run out. -/
theorem OutboxMessage.since_le_of_claimable {m : OutboxMessage ρ} {now since : Int}
    (h : m.claimable now (now - lockTimeout) = true) (hl : m.lockedAt = some since) :
    since + lockTimeout ≤ now := by
  simp only [claimable, Bool.and_eq_true, hl, Option.all_some, decide_eq_true_eq] at h
  omega

/-- What is claimable was not processed. -/
theorem OutboxMessage.processedAt_of_claimable {m : OutboxMessage ρ} {now staleBefore : Int}
    (h : m.claimable now staleBefore = true) : m.processedAt = none := by
  simp only [claimable, Bool.and_eq_true, Option.isNone_iff_eq_none] at h
  exact h.1.1.1

/-- The claim by which an iteration works on a message is the last one, when its call
is prompt. -/
theorem Prompt.last {s : Store ρ} {fs : List (Iteration ρ ν)} {i : Nat} {q : Request ν}
    {c : Call ρ ν} {next} {log : Log ρ ν} (hp : Prompt lockTimeout ⟨s, fs⟩ i)
    (hi : fs[i]? = some ⟨q, .call c next, log⟩) (hw : AtWork column ⟨q, .call c next, log⟩)
    (r : c.Reply) {id : Nat} (hc : c.starts = some id ∨ c.marks = some id) :
    ∃ since, Holds log id (s.attempts id) since := by
  rcases hw.next r with ⟨rfl, hserve⟩ | ⟨-, hholds⟩
  · cases q with
    | enqueue name payload options =>
        unfold serve enqueue at hserve
        dsimp only at hserve
        split at hserve
        · cases hserve
        · obtain ⟨rfl, -⟩ := Program.call.inj hserve
          rcases hc with hc | hc <;> cases hc
    | runOnce w =>
        obtain ⟨rfl, -⟩ := Program.call.inj (hserve.trans (serve_runOnce w))
        rcases hc with hc | hc <;> cases hc
  · obtain ⟨attempt, since, hh⟩ := hholds id hc
    obtain ⟨e, he, ht, -⟩ := hh.1
    obtain rfl := hp.2 q c next log hi id hc e he attempt ht
    exact ⟨since, hh⟩

/-- **A prompt call leaves the messages of the others.**  Where another iteration
holds a message by the last claim, the call records no end of it. -/
theorem Prompt.marks_ne {s : Store ρ} {fs : List (Iteration ρ ν)} {i j : Nat} {q : Request ν}
    {c : Call ρ ν} {next} {log : Log ρ ν} {g : Iteration ρ ν}
    (hp : Prompt lockTimeout ⟨s, fs⟩ i) (hi : fs[i]? = some ⟨q, .call c next, log⟩)
    (hw : AtWork column ⟨q, .call c next, log⟩) (r : c.Reply)
    (hx : Exclusive (fun (f : Iteration ρ ν) (n : Nat × Nat) => ∃ e ∈ f.log, takes e n.1 n.2)
      (fun s n => n.2 ≤ s.attempts n.1) ⟨s, fs⟩)
    (hj : fs[j]? = some g) (hji : j ≠ i) {id : Nat} {since : Int}
    (hh : Holds g.log id (s.attempts id) since) : c.marks ≠ some id := by
  intro hc
  obtain ⟨_, ⟨⟨e, he, ht, -⟩, -⟩⟩ := hp.last hi hw r (Or.inr hc)
  obtain ⟨⟨e', he', ht', -⟩, -⟩ := hh
  exact hji (hx.unique j i g _ (id, s.attempts id) hj hi ⟨e', he', ht'⟩ ⟨e, he, ht⟩)

/-- **Whoever holds a message holds its lock, or has lost it to time.** -/
theorem leased_of_reaches (hr : Reaches (clockedQueue column) (Prompt lockTimeout) cfg cfg')
    (h : cfg.flights = []) : ∀ f ∈ cfg'.flights, Leased lockTimeout f cfg'.store := by
  refine (hr.rely (I := fun _ => True) (K := Leased lockTimeout) ?_ ?_ ?_ trivial (by simp [h])).2
  · rintro q s - id attempt since ⟨⟨e, he, -⟩, -⟩
    cases he
  · intro s c r s' q next log fs i hr₁ hp hi ha _ hown
    have ha : Answer s c r s' := ha
    have hwork := atWork_of_reaches hr₁ h _ (List.mem_of_getElem? hi)
    refine ⟨trivial, ?_, ?_⟩
    · rintro id attempt since ⟨⟨e, he, ht, hsince⟩, hsettles⟩
      have hnot : ¬settles (⟨s, c, r, s'⟩ : Event (Call ρ ν) Call.Reply (Store ρ)) id :=
        hsettles _ (List.mem_append_right _ (List.mem_singleton_self _))
      rcases List.mem_append.1 he with he | he
      · -- A message that the iteration has claimed before: it claims no more.
        obtain ⟨m, hm, hle, hlast, htime⟩ := hown id attempt since
          ⟨⟨e, he, ht, hsince⟩, fun e' he' => hsettles e' (List.mem_append_left _ he')⟩
        obtain ⟨m', hm', hrow⟩ := ha.rowChange hm
        rw [ha.clock_eq]
        cases hrow with
        | same => exact ⟨m, hm', hle, hlast, htime⟩
        | claimed w hc =>
            rcases hwork.next r with ⟨rfl, -⟩ | ⟨hclaim, -⟩
            · cases he
            · exact absurd hc (hclaim w)
        | completed hc hl => exact absurd ⟨Outbox.id_of_get hm ▸ hc, hl⟩ hnot
        | failed hc hl => exact absurd ⟨Outbox.id_of_get hm ▸ hc, hl⟩ hnot
      · obtain rfl := List.mem_singleton.1 he
        obtain rfl : s.clock = since := hsince
        obtain ⟨w, m, -, hm, rfl, hclaim, hm'⟩ := ha.takes ht
        have hopen : (m.claim w s.clock).processedAt = none :=
          (OutboxMessage.processedAt_of_claimable hclaim :)
        exact ⟨_, hm', Nat.le_refl _, fun _ => ⟨hopen, rfl⟩, Or.inl rfl⟩
    · intro j g hji hj hother id attempt since hh
      obtain ⟨m, hm, hle, hlast, htime⟩ := hother id attempt since hh
      obtain ⟨m', hm', hrow⟩ := ha.rowChange hm
      rw [ha.clock_eq]
      have hmark (hc : c.marks = some m.id) : attempt ≠ m.attempts := by
        rintro rfl
        rw [← Store.attempts_of_get hm] at hh
        exact hp.marks_ne hi hwork r (one_claim_of_reaches hr₁ h) hj hji hh
          (Outbox.id_of_get hm ▸ hc)
      cases hrow with
      | same => exact ⟨m, hm', hle, hlast, htime⟩
      | claimed w hc hclaim =>
          subst hc
          have hw := hp.1 q w next log hi
          rw [hw] at hclaim
          refine ⟨_, hm', hle.trans (Nat.le_succ _), ?_, Or.inr ?_⟩
          · intro he
            have he : attempt = m.attempts + 1 := he
            omega
          · rcases htime with heq | htime
            · exact OutboxMessage.since_le_of_claimable hclaim (hlast heq).2
            · exact htime
      | completed hc hl =>
          exact ⟨_, hm', hle, fun he => absurd he (hmark hc), htime⟩
      | failed hc hl =>
          exact ⟨_, hm', hle, fun he => absurd he (hmark hc), htime⟩
  · rintro s s' ⟨clock, link, hle, rfl⟩ -
    refine ⟨trivial, fun f hf id attempt since hh => ?_⟩
    obtain ⟨m, hm, hattempt, hlast, htime⟩ := hf id attempt since hh
    exact ⟨m, hm, hattempt, hlast, htime.imp_right fun ht => ht.trans hle⟩

/-- **Leases are exclusive among prompt workers.**  In every run in which the workers
start and end the messages they have claimed before they are claimed again, no
worker claims, unlocks or locks a message that another one has claimed less than
`lockTimeout` ago, and nobody claims a processed message or starts its handler. -/
theorem leases_exclusive {s : Store ρ}
    (hr : Reaches (clockedQueue column) (Prompt lockTimeout) ⟨s, []⟩ cfg) :
    LeasesExclusive column lockTimeout (Prompt lockTimeout) cfg := by
  intro j q c next log r s' hj hp ha
  have ha : Answer cfg.store c r s' := ha
  have hleased := leased_of_reaches hr rfl
  have hwork := atWork_of_reaches hr rfl _ (List.mem_of_getElem? hj)
  constructor
  · intro f hf hne id attempt since hh hlt
    dsimp only at hne hlt
    obtain ⟨i, hi⟩ := List.mem_iff_getElem?.1 hf
    have hij : i ≠ j := by
      rintro rfl
      exact hne (congrArg (fun f => f.request.workerId) (Option.some.inj (hi.symm.trans hj)))
    obtain ⟨m, hm, -, hlast, htime⟩ := hleased f hf id attempt since hh
    obtain rfl : attempt = m.attempts := by
      rcases htime with heq | htime
      · exact heq
      · omega
    obtain ⟨-, hlock⟩ := hlast rfl
    have hkept (w : Worker) (hc : c = .claim w)
        (hclaim : m.claimable cfg.store.clock
          (cfg.store.clock - w.config.lockTimeoutSeconds) = true) : False := by
      subst hc
      rw [hp.1 q w next log hj] at hclaim
      have := OutboxMessage.since_le_of_claimable hclaim hlock
      omega
    refine ⟨fun attempt' ht => ?_, ?_⟩
    · obtain ⟨w, m', hc, hm', -, hclaim, -⟩ := ha.takes ht
      obtain rfl := Option.some.inj (hm.symm.trans hm')
      exact hkept w hc hclaim
    · obtain ⟨m', hm', hrow⟩ := ha.rowChange hm
      have hmark : c.marks ≠ some m.id := by
        rw [← Store.attempts_of_get hm] at hh
        rw [Outbox.id_of_get hm]
        exact hp.marks_ne hj hwork r (one_claim_of_reaches hr rfl) hi hij hh
      dsimp only
      rw [Store.lock_of_get hm, Store.lock_of_get hm']
      cases hrow with
      | same => rfl
      | claimed w hc hclaim => exact (hkept w hc hclaim).elim
      | completed hc hl => exact absurd hc hmark
      | failed hc hl => exact absurd hc hmark
  · intro id m hm hprocessed
    refine ⟨fun attempt ht => ?_, fun hs => ?_⟩
    · obtain ⟨w, m', -, hm', -, hclaim, -⟩ := ha.takes ht
      obtain rfl := Option.some.inj (hm.symm.trans hm')
      exact hprocessed (OutboxMessage.processedAt_of_claimable hclaim)
    · obtain ⟨since, hh⟩ := hp.last hj hwork r (Or.inl hs)
      obtain ⟨m', hm', -, hlast, -⟩ := hleased _ (List.mem_of_getElem? hj) id _ since hh
      obtain rfl := Option.some.inj (hm.symm.trans hm')
      exact hprocessed (hlast (Store.attempts_of_get hm)).1

end Run

/-! ### Schedules -/

instance (e : Event (Call ρ ν) Call.Reply (Store ρ)) (id attempt : Nat) :
    Decidable (takes e id attempt) :=
  inferInstanceAs (Decidable (_ ∧ _))

instance (e : Event (Call ρ ν) Call.Reply (Store ρ)) (id : Nat) : Decidable (settles e id) :=
  inferInstanceAs (Decidable (_ ∧ _))

instance (log : Log ρ ν) (id attempt : Nat) (since : Int) :
    Decidable (Holds log id attempt since) :=
  inferInstanceAs (Decidable (_ ∧ _))

/-- Workers whose clock goes on by so many seconds. -/
def clockedMachine (column : Column ρ ν) : Machine (Request ν) (Call ρ ν) Call.Reply
    (Except String Nat) (Store ρ) (Except String Unit) (Nat × Link) where
  toSite := clockedQueue column
  choose := (machine column).choose
  choose_sound := (machine column).choose_sound
  shift d s := { s with clock := s.clock + d.1, link := d.2 }
  shift_sound d s := ⟨s.clock + d.1, d.2, by omega, rfl⟩

/-- Whether the next call of a worker, a claim say, keeps the common timeout. -/
def keepsTimeout (lockTimeout : Int) (cfg : Workers ρ ν) (j : Nat) : Bool :=
  match cfg.flights[j]? with
  | some ⟨_, .call (.claim w) _, _⟩ => decide (w.config.lockTimeoutSeconds = lockTimeout)
  | _ => true

/-- The tests of the machine, as properties. -/
theorem timeout_of_keepsTimeout {lockTimeout : Int} {cfg : Workers ρ ν} {j : Nat}
    (h : keepsTimeout lockTimeout cfg j = true) : Timeout lockTimeout cfg j := by
  intro q w next log hj
  simpa [keepsTimeout, hj] using h

/-- Whether the next call of a worker is prompt. -/
def promptCall (lockTimeout : Int) (cfg : Workers ρ ν) (j : Nat) : Bool :=
  keepsTimeout lockTimeout cfg j &&
    match cfg.flights[j]? with
    | some ⟨_, .call c _, log⟩ =>
        (c.starts.toList ++ c.marks.toList).all fun id =>
          log.all fun e => e.before.attempts id == e.after.attempts id ||
            e.after.attempts id == cfg.store.attempts id
    | _ => true

theorem prompt_of_promptCall {lockTimeout : Int} {cfg : Workers ρ ν} {j : Nat}
    (h : promptCall lockTimeout cfg j = true) : Prompt lockTimeout cfg j := by
  obtain ⟨htimeout, h⟩ := Bool.and_eq_true_iff.1 h
  refine ⟨timeout_of_keepsTimeout htimeout, fun q c next log hj id hc e he attempt ht => ?_⟩
  simp only [hj, List.all_eq_true] at h
  have hid : id ∈ c.starts.toList ++ c.marks.toList := by
    rcases hc with hc | hc <;> simp [hc]
  obtain ⟨hlt, rfl⟩ := ht
  have := h id hid e he
  simp only [Bool.or_eq_true, beq_iff_eq] at this
  omega

/-- Two workers of the search index, and how long they lock a message. -/
def slow : Worker := ⟨"slow", ["search.index"], ⟨1, 30⟩⟩

def quick : Worker := ⟨"quick", ["search.index"], ⟨1, 30⟩⟩

/-- A message that may be tried three times. -/
def thrice : Request String := .enqueue "search.index" "a" ⟨none, 3⟩

/-- The slow worker is done in time, and the quick one finds nothing to claim. -/
theorem leases_exclusive_in_time : ∃ cfg : Workers String String,
    Reaches (clockedQueue Postgres.column) (Prompt 30) ⟨firstStart, []⟩ cfg ∧
      (∃ f ∈ cfg.flights, Holds f.log 0 1 0) ∧ cfg.flights.length = 3 ∧
      LeasesExclusive Postgres.column 30 (Prompt 30) cfg := by
  have hplay : ((clockedMachine Postgres.column).play (promptCall 30) ⟨firstStart, []⟩
      [.arrive thrice, .call 0 (.ok ()), .arrive (.runOnce slow), .call 1 (.ok ()),
        .drift (20, .up), .arrive (.runOnce quick), .call 2 (.ok ()), .call 1 (.ok ())]).any
      (fun cfg => decide ((∃ f ∈ cfg.flights, Holds f.log 0 1 0) ∧ cfg.flights.length = 3)) =
        true := by decide +kernel
  obtain ⟨cfg, hr, hc⟩ := Machine.exists_of_play (Prompt 30)
    (fun cfg i => prompt_of_promptCall) hplay
  obtain ⟨hf, hlen⟩ := of_decide_eq_true hc
  exact ⟨cfg, hr, hf, hlen, leases_exclusive hr⟩

/-- Where leases are exclusive, the next call of a schedule respects them. -/
theorem LeasesExclusive.respects {column : Column ρ ν} {lockTimeout : Int}
    {allow : Workers ρ ν → Nat → Prop} {cfg cfg' : Workers ρ ν} {j : Nat} {k : Except String Unit}
    (h : LeasesExclusive column lockTimeout allow cfg) (ha : allow cfg j)
    (hm : (clockedMachine column).move (fun _ _ => true) cfg (.call j k) = some cfg') :
    ∃ f ∈ cfg.flights[j]?, ∃ f' ∈ cfg'.flights[j]?, ∃ e ∈ f'.log.getLast?,
      e.before = cfg.store ∧ e.after = cfg'.store ∧ Respects lockTimeout cfg f e := by
  obtain ⟨q, c, next, log, r, s', hj, -, hc, rfl⟩ := Machine.call_of_move hm
  refine ⟨_, hj, _, List.getElem?_set_self (List.getElem?_eq_some_iff.1 hj).1, _,
    List.getLast?_concat, rfl, rfl, h j q c next log r s' hj ha hc⟩

/-- The next call of the slow worker, at position 1, changes the lock of the message,
which the quick one has claimed at 31. -/
def BreaksLock (cfg cfg' : Workers String String) : Prop :=
  keepsTimeout 30 cfg 1 = true ∧ cfg.store.clock < 31 + 30 ∧
    cfg.store.lock 0 ≠ cfg'.store.lock 0 ∧
    (cfg.flights[1]?.any fun g => decide (∃ f ∈ cfg.flights,
      f.request.workerId ≠ g.request.workerId ∧ Holds f.log 0 2 31)) = true

/-- The next call of the slow worker, at position 1, starts the handler of the
message, which has been processed. -/
def StartsProcessed (cfg cfg' : Workers String String) : Prop :=
  keepsTimeout 30 cfg 1 = true ∧
    (cfg.store.outbox.get 0).any (fun m => m.processedAt.isSome) = true ∧
    (cfg'.flights[1]?.any fun f => f.log.getLast?.any fun e => e.call.starts == some 0) = true

instance (cfg cfg' : Workers String String) : Decidable (BreaksLock cfg cfg') :=
  inferInstanceAs (Decidable (_ ∧ _))

instance (cfg cfg' : Workers String String) : Decidable (StartsProcessed cfg cfg') :=
  inferInstanceAs (Decidable (_ ∧ _))

/-- **A late worker breaks the lease of another.**  The slow worker claims a message
and looks it up; half a minute later the quick one claims it.  The handler of the slow
worker fails, and its report clears the lock of the quick one; or the quick worker is
done first, and then the slow one starts the handler of a processed message. -/
theorem late_worker_breaks_lease :
    (∃ cfg : Workers String String,
      Reaches (clockedQueue Postgres.column) (Timeout 30) ⟨firstStart, []⟩ cfg ∧
        ¬LeasesExclusive Postgres.column 30 (Timeout 30) cfg ∧
        cfg.store.lock 0 = (some 31, some "quick")) ∧
    ∃ cfg : Workers String String,
      Reaches (clockedQueue Postgres.column) (Timeout 30) ⟨firstStart, []⟩ cfg ∧
        ¬LeasesExclusive Postgres.column 30 (Timeout 30) cfg ∧
        (cfg.store.outbox.get 0).any (fun m => m.processedAt.isSome) = true := by
  constructor
  · have hplay : ((clockedMachine Postgres.column).play (keepsTimeout 30) ⟨firstStart, []⟩
        [.arrive thrice, .call 0 (.ok ()), .arrive (.runOnce slow), .call 1 (.ok ()),
          .call 1 (.ok ()), .drift (31, .up), .arrive (.runOnce quick), .call 2 (.ok ()),
          .call 1 (.error "planned failure")]).any
        (fun cfg => decide (cfg.store.lock 0 = (some 31, some "quick")) &&
          ((clockedMachine Postgres.column).move (fun _ _ => true) cfg (.call 1 (.ok ()))).any
            fun cfg' => decide (BreaksLock cfg cfg')) = true := by decide +kernel
    obtain ⟨cfg, hr, hc⟩ := Machine.exists_of_play (Timeout 30)
      (fun cfg i => timeout_of_keepsTimeout) hplay
    obtain ⟨hlock, hc⟩ := Bool.and_eq_true_iff.1 hc
    obtain ⟨cfg', hm, hbreak⟩ := (Option.any_eq_true _ _).1 hc
    refine ⟨cfg, hr, fun h => ?_, of_decide_eq_true hlock⟩
    obtain ⟨htimeout, hclock, hne, hheld⟩ := of_decide_eq_true hbreak
    obtain ⟨g, hg, f', -, e, -, hbefore, hafter, hrespects⟩ :=
      h.respects (timeout_of_keepsTimeout htimeout) hm
    rw [Option.mem_def.1 hg, Option.any_some] at hheld
    obtain ⟨f, hf, hworker, hholds⟩ := of_decide_eq_true hheld
    have := (hrespects.leased f hf hworker 0 2 31 hholds (hbefore ▸ hclock)).2
    rw [hbefore, hafter] at this
    exact hne this.symm
  · have hplay : ((clockedMachine Postgres.column).play (keepsTimeout 30) ⟨firstStart, []⟩
        [.arrive thrice, .call 0 (.ok ()), .arrive (.runOnce slow), .call 1 (.ok ()),
          .call 1 (.ok ()), .drift (31, .up), .arrive (.runOnce quick), .call 2 (.ok ()),
          .call 2 (.ok ()), .call 2 (.ok ()), .call 2 (.ok ())]).any
        (fun cfg => (cfg.store.outbox.get 0).any (fun m => m.processedAt.isSome) &&
          ((clockedMachine Postgres.column).move (fun _ _ => true) cfg (.call 1 (.ok ()))).any
            fun cfg' => decide (StartsProcessed cfg cfg')) = true := by decide +kernel
    obtain ⟨cfg, hr, hc⟩ := Machine.exists_of_play (Timeout 30)
      (fun cfg i => timeout_of_keepsTimeout) hplay
    obtain ⟨hprocessed, hc⟩ := Bool.and_eq_true_iff.1 hc
    obtain ⟨cfg', hm, hstarts⟩ := (Option.any_eq_true _ _).1 hc
    refine ⟨cfg, hr, fun h => ?_, hprocessed⟩
    obtain ⟨htimeout, hdone, hstarts⟩ := of_decide_eq_true hstarts
    obtain ⟨g, -, f', hf', e, he, hbefore, -, hrespects⟩ :=
      h.respects (timeout_of_keepsTimeout htimeout) hm
    rw [Option.mem_def.1 hf', Option.any_some, Option.mem_def.1 he, Option.any_some,
      beq_iff_eq] at hstarts
    obtain ⟨m, hget, hsome⟩ := (Option.any_eq_true _ _).1 hdone
    refine (hrespects.processed 0 m (hbefore ▸ hget) ?_).2 hstarts
    rintro hnone
    rw [hnone] at hsome
    cases hsome

end Jobs
end Hegira
