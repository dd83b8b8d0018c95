/-
# No durable job is dropped untried

An attempt is charged to every message of a batch when it is claimed; the messages
are tried later, one by one.  In every run of any number of producers and workers
the attempts of a message are those the iterations have charged
(`Reaches.attempts_le_countP`), one each at most (`Reaches.added_le`), and no more
than the message may have (`Reaches.attempts_bounded`).

That an iteration tries what it has charged (`Reaches.allTried`) holds as long as
the database fails only where the iteration can bear it (`Undisturbed`): before the
claim, or at the record of the last message.  A failure anywhere else ends the
iteration, and the rest of its batch keeps the charge
(`failed_lookup_drops_message`).
-/

import Hegira.Jobs.Queue
import Hegira.Library.Interleaving

namespace Hegira
namespace Jobs

variable {ρ ν : Type}

inductive Request (ν : Type) where
  | enqueue (name : String) (payload : ν) (options : DurableJobOptions)
  | runOnce (w : Worker)

def serve (column : Column ρ ν) : Request ν → Program (Call ρ ν) Call.Reply (Except String Nat)
  | .enqueue name payload options => (enqueue column name payload options).run
  | .runOnce w => (runOnce column w).run

/-- Producers and workers. -/
def queue (column : Column ρ ν) :
    Site (Request ν) (Call ρ ν) Call.Reply (Except String Nat) (Store ρ) where
  serve := serve column
  answer := Answer
  drift := Drifts

abbrev Log (ρ ν : Type) := List (Event (Call ρ ν) Call.Reply (Store ρ))

abbrev Iteration (ρ ν : Type) :=
  Flight (Request ν) (Call ρ ν) Call.Reply (Except String Nat) (Store ρ)

abbrev Workers (ρ ν : Type) :=
  Config (Request ν) (Call ρ ν) Call.Reply (Except String Nat) (Store ρ)

/-! ### The attempts of a message -/

/-- The attempts that have been charged to a message. -/
def Store.attempts (s : Store ρ) (id : Nat) : Nat :=
  (s.outbox.get id).elim 0 OutboxMessage.attempts

/-- An update that keeps the attempts of every message keeps them all. -/
theorem Store.attempts_of_update {s s' : Store ρ} {ids : List Nat}
    (f : OutboxMessage ρ → OutboxMessage ρ) (hf : ∀ m, (f m).id = m.id)
    (hs : s'.outbox = s.outbox.update ids f hf) (ha : ∀ m, (f m).attempts = m.attempts)
    (id : Nat) : s'.attempts id = s.attempts id := by
  rw [attempts, attempts, hs, Outbox.get_update hf]
  cases s.outbox.get id with
  | none => rfl
  | some m =>
      rw [Option.map_some, Option.elim_some, Option.elim_some]
      split
      · exact ha m
      · rfl

/-- A claim changes the messages it names. -/
theorem Store.get_claim {s : Store ρ} {w : Worker} {ids : List Nat} {id : Nat} :
    (s.claim w ids).outbox.get id =
      (s.outbox.get id).map fun m => if id ∈ ids then m.claim w s.clock else m :=
  Outbox.get_update (f := OutboxMessage.claim w s.clock) fun _ => rfl

/-- The ids of a batch are different, and those of claimable messages. -/
theorem Store.Selects.nodup {s : Store ρ} {w : Worker} {batch : List (OutboxMessage ρ)}
    (h : s.Selects w batch) : (batch.map OutboxMessage.id).Nodup := by
  obtain ⟨sorted, hp, -, hb⟩ := h
  have h₁ : ((s.candidates w).map OutboxMessage.id).Sublist
      (s.outbox.messages.map OutboxMessage.id) := List.filter_sublist.map _
  have h₂ : ((sorted.take w.config.batchSize).map OutboxMessage.id).Sublist
      (sorted.map OutboxMessage.id) := (List.take_sublist _ _).map _
  rw [(hb.map _).nodup_iff]
  exact h₂.nodup ((hp.map _).nodup_iff.2 (h₁.nodup s.outbox.primaryKey))

/-- What is selected was claimable. -/
theorem Store.Selects.claimable {s : Store ρ} {w : Worker} {batch : List (OutboxMessage ρ)}
    (h : s.Selects w batch) {m : OutboxMessage ρ} (hm : m ∈ batch) :
    s.outbox.get m.id = some m ∧
      m.claimable s.clock (s.clock - w.config.lockTimeoutSeconds) = true := by
  obtain ⟨sorted, hp, -, hb⟩ := h
  have := List.mem_filter.1 (hp.mem_iff.1 (List.mem_of_mem_take (hb.mem_iff.1 hm)))
  exact ⟨Outbox.mem_iff_get.1 this.1, this.2⟩

/-- A claim counts one attempt for each message of its batch. -/
theorem Store.Selects.attempts {s : Store ρ} {w : Worker} {batch : List (OutboxMessage ρ)}
    (h : s.Selects w batch) (id : Nat) :
    (s.claim w (batch.map OutboxMessage.id)).attempts id =
      s.attempts id + if id ∈ batch.map OutboxMessage.id then 1 else 0 := by
  simp only [Store.attempts, Store.get_claim]
  split
  · next hid =>
      obtain ⟨m, hm, rfl⟩ := List.mem_map.1 hid
      rw [(h.claimable hm).1]
      rfl
  · next hid =>
      cases s.outbox.get id <;> rfl

/-- Only a claim changes the attempts of messages. -/
theorem Answer.attempts {s s' : Store ρ} {c : Call ρ ν} {r : c.Reply} (h : Answer s c r s') :
    (∀ id, s'.attempts id = s.attempts id) ∨
      ∃ w batch, c = .claim w ∧ s.Selects w batch ∧ s' = s.claim w (batch.map OutboxMessage.id) := by
  have hp : ∀ {c : Call ρ ν} {v : c.Value}, Performs s c v s' →
      (∀ id, s'.attempts id = s.attempts id) ∨
        ∃ w batch, c = .claim w ∧ s.Selects w batch ∧
          s' = s.claim w (batch.map OutboxMessage.id) := by
    intro c v h
    cases h with
    | inserted hid hkey =>
        refine Or.inl fun id => ?_
        simp only [Store.attempts, Outbox.get_insert]
        split
        · next h =>
            subst h
            rw [hid]
            rfl
        · rfl
    | conflict => exact Or.inl fun _ => rfl
    | claim hs => exact Or.inr ⟨_, _, rfl, hs, rfl⟩
    | isProcessed => exact Or.inl fun _ => rfl
    | markCompleted =>
        exact Or.inl (Store.attempts_of_update (OutboxMessage.complete _) (fun _ => rfl) rfl
          fun _ => rfl)
    | markFailed =>
        exact Or.inl (Store.attempts_of_update (OutboxMessage.fail _ _ _) (fun _ => rfl) rfl
          fun _ => rfl)
  cases h with
  | handled => exact Or.inl fun _ => rfl
  | answered hl h => exact hp h
  | failed => exact Or.inl fun _ => rfl
  | lost hl h => exact hp h

/-- A call counts at most one attempt of a message. -/
theorem Answer.attempts_le {s s' : Store ρ} {c : Call ρ ν} {r : c.Reply} (h : Answer s c r s')
    (id : Nat) : s.attempts id ≤ s'.attempts id ∧ s'.attempts id ≤ s.attempts id + 1 := by
  rcases h.attempts with heq | ⟨w, batch, -, hs, rfl⟩
  · rw [heq]
    omega
  · rw [hs.attempts]
    split <;> omega

/-! ### What a worker has done so far -/

/-- The call is the start of the handler of a message. -/
def Call.starts : Call ρ ν → Option Nat
  | .handle message => some message.id
  | _ => none

/-- The call records the end of a message. -/
def Call.marks : Call ρ ν → Option Nat
  | .markCompleted messageId _ => some messageId
  | .markFailed message _ => some message.id
  | _ => none

/-- The worker has charged an attempt to the message. -/
def charged (log : Log ρ ν) (id : Nat) : Bool :=
  log.any fun e => e.before.attempts id < e.after.attempts id

/-- The worker has started the handler of the message. -/
def started (log : Log ρ ν) (id : Nat) : Bool := log.any fun e => e.call.starts == some id

/-- The worker has started the handler of the message, or has recorded its end. -/
def tried (log : Log ρ ν) (id : Nat) : Bool :=
  log.any fun e =>
    e.call.starts == some id || e.call.marks == some id && e.before.link != .down

/-- The messages that a call has claimed. -/
def claimed : Event (Call ρ ν) Call.Reply (Store ρ) → List Nat
  | ⟨_, .claim _, .ok rows, _⟩ => rows.map ClaimedMessage.id
  | _ => []

/-- The messages that the first call of the iteration has claimed. -/
def claimedIds (log : Log ρ ν) : List Nat := log.head?.elim [] claimed

/-- An end can be recorded: the database is up; or it fails at the last message of
the batch, after its handler has been started or with the record made. -/
def Marking (s : Store ρ) (log : Log ρ ν) (id : Nat) : Prop :=
  s.link = .up ∨
    (claimedIds log).getLast? = some id ∧ (s.link = .down → started log id = true)

/-- The database does not fail where an iteration cannot bear it, and the payloads
that a claim returns decode. -/
def Undisturbed (column : Column ρ ν) (s : Store ρ) (log : Log ρ ν) : Call ρ ν → Prop
  | .claim w => ∀ batch, s.Selects w batch → (s.link = .lost → batch = []) ∧
      (s.link = .up → ∀ m ∈ batch, ∃ payload, column.decode m.payload = .ok payload)
  | .isProcessed _ _ => s.link = .up
  | .markCompleted messageId _ => Marking s log messageId
  | .markFailed message _ => Marking s log message.id
  | _ => True

section Contract

variable {column : Column ρ ν} {log : Log ρ ν} {e : Event (Call ρ ν) Call.Reply (Store ρ)}
  {id : Nat} {ids : List Nat}

/-- A call of a worker, as it hears of it. -/
abbrev HeardUndisturbed (column : Column ρ ν) (log : Log ρ ν) (c : Call ρ ν) (r : c.Reply)
    (log' : Log ρ ν) : Prop :=
  ∃ s s', Undisturbed column s log c ∧ Answer s c r s' ∧ log' = log ++ [⟨s, c, r, s'⟩]

/-- What the log tells after one more event. -/
@[simp] theorem charged_concat :
    charged (log ++ [e]) id = (charged log id || e.before.attempts id < e.after.attempts id) := by
  simp [charged]

@[simp] theorem started_concat :
    started (log ++ [e]) id = (started log id || e.call.starts == some id) := by
  simp [started]

@[simp] theorem tried_concat : tried (log ++ [e]) id =
    (tried log id || (e.call.starts == some id ||
      e.call.marks == some id && e.before.link != .down)) := by
  simp [tried]

/-- A started handler has been tried. -/
theorem tried_of_started (h : started log id = true) : tried log id = true := by
  obtain ⟨e, he, hs⟩ := List.any_eq_true.1 h
  exact List.any_eq_true.2 ⟨e, he, by rw [hs]; rfl⟩

/-- Only a claim adds to the claimed messages. -/
theorem claimedIds_concat (h : ∀ w, e.call ≠ .claim w) :
    claimedIds (log ++ [e]) = claimedIds log := by
  cases log with
  | cons e' log => rfl
  | nil =>
      obtain ⟨s, c, r, s'⟩ := e
      cases c with
      | claim w => exact absurd rfl (h w)
      | _ => rfl

/-- What a worker still has to try. -/
structure Remaining (log : Log ρ ν) (ids : List Nat) : Prop where
  left : ∀ id, charged log id = true → tried log id = true ∨ id ∈ ids
  suffix : ids <:+ claimedIds log
  nodup : (claimedIds log).Nodup

/-- A call that claims nothing leaves what remains. -/
theorem Remaining.concat (h : Remaining log ids)
    (ha : Answer e.before e.call e.reply e.after) (hc : ∀ w, e.call ≠ .claim w) :
    Remaining (log ++ [e]) ids := by
  have hcharge : ∀ id, e.after.attempts id = e.before.attempts id := by
    rcases ha.attempts with h | ⟨w, _, hw, -⟩
    · exact h
    · exact absurd hw (hc w)
  have hids : claimedIds (log ++ [e]) = claimedIds log := claimedIds_concat hc
  refine ⟨?_, hids ▸ h.suffix, hids ▸ h.nodup⟩
  intro id hid
  rw [charged_concat, hcharge] at hid
  rcases h.left id (by simpa using hid) with ht | hm
  · exact Or.inl (by rw [tried_concat, ht]; rfl)
  · exact Or.inr hm

/-- The next message has been tried. -/
theorem Remaining.tail (h : Remaining log (id :: ids)) (ht : tried log id = true) :
    Remaining log ids := by
  refine ⟨?_, (List.suffix_cons id ids).trans h.suffix, h.nodup⟩
  intro id' hid
  rcases h.left id' hid with ht' | hm
  · exact Or.inl ht'
  · rcases List.mem_cons.1 hm with rfl | hm
    · exact Or.inl ht
    · exact Or.inr hm

/-- Nothing remains after the last message of the batch. -/
theorem Remaining.eq_nil (h : Remaining log (id :: ids))
    (hl : (claimedIds log).getLast? = some id) : ids = [] := by
  obtain ⟨pre, hp⟩ := h.suffix
  have hnodup : (id :: ids).Nodup := h.suffix.sublist.nodup h.nodup
  rw [← hp, List.getLast?_append] at hl
  cases ids with
  | nil => rfl
  | cons a ids =>
      have hmem : id ∈ a :: ids := by
        have := List.mem_of_getLast? (l := a :: ids) (a := id) (by simpa using hl)
        exact this
      exact absurd hmem (List.nodup_cons.1 hnodup).1

/-- Every message that has been charged has been tried. -/
def AllTried (log : Log ρ ν) : Prop := ∀ id, charged log id = true → tried log id = true

/-- After a step: it has gone well and `ids` remain, or the iteration is over. -/
def After {α : Type} (ids : List Nat) : Except String α → Log ρ ν → Prop
  | .ok _, log => Remaining log ids
  | .error _, log => AllTried log

/-- While the link is up no call fails but the handler. -/
theorem answer_of_up {s s' : Store ρ} {c : Call ρ ν} {r : c.Reply} (h : Answer s c r s')
    (hl : s.link = .up) (hc : ∀ message, c ≠ .handle message) : ∃ v, r = .ok v := by
  cases h with
  | handled message => exact absurd rfl (hc message)
  | answered => exact ⟨_, rfl⟩
  | failed hl' => rw [hl] at hl'; cases hl'
  | lost hl' => rw [hl] at hl'; cases hl'

/-- Recording the end of the next message. -/
theorem meets_mark {c : Call ρ ν} (h : Remaining log (id :: ids)) (hm : c.marks = some id)
    (hu : ∀ s, Undisturbed column s log c → Marking s log id) :
    Meets (HeardUndisturbed column) (fun _ => True) (After ids) (query c).run log := by
  rintro r log' ⟨s, s', hs, ha, rfl⟩
  refine ⟨trivial, ?_⟩
  have hclaim : ∀ w, c ≠ .claim w := by rintro w rfl; cases hm
  have hhandle : ∀ message, c ≠ .handle message := by rintro message rfl; cases hm
  have hrem := h.concat (e := ⟨s, c, r, s'⟩) ha hclaim
  rcases hu s hs with hup | ⟨hlast, hdown⟩
  · obtain ⟨v, rfl⟩ := answer_of_up ha hup hhandle
    exact hrem.tail (by simp [hm, hup])
  · have ht : tried (log ++ [⟨s, c, r, s'⟩]) id = true := by
      cases hl : s.link with
      | down => rw [tried_concat, tried_of_started (hdown hl)]; rfl
      | _ => simp [hm, hl]
    have htail := hrem.tail ht
    obtain rfl := h.eq_nil hlast
    rcases r with e | v
    · intro id' hid
      rcases htail.left id' hid with ht' | hn
      · exact ht'
      · cases hn
    · exact htail

/-- **A worker tries the next message, and fails only when none is left.** -/
theorem meets_process {w : Worker} {message : ClaimedMessage ν}
    (h : Remaining log (message.id :: ids)) :
    Meets (HeardUndisturbed column) (fun _ => True) (After ids) (process w message).run log := by
  unfold process
  split
  · rw [meets_fallible_bind]
    rintro r log' ⟨s, s', hs, ha, rfl⟩
    refine ⟨trivial, ?_⟩
    obtain ⟨duplicate, rfl⟩ := answer_of_up ha hs nofun
    have h₁ := h.concat (e := ⟨s, .isProcessed message.name message.id, .ok duplicate, s'⟩) ha nofun
    rw [meets_done, continue_ok]
    split
    · exact meets_mark h₁ rfl fun _ hu => hu
    · rw [meets_fallible_bind, meets_attempt]
      rintro r log'' ⟨s₁, s₁', -, ha₁, rfl⟩
      refine ⟨trivial, ?_⟩
      have h₂ := h₁.concat (e := ⟨s₁, .handle message, r, s₁'⟩) ha₁ nofun
      rw [meets_done, continue_ok]
      cases r with
      | ok v => exact meets_mark h₂ rfl fun _ hu => hu
      | error error => exact meets_mark h₂ rfl fun _ hu => hu
  · exact meets_mark h rfl fun _ hu => hu

/-- A batch is processed with a try for each of its messages. -/
theorem meets_processAll {w : Worker} {messages : List (ClaimedMessage ν)}
    (h : Remaining log (messages.map ClaimedMessage.id)) :
    Meets (HeardUndisturbed column) (fun _ => True) (After []) (messages.forM (process w)).run log := by
  induction messages generalizing log with
  | nil => exact h
  | cons message messages ih =>
      change Meets _ _ _ (process w message >>= fun _ => messages.forM (process w)).run log
      rw [meets_fallible_bind]
      refine (meets_process h).imp ?_
      rintro (e | v) log' h'
      · exact h'
      · exact ih h'

/-- A batch whose payloads decode is decoded. -/
theorem decode_batch {batch : List (OutboxMessage ρ)}
    (h : ∀ m ∈ batch, ∃ payload, column.decode m.payload = .ok payload) :
    ∃ messages, (batch.map OutboxMessage.claimed).mapM (ClaimedMessage.decode column) =
        .ok messages ∧ messages.map ClaimedMessage.id = batch.map OutboxMessage.id := by
  induction batch with
  | nil => exact ⟨[], rfl, rfl⟩
  | cons m batch ih =>
      obtain ⟨payload, hp⟩ := h m List.mem_cons_self
      obtain ⟨messages, hm, hids⟩ := ih fun n hn => h n (List.mem_cons_of_mem _ hn)
      have hd : ClaimedMessage.decode column m.claimed = .ok { m.claimed with payload := payload } := by
        rw [ClaimedMessage.decode, OutboxMessage.claimed, hp]
        rfl
      refine ⟨{ m.claimed with payload := payload } :: messages, ?_, ?_⟩
      · rw [List.map_cons, List.mapM_cons, hd, hm]
        rfl
      · rw [List.map_cons, List.map_cons, hids]
        rfl

/-- **An iteration tries every message that it has charged.** -/
theorem meets_runOnce {w : Worker} :
    Meets (HeardUndisturbed column) (fun _ => True) (fun _ => AllTried) (runOnce column w).run
      [] := by
  rw [runOnce, meets_fallible_bind, claim, meets_fallible_bind]
  rintro r log' ⟨s, s', hs, ha, rfl⟩
  refine ⟨trivial, ?_⟩
  rw [List.nil_append]
  cases ha with
  | failed hl hc error =>
      intro id hid
      simp [charged] at hid
  | lost hl hp error =>
      cases hp with
      | claim hsel =>
          obtain rfl := (hs _ hsel).1 hl
          intro id hid
          have hsame := hsel.attempts id
          rw [List.map_nil, if_neg List.not_mem_nil, Nat.add_zero] at hsame
          simp [charged, hsame] at hid
  | answered hl hp =>
      cases hp with
      | @claim _ batch hsel =>
          obtain ⟨messages, hm, hids⟩ := decode_batch ((hs _ hsel).2 hl)
          have hclaimed : claimedIds [(⟨s, .claim w, .ok (batch.map OutboxMessage.claimed),
              s.claim w (batch.map OutboxMessage.id)⟩ : Event (Call ρ ν) Call.Reply (Store ρ))] =
              batch.map OutboxMessage.id := by
            simp [claimedIds, claimed, OutboxMessage.claimed]
          rw [meets_done, continue_ok, hm, meets_liftExcept, continue_ok, meets_fallible_bind]
          refine (meets_processAll ⟨?_, ?_, ?_⟩).imp ?_
          · intro id hid
            rw [hids]
            by_contra hn
            rw [not_or] at hn
            simp [charged, hsel.attempts, hn.2] at hid
          · simp only [hids, hclaimed, List.suffix_refl]
          · rw [hclaimed]
            exact hsel.nodup
          · rintro (error | v) log h
            · exact h
            · intro id hid
              rcases h.left id hid with ht | hn
              · exact ht
              · cases hn

/-- A job that is enqueued is not started. -/
theorem meets_enqueue {name : String} {payload : ν} {options : DurableJobOptions} :
    Meets (HeardUndisturbed column) (fun _ => True) (fun _ => AllTried)
      (enqueue column name payload options).run [] := by
  unfold enqueue
  dsimp only
  split
  · intro id hid
    cases hid
  · rintro r log' ⟨s, s', -, ha, rfl⟩
    refine ⟨trivial, fun id hid => ?_⟩
    rcases ha.attempts with h | ⟨w, _, hw, -⟩
    · simp [charged, h] at hid
    · cases hw

/-- The call is not a claim. -/
def Call.ClaimsNothing (c : Call ρ ν) : Prop := ∀ w, c ≠ .claim w

/-- Processing claims nothing. -/
theorem only_process {w : Worker} {message : ClaimedMessage ν} :
    (process w message : Working ρ ν Unit).run.Only Call.ClaimsNothing := by
  have hq : ∀ c : Call ρ ν, c.ClaimsNothing → (query c).run.Only Call.ClaimsNothing :=
    fun c hc => ⟨hc, fun _ => trivial⟩
  unfold process
  split
  · refine (hq _ (by nofun)).fallible_bind fun duplicate => ?_
    split
    · exact hq _ (by nofun)
    · refine (hq _ (by nofun)).attempt.fallible_bind ?_
      rintro (error | v)
      · exact hq _ (by nofun)
      · exact hq _ (by nofun)
  · exact hq _ (by nofun)

theorem only_processAll {w : Worker} {messages : List (ClaimedMessage ν)} :
    (messages.forM (process w) : Working ρ ν PUnit).run.Only Call.ClaimsNothing := by
  induction messages with
  | nil => trivial
  | cons message messages ih =>
      change (process w message >>= fun _ => messages.forM (process w)).run.Only _
      exact only_process.fallible_bind fun _ => ih

/-- Only the first call of a request claims messages. -/
theorem serve_cases (q : Request ν) :
    (serve column q).Only Call.ClaimsNothing ∨ ∃ w next, serve column q = .call (.claim w) next ∧
      ∀ r, (next r).Only Call.ClaimsNothing := by
  cases q with
  | enqueue name payload options =>
      refine Or.inl ?_
      unfold serve enqueue
      dsimp only
      split
      · trivial
      · exact ⟨nofun, fun _ => trivial⟩
  | runOnce w =>
      refine Or.inr ⟨w, _, by rw [serve, runOnce, claim, bind_assoc, fallible_bind_eq]; rfl, ?_⟩
      rintro (error | rows)
      · trivial
      · refine Program.only_liftExcept.fallible_bind fun messages => ?_
        exact only_processAll.fallible_bind fun _ => trivial

end Contract

/-! ### Runs -/

section Run

variable {column : Column ρ ν} {allow : Workers ρ ν → Nat → Prop} {cfg cfg' : Workers ρ ν}

/-- The iteration is not over: it is still at work, or its worker has died. -/
def running (f : Iteration ρ ν) : Bool :=
  match f.rest with
  | .done _ => false
  | .call _ _ => true

/-- The next call of an iteration is not disturbed. -/
def CanBear (column : Column ρ ν) (cfg : Workers ρ ν) (i : Nat) : Prop :=
  ∀ q c next log, cfg.flights[i]? = some ⟨q, .call c next, log⟩ →
    Undisturbed column cfg.store log c

/-- An iteration that is over has tried every message that it has charged. -/
theorem Reaches.allTried (hr : Reaches (queue column) (CanBear column) cfg cfg')
    (h : cfg.flights = []) : ∀ f ∈ cfg'.flights, ∀ id, charged f.log id = true →
      tried f.log id = true ∨ running f = true := by
  have hm := hr.heard_of (fun _ => HeardUndisturbed column) (fun _ _ => True)
    (fun _ _ => AllTried) ?_ ?_ (by simp [h])
  · intro f hf id hid
    cases hrest : f.rest with
    | done v =>
        have := hm f hf
        rw [hrest] at this
        exact Or.inl (this id hid)
    | call c next => exact Or.inr (by rw [running, hrest])
  · intro s fs i q c next log r s' ha hi he
    exact ⟨s, s', ha q c next log hi, he, rfl⟩
  · rintro (⟨name, payload, options⟩ | w)
    · exact meets_enqueue
    · exact meets_runOnce

/-- An iteration charges a message once at most. -/
theorem Reaches.added_le (hr : Reaches (queue column) allow cfg cfg') (h : cfg.flights = [])
    (id : Nat) : ∀ f ∈ cfg'.flights, added (Store.attempts · id) f.log ≤ 1 := by
  have hf := hr.flight_invariant (P := fun f => (f.rest = serve column f.request ∧ f.log = []) ∨
    f.rest.Only Call.ClaimsNothing ∧ added (Store.attempts · id) f.log ≤ 1)
    (fun q => Or.inl ⟨rfl, rfl⟩) ?_ (by simp [h])
  · intro f hff
    rcases hf f hff with ⟨-, hl⟩ | ⟨-, hl⟩
    · rw [hl]
      exact Nat.zero_le _
    · exact hl
  · intro s c r s' q next log fs i hp _ _ _ ha
    have hle := ha.attempts_le id
    refine Or.inr ?_
    dsimp only at hp ⊢
    rw [added_concat]
    dsimp only
    rcases hp with ⟨hrest, rfl⟩ | ⟨hc, hadd⟩
    · refine ⟨?_, by rw [added_nil]; omega⟩
      rcases serve_cases q with hq | ⟨w, next', hq, hnext⟩
      · rw [← hrest] at hq
        exact hq.2 r
      · rw [hq] at hrest
        obtain ⟨rfl, hn⟩ := Program.call.inj hrest
        exact eq_of_heq hn ▸ hnext r
    · refine ⟨hc.2 r, ?_⟩
      rcases ha.attempts with heq | ⟨w, _, hw, -⟩
      · rw [heq]
        omega
      · exact absurd hw (hc.1 w)

/-- No message has been charged more attempts than it may have. -/
def Bounded (s : Store ρ) : Prop :=
  ∀ id m, s.outbox.get id = some m → m.attempts ≤ m.maxAttempts

/-- An update that respects the bounds keeps them. -/
theorem Bounded.update {s s' : Store ρ} (h : Bounded s) {ids : List Nat}
    (f : OutboxMessage ρ → OutboxMessage ρ) (hf : ∀ m, (f m).id = m.id)
    (hs : s'.outbox = s.outbox.update ids f hf)
    (hb : ∀ id m, id ∈ ids → s.outbox.get id = some m → (f m).attempts ≤ (f m).maxAttempts) :
    Bounded s' := by
  intro id m hm
  rw [hs, Outbox.get_update hf] at hm
  obtain ⟨m₀, hm₀, rfl⟩ := Option.map_eq_some_iff.1 hm
  split
  · next hid => exact hb id m₀ hid hm₀
  · exact h id m₀ hm₀

/-- **One statement** keeps the bounds. -/
theorem Bounded.performs {s s' : Store ρ} {c : Call ρ ν} {v : c.Value} (h : Bounded s)
    (hp : Performs s c v s') : Bounded s' := by
  cases hp with
  | inserted hid hkey =>
      intro id' m hm
      dsimp only at hm
      rw [Outbox.get_insert] at hm
      split at hm
      · obtain rfl := Option.some.inj hm
        exact Nat.zero_le _
      · exact h id' m hm
  | conflict => exact h
  | isProcessed => exact h
  | markCompleted => exact h.update (OutboxMessage.complete _) (fun _ => rfl) rfl fun id m _ hm => h id m hm
  | markFailed => exact h.update (OutboxMessage.fail _ _ _) (fun _ => rfl) rfl fun id m _ hm => h id m hm
  | claim hsel =>
      refine h.update (OutboxMessage.claim _ _) (fun _ => rfl) rfl fun id m hid hm => ?_
      obtain ⟨n, hn, rfl⟩ := List.mem_map.1 hid
      obtain ⟨hget, hclaim⟩ := hsel.claimable hn
      obtain rfl := Option.some.inj (hget.symm.trans hm)
      simp only [OutboxMessage.claimable, Bool.and_eq_true, decide_eq_true_eq] at hclaim
      exact hclaim.1.2

/-- **Every run** keeps them. -/
theorem Reaches.attempts_bounded (hr : Reaches (queue column) allow cfg cfg')
    (h : Bounded cfg.store) : Bounded cfg'.store := by
  refine hr.store_invariant ?_ ?_ h
  · intro s c r s' hs ha
    cases ha with
    | handled => exact hs
    | failed => exact hs
    | answered hl hp => exact hs.performs hp
    | lost hl hp => exact hs.performs hp
  · rintro s s' hs ⟨clock, link, rfl⟩
    exact hs

/-- The attempts of a message have been charged by as many iterations. -/
theorem Reaches.attempts_le_countP (hr : Reaches (queue column) allow cfg cfg')
    (h : cfg.flights = []) (id : Nat) (hs : cfg.store.attempts id = 0) :
    cfg'.store.attempts id ≤ cfg'.flights.countP fun f => charged f.log id := by
  have hsum := hr.accounts (fun s => s.attempts id) (fun s c r s' ha => (ha.attempts_le id).1)
    (by rintro s s' ⟨clock, link, rfl⟩; rfl) h
  rw [hs, Nat.zero_add] at hsum
  rw [hsum]
  refine sum_map_le_countP fun f hf => ⟨Reaches.added_le hr h id f hf, fun hpos => ?_⟩
  obtain ⟨e, he, hlt⟩ := exists_of_added_pos hpos
  exact List.any_eq_true.2 ⟨e, he, decide_eq_true hlt⟩

/-- No durable job is dropped untried: an iteration that is over has tried what it has
charged; no message is charged more attempts than it may have; and a message that
cannot be claimed any more is processed, or as many iterations have tried it or have
been interrupted. -/
structure NoneDropped (cfg : Workers ρ ν) : Prop where
  tried : ∀ f ∈ cfg.flights, ∀ id, charged f.log id = true →
    tried f.log id = true ∨ running f = true
  bounded : ∀ id m, cfg.store.outbox.get id = some m → m.attempts ≤ m.maxAttempts
  exhausted : ∀ id m, cfg.store.outbox.get id = some m → m.processedAt ≠ none ∨
    m.attempts < m.maxAttempts ∨ m.maxAttempts ≤ cfg.flights.countP fun f =>
      charged f.log id && (Jobs.tried f.log id || running f)

/-- **No durable job is dropped untried**, as long as the database fails only where an
iteration can bear it. -/
theorem no_job_dropped_untried {s : Store ρ} {cfg : Workers ρ ν} (hs : s.outbox = .empty)
    (hr : Reaches (queue column) (CanBear column) ⟨s, []⟩ cfg) : NoneDropped cfg := by
  have htried := Reaches.allTried hr rfl
  have hbounded : Bounded cfg.store := Reaches.attempts_bounded hr fun id m hm => by
    rw [show (Config.store ⟨s, []⟩ : Store ρ).outbox = .empty from hs] at hm
    cases hm
  refine ⟨htried, hbounded, fun id m hm => ?_⟩
  have hcount := Reaches.attempts_le_countP hr rfl id (by
    rw [Store.attempts, show (Config.store ⟨s, []⟩ : Store ρ).outbox = .empty from hs]; rfl)
  have hle : cfg.flights.countP (fun f => charged f.log id) ≤ cfg.flights.countP
      fun f => charged f.log id && (Jobs.tried f.log id || running f) := by
    refine List.countP_mono_left fun f hf hc => ?_
    rw [hc, Bool.true_and, Bool.or_eq_true]
    exact htried f hf id hc
  have hattempts : cfg.store.attempts id = m.attempts := by
    rw [Store.attempts, hm]
    rfl
  have := hbounded id m hm
  omega

end Run

/-! ### Schedules -/

/-- A database that answers, with the first id that is not in use. -/
def Store.perform (s : Store ρ) : (c : Call ρ ν) → Option (c.Value × Store ρ)
  | .insert name payload idempotencyKey maxAttempts =>
      match s.outbox.messages.find? fun m =>
          m.name = name ∧ m.idempotencyKey = idempotencyKey ∧ idempotencyKey ≠ none with
      | some m => some (m.id, s)
      | none =>
          if h : s.outbox.get s.outbox.messages.length = none then
            some (s.outbox.messages.length, { s with
              outbox := s.outbox.insert
                (.fresh s.outbox.messages.length name payload idempotencyKey maxAttempts s.clock)
                h })
          else none
  | .claim w =>
      let batch := ((s.candidates w).insertionSort OutboxMessage.Before).take w.config.batchSize
      some (batch.map OutboxMessage.claimed, s.claim w (batch.map OutboxMessage.id))
  | .isProcessed consumer id => some (s.inbox.contains (consumer, id), s)
  | .handle _ => none
  | .markCompleted id consumer => some ((), s.markCompleted id consumer)
  | .markFailed message error => some ((), s.markFailed message error)

/-- What a statement that took effect has done. -/
theorem Store.performs {s s' : Store ρ} {c : Call ρ ν} {v : c.Value}
    (h : s.perform c = some (v, s')) : Performs s c v s' := by
  cases c with
  | insert name payload idempotencyKey maxAttempts =>
      rw [perform] at h
      split at h
      · next m hm =>
          obtain ⟨rfl, rfl⟩ := Prod.mk.inj (Option.some.inj h)
          have hp := List.find?_some hm
          simp only [ne_eq, decide_eq_true_eq] at hp
          obtain ⟨key, rfl⟩ := Option.ne_none_iff_exists'.1 hp.2.2
          exact .conflict (List.mem_of_find?_eq_some hm) hp.1 hp.2.1
      · next hn =>
          split at h
          · next hid =>
              obtain ⟨rfl, rfl⟩ := Prod.mk.inj (Option.some.inj h)
              refine .inserted hid ?_
              rintro key rfl m hm ⟨h₁, h₂⟩
              simpa [h₁, h₂] using List.find?_eq_none.1 hn m hm
          · cases h
  | claim w =>
      obtain ⟨rfl, rfl⟩ := Prod.mk.inj (Option.some.inj h)
      exact .claim ⟨_, List.perm_insertionSort _ _, List.pairwise_insertionSort _ _, .refl _⟩
  | isProcessed consumer id =>
      obtain ⟨rfl, rfl⟩ := Prod.mk.inj (Option.some.inj h)
      exact .isProcessed consumer id
  | handle message => cases h
  | markCompleted id consumer =>
      obtain ⟨-, rfl⟩ := Prod.mk.inj (Option.some.inj h)
      exact .markCompleted id consumer
  | markFailed message error =>
      obtain ⟨-, rfl⟩ := Prod.mk.inj (Option.some.inj h)
      exact .markFailed message error

/-- Workers whose handlers return what the schedule says. -/
def machine (column : Column ρ ν) : Machine (Request ν) (Call ρ ν) Call.Reply (Except String Nat)
    (Store ρ) (Except String Unit) (Int × Link) where
  toSite := queue column
  choose result s
    | .handle _ => some (result, s)
    | c =>
        match s.link with
        | .up => (s.perform c).map fun a => (.ok a.1, a.2)
        | .down => some (.error "connection refused", s)
        | .lost => (s.perform c).map fun a => (.error "connection reset", a.2)
  choose_sound result s c r s' h := by
    have hdb : ∀ {c : Call ρ ν} {r : c.Reply}, (∀ message, c ≠ .handle message) →
        (match s.link with
          | .up => (s.perform c).map fun a => (.ok a.1, a.2)
          | .down => some (.error "connection refused", s)
          | .lost => (s.perform c).map fun a => (.error "connection reset", a.2)) = some (r, s') →
        Answer s c r s' := by
      intro c r hc h
      split at h
      · next hl =>
          obtain ⟨a, ha, h⟩ := Option.map_eq_some_iff.1 h
          obtain ⟨rfl, rfl⟩ := Prod.mk.inj h
          exact .answered hl (Store.performs ha)
      · next hl =>
          obtain ⟨rfl, rfl⟩ := Prod.mk.inj (Option.some.inj h)
          exact .failed hl hc _
      · next hl =>
          obtain ⟨a, ha, h⟩ := Option.map_eq_some_iff.1 h
          obtain ⟨rfl, rfl⟩ := Prod.mk.inj h
          exact .lost hl (Store.performs ha) _
    cases c with
    | handle message =>
        obtain ⟨rfl, rfl⟩ := Prod.mk.inj (Option.some.inj h)
        exact .handled message _
    | _ => exact hdb nofun h
  shift d s := { s with clock := d.1, link := d.2 }
  shift_sound d s := ⟨d.1, d.2, rfl⟩

/-- A worker of the search index. -/
def indexer : Worker := ⟨"worker", ["search.index"], ⟨2, 30⟩⟩

/-- A message that may be tried once. -/
def once (payload : String) : Request String := .enqueue "search.index" payload ⟨none, 1⟩

/-- The table at the first start. -/
def firstStart : Store String := ⟨.empty, [], 0, .up⟩

/-- A database that answers disturbs nobody, when every payload decodes. -/
theorem undisturbed_of_up {column : Column ρ ν} {s : Store ρ} {log : Log ρ ν} {c : Call ρ ν}
    (hd : ∀ payload, ∃ v, column.decode payload = .ok v) (hl : s.link = .up) :
    Undisturbed column s log c := by
  cases c with
  | claim w =>
      intro batch _
      refine ⟨fun h => ?_, fun _ m _ => hd m.payload⟩
      rw [hl] at h
      cases h
  | isProcessed consumer id => exact hl
  | markCompleted id consumer => exact Or.inl hl
  | markFailed message error => exact Or.inl hl
  | _ => exact trivial

/-- The handler of a message fails, and its only attempt is used up. -/
theorem no_job_dropped_untried_once : ∃ cfg : Workers String String,
    Reaches (queue Postgres.column) (CanBear Postgres.column) ⟨firstStart, []⟩ cfg ∧
      cfg.store.attempts 0 = 1 ∧ NoneDropped cfg := by
  have hplay : ((machine Postgres.column).play (fun cfg _ => cfg.store.link == .up)
      ⟨firstStart, []⟩
      [.arrive (once "a"), .call 0 (.ok ()), .arrive (.runOnce indexer), .call 1 (.ok ()),
        .call 1 (.ok ()), .call 1 (.error "planned failure"), .call 1 (.ok ())]).any
      (fun cfg => decide (cfg.store.attempts 0 = 1)) = true := by decide +kernel
  obtain ⟨cfg, hr, hc⟩ := Machine.exists_of_play (CanBear Postgres.column)
    (fun cfg i hok q c next log _ => undisturbed_of_up (fun payload => ⟨payload, rfl⟩)
      (by simpa using hok)) hplay
  exact ⟨cfg, hr, of_decide_eq_true hc, no_job_dropped_untried rfl hr⟩

/-- A message that cannot be claimed any more although nobody has tried it. -/
def Dropped (cfg : Workers String String) (id : Nat) : Prop :=
  (cfg.store.outbox.get id).any (fun m =>
    m.processedAt.isNone && decide (0 < m.maxAttempts ∧ m.maxAttempts ≤ m.attempts)) = true ∧
  ∀ f ∈ cfg.flights, tried f.log id = false ∧ running f = false

instance (cfg : Workers String String) (id : Nat) : Decidable (Dropped cfg id) :=
  inferInstanceAs (Decidable (_ ∧ _))

/-- A worker claims two messages and cannot look up the first: the second, which may
be tried once, is never claimed again. -/
theorem failed_lookup_drops_message : ∃ cfg : Workers String String,
    Reaches (queue Postgres.column) AnyStep ⟨firstStart, []⟩ cfg ∧ ¬NoneDropped cfg := by
  have hplay : ((machine Postgres.column).play (fun _ _ => true) ⟨firstStart, []⟩
      [.arrive (once "a"), .call 0 (.ok ()), .arrive (once "b"), .call 1 (.ok ()),
        .arrive (.runOnce indexer), .call 2 (.ok ()), .drift (1, .down), .call 2 (.ok ()),
        .drift (2, .up)]).any
      (fun cfg => decide (Dropped cfg 1)) = true := by decide +kernel
  obtain ⟨cfg, hr, hc⟩ := Machine.exists_of_play AnyStep (fun _ _ _ => trivial) hplay
  obtain ⟨hm, hf⟩ := of_decide_eq_true hc
  refine ⟨cfg, hr, fun h => ?_⟩
  obtain ⟨m, hget, hm⟩ := (Option.any_eq_true _ _).1 hm
  simp only [Bool.and_eq_true, Option.isNone_iff_eq_none, decide_eq_true_eq] at hm
  rcases h.exhausted 1 m hget with hp | hlt | hle
  · exact hp hm.1
  · omega
  · have hzero : cfg.flights.countP (fun f => charged f.log 1 && (tried f.log 1 || running f)) = 0 := by
      refine List.countP_eq_zero.2 fun f hff => ?_
      rw [(hf f hff).1, (hf f hff).2]
      simp
    omega

end Jobs
end Hegira
