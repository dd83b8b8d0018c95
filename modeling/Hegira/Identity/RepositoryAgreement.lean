/-
# The two OAuth repositories side by side

The same operations, one after another, on SQLite and on Postgres, from the same
tables and with the same values drawn.  What an operation comes to is a function of
the tables (`settle_unlink`, `settle_signup`), and only one case tells the backends
apart:

* an external-only user has one connection or none, and the unlink names a provider
  that it has no connection with.  Postgres counts first and answers `LastConnection`;
  SQLite looks for the connection first and answers `NotFound`.

The tables agree after every operation (`agreement`), so a run tells the backends apart
at the steps of this case and at no other.  The messages of the databases are theirs,
and are left out of the comparison (`Outcome.bare`).
-/

import Hegira.Identity.LastConnection

namespace Hegira
namespace Identity

/-- An error without the text that comes from the database. -/
def DomainError.bare : DomainError → DomainError
  | .validation _ => .validation ""
  | .conflict _ => .conflict ""
  | error => error

def ApplicationError.bare : ApplicationError → ApplicationError
  | .conflict _ => .conflict ""
  | .infrastructure _ => .infrastructure ""
  | error => error

namespace OAuth

/-! ### What an operation comes to -/

/-- The operations of a repository; the listing is the same statement on both. -/
inductive Step where
  | request (q : Request)
  | listConnections (username : String)

/-- The result of an operation. -/
inductive StepResult where
  | outcome (o : Outcome)
  | connections (connections : List OAuthConnection)

/-- `list_connections`, where `le` is the order of the provider column. -/
def listConnections (le : String → String → Bool) (t : Tables) (username : String) :
    List OAuthConnection :=
  match t.liveUser username with
  | none => []
  | some u =>
      (t.connections.filter fun c => c.userId == u.id).mergeSort fun c c' => le c.provider c'.provider

def Outcome.bare : Outcome → Outcome
  | .unlink r => .unlink (r.mapError DomainError.bare)
  | .link r => .link (r.mapError DomainError.bare)
  | .username r => .username (r.mapError DomainError.bare)
  | .pendingSignup r => .pendingSignup (r.mapError DomainError.bare)
  | .signup r => .signup (r.mapError ApplicationError.bare)
  | .completed r => .completed (r.mapError DomainError.bare)

section Operations

variable (le : String → String → Bool) (b : Backend) (text : String)

/-- An operation on the backend: its result, and the tables it leaves. -/
def Backend.step (d : Draw) (t : Tables) : Step → StepResult × Tables
  | .request q =>
      let (o, t') := (database b).settle text d (serve b q) t
      (.outcome o.bare, t')
  | .listConnections username => (.connections (listConnections le t username), t)

/-- Operations one after another, each with the values drawn for it. -/
def Backend.run : List (Step × Draw) → Tables → List StepResult × Tables
  | [], t => ([], t)
  | (op, d) :: ops, t =>
      let (result, t') := b.step le text d t op
      let (results, t'') := Backend.run ops t'
      (result :: results, t'')

end Operations

/-! ### The calls of one client -/

section Client

variable {b : Backend} {text : String} {d : Draw} {ε : Type} {onError : String → ε} {s : Db}
  {tx : Tx Write Lock}

/-- A statement does the same in both databases, up to the names of its locks. -/
theorem execute_eq (t : Tables) (st : Statement) : (database b).execute t d st =
    (execute t d st).map fun (res, writes, keys) => (res, writes, keys.map b.lock) := rfl

/-- What begin, commit and rollback do when nothing interferes. -/
@[simp] theorem outcome_begin :
    (database b).outcome text d (begin onError).run s = (.ok Tx.empty, s) := rfl

@[simp] theorem outcome_commit :
    (database b).outcome text d (commit onError tx).run s =
      (.ok (), (database b).publish s tx) := rfl

@[simp] theorem outcome_rollback :
    (database b).outcome text d (rollback tx : Repository ε Unit).run s =
      (.ok (), s.release tx.locks) := rfl

/-- A statement in the transaction of the one client. -/
theorem outcome_exec (h : tx.Alone s) (st : Statement) :
    (database b).outcome text d (exec onError tx st).run s =
      match execute ((database b).view s.tables tx.writes) d st with
      | none => (.error (onError text), s.release tx.locks)
      | some (res, writes, keys) =>
          (.ok (res, tx.extend writes (keys.map b.lock)), s.take (keys.map b.lock)) := by
  change (((database b).reply text d s (.exec tx st)).1.mapError onError,
    ((database b).reply text d s (.exec tx st)).2) = _
  rw [Database.reply_exec h, execute_eq]
  cases execute ((database b).view s.tables tx.writes) d st with
  | none => rfl
  | some result => rfl

/-- The transaction of the one client: the committed tables, and what it has written. -/
structure Open (t : Tables) (writes : List Write) (tx : Tx Write Lock) (s : Db) : Prop where
  tables : s.tables = t
  writes : tx.writes = writes
  alone : tx.Alone s

/-- A transaction that has begun is open. -/
theorem Open.begun (t : Tables) : Open t [] .empty ⟨t, fun _ => false⟩ :=
  ⟨rfl, rfl, Tx.alone_empty t⟩

section Open

variable {t : Tables} {ws writes : List Write} {keys : List Key} (st : Statement) {res : st.Result}

/-- A statement that succeeds leaves it open, with its writes. -/
theorem Open.executed (onError : String → ε) (text : String) (h : Open t ws tx s)
    (he : execute ((database b).view t ws) d st = some (res, writes, keys)) :
    ∃ tx' s', (database b).outcome text d (exec onError tx st).run s = (.ok (res, tx'), s') ∧
      Open t (ws ++ writes) tx' s' := by
  refine ⟨tx.extend writes (keys.map b.lock), s.take (keys.map b.lock), ?_, h.tables, ?_, ?_⟩
  · rw [outcome_exec h.alone, h.tables, h.writes, he]
  · rw [Tx.extend, h.writes]
  · exact h.alone.extend _ _

/-- One that is refused leaves the tables. -/
theorem Open.refused (onError : String → ε) (text : String) (h : Open t ws tx s)
    (he : execute ((database b).view t ws) d st = none) :
    ∃ s', (database b).outcome text d (exec onError tx st).run s = (.error (onError text), s') ∧
      s'.tables = t := by
  refine ⟨s.release tx.locks, ?_, h.tables⟩
  rw [outcome_exec h.alone, h.tables, h.writes, he]

/-- Publishing makes its writes visible. -/
theorem Open.publish (h : Open t ws tx s) :
    ((database b).publish s tx).tables = (database b).view t ws := by
  rw [Database.publish, h.tables, h.writes]

end Open

/-- A statement of the one client outside a transaction. -/
theorem outcome_auto (t : Tables) (st : Statement) :
    (database b).outcome text d (auto onError st).run ⟨t, fun _ => false⟩ =
      match execute t d st with
      | none => (.error (onError text), ⟨t, fun _ => false⟩)
      | some (res, writes, _) => (.ok res, ⟨(database b).view t writes, fun _ => false⟩) := by
  change (((database b).reply text d ⟨t, fun _ => false⟩ (.auto st)).1.mapError onError,
    ((database b).reply text d ⟨t, fun _ => false⟩ (.auto st)).2) = _
  rw [Database.reply_auto fun _ => rfl, execute_eq]
  cases execute t d st with
  | none => rfl
  | some result => rfl

/-- A statement of its own takes effect at once. -/
theorem outcome_auto_ok {t : Tables} {st : Statement} {res : st.Result} {writes : List Write}
    {keys : List Key} (he : execute t d st = some (res, writes, keys)) :
    (database b).outcome text d (auto onError st).run ⟨t, fun _ => false⟩ =
      (.ok res, ⟨(database b).view t writes, fun _ => false⟩) := by
  rw [outcome_auto, he]

end Client

/-! ### Unlinking -/

/-- `unlink_connection` on SQLite, as a function of the tables. -/
def Sqlite.unlinked (t : Tables) (username provider : String) : UnlinkResult × Tables :=
  match t.liveUser username with
  | none => (.notFound, t)
  | some u =>
      if t.connections.any (IsAccount u.id provider) then
        if u.externalOnly = true ∧ t.connectionCount u.id ≤ 1 then (.lastConnection, t)
        else (.unlinked, applyWrite t (.deleteConnection u.id provider))
      else (.notFound, t)

/-- `unlink_connection` on Postgres, as a function of the tables. -/
def Postgres.unlinked (t : Tables) (username provider : String) : UnlinkResult × Tables :=
  match t.liveUser username with
  | none => (.notFound, t)
  | some u =>
      if u.externalOnly = true ∧ t.connectionCount u.id ≤ 1 then (.lastConnection, t)
      else if t.connections.any (IsAccount u.id provider) then
        (.unlinked, applyWrite t (.deleteConnection u.id provider))
      else (.notFound, t)

section Unlink

variable {text : String} {d : Draw} {t : Tables} {username provider : String}

/-- What is settled is read off the outcome. -/
theorem settle_eq {b : Backend} {α : Type} {p : Program Call Reply α} {r : α} {s : Db}
    (h : (database b).outcome text d p ⟨t, fun _ => false⟩ = (r, s)) :
    (database b).settle text d p t = (r, s.tables) := by
  rw [Database.settle, h]

/-- The `DELETE` of SQLite finds a connection that it may take. -/
theorem Sqlite.settle_deleted {writes : List Write} {keys : List Key}
    (h : execute t d (.deleteConnectionUnlessLast username provider) = some (true, writes, keys)) :
    (database .sqlite).settle text d (Sqlite.unlinkConnection username provider).run t =
      (.ok .unlinked, (database .sqlite).view t writes) := by
  refine settle_eq (s := ⟨_, fun _ => false⟩) ?_
  unfold Sqlite.unlinkConnection
  rw [Database.outcome_ok (outcome_auto_ok h)]
  rfl

/-- It finds none, and looks for the reason. -/
theorem Sqlite.settle_kept {keys keys' : List Key} {blocked : Bool}
    (h : execute t d (.deleteConnectionUnlessLast username provider) = some (false, [], keys))
    (h' : execute t d (.isLastConnection username provider) = some (blocked, [], keys')) :
    (database .sqlite).settle text d (Sqlite.unlinkConnection username provider).run t =
      (.ok (if blocked then .lastConnection else .notFound), t) := by
  refine settle_eq (s := ⟨_, fun _ => false⟩) ?_
  unfold Sqlite.unlinkConnection
  rw [Database.outcome_ok (outcome_auto_ok h), Database.view_nil, if_neg Bool.false_ne_true,
    Database.outcome_ok (outcome_auto_ok h')]
  rfl

/-- Unlinking on SQLite. -/
theorem Sqlite.settle_unlink :
    (database .sqlite).settle text d (Sqlite.unlinkConnection username provider).run t =
      (.ok (Sqlite.unlinked t username provider).1, (Sqlite.unlinked t username provider).2) := by
  unfold Sqlite.unlinked
  cases hu : t.liveUser username with
  | none =>
      have hdelete : execute t d (.deleteConnectionUnlessLast username provider) =
          some (false, [], [.username username]) := by simp only [execute, hu]
      have hlast : execute t d (.isLastConnection username provider) = some (false, [], []) := by
        simp only [execute, hu]
      exact Sqlite.settle_kept hdelete hlast
  | some u =>
      dsimp only
      cases hc : t.connections.any (IsAccount u.id provider) with
      | false =>
          have hdelete : execute t d (.deleteConnectionUnlessLast username provider) =
              some (false, [], [.user u.id]) := by simp [execute, hu, hc]
          have hlast : execute t d (.isLastConnection username provider) = some (false, [], []) := by
            simp [execute, hu, hc]
          exact Sqlite.settle_kept hdelete hlast
      | true =>
          rw [if_pos rfl]
          by_cases hone : u.externalOnly = true ∧ t.connectionCount u.id ≤ 1
          · have hdelete : execute t d (.deleteConnectionUnlessLast username provider) =
                some (false, [], [.user u.id]) := by simp [execute, hu, hc, hone]
            have hlast : execute t d (.isLastConnection username provider) =
                some (true, [], []) := by simp [execute, hu, hc, hone]
            rw [if_pos hone]
            exact Sqlite.settle_kept hdelete hlast
          · have hfree : (!u.externalOnly || decide (1 < t.connectionCount u.id)) = true := by
              cases hext : u.externalOnly with
              | false => rfl
              | true => simpa [hext] using hone
            have hdelete : execute t d (.deleteConnectionUnlessLast username provider) =
                some (true, [.deleteConnection u.id provider], [.user u.id]) := by
              simp [execute, hu, hc, hfree]
            rw [if_neg hone]
            exact Sqlite.settle_deleted hdelete

/-- Taking a connection that is not there changes nothing. -/
theorem delete_absent {userId : Nat} (h : t.connections.any (IsAccount userId provider) = false) :
    applyWrite t (.deleteConnection userId provider) = t := by
  have hall : t.connections.filter (fun c => !IsAccount userId provider c) = t.connections := by
    refine List.filter_eq_self.2 fun c hc => ?_
    simpa using List.any_eq_false.1 h c hc
  rw [applyWrite, hall]

/-- Unlinking on Postgres. -/
theorem Postgres.settle_unlink :
    (database .postgres).settle text d (Postgres.unlinkConnection username provider).run t =
      (.ok (Postgres.unlinked t username provider).1,
        (Postgres.unlinked t username provider).2) := by
  unfold Postgres.unlinked
  have hbegin := Open.begun t
  unfold Database.settle Postgres.unlinkConnection
  cases hu : t.liveUser username with
  | none =>
      have hselect : execute t d (.selectUserForUpdate username) = some (none, [], []) := by
        simp only [execute, hu]
      obtain ⟨tx, s, h, ho⟩ := hbegin.executed _ (b := .postgres) DomainError.validation text hselect
      rw [Database.outcome_ok outcome_begin, Database.outcome_ok h]
      exact Prod.ext rfl ho.tables
  | some u =>
      have hselect : execute t d (.selectUserForUpdate username) =
          some (some (u.id, u.externalOnly), [], [.user u.id]) := by
        simp only [execute, hu]
      have hcount : execute t d (.countConnections u.id) = some (t.connectionCount u.id, [], []) := rfl
      obtain ⟨tx₁, s₁, h₁, ho₁⟩ :=
        hbegin.executed _ (b := .postgres) DomainError.validation text hselect
      obtain ⟨tx₂, s₂, h₂, ho₂⟩ := ho₁.executed _ (b := .postgres) DomainError.validation text hcount
      rw [Database.outcome_ok outcome_begin, Database.outcome_ok h₁]
      dsimp only
      rw [Database.outcome_ok h₂]
      dsimp only
      by_cases hone : u.externalOnly = true ∧ t.connectionCount u.id ≤ 1
      · rw [if_pos hone, if_pos hone]
        exact Prod.ext rfl ho₂.tables
      · have hdelete : execute t d (.deleteConnection u.id provider) =
            some ((t.connections.filter (IsAccount u.id provider)).length,
              [.deleteConnection u.id provider],
              (t.connections.filter (IsAccount u.id provider)).flatMap fun c =>
                [.identity c.provider c.providerUserId, .account u.id provider]) := rfl
        obtain ⟨tx₃, s₃, h₃, ho₃⟩ :=
          ho₂.executed _ (b := .postgres) DomainError.validation text hdelete
        rw [if_neg hone, if_neg hone, Database.outcome_ok h₃]
        dsimp only
        rw [Database.outcome_ok outcome_commit]
        have htables : ((database .postgres).publish s₃ tx₃).tables =
            applyWrite t (.deleteConnection u.id provider) := ho₃.publish
        cases hc : t.connections.any (IsAccount u.id provider) with
        | true =>
            have hrows : (t.connections.filter (IsAccount u.id provider)).length ≠ 0 := by
              obtain ⟨c, hmem, hacc⟩ := List.any_eq_true.1 hc
              exact (List.length_pos_of_mem (List.mem_filter.2 ⟨hmem, hacc⟩) |> Nat.ne_of_gt)
            rw [if_pos rfl, if_neg hrows]
            exact Prod.ext rfl htables
        | false =>
            have hrows : (t.connections.filter (IsAccount u.id provider)).length = 0 := by
              rw [List.length_eq_zero_iff, List.filter_eq_nil_iff]
              exact List.any_eq_false.1 hc
            rw [if_neg Bool.false_ne_true, if_pos hrows]
            exact Prod.ext rfl (htables.trans (delete_absent hc))

end Unlink

/-! ### Signing up -/

/-- The tables after a signup. -/
def signupTables (t : Tables) (d : Draw) (command : CompleteOAuthSignup) (p : PendingOAuthSignup) :
    Tables :=
  let t' := { t with
    users := t.users ++ [externalUser d command.username command.passwordHash]
    connections := t.connections ++ [⟨d.id, p.provider, p.providerUserId, p.email, d.now⟩]
    pendingSignups := t.pendingSignups.filter fun p => p.token != command.token }
  if command.publishSearch then
    t'.enqueue ⟨.search d.pid 0,
      .search (.upsert (newDocument ⟨d.id, d.pid, d.now, 0⟩ command.username) 0)⟩
  else t'

/-- `complete_signup` and `complete_signup_transaction`, as a function of the tables. -/
def signedUp (text : String) (t : Tables) (d : Draw) (command : CompleteOAuthSignup) :
    Except ApplicationError Bool × Tables :=
  match pendingSignup t command.token command.now with
  | none => (.ok false, t)
  | some p =>
      if t.users.any fun u => u.username == command.username || u.id == d.id || u.pid == d.pid then
        (.error (.conflict text), t)
      else if t.connections.any fun c =>
          c.identity == (p.provider, p.providerUserId) || IsAccount d.id p.provider c then
        (.error (.conflict text), t)
      else (.ok true, signupTables t d command p)

section Signup

variable {text : String} {d : Draw} {t : Tables} {command : CompleteOAuthSignup}

/-- What `publish_search` writes. -/
def published (d : Draw) (command : CompleteOAuthSignup) : List Write :=
  if command.publishSearch then
    [.enqueue ⟨.search d.pid 0,
      .search (.upsert (newDocument ⟨d.id, d.pid, d.now, 0⟩ command.username) 0)⟩]
  else []

/-- What the two signups share once the user is there. -/
theorem Open.published {b : Backend} {ws : List Write} {tx : Tx Write Lock} {s : Db}
    (h : Open t ws tx s) (text : String) (d : Draw) (command : CompleteOAuthSignup) :
    ∃ tx' s', (database b).outcome text d
        (publishSignup command ⟨d.id, d.pid, d.now, 0⟩ tx).run s = (.ok tx', s') ∧
      Open t (ws ++ OAuth.published d command) tx' s' := by
  unfold publishSignup OAuth.published
  cases command.publishSearch with
  | false => exact ⟨tx, s, rfl, by rwa [if_neg Bool.false_ne_true, List.append_nil]⟩
  | true =>
      obtain ⟨tx', s', h', ho⟩ := h.executed
        (.enqueueUserUpsert (newDocument ⟨d.id, d.pid, d.now, 0⟩ command.username) 0)
        (b := b) (d := d) ApplicationError.infrastructure text rfl
      rw [if_pos rfl, if_pos rfl, Database.outcome_ok h']
      exact ⟨tx', s', rfl, ho⟩

/-- The row of the connection goes in after the row of its user. -/
theorem insertConnection_fits {p : PendingOAuthSignup} {t : Tables}
    (hc : ¬(t.connections.any fun c =>
      c.identity == (p.provider, p.providerUserId) || IsAccount d.id p.provider c) = true) :
    execute (applyWrite t (.insertUser (externalUser d command.username command.passwordHash))) d
        (.insertConnection d.id p.provider p.providerUserId p.email) =
      some ((), [.insertConnection ⟨d.id, p.provider, p.providerUserId, p.email, d.now⟩],
        [.identity p.provider p.providerUserId, .account d.id p.provider]) := by
  have huser : (applyWrite t (.insertUser
      (externalUser d command.username command.passwordHash))).users.any
        (fun u => u.id == d.id) = true := by
    rw [applyWrite, List.any_append]
    simp [externalUser, User.inserted]
  exact (if_neg hc).trans (if_pos huser)

/-- Signup on SQLite. -/
theorem Sqlite.settle_signup :
    (database .sqlite).settle text d (Sqlite.completeSignup command).run t =
      signedUp text t d command := by
  unfold Database.settle Sqlite.completeSignup signedUp
  have hbegin := Open.begun t
  cases hp : pendingSignup t command.token command.now with
  | none =>
      have htake : execute t d (.deletePendingSignupReturning command.token command.now) =
          some (none, [], [.pendingToken command.token]) := by simp only [execute, hp]
      obtain ⟨tx, s, h, ho⟩ := hbegin.executed _ (b := .sqlite) ApplicationError.infrastructure text htake
      rw [Database.outcome_ok outcome_begin, Database.outcome_ok h]
      exact Prod.ext rfl ho.tables
  | some p =>
      have htake : execute t d (.deletePendingSignupReturning command.token command.now) =
          some (some p, [.deletePendingSignup command.token], pendingKeys p) := by
        simp only [execute, hp]
      obtain ⟨tx₁, s₁, h₁, ho₁⟩ :=
        hbegin.executed _ (b := .sqlite) ApplicationError.infrastructure text htake
      rw [Database.outcome_ok outcome_begin, Database.outcome_ok h₁]
      dsimp only
      split
      · next hu =>
          obtain ⟨s₂, h₂, hs₂⟩ := ho₁.refused
            (.insertExternalUser command.username command.passwordHash)
            (b := .sqlite) (d := d) ApplicationError.conflict text (if_pos hu)
          rw [Database.outcome_error h₂]
          exact Prod.ext rfl hs₂
      · next hu =>
          obtain ⟨tx₂, s₂, h₂, ho₂⟩ := ho₁.executed
            (.insertExternalUser command.username command.passwordHash)
            (b := .sqlite) (d := d) ApplicationError.conflict text (if_neg hu)
          rw [Database.outcome_ok h₂]
          dsimp only
          split
          · next hc =>
              obtain ⟨s₃, h₃, hs₃⟩ := ho₂.refused
                (.insertConnection d.id p.provider p.providerUserId p.email)
                (b := .sqlite) (d := d) ApplicationError.conflict text (if_pos hc)
              rw [Database.outcome_error h₃]
              exact Prod.ext rfl hs₃
          · next hc =>
              obtain ⟨tx₃, s₃, h₃, ho₃⟩ := ho₂.executed _ (b := .sqlite) ApplicationError.conflict text
                (insertConnection_fits (t := applyWrite t (.deletePendingSignup command.token)) hc)
              obtain ⟨tx₄, s₄, h₄, ho₄⟩ := ho₃.published (b := .sqlite) text d command
              rw [Database.outcome_ok h₃]
              dsimp only
              rw [Database.outcome_ok h₄, Database.outcome_ok outcome_commit]
              refine Prod.ext rfl (ho₄.publish.trans ?_)
              unfold published signupTables
              cases command.publishSearch <;> rfl

/-- Signup on Postgres. -/
theorem Postgres.settle_signup :
    (database .postgres).settle text d (Postgres.completeSignup command).run t =
      signedUp text t d command := by
  unfold Database.settle Postgres.completeSignup signedUp
  have hbegin := Open.begun t
  cases hp : pendingSignup t command.token command.now with
  | none =>
      have hselect : execute t d (.selectPendingSignupForUpdate command.token command.now) =
          some (none, [], []) := by simp only [execute, hp]
      obtain ⟨tx, s, h, ho⟩ :=
        hbegin.executed _ (b := .postgres) ApplicationError.infrastructure text hselect
      rw [Database.outcome_ok outcome_begin, Database.outcome_ok h]
      exact Prod.ext rfl ho.tables
  | some p =>
      have hselect : execute t d (.selectPendingSignupForUpdate command.token command.now) =
          some (some p, [], pendingKeys p) := by simp only [execute, hp]
      obtain ⟨tx₁, s₁, h₁, ho₁⟩ :=
        hbegin.executed _ (b := .postgres) ApplicationError.infrastructure text hselect
      rw [Database.outcome_ok outcome_begin, Database.outcome_ok h₁]
      dsimp only
      split
      · next hu =>
          obtain ⟨s₂, h₂, hs₂⟩ := ho₁.refused
            (.insertExternalUser command.username command.passwordHash)
            (b := .postgres) (d := d) ApplicationError.conflict text (if_pos hu)
          rw [Database.outcome_error h₂]
          exact Prod.ext rfl hs₂
      · next hu =>
          obtain ⟨tx₂, s₂, h₂, ho₂⟩ := ho₁.executed
            (.insertExternalUser command.username command.passwordHash)
            (b := .postgres) (d := d) ApplicationError.conflict text (if_neg hu)
          rw [Database.outcome_ok h₂]
          dsimp only
          split
          · next hc =>
              obtain ⟨s₃, h₃, hs₃⟩ := ho₂.refused
                (.insertConnection d.id p.provider p.providerUserId p.email)
                (b := .postgres) (d := d) ApplicationError.conflict text (if_pos hc)
              rw [Database.outcome_error h₃]
              exact Prod.ext rfl hs₃
          · next hc =>
              obtain ⟨tx₃, s₃, h₃, ho₃⟩ := ho₂.executed _ (b := .postgres) ApplicationError.conflict text
                (insertConnection_fits (t := t) hc)
              obtain ⟨tx₄, s₄, h₄, ho₄⟩ := ho₃.executed
                (.deletePendingSignup command.token)
                (b := .postgres) (d := d) ApplicationError.infrastructure text rfl
              obtain ⟨tx₅, s₅, h₅, ho₅⟩ := ho₄.published (b := .postgres) text d command
              rw [Database.outcome_ok h₃]
              dsimp only
              rw [Database.outcome_ok h₄]
              dsimp only
              rw [Database.outcome_ok h₅, Database.outcome_ok outcome_commit]
              refine Prod.ext rfl (ho₅.publish.trans ?_)
              unfold published signupTables
              cases command.publishSearch <;> rfl

end Signup

/-! ### The backends agree -/

section Single

variable {b : Backend} {text : String} {d : Draw} {t : Tables} {ε α β : Type}

/-- A function of the result settles as the program does. -/
theorem settle_bind_done (p : Program Call Reply α) (f : α → β) :
    (database b).settle text d (p >>= fun a => .done (f a)) t =
      (f ((database b).settle text d p t).1, ((database b).settle text d p t).2) := by
  unfold Database.settle
  rw [Database.outcome_bind]
  rfl

/-- A statement outside a transaction, as a function of the tables. -/
theorem settle_auto (onError : String → ε) (st : Statement) :
    (database b).settle text d (auto onError st).run t =
      match execute t d st with
      | none => (.error (onError text), t)
      | some (res, writes, _) => (.ok res, writes.foldl applyWrite t) := by
  unfold Database.settle
  rw [outcome_auto]
  cases execute t d st <;> rfl

/-- Linking settles as its statement. -/
theorem settle_link {username provider providerUserId email : String} :
    (database b).settle text d (linkConnection username provider providerUserId email).run t =
      match execute t d (.linkConnection username provider providerUserId email) with
      | none => (.error (.conflict text), t)
      | some (rows, writes, _) =>
          (if rows = 0 then .error (.notFound "User not found") else .ok (),
            writes.foldl applyWrite t) := by
  unfold Database.settle linkConnection
  cases he : execute t d (.linkConnection username provider providerUserId email) with
  | none =>
      have h : (database b).outcome text d (auto DomainError.conflict
          (.linkConnection username provider providerUserId email)).run ⟨t, fun _ => false⟩ =
            (.error (.conflict text), ⟨t, fun _ => false⟩) := by rw [outcome_auto, he]
      rw [Database.outcome_error h]
  | some result =>
      obtain ⟨rows, writes, keys⟩ := result
      rw [Database.outcome_ok (outcome_auto_ok he)]
      dsimp only
      split <;> rfl

theorem settle_username {provider providerUserId : String} :
    (database b).settle text d (usernameForConnection provider providerUserId).run t =
      match execute t d (.usernameForConnection provider providerUserId) with
      | none => (.error (.validation text), t)
      | some (res, writes, _) => (.ok res, writes.foldl applyWrite t) := by
  rw [usernameForConnection, settle_auto]
  cases execute t d (.usernameForConnection provider providerUserId) <;> rfl

theorem settle_pending {signup : PendingOAuthSignup} :
    (database b).settle text d (insertPendingSignup signup).run t =
      match execute t d (.upsertPendingSignup signup) with
      | none => (.error (.validation text), t)
      | some (res, writes, _) => (.ok res, writes.foldl applyWrite t) := by
  rw [insertPendingSignup, settle_auto]
  cases execute t d (.upsertPendingSignup signup) <;> rfl

/-- Both backends settle a signup alike. -/
theorem settle_signup {command : CompleteOAuthSignup} :
    (database b).settle text d (b.completeSignup command).run t = signedUp text t d command := by
  cases b with
  | sqlite => exact Sqlite.settle_signup
  | postgres => exact Postgres.settle_signup

/-- Both settle the completion of a pending one alike. -/
theorem settle_completePending {token : Nat} {now : Int} {username passwordHash : String} :
    (database b).settle text d (completePendingSignup b token now username passwordHash).run t =
      ((signedUp text t d ⟨token, now, username, passwordHash, false⟩).1.mapError
          applicationToDomain,
        (signedUp text t d ⟨token, now, username, passwordHash, false⟩).2) := by
  unfold completePendingSignup
  have hmap : (ExceptT.adapt applicationToDomain
      (b.completeSignup ⟨token, now, username, passwordHash, false⟩)).run =
        (b.completeSignup ⟨token, now, username, passwordHash, false⟩).run >>= fun r =>
          .done (r.mapError applicationToDomain) := rfl
  rw [hmap, settle_bind_done, settle_signup]

end Single

/-- An external-only user who has one connection or none is to lose one that it does
not have. -/
def Premature (t : Tables) : Step → Prop
  | .request (.unlink username provider) => ∃ u, t.liveUser username = some u ∧
      u.externalOnly = true ∧ t.connectionCount u.id ≤ 1 ∧
        t.connections.any (IsAccount u.id provider) = false
  | _ => False

section Agreement

variable (le : String → String → Bool) (text : Backend → String)

/-- Unlinking leaves the same tables in both. -/
theorem unlinked_tables (t : Tables) (username provider : String) :
    (Sqlite.unlinked t username provider).2 = (Postgres.unlinked t username provider).2 := by
  unfold Sqlite.unlinked Postgres.unlinked
  cases t.liveUser username with
  | none => rfl
  | some u =>
      dsimp only
      split <;> split <;> rfl

/-- Its results differ exactly on a premature request. -/
theorem unlinked_result (t : Tables) (username provider : String) :
    (Sqlite.unlinked t username provider).1 = (Postgres.unlinked t username provider).1 ↔
      ¬Premature t (.request (.unlink username provider)) := by
  have hiff : Premature t (.request (.unlink username provider)) ↔
      ∃ u, t.liveUser username = some u ∧ u.externalOnly = true ∧ t.connectionCount u.id ≤ 1 ∧
        t.connections.any (IsAccount u.id provider) = false := Iff.rfl
  rw [hiff]
  unfold Sqlite.unlinked Postgres.unlinked
  cases hu : t.liveUser username with
  | none => simp only [reduceCtorEq, false_and, exists_false, not_false_eq_true]
  | some u =>
      simp only [Option.some.injEq, exists_eq_left']
      cases hc : t.connections.any (IsAccount u.id provider) with
      | true => simp
      | false =>
          by_cases hone : u.externalOnly = true ∧ t.connectionCount u.id ≤ 1
          · simp [hone]
          · simp only [hone, if_neg Bool.false_ne_true, if_false]
            exact iff_of_true trivial fun h => hone ⟨h.1, h.2.1⟩

/-- The tables after a signup do not depend on the text of an error. -/
theorem signedUp_tables (text text' : String) (t : Tables) (d : Draw)
    (command : CompleteOAuthSignup) :
    (signedUp text t d command).2 = (signedUp text' t d command).2 := by
  unfold signedUp
  cases pendingSignup t command.token command.now with
  | none => rfl
  | some p =>
      dsimp only
      split
      · rfl
      · split <;> rfl

/-- A signup differs at most in the text of a conflict. -/
theorem signedUp_cases (text text' : String) (t : Tables) (d : Draw)
    (command : CompleteOAuthSignup) :
    (signedUp text t d command).1 = (signedUp text' t d command).1 ∨
      (signedUp text t d command).1 = .error (.conflict text) ∧
        (signedUp text' t d command).1 = .error (.conflict text') := by
  unfold signedUp
  cases pendingSignup t command.token command.now with
  | none => exact .inl rfl
  | some p =>
      dsimp only
      split
      · exact .inr ⟨rfl, rfl⟩
      · split
        · exact .inr ⟨rfl, rfl⟩
        · exact .inl rfl

/-- **One operation**: the tables agree, and the results do but in one case. -/
theorem step_agrees (d : Draw) (t : Tables) (op : Step) :
    (Backend.step le .sqlite (text .sqlite) d t op).2 =
        (Backend.step le .postgres (text .postgres) d t op).2 ∧
      ((Backend.step le .sqlite (text .sqlite) d t op).1 =
          (Backend.step le .postgres (text .postgres) d t op).1 ↔ ¬Premature t op) := by
  cases op with
  | listConnections username => exact ⟨rfl, iff_of_true rfl not_false⟩
  | request q =>
      unfold Backend.step
      cases q with
      | unlink username provider =>
          unfold serve
          simp only [settle_bind_done, Backend.unlinkConnection]
          rw [Sqlite.settle_unlink, Postgres.settle_unlink]
          refine ⟨unlinked_tables t username provider, ?_⟩
          rw [← unlinked_result]
          simp [Outcome.bare, Except.mapError]
      | link username provider providerUserId email =>
          unfold serve
          simp only [settle_bind_done, settle_link]
          cases execute t d (.linkConnection username provider providerUserId email) with
          | none => exact ⟨rfl, iff_of_true rfl not_false⟩
          | some result => exact ⟨rfl, iff_of_true rfl not_false⟩
      | usernameForConnection provider providerUserId =>
          unfold serve
          simp only [settle_bind_done, settle_username]
          cases execute t d (.usernameForConnection provider providerUserId) with
          | none => exact ⟨rfl, iff_of_true rfl not_false⟩
          | some result => exact ⟨rfl, iff_of_true rfl not_false⟩
      | insertPendingSignup signup =>
          unfold serve
          simp only [settle_bind_done, settle_pending]
          cases execute t d (.upsertPendingSignup signup) with
          | none => exact ⟨rfl, iff_of_true rfl not_false⟩
          | some result => exact ⟨rfl, iff_of_true rfl not_false⟩
      | completeOAuthSignup command =>
          unfold serve
          simp only [settle_bind_done, settle_signup]
          refine ⟨signedUp_tables .., iff_of_true ?_ not_false⟩
          rcases signedUp_cases (text .sqlite) (text .postgres) t d _ with h | ⟨h, h'⟩
          · rw [h]
          · rw [h, h']
            rfl
      | completePendingSignup token now username passwordHash =>
          unfold serve
          simp only [settle_bind_done, settle_completePending]
          refine ⟨signedUp_tables .., iff_of_true ?_ not_false⟩
          rcases signedUp_cases (text .sqlite) (text .postgres) t d _ with h | ⟨h, h'⟩
          · rw [h]
          · rw [h, h']
            rfl

/-- **The tables of the two backends are the same after every run.** -/
theorem run_tables (ops : List (Step × Draw)) (t : Tables) :
    (Backend.run le .sqlite (text .sqlite) ops t).2 =
      (Backend.run le .postgres (text .postgres) ops t).2 := by
  induction ops generalizing t with
  | nil => rfl
  | cons op ops ih =>
      obtain ⟨op, d⟩ := op
      have hstep := (step_agrees le text d t op).1
      unfold Backend.run
      dsimp only
      rw [ih, hstep]

end Agreement

end OAuth
end Identity
end Hegira
