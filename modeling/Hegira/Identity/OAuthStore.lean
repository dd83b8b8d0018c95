/-
# The OAuth store: `SqliteOAuthRepository` and `SqlxIdentityRepository`

`sqlx/src/identity/oauth/sqlite_repository.rs` and
`sqlx/src/identity/oauth/repository.rs`.

The statements of the two repositories, as functions of the tables they see, and the
transactions they are part of.  SQLite has one lock, that of the database, which every
statement that may write takes.  Postgres locks what a statement writes: the rows that
it changes or selects `FOR UPDATE`, and the entries of the unique indexes that it
inserts.  It also takes a shared lock on the user that a connection refers to; this
lock is left out, so that a link may run here where it would wait there.

`id` and `pid` of a new user are values that no row has, as the unique indexes demand.
-/

import Mathlib.Data.List.Basic
import Hegira.Identity.Schema
import Hegira.Library.Transactions

namespace Hegira
namespace Identity
namespace OAuth

/-- What a lock protects: a row, or an entry of a unique index. -/
inductive Key where
  | user (id : Nat)
  | username (username : String)
  | pid (pid : Nat)
  | identity (provider providerUserId : String)
  | account (userId : Nat) (provider : String)
  | pendingToken (token : Nat)
  | pendingIdentity (provider providerUserId : String)
  | outbox (key : OutboxKey)
  deriving DecidableEq

inductive Lock where
  | database
  | row (key : Key)
  deriving DecidableEq

inductive Backend where
  | sqlite
  | postgres
  deriving DecidableEq

/-- The lock that protects a key. -/
def Backend.lock : Backend → Key → Lock
  | .sqlite, _ => .database
  | .postgres, key => .row key

inductive Write where
  | insertUser (u : User)
  | insertConnection (c : OAuthConnection)
  | updateConnection (userId : Nat) (provider providerUserId email : String)
  | deleteConnection (userId : Nat) (provider : String)
  | upsertPendingSignup (signup : PendingOAuthSignup)
  | deletePendingSignup (token : Nat)
  | enqueue (m : OutboxMessage)

/-- The connection of the user with the provider. -/
def IsAccount (userId : Nat) (provider : String) (c : OAuthConnection) : Bool :=
  c.account == (userId, provider)

def applyWrite (t : Tables) : Write → Tables
  | .insertUser u => { t with users := t.users ++ [u] }
  | .insertConnection c => { t with connections := t.connections ++ [c] }
  | .updateConnection userId provider providerUserId email =>
      { t with connections := t.connections.map fun c =>
          if IsAccount userId provider c then
            { c with providerUserId := providerUserId, email := email }
          else c }
  | .deleteConnection userId provider =>
      { t with connections := t.connections.filter fun c => !IsAccount userId provider c }
  | .upsertPendingSignup signup =>
      { t with pendingSignups := (t.pendingSignups.filter fun p =>
          (p.provider, p.providerUserId) != (signup.provider, signup.providerUserId)) ++ [signup] }
  | .deletePendingSignup token =>
      { t with pendingSignups := t.pendingSignups.filter fun p => p.token != token }
  | .enqueue m => t.enqueue m

/-- `CompleteOAuthSignup`. -/
structure CompleteOAuthSignup where
  token : Nat
  now : Int
  username : String
  passwordHash : String
  publishSearch : Bool

/-- The columns that `INSERT INTO users .. RETURNING` returns. -/
structure NewUser where
  id : Nat
  pid : Nat
  createdAt : Int
  searchRevision : Nat

inductive Statement where
  | selectUserForUpdate (username : String)
  | countConnections (userId : Nat)
  | deleteConnection (userId : Nat) (provider : String)
  | deleteConnectionUnlessLast (username provider : String)
  | isLastConnection (username provider : String)
  | usernameForConnection (provider providerUserId : String)
  | linkConnection (username provider providerUserId email : String)
  | upsertPendingSignup (signup : PendingOAuthSignup)
  | deletePendingSignupReturning (token : Nat) (now : Int)
  | selectPendingSignupForUpdate (token : Nat) (now : Int)
  | deletePendingSignup (token : Nat)
  | insertExternalUser (username passwordHash : String)
  | insertConnection (userId : Nat) (provider providerUserId email : String)
  | enqueueUserUpsert (document : UserDocument) (revision : Nat)

namespace Statement

abbrev Result : Statement → Type
  | selectUserForUpdate _ => Option (Nat × Bool)
  | countConnections _ => Nat
  | deleteConnection .. => Nat
  | deleteConnectionUnlessLast .. => Bool
  | isLastConnection .. => Bool
  | usernameForConnection .. => Option String
  | linkConnection .. => Nat
  | upsertPendingSignup _ => Unit
  | deletePendingSignupReturning .. => Option PendingOAuthSignup
  | selectPendingSignupForUpdate .. => Option PendingOAuthSignup
  | deletePendingSignup _ => Unit
  | insertExternalUser .. => NewUser
  | insertConnection .. => Unit
  | enqueueUserUpsert .. => Unit

end Statement

/-- Values drawn for a statement: the identifiers of a new row, and the time. -/
structure Draw where
  id : Nat
  pid : Nat
  now : Int

/-- The keys of a pending signup. -/
def pendingKeys (p : PendingOAuthSignup) : List Key :=
  [.pendingToken p.token, .pendingIdentity p.provider p.providerUserId]

/-- `WHERE token = ? AND expires_at > ?`. -/
def pendingSignup (t : Tables) (token : Nat) (now : Int) : Option PendingOAuthSignup :=
  t.pendingSignups.find? fun p => p.token == token && decide (now < p.expiresAt)

/-- The row of `INSERT INTO users (.., external_only, ..) VALUES (.., 1, ..)`. -/
def externalUser (d : Draw) (username passwordHash : String) : User :=
  { User.inserted d.id d.pid username passwordHash d.now with externalOnly := true }

/-- The statements. -/
def execute (t : Tables) (d : Draw) :
    (st : Statement) → Option (st.Result × List Write × List Key)
  | .selectUserForUpdate username =>
      match t.liveUser username with
      | none => some (none, [], [])
      | some u => some (some (u.id, u.externalOnly), [], [.user u.id])
  | .countConnections userId => some (t.connectionCount userId, [], [])
  | .deleteConnection userId provider =>
      let rows := t.connections.filter (IsAccount userId provider)
      some (rows.length, [.deleteConnection userId provider],
        rows.flatMap fun c => [.identity c.provider c.providerUserId, .account userId provider])
  | .deleteConnectionUnlessLast username provider =>
      match t.liveUser username with
      | none => some (false, [], [.username username])
      | some u =>
          if t.connections.any (IsAccount u.id provider) &&
              (!u.externalOnly || decide (1 < t.connectionCount u.id)) then
            some (true, [.deleteConnection u.id provider], [.user u.id])
          else some (false, [], [.user u.id])
  | .isLastConnection username provider =>
      match t.liveUser username with
      | none => some (false, [], [])
      | some u =>
          some (u.externalOnly && t.connections.any (IsAccount u.id provider) &&
            decide (t.connectionCount u.id ≤ 1), [], [])
  | .usernameForConnection provider providerUserId =>
      match t.connections.find? fun c => c.identity == (provider, providerUserId) with
      | none => some (none, [], [])
      | some c => some ((t.users.find? fun u => u.id == c.userId && u.live).map User.username, [], [])
  | .linkConnection username provider providerUserId email =>
      match t.liveUser username with
      | none => some (0, [], [.username username])
      | some u =>
          let keys := [Key.identity provider providerUserId, .account u.id provider]
          -- the primary key, of a row that is not the one to be updated
          if t.connections.any fun c => c.identity == (provider, providerUserId) &&
              !IsAccount u.id provider c then none
          else if t.connections.any (IsAccount u.id provider) then
            some (1, [.updateConnection u.id provider providerUserId email], keys)
          else some (1, [.insertConnection ⟨u.id, provider, providerUserId, email, d.now⟩], keys)
  | .upsertPendingSignup signup =>
      if t.pendingSignups.any fun p => p.token == signup.token &&
          (p.provider, p.providerUserId) != (signup.provider, signup.providerUserId) then none
      else some ((), [.upsertPendingSignup signup], pendingKeys signup)
  | .deletePendingSignupReturning token now =>
      match pendingSignup t token now with
      | none => some (none, [], [.pendingToken token])
      | some p => some (some p, [.deletePendingSignup token], pendingKeys p)
  | .selectPendingSignupForUpdate token now =>
      match pendingSignup t token now with
      | none => some (none, [], [])
      | some p => some (some p, [], pendingKeys p)
  | .deletePendingSignup token => some ((), [.deletePendingSignup token], [.pendingToken token])
  | .insertExternalUser username passwordHash =>
      if t.users.any fun u => u.username == username || u.id == d.id || u.pid == d.pid then none
      else
        some (⟨d.id, d.pid, d.now, 0⟩, [.insertUser (externalUser d username passwordHash)],
          [.user d.id, .username username, .pid d.pid])
  | .insertConnection userId provider providerUserId email =>
      if t.connections.any fun c =>
          c.identity == (provider, providerUserId) || IsAccount userId provider c then none
      else if t.users.any fun u => u.id == userId then
        some ((), [.insertConnection ⟨userId, provider, providerUserId, email, d.now⟩],
          [.identity provider providerUserId, .account userId provider])
      else none
  | .enqueueUserUpsert document revision =>
      some ((), [.enqueue ⟨.search document.id revision, .search (.upsert document revision)⟩],
        [.outbox (.search document.id revision)])

/-- The database of a backend. -/
def database (b : Backend) : Database Tables Statement Statement.Result Write Lock Draw where
  write := applyWrite
  execute t d st := (execute t d st).map fun (res, writes, keys) => (res, writes, keys.map b.lock)

abbrev Call := TxCall Statement Write Lock

abbrev Reply : Call → Type := TxCall.Reply Statement.Result

/-! ### The repositories -/

abbrev Repository (ε : Type) := Fallible ε Call Reply

section Calls

variable {ε : Type} (onError : String → ε)

/-- `pool.begin()`. -/
def begin : Repository ε (Tx Write Lock) :=
  ExceptT.mk (.call .begin fun r => .done ((r.mapError onError).map fun _ => .empty))

/-- A statement on `&mut *tx`. -/
def exec (tx : Tx Write Lock) (st : Statement) : Repository ε (st.Result × Tx Write Lock) :=
  ExceptT.mk (.call (.exec tx st) fun r => .done (r.mapError onError))

/-- `tx.commit()`. -/
def commit (tx : Tx Write Lock) : Repository ε Unit :=
  ExceptT.mk (.call (.commit tx) fun r => .done (r.mapError onError))

/-- The transaction is dropped. -/
def rollback (tx : Tx Write Lock) : Repository ε Unit :=
  ExceptT.mk (.call (.rollback tx) fun _ => .done (.ok ()))

/-- A statement on `&self.pool`. -/
def auto (st : Statement) : Repository ε st.Result :=
  ExceptT.mk (.call (.auto st) fun r => .done (r.mapError onError))

end Calls

/-- `OAuthUnlinkResult`. -/
inductive UnlinkResult where
  | unlinked
  | lastConnection
  | notFound
  deriving DecidableEq

/-- `username_for_connection`. -/
def usernameForConnection (provider providerUserId : String) :
    Repository DomainError (Option String) :=
  auto .validation (.usernameForConnection provider providerUserId)

/-- `link_connection`. -/
def linkConnection (username provider providerUserId email : String) :
    Repository DomainError Unit := do
  let rowsAffected ← auto .conflict (.linkConnection username provider providerUserId email)
  if rowsAffected = 0 then
    throw (.notFound "User not found")
  else
    return ()

/-- `insert_pending_signup`. -/
def insertPendingSignup (signup : PendingOAuthSignup) : Repository DomainError Unit :=
  auto .validation (.upsertPendingSignup signup)

/-- The index document of a new user. -/
def newDocument (user : NewUser) (username : String) : UserDocument :=
  ⟨user.pid, username, user.createdAt, false, []⟩

/-- `enqueue_user_upsert`, with `publish_search`. -/
def publishSignup (command : CompleteOAuthSignup) (user : NewUser) (tx : Tx Write Lock) :
    Repository ApplicationError (Tx Write Lock) := do
  if command.publishSearch then
    let ((), tx) ← exec .infrastructure tx
      (.enqueueUserUpsert (newDocument user command.username) user.searchRevision)
    return tx
  else
    return tx

namespace Sqlite

/-- `unlink_connection`. -/
def unlinkConnection (username provider : String) : Repository DomainError UnlinkResult := do
  let deleted ← auto .validation (.deleteConnectionUnlessLast username provider)
  if deleted then
    return .unlinked
  else
    let blocked ← auto .validation (.isLastConnection username provider)
    return if blocked then .lastConnection else .notFound

/-- `complete_signup`. -/
def completeSignup (command : CompleteOAuthSignup) : Repository ApplicationError Bool := do
  let tx ← begin .infrastructure
  let (pending, tx) ← exec .infrastructure tx
    (.deletePendingSignupReturning command.token command.now)
  match pending with
  | none => do
      rollback tx
      return false
  | some pending => do
      let (user, tx) ← exec .conflict tx (.insertExternalUser command.username command.passwordHash)
      let ((), tx) ← exec .conflict tx
        (.insertConnection user.id pending.provider pending.providerUserId pending.email)
      let tx ← publishSignup command user tx
      commit .infrastructure tx
      return true

end Sqlite

namespace Postgres

/-- `unlink_connection`. -/
def unlinkConnection (username provider : String) : Repository DomainError UnlinkResult := do
  let tx ← begin .validation
  let (user, tx) ← exec .validation tx (.selectUserForUpdate username)
  match user with
  | none => do
      rollback tx
      return .notFound
  | some (userId, externalOnly) => do
      let (connectionCount, tx) ← exec .validation tx (.countConnections userId)
      if externalOnly = true ∧ connectionCount ≤ 1 then
        rollback tx
        return .lastConnection
      else
        let (deleted, tx) ← exec .validation tx (.deleteConnection userId provider)
        commit .validation tx
        return if deleted = 0 then .notFound else .unlinked

/-- `complete_signup_transaction`. -/
def completeSignup (command : CompleteOAuthSignup) : Repository ApplicationError Bool := do
  let tx ← begin .infrastructure
  let (pending, tx) ← exec .infrastructure tx
    (.selectPendingSignupForUpdate command.token command.now)
  match pending with
  | none => do
      rollback tx
      return false
  | some pending => do
      let (user, tx) ← exec .conflict tx (.insertExternalUser command.username command.passwordHash)
      let ((), tx) ← exec .conflict tx
        (.insertConnection user.id pending.provider pending.providerUserId pending.email)
      let ((), tx) ← exec .infrastructure tx (.deletePendingSignup command.token)
      let tx ← publishSignup command user tx
      commit .infrastructure tx
      return true

end Postgres

/-- `unlink_connection` of the backend. -/
def Backend.unlinkConnection : Backend → String → String → Repository DomainError UnlinkResult
  | .sqlite => Sqlite.unlinkConnection
  | .postgres => Postgres.unlinkConnection

/-- `complete_oauth_signup` of the backend. -/
def Backend.completeSignup : Backend → CompleteOAuthSignup → Repository ApplicationError Bool
  | .sqlite => Sqlite.completeSignup
  | .postgres => Postgres.completeSignup

/-- `application_to_domain`. -/
def applicationToDomain : ApplicationError → DomainError
  | .conflict message => .conflict message
  | .notFound message => .notFound message
  | error => .validation error.message

/-- `complete_pending_signup`. -/
def completePendingSignup (b : Backend) (token : Nat) (now : Int) (username passwordHash : String) :
    Repository DomainError Bool :=
  ExceptT.adapt applicationToDomain
    (b.completeSignup ⟨token, now, username, passwordHash, false⟩)

end OAuth
end Identity
end Hegira
