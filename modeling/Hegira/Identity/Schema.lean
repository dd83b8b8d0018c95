/-
# The tables of the identity store

`sqlx/migrations/sqlite` and `sqlx/migrations/postgres`, and the errors of
`domain_shared/src/common/errors.rs` and `application/src/shared/errors.rs`.

Tokens, secrets, hashes of backup codes and the public ids of rows are numbers; times
are in microseconds.  A row leaves out a `created_at` that nothing reads.  The outbox
holds what the identity store puts there, each message under its idempotency key; the
text of a key, `identity_users:{pid}:{revision}` or `mail:{purpose}:{username}:{micros}`,
tells its parts apart.
-/

import Mathlib.Data.List.Basic

namespace Hegira
namespace Identity

inductive DomainError where
  | validation (message : String)
  | conflict (message : String)
  | notFound (message : String)
  | unauthorized
  | forbidden (message : String)
  deriving DecidableEq

inductive ApplicationErrorKind where
  | validation
  | conflict
  | notFound
  | unauthorized
  | forbidden
  | infrastructure
  | unexpected
  deriving DecidableEq

inductive ApplicationError where
  | validation (message : String)
  | conflict (message : String)
  | notFound (message : String)
  | unauthorized
  | forbidden (message : String)
  | infrastructure (message : String)
  | unexpected (message : String)
  | coded (kind : ApplicationErrorKind) (code message : String)
  deriving DecidableEq

/-- `Display` of an `ApplicationError`. -/
def ApplicationError.message : ApplicationError → String
  | validation message => message
  | conflict message => message
  | notFound message => message
  | unauthorized => "unauthorized"
  | forbidden message => message
  | infrastructure message => message
  | unexpected message => message
  | coded _ _ message => message

/-- `From<DomainError> for ApplicationError`. -/
def ApplicationError.ofDomain : DomainError → ApplicationError
  | .validation message => .validation message
  | .conflict message => .conflict message
  | .notFound message => .notFound message
  | .unauthorized => .unauthorized
  | .forbidden message => .forbidden message

/-- A row of `users`. -/
structure User where
  id : Nat
  pid : Nat
  username : String
  passwordHash : String
  createdAt : Int
  resetToken : Option Nat
  resetSentAt : Option Int
  emailVerificationToken : Option Nat
  emailVerificationSentAt : Option Int
  emailVerifiedAt : Option Int
  magicLinkToken : Option Nat
  magicLinkExpiresAt : Option Int
  deletedAt : Option Int
  totpSecret : Option Nat
  totpEnabledAt : Option Int
  totpBackupCodeHashes : List Nat
  totpLoginToken : Option Nat
  totpLoginExpiresAt : Option Int
  searchRevision : Nat
  pendingEmail : Option String
  emailChangeToken : Option Nat
  emailChangeSentAt : Option Int
  externalOnly : Bool
  deriving DecidableEq

/-- A row of `users` with the columns that every insertion gives, and the defaults. -/
def User.inserted (id pid : Nat) (username passwordHash : String) (createdAt : Int) : User where
  id := id
  pid := pid
  username := username
  passwordHash := passwordHash
  createdAt := createdAt
  resetToken := none
  resetSentAt := none
  emailVerificationToken := none
  emailVerificationSentAt := none
  emailVerifiedAt := none
  magicLinkToken := none
  magicLinkExpiresAt := none
  deletedAt := none
  totpSecret := none
  totpEnabledAt := none
  totpBackupCodeHashes := []
  totpLoginToken := none
  totpLoginExpiresAt := none
  searchRevision := 0
  pendingEmail := none
  emailChangeToken := none
  emailChangeSentAt := none
  externalOnly := false

/-- `deleted_at IS NULL`. -/
def User.live (u : User) : Bool := u.deletedAt.isNone

/-- A row of `sessions`. -/
structure SessionRow where
  pid : Nat
  token : Nat
  userId : Nat
  createdAt : Int
  expiresAt : Int
  maxExpiresAt : Int
  deriving DecidableEq

/-- A row of `roles`. -/
structure Role where
  name : String
  deletedAt : Option Int
  deriving DecidableEq

/-- A row of `user_roles`. -/
structure UserRole where
  userId : Nat
  roleName : String
  deriving DecidableEq

/-- A row of `role_permissions`. -/
structure RolePermission where
  roleName : String
  permissionName : String
  deriving DecidableEq

/-- A row of `user_oauth_connections`. -/
structure OAuthConnection where
  userId : Nat
  provider : String
  providerUserId : String
  email : String
  createdAt : Int
  deriving DecidableEq

/-- The primary key: the identity that the provider vouches for. -/
def OAuthConnection.identity (c : OAuthConnection) : String × String :=
  (c.provider, c.providerUserId)

/-- The other key: a user has one connection with a provider. -/
def OAuthConnection.account (c : OAuthConnection) : Nat × String := (c.userId, c.provider)

/-- A row of `oauth_pending_signups`. -/
structure PendingOAuthSignup where
  token : Nat
  provider : String
  providerUserId : String
  email : String
  createdAt : Int
  expiresAt : Int
  deriving DecidableEq

/-- `SearchDocument` of the user index. -/
structure UserDocument where
  id : Nat
  username : String
  createdAt : Int
  isVerified : Bool
  roles : List String
  deriving DecidableEq

/-- `SearchIndexCommand` for the index `identity_users`. -/
inductive SearchIndexCommand where
  | upsert (document : UserDocument) (revision : Nat)
  | delete (documentId : Nat) (revision : Nat)
  deriving DecidableEq

/-- The purposes that a mail is keyed by. -/
inductive MailPurpose where
  | verifyEmail
  | resetPassword
  | magicLink
  | changeEmail
  deriving DecidableEq

/-- `TransactionalMail`: the recipient, and the token in the link. -/
inductive TransactionalMail where
  | verifyEmail (recipient : String) (token : Nat)
  | resetPassword (recipient : String) (token : Nat)
  | magicLink (recipient : String) (token : Nat)
  | confirmEmailChange (recipient : String) (token : Nat)
  deriving DecidableEq

/-- A name with an idempotency key. -/
inductive OutboxKey where
  | search (pid revision : Nat)
  | mail (purpose : MailPurpose) (username : String) (micros : Int)
  deriving DecidableEq

inductive OutboxPayload where
  | search (command : SearchIndexCommand)
  | mail (mail : TransactionalMail)
  deriving DecidableEq

/-- A row of `outbox_messages`. -/
structure OutboxMessage where
  key : OutboxKey
  payload : OutboxPayload
  deriving DecidableEq

/-- The tables. -/
structure Tables where
  users : List User
  sessions : List SessionRow
  roles : List Role
  permissions : List String
  userRoles : List UserRole
  rolePermissions : List RolePermission
  connections : List OAuthConnection
  pendingSignups : List PendingOAuthSignup
  outbox : List OutboxMessage

namespace Tables

/-- No rows. -/
def empty : Tables := ⟨[], [], [], [], [], [], [], [], []⟩

/-- `WHERE username = ? AND deleted_at IS NULL`. -/
def liveUser (t : Tables) (username : String) : Option User :=
  t.users.find? fun u => u.username == username && u.live

/-- `INSERT INTO outbox_messages .. ON CONFLICT (name, idempotency_key) .. DO UPDATE SET
name = excluded.name`: a message that is there stays as it is. -/
def enqueue (t : Tables) (m : OutboxMessage) : Tables :=
  if t.outbox.any fun m' => m'.key == m.key then t else { t with outbox := t.outbox ++ [m] }

/-- The number of connections of a user. -/
def connectionCount (t : Tables) (userId : Nat) : Nat :=
  t.connections.countP fun c => c.userId == userId

theorem liveUser_mem {t : Tables} {username : String} {u : User} (h : t.liveUser username = some u) :
    u ∈ t.users := List.mem_of_find?_eq_some h

end Tables

end Identity
end Hegira
