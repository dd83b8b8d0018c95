/-
# The user writer: `ManagedUserWriter`

`sqlx/src/identity/users/sqlite_managed_writer.rs` and
`sqlx/src/identity/users/managed_writer.rs`.

The operations of the two backends make the same statements; they differ in how they
leave a transaction without effect (`abandon`).  Statements see a working copy of the
tables, which a commit makes the tables (`Store`).  A statement fails when it breaks a
constraint, and may fail for any other reason; it then leaves the working copy as it
is, and the operation ends with the transaction dropped.  A commit that is answered by
an error may have been made all the same: the answer is what failed.

`id` and `pid` of a new user are values that no row has.
-/

import Mathlib.Data.List.Basic
import Hegira.Identity.Schema
import Hegira.Library.Program

namespace Hegira
namespace Identity
namespace Managed

inductive Backend where
  | sqlite
  | postgres
  deriving DecidableEq

/-- Values drawn for a statement: the identifiers of a new row, and the time. -/
structure Draw where
  id : Nat
  pid : Nat
  now : Int

/-- `RegisterManagedUser`. -/
structure RegisterManagedUser where
  username : String
  passwordHash : String
  verificationToken : Nat
  verificationSentAt : Int
  publishSearch : Bool
  mail : Option TransactionalMail

/-- `CreateManagedUser`. -/
structure CreateManagedUser where
  username : String
  passwordHash : String
  emailVerifiedAt : Option Int
  roles : List String
  publishSearch : Bool

/-- `UpdateManagedUser`. -/
structure UpdateManagedUser where
  username : String
  passwordHash : Option String
  emailVerifiedAt : Option Int
  roles : List String
  publishSearch : Bool

/-- The columns of `TokenMailUpdate`: which token, and what is asked of the user. -/
inductive TokenColumn where
  | resetToken
  | emailVerificationToken
  | magicLinkToken
  deriving DecidableEq

/-- 24 hours. -/
def verificationWindow : Int := 24 * 3600 * 1000000

/-- One hour. -/
def emailChangeWindow : Int := 3600 * 1000000

/-- `sent_at > time`. -/
def sentAfter (sentAt : Option Int) (time : Int) : Bool := sentAt.any fun sent => time < sent

/-! ### Statements -/

/-- `UPDATE users SET f WHERE p`. -/
def updateUsers (t : Tables) (p : User → Bool) (f : User → User) : Tables :=
  { t with users := t.users.map fun u => if p u then f u else u }

/-- The row of `register_managed_user`. -/
def registered (d : Draw) (command : RegisterManagedUser) : User :=
  { User.inserted d.id d.pid command.username command.passwordHash d.now with
    emailVerificationToken := some command.verificationToken
    emailVerificationSentAt := some command.verificationSentAt }

/-- `WHERE email_verification_token = ? AND email_verification_sent_at > ? ..`. -/
def verifies (token : Nat) (verifiedAt : Int) (u : User) : Bool :=
  u.emailVerificationToken == some token &&
    sentAfter u.emailVerificationSentAt (verifiedAt - verificationWindow) && u.live

def verify (verifiedAt : Int) (u : User) : User :=
  { u with
    emailVerifiedAt := some verifiedAt
    emailVerificationToken := none
    emailVerificationSentAt := none
    searchRevision := u.searchRevision + 1 }

/-- `WHERE email_change_token = ? AND email_change_sent_at > ? AND pending_email IS NOT
NULL ..`. -/
def confirms (token : Nat) (confirmedAt : Int) (u : User) : Bool :=
  u.emailChangeToken == some token &&
    sentAfter u.emailChangeSentAt (confirmedAt - emailChangeWindow) &&
      u.pendingEmail.isSome && u.live

def confirm (confirmedAt : Int) (u : User) : User :=
  { u with
    username := u.pendingEmail.getD u.username
    pendingEmail := none
    emailChangeToken := none
    emailChangeSentAt := none
    emailVerifiedAt := some confirmedAt
    searchRevision := u.searchRevision + 1 }

/-- `WHERE username = ? AND deleted_at IS NULL`. -/
def named (username : String) (u : User) : Bool := u.username == username && u.live

/-- `WHERE username = ? AND deleted_at IS NULL` and the `extra_predicate`. -/
def takesToken (column : TokenColumn) (username : String) (u : User) : Bool :=
  named username u &&
    match column with
    | .emailVerificationToken => u.emailVerifiedAt.isNone
    | _ => true

def setToken (column : TokenColumn) (token : Nat) (time : Int) (u : User) : User :=
  match column with
  | .resetToken => { u with resetToken := some token, resetSentAt := some time }
  | .emailVerificationToken =>
      { u with emailVerificationToken := some token, emailVerificationSentAt := some time }
  | .magicLinkToken => { u with magicLinkToken := some token, magicLinkExpiresAt := some time }

def setEmailChange (newEmail : String) (token : Nat) (sentAt : Int) (u : User) : User :=
  { u with
    pendingEmail := some newEmail
    emailChangeToken := some token
    emailChangeSentAt := some sentAt }

/-- The row of `create_managed_user`, when the name is new. -/
def created (d : Draw) (command : CreateManagedUser) : User :=
  { User.inserted d.id d.pid command.username command.passwordHash d.now with
    emailVerifiedAt := command.emailVerifiedAt }

/-- `ON CONFLICT (username) DO UPDATE SET ..` of `create_managed_user`. -/
def restore (command : CreateManagedUser) (u : User) : User :=
  { u with
    passwordHash := command.passwordHash
    emailVerifiedAt := command.emailVerifiedAt
    resetToken := none
    resetSentAt := none
    emailVerificationToken := none
    emailVerificationSentAt := none
    magicLinkToken := none
    magicLinkExpiresAt := none
    totpSecret := none
    totpEnabledAt := none
    totpBackupCodeHashes := []
    totpLoginToken := none
    totpLoginExpiresAt := none
    deletedAt := none
    searchRevision := u.searchRevision + 1 }

/-- `UPDATE users SET ..` of `update_managed_user`. -/
def update (command : UpdateManagedUser) (u : User) : User :=
  { u with
    passwordHash := command.passwordHash.getD u.passwordHash
    emailVerifiedAt := command.emailVerifiedAt
    searchRevision := u.searchRevision + 1 }

/-- `UPDATE users SET ..` of `delete_managed_user`. -/
def softDelete (now : Int) (u : User) : User :=
  { u with deletedAt := some now, searchRevision := u.searchRevision + 1 }

inductive Statement where
  | insertRegistered (command : RegisterManagedUser)
  | updateVerified (token : Nat) (verifiedAt : Int)
  | updateToken (column : TokenColumn) (username : String) (token : Nat) (time : Int)
  | updateEmailChange (username newEmail : String) (token : Nat) (sentAt : Int)
  | updateConfirmed (token : Nat) (confirmedAt : Int)
  | upsertManaged (command : CreateManagedUser)
  | updateManaged (command : UpdateManagedUser)
  | updateDeleted (username : String)
  | selectUserId (username : String)
  | deleteUserRoles (userId : Nat)
  | insertUserRole (userId : Nat) (roleName : String)
  | selectRoles (userId : Nat)
  | selectUser (username : String)
  | enqueueOutbox (m : OutboxMessage)

abbrev Statement.Result : Statement → Type
  | insertRegistered _ => Option Nat
  | updateVerified .. => Option (String × Nat)
  | updateToken .. => Bool
  | updateEmailChange .. => Bool
  | updateConfirmed .. => Option (String × Nat)
  | upsertManaged _ => Option Nat
  | updateManaged _ => Option Nat
  | updateDeleted _ => Option (Nat × Nat)
  | selectUserId _ => Nat
  | deleteUserRoles _ => Unit
  | insertUserRole .. => Unit
  | selectRoles _ => List String
  | selectUser _ => Option User
  | enqueueOutbox _ => Unit

/-- The unique identifiers of a new row are in use. -/
def taken (t : Tables) (d : Draw) : Bool := t.users.any fun u => u.id == d.id || u.pid == d.pid

/-- `ORDER BY role_name`. -/
def rolesOf (t : Tables) (userId : Nat) : List String :=
  ((t.userRoles.filter fun r => r.userId == userId).map UserRole.roleName).mergeSort
    fun a b => decide (a ≤ b)

/-- What a statement returns and leaves, unless it breaks a constraint. -/
def execute (t : Tables) (d : Draw) : (st : Statement) → Option (st.Result × Tables)
  | .insertRegistered command =>
      if t.users.any fun u => u.username == command.username then some (none, t)
      else if taken t d then none
      else some (some 0, { t with users := t.users ++ [registered d command] })
  | .updateVerified token verifiedAt =>
      match t.users.find? (verifies token verifiedAt) with
      | none => some (none, t)
      | some u =>
          some (some (u.username, u.searchRevision + 1),
            updateUsers t (verifies token verifiedAt) (verify verifiedAt))
  | .updateToken column username token time =>
      some (t.users.any (takesToken column username),
        updateUsers t (takesToken column username) (setToken column token time))
  | .updateEmailChange username newEmail token sentAt =>
      if t.users.any (named username) && !t.users.any (named newEmail) then
        -- the unique index of the token
        if t.users.any fun u => u.emailChangeToken == some token && !named username u then none
        else some (true, updateUsers t (named username) (setEmailChange newEmail token sentAt))
      else some (false, t)
  | .updateConfirmed token confirmedAt =>
      match t.users.find? (confirms token confirmedAt) with
      | none => some (none, t)
      | some u =>
          let username := u.pendingEmail.getD u.username
          -- the unique name, of a row that is not the one to be updated
          if t.users.any fun v => v.username == username && v.id != u.id then none
          else
            some (some (username, u.searchRevision + 1),
              updateUsers t (confirms token confirmedAt) (confirm confirmedAt))
  | .upsertManaged command =>
      match t.users.find? fun u => u.username == command.username with
      | none =>
          if taken t d then none
          else some (some 0, { t with users := t.users ++ [created d command] })
      | some u =>
          if u.live then some (none, t)
          else
            some (some (u.searchRevision + 1),
              updateUsers t (fun u => u.username == command.username) (restore command))
  | .updateManaged command =>
      match t.users.find? (named command.username) with
      | none => some (none, t)
      | some u =>
          some (some (u.searchRevision + 1),
            updateUsers t (named command.username) (update command))
  | .updateDeleted username =>
      match t.users.find? (named username) with
      | none => some (none, t)
      | some u =>
          some (some (u.pid, u.searchRevision + 1), updateUsers t (named username) (softDelete d.now))
  | .selectUserId username =>
      (t.users.find? fun u => u.username == username).map fun u => (u.id, t)
  | .deleteUserRoles userId =>
      some ((), { t with userRoles := t.userRoles.filter fun r => r.userId != userId })
  | .insertUserRole userId roleName =>
      if t.userRoles.any fun r => r == ⟨userId, roleName⟩ then some ((), t)
      -- the role that the row refers to, deleted or not
      else if t.roles.any fun r => r.name == roleName then
        some ((), { t with userRoles := t.userRoles ++ [⟨userId, roleName⟩] })
      else none
  | .selectRoles userId => some (rolesOf t userId, t)
  | .selectUser username => some (t.users.find? (named username), t)
  | .enqueueOutbox m => some ((), t.enqueue m)

/-! ### Transactions -/

inductive Call where
  | begin
  | exec (st : Statement)
  | commit
  | rollback

abbrev Call.Value : Call → Type
  | begin => Unit
  | exec st => st.Result
  | commit => Unit
  | rollback => Unit

abbrev Reply (c : Call) : Type := Except String c.Value

/-- The committed tables, and the working copy of the transaction. -/
structure Store where
  tables : Tables
  working : Option Tables

/-- What may come of a call; every call may fail. -/
inductive Answer : Store → (c : Call) → Reply c → Store → Prop
  | begun {s : Store} : Answer s .begin (.ok ()) ⟨s.tables, some s.tables⟩
  | executed {t w w' : Tables} {d : Draw} {st : Statement} {res : st.Result}
      (he : execute w d st = some (res, w')) :
      Answer ⟨t, some w⟩ (.exec st) (.ok res) ⟨t, some w'⟩
  | committed {t w : Tables} : Answer ⟨t, some w⟩ .commit (.ok ()) ⟨w, none⟩
  | committedLate {t w : Tables} (message : String) :
      Answer ⟨t, some w⟩ .commit (.error message) ⟨w, none⟩
  | rolledBack {s : Store} : Answer s .rollback (.ok ()) ⟨s.tables, none⟩
  | failed {s : Store} {c : Call} (message : String) : Answer s c (.error message) s

abbrev Repository := Fallible ApplicationError Call Reply

/-- A call, with `db_error`. -/
def call (c : Call) : Repository c.Value :=
  ExceptT.mk (.call c fun r => .done (r.mapError .infrastructure))

/-- A statement on `&mut *tx`. -/
def exec (st : Statement) : Repository st.Result := call (.exec st)

/-- `ok_or_else`. -/
def okOr {α : Type} (error : ApplicationError) : Option α → Repository α
  | none => throw error
  | some a => pure a

/-- A transaction without effect is dropped, or rolled back. -/
def Backend.abandon : Backend → Repository Unit
  | .sqlite => pure ()
  | .postgres => call .rollback

/-! ### Operations -/

/-- `enqueue_mail`. -/
def enqueueMail (mail : TransactionalMail) (purpose : MailPurpose) (username : String)
    (timestamp : Int) : Repository Unit :=
  exec (.enqueueOutbox ⟨.mail purpose username timestamp, .mail mail⟩)

/-- The document of `enqueue_user_upsert`. -/
def documentOf (user : User) (roles : List String) : UserDocument :=
  ⟨user.pid, user.username, user.createdAt, user.emailVerifiedAt.isSome, roles⟩

/-- `enqueue_upsert`. -/
def enqueueUpsert (user : User) (roles : List String) (revision : Nat) : Repository Unit :=
  exec (.enqueueOutbox
    ⟨.search user.pid revision, .search (.upsert (documentOf user roles) revision)⟩)

/-- The loop of `set_roles`. -/
def insertRoles (id : Nat) : List String → Repository Unit
  | [] => pure ()
  | role :: roles => do
      exec (.insertUserRole id role)
      insertRoles id roles

/-- `set_roles`. -/
def setRoles (username : String) (roles : List String) : Repository Unit := do
  let id ← exec (.selectUserId username)
  exec (.deleteUserRoles id)
  insertRoles id roles

/-- `register_managed_user`. -/
def registerManagedUser (command : RegisterManagedUser) : Repository User := do
  call .begin
  let revision ← exec (.insertRegistered command)
  let revision ← okOr (.conflict "user already exists") revision
  let user ← exec (.selectUser command.username)
  let user ← okOr (.unexpected "registered user was not found") user
  if command.publishSearch then
    enqueueUpsert user [] revision
  match command.mail with
  | some mail => enqueueMail mail .verifyEmail command.username command.verificationSentAt
  | none => pure ()
  call .commit
  return user

/-- What `verify_managed_email` and `confirm_email_change` publish. -/
def publishUser (notFound username : String) (revision : Nat) : Repository Unit := do
  let user ← exec (.selectUser username)
  let user ← okOr (.unexpected notFound) user
  let roles ← exec (.selectRoles user.id)
  enqueueUpsert user roles revision

/-- An update of one user that returns its name and revision, published with its
roles. -/
def updateAndPublish (b : Backend) (st : Statement) (result : st.Result → Option (String × Nat))
    (notFound : String) (publishSearch : Bool) : Repository Bool := do
  call .begin
  let updated ← exec st
  match result updated with
  | none => do
      b.abandon
      return false
  | some (username, revision) => do
      if publishSearch then
        publishUser notFound username revision
      call .commit
      return true

/-- `verify_managed_email`. -/
def verifyManagedEmail (b : Backend) (token : Nat) (verifiedAt : Int) (publishSearch : Bool) :
    Repository Bool :=
  updateAndPublish b (.updateVerified token verifiedAt) id "verified user was not found"
    publishSearch

/-- `confirm_email_change`. -/
def confirmEmailChange (b : Backend) (token : Nat) (confirmedAt : Int) (publishSearch : Bool) :
    Repository Bool :=
  updateAndPublish b (.updateConfirmed token confirmedAt) id "changed user was not found"
    publishSearch

/-- `update_token_with_mail`. -/
def updateTokenWithMail (column : TokenColumn) (purpose : MailPurpose) (username : String)
    (token : Nat) (time : Int) (mail : TransactionalMail) : Repository Bool := do
  call .begin
  let updated ← exec (.updateToken column username token time)
  if updated then
    enqueueMail mail purpose username time
  call .commit
  return updated

/-- `set_reset_token_with_mail`. -/
def setResetTokenWithMail : String → Nat → Int → TransactionalMail → Repository Bool :=
  updateTokenWithMail .resetToken .resetPassword

/-- `set_verification_with_mail`. -/
def setVerificationWithMail : String → Nat → Int → TransactionalMail → Repository Bool :=
  updateTokenWithMail .emailVerificationToken .verifyEmail

/-- `set_magic_link_with_mail`. -/
def setMagicLinkWithMail : String → Nat → Int → TransactionalMail → Repository Bool :=
  updateTokenWithMail .magicLinkToken .magicLink

/-- `request_email_change`. -/
def requestEmailChange (username newEmail : String) (token : Nat) (sentAt : Int)
    (mail : Option TransactionalMail) : Repository Bool := do
  call .begin
  let updated ← exec (.updateEmailChange username newEmail token sentAt)
  match updated, mail with
  | true, some mail => enqueueMail mail .changeEmail username sentAt
  | _, _ => pure ()
  call .commit
  return updated

/-- The roles of a user that has been created or updated, and what is published. -/
def setRolesAndPublish (username : String) (roles : List String) (revision : Nat)
    (notFound : String) (publishSearch : Bool) : Repository User := do
  setRoles username roles
  let user ← exec (.selectUser username)
  let user ← okOr (.unexpected notFound) user
  if publishSearch then
    enqueueUpsert user roles revision
  call .commit
  return user

/-- `create_managed_user`. -/
def createManagedUser (command : CreateManagedUser) : Repository User := do
  call .begin
  let revision ← exec (.upsertManaged command)
  let revision ← okOr (.conflict "user already exists") revision
  setRolesAndPublish command.username command.roles revision "created user was not found"
    command.publishSearch

/-- `update_managed_user`. -/
def updateManagedUser (b : Backend) (command : UpdateManagedUser) : Repository (Option User) := do
  call .begin
  let revision ← exec (.updateManaged command)
  match revision with
  | none => do
      b.abandon
      return none
  | some revision => do
      let user ← setRolesAndPublish command.username command.roles revision
        "updated user was not found" command.publishSearch
      return some user

/-- `delete_managed_user`. -/
def deleteManagedUser (b : Backend) (username : String) (publishSearch : Bool) :
    Repository Bool := do
  call .begin
  let deleted ← exec (.updateDeleted username)
  match deleted with
  | none => do
      b.abandon
      return false
  | some (pid, revision) => do
      if publishSearch then
        exec (.enqueueOutbox ⟨.search pid revision, .search (.delete pid revision)⟩)
      call .commit
      return true

inductive Command where
  | register (command : RegisterManagedUser)
  | verifyEmail (token : Nat) (verifiedAt : Int) (publishSearch : Bool)
  | setResetToken (username : String) (token : Nat) (sentAt : Int) (mail : TransactionalMail)
  | setVerification (username : String) (token : Nat) (sentAt : Int) (mail : TransactionalMail)
  | setMagicLink (username : String) (token : Nat) (expiresAt : Int) (mail : TransactionalMail)
  | requestEmailChange (username newEmail : String) (token : Nat) (sentAt : Int)
      (mail : Option TransactionalMail)
  | confirmEmailChange (token : Nat) (confirmedAt : Int) (publishSearch : Bool)
  | create (command : CreateManagedUser)
  | update (command : UpdateManagedUser)
  | delete (username : String) (publishSearch : Bool)

inductive Outcome where
  | user (user : User)
  | updated (user : Option User)
  | flag (b : Bool)

/-- The operation of a command. -/
def perform (b : Backend) : Command → Repository Outcome
  | .register command => Outcome.user <$> registerManagedUser command
  | .verifyEmail token verifiedAt publishSearch =>
      Outcome.flag <$> verifyManagedEmail b token verifiedAt publishSearch
  | .setResetToken username token sentAt mail =>
      Outcome.flag <$> setResetTokenWithMail username token sentAt mail
  | .setVerification username token sentAt mail =>
      Outcome.flag <$> setVerificationWithMail username token sentAt mail
  | .setMagicLink username token expiresAt mail =>
      Outcome.flag <$> setMagicLinkWithMail username token expiresAt mail
  | .requestEmailChange username newEmail token sentAt mail =>
      Outcome.flag <$> requestEmailChange username newEmail token sentAt mail
  | .confirmEmailChange token confirmedAt publishSearch =>
      Outcome.flag <$> confirmEmailChange b token confirmedAt publishSearch
  | .create command => Outcome.user <$> createManagedUser command
  | .update command => Outcome.updated <$> updateManagedUser b command
  | .delete username publishSearch =>
      Outcome.flag <$> deleteManagedUser b username publishSearch

end Managed
end Identity
end Hegira
