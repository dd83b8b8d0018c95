/-
# `AuthAppService` and `TokenCurrentUserProvider`

`application/src/identity/auth/service.rs`, `application/src/identity/authorization.rs`
and `application/src/identity/validation.rs`.
-/

import Mathlib.Data.List.Basic
import Hegira.Identity.Calls

namespace Hegira
namespace Identity
namespace Service

/-- A service: calls, and a value or an error. -/
abbrev App := Fallible ApplicationError Call Reply

/-- A call. -/
def call (c : Call) : App c.Value := ExceptT.mk (.call c .done)

/-- `ok_or`. -/
def okOr {α : Type} (error : ApplicationError) : Option α → App α
  | some a => pure a
  | none => throw error

/-- Errors with a code. -/
def userNotFound : ApplicationError := .coded .notFound "identity:user_not_found" "User not found"

def userAlreadyExists : ApplicationError :=
  .coded .conflict "identity:user_already_exists" "User already exists"

def protectedAdminCannotBeDeleted : ApplicationError :=
  .coded .forbidden "identity:protected_admin_cannot_be_deleted" "Admin user cannot be deleted"

def invalidTotpCode : ApplicationError := .coded .validation "totp:invalid_code" "Invalid TOTP code"

def invalidTotpToken : ApplicationError :=
  .coded .unauthorized "totp:temp_token_invalid" "Invalid TOTP token"

def totpNotConfigured : ApplicationError :=
  .coded .validation "totp:not_configured" "TOTP is not configured"

/-! ### `validation` -/

def requiredUsername (username : String) : Except ApplicationError Unit :=
  let username := trim username
  if username.isEmpty then
    .error (.coded .validation "identity:username_required" "Username is required")
  else if 64 < username.utf8ByteSize then
    .error (.validation "Username must be at most 64 characters")
  else .ok ()

def optionalUsername (username : String) : Except ApplicationError Bool :=
  if (trim username).isEmpty then .ok false else (requiredUsername username).map fun _ => true

def requiredPassword (password : String) : Except ApplicationError Unit :=
  if password.isEmpty then
    .error (.coded .validation "identity:password_required" "Password is required.")
  else if 128 < password.utf8ByteSize then
    .error (.validation "Password must be at most 128 characters")
  else .ok ()

def optionalPassword : Option String → Except ApplicationError (Option String)
  | some password =>
      if password.isEmpty then .ok none else (requiredPassword password).map fun _ => some password
  | none => .ok none

def requiredUsernamePassword (username password : String) : Except ApplicationError Unit := do
  requiredUsername username
  requiredPassword password

/-! ### Times -/

/-- `Duration::minutes`. -/
def minutes (n : Int) : Int := n * 60 * 1000000

def magicLinkExpirationMinutes : Int := 5

def totpLoginExpirationMinutes : Int := 5

def backupCodeCount : Nat := 10

/-- `num_seconds`. -/
def numSeconds (duration : Int) : Int := duration.tdiv 1000000

variable (S : Settings)

/-- `token_expiry`. -/
def tokenExpiry : App Int := do
  let now ← call .now
  return now + S.tokenLifetime

/-- `next_session_expires_at`. -/
def nextSessionExpiresAt (maxExpiresAt : Int) : App Int := do
  let now ← call .now
  return min (now + S.slidingTtl) maxExpiresAt

/-- `refresh_session_if_needed`. -/
def refreshSessionIfNeeded (session : Session) : App Unit := do
  let now ← call .now
  let ttlSeconds := numSeconds (session.expiresAt - now)
  let refreshAtOrBelow := (numSeconds S.slidingTtl * S.refreshThresholdPercent).tdiv 100
  if refreshAtOrBelow < ttlSeconds then
    return ()
  else
    let nextExpiresAt ← nextSessionExpiresAt S session.maxExpiresAt
    let _ ← call (.refreshSession session.token nextExpiresAt)
    return ()

/-! ### Sessions -/

/-- `SessionRepository::insert` of the backend. -/
def insertSessionRow (token : Nat) (username : String) (expiresAt maxExpiresAt : Int) : App Unit :=
  match S.backend with
  | .sqlite => call (.insertSession token username expiresAt maxExpiresAt)
  | .postgres => do
      let userId ← call (.userIdByUsername username)
      call (.insertSessionOf token userId expiresAt maxExpiresAt)

/-- `create_session`. -/
def createSession (username : String) : App Nat := do
  let token ← call (.createToken username)
  let maxExpiresAt ← tokenExpiry S
  let expiresAt ← nextSessionExpiresAt S maxExpiresAt
  insertSessionRow S token username expiresAt maxExpiresAt
  return token

/-- `CurrentUserDto`. -/
structure CurrentUserDto where
  username : String
  permissions : List String

/-- `AuthAppService::current_user`. -/
def currentUser (token : Nat) : App CurrentUserDto := do
  let username ← call (.verifyToken token)
  let session ← call (.findSession token)
  let session ← okOr (.notFound "Session not found") session
  let user ← call (.findUser (.username username))
  if user.isNone || session.username != username then
    throw .unauthorized
  refreshSessionIfNeeded S session
  let permissions ← call (.userPermissions username)
  return ⟨username, permissions⟩

/-- `TokenCurrentUserProvider::current_user`. -/
def tokenCurrentUser (token : Nat) : App String := do
  let username ← call (.verifyToken token)
  if !(← call (.sessionExists token)) then
    throw .unauthorized
  if !(← call (.userExists username)) then
    throw .unauthorized
  return username

def renewSession (token : Nat) : App Nat := do
  let username ← call (.verifyToken token)
  if !(← call (.sessionExists token)) then
    throw (.notFound "Session not found")
  let newToken ← call (.createToken username)
  let maxExpiresAt ← tokenExpiry S
  let expiresAt ← nextSessionExpiresAt S maxExpiresAt
  if !(← call (.updateSessionToken token newToken expiresAt maxExpiresAt)) then
    throw (.notFound "Session not found")
  return newToken

def logout (token : Nat) : App Unit := do
  let _ ← call (.verifyToken token)
  if !(← call (.deleteSession token)) then
    throw (.notFound "Session not found")
  return ()

def listSessionsOf (actorToken : Nat) : App (List Session) := do
  let current ← currentUser S actorToken
  call (.listSessions current.username)

def revokeSession (actorToken sessionId : Nat) : App Unit := do
  let current ← currentUser S actorToken
  if !(← call (.deleteSessionFor current.username sessionId)) then
    throw (.notFound "Session not found")
  return ()

/-! ### Accounts -/

/-- `find_by_username(..).ok_or(Unauthorized)`. -/
def userNamed (username : String) : App User := do
  let user ← call (.findUser (.username username))
  okOr .unauthorized user

/-- The password is asked for again. -/
def checkPassword (password : String) (user : User) : App Unit := do
  if !(← liftExcept (S.verify password user.passwordHash)) then
    throw .unauthorized
  return ()

def register (username password : String) : App Unit := do
  liftExcept (requiredUsernamePassword username password)
  let passwordHash ← liftExcept (S.hash password)
  let verificationToken ← call .newToken
  let mail := TransactionalMail.verifyEmail username verificationToken
  let now ← call .now
  let registered ← attempt (call (.managed (.register ⟨username, passwordHash, verificationToken, now,
    S.publishSearch, if S.durableMail then some mail else none⟩)))
  match registered with
  | .ok _ => pure ()
  | .error (.conflict _) => throw userAlreadyExists
  | .error error => throw error
  if S.durableMail then
    return ()
  else
    call (.sendMail mail)

/-- An operation of the user writer that returns whether it had an effect. -/
def managedFlag (command : Managed.Command) : App Bool := do
  match ← call (.managed command) with
  | .flag b => return b
  | _ => return false

def verifyEmail (token : Nat) : App Unit := do
  let now ← call .now
  if !(← managedFlag (.verifyEmail token now S.publishSearch)) then
    throw (.notFound "Verification token not found")
  return ()

/-- A token is stored and mailed, in one transaction or by one statement and then a
message to the mailer. -/
def storeAndMail (stored : Managed.Command) (update : UserUpdate) (mail : TransactionalMail) :
    App Unit := do
  if S.durableMail then
    let _ ← call (.managed stored)
    return ()
  else
    let _ ← call (.updateUser update)
    call (.sendMail mail)

def resendVerification (actorToken : Nat) : App Unit := do
  let current ← currentUser S actorToken
  let user ← userNamed current.username
  if user.emailVerifiedAt.isSome then
    return ()
  else
    let token ← call .newToken
    let sentAt ← call .now
    let mail := TransactionalMail.verifyEmail current.username token
    storeAndMail S (.setVerification current.username token sentAt mail)
      (.setEmailVerification current.username token sentAt) mail

/-- The loop of `delete_account`. -/
def deleteSessions (username : String) : List Session → App Unit
  | [] => pure ()
  | session :: sessions => do
      let _ ← call (.deleteSessionFor username session.pid)
      deleteSessions username sessions

def deleteAccount (actorToken : Nat) (password : String) : App Unit := do
  let current ← currentUser S actorToken
  if isProtectedAdminUsername current.username then
    throw protectedAdminCannotBeDeleted
  let user ← userNamed current.username
  checkPassword S password user
  let sessions ← call (.listSessions current.username)
  if !(← managedFlag (.delete current.username S.publishSearch)) then
    throw userNotFound
  deleteSessions current.username sessions

def forgotPassword (username : String) : App Unit := do
  if !(← liftExcept (optionalUsername username)) then
    return ()
  else
    match ← call (.findUser (.username username)) with
    | none => return ()
    | some user => do
        let token ← call .newToken
        let sentAt ← call .now
        let mail := TransactionalMail.resetPassword user.username token
        storeAndMail S (.setResetToken user.username token sentAt mail)
          (.setResetToken user.username token sentAt) mail

def resetPassword (token : Nat) (password : String) : App Unit := do
  liftExcept (requiredPassword password)
  let user ← call (.findUser (.resetToken token))
  let user ← okOr .unauthorized user
  let passwordHash ← liftExcept (S.hash password)
  let _ ← call (.updateUser (.resetPassword user.username passwordHash))
  return ()

def changePassword (actorToken : Nat) (currentPassword newPassword : String) : App Unit := do
  liftExcept (requiredPassword newPassword)
  let current ← currentUser S actorToken
  let user ← userNamed current.username
  checkPassword S currentPassword user
  let passwordHash ← liftExcept (S.hash newPassword)
  let _ ← call (.updateUser (.resetPassword current.username passwordHash))
  return ()

def requestEmailChange (actorToken : Nat) (newEmail password : String) : App Unit := do
  liftExcept (requiredUsername newEmail)
  let current ← currentUser S actorToken
  let user ← userNamed current.username
  checkPassword S password user
  let token ← call .newToken
  let sentAt ← call .now
  let mail := TransactionalMail.confirmEmailChange newEmail token
  if !(← managedFlag (.requestEmailChange current.username newEmail token sentAt
      (if S.durableMail then some mail else none))) then
    throw (.conflict "Email already exists")
  if S.durableMail then
    return ()
  else
    call (.sendMail mail)

def confirmEmailChange (token : Nat) : App Unit := do
  let now ← call .now
  if !(← managedFlag (.confirmEmailChange token now S.publishSearch)) then
    throw (.notFound "Email change token not found")
  return ()

/-! ### Signing in -/

/-- `LoginResultDto`. -/
inductive LoginResult where
  | authenticated (token : Nat)
  | totpRequired (totpToken : Nat)

def requestMagicLink (username : String) : App Unit := do
  if !(← liftExcept (optionalUsername username)) then
    return ()
  else
    match ← call (.findUser (.username username)) with
    | none => return ()
    | some user => do
        let token ← call .newToken
        let now ← call .now
        let expiresAt := now + minutes magicLinkExpirationMinutes
        let mail := TransactionalMail.magicLink user.username token
        storeAndMail S (.setMagicLink user.username token expiresAt mail)
          (.setMagicLink user.username token expiresAt) mail

def verifyMagicLink (token : Nat) : App Nat := do
  let user ← call (.findUser (.magicLinkToken token))
  let user ← okOr .unauthorized user
  let now ← call .now
  if user.magicLinkExpiresAt.all fun expiresAt => expiresAt < now then
    throw .unauthorized
  let _ ← call (.updateUser (.clearMagicLink user.username))
  createSession S user.username

/-- The user has a second factor. -/
def secondFactorEnabled (username : String) : App Bool := do
  let credential ← call (.credentialByUsername username)
  return (credential.bind TwoFactorCredential.enabledAt).isSome

/-- The first factor has been given: a login token waits for the second. -/
def requireTotp (username : String) : App LoginResult := do
  let totpToken ← call .newToken
  let now ← call .now
  if !(← call (.updateUser
      (.setLoginToken username totpToken (now + minutes totpLoginExpirationMinutes)))) then
    throw .unauthorized
  return .totpRequired totpToken

def login (username password : String) : App LoginResult := do
  if username.isEmpty || password.isEmpty then
    throw .unauthorized
  let user ← userNamed username
  checkPassword S password user
  if ← secondFactorEnabled user.username then
    requireTotp user.username
  else
    let token ← createSession S user.username
    return .authenticated token

/-! ### The second factor -/

/-- `verify_totp_code`, at the current time. -/
def verifyTotpCode (secret : Nat) (username : String) (code : Code) : App Bool := do
  let now ← call .now
  liftExcept (S.verifyTotpCode secret username code now)

/-- The loop of `verify_totp_or_backup_code`, from the position `index`. -/
def consumeBackupCode (credential : TwoFactorCredential) (code : Code) (index : Nat) :
    List Nat → App Bool
  | [] => return false
  | hash :: hashes =>
      if code.verify hash then
        call (.updateUser (.consumeBackupCodeHashes credential.username credential.backupCodeHashes
          (credential.backupCodeHashes.eraseIdx index)))
      else consumeBackupCode credential code (index + 1) hashes

/-- `verify_totp_or_backup_code`. -/
def verifyTotpOrBackupCode (credential : TwoFactorCredential) (code : Code) : App Bool := do
  if ← verifyTotpCode S credential.secret credential.username code then
    return true
  else
    consumeBackupCode credential code 0 credential.backupCodeHashes

/-- `generate_backup_codes`. -/
def generateBackupCodes : Nat → App (List Nat)
  | 0 => return []
  | n + 1 => do
      let code ← call .newToken
      let codes ← generateBackupCodes n
      return code :: codes

def setupTotp (actorToken : Nat) : App Nat := do
  let current ← currentUser S actorToken
  let secret ← call .newToken
  if !(← call (.updateUser (.setSetupSecret current.username secret))) then
    throw userNotFound
  return secret

def enableTotp (actorToken : Nat) (code : Code) : App (List Nat) := do
  let current ← currentUser S actorToken
  let credential ← call (.credentialByUsername current.username)
  let credential ← okOr totpNotConfigured credential
  if !(← verifyTotpCode S credential.secret current.username code) then
    throw invalidTotpCode
  let backupCodes ← generateBackupCodes backupCodeCount
  let now ← call .now
  if !(← call (.updateUser (.enable current.username now backupCodes))) then
    throw userNotFound
  return backupCodes

def disableTotp (actorToken : Nat) (code : Code) : App Unit := do
  let current ← currentUser S actorToken
  let credential ← call (.credentialByUsername current.username)
  let credential ← okOr invalidTotpCode credential
  if !(← verifyTotpOrBackupCode S credential code) then
    throw invalidTotpCode
  if !(← call (.updateUser (.disable current.username))) then
    throw userNotFound
  return ()

def regenerateTotpBackupCodes (actorToken : Nat) (code : Code) : App (List Nat) := do
  let current ← currentUser S actorToken
  let credential ← call (.credentialByUsername current.username)
  let credential ← okOr invalidTotpCode
    (credential.filter fun credential => credential.enabledAt.isSome)
  if !(← verifyTotpOrBackupCode S credential code) then
    throw invalidTotpCode
  let backupCodes ← generateBackupCodes backupCodeCount
  let _ ← call (.updateUser (.replaceBackupCodeHashes current.username backupCodes))
  return backupCodes

def totpStatus (actorToken : Nat) : App Bool := do
  let current ← currentUser S actorToken
  secondFactorEnabled current.username

def verifyTotpLogin (totpToken : Nat) (code : Code) : App Nat := do
  let credential ← call (.credentialByLoginToken totpToken)
  let credential ← okOr invalidTotpToken credential
  if !(← verifyTotpOrBackupCode S credential code) then
    throw invalidTotpCode
  if !(← call (.updateUser (.consumeLoginToken credential.username totpToken))) then
    throw invalidTotpToken
  createSession S credential.username

end Service
end Identity
end Hegira
