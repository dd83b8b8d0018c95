/-
# The repositories of the identity services

`domain/src/identity/*/repository.rs`, with the implementations of `sqlx/src/identity`;
the token service of `infrastructure/src/security/token_service.rs`; the cache of
`application/src/identity/permissions/cache.rs`.

Every call is one step: a statement on the pool, or a transaction.  The operations of
the user writer are run by themselves (`Managed.perform`).  A session is inserted by one
statement in SQLite and by two in Postgres; a role is assigned by two in both.

Identifiers, tokens and secrets are drawn from a counter, so that no value is drawn
twice.  A token of the token service is a number under which its claims are kept: a
token that is presented is genuine when it has claims.
-/

import Mathlib.Data.List.Basic
import Hegira.Identity.ManagedWriter
import Hegira.Identity.OAuthStore

namespace Hegira
namespace Identity

/-! ### Text -/

/-- `char::is_whitespace`. -/
def isWhitespace (c : Char) : Bool :=
  let n := c.toNat
  decide (9 ≤ n ∧ n ≤ 13) || n == 32 || n == 133 || n == 160 || n == 5760 ||
    decide (8192 ≤ n ∧ n ≤ 8202) || n == 8232 || n == 8233 || n == 8239 || n == 8287 || n == 12288

/-- `str::trim`. -/
def trim (text : String) : String :=
  String.ofList ((text.toList.dropWhile isWhitespace).reverse.dropWhile isWhitespace).reverse

/-- `str::eq_ignore_ascii_case`. -/
def eqIgnoreAsciiCase (a b : String) : Bool := a.toList.map Char.toLower == b.toList.map Char.toLower

def defaultAdminUsername : String := "admin@example.com"

def defaultAdminRoleName : String := "admin"

/-- `is_protected_admin_username`. -/
def isProtectedAdminUsername (username : String) : Bool :=
  let username := trim username
  eqIgnoreAsciiCase username defaultAdminUsername || eqIgnoreAsciiCase username "admin"

/-- `is_protected_admin_role`. -/
def isProtectedAdminRole (roleName : String) : Bool :=
  eqIgnoreAsciiCase (trim roleName) defaultAdminRoleName

/-- `permissions::all_names`: the registered permissions. -/
def allPermissionNames : List String :=
  ["Identity.Users", "Identity.Users.Create", "Identity.Users.Update", "Identity.Users.Delete",
    "Identity.Authorization"]

/-! ### Users -/

/-- What a user is found by. -/
inductive UserKey where
  | username (username : String)
  | resetToken (token : Nat)
  | emailVerificationToken (token : Nat)
  | magicLinkToken (token : Nat)

/-- `WHERE .. = ? AND deleted_at IS NULL`. -/
def UserKey.finds (u : User) : UserKey → Bool
  | username name => u.username == name && u.live
  | resetToken token => u.resetToken == some token && u.live
  | emailVerificationToken token => u.emailVerificationToken == some token && u.live
  | magicLinkToken token => u.magicLinkToken == some token && u.live

/-- The updates of one user of `UserRepository` and `TwoFactorRepository`. -/
inductive UserUpdate where
  | setEmailVerification (username : String) (token : Nat) (sentAt : Int)
  | markEmailVerified (username : String) (verifiedAt : Int)
  | setResetToken (username : String) (token : Nat) (sentAt : Int)
  | resetPassword (username passwordHash : String)
  | setMagicLink (username : String) (token : Nat) (expiresAt : Int)
  | clearMagicLink (username : String)
  | setSetupSecret (username : String) (secret : Nat)
  | enable (username : String) (enabledAt : Int) (backupCodeHashes : List Nat)
  | disable (username : String)
  | setLoginToken (username : String) (token : Nat) (expiresAt : Int)
  | consumeLoginToken (username : String) (token : Nat)
  | replaceBackupCodeHashes (username : String) (backupCodeHashes : List Nat)
  | consumeBackupCodeHashes (username : String) (expected remaining : List Nat)

namespace UserUpdate

/-- `username = ?`. -/
def username : UserUpdate → String
  | setEmailVerification name .. => name
  | markEmailVerified name _ => name
  | setResetToken name .. => name
  | resetPassword name _ => name
  | setMagicLink name .. => name
  | clearMagicLink name => name
  | setSetupSecret name _ => name
  | enable name .. => name
  | disable name => name
  | setLoginToken name .. => name
  | consumeLoginToken name _ => name
  | replaceBackupCodeHashes name _ => name
  | consumeBackupCodeHashes name .. => name

/-- What the `WHERE` clause asks of a user besides its name. -/
def condition (now : Int) (u : User) : UserUpdate → Bool
  | enable .. => u.totpSecret.isSome
  | setLoginToken .. => u.totpSecret.isSome && u.totpEnabledAt.isSome
  | consumeLoginToken _ token =>
      u.totpLoginToken == some token && u.totpLoginExpiresAt.any fun expires => now < expires
  | consumeBackupCodeHashes _ expected _ => u.totpBackupCodeHashes == expected
  | _ => true

/-- `WHERE username = ? AND deleted_at IS NULL AND ..`. -/
def selects (now : Int) (update : UserUpdate) (u : User) : Bool :=
  u.username == update.username && u.live && update.condition now u

/-- `SET ..`. -/
def set (u : User) : UserUpdate → User
  | setEmailVerification _ token sentAt =>
      { u with emailVerificationToken := some token, emailVerificationSentAt := some sentAt }
  | markEmailVerified _ verifiedAt =>
      { u with emailVerifiedAt := some verifiedAt, emailVerificationToken := none }
  | setResetToken _ token sentAt => { u with resetToken := some token, resetSentAt := some sentAt }
  | resetPassword _ passwordHash =>
      { u with passwordHash := passwordHash, resetToken := none, resetSentAt := none }
  | setMagicLink _ token expiresAt =>
      { u with magicLinkToken := some token, magicLinkExpiresAt := some expiresAt }
  | clearMagicLink _ => { u with magicLinkToken := none, magicLinkExpiresAt := none }
  | setSetupSecret _ secret =>
      { u with
        totpSecret := some secret
        totpEnabledAt := none
        totpBackupCodeHashes := []
        totpLoginToken := none
        totpLoginExpiresAt := none }
  | enable _ enabledAt backupCodeHashes =>
      { u with
        totpEnabledAt := some enabledAt
        totpBackupCodeHashes := backupCodeHashes
        totpLoginToken := none
        totpLoginExpiresAt := none }
  | disable _ =>
      { u with
        totpSecret := none
        totpEnabledAt := none
        totpBackupCodeHashes := []
        totpLoginToken := none
        totpLoginExpiresAt := none }
  | setLoginToken _ token expiresAt =>
      { u with totpLoginToken := some token, totpLoginExpiresAt := some expiresAt }
  | consumeLoginToken .. => { u with totpLoginToken := none, totpLoginExpiresAt := none }
  | replaceBackupCodeHashes _ backupCodeHashes =>
      { u with totpBackupCodeHashes := backupCodeHashes }
  | consumeBackupCodeHashes _ _ remaining => { u with totpBackupCodeHashes := remaining }

end UserUpdate

/-- `ON CONFLICT (username) DO UPDATE SET ..` of `UserRepository::insert`. -/
def restoreInserted (passwordHash : String) (u : User) : User :=
  { u with
    passwordHash := passwordHash
    resetToken := none
    resetSentAt := none
    emailVerificationToken := none
    emailVerificationSentAt := none
    emailVerifiedAt := none
    magicLinkToken := none
    magicLinkExpiresAt := none
    totpSecret := none
    totpEnabledAt := none
    totpBackupCodeHashes := []
    totpLoginToken := none
    totpLoginExpiresAt := none
    deletedAt := none }

/-- `TwoFactorCredential`. -/
structure TwoFactorCredential where
  username : String
  secret : Nat
  enabledAt : Option Int
  backupCodeHashes : List Nat

/-- `map_credential`, for a row with a secret. -/
def credentialOf (u : User) : Option TwoFactorCredential :=
  u.totpSecret.map fun secret => ⟨u.username, secret, u.totpEnabledAt, u.totpBackupCodeHashes⟩

namespace Tables

/-- `user_roles`: the live roles of a live user, by name. -/
def userRoleNames (t : Tables) (username : String) : List String :=
  ((t.userRoles.filter fun ur =>
      (t.users.any fun u => u.id == ur.userId && u.username == username && u.live) &&
        t.roles.any fun r => r.name == ur.roleName && r.deletedAt.isNone).map
    UserRole.roleName).mergeSort fun a b => decide (a ≤ b)

/-- `user_has_permission`. -/
def hasPermission (t : Tables) (username permission : String) : Bool :=
  t.userRoles.any fun ur =>
    (t.rolePermissions.any fun rp => rp.roleName == ur.roleName && rp.permissionName == permission) &&
      (t.users.any fun u => u.id == ur.userId && u.username == username && u.live) &&
        t.roles.any fun r => r.name == ur.roleName && r.deletedAt.isNone

/-- `user_permissions`: the registered ones of `SELECT DISTINCT .. ORDER BY`. -/
def userPermissions (t : Tables) (username : String) : List String :=
  (((t.rolePermissions.map RolePermission.permissionName).dedup.filter fun permission =>
      t.hasPermission username permission).mergeSort fun a b => decide (a ≤ b)).filter
    fun permission => allPermissionNames.contains permission

/-! ### Roles -/

/-- `INSERT INTO roles .. ON CONFLICT (name) DO UPDATE SET deleted_at = NULL`. -/
def upsertRole (t : Tables) (name : String) : Tables :=
  if t.roles.any fun r => r.name == name then
    { t with roles := t.roles.map fun r => if r.name == name then { r with deletedAt := none } else r }
  else { t with roles := t.roles ++ [⟨name, none⟩] }

/-- `INSERT INTO role_permissions .. DO NOTHING`. -/
def grant (t : Tables) (roleName permissionName : String) : Tables :=
  if t.rolePermissions.contains ⟨roleName, permissionName⟩ then t
  else { t with rolePermissions := t.rolePermissions ++ [⟨roleName, permissionName⟩] }

/-- `INSERT INTO permissions .. DO NOTHING`. -/
def registerPermission (t : Tables) (name : String) : Tables :=
  if t.permissions.contains name then t else { t with permissions := t.permissions ++ [name] }

/-- `INSERT INTO user_roles .. DO NOTHING`. -/
def giveRole (t : Tables) (userId : Nat) (roleName : String) : Tables :=
  if t.userRoles.contains ⟨userId, roleName⟩ then t
  else { t with userRoles := t.userRoles ++ [⟨userId, roleName⟩] }

/-- `UPDATE roles SET deleted_at = ? WHERE name = ? AND deleted_at IS NULL`. -/
def softDeleteRole (t : Tables) (now : Int) (name : String) : Tables :=
  { t with roles := t.roles.map fun r =>
      if r.name == name && r.deletedAt.isNone then { r with deletedAt := some now } else r }

/-- A role with this name is there, and not deleted. -/
def liveRole (t : Tables) (name : String) : Bool :=
  t.roles.any fun r => r.name == name && r.deletedAt.isNone

/-- `update_role`. -/
def updateRole (t : Tables) (now : Int) (roleName newRoleName : String) : Bool × Tables :=
  if t.liveRole roleName then
    let t := t.upsertRole newRoleName
    let t := (t.rolePermissions.filter fun rp => rp.roleName == roleName).foldl
      (fun t rp => t.grant newRoleName rp.permissionName) t
    let t := (t.userRoles.filter fun ur => ur.roleName == roleName).foldl
      (fun t ur => t.giveRole ur.userId newRoleName) t
    (true, t.softDeleteRole now roleName)
  else (false, t)

/-- `set_role_permissions`. -/
def setRolePermissions (t : Tables) (roleName : String) (permissions : List String) : Tables :=
  let t := t.upsertRole roleName
  let t := { t with rolePermissions := t.rolePermissions.filter fun rp => rp.roleName != roleName }
  permissions.foldl (fun t permission => (t.registerPermission permission).grant roleName permission) t

/-- `ensure_identity_seed_data`. -/
def ensureIdentitySeedData (t : Tables) : Tables :=
  let t := t.upsertRole defaultAdminRoleName
  let t := allPermissionNames.foldl (fun t permission =>
    (t.registerPermission permission).grant defaultAdminRoleName permission) t
  { t with rolePermissions := t.rolePermissions.filter fun rp =>
      rp.roleName != defaultAdminRoleName || allPermissionNames.contains rp.permissionName }

end Tables

end Identity
end Hegira
