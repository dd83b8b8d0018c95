/-
# `CachedAuthorization`, `UserAppService`, `PermissionAppService` and the seed

`infrastructure/src/identity/authorization/service.rs`,
`application/src/identity/permissions/cache.rs`,
`application/src/identity/users/service.rs`,
`application/src/identity/permissions/service.rs` and `sqlx/src/identity/seed.rs`.

The audit log is left out: what a service writes there it does not read.
-/

import Mathlib.Data.List.Basic
import Hegira.Identity.AuthService

namespace Hegira
namespace Identity
namespace Service

def roleNotFound : ApplicationError := .coded .notFound "identity:role_not_found" "Role not found"

def protectedAdminRoleCannotBeDeleted : ApplicationError :=
  .coded .forbidden "identity:protected_admin_role_cannot_be_deleted"
    "Admin role cannot be deleted."

/-! ### The cache of permissions -/

/-- `user_permissions_key`, under the current version. -/
def userPermissionsKey (username : String) : App CacheKey := do
  let version ← call .cacheVersion
  return (version, username)

/-- `cached_permissions`. -/
def cachedPermissions (username : String) : App (Option (List String)) := do
  let key ← userPermissionsKey username
  call (.cacheGet key)

/-- `store_permissions`. -/
def storePermissions (username : String) (permissions : List String) : App Unit := do
  let key ← userPermissionsKey username
  call (.cacheSet key permissions)

/-- `permission_cache::invalidate`. -/
def invalidate : App Unit := do
  let version ← call .newToken
  call (.cacheSetVersion version)

/-- `CachedAuthorization::require`, of an authenticated user. -/
def requireUser (username permission : String) : App Unit := do
  match ← cachedPermissions username with
  | some permissions =>
      if permissions.contains permission then
        return ()
      else throw (.forbidden ("Missing permission " ++ permission))
  | none => do
      let permissions ← call (.userPermissions username)
      let allowed := permissions.contains permission
      storePermissions username permissions
      if allowed then
        return ()
      else throw (.forbidden ("Missing permission " ++ permission))

/-- `require_permission`. -/
def requirePermission (actorToken : Nat) (permission : String) : App Unit := do
  let username ← tokenCurrentUser actorToken
  requireUser username permission

variable (S : Settings)

/-! ### Users -/

/-- Equal roles but the first are left out. -/
def pushNew (roles : List String) (role : String) : List String :=
  if roles.contains role then roles else roles ++ [role]

/-- `normalized_roles`. -/
def normalizedRoles (username : String) (roles : List String) : List String :=
  let roles := ((roles.map trim).filter fun role => !role.isEmpty).foldl pushNew []
  if isProtectedAdminUsername username &&
      !roles.any fun role => eqIgnoreAsciiCase role defaultAdminRoleName then
    roles ++ [defaultAdminRoleName]
  else roles

/-- `UserDto`. -/
structure UserDto where
  user : User
  roles : List String

/-- `UserAppService::get`. -/
def getUser (actorToken : Nat) (username : String) : App UserDto := do
  requirePermission actorToken "Identity.Users"
  let user ← call (.findUser (.username username))
  let user ← okOr userNotFound user
  let roles ← call (.userRoles user.username)
  return ⟨user, roles⟩

/-- `input.is_verified.then(Utc::now)`. -/
def verifiedNow (isVerified : Bool) : App (Option Int) := do
  if isVerified then
    let now ← call .now
    return some now
  else return none

/-- `UserAppService::create`. -/
def createUser (actorToken : Nat) (username password : String) (isVerified : Bool)
    (roles : List String) : App UserDto := do
  requirePermission actorToken "Identity.Users.Create"
  liftExcept (requiredUsernamePassword username password)
  if ← call (.userExists username) then
    throw userAlreadyExists
  let passwordHash ← liftExcept (S.hash password)
  let emailVerifiedAt ← verifiedNow isVerified
  let created ← attempt (call (.managed (.create
    ⟨username, passwordHash, emailVerifiedAt, normalizedRoles username roles, S.publishSearch⟩)))
  match created with
  | .ok _ => pure ()
  | .error (.conflict _) => throw userAlreadyExists
  | .error error => throw error
  invalidate
  getUser actorToken username

/-- `UserAppService::update`. -/
def updateUser (actorToken : Nat) (username : String) (password : Option String)
    (isVerified : Bool) (roles : List String) : App UserDto := do
  requirePermission actorToken "Identity.Users.Update"
  liftExcept (requiredUsername username)
  if !(← call (.userExists username)) then
    throw userNotFound
  let passwordHash ← liftExcept (do
    match ← optionalPassword password with
    | some password => return some (← S.hash password)
    | none => return none)
  let emailVerifiedAt ← verifiedNow isVerified
  match ← call (.managed (.update
      ⟨username, passwordHash, emailVerifiedAt, normalizedRoles username roles, S.publishSearch⟩)) with
  | .updated none => throw userNotFound
  | _ => pure ()
  invalidate
  getUser actorToken username

/-- `UserAppService::delete`. -/
def deleteUser (actorToken : Nat) (username : String) : App Unit := do
  requirePermission actorToken "Identity.Users.Delete"
  if isProtectedAdminUsername username then
    throw protectedAdminCannotBeDeleted
  if !(← managedFlag (.delete username S.publishSearch)) then
    throw userNotFound
  invalidate

/-! ### Roles and permissions -/

/-- `validate_role_name`. -/
def validateRoleName (roleName : String) : Except ApplicationError Unit :=
  if (trim roleName).isEmpty then
    .error (.coded .validation "identity:role_name_required" "Role name is required")
  else .ok ()

/-- `parse_permission`. -/
def parsePermission (permission : String) : Except ApplicationError String :=
  if allPermissionNames.contains permission then .ok permission
  else .error (.validation ("Unknown permission: " ++ permission))

/-- `PermissionAppService::require`. -/
def requireAuthorization (actorToken : Nat) : App Unit :=
  requirePermission actorToken "Identity.Authorization"

def createRole (actorToken : Nat) (name : String) : App Unit := do
  requireAuthorization actorToken
  liftExcept (validateRoleName name)
  call (.createRole name)
  invalidate

def updateRole (actorToken : Nat) (name newName : String) : App Unit := do
  requireAuthorization actorToken
  liftExcept (validateRoleName name)
  liftExcept (validateRoleName newName)
  if isProtectedAdminRole name then
    throw protectedAdminRoleCannotBeDeleted
  if !(← call (.updateRole name newName)) then
    throw roleNotFound
  invalidate

def deleteRole (actorToken : Nat) (roleName : String) : App Unit := do
  requireAuthorization actorToken
  liftExcept (validateRoleName roleName)
  if isProtectedAdminRole roleName then
    throw protectedAdminRoleCannotBeDeleted
  if !(← call (.deleteRole roleName)) then
    throw roleNotFound
  invalidate

def setRolePermissions (actorToken : Nat) (roleName : String) (permissions : List String) :
    App Unit := do
  requireAuthorization actorToken
  liftExcept (validateRoleName roleName)
  let permissions ← liftExcept (permissions.mapM parsePermission)
  call (.setRolePermissions roleName permissions)
  invalidate

/-- `AuthorizationRepository::assign_role`. -/
def assignRole (username roleName : String) : App Unit := do
  let userId ← call (.userIdByUsername username)
  call (.giveRole userId roleName)

def assignUserRole (actorToken : Nat) (username roleName : String) : App Unit := do
  requireAuthorization actorToken
  liftExcept (requiredUsername username)
  liftExcept (validateRoleName roleName)
  assignRole username roleName
  invalidate

/-! ### The seed -/

/-- `seed_identity`, with the administrator. -/
def seedIdentity (adminUsername adminPassword : String) : App Unit := do
  call .ensureIdentitySeedData
  if !(← call (.userExists adminUsername)) then
    let passwordHash ← liftExcept (S.hash adminPassword)
    call (.insertUser adminUsername passwordHash)
    let now ← call .now
    let _ ← call (.updateUser (.markEmailVerified adminUsername now))
  assignRole adminUsername "admin"

end Service
end Identity
end Hegira
