/-
# The identity services as a site

The requests that the services answer, and the program of each.
-/

import Mathlib.Data.List.Dedup
import Mathlib.Data.List.Sort
import Mathlib.Data.String.Basic
import Hegira.Identity.AdminServices
import Hegira.Identity.ManagedAtomicity
import Hegira.Identity.OAuthService

namespace Hegira
namespace Identity
namespace Service

inductive Request where
  | register (username password : String)
  | verifyEmail (token : Nat)
  | resendVerification (actorToken : Nat)
  | deleteAccount (actorToken : Nat) (password : String)
  | forgotPassword (username : String)
  | resetPassword (token : Nat) (password : String)
  | changePassword (actorToken : Nat) (currentPassword newPassword : String)
  | requestEmailChange (actorToken : Nat) (newEmail password : String)
  | confirmEmailChange (token : Nat)
  | requestMagicLink (username : String)
  | verifyMagicLink (token : Nat)
  | login (username password : String)
  | setupTotp (actorToken : Nat)
  | enableTotp (actorToken : Nat) (code : Code)
  | disableTotp (actorToken : Nat) (code : Code)
  | regenerateTotpBackupCodes (actorToken : Nat) (code : Code)
  | listSessions (actorToken : Nat)
  | revokeSession (actorToken sessionId : Nat)
  | totpStatus (actorToken : Nat)
  | verifyTotpLogin (totpToken : Nat) (code : Code)
  | renewSession (token : Nat)
  | currentUser (token : Nat)
  | logout (token : Nat)
  | tokenCurrentUser (token : Nat)
  | authorizeUrl (provider : String)
  | linkAuthorizeUrl (actorToken : Nat) (provider : String)
  | callback (provider code : String) (state : Nat)
  | completeOAuthSignup (signupToken : Nat) (username : String)
  | unlinkConnection (actorToken : Nat) (provider : String)
  | requireUser (username permission : String)
  | getUser (actorToken : Nat) (username : String)
  | createUser (actorToken : Nat) (username password : String) (isVerified : Bool)
      (roles : List String)
  | updateUser (actorToken : Nat) (username : String) (password : Option String)
      (isVerified : Bool) (roles : List String)
  | deleteUser (actorToken : Nat) (username : String)
  | createRole (actorToken : Nat) (name : String)
  | updateRole (actorToken : Nat) (name newName : String)
  | deleteRole (actorToken : Nat) (roleName : String)
  | setRolePermissions (actorToken : Nat) (roleName : String) (permissions : List String)
  | assignUserRole (actorToken : Nat) (username roleName : String)
  | seedIdentity (adminUsername adminPassword : String)
  | deleteExpired
  deriving DecidableEq

/-- What a request may return. -/
inductive Response where
  | done
  | token (token : Nat)
  | login (result : LoginResult)
  | callback (result : OAuthCallbackDto)
  | currentUser (user : CurrentUserDto)
  | username (username : String)
  | sessions (sessions : List Session)
  | backupCodes (codes : List Nat)
  | status (enabled : Bool)
  | user (user : UserDto)

variable (S : Settings)

/-- The program of a request. -/
def respond : Request → App Response
  | .register username password => (fun _ => .done) <$> register S username password
  | .verifyEmail token => (fun _ => .done) <$> verifyEmail S token
  | .resendVerification actorToken => (fun _ => .done) <$> resendVerification S actorToken
  | .deleteAccount actorToken password => (fun _ => .done) <$> deleteAccount S actorToken password
  | .forgotPassword username => (fun _ => .done) <$> forgotPassword S username
  | .resetPassword token password => (fun _ => .done) <$> resetPassword S token password
  | .changePassword actorToken currentPassword newPassword =>
      (fun _ => .done) <$> changePassword S actorToken currentPassword newPassword
  | .requestEmailChange actorToken newEmail password =>
      (fun _ => .done) <$> requestEmailChange S actorToken newEmail password
  | .confirmEmailChange token => (fun _ => .done) <$> confirmEmailChange S token
  | .requestMagicLink username => (fun _ => .done) <$> requestMagicLink S username
  | .verifyMagicLink token => .token <$> verifyMagicLink S token
  | .login username password => .login <$> login S username password
  | .setupTotp actorToken => .token <$> setupTotp S actorToken
  | .enableTotp actorToken code => .backupCodes <$> enableTotp S actorToken code
  | .disableTotp actorToken code => (fun _ => .done) <$> disableTotp S actorToken code
  | .regenerateTotpBackupCodes actorToken code =>
      .backupCodes <$> regenerateTotpBackupCodes S actorToken code
  | .listSessions actorToken => .sessions <$> listSessionsOf S actorToken
  | .revokeSession actorToken sessionId => (fun _ => .done) <$> revokeSession S actorToken sessionId
  | .totpStatus actorToken => .status <$> totpStatus S actorToken
  | .verifyTotpLogin totpToken code => .token <$> verifyTotpLogin S totpToken code
  | .renewSession token => .token <$> renewSession S token
  | .currentUser token => .currentUser <$> currentUser S token
  | .logout token => (fun _ => .done) <$> logout token
  | .tokenCurrentUser token => .username <$> tokenCurrentUser token
  | .authorizeUrl provider => .token <$> authorizeUrl S provider
  | .linkAuthorizeUrl actorToken provider => .token <$> linkAuthorizeUrl S actorToken provider
  | .callback provider code state => .callback <$> callback S provider code state
  | .completeOAuthSignup signupToken username =>
      .login <$> completeOAuthSignup S signupToken username
  | .unlinkConnection actorToken provider =>
      (fun _ => .done) <$> unlinkConnectionOf actorToken provider
  | .requireUser username permission => (fun _ => .done) <$> requireUser username permission
  | .getUser actorToken username => .user <$> getUser actorToken username
  | .createUser actorToken username password isVerified roles =>
      .user <$> createUser S actorToken username password isVerified roles
  | .updateUser actorToken username password isVerified roles =>
      .user <$> updateUser S actorToken username password isVerified roles
  | .deleteUser actorToken username => (fun _ => .done) <$> deleteUser S actorToken username
  | .createRole actorToken name => (fun _ => .done) <$> createRole actorToken name
  | .updateRole actorToken name newName => (fun _ => .done) <$> updateRole actorToken name newName
  | .deleteRole actorToken roleName => (fun _ => .done) <$> deleteRole actorToken roleName
  | .setRolePermissions actorToken roleName permissions =>
      (fun _ => .done) <$> setRolePermissions actorToken roleName permissions
  | .assignUserRole actorToken username roleName =>
      (fun _ => .done) <$> assignUserRole actorToken username roleName
  | .seedIdentity adminUsername adminPassword =>
      (fun _ => .done) <$> seedIdentity S adminUsername adminPassword
  | .deleteExpired => (fun _ => .done) <$> call .deleteExpired

/-- The identity services, with a clock that moves as `clock` says. -/
def identity (clock : Int → Int → Prop) :
    Site Request Call Reply (Except ApplicationError Response) Store where
  serve q := (respond S q).run
  answer := Answer S
  drift := Drifts clock

abbrev Run := Config Request Call Reply (Except ApplicationError Response) Store

/-! ### Schedules -/

/-- Settings for runs that are written out: a password is its own hash, and the digits of
every code are zeros. -/
def plainSettings : Settings where
  backend := .sqlite
  slidingTtl := minutes 30
  refreshThresholdPercent := 50
  tokenLifetime := minutes 720
  stateTtl := minutes 10
  publishSearch := false
  durableMail := true
  hash := .ok
  verify password hash := .ok (password == hash)
  verifyTotpCode _ _ code _ := .ok (decide (code = .totp "000000"))
  providerSettings _ := .ok ()

/-- Settings, with an empty store. -/
def fresh : Run := ⟨⟨.empty, [], [], none, [], [], 0, 0⟩, []⟩

/-- `user_permissions`, sorted by insertion: what `Tables.userPermissions` computes. -/
def sortedPermissions (t : Tables) (username : String) : List String :=
  (((t.rolePermissions.map RolePermission.permissionName).dedup.filter fun permission =>
    t.hasPermission username permission).insertionSort (· ≤ ·)).filter
      fun permission => allPermissionNames.contains permission

theorem sortedPermissions_eq (t : Tables) (username : String) :
    sortedPermissions t username = t.userPermissions username := by
  rw [sortedPermissions, Tables.userPermissions, ← List.mergeSort_eq_insertionSort]

/-- An answer of a backend that fails only on a constraint; the provider says that the
user is `external`. -/
def choose (external : OAuthExternalUser) (s : Store) :
    (c : Call) → Option (Reply c × Store)
  | .managed command =>
      let run := Managed.run S.backend command ⟨s.drawn, s.drawn, s.now⟩ s.tables
      let drawn := s.drawn + 1
      if run.2.2.tables.users.all fun u => decide (u.id < drawn) && decide (u.pid < drawn) then
        some (run.2.1, { s with tables := run.2.2.tables, drawn := drawn })
      else none
  | .fetchUser _ _ => some (.ok external, s)
  | .userPermissions username => some (.ok (sortedPermissions s.tables username), s)
  | c => execute S s c

theorem choose_sound (external : OAuthExternalUser) (s : Store) (c : Call) (r : Reply c)
    (s' : Store) (h : choose S external s c = some (r, s')) : Answer S s c r s' := by
  cases c with
  | managed command =>
      rw [choose] at h
      split at h
      · next hall =>
          obtain ⟨rfl, rfl⟩ := Prod.mk.inj (Option.some.inj h)
          refine .managed (Managed.runs_run _ _ _ _) (Nat.le_succ _) fun u hu => ?_
          simpa using List.all_eq_true.1 hall u hu
      · cases h
  | fetchUser provider code =>
      obtain ⟨rfl, rfl⟩ := Prod.mk.inj (Option.some.inj h)
      exact .fetched _
  | userPermissions username =>
      rw [choose, sortedPermissions_eq] at h
      exact .executed h
  | _ => exact .executed h

/-- The site with answers that are computed; its clock moves forward. -/
def identityMachine :
    Machine Request Call Reply (Except ApplicationError Response) Store OAuthExternalUser Nat where
  toSite := identity S (· ≤ ·)
  choose := choose S
  choose_sound := choose_sound S
  shift d s := { s with now := s.now + d }
  shift_sound _ _ :=
    ⟨rfl, rfl, rfl, rfl, List.Sublist.refl _, rfl, rfl,
      Int.le_add_of_nonneg_right (Int.natCast_nonneg _)⟩

abbrev Schedule := List (Move Request OAuthExternalUser Nat)

/-- A request arrives as the flight `i` and makes `n` calls. -/
def serveAt (i : Nat) (q : Request) (n : Nat) : Schedule :=
  .arrive q :: List.replicate n (.call i ⟨"account", "external@example.com"⟩)

end Service
end Identity
end Hegira
