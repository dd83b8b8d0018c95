/-
# Which request changes what

Most calls of a service look something up, draw a value or use the cache; they leave the
tables and the pending states of a sign-in as they are (`Call.harmless`).  The others are
few for each request (`Request.changes`), and a request makes no others, whatever it is
told (`makes_respond`).  What only some calls do is then the doing of a few requests.
-/

import Mathlib.Data.List.Basic
import Hegira.Identity.Site

namespace Hegira
namespace Identity
namespace Service

/-- The call leaves the tables and the states. -/
def Call.harmless : Call → Bool
  | .now | .newToken | .createToken _ | .verifyToken _ | .findUser _ | .userExists _ => true
  | .userIdByUsername _ | .userRoles _ | .credentialByUsername _ | .credentialByLoginToken _ => true
  | .findSession _ | .sessionExists _ | .listSessions _ | .userPermissions _ => true
  | .fetchUser .. | .usernameForConnection .. => true
  | .cacheVersion | .cacheSetVersion _ | .cacheGet _ | .cacheSet .. | .sendMail _ => true
  | _ => false

/-! ### The table -/

/-- A session is prolonged. -/
def Call.refreshes (c : Call) : Bool := c matches .refreshSession ..

/-- A session is inserted. -/
def Call.insertsSession (c : Call) : Bool := c matches .insertSession .. | .insertSessionOf ..

/-- What a request may call besides what is harmless: it looks up and may prolong the
session of its actor, it may end in a new session, and it has changes of its own. -/
def Request.changes : Request → Call → Bool
  | .register .., c => (c matches .managed (.register _))
  | .verifyEmail _, c => (c matches .managed (.verifyEmail ..))
  | .resendVerification _, c => c.refreshes ||
      (c matches .managed (.setVerification ..) | .updateUser (.setEmailVerification ..))
  | .deleteAccount .., c => c.refreshes ||
      (c matches .managed (.delete ..) | .deleteSessionFor ..)
  | .forgotPassword _, c =>
      (c matches .managed (.setResetToken ..) | .updateUser (.setResetToken ..))
  | .resetPassword .., c => (c matches .updateUser (.resetPassword ..))
  | .changePassword .., c => c.refreshes || (c matches .updateUser (.resetPassword ..))
  | .requestEmailChange .., c => c.refreshes || (c matches .managed (.requestEmailChange ..))
  | .confirmEmailChange _, c => (c matches .managed (.confirmEmailChange ..))
  | .requestMagicLink _, c =>
      (c matches .managed (.setMagicLink ..) | .updateUser (.setMagicLink ..))
  | .verifyMagicLink _, c => c.insertsSession || (c matches .updateUser (.clearMagicLink _))
  | .login .., c => c.insertsSession || (c matches .updateUser (.setLoginToken ..))
  | .setupTotp _, c => c.refreshes || (c matches .updateUser (.setSetupSecret ..))
  | .enableTotp .., c => c.refreshes || (c matches .updateUser (.enable ..))
  | .disableTotp .., c => c.refreshes ||
      (c matches .updateUser (.consumeBackupCodeHashes ..) | .updateUser (.disable _))
  | .regenerateTotpBackupCodes .., c => c.refreshes ||
      (c matches .updateUser (.consumeBackupCodeHashes ..) |
        .updateUser (.replaceBackupCodeHashes ..))
  | .listSessions _, c => c.refreshes
  | .revokeSession .., c => c.refreshes || (c matches .deleteSessionFor ..)
  | .totpStatus _, c => c.refreshes
  | .verifyTotpLogin .., c => c.insertsSession ||
      (c matches .updateUser (.consumeBackupCodeHashes ..) | .updateUser (.consumeLoginToken ..))
  | .renewSession _, c => (c matches .updateSessionToken ..)
  | .currentUser _, c => c.refreshes
  | .logout _, c => (c matches .deleteSession _)
  | .tokenCurrentUser _, _ => false
  | .authorizeUrl _, c => (c matches .insertState _)
  | .linkAuthorizeUrl .., c => (c matches .insertState _)
  | .callback .., c => c.insertsSession ||
      (c matches .takeState .. | .linkConnection .. | .insertPendingSignup _ |
        .updateUser (.setLoginToken ..))
  | .completeOAuthSignup .., c => c.insertsSession || (c matches .completeSignup _)
  | .unlinkConnection .., c => (c matches .unlinkConnection ..)
  | .requireUser .., _ => false
  | .getUser .., _ => false
  | .createUser .., c => (c matches .managed (.create _))
  | .updateUser .., c => (c matches .managed (.update _))
  | .deleteUser .., c => (c matches .managed (.delete ..))
  | .createRole .., c => (c matches .createRole _)
  | .updateRole .., c => (c matches .updateRole ..)
  | .deleteRole .., c => (c matches .deleteRole _)
  | .setRolePermissions .., c => (c matches .setRolePermissions ..)
  | .assignUserRole .., c => (c matches .giveRole ..)
  | .seedIdentity .., c => (c matches .ensureIdentitySeedData | .insertUser .. |
      .updateUser (.markEmailVerified ..) | .giveRole ..)
  | .deleteExpired, c => (c matches .deleteExpired)

/-! ### The programs -/

/-- The program makes harmless calls, and those of `calls`. -/
abbrev Makes {α : Type} (p : App α) (calls : Call → Bool) : Prop :=
  Fallible.Makes p fun c => c.harmless = true ∨ calls c = true

section Parts

variable {α : Type} {p : App α} {calls calls' : Call → Bool}

/-- A call that only looks may stand anywhere. -/
theorem makes_call {c : Call} (h : c.harmless = true) : Makes (call c) calls :=
  ⟨⟨.inl h, fun _ => trivial⟩⟩

/-- A change that is listed. -/
theorem makes_change {c : Call} (h : calls c = true) : Makes (call c) calls :=
  ⟨⟨.inr h, fun _ => trivial⟩⟩

/-- An absent value is an error and no call. -/
theorem makes_okOr {e : ApplicationError} {o : Option α} : Makes (okOr e o) calls := by
  cases o <;> exact ⟨trivial⟩

/-- What a part of the program calls, among more. -/
theorem Makes.among (hp : Makes p calls) : Makes p fun c => calls c || calls' c :=
  hp.mono fun _ hc => hc.imp id fun h => Bool.or_eq_true_iff.2 (.inl h)

end Parts

section Programs

variable {S : Settings} {calls : Call → Bool}

/-- A session that is about to end is prolonged, and nothing else. -/
theorem makes_refreshSessionIfNeeded (session : Session) :
    Makes (refreshSessionIfNeeded S session) Call.refreshes :=
  .bind (makes_call rfl) fun _ => .ite .pure (.bind (.bind (makes_call rfl) fun _ => .pure) fun _ =>
    .bind (makes_change rfl) fun _ => .pure)

/-- Looking up the actor may prolong the actor's session. -/
theorem makes_currentUser (token : Nat) : Makes (currentUser S token) Call.refreshes :=
  .bind (makes_call rfl) fun _ => .bind (makes_call rfl) fun _ => .bind makes_okOr fun session =>
    .bind (makes_call rfl) fun _ => .ite .throw <|
      .bind (makes_refreshSessionIfNeeded session) fun _ => .bind (makes_call rfl) fun _ => .pure

/-- The bearer path prolongs nothing. -/
theorem makes_tokenCurrentUser (token : Nat) : Makes (tokenCurrentUser token) calls :=
  .bind (makes_call rfl) fun _ => .bind (makes_call rfl) fun _ => .ite .throw <|
    .bind (makes_call rfl) fun _ => .ite .throw .pure

/-- A lookup by name changes nothing. -/
theorem makes_userNamed (username : String) : Makes (userNamed username) calls :=
  .bind (makes_call rfl) fun _ => makes_okOr

/-- The check of a password makes no call. -/
theorem makes_checkPassword (password : String) (user : User) :
    Makes (checkPassword S password user) calls :=
  .bind .liftExcept fun _ => .ite .throw .pure

/-- The flag of a managed command is read off its outcome. -/
theorem makes_managedFlag {command : Managed.Command} (h : calls (.managed command) = true) :
    Makes (managedFlag command) calls := by
  refine .bind (makes_change h) fun outcome => ?_
  cases outcome <;> exact .pure

/-- A login ends in a row of a session, by whichever statement the backend has. -/
theorem makes_createSession (username : String) :
    Makes (createSession S username) Call.insertsSession := by
  refine .bind (makes_call rfl) fun token =>
    .bind (.bind (makes_call rfl) fun _ => .pure) fun maxExpiresAt =>
      .bind (.bind (makes_call rfl) fun _ => .pure) fun expiresAt => .bind ?_ fun _ => .pure
  unfold insertSessionRow
  cases S.backend with
  | sqlite => exact makes_change rfl
  | postgres => exact .bind (makes_call rfl) fun _ => makes_change rfl

/-- A token is stored by the managed command that mails it, or by an update before the mail. -/
theorem makes_storeAndMail {stored : Managed.Command} {update : UserUpdate}
    {mail : TransactionalMail} (hstored : calls (.managed stored) = true)
    (hupdate : calls (.updateUser update) = true) :
    Makes (storeAndMail S stored update mail) calls :=
  .ite (.bind (makes_change hstored) fun _ => .pure)
    (.bind (makes_change hupdate) fun _ => makes_call rfl)

/-! ### Accounts -/

/-- Registering is one managed command. -/
theorem makes_register (username password : String) :
    Makes (register S username password) (Request.register username password).changes := by
  refine .bind .liftExcept fun _ => .bind .liftExcept fun passwordHash => .bind (makes_call rfl)
    fun token => .bind (makes_call rfl) fun now =>
      .bind (.attempt (makes_change rfl)) fun registered => ?_
  dsimp only
  split
  · exact .ite .pure (makes_call rfl)
  · exact .bind .throw fun _ => .ite .pure (makes_call rfl)
  · exact .bind .throw fun _ => .ite .pure (makes_call rfl)

/-- Verifying an address is one managed command. -/
theorem makes_verifyEmail (token : Nat) :
    Makes (verifyEmail S token) (Request.verifyEmail token).changes :=
  .bind (makes_call rfl) fun _ => .bind (makes_managedFlag rfl) fun _ => .ite .throw .pure

/-- A new verification token replaces the old one. -/
theorem makes_resendVerification (actorToken : Nat) :
    Makes (resendVerification S actorToken) (Request.resendVerification actorToken).changes :=
  .bind (makes_currentUser actorToken).among
    fun _ => .bind (makes_userNamed _) fun _ => .ite .pure <| .bind (makes_call rfl) fun _ =>
      .bind (makes_call rfl) fun _ => makes_storeAndMail rfl rfl

/-- The sessions go one by one. -/
theorem makes_deleteSessions (username : String) (sessions : List Session)
    (h : ∀ pid, calls (.deleteSessionFor username pid) = true) :
    Makes (deleteSessions username sessions) calls := by
  induction sessions with
  | nil => exact .pure
  | cons session sessions ih => exact .bind (makes_change (h _)) fun _ => ih

/-- An account is deleted by a managed command, and its sessions before. -/
theorem makes_deleteAccount (actorToken : Nat) (password : String) :
    Makes (deleteAccount S actorToken password)
      (Request.deleteAccount actorToken password).changes :=
  .bind (makes_currentUser actorToken).among
    fun _ => .ite .throw <| .bind (makes_userNamed _) fun _ => .bind (makes_checkPassword _ _)
      fun _ => .bind (makes_call rfl) fun sessions => .bind (makes_managedFlag rfl) fun _ =>
        .ite .throw (makes_deleteSessions _ sessions fun _ => rfl)

/-- A forgotten password only stores a reset token. -/
theorem makes_forgotPassword (username : String) :
    Makes (forgotPassword S username) (Request.forgotPassword username).changes := by
  refine .bind .liftExcept fun _ => .ite .pure <| .bind (makes_call rfl) fun user => ?_
  split
  · exact .pure
  · exact .bind (makes_call rfl) fun _ => .bind (makes_call rfl) fun _ => makes_storeAndMail rfl rfl

/-- A reset is one update, which takes the token. -/
theorem makes_resetPassword (token : Nat) (password : String) :
    Makes (resetPassword S token password) (Request.resetPassword token password).changes :=
  .bind .liftExcept fun _ => .bind (makes_call rfl) fun _ => .bind makes_okOr fun _ =>
    .bind .liftExcept
    fun _ => .bind (makes_change rfl) fun _ => .pure

/-- A changed password is stored as a reset one. -/
theorem makes_changePassword (actorToken : Nat) (currentPassword newPassword : String) :
    Makes (changePassword S actorToken currentPassword newPassword)
      (Request.changePassword actorToken currentPassword newPassword).changes :=
  .bind .liftExcept fun _ =>
    .bind (makes_currentUser actorToken).among
      fun _ => .bind (makes_userNamed _) fun _ => .bind (makes_checkPassword _ _) fun _ =>
        .bind .liftExcept fun _ => .bind (makes_change rfl) fun _ => .pure

/-- A change of address is requested by one managed command. -/
theorem makes_requestEmailChange (actorToken : Nat) (newEmail password : String) :
    Makes (requestEmailChange S actorToken newEmail password)
      (Request.requestEmailChange actorToken newEmail password).changes :=
  .bind .liftExcept fun _ =>
    .bind (makes_currentUser actorToken).among
      fun _ => .bind (makes_userNamed _) fun _ => .bind (makes_checkPassword _ _) fun _ =>
        .bind (makes_call rfl) fun _ => .bind (makes_call rfl) fun _ =>
          .bind (makes_managedFlag rfl) fun _ =>
          .ite .throw (.ite .pure (makes_call rfl))

/-- A change of address is confirmed by one managed command. -/
theorem makes_confirmEmailChange (token : Nat) :
    Makes (confirmEmailChange S token) (Request.confirmEmailChange token).changes :=
  .bind (makes_call rfl) fun _ => .bind (makes_managedFlag rfl) fun _ => .ite .throw .pure

/-! ### Signing in -/

/-- A magic link only stores its token. -/
theorem makes_requestMagicLink (username : String) :
    Makes (requestMagicLink S username) (Request.requestMagicLink username).changes := by
  refine .bind .liftExcept fun _ => .ite .pure <| .bind (makes_call rfl) fun user => ?_
  split
  · exact .pure
  · exact .bind (makes_call rfl) fun _ => .bind (makes_call rfl) fun _ => makes_storeAndMail rfl rfl

/-- A magic link is cleared, and a session begins. -/
theorem makes_verifyMagicLink (token : Nat) :
    Makes (verifyMagicLink S token) (Request.verifyMagicLink token).changes :=
  .bind (makes_call rfl) fun _ => .bind makes_okOr fun _ => .bind (makes_call rfl) fun _ =>
    .ite .throw <|
    .bind (makes_change rfl) fun _ => (makes_createSession _).among

/-- Whether there is a second factor is looked up. -/
theorem makes_secondFactorEnabled (username : String) :
    Makes (secondFactorEnabled username) calls :=
  .bind (makes_call rfl) fun _ => .pure

/-- A login that needs a second factor stores its token. -/
theorem makes_requireTotp (username : String)
    (h : ∀ token expiresAt, calls (.updateUser (.setLoginToken username token expiresAt)) = true) :
    Makes (requireTotp username) calls :=
  .bind (makes_call rfl) fun _ => .bind (makes_call rfl) fun _ =>
    .bind (makes_change (h _ _)) fun _ =>
    .ite .throw .pure

/-- A login begins a session or stores the token of the second step. -/
theorem makes_login (username password : String) :
    Makes (login S username password) (Request.login username password).changes :=
  .ite .throw <| .bind (makes_userNamed _) fun _ => .bind (makes_checkPassword _ _) fun _ =>
    .bind (makes_secondFactorEnabled _) fun _ => .ite (makes_requireTotp _ fun _ _ => rfl) <|
      .bind (makes_createSession _).among
        fun _ => .pure

/-- A renewal is one statement on the session. -/
theorem makes_renewSession (token : Nat) :
    Makes (renewSession S token) (Request.renewSession token).changes :=
  .bind (makes_call rfl) fun _ => .bind (makes_call rfl) fun _ => .ite .throw <|
    .bind (makes_call rfl) fun _ =>
    .bind (.bind (makes_call rfl) fun _ => .pure) fun _ =>
      .bind (.bind (makes_call rfl) fun _ => .pure) fun _ => .bind (makes_change rfl) fun _ =>
        .ite .throw .pure

/-- A logout deletes the session of the token. -/
theorem makes_logout (token : Nat) : Makes (logout token) (Request.logout token).changes :=
  .bind (makes_call rfl) fun _ => .bind (makes_change rfl) fun _ => .ite .throw .pure

/-- The list of sessions changes nothing but the actor's own session. -/
theorem makes_listSessionsOf (actorToken : Nat) :
    Makes (listSessionsOf S actorToken) (Request.listSessions actorToken).changes :=
  .bind (makes_currentUser actorToken)
    fun _ => makes_call rfl

/-- A session is revoked by its user and its id. -/
theorem makes_revokeSession (actorToken sessionId : Nat) :
    Makes (revokeSession S actorToken sessionId)
      (Request.revokeSession actorToken sessionId).changes :=
  .bind (makes_currentUser actorToken).among
    fun _ => .bind (makes_change rfl) fun _ => .ite .throw .pure

/-! ### The second factor -/

/-- A code of the authenticator is checked without a change. -/
theorem makes_verifyTotpCode (secret : Nat) (username : String) (code : Code) :
    Makes (verifyTotpCode S secret username code) calls :=
  .bind (makes_call rfl) fun _ => .liftExcept

/-- Only a backup code is used up. -/
theorem makes_verifyTotpOrBackupCode (credential : TwoFactorCredential) (code : Code)
    (h : ∀ username expected remaining,
      calls (.updateUser (.consumeBackupCodeHashes username expected remaining)) = true) :
    Makes (verifyTotpOrBackupCode S credential code) calls := by
  have hloop : ∀ index hashes, Makes (consumeBackupCode credential code index hashes) calls := by
    intro index hashes
    induction hashes generalizing index with
    | nil => exact .pure
    | cons hash hashes ih => exact .ite (makes_change (h _ _ _)) (ih _)
  exact .bind (makes_verifyTotpCode _ _ _) fun _ => .ite .pure (hloop _ _)

/-- New codes are drawn, and not stored yet. -/
theorem makes_generateBackupCodes (n : Nat) : Makes (generateBackupCodes n) calls := by
  induction n with
  | zero => exact .pure
  | succ n ih => exact .bind (makes_call rfl) fun _ => .bind ih fun _ => .pure

/-- The setup stores the secret. -/
theorem makes_setupTotp (actorToken : Nat) :
    Makes (setupTotp S actorToken) (Request.setupTotp actorToken).changes :=
  .bind (makes_currentUser actorToken).among
    fun _ => .bind (makes_call rfl) fun _ => .bind (makes_change rfl) fun _ => .ite .throw .pure

/-- The factor is enabled by one update. -/
theorem makes_enableTotp (actorToken : Nat) (code : Code) :
    Makes (enableTotp S actorToken code) (Request.enableTotp actorToken code).changes :=
  .bind (makes_currentUser actorToken).among
    fun _ => .bind (makes_call rfl) fun _ => .bind makes_okOr fun _ =>
      .bind (makes_verifyTotpCode _ _ _)
      fun _ => .ite .throw <| .bind (makes_generateBackupCodes _) fun _ => .bind (makes_call rfl)
        fun _ => .bind (makes_change rfl) fun _ => .ite .throw .pure

/-- The factor is disabled, perhaps by a backup code. -/
theorem makes_disableTotp (actorToken : Nat) (code : Code) :
    Makes (disableTotp S actorToken code) (Request.disableTotp actorToken code).changes :=
  .bind (makes_currentUser actorToken).among
    fun _ => .bind (makes_call rfl) fun _ => .bind makes_okOr fun _ =>
      .bind (makes_verifyTotpOrBackupCode _ _ fun _ _ _ => rfl) fun _ => .ite .throw <|
        .bind (makes_change rfl) fun _ => .ite .throw .pure

/-- New backup codes replace the old ones. -/
theorem makes_regenerateTotpBackupCodes (actorToken : Nat) (code : Code) :
    Makes (regenerateTotpBackupCodes S actorToken code)
      (Request.regenerateTotpBackupCodes actorToken code).changes :=
  .bind (makes_currentUser actorToken).among
    fun _ => .bind (makes_call rfl) fun _ => .bind makes_okOr fun _ =>
      .bind (makes_verifyTotpOrBackupCode _ _ fun _ _ _ => rfl) fun _ => .ite .throw <|
        .bind (makes_generateBackupCodes _) fun _ => .bind (makes_change rfl) fun _ => .pure

/-- The status of the factor is looked up. -/
theorem makes_totpStatus (actorToken : Nat) :
    Makes (totpStatus S actorToken) (Request.totpStatus actorToken).changes :=
  .bind (makes_currentUser actorToken)
    fun _ => makes_secondFactorEnabled _

/-- The second step takes the token of the login and begins a session. -/
theorem makes_verifyTotpLogin (totpToken : Nat) (code : Code) :
    Makes (verifyTotpLogin S totpToken code) (Request.verifyTotpLogin totpToken code).changes :=
  .bind (makes_call rfl) fun _ => .bind makes_okOr fun _ =>
    .bind (makes_verifyTotpOrBackupCode _ _ fun _ _ _ => rfl) fun _ => .ite .throw <|
      .bind (makes_change rfl) fun _ => .ite .throw <| (makes_createSession _).among

/-! ### OAuth -/

/-- The state of an OAuth flow is stored. -/
theorem makes_createAuthorizeUrl (provider : String) (flow : OAuthFlow) (username : Option String)
    (h : ∀ state, calls (.insertState state) = true) :
    Makes (createAuthorizeUrl S provider flow username) calls :=
  .bind .liftExcept fun _ => .bind .liftExcept fun _ => .bind (makes_call rfl) fun _ =>
    .bind (makes_call rfl) fun _ => .bind (makes_change (h _)) fun _ => .pure

/-- The flow that links a connection stores its state as well. -/
theorem makes_linkAuthorizeUrl (actorToken : Nat) (provider : String) :
    Makes (linkAuthorizeUrl S actorToken provider)
      (Request.linkAuthorizeUrl actorToken provider).changes :=
  .bind (makes_tokenCurrentUser _) fun _ => makes_createAuthorizeUrl _ _ _ fun _ => rfl

/-- A callback takes its state, and links, signs up or logs in. -/
theorem makes_callback (provider code : String) (state : Nat) :
    Makes (callback S provider code state) (Request.callback provider code state).changes := by
  refine .bind .liftExcept fun provider' => .bind .liftExcept fun _ => .ite .throw <|
    .bind (makes_call rfl) fun now => .bind (makes_change rfl) fun stored =>
      .bind makes_okOr fun stored =>
      .ite .throw <| .bind (makes_call rfl) fun external => .ite ?_ <|
        .bind (makes_call rfl) fun user => ?_
  · exact .bind makes_okOr fun _ => .bind (makes_change rfl) fun _ => .pure
  · split
    · exact .bind (makes_call rfl) fun _ => .bind (makes_call rfl) fun _ =>
        .bind (makes_change rfl) fun _ => .pure
    · exact .bind (makes_secondFactorEnabled _) fun _ =>
        .ite (.bind (makes_requireTotp _ fun _ _ => rfl) fun _ => .pure) <|
          .bind (makes_createSession _).among
            fun _ => .pure

/-- A signup is completed by one transaction, and a session begins. -/
theorem makes_completeOAuthSignup (signupToken : Nat) (username : String) :
    Makes (completeOAuthSignup S signupToken username)
      (Request.completeOAuthSignup signupToken username).changes :=
  .bind .liftExcept fun _ => .bind (makes_call rfl) fun _ => .bind .liftExcept fun _ =>
    .bind (makes_call rfl) fun _ => .bind (makes_change rfl) fun _ => .ite .throw <|
      .bind (makes_createSession _).among
        fun _ => .pure

/-- A connection is unlinked by one call. -/
theorem makes_unlinkConnectionOf (actorToken : Nat) (provider : String) :
    Makes (unlinkConnectionOf actorToken provider)
      (Request.unlinkConnection actorToken provider).changes := by
  refine .bind .liftExcept fun _ => .bind (makes_tokenCurrentUser _) fun _ =>
    .bind (makes_change rfl) fun result => ?_
  split
  · exact .pure
  · exact .throw
  · exact .throw

/-! ### Administration -/

/-- A permission is looked up in the cache or in the tables. -/
theorem makes_requireUser (username permission : String) :
    Makes (requireUser username permission) calls := by
  refine .bind (.bind (.bind (makes_call rfl) fun _ => .pure) fun _ =>
    makes_call rfl) fun permissions => ?_
  split
  · exact .ite .pure .throw
  · exact .bind (makes_call rfl) fun _ =>
      .bind (.bind (.bind (makes_call rfl) fun _ => .pure) fun _ => makes_call rfl) fun _ =>
        .ite .pure .throw

/-- A permission of the actor is looked up. -/
theorem makes_requirePermission (actorToken : Nat) (permission : String) :
    Makes (requirePermission actorToken permission) calls :=
  .bind (makes_tokenCurrentUser _) fun _ => makes_requireUser _ _

/-- Only the version of the cache moves. -/
theorem makes_invalidate : Makes invalidate calls := .bind (makes_call rfl) fun _ => makes_call rfl

/-- A user is looked up with the roles. -/
theorem makes_getUser (actorToken : Nat) (username : String) :
    Makes (getUser actorToken username) calls :=
  .bind (makes_requirePermission _ _) fun _ => .bind (makes_call rfl) fun _ =>
    .bind makes_okOr fun _ =>
    .bind (makes_call rfl) fun _ => .pure

/-- The clock may be read. -/
theorem makes_verifiedNow (isVerified : Bool) : Makes (verifiedNow isVerified) calls :=
  .ite (.bind (makes_call rfl) fun _ => .pure) .pure

/-- A user is created by one managed command. -/
theorem makes_createUser (actorToken : Nat) (username password : String) (isVerified : Bool)
    (roles : List String) : Makes (createUser S actorToken username password isVerified roles)
      (Request.createUser actorToken username password isVerified roles).changes := by
  refine .bind (makes_requirePermission _ _) fun _ => .bind .liftExcept fun _ =>
    .bind (makes_call rfl) fun _ => .ite .throw <| .bind .liftExcept fun _ =>
      .bind (makes_verifiedNow _) fun _ => .bind (.attempt (makes_change rfl)) fun created => ?_
  split
  · exact .bind makes_invalidate fun _ => makes_getUser _ _
  · exact .throw
  · exact .throw

/-- A user is updated by one managed command. -/
theorem makes_updateUser (actorToken : Nat) (username : String) (password : Option String)
    (isVerified : Bool) (roles : List String) :
    Makes (updateUser S actorToken username password isVerified roles)
      (Request.updateUser actorToken username password isVerified roles).changes := by
  refine .bind (makes_requirePermission _ _) fun _ => .bind .liftExcept fun _ =>
    .bind (makes_call rfl) fun _ => .ite .throw <| .bind .liftExcept fun _ =>
      .bind (makes_verifiedNow _) fun _ => .bind (makes_change rfl) fun updated => ?_
  split
  · exact .throw
  · exact .bind makes_invalidate fun _ => makes_getUser _ _

/-- A user is deleted by one managed command. -/
theorem makes_deleteUser (actorToken : Nat) (username : String) :
    Makes (deleteUser S actorToken username) (Request.deleteUser actorToken username).changes :=
  .bind (makes_requirePermission _ _) fun _ => .ite .throw <|
    .bind (makes_managedFlag rfl) fun _ => .ite .throw makes_invalidate

/-- A role is created by one call. -/
theorem makes_createRole (actorToken : Nat) (name : String) :
    Makes (createRole actorToken name) (Request.createRole actorToken name).changes :=
  .bind (makes_requirePermission _ _) fun _ => .bind .liftExcept fun _ =>
    .bind (makes_change rfl) fun _ => makes_invalidate

/-- A role is renamed by one call. -/
theorem makes_updateRole (actorToken : Nat) (name newName : String) :
    Makes (updateRole actorToken name newName)
      (Request.updateRole actorToken name newName).changes :=
  .bind (makes_requirePermission _ _) fun _ => .bind .liftExcept fun _ => .bind .liftExcept fun _ =>
    .ite .throw <| .bind (makes_change rfl) fun _ => .ite .throw makes_invalidate

/-- A role is deleted by one call. -/
theorem makes_deleteRole (actorToken : Nat) (roleName : String) :
    Makes (deleteRole actorToken roleName) (Request.deleteRole actorToken roleName).changes :=
  .bind (makes_requirePermission _ _) fun _ => .bind .liftExcept fun _ => .ite .throw <|
    .bind (makes_change rfl) fun _ => .ite .throw makes_invalidate

/-- The permissions of a role are set by one call. -/
theorem makes_setRolePermissions (actorToken : Nat) (roleName : String)
    (permissions : List String) : Makes (setRolePermissions actorToken roleName permissions)
      (Request.setRolePermissions actorToken roleName permissions).changes :=
  .bind (makes_requirePermission _ _) fun _ => .bind .liftExcept fun _ => .bind .liftExcept fun _ =>
    .bind (makes_change rfl) fun _ => makes_invalidate

/-- A role is given to the id found under the name. -/
theorem makes_assignRole (username roleName : String)
    (h : ∀ userId, calls (.giveRole userId roleName) = true) :
    Makes (assignRole username roleName) calls :=
  .bind (makes_call rfl) fun _ => makes_change (h _)

/-- An administrator gives a role to a user. -/
theorem makes_assignUserRole (actorToken : Nat) (username roleName : String) :
    Makes (assignUserRole actorToken username roleName)
      (Request.assignUserRole actorToken username roleName).changes :=
  .bind (makes_requirePermission _ _) fun _ => .bind .liftExcept fun _ => .bind .liftExcept fun _ =>
    .bind (makes_assignRole _ _ fun _ => rfl) fun _ => makes_invalidate

/-- The seed makes the roles, and the administrator if there is none. -/
theorem makes_seedIdentity (adminUsername adminPassword : String) :
    Makes (seedIdentity S adminUsername adminPassword)
      (Request.seedIdentity adminUsername adminPassword).changes :=
  .bind (makes_change rfl) fun _ => .bind (makes_call rfl) fun _ =>
    .ite (.bind .liftExcept fun _ => .bind (makes_change rfl) fun _ =>
      .bind (makes_call rfl) fun _ =>
      .bind (makes_change rfl) fun _ => makes_assignRole _ _ fun _ => rfl)
      (makes_assignRole _ _ fun _ => rfl)

/-! ### Every request -/

/-- **A request only makes the changes of the table.** -/
theorem makes_respond (q : Request) : Makes (respond S q) q.changes := by
  cases q with
  | register username password => exact (makes_register username password).map
  | verifyEmail token => exact (makes_verifyEmail token).map
  | resendVerification actorToken => exact (makes_resendVerification actorToken).map
  | deleteAccount actorToken password => exact (makes_deleteAccount actorToken password).map
  | forgotPassword username => exact (makes_forgotPassword username).map
  | resetPassword token password => exact (makes_resetPassword token password).map
  | changePassword actorToken current new => exact (makes_changePassword actorToken current new).map
  | requestEmailChange actorToken newEmail password =>
      exact (makes_requestEmailChange actorToken newEmail password).map
  | confirmEmailChange token => exact (makes_confirmEmailChange token).map
  | requestMagicLink username => exact (makes_requestMagicLink username).map
  | verifyMagicLink token => exact (makes_verifyMagicLink token).map
  | login username password => exact (makes_login username password).map
  | setupTotp actorToken => exact (makes_setupTotp actorToken).map
  | enableTotp actorToken code => exact (makes_enableTotp actorToken code).map
  | disableTotp actorToken code => exact (makes_disableTotp actorToken code).map
  | regenerateTotpBackupCodes actorToken code =>
      exact (makes_regenerateTotpBackupCodes actorToken code).map
  | listSessions actorToken => exact (makes_listSessionsOf actorToken).map
  | revokeSession actorToken sessionId => exact (makes_revokeSession actorToken sessionId).map
  | totpStatus actorToken => exact (makes_totpStatus actorToken).map
  | verifyTotpLogin totpToken code => exact (makes_verifyTotpLogin totpToken code).map
  | renewSession token => exact (makes_renewSession token).map
  | currentUser token =>
      exact (makes_currentUser token).map
  | logout token => exact (makes_logout token).map
  | tokenCurrentUser token => exact (makes_tokenCurrentUser token).map
  | authorizeUrl provider => exact (makes_createAuthorizeUrl provider _ _ fun _ => rfl).map
  | linkAuthorizeUrl actorToken provider => exact (makes_linkAuthorizeUrl actorToken provider).map
  | callback provider code state => exact (makes_callback provider code state).map
  | completeOAuthSignup signupToken username =>
      exact (makes_completeOAuthSignup signupToken username).map
  | unlinkConnection actorToken provider => exact (makes_unlinkConnectionOf actorToken provider).map
  | requireUser username permission => exact (makes_requireUser username permission).map
  | getUser actorToken username => exact (makes_getUser actorToken username).map
  | createUser actorToken username password isVerified roles =>
      exact (makes_createUser actorToken username password isVerified roles).map
  | updateUser actorToken username password isVerified roles =>
      exact (makes_updateUser actorToken username password isVerified roles).map
  | deleteUser actorToken username => exact (makes_deleteUser actorToken username).map
  | createRole actorToken name => exact (makes_createRole actorToken name).map
  | updateRole actorToken name newName => exact (makes_updateRole actorToken name newName).map
  | deleteRole actorToken roleName => exact (makes_deleteRole actorToken roleName).map
  | setRolePermissions actorToken roleName permissions =>
      exact (makes_setRolePermissions actorToken roleName permissions).map
  | assignUserRole actorToken username roleName =>
      exact (makes_assignUserRole actorToken username roleName).map
  | seedIdentity adminUsername adminPassword =>
      exact (makes_seedIdentity adminUsername adminPassword).map
  | deleteExpired => exact (makes_change rfl).map

end Programs

end Service
end Identity
end Hegira
