/-
# `OAuthAppService`

`application/src/identity/oauth/service.rs`.
-/

import Mathlib.Data.List.Basic
import Hegira.Identity.AuthService

namespace Hegira
namespace Identity
namespace Service

variable (S : Settings)

/-- `normalize_provider`. -/
def normalizeProvider (provider : String) : Except ApplicationError String :=
  let provider := String.ofList ((trim provider).toList.map Char.toLower)
  if provider = "google" ∨ provider = "github" then .ok provider
  else .error (.coded .validation "oauth:unsupported_provider" "Unsupported OAuth provider")

def oauthSignupExpirationMinutes : Int := 10

/-- `create_authorize_url`. -/
def createAuthorizeUrl (provider : String) (flow : OAuthFlow) (username : Option String) :
    App Nat := do
  let provider ← liftExcept (normalizeProvider provider)
  liftExcept (S.providerSettings provider)
  let now ← call .now
  let state ← call .newToken
  call (.insertState ⟨state, provider, flow, username, now, now + S.stateTtl⟩)
  return state

def authorizeUrl (provider : String) : App Nat := createAuthorizeUrl S provider .login none

def linkAuthorizeUrl (actorToken : Nat) (provider : String) : App Nat := do
  let username ← tokenCurrentUser actorToken
  createAuthorizeUrl S provider .link (some username)

/-- `OAuthCallbackDto`. -/
structure OAuthCallbackDto where
  linked : Bool
  login : Option LoginResult
  signupToken : Option Nat

/-- The callback of a flow that links. -/
def linkExternal (username : Option String) (provider : String) (external : OAuthExternalUser) :
    App OAuthCallbackDto := do
  let username ← okOr .unauthorized username
  call (.linkConnection username provider external.providerUserId external.email)
  return ⟨true, none, none⟩

/-- The callback of a flow that signs in an identity without a user. -/
def startSignup (provider : String) (external : OAuthExternalUser) : App OAuthCallbackDto := do
  let now ← call .now
  let signupToken ← call .newToken
  call (.insertPendingSignup ⟨signupToken, provider, external.providerUserId, external.email, now,
    now + minutes oauthSignupExpirationMinutes⟩)
  return ⟨false, none, some signupToken⟩

/-- The callback of a flow that signs in a user. -/
def loginExternal (username : String) : App OAuthCallbackDto := do
  if ← secondFactorEnabled username then
    let login ← requireTotp username
    return ⟨false, some login, none⟩
  else
    let token ← createSession S username
    return ⟨false, some (.authenticated token), none⟩

def callback (provider code : String) (state : Nat) : App OAuthCallbackDto := do
  let provider ← liftExcept (normalizeProvider provider)
  liftExcept (S.providerSettings provider)
  if (trim code).isEmpty then
    throw (.coded .validation "oauth:invalid_callback" "Invalid OAuth callback")
  let now ← call .now
  let stored ← call (.takeState state now)
  let stored ← okOr (.coded .unauthorized "oauth:invalid_state" "OAuth state is invalid or expired")
    stored
  if stored.provider != provider then
    throw (.coded .unauthorized "oauth:provider_mismatch" "OAuth provider does not match state")
  let external ← call (.fetchUser provider code)
  if stored.flow = .link then
    linkExternal stored.username provider external
  else
    match ← call (.usernameForConnection provider external.providerUserId) with
    | none => startSignup provider external
    | some username => loginExternal S username

def completeOAuthSignup (signupToken : Nat) (username : String) : App LoginResult := do
  liftExcept (requiredUsername username)
  let username := trim username
  let password ← call .newToken
  let passwordHash ← liftExcept (S.hash (toString password))
  let now ← call .now
  if !(← call (.completeSignup ⟨signupToken, now, username, passwordHash, S.publishSearch⟩)) then
    throw (.coded .unauthorized "oauth:signup_expired" "OAuth signup is invalid or expired")
  let token ← createSession S username
  return .authenticated token

def unlinkConnectionOf (actorToken : Nat) (provider : String) : App Unit := do
  let provider ← liftExcept (normalizeProvider provider)
  let username ← tokenCurrentUser actorToken
  match ← call (.unlinkConnection username provider) with
  | .unlinked => return ()
  | .lastConnection =>
      throw (.coded .conflict "oauth:last_connection_required"
        "The last sign-in connection cannot be removed")
  | .notFound => throw (.coded .notFound "oauth:connection_not_found" "OAuth connection not found")

end Service
end Identity
end Hegira
