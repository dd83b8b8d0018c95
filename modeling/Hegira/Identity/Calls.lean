/-
# The calls of the identity services

What the services share (`Store`), the calls they make, and what may come of a call.

Every call of a repository may fail, and then changes nothing.  The operations of the
user writer run by themselves.  What a provider says of a user is not known.
-/

import Mathlib.Data.List.Basic
import Hegira.Identity.Repositories
import Hegira.Library.Interleaving

namespace Hegira
namespace Identity
namespace Service

/-- `Claims`; the `jti` is the token. -/
structure Claims where
  sub : String
  exp : Int
  iat : Int
  deriving DecidableEq

inductive OAuthFlow where
  | login
  | link
  deriving DecidableEq

/-- `OAuthState`. -/
structure OAuthState where
  state : Nat
  provider : String
  flow : OAuthFlow
  username : Option String
  createdAt : Int
  expiresAt : Int
  deriving DecidableEq

/-- `OAuthExternalUser`. -/
structure OAuthExternalUser where
  providerUserId : String
  email : String
  deriving DecidableEq

/-- `Session`: a row and the name of its user. -/
structure Session where
  pid : Nat
  token : Nat
  username : String
  createdAt : Int
  expiresAt : Int
  maxExpiresAt : Int
  deriving DecidableEq

/-- The key of a cached list: the version, absent before the first invalidation, and
the user. -/
abbrev CacheKey := Option Nat × String

/-- The tables, the tokens that have been signed, the cache of permissions, the mails
that have been sent, the values that have been drawn, and the time. -/
structure Store where
  tables : Tables
  states : List OAuthState
  signed : List (Nat × Claims)
  version : Option Nat
  cached : List (CacheKey × List String)
  mailed : List TransactionalMail
  drawn : Nat
  now : Int

/-- What a user presents as a code: digits, or a backup code. -/
inductive Code where
  | totp (digits : String)
  | backup (code : Nat)
  deriving DecidableEq

/-- `verify` of a code and a stored hash: the hash stands for the code it is of. -/
def Code.verify (hash : Nat) : Code → Bool
  | totp _ => false
  | backup code => code == hash

/-- What the services are built with. -/
structure Settings where
  backend : Managed.Backend
  slidingTtl : Int
  refreshThresholdPercent : Int
  tokenLifetime : Int
  stateTtl : Int
  publishSearch : Bool
  durableMail : Bool
  hash : String → Except ApplicationError String
  verify : String → String → Except ApplicationError Bool
  verifyTotpCode : Nat → String → Code → Int → Except ApplicationError Bool
  providerSettings : String → Except ApplicationError Unit

inductive Call where
  | now
  | newToken
  | createToken (subject : String)
  | verifyToken (token : Nat)
  | findUser (key : UserKey)
  | userExists (username : String)
  | userIdByUsername (username : String)
  | insertUser (username passwordHash : String)
  | updateUser (update : UserUpdate)
  | userRoles (username : String)
  | credentialByUsername (username : String)
  | credentialByLoginToken (token : Nat)
  | managed (command : Managed.Command)
  | findSession (token : Nat)
  | sessionExists (token : Nat)
  | insertSession (token : Nat) (username : String) (expiresAt maxExpiresAt : Int)
  | insertSessionOf (token userId : Nat) (expiresAt maxExpiresAt : Int)
  | updateSessionToken (oldToken newToken : Nat) (expiresAt maxExpiresAt : Int)
  | refreshSession (token : Nat) (expiresAt : Int)
  | deleteSession (token : Nat)
  | listSessions (username : String)
  | deleteSessionFor (username : String) (pid : Nat)
  | deleteExpired
  | userPermissions (username : String)
  | giveRole (userId : Nat) (roleName : String)
  | createRole (roleName : String)
  | updateRole (roleName newRoleName : String)
  | deleteRole (roleName : String)
  | setRolePermissions (roleName : String) (permissions : List String)
  | ensureIdentitySeedData
  | insertState (state : OAuthState)
  | takeState (state : Nat) (now : Int)
  | fetchUser (provider code : String)
  | usernameForConnection (provider providerUserId : String)
  | linkConnection (username provider providerUserId email : String)
  | unlinkConnection (username provider : String)
  | insertPendingSignup (signup : PendingOAuthSignup)
  | completeSignup (command : OAuth.CompleteOAuthSignup)
  | cacheVersion
  | cacheSetVersion (version : Nat)
  | cacheGet (key : CacheKey)
  | cacheSet (key : CacheKey) (permissions : List String)
  | sendMail (mail : TransactionalMail)

namespace Call

abbrev Value : Call → Type
  | now => Int
  | newToken => Nat
  | createToken _ => Nat
  | verifyToken _ => String
  | findUser _ => Option User
  | userExists _ => Bool
  | userIdByUsername _ => Nat
  | insertUser .. => Unit
  | updateUser _ => Bool
  | userRoles _ => List String
  | credentialByUsername _ => Option TwoFactorCredential
  | credentialByLoginToken _ => Option TwoFactorCredential
  | managed _ => Managed.Outcome
  | findSession _ => Option Session
  | sessionExists _ => Bool
  | insertSession .. => Unit
  | insertSessionOf .. => Unit
  | updateSessionToken .. => Bool
  | refreshSession .. => Bool
  | deleteSession _ => Bool
  | listSessions _ => List Session
  | deleteSessionFor .. => Bool
  | deleteExpired => Unit
  | userPermissions _ => List String
  | giveRole .. => Unit
  | createRole _ => Unit
  | updateRole .. => Bool
  | deleteRole _ => Bool
  | setRolePermissions .. => Unit
  | ensureIdentitySeedData => Unit
  | insertState _ => Unit
  | takeState .. => Option OAuthState
  | fetchUser .. => OAuthExternalUser
  | usernameForConnection .. => Option String
  | linkConnection .. => Unit
  | unlinkConnection .. => OAuth.UnlinkResult
  | insertPendingSignup _ => Unit
  | completeSignup _ => Bool
  | cacheVersion => Option Nat
  | cacheSetVersion _ => Unit
  | cacheGet _ => Option (List String)
  | cacheSet .. => Unit
  | sendMail _ => Unit

/-- The call leaves the process. -/
def remote : Call → Bool
  | now => false
  | newToken => false
  | createToken _ => false
  | verifyToken _ => false
  | cacheVersion => false
  | cacheSetVersion _ => false
  | cacheGet _ => false
  | cacheSet .. => false
  | _ => true

end Call

abbrev Reply (c : Call) : Type := Except ApplicationError c.Value

/-! ### Sessions -/

/-- `expires_at > now AND max_expires_at > now`. -/
def unexpired (now : Int) (r : SessionRow) : Bool :=
  decide (now < r.expiresAt) && decide (now < r.maxExpiresAt)

/-- `FROM sessions s JOIN users u ON u.id = s.user_id`. -/
def sessionOf (r : SessionRow) (u : User) : Session :=
  ⟨r.pid, r.token, u.username, r.createdAt, r.expiresAt, r.maxExpiresAt⟩

/-- `find_by_token`. -/
def findSession (t : Tables) (now : Int) (token : Nat) : Option Session :=
  (t.sessions.find? fun r => r.token == token && unexpired now r).bind fun r =>
    (t.users.find? fun u => u.id == r.userId && u.live).map (sessionOf r)

/-- `list_for_user`. -/
def listSessions (t : Tables) (now : Int) (username : String) : List Session :=
  match t.users.find? fun u => u.username == username with
  | none => []
  | some u =>
      ((t.sessions.filter fun r => r.userId == u.id && unexpired now r).map fun r =>
        sessionOf r u).mergeSort fun a b => decide (b.createdAt ≤ a.createdAt)

/-- The row of a new session, unless the token is there. -/
def insertSession (s : Store) (token userId : Nat) (expiresAt maxExpiresAt : Int) :
    Except ApplicationError Unit × Store :=
  if s.tables.sessions.any fun r => r.token == token then
    (.error (.validation "constraint failed"), s)
  else
    (.ok (), { s with
      tables := { s.tables with
        sessions := s.tables.sessions ++ [⟨s.drawn, token, userId, s.now, expiresAt, maxExpiresAt⟩] }
      drawn := s.drawn + 1 })

/-! ### OAuth -/

/-- A statement by itself. -/
def OAuth.statement (d : OAuth.Draw) (t : Tables) (st : OAuth.Statement) :
    Option (st.Result × Tables) :=
  (OAuth.execute t d st).map fun (result, writes, _) => (result, writes.foldl OAuth.applyWrite t)

/-- `unlink_connection`; Postgres looks at the count before the connection. -/
def unlinkConnection (b : Managed.Backend) (t : Tables) (username provider : String) :
    OAuth.UnlinkResult × Tables :=
  match t.liveUser username with
  | none => (.notFound, t)
  | some u =>
      let found := t.connections.any (OAuth.IsAccount u.id provider)
      let last := u.externalOnly && decide (t.connectionCount u.id ≤ 1)
      if last && (found || b == .postgres) then (.lastConnection, t)
      else if found then (.unlinked, OAuth.applyWrite t (.deleteConnection u.id provider))
      else (.notFound, t)

/-- `complete_oauth_signup`: the pending signup becomes a user with a connection. -/
def completeSignup (d : OAuth.Draw) (t : Tables) (command : OAuth.CompleteOAuthSignup) :
    Except ApplicationError Bool × Tables :=
  match OAuth.pendingSignup t command.token command.now with
  | none => (.ok false, t)
  | some pending =>
      if (t.users.any fun u => u.username == command.username || u.id == d.id || u.pid == d.pid) ||
          t.connections.any fun c => c.identity == (pending.provider, pending.providerUserId) then
        (.error (.conflict "constraint failed"), t)
      else
        let user := OAuth.externalUser d command.username command.passwordHash
        let t := OAuth.applyWrite t (.deletePendingSignup command.token)
        let t := OAuth.applyWrite t (.insertUser user)
        let t := OAuth.applyWrite t (.insertConnection
          ⟨user.id, pending.provider, pending.providerUserId, pending.email, d.now⟩)
        let t := if command.publishSearch then
            OAuth.applyWrite t (.enqueue ⟨.search user.pid user.searchRevision,
              .search (.upsert ⟨user.pid, user.username, user.createdAt, false, []⟩
                user.searchRevision)⟩)
          else t
        (.ok true, t)

/-! ### What comes of a call -/

/-- `timestamp`. -/
def timestamp (time : Int) : Int := time / 1000000

namespace Store

/-- The values drawn for a row. -/
def draw (s : Store) : OAuth.Draw := ⟨s.drawn, s.drawn, s.now⟩

/-- The tables are changed, and nothing else. -/
def withTables (s : Store) (t : Tables) : Store := { s with tables := t }

/-- The sessions are changed, and nothing else. -/
def withSessions (s : Store) (sessions : List SessionRow) : Store :=
  s.withTables { s.tables with sessions := sessions }

/-- The tables are changed by an operation that draws the values of a row. -/
def drawnFor {α : Type} (s : Store) (result : α × Tables) : α × Store :=
  (result.1, { s with tables := result.2, drawn := s.drawn + 1 })

end Store

/-- `INSERT INTO users .. ON CONFLICT (username) DO UPDATE SET .. WHERE deleted_at IS NOT
NULL`. -/
def insertUser (d : OAuth.Draw) (t : Tables) (username passwordHash : String) : Tables :=
  if t.users.any fun u => u.username == username then
    Managed.updateUsers t (fun u => u.username == username && !u.live) (restoreInserted passwordHash)
  else { t with users := t.users ++ [User.inserted d.id d.pid username passwordHash d.now] }

/-- The answer of a call that does not fail, except for the operations of the user
writer and of the provider. -/
def execute (S : Settings) (s : Store) : (c : Call) → Option (Reply c × Store)
  | .now => some (.ok s.now, s)
  | .newToken => some (.ok s.drawn, { s with drawn := s.drawn + 1 })
  | .createToken subject =>
      some (.ok s.drawn, { s with
        signed := s.signed ++
          [(s.drawn, ⟨subject, timestamp (s.now + S.tokenLifetime), timestamp s.now⟩)]
        drawn := s.drawn + 1 })
  | .verifyToken token =>
      match s.signed.find? fun entry => entry.1 == token with
      | some (_, claims) =>
          if timestamp s.now < claims.exp then some (.ok claims.sub, s)
          else some (.error .unauthorized, s)
      | none => some (.error .unauthorized, s)
  | .findUser key => some (.ok (s.tables.users.find? fun u => key.finds u), s)
  | .userExists username =>
      some (.ok (s.tables.users.any fun u => u.username == username && u.live), s)
  | .userIdByUsername username =>
      match s.tables.liveUser username with
      | some u => some (.ok u.id, s)
      | none => some (.error (.notFound "User not found"), s)
  | .insertUser username passwordHash =>
      some (s.drawnFor (.ok (), insertUser s.draw s.tables username passwordHash))
  | .updateUser update =>
      some (.ok (s.tables.users.any (update.selects s.now)),
        s.withTables (Managed.updateUsers s.tables (update.selects s.now) fun u => update.set u))
  | .userRoles username => some (.ok (s.tables.userRoleNames username), s)
  | .credentialByUsername username => some (.ok ((s.tables.liveUser username).bind credentialOf), s)
  | .credentialByLoginToken token =>
      some (.ok ((s.tables.users.find? fun u =>
        u.totpLoginToken == some token && (u.totpLoginExpiresAt.any fun expires => s.now < expires) &&
          u.live && u.totpSecret.isSome && u.totpEnabledAt.isSome).bind credentialOf), s)
  | .managed _ => none
  | .findSession token => some (.ok (findSession s.tables s.now token), s)
  | .sessionExists token =>
      some (.ok (s.tables.sessions.any fun r => r.token == token && unexpired s.now r), s)
  | .insertSession token username expiresAt maxExpiresAt =>
      match s.tables.liveUser username with
      | none => some (.error (.notFound "User not found"), s)
      | some u => some (insertSession s token u.id expiresAt maxExpiresAt)
  | .insertSessionOf token userId expiresAt maxExpiresAt =>
      some (insertSession s token userId expiresAt maxExpiresAt)
  | .updateSessionToken oldToken newToken expiresAt maxExpiresAt =>
      let selects := fun r : SessionRow => r.token == oldToken && unexpired s.now r
      if s.tables.sessions.any selects && s.tables.sessions.any fun r => r.token == newToken then
        some (.error (.validation "constraint failed"), s)
      else
        some (.ok (s.tables.sessions.any selects),
          s.withSessions (s.tables.sessions.map fun r =>
            if selects r then
              { r with token := newToken, expiresAt := expiresAt, maxExpiresAt := maxExpiresAt }
            else r))
  | .refreshSession token expiresAt =>
      let selects := fun r : SessionRow => r.token == token && unexpired s.now r
      some (.ok (s.tables.sessions.any selects),
        s.withSessions (s.tables.sessions.map fun r =>
          if selects r then
            { r with expiresAt := if expiresAt < r.maxExpiresAt then expiresAt else r.maxExpiresAt }
          else r))
  | .deleteSession token =>
      some (.ok (s.tables.sessions.any fun r => r.token == token),
        s.withSessions (s.tables.sessions.filter fun r => r.token != token))
  | .listSessions username => some (.ok (listSessions s.tables s.now username), s)
  | .deleteSessionFor username pid =>
      let selects := fun r : SessionRow =>
        r.pid == pid && s.tables.users.any fun u => u.id == r.userId && u.username == username
      some (.ok (s.tables.sessions.any selects),
        s.withSessions (s.tables.sessions.filter fun r => !selects r))
  | .deleteExpired =>
      some (.ok (), { s with
        tables := { s.tables with
          sessions := s.tables.sessions.filter fun r =>
            !(decide (r.expiresAt < s.now) || decide (r.maxExpiresAt < s.now))
          pendingSignups := s.tables.pendingSignups.filter fun p => !decide (p.expiresAt < s.now) }
        states := s.states.filter fun state => !decide (state.expiresAt < s.now) })
  | .userPermissions username => some (.ok (s.tables.userPermissions username), s)
  | .giveRole userId roleName =>
      -- the role that the row refers to, deleted or not
      if s.tables.roles.any fun r => r.name == roleName then
        some (.ok (), s.withTables (s.tables.giveRole userId roleName))
      else some (.error (.validation "constraint failed"), s)
  | .createRole roleName => some (.ok (), s.withTables (s.tables.upsertRole roleName))
  | .updateRole roleName newRoleName =>
      let result := s.tables.updateRole s.now roleName newRoleName
      some (.ok result.1, s.withTables result.2)
  | .deleteRole roleName =>
      some (.ok (s.tables.liveRole roleName), s.withTables (s.tables.softDeleteRole s.now roleName))
  | .setRolePermissions roleName permissions =>
      some (.ok (), s.withTables (s.tables.setRolePermissions roleName permissions))
  | .ensureIdentitySeedData => some (.ok (), s.withTables s.tables.ensureIdentitySeedData)
  | .insertState state => some (.ok (), { s with states := s.states ++ [state] })
  | .takeState state now =>
      let selects := fun stored : OAuthState =>
        stored.state == state && decide (now < stored.expiresAt)
      some (.ok (s.states.find? selects), { s with states := s.states.filter fun st => !selects st })
  | .fetchUser .. => none
  | .usernameForConnection provider providerUserId =>
      match OAuth.statement s.draw s.tables (.usernameForConnection provider providerUserId) with
      | none => some (.error (.validation "constraint failed"), s)
      | some (username, _) => some (.ok username, s)
  | .linkConnection username provider providerUserId email =>
      match OAuth.statement s.draw s.tables
          (.linkConnection username provider providerUserId email) with
      | none => some (.error (.conflict "constraint failed"), s)
      | some (rowsAffected, t) =>
          if rowsAffected = 0 then some (.error (.notFound "User not found"), s)
          else some (.ok (), s.withTables t)
  | .unlinkConnection username provider =>
      let result := unlinkConnection S.backend s.tables username provider
      some (.ok result.1, s.withTables result.2)
  | .insertPendingSignup signup =>
      match OAuth.statement s.draw s.tables (.upsertPendingSignup signup) with
      | none => some (.error (.validation "constraint failed"), s)
      | some (_, t) => some (.ok (), s.withTables t)
  | .completeSignup command => some (s.drawnFor (completeSignup s.draw s.tables command))
  | .cacheVersion => some (.ok s.version, s)
  | .cacheSetVersion version => some (.ok (), { s with version := some version })
  | .cacheGet key => some (.ok ((s.cached.find? fun entry => entry.1 == key).map Prod.snd), s)
  | .cacheSet key permissions =>
      some (.ok (), { s with
        cached := (key, permissions) :: s.cached.filter fun entry => entry.1 != key })
  | .sendMail mail => some (.ok (), { s with mailed := s.mailed ++ [mail] })

/-- What may come of a call. -/
inductive Answer (S : Settings) : Store → (c : Call) → Reply c → Store → Prop
  | executed {s s' : Store} {c : Call} {r : Reply c} (he : execute S s c = some (r, s')) :
      Answer S s c r s'
  | managed {s : Store} {command : Managed.Command} {r : Except ApplicationError Managed.Outcome}
      {calls : List (Event Managed.Call Managed.Reply Managed.Store)} {db : Managed.Store}
      {drawn : Nat}
      (hr : Runs Managed.Answer (Managed.perform S.backend command).run ⟨s.tables, none⟩ calls
        (.done r) db)
      (hle : s.drawn ≤ drawn) (hdrawn : ∀ u ∈ db.tables.users, u.id < drawn ∧ u.pid < drawn) :
      Answer S s (.managed command) r { s with tables := db.tables, drawn := drawn }
  | fetched {s : Store} {provider code : String} (user : OAuthExternalUser) :
      Answer S s (.fetchUser provider code) (.ok user) s
  | failed {s : Store} {c : Call} (hc : c.remote = true) (error : ApplicationError) :
      Answer S s c (.error error) s

/-- What happens without a call: the clock moves, and the cache forgets. -/
structure Drifts (clock : Int → Int → Prop) (s s' : Store) : Prop where
  tables : s'.tables = s.tables
  states : s'.states = s.states
  signed : s'.signed = s.signed
  version : s'.version = s.version
  cached : s'.cached.Sublist s.cached
  mailed : s'.mailed = s.mailed
  drawn : s'.drawn = s.drawn
  now : clock s.now s'.now

end Service
end Identity
end Hegira
