/-
# The Redis session store: `RedisSessionRepository`

`infrastructure/src/identity/sessions/redis_session.rs`.

A session is the value of the key of its token, set with a time to live; the tokens
of a user are a set.  Every Redis command is one call, and so are the reading of the
clock and the making of a token or of a session's id: these are values that have
never been made before.  A command may fail, before or after its effect.

`find_by_token` deletes the key of a session that is out of date; this command is
`expire`, the one of `delete` is `del`.
-/

import Mathlib.Logic.Function.Basic
import Hegira.Library.Program

namespace Hegira
namespace Identity
namespace Redis

/-- `RedisSession`, and the `Session` that it is turned into; times are in seconds. -/
structure Session where
  pid : Nat
  token : Nat
  username : String
  createdAt : Int
  expiresAt : Int
  maxExpiresAt : Int
  deriving DecidableEq

/-- The value of a key, and the time at which the key expires. -/
structure Entry where
  session : Session
  deadline : Int

/-- The keys `session:{token}`, the sets `sessions:user:{username}`, the clock, and
the next value that has never been made. -/
structure Store where
  entries : Nat → Option Entry
  users : String → List Nat
  clock : Int
  nonce : Nat

/-- What `GET` finds. -/
def Store.get (s : Store) (token : Nat) : Option Session :=
  ((s.entries token).filter fun e => s.clock < e.deadline).map Entry.session

/-- The session is out of date. -/
def Session.expired (session : Session) (now : Int) : Bool :=
  session.expiresAt ≤ now || session.maxExpiresAt ≤ now

/-- A lookup of the token finds a session at this moment. -/
def Store.accepts (s : Store) (token : Nat) : Bool :=
  (s.get token).any fun session => !session.expired s.clock

inductive Call where
  | createToken
  | uuid
  | now
  | get (token : Nat)
  | setEx (token : Nat) (session : Session) (ttl : Int)
  | del (token : Nat)
  | expire (token : Nat)
  | sadd (username : String) (token : Nat)
  | srem (username : String) (token : Nat)
  | smembers (username : String)

namespace Call

abbrev Value : Call → Type
  | createToken => Nat
  | uuid => Nat
  | now => Int
  | get _ => Option Session
  | setEx .. => Unit
  | del _ => Nat
  | expire _ => Nat
  | sadd .. => Unit
  | srem .. => Unit
  | smembers _ => List Nat

abbrev Reply (c : Call) : Type := Except String c.Value

/-- The call is a command to the server. -/
def isCommand : Call → Bool
  | createToken => false
  | uuid => false
  | now => false
  | _ => true

end Call

/-- `DEL`. -/
def Store.remove (s : Store) (token : Nat) : Store :=
  { s with entries := Function.update s.entries token none }

/-- The number of keys that `DEL` removes. -/
def Store.count (s : Store) (token : Nat) : Nat := if (s.get token).isSome then 1 else 0

/-- `SETEX`. -/
def Store.set (s : Store) (token : Nat) (session : Session) (ttl : Int) : Store :=
  { s with entries := Function.update s.entries token (some ⟨session, s.clock + ttl⟩) }

/-- The set of a user after `SADD` or `SREM`. -/
def Store.withUser (s : Store) (username : String) (tokens : List Nat) : Store :=
  { s with users := Function.update s.users username tokens }

/-- What a call does. -/
def Store.perform (s : Store) : (c : Call) → c.Value × Store
  | .createToken => (s.nonce, { s with nonce := s.nonce + 1 })
  | .uuid => (s.nonce, { s with nonce := s.nonce + 1 })
  | .now => (s.clock, s)
  | .get token => (s.get token, s)
  | .setEx token session ttl => ((), s.set token session ttl)
  | .del token => (s.count token, s.remove token)
  | .expire token => (s.count token, s.remove token)
  | .sadd username token => ((), s.withUser username (token :: (s.users username).erase token))
  | .srem username token => ((), s.withUser username ((s.users username).erase token))
  | .smembers username => (s.users username, s)

/-- What may come of a call: its answer; or, for a command, a failure before or
after its effect.  The members of a set come in any order. -/
inductive Answer (s : Store) : (c : Call) → c.Reply → Store → Prop
  | answered {c : Call} : Answer s c (.ok (s.perform c).1) (s.perform c).2
  | members {username : String} {tokens : List Nat} (h : tokens.Perm (s.users username)) :
      Answer s (.smembers username) (.ok tokens) s
  | failed {c : Call} (hc : c.isCommand = true) (message : String) : Answer s c (.error message) s
  | failedLate {c : Call} (hc : c.isCommand = true) (message : String) :
      Answer s c (.error message) (s.perform c).2

/-- Time passes. -/
def Drifts (s s' : Store) : Prop := ∃ clock, s.clock ≤ clock ∧ s' = { s with clock := clock }

/-! ### The repository -/

/-- The error is the text of a `DomainError::Validation`. -/
abbrev Repository := Fallible String Call Call.Reply

def command (c : Call) : Repository c.Value := ExceptT.mk (Program.perform c)

/-- `find_by_token`. -/
def findByToken (token : Nat) : Repository (Option Session) := do
  match ← command (.get token) with
  | none => return none
  | some session =>
      let now ← command .now
      if session.expired now then
        let _ ← command (.expire token)
        return none
      else
        return some session

/-- `exists`. -/
def existsToken (token : Nat) : Repository Bool := do
  let session ← findByToken token
  return session.isSome

/-- `insert`. -/
def insert (token : Nat) (username : String) (expiresAt maxExpiresAt : Int) : Repository Unit := do
  let now ← command .now
  let pid ← command .uuid
  command (.setEx token ⟨pid, token, username, now, expiresAt, maxExpiresAt⟩
    (max (expiresAt - now) 1))
  command (.sadd username token)

/-- `delete`. -/
def delete (token : Nat) : Repository Bool := do
  let session ← findByToken token
  let deleted ← command (.del token)
  match session with
  | some session => do
      command (.srem session.username token)
      return 0 < deleted
  | none => return 0 < deleted

/-- `update_token`. -/
def updateToken (oldToken newToken : Nat) (expiresAt maxExpiresAt : Int) : Repository Bool := do
  match ← findByToken oldToken with
  | none => return false
  | some session =>
      -- what was deleted is not looked at
      let _ ← delete oldToken
      insert newToken session.username expiresAt maxExpiresAt
      return true

/-- `refresh`. -/
def refresh (token : Nat) (expiresAt : Int) : Repository Bool := do
  match ← findByToken token with
  | none => return false
  | some session =>
      let nextExpiresAt := min expiresAt session.maxExpiresAt
      let now ← command .now
      command (.setEx token { session with expiresAt := nextExpiresAt } (max (nextExpiresAt - now) 1))
      return true

/-- `list_for_user`, the newest session first. -/
def listForUser (username : String) : Repository (List Session) := do
  let tokens ← command (.smembers username)
  let sessions ← tokens.mapM findByToken
  return (sessions.filterMap id).mergeSort fun a b => b.createdAt ≤ a.createdAt

/-- `delete_for_user`. -/
def deleteForUser (username : String) (pid : Nat) : Repository Bool := do
  let sessions ← listForUser username
  match sessions.find? fun session => session.pid == pid with
  | some session => delete session.token
  | none => return false

end Redis
end Identity
end Hegira
