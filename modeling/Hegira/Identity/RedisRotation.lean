/-
# Logout is final and rotation does not fork

The operations of the session store in any interleaving of their commands.  A token
that is made and not written yet, or whose key has been removed, is held by one
operation at most, and has no key (`Reaches.held_exclusive`).  So a key is removed
once, one renewal of a token succeeds, and a logout leaves nothing to renew
(`logout_final_no_fork`).

This needs that the key an operation has read is still there when it removes it to
renew the session, or writes it back to refresh it (`Present`): the store does not
look.  Two renewals of one token both succeed (`concurrent_renewals_fork`).
-/

import Mathlib.Logic.Relation
import Hegira.Identity.RedisSession
import Hegira.Library.Interleaving

namespace Hegira
namespace Identity
namespace Redis

inductive Request where
  | insert (username : String) (expiresAt maxExpiresAt : Int)
  | existsToken (token : Nat)
  | findByToken (token : Nat)
  | updateToken (oldToken : Nat) (expiresAt maxExpiresAt : Int)
  | refresh (token : Nat) (expiresAt : Int)
  | delete (token : Nat)
  | deleteForUser (username : String) (pid : Nat)

inductive Outcome where
  | inserted
  | found (session : Option Session)
  | flag (b : Bool)
  deriving DecidableEq

/-- What is done for a request; a new session and a renewed one get a new token. -/
def serve : Request → Repository Outcome
  | .insert username expiresAt maxExpiresAt => do
      let token ← command .createToken
      insert token username expiresAt maxExpiresAt
      return .inserted
  | .existsToken token => do
      let b ← existsToken token
      return .flag b
  | .findByToken token => do
      let session ← findByToken token
      return .found session
  | .updateToken oldToken expiresAt maxExpiresAt => do
      let newToken ← command .createToken
      let b ← updateToken oldToken newToken expiresAt maxExpiresAt
      return .flag b
  | .refresh token expiresAt => do
      let b ← refresh token expiresAt
      return .flag b
  | .delete token => do
      let b ← delete token
      return .flag b
  | .deleteForUser username pid => do
      let b ← deleteForUser username pid
      return .flag b

namespace Request

/-- The token that the request renews. -/
def renews : Request → Option Nat
  | updateToken oldToken _ _ => some oldToken
  | _ => none

/-- The token that the request refreshes. -/
def refreshes : Request → Option Nat
  | refresh token _ => some token
  | _ => none

/-- The request is a logout. -/
def logsOut : Request → Bool
  | delete _ => true
  | deleteForUser _ _ => true
  | _ => false

/-- A rotation neither prolongs nor logs out. -/
theorem refreshes_of_renews {q : Request} {token : Nat} (h : q.renews = some token) :
    q.refreshes = none := by
  cases q with
  | updateToken => rfl
  | _ => cases h

theorem logsOut_of_renews {q : Request} {token : Nat} (h : q.renews = some token) :
    q.logsOut = false := by
  cases q with
  | updateToken => rfl
  | _ => cases h

end Request

/-- The session store at work. -/
def sessions : Site Request Call Call.Reply (Except String Outcome) Store where
  serve q := (serve q).run
  answer := Answer
  drift := Drifts

abbrev Log := List (Event Call Call.Reply Store)

abbrev Operation := Flight Request Call Call.Reply (Except String Outcome) Store

abbrev Sessions := Config Request Call Call.Reply (Except String Outcome) Store

/-! ### What an operation has done so far -/

/-- The tokens an operation has made, has removed the keys of and has written, and
those it holds: tokens made or removed, and not written since. -/
structure Past where
  made : Nat → Bool
  removed : Nat → Bool
  wrote : Nat → Bool
  held : Nat → Bool

def Past.nothing : Past := ⟨fun _ => false, fun _ => false, fun _ => false, fun _ => false⟩

/-- The past after a key has been removed. -/
def Past.remove (p : Past) (token : Nat) : Past :=
  { p with
    removed := Function.update p.removed token true
    held := Function.update p.held token true }

def Past.after (p : Past) : Event Call Call.Reply Store → Past
  | ⟨_, .createToken, .ok n, _⟩ =>
      { p with made := Function.update p.made n true, held := Function.update p.held n true }
  | ⟨_, .setEx n _ _, _, _⟩ =>
      { p with wrote := Function.update p.wrote n true, held := Function.update p.held n false }
  | ⟨_, .del n, .ok k, _⟩ => if k = 1 then p.remove n else p
  | _ => p

def past (log : Log) : Past := log.foldl Past.after .nothing

/-- What the log tells after one more command. -/
@[simp] theorem past_nil : past [] = .nothing := rfl

@[simp] theorem past_concat {log : Log} {e : Event Call Call.Reply Store} :
    past (log ++ [e]) = (past log).after e := by
  simp [past]

/-- The call leaves the past of an operation as it is. -/
def Call.neutral : Call → Bool
  | .createToken => false
  | .setEx .. => false
  | .del _ => false
  | _ => true

/-- A neutral command tells nothing. -/
theorem Past.after_neutral {p : Past} {s s' : Store} {c : Call} {r : c.Reply}
    (hc : c.neutral = true) : p.after ⟨s, c, r, s'⟩ = p := by
  cases c with
  | createToken => cases hc
  | setEx => cases hc
  | del => cases hc
  | _ => rfl

/-- The key is still there when an operation that has read it before removes it to
renew the session, or writes it back. -/
def Present (q : Request) (s : Store) : Call → Prop
  | .del token => q.renews.isSome → (s.get token).isSome
  | .setEx token _ _ => q.refreshes.isSome → (s.get token).isSome
  | _ => True

instance (q : Request) (s : Store) : (c : Call) → Decidable (Present q s c)
  | .del token => inferInstanceAs (Decidable (q.renews.isSome → (s.get token).isSome))
  | .setEx token _ _ => inferInstanceAs (Decidable (q.refreshes.isSome → (s.get token).isSome))
  | .createToken | .uuid | .now | .get _ | .expire _ | .sadd .. | .srem .. | .smembers _ =>
      .isTrue trivial

/-- What an operation has done before a call. -/
def Follows (q : Request) (p : Past) : Call → Prop
  | .createToken => p = .nothing
  | .setEx token _ _ =>
      (q.refreshes = none ∧ p.made token = true ∧ p.held token = true ∧
        ∀ oldToken, q.renews = some oldToken → p.removed oldToken = true) ∨
      q.refreshes = some token ∧ p = .nothing
  | .del token => p.made = p.held ∧ p.removed = (fun _ => false) ∧
      (q.renews = some token ∨ q.logsOut = true)
  | _ => True

/-- What an operation that returns `Ok(true)` has done. -/
structure Closed (q : Request) (p : Past) : Prop where
  renewed : ∀ oldToken, q.renews = some oldToken → p.removed oldToken = true
  deleted : ∀ token, q = .delete token → p.removed token = true
  loggedOut : q.logsOut = true → ∃ token, p.removed token = true

/-- What an operation has done in the end. -/
def Closes (q : Request) : Except String Outcome → Past → Prop
  | .ok (.flag true), p => Closed q p
  | _, _ => True

abbrev HeardPresent (q : Request) (log : Log) (c : Call) (r : c.Reply) (log' : Log) : Prop :=
  ∃ s s', Present q s c ∧ Answer s c r s' ∧ log' = log ++ [⟨s, c, r, s'⟩]

abbrev Disciplined (q : Request) : Event Call Call.Reply Log → Prop :=
  fun e => Follows q (past e.before) e.call

section Contract

variable {q : Request} {log : Log} {α : Type}

/-- A command that follows the log is disciplined. -/
theorem meets_command {c : Call} {post : Except String c.Value → Log → Prop}
    (hf : Follows q (past log) c)
    (h : ∀ s r s', Present q s c → Answer s c r s' → post r (log ++ [⟨s, c, r, s'⟩])) :
    Meets (HeardPresent q) (Disciplined q) post (command c).run log := by
  rintro r log' ⟨s, s', hp, ha, rfl⟩
  exact ⟨hf, h s r s' hp ha⟩

theorem meets_neutral {c : Call} {post : Except String c.Value → Log → Prop}
    (hc : c.neutral = true) (h : ∀ r log', past log' = past log → post r log') :
    Meets (HeardPresent q) (Disciplined q) post (command c).run log := by
  refine meets_command ?_ fun s r s' _ _ => h r _ ?_
  · cases c with
    | createToken => cases hc
    | setEx => cases hc
    | del => cases hc
    | _ => trivial
  · rw [past_concat, Past.after_neutral hc]

/-- Looking a session up is neutral. -/
theorem meets_findByToken {token : Nat} {post : Except String (Option Session) → Log → Prop}
    (h : ∀ r log', past log' = past log → post r log') :
    Meets (HeardPresent q) (Disciplined q) post (findByToken token).run log := by
  rw [findByToken, meets_fallible_bind]
  refine meets_neutral rfl ?_
  rintro (e | session) log₁ h₁
  · exact h _ _ h₁
  rw [continue_ok]
  cases session with
  | none => exact h _ _ h₁
  | some session =>
      dsimp only
      rw [meets_fallible_bind]
      refine meets_neutral rfl ?_
      rintro (e | now) log₂ h₂
      · exact h _ _ (h₂.trans h₁)
      rw [continue_ok]
      split
      · rw [meets_fallible_bind]
        refine meets_neutral rfl ?_
        rintro (e | n) log₃ h₃
        · exact h _ _ (h₃.trans (h₂.trans h₁))
        · exact h _ _ (h₃.trans (h₂.trans h₁))
      · exact h _ _ (h₂.trans h₁)

/-- A key that is found counts once. -/
theorem count_eq_one {s : Store} {token : Nat} (h : (s.get token).isSome) : s.count token = 1 := by
  simp [Store.count, h]

/-- What `delete` leaves: the key is removed and this is reported, or neither, unless
the command has failed. -/
theorem meets_delete {token : Nat} {post : Except String Bool → Log → Prop}
    (hf : Follows q (past log) (.del token)) (herr : ∀ e log', post (.error e) log')
    (hok : ∀ b log', (past log' = (past log).remove token ∧ b = true) ∨
      (past log' = past log ∧ b = false ∧ q.renews = none) → post (.ok b) log') :
    Meets (HeardPresent q) (Disciplined q) post (delete token).run log := by
  rw [delete, meets_fallible_bind]
  refine meets_findByToken ?_
  rintro (e | session) log₁ h₁
  · exact herr _ _
  rw [continue_ok, meets_fallible_bind]
  refine meets_command (h₁ ▸ hf) ?_
  intro s r s' hp ha
  rcases r with e | k
  · exact herr _ _
  have hk : k = s.count token := by
    cases ha with
    | answered => rfl
  rw [continue_ok]
  have hlog : (past (log₁ ++ [⟨s, .del token, .ok k, s'⟩]) = (past log).remove token ∧
      decide (0 < k) = true) ∨ (past (log₁ ++ [⟨s, .del token, .ok k, s'⟩]) = past log ∧
        decide (0 < k) = false ∧ q.renews = none) := by
    rw [past_concat, h₁, Past.after]
    by_cases hlive : (s.get token).isSome
    · rw [count_eq_one hlive] at hk
      subst hk
      exact Or.inl ⟨rfl, rfl⟩
    · rw [Store.count, if_neg hlive] at hk
      subst hk
      refine Or.inr ⟨rfl, rfl, ?_⟩
      cases hq : q.renews with
      | none => rfl
      | some old => exact absurd (hp (by rw [hq]; rfl)) hlive
  cases session with
  | none => exact hok _ _ hlog
  | some session =>
      dsimp only
      rw [meets_fallible_bind]
      refine meets_neutral rfl ?_
      rintro (e | v) log₂ h₂
      · exact herr _ _
      · exact hok _ _ (h₂ ▸ hlog)

/-- What `insert` leaves. -/
theorem meets_insert {token : Nat} {username : String} {expiresAt maxExpiresAt : Int}
    {post : Except String Unit → Log → Prop}
    (hf : ∀ session ttl, Follows q (past log) (.setEx token session ttl))
    (herr : ∀ e log', post (.error e) log')
    (hok : ∀ log', (past log').removed = (past log).removed → post (.ok ()) log') :
    Meets (HeardPresent q) (Disciplined q) post
      (insert token username expiresAt maxExpiresAt).run log := by
  rw [insert, meets_fallible_bind]
  refine meets_neutral rfl ?_
  rintro (e | now) log₁ h₁
  · exact herr _ _
  rw [continue_ok, meets_fallible_bind]
  refine meets_neutral rfl ?_
  rintro (e | pid) log₂ h₂
  · exact herr _ _
  rw [continue_ok, meets_fallible_bind]
  refine meets_command (by rw [h₂, h₁]; exact hf _ _) ?_
  intro s r s' _ _
  have hremoved : (past (log₂ ++ [⟨s, .setEx token ⟨pid, token, username, now, expiresAt,
      maxExpiresAt⟩ (max (expiresAt - now) 1), r, s'⟩])).removed = (past log).removed := by
    rw [past_concat, h₂, h₁]
    rfl
  rcases r with e | v
  · exact herr _ _
  rw [continue_ok]
  refine meets_neutral rfl ?_
  rintro (e | v) log₃ h₃
  · exact herr _ _
  · exact hok _ (by rw [h₃, hremoved])

/-- Looking several up is neutral. -/
theorem meets_findAll {tokens : List Nat} {post : Except String (List (Option Session)) → Log → Prop}
    (h : ∀ r log', past log' = past log → post r log') :
    Meets (HeardPresent q) (Disciplined q) post (tokens.mapM findByToken).run log := by
  induction tokens generalizing log post with
  | nil =>
      rw [List.mapM_nil]
      exact h _ _ rfl
  | cons token tokens ih =>
      rw [List.mapM_cons, meets_fallible_bind]
      refine meets_findByToken ?_
      rintro (e | session) log₁ h₁
      · exact h _ _ h₁
      rw [continue_ok, meets_fallible_bind]
      refine ih ?_
      rintro (e | sessions) log₂ h₂
      · exact h _ _ (h₂.trans h₁)
      · exact h _ _ (h₂.trans h₁)

/-- A request begins with a new token. -/
theorem meets_createToken {f : Nat → Repository Outcome}
    (h : ∀ token log, past log = ⟨Function.update (fun _ => false) token true, fun _ => false,
      fun _ => false, Function.update (fun _ => false) token true⟩ →
      Meets (HeardPresent q) (Disciplined q) (fun r log => Closes q r (past log)) (f token).run log) :
    Meets (HeardPresent q) (Disciplined q) (fun r log => Closes q r (past log))
      (command .createToken >>= f).run [] := by
  rw [meets_fallible_bind]
  refine meets_command rfl ?_
  intro s r s' _ _
  rcases r with e | token
  · trivial
  · exact h token _ rfl

/-- Nothing is asked of an operation that neither renews a session nor logs out. -/
theorem closes_of_renews_none {r : Except String Outcome} {p : Past} (h : q.renews = none)
    (hout : q.logsOut = false) : Closes q r p := by
  unfold Closes
  split
  · refine ⟨fun old hq => ?_, ?_, fun hq => ?_⟩
    · rw [h] at hq
      cases hq
    · rintro token rfl
      cases hout
    · rw [hout] at hq
      cases hq
  · trivial

/-- A logout that reports it has removed a key, that of the token if it names one. -/
theorem closes_of_delete {token : Nat} {b : Bool} {p p' : Past} (h : q.renews = none)
    (hq : ∀ t, q = .delete t → t = token)
    (hp : (p' = p.remove token ∧ b = true) ∨ (p' = p ∧ b = false ∧ q.renews = none)) :
    Closes q (.ok (.flag b)) p' := by
  rcases hp with ⟨rfl, rfl⟩ | ⟨-, rfl, -⟩
  · have hremoved : (p.remove token).removed token = true := Function.update_self ..
    refine ⟨fun old hold => ?_, fun t ht => ?_, fun _ => ⟨token, hremoved⟩⟩
    · rw [h] at hold
      cases hold
    · rw [hq t ht]
      exact hremoved
  · trivial

/-- A rotation removes the old key, and only then writes the new one. -/
theorem meets_serve_updateToken {q : Request} {oldToken : Nat} {expiresAt maxExpiresAt : Int}
    (hq : q = .updateToken oldToken expiresAt maxExpiresAt) : Meets (HeardPresent q) (Disciplined q)
      (fun r log => Closes q r (past log)) (serve q).run [] := by
  subst hq
  refine meets_createToken fun newToken log hp => ?_
  rw [updateToken, bind_assoc, meets_fallible_bind]
  refine meets_findByToken ?_
  rintro (e | session) log₁ h₁
  · trivial
  rw [continue_ok]
  cases session with
  | none => trivial
  | some session =>
      dsimp only
      rw [bind_assoc, meets_fallible_bind]
      refine meets_delete ?_ (fun _ _ => trivial) ?_
      · rw [h₁, hp]
        exact ⟨rfl, rfl, Or.inl rfl⟩
      rintro b log₂ (⟨h₂, -⟩ | ⟨-, -, hn⟩)
      · rw [continue_ok, bind_assoc, meets_fallible_bind]
        refine meets_insert ?_ (fun _ _ => trivial) ?_
        · intro session ttl
          rw [h₂, h₁, hp]
          refine Or.inl ⟨rfl, by simp [Past.remove], ?_, ?_⟩
          · by_cases hne : newToken = oldToken
            · simp [Past.remove, hne]
            · simp [Past.remove, Function.update_of_ne hne]
          · intro old ho
            obtain rfl := Option.some.inj ho
            simp [Past.remove]
        · refine fun log₃ h₃ => ⟨fun old ho => ?_, (fun _ h => by cases h),
            (fun h => by cases h)⟩
          obtain rfl := Option.some.inj ho
          simp [h₃, h₂, Past.remove]
      · cases hn

/-- Prolonging a session writes a key that is there. -/
theorem meets_serve_refresh {q : Request} {token : Nat} {expiresAt : Int}
    (hq : q = .refresh token expiresAt) : Meets (HeardPresent q) (Disciplined q)
      (fun r log => Closes q r (past log)) (serve q).run [] := by
  subst hq
  rw [serve, refresh, bind_assoc, meets_fallible_bind]
  refine meets_findByToken ?_
  rintro (e | session) log₁ h₁
  · trivial
  rw [continue_ok]
  cases session with
  | none => trivial
  | some session =>
      dsimp only
      rw [bind_assoc, meets_fallible_bind]
      refine meets_neutral rfl ?_
      rintro (e | now) log₂ h₂
      · trivial
      rw [continue_ok, bind_assoc, meets_fallible_bind]
      refine meets_command ?_ ?_
      · rw [h₂, h₁]
        exact Or.inr ⟨rfl, rfl⟩
      · intro s r s' _ _
        rcases r with e | v
        · trivial
        · change Closes (.refresh token expiresAt) (.ok (.flag true)) _
          exact closes_of_renews_none rfl rfl

/-- A session of a user is ended by removing its key. -/
theorem meets_serve_deleteForUser {q : Request} {username : String} {pid : Nat}
    (hq : q = .deleteForUser username pid) : Meets (HeardPresent q) (Disciplined q)
      (fun r log => Closes q r (past log)) (serve q).run [] := by
  subst hq
  rw [serve, deleteForUser, listForUser, bind_assoc, bind_assoc, meets_fallible_bind]
  refine meets_neutral rfl ?_
  rintro (e | tokens) log₁ h₁
  · trivial
  rw [continue_ok, bind_assoc, meets_fallible_bind]
  refine meets_findAll ?_
  rintro (e | sessions) log₂ h₂
  · trivial
  rw [continue_ok, pure_bind]
  split
  · rw [meets_fallible_bind]
    refine meets_delete ?_ (fun _ _ => trivial) fun b log hp => ?_
    · rw [h₂, h₁]
      exact ⟨rfl, rfl, Or.inr rfl⟩
    · exact closes_of_delete (q := .deleteForUser username pid) rfl (fun t ht => by cases ht) hp
  · trivial

/-- **What an operation does is disciplined.** -/
theorem meets_serve (q : Request) :
    Meets (HeardPresent q) (Disciplined q) (fun r log => Closes q r (past log)) (serve q).run [] := by
  cases q with
  | insert username expiresAt maxExpiresAt =>
      refine meets_createToken fun token log hp => ?_
      rw [meets_fallible_bind]
      refine meets_insert (fun session ttl => ?_) (fun _ _ => trivial) fun _ _ => trivial
      exact Or.inl ⟨rfl, by simp [hp], by simp [hp], nofun⟩
  | existsToken token =>
      rw [serve, existsToken, bind_assoc, meets_fallible_bind]
      refine meets_findByToken fun r log _ => ?_
      rcases r with e | session
      · trivial
      · exact closes_of_renews_none (q := .existsToken token) rfl rfl
  | findByToken token =>
      rw [serve, meets_fallible_bind]
      refine meets_findByToken fun r log _ => ?_
      cases r <;> trivial
  | updateToken => exact meets_serve_updateToken rfl
  | refresh => exact meets_serve_refresh rfl
  | delete token =>
      rw [serve, meets_fallible_bind]
      refine meets_delete ⟨rfl, rfl, Or.inr rfl⟩ (fun _ _ => trivial) fun b log hp => ?_
      refine closes_of_delete (q := .delete token) rfl (fun t ht => ?_) hp
      cases ht
      rfl
  | deleteForUser => exact meets_serve_deleteForUser rfl

end Contract

/-! ### The keys -/

/-- The token has been made, and its key is not there. -/
def Taken (s : Store) (n : Nat) : Prop := n < s.nonce ∧ s.get n = none

section Store

variable {s s' : Store} {c : Call} {r : c.Reply} {n : Nat}

/-- What a key holds depends on its entry and the clock. -/
theorem get_congr (he : s'.entries n = s.entries n) (hc : s'.clock = s.clock) :
    s'.get n = s.get n := by
  rw [Store.get, Store.get, he, hc]

/-- Setting a key leaves the others. -/
theorem get_set_of_ne {session : Session} {ttl : Int} {token : Nat} (h : n ≠ token) :
    (s.set token session ttl).get n = s.get n := by
  exact get_congr (Function.update_of_ne h _ _) rfl

/-- Removing a key leaves the others. -/
theorem get_remove (token : Nat) :
    (s.remove token).get n = if n = token then none else s.get n := by
  by_cases h : n = token
  · simp [Store.get, Store.remove, h]
  · rw [if_neg h]
    exact get_congr (Function.update_of_ne h _ _) rfl

/-- What a call does to a key that it does not write. -/
theorem perform_get (hc : ∀ session ttl, c ≠ .setEx n session ttl) :
    s.nonce ≤ (s.perform c).2.nonce ∧
      ((s.perform c).2.get n = s.get n ∨ (s.perform c).2.get n = none) := by
  cases c with
  | setEx token session ttl =>
      have hne : n ≠ token := by
        rintro rfl
        exact hc session ttl rfl
      exact ⟨Nat.le_refl _, Or.inl (get_set_of_ne hne)⟩
  | del token =>
      refine ⟨Nat.le_refl _, ?_⟩
      change (s.remove token).get n = _ ∨ (s.remove token).get n = _
      rw [get_remove]
      split
      · exact Or.inr rfl
      · exact Or.inl rfl
  | expire token =>
      refine ⟨Nat.le_refl _, ?_⟩
      change (s.remove token).get n = _ ∨ (s.remove token).get n = _
      rw [get_remove]
      split
      · exact Or.inr rfl
      · exact Or.inl rfl
  | createToken => exact ⟨Nat.le_succ _, Or.inl rfl⟩
  | uuid => exact ⟨Nat.le_succ _, Or.inl rfl⟩
  | _ => exact ⟨Nat.le_refl _, Or.inl rfl⟩

/-- A key expires as time passes. -/
theorem get_of_drifts (h : Drifts s s') : s'.nonce = s.nonce ∧ (s'.get n = s.get n ∨ s'.get n = none) := by
  obtain ⟨clock, hle, rfl⟩ := h
  refine ⟨rfl, ?_⟩
  simp only [Store.get]
  cases s.entries n with
  | none => exact Or.inl rfl
  | some e =>
      by_cases hlt : clock < e.deadline
      · have hlt' : s.clock < e.deadline := by omega
        exact Or.inl (by simp [Option.filter, hlt, hlt'])
      · exact Or.inr (by simp [Option.filter, hlt])

/-- A key is kept or gone after any command but its own `SETEX`. -/
theorem Answer.get (h : Answer s c r s') (hc : ∀ session ttl, c ≠ .setEx n session ttl) :
    s'.get n = s.get n ∨ s'.get n = none := by
  cases h with
  | answered => exact (perform_get hc).2
  | failedLate => exact (perform_get hc).2
  | members => exact Or.inl rfl
  | failed => exact Or.inl rfl

/-- Fresh keys are never drawn twice. -/
theorem Answer.nonce_le (h : Answer s c r s') : s.nonce ≤ s'.nonce := by
  have hp : s.nonce ≤ (s.perform c).2.nonce := by
    cases c with
    | createToken => exact Nat.le_succ _
    | uuid => exact Nat.le_succ _
    | _ => exact Nat.le_refl _
  cases h with
  | answered => exact hp
  | failedLate => exact hp
  | members => exact Nat.le_refl _
  | failed => exact Nat.le_refl _

/-- What is taken stays so, unless its key is written. -/
theorem Answer.taken (h : Answer s c r s') (hc : ∀ session ttl, c ≠ .setEx n session ttl)
    (ht : Taken s n) : Taken s' n := by
  refine ⟨Nat.lt_of_lt_of_le ht.1 h.nonce_le, ?_⟩
  rcases h.get hc with hg | hg
  · rw [hg, ht.2]
  · exact hg

/-- A call that makes a token makes one that has not been made before. -/
theorem Past.made_after {p : Past} (h : Answer s c r s')
    (hm : (p.after ⟨s, c, r, s'⟩).made n = true) :
    p.made n = true ∨ c = .createToken ∧ n = s.nonce ∧ s'.nonce = s.nonce + 1 := by
  cases c with
  | createToken =>
      cases h with
      | answered =>
          by_cases hn : n = s.nonce
          · exact Or.inr ⟨rfl, hn, rfl⟩
          · have hu : Function.update p.made s.nonce true n = true := hm
            rw [Function.update_of_ne hn] at hu
            exact Or.inl hu
      | failed hc => cases hc
      | failedLate hc => cases hc
  | setEx token session ttl => exact Or.inl hm
  | del token =>
      rcases r with e | k
      · exact Or.inl hm
      · rw [Past.after] at hm
        split at hm
        · exact Or.inl hm
        · exact Or.inl hm
  | _ =>
      rw [Past.after_neutral rfl] at hm
      exact Or.inl hm

/-- A key that `DEL` removes was there. -/
theorem Answer.del {k token : Nat} (h : Answer s (.del token) (.ok k) s') (hk : k = 1) :
    (s.get token).isSome ∧ s'.get token = none ∧ s'.nonce = s.nonce := by
  cases h with
  | answered =>
      refine ⟨?_, ?_, rfl⟩
      · by_contra hn
        have hc : s.count token = 0 := if_neg hn
        exact absurd (hc.symm.trans hk) (by decide)
      · exact (get_remove token).trans (if_pos rfl)

/-- An operation comes to hold a token by making it, or by removing its key. -/
theorem Past.held_after {p : Past} (h : Answer s c r s')
    (hn : (p.after ⟨s, c, r, s'⟩).held n = true) :
    (p.held n = true ∧ ∀ session ttl, c ≠ .setEx n session ttl) ∨
      (n = s.nonce ∧ s'.nonce = s.nonce + 1 ∧ s'.get n = s.get n) ∨
      (s.get n).isSome ∧ s'.get n = none ∧ s'.nonce = s.nonce := by
  cases c with
  | createToken =>
      cases h with
      | answered =>
          by_cases hne : n = s.nonce
          · exact Or.inr (Or.inl ⟨hne, rfl, rfl⟩)
          · have hu : Function.update p.held s.nonce true n = true := hn
            rw [Function.update_of_ne hne] at hu
            exact Or.inl ⟨hu, nofun⟩
      | failed hc => cases hc
      | failedLate hc => cases hc
  | setEx token session ttl =>
      have hu : Function.update p.held token false n = true := hn
      by_cases hne : n = token
      · subst hne
        simp at hu
      · rw [Function.update_of_ne hne] at hu
        refine Or.inl ⟨hu, fun session' ttl' hc => hne ?_⟩
        cases hc
        rfl
  | del token =>
      rcases r with e | k
      · exact Or.inl ⟨hn, nofun⟩
      · rw [Past.after] at hn
        split at hn
        · next hk =>
            have hu : Function.update p.held token true n = true := hn
            by_cases hne : n = token
            · exact Or.inr (Or.inr (hne ▸ h.del hk))
            · rw [Function.update_of_ne hne] at hu
              exact Or.inl ⟨hu, nofun⟩
        · exact Or.inl ⟨hn, nofun⟩
  | _ =>
      rw [Past.after_neutral rfl] at hn
      exact Or.inl ⟨hn, nofun⟩

/-- What an operation has made, removed and written stays so. -/
theorem Past.le_after (p : Past) (e : Event Call Call.Reply Store) (n : Nat) :
    (p.made n = true → (p.after e).made n = true) ∧
      (p.removed n = true → (p.after e).removed n = true) ∧
      (p.held n = true → (∀ session ttl, e.call ≠ .setEx n session ttl) →
        (p.after e).held n = true) := by
  have hupdate : ∀ (f : Nat → Bool) (m : Nat), f n = true → Function.update f m true n = true := by
    intro f m hf
    by_cases hne : n = m
    · simp [hne]
    · rw [Function.update_of_ne hne, hf]
  unfold after
  split
  · exact ⟨hupdate _ _, id, fun hh _ => hupdate _ _ hh⟩
  · refine ⟨id, id, fun hh hc => ?_⟩
    dsimp only
    rw [Function.update_of_ne, hh]
    rintro rfl
    exact hc _ _ rfl
  · split
    · exact ⟨id, hupdate _ _, fun hh _ => hupdate _ _ hh⟩
    · exact ⟨id, id, fun hh _ => hh⟩
  · exact ⟨id, id, fun hh _ => hh⟩

/-- A key is written by its own `SETEX`. -/
theorem Past.wrote_after {p : Past} (hn : (p.after ⟨s, c, r, s'⟩).wrote n = true) :
    p.wrote n = true ∨ ∃ session ttl, c = .setEx n session ttl := by
  cases c with
  | createToken => rcases r with e | k <;> exact Or.inl hn
  | setEx token session ttl =>
      have hu : Function.update p.wrote token true n = true := hn
      by_cases hne : n = token
      · exact Or.inr ⟨session, ttl, by rw [hne]⟩
      · rw [Function.update_of_ne hne] at hu
        exact Or.inl hu
  | del token =>
      rcases r with e | k
      · exact Or.inl hn
      · rw [Past.after] at hn
        split at hn
        · exact Or.inl hn
        · exact Or.inl hn
  | _ =>
      rw [Past.after_neutral rfl] at hn
      exact Or.inl hn

/-- The keys an operation has removed. -/
theorem Past.removed_after {p : Past} (h : Answer s c r s')
    (hn : (p.after ⟨s, c, r, s'⟩).removed n = true) :
    p.removed n = true ∨ c = .del n ∧ (s.get n).isSome ∧
      (p.after ⟨s, c, r, s'⟩).held n = true := by
  cases c with
  | createToken => rcases r with e | k <;> exact Or.inl hn
  | setEx token session ttl => exact Or.inl hn
  | del token =>
      rcases r with e | k
      · exact Or.inl hn
      · rw [Past.after] at hn ⊢
        split at hn
        · next hk =>
            have hu : Function.update p.removed token true n = true := hn
            by_cases hne : n = token
            · subst hne
              refine Or.inr ⟨rfl, (h.del hk).1, ?_⟩
              rw [if_pos hk]
              simp [remove]
            · rw [Function.update_of_ne hne] at hu
              exact Or.inl hu
        · exact Or.inl hn
  | _ =>
      rw [Past.after_neutral rfl] at hn
      exact Or.inl hn

end Store

/-! ### Runs -/

section Run

/-- In the next call of an operation the key is still there. -/
def StillThere (cfg : Sessions) (i : Nat) : Prop :=
  ∀ q c next log, cfg.flights[i]? = some ⟨q, .call c next, log⟩ → Present q cfg.store c

/-- The contract of an operation holds of what is left of it. -/
def Sound (f : Operation) : Prop :=
  Meets (HeardPresent f.request) (Disciplined f.request)
    (fun r log => Closes f.request r (past log)) f.rest f.log

variable {cfg cfg' : Sessions}

/-- The contract holds of every operation of a run. -/
theorem Reaches.sound (hr : Reaches sessions StillThere cfg cfg') (h : cfg.flights = []) :
    ∀ f ∈ cfg'.flights, Sound f :=
  hr.heard_of HeardPresent Disciplined (fun q r log => Closes q r (past log))
    (fun s _ _ q c next log _ s' ha hi he => ⟨s, s', ha q c next log hi, he, rfl⟩) meets_serve
    (by simp [h])

/-- What is known before a call of a run. -/
theorem Reaches.follows {s s' : Store} {fs : List Operation} {i : Nat} {q : Request} {c : Call}
    {next : c.Reply → Program Call Call.Reply (Except String Outcome)} {log : Log} {r : c.Reply}
    (hr : Reaches sessions StillThere cfg ⟨s, fs⟩) (h : cfg.flights = [])
    (ha : StillThere ⟨s, fs⟩ i) (hi : fs[i]? = some ⟨q, .call c next, log⟩)
    (he : Answer s c r s') : Follows q (past log) c ∧ Present q s c := by
  have hp := ha q c next log hi
  have hm := Reaches.sound hr h _ (List.mem_of_getElem? hi)
  exact ⟨(hm r _ ⟨s, s', hp, he, rfl⟩).1, hp⟩

/-- Every key is that of a token that has been made. -/
structure Made (cfg : Sessions) : Prop where
  key : ∀ n, (cfg.store.get n).isSome → n < cfg.store.nonce
  made : ∀ f ∈ cfg.flights, ∀ n, (past f.log).made n = true → n < cfg.store.nonce

/-- Every key of a run is that of a token that has been made. -/
theorem Reaches.made (hr : Reaches sessions StillThere cfg cfg') (h : cfg.flights = [])
    (hk : ∀ n, cfg.store.get n = none) : Made cfg' := by
  induction hr with
  | refl =>
      refine ⟨fun n hn => ?_, by simp [h]⟩
      rw [hk n] at hn
      cases hn
  | tail hr hs ih =>
      cases hs with
      | arrive s fs q =>
          refine ⟨ih.key, fun f hf n hn => ?_⟩
          rcases List.mem_append.1 hf with hf | hf
          · exact ih.made f hf n hn
          · obtain rfl := List.mem_singleton.1 hf
            cases hn
      | @drift s s' fs hd =>
          refine ⟨fun n hn => ?_, fun f hf n hn => ?_⟩
          · obtain ⟨hnonce, hg | hg⟩ := get_of_drifts (n := n) hd
            · exact hnonce ▸ ih.key n (hg ▸ hn)
            · dsimp only at hn
              rw [hg] at hn
              cases hn
          · exact (get_of_drifts (n := n) hd).1 ▸ ih.made f hf n hn
      | @call s s' fs i q c next log r hi ha he =>
          obtain ⟨hf, hp⟩ := Reaches.follows hr h ha hi he
          have hle := Answer.nonce_le he
          have hmade := ih.made _ (List.mem_of_getElem? hi)
          refine ⟨fun n hn => ?_, ?_⟩
          · refine Nat.lt_of_lt_of_le ?_ hle
            by_cases hc : ∀ session ttl, c ≠ .setEx n session ttl
            · rcases he.get hc with hg | hg
              · exact ih.key n (hg ▸ hn)
              · dsimp only at hn
                rw [hg] at hn
                cases hn
            · simp only [not_forall, not_not] at hc
              obtain ⟨session, ttl, rfl⟩ := hc
              rcases hf with ⟨-, hm, -⟩ | ⟨hq, -⟩
              · exact hmade n hm
              · exact ih.key n (hp (by rw [hq]; rfl))
          · intro f hff n hn
            rcases mem_set_cases hi hff with rfl | ⟨j, -, hj⟩
            · dsimp only at hn
              rw [past_concat] at hn
              rcases Past.made_after he hn with hm | ⟨-, rfl, hnew⟩
              · exact Nat.lt_of_lt_of_le (hmade n hm) hle
              · dsimp only
                omega
            · exact Nat.lt_of_lt_of_le (ih.made f (List.mem_of_getElem? hj) n hn) hle

/-- **What an operation holds is taken, and held by nobody else.** -/
theorem Reaches.held_exclusive (hr : Reaches sessions StillThere cfg cfg')
    (h : cfg.flights = []) (hk : ∀ n, cfg.store.get n = none) :
    Exclusive (fun (f : Operation) n => (past f.log).held n = true) Taken cfg' := by
  refine hr.exclusive ?_ ?_ ?_ ?_
  · intro q n hn
    cases hn
  · intro s c r s' q next log fs i hr₁ ha hi he
    obtain ⟨hf, hp⟩ := Reaches.follows hr₁ h ha hi he
    have hm := Reaches.made hr₁ h hk
    refine ⟨?_, ?_⟩
    · intro n hn
      dsimp only at hn
      rw [past_concat] at hn
      rcases Past.held_after he hn with ⟨hold, hc⟩ | ⟨rfl, hnonce, hg⟩ | ⟨hlive, hg, hnonce⟩
      · exact Or.inl ⟨hold, Answer.taken he hc⟩
      · refine Or.inr ⟨fun ht => absurd ht.1 (Nat.lt_irrefl _), ?_, ?_⟩
        · omega
        · rw [hg]
          by_contra hne
          exact absurd (hm.key s.nonce (Option.isSome_iff_ne_none.2 hne)) (Nat.lt_irrefl _)
      · refine Or.inr ⟨fun ht => ?_, hnonce ▸ hm.key n hlive, hg⟩
        rw [ht.2] at hlive
        cases hlive
    · intro n ht hn
      by_cases hc : ∀ session ttl, c ≠ .setEx n session ttl
      · exact Answer.taken he hc ht
      · simp only [not_forall, not_not] at hc
        obtain ⟨session, ttl, rfl⟩ := hc
        rcases hf with ⟨-, -, hheld, -⟩ | ⟨hq, -⟩
        · exact absurd hheld hn
        · have := hp (by rw [hq]; rfl)
          rw [ht.2] at this
          cases this
  · intro s s' n hd ht
    obtain ⟨hnonce, hg | hg⟩ := get_of_drifts (n := n) hd
    · exact ⟨hnonce ▸ ht.1, hg.trans ht.2⟩
    · exact ⟨hnonce ▸ ht.1, hg⟩
  · exact ⟨by simp [h], by simp [h]⟩

/-- What is known of an operation in a run: it makes one token at most; a token that
it has removed is still its own, and not one it has made; and it writes a token only
after it has made it and, to renew a session, has removed the old one. -/
structure Kept (f : Operation) : Prop where
  removed : ∀ n, (past f.log).removed n = true →
    (past f.log).held n = true ∧ (past f.log).made n = false
  one : ∀ m n, (past f.log).made m = true → (past f.log).made n = true → m = n
  wrote : ∀ n, (past f.log).wrote n = true → f.request.refreshes = none →
    (past f.log).made n = true ∧
      ∀ oldToken, f.request.renews = some oldToken → (past f.log).removed oldToken = true

/-- What is known of an operation holds in every run. -/
theorem Reaches.kept (hr : Reaches sessions StillThere cfg cfg') (h : cfg.flights = [])
    (hk : ∀ n, cfg.store.get n = none) : ∀ f ∈ cfg'.flights, Kept f := by
  refine hr.flight_invariant ?_ ?_ (by simp [h])
  · intro q
    refine ⟨?_, ?_, ?_⟩
    · intro n hn
      cases hn
    · intro m n hm
      cases hm
    · intro n hn
      cases hn
  · intro s c r s' q next log fs i hp hr₁ ha hi he
    obtain ⟨hf, hpres⟩ := Reaches.follows hr₁ h ha hi he
    have hex := Reaches.held_exclusive hr₁ h hk
    refine ⟨?_, ?_, ?_⟩ <;> dsimp only <;> rw [past_concat]
    · intro n hn
      rcases Past.removed_after he hn with hold | ⟨rfl, hlive, hheld⟩
      · obtain ⟨hheld, hmade⟩ := hp.removed n hold
        refine ⟨((past log).le_after _ n).2.2 hheld ?_, ?_⟩
        · rintro session ttl rfl
          rcases hf with ⟨-, hm, -⟩ | ⟨-, hnothing⟩
          · rw [hmade] at hm
            cases hm
          · rw [hnothing] at hold
            cases hold
        · by_contra hm
          rcases Past.made_after he (by simpa using hm) with hm | ⟨rfl, -, -⟩
          · rw [hmade] at hm
            cases hm
          · rw [show past log = .nothing from hf] at hold
            cases hold
      · refine ⟨hheld, ?_⟩
        by_contra hm
        rcases Past.made_after he (by simpa using hm) with hm | ⟨hc, -⟩
        · -- a token it has made and not written has no key
          have hh : (past log).held n = true := hf.1 ▸ hm
          have ht : Taken s n := hex.taken _ (List.mem_of_getElem? hi) n hh
          rw [ht.2] at hlive
          cases hlive
        · cases hc
    · intro m n hm hn
      have hnone : c = .createToken → ∀ t, (past log).made t ≠ true := by
        rintro rfl t ht
        rw [show past log = .nothing from hf] at ht
        cases ht
      rcases Past.made_after he hm with hm' | ⟨hc, rfl, -⟩
      · rcases Past.made_after he hn with hn' | ⟨hc, -, -⟩
        · exact hp.one m n hm' hn'
        · exact absurd hm' (hnone hc m)
      · rcases Past.made_after he hn with hn' | ⟨-, rfl, -⟩
        · exact absurd hn' (hnone hc n)
        · rfl
    · intro n hn hq
      have hmade : (past log).made n = true ∧
          ∀ oldToken, q.renews = some oldToken → (past log).removed oldToken = true := by
        rcases Past.wrote_after hn with hn | ⟨session, ttl, rfl⟩
        · exact hp.wrote n hn hq
        · rcases hf with ⟨-, hm, -, hold⟩ | ⟨hr', -⟩
          · exact ⟨hm, hold⟩
          · rw [show q.refreshes = none from hq] at hr'
            cases hr'
      exact ⟨((past log).le_after _ n).1 hmade.1, fun oldToken ho =>
        ((past log).le_after _ oldToken).2.1 (hmade.2 oldToken ho)⟩

/-- The token was made to renew the session of the other. -/
def Renewed (cfg : Sessions) (oldToken newToken : Nat) : Prop :=
  ∃ f ∈ cfg.flights, f.request.renews = some oldToken ∧ (past f.log).wrote newToken = true

/-- The token is derived from the other. -/
abbrev Derives (cfg : Sessions) : Nat → Nat → Prop := Relation.ReflTransGen (Renewed cfg)

/-- A logout has returned `Ok(true)`: one that names the token, or one that has found the
session of the token and removed its key. -/
def LoggedOut (cfg : Sessions) (token : Nat) : Prop :=
  ∃ f ∈ cfg.flights, f.rest = .done (.ok (.flag true)) ∧ (f.request = .delete token ∨
    f.request.logsOut = true ∧ (past f.log).removed token = true)

/-- A logout that has returned `Ok(true)` has removed the key. -/
theorem LoggedOut.removed {cfg : Sessions} {token : Nat} (h : LoggedOut cfg token)
    (hsound : ∀ f ∈ cfg.flights, Sound f) : ∃ f ∈ cfg.flights, f.request.logsOut = true ∧
      (past f.log).removed token = true := by
  obtain ⟨f, hf, hdone, hdelete | ⟨hout, hremoved⟩⟩ := h
  · have hclosed := hsound f hf
    rw [Sound, hdone] at hclosed
    exact ⟨f, hf, by rw [hdelete]; rfl, hclosed.deleted token hdelete⟩
  · exact ⟨f, hf, hout, hremoved⟩

/-- Every logout that returns `Ok(true)` is one from some token. -/
theorem exists_loggedOut {cfg : Sessions} (hsound : ∀ f ∈ cfg.flights, Sound f) {f : Operation}
    (hf : f ∈ cfg.flights) (hout : f.request.logsOut = true)
    (hdone : f.rest = .done (.ok (.flag true))) : ∃ token, LoggedOut cfg token := by
  have hclosed := hsound f hf
  rw [Sound, hdone] at hclosed
  obtain ⟨token, hremoved⟩ := hclosed.loggedOut hout
  exact ⟨token, f, hf, hdone, .inr ⟨hout, hremoved⟩⟩

/-- Logout is final and rotation does not fork: of the tokens derived from one at most
one is accepted, and none after a logout from one of them; and one renewal of a token
succeeds. -/
structure SingleUse (cfg : Sessions) : Prop where
  noFork : ∀ t t₁ t₂, Derives cfg t t₁ → Derives cfg t t₂ → cfg.store.accepts t₁ = true →
    cfg.store.accepts t₂ = true → t₁ = t₂
  final : ∀ t t₀ t', Derives cfg t t₀ → LoggedOut cfg t₀ → Derives cfg t t' →
    cfg.store.accepts t' = false
  renewal : ∀ (i j : Nat) (f g : Operation) (oldToken : Nat), cfg.flights[i]? = some f →
    cfg.flights[j]? = some g → f.request.renews = some oldToken →
      g.request.renews = some oldToken → f.rest = .done (.ok (.flag true)) →
        g.rest = .done (.ok (.flag true)) → i = j

/-- A token that is accepted has its key. -/
theorem get_of_accepts {s : Store} {n : Nat} (h : s.accepts n = true) : (s.get n).isSome := by
  obtain ⟨session, hs, -⟩ := (Option.any_eq_true _ _).1 h
  rw [hs]
  rfl

/-- **Logout is final and rotation does not fork**, when no key is gone that an
operation has read before it renews or refreshes the session. -/
theorem logout_final_no_fork {s : Store} {cfg : Sessions} (hs : ∀ n, s.get n = none)
    (hr : Reaches sessions StillThere ⟨s, []⟩ cfg) : SingleUse cfg := by
  have hkept := Reaches.kept hr rfl hs
  have hex := Reaches.held_exclusive hr rfl hs
  have hsound := Reaches.sound hr rfl
  -- one operation removes a key
  have hunique : ∀ (i j : Nat) (f g : Operation) (n : Nat), cfg.flights[i]? = some f →
      cfg.flights[j]? = some g → (past f.log).removed n = true → (past g.log).removed n = true →
        i = j := by
    intro i j f g n hi hj hf hg
    exact hex.unique i j f g n hi hj
      ((hkept f (List.mem_of_getElem? hi)).removed n hf).1
      ((hkept g (List.mem_of_getElem? hj)).removed n hg).1
  have hgone : ∀ f ∈ cfg.flights, ∀ n, (past f.log).removed n = true → cfg.store.get n = none :=
    fun f hf n hn => (hex.taken f hf n ((hkept f hf).removed n hn).1).2
  have hrenewed : ∀ f ∈ cfg.flights, ∀ old new, f.request.renews = some old →
      (past f.log).wrote new = true → (past f.log).made new = true ∧
        (past f.log).removed old = true := by
    intro f hf old new hq hw
    obtain ⟨hm, ho⟩ := (hkept f hf).wrote new hw (Request.refreshes_of_renews hq)
    exact ⟨hm, ho old hq⟩
  have hright : Relator.RightUnique (Renewed cfg) := by
    rintro old a b' ⟨f, hf, hfq, hfw⟩ ⟨g, hg, hgq, hgw⟩
    obtain ⟨i, hi⟩ := List.mem_iff_getElem?.1 hf
    obtain ⟨j, hj⟩ := List.mem_iff_getElem?.1 hg
    obtain ⟨hfm, hfr⟩ := hrenewed f hf old a hfq hfw
    obtain ⟨hgm, hgr⟩ := hrenewed g hg old b' hgq hgw
    obtain rfl := hunique i j f g old hi hj hfr hgr
    obtain rfl := Option.some.inj (hi.symm.trans hj)
    exact (hkept f hf).one a b' hfm hgm
  have hlast : ∀ a b', Derives cfg a b' → cfg.store.accepts a = true → a = b' := by
    intro a b' hd ha
    rcases hd.cases_head with heq | ⟨x, ⟨f, hf, hq, hw⟩, -⟩
    · exact heq
    · have := get_of_accepts ha
      rw [hgone f hf a (hrenewed f hf a x hq hw).2] at this
      cases this
  refine ⟨?_, ?_, ?_⟩
  · intro t t₁ t₂ h₁ h₂ ha₁ ha₂
    rcases Relation.ReflTransGen.total_of_right_unique hright h₁ h₂ with hd | hd
    · exact hlast t₁ t₂ hd ha₁
    · exact (hlast t₂ t₁ hd ha₂).symm
  · intro t t₀ t' h₀ hlogout h'
    obtain ⟨f, hf, hout, hremoved⟩ := hlogout.removed hsound
    by_contra ha
    have ha : cfg.store.accepts t' = true := by simpa using ha
    have hne : t' ≠ t₀ := by
      rintro rfl
      have := get_of_accepts ha
      rw [hgone f hf t' hremoved] at this
      cases this
    rcases Relation.ReflTransGen.total_of_right_unique hright h₀ h' with hd | hd
    · rcases hd.cases_head with heq | ⟨x, ⟨g, hg, hq, hw⟩, -⟩
      · exact hne heq.symm
      · -- the logout and a renewal would have removed one key
        obtain ⟨i, hi⟩ := List.mem_iff_getElem?.1 hf
        obtain ⟨j, hj⟩ := List.mem_iff_getElem?.1 hg
        obtain rfl := hunique i j f g t₀ hi hj hremoved (hrenewed g hg t₀ x hq hw).2
        obtain rfl := Option.some.inj (hi.symm.trans hj)
        rw [Request.logsOut_of_renews hq] at hout
        cases hout
    · exact hne (hlast t' t₀ hd ha)
  · intro i j f g old hi hj hfq hgq hfd hgd
    have hdone : ∀ f ∈ cfg.flights, f.request.renews = some old →
        f.rest = .done (.ok (.flag true)) → (past f.log).removed old = true := by
      intro f hf hq hd
      have hm := hsound f hf
      rw [Sound, hd] at hm
      exact hm.renewed old hq
    exact hunique i j f g old hi hj (hdone f (List.mem_of_getElem? hi) hfq hfd)
      (hdone g (List.mem_of_getElem? hj) hgq hgd)

end Run

/-! ### Schedules -/

/-- A server whose commands do not fail. -/
def server : Machine Request Call Call.Reply (Except String Outcome) Store Unit Nat where
  toSite := sessions
  choose _ s c := some (.ok (s.perform c).1, (s.perform c).2)
  choose_sound _ s c r s' h := by
    obtain ⟨rfl, rfl⟩ := Prod.mk.inj (Option.some.inj h)
    exact .answered
  shift d s := { s with clock := s.clock + d }
  shift_sound d s := ⟨s.clock + d, by omega, rfl⟩

/-- An empty server. -/
def Store.empty : Store := ⟨fun _ => none, fun _ => [], 0, 0⟩

/-- The outcome of an operation that is over. -/
def outcome (f : Operation) : Option Outcome :=
  match f.rest with
  | .done (.ok o) => some o
  | _ => none

/-- The next call of the operation finds its key. -/
def stillThere (cfg : Sessions) (i : Nat) : Bool :=
  match cfg.flights[i]? with
  | some ⟨q, .call c _, _⟩ => decide (Present q cfg.store c)
  | _ => true

/-- The test of the machine, as a property. -/
theorem StillThere.of_decide {cfg : Sessions} {i : Nat} (h : stillThere cfg i = true) :
    StillThere cfg i := by
  intro q c next log hi
  rw [stillThere, hi] at h
  exact of_decide_eq_true h

/-- A login, a renewal, and a logout from the new session. -/
theorem logout_final_no_fork_renewed : ∃ cfg : Sessions,
    Reaches sessions StillThere ⟨.empty, []⟩ cfg ∧
      (∃ f ∈ cfg.flights, f.request.logsOut = true ∧ outcome f = some (.flag true)) ∧
      SingleUse cfg := by
  have hplay : (server.play stillThere ⟨.empty, []⟩
      ([.arrive (.insert "user" 100 1000)] ++ List.replicate 5 (.call 0 ()) ++
        [.arrive (.updateToken 0 100 1000)] ++ List.replicate 11 (.call 1 ()) ++
        [.arrive (.delete 2)] ++ List.replicate 4 (.call 2 ()))).any
      (fun cfg => decide (∃ f ∈ cfg.flights, f.request.logsOut = true ∧
        outcome f = some (.flag true))) = true := by decide +kernel
  obtain ⟨cfg, hr, hc⟩ := Machine.exists_of_play StillThere
    (fun _ _ => StillThere.of_decide) hplay
  exact ⟨cfg, hr, of_decide_eq_true hc, logout_final_no_fork (fun _ => rfl) hr⟩

/-- A login, two renewals that read the session one after the other, and both of
their tokens. -/
def Forked (cfg : Sessions) : Prop :=
  ∃ f ∈ cfg.flights, ∃ g ∈ cfg.flights, ∃ m ∈ [2], ∃ n ∈ [3],
    f.request.renews = some 0 ∧ (past f.log).wrote m = true ∧
    g.request.renews = some 0 ∧ (past g.log).wrote n = true ∧
    cfg.store.accepts m = true ∧ cfg.store.accepts n = true

instance (cfg : Sessions) : Decidable (Forked cfg) := by
  unfold Forked
  infer_instance

/-- The second renewal does not look whether it has deleted the old token. -/
theorem concurrent_renewals_fork : ∃ cfg : Sessions,
    Reaches sessions AnyStep ⟨.empty, []⟩ cfg ∧ ¬SingleUse cfg := by
  have hplay : (server.play (fun _ _ => true) ⟨.empty, []⟩
      ([.arrive (.insert "user" 100 1000)] ++ List.replicate 5 (.call 0 ()) ++
        [.arrive (.updateToken 0 100 1000), .arrive (.updateToken 0 100 1000),
          .call 1 (), .call 2 (), .call 1 (), .call 1 (), .call 2 (), .call 2 ()] ++
        List.replicate 8 (.call 1 ()) ++ List.replicate 6 (.call 2 ()))).any
      (fun cfg => decide (Forked cfg)) = true := by decide +kernel
  obtain ⟨cfg, hr, hc⟩ := Machine.exists_of_play AnyStep (fun _ _ _ => trivial) hplay
  obtain ⟨f, hf, g, hg, m, hm, n, hn, hfq, hfw, hgq, hgw, ham, han⟩ := of_decide_eq_true hc
  obtain rfl := List.mem_singleton.1 hm
  obtain rfl := List.mem_singleton.1 hn
  refine ⟨cfg, hr, fun h => ?_⟩
  have := h.noFork 0 2 3 (.single ⟨f, hf, hfq, hfw⟩) (.single ⟨g, hg, hgq, hgw⟩) ham han
  omega

end Redis
end Identity
end Hegira
