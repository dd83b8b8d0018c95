/-
# When a mailed token expires

Verifications, magic links and email changes expire (`mailed_token_expires_iff`), each
within its own window of the call that stored it (`MailedToken.lifetime`); a password
reset is accepted however late, as `reset_password` does not look at `reset_sent_at`.

The times are compared through the logs.  A token in a row was put there by a call, and a
call that stores a token is the first of its flight and follows its own drawing of the
token and its own reading of the clock (`Issuing`), so that one token is stored by one
call.  A flight that is confirmed has seen a row with the token and a time that its own
reading of the clock allows (`Accepted`).
-/

import Mathlib.Data.List.Basic
import Hegira.Identity.MailedTokens
import Hegira.Identity.RoleRename

namespace Hegira
namespace Identity

open Service in
/-- How much later than the clock the time of a token is. -/
def MailedToken.offset : MailedToken → Int
  | magicLink => minutes magicLinkExpirationMinutes
  | _ => 0

/-- How much later than its time a token is accepted. -/
def MailedToken.window : MailedToken → Int
  | emailVerification => Managed.verificationWindow
  | emailChange => Managed.emailChangeWindow
  | _ => 0

/-- How long a token is accepted, where this is bounded. -/
def MailedToken.lifetime (kind : MailedToken) : Int := kind.offset + kind.window

namespace Service

abbrev Log := List (Event Call Reply Store)

/-- The token that a request confirms. -/
def Request.confirms : Request → Option (MailedToken × Nat)
  | .resetPassword token _ => some (.passwordReset, token)
  | .verifyEmail token => some (.emailVerification, token)
  | .verifyMagicLink token => some (.magicLink, token)
  | .confirmEmailChange token => some (.emailChange, token)
  | _ => none

/-- **The token expires.**  In every run, a request that is confirmed has made its first
call no later than `lifetime` after the token was stored. -/
def ExpiresWithin (kind : MailedToken) (lifetime : Int) : Prop :=
  ∀ (S : Settings) (cfg cfg' : Run), Launched cfg →
    Reaches (identity S (· ≤ ·)) AnyStep cfg cfg' →
      ∀ f ∈ cfg'.flights, ∀ e ∈ f.log, ∀ token time, e.call.issues = some ⟨kind, token, time⟩ →
        ∀ g ∈ cfg'.flights, ∀ e₀ log r, g.request.confirms = some (kind, token) →
          g.log = e₀ :: log → g.rest = .done (.ok r) → e₀.before.now - e.before.now ≤ lifetime

/-! ### How a token is stored -/

/-- No token has been stored. -/
def Clean (log : Log) : Prop := ∀ e ∈ log, e.call.issues = none

/-- The token has been drawn. -/
def Drew (log : Log) (token : Nat) : Prop :=
  ∃ e ∈ log, e.before.drawn = token ∧ token < e.after.drawn

/-- A call has been made at this time. -/
def Read (log : Log) (now : Int) : Prop := ∃ e ∈ log, e.before.now = now

/-- A call that stores a token is the first to do so, and its flight has drawn the token
and read the clock. -/
def Issuing (e : Event Call Reply Log) : Prop :=
  ∀ i, e.call.issues = some i → Clean e.before ∧ Drew e.before i.token ∧
    ∃ now, Read e.before now ∧ i.time = now + i.kind.offset

variable {S : Settings} {log : Log}

/-- What is left of a flight stores tokens as it should. -/
structure Stores {α : Type} (S : Settings) (p : App α) (log : Log) : Prop where
  spec : p.Spec (Heard (Answer S)) Issuing (fun _ _ => True) log

/-- A value stores no token. -/
theorem Stores.pure {α : Type} {a : α} : Stores S (Pure.pure a) log :=
  ⟨Fallible.spec_pure.2 trivial⟩

/-- Nothing was issued at the start. -/
theorem clean_nil : Clean [] := List.forall_mem_nil _

/-- A call that issues nothing keeps it so. -/
theorem Clean.concat (h : Clean log) {e : Event Call Reply Store} (he : e.call.issues = none) :
    Clean (log ++ [e]) := by
  intro e' he'
  rcases List.mem_append.1 he' with he' | he'
  · exact h e' he'
  · rw [List.mem_singleton.1 he']
    exact he

/-- A harmless call issues nothing. -/
theorem issues_of_harmless {c : Call} (h : c.harmless = true) : c.issues = none := by
  cases c <;> first | rfl | cases h

theorem issues_of_false {c : Call} (h : false = true) : c.issues = none := nomatch h

/-- A part that stores no token. -/
theorem Makes.clean {α : Type} {p : App α} {calls : Call → Bool} (hp : Makes p calls)
    (hcalls : ∀ c, calls c = true → c.issues = none) (hlog : Clean log) :
    p.Spec (Heard (Answer S)) Issuing (fun _ log' => Clean log') log := by
  have hc : ∀ c : Call, c.harmless = true ∨ calls c = true → c.issues = none := fun c hc =>
    hc.elim issues_of_harmless (hcalls c)
  have hquiet : Meets (Heard (Answer S)) Issuing (fun _ _ => True) p.run log := by
    refine hp.only.meets (fun log c r log' hok _ i hi => ?_) log
    cases (hc c hok).symm.trans hi
  have hclean : Meets (Heard (Answer S)) (fun e => Clean e.before ∧ Clean e.after)
      (fun _ log => Clean log) p.run log := by
    refine hp.only.meets_invariant (fun log c r log' hok he h => ?_) hlog
    obtain ⟨s, s', -, rfl⟩ := he
    exact h.concat (hc c hok)
  exact (hquiet.and hclean).mono (fun e he => he.1) fun r log' hlog' a _ => hlog'.2

/-- A program of calls that issue nothing stores no token. -/
theorem Makes.stores {α : Type} {p : App α} {calls : Call → Bool} (hp : Makes p calls)
    (hcalls : ∀ c, calls c = true → c.issues = none) : Stores S p log := by
  have hquiet : Meets (Heard (Answer S)) Issuing (fun _ _ => True) p.run log := by
    refine hp.only.meets (fun log c r log' hok _ i hi => ?_) log
    cases (hok.elim issues_of_harmless (hcalls c)).symm.trans hi
  exact ⟨hquiet.imp fun _ _ _ _ _ => trivial⟩

/-- A token is drawn and the clock is read. -/
theorem stores_drawing {α : Type} {f : Nat → Int → App α} (hlog : Clean log)
    (hf : ∀ token now log', Clean log' → Drew log' token → Read log' now →
      Stores S (f token now) log') :
    Stores S (do
      let token ← call .newToken
      let now ← call .now
      f token now) log := by
  have hquiet : ∀ (log : Log) (c : Call) (r : Reply c) (log' : Log), c.issues = none →
      Issuing ⟨log, c, r, log'⟩ := by
    intro log c r log' hc i hi
    cases hc.symm.trans hi
  refine ⟨?_⟩
  rw [Fallible.spec_bind]
  rintro r _ ⟨s, s', ha, rfl⟩
  refine ⟨hquiet _ _ _ _ rfl, ?_⟩
  rintro token rfl
  rw [Fallible.spec_bind]
  rintro r _ ⟨s₁, s₁', ha₁, rfl⟩
  refine ⟨hquiet _ _ _ _ rfl, ?_⟩
  rintro now rfl
  have hdrew : s.drawn = token ∧ token < s'.drawn := by
    cases ha with
    | executed he =>
        cases he
        exact ⟨rfl, Nat.lt_succ_self _⟩
  have hread : s₁.now = now := by
    cases ha₁ with
    | executed he =>
        cases he
        rfl
  exact (hf token now _ ((hlog.concat rfl).concat rfl)
    ⟨_, List.mem_append_left _ (List.mem_append_right _ List.mem_cons_self), hdrew⟩
    ⟨_, List.mem_append_right _ List.mem_cons_self, hread⟩).spec

/-- The call that stores the token. -/
theorem stores_call {c : Call} (hlog : Clean log) (h : ∀ i, c.issues = some i →
    Drew log i.token ∧ ∃ now, Read log now ∧ i.time = now + i.kind.offset) :
    Stores S (call c) log :=
  ⟨fun _ _ _ => ⟨fun i hi => ⟨hlog, h i hi⟩, fun _ _ => trivial⟩⟩

/-- A sequence stores what its parts store. -/
theorem Stores.bind {α β : Type} {p : App α} {f : α → App β} (hp : Stores S p log)
    (hf : ∀ a log', Stores S (f a) log') : Stores S (p >>= f) log :=
  ⟨Fallible.spec_bind.2 (hp.spec.imp fun a log' _ => (hf a log').spec)⟩

/-- Attempting a program changes nothing about that. -/
theorem stores_attempt {α : Type} {p : App α} (hp : Stores S p log) :
    Stores S (attempt p) log :=
  ⟨meets_attempt.2 (Meets.imp hp.spec fun _ _ _ _ _ => trivial)⟩

/-- Neither does a function of the result. -/
theorem Stores.map {α β : Type} {p : App α} {f : α → β} (hp : Stores S p log) :
    Stores S (f <$> p) log :=
  ⟨Fallible.spec_map.2 hp.spec⟩

/-- A part that stores no token, and then the rest. -/
theorem Makes.then_stores {α β : Type} {p : App α} {f : α → App β} {calls : Call → Bool}
    (hp : Makes p calls) (hcalls : ∀ c, calls c = true → c.issues = none) (hlog : Clean log)
    (hf : ∀ a log', Clean log' → Stores S (f a) log') : Stores S (p >>= f) log :=
  ⟨Fallible.spec_bind.2 ((hp.clean hcalls hlog).imp fun a log' hlog' => (hf a log' hlog').spec)⟩

/-- A part that changes nothing, and then the rest. -/
theorem still_then_stores {α β : Type} {p : App α} {f : α → App β} (hp : Makes p fun _ => false)
    (hlog : Clean log) (hf : ∀ a log', Clean log' → Stores S (f a) log') :
    Stores S (p >>= f) log := hp.then_stores (fun _ => issues_of_false) hlog hf

/-- A program without calls stores no token. -/
theorem still_stores {α : Type} {p : App α} (hp : Makes p fun _ => false) : Stores S p log :=
  hp.stores fun _ => issues_of_false

/-- Prolonging a session issues nothing. -/
theorem issues_of_refreshes {c : Call} (h : c.refreshes = true) : c.issues = none := by
  cases c <;> first | rfl | cases h

/-- The shared end of the requests stores the token it mails, at the time it has read. -/
theorem stores_storeAndMail {stored : Managed.Command} {update : UserUpdate}
    {mail : TransactionalMail} {i : Issue} (hlog : Clean log) (hstored : stored.issues = some i)
    (hupdate : update.issues = some i) (hdrew : Drew log i.token)
    (hread : ∃ now, Read log now ∧ i.time = now + i.kind.offset) :
    Stores S (storeAndMail S stored update mail) log := by
  have hcall : ∀ c : Call, c.issues = some i → Stores S (call c) log := fun c hc =>
    stores_call hlog fun j hj => by
      obtain rfl := Option.some.inj (hc.symm.trans hj)
      exact ⟨hdrew, hread⟩
  unfold storeAndMail
  split
  · exact (hcall (.managed stored) hstored).bind fun _ _ => Stores.pure
  · exact (hcall (.updateUser update) hupdate).bind fun _ _ =>
      still_stores (makes_call rfl)

/-- A command answered by a flag stores what its call stores. -/
theorem stores_managedFlag {command : Managed.Command}
    (h : Stores S (call (.managed command)) log) : Stores S (managedFlag command) log :=
  h.bind fun outcome _ => by cases outcome <;> exact Stores.pure

/-- Each request that mails a token stores it with the time of the request. -/
theorem stores_register (username password : String) :
    Stores S (register S username password) [] := by
  refine still_then_stores .liftExcept clean_nil fun _ log hlog => ?_
  refine still_then_stores .liftExcept hlog fun passwordHash log hlog => ?_
  refine stores_drawing hlog fun token now log hlog hdrew hread => ?_
  refine (stores_attempt (stores_call hlog ?_)).bind fun registered log => ?_
  · rintro i hi
    obtain rfl := Option.some.inj hi
    exact ⟨hdrew, now, hread, (Int.add_zero _).symm⟩
  · refine still_stores ?_
    dsimp only
    split
    · exact .ite .pure (makes_call rfl)
    · exact .bind .throw fun _ => .ite .pure (makes_call rfl)
    · exact .bind .throw fun _ => .ite .pure (makes_call rfl)

theorem stores_resendVerification (actorToken : Nat) :
    Stores S (resendVerification S actorToken) [] := by
  refine Makes.then_stores (makes_currentUser actorToken) (fun _ => issues_of_refreshes) clean_nil
    fun current log hlog => ?_
  refine still_then_stores (makes_userNamed _) hlog fun user log hlog => ?_
  split
  · exact Stores.pure
  · refine stores_drawing hlog fun token now log hlog hdrew hread => ?_
    exact stores_storeAndMail hlog rfl rfl hdrew ⟨now, hread, (Int.add_zero _).symm⟩

theorem stores_forgotPassword (username : String) : Stores S (forgotPassword S username) [] := by
  refine still_then_stores .liftExcept clean_nil fun given log hlog => ?_
  split
  · exact Stores.pure
  · refine still_then_stores (makes_call rfl) hlog fun user log hlog => ?_
    split
    · exact Stores.pure
    · refine stores_drawing hlog fun token now log hlog hdrew hread => ?_
      exact stores_storeAndMail hlog rfl rfl hdrew ⟨now, hread, (Int.add_zero _).symm⟩

theorem stores_requestMagicLink (username : String) :
    Stores S (requestMagicLink S username) [] := by
  refine still_then_stores .liftExcept clean_nil fun given log hlog => ?_
  split
  · exact Stores.pure
  · refine still_then_stores (makes_call rfl) hlog fun user log hlog => ?_
    split
    · exact Stores.pure
    · refine stores_drawing hlog fun token now log hlog hdrew hread => ?_
      exact stores_storeAndMail hlog rfl rfl hdrew ⟨now, hread, rfl⟩

theorem stores_requestEmailChange (actorToken : Nat) (newEmail password : String) :
    Stores S (requestEmailChange S actorToken newEmail password) [] := by
  refine still_then_stores .liftExcept clean_nil fun _ log hlog => ?_
  refine Makes.then_stores (makes_currentUser actorToken) (fun _ => issues_of_refreshes) hlog
    fun current log hlog => ?_
  refine still_then_stores (makes_userNamed _) hlog fun user log hlog => ?_
  refine still_then_stores (makes_checkPassword _ _) hlog fun _ log hlog => ?_
  refine stores_drawing hlog fun token now log hlog hdrew hread => ?_
  refine (stores_managedFlag (stores_call hlog ?_)).bind fun updated log => ?_
  · rintro i hi
    obtain rfl := Option.some.inj hi
    exact ⟨hdrew, now, hread, (Int.add_zero _).symm⟩
  · exact still_stores (.ite .throw (.ite .pure (makes_call rfl)))

/-- The request stores a token. -/
def Request.issuesToken (q : Request) : Bool :=
  q matches .register .. | .resendVerification _ | .forgotPassword _ | .requestMagicLink _ |
    .requestEmailChange ..

/-- The other requests issue none. -/
theorem issues_of_changes {q : Request} {c : Call} (hq : q.issuesToken = false)
    (hc : q.changes c = true) : c.issues = none := by
  cases c with
  | updateUser update =>
      cases update with
      | setResetToken username token sentAt | setEmailVerification username token sentAt
      | setMagicLink username token expiresAt => cases q <;> first | (cases hq; done) | cases hc
      | _ => rfl
  | managed command =>
      cases command with
      | register command | setResetToken username token sentAt mail
      | setVerification username token sentAt mail | setMagicLink username token expiresAt mail
      | requestEmailChange username newEmail token sentAt mail =>
          cases q <;> first | (cases hq; done) | cases hc
      | _ => rfl
  | _ => rfl

/-- **Every request stores tokens as it should.** -/
theorem stores_respond (q : Request) : Stores S (respond S q) [] := by
  by_cases hq : q.issuesToken = true
  · cases q with
    | register username password => exact (stores_register username password).map
    | resendVerification actorToken =>
        exact (stores_resendVerification actorToken).map
    | forgotPassword username => exact (stores_forgotPassword username).map
    | requestMagicLink username => exact (stores_requestMagicLink username).map
    | requestEmailChange actorToken newEmail password =>
        exact (stores_requestEmailChange actorToken newEmail password).map
    | _ => cases hq
  · exact Makes.stores (makes_respond q) fun c => issues_of_changes (by simpa using hq)

/-- One call of a flight stores a token. -/
theorem eq_of_issuing (ht : Told Issuing log) {e e' : Event Call Reply Store} (he : e ∈ log)
    (he' : e' ∈ log) (hi : e.call.issues.isSome = true) (hi' : e'.call.issues.isSome = true) :
    e = e' := by
  have hclean : ∀ pre e post, log = pre ++ e :: post → e.call.issues.isSome = true → Clean pre := by
    intro pre e post heq hsome
    obtain ⟨i, hi⟩ := Option.isSome_iff_exists.1 hsome
    exact (ht pre e post heq i hi).1
  obtain ⟨pre, post, heq⟩ := List.append_of_mem he
  obtain ⟨pre', post', heq'⟩ := List.append_of_mem he'
  rcases List.append_eq_append_iff.1 (heq.symm.trans heq') with ⟨l, rfl, hl⟩ | ⟨l, rfl, hl⟩
  · cases l with
    | nil => exact (List.cons.inj hl).1
    | cons a l =>
        obtain rfl := (List.cons.inj hl).1
        rw [hclean _ _ _ heq' hi' e (by simp)] at hi
        cases hi
  · cases l with
    | nil => exact (List.cons.inj hl).1.symm
    | cons a l =>
        obtain rfl := (List.cons.inj hl).1
        rw [hclean _ _ _ heq hi e' (by simp)] at hi'
        cases hi'

/-! ### How a token is confirmed -/

/-- The flight has seen a row with the token and a time that a reading of the clock
allows. -/
def Accepted (kind : MailedToken) (token : Nat) (log : Log) : Prop :=
  ∃ e ∈ log, ∃ time, e.before.tables.Holds ⟨kind, token, time⟩ ∧
    ∃ now, Read log now ∧ now ≤ time + kind.window

/-- The clock is read, and the user writer finds the token. -/
theorem accepts_managed {command : Int → Managed.Command} {error : ApplicationError}
    {kind : MailedToken} {token : Nat}
    (h : ∀ now s s', Answer S s (.managed (command now)) (.ok (.flag true)) s' →
      ∃ time, s.tables.Holds ⟨kind, token, time⟩ ∧ now ≤ time + kind.window) :
    Fallible.Spec (do
      let now ← call .now
      if !(← managedFlag (command now)) then
        throw error
      return () : App Unit) (Heard (Answer S)) (fun _ => True)
      (fun _ log => Accepted kind token log) [] := by
  rw [Fallible.spec_bind]
  rintro r _ ⟨s, s', ha, rfl⟩
  refine ⟨trivial, ?_⟩
  rintro now rfl
  rw [managedFlag, Fallible.spec_bind, Fallible.spec_bind]
  rintro r _ ⟨s₁, s₁', ha₁, rfl⟩
  refine ⟨trivial, ?_⟩
  rintro outcome rfl
  have hread : s.now = now := by
    cases ha with
    | executed he =>
        cases he
        rfl
  cases outcome with
  | user user => exact Fallible.spec_pure.2 Fallible.spec_throw
  | updated user => exact Fallible.spec_pure.2 Fallible.spec_throw
  | flag b =>
      cases b with
      | false => exact Fallible.spec_pure.2 Fallible.spec_throw
      | true =>
          obtain ⟨time, hholds, hle⟩ := h now s₁ s₁' ha₁
          refine Fallible.spec_pure.2 (Fallible.spec_pure.2 ?_)
          exact ⟨_, List.mem_append_right _ List.mem_cons_self, time, hholds, now,
            ⟨_, List.mem_append_left _ (List.mem_append_right _ List.mem_cons_self), hread⟩, hle⟩

/-- Each of the three confirmations that succeeds has checked the age of its token. -/
theorem accepts_verifyEmail (token : Nat) :
    (verifyEmail S token).Spec (Heard (Answer S)) (fun _ => True)
      (fun _ log => Accepted .emailVerification token log) [] := by
  refine accepts_managed fun now s s' ha => ?_
  cases ha with
  | executed he => cases he
  | managed hr hle hdrawn =>
      obtain ⟨u, hu, hverifies⟩ := Managed.verified_of_runs hr
      simp only [Managed.verifies, Managed.sentAfter, Bool.and_eq_true, beq_iff_eq,
        Option.any_eq_true, decide_eq_true_eq] at hverifies
      obtain ⟨⟨htoken, sentAt, hsent, hlt⟩, -⟩ := hverifies
      refine ⟨sentAt, ⟨u, hu, Prod.ext htoken hsent⟩, ?_⟩
      change now ≤ sentAt + Managed.verificationWindow
      omega

theorem accepts_confirmEmailChange (token : Nat) :
    (confirmEmailChange S token).Spec (Heard (Answer S)) (fun _ => True)
      (fun _ log => Accepted .emailChange token log) [] := by
  refine accepts_managed fun now s s' ha => ?_
  cases ha with
  | executed he => cases he
  | managed hr hle hdrawn =>
      obtain ⟨u, hu, hconfirms⟩ := Managed.confirmed_of_runs hr
      simp only [Managed.confirms, Managed.sentAfter, Bool.and_eq_true, beq_iff_eq,
        Option.any_eq_true, decide_eq_true_eq] at hconfirms
      obtain ⟨⟨⟨htoken, sentAt, hsent, hlt⟩, -⟩, -⟩ := hconfirms
      refine ⟨sentAt, ⟨u, hu, Prod.ext htoken hsent⟩, ?_⟩
      change now ≤ sentAt + Managed.emailChangeWindow
      omega

/-- A flight that has seen its row goes on. -/
theorem Accepted.spec {α : Type} {p : App α} {calls : Call → Bool} {kind : MailedToken}
    {token : Nat} (h : Accepted kind token log) (hp : Makes p calls) :
    p.Spec (Heard (Answer S)) (fun _ => True) (fun _ log => Accepted kind token log) log := by
  have hkept := hp.only.meets_invariant (I := Accepted kind token)
    (fun log c r log' _ (he : Heard (Answer S) log c r log') h => by
      obtain ⟨s, s', -, rfl⟩ := he
      obtain ⟨e, he, time, hholds, now, ⟨e', he', hnow⟩, hle⟩ := h
      exact ⟨e, List.mem_append_left _ he, time, hholds, now,
        ⟨e', List.mem_append_left _ he', hnow⟩, hle⟩) h
  exact hkept.mono (fun _ _ => trivial) fun _ _ h _ _ => h

theorem accepts_verifyMagicLink (token : Nat) :
    (verifyMagicLink S token).Spec (Heard (Answer S)) (fun _ => True)
      (fun _ log => Accepted .magicLink token log) [] := by
  rw [verifyMagicLink, Fallible.spec_bind]
  rintro r _ ⟨s, s', ha, rfl⟩
  refine ⟨trivial, ?_⟩
  rintro found rfl
  rw [Fallible.spec_bind]
  cases found with
  | none => exact Fallible.spec_throw
  | some u =>
      refine Fallible.spec_pure.2 ?_
      rw [Fallible.spec_bind]
      rintro r _ ⟨s₁, s₁', ha₁, rfl⟩
      refine ⟨trivial, ?_⟩
      rintro now rfl
      have hread : s₁.now = now := by
        cases ha₁ with
        | executed he =>
            cases he
            rfl
      split
      · exact Fallible.spec_throw
      next hexpires =>
        have hfound : u ∈ s.tables.users ∧ u.magicLinkToken = some token := by
          cases ha with
          | executed he =>
              obtain ⟨hfind, -⟩ := Prod.mk.inj (Option.some.inj he)
              have hfind := Except.ok.inj hfind
              have htoken := List.find?_some hfind
              simp only [UserKey.finds, Bool.and_eq_true, beq_iff_eq] at htoken
              exact ⟨List.mem_of_find?_eq_some hfind, htoken.1⟩
        simp only [Option.all_eq_true, decide_eq_true_eq, not_forall, Int.not_lt] at hexpires
        obtain ⟨expiresAt, hsome, hle⟩ := hexpires
        have hrest : Makes (do
            let _ ← call (.updateUser (.clearMagicLink u.username))
            createSession S u.username) (Request.verifyMagicLink token).changes :=
          .bind (makes_change rfl) fun _ => (makes_createSession _).among
        refine Accepted.spec ?_ hrest
        refine ⟨_, List.mem_append_left _ (List.mem_append_right _ List.mem_cons_self), expiresAt,
          ⟨u, hfound.1, Prod.ext hfound.2 hsome⟩, now,
          ⟨_, List.mem_append_right _ List.mem_cons_self, hread⟩, ?_⟩
        exact Int.le_trans hle (Int.le_of_eq (Int.add_zero expiresAt).symm)

/-- **A request that is confirmed has seen its token in time**, but for the reset. -/
theorem accepts_respond {q : Request} {kind : MailedToken} {token : Nat}
    (h : q.confirms = some (kind, token)) (hkind : kind ≠ .passwordReset) :
    (respond S q).Spec (Heard (Answer S)) (fun _ => True)
      (fun _ log => Accepted kind token log) [] := by
  cases q with
  | verifyEmail token =>
      cases h
      exact Fallible.spec_map.2 (accepts_verifyEmail token)
  | confirmEmailChange token =>
      cases h
      exact Fallible.spec_map.2 (accepts_confirmEmailChange token)
  | verifyMagicLink token =>
      cases h
      exact Fallible.spec_map.2 (accepts_verifyMagicLink token)
  | resetPassword token password =>
      cases h
      exact absurd rfl hkind
  | _ => cases h

/-! ### Every run -/

variable {cfg cfg' : Run}

/-- A confirmation that returned success has accepted its token. -/
theorem accepted_of_done (hr : Reaches (identity S (· ≤ ·)) AnyStep cfg cfg') (hl : Launched cfg)
    {g : Flight Request Call Reply (Except ApplicationError Response) Store}
    (hg : g ∈ cfg'.flights) {kind : MailedToken} {token : Nat} {r : Response}
    (hconfirms : g.request.confirms = some (kind, token)) (hkind : kind ≠ .passwordReset)
    (hdone : g.rest = .done (.ok r)) : Accepted kind token g.log := by
  have hm : ∀ g ∈ cfg'.flights, Meets (Heard (Answer S)) (fun _ => True)
      (fun r log => ∀ kind token, g.request.confirms = some (kind, token) →
        kind ≠ .passwordReset → ∀ a, r = .ok a → Accepted kind token log) g.rest g.log := by
    refine hr.heard_of (fun _ => Heard (Answer S)) (fun _ _ => True)
      (fun q r log => ∀ kind token, q.confirms = some (kind, token) →
        kind ≠ .passwordReset → ∀ a, r = .ok a → Accepted kind token log)
      (fun s _ _ _ _ _ _ _ s' _ _ he => ⟨s, s', he, rfl⟩) (fun q => ?_) (by simp [hl.1])
    cases hq : q.confirms with
    | none => exact Meets.trivial.imp fun _ _ _ _ _ h => nomatch h
    | some confirmed =>
        obtain ⟨kind, token⟩ := confirmed
        by_cases hkind : kind = .passwordReset
        · refine Meets.trivial.imp fun _ _ _ kind' token' h hne => ?_
          cases h
          exact absurd hkind hne
        · refine Meets.imp (accepts_respond hq hkind) fun r log hlog kind' token' h _ => ?_
          cases h
          exact hlog
  have hend := hm g hg
  rw [hdone] at hend
  exact hend kind token hconfirms hkind r rfl

/-- Every token issued in a run is issued at the time its request has read. -/
theorem told_issuing (hr : Reaches (identity S (· ≤ ·)) AnyStep cfg cfg') (hl : Launched cfg) :
    ∀ f ∈ cfg'.flights, Told Issuing f.log :=
  hr.told Issuing (fun q => Meets.imp (stores_respond q).spec fun _ _ _ => trivial) hl.1

/-- A token that has been drawn has been drawn by one flight. -/
theorem drew_exclusive (hr : Reaches (identity S (· ≤ ·)) AnyStep cfg cfg') (hl : Launched cfg) :
    Exclusive (fun f token => Drew f.log token) (fun s token => token < s.drawn) cfg' := by
  refine hr.exclusive ?_ ?_ ?_ ?_
  · rintro q token ⟨e, he, -⟩
    cases he
  · intro s c r s' q next log fs i _ _ _ ha
    have hle := (answer_advances ha).2
    refine ⟨?_, fun token htaken _ => Nat.lt_of_lt_of_le htaken hle⟩
    rintro token ⟨e, he, hdrawn, hlt⟩
    rcases List.mem_append.1 he with he | he
    · exact .inl ⟨⟨e, he, hdrawn, hlt⟩, fun h => Nat.lt_of_lt_of_le h hle⟩
    · obtain rfl := List.mem_singleton.1 he
      exact .inr ⟨hdrawn ▸ Nat.lt_irrefl _, hlt⟩
  · intro s s' token hd htaken
    rw [hd.drawn]
    exact htaken
  · exact ⟨by simp [hl.1], by simp [hl.1]⟩

/-- What a row holds was put there by a call. -/
theorem issued_of_holds (hr : Reaches (identity S (· ≤ ·)) AnyStep cfg cfg') (hl : Launched cfg)
    {g : Flight Request Call Reply (Except ApplicationError Response) Store}
    (hg : g ∈ cfg'.flights) {e : Event Call Reply Store} (he : e ∈ g.log) {i : Issue}
    (hi : e.before.tables.Holds i) :
    PutBy (fun (c : Call) i => c.issues = some i) cfg'.flights i := by
  refine (hr.put (fun s i => s.tables.Holds i) (fun c i => c.issues = some i)
    (fun s c r s' i ha h => holds_answer ha h) (fun s s' i hd h => hd.tables ▸ h) hl.1
    (fun i hi => ?_)).2 g hg e he hi
  obtain ⟨-, drawn, now, hstore⟩ := hl
  rw [hstore] at hi
  obtain ⟨u, hu, -⟩ := hi
  cases hu

/-- One token is stored by one call, with one time. -/
theorem eq_of_token (hr : Reaches (identity S (· ≤ ·)) AnyStep cfg cfg') (hl : Launched cfg)
    {f f' : Flight Request Call Reply (Except ApplicationError Response) Store}
    (hf : f ∈ cfg'.flights) (hf' : f' ∈ cfg'.flights) {e e' : Event Call Reply Store}
    (he : e ∈ f.log) (he' : e' ∈ f'.log) {kind kind' : MailedToken} {token : Nat} {time time' : Int}
    (hi : e.call.issues = some ⟨kind, token, time⟩)
    (hi' : e'.call.issues = some ⟨kind', token, time'⟩) : e = e' := by
  have htold := told_issuing hr hl
  have hdrew : ∀ f ∈ cfg'.flights, ∀ e ∈ f.log, ∀ kind time,
      e.call.issues = some ⟨kind, token, time⟩ → Drew f.log token := by
    intro f hf e he kind time hi
    obtain ⟨pre, post, heq⟩ := List.append_of_mem he
    obtain ⟨e₁, he₁, hdrawn⟩ := (htold f hf pre e post heq _ hi).2.1
    exact ⟨e₁, heq ▸ List.mem_append_left _ he₁, hdrawn⟩
  obtain ⟨j, hj⟩ := List.mem_iff_getElem?.1 hf
  obtain ⟨j', hj'⟩ := List.mem_iff_getElem?.1 hf'
  obtain rfl := (drew_exclusive hr hl).unique j j' f f' token hj hj' (hdrew f hf e he _ _ hi)
    (hdrew f' hf' e' he' _ _ hi')
  obtain rfl := Option.some.inj (hj.symm.trans hj')
  exact eq_of_issuing (htold f hf) he he' (by rw [hi]; rfl) (by rw [hi']; rfl)

/-- The tokens that are not of a password reset expire. -/
theorem expires_of_ne {kind : MailedToken} (h : kind ≠ .passwordReset) :
    ExpiresWithin kind kind.lifetime := by
  intro S cfg cfg' hl hr f hf e he token time hi g hg e₀ log r hconfirms hlog hdone
  -- the row that the confirmation has seen holds the time of the call
  obtain ⟨e', he', time', hholds, now, ⟨er, her, hnow⟩, hle⟩ :=
    accepted_of_done hr hl hg hconfirms h hdone
  obtain ⟨f₁, hf₁, e₁, he₁, hi₁⟩ := issued_of_holds hr hl hg he' hholds
  obtain rfl := eq_of_token hr hl hf hf₁ he he₁ hi hi₁
  obtain rfl : time = time' := by
    have := Option.some.inj (hi.symm.trans hi₁)
    exact congrArg Issue.time this
  -- the call has read the clock before, and the confirmation not before its first call
  have hrises := fun f hf => hr.rises (μ := Store.now)
    (fun s c r s' ha => Int.le_of_eq (answer_advances ha).1.symm) (fun s s' hd => hd.now) hl.1 f hf
  obtain ⟨pre, post, heq⟩ := List.append_of_mem he
  have htold := told_issuing hr hl
  obtain ⟨-, -, sent, ⟨es, hes, hsent⟩, htime⟩ := htold f hf pre e post heq _ hi
  have hbefore : es.before.now ≤ e.before.now := by
    have hsorted := (hrises f hf).1
    rw [heq] at hsorted
    exact ((hrises f hf).2 es (heq ▸ List.mem_append_left _ hes)).1.trans
      ((List.pairwise_append.1 hsorted).2.2 es hes e List.mem_cons_self)
  have hfirst : e₀.before.now ≤ er.before.now := by
    rw [hlog] at her
    rcases List.mem_cons.1 her with rfl | her
    · exact Int.le_refl _
    · have hsorted := (hrises g hg).1
      rw [hlog] at hsorted
      exact ((hrises g hg).2 e₀ (hlog ▸ List.mem_cons_self)).1.trans
        ((List.pairwise_cons.1 hsorted).1 er her)
  have hlifetime : kind.lifetime = kind.offset + kind.window := rfl
  dsimp only at htime
  omega

/-! ### The password reset -/

/-- The flights after a call of the last one. -/
theorem step_last {fs : List (Flight Request Call Reply (Except ApplicationError Response) Store)}
    {s s' : Store} {q : Request} {c : Call} {log : Log} {r : Reply c}
    {next : Reply c → Program Call Reply (Except ApplicationError Response)}
    (ha : Answer S s c r s') :
    Step (identity S (· ≤ ·)) AnyStep ⟨s, fs ++ [⟨q, .call c next, log⟩]⟩
      ⟨s', fs ++ [⟨q, next r, log ++ [⟨s, c, r, s'⟩]⟩]⟩ := by
  have hi : (fs ++ [(⟨q, .call c next, log⟩ : Flight _ _ _ _ _)])[fs.length]? =
      some ⟨q, .call c next, log⟩ := by
    rw [List.getElem?_append_right (Nat.le_refl _), Nat.sub_self, List.getElem?_cons_zero]
  have hstep : Step (identity S (· ≤ ·)) AnyStep ⟨s, _⟩ ⟨s', _⟩ := .call hi trivial ha
  rwa [List.set_append_right _ _ (Nat.le_refl _), Nat.sub_self, List.set_cons_zero] at hstep

/-- A reset that has been asked for is accepted however late. -/
theorem reset_accepted {token : Nat} {u : User}
    (hfind : (cfg.store.tables.users.find? fun u => (UserKey.resetToken token).finds u) = some u)
    {later : Int} (hlater : cfg.store.now ≤ later) :
    ∃ cfg', Reaches (identity plainSettings (· ≤ ·)) AnyStep cfg cfg' ∧
      (∀ f ∈ cfg.flights, f ∈ cfg'.flights) ∧
      ∃ g ∈ cfg'.flights, ∃ e₀ log r, g.request.confirms = some (.passwordReset, token) ∧
        g.log = e₀ :: log ∧ g.rest = .done (.ok r) ∧ e₀.before.now = later := by
  obtain ⟨s, fs⟩ := cfg
  let s₁ : Store := { s with now := later }
  let q : Request := .resetPassword token "changed"
  have hdrift : Step (identity plainSettings (· ≤ ·)) AnyStep ⟨s, fs⟩ ⟨s₁, fs⟩ :=
    .drift fs ⟨rfl, rfl, rfl, rfl, List.Sublist.refl _, rfl, rfl, hlater⟩
  have hfound : Answer plainSettings s₁ (.findUser (.resetToken token)) (.ok (some u)) s₁ :=
    .executed (by rw [execute, hfind])
  have hreset : Answer plainSettings s₁ (.updateUser (.resetPassword u.username "changed")) _ _ :=
    .executed rfl
  refine ⟨_, .tail (.tail (.tail (.single hdrift) (.arrive s₁ fs q)) (step_last hfound))
    (step_last hreset), fun f hf => List.mem_append_left _ hf, _,
    List.mem_append_right _ List.mem_cons_self, ?_⟩
  exact ⟨_, _, _, rfl, rfl, rfl, rfl⟩

/-- An account is registered and its password forgotten. -/
def resetAsked : Schedule :=
  serveAt 0 (.register "alice" "secret") 3 ++ serveAt 1 (.forgotPassword "alice") 4

/-- In some run a reset is asked for and its token is still stored. -/
theorem exists_resetAsked : ∃ cfg : Run,
    Reaches (identity plainSettings (· ≤ ·)) AnyStep fresh cfg ∧
      (∃ f ∈ cfg.flights, ∃ e ∈ f.log, e.call.issues = some ⟨.passwordReset, 2, 0⟩) ∧
      ∃ u, (cfg.store.tables.users.find? fun u => (UserKey.resetToken 2).finds u) = some u := by
  have hplay : (((identityMachine plainSettings).play (fun _ _ => true) fresh resetAsked).any
      fun cfg => (cfg.flights.any fun f => f.log.any fun e =>
          decide (e.call.issues = some ⟨.passwordReset, 2, 0⟩)) &&
        (cfg.store.tables.users.find? fun u => (UserKey.resetToken 2).finds u).isSome) = true := by
    decide +kernel
  obtain ⟨cfg, hr, hcheck⟩ := Machine.exists_of_play AnyStep (fun _ _ _ => trivial) hplay
  rw [Bool.and_eq_true, List.any_eq_true] at hcheck
  obtain ⟨⟨f, hf, hevent⟩, hfound⟩ := hcheck
  obtain ⟨e, he, hi⟩ := List.any_eq_true.1 hevent
  exact ⟨cfg, hr, ⟨f, hf, e, he, of_decide_eq_true hi⟩, Option.isSome_iff_exists.1 hfound⟩

/-- The token of a password reset never expires. -/
theorem not_expires_passwordReset (lifetime : Int) : ¬ExpiresWithin .passwordReset lifetime := by
  intro h
  obtain ⟨cfg, hr, ⟨f, hf, e, he, hi⟩, u, hfind⟩ := exists_resetAsked
  -- later than the lifetime after the token was stored
  obtain ⟨cfg', hr', hkept, g, hg, e₀, log, r, hconfirms, hlog, hdone, hlater⟩ :=
    reset_accepted hfind (Int.le_max_left cfg.store.now (e.before.now + lifetime + 1))
  have hle := h plainSettings fresh cfg' launched_fresh (hr.trans hr') f (hkept f hf) e he _ _ hi
    g hg e₀ log r hconfirms hlog hdone
  rw [hlater] at hle
  have := Int.le_max_right cfg.store.now (e.before.now + lifetime + 1)
  omega

/-- **A mailed token expires exactly when it is not a password reset.** -/
theorem mailed_token_expires_iff (kind : MailedToken) :
    (∃ lifetime, ExpiresWithin kind lifetime) ↔ kind ≠ .passwordReset := by
  constructor
  · rintro ⟨lifetime, h⟩ rfl
    exact not_expires_passwordReset lifetime h
  · exact fun h => ⟨kind.lifetime, expires_of_ne h⟩

/-- No lifetime bounds the password reset. -/
theorem password_reset_never_expires : ¬∃ lifetime, ExpiresWithin .passwordReset lifetime :=
  fun ⟨lifetime, h⟩ => not_expires_passwordReset lifetime h

end Service
end Identity
end Hegira
