/-
# How long a session lasts, and whose it is

A token of a session is given out by one call (`Call.grants`), whose flight has drawn
the token and read the clock for the times of the row (`Backed`).  So a session that is
found is within `token_lifetime` of the call that gave its token out, and within
`sliding_ttl` of the last call that used it (`session_lifetime`); a token that has no
unexpired row left, after a logout, a rotation or its expiry, has none ever after
(`ended_session_stays_ended`); and a token is always of one session of one account
(`session_keeps_account`).
-/

import Mathlib.Data.List.Basic
import Hegira.Identity.SessionRows
import Hegira.Identity.TokenExpiry
import Hegira.Library.Origins

namespace Hegira
namespace Identity
namespace Service

variable {S : Settings} {log : Log}

/-! ### How a token is given out -/

/-- What the log tells stays told. -/
theorem Drew.append {token : Nat} (h : Drew log token) (post : Log) : Drew (log ++ post) token := by
  obtain ⟨e, he, hdrew⟩ := h
  exact ⟨e, List.mem_append_left _ he, hdrew⟩

theorem Read.append {now : Int} (h : Read log now) (post : Log) : Read (log ++ post) now := by
  obtain ⟨e, he, hread⟩ := h
  exact ⟨e, List.mem_append_left _ he, hread⟩

/-- The flight has drawn the token, and its times are of its readings of the clock. -/
structure Backed (S : Settings) (g : Grant) (log : Log) : Prop where
  drew : Drew log g.token
  bounded : ∃ now, Read log now ∧ g.maxExpiresAt = now + S.tokenLifetime
  sliding : ∃ now, Read log now ∧ g.expiresAt = min (now + S.slidingTtl) g.maxExpiresAt

theorem Backed.append {g : Grant} (h : Backed S g log) (post : Log) : Backed S g (log ++ post) := by
  obtain ⟨now, hnow, hmax⟩ := h.bounded
  obtain ⟨now', hnow', hexpires⟩ := h.sliding
  exact ⟨h.drew.append post, ⟨now, hnow.append post, hmax⟩, ⟨now', hnow'.append post, hexpires⟩⟩

/-- What is left of a flight gives out one token at most. -/
abbrev GrantsOnce {α : Type} (S : Settings) (p : App α) (log : Log) : Prop :=
  PutsOnce (Answer S) Call.grants (Backed S) p log

/-- A harmless call grants no session. -/
theorem grants_of_harmless {c : Call} (h : c.harmless = true) : c.grants = none := by
  cases c <;> first | rfl | cases h

section Parts

variable {α β : Type} {p : App β} {f : β → App α}

/-- The call that gives the token out. -/
theorem grants_call {c : Call} (hlog : Quiet Call.grants log)
    (h : ∀ g, c.grants = some g → Backed S g log) : GrantsOnce S (call c) log :=
  ⟨fun _ _ _ => ⟨fun g hg => ⟨hlog, h g hg⟩, fun _ _ => trivial⟩⟩

/-- A part that gives no token out, and then the rest. -/
theorem Makes.then_grants {calls : Call → Bool} (hp : Makes p calls)
    (hcalls : ∀ c, calls c = true → c.grants = none) (hlog : Quiet Call.grants log)
    (hf : ∀ b log', Quiet Call.grants log' → GrantsOnce S (f b) log') :
    GrantsOnce S (p >>= f) log :=
  Fallible.Makes.then_puts hp (fun c hc => hc.elim grants_of_harmless (hcalls c)) hlog hf

/-- A part that changes nothing, and then the rest. -/
theorem still_then_grants (hp : Makes p fun _ => false) (hlog : Quiet Call.grants log)
    (hf : ∀ b log', Quiet Call.grants log' → GrantsOnce S (f b) log') :
    GrantsOnce S (p >>= f) log :=
  hp.then_grants (fun _ h => nomatch h) hlog hf

/-- A call that gives no token out, and then the rest. -/
theorem call_then_grants {c : Call} {f : c.Value → App α} (hc : c.grants = none)
    (hlog : Quiet Call.grants log)
    (hf : ∀ b log', Quiet Call.grants log' → GrantsOnce S (f b) log') :
    GrantsOnce S (call c >>= f) log := by
  have hmakes : Fallible.Makes (call c) (· = c) := ⟨⟨rfl, fun _ => trivial⟩⟩
  exact hmakes.then_puts (fun c' hc' => hc' ▸ hc) hlog hf

/-- A token is drawn, and the clock is read for its times. -/
theorem grants_granting {subject : String} {f : Nat → Int → Int → App α}
    (hlog : Quiet Call.grants log) (hf : ∀ g log', Quiet Call.grants log' → Backed S g log' →
      GrantsOnce S (f g.token g.maxExpiresAt g.expiresAt) log') :
    GrantsOnce S (do
      let token ← call (.createToken subject)
      let maxExpiresAt ← tokenExpiry S
      let expiresAt ← nextSessionExpiresAt S maxExpiresAt
      f token maxExpiresAt expiresAt) log := by
  have hnow : ∀ {s s' : Store} {now : Int}, Answer S s .now (.ok now) s' → s.now = now := by
    intro s s' now ha
    cases ha with
    | executed he =>
        cases he
        rfl
  refine ⟨?_⟩
  rw [Fallible.spec_bind]
  rintro r _ ⟨s, s', ha, rfl⟩
  refine ⟨once_of_none rfl, ?_⟩
  rintro token rfl
  rw [Fallible.spec_bind, tokenExpiry, Fallible.spec_bind]
  rintro r _ ⟨s₁, s₁', ha₁, rfl⟩
  refine ⟨once_of_none rfl, ?_⟩
  rintro now rfl
  rw [Fallible.spec_pure, Fallible.spec_bind, nextSessionExpiresAt, Fallible.spec_bind]
  rintro r _ ⟨s₂, s₂', ha₂, rfl⟩
  refine ⟨once_of_none rfl, ?_⟩
  rintro now' rfl
  rw [Fallible.spec_pure]
  have hdrew : s.drawn = token ∧ token < s'.drawn := by
    cases ha with
    | executed he =>
        cases he
        exact ⟨rfl, Nat.lt_succ_self _⟩
  refine (hf ⟨token, _, _⟩ _ (((hlog.concat rfl).concat rfl).concat rfl) ⟨?_, ?_, ?_⟩).spec
  · exact Drew.append (Drew.append ⟨_, List.mem_append_right _ List.mem_cons_self, hdrew⟩ _) _
  · exact ⟨now, Read.append ⟨_, List.mem_append_right _ List.mem_cons_self, hnow ha₁⟩ _, rfl⟩
  · exact ⟨now', ⟨_, List.mem_append_right _ List.mem_cons_self, hnow ha₂⟩, rfl⟩

end Parts

/-- Creating a session grants one, backed by what the request has done before. -/
theorem grants_createSession (username : String) (hlog : Quiet Call.grants log) :
    GrantsOnce S (createSession S username) log := by
  refine grants_granting hlog fun g log hlog hg => PutsOnce.bind ?_ fun _ _ => .pure
  unfold insertSessionRow
  cases S.backend with
  | sqlite =>
      refine grants_call hlog fun g' hg' => ?_
      cases hg'
      exact hg
  | postgres =>
      refine ⟨?_⟩
      rw [Fallible.spec_bind]
      rintro r _ ⟨s, s', -, rfl⟩
      refine ⟨once_of_none rfl, fun userId _ => (grants_call (hlog.concat rfl) ?_).spec⟩
      intro g' hg'
      cases hg'
      exact hg.append _

/-- The user is changed, and nothing else. -/
def Call.updatesUser (c : Call) : Bool := c matches .updateUser _

/-- Updating a user grants none. -/
theorem grants_of_updatesUser {c : Call} (h : c.updatesUser = true) : c.grants = none := by
  cases c <;> first | rfl | cases h

/-- Asking for a second factor grants none. -/
theorem grants_requireTotp (username : String) : GrantsOnce S (requireTotp username) log :=
  Fallible.Makes.putsOnce (makes_requireTotp username fun _ _ => rfl : Makes _ Call.updatesUser)
    fun _ hc => hc.elim grants_of_harmless grants_of_updatesUser

/-- Each request that signs in grants at most one session. -/
theorem grants_verifyMagicLink (token : Nat) : GrantsOnce S (verifyMagicLink S token) [] :=
  call_then_grants rfl quiet_nil fun _ _ hlog =>
    still_then_grants makes_okOr hlog fun _ _ hlog =>
      call_then_grants rfl hlog fun _ _ hlog => .ite .throw <|
        call_then_grants rfl hlog fun _ _ hlog => grants_createSession _ hlog

theorem grants_login (username password : String) :
    GrantsOnce S (login S username password) [] :=
  .ite .throw <| still_then_grants (makes_userNamed _) quiet_nil fun _ _ hlog =>
    still_then_grants (makes_checkPassword _ _) hlog fun _ _ hlog =>
      still_then_grants (makes_secondFactorEnabled _) hlog fun _ _ hlog =>
        .ite (grants_requireTotp _) <| (grants_createSession _ hlog).bind fun _ _ => .pure

theorem grants_verifyTotpLogin (totpToken : Nat) (code : Code) :
    GrantsOnce S (verifyTotpLogin S totpToken code) [] := by
  refine call_then_grants rfl quiet_nil fun _ _ hlog => ?_
  refine still_then_grants makes_okOr hlog fun credential _ hlog => ?_
  refine Makes.then_grants (makes_verifyTotpOrBackupCode credential code fun _ _ _ => rfl :
    Makes _ Call.updatesUser) (fun _ => grants_of_updatesUser) hlog fun _ _ hlog => ?_
  exact .ite .throw <| call_then_grants rfl hlog fun _ _ hlog =>
    .ite .throw (grants_createSession _ hlog)

theorem grants_renewSession (token : Nat) : GrantsOnce S (renewSession S token) [] := by
  refine call_then_grants rfl quiet_nil fun _ _ hlog => ?_
  refine call_then_grants rfl hlog fun _ _ hlog => .ite .throw ?_
  refine grants_granting hlog fun g log hlog hg => PutsOnce.bind ?_ fun _ _ => .ite .throw .pure
  refine grants_call hlog fun g' hg' => ?_
  cases hg'
  exact hg

theorem grants_callback (provider code : String) (state : Nat) :
    GrantsOnce S (callback S provider code state) [] := by
  refine still_then_grants .liftExcept quiet_nil fun provider' log hlog => ?_
  refine still_then_grants .liftExcept hlog fun _ _ hlog => .ite .throw ?_
  refine call_then_grants rfl hlog fun _ _ hlog => ?_
  refine call_then_grants rfl hlog fun _ _ hlog => ?_
  refine still_then_grants makes_okOr hlog fun _ _ hlog => .ite .throw ?_
  refine call_then_grants rfl hlog fun _ _ hlog => .ite ?_ ?_
  · exact still_then_grants makes_okOr hlog fun _ _ hlog =>
      call_then_grants rfl hlog fun _ _ _ => .pure
  · refine call_then_grants rfl hlog fun user _ hlog => ?_
    cases user with
    | none =>
        exact call_then_grants rfl hlog fun _ _ hlog =>
          call_then_grants rfl hlog fun _ _ hlog =>
            call_then_grants rfl hlog fun _ _ _ => .pure
    | some username =>
        exact still_then_grants (makes_secondFactorEnabled _) hlog fun _ _ hlog =>
          .ite ((grants_requireTotp _).bind fun _ _ => .pure)
            ((grants_createSession _ hlog).bind fun _ _ => .pure)

theorem grants_completeOAuthSignup (signupToken : Nat) (username : String) :
    GrantsOnce S (completeOAuthSignup S signupToken username) [] := by
  refine still_then_grants .liftExcept quiet_nil fun _ _ hlog => ?_
  refine call_then_grants rfl hlog fun _ _ hlog => ?_
  refine still_then_grants .liftExcept hlog fun _ _ hlog => ?_
  refine call_then_grants rfl hlog fun _ _ hlog => ?_
  refine call_then_grants rfl hlog fun _ _ hlog => .ite .throw ?_
  exact (grants_createSession _ hlog).bind fun _ _ => .pure

/-- The request may give out a token of a session. -/
def Request.opensSession (q : Request) : Bool :=
  q matches .verifyMagicLink _ | .login .. | .verifyTotpLogin .. | .renewSession _ |
    .callback .. | .completeOAuthSignup ..

/-- The other requests grant none. -/
theorem grants_of_changes {q : Request} {c : Call} (hq : q.opensSession = false)
    (hc : q.changes c = true) : c.grants = none := by
  cases c with
  | insertSession token username expiresAt maxExpiresAt
  | insertSessionOf token userId expiresAt maxExpiresAt
  | updateSessionToken old token expiresAt maxExpiresAt =>
      cases q <;> first | (cases hq; done) | cases hc
  | _ => rfl

/-- **Every request gives out one token at most, and one that it has drawn.** -/
theorem grants_respond (q : Request) : GrantsOnce S (respond S q) [] := by
  by_cases hq : q.opensSession = true
  · cases q with
    | verifyMagicLink token => exact (grants_verifyMagicLink token).map
    | login username password => exact (grants_login username password).map
    | verifyTotpLogin totpToken code => exact (grants_verifyTotpLogin totpToken code).map
    | renewSession token => exact (grants_renewSession token).map
    | callback provider code state => exact (grants_callback provider code state).map
    | completeOAuthSignup signupToken username =>
        exact (grants_completeOAuthSignup signupToken username).map
    | _ => cases hq
  · exact Fallible.Makes.putsOnce (makes_respond q)
      fun c hc => hc.elim grants_of_harmless (grants_of_changes (by simpa using hq))

/-! ### How a session is prolonged -/

/-- A session is prolonged to a time within `sliding_ttl` of a reading of the clock. -/
def Prolonging (S : Settings) (e : Event Call Reply Log) : Prop :=
  ∀ token expiresAt, e.call = .refreshSession token expiresAt →
    ∃ now, Read e.before now ∧ expiresAt ≤ now + S.slidingTtl

/-- The program prolongs sessions as it should. -/
structure Prolongs {α : Type} (S : Settings) (p : App α) : Prop where
  spec : ∀ log, p.Spec (Heard (Answer S)) (Prolonging S) (fun _ _ => True) log

section Prolonging

variable {α β : Type}

/-- Both parts of a sequence prolong sessions as they should. -/
theorem Prolongs.bind {p : App β} {f : β → App α} (hp : Prolongs S p)
    (hf : ∀ b, Prolongs S (f b)) : Prolongs S (p >>= f) :=
  ⟨fun log => Fallible.spec_bind.2 ((hp.spec log).imp fun b log' _ => (hf b).spec log')⟩

/-- A function of the result changes nothing about that. -/
theorem Prolongs.map {p : App β} {f : β → α} (hp : Prolongs S p) : Prolongs S (f <$> p) :=
  ⟨fun log => Fallible.spec_map.2 (hp.spec log)⟩

/-- A program without refreshing calls prolongs nothing. -/
theorem Makes.prolongs {p : App α} {calls : Call → Bool} (hp : Makes p calls)
    (hcalls : ∀ c, calls c = true → c.refreshes = false) : Prolongs S p := by
  refine ⟨fun log => Meets.imp (hp.only.meets ?_ log) fun _ _ _ _ _ => trivial⟩
  rintro log c r log' hc - token expiresAt rfl
  rcases hc with hc | hc
  · cases hc
  · cases hcalls _ hc

end Prolonging

/-- The lookup prolongs the session from the clock it has read. -/
theorem prolongs_currentUser (token : Nat) : Prolongs S (currentUser S token) := by
  have hstill : ∀ {α : Type} {p : App α}, (Makes p fun _ => false) → Prolongs S p :=
    fun hp => hp.prolongs fun _ h => nomatch h
  have hrefresh : ∀ session, Prolongs S (refreshSessionIfNeeded S session) := by
    refine fun session => (hstill (makes_call rfl)).bind fun now => ?_
    dsimp only
    split
    · exact hstill .pure
    · refine ⟨fun log => ?_⟩
      rw [Fallible.spec_bind, nextSessionExpiresAt, Fallible.spec_bind]
      rintro r _ ⟨s, s', ha, rfl⟩
      refine ⟨fun _ _ h => (nomatch h), ?_⟩
      rintro now' rfl
      rw [Fallible.spec_pure, Fallible.spec_bind]
      rintro r _ ⟨s₁, s₁', -, rfl⟩
      refine ⟨?_, fun _ _ => Fallible.spec_pure.2 trivial⟩
      rintro _ _ ⟨⟩
      refine ⟨now', ⟨_, List.mem_append_right _ List.mem_cons_self, ?_⟩, Int.min_le_left _ _⟩
      cases ha with
      | executed he =>
          cases he
          rfl
  refine (hstill (makes_call rfl)).bind fun username => (hstill (makes_call rfl)).bind fun found =>
    (hstill makes_okOr).bind fun session => (hstill (makes_call rfl)).bind fun user => ?_
  dsimp only
  split
  · exact hstill .throw
  · exact (hrefresh session).bind fun _ => (hstill (makes_call rfl)).bind fun _ => hstill .pure

/-- The call prolongs no session. -/
def Call.unprolonging (c : Call) : Bool := !c.refreshes

/-- The other calls prolong nothing. -/
theorem Makes.unprolonging {α : Type} {p : App α} (hp : Makes p Call.unprolonging) :
    Prolongs S p :=
  hp.prolongs fun c hc => by
    rw [Call.unprolonging, Bool.not_eq_true'] at hc
    exact hc

/-- What follows the look-up of the actor prolongs no session. -/
theorem actor_prolongs {α : Type} (token : Nat) {f : CurrentUserDto → App α}
    (hf : ∀ current, Makes (f current) Call.unprolonging) :
    Prolongs S (currentUser S token >>= f) :=
  (prolongs_currentUser token).bind fun current => (hf current).unprolonging

/-- The requests of a signed-in user prolong a session by their lookup only. -/
theorem prolongs_resendVerification (actorToken : Nat) :
    Prolongs S (resendVerification S actorToken) :=
  actor_prolongs actorToken fun _ => .bind (makes_userNamed _) fun _ => .ite .pure <|
    .bind (makes_call rfl) fun _ => .bind (makes_call rfl) fun _ => makes_storeAndMail rfl rfl

theorem prolongs_deleteAccount (actorToken : Nat) (password : String) :
    Prolongs S (deleteAccount S actorToken password) :=
  actor_prolongs actorToken fun _ => .ite .throw <| .bind (makes_userNamed _) fun _ =>
    .bind (makes_checkPassword _ _) fun _ => .bind (makes_call rfl) fun sessions =>
      .bind (makes_managedFlag rfl) fun _ =>
        .ite .throw (makes_deleteSessions _ sessions fun _ => rfl)

theorem prolongs_changePassword (actorToken : Nat) (currentPassword newPassword : String) :
    Prolongs S (changePassword S actorToken currentPassword newPassword) :=
  Prolongs.bind (Makes.unprolonging .liftExcept) fun _ =>
    actor_prolongs actorToken fun _ => .bind (makes_userNamed _) fun _ =>
      .bind (makes_checkPassword _ _) fun _ => .bind .liftExcept fun _ =>
        .bind (makes_change rfl) fun _ => .pure

theorem prolongs_requestEmailChange (actorToken : Nat) (newEmail password : String) :
    Prolongs S (requestEmailChange S actorToken newEmail password) :=
  Prolongs.bind (Makes.unprolonging .liftExcept) fun _ =>
    actor_prolongs actorToken fun _ => .bind (makes_userNamed _) fun _ =>
      .bind (makes_checkPassword _ _) fun _ => .bind (makes_call rfl) fun _ =>
        .bind (makes_call rfl) fun _ => .bind (makes_managedFlag rfl) fun _ =>
          .ite .throw (.ite .pure (makes_call rfl))

theorem prolongs_setupTotp (actorToken : Nat) : Prolongs S (setupTotp S actorToken) :=
  actor_prolongs actorToken fun _ => .bind (makes_call rfl) fun _ =>
    .bind (makes_change rfl) fun _ => .ite .throw .pure

theorem prolongs_enableTotp (actorToken : Nat) (code : Code) :
    Prolongs S (enableTotp S actorToken code) :=
  actor_prolongs actorToken fun _ => .bind (makes_call rfl) fun _ => .bind makes_okOr fun _ =>
    .bind (makes_verifyTotpCode _ _ _) fun _ => .ite .throw <|
      .bind (makes_generateBackupCodes _) fun _ => .bind (makes_call rfl) fun _ =>
        .bind (makes_change rfl) fun _ => .ite .throw .pure

theorem prolongs_disableTotp (actorToken : Nat) (code : Code) :
    Prolongs S (disableTotp S actorToken code) :=
  actor_prolongs actorToken fun _ => .bind (makes_call rfl) fun _ => .bind makes_okOr fun _ =>
    .bind (makes_verifyTotpOrBackupCode _ _ fun _ _ _ => rfl) fun _ => .ite .throw <|
      .bind (makes_change rfl) fun _ => .ite .throw .pure

theorem prolongs_regenerateTotpBackupCodes (actorToken : Nat) (code : Code) :
    Prolongs S (regenerateTotpBackupCodes S actorToken code) :=
  actor_prolongs actorToken fun _ => .bind (makes_call rfl) fun _ => .bind makes_okOr fun _ =>
    .bind (makes_verifyTotpOrBackupCode _ _ fun _ _ _ => rfl) fun _ => .ite .throw <|
      .bind (makes_generateBackupCodes _) fun _ => .bind (makes_change rfl) fun _ => .pure

theorem prolongs_listSessionsOf (actorToken : Nat) : Prolongs S (listSessionsOf S actorToken) :=
  actor_prolongs actorToken fun _ => makes_call rfl

theorem prolongs_revokeSession (actorToken sessionId : Nat) :
    Prolongs S (revokeSession S actorToken sessionId) :=
  actor_prolongs actorToken fun _ => .bind (makes_change rfl) fun _ => .ite .throw .pure

theorem prolongs_totpStatus (actorToken : Nat) : Prolongs S (totpStatus S actorToken) :=
  actor_prolongs actorToken fun _ => makes_secondFactorEnabled _

/-- **Every request prolongs sessions as it should.** -/
theorem prolongs_respond (q : Request) : Prolongs S (respond S q) := by
  cases q with
  | resendVerification actorToken => exact (prolongs_resendVerification actorToken).map
  | deleteAccount actorToken password => exact (prolongs_deleteAccount actorToken password).map
  | changePassword actorToken current new =>
      exact (prolongs_changePassword actorToken current new).map
  | requestEmailChange actorToken newEmail password =>
      exact (prolongs_requestEmailChange actorToken newEmail password).map
  | setupTotp actorToken => exact (prolongs_setupTotp actorToken).map
  | enableTotp actorToken code => exact (prolongs_enableTotp actorToken code).map
  | disableTotp actorToken code => exact (prolongs_disableTotp actorToken code).map
  | regenerateTotpBackupCodes actorToken code =>
      exact (prolongs_regenerateTotpBackupCodes actorToken code).map
  | listSessions actorToken => exact (prolongs_listSessionsOf actorToken).map
  | revokeSession actorToken sessionId => exact (prolongs_revokeSession actorToken sessionId).map
  | totpStatus actorToken => exact (prolongs_totpStatus actorToken).map
  | currentUser token => exact (prolongs_currentUser token).map
  | _ =>
      refine (makes_respond _).prolongs fun c hc => ?_
      cases c <;> first | rfl | cases hc

/-! ### Every run -/

variable {cfg cfg' cfg'' : Run} {token : Nat}

/-- Every session granted in a run is backed by its request. -/
theorem told_backed (hl : Launched cfg) (hr : Reaches (identity S (· ≤ ·)) AnyStep cfg cfg') :
    ∀ f ∈ cfg'.flights, Told (Once Call.grants (Backed S)) f.log :=
  hr.told _ (fun q => Meets.imp (grants_respond q).spec fun _ _ _ => trivial) hl.1

/-- Every prolongation in a run is within `sliding_ttl` of a clock reading. -/
theorem told_prolonging (hl : Launched cfg)
    (hr : Reaches (identity S (· ≤ ·)) AnyStep cfg cfg') :
    ∀ f ∈ cfg'.flights, Told (Prolonging S) f.log :=
  hr.told _ (fun q => Meets.imp ((prolongs_respond q).spec []) fun _ _ _ => trivial) hl.1

/-- **A token is given out once, by the flight that has drawn it.** -/
theorem sole_grants (hl : Launched cfg) :
    Sole (identity S (· ≤ ·)) AnyStep cfg Call.grants Grant.token Drew where
  told hr f hf pre e post heq g hg :=
    let ⟨hquiet, hbacked⟩ := told_backed hl hr f hf pre e post heq g hg
    ⟨hquiet, hbacked.drew⟩
  unique hr i j f g n hi hj hf hg := (drew_exclusive hr hl).unique i j f g n hi hj hf hg
  keeps h := h.append _

/-- The call gives the token out. -/
abbrev Call.grantsToken (c : Call) (token : Nat) : Prop := PutsName Call.grants Grant.token c token

/-- `find_by_token`, `exists`, `update_token` and `refresh` select a row of the token. -/
def Open (s : Store) (token : Nat) : Prop :=
  ∃ row ∈ s.tables.sessions, row.token = token ∧ unexpired s.now row = true

/-- A session that is found has an unexpired row and a user. -/
theorem exists_of_findSession {s : Store} {session : Session}
    (h : findSession s.tables s.now token = some session) : ∃ row ∈ s.tables.sessions,
      row.token = token ∧ unexpired s.now row = true ∧
        ∃ u ∈ s.tables.users, u.id = row.userId ∧ u.live = true ∧ session = sessionOf row u := by
  obtain ⟨row, hrow, hjoin⟩ := Option.bind_eq_some_iff.1 h
  obtain ⟨u, hu, rfl⟩ := Option.map_eq_some_iff.1 hjoin
  have hselects := List.find?_some hrow
  have huser := List.find?_some hu
  simp only [Bool.and_eq_true, beq_iff_eq] at hselects huser
  exact ⟨row, List.mem_of_find?_eq_some hrow, hselects.1, hselects.2, u,
    List.mem_of_find?_eq_some hu, huser.1, huser.2, rfl⟩

/-- A call that does not give the token out does not open a session under it. -/
theorem open_of_answer {s s' : Store} {c : Call} {r : Reply c} (ha : Answer S s c r s')
    (hc : ¬c.grantsToken token) (h : Open s' token) : Open s token := by
  obtain ⟨row, hrow, htoken, hlive⟩ := h
  rw [(answer_advances ha).1] at hlive
  cases comes_answer ha row hrow with
  | kept hkept => exact ⟨row, hkept, htoken, hlive⟩
  | refreshed hkept hlive' => exact ⟨_, hkept, htoken, hlive'⟩
  | renewed hkept hlive' => exact absurd ⟨_, rfl, htoken⟩ hc
  | inserted hg hu hdrawn => exact absurd ⟨_, hg, htoken⟩ hc

/-- **A session that has ended stays ended.**  A token that has been given out and has no
unexpired row is not accepted again, whatever ended it. -/
theorem ended_session_stays_ended (hl : Launched cfg)
    (hr : Reaches (identity S (· ≤ ·)) AnyStep cfg cfg')
    (hr' : Reaches (identity S (· ≤ ·)) AnyStep cfg' cfg'')
    (hgranted : PutBy Call.grantsToken cfg'.flights token) (hended : ¬Open cfg'.store token) :
    ¬Open cfg''.store token ∧ findSession cfg''.store.tables cfg''.store.now token = none := by
  have hnever : ¬Open cfg''.store token := by
    refine (sole_grants hl).since_put (I := fun s => ¬Open s token) hr hr' hgranted ?_ ?_ hended
    · exact fun s c r s' hI hn ha h => hI (open_of_answer ha hn h)
    · rintro s s' hI hd ⟨row, hrow, htoken, hlive⟩
      rw [hd.tables] at hrow
      refine hI ⟨row, hrow, htoken, ?_⟩
      have hnow : s.now ≤ s'.now := hd.now
      simp only [unexpired, Bool.and_eq_true, decide_eq_true_eq] at hlive ⊢
      omega
  refine ⟨hnever, Option.eq_none_iff_forall_ne_some.2 fun session hfound => hnever ?_⟩
  obtain ⟨row, hrow, htoken, hlive, -⟩ := exists_of_findSession hfound
  exact ⟨row, hrow, htoken, hlive⟩

/-- An account is registered, and signs in. -/
def signedIn : Schedule :=
  serveAt 0 (.register "alice" "secret") 3 ++ serveAt 1 (.login "alice" "secret") 6

/-- A session is signed out of, and nothing signs into it again. -/
theorem signed_out_stays_ended : ∃ cfg' : Run,
    (∃ f ∈ cfg'.flights, ∃ e ∈ f.log, e.call.grantsToken 2) ∧
      ∀ cfg'', Reaches (identity plainSettings (· ≤ ·)) AnyStep cfg' cfg'' →
        ¬Open cfg''.store 2 ∧ findSession cfg''.store.tables cfg''.store.now 2 = none := by
  have hplay : (((identityMachine plainSettings).play (fun _ _ => true) fresh
      (signedIn ++ serveAt 2 (.logout 2) 2)).any fun cfg =>
        (cfg.flights.any fun f => f.log.any fun e => (e.call.grants.map Grant.token) == some 2) &&
          cfg.store.tables.sessions.isEmpty) = true := by
    decide +kernel
  obtain ⟨cfg', hr, hcheck⟩ := Machine.exists_of_play AnyStep (fun _ _ _ => trivial) hplay
  obtain ⟨hgranted, hempty⟩ := Bool.and_eq_true_iff.1 hcheck
  obtain ⟨f, hf, hevent⟩ := List.any_eq_true.1 hgranted
  obtain ⟨e, he, hgrants⟩ := List.any_eq_true.1 hevent
  obtain ⟨g, hg, htoken⟩ := Option.map_eq_some_iff.1 (eq_of_beq hgrants)
  have hput : ∃ f ∈ cfg'.flights, ∃ e ∈ f.log, e.call.grantsToken 2 := ⟨f, hf, e, he, g, hg, htoken⟩
  refine ⟨cfg', hput, fun cfg'' hr' => ended_session_stays_ended launched_fresh hr hr' hput ?_⟩
  rintro ⟨row, hrow, -⟩
  rw [List.isEmpty_iff.1 hempty] at hrow
  cases hrow

/-- What the calls have put into the sessions, told by the rows. -/
theorem put_of_sessions {ν : Type} (hl : Launched cfg)
    (hr : Reaches (identity S (· ≤ ·)) AnyStep cfg cfg') (P : SessionRow → ν → Prop)
    (put : Call → ν → Prop) (hcomes : ∀ s s' c row n, Comes s s' c row → P row n →
      (∃ row ∈ s.tables.sessions, P row n) ∨ put c n) {row : SessionRow} {n : ν}
    (hrow : row ∈ cfg'.store.tables.sessions) (hn : P row n) : PutBy put cfg'.flights n := by
  refine (Reaches.put hr (fun s n => ∃ row ∈ s.tables.sessions, P row n) put ?_ ?_ hl.1 ?_).1
    ⟨row, hrow, hn⟩
  · rintro s c r s' n ha ⟨row, hrow, hn⟩
    exact hcomes s s' c row n (comes_answer ha row hrow) hn
  · rintro s s' n hd ⟨row, hrow, hn⟩
    exact ⟨row, hd.tables ▸ hrow, hn⟩
  · rintro n ⟨row, hrow, -⟩
    obtain ⟨-, drawn, now, hstore⟩ := hl
    rw [hstore] at hrow
    cases hrow

/-- What a flight has seen lies in the past. -/
theorem past_le (hl : Launched cfg) (hr : Reaches (identity S (· ≤ ·)) AnyStep cfg cfg')
    {f : Flight Request Call Reply (Except ApplicationError Response) Store}
    (hf : f ∈ cfg'.flights) {e : Event Call Reply Store} (he : e ∈ f.log) :
    e.before.now ≤ cfg'.store.now := by
  obtain ⟨hle, hpast⟩ := (hr.rises (μ := Store.now)
    (fun s c r s' ha => Int.le_of_eq (answer_advances ha).1.symm) (fun s s' hd => hd.now) hl.1 f
    hf).2 e he
  exact hle.trans hpast

/-- A reading of the clock in a log is not later than the calls that follow it. -/
theorem read_le (hl : Launched cfg) (hr : Reaches (identity S (· ≤ ·)) AnyStep cfg cfg')
    {f : Flight Request Call Reply (Except ApplicationError Response) Store}
    (hf : f ∈ cfg'.flights) {pre post : Log} {e : Event Call Reply Store}
    (heq : f.log = pre ++ e :: post) {now : Int} (hread : Read pre now) : now ≤ e.before.now := by
  obtain ⟨e', he', rfl⟩ := hread
  obtain ⟨hsorted, hpast⟩ := hr.rises (μ := Store.now)
    (fun s c r s' ha => Int.le_of_eq (answer_advances ha).1.symm) (fun s s' hd => hd.now) hl.1 f hf
  rw [heq] at hsorted hpast
  exact (hpast e' (List.mem_append_left _ he')).1.trans
    ((List.pairwise_append.1 hsorted).2.2 e' he' e List.mem_cons_self)

/-- A row does not outlive its own maximum. -/
theorem expiresAt_le_max (hl : Launched cfg)
    (hr : Reaches (identity S (· ≤ ·)) AnyStep cfg cfg') {row : SessionRow}
    (hrow : row ∈ cfg'.store.tables.sessions) : row.expiresAt ≤ row.maxExpiresAt := by
  by_contra hlt
  obtain ⟨f, hf, e, he, g, hg, hgt⟩ := put_of_sessions hl hr
    (fun row (_ : Unit) => row.maxExpiresAt < row.expiresAt)
    (fun c _ => ∃ g, c.grants = some g ∧ g.maxExpiresAt < g.expiresAt) (by
      rintro s s' c row n hc hn
      cases hc with
      | kept hkept => exact .inl ⟨_, hkept, hn⟩
      | refreshed hkept hlive => exact absurd hn (Int.not_lt.2 (Int.min_le_right _ _))
      | renewed hkept hlive => exact .inr ⟨_, rfl, hn⟩
      | inserted hg hu hdrawn => exact .inr ⟨_, hg, hn⟩) (n := ()) hrow (Int.not_le.1 hlt)
  obtain ⟨pre, post, heq⟩ := List.append_of_mem he
  obtain ⟨-, hbacked⟩ := told_backed hl hr f hf pre e post heq g hg
  obtain ⟨now, -, hexpires⟩ := hbacked.sliding
  have hle := Int.min_le_right (now + S.slidingTtl) g.maxExpiresAt
  omega

/-- The token of a row was given out at most `token_lifetime` before the row's maximum. -/
theorem granted_within (hl : Launched cfg)
    (hr : Reaches (identity S (· ≤ ·)) AnyStep cfg cfg') {row : SessionRow}
    (hrow : row ∈ cfg'.store.tables.sessions) : ∃ f ∈ cfg'.flights, ∃ e ∈ f.log,
      e.call.grantsToken row.token ∧ row.maxExpiresAt ≤ e.before.now + S.tokenLifetime := by
  obtain ⟨f, hf, e, he, g, hg, htoken, hmax⟩ := put_of_sessions hl hr
    (fun row n => row.token = n.1 ∧ row.maxExpiresAt = n.2)
    (fun c (n : Nat × Int) => ∃ g, c.grants = some g ∧ g.token = n.1 ∧ g.maxExpiresAt = n.2) (by
      rintro s s' c row n hc hn
      cases hc with
      | kept hkept => exact .inl ⟨_, hkept, hn⟩
      | refreshed hkept hlive => exact .inl ⟨_, hkept, hn⟩
      | renewed hkept hlive => exact .inr ⟨_, rfl, hn⟩
      | inserted hg hu hdrawn => exact .inr ⟨_, hg, hn⟩)
      (n := (row.token, row.maxExpiresAt)) hrow ⟨rfl, rfl⟩
  refine ⟨f, hf, e, he, ⟨g, hg, htoken⟩, ?_⟩
  obtain ⟨pre, post, heq⟩ := List.append_of_mem he
  obtain ⟨-, hbacked⟩ := told_backed hl hr f hf pre e post heq g hg
  obtain ⟨now, hread, hbound⟩ := hbacked.bounded
  have hle := read_le hl hr hf heq hread
  dsimp only at hmax
  omega

/-- The call uses the token: it gives it out, or prolongs its session. -/
def Call.usesToken (c : Call) (token : Nat) : Prop :=
  c.grantsToken token ∨ ∃ expiresAt, c = .refreshSession token expiresAt

/-- The session of a row was used at most `sliding_ttl` before the row expires. -/
theorem used_within (hl : Launched cfg)
    (hr : Reaches (identity S (· ≤ ·)) AnyStep cfg cfg') {row : SessionRow}
    (hrow : row ∈ cfg'.store.tables.sessions) : ∃ f ∈ cfg'.flights, ∃ e ∈ f.log,
      e.call.usesToken row.token ∧ row.expiresAt ≤ e.before.now + S.slidingTtl := by
  obtain ⟨f, hf, e, he, hput⟩ := put_of_sessions hl hr
    (fun row n => row.token = n.1 ∧ n.2 ≤ row.expiresAt)
    (fun c (n : Nat × Int) => (∃ g, c.grants = some g ∧ g.token = n.1 ∧ n.2 ≤ g.expiresAt) ∨
      ∃ expiresAt, c = .refreshSession n.1 expiresAt ∧ n.2 ≤ expiresAt) (by
      rintro s s' c row n hc ⟨htoken, hle⟩
      cases hc with
      | kept hkept => exact .inl ⟨_, hkept, htoken, hle⟩
      | refreshed hkept hlive =>
          exact .inr (.inr ⟨_, htoken ▸ rfl, hle.trans (Int.min_le_left _ _)⟩)
      | renewed hkept hlive => exact .inr (.inl ⟨_, rfl, htoken, hle⟩)
      | inserted hg hu hdrawn => exact .inr (.inl ⟨_, hg, htoken, hle⟩))
    (n := (row.token, row.expiresAt)) hrow ⟨rfl, Int.le_refl _⟩
  obtain ⟨pre, post, heq⟩ := List.append_of_mem he
  rcases hput with ⟨g, hg, htoken, hle⟩ | ⟨expiresAt, hcall, hle⟩
  · refine ⟨f, hf, e, he, .inl ⟨g, hg, htoken⟩, ?_⟩
    obtain ⟨-, hbacked⟩ := told_backed hl hr f hf pre e post heq g hg
    obtain ⟨now, hread, hsliding⟩ := hbacked.sliding
    have hnow := read_le hl hr hf heq hread
    have hmin := Int.min_le_left (now + S.slidingTtl) g.maxExpiresAt
    dsimp only at hle
    omega
  · refine ⟨f, hf, e, he, .inr ⟨expiresAt, hcall⟩, ?_⟩
    obtain ⟨now, hread, hbound⟩ := told_prolonging hl hr f hf pre e post heq _ _ hcall
    have hnow := read_le hl hr hf heq hread
    dsimp only at hle
    omega

/-- The session is within its lifetime: it expires no later than its own maximum, its token
was given out less than `token_lifetime` ago, and it was used less than `sliding_ttl` ago. -/
structure WithinLifetime (S : Settings) (cfg : Run) (token : Nat) (session : Session) : Prop where
  bounded : session.expiresAt ≤ session.maxExpiresAt
  granted : ∃ f ∈ cfg.flights, ∃ e ∈ f.log, e.call.grantsToken token ∧
    e.before.now ≤ cfg.store.now ∧ cfg.store.now < e.before.now + S.tokenLifetime
  used : ∃ f ∈ cfg.flights, ∃ e ∈ f.log, e.call.usesToken token ∧
    e.before.now ≤ cfg.store.now ∧ cfg.store.now < e.before.now + S.slidingTtl

/-- **A session that is found is within its lifetime**, in every run. -/
theorem session_lifetime (hl : Launched cfg)
    (hr : Reaches (identity S (· ≤ ·)) AnyStep cfg cfg') {session : Session}
    (hfound : findSession cfg'.store.tables cfg'.store.now token = some session) :
    WithinLifetime S cfg' token session := by
  obtain ⟨row, hrow, rfl, hlive, u, -, -, -, rfl⟩ := exists_of_findSession hfound
  simp only [unexpired, Bool.and_eq_true, decide_eq_true_eq] at hlive
  obtain ⟨f, hf, e, he, hgrants, hgranted⟩ := granted_within hl hr hrow
  obtain ⟨f', hf', e', he', huses, hused⟩ := used_within hl hr hrow
  exact ⟨expiresAt_le_max hl hr hrow,
    ⟨f, hf, e, he, hgrants, past_le hl hr hf he, Int.lt_of_lt_of_le hlive.2 hgranted⟩,
    ⟨f', hf', e', he', huses, past_le hl hr hf' he', Int.lt_of_lt_of_le hlive.1 hused⟩⟩

/-- The run signs in, and the lookup finds the session. -/
theorem signed_in_session_lifetime : ∃ (cfg : Run) (session : Session),
    findSession cfg.store.tables cfg.store.now 2 = some session ∧
      WithinLifetime plainSettings cfg 2 session := by
  have hplay : (((identityMachine plainSettings).play (fun _ _ => true) fresh signedIn).any
      fun cfg => (findSession cfg.store.tables cfg.store.now 2).isSome) = true := by
    decide +kernel
  obtain ⟨cfg, hr, hcheck⟩ := Machine.exists_of_play AnyStep (fun _ _ _ => trivial) hplay
  obtain ⟨session, hfound⟩ := Option.isSome_iff_exists.1 hcheck
  exact ⟨cfg, session, hfound, session_lifetime launched_fresh hr hfound⟩

/-! ### Whose a session is -/

/-- There is no session at the start. -/
theorem sessions_empty (hl : Launched cfg) : cfg.store.tables.sessions = [] := by
  obtain ⟨-, drawn, now, hstore⟩ := hl
  rw [hstore]
  rfl

/-- A row continues a row of its token, or the call has given the token out. -/
theorem origin_of_comes {s s' : Store} {c : Call} {row' : SessionRow} (h : Comes s s' c row') :
    (∃ row ∈ s.tables.sessions, row.token = row'.token ∧ row.pid = row'.pid) ∨
      c.grantsToken row'.token := by
  cases h with
  | kept hkept => exact .inl ⟨_, hkept, rfl, rfl⟩
  | refreshed hkept hlive => exact .inl ⟨_, hkept, rfl, rfl⟩
  | renewed hkept hlive => exact .inr ⟨_, rfl, rfl⟩
  | inserted hg hu hdrawn => exact .inr ⟨_, hg, rfl⟩

/-- A token that is given out is of one row. -/
theorem single_of_comes {s s' : Store} {c : Call} {row row' : SessionRow}
    (hagree : ∀ {x}, x ∈ s.tables.sessions → ∀ {y}, y ∈ s.tables.sessions →
      x.token = y.token → x.pid = y.pid) (h : Comes s s' c row) (h' : Comes s s' c row')
    (htoken : row.token = row'.token)
    (hfree : ∀ {x}, x ∈ s.tables.sessions → x.token ≠ row.token) : row.pid = row'.pid := by
  cases h with
  | kept hkept => exact (hfree hkept rfl).elim
  | refreshed hkept hlive => exact (hfree hkept rfl).elim
  | inserted hg hu hdrawn =>
      cases h' with
      | kept hkept' => exact (hfree hkept' htoken.symm).elim
      | refreshed hkept' hlive' => exact (hfree hkept' htoken.symm).elim
      | inserted hg' hu' hdrawn' => rfl
      | renewed hkept' hlive' => cases hu
  | @renewed row token expiresAt maxExpiresAt hkept hlive =>
      generalize hc : Call.updateSessionToken row.token token expiresAt maxExpiresAt = c at h'
      cases h' with
      | kept hkept' => exact (hfree hkept' htoken.symm).elim
      | refreshed hkept' hlive' => exact (hfree hkept' htoken.symm).elim
      | inserted hg' hu' hdrawn' =>
          subst hc
          cases hu'
      | renewed hkept' hlive' =>
          obtain ⟨hold, -⟩ := Call.updateSessionToken.inj hc
          have hsame := hagree hkept hkept' hold
          exact hsame

/-- A row has the identity of a row, or is the new row of the call. -/
theorem account_of_comes {s s' : Store} {c : Call} {row' : SessionRow} (h : Comes s s' c row') :
    (∃ row ∈ s.tables.sessions, row.pid = row'.pid ∧ row.userId = row'.userId ∧
      row.createdAt = row'.createdAt) ∨
      row'.pid = s.drawn ∧ s.drawn < s'.drawn ∧ c.account s = some row'.userId ∧
        row'.createdAt = s.now := by
  cases h with
  | kept hkept => exact .inl ⟨_, hkept, rfl, rfl, rfl⟩
  | refreshed hkept hlive => exact .inl ⟨_, hkept, rfl, rfl, rfl⟩
  | renewed hkept hlive => exact .inl ⟨_, hkept, rfl, rfl, rfl⟩
  | inserted hg hu hdrawn => exact .inr ⟨rfl, hdrawn, hu, rfl⟩

/-- The public ids of the rows have been drawn, and rows of one id are of one account. -/
structure Accounts (s : Store) : Prop where
  drawn : ∀ row ∈ s.tables.sessions, row.pid < s.drawn
  agree : ∀ row ∈ s.tables.sessions, ∀ row' ∈ s.tables.sessions, row.pid = row'.pid →
    row.userId = row'.userId ∧ row.createdAt = row'.createdAt

/-- An answered call keeps every session with its account. -/
theorem Accounts.answer {s s' : Store} {c : Call} {r : Reply c} (h : Accounts s)
    (ha : Answer S s c r s') : Accounts s' := by
  have hle := (answer_advances ha).2
  have hcomes := fun row hrow => account_of_comes (comes_answer ha row hrow)
  constructor
  · intro row' hrow'
    rcases hcomes row' hrow' with ⟨row, hrow, hpid, -⟩ | ⟨hpid, hdrawn, -⟩
    · exact hpid ▸ Nat.lt_of_lt_of_le (h.drawn row hrow) hle
    · exact hpid ▸ hdrawn
  · intro x' hx' y' hy' hpid
    rcases hcomes x' hx' with ⟨x, hx, hpx, hux, hcx⟩ | ⟨hpx, -, hnew, hcx⟩ <;>
      rcases hcomes y' hy' with ⟨y, hy, hpy, huy, hcy⟩ | ⟨hpy, -, hnew', hcy⟩
    · obtain ⟨huser, hcreated⟩ := h.agree x hx y hy (hpx.trans (hpid.trans hpy.symm))
      exact ⟨hux ▸ huy ▸ huser, hcx ▸ hcy ▸ hcreated⟩
    · exact absurd (h.drawn x hx) (by omega)
    · exact absurd (h.drawn y hy) (by omega)
    · exact ⟨Option.some.inj (hnew.symm.trans hnew'), hcx.trans hcy.symm⟩

theorem Accounts.drift {clock : Int → Int → Prop} {s s' : Store} (h : Accounts s)
    (hd : Drifts clock s s') : Accounts s' := by
  constructor
  · rw [hd.tables, hd.drawn]
    exact h.drawn
  · rw [hd.tables]
    exact h.agree

/-- **A session keeps its account.**  Rows of one token, at whatever times, are of one
session, and rows of one session are of one user and were created at one time: no renewal,
refresh, rename or restoration moves a token to another account. -/
theorem session_keeps_account (hl : Launched cfg)
    (hr : Reaches (identity S (· ≤ ·)) AnyStep cfg cfg')
    (hr' : Reaches (identity S (· ≤ ·)) AnyStep cfg' cfg'') {row row' : SessionRow}
    (hrow : row ∈ cfg'.store.tables.sessions) (hrow' : row' ∈ cfg''.store.tables.sessions) :
    (row.token = row'.token → row.pid = row'.pid) ∧
      (row.pid = row'.pid → row.userId = row'.userId ∧ row.createdAt = row'.createdAt) := by
  have horigin : ∀ (s : Store) (c : Call) (r : Reply c) (s' : Store), Answer S s c r s' →
      ∀ x' ∈ s'.tables.sessions, (∃ x ∈ s.tables.sessions, x.token = x'.token ∧ x.pid = x'.pid) ∨
        c.grantsToken x'.token :=
    fun s c r s' ha x' hx' => origin_of_comes (comes_answer ha x' hx')
  have hdrift : ∀ s s' : Store, Drifts (· ≤ ·) s s' → s'.tables.sessions = s.tables.sessions :=
    fun s s' hd => congrArg Tables.sessions hd.tables
  have hagree := (sole_grants (S := S) hl).agree (fun s : Store => s.tables.sessions) SessionRow.token
    SessionRow.pid hr horigin
    (fun s c r s' h ha x' hx' y' hy' hkey _ hfree => single_of_comes (fun hx _ hy => h _ hx _ hy)
      (comes_answer ha x' hx') (comes_answer ha y' hy') hkey (hfree _))
    hdrift hl.1 (sessions_empty hl)
  refine ⟨fun htoken => ?_, fun hpid => ?_⟩
  · exact (sole_grants hl).agree_later (fun s : Store => s.tables.sessions) SessionRow.token
      SessionRow.pid hr hr' hagree horigin hdrift hl.1 (sessions_empty hl) hrow
      hrow' htoken
  · have haccounts : Accounts cfg'.store := by
      refine hr.store_invariant (fun _ _ _ _ h ha => h.answer ha) (fun _ _ h hd => h.drift hd) ?_
      constructor <;> rw [sessions_empty hl] <;> exact fun _ h => nomatch h
    -- the rows of the session at the later time are still of the account
    have hlater : Accounts cfg''.store ∧ row.pid < cfg''.store.drawn ∧
        ∀ y ∈ cfg''.store.tables.sessions, row.pid = y.pid →
          row.userId = y.userId ∧ row.createdAt = y.createdAt := by
      refine hr'.store_invariant (I := fun s => Accounts s ∧ row.pid < s.drawn ∧
        ∀ y ∈ s.tables.sessions, row.pid = y.pid →
          row.userId = y.userId ∧ row.createdAt = y.createdAt) ?_ ?_
        ⟨haccounts, haccounts.drawn row hrow, haccounts.agree row hrow⟩
      · rintro s c r s' ⟨hs, hdrawn, hsame⟩ ha
        refine ⟨hs.answer ha, Nat.lt_of_lt_of_le hdrawn (answer_advances ha).2, fun y' hy' hy => ?_⟩
        rcases account_of_comes (comes_answer ha y' hy') with ⟨y, hmem, hpy, huy, hcy⟩ | ⟨hpy, -⟩
        · exact huy ▸ hcy ▸ hsame y hmem (hy.trans hpy.symm)
        · omega
      · rintro s s' ⟨hs, hdrawn, hsame⟩ hd
        refine ⟨hs.drift hd, hd.drawn ▸ hdrawn, ?_⟩
        rw [hd.tables]
        exact hsame
    exact hlater.2.2 row' hrow' hpid

/-- A renewal gives the session another token, and leaves it with its account. -/
theorem renewed_session_keeps_account : ∃ (cfg' cfg'' : Run) (row row' : SessionRow),
    Reaches (identity plainSettings (· ≤ ·)) AnyStep cfg' cfg'' ∧
      row ∈ cfg'.store.tables.sessions ∧ row' ∈ cfg''.store.tables.sessions ∧
        row.token ≠ row'.token ∧ row.userId = row'.userId ∧ row.createdAt = row'.createdAt := by
  have hplay : (((identityMachine plainSettings).play (fun _ _ => true) fresh signedIn).any
      fun cfg' => (cfg'.store.tables.sessions.any fun row => row.pid == 3 && row.token == 2) &&
        ((identityMachine plainSettings).play (fun _ _ => true) cfg'
          (serveAt 2 (.renewSession 2) 6)).any fun cfg'' =>
            cfg''.store.tables.sessions.any fun row => row.pid == 3 && row.token == 4) = true := by
    decide +kernel
  obtain ⟨cfg', hr, hcheck⟩ := Machine.exists_of_play AnyStep (fun _ _ _ => trivial) hplay
  obtain ⟨hbefore, hafter⟩ := Bool.and_eq_true_iff.1 hcheck
  obtain ⟨cfg'', hr', hafter⟩ := Machine.exists_of_play AnyStep (fun _ _ _ => trivial) hafter
  obtain ⟨row, hrow, hselects⟩ := List.any_eq_true.1 hbefore
  obtain ⟨row', hrow', hselects'⟩ := List.any_eq_true.1 hafter
  simp only [Bool.and_eq_true, beq_iff_eq] at hselects hselects'
  have hsame := (session_keeps_account launched_fresh hr hr' hrow hrow').2
    (hselects.1.trans hselects'.1.symm)
  exact ⟨cfg', cfg'', row, row', hr', hrow, hrow', by omega, hsame⟩

end Service
end Identity
end Hegira
