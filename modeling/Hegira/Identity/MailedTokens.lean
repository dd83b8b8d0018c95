/-
# The tokens that are mailed

A user has four of them, each with a column for a time: when the mail was sent, or when
the link expires.  Two paths write each pair of columns, with the mail in the outbox and
without; three of the four confirming operations compare the time with the clock, and
`reset_password` does not.

Here is what stores them: whatever a row holds of a token and its time was put there by a
call that stores just these (`holds_answer`), and a token is confirmed only for a row that
holds it (`verified_of_runs`, `confirmed_of_runs`).
-/

import Mathlib.Data.List.Basic
import Hegira.Identity.Effects
import Hegira.Identity.Keys

namespace Hegira
namespace Identity

inductive MailedToken where
  | passwordReset
  | emailVerification
  | magicLink
  | emailChange
  deriving DecidableEq

/-- A token with the time that is kept with it. -/
structure Issue where
  kind : MailedToken
  token : Nat
  time : Int
  deriving DecidableEq

/-- The columns of a token. -/
def User.mailed (u : User) : MailedToken → Option Nat × Option Int
  | .passwordReset => (u.resetToken, u.resetSentAt)
  | .emailVerification => (u.emailVerificationToken, u.emailVerificationSentAt)
  | .magicLink => (u.magicLinkToken, u.magicLinkExpiresAt)
  | .emailChange => (u.emailChangeToken, u.emailChangeSentAt)

/-- The row holds the token and the time. -/
def User.Holds (u : User) (i : Issue) : Prop := u.mailed i.kind = (some i.token, some i.time)

/-! ### What stores a token -/

def UserUpdate.issues : UserUpdate → Option Issue
  | setResetToken _ token sentAt => some ⟨.passwordReset, token, sentAt⟩
  | setEmailVerification _ token sentAt => some ⟨.emailVerification, token, sentAt⟩
  | setMagicLink _ token expiresAt => some ⟨.magicLink, token, expiresAt⟩
  | _ => none

namespace Managed

/-- The token of a column. -/
def TokenColumn.mailed : TokenColumn → MailedToken
  | resetToken => .passwordReset
  | emailVerificationToken => .emailVerification
  | magicLinkToken => .magicLink

def Call.issues : Call → Option Issue
  | exec (.insertRegistered command) =>
      some ⟨.emailVerification, command.verificationToken, command.verificationSentAt⟩
  | exec (.updateToken column _ token time) => some ⟨column.mailed, token, time⟩
  | exec (.updateEmailChange _ _ token sentAt) => some ⟨.emailChange, token, sentAt⟩
  | _ => none

def Command.issues : Command → Option Issue
  | register command =>
      some ⟨.emailVerification, command.verificationToken, command.verificationSentAt⟩
  | setResetToken _ token sentAt _ => some ⟨.passwordReset, token, sentAt⟩
  | setVerification _ token sentAt _ => some ⟨.emailVerification, token, sentAt⟩
  | setMagicLink _ token expiresAt _ => some ⟨.magicLink, token, expiresAt⟩
  | requestEmailChange _ _ token sentAt _ => some ⟨.emailChange, token, sentAt⟩
  | _ => none

end Managed

def Service.Call.issues : Service.Call → Option Issue
  | updateUser update => update.issues
  | managed command => command.issues
  | _ => none

/-! ### The rows -/

/-- A row holds the token and the time. -/
def Tables.Holds (t : Tables) (i : Issue) : Prop := ∃ u ∈ t.users, u.Holds i

/-- A row without the tokens. -/
theorem User.not_holds {u : User} {i : Issue} (h : ∀ kind, u.mailed kind = (none, none)) :
    ¬u.Holds i := by
  intro hi
  rw [User.Holds, h] at hi
  cases hi

/-- A user holds a token after an update if they did before or the update issues it. -/
theorem UserUpdate.holds_set {update : UserUpdate} {u : User} {i : Issue}
    (h : (update.set u).Holds i) : u.Holds i ∨ update.issues = some i := by
  obtain ⟨kind, token, time⟩ := i
  cases update <;> cases kind <;>
    first
    | exact .inl h
    | cases h; done
    | cases h; exact .inr rfl

namespace Tables

variable {t t' : Tables} {i : Issue}

/-- Only the users hold tokens. -/
theorem Holds.of_users (h : t'.Holds i) (husers : t'.users = t.users) : t.Holds i := by
  obtain ⟨u, hu, hi⟩ := h
  exact ⟨u, husers ▸ hu, hi⟩

/-- A statement over the users brings no token but the one it sets. -/
theorem Holds.of_updateUsers {p : User → Bool} {f : User → User} {q : Prop}
    (h : (Managed.updateUsers t p f).Holds i) (hf : ∀ u, (f u).Holds i → u.Holds i ∨ q) :
    t.Holds i ∨ q := by
  obtain ⟨v, hv, hi⟩ := h
  obtain ⟨u, hu, rfl⟩ := List.mem_map.1 hv
  split at hi
  · exact (hf u hi).imp_left fun hi => ⟨u, hu, hi⟩
  · exact .inl ⟨u, hu, hi⟩

/-- A new user brings only the tokens of their own row. -/
theorem Holds.of_insert {u : User} {q : Prop} (h : t'.Holds i)
    (husers : t'.users = t.users ++ [u]) (hu : u.Holds i → q) : t.Holds i ∨ q := by
  obtain ⟨v, hv, hi⟩ := h
  rw [husers] at hv
  rcases List.mem_append.1 hv with hv | hv
  · exact .inl ⟨v, hv, hi⟩
  · rw [List.mem_singleton.1 hv] at hi
    exact .inr (hu hi)

end Tables

/-! ### The user writer -/

namespace Managed

variable {t t' : Tables} {i : Issue}

/-- Setting a column issues its token and keeps the others. -/
theorem holds_setToken {column : TokenColumn} {token : Nat} {time : Int} {u : User}
    (h : (setToken column token time u).Holds i) :
    u.Holds i ∨ some ⟨column.mailed, token, time⟩ = some i := by
  obtain ⟨kind, token', time'⟩ := i
  cases column <;> cases kind <;>
    first
    | exact .inl h
    | exact .inr (by cases h; rfl)

/-- A change of a row that may drop tokens, and stores none. -/
theorem holds_dropped {f : User → User} (hf : ∀ u kind, (f u).mailed kind = u.mailed kind ∨
    ((f u).mailed kind).1 = none) {u : User} {q : Prop} (h : (f u).Holds i) : u.Holds i ∨ q := by
  rcases hf u i.kind with hsame | hnone
  · rw [User.Holds, hsame] at h
    exact .inl h
  · rw [User.Holds] at h
    rw [h] at hnone
    cases hnone

/-- **What a statement leaves in a row was there, or is what it stores.** -/
theorem holds_execute {d : Draw} {st : Statement} {res : st.Result}
    (he : execute t d st = some (res, t')) (h : t'.Holds i) :
    t.Holds i ∨ (Call.exec st).issues = some i := by
  cases st with
  | insertRegistered command =>
      simp only [execute] at he
      split at he
      · cases he
        exact .inl h
      · split at he <;> cases he
        refine h.of_insert rfl fun hi => ?_
        obtain ⟨kind, token, time⟩ := i
        cases kind <;> cases hi
        rfl
  | updateVerified token verifiedAt =>
      simp only [execute] at he
      split at he <;> cases he
      · exact .inl h
      · exact h.of_updateUsers fun u => holds_dropped fun u kind => by
          cases kind <;> first | exact .inl rfl | exact .inr rfl
  | updateToken column username token time =>
      cases he
      exact h.of_updateUsers fun u => holds_setToken
  | updateEmailChange username newEmail token sentAt =>
      simp only [execute] at he
      split at he
      · split at he <;> cases he
        refine h.of_updateUsers fun u hi => ?_
        obtain ⟨kind, token', time⟩ := i
        cases kind <;>
          first
          | exact .inl hi
          | exact .inr (by cases hi; rfl)
      · cases he
        exact .inl h
  | updateConfirmed token confirmedAt =>
      simp only [execute] at he
      split at he
      · cases he
        exact .inl h
      · split at he <;> cases he
        exact h.of_updateUsers fun u => holds_dropped fun u kind => by
          cases kind <;> first | exact .inl rfl | exact .inr rfl
  | upsertManaged command =>
      simp only [execute] at he
      split at he
      · split at he <;> cases he
        exact h.of_insert rfl fun hi => absurd hi (User.not_holds fun kind => by cases kind <;> rfl)
      · split at he <;> cases he
        · exact .inl h
        · exact h.of_updateUsers fun u => holds_dropped fun u kind => by
            cases kind <;> first | exact .inl rfl | exact .inr rfl
  | updateManaged command =>
      simp only [execute] at he
      split at he <;> cases he
      · exact .inl h
      · exact h.of_updateUsers fun u => holds_dropped fun u kind => .inl (by cases kind <;> rfl)
  | updateDeleted username =>
      simp only [execute] at he
      split at he <;> cases he
      · exact .inl h
      · exact h.of_updateUsers fun u => holds_dropped fun u kind => .inl (by cases kind <;> rfl)
  | selectUserId username =>
      obtain ⟨u, -, hu⟩ := Option.map_eq_some_iff.1 he
      cases hu
      exact .inl h
  | insertUserRole userId roleName =>
      simp only [execute] at he
      split at he
      · cases he
        exact .inl h
      · split at he <;> cases he
        exact .inl h
  | enqueueOutbox m =>
      cases he
      refine .inl (h.of_users ?_)
      unfold Tables.enqueue
      split <;> rfl
  | deleteUserRoles userId | selectRoles userId | selectUser username =>
      cases he
      exact .inl h

/-! ### Operations -/

/-- The program stores no token but one. -/
abbrev Stores {α : Type} (p : Repository α) (issue : Option Issue) : Prop :=
  Fallible.Makes p fun c => c.issues = none ∨ c.issues = issue

variable {b : Backend} {issue : Option Issue} {α : Type}

/-- A call may issue the token of its command, or none. -/
theorem stores_call {c : Call} (h : c.issues = none ∨ c.issues = issue) : Stores (call c) issue :=
  ⟨⟨h, fun _ => trivial⟩⟩

/-- Nothing else of a command issues a token. -/
theorem stores_okOr {error : ApplicationError} {o : Option α} : Stores (okOr error o) issue := by
  cases o <;> exact ⟨trivial⟩

theorem stores_abandon : Stores b.abandon issue := by
  cases b with
  | sqlite => exact .pure
  | postgres => exact stores_call (.inl rfl)

theorem stores_insertRoles (id : Nat) (roles : List String) :
    Stores (insertRoles id roles) issue := by
  induction roles with
  | nil => exact .pure
  | cons role roles ih => exact .bind (stores_call (.inl rfl)) fun _ => ih

theorem stores_publishUser (notFound username : String) (revision : Nat) :
    Stores (publishUser notFound username revision) issue :=
  .bind (stores_call (.inl rfl)) fun _ => .bind stores_okOr fun _ =>
    .bind (stores_call (.inl rfl)) fun _ => stores_call (.inl rfl)

/-- A command issues what its update issues. -/
theorem stores_updateAndPublish {st : Statement} {result : st.Result → Option (String × Nat)}
    {notFound : String} {publishSearch : Bool} (h : (Call.exec st).issues = none) :
    Stores (updateAndPublish b st result notFound publishSearch) issue := by
  refine .bind (stores_call (.inl rfl)) fun _ => .bind (stores_call (.inl h)) fun updated => ?_
  split
  · exact .bind stores_abandon fun _ => .pure
  · exact .ite (.bind (stores_publishUser _ _ _) fun _ =>
      .bind (stores_call (.inl rfl)) fun _ => .pure) (.bind (stores_call (.inl rfl)) fun _ => .pure)

/-- The token that is stored is the one that is mailed, with the same time. -/
theorem stores_updateTokenWithMail (column : TokenColumn) (purpose : MailPurpose)
    (username : String) (token : Nat) (time : Int) (mail : TransactionalMail) :
    Stores (updateTokenWithMail column purpose username token time mail)
      (some ⟨column.mailed, token, time⟩) :=
  .bind (stores_call (.inl rfl)) fun _ => .bind (stores_call (.inr rfl)) fun _ =>
    .ite (.bind (stores_call (.inl rfl)) fun _ => .bind (stores_call (.inl rfl)) fun _ => .pure)
      (.bind (stores_call (.inl rfl)) fun _ => .pure)

theorem stores_setRolesAndPublish (username : String) (roles : List String) (revision : Nat)
    (notFound : String) (publishSearch : Bool) :
    Stores (setRolesAndPublish username roles revision notFound publishSearch) issue :=
  .bind (.bind (stores_call (.inl rfl)) fun _ => .bind (stores_call (.inl rfl)) fun _ =>
      stores_insertRoles _ _) fun _ =>
    .bind (stores_call (.inl rfl)) fun _ => .bind stores_okOr fun _ =>
      .ite (.bind (stores_call (.inl rfl)) fun _ => .bind (stores_call (.inl rfl)) fun _ => .pure)
        (.bind (stores_call (.inl rfl)) fun _ => .pure)

/-- A registration stores the token it mails. -/
theorem stores_registeredMail {command : RegisterManagedUser} {user : User} : Stores (do
    match command.mail with
    | some mail => enqueueMail mail .verifyEmail command.username command.verificationSentAt
    | none => pure ()
    call .commit
    return user) (Command.register command).issues := by
  dsimp only
  split
  · exact .bind (stores_call (.inl rfl)) fun _ => .bind (stores_call (.inl rfl)) fun _ => .pure
  · exact .bind (stores_call (.inl rfl)) fun _ => .pure

theorem stores_registerManagedUser (command : RegisterManagedUser) :
    Stores (registerManagedUser command) (Command.register command).issues :=
  .bind (stores_call (.inl rfl)) fun _ => .bind (stores_call (.inr rfl)) fun _ =>
    .bind stores_okOr fun _ => .bind (stores_call (.inl rfl)) fun _ =>
      .bind stores_okOr fun _ => .ite (.bind (stores_call (.inl rfl)) fun _ => stores_registeredMail)
        stores_registeredMail

theorem stores_requestEmailChange (username newEmail : String) (token : Nat) (sentAt : Int)
    (mail : Option TransactionalMail) :
    Stores (requestEmailChange username newEmail token sentAt mail)
      (some ⟨.emailChange, token, sentAt⟩) := by
  refine .bind (stores_call (.inl rfl)) fun _ => .bind (stores_call (.inr rfl)) fun _ => ?_
  dsimp only
  split
  · exact .bind (stores_call (.inl rfl)) fun _ => .bind (stores_call (.inl rfl)) fun _ => .pure
  · exact .bind (stores_call (.inl rfl)) fun _ => .pure

theorem stores_updateManagedUser (command : UpdateManagedUser) :
    Stores (updateManagedUser b command) issue := by
  refine .bind (stores_call (.inl rfl)) fun _ => .bind (stores_call (.inl rfl)) fun revision => ?_
  split
  · exact .bind stores_abandon fun _ => .pure
  · exact .bind (stores_setRolesAndPublish _ _ _ _ _) fun _ => .pure

theorem stores_deleteManagedUser (username : String) (publishSearch : Bool) :
    Stores (deleteManagedUser b username publishSearch) issue := by
  refine .bind (stores_call (.inl rfl)) fun _ => .bind (stores_call (.inl rfl)) fun deleted => ?_
  split
  · exact .bind stores_abandon fun _ => .pure
  · exact .ite (.bind (stores_call (.inl rfl)) fun _ =>
      .bind (stores_call (.inl rfl)) fun _ => .pure) (.bind (stores_call (.inl rfl)) fun _ => .pure)

/-- Every command stores at most the token it issues. -/
theorem stores_perform (command : Command) : Stores (perform b command) command.issues := by
  cases command with
  | register command => exact (stores_registerManagedUser command).map
  | verifyEmail token verifiedAt publishSearch => exact (stores_updateAndPublish rfl).map
  | setResetToken username token sentAt mail =>
      exact (stores_updateTokenWithMail .resetToken _ username token sentAt mail).map
  | setVerification username token sentAt mail =>
      exact (stores_updateTokenWithMail .emailVerificationToken _ username token sentAt mail).map
  | setMagicLink username token expiresAt mail =>
      exact (stores_updateTokenWithMail .magicLinkToken _ username token expiresAt mail).map
  | requestEmailChange username newEmail token sentAt mail =>
      exact (stores_requestEmailChange username newEmail token sentAt mail).map
  | confirmEmailChange token confirmedAt publishSearch => exact (stores_updateAndPublish rfl).map
  | create command =>
      exact Fallible.Makes.map (.bind (stores_call (.inl rfl)) fun _ =>
        .bind (stores_call (.inl rfl)) fun _ => .bind stores_okOr fun _ =>
          stores_setRolesAndPublish _ _ _ _ _)
  | update command => exact (stores_updateManagedUser command).map
  | delete username publishSearch => exact (stores_deleteManagedUser username publishSearch).map

/-- **What an operation leaves in a row was there, or is what its command stores.** -/
theorem holds_runs {command : Command} {calls : List (Event Call Reply Store)}
    {r : Except ApplicationError Outcome} {db : Store}
    (hr : Runs Answer (perform b command).run ⟨t, none⟩ calls (.done r) db)
    (h : db.tables.Holds i) : t.Holds i ∨ command.issues = some i := by
  let I : Store → Prop := fun s => ∀ w, w = s.tables ∨ s.working = some w → w.Holds i →
    t.Holds i ∨ command.issues = some i
  have hinv : I db := by
    refine ((stores_perform command).only.meets_invariant (I := I) ?_ ?_).of_done hr
    · intro s c r s' hc ha hs w hw hi
      cases ha with
      | begun =>
          rcases hw with rfl | hw
          · exact hs _ (.inl rfl) hi
          · exact hs _ (.inl (Option.some.inj hw).symm) hi
      | executed he =>
          rcases hw with rfl | hw
          · exact hs _ (.inl rfl) hi
          · obtain rfl := Option.some.inj hw
            rcases holds_execute he hi with hold | hissue
            · exact hs _ (.inr rfl) hold
            · rcases hc with hnone | heq
              · cases hnone.symm.trans hissue
              · exact .inr (heq.symm.trans hissue)
      | committed =>
          rcases hw with rfl | hw
          · exact hs _ (.inr rfl) hi
          · cases hw
      | committedLate message =>
          rcases hw with rfl | hw
          · exact hs _ (.inr rfl) hi
          · cases hw
      | rolledBack =>
          rcases hw with rfl | hw
          · exact hs _ (.inl rfl) hi
          · cases hw
      | failed message => exact hs w hw hi
    · rintro w (rfl | hw) hi
      · exact .inl hi
      · cases hw
  exact hinv _ (.inl rfl) h

/-- An update that returns that it has had an effect has found its row. -/
theorem meets_updateAndPublish_found {st : Statement}
    {result : st.Result → Option (String × Nat)} {notFound : String} {publishSearch : Bool}
    {found : Prop} (hst : ∀ d res w, execute t d st = some (res, w) → result res ≠ none → found) :
    Meets Answer AnyEvent (fun r _ => r = .ok true → found)
      (updateAndPublish b st result notFound publishSearch).run ⟨t, none⟩ := by
  by_cases hfound : found
  · exact Meets.trivial.imp fun _ _ _ _ => hfound
  · rw [updateAndPublish, meets_fallible_bind]
    refine meets_begin (fun e h => by cases h) ?_
    rw [continue_ok, meets_fallible_bind]
    refine meets_exec (fun e h => by cases h) fun d res w he => ?_
    have hres : result res = none := by
      by_contra hne
      exact hfound (hst d res w he hne)
    rw [continue_ok, hres]
    dsimp only
    rw [meets_fallible_bind]
    refine meets_abandon ?_
    rintro (e | _) w' <;> exact fun h => by cases h

/-- An update that found its row has executed its statement. -/
theorem updated_of_runs {st : Statement} {result : st.Result → Option (String × Nat)}
    {notFound : String} {publishSearch : Bool} {found : Prop}
    (hst : ∀ d res w, execute t d st = some (res, w) → result res ≠ none → found)
    {calls : List (Event Call Reply Store)} {db : Store}
    (hr : Runs Answer
      (Outcome.flag <$> updateAndPublish b st result notFound publishSearch : Repository Outcome).run
      ⟨t, none⟩ calls (.done (.ok (.flag true))) db) : found := by
  have hm : Meets Answer AnyEvent (fun r _ => r = .ok (.flag true) → found)
      (Outcome.flag <$> updateAndPublish b st result notFound publishSearch : Repository Outcome).run
      ⟨t, none⟩ := by
    rw [meets_fallible_map]
    refine (meets_updateAndPublish_found hst).imp ?_
    rintro (e | flag) s hs heq
    · cases heq
    · cases heq
      exact hs rfl
  exact hm.of_done hr rfl

/-- A mail address is verified only for a user that has the token. -/
theorem verified_of_runs {token : Nat} {verifiedAt : Int} {publishSearch : Bool}
    {calls : List (Event Call Reply Store)} {db : Store}
    (hr : Runs Answer (perform b (.verifyEmail token verifiedAt publishSearch)).run ⟨t, none⟩ calls
      (.done (.ok (.flag true))) db) : ∃ u ∈ t.users, verifies token verifiedAt u = true := by
  refine updated_of_runs (fun d res w he hne => ?_) hr
  simp only [execute] at he
  split at he
  · cases he
    exact absurd rfl hne
  next u hfind => exact ⟨u, List.mem_of_find?_eq_some hfind, List.find?_some hfind⟩

/-- An address is changed only for a user that has the token. -/
theorem confirmed_of_runs {token : Nat} {confirmedAt : Int} {publishSearch : Bool}
    {calls : List (Event Call Reply Store)} {db : Store}
    (hr : Runs Answer (perform b (.confirmEmailChange token confirmedAt publishSearch)).run
      ⟨t, none⟩ calls (.done (.ok (.flag true))) db) :
    ∃ u ∈ t.users, confirms token confirmedAt u = true := by
  refine updated_of_runs (fun d res w he hne => ?_) hr
  simp only [execute] at he
  split at he
  · cases he
    exact absurd rfl hne
  next u hfind => exact ⟨u, List.mem_of_find?_eq_some hfind, List.find?_some hfind⟩

end Managed

/-! ### The site -/

namespace Service

variable {S : Settings} {s s' : Store}

/-- A user signed up by a provider holds no token. -/
theorem insertUser_holds {d : OAuth.Draw} {t : Tables} {username passwordHash : String} {i : Issue}
    (h : (insertUser d t username passwordHash).Holds i) : t.Holds i := by
  unfold insertUser at h
  split at h
  · exact (h.of_updateUsers (q := False) fun u => Managed.holds_dropped fun u kind => by
      cases kind <;> first | exact .inl rfl | exact .inr rfl).resolve_right id
  · exact (h.of_insert (q := False) rfl fun hi =>
      User.not_holds (fun kind => by cases kind <;> rfl) hi).resolve_right id

theorem completeSignup_holds {d : OAuth.Draw} {t : Tables} {command : OAuth.CompleteOAuthSignup}
    {i : Issue} (h : (completeSignup d t command).2.Holds i) : t.Holds i := by
  unfold completeSignup at h
  split at h
  · exact h
  · split at h
    · exact h
    · refine (h.of_insert (q := False)
        (u := OAuth.externalUser d command.username command.passwordHash) ?_ fun hi =>
          User.not_holds (fun kind => by cases kind <;> rfl) hi).resolve_right id
      dsimp only
      split
      · unfold OAuth.applyWrite Tables.enqueue
        dsimp only
        split <;> rfl
      · rfl

/-- **What a call leaves in a row was there, or is what the call stores.** -/
theorem holds_answer {c : Call} {r : Reply c} {i : Issue} (ha : Answer S s c r s')
    (h : s'.tables.Holds i) : s.tables.Holds i ∨ c.issues = some i := by
  cases ha with
  | managed hr hle hdrawn => exact Managed.holds_runs hr h
  | fetched user => exact .inl h
  | failed hc error => exact .inl h
  | executed he =>
      cases c with
      | managed command => cases he
      | fetchUser provider code => cases he
      | updateUser update =>
          cases he
          exact h.of_updateUsers fun u => UserUpdate.holds_set
      | insertUser username passwordHash =>
          cases he
          exact .inl (insertUser_holds h)
      | completeSignup command =>
          cases he
          exact .inl (completeSignup_holds h)
      | _ => exact .inl (h.of_users (users_execute rfl he))

end Service

end Identity
end Hegira
