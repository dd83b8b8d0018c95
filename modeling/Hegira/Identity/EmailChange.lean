/-
# Confirming a change of the address

`request_email_change` looks for a live user with the new name, and
`confirm_email_change` meets the unique index, which the names of deleted users are in as
well.  So a request that was accepted can be confirmed just when no deleted user has the
name (`email_change_confirmed_iff`).

Nothing takes such a row away: an operation of the user writer writes to the users with
its first statement only (`users_runs`), and as long as no live user has a name, no call
makes a row with it appear or disappear (`named_answer`).
-/

import Mathlib.Data.List.Basic
import Hegira.Identity.TokenExpiry

namespace Hegira
namespace Identity

variable {t t' w : Tables} {name : String}

namespace Tables

/-- A row has the name. -/
def Named (t : Tables) (name : String) : Prop := ∃ v ∈ t.users, v.username = name

/-- No live user has the name. -/
def Unheld (t : Tables) (name : String) : Prop :=
  ∀ v ∈ t.users, v.username = name → v.live = false

/-- Who has a name depends on the users only. -/
theorem named_of_users (husers : w.users = t.users) : w.Named name ↔ t.Named name := by
  rw [Named, Named, husers]

/-- The rows keep their names. -/
theorem named_updateUsers {p : User → Bool} {f : User → User}
    (hf : ∀ u, (f u).username = u.username) :
    (Managed.updateUsers t p f).Named name ↔ t.Named name := by
  constructor
  · rintro ⟨v, hv, rfl⟩
    obtain ⟨u, hu, rfl⟩ := List.mem_map.1 hv
    refine ⟨u, hu, ?_⟩
    split
    · exact (hf u).symm
    · rfl
  · rintro ⟨u, hu, rfl⟩
    refine ⟨_, List.mem_map_of_mem hu, ?_⟩
    split
    · exact hf u
    · rfl

/-- A live row is new. -/
theorem named_insert {u : User} (husers : w.users = t.users ++ [u]) (hlive : u.live = true)
    (hw : w.Unheld name) : w.Named name ↔ t.Named name := by
  have hu : u.username ≠ name := by
    intro hname
    have := hw u (husers ▸ List.mem_append_right _ (List.mem_singleton_self u)) hname
    rw [hlive] at this
    cases this
  rw [Named, Named, husers]
  constructor
  · rintro ⟨v, hv, hname⟩
    rcases List.mem_append.1 hv with hv | hv
    · exact ⟨v, hv, hname⟩
    · exact absurd (List.mem_singleton.1 hv ▸ hname) hu
  · rintro ⟨v, hv, hname⟩
    exact ⟨v, List.mem_append_left _ hv, hname⟩

/-- Live rows become live rows. -/
theorem named_of_live {p : User → Bool} {f : User → User} (hp : ∀ u, p u = true → u.live = true)
    (hf : ∀ u, (f u).live = u.live) (ht : t.Unheld name)
    (hw : (Managed.updateUsers t p f).Unheld name) :
    (Managed.updateUsers t p f).Named name ↔ t.Named name := by
  constructor
  · rintro ⟨v, hv, hname⟩
    have hdead := hw v hv hname
    obtain ⟨u, hu, rfl⟩ := List.mem_map.1 hv
    split at hdead
    next hpu =>
      rw [hf, hp u hpu] at hdead
      cases hdead
    next hpu =>
      rw [if_neg hpu] at hname
      exact ⟨u, hu, hname⟩
  · rintro ⟨u, hu, hname⟩
    have hpu : ¬p u = true := by
      intro hpu
      have := ht u hu hname
      rw [hp u hpu] at this
      cases this
    exact ⟨u, List.mem_map.2 ⟨u, hu, if_neg hpu⟩, hname⟩

end Tables

namespace Managed

/-! ### What an operation writes -/

/-- The statement may write to `users`. -/
def Statement.writesUsers : Statement → Bool
  | insertRegistered _ | updateVerified .. | updateToken .. | updateEmailChange ..
  | updateConfirmed .. | upsertManaged _ | updateManaged _ | updateDeleted _ => true
  | _ => false

/-- The other statements leave the users as they are. -/
theorem users_statement {d : Draw} {st : Statement} {res : st.Result}
    (hst : st.writesUsers = false) (he : execute t d st = some (res, w)) : w.users = t.users := by
  cases st with
  | selectUserId username =>
      obtain ⟨u, -, hu⟩ := Option.map_eq_some_iff.1 he
      cases hu
      rfl
  | insertUserRole userId roleName =>
      simp only [execute] at he
      split at he
      · cases he
        rfl
      · split at he <;> cases he
        rfl
  | enqueueOutbox m =>
      cases he
      exact enqueue_users m
  | deleteUserRoles userId | selectRoles userId | selectUser username =>
      cases he
      rfl
  | _ => cases hst

/-- The program writes to no user. -/
abbrev Leaves {α : Type} (p : Repository α) : Prop :=
  Fallible.Makes p fun c => ∀ st, c = .exec st → st.writesUsers = false

section Leaves

variable {α : Type} {b : Backend}

/-- A statement that writes no user leaves the users. -/
theorem leaves_exec {st : Statement} (h : st.writesUsers = false) : Leaves (exec st) :=
  ⟨⟨fun _ heq => (Call.exec.inj heq) ▸ h, fun _ => trivial⟩⟩

/-- So does the rest of a command around its update. -/
theorem leaves_commit : Leaves (call .commit) := ⟨⟨fun _ heq => (nomatch heq), fun _ => trivial⟩⟩

theorem leaves_okOr {error : ApplicationError} {o : Option α} : Leaves (okOr error o) := by
  cases o <;> exact ⟨trivial⟩

theorem leaves_abandon : Leaves b.abandon := by
  cases b with
  | sqlite => exact .pure
  | postgres => exact ⟨⟨fun _ heq => (nomatch heq), fun _ => trivial⟩⟩

theorem leaves_insertRoles (id : Nat) (roles : List String) : Leaves (insertRoles id roles) := by
  induction roles with
  | nil => exact .pure
  | cons role roles ih => exact .bind (leaves_exec rfl) fun _ => ih

/-- The commit, and a value. -/
theorem leaves_end {a : α} : Leaves (call .commit >>= fun _ => pure a) :=
  .bind leaves_commit fun _ => .pure

theorem leaves_setRolesAndPublish (username : String) (roles : List String) (revision : Nat)
    (notFound : String) (publishSearch : Bool) :
    Leaves (setRolesAndPublish username roles revision notFound publishSearch) :=
  .bind (.bind (leaves_exec rfl) fun _ => .bind (leaves_exec rfl) fun _ =>
      leaves_insertRoles _ _) fun _ =>
    .bind (leaves_exec rfl) fun _ => .bind leaves_okOr fun _ =>
      .ite (.bind (leaves_exec rfl) fun _ => leaves_end) leaves_end

end Leaves

/-- The users are as before, or as the statement leaves them. -/
def Wrote (t : Tables) (st : Statement) (users : List User) : Prop :=
  users = t.users ∨ ∃ d res w, execute t d st = some (res, w) ∧ users = w.users

/-- What writes to no user leaves the working copy and the tables as `R` has them. -/
theorem Leaves.meets {α : Type} {p : Repository α} (h : Leaves p) {R : List User → Prop}
    {s : Store} (hs : R s.tables.users ∧ ∀ w, s.working = some w → R w.users) :
    Meets Answer AnyEvent (fun _ s => R s.tables.users) p.run s := by
  let I : Store → Prop := fun s => R s.tables.users ∧ ∀ w, s.working = some w → R w.users
  refine (h.only.meets_invariant (I := I) ?_ hs).mono (fun _ _ => trivial) fun _ _ hs => hs.1
  intro s c r s' hc ha hs
  cases ha with
  | begun => exact ⟨hs.1, fun w hw => Option.some.inj hw ▸ hs.1⟩
  | executed he =>
      refine ⟨hs.1, fun w hw => ?_⟩
      rw [← Option.some.inj hw, users_statement (hc _ rfl) he]
      exact hs.2 _ rfl
  | committed => exact ⟨hs.2 _ rfl, nofun⟩
  | committedLate message => exact ⟨hs.2 _ rfl, nofun⟩
  | rolledBack => exact ⟨hs.1, nofun⟩
  | failed message => exact hs

/-- A command that makes one statement ends with its users, or those before. -/
theorem meets_wrote {α : Type} {st : Statement} {rest : st.Result → Repository α}
    (hrest : ∀ res, Leaves (rest res)) :
    Meets Answer AnyEvent (fun _ s => Wrote t st s.tables.users)
      (call .begin >>= fun _ => exec st >>= rest).run ⟨t, none⟩ := by
  rw [meets_fallible_bind]
  refine meets_begin (fun e => .inl rfl) ?_
  rw [continue_ok, meets_fallible_bind]
  refine meets_exec (fun e => .inl rfl) fun d res w he => ?_
  rw [continue_ok]
  refine (hrest res).meets ⟨.inl rfl, fun w' hw => ?_⟩
  rw [← Option.some.inj hw]
  exact .inr ⟨d, res, w, he, rfl⟩

/-- The first statement of an operation. -/
def Command.statement : Command → Statement
  | register command => .insertRegistered command
  | verifyEmail token verifiedAt _ => .updateVerified token verifiedAt
  | setResetToken username token sentAt _ => .updateToken .resetToken username token sentAt
  | setVerification username token sentAt _ =>
      .updateToken .emailVerificationToken username token sentAt
  | setMagicLink username token expiresAt _ =>
      .updateToken .magicLinkToken username token expiresAt
  | requestEmailChange username newEmail token sentAt _ =>
      .updateEmailChange username newEmail token sentAt
  | confirmEmailChange token confirmedAt _ => .updateConfirmed token confirmedAt
  | create command => .upsertManaged command
  | update command => .updateManaged command
  | delete username _ => .updateDeleted username

/-- Every update is such a command. -/
theorem wrote_updateAndPublish {b : Backend} {st : Statement}
    {result : st.Result → Option (String × Nat)} {notFound : String} {publishSearch : Bool} :
    Meets Answer AnyEvent (fun _ s => Wrote t st s.tables.users)
      (updateAndPublish b st result notFound publishSearch).run ⟨t, none⟩ := by
  refine meets_wrote fun res => ?_
  split
  · exact .bind leaves_abandon fun _ => .pure
  · exact .ite (.bind (.bind (leaves_exec rfl) fun _ => .bind leaves_okOr fun _ =>
      .bind (leaves_exec rfl) fun _ => leaves_exec rfl) fun _ => leaves_end) leaves_end

/-- So is storing a token with its mail. -/
theorem wrote_updateTokenWithMail {column : TokenColumn} {purpose : MailPurpose}
    {username : String} {token : Nat} {time : Int} {mail : TransactionalMail} :
    Meets Answer AnyEvent (fun _ s => Wrote t (.updateToken column username token time) s.tables.users)
      (updateTokenWithMail column purpose username token time mail).run ⟨t, none⟩ :=
  meets_wrote fun _ => .ite (.bind (leaves_exec rfl) fun _ => leaves_end) leaves_end

/-- **An operation writes to the users with its first statement only.** -/
theorem leaves_registeredMail {command : RegisterManagedUser} {user : User} : Leaves (do
    match command.mail with
    | some mail => enqueueMail mail .verifyEmail command.username command.verificationSentAt
    | none => pure ()
    call .commit
    return user) := by
  dsimp only
  split
  · exact .bind (leaves_exec rfl) fun _ => leaves_end
  · exact leaves_end

/-- A complete run of a command has written at most its own statement. -/
theorem users_runs {b : Backend} {command : Command} {calls : List (Event Call Reply Store)}
    {r : Except ApplicationError Outcome} {db : Store}
    (hr : Runs Answer (perform b command).run ⟨t, none⟩ calls (.done r) db) :
    Wrote t command.statement db.tables.users := by
  suffices h : Meets Answer AnyEvent (fun _ s => Wrote t command.statement s.tables.users)
      (perform b command).run ⟨t, none⟩ from h.of_done hr
  cases command with
  | register command =>
      rw [perform, meets_fallible_map]
      refine meets_wrote fun res => .bind leaves_okOr fun revision => .bind (leaves_exec rfl)
        fun _ => .bind leaves_okOr fun user => ?_
      exact .ite (.bind (leaves_exec rfl) fun _ => leaves_registeredMail) leaves_registeredMail
  | verifyEmail token verifiedAt publishSearch =>
      rw [perform, meets_fallible_map]
      exact wrote_updateAndPublish
  | setResetToken username token sentAt mail | setVerification username token sentAt mail
  | setMagicLink username token expiresAt mail =>
      rw [perform, meets_fallible_map]
      exact wrote_updateTokenWithMail
  | requestEmailChange username newEmail token sentAt mail =>
      rw [perform, meets_fallible_map]
      refine meets_wrote fun res => ?_
      cases res with
      | false => exact leaves_end
      | true =>
          cases mail with
          | none => exact leaves_end
          | some mail => exact .bind (leaves_exec rfl) fun _ => leaves_end
  | confirmEmailChange token confirmedAt publishSearch =>
      rw [perform, meets_fallible_map]
      exact wrote_updateAndPublish
  | create command =>
      rw [perform, meets_fallible_map]
      exact meets_wrote fun res => .bind leaves_okOr fun _ => leaves_setRolesAndPublish _ _ _ _ _
  | update command =>
      rw [perform, meets_fallible_map]
      refine meets_wrote fun res => ?_
      split
      · exact .bind leaves_abandon fun _ => .pure
      · exact .bind (leaves_setRolesAndPublish _ _ _ _ _) fun _ => .pure
  | delete username publishSearch =>
      rw [perform, meets_fallible_map]
      refine meets_wrote fun res => ?_
      split
      · exact .bind leaves_abandon fun _ => .pure
      · exact .ite (.bind (leaves_exec rfl) fun _ => leaves_end) leaves_end

/-- **A statement makes no deleted row, and renames none.** -/
theorem named_statement {d : Draw} {st : Statement} {res : st.Result}
    (he : execute t d st = some (res, w)) (ht : t.Unheld name) (hw : w.Unheld name) :
    w.Named name ↔ t.Named name := by
  have hsame : ∀ {p f}, w = updateUsers t p f → (∀ u : User, (f u).username = u.username) →
      (w.Named name ↔ t.Named name) := by
    rintro p f rfl hf
    exact Tables.named_updateUsers hf
  cases st with
  | insertRegistered command =>
      simp only [execute] at he
      split at he
      · cases he
        rfl
      · split at he <;> cases he
        exact Tables.named_insert rfl rfl hw
  | updateVerified token verifiedAt =>
      simp only [execute] at he
      split at he <;> cases he
      · rfl
      · exact hsame rfl fun _ => rfl
  | updateToken column username token time =>
      cases he
      exact hsame rfl fun u => by cases column <;> rfl
  | updateEmailChange username newEmail token sentAt =>
      simp only [execute] at he
      split at he
      · split at he <;> cases he
        exact hsame rfl fun _ => rfl
      · cases he
        rfl
  | updateConfirmed token confirmedAt =>
      simp only [execute] at he
      split at he
      · cases he
        rfl
      · split at he <;> cases he
        refine Tables.named_of_live (fun u hu => ?_) (fun _ => rfl) ht hw
        simp only [confirms, Bool.and_eq_true] at hu
        exact hu.2
  | upsertManaged command =>
      simp only [execute] at he
      split at he
      · split at he <;> cases he
        exact Tables.named_insert rfl rfl hw
      · split at he <;> cases he
        · rfl
        · exact hsame rfl fun _ => rfl
  | updateManaged command =>
      simp only [execute] at he
      split at he <;> cases he
      · rfl
      · exact hsame rfl fun _ => rfl
  | updateDeleted username =>
      simp only [execute] at he
      split at he <;> cases he
      · rfl
      · exact hsame rfl fun _ => rfl
  | _ => exact Tables.named_of_users (users_statement rfl he)

/-- A complete run names a user only as its statement does. -/
theorem named_runs {b : Backend} {command : Command} {calls : List (Event Call Reply Store)}
    {r : Except ApplicationError Outcome} {db : Store}
    (hr : Runs Answer (perform b command).run ⟨t, none⟩ calls (.done r) db)
    (ht : t.Unheld name) (hdb : db.tables.Unheld name) :
    db.tables.Named name ↔ t.Named name := by
  rcases users_runs hr with husers | ⟨d, res, w, he, husers⟩
  · exact Tables.named_of_users husers
  · rw [Tables.named_of_users husers]
    refine named_statement he ht fun v hv => ?_
    exact hdb v (husers ▸ hv)

/-! ### The request and its confirmation -/

/-- What a request that is accepted leaves. -/
theorem requested_of_runs {b : Backend} {username newEmail : String} {token : Nat} {sentAt : Int}
    {mail : Option TransactionalMail} {calls : List (Event Call Reply Store)} {db : Store}
    (hr : Runs Answer (perform b (.requestEmailChange username newEmail token sentAt mail)).run
      ⟨t, none⟩ calls (.done (.ok (.flag true))) db) :
    t.users.any (named newEmail) = false ∧ db.tables.users =
      (updateUsers t (named username) (setEmailChange newEmail token sentAt)).users := by
  have hm : Meets Answer AnyEvent (fun r s => r = .ok true →
      t.users.any (named newEmail) = false ∧ s.tables.users =
        (updateUsers t (named username) (setEmailChange newEmail token sentAt)).users)
      (requestEmailChange username newEmail token sentAt mail).run ⟨t, none⟩ := by
    rw [requestEmailChange, meets_fallible_bind]
    refine meets_begin (fun e h => by cases h) ?_
    rw [continue_ok, meets_fallible_bind]
    refine meets_exec (fun e h => by cases h) fun d res w he => ?_
    rw [continue_ok]
    simp only [execute] at he
    split at he
    next hfree =>
      have hnew : t.users.any (named newEmail) = false := by
        simp only [Bool.and_eq_true, Bool.not_eq_true'] at hfree
        exact hfree.2
      split at he <;> cases he
      cases mail with
      | none =>
          rw [meets_fallible_bind]
          exact meets_commit (fun e s h => by cases h) fun _ => ⟨hnew, rfl⟩
      | some mail =>
          rw [meets_fallible_bind]
          refine meets_exec (fun e h => by cases h) fun d res w he => ?_
          cases he
          rw [continue_ok, meets_fallible_bind]
          exact meets_commit (fun e s h => by cases h) fun _ => ⟨hnew, enqueue_users _⟩
    next hfree =>
      cases he
      cases mail <;>
      · rw [meets_fallible_bind]
        exact meets_commit (fun e s h => by cases h) fun h => by cases h
  have hflag : Meets Answer AnyEvent (fun r s => r = .ok (.flag true) →
      t.users.any (named newEmail) = false ∧ s.tables.users =
        (updateUsers t (named username) (setEmailChange newEmail token sentAt)).users)
      (perform b (.requestEmailChange username newEmail token sentAt mail)).run ⟨t, none⟩ := by
    rw [perform, meets_fallible_map]
    refine hm.imp fun r s h heq => ?_
    cases r with
    | error e => cases heq
    | ok flag =>
        cases heq
        exact h rfl
  exact hflag.of_done hr rfl

/-- A backend that fails only on a constraint. -/
def Sound (d : Draw) (s : Store) (c : Call) (r : Reply c) (s' : Store) : Prop :=
  answer d s c = (r, s')

section Sound

variable {b : Backend} {d : Draw} {st : Statement} {result : st.Result → Option (String × Nat)}
  {notFound : String} {publishSearch : Bool}

/-- One call without a fault. -/
theorem meets_sound {c : Call} {s : Store} {post : Except ApplicationError c.Value → Store → Prop}
    (h : post ((answer d s c).1.mapError .infrastructure) (answer d s c).2) :
    Meets (Sound d) AnyEvent post (call c).run s := by
  rintro r s' heq
  rw [Sound] at heq
  rw [heq] at h
  exact ⟨trivial, h⟩

/-- The update is refused. -/
theorem meets_refused (h : ∀ res w, execute t d st = some (res, w) → result res = none) :
    Meets (Sound d) AnyEvent (fun r _ => r ≠ .ok true)
      (updateAndPublish b st result notFound publishSearch).run ⟨t, none⟩ := by
  rw [updateAndPublish, meets_fallible_bind]
  refine meets_sound ?_
  change Meets _ _ _ (ExceptT.run (_ >>= _)) (Store.mk t (some t))
  rw [meets_fallible_bind]
  refine meets_sound ?_
  simp only [answer]
  cases he : execute t d st with
  | none => exact fun h => by cases h
  | some out =>
      obtain ⟨res, w⟩ := out
      change Meets _ _ _ _ (Store.mk t (some w))
      dsimp only
      rw [h res w he]
      cases b with
      | sqlite => exact fun h => by cases h
      | postgres =>
          dsimp only
          rw [meets_fallible_bind]
          exact meets_sound fun h => by cases h

/-- The update is made and published. -/
theorem meets_updated {res : st.Result} {username : String} {revision : Nat} {v : User}
    (he : execute t d st = some (res, w)) (hres : result res = some (username, revision))
    (hv : w.users.find? (named username) = some v) :
    Meets (Sound d) AnyEvent (fun r s => r = .ok true ∧ s.tables.users = w.users)
      (updateAndPublish b st result notFound publishSearch).run ⟨t, none⟩ := by
  rw [updateAndPublish, meets_fallible_bind]
  refine meets_sound ?_
  change Meets _ _ _ (ExceptT.run (_ >>= _)) (Store.mk t (some t))
  rw [meets_fallible_bind]
  refine meets_sound ?_
  simp only [answer, he]
  change Meets _ _ _ _ (Store.mk t (some w))
  dsimp only
  rw [hres]
  have hpublish : ∀ {post : Except ApplicationError Unit → Store → Prop},
      (∀ w', w'.users = w.users → post (.ok ()) ⟨t, some w'⟩) →
        Meets (Sound d) AnyEvent post (publishUser notFound username revision).run ⟨t, some w⟩ := by
    intro post h
    rw [publishUser, meets_fallible_bind]
    refine meets_sound ?_
    simp only [answer, execute, hv]
    change Meets _ _ _ (ExceptT.run (_ >>= _)) (Store.mk t (some w))
    rw [meets_fallible_bind]
    change Meets _ _ _ (ExceptT.run (_ >>= _)) (Store.mk t (some w))
    rw [meets_fallible_bind]
    refine meets_sound ?_
    change Meets _ _ _ (call (.exec (.enqueueOutbox _))).run (Store.mk t (some w))
    exact meets_sound (h _ (enqueue_users _))
  have hcommit : ∀ w' : Tables, w'.users = w.users →
      Meets (Sound d) AnyEvent (fun r s => r = .ok true ∧ s.tables.users = w.users)
        (call .commit >>= fun _ => pure true : Repository Bool).run ⟨t, some w'⟩ := by
    intro w' hw'
    rw [meets_fallible_bind]
    exact meets_sound ⟨rfl, hw'⟩
  dsimp only
  split
  · rw [meets_fallible_bind]
    exact hpublish hcommit
  · exact hcommit w rfl

/-- What the machine does is a run without faults. -/
theorem runs_sound (b : Backend) (command : Command) (d : Draw) (t : Tables) :
    Runs (Sound d) (perform b command).run ⟨t, none⟩ (run b command d t).1
      (.done (run b command d t).2.1) (run b command d t).2.2 :=
  Program.runs_execute (show ∀ (s : Store) c, Sound d (id s) c (answer d s c).1 (id (answer d s c).2)
    from fun _ _ => rfl) _ (⟨t, none⟩ : Store)

/-- A confirmation that finds no user changes nothing. -/
theorem confirm_refused {token : Nat} {confirmedAt : Int}
    (h : ∀ res w, execute t d (.updateConfirmed token confirmedAt) = some (res, w) → res = none) :
    (run b (.confirmEmailChange token confirmedAt publishSearch) d t).2.1 ≠ .ok (.flag true) := by
  suffices h : Meets (Sound d) AnyEvent (fun r _ => r ≠ .ok (.flag true))
      (perform b (.confirmEmailChange token confirmedAt publishSearch)).run ⟨t, none⟩ from
    h.of_done (runs_sound b _ d t)
  rw [perform, meets_fallible_map]
  refine (meets_refused h).imp fun r s hr heq => ?_
  cases r with
  | error e => cases heq
  | ok flag =>
      cases heq
      exact hr rfl

variable (b publishSearch) in
/-- One that finds a user gives the new email. -/
theorem confirm_made {token : Nat} {confirmedAt : Int} {username : String} {revision : Nat}
    {v : User} (he : execute t d (.updateConfirmed token confirmedAt) =
      some (some (username, revision), w)) (hv : w.users.find? (named username) = some v) :
    (run b (.confirmEmailChange token confirmedAt publishSearch) d t).2.1 = .ok (.flag true) ∧
      (run b (.confirmEmailChange token confirmedAt publishSearch) d t).2.2.tables.users =
        w.users := by
  suffices h : Meets (Sound d) AnyEvent
      (fun r s => r = .ok (.flag true) ∧ s.tables.users = w.users)
      (perform b (.confirmEmailChange token confirmedAt publishSearch)).run ⟨t, none⟩ from
    h.of_done (runs_sound b _ d t)
  rw [perform, meets_fallible_map]
  refine (meets_updated he rfl hv).imp fun r s hr => ?_
  rw [hr.1]
  exact ⟨rfl, hr.2⟩

end Sound

/-- The confirmation succeeds, when only a constraint can make it fail, and the user of
the row `id` then has the name. -/
def Renames (b : Backend) (publishSearch : Bool) (d : Draw) (t : Tables) (token : Nat)
    (confirmedAt : Int) (id : Nat) (name : String) : Prop :=
  (run b (.confirmEmailChange token confirmedAt publishSearch) d t).2.1 = .ok (.flag true) ∧
    ∃ v ∈ (run b (.confirmEmailChange token confirmedAt publishSearch) d t).2.2.tables.users,
      v.id = id ∧ named name v = true

/-- What a request that was accepted leaves in the row. -/
structure Pending (u : User) (newEmail : String) (token : Nat) (sentAt : Int) : Prop where
  live : u.live = true
  pendingEmail : u.pendingEmail = some newEmail
  emailChangeToken : u.emailChangeToken = some token
  emailChangeSentAt : u.emailChangeSentAt = some sentAt

/-- **A confirmation meets the unique index.** -/
theorem confirm_iff {u : User} {newEmail : String} {token : Nat} {sentAt confirmedAt : Int}
    (b : Backend) (publishSearch : Bool) (d : Draw) (hkeys : t.Keys) (hu : u ∈ t.users)
    (hpending : Pending u newEmail token sentAt) (hunheld : t.Unheld newEmail) :
    Renames b publishSearch d t token confirmedAt u.id newEmail ↔
      confirmedAt < sentAt + emailChangeWindow ∧ ¬t.Named newEmail := by
  have hunique : ∀ v ∈ t.users, confirms token confirmedAt v = true → v = u := by
    intro v hv hconfirms
    simp only [confirms, Bool.and_eq_true, beq_iff_eq] at hconfirms
    exact hkeys.eq_of_emailChangeToken hv hu hconfirms.1.1.1 hpending.emailChangeToken
  have hconfirms : confirms token confirmedAt u = true ↔
      confirmedAt < sentAt + emailChangeWindow := by
    simp only [confirms, hpending.emailChangeToken, hpending.emailChangeSentAt,
      hpending.pendingEmail, hpending.live, sentAfter, Option.any_some, Option.isSome_some,
      beq_self_eq_true, Bool.true_and, Bool.and_true, decide_eq_true_eq]
    omega
  have husername : u.username ≠ newEmail := by
    intro hname
    have := hunheld u hu hname
    rw [hpending.live] at this
    cases this
  have hpend : u.pendingEmail.getD u.username = newEmail := by
    rw [hpending.pendingEmail, Option.getD_some]
  by_cases hin : confirmedAt < sentAt + emailChangeWindow
  · have hfind : t.users.find? (confirms token confirmedAt) = some u :=
      find?_eq_some_of_unique hu (hconfirms.2 hin) hunique
    by_cases hnamed : t.Named newEmail
    · refine iff_of_false (fun h => confirm_refused (fun res w he => ?_) h.1) fun h => h.2 hnamed
      obtain ⟨v, hv, hname⟩ := hnamed
      have hid : v.id ≠ u.id := fun hid => husername (hkeys.eq_of_id hv hu hid ▸ hname)
      have htaken : (t.users.any fun v => v.username == newEmail && v.id != u.id) = true :=
        List.any_eq_true.2 ⟨v, hv, by simp [hname, hid]⟩
      simp only [execute, hfind, hpend, htaken, if_true] at he
      cases he
    · refine iff_of_true ?_ ⟨hin, hnamed⟩
      have hfree : (t.users.any fun v => v.username == newEmail && v.id != u.id) = false := by
        refine List.any_eq_false.2 fun v hv => ?_
        have hv : v.username ≠ newEmail := fun hname => hnamed ⟨v, hv, hname⟩
        simp [hv]
      have he : execute t d (.updateConfirmed token confirmedAt) =
          some (some (newEmail, u.searchRevision + 1),
            updateUsers t (confirms token confirmedAt) (confirm confirmedAt)) := by
        simp only [execute, hfind, hpend, hfree, Bool.false_eq_true, if_false]
      have hmem : confirm confirmedAt u ∈
          (updateUsers t (confirms token confirmedAt) (confirm confirmedAt)).users :=
        List.mem_map.2 ⟨u, hu, if_pos (hconfirms.2 hin)⟩
      have hnew : named newEmail (confirm confirmedAt u) = true := by
        have hlive : (confirm confirmedAt u).live = true := hpending.live
        have hname : (confirm confirmedAt u).username = newEmail := hpend
        rw [named, hname, hlive, beq_self_eq_true, Bool.and_self]
      obtain ⟨v, hv⟩ := Option.isSome_iff_exists.1 (List.find?_isSome.2 ⟨_, hmem, hnew⟩)
      obtain ⟨hok, husers⟩ := confirm_made b publishSearch he hv
      exact ⟨hok, confirm confirmedAt u, husers ▸ hmem, rfl, hnew⟩
  · refine iff_of_false (fun h => confirm_refused (fun res w he => ?_) h.1) fun h => hin h.1
    have hnone : t.users.find? (confirms token confirmedAt) = none :=
      List.find?_eq_none.2 fun v hv hc => hin (hconfirms.1 (hunique v hv hc ▸ hc))
    simp only [execute, hnone] at he
    cases he
    rfl

end Managed

namespace Service

variable {S : Settings} {s s' : Store}

/-- A new user takes no name from the others. -/
theorem named_insertUser {d : OAuth.Draw} {username passwordHash : String}
    (hw : (insertUser d t username passwordHash).Unheld name) :
    (insertUser d t username passwordHash).Named name ↔ t.Named name := by
  unfold insertUser at hw ⊢
  split
  · exact Tables.named_updateUsers fun _ => rfl
  next hnew =>
    rw [if_neg hnew] at hw
    exact Tables.named_insert rfl rfl hw

/-- A signup adds at most one user. -/
theorem completeSignup_users (d : OAuth.Draw) (t : Tables) (command : OAuth.CompleteOAuthSignup) :
    (completeSignup d t command).2.users = t.users ∨
      (completeSignup d t command).2.users =
        t.users ++ [OAuth.externalUser d command.username command.passwordHash] := by
  unfold completeSignup
  split
  · exact .inl rfl
  · split
    · exact .inl rfl
    · refine .inr ?_
      dsimp only
      split
      · unfold OAuth.applyWrite Tables.enqueue
        dsimp only
        split <;> rfl
      · rfl

/-- **As long as no live user has the name, no call gives it to a row or takes it away.** -/
theorem named_answer {c : Call} {r : Reply c} (ha : Answer S s c r s')
    (hs : s.tables.Unheld name) (hs' : s'.tables.Unheld name) :
    s'.tables.Named name ↔ s.tables.Named name := by
  cases ha with
  | managed hr hle hdrawn => exact Managed.named_runs hr hs hs'
  | fetched user => rfl
  | failed hc error => rfl
  | executed he =>
      cases c with
      | managed command => cases he
      | fetchUser provider code => cases he
      | updateUser update =>
          cases he
          exact Tables.named_updateUsers fun u => congrArg UserKeys.username (update.set_keys u)
      | insertUser username passwordHash =>
          cases he
          exact named_insertUser hs'
      | completeSignup command =>
          cases he
          rcases completeSignup_users s.draw s.tables command with husers | husers
          · exact Tables.named_of_users husers
          · exact Tables.named_insert husers rfl hs'
      | _ => exact Tables.named_of_users (users_execute rfl he)

/-- The row is as the request left it, and no user has taken the name. -/
structure Spared (u : User) (name : String) (s : Store) : Prop where
  row : u ∈ s.tables.users
  unheld : s.tables.Unheld name

/-- **What is spared keeps the rows of the name.** -/
theorem named_of_reaches {u : User} {cfg cfg' : Run}
    (hr : Reaches (identity S (· ≤ ·)) (fun cfg _ => Spared u name cfg.store) cfg cfg')
    (hend : Spared u name cfg'.store) :
    cfg'.store.tables.Named name ↔ cfg.store.tables.Named name := by
  induction hr with
  | refl => rfl
  | tail _ hs ih =>
      cases hs with
      | arrive s fs q => exact ih hend
      | call hi ha he => exact (named_answer he ha.unheld hend.unheld).trans (ih ha)
      | drift fs hd =>
          have htables := hd.tables
          have hbefore : Spared u name _ := ⟨htables ▸ hend.row, htables ▸ hend.unheld⟩
          exact (Tables.named_of_users (congrArg Tables.users htables)).trans (ih hbefore)

/-- A request answered with success was allowed. -/
theorem requested_of_answer {username newEmail : String} {token : Nat} {sentAt : Int}
    {mail : Option TransactionalMail}
    (ha : Answer S s (.managed (.requestEmailChange username newEmail token sentAt mail))
      (.ok (.flag true)) s') :
    s.tables.users.any (Managed.named newEmail) = false ∧ s'.tables.users =
      (Managed.updateUsers s.tables (Managed.named username)
        (Managed.setEmailChange newEmail token sentAt)).users := by
  cases ha with
  | executed he => cases he
  | managed hr hle hdrawn => exact Managed.requested_of_runs hr

/-- The row that is to be confirmed, and who has the new name. -/
theorem pending_of_answer {username newEmail : String} {token : Nat} {sentAt : Int}
    {mail : Option TransactionalMail} {u : User}
    (ha : Answer S s (.managed (.requestEmailChange username newEmail token sentAt mail))
      (.ok (.flag true)) s') (hu : u ∈ s'.tables.users) (hnamed : Managed.named username u = true) :
    Managed.Pending u newEmail token sentAt ∧
      (s'.tables.Named newEmail ↔ s.tables.Named newEmail) := by
  have husers := (requested_of_answer ha).2
  constructor
  · rw [husers] at hu
    obtain ⟨u₀, -, hu₀⟩ := List.mem_map.1 hu
    split at hu₀
    next hsel =>
      subst hu₀
      simp only [Managed.named, Bool.and_eq_true] at hsel
      exact ⟨hsel.2, rfl, rfl, rfl⟩
    next hsel => exact absurd (hu₀ ▸ hnamed) hsel
  · rw [Tables.named_of_users husers]
    exact Tables.named_updateUsers (f := Managed.setEmailChange newEmail token sentAt) fun _ => rfl

/-- **An accepted change of the address can be confirmed for less than an hour**, when no
deleted user has the new name. -/
theorem email_change_confirmed_iff {cfg cfg₁ cfg₂ cfg₃ : Run} {username newEmail : String}
    {token : Nat} {sentAt confirmedAt : Int} {mail : Option TransactionalMail} {u : User}
    (hlaunched : Launched cfg) (hreach : Reaches (identity S (· ≤ ·)) AnyStep cfg cfg₁)
    (hrequest : Answer S cfg₁.store
      (.managed (.requestEmailChange username newEmail token sentAt mail)) (.ok (.flag true))
      cfg₂.store)
    (hu : u ∈ cfg₂.store.tables.users) (hnamed : Managed.named username u = true)
    (hbetween : Reaches (identity S (· ≤ ·)) (fun cfg _ => Spared u newEmail cfg.store) cfg₂ cfg₃)
    (hspared : Spared u newEmail cfg₃.store)
    (hwithin : confirmedAt ≤ sentAt + Managed.emailChangeWindow) (publishSearch : Bool)
    (d : Managed.Draw) :
    Managed.Renames S.backend publishSearch d cfg₃.store.tables token confirmedAt u.id newEmail ↔
      confirmedAt ≠ sentAt + Managed.emailChangeWindow ∧
        ∀ v ∈ cfg₁.store.tables.users, v.live = false → v.username ≠ newEmail := by
  have hfree := (requested_of_answer hrequest).1
  obtain ⟨hpending, hnames₁⟩ := pending_of_answer hrequest hu hnamed
  have hkeyed : cfg₃.store.Keyed :=
    hbetween.store_invariant (fun _ _ _ _ h ha => keyed_answer h ha)
      (fun _ _ h hd => keyed_drift h hd) (keyed_answer (keys_of_reaches hreach hlaunched) hrequest)
  have hnames : cfg₃.store.tables.Named newEmail ↔
      ∃ v ∈ cfg₁.store.tables.users, v.live = false ∧ v.username = newEmail := by
    rw [named_of_reaches hbetween hspared, hnames₁]
    refine exists_congr fun v => and_congr_right fun hv => ⟨fun hname => ⟨?_, hname⟩, And.right⟩
    have := List.any_eq_false.1 hfree v hv
    simpa [Managed.named, hname] using this
  refine (Managed.confirm_iff S.backend publishSearch d hkeyed.tables hspared.row hpending
    hspared.unheld).trans (and_congr ?_ ?_)
  · exact ⟨fun h heq => absurd h (heq ▸ Int.lt_irrefl _), fun h => lt_of_le_of_ne hwithin h⟩
  · rw [hnames]
    simp only [not_exists, not_and]

/-! ### An account that was deleted -/

/-- Two accounts are registered, and one of them deletes itself. -/
def bobDeleted : Schedule :=
  serveAt 0 (.register "alice" "secret") 3 ++ serveAt 1 (.register "bob" "secret") 3 ++
    serveAt 2 (.login "bob" "secret") 6 ++ serveAt 3 (.deleteAccount 4 "secret") 9

/-- The request that is made then, with the tables it leaves. -/
def requested (newEmail : String) (s : Store) :=
  Managed.run .sqlite (.requestEmailChange "alice" newEmail 100 0 none)
    ⟨s.drawn, s.drawn, s.now⟩ s.tables

/-- It is accepted, and nobody has the name. -/
def accepted (newEmail : String) (s : Store) : Bool :=
  let out := requested newEmail s
  (out.2.1 matches .ok (.flag true)) &&
    (out.2.2.tables.users.all fun u => decide (u.id < s.drawn) && decide (u.pid < s.drawn)) &&
    out.2.2.tables.users.any (Managed.named "alice") &&
    out.2.2.tables.users.all fun v => v.username != newEmail || !v.live

/-- In some run a user is deleted and another asks for their address. -/
theorem exists_bobDeleted : ∃ cfg : Run,
    Reaches (identity plainSettings (· ≤ ·)) AnyStep fresh cfg ∧
      accepted "bob" cfg.store = true ∧ accepted "carol" cfg.store = true ∧
      (∃ v ∈ cfg.store.tables.users, v.live = false ∧ v.username = "bob") ∧
      ∀ v ∈ cfg.store.tables.users, v.live = false → v.username ≠ "carol" := by
  have hplay : (((identityMachine plainSettings).play (fun _ _ => true) fresh bobDeleted).any
      fun cfg => decide (accepted "bob" cfg.store = true ∧ accepted "carol" cfg.store = true ∧
        (∃ v ∈ cfg.store.tables.users, v.live = false ∧ v.username = "bob") ∧
        ∀ v ∈ cfg.store.tables.users, v.live = false → v.username ≠ "carol")) = true := by
    decide +kernel
  obtain ⟨cfg, hr, hcheck⟩ := Machine.exists_of_play AnyStep (fun _ _ _ => trivial) hplay
  exact ⟨cfg, hr, of_decide_eq_true hcheck⟩

/-- The store after a request that is accepted. -/
theorem answer_of_accepted {newEmail : String} (h : accepted newEmail s = true) :
    ∃ s' u, Answer plainSettings s
      (.managed (.requestEmailChange "alice" newEmail 100 0 none)) (.ok (.flag true)) s' ∧
      Managed.named "alice" u = true ∧ Spared u newEmail s' := by
  simp only [accepted, Bool.and_eq_true] at h
  obtain ⟨⟨⟨hflag, hdrawn⟩, hnamed⟩, hunheld⟩ := h
  obtain ⟨u, hu, hnamed⟩ := List.any_eq_true.1 hnamed
  have hflag : (requested newEmail s).2.1 = .ok (.flag true) := by
    split at hflag
    next heq => exact heq
    next => cases hflag
  have hr : Runs Managed.Answer
      (Managed.perform .sqlite (.requestEmailChange "alice" newEmail 100 0 none)).run
      ⟨s.tables, none⟩ (requested newEmail s).1 (.done (.ok (.flag true))) (requested newEmail s).2.2 :=
    hflag ▸ Managed.runs_run ..
  refine ⟨_, u, .managed hr (Nat.le_refl _) fun v hv => ?_, hnamed, hu, fun v hv hname => ?_⟩
  · simpa using List.all_eq_true.1 hdrawn v hv
  · have := List.all_eq_true.1 hunheld v hv
    simpa [hname] using this

/-- The name of nobody. -/
theorem email_change_confirmed_carol : ∃ (cfg₁ cfg₂ : Run) (u : User),
    Reaches (identity plainSettings (· ≤ ·)) AnyStep fresh cfg₁ ∧
      Answer plainSettings cfg₁.store
        (.managed (.requestEmailChange "alice" "carol" 100 0 none)) (.ok (.flag true)) cfg₂.store ∧
      Managed.Renames .sqlite false ⟨0, 0, 1⟩ cfg₂.store.tables 100 1 u.id "carol" := by
  obtain ⟨cfg₁, hr, -, haccepted, -, hfree⟩ := exists_bobDeleted
  obtain ⟨s', u, hrequest, hnamed, hspared⟩ := answer_of_accepted haccepted
  refine ⟨cfg₁, ⟨s', []⟩, u, hr, hrequest, ?_⟩
  have hbetween : Reaches (identity plainSettings (· ≤ ·)) (fun cfg _ => Spared u "carol" cfg.store)
      ⟨s', []⟩ ⟨s', []⟩ := .refl
  exact (email_change_confirmed_iff launched_fresh hr hrequest hspared.row hnamed
    hbetween hspared (by decide) false ⟨0, 0, 1⟩).2 ⟨by decide, hfree⟩

/-- The name of a deleted user: the request is accepted, nobody touches the user or takes
the name, and a moment later the confirmation fails. -/
theorem email_change_to_deleted_name_fails : ∃ (cfg₁ cfg₂ : Run) (u : User),
    Reaches (identity plainSettings (· ≤ ·)) AnyStep fresh cfg₁ ∧
      Answer plainSettings cfg₁.store
        (.managed (.requestEmailChange "alice" "bob" 100 0 none)) (.ok (.flag true)) cfg₂.store ∧
      Managed.named "alice" u = true ∧ Spared u "bob" cfg₂.store ∧
      ¬Managed.Renames .sqlite false ⟨0, 0, 1⟩ cfg₂.store.tables 100 1 u.id "bob" := by
  obtain ⟨cfg₁, hr, haccepted, -, ⟨v, hv, -, hname⟩, -⟩ := exists_bobDeleted
  obtain ⟨s', u, hrequest, hnamed, hspared⟩ := answer_of_accepted haccepted
  refine ⟨cfg₁, ⟨s', []⟩, u, hr, hrequest, hnamed, hspared, fun h => ?_⟩
  have hkeyed : s'.Keyed := keyed_answer (keys_of_reaches hr launched_fresh) hrequest
  obtain ⟨hpending, hnames⟩ := pending_of_answer hrequest hspared.row hnamed
  exact ((Managed.confirm_iff .sqlite false ⟨0, 0, 1⟩ hkeyed.tables hspared.row hpending
    hspared.unheld).1 h).2 (hnames.2 ⟨v, hv, hname⟩)

end Service

end Identity
end Hegira
