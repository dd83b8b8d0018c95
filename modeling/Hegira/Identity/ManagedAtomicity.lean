/-
# A mutation of a user and its message are one

Every operation of the user writer, on tables that keep the constraints of the schema
and the law of the outbox (`Consistent`), whatever statement fails: when it returns
with an effect, the row that the command names has a new revision and the outbox one new
search command that describes the row (`Published`, `Command.Makes`); when it returns
without effect, the tables are as before.  When it fails they are as before too, unless
the commit was made and its answer lost: then they are those of the operation that
returns.

The first statement changes one row (`Mutated`), and the rest publishes what is then
committed.  A commit is the last call of every operation (`CommitsLast`), so a run that
fails for its answer is, but for the answer, a run that does not.
-/

import Mathlib.Data.List.Pairwise
import Hegira.Identity.ManagedWriter

namespace Hegira
namespace Identity
namespace Managed

open Fallible (spec_bind spec_map spec_pure spec_throw)

/-! ### The tables -/

/-- The rows share no unique key. -/
structure Keyed (u v : User) : Prop where
  id : u.id ≠ v.id
  pid : u.pid ≠ v.pid
  username : u.username ≠ v.username

/-- The rows share no token. -/
def Apart (column : User → Option Nat) (u v : User) : Prop :=
  ∀ token, column u = some token → column v ≠ some token

/-- The constraints of the schema; the tokens of verification mails, which are made to
be unique; and a search command is of a user's revision. -/
structure Consistent (t : Tables) : Prop where
  users : t.users.Pairwise Keyed
  verificationTokens : t.users.Pairwise (Apart User.emailVerificationToken)
  changeTokens : t.users.Pairwise (Apart User.emailChangeToken)
  roleUsers : ∀ r ∈ t.userRoles, ∃ u ∈ t.users, u.id = r.userId
  revisions : ∀ m ∈ t.outbox, ∀ pid revision, m.key = .search pid revision →
    ∃ u ∈ t.users, u.pid = pid ∧ revision ≤ u.searchRevision

/-- The message is a search command. -/
def isSearch (m : OutboxMessage) : Bool :=
  match m.key with
  | .search .. => true
  | .mail .. => false

/-- The search commands of the outbox. -/
def searchMessages (t : Tables) : List OutboxMessage := t.outbox.filter isSearch

/-- One row, that of `u`, is new or has a higher revision; the others are as before. -/
structure Mutated (t t' : Tables) (u : User) : Prop where
  users : t'.users.Pairwise Keyed
  mem : u ∈ t'.users
  others : ∀ v, v.pid ≠ u.pid → (v ∈ t'.users ↔ v ∈ t.users)
  revision : ∀ v ∈ t.users, v.pid = u.pid → v.searchRevision < u.searchRevision
  id : ∀ v ∈ t.users, v.pid = u.pid ↔ v.id = u.id

/-- The command describes the row and its roles. -/
def Describes (t : Tables) (u : User) (deleted : Bool) (command : SearchIndexCommand) : Prop :=
  if deleted then command = .delete u.pid u.searchRevision
  else ∃ roles, command = .upsert (documentOf u roles) u.searchRevision ∧
    ∀ role, role ∈ roles ↔ ⟨u.id, role⟩ ∈ t.userRoles

/-- A mutation of a user with its search command. -/
structure Published (t t' : Tables) (deleted : Bool) (u : User) : Prop extends Mutated t t' u where
  live : u.live = !deleted
  message : ∃ command, Describes t' u deleted command ∧
    searchMessages t' = searchMessages t ++ [⟨.search u.pid u.searchRevision, .search command⟩]

namespace Command

/-- The operation has `publish_search`, and it is set. -/
def publishes : Command → Bool
  | register command => command.publishSearch
  | verifyEmail _ _ publishSearch => publishSearch
  | confirmEmailChange _ _ publishSearch => publishSearch
  | create command => command.publishSearch
  | update command => command.publishSearch
  | delete _ publishSearch => publishSearch
  | _ => false

/-- The operation is a deletion. -/
def deletes : Command → Bool
  | delete .. => true
  | _ => false

end Command

/-- The operation has had an effect. -/
def Outcome.effective : Outcome → Bool
  | .user _ => true
  | .updated u => u.isSome
  | .flag b => b

namespace Command

/-- `u` is what the command makes of the row it names, or a new row of that name. -/
def Makes (t : Tables) (u : User) : Command → Prop
  | register command => ∃ d, u = registered d command
  | verifyEmail token verifiedAt _ =>
      ∃ v ∈ t.users, verifies token verifiedAt v = true ∧ u = verify verifiedAt v
  | confirmEmailChange token confirmedAt _ =>
      ∃ v ∈ t.users, confirms token confirmedAt v = true ∧ u = confirm confirmedAt v
  | create command =>
      (∃ d, u = created d command) ∨
        ∃ v ∈ t.users, v.username = command.username ∧ v.live = false ∧ u = restore command v
  | update command => ∃ v ∈ t.users, named command.username v = true ∧ u = Managed.update command v
  | delete username _ =>
      ∃ v ∈ t.users, named username v = true ∧ ∃ now, u = softDelete now v
  | _ => False

/-- The roles that the command gives the user. -/
def roles : Command → Option (List String)
  | create command => some command.roles
  | update command => some command.roles
  | _ => none

end Command

/-- What an operation that returns has done. -/
def Settled (command : Command) (t : Tables) (outcome : Outcome) (t' : Tables) : Prop :=
  if outcome.effective then
    command.publishes = true → ∃ u, Published t t' command.deletes u ∧ command.Makes t u ∧
      ∀ roles, command.roles = some roles → ∀ role, role ∈ roles ↔ ⟨u.id, role⟩ ∈ t'.userRoles
  else t' = t

/-- A commit was answered by an error. -/
def CommitFailed : Event Call Reply Store → Prop
  | ⟨_, .commit, .error _, _⟩ => True
  | _ => False

/-- What an operation may come to. -/
def Atomic (b : Backend) (command : Command) (t : Tables) (calls : List (Event Call Reply Store))
    (r : Except ApplicationError Outcome) (t' : Tables) : Prop :=
  match r with
  | .ok outcome => Settled command t outcome t'
  | .error _ =>
      t' = t ∨ (∃ e ∈ calls, CommitFailed e) ∧ ∃ outcome, Settled command t outcome t' ∧
        ∃ calls' s, Runs Answer (perform b command).run ⟨t, none⟩ calls' (.done (.ok outcome)) s ∧
          s.tables = t'

section Users

variable {l : List User} {u v : User} {p : User → Bool} {f : User → User}

/-- Sharing no key is symmetric. -/
theorem Keyed.symm (h : Keyed u v) : Keyed v u := ⟨h.id.symm, h.pid.symm, h.username.symm⟩

instance : Std.Symm Keyed := ⟨fun _ _ => Keyed.symm⟩

/-- Two users of the table share no key. -/
theorem keyed_of_mem (h : l.Pairwise Keyed) (hu : u ∈ l) (hv : v ∈ l) (hne : u ≠ v) : Keyed u v :=
  h.forall hu hv hne

/-- A key of a user names one user. -/
theorem eq_of_id (h : l.Pairwise Keyed) (hu : u ∈ l) (hv : v ∈ l) (hid : u.id = v.id) : u = v := by
  by_contra hne
  exact (keyed_of_mem h hu hv hne).id hid

theorem eq_of_pid (h : l.Pairwise Keyed) (hu : u ∈ l) (hv : v ∈ l) (hpid : u.pid = v.pid) :
    u = v := by
  by_contra hne
  exact (keyed_of_mem h hu hv hne).pid hpid

theorem eq_of_username (h : l.Pairwise Keyed) (hu : u ∈ l) (hv : v ∈ l)
    (hname : u.username = v.username) : u = v := by
  by_contra hne
  exact (keyed_of_mem h hu hv hne).username hname

/-- A token names one user. -/
theorem eq_of_token {column : User → Option Nat} (h : l.Pairwise (Apart column)) (hu : u ∈ l)
    (hv : v ∈ l) {token : Nat} (htu : column u = some token) (htv : column v = some token) :
    u = v := by
  have : Std.Symm (Apart column) := ⟨fun _ _ h t ha hb => h t hb ha⟩
  by_contra hne
  exact h.forall hu hv hne token htu htv

/-- The row that a predicate finds, when it finds only that one. -/
theorem find?_eq_some_of_unique (hu : u ∈ l) (hp : p u = true) (h : ∀ v ∈ l, p v = true → v = u) :
    l.find? p = some u := by
  cases hf : l.find? p with
  | none => exact absurd hp (List.find?_eq_none.1 hf u hu)
  | some v => rw [h v (List.mem_of_find?_eq_some hf) (List.find?_some hf)]

/-- The rows after an update of one user. -/
theorem mem_update (huniq : ∀ v ∈ l, p v = true → v = u) (hv : v ∈ l.map fun u => if p u then f u else u) :
    v = f u ∨ v ∈ l ∧ p v = false := by
  obtain ⟨w, hw, rfl⟩ := List.mem_map.1 hv
  by_cases hp : p w = true
  · rw [if_pos hp, huniq w hw hp]
    exact Or.inl rfl
  · rw [if_neg hp]
    exact Or.inr ⟨hw, by simpa using hp⟩

/-- A relation of the rows holds after one of them is changed, when it holds of the
changed row and the others. -/
theorem pairwise_update {R : User → User → Prop} [Std.Symm R] (hk : l.Pairwise Keyed)
    (h : l.Pairwise R) (huniq : ∀ v ∈ l, p v = true → v = u)
    (hnew : ∀ v ∈ l, v ≠ u → R v (f u)) : (l.map fun u => if p u then f u else u).Pairwise R := by
  rw [List.pairwise_map]
  refine (hk.and h).imp_of_mem ?_
  intro a b ha hb ⟨hkab, hab⟩
  have hne : ∀ c ∈ l, p c = false → (p a = true ∨ p b = true) → p u = true → c ≠ u := by
    rintro c - hc - hpu rfl
    rw [hpu] at hc
    cases hc
  by_cases hpa : p a = true <;> by_cases hpb : p b = true
  · have := (huniq a ha hpa).trans (huniq b hb hpb).symm
    subst this
    exact absurd rfl hkab.id
  · rw [if_pos hpa, if_neg hpb, huniq a ha hpa]
    have hpu : p u = true := huniq a ha hpa ▸ hpa
    exact Std.Symm.symm _ _ (hnew b hb (hne b hb (by simpa using hpb) (Or.inl hpa) hpu))
  · rw [if_neg hpa, if_pos hpb, huniq b hb hpb]
    have hpu : p u = true := huniq b hb hpb ▸ hpb
    exact hnew a ha (hne a ha (by simpa using hpa) (Or.inr hpb) hpu)
  · rw [if_neg hpa, if_neg hpb]
    exact hab

/-- An update that matches no user changes nothing. -/
theorem updateUsers_of_none {t : Tables} (h : ∀ u ∈ t.users, p u = false) :
    updateUsers t p f = t := by
  have : (t.users.map fun u => if p u then f u else u) = t.users := by
    conv => rhs; rw [← List.map_id t.users]
    refine List.map_congr_left fun u hu => ?_
    rw [h u hu]
    rfl
  rw [updateUsers, this]

end Users

/-- **An update of one row that raises its revision.** -/
theorem mutated_update {t : Tables} {p : User → Bool} {f : User → User} {u : User}
    (h : t.users.Pairwise Keyed) (hu : u ∈ t.users) (hp : p u = true)
    (huniq : ∀ v ∈ t.users, p v = true → v = u) (hid : (f u).id = u.id) (hpid : (f u).pid = u.pid)
    (hrev : (f u).searchRevision = u.searchRevision + 1)
    (hname : ∀ v ∈ t.users, v ≠ u → v.username ≠ (f u).username) :
    Mutated t (updateUsers t p f) (f u) := by
  have hkeyed : ∀ v ∈ t.users, v ≠ u → Keyed v (f u) := by
    intro v hv hne
    have := keyed_of_mem h hv hu hne
    exact ⟨hid ▸ this.id, hpid ▸ this.pid, hname v hv hne⟩
  refine ⟨pairwise_update h h huniq hkeyed, ?_, ?_, ?_, ?_⟩
  · exact List.mem_map.2 ⟨u, hu, by rw [if_pos hp]⟩
  · intro v hne
    rw [hpid] at hne
    constructor
    · intro hv
      rcases mem_update huniq hv with rfl | ⟨hv, -⟩
      · exact absurd hpid hne
      · exact hv
    · intro hv
      refine List.mem_map.2 ⟨v, hv, if_neg fun hpv => hne ?_⟩
      rw [huniq v hv hpv]
  · intro v hv hvp
    rw [eq_of_pid h hv hu (hvp.trans hpid)]
    omega
  · intro v hv
    rw [hid, hpid]
    constructor
    · exact fun hvp => by rw [eq_of_pid h hv hu hvp]
    · exact fun hvi => by rw [eq_of_id h hv hu hvi]

/-- **A new row.** -/
theorem mutated_insert {t : Tables} {d : Draw} {u : User} (h : t.users.Pairwise Keyed)
    (hfree : taken t d = false) (hname : ∀ v ∈ t.users, v.username ≠ u.username)
    (hid : u.id = d.id) (hpid : u.pid = d.pid) :
    Mutated t { t with users := t.users ++ [u] } u ∧ ∀ v ∈ t.users, v.id ≠ u.id := by
  have hnew : ∀ v ∈ t.users, v.id ≠ u.id ∧ v.pid ≠ u.pid := by
    intro v hv
    have := List.any_eq_false.1 hfree v hv
    rw [hid, hpid]
    simpa using this
  refine ⟨⟨?_, ?_, ?_, ?_, ?_⟩, fun v hv => (hnew v hv).1⟩
  · rw [List.pairwise_append]
    refine ⟨h, List.pairwise_singleton _ _, ?_⟩
    intro v hv w hw
    rw [List.mem_singleton.1 hw]
    exact ⟨(hnew v hv).1, (hnew v hv).2, hname v hv⟩
  · exact List.mem_append_right _ (List.mem_singleton_self u)
  · intro v hne
    rw [List.mem_append, List.mem_singleton]
    exact or_iff_left fun hv => hne (hv ▸ rfl)
  · exact fun v hv hvp => absurd hvp (hnew v hv).2
  · exact fun v hv => iff_of_false (hnew v hv).2 (hnew v hv).1

/-! ### The working copy -/

/-- The token that a verification mail carries is new. -/
def Fresh (t : Tables) : Command → Prop
  | .register command => ∀ u ∈ t.users, u.emailVerificationToken ≠ some command.verificationToken
  | .setVerification _ token _ _ => ∀ u ∈ t.users, u.emailVerificationToken ≠ some token
  | _ => True

/-- The working copy of an operation on the row of `u`. -/
structure Staged (fresh : Prop) (t w : Tables) (u : User) : Prop extends Mutated t w u where
  verificationTokens : fresh → w.users.Pairwise (Apart User.emailVerificationToken)
  changeTokens : w.users.Pairwise (Apart User.emailChangeToken)
  roles : ∀ r ∈ w.userRoles, r ∈ t.userRoles ∨ r.userId = u.id
  outbox : ∀ m ∈ w.outbox, m ∈ t.outbox ∨ m.key = .search u.pid u.searchRevision ∨
    ∃ purpose username micros, m.key = .mail purpose username micros

section Staged

variable {fresh : Prop} {t w : Tables} {u : User}

/-- A row that others refer to is still there. -/
theorem Mutated.exists_of_pid (h : Mutated t w u) {v : User} (hv : v ∈ t.users) :
    ∃ v' ∈ w.users, v'.id = v.id ∧ v'.pid = v.pid ∧ v.searchRevision ≤ v'.searchRevision := by
  by_cases hpid : v.pid = u.pid
  · exact ⟨u, h.mem, ((h.id v hv).1 hpid).symm, hpid.symm, Nat.le_of_lt (h.revision v hv hpid)⟩
  · exact ⟨v, (h.others v hpid).2 hv, rfl, rfl, Nat.le_refl _⟩

/-- **The working copy keeps the constraints.** -/
theorem Staged.consistent (ht : Consistent t) (h : Staged fresh t w u) (hf : fresh) :
    Consistent w := by
  refine ⟨h.users, h.verificationTokens hf, h.changeTokens, ?_, ?_⟩
  · intro r hr
    rcases h.roles r hr with hold | hown
    · obtain ⟨v, hv, hid⟩ := ht.roleUsers r hold
      obtain ⟨v', hv', hid', -⟩ := h.exists_of_pid hv
      exact ⟨v', hv', hid'.trans hid⟩
    · exact ⟨u, h.mem, hown.symm⟩
  · intro m hm pid revision hkey
    rcases h.outbox m hm with hold | hown | ⟨purpose, username, micros, hmail⟩
    · obtain ⟨v, hv, hpid, hle⟩ := ht.revisions m hold pid revision hkey
      obtain ⟨v', hv', -, hpid', hle'⟩ := h.exists_of_pid hv
      exact ⟨v', hv', hpid'.trans hpid, Nat.le_trans hle hle'⟩
    · obtain ⟨rfl, rfl⟩ := OutboxKey.search.inj (hown.symm.trans hkey)
      exact ⟨u, h.mem, rfl, Nat.le_refl _⟩
    · rw [hmail] at hkey
      cases hkey

/-- No message has the key of the new revision. -/
theorem Mutated.key_free (ht : Consistent t) (h : Mutated t w u) :
    ∀ m ∈ searchMessages t, m.key ≠ .search u.pid u.searchRevision := by
  intro m hm hkey
  obtain ⟨v, hv, hpid, hle⟩ := ht.revisions m (List.mem_filter.1 hm).1 _ _ hkey
  have := h.revision v hv hpid
  omega

/-- A search message of the outbox. -/
theorem mem_searchMessages {m : OutboxMessage} {pid revision : Nat} (hm : m ∈ w.outbox)
    (hkey : m.key = .search pid revision) : m ∈ searchMessages w :=
  List.mem_filter.2 ⟨hm, by rw [isSearch, hkey]⟩

/-- A message with a new key is added. -/
theorem enqueue_of_free {m : OutboxMessage} (h : ∀ m' ∈ w.outbox, m'.key ≠ m.key) :
    w.enqueue m = { w with outbox := w.outbox ++ [m] } := by
  refine if_neg fun hany => ?_
  obtain ⟨m', hm', hkey⟩ := List.any_eq_true.1 hany
  exact h m' hm' (by simpa using hkey)

/-- A message leaves users and roles. -/
@[simp] theorem enqueue_users (m : OutboxMessage) : (w.enqueue m).users = w.users := by
  unfold Tables.enqueue
  split <;> rfl

@[simp] theorem enqueue_userRoles (m : OutboxMessage) : (w.enqueue m).userRoles = w.userRoles := by
  unfold Tables.enqueue
  split <;> rfl

/-- It adds nothing but itself. -/
theorem enqueue_outbox {m m' : OutboxMessage} (h : m' ∈ (w.enqueue m).outbox) :
    m' ∈ w.outbox ∨ m' = m := by
  unfold Tables.enqueue at h
  split at h
  · exact Or.inl h
  · simpa using h

/-- A mail leaves the search commands as they are. -/
theorem searchMessages_mail {purpose : MailPurpose} {username : String} {micros : Int}
    {payload : OutboxPayload} :
    searchMessages (w.enqueue ⟨.mail purpose username micros, payload⟩) = searchMessages w := by
  unfold Tables.enqueue
  split
  · rfl
  · simp [searchMessages, isSearch]

/-- What was mutated is about the users only. -/
theorem Mutated.of_users {w' : Tables} (h : Mutated t w u) (hw : w'.users = w.users) :
    Mutated t w' u :=
  ⟨hw ▸ h.users, hw ▸ h.mem, fun v hv => hw ▸ h.others v hv, h.revision, h.id⟩

/-- A staged change may enqueue its search message and mails. -/
theorem Staged.enqueue (h : Staged fresh t w u) {m : OutboxMessage}
    (hm : m.key = .search u.pid u.searchRevision ∨
      ∃ purpose username micros, m.key = .mail purpose username micros) :
    Staged fresh t (w.enqueue m) u := by
  refine ⟨h.toMutated.of_users (enqueue_users m), ?_, ?_, ?_, ?_⟩
  · rw [enqueue_users]
    exact h.verificationTokens
  · rw [enqueue_users]
    exact h.changeTokens
  · rw [enqueue_userRoles]
    exact h.roles
  · intro m' hm'
    rcases enqueue_outbox hm' with hold | rfl
    · exact h.outbox m' hold
    · exact Or.inr hm

/-- **The search command of the new revision is a new message.** -/
theorem Staged.publish (ht : Consistent t) (h : Staged fresh t w u)
    (hquiet : searchMessages w = searchMessages t) {deleted : Bool} (hlive : u.live = !deleted)
    {command : SearchIndexCommand} (hd : Describes w u deleted command) :
    Published t (w.enqueue ⟨.search u.pid u.searchRevision, .search command⟩) deleted u := by
  have hfree : ∀ m ∈ w.outbox, m.key ≠ .search u.pid u.searchRevision := fun m hm hkey =>
    h.key_free ht m (hquiet ▸ mem_searchMessages hm hkey) hkey
  rw [enqueue_of_free hfree]
  refine ⟨h.toMutated.of_users rfl, hlive, command, hd, ?_⟩
  rw [← hquiet, searchMessages, List.filter_append]
  rfl

end Staged

/-! ### Contracts -/

section Contract

variable {b : Backend} {α : Type} {t w : Tables}

abbrev AnyEvent : Event Call Reply Store → Prop := fun _ => True

/-- What is left to show after a begin. -/
theorem meets_begin {post : Except ApplicationError Unit → Store → Prop}
    (herr : ∀ e, post (.error e) ⟨t, none⟩) (hok : post (.ok ()) ⟨t, some t⟩) :
    Meets Answer AnyEvent post (call .begin).run ⟨t, none⟩ := by
  intro r s' ha
  refine ⟨trivial, ?_⟩
  cases ha with
  | begun => exact hok
  | failed message => exact herr _

/-- After a statement. -/
theorem meets_exec {st : Statement} {post : Except ApplicationError st.Result → Store → Prop}
    (herr : ∀ e, post (.error e) ⟨t, some w⟩)
    (hok : ∀ d res w', execute w d st = some (res, w') → post (.ok res) ⟨t, some w'⟩) :
    Meets Answer AnyEvent post (exec st).run ⟨t, some w⟩ := by
  intro r s' ha
  refine ⟨trivial, ?_⟩
  cases ha with
  | executed he => exact hok _ _ _ he
  | failed message => exact herr _

/-- After a commit. -/
theorem meets_commit {post : Except ApplicationError Unit → Store → Prop}
    (herr : ∀ e s, post (.error e) s) (hok : post (.ok ()) ⟨w, none⟩) :
    Meets Answer AnyEvent post (call .commit).run ⟨t, some w⟩ := by
  intro r s' ha
  refine ⟨trivial, ?_⟩
  cases ha with
  | committed => exact hok
  | committedLate message => exact herr _ _
  | failed message => exact herr _ _

/-- After the transaction was abandoned. -/
theorem meets_abandon {post : Except ApplicationError Unit → Store → Prop}
    (h : ∀ r w', post r ⟨t, w'⟩) : Meets Answer AnyEvent post b.abandon.run ⟨t, some w⟩ := by
  cases b with
  | sqlite => exact h _ _
  | postgres =>
      intro r s' ha
      refine ⟨trivial, ?_⟩
      cases ha with
      | rolledBack => exact h _ _
      | failed message => exact h _ _

/-! Of the errors nothing is asked here: what they leave is told by `CommitsLast`. -/

/-- The same for the runs that succeed. -/
theorem spec_begin {post : Unit → Store → Prop} (h : post () ⟨t, some t⟩) :
    (call .begin).Spec Answer AnyEvent post ⟨t, none⟩ :=
  meets_begin (fun _ _ hr => by cases hr) fun _ _ => h

theorem spec_exec {st : Statement} {post : st.Result → Store → Prop}
    (h : ∀ d res w', execute w d st = some (res, w') → post res ⟨t, some w'⟩) :
    (exec st).Spec Answer AnyEvent post ⟨t, some w⟩ := by
  refine meets_exec (fun _ _ hr => by cases hr) fun d res w' he a ha => ?_
  cases ha
  exact h d res w' he

theorem spec_commit {post : Unit → Store → Prop} (h : post () ⟨w, none⟩) :
    (call .commit).Spec Answer AnyEvent post ⟨t, some w⟩ :=
  meets_commit (fun _ _ _ hr => by cases hr) fun _ _ => h

theorem spec_abandon {post : Unit → Store → Prop} (h : ∀ w', post () ⟨t, w'⟩) :
    b.abandon.Spec Answer AnyEvent post ⟨t, some w⟩ :=
  meets_abandon fun _ w' _ _ => h w'

theorem spec_okOr {error : ApplicationError} {o : Option α} {s : Store} {post : α → Store → Prop}
    (h : ∀ a, o = some a → post a s) : (okOr error o).Spec Answer AnyEvent post s := by
  cases o with
  | none => exact spec_throw
  | some a => exact spec_pure.2 (h a rfl)

/-- The user that is read back is the one that has been written. -/
theorem execute_selectUser {d : Draw} {u : User} {res : Option User} {w' : Tables}
    (h : w.users.Pairwise Keyed) (hu : u ∈ w.users) (hlive : u.live = true)
    (he : execute w d (.selectUser u.username) = some (res, w')) : res = some u ∧ w' = w := by
  have hfind : w.users.find? (named u.username) = some u := by
    refine find?_eq_some_of_unique hu (by simp [named, hlive]) fun v hv hp => ?_
    simp only [named, Bool.and_eq_true, beq_iff_eq] at hp
    exact eq_of_username h hv hu hp.1
  simp only [execute, hfind, Option.some.injEq, Prod.mk.injEq] at he
  exact ⟨he.1.symm, he.2.symm⟩

/-- The roles of a user. -/
theorem mem_rolesOf {userId : Nat} {role : String} :
    role ∈ rolesOf w userId ↔ ⟨userId, role⟩ ∈ w.userRoles := by
  simp only [rolesOf, List.mem_mergeSort, List.mem_map, List.mem_filter, beq_iff_eq]
  constructor
  · rintro ⟨r, ⟨hr, rfl⟩, rfl⟩
    exact hr
  · exact fun h => ⟨_, ⟨h, rfl⟩, rfl⟩

/-- The roles after the loop: those before, and the new ones. -/
theorem spec_insertRoles {id : Nat} {roles : List String} {post : Unit → Store → Prop}
    (hok : ∀ userRoles, (∀ r, r ∈ userRoles ↔ r ∈ w.userRoles ∨ r.userId = id ∧ r.roleName ∈ roles) →
      post () ⟨t, some { w with userRoles := userRoles }⟩) :
    (insertRoles id roles).Spec Answer AnyEvent post ⟨t, some w⟩ := by
  induction roles generalizing w with
  | nil => exact spec_pure.2 (hok w.userRoles fun r => by simp)
  | cons role roles ih =>
      rw [insertRoles, spec_bind]
      refine spec_exec ?_
      intro d res w' he
      simp only [execute] at he
      split at he
      · next hany =>
          cases he
          obtain ⟨r₀, hr₀, heq⟩ := List.any_eq_true.1 hany
          obtain rfl : r₀ = ⟨id, role⟩ := by simpa using heq
          refine ih fun userRoles hur => hok userRoles fun r => ?_
          rw [hur r, List.mem_cons]
          constructor
          · rintro (h | ⟨h, h'⟩)
            · exact Or.inl h
            · exact Or.inr ⟨h, Or.inr h'⟩
          · rintro (h | ⟨rfl, rfl | h'⟩)
            · exact Or.inl h
            · exact Or.inl hr₀
            · exact Or.inr ⟨rfl, h'⟩
      · split at he
        · cases he
          refine ih fun userRoles hur => hok userRoles fun r => ?_
          rw [hur r, List.mem_cons, List.mem_append, List.mem_singleton]
          constructor
          · rintro ((h | rfl) | ⟨h, h'⟩)
            · exact Or.inl h
            · exact Or.inr ⟨rfl, Or.inl rfl⟩
            · exact Or.inr ⟨h, Or.inr h'⟩
          · rintro (h | ⟨rfl, rfl | h'⟩)
            · exact Or.inl (Or.inl h)
            · exact Or.inl (Or.inr rfl)
            · exact Or.inr ⟨rfl, h'⟩
        · cases he

/-- What an operation that returns has done, and the constraints that it keeps. -/
def Settles (command : Command) (t : Tables) (outcome : Outcome) (t' : Tables) : Prop :=
  Settled command t outcome t' ∧ (Fresh t command → Consistent t')

/-- No effect. -/
theorem Settles.nothing {command : Command} (ht : Consistent t) {outcome : Outcome}
    (h : outcome.effective = false) : Settles command t outcome t := by
  refine ⟨?_, fun _ => ht⟩
  rw [Settled, if_neg (by rw [h]; exact Bool.false_ne_true)]

/-- An effect, with what is published. -/
theorem Settles.effect (command : Command) {u : User} (ht : Consistent t)
    (hs : Staged (Fresh t command) t w u) (hmakes : command.Makes t u)
    (hroles : ∀ roles, command.roles = some roles →
      ∀ role, role ∈ roles ↔ ⟨u.id, role⟩ ∈ w.userRoles)
    (hp : command.publishes = true → Published t w command.deletes u) {outcome : Outcome}
    (h : outcome.effective = true) : Settles command t outcome w := by
  refine ⟨?_, hs.consistent ht⟩
  rw [Settled, if_pos h]
  exact fun hpub => ⟨u, hp hpub, hmakes, hroles⟩

/-- An effect, when nothing is to be published. -/
theorem Settles.unpublished {command : Command} (hpub : command.publishes = false)
    (hw : Fresh t command → Consistent w) {outcome : Outcome} (h : outcome.effective = true) :
    Settles command t outcome w := by
  refine ⟨?_, hw⟩
  rw [Settled, if_pos h]
  intro hp
  rw [hpub] at hp
  cases hp

variable {fresh : Prop} {u : User}

/-- The user has the new roles and no others. -/
theorem spec_setRoles {roles : List String} {post : Unit → Store → Prop}
    (hs : Staged fresh t w u)
    (hok : ∀ w', Staged fresh t w' u → searchMessages w' = searchMessages w →
      (∀ role, role ∈ roles ↔ ⟨u.id, role⟩ ∈ w'.userRoles) → post () ⟨t, some w'⟩) :
    (setRoles u.username roles).Spec Answer AnyEvent post ⟨t, some w⟩ := by
  rw [setRoles, spec_bind]
  refine spec_exec ?_
  intro d id w₁ he
  obtain ⟨rfl, rfl⟩ : id = u.id ∧ w₁ = w := by
    obtain ⟨v, hfind, heq⟩ := Option.map_eq_some_iff.1 he
    obtain ⟨rfl, rfl⟩ := Prod.mk.inj heq
    have hname : v.username = u.username := by simpa using List.find?_some hfind
    rw [eq_of_username hs.users (List.mem_of_find?_eq_some hfind) hs.mem hname]
    exact ⟨rfl, rfl⟩
  rw [spec_bind]
  refine spec_exec ?_
  intro d _ w₂ he
  cases he
  refine spec_insertRoles ?_
  intro userRoles hroles
  refine hok _ ⟨hs.toMutated.of_users rfl, hs.verificationTokens, hs.changeTokens, ?_, hs.outbox⟩
    rfl ?_
  · intro r hr
    rcases (hroles r).1 hr with hold | ⟨hid, -⟩
    · exact hs.roles r (List.mem_filter.1 hold).1
    · exact Or.inr hid
  · intro role
    dsimp only
    rw [hroles, List.mem_filter]
    simp

/-- The roles, what is published, and the commit. -/
theorem spec_setRolesAndPublish {roles : List String} {notFound : String} {publishSearch : Bool}
    {post : User → Store → Prop} (ht : Consistent t)
    (hs : Staged fresh t w u) (hquiet : searchMessages w = searchMessages t)
    (hlive : u.live = true)
    (hok : ∀ w', Staged fresh t w' u → (∀ role, role ∈ roles ↔ ⟨u.id, role⟩ ∈ w'.userRoles) →
      (publishSearch = true → Published t w' false u) → post u ⟨w', none⟩) :
    (setRolesAndPublish u.username roles u.searchRevision notFound publishSearch).Spec Answer
      AnyEvent post ⟨t, some w⟩ := by
  rw [setRolesAndPublish, spec_bind]
  refine spec_setRoles hs ?_
  intro w₁ hs₁ hquiet₁ hroles
  rw [spec_bind]
  refine spec_exec ?_
  intro d res w₂ he
  obtain ⟨rfl, rfl⟩ := execute_selectUser hs₁.users hs₁.mem hlive he
  rw [spec_bind]
  refine spec_okOr ?_
  rintro _ ⟨⟩
  split
  · rw [spec_bind]
    refine spec_exec ?_
    intro d _ w₃ he
    cases he
    rw [spec_bind]
    refine spec_commit (spec_pure.2 (hok _ (hs₁.enqueue (Or.inl rfl)) ?_ fun _ => ?_))
    · rwa [enqueue_userRoles]
    exact hs₁.publish ht (hquiet₁.trans hquiet) (by rw [hlive]; rfl) ⟨roles, rfl, hroles⟩
  · next hpub =>
      rw [spec_bind]
      exact spec_commit (spec_pure.2 (hok _ hs₁ hroles fun h => absurd h hpub))

/-- What the user that has been updated is published as. -/
theorem spec_publishUser {notFound : String} {post : Unit → Store → Prop}
    (ht : Consistent t) (hs : Staged fresh t w u) (hquiet : searchMessages w = searchMessages t)
    (hlive : u.live = true)
    (hok : ∀ w', Staged fresh t w' u → Published t w' false u → post () ⟨t, some w'⟩) :
    (publishUser notFound u.username u.searchRevision).Spec Answer AnyEvent post ⟨t, some w⟩ := by
  rw [publishUser, spec_bind]
  refine spec_exec ?_
  intro d res w₁ he
  obtain ⟨rfl, rfl⟩ := execute_selectUser hs.users hs.mem hlive he
  rw [spec_bind]
  refine spec_okOr ?_
  rintro _ ⟨⟩
  rw [spec_bind]
  refine spec_exec ?_
  intro d roles w₂ he
  cases he
  refine spec_exec ?_
  intro d _ w₃ he
  cases he
  refine hok _ (hs.enqueue (Or.inl rfl)) (hs.publish ht hquiet (by rw [hlive]; rfl) ?_)
  exact ⟨_, rfl, fun role => mem_rolesOf⟩

/-- An update of one user that is published with its roles. -/
theorem spec_updateAndPublish {st : Statement} {result : st.Result → Option (String × Nat)}
    {notFound : String} {publishSearch : Bool} {made : User → Prop} {post : Bool → Store → Prop}
    (ht : Consistent t)
    (hst : ∀ d res w, execute t d st = some (res, w) → result res = none ∨
      ∃ u, result res = some (u.username, u.searchRevision) ∧ u.live = true ∧
        made u ∧ Staged fresh t w u ∧ searchMessages w = searchMessages t)
    (hnone : ∀ w', post false ⟨t, w'⟩)
    (hok : ∀ u w', made u → Staged fresh t w' u → (publishSearch = true → Published t w' false u) →
      post true ⟨w', none⟩) :
    (updateAndPublish b st result notFound publishSearch).Spec Answer AnyEvent post ⟨t, none⟩ := by
  rw [updateAndPublish, spec_bind]
  refine spec_begin ?_
  rw [spec_bind]
  refine spec_exec ?_
  intro d res w he
  rcases hst d res w he with hres | ⟨u, hres, hlive, hmade, hs, hquiet⟩
  · rw [hres]
    dsimp only
    rw [spec_bind]
    exact spec_abandon fun w' => spec_pure.2 (hnone w')
  · rw [hres]
    dsimp only
    split
    · rw [spec_bind]
      refine spec_publishUser ht hs hquiet hlive ?_
      intro w' hs' hp
      rw [spec_bind]
      exact spec_commit (spec_pure.2 (hok u w' hmade hs' fun _ => hp))
    · next hpub =>
        rw [spec_bind]
        exact spec_commit (spec_pure.2 (hok u w hmade hs fun h => absurd h hpub))

end Contract

/-! ### The first statements -/

section First

variable {t : Tables} {fresh : Prop}

/-- A user who kept a column, or cleared it, stays apart from the others. -/
theorem apart_of_kept {column : User → Option Nat} {u u' v : User}
    (h : t.users.Pairwise (Apart column)) (hu : u ∈ t.users) (hv : v ∈ t.users) (hne : v ≠ u)
    (hc : column u' = none ∨ column u' = column u) : Apart column v u' := by
  intro token htv htu
  rcases hc with hnone | hsame
  · rw [hnone] at htu
    cases htu
  · exact hne (eq_of_token h hv hu htv (hsame ▸ htu))

instance (column : User → Option Nat) : Std.Symm (Apart column) :=
  ⟨fun _ _ h token ha hb => h token hb ha⟩

/-- **An update of one row, with its tokens kept or cleared.** -/
theorem staged_update {p : User → Bool} {f : User → User} {u : User} (ht : Consistent t)
    (hu : u ∈ t.users) (hp : p u = true) (huniq : ∀ v ∈ t.users, p v = true → v = u)
    (hid : (f u).id = u.id) (hpid : (f u).pid = u.pid)
    (hrev : (f u).searchRevision = u.searchRevision + 1)
    (hname : ∀ v ∈ t.users, v ≠ u → v.username ≠ (f u).username)
    (hv : (f u).emailVerificationToken = none ∨
      (f u).emailVerificationToken = u.emailVerificationToken)
    (hc : (f u).emailChangeToken = none ∨ (f u).emailChangeToken = u.emailChangeToken) :
    Staged fresh t (updateUsers t p f) (f u) :=
  ⟨mutated_update ht.users hu hp huniq hid hpid hrev hname,
    fun _ => pairwise_update ht.users ht.verificationTokens huniq fun _ hmem hne =>
      apart_of_kept ht.verificationTokens hu hmem hne hv,
    pairwise_update ht.users ht.changeTokens huniq fun _ hmem hne =>
      apart_of_kept ht.changeTokens hu hmem hne hc,
    fun _ hr => Or.inl hr, fun _ hm => Or.inl hm⟩

/-- A username names one user. -/
theorem unique_username {u : User} {username : String} (ht : Consistent t) (hu : u ∈ t.users)
    (hname : u.username = username) : ∀ v ∈ t.users, v.username = username → v = u :=
  fun _ hv hv' => eq_of_username ht.users hv hu (hv'.trans hname.symm)

/-- So does the row test of the statements. -/
theorem unique_named {u : User} {username : String} (ht : Consistent t) (hu : u ∈ t.users)
    (hp : named username u = true) : ∀ v ∈ t.users, named username v = true → v = u := by
  intro v hv hpv
  simp only [named, Bool.and_eq_true, beq_iff_eq] at hp hpv
  exact unique_username ht hu hp.1 v hv hpv.1

/-- Verifying finds no user, or stages the change of the one it found. -/
theorem staged_verified {d : Draw} {token : Nat} {verifiedAt : Int}
    {res : Option (String × Nat)} {w : Tables} (ht : Consistent t)
    (he : execute t d (.updateVerified token verifiedAt) = some (res, w)) : res = none ∨
      ∃ u, res = some (u.username, u.searchRevision) ∧ u.live = true ∧
        (∃ v ∈ t.users, verifies token verifiedAt v = true ∧ u = verify verifiedAt v) ∧
          Staged fresh t w u ∧ searchMessages w = searchMessages t := by
  simp only [execute] at he
  split at he
  · cases he
    exact Or.inl rfl
  · next u hfind =>
      cases he
      have hu := List.mem_of_find?_eq_some hfind
      have hp := List.find?_some hfind
      have hspec : ∀ v, verifies token verifiedAt v = true →
          v.emailVerificationToken = some token ∧ v.live = true := by
        intro v hv
        simp only [verifies, Bool.and_eq_true, beq_iff_eq] at hv
        exact ⟨hv.1.1, hv.2⟩
      refine Or.inr ⟨verify verifiedAt u, rfl, (hspec u hp).2, ⟨u, hu, hp, rfl⟩, ?_, rfl⟩
      refine staged_update ht hu hp ?_ rfl rfl rfl
        (fun v hv hne => (keyed_of_mem ht.users hv hu hne).username)
        (Or.inl rfl) (Or.inr rfl)
      exact fun v hv hpv =>
        eq_of_token ht.verificationTokens hv hu (hspec v hpv).1 (hspec u hp).1

theorem staged_confirmed {d : Draw} {token : Nat} {confirmedAt : Int}
    {res : Option (String × Nat)} {w : Tables} (ht : Consistent t)
    (he : execute t d (.updateConfirmed token confirmedAt) = some (res, w)) : res = none ∨
      ∃ u, res = some (u.username, u.searchRevision) ∧ u.live = true ∧
        (∃ v ∈ t.users, confirms token confirmedAt v = true ∧ u = confirm confirmedAt v) ∧
          Staged fresh t w u ∧ searchMessages w = searchMessages t := by
  simp only [execute] at he
  split at he
  · cases he
    exact Or.inl rfl
  · next u hfind =>
      split at he
      · cases he
      · next hfree =>
          cases he
          have hu := List.mem_of_find?_eq_some hfind
          have hp := List.find?_some hfind
          have hspec : ∀ v, confirms token confirmedAt v = true →
              v.emailChangeToken = some token ∧ v.live = true := by
            intro v hv
            simp only [confirms, Bool.and_eq_true, beq_iff_eq] at hv
            exact ⟨hv.1.1.1, hv.2⟩
          refine Or.inr ⟨confirm confirmedAt u, rfl, (hspec u hp).2, ⟨u, hu, hp, rfl⟩, ?_, rfl⟩
          refine staged_update ht hu hp ?_ rfl rfl rfl ?_ (Or.inr rfl) (Or.inl rfl)
          · exact fun v hv hpv => eq_of_token ht.changeTokens hv hu (hspec v hpv).1 (hspec u hp).1
          · intro v hv hne hname
            refine hfree (List.any_eq_true.2 ⟨v, hv, ?_⟩)
            have hid := (keyed_of_mem ht.users hv hu hne).id
            rw [hname]
            simp [confirm, hid]

/-- Creating stages the user of its username. -/
theorem staged_managed {d : Draw} {command : CreateManagedUser} {res : Option Nat} {w : Tables}
    (ht : Consistent t) (he : execute t d (.upsertManaged command) = some (res, w)) :
    res = none ∨ ∃ u, res = some u.searchRevision ∧ u.username = command.username ∧
      u.live = true ∧ ((∃ d, u = created d command) ∨ ∃ v ∈ t.users,
        v.username = command.username ∧ v.live = false ∧ u = restore command v) ∧
          Staged fresh t w u ∧ searchMessages w = searchMessages t := by
  simp only [execute] at he
  split at he
  · next hfind =>
      split at he
      · cases he
      · next hfree =>
          cases he
          refine Or.inr ⟨created d command, rfl, rfl, rfl, .inl ⟨d, rfl⟩, ?_, rfl⟩
          have hname : ∀ v ∈ t.users, v.username ≠ command.username := fun v hv => by
            simpa using List.find?_eq_none.1 hfind v hv
          have hm := (mutated_insert (u := created d command) ht.users (by simpa using hfree)
            hname rfl rfl).1
          refine ⟨hm, fun _ => ?_, ?_, fun _ hr => Or.inl hr, fun _ hm => Or.inl hm⟩
          · refine List.pairwise_append.2 ⟨ht.verificationTokens, List.pairwise_singleton _ _, ?_⟩
            intro v _ u' hu' token _ htoken
            rw [List.mem_singleton.1 hu'] at htoken
            cases htoken
          · refine List.pairwise_append.2 ⟨ht.changeTokens, List.pairwise_singleton _ _, ?_⟩
            intro v _ u' hu' token _ htoken
            rw [List.mem_singleton.1 hu'] at htoken
            cases htoken
  · next u hfind =>
      split at he
      · cases he
        exact Or.inl rfl
      next hlive =>
        cases he
        have hu := List.mem_of_find?_eq_some hfind
        have hname : u.username = command.username := by simpa using List.find?_some hfind
        refine Or.inr ⟨restore command u, rfl, hname, rfl,
          .inr ⟨u, hu, hname, by simpa using hlive, rfl⟩, ?_, rfl⟩
        refine staged_update ht hu (by simpa using hname) ?_ rfl rfl rfl
          (fun v hv hne => (keyed_of_mem ht.users hv hu hne).username) (Or.inl rfl) (Or.inr rfl)
        exact fun v hv hpv => unique_username ht hu hname v hv (by simpa using hpv)

/-- Updating stages the user of its username. -/
theorem staged_updated {d : Draw} {command : UpdateManagedUser} {res : Option Nat} {w : Tables}
    (ht : Consistent t) (he : execute t d (.updateManaged command) = some (res, w)) :
    res = none ∨ ∃ u, res = some u.searchRevision ∧ u.username = command.username ∧
      u.live = true ∧ (∃ v ∈ t.users, named command.username v = true ∧ u = update command v) ∧
        Staged fresh t w u ∧ searchMessages w = searchMessages t := by
  simp only [execute] at he
  split at he
  · cases he
    exact Or.inl rfl
  · next u hfind =>
      cases he
      have hu := List.mem_of_find?_eq_some hfind
      have hp := List.find?_some hfind
      have hspec : u.username = command.username ∧ u.live = true := by simpa [named] using hp
      refine Or.inr ⟨update command u, rfl, hspec.1, hspec.2, ⟨u, hu, hp, rfl⟩, ?_, rfl⟩
      exact staged_update ht hu hp (unique_named ht hu hp) rfl rfl rfl
        (fun v hv hne => (keyed_of_mem ht.users hv hu hne).username) (Or.inr rfl) (Or.inr rfl)

/-- Deleting stages the end of the user it names. -/
theorem staged_deleted {d : Draw} {username : String} {res : Option (Nat × Nat)} {w : Tables}
    (ht : Consistent t) (he : execute t d (.updateDeleted username) = some (res, w)) :
    res = none ∨ ∃ u, res = some (u.pid, u.searchRevision) ∧ u.live = false ∧
      (∃ v ∈ t.users, named username v = true ∧ ∃ now, u = softDelete now v) ∧
        Staged fresh t w u ∧ searchMessages w = searchMessages t := by
  simp only [execute] at he
  split at he
  · cases he
    exact Or.inl rfl
  · next u hfind =>
      cases he
      have hu := List.mem_of_find?_eq_some hfind
      have hp := List.find?_some hfind
      refine Or.inr ⟨softDelete d.now u, rfl, rfl, ⟨u, hu, hp, d.now, rfl⟩, ?_, rfl⟩
      exact staged_update ht hu hp (unique_named ht hu hp) rfl rfl rfl
        (fun v hv hne => (keyed_of_mem ht.users hv hu hne).username) (Or.inr rfl) (Or.inr rfl)

/-- Registering stages the user of its username. -/
theorem staged_registered {d : Draw} {command : RegisterManagedUser} {res : Option Nat}
    {w : Tables} (ht : Consistent t)
    (he : execute t d (.insertRegistered command) = some (res, w)) :
    res = none ∨ ∃ u, res = some u.searchRevision ∧ u.username = command.username ∧
      u.live = true ∧ (∃ d, u = registered d command) ∧ Staged (Fresh t (.register command)) t w u ∧
        searchMessages w = searchMessages t ∧ ∀ role, ⟨u.id, role⟩ ∉ w.userRoles := by
  simp only [execute] at he
  split at he
  · cases he
    exact Or.inl rfl
  · next hany =>
      split at he
      · cases he
      · next hfree =>
          cases he
          have hname : ∀ v ∈ t.users, v.username ≠ command.username := fun v hv heq =>
            hany (List.any_eq_true.2 ⟨v, hv, by simpa using heq⟩)
          obtain ⟨hm, hid⟩ := mutated_insert (u := registered d command) ht.users
            (by simpa using hfree) hname rfl rfl
          refine Or.inr ⟨registered d command, rfl, rfl, rfl, ⟨d, rfl⟩, ?_, rfl, ?_⟩
          · refine ⟨hm, fun hfresh => ?_, ?_, fun _ hr => Or.inl hr, fun _ hm => Or.inl hm⟩
            · refine List.pairwise_append.2 ⟨ht.verificationTokens, List.pairwise_singleton _ _, ?_⟩
              intro v hv u' hu' token hvt htoken
              rw [List.mem_singleton.1 hu'] at htoken
              obtain rfl := Option.some.inj htoken
              exact hfresh v hv hvt
            · refine List.pairwise_append.2 ⟨ht.changeTokens, List.pairwise_singleton _ _, ?_⟩
              intro v _ u' hu' token _ htoken
              rw [List.mem_singleton.1 hu'] at htoken
              cases htoken
          · intro role hr
            obtain ⟨v, hv, hvid⟩ := ht.roleUsers _ hr
            exact hid v hv hvid

end First

/-! ### Every operation -/

section Operations

variable {b : Backend} {t : Tables}

/-- A token of a mail is set, and nothing is published. -/
theorem consistent_token {p : User → Bool} {f : User → User} {u : User} {w : Tables}
    (ht : Consistent t) (huniq : ∀ v ∈ t.users, p v = true → v = u) (hid : (f u).id = u.id)
    (hpid : (f u).pid = u.pid) (hrev : (f u).searchRevision = u.searchRevision)
    (hname : (f u).username = u.username) (hu : u ∈ t.users)
    (hv : ∀ v ∈ t.users, v ≠ u → Apart User.emailVerificationToken v (f u))
    (hc : ∀ v ∈ t.users, v ≠ u → Apart User.emailChangeToken v (f u))
    (hw : w = updateUsers t p f) : Consistent w := by
  subst hw
  have hmem : ∀ v ∈ t.users, ∃ v' ∈ (updateUsers t p f).users, v'.id = v.id ∧ v'.pid = v.pid ∧
      v'.searchRevision = v.searchRevision := by
    intro v hv
    refine ⟨if p v then f v else v, List.mem_map.2 ⟨v, hv, rfl⟩, ?_⟩
    split
    · next hpv =>
        rw [huniq v hv hpv]
        exact ⟨hid, hpid, hrev⟩
    · exact ⟨rfl, rfl, rfl⟩
  refine ⟨?_, ?_, ?_, ?_, ?_⟩
  · refine pairwise_update ht.users ht.users huniq fun v hv hne => ?_
    have := keyed_of_mem ht.users hv hu hne
    exact ⟨hid ▸ this.id, hpid ▸ this.pid, hname ▸ this.username⟩
  · exact pairwise_update ht.users ht.verificationTokens huniq hv
  · exact pairwise_update ht.users ht.changeTokens huniq hc
  · intro r hr
    obtain ⟨v, hv, hvid⟩ := ht.roleUsers r hr
    obtain ⟨v', hv', hid', -⟩ := hmem v hv
    exact ⟨v', hv', hid'.trans hvid⟩
  · intro m hm pid revision hkey
    obtain ⟨v, hv, hvpid, hle⟩ := ht.revisions m hm pid revision hkey
    obtain ⟨v', hv', -, hpid', hrev'⟩ := hmem v hv
    exact ⟨v', hv', hpid'.trans hvpid, hrev' ▸ hle⟩

/-- A mail leaves the constraints. -/
theorem Consistent.mail {purpose : MailPurpose} {username : String} {micros : Int}
    {payload : OutboxPayload} (h : Consistent t) :
    Consistent (t.enqueue ⟨.mail purpose username micros, payload⟩) := by
  refine ⟨?_, ?_, ?_, ?_, ?_⟩
  · rw [enqueue_users]
    exact h.users
  · rw [enqueue_users]
    exact h.verificationTokens
  · rw [enqueue_users]
    exact h.changeTokens
  · rw [enqueue_users, enqueue_userRoles]
    exact h.roleUsers
  · rw [enqueue_users]
    intro m hm pid revision hkey
    rcases enqueue_outbox hm with hold | rfl
    · exact h.revisions m hold pid revision hkey
    · cases hkey

/-- Who takes a token is the user of the username. -/
theorem named_of_takesToken {column : TokenColumn} {username : String} {u : User}
    (h : takesToken column username u = true) : named username u = true := by
  simp only [takesToken, Bool.and_eq_true] at h
  exact h.1

/-- A new token keeps the tables consistent; one of a verification mail has to be unique. -/
theorem consistent_setToken {column : TokenColumn} {username : String} {token : Nat} {time : Int}
    {u : User} (ht : Consistent t) (hu : u ∈ t.users)
    (hp : takesToken column username u = true)
    (hfresh : column = .emailVerificationToken →
      ∀ v ∈ t.users, v.emailVerificationToken ≠ some token) :
    Consistent (updateUsers t (takesToken column username) (setToken column token time)) := by
  refine consistent_token (u := u) ht
    (fun v hv hpv => unique_named ht hu (named_of_takesToken hp) v hv (named_of_takesToken hpv))
    (by cases column <;> rfl) (by cases column <;> rfl) (by cases column <;> rfl)
    (by cases column <;> rfl) hu ?_ ?_ rfl
  · intro v hv hne
    cases column with
    | emailVerificationToken =>
        intro token' htv htu
        obtain rfl := Option.some.inj htu
        exact hfresh rfl v hv htv
    | resetToken => exact apart_of_kept ht.verificationTokens hu hv hne (Or.inr rfl)
    | magicLinkToken => exact apart_of_kept ht.verificationTokens hu hv hne (Or.inr rfl)
  · intro v hv hne
    exact apart_of_kept ht.changeTokens hu hv hne (Or.inr (by cases column <;> rfl))

/-- The operations that set a token and send a mail. -/
theorem spec_updateTokenWithMail {column : TokenColumn} {purpose : MailPurpose}
    {username : String} {token : Nat} {time : Int} {mail : TransactionalMail} {command : Command}
    (ht : Consistent t) (hpub : command.publishes = false)
    (hfresh : column = .emailVerificationToken → Fresh t command →
      ∀ u ∈ t.users, u.emailVerificationToken ≠ some token) :
    (updateTokenWithMail column purpose username token time mail).Spec Answer AnyEvent
      (fun flag s => Settles command t (.flag flag) s.tables) ⟨t, none⟩ := by
  rw [updateTokenWithMail, spec_bind]
  refine spec_begin ?_
  rw [spec_bind]
  refine spec_exec ?_
  intro d updated w he
  obtain ⟨rfl, rfl⟩ := Prod.mk.inj (Option.some.inj he)
  by_cases hany : t.users.any (takesToken column username) = true
  · rw [if_pos hany, hany]
    obtain ⟨u, hu, hp⟩ := List.any_eq_true.1 hany
    have hconsistent (hf : Fresh t command) : Consistent (updateUsers t
        (takesToken column username) (setToken column token time)) :=
      consistent_setToken ht hu hp fun hcolumn => hfresh hcolumn hf
    rw [spec_bind]
    refine spec_exec ?_
    intro d _ w he
    cases he
    rw [spec_bind]
    exact spec_commit (spec_pure.2
      (Settles.unpublished hpub (fun hf => (hconsistent hf).mail) rfl))
  · rw [if_neg hany]
    have hnone : updateUsers t (takesToken column username) (setToken column token time) = t := by
      refine updateUsers_of_none fun u hu => ?_
      by_contra hp
      exact hany (List.any_eq_true.2 ⟨u, hu, by simpa using hp⟩)
    rw [hnone, spec_bind]
    refine spec_commit (spec_pure.2 ?_)
    exact Settles.nothing ht (by simpa [Outcome.effective] using hany)

/-- A requested change of email keeps the tables consistent, where its token is free. -/
theorem consistent_setEmailChange {username newEmail : String} {token : Nat} {sentAt : Int}
    {u : User} (ht : Consistent t) (hu : u ∈ t.users) (hp : named username u = true)
    (hfree : ¬(t.users.any fun u =>
      u.emailChangeToken == some token && !named username u) = true) :
    Consistent (updateUsers t (named username) (setEmailChange newEmail token sentAt)) := by
  have huniq := unique_named ht hu hp
  refine consistent_token ht huniq rfl rfl rfl rfl hu ?_ ?_ rfl
  · exact fun v hv hne => apart_of_kept ht.verificationTokens hu hv hne (Or.inr rfl)
  · intro v hv hne token' htv htu
    obtain rfl := Option.some.inj htu
    refine hfree (List.any_eq_true.2 ⟨v, hv, ?_⟩)
    have hnot : named username v = false := by
      by_contra hpv
      exact hne (huniq v hv (by simpa using hpv))
    simp [htv, hnot]

/-- A change of email that succeeds settles as the command says. -/
theorem spec_requestEmailChange {username newEmail : String} {token : Nat} {sentAt : Int}
    {mail : Option TransactionalMail} (ht : Consistent t) :
    (requestEmailChange username newEmail token sentAt mail).Spec Answer AnyEvent
      (fun flag s => Settles (.requestEmailChange username newEmail token sentAt mail) t
        (.flag flag) s.tables) ⟨t, none⟩ := by
  rw [requestEmailChange, spec_bind]
  refine spec_begin ?_
  rw [spec_bind]
  refine spec_exec ?_
  intro d updated w he
  simp only [execute] at he
  split at he
  · next hcond =>
      split at he
      · cases he
      · next hfree =>
          cases he
          obtain ⟨u, hu, hp⟩ := List.any_eq_true.1 (Bool.and_eq_true_iff.1 hcond).1
          have hconsistent : Consistent (updateUsers t (named username)
              (setEmailChange newEmail token sentAt)) := consistent_setEmailChange ht hu hp hfree
          cases mail with
          | none =>
              dsimp only
              rw [spec_bind]
              exact spec_commit (spec_pure.2
                (Settles.unpublished rfl (fun _ => hconsistent) rfl))
          | some mail =>
              dsimp only
              rw [spec_bind]
              refine spec_exec ?_
              intro d _ w he
              cases he
              rw [spec_bind]
              exact spec_commit (spec_pure.2
                (Settles.unpublished rfl (fun _ => hconsistent.mail) rfl))
  · cases he
    dsimp only
    rw [spec_bind]
    exact spec_commit (spec_pure.2 (Settles.nothing ht rfl))

/-- What is left of a registration: the mail, and the commit. -/
theorem spec_registeredMail {command : RegisterManagedUser} {w' : Tables} {u : User}
    (ht : Consistent t) (hs : Staged (Fresh t (.register command)) t w' u)
    (hmakes : (Command.register command).Makes t u)
    (hp : command.publishSearch = true → Published t w' false u) :
    (do
      match command.mail with
      | some mail => enqueueMail mail .verifyEmail u.username command.verificationSentAt
      | none => pure ()
      call .commit
      return u : Repository User).Spec Answer AnyEvent
        (fun user s => Settles (.register command) t (.user user) s.tables) ⟨t, some w'⟩ := by
  have hroles : ∀ {w : Tables} roles, (Command.register command).roles = some roles →
      ∀ role, role ∈ roles ↔ ⟨u.id, role⟩ ∈ w.userRoles := fun _ h => by cases h
  cases command.mail with
  | none =>
      dsimp only
      rw [spec_bind]
      exact spec_commit (spec_pure.2
        (Settles.effect (.register command) ht hs hmakes hroles hp rfl))
  | some mail =>
      dsimp only
      rw [spec_bind]
      refine spec_exec ?_
      intro d _ w₂ he
      cases he
      rw [spec_bind]
      refine spec_commit (spec_pure.2 (Settles.effect (.register command) ht
        (hs.enqueue (Or.inr ⟨_, _, _, rfl⟩)) hmakes hroles (fun h => ?_) rfl))
      obtain ⟨hm, hl, c, hd, hout⟩ := hp h
      refine ⟨hm.of_users (enqueue_users _), hl, c, ?_, ?_⟩
      · rw [Describes, enqueue_userRoles]
        exact hd
      · rw [searchMessages_mail]
        exact hout

theorem spec_registerManagedUser {command : RegisterManagedUser} (ht : Consistent t) :
    (registerManagedUser command).Spec Answer AnyEvent
      (fun user s => Settles (.register command) t (.user user) s.tables) ⟨t, none⟩ := by
  rw [registerManagedUser, spec_bind]
  refine spec_begin ?_
  rw [spec_bind]
  refine spec_exec ?_
  intro d res w he
  rw [spec_bind]
  refine spec_okOr ?_
  rintro revision rfl
  rcases staged_registered ht he with hnone | ⟨u, hres, hname, hlive, hmakes, hs, hquiet, hroles⟩
  · cases hnone
  obtain rfl := Option.some.inj hres
  rw [spec_bind, ← hname]
  refine spec_exec ?_
  intro d res w₁ he
  obtain ⟨rfl, rfl⟩ := execute_selectUser hs.users hs.mem hlive he
  rw [spec_bind]
  refine spec_okOr ?_
  rintro _ ⟨⟩
  by_cases hpub : command.publishSearch = true
  · rw [if_pos hpub, spec_bind]
    refine spec_exec ?_
    intro d _ w₂ he
    cases he
    refine spec_registeredMail ht (hs.enqueue (Or.inl rfl)) hmakes fun _ => ?_
    refine hs.publish ht hquiet (by rw [hlive]; rfl) ⟨[], rfl, fun role => ?_⟩
    exact iff_of_false List.not_mem_nil (hroles role)
  · rw [if_neg hpub]
    exact spec_registeredMail ht hs hmakes fun h => absurd h hpub

theorem spec_createManagedUser {command : CreateManagedUser} (ht : Consistent t) :
    (createManagedUser command).Spec Answer AnyEvent
      (fun user s => Settles (.create command) t (.user user) s.tables) ⟨t, none⟩ := by
  rw [createManagedUser, spec_bind]
  refine spec_begin ?_
  rw [spec_bind]
  refine spec_exec ?_
  intro d res w he
  rw [spec_bind]
  refine spec_okOr ?_
  rintro revision rfl
  rcases staged_managed ht he with hnone | ⟨u, hres, hname, hlive, hmakes, hs, hquiet⟩
  · cases hnone
  obtain rfl := Option.some.inj hres
  rw [← hname]
  refine spec_setRolesAndPublish ht hs hquiet hlive fun w' hs' hroles hp => ?_
  exact Settles.effect (.create command) ht hs' hmakes
    (fun roles h => by cases h; exact hroles) hp rfl

theorem spec_updateManagedUser {command : UpdateManagedUser} (ht : Consistent t) :
    (updateManagedUser b command).Spec Answer AnyEvent
      (fun user s => Settles (.update command) t (.updated user) s.tables) ⟨t, none⟩ := by
  rw [updateManagedUser, spec_bind]
  refine spec_begin ?_
  rw [spec_bind]
  refine spec_exec ?_
  intro d res w he
  rcases staged_updated ht he with hres | ⟨u, hres, hname, hlive, hmakes, hs, hquiet⟩
  · subst hres
    dsimp only
    rw [spec_bind]
    exact spec_abandon fun w' => spec_pure.2 (Settles.nothing ht rfl)
  · subst hres
    dsimp only
    rw [← hname, spec_bind]
    refine spec_setRolesAndPublish ht hs hquiet hlive fun w' hs' hroles hp => spec_pure.2 ?_
    exact Settles.effect (.update command) ht hs' hmakes
      (fun roles h => by cases h; exact hroles) hp rfl

theorem spec_deleteManagedUser {username : String} {publishSearch : Bool} (ht : Consistent t) :
    (deleteManagedUser b username publishSearch).Spec Answer AnyEvent
      (fun flag s => Settles (.delete username publishSearch) t (.flag flag) s.tables)
        ⟨t, none⟩ := by
  have hroles : ∀ {w : Tables} {u : User} roles,
      (Command.delete username publishSearch).roles = some roles →
        ∀ role, role ∈ roles ↔ ⟨u.id, role⟩ ∈ w.userRoles := fun _ h => by cases h
  rw [deleteManagedUser, spec_bind]
  refine spec_begin ?_
  rw [spec_bind]
  refine spec_exec ?_
  intro d res w he
  rcases staged_deleted ht he with hres | ⟨u, hres, hlive, hmakes, hs, hquiet⟩
  · subst hres
    dsimp only
    rw [spec_bind]
    exact spec_abandon fun w' => spec_pure.2 (Settles.nothing ht rfl)
  · subst hres
    dsimp only
    split
    · rw [spec_bind]
      refine spec_exec ?_
      intro d _ w₁ he
      cases he
      rw [spec_bind]
      refine spec_commit (spec_pure.2 (Settles.effect (.delete username publishSearch) ht
        (hs.enqueue (Or.inl rfl)) hmakes hroles (fun _ => ?_) rfl))
      exact hs.publish ht hquiet (by rw [hlive]; rfl) rfl
    · next hpub =>
        rw [spec_bind]
        exact spec_commit (spec_pure.2 (Settles.effect (.delete username publishSearch) ht hs hmakes
          hroles (fun h => absurd h hpub) rfl))

/-- **Every operation of the user writer settles.** -/
theorem spec_perform (b : Backend) (command : Command) (ht : Consistent t) :
    (perform b command).Spec Answer AnyEvent (fun outcome s => Settles command t outcome s.tables)
      ⟨t, none⟩ := by
  cases command with
  | register command =>
      rw [perform, spec_map]
      exact spec_registerManagedUser ht
  | verifyEmail token verifiedAt publishSearch =>
      rw [perform, spec_map]
      exact spec_updateAndPublish ht (fun d res w he => staged_verified ht he)
        (fun _ => Settles.nothing ht rfl) fun u w hmakes hs hp =>
          Settles.effect (.verifyEmail token verifiedAt publishSearch) ht hs hmakes
            (fun _ h => by cases h) hp rfl
  | setResetToken username token sentAt mail =>
      rw [perform, spec_map]
      exact spec_updateTokenWithMail ht rfl fun h => by cases h
  | setVerification username token sentAt mail =>
      rw [perform, spec_map]
      exact spec_updateTokenWithMail ht rfl fun _ hf => hf
  | setMagicLink username token expiresAt mail =>
      rw [perform, spec_map]
      exact spec_updateTokenWithMail ht rfl fun h => by cases h
  | requestEmailChange username newEmail token sentAt mail =>
      rw [perform, spec_map]
      exact spec_requestEmailChange ht
  | confirmEmailChange token confirmedAt publishSearch =>
      rw [perform, spec_map]
      exact spec_updateAndPublish ht (fun d res w he => staged_confirmed ht he)
        (fun _ => Settles.nothing ht rfl) fun u w hmakes hs hp =>
          Settles.effect (.confirmEmailChange token confirmedAt publishSearch) ht hs hmakes
            (fun _ h => by cases h) hp rfl
  | create command =>
      rw [perform, spec_map]
      exact spec_createManagedUser ht
  | update command =>
      rw [perform, spec_map]
      exact spec_updateManagedUser ht
  | delete username publishSearch =>
      rw [perform, spec_map]
      exact spec_deleteManagedUser ht

end Operations

/-! ### The commit comes last -/

section Commit

variable {b : Backend} {α β : Type}

/-- A commit decides whether the operation fails, and nothing comes after it. -/
def DecidesIfCommit :
    (c : Call) → (Reply c → Program Call Reply (Except ApplicationError α)) → Prop
  | .commit, next => (∃ a, next (.ok ()) = .done (.ok a)) ∧
      ∀ message, ∃ e, next (.error message) = .done (.error e)
  | _, _ => True

def DecidedByCommit : Program Call Reply (Except ApplicationError α) → Prop
  | .done _ => True
  | .call c next => DecidesIfCommit c next ∧ ∀ r, DecidedByCommit (next r)

/-- An operation whose last call is its commit. -/
structure CommitsLast (p : Repository α) : Prop where
  run : DecidedByCommit p.run

/-- The part makes no commit. -/
abbrev Uncommitted (p : Repository α) : Prop := Fallible.Makes p (· ≠ .commit)

/-- Only a commit decides. -/
theorem decidesIfCommit_of_ne {c : Call} (hc : c ≠ .commit)
    {next : Reply c → Program Call Reply (Except ApplicationError α)} : DecidesIfCommit c next := by
  cases c with
  | commit => exact absurd rfl hc
  | begin => trivial
  | exec st => trivial
  | rollback => trivial

/-- **An operation that fails has changed nothing, or its commit was answered by an
error; then it is, but for the answer, one that returns.** -/
theorem tables_of_error {p : Program Call Reply (Except ApplicationError α)} {s s' : Store}
    {calls : List (Event Call Reply Store)} {e : ApplicationError} (hp : DecidedByCommit p)
    (hr : Runs Answer p s calls (.done (.error e)) s') :
    s'.tables = s.tables ∨ (∃ e ∈ calls, CommitFailed e) ∧
      ∃ calls' a, Runs Answer p s calls' (.done (.ok a)) s' := by
  generalize hq : Program.done (Except.error e) = q at hr
  induction hr with
  | refl p s => exact .inl rfl
  | @step s s₁ s' c r next t p' ha hr ih =>
      -- a call that leaves the tables
      have hkept : s₁.tables = s.tables → s'.tables = s.tables ∨
          (∃ e ∈ ⟨s, c, r, s₁⟩ :: t, CommitFailed e) ∧
            ∃ calls' a, Runs Answer (.call c next) s calls' (.done (.ok a)) s' := by
        intro htables
        rcases ih (hp.2 r) hq with hsame | ⟨⟨e, he, hfailed⟩, calls', a, hrun⟩
        · exact .inl (hsame.trans htables)
        · exact .inr ⟨⟨e, List.mem_cons_of_mem _ he, hfailed⟩, _, a, .step ha hrun⟩
      cases ha with
      | begun => exact hkept rfl
      | executed he => exact hkept rfl
      | rolledBack => exact hkept rfl
      | failed message => exact hkept rfl
      | committed =>
          obtain ⟨a, ha⟩ := hp.1.1
          subst hq
          rw [ha] at hr
          cases hr
      | @committedLate _ w message =>
          obtain ⟨a, ha⟩ := hp.1.1
          obtain ⟨e', he'⟩ := hp.1.2 message
          rw [he'] at hr
          cases hr
          have hdone : Runs Answer (next (.ok ())) ⟨w, none⟩ [] (.done (.ok a)) ⟨w, none⟩ := by
            rw [ha]
            exact .refl _ _
          exact .inr ⟨⟨_, List.mem_cons_self, trivial⟩, _, a, .step .committed hdone⟩

namespace CommitsLast

/-- A value commits nothing. -/
theorem pure {a : α} : CommitsLast (Pure.pure a : Repository α) := ⟨trivial⟩

/-- The commit, and what is returned. -/
theorem commit {a : α} : CommitsLast (call .commit >>= fun _ => Pure.pure a : Repository α) :=
  ⟨⟨⟨a, rfl⟩, fun _ => ⟨_, rfl⟩⟩, fun r => by cases r <;> trivial⟩

/-- Nothing was committed before the last part. -/
theorem bind {p : Repository α} {f : α → Repository β} (hp : Uncommitted p)
    (hf : ∀ a, CommitsLast (f a)) : CommitsLast (p >>= f) := by
  refine ⟨?_⟩
  rw [fallible_bind_eq]
  obtain ⟨hp⟩ := hp
  generalize p.run = q at hp
  induction q with
  | done r =>
      cases r with
      | error e => trivial
      | ok a => exact (hf a).run
  | call c next ih => exact ⟨decidesIfCommit_of_ne hp.1, fun r => ih r (hp.2 r)⟩

/-- A function of the result commits nothing. -/
theorem map {p : Repository α} (hp : CommitsLast p) (g : α → β) : CommitsLast (g <$> p) := by
  refine ⟨?_⟩
  have hmap : (g <$> p : Repository β).run = p.run >>= fun r => .done (r.map g) := by
    refine congrArg (p.run >>= ·) (funext ?_)
    rintro (e | b) <;> rfl
  rw [hmap]
  obtain ⟨hp⟩ := hp
  generalize p.run = q at hp
  induction q with
  | done r => trivial
  | call c next ih =>
      refine ⟨?_, fun r => ih r (hp.2 r)⟩
      by_cases hc : c = .commit
      · subst hc
        obtain ⟨⟨a, ha⟩, herr⟩ := hp.1
        refine ⟨⟨g a, ?_⟩, fun message => ?_⟩
        · change (next (.ok ())).bind _ = _
          rw [ha]
          rfl
        · obtain ⟨e, he⟩ := herr message
          refine ⟨e, ?_⟩
          change (next (.error message)).bind _ = _
          rw [he]
          rfl
      · exact decidesIfCommit_of_ne hc

end CommitsLast

/-- A call that is no commit commits nothing. -/
theorem uncommitted_call {c : Call} (hc : c ≠ .commit) : Uncommitted (call c) := ⟨⟨hc, fun _ => trivial⟩⟩

theorem uncommitted_exec (st : Statement) : Uncommitted (exec st) := uncommitted_call fun h => by cases h

theorem uncommitted_begin : Uncommitted (call .begin) := uncommitted_call fun h => by cases h

theorem uncommitted_okOr {error : ApplicationError} {o : Option α} : Uncommitted (okOr error o) := by
  cases o with
  | none => exact .throw
  | some a => exact .pure

theorem uncommitted_abandon : Uncommitted b.abandon := by
  cases b with
  | sqlite => exact .pure
  | postgres => exact uncommitted_call fun h => by cases h

/-- Giving roles commits nothing. -/
theorem uncommitted_insertRoles (id : Nat) (roles : List String) : Uncommitted (insertRoles id roles) := by
  induction roles with
  | nil => exact .pure
  | cons role roles ih => exact (uncommitted_exec _).bind fun _ => ih

theorem uncommitted_setRoles (username : String) (roles : List String) :
    Uncommitted (setRoles username roles) :=
  (uncommitted_exec _).bind fun _ => (uncommitted_exec _).bind fun _ => uncommitted_insertRoles _ _

/-- Publishing to the search commits nothing. -/
theorem uncommitted_publishUser (notFound username : String) (revision : Nat) :
    Uncommitted (publishUser notFound username revision) :=
  (uncommitted_exec _).bind fun _ => uncommitted_okOr.bind fun _ => (uncommitted_exec _).bind fun _ =>
    uncommitted_exec _

/-- An update ends with its only commit. -/
theorem commitsLast_updateAndPublish (st : Statement)
    (result : st.Result → Option (String × Nat)) (notFound : String) (publishSearch : Bool) :
    CommitsLast (updateAndPublish b st result notFound publishSearch) := by
  rw [updateAndPublish]
  refine .bind uncommitted_begin fun _ => .bind (uncommitted_exec _) fun updated => ?_
  cases result updated with
  | none => exact .bind uncommitted_abandon fun _ => .pure
  | some row =>
      dsimp only
      split
      · exact .bind (uncommitted_publishUser _ _ _) fun _ => .commit
      · exact .commit

/-- So does storing a token with its mail. -/
theorem commitsLast_updateTokenWithMail (column : TokenColumn) (purpose : MailPurpose)
    (username : String) (token : Nat) (time : Int) (mail : TransactionalMail) :
    CommitsLast (updateTokenWithMail column purpose username token time mail) := by
  rw [updateTokenWithMail]
  refine .bind uncommitted_begin fun _ => .bind (uncommitted_exec _) fun updated => ?_
  split
  · exact .bind (uncommitted_exec _) fun _ => .commit
  · exact .commit

theorem commitsLast_requestEmailChange (username newEmail : String) (token : Nat) (sentAt : Int)
    (mail : Option TransactionalMail) :
    CommitsLast (requestEmailChange username newEmail token sentAt mail) := by
  rw [requestEmailChange]
  refine .bind uncommitted_begin fun _ => .bind (uncommitted_exec _) fun updated => ?_
  dsimp only
  split
  · exact .bind (uncommitted_exec _) fun _ => .commit
  · exact .commit

theorem commitsLast_registerManagedUser (command : RegisterManagedUser) :
    CommitsLast (registerManagedUser command) := by
  rw [registerManagedUser]
  refine .bind uncommitted_begin fun _ => .bind (uncommitted_exec _) fun revision =>
    .bind uncommitted_okOr fun revision => .bind (uncommitted_exec _) fun user =>
    .bind uncommitted_okOr fun user => ?_
  have hmail : CommitsLast (do
      match command.mail with
      | some mail => enqueueMail mail .verifyEmail command.username command.verificationSentAt
      | none => pure ()
      call .commit
      return user : Repository User) := by
    cases command.mail with
    | none => exact .commit
    | some mail => exact .bind (uncommitted_exec _) fun _ => .commit
  by_cases hpub : command.publishSearch = true
  · rw [if_pos hpub]
    exact .bind (uncommitted_exec _) fun _ => hmail
  · rw [if_neg hpub]
    exact hmail

theorem commitsLast_setRolesAndPublish (username : String) (roles : List String) (revision : Nat)
    (notFound : String) (publishSearch : Bool) :
    CommitsLast (setRolesAndPublish username roles revision notFound publishSearch) := by
  rw [setRolesAndPublish]
  refine .bind (uncommitted_setRoles _ _) fun _ => .bind (uncommitted_exec _) fun user =>
    .bind uncommitted_okOr fun user => ?_
  split
  · exact .bind (uncommitted_exec _) fun _ => .commit
  · exact .commit

theorem commitsLast_createManagedUser (command : CreateManagedUser) :
    CommitsLast (createManagedUser command) :=
  .bind uncommitted_begin fun _ => .bind (uncommitted_exec _) fun _ => .bind uncommitted_okOr fun _ =>
    commitsLast_setRolesAndPublish _ _ _ _ _

theorem commitsLast_updateManagedUser (command : UpdateManagedUser) :
    CommitsLast (updateManagedUser b command) := by
  rw [updateManagedUser]
  refine .bind uncommitted_begin fun _ => .bind (uncommitted_exec _) fun revision => ?_
  cases revision with
  | none => exact .bind uncommitted_abandon fun _ => .pure
  | some revision => 
      have h := (commitsLast_setRolesAndPublish command.username command.roles revision
        "updated user was not found" command.publishSearch).map some
      rwa [← bind_pure_comp] at h

theorem commitsLast_deleteManagedUser (username : String) (publishSearch : Bool) :
    CommitsLast (deleteManagedUser b username publishSearch) := by
  rw [deleteManagedUser]
  refine .bind uncommitted_begin fun _ => .bind (uncommitted_exec _) fun deleted => ?_
  cases deleted with
  | none => exact .bind uncommitted_abandon fun _ => .pure
  | some row =>
      dsimp only
      split
      · exact .bind (uncommitted_exec _) fun _ => .commit
      · exact .commit

/-- **A commit is the last call of every operation.** -/
theorem commitsLast_perform (b : Backend) (command : Command) : CommitsLast (perform b command) := by
  cases command with
  | register command => exact (commitsLast_registerManagedUser command).map _
  | verifyEmail token verifiedAt publishSearch =>
      exact (commitsLast_updateAndPublish _ _ _ _).map _
  | setResetToken username token sentAt mail =>
      exact (commitsLast_updateTokenWithMail _ _ _ _ _ _).map _
  | setVerification username token sentAt mail =>
      exact (commitsLast_updateTokenWithMail _ _ _ _ _ _).map _
  | setMagicLink username token expiresAt mail =>
      exact (commitsLast_updateTokenWithMail _ _ _ _ _ _).map _
  | requestEmailChange username newEmail token sentAt mail =>
      exact (commitsLast_requestEmailChange _ _ _ _ _).map _
  | confirmEmailChange token confirmedAt publishSearch =>
      exact (commitsLast_updateAndPublish _ _ _ _).map _
  | create command => exact (commitsLast_createManagedUser command).map _
  | update command => exact (commitsLast_updateManagedUser command).map _
  | delete username publishSearch => exact (commitsLast_deleteManagedUser _ _).map _

/-- **A mutation and its message are one.**  Whatever call fails, an operation of the user
writer that returns with an effect has made of the row its command names the row of the
command, with a higher revision and the command's roles, and has added one search command,
that of the row; one that returns without effect has changed nothing.  One that fails has
changed nothing either, unless its commit was answered by an error: then the tables may be
those that the operation leaves when it returns.  The tables stay consistent. -/
theorem managed_mutation_atomic (b : Backend) (command : Command) {t : Tables} {s : Store}
    {calls : List (Event Call Reply Store)} {r : Except ApplicationError Outcome}
    (ht : Consistent t) (hr : Runs Answer (perform b command).run ⟨t, none⟩ calls (.done r) s) :
    Atomic b command t calls r s.tables ∧ (Fresh t command → Consistent s.tables) := by
  cases r with
  | ok outcome => exact (spec_perform b command ht).of_done hr outcome rfl
  | error e =>
      rcases tables_of_error (commitsLast_perform b command).run hr with
        hsame | ⟨hfailed, calls', outcome, hrun⟩
      · have hsame : s.tables = t := hsame
        exact ⟨.inl hsame, fun _ => hsame ▸ ht⟩
      · have hsettles := (spec_perform b command ht).of_done hrun outcome rfl
        exact ⟨.inr ⟨hfailed, outcome, hsettles.1, calls', s, hrun, rfl⟩, hsettles.2⟩

end Commit

/-! ### A backend that fails only on a constraint -/

/-- The answers of a backend, with the values drawn. -/
def answer (d : Draw) (s : Store) : (c : Call) → Reply c × Store
  | .begin => (.ok (), ⟨s.tables, some s.tables⟩)
  | .exec st =>
      match s.working with
      | none => (.error "no transaction", s)
      | some w =>
          match execute w d st with
          | none => (.error "constraint failed", s)
          | some (res, w') => (.ok res, ⟨s.tables, some w'⟩)
  | .commit =>
      match s.working with
      | none => (.error "no transaction", s)
      | some w => (.ok (), ⟨w, none⟩)
  | .rollback => (.ok (), ⟨s.tables, none⟩)

/-- The answers of the machine are answers a database may give. -/
theorem answer_sound (d : Draw) (s : Store) (c : Call) :
    Answer s c (answer d s c).1 (answer d s c).2 := by
  obtain ⟨t, working⟩ := s
  cases c with
  | begin => exact .begun
  | exec st =>
      cases working with
      | none => exact .failed _
      | some w =>
          simp only [answer]
          split
          · exact .failed _
          · next he => exact .executed he
  | commit =>
      cases working with
      | none => exact .failed _
      | some w => exact .committed
  | rollback => exact .rolledBack

/-- The operation, its calls, its result and the tables. -/
def run (b : Backend) (command : Command) (d : Draw) (t : Tables) :
    List (Event Call Reply Store) × Except ApplicationError Outcome × Store :=
  (perform b command).run.execute id (answer d) ⟨t, none⟩

/-- What it does is a run. -/
theorem runs_run (b : Backend) (command : Command) (d : Draw) (t : Tables) :
    Runs Answer (perform b command).run ⟨t, none⟩ (run b command d t).1
      (.done (run b command d t).2.1) (run b command d t).2.2 :=
  Program.runs_execute (show ∀ (s : Store) c, Answer (id s) c (answer d s c).1 (id (answer d s c).2)
    from answer_sound d) _ (⟨t, none⟩ : Store)

/-- A deleted user and a role. -/
def deletedUser : Tables :=
  { Tables.empty with
    users := [{ User.inserted 1 1 "a" "h" 0 with deletedAt := some 5, searchRevision := 3 }]
    roles := [⟨"r", none⟩]
    outbox := [⟨.search 1 3, .search (.delete 1 3)⟩] }

/-- The tables of the example are consistent. -/
theorem consistent_deletedUser : Consistent deletedUser := by
  refine ⟨List.pairwise_singleton _ _, List.pairwise_singleton _ _, List.pairwise_singleton _ _,
    ?_, ?_⟩
  · intro r hr
    cases hr
  · intro m hm pid revision hkey
    rw [List.mem_singleton.1 hm] at hkey
    obtain ⟨rfl, rfl⟩ := OutboxKey.search.inj hkey
    exact ⟨_, List.mem_singleton_self _, rfl, Nat.le_refl 3⟩

/-- The answers of a backend whose connection breaks when a commit is made. -/
def answerLost (d : Draw) (s : Store) (c : Call) : Reply c × Store :=
  match c with
  | .commit =>
      match s.working with
      | none => (.error "no transaction", s)
      | some w => (.error "connection closed", ⟨w, none⟩)
  | c => answer d s c

/-- A commit whose acknowledgement is lost may be answered so. -/
theorem answerLost_sound (d : Draw) (s : Store) (c : Call) :
    Answer s c (answerLost d s c).1 (answerLost d s c).2 := by
  obtain ⟨t, working⟩ := s
  cases c with
  | begin => exact .begun
  | exec st => exact answer_sound d _ (.exec st)
  | commit =>
      cases working with
      | none => exact .failed _
      | some w => exact .committedLate _
  | rollback => exact .rolledBack

/-- The user is created again, with a role given twice; and an unknown role fails. -/
theorem managed_mutation_atomic_created :
    (∃ calls o s, Runs Answer (perform .sqlite
        (.create ⟨"a", "h'", none, ["r", "r"], true⟩)).run ⟨deletedUser, none⟩ calls
          (.done (.ok o)) s ∧ s.tables.outbox.length = 2 ∧
        Atomic .sqlite (.create ⟨"a", "h'", none, ["r", "r"], true⟩) deletedUser calls (.ok o)
          s.tables) ∧
      ∃ calls e s, Runs Answer (perform .sqlite
        (.create ⟨"a", "h'", none, ["r", "q"], true⟩)).run ⟨deletedUser, none⟩ calls
          (.done (.error e)) s ∧ s.tables = deletedUser ∧
        Atomic .sqlite (.create ⟨"a", "h'", none, ["r", "q"], true⟩) deletedUser calls (.error e)
          s.tables := by
  have hok := runs_run .sqlite (.create ⟨"a", "h'", none, ["r", "r"], true⟩) ⟨2, 2, 9⟩ deletedUser
  have herr := runs_run .sqlite (.create ⟨"a", "h'", none, ["r", "q"], true⟩) ⟨2, 2, 9⟩ deletedUser
  refine ⟨⟨_, _, _, hok, rfl, ?_⟩, ⟨_, _, _, herr, rfl, ?_⟩⟩
  · exact (managed_mutation_atomic .sqlite _ consistent_deletedUser hok).1
  · exact (managed_mutation_atomic .sqlite _ consistent_deletedUser herr).1

/-- The user is created again, and the answer to the commit is lost: the operation fails,
and the row, its role and its search command are there. -/
theorem lost_commit_is_made : ∃ calls e s, Consistent deletedUser ∧
    Runs Answer (perform .postgres (.create ⟨"a", "h'", none, ["r"], true⟩)).run
      ⟨deletedUser, none⟩ calls (.done (.error e)) s ∧
    s.tables.users ≠ deletedUser.users ∧ s.tables.userRoles = [⟨1, "r"⟩] ∧
      s.tables.outbox.length = 2 := by
  let run := (perform .postgres (.create ⟨"a", "h'", none, ["r"], true⟩)).run.execute id
    (answerLost ⟨2, 2, 9⟩) ⟨deletedUser, none⟩
  have hrun : Runs Answer (perform .postgres (.create ⟨"a", "h'", none, ["r"], true⟩)).run
      ⟨deletedUser, none⟩ run.1 (.done run.2.1) run.2.2 :=
    Program.runs_execute (show ∀ (s : Store) c,
      Answer (id s) c (answerLost ⟨2, 2, 9⟩ s c).1 (id (answerLost ⟨2, 2, 9⟩ s c).2)
        from answerLost_sound _) _ (⟨deletedUser, none⟩ : Store)
  exact ⟨_, _, _, consistent_deletedUser, hrun, by decide, rfl, rfl⟩

end Managed
end Identity
end Hegira
