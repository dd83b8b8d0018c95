/-
# The unique indexes of the identity store

The tables are lists, and the statements look for a row that is in the way before they
insert or change one.  So the columns that the schema declares unique are unique in every
state that the services reach (`Reaches.keys`): the identifiers, the name and the token of
an email change of a user, the name of a role, and the assignments of roles.

The users are looked at through the unique columns alone (`User.keys`); a statement that
leaves these as they are keeps the indexes without more to be said.
-/

import Mathlib.Data.List.Nodup
import Mathlib.Data.List.Pairwise
import Hegira.Identity.Site

namespace Hegira
namespace Identity

/-- The columns of a user with a unique index. -/
structure UserKeys where
  id : Nat
  pid : Nat
  username : String
  emailChangeToken : Option Nat

def User.keys (u : User) : UserKeys := ⟨u.id, u.pid, u.username, u.emailChangeToken⟩

/-- Two entries that may stand in the indexes together. -/
structure UserKeys.Apart (k k' : UserKeys) : Prop where
  id : k.id ≠ k'.id
  pid : k.pid ≠ k'.pid
  username : k.username ≠ k'.username
  emailChangeToken : ∀ token, k.emailChangeToken = some token → k'.emailChangeToken ≠ some token

instance : Std.Symm UserKeys.Apart :=
  ⟨fun _ _ h => ⟨h.id.symm, h.pid.symm, h.username.symm, fun token ha hb =>
    h.emailChangeToken token hb ha⟩⟩

/-- An update keeps the keys of its user. -/
theorem UserUpdate.set_keys (update : UserUpdate) (u : User) : (update.set u).keys = u.keys := by
  cases update <;> rfl

namespace Tables

/-- The unique indexes hold. -/
structure Keys (t : Tables) : Prop where
  users : (t.users.map User.keys).Pairwise UserKeys.Apart
  roles : (t.roles.map Role.name).Nodup
  userRoles : t.userRoles.Nodup

/-- The new row takes no entry that is there. -/
def Admits (t : Tables) (u : User) : Prop := ∀ v ∈ t.users, v.keys.Apart u.keys

/-- Empty tables have unique keys. -/
theorem keys_empty : Keys .empty := ⟨.nil, .nil, .nil⟩

variable {t t' : Tables}

/-! ### What leaves the users as they are -/

/-- No statement on roles touches a user. -/
@[simp] theorem upsertRole_users (name : String) : (t.upsertRole name).users = t.users := by
  unfold upsertRole
  split <;> rfl

@[simp] theorem grant_users (roleName permissionName : String) :
    (t.grant roleName permissionName).users = t.users := by
  unfold grant
  split <;> rfl

@[simp] theorem registerPermission_users (name : String) :
    (t.registerPermission name).users = t.users := by
  unfold registerPermission
  split <;> rfl

@[simp] theorem giveRole_users (userId : Nat) (roleName : String) :
    (t.giveRole userId roleName).users = t.users := by
  unfold giveRole
  split <;> rfl

@[simp] theorem softDeleteRole_users (now : Int) (name : String) :
    (t.softDeleteRole now name).users = t.users := rfl

/-- What every turn of a loop leaves as it is. -/
theorem foldl_same {α β : Type} {f : Tables → α → Tables} {g : Tables → β}
    (hf : ∀ t a, g (f t a) = g t) (as : List α) : g (as.foldl f t) = g t := by
  induction as generalizing t with
  | nil => rfl
  | cons a as ih => exact ih.trans (hf t a)

@[simp] theorem updateRole_users (now : Int) (roleName newRoleName : String) :
    (t.updateRole now roleName newRoleName).2.users = t.users := by
  unfold updateRole
  split
  · rw [softDeleteRole_users, foldl_same (g := users) fun _ _ => giveRole_users _ _,
      foldl_same (g := users) fun _ _ => grant_users _ _, upsertRole_users]
  · rfl

/-- The loop over the permissions of a role touches no user. -/
theorem grantAll_users (roleName : String) (permissions : List String) :
    (permissions.foldl (fun t permission =>
      (t.registerPermission permission).grant roleName permission) t).users = t.users :=
  foldl_same (g := users) (fun _ _ => by simp) permissions

@[simp] theorem setRolePermissions_users (roleName : String) (permissions : List String) :
    (t.setRolePermissions roleName permissions).users = t.users := by
  unfold setRolePermissions
  exact (grantAll_users _ _).trans (upsertRole_users _)

@[simp] theorem ensureIdentitySeedData_users : t.ensureIdentitySeedData.users = t.users := by
  unfold ensureIdentitySeedData
  dsimp only
  rw [grantAll_users, upsertRole_users]

/-- An update of the columns without an index. -/
theorem map_keys_updateUsers {p : User → Bool} {f : User → User} (hf : ∀ u, (f u).keys = u.keys) :
    (Managed.updateUsers t p f).users.map User.keys = t.users.map User.keys := by
  rw [Managed.updateUsers, List.map_map]
  refine List.map_congr_left fun u _ => ?_
  rw [Function.comp_apply]
  split
  · exact hf u
  · rfl

/-! ### What keeps the indexes -/

namespace Keys

/-- A key names one user. -/
theorem eq_of_username (h : t.Keys) {u v : User} (hu : u ∈ t.users) (hv : v ∈ t.users)
    (hname : u.username = v.username) : u = v := by
  by_contra hne
  exact ((List.pairwise_map.1 h.users).forall hu hv hne).username hname

theorem eq_of_id (h : t.Keys) {u v : User} (hu : u ∈ t.users) (hv : v ∈ t.users)
    (hid : u.id = v.id) : u = v := by
  by_contra hne
  exact ((List.pairwise_map.1 h.users).forall hu hv hne).id hid

theorem eq_of_emailChangeToken (h : t.Keys) {u v : User} {token : Nat} (hu : u ∈ t.users)
    (hv : v ∈ t.users) (htu : u.emailChangeToken = some token)
    (htv : v.emailChangeToken = some token) : u = v := by
  by_contra hne
  exact ((List.pairwise_map.1 h.users).forall hu hv hne).emailChangeToken token htu htv

/-- The one user that a name selects. -/
theorem eq_of_named (h : t.Keys) {username : String} {u v : User} (hu : u ∈ t.users)
    (hv : v ∈ t.users) (hpu : Managed.named username u = true)
    (hpv : Managed.named username v = true) : u = v := by
  simp only [Managed.named, Bool.and_eq_true, beq_iff_eq] at hpu hpv
  exact h.eq_of_username hu hv (hpu.1.trans hpv.1.symm)

/-- The indexed columns are as before. -/
theorem congr (h : t.Keys) (husers : t'.users.map User.keys = t.users.map User.keys)
    (hroles : t'.roles.map Role.name = t.roles.map Role.name)
    (huserRoles : t'.userRoles.Sublist t.userRoles) : t'.Keys :=
  ⟨husers ▸ h.users, hroles ▸ h.roles, h.userRoles.sublist huserRoles⟩

/-- An update of the other columns. -/
theorem updateUsers (h : t.Keys) {p : User → Bool} {f : User → User}
    (hf : ∀ u, (f u).keys = u.keys) : (Managed.updateUsers t p f).Keys :=
  h.congr (map_keys_updateUsers hf) rfl (List.Sublist.refl _)

/-- An update of one user to a row that takes no entry of the others. -/
theorem updateUser (h : t.Keys) {p : User → Bool} {f : User → User} {u : User}
    (huniq : ∀ v ∈ t.users, p v = true → v = u)
    (hf : ∀ v ∈ t.users, v ≠ u → v.keys.Apart (f u).keys) : (Managed.updateUsers t p f).Keys := by
  have hkeyed : t.users.Pairwise Managed.Keyed :=
    (List.pairwise_map.1 h.users).imp fun hk => ⟨hk.id, hk.pid, hk.username⟩
  have hsymm : Std.Symm fun u v : User => u.keys.Apart v.keys := ⟨fun _ _ h => Std.Symm.symm _ _ h⟩
  exact ⟨List.pairwise_map.2 (Managed.pairwise_update hkeyed (List.pairwise_map.1 h.users) huniq hf),
    h.roles, h.userRoles⟩

/-- A user whose keys are free may be inserted. -/
theorem insertUser (h : t.Keys) {u : User} (hu : t.Admits u) :
    Keys { t with users := t.users ++ [u] } := by
  refine ⟨?_, h.roles, h.userRoles⟩
  rw [List.map_append, List.pairwise_append]
  refine ⟨h.users, List.pairwise_singleton _ _, fun k hk k' hk' => ?_⟩
  obtain ⟨v, hv, rfl⟩ := List.mem_map.1 hk
  rw [List.map_singleton, List.mem_singleton] at hk'
  exact hk' ▸ hu v hv

/-- The statements on roles keep the keys unique. -/
theorem giveRole (h : t.Keys) (userId : Nat) (roleName : String) :
    (t.giveRole userId roleName).Keys := by
  unfold Tables.giveRole
  split
  · exact h
  next hnew =>
    refine ⟨h.users, h.roles, ?_⟩
    rw [← List.concat_eq_append]
    exact h.userRoles.concat (by simpa using hnew)

theorem upsertRole (h : t.Keys) (name : String) : (t.upsertRole name).Keys := by
  unfold Tables.upsertRole
  split
  · refine h.congr rfl ?_ (List.Sublist.refl _)
    rw [List.map_map]
    refine List.map_congr_left fun r _ => ?_
    rw [Function.comp_apply]
    split <;> rfl
  next hnew =>
    refine ⟨h.users, ?_, h.userRoles⟩
    rw [List.map_append, List.map_singleton, ← List.concat_eq_append]
    exact h.roles.concat (by simpa using hnew)

theorem softDeleteRole (h : t.Keys) (now : Int) (name : String) :
    (t.softDeleteRole now name).Keys := by
  refine h.congr rfl ?_ (List.Sublist.refl _)
  rw [Tables.softDeleteRole, List.map_map]
  refine List.map_congr_left fun r _ => ?_
  rw [Function.comp_apply]
  split <;> rfl

theorem grant (h : t.Keys) (roleName permissionName : String) :
    (t.grant roleName permissionName).Keys := by
  unfold Tables.grant
  split
  · exact h
  · exact ⟨h.users, h.roles, h.userRoles⟩

theorem registerPermission (h : t.Keys) (name : String) : (t.registerPermission name).Keys := by
  unfold Tables.registerPermission
  split
  · exact h
  · exact ⟨h.users, h.roles, h.userRoles⟩

/-- A loop of steps that keep the indexes. -/
theorem foldl {α : Type} {f : Tables → α → Tables} (hf : ∀ t a, Keys t → (f t a).Keys)
    (h : t.Keys) (as : List α) : (as.foldl f t).Keys := by
  induction as generalizing t with
  | nil => exact h
  | cons a as ih => exact ih (hf t a h)

theorem updateRole (h : t.Keys) (now : Int) (roleName newRoleName : String) :
    (t.updateRole now roleName newRoleName).2.Keys := by
  unfold Tables.updateRole
  split
  · exact ((foldl (fun _ _ h => h.giveRole _ _)
      (foldl (fun _ _ h => h.grant _ _) (h.upsertRole _) _) _).softDeleteRole _ _)
  · exact h

/-- Any change of the granted permissions keeps the keys unique. -/
theorem withRolePermissions (h : t.Keys) (rolePermissions : List RolePermission) :
    Keys { t with rolePermissions := rolePermissions } := ⟨h.users, h.roles, h.userRoles⟩

/-- The loop that registers and grants permissions. -/
theorem grantAll (h : t.Keys) (roleName : String) (permissions : List String) :
    (permissions.foldl (fun t permission =>
      (t.registerPermission permission).grant roleName permission) t).Keys :=
  foldl (fun _ permission h => (h.registerPermission permission).grant roleName permission) h _

/-- Replacing the permissions of a role keeps them so. -/
theorem setRolePermissions (h : t.Keys) (roleName : String) (permissions : List String) :
    (t.setRolePermissions roleName permissions).Keys :=
  ((h.upsertRole roleName).withRolePermissions _).grantAll roleName permissions

theorem ensureIdentitySeedData (h : t.Keys) : t.ensureIdentitySeedData.Keys := by
  unfold Tables.ensureIdentitySeedData
  exact ((h.upsertRole defaultAdminRoleName).grantAll _ _).withRolePermissions _

end Keys

end Tables

/-! ### The user writer -/

namespace Managed

variable {t t' : Tables}

/-- Fresh keys and a free username are admitted. -/
theorem admits_of_free {d : Draw} {u : User} (hfree : taken t d = false)
    (hname : ∀ v ∈ t.users, v.username ≠ u.username) (hid : u.id = d.id) (hpid : u.pid = d.pid)
    (htoken : u.emailChangeToken = none) : t.Admits u := by
  intro v hv
  have hids := List.any_eq_false.1 hfree v hv
  simp only [Bool.or_eq_true, beq_iff_eq, not_or] at hids
  refine ⟨fun h => hids.1 (h.trans hid), fun h => hids.2 (h.trans hpid), hname v hv, ?_⟩
  intro token _ h
  cases htoken.symm.trans h

/-- **Every statement of the writer keeps the indexes.** -/
theorem keys_execute {d : Draw} {st : Statement} {res : st.Result} (h : t.Keys)
    (he : execute t d st = some (res, t')) : t'.Keys := by
  cases st with
  | insertRegistered command =>
      simp only [execute] at he
      split at he
      · cases he
        exact h
      next hname =>
        split at he
        · cases he
        next hfree =>
          cases he
          have hname : ∀ v ∈ t.users, v.username ≠ command.username := by simpa using hname
          exact h.insertUser (admits_of_free (by simpa using hfree) hname rfl rfl rfl)
  | updateVerified token verifiedAt =>
      simp only [execute] at he
      split at he <;> cases he
      · exact h
      · exact h.updateUsers fun _ => rfl
  | updateToken column username token time =>
      cases he
      exact h.updateUsers fun u => by cases column <;> rfl
  | updateEmailChange username newEmail token sentAt =>
      simp only [execute] at he
      split at he
      · split at he
        · cases he
        next hany hfree =>
          cases he
          simp only [Bool.and_eq_true, List.any_eq_true] at hany
          obtain ⟨⟨u, hu, hpu⟩, -⟩ := hany
          refine h.updateUser (u := u) (fun v hv hpv => h.eq_of_named hv hu hpv hpu) ?_
          intro v hv hne
          have hapart := (List.pairwise_map.1 h.users).forall hv hu hne
          refine ⟨hapart.id, hapart.pid, hapart.username, fun other hother hsame => ?_⟩
          obtain rfl : token = other := Option.some.inj hsame
          refine hfree (List.any_eq_true.2 ⟨v, hv, ?_⟩)
          have hnamed : named username v = false := by
            by_contra hpv
            exact hne (h.eq_of_named hv hu (by simpa using hpv) hpu)
          have htoken : v.emailChangeToken = some token := hother
          simp [htoken, hnamed]
      · cases he
        exact h
  | updateConfirmed token confirmedAt =>
      simp only [execute] at he
      split at he
      · cases he
        exact h
      next u hfind =>
        split at he
        · cases he
        next hfree =>
          cases he
          have hu := List.mem_of_find?_eq_some hfind
          have htoken : ∀ v, confirms token confirmedAt v = true →
              v.emailChangeToken = some token := by
            intro v hv
            simp only [confirms, Bool.and_eq_true, beq_iff_eq] at hv
            exact hv.1.1.1
          refine h.updateUser (u := u) (fun v hv hpv => h.eq_of_emailChangeToken hv hu
            (htoken v hpv) (htoken u (List.find?_some hfind))) ?_
          intro v hv hne
          have hapart := (List.pairwise_map.1 h.users).forall hv hu hne
          refine ⟨hapart.id, hapart.pid, fun hname => ?_, fun _ _ hnone => by cases hnone⟩
          have hname : v.username = u.pendingEmail.getD u.username := hname
          have hid : v.id ≠ u.id := hapart.id
          exact hfree (List.any_eq_true.2 ⟨v, hv, by simp [hname, hid]⟩)
  | upsertManaged command =>
      simp only [execute] at he
      split at he
      next hnone =>
        split at he
        · cases he
        next hfree =>
          cases he
          have hname : ∀ v ∈ t.users, v.username ≠ command.username := by simpa using hnone
          exact h.insertUser (admits_of_free (by simpa using hfree) hname rfl rfl rfl)
      · split at he <;> cases he
        · exact h
        · exact h.updateUsers fun _ => rfl
  | updateManaged command =>
      simp only [execute] at he
      split at he <;> cases he
      · exact h
      · exact h.updateUsers fun _ => rfl
  | updateDeleted username =>
      simp only [execute] at he
      split at he <;> cases he
      · exact h
      · exact h.updateUsers fun _ => rfl
  | selectUserId username =>
      obtain ⟨u, -, hu⟩ := Option.map_eq_some_iff.1 he
      cases hu
      exact h
  | deleteUserRoles userId =>
      cases he
      exact h.congr rfl rfl List.filter_sublist
  | insertUserRole userId roleName =>
      simp only [execute] at he
      split at he
      · cases he
        exact h
      next hnew =>
        split at he <;> cases he
        refine ⟨h.users, h.roles, ?_⟩
        rw [← List.concat_eq_append]
        exact h.userRoles.concat (by simpa using hnew)
  | enqueueOutbox m =>
      cases he
      unfold Tables.enqueue
      split
      · exact h
      · exact ⟨h.users, h.roles, h.userRoles⟩
  | selectRoles userId | selectUser username =>
      cases he
      exact h

/-- An operation of the writer commits tables with the indexes. -/
theorem keys_runs {α : Type} {p p' : Program Call Reply α} {calls : List (Event Call Reply Store)}
    {db : Store} (hr : Runs Answer p ⟨t, none⟩ calls p' db) (h : t.Keys) : db.tables.Keys := by
  have hinv : db.tables.Keys ∧ ∀ w, db.working = some w → w.Keys := by
    refine hr.invariant (I := fun s => s.tables.Keys ∧ ∀ w, s.working = some w → w.Keys) ?_
      ⟨h, nofun⟩
    rintro s c r s' ha ⟨htables, hworking⟩
    cases ha with
    | begun => exact ⟨htables, fun w hw => Option.some.inj hw ▸ htables⟩
    | executed he =>
        exact ⟨htables, fun w hw => Option.some.inj hw ▸ keys_execute (hworking _ rfl) he⟩
    | committed => exact ⟨hworking _ rfl, nofun⟩
    | committedLate message => exact ⟨hworking _ rfl, nofun⟩
    | rolledBack => exact ⟨htables, nofun⟩
    | failed message => exact ⟨htables, hworking⟩
  exact hinv.1

end Managed

/-! ### The site -/

namespace Service

/-- The unique indexes hold, and the identifiers in them have been drawn. -/
structure Store.Keyed (s : Store) : Prop where
  tables : s.tables.Keys
  drawn : ∀ k ∈ s.tables.users.map User.keys, k.id < s.drawn ∧ k.pid < s.drawn

variable {S : Settings} {s s' : Store}

namespace Store.Keyed

/-- The users are indexed as before, or more has been drawn. -/
theorem of_users (h : s.Keyed) (htables : s'.tables.Keys)
    (husers : s'.tables.users.map User.keys = s.tables.users.map User.keys)
    (hdrawn : s.drawn ≤ s'.drawn) : s'.Keyed := by
  refine ⟨htables, fun k hk => ?_⟩
  rw [husers] at hk
  obtain ⟨hid, hpid⟩ := h.drawn k hk
  exact ⟨Nat.lt_of_lt_of_le hid hdrawn, Nat.lt_of_lt_of_le hpid hdrawn⟩

/-- Only columns without an index, or rows of other tables, are changed. -/
theorem of_same (h : s.Keyed) (husers : s'.tables.users = s.tables.users)
    (hroles : s'.tables.roles = s.tables.roles)
    (huserRoles : s'.tables.userRoles = s.tables.userRoles) (hdrawn : s.drawn ≤ s'.drawn) :
    s'.Keyed :=
  h.of_users (h.tables.congr (by rw [husers]) (by rw [hroles]) (huserRoles ▸ List.Sublist.refl _))
    (by rw [husers]) hdrawn

/-- The values of a row are drawn for a user of a new name. -/
theorem insertUser (h : s.Keyed) {t : Tables} {u : User} (hid : u.id = s.drawn)
    (hpid : u.pid = s.drawn) (htoken : u.emailChangeToken = none)
    (hname : ∀ v ∈ s.tables.users, v.username ≠ u.username)
    (husers : t.users = s.tables.users ++ [u]) (hroles : t.roles = s.tables.roles)
    (huserRoles : t.userRoles = s.tables.userRoles) :
    Store.Keyed { s with tables := t, drawn := s.drawn + 1 } := by
  have hlt : ∀ v ∈ s.tables.users, v.id < s.drawn ∧ v.pid < s.drawn := fun v hv =>
    h.drawn v.keys (List.mem_map_of_mem hv)
  have hadmits : s.tables.Admits u := by
    intro v hv
    have hvid : v.id ≠ u.id := by have := (hlt v hv).1; omega
    have hvpid : v.pid ≠ u.pid := by have := (hlt v hv).2; omega
    refine ⟨hvid, hvpid, hname v hv, fun token _ hsome => ?_⟩
    cases htoken.symm.trans hsome
  refine ⟨(h.tables.insertUser hadmits).congr (by rw [husers]) (by rw [hroles])
    (huserRoles ▸ List.Sublist.refl _), ?_⟩
  intro k hk
  rw [husers, List.map_append, List.mem_append, List.map_singleton, List.mem_singleton] at hk
  rcases hk with hk | rfl
  · obtain ⟨hkid, hkpid⟩ := h.drawn k hk
    exact ⟨Nat.lt_succ_of_lt hkid, Nat.lt_succ_of_lt hkpid⟩
  · exact ⟨hid ▸ Nat.lt_succ_self _, hpid ▸ Nat.lt_succ_self _⟩

end Store.Keyed

/-- A new session keeps the keys unique. -/
theorem keyed_insertSession (h : s.Keyed) (token userId : Nat) (expiresAt maxExpiresAt : Int) :
    (insertSession s token userId expiresAt maxExpiresAt).2.Keyed := by
  unfold insertSession
  split
  · exact h
  · exact h.of_same rfl rfl rfl (Nat.le_succ _)

theorem keyed_insertUser (h : s.Keyed) (username passwordHash : String) :
    Store.Keyed { s with
      tables := Service.insertUser s.draw s.tables username passwordHash, drawn := s.drawn + 1 } := by
  unfold Service.insertUser
  split
  · exact h.of_users (h.tables.updateUsers fun _ => rfl) (Tables.map_keys_updateUsers fun _ => rfl)
      (Nat.le_succ _)
  next hnew =>
    have hname : ∀ v ∈ s.tables.users, v.username ≠ username := by simpa using hnew
    exact h.insertUser (u := User.inserted s.drawn s.drawn username passwordHash s.now) rfl rfl rfl
      hname rfl rfl rfl

/-- The rows that the indexes are of. -/
def SameRows (t t' : Tables) : Prop :=
  t'.users = t.users ∧ t'.roles = t.roles ∧ t'.userRoles = t.userRoles

/-- A connection is looked for, linked, or kept until a signup: no user is inserted. -/
theorem statement_sameRows {d : OAuth.Draw} {t t' : Tables} {st : OAuth.Statement}
    {res : st.Result} (he : OAuth.statement d t st = some (res, t')) :
    (∃ provider identity, st = .usernameForConnection provider identity) ∨
      (∃ username provider identity email, st = .linkConnection username provider identity email) ∨
      (∃ signup, st = .upsertPendingSignup signup) → SameRows t t' := by
  obtain ⟨⟨result, writes, keys⟩, hexec, hres⟩ := Option.map_eq_some_iff.1 he
  obtain ⟨-, rfl⟩ := Prod.mk.inj hres
  rintro (⟨provider, identity, rfl⟩ | ⟨username, provider, identity, email, rfl⟩ | ⟨signup, rfl⟩)
  · simp only [OAuth.execute] at hexec
    split at hexec <;> cases hexec <;> exact ⟨rfl, rfl, rfl⟩
  · simp only [OAuth.execute] at hexec
    split at hexec
    · cases hexec
      exact ⟨rfl, rfl, rfl⟩
    · split at hexec
      · cases hexec
      · split at hexec <;> cases hexec <;> exact ⟨rfl, rfl, rfl⟩
  · simp only [OAuth.execute] at hexec
    split at hexec <;> cases hexec
    exact ⟨rfl, rfl, rfl⟩

/-- Unlinking touches neither users nor sessions. -/
theorem unlinkConnection_sameRows (b : Managed.Backend) (t : Tables) (username provider : String) :
    SameRows t (unlinkConnection b t username provider).2 := by
  unfold unlinkConnection
  split
  · exact ⟨rfl, rfl, rfl⟩
  · dsimp only
    repeat' split
    all_goals exact ⟨rfl, rfl, rfl⟩

/-- A signup keeps the keys unique. -/
theorem keyed_completeSignup (h : s.Keyed) (command : OAuth.CompleteOAuthSignup) :
    Store.Keyed { s with
      tables := (completeSignup s.draw s.tables command).2, drawn := s.drawn + 1 } := by
  unfold completeSignup
  split
  · exact h.of_same rfl rfl rfl (Nat.le_succ _)
  · split
    · exact h.of_same rfl rfl rfl (Nat.le_succ _)
    next hnew =>
      have hname : ∀ v ∈ s.tables.users, v.username ≠ command.username := by
        intro v hv hname
        refine hnew (Bool.or_eq_true _ _ ▸ Or.inl (List.any_eq_true.2 ⟨v, hv, ?_⟩))
        simp [hname]
      refine h.insertUser (u := OAuth.externalUser s.draw command.username command.passwordHash)
        rfl rfl rfl hname ?_ ?_ ?_ <;>
      · dsimp only
        split
        · unfold OAuth.applyWrite Tables.enqueue
          dsimp only
          split <;> rfl
        · rfl

/-- **Every call keeps the indexes.** -/
theorem keyed_execute {c : Call} {r : Reply c} (h : s.Keyed) (he : execute S s c = some (r, s')) :
    s'.Keyed := by
  have hroles : ∀ {t : Tables}, t.Keys → t.users = s.tables.users → (s.withTables t).Keyed :=
    fun ht husers => h.of_users ht (congrArg (List.map User.keys) husers) (Nat.le_refl _)
  cases c with
  | managed command => cases he
  | fetchUser provider code => cases he
  | newToken | createToken subject =>
      cases he
      exact h.of_same rfl rfl rfl (Nat.le_succ _)
  | verifyToken token =>
      simp only [execute] at he
      repeat' split at he
      all_goals
        cases he
        exact h
  | userIdByUsername username =>
      simp only [execute] at he
      split at he <;> cases he <;> exact h
  | insertUser username passwordHash =>
      cases he
      exact keyed_insertUser h username passwordHash
  | updateUser update =>
      cases he
      exact h.of_users (h.tables.updateUsers update.set_keys)
        (Tables.map_keys_updateUsers update.set_keys) (Nat.le_refl _)
  | insertSession token username expiresAt maxExpiresAt =>
      simp only [execute] at he
      split at he
      · cases he
        exact h
      next u _ =>
        obtain rfl : (insertSession s token u.id expiresAt maxExpiresAt).2 = s' :=
          congrArg Prod.snd (Option.some.inj he)
        exact keyed_insertSession h token u.id expiresAt maxExpiresAt
  | insertSessionOf token userId expiresAt maxExpiresAt =>
      obtain rfl : (insertSession s token userId expiresAt maxExpiresAt).2 = s' :=
        congrArg Prod.snd (Option.some.inj he)
      exact keyed_insertSession h token userId expiresAt maxExpiresAt
  | updateSessionToken oldToken newToken expiresAt maxExpiresAt =>
      simp only [execute] at he
      split at he <;> cases he
      · exact h
      · exact h.of_same rfl rfl rfl (Nat.le_refl _)
  | giveRole userId roleName =>
      simp only [execute] at he
      split at he <;> cases he
      · exact hroles (h.tables.giveRole userId roleName) (Tables.giveRole_users _ _)
      · exact h
  | createRole roleName =>
      cases he
      exact hroles (h.tables.upsertRole roleName) (Tables.upsertRole_users _)
  | updateRole roleName newRoleName =>
      cases he
      exact hroles (h.tables.updateRole _ _ _) (Tables.updateRole_users _ _ _)
  | deleteRole roleName =>
      cases he
      exact hroles (h.tables.softDeleteRole _ _) rfl
  | setRolePermissions roleName permissions =>
      cases he
      exact hroles (h.tables.setRolePermissions _ _) (Tables.setRolePermissions_users _ _)
  | ensureIdentitySeedData =>
      cases he
      exact hroles h.tables.ensureIdentitySeedData Tables.ensureIdentitySeedData_users
  | usernameForConnection provider identity =>
      simp only [execute] at he
      split at he <;> cases he <;> exact h
  | linkConnection username provider identity email =>
      simp only [execute] at he
      split at he
      · cases he
        exact h
      next hst =>
        split at he <;> cases he
        · exact h
        · obtain ⟨husers, hroles, huserRoles⟩ :=
            statement_sameRows hst (.inr (.inl ⟨_, _, _, _, rfl⟩))
          exact h.of_same husers hroles huserRoles (Nat.le_refl _)
  | unlinkConnection username provider =>
      cases he
      obtain ⟨husers, hroles, huserRoles⟩ :=
        unlinkConnection_sameRows S.backend s.tables username provider
      exact h.of_same husers hroles huserRoles (Nat.le_refl _)
  | insertPendingSignup signup =>
      simp only [execute] at he
      split at he <;> cases he
      · exact h
      next hst =>
        obtain ⟨husers, hroles, huserRoles⟩ := statement_sameRows hst (.inr (.inr ⟨_, rfl⟩))
        exact h.of_same husers hroles huserRoles (Nat.le_refl _)
  | completeSignup command =>
      cases he
      exact keyed_completeSignup h command
  | _ =>
      cases he
      exact h.of_same rfl rfl rfl (Nat.le_refl _)

/-- **One step.** Every answered call keeps them. -/
theorem keyed_answer {c : Call} {r : Reply c} (h : s.Keyed) (ha : Answer S s c r s') :
    s'.Keyed := by
  cases ha with
  | executed he => exact keyed_execute h he
  | managed hr hle hdrawn =>
      refine ⟨Managed.keys_runs hr h.tables, fun k hk => ?_⟩
      obtain ⟨u, hu, rfl⟩ := List.mem_map.1 hk
      exact hdrawn u hu
  | fetched user => exact h
  | failed hc error => exact h

/-- New tables leave the clock and what was drawn. -/
theorem Store.withTables_now (t : Tables) : (s.withTables t).now = s.now := rfl

theorem Store.withTables_drawn (t : Tables) : (s.withTables t).drawn = s.drawn := rfl

/-- **No call moves the clock, and none gives back what has been drawn.** -/
theorem execute_advances {c : Call} {r : Reply c} (he : execute S s c = some (r, s')) :
    s'.now = s.now ∧ s.drawn ≤ s'.drawn := by
  cases c with
  | managed command => cases he
  | fetchUser provider code => cases he
  | insertSession token username expiresAt maxExpiresAt =>
      simp only [execute] at he
      split at he
      · cases he
        exact ⟨rfl, Nat.le_refl _⟩
      next u _ =>
        obtain rfl : (insertSession s token u.id expiresAt maxExpiresAt).2 = s' :=
          congrArg Prod.snd (Option.some.inj he)
        unfold insertSession
        split
        · exact ⟨rfl, Nat.le_refl _⟩
        · exact ⟨rfl, Nat.le_succ _⟩
  | insertSessionOf token userId expiresAt maxExpiresAt =>
      obtain rfl : (insertSession s token userId expiresAt maxExpiresAt).2 = s' :=
        congrArg Prod.snd (Option.some.inj he)
      unfold insertSession
      split
      · exact ⟨rfl, Nat.le_refl _⟩
      · exact ⟨rfl, Nat.le_succ _⟩
  | newToken | createToken subject | insertUser username passwordHash | completeSignup command =>
      cases he
      exact ⟨rfl, Nat.le_succ _⟩
  | verifyToken token | userIdByUsername username | updateSessionToken old new expiresAt maxExpiresAt
  | giveRole userId roleName | usernameForConnection provider identity
  | linkConnection username provider identity email | insertPendingSignup signup =>
      simp only [execute] at he
      repeat' split at he
      all_goals
        cases he
        exact ⟨rfl, Nat.le_refl _⟩
  | ensureIdentitySeedData | setRolePermissions roleName permissions =>
      cases he
      exact ⟨Store.withTables_now _, Nat.le_of_eq (Store.withTables_drawn _).symm⟩
  | _ =>
      cases he
      exact ⟨rfl, Nat.le_refl _⟩

/-- A call leaves the clock, and draws at most more. -/
theorem answer_advances {c : Call} {r : Reply c} (ha : Answer S s c r s') :
    s'.now = s.now ∧ s.drawn ≤ s'.drawn := by
  cases ha with
  | executed he => exact execute_advances he
  | managed hr hle hdrawn => exact ⟨rfl, hle⟩
  | fetched user => exact ⟨rfl, Nat.le_refl _⟩
  | failed hremote error => exact ⟨rfl, Nat.le_refl _⟩

/-- The call may write to `users`. -/
def Call.writesUsers (c : Call) : Bool :=
  c matches .insertUser .. | .updateUser _ | .managed _ | .completeSignup _

/-- The other calls leave the users as they are. -/
theorem users_execute {c : Call} {r : Reply c} (hc : c.writesUsers = false)
    (he : execute S s c = some (r, s')) : s'.tables.users = s.tables.users := by
  cases c with
  | insertUser username passwordHash => cases hc
  | updateUser update => cases hc
  | managed command => cases hc
  | completeSignup command => cases hc
  | fetchUser provider code => cases he
  | insertSession token username expiresAt maxExpiresAt =>
      simp only [execute] at he
      split at he
      · cases he
        rfl
      next u _ =>
        obtain rfl : (insertSession s token u.id expiresAt maxExpiresAt).2 = s' :=
          congrArg Prod.snd (Option.some.inj he)
        unfold insertSession
        split <;> rfl
  | insertSessionOf token userId expiresAt maxExpiresAt =>
      obtain rfl : (insertSession s token userId expiresAt maxExpiresAt).2 = s' :=
        congrArg Prod.snd (Option.some.inj he)
      unfold insertSession
      split <;> rfl
  | verifyToken token | userIdByUsername username | updateSessionToken old new expiresAt maxExpiresAt
  | usernameForConnection provider identity =>
      simp only [execute] at he
      repeat' split at he
      all_goals
        cases he
        rfl
  | giveRole userId roleName =>
      simp only [execute] at he
      split at he <;> cases he
      · exact Tables.giveRole_users _ _
      · rfl
  | createRole roleName =>
      cases he
      exact Tables.upsertRole_users _
  | updateRole roleName newRoleName =>
      cases he
      exact Tables.updateRole_users _ _ _
  | setRolePermissions roleName permissions =>
      cases he
      exact Tables.setRolePermissions_users _ _
  | ensureIdentitySeedData =>
      cases he
      exact Tables.ensureIdentitySeedData_users
  | linkConnection username provider identity email =>
      simp only [execute] at he
      split at he
      · cases he
        rfl
      next hst =>
        split at he <;> cases he
        · rfl
        · exact (statement_sameRows hst (.inr (.inl ⟨_, _, _, _, rfl⟩))).1
  | unlinkConnection username provider =>
      cases he
      exact (unlinkConnection_sameRows S.backend s.tables username provider).1
  | insertPendingSignup signup =>
      simp only [execute] at he
      split at he <;> cases he
      · rfl
      next hst => exact (statement_sameRows hst (.inr (.inr ⟨_, rfl⟩))).1
  | _ =>
      cases he
      rfl

/-- The passing of time keeps the keys unique. -/
theorem keyed_drift {clock : Int → Int → Prop} (h : s.Keyed) (hd : Drifts clock s s') :
    s'.Keyed :=
  h.of_same (by rw [hd.tables]) (by rw [hd.tables]) (by rw [hd.tables]) (Nat.le_of_eq hd.drawn.symm)

/-- The services start on empty tables, with nothing signed, cached or mailed. -/
def Launched (cfg : Run) : Prop :=
  cfg.flights = [] ∧ ∃ drawn now, cfg.store = ⟨.empty, [], [], none, [], [], drawn, now⟩

/-- A store the application starts with has unique keys. -/
theorem Launched.keyed {cfg : Run} (h : Launched cfg) : cfg.store.Keyed := by
  obtain ⟨-, drawn, now, hstore⟩ := h
  rw [hstore]
  exact ⟨Tables.keys_empty, nofun⟩

/-- **The unique indexes hold in every state the services reach.** -/
theorem keys_of_reaches {clock : Int → Int → Prop} {allow : Run → Nat → Prop} {cfg cfg' : Run}
    (hr : Reaches (identity S clock) allow cfg cfg') (h : Launched cfg) : cfg'.store.Keyed :=
  hr.store_invariant (fun _ _ _ _ h ha => keyed_answer h ha) (fun _ _ h hd => keyed_drift h hd)
    h.keyed

end Service

end Identity
end Hegira
