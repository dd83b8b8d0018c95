/-
# What a call makes of the sessions

A session row comes of a call in one of four ways (`Comes`): it was there, it has been
refreshed, it has been given a new token, or it is new.  The statements of the other
tables leave the sessions as they are.
-/

import Mathlib.Data.List.Basic
import Hegira.Identity.Keys

namespace Hegira
namespace Identity

namespace Tables

variable {t : Tables}

/-- No statement on roles touches a session. -/
@[simp] theorem upsertRole_sessions (name : String) : (t.upsertRole name).sessions = t.sessions := by
  unfold upsertRole
  split <;> rfl

@[simp] theorem grant_sessions (roleName permissionName : String) :
    (t.grant roleName permissionName).sessions = t.sessions := by
  unfold grant
  split <;> rfl

@[simp] theorem registerPermission_sessions (name : String) :
    (t.registerPermission name).sessions = t.sessions := by
  unfold registerPermission
  split <;> rfl

@[simp] theorem giveRole_sessions (userId : Nat) (roleName : String) :
    (t.giveRole userId roleName).sessions = t.sessions := by
  unfold giveRole
  split <;> rfl

@[simp] theorem enqueue_sessions (m : OutboxMessage) : (t.enqueue m).sessions = t.sessions := by
  unfold enqueue
  split <;> rfl

@[simp] theorem softDeleteRole_sessions (now : Int) (name : String) :
    (t.softDeleteRole now name).sessions = t.sessions := rfl

/-- The loop over the permissions of a role touches no session. -/
theorem grantAll_sessions (roleName : String) (permissions : List String) :
    (permissions.foldl (fun t permission =>
      (t.registerPermission permission).grant roleName permission) t).sessions = t.sessions :=
  foldl_same (g := sessions) (fun _ _ => by simp) permissions

@[simp] theorem updateRole_sessions (now : Int) (roleName newRoleName : String) :
    (t.updateRole now roleName newRoleName).2.sessions = t.sessions := by
  unfold updateRole
  split
  · rw [softDeleteRole_sessions, foldl_same (g := sessions) fun _ _ => giveRole_sessions _ _,
      foldl_same (g := sessions) fun _ _ => grant_sessions _ _, upsertRole_sessions]
  · rfl

@[simp] theorem setRolePermissions_sessions (roleName : String) (permissions : List String) :
    (t.setRolePermissions roleName permissions).sessions = t.sessions := by
  unfold setRolePermissions
  exact (grantAll_sessions _ _).trans (upsertRole_sessions _)

@[simp] theorem ensureIdentitySeedData_sessions :
    t.ensureIdentitySeedData.sessions = t.sessions := by
  unfold ensureIdentitySeedData
  dsimp only
  rw [grantAll_sessions, upsertRole_sessions]

end Tables

namespace Managed

variable {t t' : Tables}

/-- The statements of the managed writers leave the sessions. -/
theorem sessions_execute {d : Draw} {st : Statement} {res : st.Result}
    (he : execute t d st = some (res, t')) : t'.sessions = t.sessions := by
  cases st with
  | enqueueOutbox m =>
      cases he
      exact Tables.enqueue_sessions m
  | selectUserId username =>
      obtain ⟨u, -, heq⟩ := Option.map_eq_some_iff.1 he
      cases heq
      rfl
  | _ =>
      simp only [execute] at he
      repeat' split at he
      all_goals
        cases he
        try rfl

/-- An operation of the writer leaves the sessions. -/
theorem sessions_runs {α : Type} {p p' : Program Call Reply α}
    {calls : List (Event Call Reply Store)} {db : Store}
    (hr : Runs Answer p ⟨t, none⟩ calls p' db) : db.tables.sessions = t.sessions := by
  have hinv : db.tables.sessions = t.sessions ∧ ∀ w, db.working = some w →
      w.sessions = t.sessions := by
    refine hr.invariant (I := fun s => s.tables.sessions = t.sessions ∧
      ∀ w, s.working = some w → w.sessions = t.sessions) ?_ ⟨rfl, nofun⟩
    rintro s c r s' ha ⟨htables, hworking⟩
    cases ha with
    | begun => exact ⟨htables, fun w hw => Option.some.inj hw ▸ htables⟩
    | executed he =>
        exact ⟨htables, fun w hw => Option.some.inj hw ▸
          (sessions_execute he).trans (hworking _ rfl)⟩
    | committed => exact ⟨hworking _ rfl, nofun⟩
    | committedLate message => exact ⟨hworking _ rfl, nofun⟩
    | rolledBack => exact ⟨htables, nofun⟩
    | failed message => exact ⟨htables, hworking⟩
  exact hinv.1

end Managed

namespace Service

variable {S : Settings} {s s' : Store}

/-- The writes of the OAuth store leave the sessions. -/
@[simp] theorem applyWrite_sessions (t : Tables) (w : OAuth.Write) :
    (OAuth.applyWrite t w).sessions = t.sessions := by
  cases w with
  | enqueue m => exact Tables.enqueue_sessions m
  | _ => rfl

/-- A statement of the OAuth store leaves the sessions. -/
theorem statement_sessions {d : OAuth.Draw} {t t' : Tables} {st : OAuth.Statement}
    {res : st.Result} (he : OAuth.statement d t st = some (res, t')) : t'.sessions = t.sessions := by
  obtain ⟨⟨result, writes, keys⟩, -, hres⟩ := Option.map_eq_some_iff.1 he
  obtain ⟨-, rfl⟩ := Prod.mk.inj hres
  exact Tables.foldl_same (g := Tables.sessions) (fun t w => applyWrite_sessions t w) writes

/-- Unlinking a connection leaves the sessions. -/
theorem unlinkConnection_sessions (b : Managed.Backend) (t : Tables) (username provider : String) :
    (unlinkConnection b t username provider).2.sessions = t.sessions := by
  unfold unlinkConnection
  split
  · rfl
  · dsimp only
    repeat' split
    all_goals rfl

/-- A completed signup makes a user and no session. -/
theorem completeSignup_sessions (d : OAuth.Draw) (t : Tables)
    (command : OAuth.CompleteOAuthSignup) :
    (completeSignup d t command).2.sessions = t.sessions := by
  unfold completeSignup
  split
  · rfl
  · split
    · rfl
    · dsimp only
      split <;> simp only [applyWrite_sessions]

theorem insertUser_sessions (d : OAuth.Draw) (t : Tables) (username passwordHash : String) :
    (insertUser d t username passwordHash).sessions = t.sessions := by
  unfold insertUser
  split <;> rfl

/-! ### The rows -/

/-- The token that a call gives to a session, with the times of the row. -/
structure Grant where
  token : Nat
  expiresAt : Int
  maxExpiresAt : Int

def Call.grants : Call → Option Grant
  | .insertSession token _ expiresAt maxExpiresAt => some ⟨token, expiresAt, maxExpiresAt⟩
  | .insertSessionOf token _ expiresAt maxExpiresAt => some ⟨token, expiresAt, maxExpiresAt⟩
  | .updateSessionToken _ token expiresAt maxExpiresAt => some ⟨token, expiresAt, maxExpiresAt⟩
  | _ => none

/-- The user that a call opens a session for. -/
def Call.account (s : Store) : Call → Option Nat
  | .insertSession _ username _ _ => (s.tables.liveUser username).map User.id
  | .insertSessionOf _ userId _ _ => some userId
  | _ => none

/-- How a row comes of a call. -/
inductive Comes (s s' : Store) : Call → SessionRow → Prop
  | kept {c : Call} {row : SessionRow} (hrow : row ∈ s.tables.sessions) : Comes s s' c row
  | refreshed {row : SessionRow} {expiresAt : Int} (hrow : row ∈ s.tables.sessions)
      (hlive : unexpired s.now row = true) :
      Comes s s' (.refreshSession row.token expiresAt)
        { row with expiresAt := min expiresAt row.maxExpiresAt }
  | renewed {row : SessionRow} {token : Nat} {expiresAt maxExpiresAt : Int}
      (hrow : row ∈ s.tables.sessions) (hlive : unexpired s.now row = true) :
      Comes s s' (.updateSessionToken row.token token expiresAt maxExpiresAt)
        { row with token := token, expiresAt := expiresAt, maxExpiresAt := maxExpiresAt }
  | inserted {c : Call} {g : Grant} {userId : Nat} (hg : c.grants = some g)
      (hu : c.account s = some userId) (hdrawn : s.drawn < s'.drawn) :
      Comes s s' c ⟨s.drawn, g.token, userId, s.now, g.expiresAt, g.maxExpiresAt⟩

/-- The one new row is that of the call. -/
theorem comes_insertSession {c : Call} {token userId : Nat} {expiresAt maxExpiresAt : Int}
    (hg : c.grants = some ⟨token, expiresAt, maxExpiresAt⟩) (hu : c.account s = some userId) :
    ∀ row ∈ (insertSession s token userId expiresAt maxExpiresAt).2.tables.sessions,
      Comes s (insertSession s token userId expiresAt maxExpiresAt).2 c row := by
  intro row hrow
  unfold insertSession at hrow ⊢
  split at hrow
  · exact .kept hrow
  next hfree =>
    rw [if_neg hfree]
    rcases List.mem_append.1 hrow with hrow | hrow
    · exact .kept hrow
    · rw [List.mem_singleton.1 hrow]
      exact .inserted hg hu (Nat.lt_succ_self _)

/-- Every row is an old one, perhaps prolonged, or that of the call. -/
theorem comes_execute {c : Call} {r : Reply c} (he : execute S s c = some (r, s')) :
    ∀ row ∈ s'.tables.sessions, Comes s s' c row := by
  have hsame : s'.tables.sessions = s.tables.sessions → ∀ row ∈ s'.tables.sessions,
      Comes s s' c row := fun h row hrow => .kept (h ▸ hrow)
  cases c with
  | managed command | fetchUser provider code => cases he
  | insertSession token username expiresAt maxExpiresAt =>
      simp only [execute] at he
      split at he
      · cases he
        exact hsame rfl
      next u hu =>
        obtain rfl : (insertSession s token u.id expiresAt maxExpiresAt).2 = s' :=
          congrArg Prod.snd (Option.some.inj he)
        exact comes_insertSession rfl (congrArg (Option.map User.id) hu)
  | insertSessionOf token userId expiresAt maxExpiresAt =>
      obtain rfl : (insertSession s token userId expiresAt maxExpiresAt).2 = s' :=
        congrArg Prod.snd (Option.some.inj he)
      exact comes_insertSession rfl rfl
  | updateSessionToken oldToken newToken expiresAt maxExpiresAt =>
      simp only [execute] at he
      split at he <;> cases he
      · exact hsame rfl
      · intro row' hrow'
        obtain ⟨row, hrow, rfl⟩ := List.mem_map.1 hrow'
        split
        next hselects =>
          obtain ⟨htoken, hlive⟩ := Bool.and_eq_true_iff.1 hselects
          obtain rfl := eq_of_beq htoken
          exact .renewed hrow hlive
        · exact .kept hrow
  | refreshSession token expiresAt =>
      cases he
      intro row' hrow'
      obtain ⟨row, hrow, rfl⟩ := List.mem_map.1 hrow'
      split
      next hselects =>
        obtain ⟨htoken, hlive⟩ := Bool.and_eq_true_iff.1 hselects
        obtain rfl := eq_of_beq htoken
        have hmin : (if expiresAt < row.maxExpiresAt then expiresAt else row.maxExpiresAt) =
            min expiresAt row.maxExpiresAt := by
          omega
        rw [hmin]
        exact .refreshed hrow hlive
      · exact .kept hrow
  | deleteSession token | deleteSessionFor username pid | deleteExpired =>
      cases he
      exact fun row hrow => .kept (List.mem_filter.1 hrow).1
  | insertUser username passwordHash =>
      cases he
      exact hsame (insertUser_sessions _ _ _ _)
  | giveRole userId roleName =>
      simp only [execute] at he
      split at he <;> cases he
      · exact hsame (Tables.giveRole_sessions _ _)
      · exact hsame rfl
  | createRole roleName =>
      cases he
      exact hsame (Tables.upsertRole_sessions _)
  | updateRole roleName newRoleName =>
      cases he
      exact hsame (Tables.updateRole_sessions _ _ _)
  | setRolePermissions roleName permissions =>
      cases he
      exact hsame (Tables.setRolePermissions_sessions _ _)
  | ensureIdentitySeedData =>
      cases he
      exact hsame Tables.ensureIdentitySeedData_sessions
  | unlinkConnection username provider =>
      cases he
      exact hsame (unlinkConnection_sessions _ _ _ _)
  | completeSignup command =>
      cases he
      exact hsame (completeSignup_sessions _ _ _)
  | linkConnection username provider identity email =>
      simp only [execute] at he
      split at he
      · cases he
        exact hsame rfl
      next hst =>
        split at he <;> cases he
        · exact hsame rfl
        · exact hsame (statement_sessions hst)
  | insertPendingSignup signup =>
      simp only [execute] at he
      split at he <;> cases he
      · exact hsame rfl
      next hst => exact hsame (statement_sessions hst)
  | verifyToken token | userIdByUsername username | usernameForConnection provider identity =>
      simp only [execute] at he
      repeat' split at he
      all_goals
        cases he
        exact hsame rfl
  | _ =>
      cases he
      exact hsame rfl

/-- **A row comes of a call in one of four ways.** -/
theorem comes_answer {c : Call} {r : Reply c} (ha : Answer S s c r s') :
    ∀ row ∈ s'.tables.sessions, Comes s s' c row := by
  cases ha with
  | executed he => exact comes_execute he
  | managed hr hle hdrawn => exact fun row hrow => .kept (Managed.sessions_runs hr ▸ hrow)
  | fetched user => exact fun row hrow => .kept hrow
  | failed hremote error => exact fun row hrow => .kept hrow

end Service
end Identity
end Hegira
