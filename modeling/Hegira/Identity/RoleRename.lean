/-
# Renaming a role

`update_role` of `sqlx/src/identity/authorization/sqlite_repository.rs` and of
`repository.rs`, whose statements are the same: the new name is made a live role, the
permissions and the assignments of the old name are copied to it, and the old name is
deleted.

Deleting a role leaves its permissions and assignments where they are.  A new name that was
once a role so brings its own: who held it holds it again, and what it was granted is
granted again.  And a role renamed to its own name is deleted.  The rights of all users are
kept exactly when neither is the case (`rename_keeps_rights_iff`).
-/

import Mathlib.Data.List.Dedup
import Mathlib.Data.List.Sort
import Mathlib.Data.String.Basic
import Hegira.Identity.Keys

namespace Hegira
namespace Identity

/-- The name of a role after `a` is renamed to `b`. -/
def renamed (a b name : String) : String := if name = a then b else name

namespace Tables

/-- `list_roles`. -/
def listRoles (t : Tables) : List String :=
  ((t.roles.filter fun r => r.deletedAt.isNone).map Role.name).mergeSort fun a b => decide (a ≤ b)

/-- The rights of all users are as before, and `a` is now `b`. -/
structure RightsKept (t t' : Tables) (a b : String) : Prop where
  permissions : ∀ username, t'.userPermissions username = t.userPermissions username
  roles : t'.listRoles.Perm (t.listRoles.map (renamed a b))
  userRoles : ∀ username, (t'.userRoleNames username).Perm
    ((t.userRoleNames username).map (renamed a b))

/-- `b` is another name than `a`, and brings nothing: whoever was assigned `b` is assigned
`a`, and whoever is assigned `a` has what `b` was granted. -/
structure BringsNothing (t : Tables) (a b : String) : Prop where
  ne : b ≠ a
  assignments : ∀ u ∈ t.users, u.live = true →
    ⟨u.id, b⟩ ∈ t.userRoles → ⟨u.id, a⟩ ∈ t.userRoles
  grants : ∀ u ∈ t.users, u.live = true → ⟨u.id, a⟩ ∈ t.userRoles →
    ∀ permission ∈ allPermissionNames, ⟨b, permission⟩ ∈ t.rolePermissions →
      t.hasPermission u.username permission = true

variable {t t' : Tables} {a b : String}

/-! ### What the repository reads -/

/-- A role is live when a row of its name is not deleted. -/
theorem liveRole_iff {name : String} :
    t.liveRole name = true ↔ ∃ r ∈ t.roles, r.name = name ∧ r.deletedAt = none := by
  simp [liveRole, List.any_eq_true]

/-- The listed roles are the live ones. -/
theorem mem_listRoles {name : String} : name ∈ t.listRoles ↔ t.liveRole name = true := by
  simp only [listRoles, List.mem_mergeSort, List.mem_map, List.mem_filter, Option.isNone_iff_eq_none,
    liveRole_iff]
  constructor
  · rintro ⟨r, ⟨hr, hlive⟩, rfl⟩
    exact ⟨r, hr, rfl, hlive⟩
  · rintro ⟨r, hr, rfl, hlive⟩
    exact ⟨r, ⟨hr, hlive⟩, rfl⟩

/-- The user of a row is live and has this name. -/
def Names (t : Tables) (username : String) (userId : Nat) : Prop :=
  ∃ u ∈ t.users, u.id = userId ∧ u.username = username ∧ u.live = true

/-- The row test of the queries, as a property. -/
theorem any_names_iff {username : String} {userId : Nat} :
    (t.users.any fun u => u.id == userId && u.username == username && u.live) = true ↔
      t.Names username userId := by
  simp [Names, List.any_eq_true, and_assoc]

/-- A user has the live roles that they were given. -/
theorem mem_userRoleNames {username name : String} : name ∈ t.userRoleNames username ↔
    ∃ userId, ⟨userId, name⟩ ∈ t.userRoles ∧ t.Names username userId ∧ t.liveRole name = true := by
  simp only [userRoleNames, List.mem_mergeSort, List.mem_map, List.mem_filter, Bool.and_eq_true,
    any_names_iff]
  constructor
  · rintro ⟨⟨userId, _⟩, ⟨hur, hnames, hlive⟩, rfl⟩
    exact ⟨userId, hur, hnames, hlive⟩
  · rintro ⟨userId, hur, hnames, hlive⟩
    exact ⟨_, ⟨hur, hnames, hlive⟩, rfl⟩

/-- A permission is held through a live role that grants it. -/
theorem hasPermission_iff {username permission : String} :
    t.hasPermission username permission = true ↔ ∃ userId name, ⟨userId, name⟩ ∈ t.userRoles ∧
      ⟨name, permission⟩ ∈ t.rolePermissions ∧ t.Names username userId ∧ t.liveRole name = true := by
  have hgranted : ∀ name, (t.rolePermissions.any fun rp =>
      rp.roleName == name && rp.permissionName == permission) = true ↔
      ⟨name, permission⟩ ∈ t.rolePermissions := by
    intro name
    rw [List.any_eq_true]
    constructor
    · rintro ⟨⟨_, _⟩, hrp, heq⟩
      simp only [Bool.and_eq_true, beq_iff_eq] at heq
      obtain ⟨rfl, rfl⟩ := heq
      exact hrp
    · exact fun h => ⟨_, h, by simp⟩
  simp only [hasPermission, List.any_eq_true (l := t.userRoles), Bool.and_eq_true, any_names_iff,
    hgranted]
  constructor
  · rintro ⟨⟨userId, name⟩, hur, ⟨hrp, hnames⟩, hlive⟩
    exact ⟨userId, name, hur, hrp, hnames, hlive⟩
  · rintro ⟨userId, name, hur, hrp, hnames, hlive⟩
    exact ⟨_, hur, ⟨hrp, hnames⟩, hlive⟩

/-- The permissions of a user are the known ones that they hold. -/
theorem mem_userPermissions {username permission : String} :
    permission ∈ t.userPermissions username ↔
      permission ∈ allPermissionNames ∧ t.hasPermission username permission = true := by
  simp only [userPermissions, List.mem_filter, List.mem_mergeSort, List.mem_dedup, List.mem_map,
    List.contains_iff_mem]
  constructor
  · rintro ⟨⟨-, h⟩, hregistered⟩
    exact ⟨hregistered, h⟩
  · rintro ⟨hregistered, h⟩
    obtain ⟨userId, name, -, hrp, -⟩ := hasPermission_iff.1 h
    exact ⟨⟨⟨_, hrp, rfl⟩, h⟩, hregistered⟩

/-- The list is that of the registered permissions, in order. -/
theorem userPermissions_congr {username : String}
    (h : ∀ permission ∈ allPermissionNames,
      t'.hasPermission username permission = t.hasPermission username permission) :
    t'.userPermissions username = t.userPermissions username := by
  have hsorted : ∀ t : Tables, (t.userPermissions username).Pairwise (· ≤ ·) := fun t =>
    (List.pairwise_mergeSort' (· ≤ ·) _).filter _
  have hnodup : ∀ t : Tables, (t.userPermissions username).Nodup := fun t =>
    ((List.mergeSort_perm _ _).nodup_iff.2 ((List.nodup_dedup _).filter _)).filter _
  refine List.Perm.eq_of_pairwise (fun _ _ _ _ => le_antisymm) (hsorted t') (hsorted t) ?_
  refine (List.perm_ext_iff_of_nodup (hnodup t') (hnodup t)).2 fun permission => ?_
  rw [mem_userPermissions, mem_userPermissions]
  exact and_congr_right fun hregistered => by rw [h permission hregistered]

/-! ### What the update does -/

/-- A grant adds its row. -/
theorem mem_grant (t : Tables) (roleName permissionName : String) (rp : RolePermission) :
    rp ∈ (t.grant roleName permissionName).rolePermissions ↔
      rp ∈ t.rolePermissions ∨ rp = ⟨roleName, permissionName⟩ := by
  unfold grant
  split
  next h =>
    rw [List.contains_iff_mem] at h
    exact ⟨Or.inl, fun hrp => hrp.elim id fun heq => heq ▸ h⟩
  · simp

theorem mem_giveRole (t : Tables) (userId : Nat) (roleName : String) (ur : UserRole) :
    ur ∈ (t.giveRole userId roleName).userRoles ↔ ur ∈ t.userRoles ∨ ur = ⟨userId, roleName⟩ := by
  unfold giveRole
  split
  next h =>
    rw [List.contains_iff_mem] at h
    exact ⟨Or.inl, fun hur => hur.elim id fun heq => heq ▸ h⟩
  · simp

/-- The rows that a loop adds, one a turn. -/
theorem mem_foldl {α β : Type} {f : Tables → α → Tables} {g : Tables → List β} {row : α → β}
    (hf : ∀ t x y, y ∈ g (f t x) ↔ y ∈ g t ∨ y = row x) (xs : List α) (y : β) :
    y ∈ g (xs.foldl f t) ↔ y ∈ g t ∨ ∃ x ∈ xs, y = row x := by
  induction xs generalizing t with
  | nil => simp
  | cons x xs ih => rw [List.foldl_cons, ih, hf, List.exists_mem_cons_iff, or_assoc]

/-- Copied grants add one row for each. -/
theorem mem_foldl_grant {name : String} {rps : List RolePermission} {rp : RolePermission} :
    rp ∈ (rps.foldl (fun t rp => t.grant name rp.permissionName) t).rolePermissions ↔
      rp ∈ t.rolePermissions ∨ ∃ granted ∈ rps, rp = ⟨name, granted.permissionName⟩ :=
  mem_foldl (g := rolePermissions) (fun t granted => mem_grant t name granted.permissionName) rps rp

/-- Copied holders add one row for each. -/
theorem mem_foldl_giveRole {name : String} {urs : List UserRole} {ur : UserRole} :
    ur ∈ (urs.foldl (fun t ur => t.giveRole ur.userId name) t).userRoles ↔
      ur ∈ t.userRoles ∨ ∃ given ∈ urs, ur = ⟨given.userId, name⟩ :=
  mem_foldl (g := userRoles) (fun t given => mem_giveRole t given.userId name) urs ur

/-- Each statement leaves the tables it does not name. -/
@[simp] theorem upsertRole_rolePermissions (name : String) :
    (t.upsertRole name).rolePermissions = t.rolePermissions := by
  unfold upsertRole
  split <;> rfl

@[simp] theorem upsertRole_userRoles (name : String) :
    (t.upsertRole name).userRoles = t.userRoles := by
  unfold upsertRole
  split <;> rfl

@[simp] theorem grant_roles (roleName permissionName : String) :
    (t.grant roleName permissionName).roles = t.roles := by
  unfold grant
  split <;> rfl

@[simp] theorem grant_userRoles (roleName permissionName : String) :
    (t.grant roleName permissionName).userRoles = t.userRoles := by
  unfold grant
  split <;> rfl

@[simp] theorem giveRole_roles (userId : Nat) (roleName : String) :
    (t.giveRole userId roleName).roles = t.roles := by
  unfold giveRole
  split <;> rfl

@[simp] theorem giveRole_rolePermissions (userId : Nat) (roleName : String) :
    (t.giveRole userId roleName).rolePermissions = t.rolePermissions := by
  unfold giveRole
  split <;> rfl

/-- An upsert makes its role live. -/
theorem liveRole_upsertRole {name other : String} :
    (t.upsertRole name).liveRole other = true ↔ other = name ∨ t.liveRole other = true := by
  simp only [liveRole_iff]
  unfold upsertRole
  split
  next hany =>
    obtain ⟨r₀, hr₀, hname⟩ := List.any_eq_true.1 hany
    simp only [beq_iff_eq] at hname
    constructor
    · rintro ⟨r', hr', rfl, hlive⟩
      obtain ⟨r, hr, rfl⟩ := List.mem_map.1 hr'
      by_cases hr₁ : (r.name == name) = true
      · rw [if_pos hr₁]
        exact .inl (beq_iff_eq.1 hr₁)
      · rw [if_neg hr₁] at hlive ⊢
        exact .inr ⟨r, hr, rfl, hlive⟩
    · rintro (rfl | ⟨r, hr, rfl, hlive⟩)
      · exact ⟨_, List.mem_map_of_mem hr₀, by simp [hname], by simp [hname]⟩
      · refine ⟨_, List.mem_map_of_mem hr, ?_, ?_⟩ <;> split <;> simp [hlive]
  · simp only [List.mem_append, List.mem_singleton]
    constructor
    · rintro ⟨r, hr | rfl, rfl, hlive⟩
      · exact .inr ⟨r, hr, rfl, hlive⟩
      · exact .inl rfl
    · rintro (rfl | ⟨r, hr, rfl, hlive⟩)
      · exact ⟨_, .inr rfl, rfl, rfl⟩
      · exact ⟨r, .inl hr, rfl, hlive⟩

/-- A soft delete ends its role. -/
theorem liveRole_softDeleteRole {now : Int} {name other : String} :
    (t.softDeleteRole now name).liveRole other = true ↔
      other ≠ name ∧ t.liveRole other = true := by
  simp only [liveRole_iff, softDeleteRole]
  constructor
  · rintro ⟨r', hr', rfl, hlive⟩
    obtain ⟨r, hr, rfl⟩ := List.mem_map.1 hr'
    split at hlive
    · cases hlive
    next hkept =>
      rw [if_neg hkept]
      simp only [Bool.and_eq_true, beq_iff_eq, Option.isNone_iff_eq_none, not_and] at hkept
      exact ⟨fun hname => hkept hname hlive, r, hr, rfl, hlive⟩
  · rintro ⟨hne, r, hr, rfl, hlive⟩
    refine ⟨_, List.mem_map_of_mem hr, ?_, ?_⟩ <;> rw [if_neg (by simp [hne])]
    exact hlive

/-- What `update_role` leaves of a live role `a`. -/
structure Updated (t t' : Tables) (a b : String) : Prop where
  users : t'.users = t.users
  liveRole : ∀ name, t'.liveRole name = true ↔ name ≠ a ∧ (name = b ∨ t.liveRole name = true)
  rolePermissions : ∀ name permission, ⟨name, permission⟩ ∈ t'.rolePermissions ↔
    ⟨name, permission⟩ ∈ t.rolePermissions ∨ name = b ∧ ⟨a, permission⟩ ∈ t.rolePermissions
  userRoles : ∀ userId name, ⟨userId, name⟩ ∈ t'.userRoles ↔
    ⟨userId, name⟩ ∈ t.userRoles ∨ name = b ∧ ⟨userId, a⟩ ∈ t.userRoles

/-- An update of a live role does what `Updated` says. -/
theorem updated_of_liveRole (now : Int) (ha : t.liveRole a = true) :
    Updated t (t.updateRole now a b).2 a b := by
  refine ⟨updateRole_users now a b, fun name => ?_, fun name permission => ?_,
    fun userId name => ?_⟩ <;> rw [updateRole, if_pos ha] <;> dsimp only
  · rw [liveRole_softDeleteRole, ← liveRole_upsertRole (t := t)]
    simp only [liveRole_iff]
    rw [foldl_same (g := roles) fun _ _ => giveRole_roles _ _,
      foldl_same (g := roles) fun _ _ => grant_roles _ _]
  · change _ ∈ Tables.rolePermissions (List.foldl _ _ _) ↔ _
    rw [foldl_same (g := rolePermissions) fun _ _ => giveRole_rolePermissions _ _,
      mem_foldl_grant, upsertRole_rolePermissions]
    refine or_congr_right ⟨?_, ?_⟩
    · rintro ⟨⟨_, _⟩, hcopied, heq⟩
      obtain ⟨rfl, rfl⟩ := RolePermission.mk.inj heq
      obtain ⟨hrp, hname⟩ := List.mem_filter.1 hcopied
      obtain rfl := eq_of_beq hname
      exact ⟨rfl, hrp⟩
    · rintro ⟨rfl, hrp⟩
      exact ⟨_, List.mem_filter.2 ⟨hrp, by simp⟩, rfl⟩
  · change _ ∈ Tables.userRoles (List.foldl _ _ _) ↔ _
    rw [mem_foldl_giveRole, foldl_same (g := userRoles) fun _ _ => grant_userRoles _ _,
      upsertRole_userRoles]
    refine or_congr_right ⟨?_, ?_⟩
    · rintro ⟨⟨_, _⟩, hcopied, heq⟩
      obtain ⟨rfl, rfl⟩ := UserRole.mk.inj heq
      obtain ⟨hur, hname⟩ := List.mem_filter.1 hcopied
      obtain rfl := eq_of_beq hname
      exact ⟨rfl, hur⟩
    · rintro ⟨rfl, hur⟩
      exact ⟨_, List.mem_filter.2 ⟨hur, by simp⟩, rfl⟩

/-! ### What is kept -/

/-- The roles that `renamed` takes to one name. -/
theorem renamed_eq_iff {name other : String} :
    renamed a b other = name ↔ name = b ∧ other = a ∨ name = other ∧ name ≠ a := by
  unfold renamed
  split
  next heq =>
    subst heq
    exact ⟨fun h => .inl ⟨h.symm, rfl⟩, fun h => h.elim (fun h => h.1.symm) fun h => absurd h.1 h.2⟩
  next hkept =>
    refine ⟨fun h => .inr ⟨h.symm, h ▸ hkept⟩, fun h => h.elim (fun h => absurd h.2 hkept) ?_⟩
    exact fun h => h.1.symm

/-- Names that are not `b` stay apart. -/
theorem renamed_injOn {name other : String} (hname : name ≠ b) (hother : other ≠ b)
    (h : renamed a b name = renamed a b other) : name = other := by
  unfold renamed at h
  split at h <;> split at h
  · simp_all
  · exact absurd h.symm hother
  · exact absurd h hname
  · exact h

/-- No role is listed twice. -/
theorem nodup_listRoles (h : t.Keys) : t.listRoles.Nodup :=
  (List.mergeSort_perm _ _).nodup_iff.2
    (h.roles.sublist (List.filter_sublist.map Role.name))

namespace Updated

/-- An update leaves who is who. -/
theorem names (h : Updated t t' a b) {username : String} {userId : Nat} :
    t'.Names username userId ↔ t.Names username userId := by
  rw [Names, Names, h.users]

/-- The live roles are renamed. -/
theorem listRoles_perm (h : Updated t t' a b) (hk : t.Keys) (hk' : t'.Keys)
    (ha : t.liveRole a = true) (hne : b ≠ a) (hb : t.liveRole b = false) :
    t'.listRoles.Perm (t.listRoles.map (renamed a b)) := by
  have hother : ∀ name ∈ t.listRoles, name ≠ b := by
    rintro name hname rfl
    rw [mem_listRoles, hb] at hname
    cases hname
  have hnodup : (t.listRoles.map (renamed a b)).Nodup :=
    (nodup_listRoles hk).map_on fun name hname other hmem =>
      renamed_injOn (hother name hname) (hother other hmem)
  refine (List.perm_ext_iff_of_nodup (nodup_listRoles hk') hnodup).2 fun name => ?_
  rw [mem_listRoles, h.liveRole, List.mem_map]
  constructor
  · rintro ⟨hna, rfl | hlive⟩
    · exact ⟨a, mem_listRoles.2 ha, if_pos rfl⟩
    · exact ⟨name, mem_listRoles.2 hlive, if_neg hna⟩
  · rintro ⟨other, hmem, heq⟩
    rcases renamed_eq_iff.1 heq with ⟨rfl, -⟩ | ⟨rfl, hna⟩
    · exact ⟨hne, .inl rfl⟩
    · exact ⟨hna, .inr (mem_listRoles.1 hmem)⟩

/-- The rows of `user_roles` of the live roles of a user. -/
def rows (t : Tables) (username : String) : List UserRole :=
  t.userRoles.filter fun ur =>
    (t.users.any fun u => u.id == ur.userId && u.username == username && u.live) &&
      t.liveRole ur.roleName

/-- The rows a user's roles are read from. -/
theorem mem_rows {username name : String} {userId : Nat} :
    ⟨userId, name⟩ ∈ rows t username ↔
      ⟨userId, name⟩ ∈ t.userRoles ∧ t.Names username userId ∧ t.liveRole name = true := by
  rw [rows, List.mem_filter, Bool.and_eq_true, any_names_iff]

/-- No role of a user is read twice. -/
theorem nodup_rows (hk : t.Keys) (username : String) : (rows t username).Nodup :=
  hk.userRoles.filter _

/-- The assignments of a user are renamed, when none of `b` come back. -/
theorem userRoleNames_perm (h : Updated t t' a b) (hk : t.Keys) (hk' : t'.Keys)
    (ha : t.liveRole a = true) (hne : b ≠ a) (hb : t.liveRole b = false)
    (hassigned : ∀ u ∈ t.users, u.live = true →
      ⟨u.id, b⟩ ∈ t.userRoles → ⟨u.id, a⟩ ∈ t.userRoles) (username : String) :
    (t'.userRoleNames username).Perm ((t.userRoleNames username).map (renamed a b)) := by
  let row : UserRole → UserRole := fun ur => ⟨ur.userId, renamed a b ur.roleName⟩
  have hother : ∀ ur ∈ rows t username, ur.roleName ≠ b := by
    rintro ⟨userId, name⟩ hur rfl
    have := (mem_rows.1 hur).2.2
    rw [hb] at this
    cases this
  have hinj : ∀ ur ∈ rows t username, ∀ other ∈ rows t username, row ur = row other → ur = other := by
    rintro ⟨userId, name⟩ hur ⟨otherId, other⟩ hmem heq
    obtain ⟨rfl, hnames⟩ := UserRole.mk.inj heq
    exact congrArg (UserRole.mk userId) (renamed_injOn (hother _ hur) (hother _ hmem) hnames)
  have hrows : (rows t' username).Perm ((rows t username).map row) := by
    refine (List.perm_ext_iff_of_nodup (nodup_rows hk' username)
      ((nodup_rows hk username).map_on hinj)).2 ?_
    rintro ⟨userId, name⟩
    rw [mem_rows, h.userRoles, h.names, h.liveRole, List.mem_map]
    constructor
    · rintro ⟨hur, hnames, hna, hlive⟩
      have hdead : name ≠ b → ⟨userId, name⟩ ∈ t.userRoles ∧ t.liveRole name = true := fun hnb =>
        ⟨hur.resolve_right fun h => hnb h.1, hlive.resolve_left hnb⟩
      rcases eq_or_ne name b with rfl | hnb
      · have hassigned : ⟨userId, a⟩ ∈ t.userRoles := by
          obtain ⟨u, hu, rfl, -, hulive⟩ := hnames
          exact hur.elim (hassigned u hu hulive) fun h => h.2
        exact ⟨⟨userId, a⟩, mem_rows.2 ⟨hassigned, hnames, ha⟩, by simp [row, renamed]⟩
      · exact ⟨⟨userId, name⟩, mem_rows.2 ⟨(hdead hnb).1, hnames, (hdead hnb).2⟩,
          by simp [row, renamed, hna]⟩
    · rintro ⟨⟨otherId, other⟩, hmem, hrow⟩
      obtain ⟨rfl, hname⟩ := UserRole.mk.inj hrow
      obtain ⟨hur, hnames, hlive⟩ := mem_rows.1 hmem
      rcases renamed_eq_iff.1 hname with ⟨rfl, rfl⟩ | ⟨rfl, hna⟩
      · exact ⟨.inr ⟨rfl, hur⟩, hnames, hne, .inl rfl⟩
      · exact ⟨.inl hur, hnames, hna, .inr hlive⟩
  have hmap := hrows.map UserRole.roleName
  rw [List.map_map] at hmap
  refine (List.mergeSort_perm _ _).trans (hmap.trans ?_)
  have hnames := ((List.mergeSort_perm ((rows t username).map UserRole.roleName)
    fun a b => decide (a ≤ b)).map (renamed a b)).symm
  rw [List.map_map] at hnames
  exact hnames

/-- The permissions of a user are those before, when `b` brings none. -/
theorem hasPermission_eq (h : Updated t t' a b) (ha : t.liveRole a = true)
    (hn : BringsNothing t a b) {username permission : String}
    (hregistered : permission ∈ allPermissionNames) :
    t'.hasPermission username permission = t.hasPermission username permission := by
  rw [Bool.eq_iff_iff, hasPermission_iff]
  simp only [h.userRoles, h.rolePermissions, h.names, h.liveRole]
  constructor
  · rintro ⟨userId, name, hur, hrp, hnames, hna, hlive⟩
    rcases eq_or_ne name b with rfl | hnb
    · obtain ⟨u, hu, rfl, rfl, hulive⟩ := hnames
      have hassigned : ⟨u.id, a⟩ ∈ t.userRoles :=
        hur.elim (hn.assignments u hu hulive) fun h => h.2
      rcases hrp with hrp | ⟨-, hrp⟩
      · exact hn.grants u hu hulive hassigned permission hregistered hrp
      · exact hasPermission_iff.2 ⟨u.id, a, hassigned, hrp, ⟨u, hu, rfl, rfl, hulive⟩, ha⟩
    · exact hasPermission_iff.2 ⟨userId, name, hur.resolve_right fun h => hnb h.1,
        hrp.resolve_right fun h => hnb h.1, hnames, hlive.resolve_left hnb⟩
  · intro hhas
    obtain ⟨userId, name, hur, hrp, hnames, hlive⟩ := hasPermission_iff.1 hhas
    rcases eq_or_ne name a with rfl | hna
    · exact ⟨userId, b, .inr ⟨rfl, hur⟩, .inr ⟨rfl, hrp⟩, hnames, hn.ne, .inl rfl⟩
    · exact ⟨userId, name, .inl hur, .inl hrp, hnames, hna, .inr hlive⟩

end Updated

/-- What is left of `b` shows in the lists. -/
theorem bringsNothing_of_rightsKept (h : Updated t t' a b) (hk : t.Keys)
    (ha : t.liveRole a = true) (hb : b = a ∨ t.liveRole b = false) (hr : RightsKept t t' a b) :
    BringsNothing t a b := by
  have hne : b ≠ a := by
    rintro rfl
    have hmem : b ∈ t'.listRoles := hr.roles.mem_iff.2
      (List.mem_map.2 ⟨b, mem_listRoles.2 ha, if_pos rfl⟩)
    exact ((h.liveRole b).1 (mem_listRoles.1 hmem)).1 rfl
  have hdead : t.liveRole b = false := hb.resolve_left hne
  refine ⟨hne, fun u hu hulive hur => ?_, fun u hu hulive hur permission hregistered hrp => ?_⟩
  · have hmem : b ∈ t'.userRoleNames u.username := mem_userRoleNames.2
      ⟨u.id, (h.userRoles _ _).2 (.inl hur), h.names.2 ⟨u, hu, rfl, rfl, hulive⟩,
        (h.liveRole b).2 ⟨hne, .inl rfl⟩⟩
    obtain ⟨other, hother, heq⟩ := List.mem_map.1 ((hr.userRoles _).mem_iff.1 hmem)
    obtain ⟨userId, hur', ⟨v, hv, rfl, hname, -⟩, hlive⟩ := mem_userRoleNames.1 hother
    rcases renamed_eq_iff.1 heq with ⟨-, rfl⟩ | ⟨rfl, -⟩
    · rw [hk.eq_of_username hu hv hname.symm]
      exact hur'
    · rw [hdead] at hlive
      cases hlive
  · have hhas : t'.hasPermission u.username permission = true := hasPermission_iff.2
      ⟨u.id, b, (h.userRoles _ _).2 (.inr ⟨rfl, hur⟩), (h.rolePermissions _ _).2 (.inl hrp),
        h.names.2 ⟨u, hu, rfl, rfl, hulive⟩, (h.liveRole b).2 ⟨hne, .inl rfl⟩⟩
    have hmem := mem_userPermissions.2 ⟨hregistered, hhas⟩
    rw [hr.permissions] at hmem
    exact (mem_userPermissions.1 hmem).2

/-- **One update.** It keeps the rights exactly when the new name brings none. -/
theorem rightsKept_iff (h : Updated t t' a b) (hk : t.Keys) (hk' : t'.Keys)
    (ha : t.liveRole a = true) (hb : b = a ∨ t.liveRole b = false) :
    RightsKept t t' a b ↔ BringsNothing t a b := by
  refine ⟨bringsNothing_of_rightsKept h hk ha hb, fun hn => ?_⟩
  have hdead := hb.resolve_left hn.ne
  exact ⟨fun username => userPermissions_congr fun permission hregistered =>
      h.hasPermission_eq ha hn hregistered,
    h.listRoles_perm hk hk' ha hn.ne hdead,
    h.userRoleNames_perm hk hk' ha hn.ne hdead hn.assignments⟩

end Tables

namespace Service

open Tables

/-- **A renaming keeps the rights of all users exactly when the new name brings nothing.** -/
theorem rename_keeps_rights_iff {S : Settings} {clock : Int → Int → Prop}
    {allow : Run → Nat → Prop} {cfg cfg' : Run} (hr : Reaches (identity S clock) allow cfg cfg')
    (h : Launched cfg) {a b : String} {s' : Store}
    (ha : Answer S cfg'.store (.updateRole a b) (.ok true) s')
    (hb : b = a ∨ cfg'.store.tables.liveRole b = false) :
    RightsKept cfg'.store.tables s'.tables a b ↔ BringsNothing cfg'.store.tables a b := by
  have hkeys := keys_of_reaches hr h
  have hkeys' := (keyed_answer hkeys ha).tables
  cases ha with
  | executed he =>
      obtain ⟨hflag, rfl⟩ := Prod.mk.inj (Option.some.inj he)
      have hlive : cfg'.store.tables.liveRole a = true := by
        by_contra hdead
        unfold Tables.updateRole at hflag
        rw [if_neg hdead] at hflag
        cases hflag
      exact rightsKept_iff (updated_of_liveRole _ hlive) hkeys.tables hkeys' hlive hb

/-- The administrator signs in, creates a role, grants it a permission and creates a user who
holds it. -/
def editorHeld : Schedule :=
  serveAt 0 (.seedIdentity defaultAdminUsername "secret") 7 ++
    serveAt 1 (.login defaultAdminUsername "secret") 6 ++ serveAt 2 (.createRole 1 "editor") 11 ++
    serveAt 3 (.setRolePermissions 1 "editor" ["Identity.Users"]) 11 ++
    serveAt 4 (.createUser 1 "ann@example.com" "secret" true ["editor"]) 23

/-- Ann is an editor, an editor may see the users, and nobody has heard of authors. -/
def EditorHeld (t : Tables) : Prop :=
  (t.liveRole "editor" = true ∧ ⟨"editor", "Identity.Users"⟩ ∈ t.rolePermissions ∧
    ∃ u ∈ t.users, u.username = "ann@example.com" ∧ u.live = true ∧ ⟨u.id, "editor"⟩ ∈ t.userRoles) ∧
  t.liveRole "author" = false ∧ (∀ assigned ∈ t.userRoles, assigned.roleName ≠ "author") ∧
    ∀ granted ∈ t.rolePermissions, granted.roleName ≠ "author"

instance (t : Tables) : Decidable (EditorHeld t) :=
  inferInstanceAs (Decidable ((_ ∧ _ ∧ ∃ u ∈ t.users, _ ∧ _ ∧ _) ∧ _ ∧ (∀ assigned ∈ t.userRoles, _) ∧
    ∀ granted ∈ t.rolePermissions, _))

/-- The editor can be held, in a run from a fresh store. -/
theorem exists_editor : ∃ cfg : Run, Reaches (identity plainSettings (· ≤ ·)) AnyStep fresh cfg ∧
    EditorHeld cfg.store.tables := by
  have hplay : (((identityMachine plainSettings).play (fun _ _ => true) fresh editorHeld).any
      fun cfg => decide (EditorHeld cfg.store.tables)) = true := by
    decide +kernel
  obtain ⟨cfg, hr, hcheck⟩ := Machine.exists_of_play AnyStep (fun _ _ _ => trivial) hplay
  exact ⟨cfg, hr, of_decide_eq_true hcheck⟩

/-- A fresh store is one the application starts with. -/
theorem launched_fresh : Launched fresh := ⟨rfl, _, _, rfl⟩

/-- An update of a live role may be answered with success. -/
theorem answer_updateRole {S : Settings} {s : Store} {a b : String}
    (ha : s.tables.liveRole a = true) : Answer S s (.updateRole a b) (.ok true)
      (s.withTables (s.tables.updateRole s.now a b).2) := by
  have hflag : (s.tables.updateRole s.now a b).1 = true := by
    unfold Tables.updateRole
    rw [if_pos ha]
  refine .executed ?_
  rw [execute, hflag]

/-- A role that Ann holds is renamed to a new name: she holds it under that name, and may
do what she could. -/
theorem rename_keeps_rights_author : ∃ cfg s',
    Reaches (identity plainSettings (· ≤ ·)) AnyStep fresh cfg ∧
      "editor" ∈ cfg.store.tables.userRoleNames "ann@example.com" ∧
      "Identity.Users" ∈ cfg.store.tables.userPermissions "ann@example.com" ∧
      Answer plainSettings cfg.store (.updateRole "editor" "author") (.ok true) s' ∧
      RightsKept cfg.store.tables s'.tables "editor" "author" ∧
      "author" ∈ s'.tables.userRoleNames "ann@example.com" ∧
      "Identity.Users" ∈ s'.tables.userPermissions "ann@example.com" := by
  obtain ⟨cfg, hr, ⟨hlive, hgranted, u, hu, hname, hulive, hassigned⟩, hdead, hunassigned,
    hungranted⟩ := exists_editor
  have hanswer := answer_updateRole (S := plainSettings) (b := "author") hlive
  have hnames : cfg.store.tables.Names "ann@example.com" u.id := ⟨u, hu, rfl, hname, hulive⟩
  have hrole : "editor" ∈ cfg.store.tables.userRoleNames "ann@example.com" :=
    mem_userRoleNames.2 ⟨u.id, hassigned, hnames, hlive⟩
  have hpermission : "Identity.Users" ∈ cfg.store.tables.userPermissions "ann@example.com" :=
    mem_userPermissions.2 ⟨by decide,
      hasPermission_iff.2 ⟨u.id, "editor", hassigned, hgranted, hnames, hlive⟩⟩
  have hnothing : BringsNothing cfg.store.tables "editor" "author" :=
    ⟨by decide, fun _ _ _ h => absurd rfl (hunassigned _ h),
      fun _ _ _ _ _ _ h => absurd rfl (hungranted _ h)⟩
  have hkept := (rename_keeps_rights_iff hr launched_fresh hanswer (.inr hdead)).2 hnothing
  refine ⟨cfg, _, hr, hrole, hpermission, hanswer, hkept, ?_, ?_⟩
  · exact (hkept.userRoles _).mem_iff.2 (List.mem_map.2 ⟨"editor", hrole, by decide⟩)
  · rw [hkept.permissions]
    exact hpermission

/-- A role renamed to its own name is gone. -/
theorem rename_to_itself_deletes : ∃ cfg s',
    Reaches (identity plainSettings (· ≤ ·)) AnyStep fresh cfg ∧
      cfg.store.tables.liveRole "editor" = true ∧
      Answer plainSettings cfg.store (.updateRole "editor" "editor") (.ok true) s' ∧
      ¬RightsKept cfg.store.tables s'.tables "editor" "editor" := by
  obtain ⟨cfg, hr, ⟨hlive, -⟩, -⟩ := exists_editor
  refine ⟨cfg, _, hr, hlive, answer_updateRole hlive, fun hkept => ?_⟩
  have hkeys := (keys_of_reaches hr launched_fresh).tables
  exact (bringsNothing_of_rightsKept (updated_of_liveRole _ hlive) hkeys hlive (.inl rfl) hkept).ne rfl

end Service

end Identity
end Hegira
