/-
# An external-only user keeps a connection

Sign-ups, links and unlinks of the OAuth store in any interleaving of their
statements, on either backend.  What a transaction is about to write stays right while
it holds its locks (`GroundedWrite`, `Shift`): the keys it inserts are free, and the
user it takes a connection from has another one.  So every commit keeps the tables
sound (`Sound.commit`), and no run takes the last connection of an external-only user
(`external_users_keep_a_connection`).
-/

import Mathlib.Data.List.Pairwise
import Hegira.Identity.OAuthStore
import Hegira.Library.Interleaving

namespace Hegira
namespace Identity
namespace OAuth

inductive Request where
  | unlink (username provider : String)
  | link (username provider providerUserId email : String)
  | usernameForConnection (provider providerUserId : String)
  | insertPendingSignup (signup : PendingOAuthSignup)
  | completeOAuthSignup (command : CompleteOAuthSignup)
  | completePendingSignup (token : Nat) (now : Int) (username passwordHash : String)

inductive Outcome where
  | unlink (r : Except DomainError UnlinkResult)
  | link (r : Except DomainError Unit)
  | username (r : Except DomainError (Option String))
  | pendingSignup (r : Except DomainError Unit)
  | signup (r : Except ApplicationError Bool)
  | completed (r : Except DomainError Bool)

/-- What is done for a request. -/
def serve (b : Backend) : Request → Program Call Reply Outcome
  | .unlink username provider =>
      (b.unlinkConnection username provider).run >>= fun r => .done (.unlink r)
  | .link username provider providerUserId email =>
      (linkConnection username provider providerUserId email).run >>= fun r => .done (.link r)
  | .usernameForConnection provider providerUserId =>
      (usernameForConnection provider providerUserId).run >>= fun r => .done (.username r)
  | .insertPendingSignup signup =>
      (insertPendingSignup signup).run >>= fun r => .done (.pendingSignup r)
  | .completeOAuthSignup command =>
      (b.completeSignup command).run >>= fun r => .done (.signup r)
  | .completePendingSignup token now username passwordHash =>
      (completePendingSignup b token now username passwordHash).run >>= fun r =>
        .done (.completed r)

abbrev Db := Locked Tables Lock

/-- The OAuth store at work. -/
def oauth (b : Backend) : Site Request Call Reply Outcome Db where
  serve := serve b
  answer := (database b).Answer
  drift s s' := s' = s

abbrev Log := TxLog Tables Statement Statement.Result Write Lock

abbrev Operation := Flight Request Call Reply Outcome Db

abbrev Operations := Config Request Call Reply Outcome Db

/-! ### What the writes of a transaction do -/

/-- The connections share no key. -/
def Distinct (c c' : OAuthConnection) : Prop := c.identity ≠ c'.identity ∧ c.account ≠ c'.account

/-- The unique keys hold, and every live external-only user has a connection. -/
structure Sound (t : Tables) : Prop where
  users : t.users.Pairwise fun u u' => u.id ≠ u'.id
  connections : t.connections.Pairwise Distinct
  reachable : ∀ u ∈ t.users, u.live = true → u.externalOnly = true → 0 < t.connectionCount u.id

/-- An id names one user. -/
theorem Sound.eq_of_id {t : Tables} (h : Sound t) {u u' : User} (hu : u ∈ t.users)
    (hu' : u' ∈ t.users) (hid : u.id = u'.id) : u = u' := by
  have : Std.Symm fun u u' : User => u.id ≠ u'.id := ⟨fun _ _ => Ne.symm⟩
  by_contra hne
  exact h.users.forall hu hu' hne hid

namespace Write

/-- The write is one to `user_oauth_connections`. -/
def isConnection : Write → Bool
  | insertConnection _ => true
  | updateConnection .. => true
  | deleteConnection .. => true
  | _ => false

/-- The user that is inserted. -/
def user? : Write → Option User
  | insertUser u => some u
  | _ => none

end Write

section View

variable {b : Backend} {t : Tables}

/-- A message leaves connections and users. -/
@[simp] theorem enqueue_connections (m : OutboxMessage) :
    (t.enqueue m).connections = t.connections := by
  unfold Tables.enqueue
  split <;> rfl

@[simp] theorem enqueue_users (m : OutboxMessage) : (t.enqueue m).users = t.users := by
  unfold Tables.enqueue
  split <;> rfl

/-- Only writes of connections change the connections. -/
theorem applyWrite_connections {w : Write} (h : w.isConnection = false) :
    (applyWrite t w).connections = t.connections := by
  cases w with
  | enqueue m => exact enqueue_connections m
  | insertConnection => cases h
  | updateConnection => cases h
  | deleteConnection => cases h
  | _ => rfl

/-- A write adds at most one user. -/
theorem applyWrite_users (w : Write) : (applyWrite t w).users = t.users ++ w.user?.toList := by
  cases w with
  | insertUser u => rfl
  | enqueue m => simp [applyWrite, Write.user?]
  | _ => exact (List.append_nil _).symm

/-- The effect of a write on the connections is the same under any other tables. -/
theorem applyWrite_connections_congr {t' : Tables} (w : Write)
    (h : t.connections = t'.connections) :
    (applyWrite t w).connections = (applyWrite t' w).connections := by
  cases w with
  | enqueue m => rw [applyWrite, applyWrite, enqueue_connections, enqueue_connections, h]
  | _ => simp only [applyWrite, h]

/-- The connections a transaction sees are made by its writes of connections. -/
theorem view_connections (writes : List Write) :
    ((database b).view t writes).connections =
      ((database b).view t (writes.filter Write.isConnection)).connections := by
  have hcongr : ∀ (ws : List Write) (t t' : Tables), t.connections = t'.connections →
      ((database b).view t ws).connections = ((database b).view t' ws).connections := by
    intro ws
    induction ws with
    | nil => exact fun t t' h => h
    | cons w ws ih => exact fun t t' h => ih _ _ (applyWrite_connections_congr w h)
  induction writes generalizing t with
  | nil => rfl
  | cons w writes ih =>
      rw [List.filter_cons]
      split
      · exact ih
      · next hw =>
          rw [← ih]
          exact hcongr writes _ _ (applyWrite_connections (by simpa using hw))

/-- The users it sees are those of the tables and those it inserts. -/
theorem view_users (writes : List Write) :
    ((database b).view t writes).users = t.users ++ writes.filterMap Write.user? := by
  induction writes generalizing t with
  | nil => exact (List.append_nil _).symm
  | cons w writes ih =>
      refine ih.trans ?_
      change (applyWrite t w).users ++ _ = _
      rw [applyWrite_users, List.append_assoc]
      cases h : w.user? with
      | none => rw [List.filterMap_cons_none h]; rfl
      | some u => rw [List.filterMap_cons_some h]; rfl

end View

/-! ### What a transaction relies on -/

/-- An external-only user of this id would keep a connection. -/
def Spare (t : Tables) (userId : Nat) : Prop :=
  ∀ u ∈ t.users, u.id = userId → u.live = true → u.externalOnly = true →
    1 < t.connectionCount userId

/-- A write that stays right as long as the locks are held: the keys that it inserts
are free, and a connection is taken only from a user who has another one. -/
def GroundedWrite (b : Backend) (locks : List Lock) (t : Tables) : Write → Prop
  | .insertUser u => b.lock (.user u.id) ∈ locks ∧ ∀ u' ∈ t.users, u'.id ≠ u.id
  | .insertConnection c =>
      b.lock (.identity c.provider c.providerUserId) ∈ locks ∧
        b.lock (.account c.userId c.provider) ∈ locks ∧ ∀ c' ∈ t.connections, Distinct c' c
  | .updateConnection userId provider providerUserId _ =>
      b.lock (.identity provider providerUserId) ∈ locks ∧
        ∀ c ∈ t.connections, c.identity = (provider, providerUserId) →
          c.account = (userId, provider)
  | .deleteConnection userId _ => b.lock (.user userId) ∈ locks ∧ Spare t userId
  | _ => True

/-- The writes of a transaction are right, and at most one is to the connections. -/
structure Grounded (b : Backend) (tx : Tx Write Lock) (t : Tables) : Prop where
  writes : ∀ w ∈ tx.writes, GroundedWrite b tx.locks t w
  one : (tx.writes.filter Write.isConnection).length ≤ 1
  users : (tx.writes.filterMap Write.user?).Pairwise fun u u' => u.id ≠ u'.id

/-- A user that the transaction inserts gets a connection in it. -/
def Complete (tx : Tx Write Lock) : Prop :=
  ∀ u, .insertUser u ∈ tx.writes → ∃ c, .insertConnection c ∈ tx.writes ∧ c.userId = u.id

/-- How others may change the tables: a key or a user appears, or a connection goes,
only under its lock. -/
structure Shift (b : Backend) (own : Lock → Prop) (t t' : Tables) : Prop where
  identity : ∀ c' ∈ t'.connections, (∃ c ∈ t.connections, c.identity = c'.identity ∧
    c.account = c'.account) ∨ own (b.lock (.identity c'.provider c'.providerUserId))
  account : ∀ c' ∈ t'.connections, (∃ c ∈ t.connections, c.account = c'.account) ∨
    own (b.lock (.account c'.userId c'.provider))
  users : ∀ u ∈ t'.users, u ∈ t.users ∨ own (b.lock (.user u.id))
  count : ∀ userId, t.connectionCount userId ≤ t'.connectionCount userId ∨
    own (b.lock (.user userId))

section Shift

variable {b : Backend} {own : Lock → Prop} {t t' : Tables} {locks : List Lock}

/-- Nothing that happens is a shift. -/
theorem Shift.refl (b : Backend) (own : Lock → Prop) (t : Tables) : Shift b own t t :=
  ⟨fun c hc => Or.inl ⟨c, hc, rfl, rfl⟩, fun c hc => Or.inl ⟨c, hc, rfl⟩,
    fun _ hu => Or.inl hu, fun _ => Or.inl (Nat.le_refl _)⟩

/-- A user with a lock that others respect keeps another way to sign in. -/
theorem Spare.shift {userId : Nat} (h : Spare t userId) (hs : Shift b own t t')
    (hl : b.lock (.user userId) ∈ locks) (ho : ∀ l ∈ locks, ¬own l) : Spare t' userId := by
  intro u hu hid hlive hext
  have hmem : u ∈ t.users := (hs.users u hu).resolve_right (hid ▸ ho _ hl)
  have hle := (hs.count userId).resolve_right (ho _ hl)
  have := h u hmem hid hlive hext
  omega

/-- What a write rests on is kept where its locks are respected. -/
theorem GroundedWrite.shift {w : Write} (h : GroundedWrite b locks t w) (hs : Shift b own t t')
    (ho : ∀ l ∈ locks, ¬own l) : GroundedWrite b locks t' w := by
  cases w with
  | insertUser u =>
      refine ⟨h.1, fun u' hu' => ?_⟩
      rcases hs.users u' hu' with hold | hnew
      · exact h.2 u' hold
      · intro hid
        exact ho _ h.1 (hid ▸ hnew)
  | insertConnection c =>
      obtain ⟨hi, ha, hfree⟩ := h
      refine ⟨hi, ha, fun c' hc' => ⟨fun hid => ?_, fun hacc => ?_⟩⟩
      · rcases hs.identity c' hc' with ⟨c₀, h₀, hid₀, -⟩ | hnew
        · exact (hfree c₀ h₀).1 (hid₀.trans hid)
        · obtain ⟨hp, hu⟩ := Prod.mk.inj hid
          exact ho _ hi (hp ▸ hu ▸ hnew)
      · rcases hs.account c' hc' with ⟨c₀, h₀, hacc₀⟩ | hnew
        · exact (hfree c₀ h₀).2 (hacc₀.trans hacc)
        · obtain ⟨hu, hp⟩ := Prod.mk.inj hacc
          exact ho _ ha (hp ▸ hu ▸ hnew)
  | updateConnection userId provider providerUserId email =>
      refine ⟨h.1, fun c' hc' hid => ?_⟩
      rcases hs.identity c' hc' with ⟨c₀, h₀, hid₀, hacc₀⟩ | hnew
      · exact hacc₀.symm.trans (h.2 c₀ h₀ (hid₀.trans hid))
      · obtain ⟨hp, hu⟩ := Prod.mk.inj hid
        exact absurd (hp ▸ hu ▸ hnew) (ho _ h.1)
  | deleteConnection userId provider => exact ⟨h.1, h.2.shift hs h.1 ho⟩
  | _ => trivial

/-- So is what a transaction rests on. -/
theorem Grounded.shift {tx : Tx Write Lock} (h : Grounded b tx t) (hs : Shift b own t t')
    (ho : ∀ l ∈ tx.locks, ¬own l) : Grounded b tx t' :=
  ⟨fun w hw => (h.writes w hw).shift hs ho, h.one, h.users⟩

/-- More locks only help. -/
theorem GroundedWrite.mono {locks' : List Lock} {w : Write} (h : GroundedWrite b locks t w)
    (hl : ∀ l ∈ locks, l ∈ locks') : GroundedWrite b locks' t w := by
  cases w with
  | insertUser u => exact ⟨hl _ h.1, h.2⟩
  | insertConnection c => exact ⟨hl _ h.1, hl _ h.2.1, h.2.2⟩
  | updateConnection => exact ⟨hl _ h.1, h.2⟩
  | deleteConnection => exact ⟨hl _ h.1, h.2⟩
  | _ => trivial

end Shift

/-! ### A commit keeps the tables sound -/

section Commit

variable {b : Backend} {t : Tables} {tx : Tx Write Lock}

/-- The row test of the statements, as an equation. -/
theorem isAccount_iff {userId : Nat} {provider : String} {c : OAuthConnection} :
    IsAccount userId provider c = true ↔ c.account = (userId, provider) := by
  simp [IsAccount]

/-- A user has at most one connection to a provider. -/
theorem countP_le_one {l : List OAuthConnection} (h : l.Pairwise Distinct) (userId : Nat)
    (provider : String) : l.countP (IsAccount userId provider) ≤ 1 := by
  induction l with
  | nil => exact Nat.zero_le _
  | cons c l ih =>
      obtain ⟨hc, hl⟩ := List.pairwise_cons.1 h
      rw [List.countP_cons]
      split
      · next hacc =>
          have hzero : l.countP (IsAccount userId provider) = 0 := by
            rw [List.countP_eq_zero]
            intro c' hc' hacc'
            exact (hc c' hc').2 ((isAccount_iff.1 hacc).trans (isAccount_iff.1 hacc').symm)
          omega
      · exact ih hl

/-- Taking one account of a user leaves all but one of the connections. -/
theorem count_delete {l : List OAuthConnection} (h : l.Pairwise Distinct) (userId : Nat)
    (provider : String) (id : Nat) :
    l.countP (fun c => c.userId == id) ≤
      (l.filter fun c => !IsAccount userId provider c).countP (fun c => c.userId == id) +
        if id = userId then 1 else 0 := by
  have hone := countP_le_one h userId provider
  rw [List.countP_eq_countP_filter_add l _ (IsAccount userId provider)]
  have hin : (l.filter (IsAccount userId provider)).countP (fun c => c.userId == id) ≤
      if id = userId then 1 else 0 := by
    split
    · refine Nat.le_trans List.countP_le_length ?_
      rwa [← List.countP_eq_length_filter]
    · next hne =>
        rw [Nat.le_zero, List.countP_eq_zero]
        intro c hc hid
        have hacc := isAccount_iff.1 (List.mem_filter.1 hc).2
        have : c.userId = userId := (Prod.mk.inj hacc).1
        simp only [beq_iff_eq] at hid
        omega
  omega

/-- The connections after the commit, when `w` is the write to them. -/
theorem view_connections_of_filter {w : Write} (hw : tx.writes.filter Write.isConnection = [w]) :
    ((database b).view t tx.writes).connections = (applyWrite t w).connections := by
  rw [view_connections, hw]
  rfl

/-- A transaction that writes no connection sees those of the tables. -/
theorem view_connections_of_none (hw : tx.writes.filter Write.isConnection = []) :
    ((database b).view t tx.writes).connections = t.connections := by
  rw [view_connections, hw]
  rfl

/-- A user it sees is in the tables or inserted by it. -/
theorem mem_view_users {u : User} (h : u ∈ ((database b).view t tx.writes).users) :
    u ∈ t.users ∨ .insertUser u ∈ tx.writes := by
  rw [view_users] at h
  rcases List.mem_append.1 h with h | h
  · exact Or.inl h
  · obtain ⟨w, hw, hu⟩ := List.mem_filterMap.1 h
    cases w with
    | insertUser u' =>
        obtain rfl := Option.some.inj hu
        exact Or.inr hw
    | _ => cases hu

/-- The update leaves every account where it is. -/
theorem count_update (l : List OAuthConnection) (userId : Nat) (provider providerUserId email : String)
    (id : Nat) :
    (l.map fun c => if IsAccount userId provider c then
      { c with providerUserId := providerUserId, email := email } else c).countP
        (fun c => c.userId == id) = l.countP fun c => c.userId == id := by
  rw [List.countP_map]
  refine List.countP_congr fun c _ => ?_
  simp only [Function.comp_apply]
  split <;> exact Iff.rfl

/-- **What a grounded transaction does to the connections**: they share no key, every
account and user that keeps its connections does so, and a connection goes only from
a user that has another one. -/
theorem Grounded.connections (hs : Sound t) (hg : Grounded b tx t) :
    let t' := (database b).view t tx.writes
    t'.connections.Pairwise Distinct ∧
      (∀ c' ∈ t'.connections, (∃ c ∈ t.connections, c.identity = c'.identity ∧
        c.account = c'.account) ∨ b.lock (.identity c'.provider c'.providerUserId) ∈ tx.locks) ∧
      (∀ c' ∈ t'.connections, (∃ c ∈ t.connections, c.account = c'.account) ∨
        b.lock (.account c'.userId c'.provider) ∈ tx.locks) ∧
      (∀ userId, t.connectionCount userId ≤ t'.connectionCount userId ∨
        b.lock (.user userId) ∈ tx.locks ∧ Spare t userId ∧
          t.connectionCount userId ≤ t'.connectionCount userId + 1) := by
  intro t'
  have hlen := hg.one
  match hf : tx.writes.filter Write.isConnection with
  | [] =>
      have hc : t'.connections = t.connections := view_connections_of_none hf
      refine ⟨hc ▸ hs.connections, ?_, ?_, ?_⟩
      · exact fun c hc' => Or.inl ⟨c, hc ▸ hc', rfl, rfl⟩
      · exact fun c hc' => Or.inl ⟨c, hc ▸ hc', rfl⟩
      · exact fun userId => Or.inl (Nat.le_of_eq (by simp only [Tables.connectionCount, hc]))
  | w :: w' :: ws =>
      rw [hf] at hlen
      simp only [List.length_cons] at hlen
      omega
  | [w] =>
      have hc : t'.connections = (applyWrite t w).connections := view_connections_of_filter hf
      have hmem : w ∈ tx.writes.filter Write.isConnection := by rw [hf]; exact List.mem_singleton_self w
      obtain ⟨hw, hconn⟩ := List.mem_filter.1 hmem
      have hgw := hg.writes w hw
      cases w with
      | insertConnection c =>
          obtain ⟨hi, ha, hfree⟩ := hgw
          have hc : t'.connections = t.connections ++ [c] := hc
          have hcases : ∀ c' ∈ t'.connections, c' ∈ t.connections ∨ c' = c := by
            intro c' hc'
            rw [hc] at hc'
            simpa using hc'
          refine ⟨?_, ?_, ?_, ?_⟩
          · rw [hc, List.pairwise_append]
            refine ⟨hs.connections, List.pairwise_singleton _ _, ?_⟩
            intro c' hc' c₁ h₁
            rw [List.mem_singleton.1 h₁]
            exact hfree c' hc'
          · intro c' hc'
            rcases hcases c' hc' with h | rfl
            · exact Or.inl ⟨c', h, rfl, rfl⟩
            · exact Or.inr hi
          · intro c' hc'
            rcases hcases c' hc' with h | rfl
            · exact Or.inl ⟨c', h, rfl⟩
            · exact Or.inr ha
          · intro userId
            refine Or.inl ?_
            simp only [Tables.connectionCount, hc, List.countP_append]
            exact Nat.le_add_right _ _
      | updateConnection userId provider providerUserId email =>
          obtain ⟨hi, hown⟩ := hgw
          have hc : t'.connections = t.connections.map fun c =>
              if IsAccount userId provider c then
                { c with providerUserId := providerUserId, email := email } else c := hc
          have hcases : ∀ c' ∈ t'.connections, ∃ c ∈ t.connections, c.account = c'.account ∧
              (c' = c ∨ c'.identity = (provider, providerUserId)) := by
            intro c' hc'
            rw [hc] at hc'
            obtain ⟨c, hcm, rfl⟩ := List.mem_map.1 hc'
            refine ⟨c, hcm, ?_⟩
            split
            · next hacc =>
                have hp : c.provider = provider := (Prod.mk.inj (isAccount_iff.1 hacc)).2
                exact ⟨rfl, Or.inr (congrArg (·, providerUserId) hp)⟩
            · exact ⟨rfl, Or.inl rfl⟩
          refine ⟨?_, ?_, ?_, ?_⟩
          · rw [hc, List.pairwise_map]
            refine hs.connections.imp_of_mem ?_
            intro a a' ham ham' hd
            -- of two connections at most one is of the account
            have hident : ∀ c ∈ t.connections, IsAccount userId provider c = false →
                c.identity ≠ (provider, providerUserId) := by
              intro c hcm hn hid
              have := isAccount_iff.2 (hown c hcm hid)
              rw [hn] at this
              cases this
            by_cases h₁ : IsAccount userId provider a = true <;>
              by_cases h₂ : IsAccount userId provider a' = true
            · exact absurd ((isAccount_iff.1 h₁).trans (isAccount_iff.1 h₂).symm) hd.2
            · rw [if_pos h₁, if_neg h₂]
              have hp : a.provider = provider := (Prod.mk.inj (isAccount_iff.1 h₁)).2
              refine ⟨fun hid => hident a' ham' (by simpa using h₂) ?_, hd.2⟩
              exact hid.symm.trans (congrArg (·, providerUserId) hp)
            · rw [if_neg h₁, if_pos h₂]
              have hp : a'.provider = provider := (Prod.mk.inj (isAccount_iff.1 h₂)).2
              refine ⟨fun hid => hident a ham (by simpa using h₁) ?_, hd.2⟩
              exact hid.trans (congrArg (·, providerUserId) hp)
            · rw [if_neg h₁, if_neg h₂]
              exact hd
          · intro c' hc'
            obtain ⟨c, hcm, hacc, rfl | hid⟩ := hcases c' hc'
            · exact Or.inl ⟨c', hcm, rfl, rfl⟩
            · obtain ⟨hp, hu⟩ := Prod.mk.inj hid
              exact Or.inr (hp ▸ hu ▸ hi)
          · intro c' hc'
            obtain ⟨c, hcm, hacc, -⟩ := hcases c' hc'
            exact Or.inl ⟨c, hcm, hacc⟩
          · intro id
            refine Or.inl (Nat.le_of_eq ?_)
            simp only [Tables.connectionCount, hc]
            exact (count_update _ _ _ _ _ _).symm
      | deleteConnection userId provider =>
          obtain ⟨hl, hspare⟩ := hgw
          have hc : t'.connections = t.connections.filter fun c => !IsAccount userId provider c := hc
          have hsub : ∀ c ∈ t'.connections, c ∈ t.connections := by
            intro c hcm
            rw [hc] at hcm
            exact (List.mem_filter.1 hcm).1
          refine ⟨?_, ?_, ?_, ?_⟩
          · rw [hc]
            exact hs.connections.filter _
          · exact fun c hcm => Or.inl ⟨c, hsub c hcm, rfl, rfl⟩
          · exact fun c hcm => Or.inl ⟨c, hsub c hcm, rfl⟩
          · intro id
            have hcount := count_delete hs.connections userId provider id
            rw [← hc] at hcount
            by_cases hid : id = userId
            · subst hid
              rw [if_pos rfl] at hcount
              exact Or.inr ⟨hl, hspare, hcount⟩
            · rw [if_neg hid] at hcount
              exact Or.inl hcount
      | _ => cases hconn

/-- **A commit changes the tables under its locks.** -/
theorem Grounded.shifts (hs : Sound t) (hg : Grounded b tx t) :
    Shift b (· ∈ tx.locks) t ((database b).view t tx.writes) := by
  obtain ⟨-, hident, hacc, hcount⟩ := hg.connections hs
  refine ⟨hident, hacc, ?_, fun userId => (hcount userId).imp_right And.left⟩
  intro u hu
  rcases mem_view_users hu with h | h
  · exact Or.inl h
  · exact Or.inr (hg.writes _ h).1

/-- **A commit keeps the tables sound.** -/
theorem Sound.commit (hs : Sound t) (hg : Grounded b tx t) (hcomplete : Complete tx) :
    Sound ((database b).view t tx.writes) := by
  obtain ⟨hdistinct, -, -, hcount⟩ := hg.connections hs
  refine ⟨?_, hdistinct, ?_⟩
  · rw [view_users, List.pairwise_append]
    refine ⟨hs.users, hg.users, ?_⟩
    intro u hu u' hu'
    obtain ⟨w, hw, hwu⟩ := List.mem_filterMap.1 hu'
    cases w with
    | insertUser u₀ =>
        obtain rfl := Option.some.inj hwu
        exact (hg.writes _ hw).2 u hu
    | _ => cases hwu
  · intro u hu hlive hext
    rcases mem_view_users hu with hold | hnew
    · have hpos := hs.reachable u hold hlive hext
      rcases hcount u.id with h | ⟨-, hspare, h⟩
      · omega
      · have := hspare u hold rfl hlive hext
        omega
    · -- the connection that is inserted for the user is the write to the connections
      obtain ⟨c, hc, hid⟩ := hcomplete u hnew
      have hmem : Write.insertConnection c ∈ tx.writes.filter Write.isConnection :=
        List.mem_filter.2 ⟨hc, rfl⟩
      have hfilter : tx.writes.filter Write.isConnection = [.insertConnection c] := by
        obtain ⟨w, hw⟩ := List.length_eq_one_iff.1
          (Nat.le_antisymm hg.one (List.length_pos_of_mem hmem))
        rw [hw] at hmem ⊢
        rw [List.mem_singleton.1 hmem]
      have hconns := view_connections_of_filter (b := b) (t := t) hfilter
      simp only [Tables.connectionCount, hconns]
      refine List.countP_pos_iff.2 ⟨c, ?_, by simp [hid]⟩
      exact List.mem_append_right _ (List.mem_singleton_self c)

end Commit

/-! ### Statements keep a transaction grounded -/

/-- The statement may be made in a transaction that has written this: there is one
write to the connections, and an unlink reads and writes what is committed. -/
def Fits (tx : Tx Write Lock) : Statement → Prop
  | .selectUserForUpdate _ => tx.writes = []
  | .countConnections _ => tx.writes = []
  | .deleteConnection .. => tx.writes = []
  | .deleteConnectionUnlessLast .. => tx.writes = []
  | .linkConnection .. => tx.writes = []
  | .insertConnection .. => tx.writes.filter Write.isConnection = []
  | _ => True

section Execute

variable {b : Backend} {t : Tables} {tx : Tx Write Lock}

/-- A statement of a backend is the common one, with the backend's locks. -/
theorem exists_execute {d : Draw} {st : Statement} {res : st.Result} {writes : List Write}
    {locks : List Lock} (h : (database b).execute t d st = some (res, writes, locks)) :
    ∃ keys, execute t d st = some (res, writes, keys) ∧ locks = keys.map b.lock := by
  obtain ⟨⟨res', writes', keys⟩, he, heq⟩ := Option.map_eq_some_iff.1 h
  cases heq
  exact ⟨keys, he, rfl⟩

/-- A transaction without writes rests on nothing. -/
theorem Grounded.empty (b : Backend) (t : Tables) : Grounded b .empty t :=
  ⟨fun _ hw => absurd hw List.not_mem_nil, Nat.zero_le _, List.Pairwise.nil⟩

/-- Taking locks keeps it grounded. -/
theorem Grounded.nothing (hg : Grounded b tx t) (locks : List Lock) :
    Grounded b (tx.extend [] locks) t := by
  refine ⟨fun w hw => ?_, ?_, ?_⟩
  · simp only [Tx.extend, List.append_nil] at hw
    exact (hg.writes w hw).mono fun l hl => List.mem_append_left _ hl
  · simpa [Tx.extend] using hg.one
  · simpa [Tx.extend] using hg.users

/-- A statement adds a write that is right. -/
theorem Grounded.write (hg : Grounded b tx t) {w : Write} {locks : List Lock}
    (hw : GroundedWrite b (tx.locks ++ locks) t w)
    (hone : w.isConnection = true → tx.writes.filter Write.isConnection = [])
    (huser : ∀ u, w = .insertUser u → ∀ u', .insertUser u' ∈ tx.writes → u'.id ≠ u.id) :
    Grounded b (tx.extend [w] locks) t := by
  refine ⟨?_, ?_, ?_⟩
  · intro w' hw'
    rcases List.mem_append.1 hw' with h | h
    · exact (hg.writes w' h).mono fun l hl => List.mem_append_left _ hl
    · exact List.mem_singleton.1 h ▸ hw
  · simp only [Tx.extend, List.filter_append]
    by_cases hc : w.isConnection = true
    · rw [hone hc]
      simp [hc]
    · simpa [hc] using hg.one
  · simp only [Tx.extend, List.filterMap_append]
    rw [List.pairwise_append]
    refine ⟨hg.users, ?_, ?_⟩
    · cases h : w.user? with
      | none => rw [List.filterMap_cons_none h]; exact List.Pairwise.nil
      | some u => rw [List.filterMap_cons_some h]; exact List.pairwise_singleton _ _
    · intro u' hu' u hu
      obtain ⟨w', hw', hwu'⟩ := List.mem_filterMap.1 hu'
      obtain ⟨w₀, hw₀, hwu⟩ := List.mem_filterMap.1 hu
      rw [List.mem_singleton] at hw₀
      subst hw₀
      cases w' with
      | insertUser u₁ =>
          obtain rfl := Option.some.inj hwu'
          cases w₀ with
          | insertUser u₂ =>
              obtain rfl := Option.some.inj hwu
              exact huser _ rfl _ hw'
          | _ => cases hwu
      | _ => cases hwu'

/-- Where no row conflicts there is no row of the account. -/
theorem not_isAccount_of_any {l : List OAuthConnection} {identity : String × String} {userId : Nat}
    {provider : String} (h : ¬(l.any fun c => c.identity == identity || IsAccount userId provider c)
      = true) : ∀ c ∈ l, c.identity ≠ identity ∧ c.account ≠ (userId, provider) := by
  intro c hc
  simp only [List.any_eq_true, not_exists, not_and, Bool.or_eq_true, beq_iff_eq, isAccount_iff,
    not_or] at h
  exact h c hc

/-- **A statement keeps its transaction grounded.** -/
theorem Grounded.execute (hs : Sound t) (hg : Grounded b tx t) {d : Draw} {st : Statement}
    {res : st.Result} {writes : List Write} {locks : List Lock} (hfits : Fits tx st)
    (hdelete : ∀ userId provider, st = .deleteConnection userId provider →
      b.lock (.user userId) ∈ tx.locks ∧ Spare t userId)
    (hd : (database b).execute ((database b).view t tx.writes) d st = some (res, writes, locks)) :
    Grounded b (tx.extend writes locks) t := by
  obtain ⟨keys, he, rfl⟩ := exists_execute hd
  have hlock : ∀ key ∈ keys, b.lock key ∈ tx.locks ++ keys.map b.lock := fun key hk =>
    List.mem_append_right _ (List.mem_map_of_mem hk)
  have hplain : ∀ {w : Write}, w.isConnection = false → w.user? = none →
      (∀ locks, GroundedWrite b locks t w) → Grounded b (tx.extend [w] (keys.map b.lock)) t := by
    intro w hc hu hw
    refine hg.write (hw _) (fun h => ?_) (fun u h => ?_)
    · rw [hc] at h
      cases h
    · rw [h] at hu
      cases hu
  cases st with
  | selectUserForUpdate username =>
      simp only [OAuth.execute] at he
      split at he <;> (cases he; exact hg.nothing _)
  | countConnections userId =>
      cases he
      exact hg.nothing _
  | isLastConnection username provider =>
      simp only [OAuth.execute] at he
      split at he <;> (cases he; exact hg.nothing _)
  | usernameForConnection provider providerUserId =>
      simp only [OAuth.execute] at he
      split at he <;> (cases he; exact hg.nothing _)
  | selectPendingSignupForUpdate token now =>
      simp only [OAuth.execute] at he
      split at he <;> (cases he; exact hg.nothing _)
  | upsertPendingSignup signup =>
      simp only [OAuth.execute] at he
      split at he
      · cases he
      · cases he
        exact hplain rfl rfl fun _ => trivial
  | deletePendingSignupReturning token now =>
      simp only [OAuth.execute] at he
      split at he
      · cases he
        exact hg.nothing _
      · cases he
        exact hplain rfl rfl fun _ => trivial
  | deletePendingSignup token =>
      cases he
      exact hplain rfl rfl fun _ => trivial
  | enqueueUserUpsert document revision =>
      cases he
      exact hplain rfl rfl fun _ => trivial
  | deleteConnection userId provider =>
      obtain ⟨hl, hspare⟩ := hdelete userId provider rfl
      cases he
      refine hg.write ⟨List.mem_append_left _ hl, hspare⟩ (fun _ => ?_) (fun u h => by cases h)
      rw [show tx.writes = [] from hfits]
      rfl
  | deleteConnectionUnlessLast username provider =>
      have hempty : tx.writes = [] := hfits
      rw [hempty, Database.view_nil] at he
      simp only [OAuth.execute] at he
      split at he
      · cases he
        exact hg.nothing _
      · next u hu =>
          split at he
          · next hcond =>
              cases he
              refine hg.write ⟨hlock _ (List.mem_singleton_self _), ?_⟩ (fun _ => ?_)
                (fun u h => by cases h)
              · intro u' hu' hid _ hext
                have hsame := hs.eq_of_id hu' (Tables.liveUser_mem hu) hid
                subst hsame
                simp only [hext, Bool.not_true, Bool.false_or, Bool.and_eq_true,
                  decide_eq_true_eq] at hcond
                exact hcond.2
              · rw [hempty]
                rfl
          · cases he
            exact hg.nothing _
  | linkConnection username provider providerUserId email =>
      have hempty : tx.writes = [] := hfits
      rw [hempty, Database.view_nil] at he
      simp only [OAuth.execute] at he
      split at he
      · cases he
        exact hg.nothing _
      · next u hu =>
          split at he
          · cases he
          · next hother =>
              simp only [List.any_eq_true, not_exists, not_and, Bool.and_eq_true, beq_iff_eq,
                Bool.not_eq_true', Bool.not_eq_false, isAccount_iff] at hother
              split at he
              · cases he
                refine hg.write ⟨hlock _ List.mem_cons_self, hother⟩ (fun _ => ?_)
                  (fun u h => by cases h)
                rw [hempty]
                rfl
              · next hnone =>
                  simp only [List.any_eq_true, not_exists, not_and, isAccount_iff] at hnone
                  cases he
                  refine hg.write ⟨hlock _ List.mem_cons_self,
                    hlock _ (List.mem_cons_of_mem _ List.mem_cons_self), ?_⟩ (fun _ => ?_)
                    (fun u h => by cases h)
                  · intro c hc
                    exact ⟨fun hid => hnone c hc (hother c hc hid), hnone c hc⟩
                  · rw [hempty]
                    rfl
  | insertExternalUser username passwordHash =>
      simp only [OAuth.execute] at he
      split at he
      · cases he
      · next hfree =>
          cases he
          have hid : ∀ u ∈ ((database b).view t tx.writes).users, u.id ≠ d.id := by
            intro u hu hid
            refine hfree (List.any_eq_true.2 ⟨u, hu, ?_⟩)
            simp [hid]
          rw [view_users] at hid
          refine hg.write ⟨hlock _ List.mem_cons_self, ?_⟩ (fun h => by cases h) ?_
          · exact fun u hu => hid u (List.mem_append_left _ hu)
          · intro u hu u' hu'
            obtain rfl := Write.insertUser.inj hu
            refine hid u' (List.mem_append_right _ (List.mem_filterMap.2 ⟨_, hu', rfl⟩))
  | insertConnection userId provider providerUserId email =>
      have hview : ((database b).view t tx.writes).connections = t.connections :=
        view_connections_of_none hfits
      simp only [OAuth.execute, hview] at he
      split at he
      · cases he
      · next hfree =>
          split at he
          · cases he
            exact hg.write ⟨hlock _ List.mem_cons_self,
              hlock _ (List.mem_cons_of_mem _ List.mem_cons_self), not_isAccount_of_any hfree⟩
              (fun _ => hfits) (fun u h => by cases h)
          · cases he

end Execute

/-! ### What an operation has read -/

/-- What the open transaction has read: the locked user with its `external_only`, and
the number of its connections. -/
structure Seen where
  user : Option (Nat × Bool)
  count : Option Nat

def Seen.nothing : Seen := ⟨none, none⟩

/-- What has been read after a statement. -/
def Seen.read (o : Seen) : (st : Statement) → st.Result → Seen
  | .selectUserForUpdate _, user => ⟨user, none⟩
  | .countConnections userId, n => ⟨o.user.filter fun user => user.1 == userId, some n⟩
  | _, _ => o

def Seen.after (o : Seen) : Event Call Reply Db → Seen
  | ⟨_, .begin, _, _⟩ => .nothing
  | ⟨_, .exec _ st, .ok (res, _), _⟩ => o.read st res
  | _ => o

def seen (log : Log) : Seen := log.foldl Seen.after .nothing

/-- What the log tells after one more event. -/
@[simp] theorem seen_concat {log : Log} {e : Event Call Reply Db} :
    seen (log ++ [e]) = (seen log).after e := by
  simp [seen]

/-- What a delete of Postgres has checked. -/
def Checked (o : Seen) : Statement → Prop
  | .deleteConnection userId _ =>
      ∃ externalOnly n, o = ⟨some (userId, externalOnly), some n⟩ ∧ ¬(externalOnly = true ∧ n ≤ 1)
  | _ => True

/-- The statement is made outside of transactions. -/
def Alone : Statement → Prop
  | .deleteConnectionUnlessLast .. => True
  | .isLastConnection .. => True
  | .usernameForConnection .. => True
  | .linkConnection .. => True
  | .upsertPendingSignup _ => True
  | _ => False

/-- What an operation has done before a call. -/
def Follows (log : Log) : Call → Prop
  | .begin => openTx log = none
  | .exec tx st => openTx log = some tx ∧ Fits tx st ∧ Checked (seen log) st
  | .commit tx => openTx log = some tx ∧ Complete tx
  | .rollback tx => openTx log = some tx
  | .auto st => openTx log = none ∧ Alone st

/-- A call that follows the log names the open transaction. -/
theorem Follows.threads {log : Log} {c : Call} (h : Follows log c) : Threads (openTx log) c := by
  cases c with
  | begin => exact h
  | exec tx st => exact h.1
  | commit tx => exact h.1
  | rollback tx => exact h
  | auto st => exact h.1

abbrev Disciplined : Event Call Reply Log → Prop := fun e => Follows e.before e.call

section Contract

variable {b : Backend} {ε α : Type} {onError : String → ε} {log : Log} {tx : Tx Write Lock}

/-- What is left to show once the transaction has been opened. -/
theorem meets_begin {post : Except ε (Tx Write Lock) → Log → Prop} (ho : openTx log = none)
    (herr : ∀ e log', post (.error e) log')
    (hok : ∀ log', openTx log' = some .empty → post (.ok .empty) log') :
    Meets (Heard (database b).Answer) Disciplined post (begin onError).run log := by
  rintro r log' ⟨s, s', ha, rfl⟩
  refine ⟨ho, ?_⟩
  cases ha with
  | begun => exact hok _ openTx_concat
  | notBegun => exact herr _ _

/-- What is left to show after a statement: its result and its writes are those it has
on some tables under the transaction. -/
theorem meets_exec {st : Statement} {post : Except ε (st.Result × Tx Write Lock) → Log → Prop}
    (ho : openTx log = some tx) (hfits : Fits tx st) (hchecked : Checked (seen log) st)
    (herr : ∀ e log', post (.error e) log')
    (hok : ∀ t d res writes keys log', execute ((database b).view t tx.writes) d st =
      some (res, writes, keys) → openTx log' = some (tx.extend writes (keys.map b.lock)) →
        seen log' = (seen log).read st res →
          post (.ok (res, tx.extend writes (keys.map b.lock))) log') :
    Meets (Heard (database b).Answer) Disciplined post (exec onError tx st).run log := by
  rintro r log' ⟨s, s', ha, rfl⟩
  refine ⟨⟨ho, hfits, hchecked⟩, ?_⟩
  cases ha with
  | executed hd hfree =>
      obtain ⟨keys, he, rfl⟩ := exists_execute hd
      exact hok _ _ _ _ _ _ he openTx_concat seen_concat
  | aborted => exact herr _ _

/-- A complete transaction may commit. -/
theorem meets_commit {post : Except ε Unit → Log → Prop} (ho : openTx log = some tx)
    (hcomplete : Complete tx) (h : ∀ r log', post r log') :
    Meets (Heard (database b).Answer) Disciplined post (commit onError tx).run log := by
  rintro r log' ⟨s, s', ha, rfl⟩
  exact ⟨⟨ho, hcomplete⟩, h _ _⟩

/-- Any transaction may be rolled back. -/
theorem meets_rollback {post : Except ε Unit → Log → Prop} (ho : openTx log = some tx)
    (h : ∀ r log', post r log') :
    Meets (Heard (database b).Answer) Disciplined post (rollback tx).run log := by
  rintro r log' ⟨s, s', ha, rfl⟩
  exact ⟨ho, h _ _⟩

/-- A statement that is safe alone may run outside a transaction. -/
theorem meets_auto {st : Statement} {post : Except ε st.Result → Log → Prop}
    (ho : openTx log = none) (halone : Alone st)
    (h : ∀ r log', openTx log' = none → post r log') :
    Meets (Heard (database b).Answer) Disciplined post (auto onError st).run log := by
  rintro r log' ⟨s, s', ha, rfl⟩
  exact ⟨⟨ho, halone⟩, h _ _ (by rw [openTx_concat]; exact ho)⟩

/-- The transaction inserts no user but this one, with a connection. -/
structure SignedUp (userId : Nat) (tx : Tx Write Lock) : Prop where
  users : ∀ u, .insertUser u ∈ tx.writes → u.id = userId
  connection : ∃ c, .insertConnection c ∈ tx.writes ∧ c.userId = userId

/-- A signup that got this far is complete. -/
theorem SignedUp.complete {userId : Nat} (h : SignedUp userId tx) : Complete tx := by
  intro u hu
  obtain ⟨c, hc, hid⟩ := h.connection
  exact ⟨c, hc, hid.trans (h.users u hu).symm⟩

/-- Writes that insert no user keep it so. -/
theorem SignedUp.extend {userId : Nat} (h : SignedUp userId tx) {writes : List Write}
    (hw : ∀ w ∈ writes, w.user? = none) (locks : List Lock) :
    SignedUp userId (tx.extend writes locks) := by
  refine ⟨fun u hu => ?_, ?_⟩
  · rcases List.mem_append.1 hu with hu | hu
    · exact h.users u hu
    · cases hw _ hu
  · obtain ⟨c, hc, hid⟩ := h.connection
    exact ⟨c, List.mem_append_left _ hc, hid⟩

/-- The user and the connection of a sign-up, then the rest. -/
theorem meets_insertAccount {username passwordHash : String} {pending : PendingOAuthSignup}
    {f : NewUser → Tx Write Lock → Repository ApplicationError α}
    {post : Except ApplicationError α → Log → Prop} (ho : openTx log = some tx)
    (hplain : ∀ w ∈ tx.writes, w.isConnection = false ∧ w.user? = none)
    (herr : ∀ e log', post (.error e) log')
    (hf : ∀ user tx' log', openTx log' = some tx' → SignedUp user.id tx' →
      Meets (Heard (database b).Answer) Disciplined post (f user tx').run log') :
    Meets (Heard (database b).Answer) Disciplined post (do
      let user ← exec .conflict tx (.insertExternalUser username passwordHash)
      let connection ← exec .conflict user.2
        (.insertConnection user.1.id pending.provider pending.providerUserId pending.email)
      f user.1 connection.2 : Repository ApplicationError α).run log := by
  rw [meets_fallible_bind]
  refine meets_exec ho trivial trivial (fun e log' => herr e log') ?_
  intro t d user writes keys log₁ he h₁ hs₁
  simp only [execute] at he
  split at he
  · cases he
  cases he
  have hnone : (tx.writes ++ [Write.insertUser (externalUser d username passwordHash)]).filter
      Write.isConnection = [] := by
    rw [List.filter_eq_nil_iff]
    intro w hw
    rcases List.mem_append.1 hw with hw | hw
    · simp [(hplain w hw).1]
    · rw [List.mem_singleton.1 hw]
      simp [Write.isConnection]
  rw [continue_ok]
  dsimp only
  rw [meets_fallible_bind]
  refine meets_exec h₁ hnone trivial (fun e log' => herr e log') ?_
  intro t' d' res writes keys log₂ he h₂ hs₂
  simp only [execute] at he
  split at he
  · cases he
  split at he
  · cases he
    rw [continue_ok]
    refine hf _ _ _ h₂ ⟨?_, ?_⟩
    · intro u hu
      simp only [Tx.extend, List.append_assoc, List.mem_append, List.mem_singleton,
        reduceCtorEq, or_false, Write.insertUser.injEq] at hu
      rcases hu with hu | rfl
      · cases (hplain _ hu).2
      · rfl
    · exact ⟨_, List.mem_append_right _ (List.mem_singleton_self _), rfl⟩
  · cases he

/-- The index document of a sign-up, and the commit. -/
theorem meets_publish {command : CompleteOAuthSignup} {user : NewUser}
    {post : Except ApplicationError Bool → Log → Prop} (ho : openTx log = some tx)
    (hs : SignedUp user.id tx) (h : ∀ r log', post r log') :
    Meets (Heard (database b).Answer) Disciplined post (do
      let tx ← publishSignup command user tx
      commit .infrastructure tx
      return true : Repository ApplicationError Bool).run log := by
  have hcommit : ∀ tx log, openTx log = some tx → SignedUp user.id tx →
      Meets (Heard (database b).Answer) Disciplined post (do
        commit .infrastructure tx
        return true : Repository ApplicationError Bool).run log := by
    intro tx log ho hs
    rw [meets_fallible_bind]
    refine meets_commit ho hs.complete ?_
    rintro (e | r) log' <;> exact h _ _
  rw [meets_fallible_bind, publishSignup]
  split
  · rw [meets_fallible_bind]
    refine meets_exec ho trivial trivial (fun e log' => h _ _) ?_
    intro t d res writes keys log₁ he h₁ hs₁
    cases he
    refine hcommit _ _ h₁ (hs.extend ?_ _)
    intro w hw
    rw [List.mem_singleton.1 hw]
    rfl
  · exact hcommit tx log ho hs

/-- Unlinking is disciplined on SQLite. -/
theorem meets_sqliteUnlink {username provider : String}
    {post : Except DomainError UnlinkResult → Log → Prop} (ho : openTx log = none)
    (h : ∀ r log', post r log') :
    Meets (Heard (database b).Answer) Disciplined post
      (Sqlite.unlinkConnection username provider).run log := by
  rw [Sqlite.unlinkConnection, meets_fallible_bind]
  refine meets_auto ho trivial ?_
  rintro (e | deleted) log₁ h₁
  · exact h _ _
  rw [continue_ok]
  split
  · exact h _ _
  · rw [meets_fallible_bind]
    refine meets_auto h₁ trivial ?_
    rintro (e | blocked) log₂ h₂ <;> exact h _ _

theorem meets_postgresUnlink {username provider : String}
    {post : Except DomainError UnlinkResult → Log → Prop} (ho : openTx log = none)
    (h : ∀ r log', post r log') :
    Meets (Heard (database b).Answer) Disciplined post
      (Postgres.unlinkConnection username provider).run log := by
  rw [Postgres.unlinkConnection, meets_fallible_bind]
  refine meets_begin ho (fun e log' => h _ _) ?_
  intro log₁ h₁
  rw [continue_ok, meets_fallible_bind]
  refine meets_exec h₁ rfl trivial (fun e log' => h _ _) ?_
  intro t d user writes keys log₂ he₁ h₂ hs₂
  have hread : writes = [] := by
    simp only [execute] at he₁
    split at he₁ <;> (cases he₁; rfl)
  subst hread
  rw [continue_ok]
  cases user with
  | none =>
      dsimp only
      rw [meets_fallible_bind]
      refine meets_rollback h₂ ?_
      rintro (e | r) log' <;> exact h _ _
  | some user =>
      obtain ⟨userId, externalOnly⟩ := user
      dsimp only
      rw [meets_fallible_bind]
      refine meets_exec h₂ rfl trivial (fun e log' => h _ _) ?_
      intro t' d' n writes keys' log₃ he₂ h₃ hs₃
      cases he₂
      rw [continue_ok]
      dsimp only
      split
      · rw [meets_fallible_bind]
        refine meets_rollback h₃ ?_
        rintro (e | r) log' <;> exact h _ _
      · next hcond =>
          rw [meets_fallible_bind]
          refine meets_exec h₃ rfl ?_ (fun e log' => h _ _) ?_
          · exact ⟨externalOnly, _, by simp [hs₃, hs₂, Seen.read], hcond⟩
          · intro t'' d'' deleted writes keys'' log₄ he₃ h₄ hs₄
            cases he₃
            rw [continue_ok]
            dsimp only
            rw [meets_fallible_bind]
            refine meets_commit h₄ ?_ ?_
            · intro u hu
              simp [Tx.extend, Tx.empty] at hu
            · rintro (e | r) log' <;> exact h _ _

theorem meets_sqliteSignup {command : CompleteOAuthSignup}
    {post : Except ApplicationError Bool → Log → Prop} (ho : openTx log = none)
    (h : ∀ r log', post r log') :
    Meets (Heard (database b).Answer) Disciplined post
      (Sqlite.completeSignup command).run log := by
  rw [Sqlite.completeSignup, meets_fallible_bind]
  refine meets_begin ho (fun e log' => h _ _) ?_
  intro log₁ h₁
  rw [continue_ok, meets_fallible_bind]
  refine meets_exec h₁ trivial trivial (fun e log' => h _ _) ?_
  intro t d pending writes keys log₂ he₁ h₂ hs₂
  rw [continue_ok]
  cases pending with
  | none =>
      dsimp only
      rw [meets_fallible_bind]
      refine meets_rollback h₂ ?_
      rintro (e | r) log' <;> exact h _ _
  | some pending =>
      dsimp only
      refine meets_insertAccount (f := fun user tx => do
        let tx ← publishSignup command user tx
        commit .infrastructure tx
        return true) h₂ ?_ (fun e log' => h _ _) ?_
      · intro w hw
        simp only [execute] at he₁
        split at he₁
        · cases he₁
        · cases he₁
          rw [List.mem_singleton.1 hw]
          exact ⟨rfl, rfl⟩
      · intro user tx' log' ho' hs'
        exact meets_publish ho' hs' h

theorem meets_postgresSignup {command : CompleteOAuthSignup}
    {post : Except ApplicationError Bool → Log → Prop} (ho : openTx log = none)
    (h : ∀ r log', post r log') :
    Meets (Heard (database b).Answer) Disciplined post
      (Postgres.completeSignup command).run log := by
  rw [Postgres.completeSignup, meets_fallible_bind]
  refine meets_begin ho (fun e log' => h _ _) ?_
  intro log₁ h₁
  rw [continue_ok, meets_fallible_bind]
  refine meets_exec h₁ trivial trivial (fun e log' => h _ _) ?_
  intro t d pending writes keys log₂ he₁ h₂ hs₂
  have hread : writes = [] := by
    simp only [execute] at he₁
    split at he₁ <;> (cases he₁; rfl)
  subst hread
  rw [continue_ok]
  cases pending with
  | none =>
      dsimp only
      rw [meets_fallible_bind]
      refine meets_rollback h₂ ?_
      rintro (e | r) log' <;> exact h _ _
  | some pending =>
      dsimp only
      refine meets_insertAccount (f := fun user tx => do
        let deleted ← exec .infrastructure tx (.deletePendingSignup command.token)
        let tx ← publishSignup command user deleted.2
        commit .infrastructure tx
        return true) h₂ ?_ (fun e log' => h _ _) ?_
      · intro w hw
        cases hw
      · intro user tx' log' ho' hs'
        rw [meets_fallible_bind]
        refine meets_exec ho' trivial trivial (fun e log' => h _ _) ?_
        intro t' d' res writes keys' log₃ he₂ h₃ hs₃
        cases he₂
        rw [continue_ok]
        refine meets_publish h₃ (hs'.extend ?_ _) h
        intro w hw
        rw [List.mem_singleton.1 hw]
        rfl

/-- **Every request keeps to the discipline.** -/
theorem meets_serve (b : Backend) (q : Request) :
    Meets (Heard (database b).Answer) Disciplined (fun _ _ => True) (serve b q) [] := by
  have hsignup : ∀ (command : CompleteOAuthSignup)
      (post : Except ApplicationError Bool → Log → Prop), (∀ r log', post r log') →
        Meets (Heard (database b).Answer) Disciplined post (b.completeSignup command).run [] := by
    intro command post h
    cases b with
    | sqlite => exact meets_sqliteSignup rfl h
    | postgres => exact meets_postgresSignup rfl h
  cases q with
  | unlink username provider =>
      rw [serve, meets_bind]
      cases b with
      | sqlite => exact meets_sqliteUnlink rfl fun _ _ => trivial
      | postgres => exact meets_postgresUnlink rfl fun _ _ => trivial
  | link username provider providerUserId email =>
      rw [serve, meets_bind, linkConnection, meets_fallible_bind]
      refine meets_auto rfl trivial ?_
      rintro (e | n) log h
      · trivial
      · rw [continue_ok]
        split <;> trivial
  | usernameForConnection provider providerUserId =>
      rw [serve, meets_bind]
      exact meets_auto rfl trivial fun _ _ _ => trivial
  | insertPendingSignup signup =>
      rw [serve, meets_bind]
      exact meets_auto rfl trivial fun _ _ _ => trivial
  | completeOAuthSignup command =>
      rw [serve, meets_bind]
      exact hsignup command _ fun _ _ => trivial
  | completePendingSignup token now username passwordHash =>
      rw [serve, meets_bind, completePendingSignup, meets_adapt]
      exact hsignup _ _ fun _ _ => trivial

end Contract

/-! ### Runs -/

/-- What an operation with an open transaction knows of the committed tables. -/
structure Knows (b : Backend) (o : Seen) (tx : Tx Write Lock) (t : Tables) : Prop where
  grounded : Grounded b tx t
  user : ∀ userId externalOnly, o.user = some (userId, externalOnly) →
    b.lock (.user userId) ∈ tx.locks ∧
      ∀ u ∈ t.users, u.id = userId → u.externalOnly = externalOnly
  count : ∀ userId externalOnly n, o = ⟨some (userId, externalOnly), some n⟩ →
    n ≤ t.connectionCount userId

section Step

variable {b : Backend} {t t' : Tables} {tx : Tx Write Lock} {o : Seen}

/-- What a transaction knows is kept where its locks are respected. -/
theorem Knows.shift {own : Lock → Prop} (h : Knows b o tx t) (hs : Shift b own t t')
    (ho : ∀ l ∈ tx.locks, ¬own l) : Knows b o tx t' := by
  refine ⟨h.grounded.shift hs ho, ?_, ?_⟩
  · intro userId externalOnly hu
    obtain ⟨hl, hrow⟩ := h.user userId externalOnly hu
    refine ⟨hl, fun u hmem hid => ?_⟩
    rcases hs.users u hmem with hold | hnew
    · exact hrow u hold hid
    · exact absurd (hid ▸ hnew) (ho _ hl)
  · intro userId externalOnly n hn
    obtain ⟨hl, -⟩ := h.user userId externalOnly (by rw [hn])
    exact Nat.le_trans (h.count userId externalOnly n hn) ((hs.count userId).resolve_right (ho _ hl))

/-- What a transaction that has read and counted may delete. -/
theorem Knows.spare (h : Knows b o tx t) {userId : Nat} {provider : String}
    (hc : Checked o (.deleteConnection userId provider)) :
    b.lock (.user userId) ∈ tx.locks ∧ Spare t userId := by
  obtain ⟨externalOnly, n, ho, hcond⟩ := hc
  obtain ⟨hl, hrow⟩ := h.user userId externalOnly (by rw [ho])
  refine ⟨hl, fun u hu hid _ hext => ?_⟩
  have hle := h.count userId externalOnly n ho
  have htrue : externalOnly = true := (hrow u hu hid).symm.trans hext
  have : ¬n ≤ 1 := fun hn => hcond ⟨htrue, hn⟩
  omega

/-- **A statement leaves its transaction with what it has read.** -/
theorem Knows.execute (hs : Sound t) (h : Knows b o tx t) {d : Draw} {st : Statement}
    {res : st.Result} {writes : List Write} {locks : List Lock} (hfits : Fits tx st)
    (hc : Checked o st)
    (he : (database b).execute ((database b).view t tx.writes) d st = some (res, writes, locks)) :
    Knows b (o.read st res) (tx.extend writes locks) t := by
  have hg : Grounded b (tx.extend writes locks) t := by
    refine h.grounded.execute hs hfits ?_ he
    rintro userId provider rfl
    exact h.spare hc
  have hkeep : Knows b o (tx.extend writes locks) t := by
    refine ⟨hg, fun userId externalOnly hu => ?_, h.count⟩
    obtain ⟨hl, hrow⟩ := h.user userId externalOnly hu
    exact ⟨List.mem_append_left _ hl, hrow⟩
  cases st with
  | selectUserForUpdate username =>
      have hempty : tx.writes = [] := hfits
      obtain ⟨keys, hrun, rfl⟩ := exists_execute he
      rw [hempty, Database.view_nil] at hrun
      refine ⟨hg, ?_, ?_⟩
      · rintro userId externalOnly hu
        simp only [OAuth.execute] at hrun
        split at hrun
        · cases hrun
          cases hu
        · next u hlive =>
            cases hrun
            cases hu
            refine ⟨List.mem_append_right _ List.mem_cons_self, fun u' hu' hid => ?_⟩
            rw [hs.eq_of_id hu' (Tables.liveUser_mem hlive) hid]
      · rintro userId externalOnly n hn
        cases hn
  | countConnections userId =>
      have hempty : tx.writes = [] := hfits
      obtain ⟨keys, hrun, rfl⟩ := exists_execute he
      rw [hempty, Database.view_nil] at hrun
      cases hrun
      refine ⟨hg, ?_, ?_⟩
      · intro id externalOnly hu
        exact hkeep.user id externalOnly (Option.filter_eq_some_iff.1 hu).1
      · intro id externalOnly n hn
        simp only [Seen.read, Seen.mk.injEq, Option.filter_eq_some_iff, Option.some.injEq,
          beq_iff_eq] at hn
        obtain ⟨⟨-, rfl⟩, rfl⟩ := hn
        exact Nat.le_refl _
  | _ => exact hkeep

/-- A statement that is safe alone is complete. -/
theorem complete_of_alone {st : Statement} {d : Draw} {res : st.Result} {writes : List Write}
    {locks : List Lock} (halone : Alone st)
    (he : (database b).execute t d st = some (res, writes, locks)) :
    Complete ⟨writes, locks⟩ ∧ Fits .empty st ∧
      ∀ userId provider, st ≠ .deleteConnection userId provider := by
  obtain ⟨keys, hrun, rfl⟩ := exists_execute he
  have hnone : (∀ u, Write.insertUser u ∉ writes) → Complete ⟨writes, keys.map b.lock⟩ :=
    fun h u hu => absurd hu (h u)
  refine ⟨hnone ?_, ?_, ?_⟩
  · intro u hu
    cases st with
    | deleteConnectionUnlessLast username provider =>
        simp only [OAuth.execute] at hrun
        split at hrun
        · cases hrun
          cases hu
        · split at hrun <;> (cases hrun; simp at hu)
    | isLastConnection username provider =>
        simp only [OAuth.execute] at hrun
        split at hrun <;> (cases hrun; cases hu)
    | usernameForConnection provider providerUserId =>
        simp only [OAuth.execute] at hrun
        split at hrun <;> (cases hrun; cases hu)
    | linkConnection username provider providerUserId email =>
        simp only [OAuth.execute] at hrun
        split at hrun
        · cases hrun
          cases hu
        · split at hrun
          · cases hrun
          · split at hrun <;> (cases hrun; simp at hu)
    | upsertPendingSignup signup =>
        simp only [OAuth.execute] at hrun
        split at hrun
        · cases hrun
        · cases hrun
          simp at hu
    | _ => cases halone
  · cases st with
    | deleteConnectionUnlessLast => exact rfl
    | linkConnection => exact rfl
    | isLastConnection => trivial
    | usernameForConnection => trivial
    | upsertPendingSignup => trivial
    | _ => cases halone
  · rintro userId provider rfl
    cases halone

/-- **One call**: the tables stay sound, the operation knows what it is about to do, and
the tables change under locks that are its own or free. -/
theorem Knows.step {s s' : Db} {log : Log} {c : Call} {r : Reply c} (hs : Sound s.tables)
    (hk : ∀ tx, openTx log = some tx → Knows b (seen log) tx s.tables) (hf : Follows log c)
    (ha : (database b).Answer s c r s') :
    Sound s'.tables ∧
      (∀ tx, openTx (log ++ [⟨s, c, r, s'⟩]) = some tx →
        Knows b (seen (log ++ [⟨s, c, r, s'⟩])) tx s'.tables) ∧
      Shift b (fun l => l ∈ c.locks ∨ s.held l = false) s.tables s'.tables := by
  have hcommit : ∀ tx, openTx log = some tx → Complete tx →
      Sound ((database b).view s.tables tx.writes) ∧
        Shift b (fun l => l ∈ tx.locks ∨ s.held l = false) s.tables
          ((database b).view s.tables tx.writes) := by
    intro tx ho hcomplete
    obtain ⟨hi, hacc, hu, hn⟩ := (hk tx ho).grounded.shifts hs
    exact ⟨hs.commit (hk tx ho).grounded hcomplete, fun c hc => (hi c hc).imp_right Or.inl,
      fun c hc => (hacc c hc).imp_right Or.inl, fun u hmem => (hu u hmem).imp_right Or.inl,
      fun id => (hn id).imp_right Or.inl⟩
  have hauto : ∀ {st d} {res : st.Result} {writes locks}, Alone st →
      (database b).execute s.tables d st = some (res, writes, locks) →
      (∀ l ∈ locks, s.held l = false) →
        Sound ((database b).view s.tables writes) ∧
          Shift b (fun l => l ∈ (TxCall.auto st : Call).locks ∨ s.held l = false) s.tables
            ((database b).view s.tables writes) := by
    intro st d res writes locks halone he hfree
    obtain ⟨hcomplete, hfits, hnot⟩ := complete_of_alone halone he
    have hg : Grounded b ⟨writes, locks⟩ s.tables := (Grounded.empty b s.tables).execute hs hfits
      (fun userId provider h => absurd h (hnot userId provider)) he
    obtain ⟨hi, hacc, hu, hn⟩ := hg.shifts hs
    exact ⟨hs.commit hg hcomplete, fun c hc => (hi c hc).imp_right fun h => Or.inr (hfree _ h),
      fun c hc => (hacc c hc).imp_right fun h => Or.inr (hfree _ h),
      fun u hmem => (hu u hmem).imp_right fun h => Or.inr (hfree _ h),
      fun id => (hn id).imp_right fun h => Or.inr (hfree _ h)⟩
  cases ha with
  | begun =>
      refine ⟨hs, fun tx ho => ?_, Shift.refl _ _ _⟩
      rw [openTx_concat] at ho
      obtain rfl := Option.some.inj ho
      rw [seen_concat]
      refine ⟨Grounded.empty b s.tables, ?_, ?_⟩
      · intro userId externalOnly hu
        cases hu
      · intro userId externalOnly n hn
        cases hn
  | executed he hfree =>
      obtain ⟨ho, hfits, hc⟩ := hf
      refine ⟨hs, fun tx' ho' => ?_, Shift.refl _ _ _⟩
      rw [openTx_concat] at ho'
      obtain rfl := Option.some.inj ho'
      rw [seen_concat]
      exact (hk _ ho).execute hs hfits hc he
  | committed =>
      obtain ⟨h₁, h₂⟩ := hcommit _ hf.1 hf.2
      refine ⟨h₁, fun tx ho => ?_, h₂⟩
      rw [openTx_concat] at ho
      cases ho
  | committedLate =>
      obtain ⟨h₁, h₂⟩ := hcommit _ hf.1 hf.2
      refine ⟨h₁, fun tx ho => ?_, h₂⟩
      rw [openTx_concat] at ho
      cases ho
  | done he hfree =>
      obtain ⟨h₁, h₂⟩ := hauto hf.2 he hfree
      refine ⟨h₁, fun tx ho => ?_, h₂⟩
      rw [openTx_concat] at ho
      exact absurd (hf.1.symm.trans ho) (Option.some_ne_none tx).symm
  | doneLate he hfree =>
      obtain ⟨h₁, h₂⟩ := hauto hf.2 he hfree
      refine ⟨h₁, fun tx ho => ?_, h₂⟩
      rw [openTx_concat] at ho
      exact absurd (hf.1.symm.trans ho) (Option.some_ne_none tx).symm
  | notDone =>
      refine ⟨hs, fun tx ho => ?_, Shift.refl _ _ _⟩
      rw [openTx_concat] at ho
      exact absurd (hf.1.symm.trans ho) (Option.some_ne_none tx).symm
  | _ =>
      refine ⟨hs, fun tx ho => ?_, Shift.refl _ _ _⟩
      rw [openTx_concat] at ho
      cases ho

end Step

section Run

variable {b : Backend} {cfg cfg' : Operations}

/-- Every call of a run keeps to the discipline. -/
theorem Reaches.follows (hr : Reaches (oauth b) AnyStep cfg cfg') (h : cfg.flights = [])
    {i : Nat} {q : Request} {c : Call} {next : Reply c → Program Call Reply Outcome} {log : Log}
    (hi : cfg'.flights[i]? = some ⟨q, .call c next, log⟩) {r : Reply c} {s' : Db}
    (ha : (database b).Answer cfg'.store c r s') : Follows log c := by
  have hall := hr.heard (meets_serve b) (by simp [h])
  have hmeets := hall _ (List.mem_of_getElem? hi)
  exact (hmeets r _ ⟨_, _, ha, rfl⟩).1

/-- **An external-only user keeps a connection.**  In every run of sign-ups, links and
unlinks, on either backend, every live user that is marked external-only has a
connection, and the connections of an identity have one user. -/
theorem external_users_keep_a_connection {t : Tables} {held : Lock → Bool} (h : Sound t)
    (hr : Reaches (oauth b) AnyStep ⟨⟨t, held⟩, []⟩ cfg) :
    (∀ u ∈ cfg.store.tables.users, u.live = true → u.externalOnly = true →
      ∃ c ∈ cfg.store.tables.connections, c.userId = u.id) ∧
    ∀ c ∈ cfg.store.tables.connections, ∀ c' ∈ cfg.store.tables.connections,
      c.identity = c'.identity → c.userId = c'.userId := by
  have hsound : Sound cfg.store.tables := by
    refine (hr.rely (I := fun s => Sound s.tables)
      (K := fun f s => ∀ tx, openTx f.log = some tx → Knows b (seen f.log) tx s.tables)
      ?_ ?_ ?_ h (by simp)).1
    · intro q s _ tx ho
      cases ho
    · intro s c r s' q next log fs i hr₁ _ hi ha hs hk
      have hf := Reaches.follows hr₁ rfl hi ha
      obtain ⟨h₁, h₂, h₃⟩ := Knows.step hs hk hf ha
      refine ⟨h₁, h₂, fun j g hji hj hg tx ho => (hg tx ho).shift h₃ ?_⟩
      -- the locks of another operation are taken, and not by this one
      have hex := hr₁.locks_exclusive (fun _ _ _ _ h => h)
        (fun s c r s' q next log fs i hr' _ hi ha => (Reaches.follows hr' rfl hi ha).threads)
        (fun s s' l hd hl => by rw [show s' = s from hd]; exact hl) rfl
      intro l hl
      have hholds : Holds g l := ⟨tx, ho, hl⟩
      rintro (hown | hfree)
      · exact hji (hex.unique j i g _ l hj hi hholds (hf.threads.locks hown))
      · have htaken : s.held l = true := hex.taken g (List.mem_of_getElem? hj) l hholds
        rw [hfree] at htaken
        cases htaken
    · rintro s s' rfl hs
      exact ⟨hs, fun _ => id⟩
  refine ⟨?_, ?_⟩
  · intro u hu hlive hext
    obtain ⟨c, hc, hid⟩ := List.countP_pos_iff.1 (hsound.reachable u hu hlive hext)
    exact ⟨c, hc, by simpa using hid⟩
  · intro c hc c' hc' hid
    by_contra hne
    have : Std.Symm Distinct := ⟨fun _ _ h => ⟨Ne.symm h.1, Ne.symm h.2⟩⟩
    exact (hsound.connections.forall hc hc' (fun heq => hne (by rw [heq]))).1 hid

end Run

/-- A backend that does not fail. -/
def server (b : Backend) : Machine Request Call Reply Outcome Db Draw Unit where
  toSite := oauth b
  choose := (database b).choose
  choose_sound _ _ _ _ _ h := (database b).choose_sound h
  shift _ s := s
  shift_sound _ _ := rfl

/-- The result of an unlink that is over. -/
def unlinkResult (f : Operation) : Option UnlinkResult :=
  match f.rest with
  | .done (.unlink (.ok r)) => some r
  | _ => none

/-- An external-only user with two connections. -/
def twoConnections : Tables :=
  { Tables.empty with
    users := [externalUser ⟨1, 1, 0⟩ "a" "h"]
    connections := [⟨1, "x", "1", "", 0⟩, ⟨1, "y", "1", "", 0⟩] }

/-- The tables of the example are sound. -/
theorem sound_twoConnections : Sound twoConnections := by
  refine ⟨List.pairwise_singleton _ _, ?_, ?_⟩
  · simp [twoConnections, Distinct, OAuthConnection.identity, OAuthConnection.account]
  · intro u hu _ _
    rw [List.mem_singleton.1 hu]
    decide

/-- Two unlinks side by side: the second waits for the first, and finds the last
connection. -/
theorem external_users_keep_a_connection_unlinked : ∃ cfg : Operations,
    Reaches (oauth .postgres) AnyStep ⟨⟨twoConnections, fun _ => false⟩, []⟩ cfg ∧
      cfg.flights.map unlinkResult = [some .unlinked, some .lastConnection] ∧
      (∀ u ∈ cfg.store.tables.users, u.live = true → u.externalOnly = true →
        ∃ c ∈ cfg.store.tables.connections, c.userId = u.id) ∧
      ∀ c ∈ cfg.store.tables.connections, ∀ c' ∈ cfg.store.tables.connections,
        c.identity = c'.identity → c.userId = c'.userId := by
  have hplay : ((server .postgres).play (fun _ _ => true)
      ⟨⟨twoConnections, fun _ => false⟩, []⟩
      ([.arrive (.unlink "a" "x"), .arrive (.unlink "a" "y"), .call 0 ⟨0, 0, 0⟩, .call 1 ⟨0, 0, 0⟩] ++
        List.replicate 4 (.call 0 ⟨0, 0, 0⟩) ++ List.replicate 3 (.call 1 ⟨0, 0, 0⟩))).any
      (fun cfg => decide (cfg.flights.map unlinkResult =
        [some .unlinked, some .lastConnection])) = true := by decide +kernel
  obtain ⟨cfg, hr, hc⟩ := Machine.exists_of_play AnyStep (fun _ _ _ => trivial) hplay
  exact ⟨cfg, hr, of_decide_eq_true hc, external_users_keep_a_connection sound_twoConnections hr⟩

end OAuth
end Identity
end Hegira
