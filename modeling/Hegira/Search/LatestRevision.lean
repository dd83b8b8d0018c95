/-
# The latest revision wins

Once every command for a document has been handled, the index shows what the
command with the highest revision leaves of it (`latest_revision_wins`): on Postgres
in every run of the handlers; on SQLite in the runs where no handler that is about
to write the index is overtaken (`InOrder`).  There nothing keeps a handler that has
read an old version from writing the index after a newer command has been
committed: it then fails to record its revision, is delivered again, and finds
itself stale (`sqlite_shows_old_revision`).

The invariant relates the recorded revision to what each handler has read, written and
recorded (`Steady`), and the index to a command whose revision is not below the recorded
one (`Shown`).
-/

import Hegira.Search.Handlers

namespace Hegira
namespace Search

variable {φ : Type} {b : Backend} {k : Key} {cfg : Handlers φ} {f g : Handler φ}

/-- The handler has read a version below its revision, and not recorded it yet. -/
def Pending (f : Handler φ) (k : Key) (revision : Int) (tx : Transaction) : Prop :=
  f.request.target = some (k, revision) ∧
    ((∃ applied, Read f.log k applied tx ∧ stale applied revision = false) ∨ Wrote f.log tx)

/-- The handler has recorded its revision, and not committed it yet. -/
def Recorded (f : Handler φ) (k : Key) (revision : Int) (tx : Transaction) : Prop :=
  f.request.target = some (k, revision) ∧ Staged f.log k revision tx

/-- The handler has written the index, and not committed yet. -/
def Written (f : Handler φ) (k : Key) (revision : Int) : Prop :=
  f.request.target = some (k, revision) ∧ ∃ tx, Wrote f.log tx ∨ Staged f.log k revision tx

/-- The handler has succeeded. -/
def Handled (f : Handler φ) : Prop := f.rest = .done (.ok ())

/-- A handler that is about to write the index is not overtaken: the recorded
revision is still below its own, and no handler that has written the index and not
committed yet has a later one. -/
def InOrder (cfg : Handlers φ) (i : Nat) : Prop :=
  ∀ f tx operation next k revision, cfg.flights[i]? = some f →
    f.rest = .call (.write (some tx) operation) next → f.request.target = some (k, revision) →
      stale (cfg.store.versions k) revision = false ∧
        ∀ g ∈ cfg.flights, ∀ later, Written g k later → later ≤ revision

/-! ### The invariant -/

/-- What a handler relies on: `recorded` is the revision of the document, and
`commits` the number of commits so far. -/
structure Steady (b : Backend) (k : Key) (recorded : Option Int) (commits : Nat) (f : Handler φ) :
    Prop where
  held : b = .postgres → ∀ revision tx, Pending f k revision tx ∨ Recorded f k revision tx →
    k.lockName ∈ tx.locks
  snapshot : ∀ revision tx, Pending f k revision tx → ∀ n, tx.snapshot = some n → n ≤ commits
  pending : ∀ revision tx, Pending f k revision tx →
    (b = .sqlite → tx.snapshot = some commits) → stale recorded revision = false
  staged : ∀ revision tx, Recorded f k revision tx → stale recorded revision = false
  read : ∀ revision applied tx, f.request.target = some (k, revision) →
    Read f.log k applied tx → stale applied revision = true → stale recorded revision = true
  handled : ∀ revision, f.request.target = some (k, revision) → Handled f →
    stale recorded revision = true

/-- The index shows a command whose revision is neither below the recorded one nor
below that of a handler that has written the index. -/
def Shown (k : Key) (cfg : Handlers φ) : Prop :=
  (cfg.store.versions k).isSome ∨ (∃ f ∈ cfg.flights, ∃ revision, Written f k revision) →
    ∃ f ∈ cfg.flights, ∃ revision, f.request.target = some (k, revision) ∧
      cfg.store.index k = f.request.effect k ∧
      (∀ applied, cfg.store.versions k = some applied → applied ≤ revision) ∧
      ∀ g ∈ cfg.flights, ∀ other, Written g k other → other ≤ revision

@[simp] theorem stale_none {revision : Int} : stale none revision = false := rfl

/-- A command is stale when a revision as new was applied. -/
@[simp] theorem stale_some {applied revision : Int} :
    stale (some applied) revision = decide (revision ≤ applied) := rfl

/-- What is stale stays so when a newer revision is recorded. -/
theorem stale_advance {recorded : Option Int} {revision newer : Int}
    (hn : stale recorded newer = false) (hs : stale recorded revision = true) :
    stale (some newer) revision = true := by
  cases recorded with
  | none => cases hs
  | some applied =>
      simp only [stale_some, decide_eq_true_eq, decide_eq_false_iff_not] at *
      omega

/-- The stages of a handler, and its transaction in each. -/
theorem Read.opens {log : Log φ} {applied : Option Int} {tx : Transaction}
    (h : Read log k applied tx) : openAfter log = some tx ∧ tx.staged = none := by
  obtain ⟨s, tx₀, s', hl, hs⟩ := h
  exact ⟨by rw [openAfter, hl]; rfl, hs⟩

theorem Wrote.opens {log : Log φ} {tx : Transaction} (h : Wrote log tx) :
    openAfter log = some tx ∧ tx.staged = none := by
  obtain ⟨s, command, s', hl, hs⟩ := h
  exact ⟨by rw [openAfter, hl]; rfl, hs⟩

theorem Staged.opens {log : Log φ} {revision : Int} {tx : Transaction}
    (h : Staged log k revision tx) :
    openAfter log = some tx ∧ tx.staged = some (k, revision) := by
  obtain ⟨s, tx₀, s', hl, hs⟩ := h
  exact ⟨by rw [openAfter, hl]; rfl, hs⟩

/-- A handler that has just read has not written the index. -/
theorem Read.not_wrote {log : Log φ} {applied : Option Int} {tx tx' : Transaction}
    (h : Read log k applied tx) : ¬Wrote log tx' := by
  rintro ⟨s, command, s', hl, -⟩
  obtain ⟨s₀, tx₀, s₀', hl₀, -⟩ := h
  cases Option.some.inj (hl.symm.trans hl₀)

theorem Read.not_staged {log : Log φ} {applied : Option Int} {revision : Int}
    {tx tx' : Transaction} (h : Read log k applied tx) : ¬Staged log k revision tx' := by
  rintro ⟨s, tx₁, s', hl, -⟩
  obtain ⟨s₀, tx₀, s₀', hl₀, -⟩ := h
  cases Option.some.inj (hl.symm.trans hl₀)

/-- A pending handler has an open transaction. -/
theorem Pending.opens {revision : Int} {tx : Transaction} (h : Pending f k revision tx) :
    openAfter f.log = some tx := by
  rcases h.2 with ⟨applied, hr, -⟩ | hw
  · exact hr.opens.1
  · exact hw.opens.1

/-- A handler that has written the index has an open transaction. -/
theorem Written.opens {revision : Int} (h : Written f k revision) :
    ∃ tx, openAfter f.log = some tx ∧ (Pending f k revision tx ∨ Recorded f k revision tx) := by
  obtain ⟨ht, tx, hw | hs⟩ := h
  · exact ⟨tx, hw.opens.1, Or.inl ⟨ht, Or.inr hw⟩⟩
  · exact ⟨tx, hs.opens.1, Or.inr ⟨ht, hs⟩⟩

/-! ### One step -/

section Step

variable {s s' : Store φ} {q : SearchIndexCommand φ} {c : Call φ} {r : c.Reply} {log : Log φ}
  {next : c.Reply → Program (Call φ) Call.Reply (Except Failure Unit)}

/-- What a call has done to the log, for each of its last calls that matter. -/
theorem Read.of_concat {e : Event (Call φ) Call.Reply (Store φ)} {applied : Option Int}
    {tx : Transaction} (ha : Answer b e.before e.call e.reply e.after)
    (h : Read (log ++ [e]) k applied tx) : ∃ tx₀, e.call = .selectRevision tx₀ k ∧
      applied = e.before.versions k ∧ tx.locks = tx₀.locks ∧
      tx.snapshot = some e.before.commits ∧ e.after = e.before := by
  obtain ⟨s, tx₀, s', hl, -⟩ := h
  obtain rfl : e = _ := by simpa using hl
  obtain ⟨hv, hs⟩ := Prod.mk.inj (Option.some.inj ha.perform_of_ok)
  obtain ⟨hv, ht⟩ := Prod.mk.inj (Except.ok.inj hv)
  exact ⟨tx₀, rfl, hv.symm, by rw [← ht], by rw [← ht], hs.symm⟩

/-- The index is written by a write. -/
theorem Wrote.of_concat {e : Event (Call φ) Call.Reply (Store φ)} {tx : Transaction}
    (ha : Answer b e.before e.call e.reply e.after) (h : Wrote (log ++ [e]) tx) :
    ∃ command, e.call = .write (some tx) command ∧
      e.after.index = command.apply e.before.index := by
  obtain ⟨s, command, s', hl, -⟩ := h
  obtain rfl : e = _ := by simpa using hl
  exact ⟨command, rfl, congrArg Store.index (Prod.mk.inj (Option.some.inj ha.perform_of_ok)).2.symm⟩

/-- A revision is staged by recording it. -/
theorem Staged.of_concat {e : Event (Call φ) Call.Reply (Store φ)} {revision : Int}
    {tx : Transaction} (ha : Answer b e.before e.call e.reply e.after)
    (h : Staged (log ++ [e]) k revision tx) : ∃ tx₀, e.call = .insertVersion tx₀ k revision ∧
      tx.locks = tx₀.locks ∧ (b = .sqlite → tx₀.snapshot = some e.before.commits) := by
  obtain ⟨s, tx₀, s', hl, -⟩ := h
  obtain rfl : e = _ := by simpa using hl
  obtain ⟨rfl, hw, -⟩ := Store.perform_insertVersion ha.perform_of_ok
  exact ⟨tx₀, rfl, rfl, fun hb => (hw hb).2⟩

/-- A handler is done by its commit. -/
theorem Committed.of_concat {e : Event (Call φ) Call.Reply (Store φ)}
    (ha : Answer b e.before e.call e.reply e.after) (h : Committed (log ++ [e])) :
    ∃ tx, e.call = .commit tx ∧ e.after = e.before.commit tx := by
  obtain ⟨s, tx, s', hl⟩ := h
  obtain rfl : e = _ := by simpa using hl
  exact ⟨tx, rfl, (Prod.mk.inj (Option.some.inj ha.perform_of_ok)).2.symm⟩

/-- A commit without a staged revision leaves the versions. -/
theorem Store.versions_commit_none {tx : Transaction} (h : tx.staged = none) :
    (s.commit tx).versions = s.versions := by
  simp [commit, h, finish]

/-- A commit records the revision it has staged. -/
theorem Store.versions_commit_some {tx : Transaction} {revision : Int}
    (h : tx.staged = some (k, revision)) : (s.commit tx).versions k = some revision := by
  simp [commit, h]

/-- A handler that commits a revision has recorded it. -/
theorem Follows.recorded {tx : Transaction} {revision : Int} (hf : Follows b q log (.commit tx))
    (hs : tx.staged = some (k, revision)) :
    q.target = some (k, revision) ∧ Staged log k revision tx := by
  obtain ⟨-, k', revision', ht, ⟨applied, hr, -⟩ | hst⟩ := hf
  · rw [hr.opens.2] at hs
    cases hs
  · obtain ⟨rfl, rfl⟩ := Prod.mk.inj (Option.some.inj (hst.opens.2.symm.trans hs))
    exact ⟨ht, hst⟩

/-- What a call leaves of the recorded revision of a document. -/
theorem Answer.recorded (ha : Answer b s c r s') (hf : Follows b q log c) (k : Key) :
    (s'.versions k = s.versions k ∧ s.commits ≤ s'.commits) ∨
      ∃ tx revision, c = .commit tx ∧ q.target = some (k, revision) ∧
        Staged log k revision tx ∧ s'.versions k = some revision ∧
        s'.commits = s.commits + 1 := by
  rcases ha.versions with ⟨hv, hc⟩ | ⟨tx, k', revision, rfl, hs, hv, hc⟩
  · exact Or.inl ⟨by rw [hv], by omega⟩
  · by_cases hk : k = k'
    · subst hk
      obtain ⟨ht, hst⟩ := hf.recorded hs
      exact Or.inr ⟨tx, revision, rfl, ht, hst, by simp [hv], hc⟩
    · exact Or.inl ⟨by rw [hv, Function.update_of_ne hk], by omega⟩

/-- **The handler that makes a call relies on what still holds.** -/
theorem Steady.call (hst : Steady b k (s.versions k) s.commits ⟨q, .call c next, log⟩)
    (hm : Sound b ⟨q, .call c next, log⟩) (ha : Answer b s c r s') :
    Steady b k (s'.versions k) s'.commits ⟨q, next r, log ++ [⟨s, c, r, s'⟩]⟩ := by
  have hf := Follows.of_heard hm
  have hc : Meets (Heard (Answer b)) (Disciplined b q) (Closes q) (next r)
      (log ++ [⟨s, c, r, s'⟩]) := (hm r _ ⟨s, s', ha, rfl⟩).2
  have hw : ∀ tx command, c = .write (some tx) command → s'.versions = s.versions ∧
      s'.commits = s.commits := by
    rintro tx command rfl
    rcases ha.versions with h | ⟨_, _, _, h, -⟩
    · exact h
    · cases h
  have hi : ∀ tx k revision, c = .insertVersion tx k revision → s'.versions = s.versions := by
    rintro tx k revision rfl
    rcases ha.versions with h | ⟨_, _, _, h, -⟩
    · exact h.1
    · cases h
  -- a handler that has just written the index was about to
  have hwrote : ∀ revision tx, q.target = some (k, revision) → Wrote (log ++ [⟨s, c, r, s'⟩]) tx →
      Pending ⟨q, .call c next, log⟩ k revision tx ∧ s'.versions = s.versions ∧
        s'.commits = s.commits := by
    intro revision tx ht h
    obtain ⟨command, rfl, -⟩ := h.of_concat ha
    obtain ⟨-, k', revision', applied, ht', -, hr, hs, -⟩ := hf
    obtain ⟨rfl, rfl⟩ := Prod.mk.inj (Option.some.inj (ht'.symm.trans ht))
    exact ⟨⟨ht, Or.inl ⟨applied, hr, hs⟩⟩, hw _ _ rfl⟩
  refine ⟨?_, ?_, ?_, ?_, ?_, ?_⟩
  · rintro hb revision tx (⟨ht, ⟨applied, h, -⟩ | h⟩ | ⟨ht, h⟩)
    · obtain ⟨tx₀, rfl, -, hl, -⟩ := h.of_concat ha
      exact hl ▸ hf.2.2.2 hb
    · exact hst.held hb revision tx (Or.inl (hwrote revision tx ht h).1)
    · obtain ⟨tx₀, rfl, hl, -⟩ := h.of_concat ha
      exact hl ▸ hf.2.2.2 hb
  · rintro revision tx ⟨ht, ⟨applied, h, -⟩ | h⟩ n hn
    · obtain ⟨tx₀, -, -, -, hs, hss⟩ := h.of_concat ha
      obtain rfl := Option.some.inj (hs.symm.trans hn)
      exact Nat.le_of_eq (congrArg Store.commits hss).symm
    · obtain ⟨hp, -, hcm⟩ := hwrote revision tx ht h
      exact hcm ▸ hst.snapshot revision tx hp n hn
  · rintro revision tx ⟨ht, ⟨applied, h, hs⟩ | h⟩ hsn
    · obtain ⟨tx₀, -, rfl, -, -, hss⟩ := h.of_concat ha
      rw [show s' = s from hss]
      exact hs
    · obtain ⟨hp, hv, hcm⟩ := hwrote revision tx ht h
      rw [hv]
      exact hst.pending revision tx hp (hcm ▸ hsn)
  · rintro revision tx ⟨ht, h⟩
    obtain ⟨tx₀, rfl, -, hsn⟩ := h.of_concat ha
    rw [hi _ _ _ rfl]
    exact hst.pending revision tx₀ ⟨ht, Or.inr hf.2.2.1⟩ hsn
  · intro revision applied tx ht h hs
    obtain ⟨tx₀, -, rfl, -, -, hss⟩ := h.of_concat ha
    rw [show s' = s from hss]
    exact hs
  · intro revision ht hh
    rw [show next r = .done (.ok ()) from hh] at hc
    obtain ⟨tx, rfl, hs'⟩ := (hc (by rw [show q.target = _ from ht]; rfl)).of_concat ha
    rw [show s' = s.commit tx from hs']
    obtain ⟨-, k', revision', ht', hlast⟩ := hf
    obtain ⟨rfl, rfl⟩ := Prod.mk.inj (Option.some.inj (ht'.symm.trans ht))
    rcases hlast with ⟨applied, hr, hs⟩ | hr
    · rw [Store.versions_commit_none hr.opens.2]
      exact hst.read _ applied tx ht hr hs
    · simp [Store.versions_commit_some hr.opens.2]

/-- **The other handlers rely on what still holds.** -/
theorem Steady.other (hst : Steady b k (s.versions k) s.commits g)
    (hm : Sound b ⟨q, .call c next, log⟩) (ha : Answer b s c r s')
    (hlock : b = .postgres → ∀ name, Holds ⟨q, .call c next, log⟩ name → ¬Holds g name)
    (hwrite : b = .sqlite → ∀ u, Writes ⟨q, .call c next, log⟩ u → ¬Writes g u)
    (hmover : Steady b k (s.versions k) s.commits ⟨q, .call c next, log⟩) :
    Steady b k (s'.versions k) s'.commits g := by
  have hf := Follows.of_heard hm
  rcases ha.recorded hf k with ⟨hv, hle⟩ | ⟨tx, revision, rfl, ht, hs, hv, hc⟩
  · rw [hv]
    refine ⟨hst.held, ?_, ?_, hst.staged, hst.read, hst.handled⟩
    · intro revision tx hp n hn
      have := hst.snapshot revision tx hp n hn
      omega
    · intro revision tx hp hsn
      refine hst.pending revision tx hp fun hb => ?_
      have := hst.snapshot revision tx hp _ (hsn hb)
      rw [hsn hb]
      congr 1
      omega
  · have hnew : stale (s.versions k) revision = false := hmover.staged revision tx ⟨ht, hs⟩
    have hopen := hs.opens
    refine ⟨hst.held, ?_, ?_, ?_, ?_, ?_⟩
    · intro later tx' hp n hn
      have := hst.snapshot later tx' hp n hn
      omega
    · intro later tx' hp hsn
      cases b with
      | postgres =>
          exact absurd ⟨tx', hp.opens, hst.held rfl later tx' (Or.inl hp)⟩
            (hlock rfl k.lockName ⟨tx, hopen.1, hmover.held rfl revision tx (Or.inr ⟨ht, hs⟩)⟩)
      | sqlite =>
          have := hst.snapshot later tx' hp _ (hsn rfl)
          omega
    · intro later tx' hp
      have hopen' := hp.2.opens
      cases b with
      | postgres =>
          exact absurd ⟨tx', hopen'.1, hst.held rfl later tx' (Or.inr hp)⟩
            (hlock rfl k.lockName ⟨tx, hopen.1, hmover.held rfl revision tx (Or.inr ⟨ht, hs⟩)⟩)
      | sqlite =>
          exact absurd ⟨tx', hopen'.1, by simp [hopen'.2]⟩
            (hwrite rfl () ⟨tx, hopen.1, by simp [hopen.2]⟩)
    · intro later applied tx' ht' hr hst'
      rw [hv]
      exact stale_advance hnew (hst.read later applied tx' ht' hr hst')
    · intro later ht' hh
      rw [hv]
      exact stale_advance hnew (hst.handled later ht' hh)

/-- A handler that has written the index, and not committed yet, had written it
before, or does so in this call. -/
theorem Written.of_concat {revision : Int} (ha : Answer b s c r s') (hf : Follows b q log c)
    (h : Written ⟨q, next r, log ++ [⟨s, c, r, s'⟩]⟩ k revision) :
    Written ⟨q, .call c next, log⟩ k revision ∨
      ∃ tx command, c = .write (some tx) command ∧ s'.index k = q.effect k := by
  obtain ⟨ht, tx, hw | hs⟩ := h
  · obtain ⟨command, rfl, hi⟩ := hw.of_concat ha
    obtain ⟨-, k', revision', applied, ht', hop, -⟩ := hf
    obtain ⟨rfl, rfl⟩ := Prod.mk.inj (Option.some.inj (ht'.symm.trans ht))
    refine Or.inr ⟨tx, command, rfl, ?_⟩
    rw [show s'.index = _ from hi, hop]
    exact SearchIndexCommand.apply_target ht'
  · obtain ⟨tx₀, rfl, -⟩ := hs.of_concat ha
    exact Or.inl ⟨ht, tx₀, Or.inl hf.2.2.1⟩

/-- What a call leaves of the document in the index. -/
theorem Answer.shown (ha : Answer b s c r s') (hf : Follows b q log c)
    (hq : q.Mentions k → ∃ revision, q.target = some (k, revision)) :
    s'.index k = s.index k ∨ ∃ tx command revision, c = .write (some tx) command ∧
      q.target = some (k, revision) ∧ s'.index k = q.effect k := by
  rcases ha.index with h | ⟨tx, command, rfl, h⟩
  · exact Or.inl (by rw [h])
  · rw [h]
    cases tx with
    | none =>
        refine Or.inl (SearchIndexCommand.apply_of_not_mentions fun hk => ?_)
        obtain ⟨revision, ht⟩ := hq (hf.2.2 k hk)
        rw [hf.2.1] at ht
        cases ht
    | some tx =>
        obtain ⟨-, k', revision, applied, ht, ho, -⟩ := hf
        rw [ho]
        by_cases hk : q.Mentions k
        · obtain rfl := SearchIndexCommand.eq_of_mentions ht hk
          exact Or.inr ⟨tx, command, revision, rfl, ht, SearchIndexCommand.apply_target ht⟩
        · exact Or.inl (SearchIndexCommand.apply_of_not_mentions hk)

end Step

/-! ### Runs -/

section Run

variable {allow : Handlers φ → Nat → Prop} {cfg' : Handlers φ}

/-- **Every handler relies on what holds, in every run.** -/
theorem Reaches.steady (hr : Reaches (handlers b) allow cfg cfg') (h : cfg.flights = [])
    (k : Key) : ∀ f ∈ cfg'.flights, Steady b k (cfg'.store.versions k) cfg'.store.commits f := by
  induction hr with
  | refl => simp [h]
  | tail hr hs ih =>
      have hsound := Reaches.handlers_sound hr h
      cases hs with
      | drift fs hd => exact hd ▸ ih
      | arrive s fs q =>
          intro f hf
          rcases List.mem_append.1 hf with hf | hf
          · exact ih f hf
          · obtain rfl := List.mem_singleton.1 hf
            refine ⟨?_, ?_, ?_, ?_, ?_, ?_⟩
            · rintro - revision tx (⟨-, ⟨applied, h, -⟩ | h⟩ | ⟨-, h⟩) <;> cases h.opens.1
            · rintro revision tx ⟨-, ⟨applied, h, -⟩ | h⟩ <;> cases h.opens.1
            · rintro revision tx ⟨-, ⟨applied, h, -⟩ | h⟩ <;> cases h.opens.1
            · rintro revision tx ⟨-, h⟩
              cases h.opens.1
            · intro revision applied tx ht h
              cases h.opens.1
            · intro revision ht hh
              have hc := meets_handle (b := b) q
              rw [show (handle b q).run = .done (.ok ()) from hh] at hc
              obtain ⟨s₀, tx, s₀', hl⟩ := hc (by rw [show q.target = _ from ht]; rfl)
              cases hl
      | @call s s' fs i q c next log r hi ha he =>
          have hmem := List.mem_of_getElem? hi
          intro f hf
          rcases mem_set_cases hi hf with rfl | ⟨j, hj, hf⟩
          · exact (ih _ hmem).call (hsound _ hmem) he
          · refine (ih _ (List.mem_of_getElem? hf)).other (hsound _ hmem) he ?_ ?_ (ih _ hmem)
            · rintro - name hn hn'
              exact hj ((Reaches.holds_exclusive hr h).unique j i f _ name hf hi hn' hn)
            · rintro rfl u hn hn'
              exact hj ((Reaches.writes_exclusive hr h).unique j i f _ u hf hi hn' hn)

/-- **On Postgres the lock of the document keeps its handlers in order.** -/
theorem InOrder.of_locked {i : Nat} (hr : Reaches (handlers .postgres) allow cfg cfg')
    (h : cfg.flights = []) : InOrder cfg' i := by
  intro f tx operation next k revision hi hrest ht
  have hf := List.mem_of_getElem? hi
  have hm := Reaches.handlers_sound hr h f hf
  rw [Sound, hrest] at hm
  obtain ⟨-, k', revision', applied, ht', -, hread, hs, hl⟩ := Follows.of_heard hm
  obtain ⟨rfl, rfl⟩ := Prod.mk.inj (Option.some.inj (ht'.symm.trans ht))
  have hp : Pending f k' revision' tx := ⟨ht, Or.inl ⟨applied, hread, hs⟩⟩
  refine ⟨(Reaches.steady hr h k' f hf).pending revision' tx hp nofun, ?_⟩
  intro g hg later hw
  obtain ⟨j, hj⟩ := List.mem_iff_getElem?.1 hg
  obtain ⟨tx', ho, hg'⟩ := hw.opens
  have hheld := (Reaches.steady hr h k' g hg).held rfl later tx' hg'
  -- the other handler would hold the same lock
  obtain rfl := (Reaches.holds_exclusive hr h).unique i j f g k'.lockName hi hj
    ⟨tx, hread.opens.1, hl rfl⟩ ⟨tx', ho, hheld⟩
  obtain rfl := Option.some.inj (hi.symm.trans hj)
  obtain ⟨-, tx'', hw | hw⟩ := hw
  · exact absurd hw hread.not_wrote
  · exact absurd hw hread.not_staged

/-- **Handlers in order keep showing a command that is not out of date.** -/
theorem Shown.call {s s' : Store φ} {fs : List (Handler φ)} {i : Nat} {q : SearchIndexCommand φ}
    {c : Call φ} {next : c.Reply → Program (Call φ) Call.Reply (Except Failure Unit)}
    {log : Log φ} {r : c.Reply} (hi : fs[i]? = some ⟨q, .call c next, log⟩)
    (hm : Sound b ⟨q, .call c next, log⟩) (ha : Answer b s c r s')
    (hq : q.Mentions k → ∃ revision, q.target = some (k, revision))
    (ho : InOrder ⟨s, fs⟩ i) (h : Shown k ⟨s, fs⟩) :
    Shown k ⟨s', fs.set i ⟨q, next r, log ++ [⟨s, c, r, s'⟩]⟩⟩ := by
  have hf := Follows.of_heard hm
  have hmem := List.mem_of_getElem? hi
  intro hante
  by_cases hA : (∃ tx command, c = .write (some tx) command) ∧ s'.index k = q.effect k ∧
      ∃ revision, q.target = some (k, revision)
  · -- the call shows its own command
    obtain ⟨⟨tx, command, rfl⟩, hindex, revision, ht⟩ := hA
    obtain ⟨hfresh, hlater⟩ := ho _ tx command next k revision hi rfl ht
    have hv : s'.versions = s.versions := by
      rcases ha.versions with h | ⟨_, _, _, h, -⟩
      · exact h.1
      · cases h
    refine ⟨_, List.mem_of_getElem? (List.getElem?_set_self (List.getElem?_eq_some_iff.1 hi).1),
      revision, ht, hindex, ?_, ?_⟩
    · intro applied hap
      rw [show (s.versions k) = some applied from hv ▸ hap] at hfresh
      simp only [stale_some, decide_eq_false_iff_not] at hfresh
      omega
    · intro g hg other hw
      rcases mem_set_cases hi hg with rfl | ⟨j, hj, hg⟩
      · obtain ⟨-, rfl⟩ := Prod.mk.inj (Option.some.inj (hw.1.symm.trans ht))
        exact Int.le_refl _
      · exact hlater g (List.mem_of_getElem? hg) other hw
  · -- the index shows what it did, and nothing has been written
    have hindex : s'.index k = s.index k := by
      rcases ha.shown hf hq with h | ⟨tx, command, revision, rfl, ht, h⟩
      · exact h
      · exact absurd ⟨⟨tx, command, rfl⟩, h, revision, ht⟩ hA
    have hwritten : ∀ g ∈ fs.set i ⟨q, next r, log ++ [⟨s, c, r, s'⟩]⟩, ∀ revision,
        Written g k revision → ∃ g ∈ fs, Written g k revision := by
      intro g hg revision hw
      rcases mem_set_cases hi hg with rfl | ⟨j, hj, hg⟩
      · rcases hw.of_concat ha hf with hw' | ⟨tx, command, rfl, h⟩
        · exact ⟨_, hmem, hw'⟩
        · exact absurd ⟨⟨tx, command, rfl⟩, h, revision, hw.1⟩ hA
      · exact ⟨g, List.mem_of_getElem? hg, hw⟩
    have hrec := ha.recorded hf k
    have hold : (s.versions k).isSome ∨ ∃ f ∈ fs, ∃ revision, Written f k revision := by
      rcases hrec with ⟨hv, -⟩ | ⟨tx, revision, -, ht, hs, -⟩
      · rcases hante with hv' | ⟨g, hg, revision, hw⟩
        · exact Or.inl (hv ▸ hv')
        · obtain ⟨g', hg', hw'⟩ := hwritten g hg revision hw
          exact Or.inr ⟨g', hg', revision, hw'⟩
      · exact Or.inr ⟨_, hmem, revision, ht, tx, Or.inr hs⟩
    obtain ⟨f, hff, revision, ht, hshown, hle, hlater⟩ := h hold
    have hstep : Step (handlers b) AnyStep ⟨s, fs⟩
        ⟨s', fs.set i ⟨q, next r, log ++ [⟨s, c, r, s'⟩]⟩⟩ := .call hi trivial ha
    obtain ⟨f', hf', hq', -⟩ := Reaches.mem_persists (.single hstep) hff
    refine ⟨f', hf', revision, hq' ▸ ht, ?_, ?_, ?_⟩
    · rw [hq', ← hshown]
      exact hindex
    · intro applied hap
      rcases hrec with ⟨hv, -⟩ | ⟨tx, newer, -, ht', hs, hv, -⟩
      · exact hle applied (hv ▸ hap)
      · obtain rfl := Option.some.inj (hv.symm.trans hap)
        exact hlater _ hmem newer ⟨ht', tx, Or.inr hs⟩
    · intro g hg other hw
      obtain ⟨g', hg', hw'⟩ := hwritten g hg other hw
      exact hlater g' hg' other hw'

/-- **In every run of handlers in order, the index shows a command that is not out of date.** -/
theorem Reaches.shown (hr : Reaches (handlers b) allow cfg cfg') (h : cfg.flights = [])
    (hv : cfg.store.versions k = none)
    (ho : ∀ cfg₁, Reaches (handlers b) allow cfg cfg₁ → ∀ i, allow cfg₁ i → InOrder cfg₁ i)
    (hq : ∀ f ∈ cfg'.flights, f.request.Mentions k →
      ∃ revision, f.request.target = some (k, revision)) : Shown k cfg' := by
  induction hr with
  | refl =>
      rintro (hs | ⟨f, hf, -⟩)
      · rw [hv] at hs
        cases hs
      · rw [h] at hf
        cases hf
  | tail hr hs ih =>
      have ih' := ih fun f hf => by
        obtain ⟨f', hf', hq', -⟩ := Reaches.mem_persists (.single hs) hf
        exact hq' ▸ hq f' hf'
      have hsound := Reaches.handlers_sound hr h
      cases hs with
      | drift fs hd => exact hd ▸ ih'
      | @call s s' fs i q c next log r hi ha he =>
          have hmem := List.mem_of_getElem? hi
          refine Shown.call hi (hsound _ hmem) he ?_ (ho _ hr i ha) ih'
          exact hq _ (List.mem_of_getElem?
            (List.getElem?_set_self (List.getElem?_eq_some_iff.1 hi).1))
      | arrive s fs q =>
          have hnew : ∀ g ∈ fs ++ [(handlers b).arrival q], ∀ revision, Written g k revision →
              g ∈ fs := by
            intro g hg revision hw
            rcases List.mem_append.1 hg with hg | hg
            · exact hg
            · obtain rfl := List.mem_singleton.1 hg
              obtain ⟨tx, ho, -⟩ := hw.opens
              cases ho
          intro hante
          obtain ⟨f, hf, revision, ht, hshown, hle, hlater⟩ := ih' <| hante.imp id fun
            ⟨g, hg, revision, hw⟩ => ⟨g, hnew g hg revision hw, revision, hw⟩
          exact ⟨f, List.mem_append_left _ hf, revision, ht, hshown, hle,
            fun g hg other hw => hlater g (hnew g hg other hw) other hw⟩

end Run

/-- The steps that are in order: any on Postgres. -/
def Orderly : Backend → Handlers φ → Nat → Prop
  | .postgres => AnyStep
  | .sqlite => InOrder

/-- Every command for the document has been handled. -/
def AllHandled (k : Key) (cfg : Handlers φ) : Prop :=
  ∀ f ∈ cfg.flights, f.request.Mentions k →
    ∃ g ∈ cfg.flights, g.request = f.request ∧ Handled g

/-- Every command for the document is a command with a revision, for it alone. -/
def AllRevisioned (k : Key) (cfg : Handlers φ) : Prop :=
  ∀ f ∈ cfg.flights, f.request.Mentions k → ∃ revision, f.request.target = some (k, revision)

/-- The index shows the effect of a command with the highest revision. -/
def ShowsLatest (k : Key) (cfg : Handlers φ) : Prop :=
  ∃ f ∈ cfg.flights, ∃ revision, f.request.target = some (k, revision) ∧
    (∀ g ∈ cfg.flights, ∀ other, g.request.target = some (k, other) → other ≤ revision) ∧
    cfg.store.index k = f.request.effect k

/-- **The latest revision wins**, once every command for the document has been
handled; on SQLite, when the handlers that write the index do so in order. -/
theorem latest_revision_wins {s : Store φ} {cfg : Handlers φ} {k : Key}
    (hs : s.versions k = none) (hr : Reaches (handlers b) (Orderly b) ⟨s, []⟩ cfg)
    (hq : AllRevisioned k cfg) (hall : AllHandled k cfg)
    (hone : ∃ f ∈ cfg.flights, f.request.Mentions k) : ShowsLatest k cfg := by
  have hrecorded : ∀ f ∈ cfg.flights, ∀ revision, f.request.target = some (k, revision) →
      stale (cfg.store.versions k) revision = true := by
    intro f hf revision ht
    obtain ⟨g, hg, hgf, hh⟩ := hall f hf (SearchIndexCommand.mentions_of_target ht)
    exact (Reaches.steady hr rfl k g hg).handled revision (hgf ▸ ht) hh
  have hshown : Shown k cfg := by
    refine Reaches.shown hr rfl hs ?_ hq
    intro cfg₁ hr₁ i hi
    cases b with
    | postgres => exact InOrder.of_locked hr₁ rfl
    | sqlite => exact hi
  obtain ⟨f, hf, hm⟩ := hone
  obtain ⟨revision, ht⟩ := hq f hf hm
  obtain ⟨applied, hap⟩ : ∃ applied, cfg.store.versions k = some applied := by
    have := hrecorded f hf revision ht
    cases hv : cfg.store.versions k with
    | none => rw [hv] at this; cases this
    | some applied => exact ⟨applied, rfl⟩
  obtain ⟨w, hw, latest, htw, hindex, hle, -⟩ := hshown (Or.inl (by rw [hap]; rfl))
  refine ⟨w, hw, latest, htw, ?_, hindex⟩
  intro g hg other hgt
  have h₁ := hrecorded g hg other hgt
  have h₂ := hle applied hap
  rw [hap] at h₁
  simp only [stale_some, decide_eq_true_eq] at h₁
  omega

/-! ### Schedules -/

/-- Handlers whose statements do not fail by themselves. -/
def workers (b : Backend) : Machine (SearchIndexCommand φ) (Call φ) Call.Reply
    (Except Failure Unit) (Store φ) Unit Unit where
  toSite := handlers b
  choose _ s c := s.perform b c
  choose_sound _ _ _ _ _ h := .answered h
  shift _ s := s
  shift_sound _ _ := rfl

instance (f : Handler φ) : Decidable (Handled f) :=
  match h : f.rest with
  | .done (.ok ()) => .isTrue h
  | .done (.error _) => .isFalse fun hh => by rw [Handled, h] at hh; cases hh
  | .call _ _ => .isFalse fun hh => by rw [Handled, h] at hh; cases hh

/-- The document of a user. -/
def userKey : Key := ("identity_users", "user-1")

/-- An upsert of the document of a user. -/
def upsertUser (username : String) (revision : Int) : SearchIndexCommand String :=
  .upsert userKey.1 [⟨userKey.2, username⟩] (some revision)

/-- All upserts of the user have been handled, and the index shows the username. -/
def Settled (username : String) (cfg : Handlers String) : Prop :=
  (∀ f ∈ cfg.flights, (f.request = upsertUser "old" 1 ∨ f.request = upsertUser "new" 2) ∧
    ∃ g ∈ cfg.flights, g.request = f.request ∧ Handled g) ∧
  (∃ f ∈ cfg.flights, f.request = upsertUser "new" 2) ∧ cfg.store.index userKey = some username

instance (username : String) (cfg : Handlers String) : Decidable (Settled username cfg) := by
  unfold Settled
  infer_instance

/-- The handlers of the example are done with every command. -/
theorem Settled.allHandled {username : String} {cfg : Handlers String} (h : Settled username cfg) :
    AllHandled userKey cfg := fun f hf _ => (h.1 f hf).2

theorem Settled.allRevisioned {username : String} {cfg : Handlers String}
    (h : Settled username cfg) : AllRevisioned userKey cfg := by
  intro f hf _
  rcases (h.1 f hf).1 with hq | hq
  · exact ⟨1, by rw [hq]; rfl⟩
  · exact ⟨2, by rw [hq]; rfl⟩

/-- Two deliveries on Postgres, the older one waiting for the lock. -/
theorem latest_revision_wins_user : ∃ cfg : Handlers String,
    Reaches (handlers .postgres) AnyStep ⟨.empty, []⟩ cfg ∧ Settled "new" cfg ∧
      ShowsLatest userKey cfg := by
  have hplay : ((workers .postgres).play (fun _ _ => true) ⟨.empty, []⟩
      ([.arrive (upsertUser "new" 2), .arrive (upsertUser "old" 1)] ++
        List.replicate 7 (.call 0 ()) ++ List.replicate 5 (.call 1 ()))).any
        (fun cfg => decide (Settled "new" cfg)) = true := by decide +kernel
  obtain ⟨cfg, hr, hc⟩ := Machine.exists_of_play AnyStep (fun _ _ _ => trivial) hplay
  have hc := of_decide_eq_true hc
  obtain ⟨f, hf, hq⟩ := hc.2.1
  exact ⟨cfg, hr, hc, latest_revision_wins (b := .postgres) rfl hr hc.allRevisioned hc.allHandled
    ⟨f, hf, by rw [hq]; decide⟩⟩

/-- On SQLite a handler that has read no version is overtaken by a newer command,
and then shows its own. -/
theorem sqlite_shows_old_revision : ∃ cfg : Handlers String,
    Reaches (handlers .sqlite) AnyStep ⟨.empty, []⟩ cfg ∧ AllRevisioned userKey cfg ∧
      AllHandled userKey cfg ∧ (∃ f ∈ cfg.flights, f.request.Mentions userKey) ∧
      ¬ShowsLatest userKey cfg := by
  have hplay : ((workers .sqlite).play (fun _ _ => true) ⟨.empty, []⟩
      ([.arrive (upsertUser "old" 1), .call 0 (), .call 0 (), .arrive (upsertUser "new" 2)] ++
        List.replicate 5 (.call 1 ()) ++ List.replicate 3 (.call 0 ()) ++
        [.arrive (upsertUser "old" 1)] ++ List.replicate 3 (.call 2 ()))).any
        (fun cfg => decide (Settled "old" cfg)) = true := by decide +kernel
  obtain ⟨cfg, hr, hc⟩ := Machine.exists_of_play AnyStep (fun _ _ _ => trivial) hplay
  have hc := of_decide_eq_true hc
  obtain ⟨f, hf, hq⟩ := hc.2.1
  refine ⟨cfg, hr, hc.allRevisioned, hc.allHandled, ⟨f, hf, by rw [hq]; decide⟩, ?_⟩
  rintro ⟨g, hg, revision, ht, hmax, hindex⟩
  have hle := hmax f hf 2 (by rw [hq]; rfl)
  rw [hc.2.2] at hindex
  rcases (hc.1 g hg).1 with hgq | hgq
  · rw [hgq] at ht
    obtain ⟨-, rfl⟩ := Prod.mk.inj (Option.some.inj ht)
    omega
  · rw [hgq] at hindex
    exact absurd hindex (by decide)

end Search
end Hegira
