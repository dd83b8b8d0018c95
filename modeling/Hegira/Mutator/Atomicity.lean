/-
# A publication is all or nothing

What one call of `publish_change_plan` makes of the application, with nobody else
at work and any operating system call free to fail.  A plan that is reported as
published is published; any other error than the two that ask for recovery leaves
every file as it was, without a trace of the transaction.

There is one exception, and it is exact (`publish_atomic_iff`).  Once the changes
are published and their backups gone, `publish_with` passes an error of
`sync_unique_parents` on as it is, where the two steps that follow turn theirs
into `RecoveryRequired`.  The caller then reads `PublicationFailed` or
`UnsafeRoot` off a plan that is in place, with the marker still there.  And an
edit keeps the nine permission bits of a file, not the three above them.
-/

import Mathlib.Data.List.Nodup
import Hegira.Mutator.PlanSemantics
import Hegira.Mutator.Phases
import Hegira.Mutator.Machine

namespace Hegira
namespace Mutator

open Program

set_option linter.unusedSectionVars false

variable {D : Type} [ContentDigest D] [DecidableEq D] {slash : Identity}

/-! ### Opening the root -/

/-- The components that name a directory. -/
def Component.isNormal : Component → Bool
  | .normal _ => true
  | _ => false

/-- The directory a checked root path leads to. -/
def applicationDirectory (slash : Identity) (process : Process) (path : Option String)
    (tree : Tree) : Option Identity :=
  match checkedRoot process path with
  | .ok absolute =>
      if .parentDir ∈ absolute then none
      else resolve tree slash (absolute.filter Component.isNormal)
  | .error _ => none

section Root

variable {actor : Actor} {ev : Event PublisherCall PublisherCall.Reply Tree → Prop} {tree : Tree}

/-- Opening a path sees the directory it resolves to. -/
theorem meets_openComponents (hev : Passive ev) {fd : Identity} {path : List Component}
    (hp : .normal "." ∉ path) :
    Meets (environment slash actor) ev
      (Saw tree fun d => .parentDir ∉ path ∧
        resolve tree fd (path.filter Component.isNormal) = some d)
      (openComponents fd path).run tree := by
  induction path generalizing fd with
  | nil => exact saw_ok.2 ⟨rfl, by simp, rfl⟩
  | cons component rest ih =>
      have hrest : .normal "." ∉ rest := fun h => hp (List.mem_cons_of_mem _ h)
      cases component with
      | rootDir | curDir =>
          refine (ih hrest).imp fun r tree' h => ⟨h.1, fun d hr => ?_⟩
          rw [List.filter_cons_of_neg (by simp [Component.isNormal])]
          simpa using h.2 d hr
      | parentDir => exact saw_error.2 rfl
      | normal name =>
          refine meets_saw_adapt_bind (meets_saw_read hev rfl fun _ => FsStep.openDirectory_ok)
            (fun _ => saw_error.2 rfl) fun d hd => ?_
          have hn : name ≠ "." := fun h => hp (by simp [h])
          rw [if_neg hn] at hd
          rw [List.filter_cons_of_pos rfl]
          simpa [resolve, hd] using @ih d hrest

/-- No component of an absolute path is a dot. -/
theorem normal_dot_not_mem_absolutePath {process : Process} {text : String}
    {absolute : List Component} (h : absolutePath process text = .ok absolute) :
    .normal "." ∉ absolute := by
  unfold absolutePath at h
  split at h
  · cases h
    exact fun h => normal_mem_components h rfl
  split at h
  · cases h
    exact fun h => normal_mem_components h rfl
  · cases h

theorem normal_dot_not_mem_checkedRoot {process : Process} {path : Option String}
    {absolute : List Component} (h : checkedRoot process path = .ok absolute) :
    .normal "." ∉ absolute := by
  rcases path with _ | text
  · cases h
  simp only [checkedRoot, Bind.bind, Except.bind, throw, throwThe, MonadExceptOf.throw] at h
  split at h
  · cases h
  split at h
  · cases h
  rcases ha : absolutePath process text with e | path
  · rw [ha] at h
    cases h
  · rw [ha] at h
    dsimp only at h
    split at h
    · cases h
      exact normal_dot_not_mem_absolutePath ha
    · cases h

/-- Opening the root sees the application's directory. -/
theorem meets_open (hev : Passive ev) {process : Process} {path : Option String} :
    Meets (environment slash actor) ev
      (Saw tree fun root => applicationDirectory slash process path tree = some root.fd)
      (Root.open process path).run tree := by
  unfold Root.open applicationDirectory
  rcases hc : checkedRoot process path with e | absolute
  · exact saw_error.2 rfl
  refine meets_saw_bind (meets_liftExcept.2 (saw_ok.2 ⟨rfl, rfl⟩)) (fun _ => saw_error.2 rfl) ?_
  rintro _ rfl
  refine meets_saw_bind (?_ : Meets _ _ (Saw tree fun d => .parentDir ∉ absolute ∧
    resolve tree slash (absolute.filter Component.isNormal) = some d) _ _)
    (fun _ => saw_error.2 rfl) ?_
  · refine meets_saw_adapt_bind (meets_saw_read hev rfl fun _ => FsStep.openSlash_ok)
      (fun _ => saw_error.2 rfl) ?_
    rintro _ rfl
    exact meets_openComponents hev (normal_dot_not_mem_checkedRoot hc)
  · rintro fd ⟨hnot, hfd⟩
    refine meets_saw_bind (looks hev (only_directoryIdentity (anySite _)))
      (fun _ => saw_error.2 rfl) fun _ _ => ?_
    exact saw_ok.2 ⟨rfl, by simpa [hnot] using hfd⟩

/-- **The marker is there, or nothing is**, unless recovery is required. -/
theorem meets_createMarker {root : Root} {plan : ChangePlan D} {transaction : String} :
    Meets (environment slash noActor) (Guarded root.marker (· = tree))
      (DidOrStuck tree fun _ tree' => tree root.marker = none ∧
        ∃ f, tree' = Function.update tree root.marker (some (.file f)))
      (createMarker root plan transaction).run tree := by
  refine meets_fallible_bind.2 (meets_adapt.2 (meets_sys (fun e _ => ⟨Or.inr rfl, ?_⟩)
    fun _ created he => ?_))
  · exact Or.inr rfl
  obtain ⟨hfree, identity, -, rfl⟩ := FsStep.createFile_ok he
  have hmarker : ∀ node, Function.update tree root.marker (some node) root.marker ≠ none := by simp
  refine ⟨Or.inl (hmarker _), meets_fallible_bind.2 (meets_adapt.2 ((meets_still only_fileIdentity
    (Or.inl (hmarker _))).imp ?_))⟩
  rintro (e | found) tree₁ rfl
  · exact Or.inl rfl
  refine meets_fallible_bind.2 (meets_adapt.2 (meets_sys (fun e _ => ⟨Or.inl (hmarker _), ?_⟩)
    fun _ written he => ?_))
  · exact Or.inl rfl
  obtain ⟨f, -, rfl⟩ := FsStep.writeAll_ok he
  rw [Function.update_idem]
  refine ⟨Or.inl (hmarker _), ?_⟩
  refine meets_fallible_bind.2 (meets_adapt.2 ((meets_still (only_read rfl rfl)
    (Or.inl (hmarker _))).imp ?_))
  rintro (e | _) tree₂ rfl
  · exact Or.inl rfl
  refine meets_fallible_bind.2 (meets_adapt.2 ((meets_still (only_syncDirectory (anySite _))
    (Or.inl (hmarker _))).imp ?_))
  rintro (e | _) tree₃ rfl
  · exact Or.inl rfl
  · exact ⟨hfree, _, rfl⟩

end Root

/-! ### The outcome -/

/-- The entry a change leaves: the planned bytes, under the mode of the file that
was there, or nothing. -/
def HasResult (c : PlannedFileChange D) (before after : Option Node) : Prop :=
  match c.resultingContent with
  | none => after = none
  | some content => ∃ f, after = some (.file f) ∧ f.bytes = content ∧
      ∀ old, before = some (.file old) → f.mode = old.mode

/-- The entries a change finds and leaves. -/
def Took (c : PlannedFileChange D) (before after : Option Node) : Prop :=
  match c with
  | .create change => before = none ∧ ∃ f, after = some (.file f) ∧
      f.bytes = change.content ∧ f.mode = regularMode createdMode
  | .edit change => ∃ old f, before = some (.file old) ∧ after = some (.file f) ∧
      f.bytes = change.content ∧ f.mode = regularMode (old.mode &&& 0o777)
  | .retire _ => after = none

/-- Each change has its `result`, and nothing else has changed. -/
structure InPlace (result : PlannedFileChange D → Option Node → Option Node → Prop)
    (plan : ChangePlan D) (root : Identity) (tree tree' : Tree) : Prop where
  results : ∀ c ∈ plan.changes, ∃ l, locate tree root c.path = some l ∧ result c (tree l) (tree' l)
  elsewhere : ∀ l, (∀ c ∈ plan.changes, locate tree root c.path ≠ some l) → tree' l = tree l

/-- There is no staged, backup or probe file of the transaction. -/
def NoPrivateFile (process : Process) (tree : Tree) : Prop :=
  ∀ transaction, transactionId process = .ok transaction →
    ∀ l, Reserved transaction l.name → tree l = none

/-- No file of the transaction is left. -/
def NoTransactionFile (process : Process) (root : Identity) (tree : Tree) : Prop :=
  tree ⟨root, mutationMarker⟩ = none ∧ NoPrivateFile process tree

/-- All or nothing: a reported success has published the plan, an error that does
not ask for recovery has left every file as it was. -/
def Atomic (slash : Identity) (process : Process) (path : Option String) (plan : ChangePlan D)
    (tree : Tree) (r : Except MutationError MutationReceipt) (tree' : Tree) : Prop :=
  match r with
  | .ok _ => ∃ root, applicationDirectory slash process path tree = some root ∧
      InPlace HasResult plan root tree tree' ∧ NoTransactionFile process root tree'
  | .error e => e.kind ≠ .recoveryRequired → e.kind ≠ .rollbackIncomplete → tree' = tree

/-- Every file the plan edits has no permission bits but the nine of `rwxrwxrwx`. -/
def PlainModes (plan : ChangePlan D) (root : Identity) (tree : Tree) : Prop :=
  ∀ c ∈ plan.changes, c.operation = .edit → ∀ l old, locate tree root c.path = some l →
    tree l = some (.file old) → regularMode (old.mode &&& 0o777) = old.mode

/-- A call of the commit's `sync_unique_parents` fails. -/
def CommitFailure : Event PublisherCall PublisherCall.Reply Tree → Prop
  | ⟨_, .fs c, .error _, _⟩ => c.site = some .commit
  | _ => False

/-- The last call of `publish_with` works. -/
def Completes : Event PublisherCall PublisherCall.Reply Tree → Prop
  | ⟨_, .fs (.syncDirectory .completion _), .ok _, _⟩ => True
  | _ => False

/-- The calls before the commit. -/
def BeforeCommit (site : Site) : Prop := site ≠ .commit ∧ site ≠ .completion

/-- Such a call is no part of the commit. -/
def Early (e : Event PublisherCall PublisherCall.Reply Tree) : Prop :=
  ¬CommitFailure e ∧ ¬Completes e

/-- Calls before the commit are early. -/
theorem early_of_only {α : Type} {S : Location → Prop} {actor : Actor} {tree : Tree}
    {p : Program PublisherCall PublisherCall.Reply α}
    (hp : p.Only (AllowedOrHook S BeforeCommit)) :
    Meets (environment slash actor) Early (fun _ _ => True) p tree := by
  refine hp.meets (fun s c r s' hc _ => ?_) tree
  cases c with
  | hook point => exact ⟨nofun, nofun⟩
  | fs c =>
      refine ⟨fun h => ?_, fun h => ?_⟩
      · rcases r with e | v
        · exact (hc.2 _ h).1 rfl
        · exact h
      · cases c <;> try exact h
        case syncDirectory site directory _ =>
          cases site <;> try exact h
          exact (hc.2 .completion rfl).2 rfl

/-- A part before the commit, under its contract. -/
theorem meets_early {α : Type} {S : Location → Prop} {actor : Actor} {tree : Tree}
    {p : Program PublisherCall PublisherCall.Reply α} {post : α → Tree → Prop}
    {ev : Event PublisherCall PublisherCall.Reply Tree → Prop}
    (h : Meets (environment slash actor) ev post p tree)
    (hp : p.Only (AllowedOrHook S BeforeCommit)) :
    Meets (environment slash actor) Early post p tree :=
  ((early_of_only hp).and h).mono (fun _ h => h.1) fun _ _ h => h.2

/-! ### The commit -/

/-- A part of the commit's `sync_unique_parents`, with its events: it only looks, and
fails with the error of the call that failed. -/
structure Reports {α : Type} (tree : Tree) (t : List (Event PublisherCall PublisherCall.Reply Tree))
    (r : Except MutationError α) (tree' : Tree) : Prop where
  tree : tree' = tree
  pending : ∀ e ∈ t, ¬Completes e
  success : ∀ a, r = .ok a → ∀ e ∈ t, ¬CommitFailure e
  failure : ∀ error, r = .error error → (error.kind = .publicationFailed ∨
    error.kind = .unsafeRoot) ∧ ∃ e ∈ t, CommitFailure e

section Reports

variable {actor : Actor} {tree : Tree} {α β : Type}

/-- A value is a part with nothing to report. -/
theorem ends_reports_pure {a : α} :
    Ends (environment slash actor) (Reports tree) (pure a : Publishing α).run tree :=
  ends_done ⟨rfl, by simp, by simp, nofun⟩

/-- A call that only looks reports its own failure. -/
theorem ends_reports_call {c : FsCall} {error : MutationError} (hw : c.writes = [])
    (hs : c.site = some .commit)
    (hk : error.kind = .publicationFailed ∨ error.kind = .unsafeRoot) :
    Ends (environment slash actor) (Reports tree) (orFail (sys c) error).run tree := by
  have hpending : ∀ r tree', ¬Completes ⟨tree, .fs c, r, tree'⟩ := by
    rintro r tree' h
    cases c <;> try exact h
    case syncDirectory site directory =>
      cases hs
      exact h
  refine ends_call.2 fun r tree' he => ends_done ?_
  rcases r with e | v
  · exact ⟨FsStep.eq_of_error he, by simp [hpending], nofun, fun _ h => by
      cases h
      exact ⟨hk, _, List.mem_singleton_self _, hs⟩⟩
  · exact ⟨FsStep.eq_of_writes_nil he hw, by simp [hpending], fun _ _ => by simp [CommitFailure],
      nofun⟩

/-- A sequence reports the first failure. -/
theorem Reports.bind {p : Publishing β} {f : β → Publishing α}
    (hp : Ends (environment slash actor) (Reports tree) p.run tree)
    (hf : ∀ b, Ends (environment slash actor) (Reports tree) (f b).run tree) :
    Ends (environment slash actor) (Reports tree) (p >>= f : Publishing α).run tree := by
  refine hp.fallible_bind (fun t e tree' h => ?_) fun t b tree' h => ?_
  · exact ⟨h.tree, h.pending, nofun, fun _ he => h.failure _ (by cases he; rfl)⟩
  obtain rfl := h.tree
  refine (hf b).imp fun t' r tree'' h' => ⟨h'.tree, ?_, fun a ha => ?_, fun error he => ?_⟩
  · exact List.forall_mem_append.2 ⟨h.pending, h'.pending⟩
  · exact List.forall_mem_append.2 ⟨h.success b rfl, h'.success a ha⟩
  · obtain ⟨hk, e, hm, hc⟩ := h'.failure error he
    exact ⟨hk, e, List.mem_append_right _ hm, hc⟩

/-- So does the synchronisation of the directories. -/
theorem ends_syncParents {seen : List Identity} {prepared : List (PreparedChange D)} :
    Ends (environment slash actor) (Reports tree) (syncParents .commit seen prepared).run tree := by
  induction prepared generalizing seen with
  | nil => exact ends_reports_pure
  | cons p rest ih =>
      refine Reports.bind (ends_reports_call (rfl : (FsCall.statDirectory .commit p.parent).writes = _)
        rfl (Or.inr rfl)) fun identity => ?_
      split
      · exact ih
      · refine Reports.bind ?_ fun _ => ih
        exact Reports.bind
          (ends_reports_call (rfl : (FsCall.duplicate .commit p.parent).writes = _) rfl (Or.inl rfl))
          fun _ => ends_reports_call (rfl : (FsCall.syncDirectory .commit p.parent).writes = _) rfl
            (Or.inl rfl)

/-- The last call completes the publication exactly where it works. -/
theorem ends_syncCompletion {fd : Identity} :
    Ends (environment slash actor)
      (fun t r tree' => tree' = tree ∧ (∀ e ∈ t, ¬CommitFailure e) ∧
        (r = .ok () ↔ ∃ e ∈ t, Completes e))
      (syncDirectory .completion fd).run tree := by
  refine ends_call.2 fun r tree₁ he => ?_
  rcases r with e | _
  · obtain rfl := FsStep.eq_of_error he
    exact ends_done ⟨rfl, by simp [CommitFailure, FsCall.site], by simp [Completes]⟩
  obtain rfl := FsStep.eq_of_writes_nil he rfl
  refine ends_call.2 fun r tree₂ he => ends_done ?_
  rcases r with e | _
  · obtain rfl := FsStep.eq_of_error he
    exact ⟨rfl, by simp [CommitFailure, FsCall.site], by simp [Completes, Except.mapError]⟩
  · obtain rfl := FsStep.eq_of_writes_nil he rfl
    refine ⟨rfl, by simp [CommitFailure, FsCall.site], ?_⟩
    simp only [Completes, List.mem_cons, List.not_mem_nil]
    simp [Except.mapError]

end Reports

/-- How a publication may end, with the tree `before` it and what `done` says of
the tree of a finished one. -/
inductive Outcome (before : Tree) (done : Tree → Prop)
    (t : List (Event PublisherCall PublisherCall.Reply Tree)) :
    Except MutationError MutationReceipt → Tree → Prop
  | published {receipt : MutationReceipt} {tree' : Tree} (hc : ∃ e ∈ t, Completes e)
      (hf : ∀ e ∈ t, ¬CommitFailure e) (h : done tree') : Outcome before done t (.ok receipt) tree'
  | untouched {error : MutationError} (h : ∀ e ∈ t, Early e) :
      Outcome before done t (.error error) before
  | recovery {error : MutationError} {tree' : Tree} (h : ∀ e ∈ t, Early e)
      (hk : error.kind = .recoveryRequired ∨ error.kind = .rollbackIncomplete) :
      Outcome before done t (.error error) tree'
  | unreported {error : MutationError} {tree' : Tree} (hf : ∃ e ∈ t, CommitFailure e)
      (hk : error.kind = .publicationFailed ∨ error.kind = .unsafeRoot) (h : tree' ≠ before) :
      Outcome before done t (.error error) tree'

/-- What came before the commit does not matter to how it ends. -/
theorem Outcome.append {before : Tree} {done : Tree → Prop}
    {t t' : List (Event PublisherCall PublisherCall.Reply Tree)}
    {r : Except MutationError MutationReceipt} {tree' : Tree} (ht : ∀ e ∈ t, Early e)
    (h : Outcome before done t' r tree') : Outcome before done (t ++ t') r tree' := by
  cases h with
  | published hc hf h =>
      obtain ⟨e, hm, hc⟩ := hc
      refine .published ⟨e, List.mem_append_right _ hm, hc⟩ ?_ h
      exact List.forall_mem_append.2 ⟨fun e he => (ht e he).1, hf⟩
  | untouched h => exact .untouched (List.forall_mem_append.2 ⟨ht, h⟩)
  | recovery h hk => exact .recovery (List.forall_mem_append.2 ⟨ht, h⟩) hk
  | unreported hf hk h =>
      obtain ⟨e, hm, hf⟩ := hf
      exact .unreported ⟨e, List.mem_append_right _ hm, hf⟩ hk h

/-- The tree of a finished publication. -/
def Finished (T : Tree) (root : Identity) (transaction : String) (plan : ChangePlan D)
    (tree' : Tree) : Prop :=
  ∃ prepared tree₁, (∀ c ∈ plan.changes, ∃ p ∈ prepared, ∃ k,
      Prepares T root transaction k c p) ∧
    Committed T root transaction plan prepared tree₁ ∧
    tree' = Function.update tree₁ ⟨root, mutationMarker⟩ none

section Commit

variable {T tree : Tree} {root : Root} {transaction : String} {plan : ChangePlan D}
  {prepared prepared' : List (PreparedChange D)}

/-- The marker is still there when the backups are gone. -/
theorem Committed.marker {root : Identity} {tree₁ : Tree}
    (hs : Setting T root transaction plan)
    (hslot : ∀ p ∈ prepared, Slot T root transaction 0 plan.changes p)
    (h : Committed T root transaction plan prepared tree₁) :
    tree₁ ⟨root, mutationMarker⟩ = T ⟨root, mutationMarker⟩ := by
  refine h.frame _ ?_
  rintro ⟨p, hp, he | he⟩
  · exact hs.target_ne_marker (hslot p hp) he.symm
  · exact Setting.temp_ne_marker (hslot p hp) he.symm

/-- The step ends as told, or fails as told. -/
def EndsIn (ok : Prop) (failed : MutationError → Prop) (r : Except MutationError Unit) : Prop :=
  match r with
  | .ok _ => ok
  | .error e => failed e

/-- What a commit may end in. -/
theorem ends_commit {before : Tree} {marker : Marker} (hs : Setting T root.fd transaction plan)
    (hm : T root.marker ≠ none) (hb : before root.marker = none)
    (hslot : ∀ p ∈ prepared, Slot T root.fd transaction 0 plan.changes p)
    (hall : ∀ c ∈ plan.changes, ∃ p ∈ prepared, ∃ k, Prepares T root.fd transaction k c p)
    (hc : ∀ tree', (∀ l, tree' l = tree l ∨ tree' l = none ∧ Temps prepared l) →
      (∀ p ∈ prepared, p.operation ≠ .create → tree' p.temp = none) →
      Committed T root.fd transaction plan prepared tree') :
    Ends (environment slash noActor)
      (Outcome before (Finished T root.fd transaction plan))
      (commit root marker prepared).run tree := by
  refine (meets_early (S := fun _ => True) meets_removeBackups (only_orHook
    (only_removeBackups fun p _ => trivial))).ends_fallible_bind
    (fun _ _ _ _ ht => Outcome.append ht) (fun e tree' he => .recovery (by simp) (Or.inl he)) ?_
  rintro _ tree₁ ⟨hl, hgone⟩
  have hcommitted := hc tree₁ hl hgone
  have hmarker : tree₁ root.marker ≠ none := by
    rw [show root.marker = ⟨root.fd, mutationMarker⟩ from rfl, hcommitted.marker hs hslot]
    exact hm
  refine ends_syncParents.fallible_bind (fun t e tree' h => ?_) fun t _ tree₂ h => ?_
  · obtain rfl := h.tree
    obtain ⟨hk, hf⟩ := h.failure e rfl
    exact .unreported hf hk fun he => hmarker (he ▸ hb)
  obtain rfl := h.tree
  have ht : ∀ e ∈ t, Early e := fun e he => ⟨h.success _ rfl e he, h.pending e he⟩
  refine Ends.imp (?_ : Ends _ (Outcome before (Finished T root.fd transaction plan)) _ _)
    fun t' r tree' => Outcome.append ht
  -- From here on every error asks for recovery.
  refine (meets_early (S := fun _ => True) (meets_adapt.2 (meets_removeMarker.imp ?_))
    (only_orHook (only_removeMarker trivial).adapt)).ends_fallible_bind
    (Q := fun r tree' => EndsIn (tree' = Function.update tree₂ root.marker none)
      (fun e => e.kind = .recoveryRequired) r)
    (fun _ _ _ _ ht => Outcome.append ht) (fun e tree' he => .recovery (by simp) (Or.inl he)) ?_
  · rintro (e | _) tree' h
    · exact rfl
    · exact h
  rintro _ tree₃ rfl
  refine Ends.fallible_bind (Ends.adapt (ends_syncCompletion.imp ?_)) (Q := fun t r tree' =>
    tree' = Function.update tree₂ root.marker none ∧ (∀ e ∈ t, ¬CommitFailure e) ∧
      EndsIn (∃ e ∈ t, Completes e)
        (fun e => e.kind = .recoveryRequired ∧ ∀ e ∈ t, ¬Completes e) r) ?_ ?_
  · rintro t (e | _) tree' ⟨rfl, hf, hc⟩
    · exact ⟨rfl, hf, rfl, by simpa using hc⟩
    · exact ⟨rfl, hf, hc.1 rfl⟩
  · rintro t e tree' ⟨-, hf, hk, hc⟩
    exact .recovery (fun e he => ⟨hf e he, hc e he⟩) (Or.inl hk)
  · rintro t _ tree' ⟨rfl, hf, hc⟩
    refine ends_done (.published (by simpa [EndsIn] using hc) (by simpa using hf) ?_)
    exact ⟨prepared, _, hall, hcommitted, rfl⟩

/-- A finished attempt has published all its changes. -/
theorem Attempted.publishes {T tree tree' : Tree} {root : Identity}
    (h : Attempted T root transaction plan prepared tree (prepared', .ok ()) tree') :
    Publishes T root transaction plan prepared tree prepared' (.ok ()) tree' := by
  obtain ⟨-, ⟨_, he, -⟩ | hp⟩ := h
  · cases he
  · exact hp

/-- No change of the plan gets lost on the way. -/
theorem Publishes.all {T tree tree' : Tree} {root : Identity} {c : PlannedFileChange D}
    {result : Except MutationError Unit}
    (h : Publishes T root transaction plan prepared tree prepared' result tree')
    (hc : ∃ p ∈ prepared, ∃ k, Prepares T root transaction k c p) :
    ∃ p ∈ prepared', ∃ k, Prepares T root transaction k c p := by
  obtain ⟨p, hp, k, hk⟩ := hc
  obtain ⟨p', hp', rfl⟩ := List.mem_map.1 (h.same ▸ hp)
  exact ⟨p', hp', k, { hk with }⟩

/-- A publication that is taken back ends with the old sources or asks for recovery. -/
theorem TakenBack.outcome {marker : Location} {error : MutationError} {done : Tree → Prop}
    {t : List (Event PublisherCall PublisherCall.Reply Tree)}
    {r : Except MutationError MutationReceipt} {tree' : Tree} (ht : ∀ e ∈ t, Early e)
    (h : TakenBack T marker error r tree') :
    Outcome (Function.update T marker none) done t r tree' := by
  obtain ⟨e, rfl, hk | hk | ⟨-, rfl⟩⟩ := h
  · exact .recovery ht (Or.inl hk)
  · exact .recovery ht (Or.inr hk)
  · exact .untouched ht

/-- What a publication under its marker may end in. -/
theorem ends_publishMarked {marker : Marker} (hs : Setting T root.fd transaction plan)
    (hm : T root.marker ≠ none) :
    Ends (environment slash noActor)
      (Outcome (Function.update T root.marker none) (Finished T root.fd transaction plan))
      (publishMarked root marker plan transaction).run T := by
  have hsite : BeforeCommit .preparation ∧ BeforeCommit .publication ∧ BeforeCommit .rollback := by
    simp [BeforeCommit]
  refine Meets.ends_fallible_bind (Q := fun r tree' => match r with
      | .ok r => Prepared T root.fd transaction plan 0 plan.changes T r.1 r.2 tree' ∧
          tree' root.marker ≠ none
      | .error _ => False)
    (meets_lift.2 (meets_early (S := fun _ => True) (meets_prepareChanges_guarded
      (fun _ => True) hs hm)
      (only_orHook (only_prepareChanges (fun _ _ => trivial) hsite.1))))
    (fun _ _ _ _ ht => Outcome.append ht) (fun _ _ => False.elim) ?_
  rintro ⟨prepared, e | _⟩ tree₁ ⟨h, hm₁⟩
  · exact (meets_early (S := fun _ => True) (meets_cleanupBeforePublication
      (fun _ => True) (fun hk => h.frame fun _ he => by cases he; exact hk) hs h.slots hm₁ trivial)
      (only_orHook (only_cleanupBeforePublication (fun _ _ => trivial) (fun _ => trivial)
        hsite.2.2))).ends fun t r tree' ht => TakenBack.outcome ht
  have hready := h.ready rfl
  have hframe := h.frame nofun
  refine Meets.ends_fallible_bind (Q := fun r tree' => match r with
      | .ok r => Attempted T root.fd transaction plan prepared tree₁ r tree' ∧
          tree' root.marker ≠ none
      | .error _ => False)
    (meets_lift.2 (meets_early (S := fun _ => True)
      (meets_publishPrepared_guarded (fun _ => True) hs hready h.apart hm₁)
      (only_publishPrepared (fun _ _ => ⟨trivial, trivial⟩) (fun _ _ _ => trivial) hsite.2.1
        hsite.1)))
    (fun _ _ _ _ ht => Outcome.append ht) (fun _ _ => False.elim) ?_
  rintro ⟨prepared', e | _⟩ tree₂ ⟨h', hm₂⟩
  · exact (meets_early (S := fun _ => True) (meets_rollbackOrReport (fun _ => True) hs hready
      h.apart hframe h' hm₂ trivial) (only_orHook (only_rollbackOrReport (fun _ _ => trivial) (fun _ _ => trivial)
        (fun _ => trivial) hsite.2.2))).ends fun t r tree' ht => TakenBack.outcome ht
  · have hp := h'.publishes
    refine ends_commit hs hm (Function.update_self _ _ _) (fun p hp' => ?_) (fun c hc => ?_)
      fun tree' => hp.committed hs hready hframe
    · exact (hready _ (hp.same ▸ List.mem_map_of_mem hp')).slot.unpublished
    · exact hp.all (h.all rfl c hc)

end Commit

/-! ### The whole publication -/

section Publication

variable {tree T : Tree} {root : Identity} {transaction : String} {plan : ChangePlan D}

/-- The setting once the marker is created. -/
theorem Setting.of_marked {f : RegularFile} (hw : tree.WellFormed) (hv : plan.validate = .ok ())
    (hu : Unused transaction plan tree) (hm : tree ⟨root, mutationMarker⟩ = none)
    (hn : ∀ c ∈ plan.changes, c.path.text ≠ mutationMarker) :
    SameDirectories tree (Function.update tree ⟨root, mutationMarker⟩ (some (.file f))) ∧
      Setting (Function.update tree ⟨root, mutationMarker⟩ (some (.file f))) root transaction
        plan := by
  have hd : SameDirectories tree (Function.update tree ⟨root, mutationMarker⟩ (some (.file f))) :=
    sameDirectories_update (by simp [hm]) (by simp)
  refine ⟨hd, hw.congr hd, fun l hl => ?_, hu.plan, ?_, hn⟩
  · rw [Function.update_of_ne fun h => hl.ne_marker (congrArg Location.name h)]
    exact hu.tree l hl
  · exact (ChangePlan.pairwise_path_ne hv).imp fun h he => h he

/-- A prepared change takes the place of the original. -/
theorem Prepares.took {index : Nat} {c : PlannedFileChange D} {p : PreparedChange D}
    (h : Prepares T root transaction index c p) : Took c (T p.target) (finalNode c p) := by
  have ho := h.original
  cases c with
  | create change =>
      obtain ⟨hp, hT⟩ : p.original = none ∧ T p.target = none := ho
      simp [Took, finalNode, PlannedFileChange.resultingContent, hT, hp]
  | edit change =>
      obtain ⟨f, hT, hp, -⟩ := ho
      simp [Took, finalNode, PlannedFileChange.resultingContent, hT, hp, observe]
  | retire change => rfl

/-- A change that took has the planned result, but for the permission bits an edit
drops. -/
theorem Took.hasResult_iff {c : PlannedFileChange D} {before after : Option Node}
    (h : Took c before after) : HasResult c before after ↔ (c.operation = .edit → ∀ old,
      before = some (.file old) → regularMode (old.mode &&& 0o777) = old.mode) := by
  cases c with
  | create change =>
      obtain ⟨rfl, f, rfl, hb, -⟩ := h
      simp [HasResult, PlannedFileChange.resultingContent, PlannedFileChange.operation, hb]
  | edit change =>
      obtain ⟨old, f, rfl, rfl, hb, hm⟩ := h
      simp [HasResult, PlannedFileChange.resultingContent, PlannedFileChange.operation, hb, hm]
  | retire change =>
      obtain rfl : after = none := h
      simp [HasResult, PlannedFileChange.resultingContent, PlannedFileChange.operation]

/-- **A finished publication has published the plan.** -/
theorem Finished.inPlace {f : RegularFile} {tree' : Tree}
    (hT : T = Function.update tree ⟨root, mutationMarker⟩ (some (.file f)))
    (hm : tree ⟨root, mutationMarker⟩ = none) (hd : SameDirectories tree T)
    (hs : Setting T root transaction plan) (h : Finished T root transaction plan tree') :
    InPlace Took plan root tree tree' := by
  obtain ⟨prepared, tree₁, hall, hc, rfl⟩ := h
  have hslot : ∀ p ∈ prepared, Slot T root transaction 0 plan.changes p := fun p hp => by
    obtain ⟨index, c, hcm, hprep, -⟩ := hc.result p hp
    exact ⟨index, Nat.zero_le _, c, hcm, hprep⟩
  -- Off the marker the three trees are read alike.
  have hbefore : ∀ l, l ≠ ⟨root, mutationMarker⟩ → T l = tree l := fun l hl => by
    rw [hT, Function.update_of_ne hl]
  refine ⟨fun c hcm => ?_, fun l hl => ?_⟩
  · obtain ⟨p, hp, k, hprep⟩ := hall c hcm
    obtain ⟨k', c', hcm', hprep', hfinal⟩ := hc.result p hp
    obtain rfl : c' = c := List.inj_on_of_nodup_map (List.pairwise_map.2 hs.paths) hcm' hcm
      (hprep'.path.symm.trans hprep.path)
    have hne := hs.target_ne_marker (hslot p hp)
    refine ⟨p.target, locate_congr hd root c'.path ▸ hprep.target, ?_⟩
    rw [Function.update_of_ne hne, hfinal, ← hbefore _ hne]
    exact hprep.took
  · by_cases hlm : l = ⟨root, mutationMarker⟩
    · rw [hlm, Function.update_self, hm]
    rw [Function.update_of_ne hlm, ← hbefore l hlm]
    by_cases htemp : Temps prepared l
    · obtain ⟨p, hp, rfl⟩ := htemp
      rw [hc.temp p hp, hs.temp_free (hslot p hp)]
    · refine hc.frame l ?_
      rintro ⟨p, hp, rfl | rfl⟩
      · obtain ⟨k, c, hcm, hprep, -⟩ := hc.result p hp
        exact hl c hcm (locate_congr hd root c.path ▸ hprep.target)
      · exact htemp ⟨p, hp, rfl⟩

/-- A plan that took has its results exactly if no edit has permission bits to drop. -/
theorem InPlace.hasResult_iff {tree' : Tree} (h : InPlace Took plan root tree tree') :
    InPlace HasResult plan root tree tree' ↔ PlainModes plan root tree := by
  constructor
  · intro hr c hcm ho l old hl hold
    obtain ⟨l', hl', hres⟩ := hr.results c hcm
    obtain ⟨l'', hl'', htook⟩ := h.results c hcm
    obtain rfl : l' = l := by simpa [hl'] using hl
    obtain rfl : l'' = l' := by simpa [hl''] using hl'
    exact htook.hasResult_iff.1 hres ho old hold
  · refine fun hp => ⟨fun c hcm => ?_, h.elsewhere⟩
    obtain ⟨l, hl, htook⟩ := h.results c hcm
    exact ⟨l, hl, htook.hasResult_iff.2 fun ho old hold => hp c hcm ho l old hl hold⟩

/-- No file of the transaction is left where its plan is in place. -/
theorem InPlace.noTransactionFile {process : Process} {tree' : Tree}
    {result : PlannedFileChange D → Option Node → Option Node → Prop}
    (h : InPlace result plan root tree tree') (hw : tree.WellFormed)
    (htx : transactionId process = .ok transaction) (hu : Unused transaction plan tree)
    (hm : tree ⟨root, mutationMarker⟩ = none)
    (hn : ∀ c ∈ plan.changes, c.path.text ≠ mutationMarker) :
    NoTransactionFile process root tree' := by
  refine ⟨?_, fun transaction' htx' l hl => ?_⟩
  · rw [h.elsewhere, hm]
    exact fun c hcm hl => hn c hcm (hw.text_of_locate_marker hl)
  · obtain rfl : transaction = transaction' := by simpa [htx] using htx'
    rw [h.elsewhere, hu.tree l hl]
    intro c hcm hl'
    obtain ⟨d, -, rfl⟩ := Option.map_eq_some_iff.1 hl'
    exact hu.plan c hcm hl

/-- What `publish_change_plan` has done when it returns a receipt. -/
def Done (slash : Identity) (process : Process) (path : Option String) (plan : ChangePlan D)
    (tree tree' : Tree) : Prop :=
  ∃ root transaction f, applicationDirectory slash process path tree = some root ∧
    transactionId process = .ok transaction ∧ tree ⟨root, mutationMarker⟩ = none ∧
    (∀ c ∈ plan.changes, c.path.text ≠ mutationMarker) ∧
    Finished (Function.update tree ⟨root, mutationMarker⟩ (some (.file f))) root transaction plan
      tree'

/-- **Every complete run** ends as `Outcome` says. -/
theorem ends_publishWith {process : Process} {path : Option String} (hw : tree.WellFormed)
    (hv : plan.validate = .ok ())
    (hu : ∀ transaction, transactionId process = .ok transaction → Unused transaction plan tree) :
    Ends (environment slash noActor) (Outcome tree (Done slash process path plan tree))
      (publishWith process path plan).run tree := by
  have hsite : BeforeCommit .preparation := by simp [BeforeCommit]
  refine (meets_early (S := fun _ => True) (meets_open passive_true)
    (only_orHook (only_open hsite))).ends_fallible_bind (fun _ _ _ _ ht => Outcome.append ht)
    ?_ ?_
  · rintro e tree' ⟨rfl, -⟩
    exact .untouched (by simp)
  rintro root tree₁ ⟨rfl, hroot⟩
  have hroot := hroot root rfl
  dsimp only
  split
  · exact ends_done (.untouched (by simp))
  next hany =>
  have hn : ∀ c ∈ plan.changes, c.path.text ≠ mutationMarker := by simpa using hany
  rcases htx : transactionId process with e | transaction
  · exact ends_done (.untouched (by simp))
  change Ends _ _ (createMarker root plan transaction >>= fun marker =>
    publishMarked root marker plan transaction).run tree₁
  refine (meets_early (S := fun _ => True) meets_createMarker (only_orHook (only_createMarker
    trivial hsite))).ends_fallible_bind (fun _ _ _ _ ht => Outcome.append ht) ?_ ?_
  · rintro e tree' (hk | rfl)
    · exact .recovery (by simp) (Or.inl hk)
    · exact .untouched (by simp)
  rintro marker T ⟨hm, f, rfl⟩
  have hm : tree₁ ⟨root.fd, mutationMarker⟩ = none := hm
  obtain ⟨-, hs⟩ := Setting.of_marked (f := f) hw hv (hu transaction htx) hm hn
  refine (ends_publishMarked hs (by simp [Root.marker])).imp fun t r tree' h => ?_
  rw [show root.marker = ⟨root.fd, mutationMarker⟩ from rfl, update_created hm] at h
  cases h with
  | published hc hf h => exact .published hc hf ⟨root.fd, transaction, f, hroot, htx, hm, hn, h⟩
  | untouched h => exact .untouched h
  | recovery h hk => exact .recovery h hk
  | unreported hf hk h => exact .unreported hf hk h

/-- **A publication is all or nothing** exactly if no call of the commit's
`sync_unique_parents` fails and, should it complete, the edited files have plain
modes. -/
theorem publish_atomic_iff {process : Process} {path : Option String} {tree' : Tree}
    {t : List (Event PublisherCall PublisherCall.Reply Tree)}
    {r : Except MutationError MutationReceipt} (hw : tree.WellFormed)
    (hv : plan.validate = .ok ()) (hne : plan.isEmpty = false)
    (hu : ∀ transaction, transactionId process = .ok transaction → Unused transaction plan tree)
    (hr : Runs (environment slash noActor) (publishChangePlan process path plan).run tree t
      (.done r) tree') :
    Atomic slash process path plan tree r tree' ↔ (∀ e ∈ t, ¬CommitFailure e) ∧
      ((∃ e ∈ t, Completes e) → ∀ root, applicationDirectory slash process path tree = some root →
        PlainModes plan root tree) := by
  have hrun : (publishChangePlan process path plan).run = (publishWith process path plan).run := by
    simp [publishChangePlan, hv, hne]
  rw [hrun] at hr
  cases ends_publishWith hw hv hu t r tree' hr with
  | published hc hf h =>
      obtain ⟨root, transaction, f, hroot, htx, hm, hn, hfin⟩ := h
      obtain ⟨hd, hs⟩ := Setting.of_marked (f := f) hw hv (hu transaction htx) hm hn
      have hplace := hfin.inPlace rfl hm hd hs
      constructor
      · rintro ⟨root', hroot', hpub, -⟩
        obtain rfl : root = root' := by simpa [hroot] using hroot'
        refine ⟨hf, fun _ root' hroot' => ?_⟩
        obtain rfl : root = root' := by simpa [hroot] using hroot'
        exact hplace.hasResult_iff.1 hpub
      · rintro ⟨-, hplain⟩
        have hpub := hplace.hasResult_iff.2 (hplain hc root hroot)
        exact ⟨root, hroot, hpub, hpub.noTransactionFile hw htx (hu transaction htx) hm hn⟩
  | untouched h =>
      exact ⟨fun _ => ⟨fun e he => (h e he).1, fun ⟨e, he, hc⟩ => absurd hc (h e he).2⟩,
        fun _ _ _ => rfl⟩
  | recovery h hk =>
      refine ⟨fun _ => ⟨fun e he => (h e he).1, fun ⟨e, he, hc⟩ => absurd hc (h e he).2⟩,
        fun _ h₁ h₂ => ?_⟩
      rcases hk with hk | hk
      · exact absurd hk h₁
      · exact absurd hk h₂
  | unreported hf hk h =>
      constructor
      · intro ha
        refine absurd (ha ?_ ?_) h <;> rcases hk with hk | hk <;> simp [hk]
      · rintro ⟨hn, -⟩
        obtain ⟨e, he, hf⟩ := hf
        exact absurd hf (hn e he)

instance : DecidablePred CommitFailure := fun e =>
  match e with
  | ⟨_, .fs c, .error _, _⟩ => inferInstanceAs (Decidable (c.site = some .commit))
  | ⟨_, .fs _, .ok _, _⟩ | ⟨_, .hook _, _, _⟩ => .isFalse id

/-- The draft as it is found. -/
def oldDraft : RegularFile := ⟨⟨0, 4⟩, [1], regularMode 0o644⟩

/-- The inodes from 5 on are fresh beside the draft of the example. -/
theorem inode_oldDraft : ∀ node ∈ some (Node.file oldDraft), node.identity.inode < 5 := by
  simp [oldDraft, Node.identity]

/-- A plan that edits the draft and creates notes on it. -/
def editWithNotes : ChangePlan PlainDigest :=
  ⟨[.edit ⟨draftPath, ⟨[1]⟩, [4], ⟨[4]⟩, ⟨[1], rfl⟩, rfl⟩, .create ⟨notesPath, [3], ⟨[3]⟩, rfl⟩]⟩

/-- The notes cannot be moved into place. -/
def notesFault : FsCall → Bool
  | .rename .publication _ _ name _ => name = "notes.rs"
  | _ => false

/-- The draft is edited, the notes fail, and the draft is put back. -/
def restoredRun : List (Event PublisherCall PublisherCall.Reply Tree) ×
    Except MutationError MutationReceipt × Machine :=
  publishRun (.faulty notesFault) editWithNotes (draftMachine (some (.file oldDraft)) inode_oldDraft)

/-- The run of the example, in which a rename fails and the draft is restored. -/
theorem runs_restored : Runs (environment slashDirectory noActor)
    (publishChangePlan draftProcess (some "/app") editWithNotes).run
    (draftTree (some (.file oldDraft))) restoredRun.1 (.done restoredRun.2.1)
    restoredRun.2.2.tree :=
  runs_faulty notesFault editWithNotes (draftMachine (some (.file oldDraft)) inode_oldDraft)

/-- A regular file with these bytes. -/
def Node.holds (bytes : Bytes) : Node → Bool
  | .file regular => regular.bytes = bytes
  | _ => false

/-- The edit was in place when the notes failed, and is taken back. -/
theorem publish_atomic_iff_draft :
    restoredRun.2.1 =
        .error (.atPath .publicationFailed notesPath "atomic mutation publication failed") ∧
      (∃ e ∈ restoredRun.1, (e.before draftLocation).any (Node.holds [4])) ∧
      Atomic slashDirectory draftProcess (some "/app") editWithNotes
        (draftTree (some (.file oldDraft))) restoredRun.2.1 restoredRun.2.2.tree := by
  obtain ⟨hresult, hedited, hcommit⟩ : restoredRun.2.1 =
        .error (.atPath .publicationFailed notesPath "atomic mutation publication failed") ∧
      (∃ e ∈ restoredRun.1, (e.before draftLocation).any (Node.holds [4])) ∧
      ∀ e ∈ restoredRun.1, ¬CommitFailure e := by
    decide +kernel
  have hfree (transaction : String) : Unused transaction editWithNotes
      (draftTree (some (.file oldDraft))) := unused_draftTree (by decide +kernel)
  have hplain (root : Identity) :
      PlainModes editWithNotes root (draftTree (some (.file oldDraft))) := by
    intro c _ _ l old _ hold
    rcases draftTree_eq_some hold with ⟨-, h⟩ | ⟨-, h⟩ | ⟨-, h⟩
    · cases h
      decide
    · cases h
    · cases h
  refine ⟨hresult, hedited, ?_⟩
  exact (publish_atomic_iff (draftTree_wellFormed fun _ h => by cases h) (by decide) rfl
    (fun transaction _ => hfree transaction) runs_restored).2 ⟨hcommit, fun _ root _ => hplain root⟩

/-- A draft is created where there was none, and the commit cannot make it durable. -/
def unsyncedRun : List (Event PublisherCall PublisherCall.Reply Tree) ×
    Except MutationError MutationReceipt × Machine :=
  publishRun (.faulty fun c => c = .syncDirectory .commit srcDirectory) (createDraft [1])
    (draftMachine none nofun)

/-- **A published plan is reported as failed.**  A draft is created where there was
none, and the commit cannot make its directory durable.  The caller is told
`PublicationFailed`; the draft is there, and so is the marker. -/
theorem publish_reports_published_as_failed :
    ∃ t error tree', Runs (environment slashDirectory noActor)
        (publishChangePlan draftProcess (some "/app") (createDraft [1])).run (draftTree none) t
        (.done (.error error)) tree' ∧
      (createDraft [1]).validate = .ok () ∧ error.kind = .publicationFailed ∧
      (tree' draftLocation).isSome ∧ (tree' ⟨appDirectory, mutationMarker⟩).isSome ∧
      ¬Atomic slashDirectory draftProcess (some "/app") (createDraft [1]) (draftTree none)
        (.error error) tree' := by
  have hrun := runs_faulty (fun c => c = .syncDirectory .commit srcDirectory) (createDraft [1])
    (draftMachine none nofun)
  have hresult : unsyncedRun.2.1 = .error (.new .publicationFailed
      "cannot make application directory changes durable") := by decide +kernel
  have hdraft : (unsyncedRun.2.2.tree draftLocation).isSome := by decide +kernel
  have hmarker : (unsyncedRun.2.2.tree ⟨appDirectory, mutationMarker⟩).isSome := by decide +kernel
  rw [show (publishRun _ _ _).2.1 = _ from hresult] at hrun
  refine ⟨_, _, _, hrun, by decide, rfl, hdraft, hmarker, fun h => ?_⟩
  have hsame : unsyncedRun.2.2.tree = draftTree none := h nofun nofun
  rw [hsame] at hdraft
  exact absurd hdraft (by decide +kernel)

end Publication

end Mutator
end Hegira
