/-
# A publication may be killed at any moment

Between any two calls of `publish_change_plan` either the marker is there, or the
application is as it was before or as the plan wants it, and no private file is
left (`CrashSafe`): the marker is the first thing a publication creates and the last
it removes, on every path it can take.  The next publication finds the marker and
touches nothing (`meets_refused`).
-/

import Hegira.Mutator.Atomicity

namespace Hegira
namespace Mutator

open Program

set_option linter.unusedSectionVars false

variable {D : Type} [ContentDigest D] [DecidableEq D] {slash : Identity}

/-- What a publication of `plan` in `tree` may leave when it is killed. -/
def CrashSafe (slash : Identity) (process : Process) (path : Option String) (plan : ChangePlan D)
    (tree tree' : Tree) : Prop :=
  (∃ root, applicationDirectory slash process path tree = some root ∧
    tree' ⟨root, mutationMarker⟩ ≠ none) ∨
  NoPrivateFile process tree' ∧ (tree' = tree ∨
    ∃ root, applicationDirectory slash process path tree = some root ∧
      InPlace Took plan root tree tree')

section Marked

variable {T tree : Tree} {root : Root} {marker : Marker} {transaction : String}
  {plan : ChangePlan D} {prepared : List (PreparedChange D)} {clean : Tree → Prop}

/-- Every state of a commit is crash safe. -/
theorem meets_commit (hm : tree root.marker ≠ none)
    (hslot : ∀ p ∈ prepared, Slot T root.fd transaction 0 plan.changes p)
    (hall : ∀ c ∈ plan.changes, ∃ p ∈ prepared, ∃ k, Prepares T root.fd transaction k c p)
    (hc : ∀ tree', (∀ l, tree' l = tree l ∨ tree' l = none ∧ Temps prepared l) →
      (∀ p ∈ prepared, p.operation ≠ .create → tree' p.temp = none) →
      Committed T root.fd transaction plan prepared tree')
    (hclean : ∀ tree', Finished T root.fd transaction plan tree' → clean tree') :
    Meets (environment slash noActor) (Guarded root.marker clean) (fun _ _ => True)
      (commit root marker prepared).run tree := by
  refine meets_fallible_bind.2 ((meets_guarded (S := Temps prepared) meets_removeBackups
    (only_orHook (only_removeBackups fun p hp => ⟨p, hp, rfl⟩)) ?_ hm).imp ?_)
  · rintro ⟨p, hp, he⟩
    exact Setting.temp_ne_marker (hslot p hp) he.symm
  rintro (e | _) tree₁ ⟨h₁, hm₁⟩
  · trivial
  have hcommitted := hc tree₁ h₁.1 h₁.2
  refine meets_fallible_bind.2 ((meets_still (only_syncUniqueParents (anySite _))
    (Or.inl hm₁)).imp ?_)
  rintro (e | _) tree₂ rfl
  · trivial
  have hfin : Finished T root.fd transaction plan (Function.update tree₂ root.marker none) :=
    ⟨prepared, tree₂, hall, hcommitted, rfl⟩
  refine meets_fallible_bind.2 (meets_adapt.2 ((meets_removeMarker_guarded hm₁
    (hclean _ hfin)).imp ?_))
  rintro (e | _) tree₃ h₃
  · trivial
  obtain rfl : tree₃ = _ := h₃
  refine meets_fallible_bind.2 (meets_adapt.2 ((meets_still (only_syncDirectory (anySite _))
    (Or.inr (hclean _ hfin))).imp ?_))
  rintro (e | _) tree₄ - <;> trivial

/-- **Under the marker**, up to its removal. -/
theorem meets_publishMarked (clean : Tree → Prop) (hs : Setting T root.fd transaction plan)
    (hT : T root.marker ≠ none)
    (hback : clean (Function.update T root.marker none))
    (hclean : ∀ tree', Finished T root.fd transaction plan tree' → clean tree') :
    Meets (environment slash noActor) (Guarded root.marker clean) (fun _ _ => True)
      (publishMarked root marker plan transaction).run T := by
  refine meets_fallible_bind.2 (meets_lift.2 ((meets_prepareChanges_guarded clean hs hT).imp ?_))
  rintro ⟨prepared, e | _⟩ tree₁ ⟨h, hm₁⟩
  · exact (meets_cleanupBeforePublication clean (fun hk => h.frame fun _ he => by cases he; exact hk)
      hs h.slots hm₁ hback).imp fun _ _ _ => trivial
  have hready := h.ready rfl
  have hframe := h.frame nofun
  refine meets_fallible_bind.2 (meets_lift.2 ((meets_publishPrepared_guarded clean hs hready
    h.apart hm₁).imp ?_))
  rintro ⟨prepared', e | _⟩ tree₂ ⟨h', hm₂⟩
  · exact (meets_rollbackOrReport clean hs hready h.apart hframe h' hm₂ hback).imp
      fun _ _ _ => trivial
  · have hp := h'.publishes
    refine meets_commit hm₂ (fun p hp' => ?_) (fun c hc => hp.all (h.all rfl c hc))
      (fun tree' => hp.committed hs hready hframe) hclean
    exact (hready _ (hp.same ▸ List.mem_map_of_mem hp')).slot.unpublished

end Marked

section Publication

variable {tree : Tree} {plan : ChangePlan D} {process : Process} {path : Option String}

/-- The state before the publication is crash safe. -/
theorem CrashSafe.refl (hu : ∀ transaction, transactionId process = .ok transaction →
    Unused transaction plan tree) : CrashSafe slash process path plan tree tree :=
  Or.inr ⟨fun transaction htx l hl => (hu transaction htx).tree l hl, Or.inl rfl⟩

/-- **Every state of a publication** is crash safe. -/
theorem meets_publishWith (hw : tree.WellFormed) (hv : plan.validate = .ok ())
    (hu : ∀ transaction, transactionId process = .ok transaction → Unused transaction plan tree) :
    Meets (environment slash noActor) (fun e => CrashSafe slash process path plan tree e.after)
      (fun _ _ => True) (publishWith process path plan).run tree := by
  have hsafe : CrashSafe slash process path plan tree tree := .refl hu
  refine meets_fallible_bind.2 (((meets_open passive_true).and (meets_fixed (only_open
    (anySite _)))).mono (fun e he => ?_) ?_)
  · rwa [he.2]
  rintro (e | root) tree₁ ⟨⟨rfl, hroot⟩, -⟩
  · trivial
  have hroot := hroot root rfl
  rw [continue_ok]
  split
  · trivial
  next hany =>
  have hn : ∀ c ∈ plan.changes, c.path.text ≠ mutationMarker := by simpa using hany
  rcases htx : transactionId process with e | transaction
  · trivial
  have hmarked : ∀ tree', tree' root.marker ≠ none →
      CrashSafe slash process path plan tree₁ tree' := fun _ h => Or.inl ⟨root.fd, hroot, h⟩
  change Meets _ _ _ (createMarker root plan transaction >>= fun marker =>
    publishMarked root marker plan transaction).run tree₁
  refine meets_fallible_bind.2 (meets_createMarker.mono ?_ ?_)
  · rintro e (he | he)
    · exact hmarked _ he
    · exact he ▸ hsafe
  rintro (e | marker) T h
  · trivial
  obtain ⟨hm, f, rfl⟩ := h
  have hm : tree₁ ⟨root.fd, mutationMarker⟩ = none := hm
  obtain ⟨hd, hs⟩ := Setting.of_marked (f := f) hw hv (hu transaction htx) hm hn
  refine (meets_publishMarked (CrashSafe slash process path plan tree₁) hs
    (by simp [Root.marker]) ?_ fun tree' hfin => ?_).mono ?_ fun _ _ => id
  · rwa [show root.marker = ⟨root.fd, mutationMarker⟩ from rfl, update_created hm]
  · have hplace := hfin.inPlace rfl hm hd hs
    exact Or.inr ⟨(hplace.noTransactionFile hw htx (hu transaction htx) hm hn).2,
      Or.inr ⟨root.fd, hroot, hplace⟩⟩
  · rintro e (he | he)
    · exact hmarked _ he
    · exact he

end Publication

/-! ### The next publication -/

/-- A call fails of its own: neither `ENOENT` nor `EEXIST` is reported. -/
def Faulted : Event PublisherCall PublisherCall.Reply Tree → Prop
  | ⟨_, .fs _, .error (.other _), _⟩ => True
  | _ => False

/-- Where no call fails of its own, `post` holds in the end. -/
def Calm {α : Type} (post : α → Tree → Prop)
    (t : List (Event PublisherCall PublisherCall.Reply Tree)) (a : α) (tree : Tree) : Prop :=
  (∀ e ∈ t, ¬Faulted e) → post a tree

section Calm

variable {tree : Tree} {α β ε : Type} {post : Except ε α → Tree → Prop}

/-- A step that can only fail of its own, then the rest of the program. -/
theorem Calm.bind {p : Fallible ε PublisherCall PublisherCall.Reply β} {b : β}
    {f : β → Fallible ε PublisherCall PublisherCall.Reply α}
    (hp : Ends (environment slash noActor) (Calm fun r tree' => r = .ok b ∧ tree' = tree) p.run
      tree)
    (hf : Ends (environment slash noActor) (Calm post) (f b).run tree) :
    Ends (environment slash noActor) (Calm post)
      (p >>= f : Fallible ε PublisherCall PublisherCall.Reply α).run tree := by
  refine hp.fallible_bind (fun t e tree' h ht => nomatch (h ht).1) fun t b' tree' h => ?_
  by_cases ht : ∀ e ∈ t, ¬Faulted e
  · obtain ⟨hb, rfl⟩ := h ht
    cases hb
    exact hf.imp fun t' r tree'' h' hn => h' (List.forall_mem_append.1 hn).2
  · exact fun t' r tree'' _ hn => absurd (List.forall_mem_append.1 hn).1 ht

/-- A call that succeeds and changes nothing is calm. -/
theorem Calm.sys {c : FsCall} {v : c.Value}
    (h : ∀ fresh, c.effect slash fresh tree = (.ok v, tree)) {error : MutationError} :
    Ends (environment slash noActor) (Calm fun r tree' => r = .ok v ∧ tree' = tree)
      (orFail (Mutator.sys c) error).run tree := by
  refine ends_call.2 fun r tree' he => ends_done fun hn => ?_
  cases he with
  | fault code => exact absurd trivial (hn _ (List.mem_singleton_self _))
  | effect fresh hf =>
      rw [h fresh]
      exact ⟨rfl, rfl⟩

/-- So is opening a path that is there. -/
theorem calm_openComponents {fd d : Identity} {path : List Component} (hp : .parentDir ∉ path)
    (hdot : .normal "." ∉ path)
    (h : resolve tree fd (path.filter Component.isNormal) = some d) :
    Ends (environment slash noActor) (Calm fun r tree' => r = .ok d ∧ tree' = tree)
      (openComponents fd path).run tree := by
  induction path generalizing fd with
  | nil =>
      cases h
      exact ends_done fun _ => ⟨rfl, rfl⟩
  | cons component rest ih =>
      have hp' : .parentDir ∉ rest := fun h => hp (List.mem_cons_of_mem _ h)
      have hdot' : .normal "." ∉ rest := fun h => hdot (List.mem_cons_of_mem _ h)
      cases component with
      | rootDir | curDir =>
          rw [List.filter_cons_of_neg (by simp [Component.isNormal])] at h
          exact ih hp' hdot' h
      | parentDir => simp at hp
      | normal name =>
          rw [List.filter_cons_of_pos rfl] at h
          simp only [resolve] at h
          split at h
          next d' hd =>
            have hn : name ≠ "." := fun h => hdot (by simp [h])
            refine Calm.bind (Calm.sys (c := .openDirectory fd name) (v := d') fun fresh => ?_)
              (ih hp' hdot' h)
            simp [FsCall.effect, hn, hd]
          · cases h

/-- **The root opens**, unless a call fails of its own. -/
theorem calm_open {process : Process} {path : Option String} {fd : Identity}
    (h : applicationDirectory slash process path tree = some fd) :
    ∃ root, root.fd = fd ∧ Ends (environment slash noActor)
      (Calm fun r tree' => r = .ok root ∧ tree' = tree) (Root.open process path).run tree := by
  unfold applicationDirectory at h
  unfold Root.open
  rcases hc : checkedRoot process path with e | absolute
  · rw [hc] at h
    cases h
  rw [hc] at h
  dsimp only at h
  split at h
  · cases h
  next hp =>
    refine ⟨⟨absolute, fd, fd⟩, rfl, ?_⟩
    refine Calm.bind (ends_done fun _ => ⟨rfl, rfl⟩) ?_
    refine Calm.bind (b := fd) (Calm.bind (Calm.sys (c := .openSlash) fun fresh => rfl)
      (calm_openComponents hp (normal_dot_not_mem_checkedRoot hc) h)) ?_
    refine Calm.bind (Calm.sys (c := .statDirectory .preparation fd) fun fresh => rfl) ?_
    exact ends_done fun _ => ⟨rfl, rfl⟩

end Calm

section Refused

variable {tree : Tree} {plan : ChangePlan D} {process : Process} {path : Option String}
  {fd : Identity}

/-- A marker that is there is not made again. -/
theorem meets_createMarker_taken {root : Root} {transaction : String}
    (hm : tree root.marker ≠ none) :
    Meets (environment slash noActor) (fun e => e.after = tree) (fun r _ => ∃ e, r = .error e)
      (createMarker root plan transaction).run tree := by
  refine meets_fallible_bind.2 (meets_adapt.2 (meets_sys (c := .createFile root.marker)
    (fun e _ => ⟨rfl, ?_⟩) fun _ tree' he => ?_))
  · exact ⟨_, rfl⟩
  · exact absurd (FsStep.createFile_ok he).1 hm

/-- **A publication that finds the marker touches nothing.** -/
theorem meets_refused (hroot : applicationDirectory slash process path tree = some fd)
    (hm : tree ⟨fd, mutationMarker⟩ ≠ none) :
    Meets (environment slash noActor) (fun e => e.after = tree) (fun _ _ => True)
      (publishChangePlan process path plan).run tree := by
  unfold publishChangePlan
  split
  · trivial
  split
  · trivial
  refine meets_fallible_bind.2 (((meets_open passive_true).and (meets_fixed (only_open
    (anySite _)))).mono (fun _ he => he.2) ?_)
  rintro (e | root) tree₁ ⟨⟨rfl, hfd⟩, -⟩
  · trivial
  obtain rfl : root.fd = fd := by simpa [hfd root rfl] using hroot
  rw [continue_ok]
  split
  · trivial
  rcases htx : transactionId process with e | transaction
  · trivial
  change Meets _ _ _ (createMarker root plan transaction >>= fun marker =>
    publishMarked root marker plan transaction).run tree₁
  refine meets_fallible_bind.2 ((meets_createMarker_taken hm).imp ?_)
  rintro _ tree₂ ⟨e, rfl⟩
  trivial

/-- The step asks for recovery. -/
def Refuses {α : Type} (r : Except MutationError α) (_ : Tree) : Prop :=
  ∃ e, r = .error e ∧ e.kind = .recoveryRequired

/-- What follows a step that asks for recovery is not run. -/
theorem Calm.refuses {α β : Type} {p : Publishing β} {f : β → Publishing α}
    (hp : Ends (environment slash noActor) (Calm Refuses) p.run tree) :
    Ends (environment slash noActor) (Calm Refuses) (p >>= f).run tree := by
  refine hp.fallible_bind (fun t e tree' h ht => ?_) fun t b tree' h t' r tree'' _ hn => ?_
  · obtain ⟨e', he, hk⟩ := h ht
    cases he
    exact ⟨e, rfl, hk⟩
  · obtain ⟨e, he, -⟩ := h (List.forall_mem_append.1 hn).1
    cases he

/-- The publication stops at it. -/
theorem calm_createMarker {root : Root} {transaction : String} (hm : tree root.marker ≠ none) :
    Ends (environment slash noActor) (Calm Refuses) (createMarker root plan transaction).run
      tree := by
  refine Calm.refuses (ends_call.2 fun r tree' he => ends_done fun hcalm => ?_)
  cases he with
  | fault code => exact absurd trivial (hcalm _ (List.mem_singleton_self _))
  | effect fresh hf =>
      obtain ⟨node, hnode⟩ := Option.ne_none_iff_exists'.1 hm
      have hexist : ((FsCall.createFile root.marker).effect slash fresh tree).1 = .error .exist := by
        simp [FsCall.effect, hnode]
      rw [hexist]
      exact ⟨_, rfl, rfl⟩

/-- **It asks for recovery**, unless a call fails of its own. -/
theorem calm_refused (hroot : applicationDirectory slash process path tree = some fd)
    (hm : tree ⟨fd, mutationMarker⟩ ≠ none) (hv : plan.validate = .ok ())
    (hne : plan.isEmpty = false) (hn : ∀ c ∈ plan.changes, c.path.text ≠ mutationMarker)
    {transaction : String} (htx : transactionId process = .ok transaction) :
    Ends (environment slash noActor) (Calm Refuses)
      (publishChangePlan process path plan).run tree := by
  have hany : (plan.changes.any fun c => decide (c.path.text = mutationMarker)) = false := by
    simpa using hn
  obtain ⟨root, rfl, hopen⟩ := calm_open hroot
  have hrun : (publishChangePlan process path plan).run = (publishWith process path plan).run := by
    simp [publishChangePlan, hv, hne]
  rw [hrun]
  refine Calm.bind hopen ?_
  simp only [hany, htx]
  exact Calm.bind (ends_done fun _ => ⟨rfl, rfl⟩) (Calm.refuses (calm_createMarker hm))

/-- **A publication is crash safe.**  Wherever a run stops the application is in one
of the states of `CrashSafe`, and if it is left half changed the next publication
changes nothing, and asks for recovery unless one of its calls fails of its own. -/
theorem publish_crash_safe {t : List (Event PublisherCall PublisherCall.Reply Tree)}
    {p : Program PublisherCall PublisherCall.Reply (Except MutationError MutationReceipt)}
    {tree' : Tree} (hw : tree.WellFormed)
    (hu : ∀ transaction, transactionId process = .ok transaction → Unused transaction plan tree)
    (hr : Runs (environment slash noActor) (publishChangePlan process path plan).run tree t p
      tree') :
    CrashSafe slash process path plan tree tree' ∧
      ∀ root, applicationDirectory slash process path tree = some root → tree' ≠ tree →
        ¬InPlace Took plan root tree tree' →
        ∀ (process' : Process) (path' : Option String) (plan' : ChangePlan D) t' p' tree'',
          applicationDirectory slash process' path' tree' = some root →
          Runs (environment slash noActor) (publishChangePlan process' path' plan').run tree' t' p'
            tree'' →
          tree'' = tree' ∧ ∀ r transaction, p' = .done r → plan'.validate = .ok () →
            plan'.isEmpty = false → (∀ c ∈ plan'.changes, c.path.text ≠ mutationMarker) →
            transactionId process' = .ok transaction → (∀ e ∈ t', ¬Faulted e) →
            ∃ e, r = .error e ∧ e.kind = .recoveryRequired := by
  have hmeets : Meets (environment slash noActor)
      (fun e => CrashSafe slash process path plan tree e.after) (fun _ _ => True)
      (publishChangePlan process path plan).run tree := by
    unfold publishChangePlan
    split
    · trivial
    split
    · trivial
    · exact meets_publishWith hw ‹_› hu
  have hsafe := hmeets.always (.refl hu) hr
  refine ⟨hsafe, fun root hroot hne hplace process' path' plan' t' p' tree'' hroot' hr' => ?_⟩
  have hm : tree' ⟨root, mutationMarker⟩ ≠ none := by
    rcases hsafe with ⟨root', hroot', hm⟩ | ⟨-, he | ⟨root', hroot', hp⟩⟩
    · obtain rfl : root = root' := by simpa [hroot] using hroot'
      exact hm
    · exact absurd he hne
    · obtain rfl : root = root' := by simpa [hroot] using hroot'
      exact absurd hp hplace
  refine ⟨(meets_refused hroot' hm).always (I := (· = tree')) rfl hr', ?_⟩
  rintro r transaction rfl hv' hne' hn' htx' hcalm
  exact calm_refused hroot' hm hv' hne' hn' htx' t' r tree'' hr' hcalm

end Refused

/-! ### Two drafts, one of them published -/

instance : DecidablePred Faulted := fun e =>
  match e with
  | ⟨_, .fs _, .error (.other _), _⟩ => .isTrue trivial
  | ⟨_, .fs _, .error .noent, _⟩ | ⟨_, .fs _, .error .exist, _⟩ | ⟨_, .fs _, .ok _, _⟩
  | ⟨_, .hook _, _, _⟩ => .isFalse id

/-- A plan that creates a draft and notes on it. -/
def createNotes : ChangePlan PlainDigest :=
  ⟨[.create ⟨draftPath, [1], ⟨[1]⟩, rfl⟩, .create ⟨notesPath, [2], ⟨[2]⟩, rfl⟩]⟩

/-- The notes cannot be published, and the draft cannot be taken back. -/
def halfFaults : FsCall → Bool
  | .rename .publication _ _ name _ => name = "notes.rs"
  | .unlink location => location = draftLocation
  | _ => false

/-- The inodes from 5 on are fresh without a draft. -/
theorem no_draft : ∀ node ∈ (none : Option Node), node.identity.inode < 5 :=
  fun node hnode => absurd hnode (Option.not_mem_none node)

/-- The machine after a publication that stops half way. -/
def halfMachine : Machine :=
  (publishRun (.faulty halfFaults) createNotes (draftMachine none no_draft)).2.2

/-- The crash of the example left the marker and the first file. -/
theorem halfMachine_draft : halfMachine.tree draftLocation ≠ none := by decide +kernel

/-- The second file is not there yet. -/
theorem halfMachine_notes : halfMachine.tree ⟨srcDirectory, "notes.rs"⟩ = none := by
  decide +kernel

/-- The next publication is refused. -/
theorem publish_crash_safe_notes :
    let next := publishRun (.faulty fun _ => false) createNotes halfMachine
    CrashSafe slashDirectory draftProcess (some "/app") createNotes (draftTree none)
        halfMachine.tree ∧
      next.2.2.tree = halfMachine.tree ∧
      ∃ e, next.2.1 = .error e ∧ e.kind = .recoveryRequired := by
  have hw : (draftTree none).WellFormed := draftTree_wellFormed fun d hd => by cases hd
  have h := publish_crash_safe hw
    (fun _ _ => unused_draftTree (by decide +kernel)) (runs_faulty halfFaults
      createNotes (draftMachine none no_draft))
  refine ⟨h.1, ?_⟩
  have hnext := h.2 appDirectory (by decide +kernel) ?_ ?_ draftProcess (some "/app") createNotes
    _ _ _ (by decide +kernel) (runs_faulty (fun _ => false) _ halfMachine)
  · exact ⟨hnext.1, hnext.2 _ "7-1" rfl (by decide) rfl (by decide) (by decide +kernel)
      (by decide +kernel)⟩
  · intro he
    exact absurd (congrFun he draftLocation) halfMachine_draft
  · intro hp
    obtain ⟨l, hl, htook⟩ := hp.results (.create ⟨notesPath, [2], ⟨[2]⟩, rfl⟩) (by decide)
    obtain rfl : (⟨srcDirectory, "notes.rs"⟩ : Location) = l := by
      have : locate (draftTree none) appDirectory notesPath = some ⟨srcDirectory, "notes.rs"⟩ := by
        decide +kernel
      exact Option.some.inj (this.symm.trans hl)
    obtain ⟨-, f, hf, -⟩ := htook
    cases halfMachine_notes.symm.trans hf

/-- **A half changed application need not be noticed.**  The notes cannot be published
and the draft cannot be taken back.  When the plan is published again, and the
operating system cannot create the marker, the error is `PublicationFailed`. -/
theorem half_changed_not_refused :
    ∃ t r tree' t' e tree'', Runs (environment slashDirectory noActor)
        (publishChangePlan draftProcess (some "/app") createNotes).run (draftTree none) t
        (.done r) tree' ∧
      createNotes.validate = .ok () ∧
      tree' draftLocation ≠ none ∧ tree' ⟨srcDirectory, "notes.rs"⟩ = none ∧
      Runs (environment slashDirectory noActor)
        (publishChangePlan draftProcess (some "/app") createNotes).run tree' t'
        (.done (.error e)) tree'' ∧
      e.kind = .publicationFailed := by
  have hnext := runs_faulty (fun c => c = .createFile ⟨appDirectory, mutationMarker⟩) createNotes
    halfMachine
  have hresult : (publishRun (.faulty fun c => c = .createFile ⟨appDirectory, mutationMarker⟩)
      createNotes halfMachine).2.1 =
        .error (.new .publicationFailed "cannot create the private mutation marker") := by
    decide +kernel
  rw [hresult] at hnext
  exact ⟨_, _, _, _, _, _, runs_faulty halfFaults _ (draftMachine none no_draft),
    by decide, halfMachine_draft, halfMachine_notes, hnext, rfl⟩

end Mutator
end Hegira
