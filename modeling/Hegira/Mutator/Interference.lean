/-
# Somebody else edits the application

An outside actor may write, replace, create and delete the files of the
application at every hook of `publish_with`.  What the actor has written and the
transaction has not is `Foreign`.  No call of the publisher touches it, and none
publishes over anything but the original (`Keeps`): each operation checks its
target right before it is published, and again before it is rolled back.

The content of a file stands for its digest here (`calculate` is injective).
-/

import Hegira.Mutator.Atomicity

namespace Hegira
namespace Mutator

open Program

set_option linter.unusedSectionVars false

variable {D : Type} [ContentDigest D] [DecidableEq D] {slash : Identity}

/-! ### The outside actor -/

/-- A location the transaction does not use for itself. -/
def Application (root : Identity) (transaction : String) (l : Location) : Prop :=
  l ≠ ⟨root, mutationMarker⟩ ∧ ¬Reserved transaction l.name

/-- The application of a publication, where the root opens and the clock can be read. -/
def OutsideLocation (slash : Identity) (process : Process) (path : Option String) (tree : Tree)
    (l : Location) : Prop :=
  ∀ root transaction, applicationDirectory slash process path tree = some root →
    transactionId process = .ok transaction → Application root transaction l

/-- The actor changes the application as it likes, and the hook may fail. -/
def outsideActor (slash : Identity) (process : Process) (path : Option String) (tree : Tree) :
    Actor :=
  fun _ before _ after => ∀ l, after l ≠ before l → OutsideLocation slash process path tree l

/-- The entry is neither the original at `l` nor a file with the content planned for it. -/
def Foreign (plan : ChangePlan D) (root : Identity) (tree : Tree) (l : Location) (node : Node) :
    Prop :=
  some node ≠ tree l ∧ ∀ c ∈ plan.changes, locate tree root c.path = some l →
    ∀ f, node = .file f → c.resultingContent ≠ some f.bytes

/-- What a change may be published over: nothing for a creation, else a file with the
identity, digest and mode of the original. -/
def Fits (c : PlannedFileChange D) (original now : Option Node) : Prop :=
  match c.operation with
  | .create => now = none
  | .edit | .retire => ∃ f f₀, now = some (.file f) ∧ original = some (.file f₀) ∧
      (observe f : ObservedFile D) = observe f₀

/-- The location is written by a publishing rename that works. -/
def PublishesTo (l : Location) : Event PublisherCall PublisherCall.Reply Tree → Prop
  | ⟨_, .fs (.rename .publication directory source destination flags), .ok _, _⟩ =>
      l ∈ (FsCall.rename .publication directory source destination flags).writes
  | _ => False

/-- The event is none of the actor's. -/
def IsCall : Event PublisherCall PublisherCall.Reply Tree → Prop
  | ⟨_, .fs _, _, _⟩ => True
  | ⟨_, .hook _, _, _⟩ => False

/-- A call leaves foreign entries of the application alone, and publishes a change
over what it fits only. -/
structure Keeps (plan : ChangePlan D) (root : Identity) (transaction : String) (tree : Tree)
    (e : Event PublisherCall PublisherCall.Reply Tree) : Prop where
  foreign : IsCall e → ∀ l node, Application root transaction l → e.before l = some node →
    Foreign plan root tree l node → e.after l = some node
  fits : ∀ l, Application root transaction l → PublishesTo l e →
    ∃ c ∈ plan.changes, locate tree root c.path = some l ∧ Fits c (tree l) (e.before l)

section Keeps

variable {actor : Actor} {plan : ChangePlan D} {root : Identity} {transaction : String}
  {tree : Tree}

/-- A call that publishes to a place writes there. -/
theorem PublishesTo.mem_writes {l : Location} {s s' : Tree} {c : FsCall} {r : Except Errno c.Value}
    (h : PublishesTo l ⟨s, .fs c, r, s'⟩) : l ∈ c.writes := by
  cases c <;> try exact h.elim
  case rename site directory source destination flags =>
    cases site <;> cases r <;> first | exact h.elim | exact h

/-- A call that writes no application location. -/
theorem Keeps.of_frame {s s' : Tree} {c : FsCall} {r : Except Errno c.Value}
    (h : FsStep slash s c r s') (hc : ∀ l ∈ c.writes, ¬Application root transaction l) :
    Keeps plan root transaction tree ⟨s, .fs c, r, s'⟩ where
  foreign _ l node hl hn _ := by
    rw [← hn]
    exact FsStep.frame h fun hw => hc l hw hl
  fits l hl hp := absurd hl (hc l hp.mem_writes)

/-- What an actor does at a hook is not the publisher's. -/
theorem Keeps.hook {s s' : Tree} {point : HookPoint} {r : Except MutationError Unit} :
    Keeps plan root transaction tree ⟨s, .hook point, r, s'⟩ where
  foreign := nofun
  fits _ _ h := h.elim

/-- A call that changes nothing keeps everything. -/
theorem passive_keeps : Passive (Keeps plan root transaction tree) := fun s c r hc =>
  { foreign := fun _ _ _ _ hn _ => hn
    fits := fun l _ hp => by simpa [hc] using hp.mem_writes }

/-- The actor only changes the application. -/
def Outside (root : Identity) (transaction : String) (actor : Actor) : Prop :=
  ∀ point s r s', actor point s r s' → ∀ l, s' l ≠ s l → Application root transaction l

/-- A part that writes no application location, with the actor at its hooks. -/
theorem meets_keeps {α : Type} {p : Program PublisherCall PublisherCall.Reply α}
    {S : Location → Prop} {s : Tree} (hact : Outside root transaction actor)
    (hp : p.Only (AllowedOrHook S AnySite)) (hS : ∀ l, S l → ¬Application root transaction l) :
    Meets (environment slash actor) (Keeps plan root transaction tree)
      (fun _ s' => ∀ l, ¬S l → ¬Application root transaction l → s' l = s l) p s := by
  have hk : Meets (environment slash actor) (Keeps plan root transaction tree)
      (fun _ _ => True) p s := by
    refine hp.meets ?_ s
    rintro s (c | point) r s' hc he
    · exact .of_frame he fun l hl => hS l (hc.1 l hl)
    · exact .hook
  refine (hk.and (hp.meets_invariant
    (I := fun s' => ∀ l, ¬S l → ¬Application root transaction l → s' l = s l) ?_
    fun _ _ _ => rfl)).mono (fun _ h => h.1) fun _ _ h => h.2
  · rintro s (c | point) r s' hc he hs l hl ha
    · exact (FsStep.frame he fun hw => hl (hc.1 l hw)).trans (hs l hl ha)
    · by_contra hne
      exact ha (hact _ _ _ _ he l fun h => hne (h.trans (hs l hl ha)))

/-- A call whose only application location holds nothing foreign. -/
theorem Keeps.of_target {s s' : Tree} {c : FsCall} {r : Except Errno c.Value} {l₀ : Location}
    (h : FsStep slash s c r s') (hw : ∀ l ∈ c.writes, Application root transaction l → l = l₀)
    (hn : ∀ node, s l₀ = some node → ¬Foreign plan root tree l₀ node)
    (hf : PublishesTo l₀ ⟨s, .fs c, r, s'⟩ → ∃ change ∈ plan.changes,
      locate tree root change.path = some l₀ ∧ Fits change (tree l₀) (s l₀)) :
    Keeps plan root transaction tree ⟨s, .fs c, r, s'⟩ where
  foreign _ l node hl hs hfor := by
    by_cases hlw : l ∈ c.writes
    · obtain rfl := hw l hlw hl
      exact absurd hfor (hn node hs)
    · exact (FsStep.frame h hlw).trans hs
  fits l hl hp := by
    obtain rfl := hw l hp.mem_writes hl
    exact hf hp

end Keeps

/-! ### One change -/

/-- A prepared change of the plan, with its target where the plan has it. -/
structure Placed (plan : ChangePlan D) (root : Identity) (transaction : String) (tree : Tree)
    (c : PlannedFileChange D) (p : PreparedChange D) : Prop where
  mem : c ∈ plan.changes
  located : locate tree root c.path = some p.target
  application : Application root transaction p.target
  hidden : ¬Application root transaction p.temp
  prepares : ∃ index, Prepares tree root transaction index c p

section Change

variable {actor : Actor} {plan : ChangePlan D} {root : Identity} {transaction : String}
  {tree s : Tree} {c : PlannedFileChange D} {p : PreparedChange D}

/-- A file is what is observed of it. -/
theorem observe_injective
    (hinj : Function.Injective (ContentDigest.calculate : Bytes → D)) :
    Function.Injective (observe : RegularFile → ObservedFile D) := by
  rintro ⟨i, b, m⟩ ⟨i', b', m'⟩ h
  obtain ⟨rfl, hb, rfl⟩ : i = i' ∧ ContentDigest.calculate (D := D) b = ContentDigest.calculate b' ∧
      m = m' := by simpa [observe] using h
  rw [hinj hb]

/-- What passes the check before a publication is the original. -/
theorem Placed.fits (h : Placed plan root transaction tree c p) (hu : p.Undisturbed s) :
    Fits c (tree p.target) (s p.target) := by
  obtain ⟨index, hp⟩ := h.prepares
  have ho := hp.original
  have he := hp.expected
  unfold PreparedChange.Undisturbed at hu
  cases c with
  | create change =>
      obtain ⟨hn, -⟩ : p.original = none ∧ tree p.target = none := ho
      have he : p.expected = .absent := he
      rw [he, hn] at hu
      exact hu
  | edit change | retire change =>
      obtain ⟨f₀, hf₀, hn, hd⟩ := ho
      rw [he, hn] at hu
      obtain ⟨f, hf, hi, hd', hm⟩ := hu
      refine ⟨f, f₀, hf, hf₀, ?_⟩
      simp only [observe, ObservedFile.mk.injEq]
      exact ⟨hi, hd'.trans hd.symm, hm⟩

/-- Nothing foreign fits. -/
theorem Fits.not_foreign (hinj : Function.Injective (ContentDigest.calculate : Bytes → D))
    {l : Location} (h : Fits c (tree l) (s l)) :
    ∀ node, s l = some node → ¬Foreign plan root tree l node := by
  rintro node hn ⟨hne, -⟩
  unfold Fits at h
  split at h
  · cases h.symm.trans hn
  all_goals
    obtain ⟨f, f₀, hf, hf₀, ho⟩ := h
    rw [observe_injective hinj ho, ← hf₀, hn] at hf
    exact hne hf

/-- What passes the check before a rollback is the transaction's own. -/
theorem Placed.not_foreign_of_ours (h : Placed plan root transaction tree c p)
    (hinj : Function.Injective (ContentDigest.calculate : Bytes → D)) (ho : p.Ours s) :
    ∀ node, s p.target = some node → ¬Foreign plan root tree p.target node := by
  rintro node hn ⟨-, hfor⟩
  obtain ⟨index, hp⟩ := h.prepares
  unfold PreparedChange.Ours at ho
  split at ho
  · cases ho.symm.trans hn
  · obtain ⟨f, hf, -, hd⟩ := ho
    rw [hp.resultDigest, c.resultDigest_eq_map] at hd
    obtain ⟨content, hc, hd⟩ := Option.map_eq_some_iff.1 hd.symm
    refine hfor c h.mem h.located f (Option.some.inj (hn.symm.trans hf)) ?_
    rw [hc, hinj hd]

/-- In the application a placed change writes its target only. -/
theorem Placed.writes (h : Placed plan root transaction tree c p) :
    ∀ l, l = p.target ∨ l = p.temp → Application root transaction l → l = p.target := by
  rintro l (rfl | rfl) hl
  · rfl
  · exact absurd hl h.hidden

/-- Publishing one change keeps what is foreign. -/
theorem meets_publishOne_keeps (h : Placed plan root transaction tree c p)
    (hinj : Function.Injective (ContentDigest.calculate : Bytes → D)) (hu : p.Undisturbed s) :
    Meets (environment slash actor) (Keeps plan root transaction tree) (fun _ _ => True)
      (publishOne p).run s := by
  have hfits := h.fits hu
  unfold publishOne PreparedChange.renaming
  rcases p.operation with _ | _ | _ <;> refine meets_adapt.2 ?_ <;> rintro r s' he <;>
    refine ⟨.of_target he (fun l hl => h.writes l ?_) (hfits.not_foreign hinj)
      fun _ => ⟨c, h.mem, h.located, hfits⟩, trivial⟩
  all_goals simpa [FsCall.writes, PreparedChange.target, PreparedChange.temp, or_comm] using hl

theorem meets_setPublishedMode_keeps (h : Placed plan root transaction tree c p)
    (hs : s p.target = c.resultingContent.map (privateFile p.stagedIdentity)) :
    Meets (environment slash actor) (Keeps plan root transaction tree) (fun _ _ => True)
      (setPublishedMode p).run s := by
  have hown : ∀ node, s p.target = some node → ¬Foreign plan root tree p.target node := by
    rintro node hn ⟨-, hfor⟩
    rw [hs] at hn
    obtain ⟨content, hc, rfl⟩ := Option.map_eq_some_iff.1 hn
    exact hfor c h.mem h.located _ rfl hc
  unfold setPublishedMode
  rcases p.resultMode with _ | mode
  · trivial
  refine meets_saw_adapt_bind (meets_saw_any passive_keeps rfl) (fun _ => trivial) fun _ _ => ?_
  refine meets_saw_adapt_bind (meets_saw_any passive_keeps rfl) (fun _ => trivial)
    fun metadata _ => ?_
  dsimp only
  split
  · trivial
  refine meets_saw_adapt_bind (meets_fileIdentity passive_keeps) (fun _ => trivial)
    fun identity _ => ?_
  split
  · trivial
  refine meets_fallible_bind.2 (meets_adapt.2 ?_)
  rintro r s' he
  refine ⟨.of_target he (by simp [FsCall.writes]) hown nofun, ?_⟩
  rcases r with e | _
  · trivial
  · exact (meets_saw_adapt (meets_saw_any passive_keeps rfl)).imp fun _ _ _ => trivial

theorem meets_restoreOriginal_keeps {original : ObservedFile D} {flags : RenameFlags}
    {texts : RestoreTexts} (h : Placed plan root transaction tree c p)
    (hown : ∀ node, s p.target = some node → ¬Foreign plan root tree p.target node) :
    Meets (environment slash actor) (Keeps plan root transaction tree) (fun _ _ => True)
      (restoreOriginal p original flags texts).run s := by
  refine meets_saw_adapt_bind (meets_readRegularFile passive_keeps) (fun _ => trivial)
    fun backup _ => ?_
  dsimp only
  split
  · trivial
  refine meets_fallible_bind.2 (meets_adapt.2 ?_)
  rintro r s' he
  refine ⟨.of_target he (fun l hl => h.writes l ?_) hown (fun h => by cases h), ?_⟩
  · simpa [FsCall.writes, PreparedChange.target, PreparedChange.temp, or_comm] using hl
  rcases r with e | _
  · trivial
  · exact (meets_requireObserved passive_keeps).imp fun _ _ _ => trivial

/-- **A rollback takes back what is the transaction's own only.** -/
theorem meets_rollbackOne_keeps (h : Placed plan root transaction tree c p)
    (hinj : Function.Injective (ContentDigest.calculate : Bytes → D))
    (hact : Outside root transaction actor) :
    Meets (environment slash actor) (Keeps plan root transaction tree) (fun _ _ => True)
      (rollbackOne p).run s := by
  have htemp : ∀ s, Meets (environment slash actor) (Keeps plan root transaction tree)
      (fun _ _ => True) (removeStagedTemp p).run s := fun s =>
    (meets_keeps (S := (· = p.temp)) hact (only_orHook (only_removeStagedTemp rfl))
      fun l hl => hl ▸ h.hidden).imp fun _ _ _ => trivial
  refine meets_saw_bind (meets_verifyBeforeRollback passive_keeps) (fun _ => trivial)
    fun _ ho => ?_
  have hown := h.not_foreign_of_ours hinj ho
  refine meets_fallible_bind.2 (Meets.imp (?_ : Meets _ _ (fun _ _ => True) _ _) ?_)
  · unfold takeBackChange
    rcases p.operation with _ | _ | _
    · refine meets_adapt.2 ?_
      rintro r s' he
      exact ⟨.of_target he (by simp [FsCall.writes]) hown nofun, trivial⟩
    · rcases p.original with _ | original
      · trivial
      refine meets_fallible_bind.2 ((meets_restoreOriginal_keeps h hown).imp ?_)
      rintro (e | _) s' -
      · trivial
      · exact htemp s'
    · rcases p.original with _ | original
      · trivial
      · exact meets_restoreOriginal_keeps h hown
  · rintro (e | _) s' -
    · trivial
    · exact (unchanged passive_keeps (only_syncDirectory (anySite _))).imp fun _ _ _ => trivial

end Change

/-! ### The publication -/

section Loop

variable {actor : Actor} {plan : ChangePlan D} {root : Root} {transaction : String}
  {tree s : Tree} {marker : Marker}

/-- Publishing a change trades its target for what was staged, and leaves what is
staged for others alone. -/
theorem meets_beforePublished_keeps {c : PlannedFileChange D} {p : PreparedChange D} {index : Nat}
    (h : Placed plan root.fd transaction tree c p)
    (hinj : Function.Injective (ContentDigest.calculate : Bytes → D))
    (hact : Outside root.fd transaction actor) :
    Meets (environment slash actor) (Keeps plan root.fd transaction tree)
      (fun r s' => r = .ok () → s' p.target = s p.temp ∧
        ∀ l, ¬Application root.fd transaction l → l ≠ p.temp → s' l = s l)
      (beforePublished root marker index p).run s := by
  have hlook : ∀ {α : Type} {q : Publishing α}, q.run.Only (Allowed (fun _ => False) AnySite) →
      Meets (environment slash actor) (Keeps plan root.fd transaction tree) (Saw s fun _ => True)
        q.run s := looks passive_keeps
  refine meets_saw_bind (hlook (only_verifyNamespace (anySite _))) nofun fun _ _ => ?_
  refine meets_saw_bind (hlook only_verifyMarker) nofun fun _ _ => ?_
  refine meets_saw_bind (hlook (only_verifyParentNamespace (anySite _))) nofun fun _ _ => ?_
  refine meets_fallible_bind.2 ((meets_keeps (S := fun _ => False) hact only_hook nofun).imp ?_)
  rintro (e | _) s₁ hs₁
  · exact nofun
  refine meets_saw_bind (looks passive_keeps (only_verifyParentNamespace (anySite _))) nofun
    fun _ _ => ?_
  refine meets_saw_bind (meets_verifyPrecondition passive_keeps) nofun fun _ hu => ?_
  refine ((meets_publishOne_keeps h hinj hu).and meets_publishOne).mono (fun _ h => h.1) ?_
  rintro r s₂ ⟨-, hr⟩ rfl
  obtain ⟨rfl, -⟩ := hr
  refine ⟨?_, fun l hl hne => ?_⟩
  · rw [Tree.swap_right, hs₁ _ id h.hidden]
  · have hnt : l ≠ p.target := fun he => hl (he ▸ h.application)
    rw [← hs₁ l id hl]
    simp [Tree.swap, hne, hnt]

/-- What follows a published change keeps what is foreign. -/
theorem meets_afterPublished_keeps {c : PlannedFileChange D} {p : PreparedChange D} {index : Nat}
    (h : Placed plan root.fd transaction tree c p) (hact : Outside root.fd transaction actor)
    (hs : s p.target = c.resultingContent.map (privateFile p.stagedIdentity)) :
    Meets (environment slash actor) (Keeps plan root.fd transaction tree)
      (fun _ s' => ∀ l, ¬Application root.fd transaction l → s' l = s l)
      (afterPublished root marker index p).run s := by
  refine meets_fallible_bind.2 (((meets_setPublishedMode_keeps h hs).and (frame
    (S := (· = p.target)) (only_setPublishedMode rfl))).mono (fun _ h => h.1) ?_)
  rintro r s₁ ⟨-, hframe⟩
  have hframe : ∀ l, ¬Application root.fd transaction l → s₁ l = s l := fun l hl =>
    hframe l fun he => hl (he ▸ h.application)
  rcases r with e | _
  · exact hframe
  have hrest : ∀ {q : Publishing Unit}, q.run.Only (AllowedOrHook (fun _ => False) AnySite) →
      Meets (environment slash actor) (Keeps plan root.fd transaction tree)
        (fun _ s' => ∀ l, ¬Application root.fd transaction l → s' l = s l) q.run s₁ := by
    intro q hq
    refine (meets_keeps hact hq nofun).imp fun _ s' hs' l hl => ?_
    exact (hs' l id hl).trans (hframe l hl)
  refine hrest (.fallible_bind (only_orHook only_verifyPublished) fun _ => ?_)
  refine .fallible_bind (only_orHook (only_syncDirectory (anySite _))) fun _ => ?_
  refine .fallible_bind only_hook fun _ => ?_
  refine .fallible_bind (only_orHook (only_verifyNamespace (anySite _))) fun _ => ?_
  refine .fallible_bind (only_orHook only_verifyMarker) fun _ => ?_
  exact only_orHook (only_verifyParentNamespace (anySite _))

/-- A change with its content still staged. -/
def Staged (plan : ChangePlan D) (root : Identity) (transaction : String) (tree : Tree)
    (p : PreparedChange D) (s : Tree) : Prop :=
  ∃ c, Placed plan root transaction tree c p ∧
    s p.temp = c.resultingContent.map (privateFile p.stagedIdentity)

/-- Publishing the changes in turn keeps what is foreign. -/
theorem meets_publishFrom_keeps {prepared : List (PreparedChange D)} {index : Nat}
    (hinj : Function.Injective (ContentDigest.calculate : Bytes → D))
    (hact : Outside root.fd transaction actor)
    (hp : ∀ p ∈ prepared, Staged plan root.fd transaction tree p s)
    (ha : prepared.Pairwise Apart) :
    Meets (environment slash actor) (Keeps plan root.fd transaction tree)
      (fun r _ => r.1.map PreparedChange.unpublished = prepared.map PreparedChange.unpublished)
      (publishFrom root marker index prepared) s := by
  induction prepared generalizing index s with
  | nil => exact rfl
  | cons p rest ih =>
      obtain ⟨hfirst, hrest⟩ := List.pairwise_cons.1 ha
      obtain ⟨c, hplaced, hstaged⟩ := hp p (by simp)
      refine meets_bind.2 ((meets_beforePublished_keeps hplaced hinj hact).imp ?_)
      rintro (e | _) s₁ h₁
      · exact rfl
      obtain ⟨htarget, hkeep⟩ := h₁ rfl
      refine meets_bind.2 ((meets_afterPublished_keeps hplaced hact (htarget.trans hstaged)).imp ?_)
      rintro (e | _) s₂ h₂
      · exact rfl
      -- What the others have staged is out of everybody's way.
      have hothers : ∀ q ∈ rest, Staged plan root.fd transaction tree q s₂ := by
        intro q hq
        obtain ⟨c', hq', hst⟩ := hp q (by simp [hq])
        refine ⟨c', hq', ?_⟩
        rw [h₂ _ hq'.hidden, hkeep _ hq'.hidden (hfirst q hq).2.symm, hst]
      refine meets_bind.2 ((ih hothers hrest).imp ?_)
      rintro ⟨others, result⟩ s₃ h
      exact congrArg (_ :: ·) h

/-- And publishing them with the roll-back. -/
theorem meets_publishPrepared_keeps {prepared : List (PreparedChange D)}
    (hinj : Function.Injective (ContentDigest.calculate : Bytes → D))
    (hact : Outside root.fd transaction actor)
    (hp : ∀ p ∈ prepared, Staged plan root.fd transaction tree p s)
    (ha : prepared.Pairwise Apart) :
    Meets (environment slash actor) (Keeps plan root.fd transaction tree)
      (fun r _ => r.1.map PreparedChange.unpublished = prepared.map PreparedChange.unpublished)
      (publishPrepared root marker transaction prepared) s := by
  refine meets_bind.2 ((meets_keeps
    (S := fun l => ∃ i side, l.name = probeName transaction i side) hact ?_ ?_).imp ?_)
  · refine .fallible_bind only_hook fun _ => ?_
    refine .fallible_bind (only_orHook (only_preflightFilesystemSemantics
      (fun _ i side => ⟨i, side, rfl⟩) (anySite _))) fun _ => ?_
    refine .fallible_bind (only_orHook (only_verifyNamespace (anySite _))) fun _ => ?_
    refine .fallible_bind (only_orHook only_verifyMarker) fun _ => ?_
    exact .fallible_bind (only_orHook (only_verifyAllPreconditions (anySite _))) fun _ => only_hook
  · rintro l ⟨i, side, hl⟩ ⟨-, hr⟩
    exact hr (Or.inr ⟨i, side, hl⟩)
  rintro (e | _) s₁ h₁
  · exact rfl
  have hstaged : ∀ p ∈ prepared, Staged plan root.fd transaction tree p s₁ := by
    intro p hpm
    obtain ⟨c, hplaced, hst⟩ := hp p hpm
    refine ⟨c, hplaced, ?_⟩
    rw [h₁ _ ?_ hplaced.hidden, hst]
    obtain ⟨index, hprep⟩ := hplaced.prepares
    rintro ⟨i, side, he⟩
    exact tempName_ne_probeName (hprep.tempName.symm.trans he)
  refine meets_bind.2 ((meets_publishFrom_keeps hinj hact hstaged ha).imp ?_)
  rintro ⟨prepared', e | _⟩ s₂ h₂
  · exact h₂
  refine meets_bind.2 ((unchanged passive_keeps ?_).imp fun _ _ _ => h₂)
  exact .fallible_bind (only_verifyNamespace (anySite _)) fun _ =>
    .fallible_bind only_verifyMarker fun _ => only_verifyAllParentNamespaces (anySite _)

/-- The rollback of what has been published. -/
theorem meets_rollbackAll_keeps {prepared : List (PreparedChange D)}
    (hinj : Function.Injective (ContentDigest.calculate : Bytes → D))
    (hact : Outside root.fd transaction actor)
    (hp : ∀ p ∈ prepared, ∃ c, Placed plan root.fd transaction tree c p) :
    Meets (environment slash actor) (Keeps plan root.fd transaction tree) (fun _ _ => True)
      (allOk rollbackOne prepared) s := by
  induction prepared generalizing s with
  | nil => trivial
  | cons p rest ih =>
      obtain ⟨c, h⟩ := hp p (by simp)
      refine meets_bind.2 ((meets_rollbackOne_keeps h hinj hact).imp fun r s₁ _ => ?_)
      exact meets_bind.2 ((ih fun q hq => hp q (by simp [hq])).imp fun _ _ _ => trivial)

/-- A change prepared in its slot is placed. -/
theorem Placed.of_slot {T : Tree} {p : PreparedChange D} (hd : SameDirectories tree T)
    (hT : ∀ l, l ≠ root.marker → T l = tree l) (hs : Setting T root.fd transaction plan)
    {c : PlannedFileChange D} {index : Nat} (hc : c ∈ plan.changes)
    (h : Prepares T root.fd transaction index c p) : Placed plan root.fd transaction tree c p := by
  have hslot : Slot T root.fd transaction 0 plan.changes p := ⟨index, Nat.zero_le _, c, hc, h⟩
  have hne : p.target ≠ root.marker := hs.target_ne_marker hslot
  exact {
    mem := hc
    located := locate_congr hd root.fd c.path ▸ h.target
    application := ⟨hne, hs.target_not_reserved hslot⟩
    hidden := fun ha => ha.2 hslot.reserved_temp
    prepares := ⟨index, h.of_staged hd (hT _ hne)⟩ }

/-- What was published does not matter to that. -/
theorem Placed.of_unpublished {root : Identity} {c : PlannedFileChange D} {p q : PreparedChange D}
    (h : Placed plan root transaction tree c p) (hpq : p.unpublished = q.unpublished) :
    Placed plan root transaction tree c q := by
  have hp : Placed plan root transaction tree c p.unpublished :=
    { h with prepares := h.prepares.imp fun _ h => { h with } }
  rw [hpq] at hp
  exact { hp with prepares := hp.prepares.imp fun _ h => { h with } }

/-- **Under the marker** nothing foreign is touched. -/
theorem meets_publishMarked_keeps {f : RegularFile}
    (hinj : Function.Injective (ContentDigest.calculate : Bytes → D))
    (hact : Outside root.fd transaction actor)
    (hd : SameDirectories tree (Function.update tree root.marker (some (.file f))))
    (hs : Setting (Function.update tree root.marker (some (.file f))) root.fd transaction plan) :
    Meets (environment slash actor) (Keeps plan root.fd transaction tree) (fun _ _ => True)
      (publishMarked root marker plan transaction).run
      (Function.update tree root.marker (some (.file f))) := by
  have hT : ∀ l, l ≠ root.marker → Function.update tree root.marker (some (.file f)) l = tree l :=
    fun l hl => Function.update_of_ne hl _ _
  have hmarker : ¬Application root.fd transaction root.marker := fun h => h.1 rfl
  -- What follows writes temporary files and the marker.
  have hquiet : ∀ {α : Type} {prepared : List (PreparedChange D)} {s : Tree}
      {q : Program PublisherCall PublisherCall.Reply α},
      (∀ p ∈ prepared, ∃ c, Placed plan root.fd transaction tree c p) →
      q.Only (Allowed (fun l => Temps prepared l ∨ l = root.marker) AnySite) →
      Meets (environment slash actor) (Keeps plan root.fd transaction tree) (fun _ _ => True) q
        s := by
    refine fun hp hq => (meets_keeps hact (only_orHook hq) ?_).imp fun _ _ _ => trivial
    rintro l (⟨p, hpm, rfl⟩ | rfl)
    · obtain ⟨c, h⟩ := hp p hpm
      exact h.hidden
    · exact hmarker
  refine meets_fallible_bind.2 (meets_lift.2 (((meets_prepareChanges hs).and (meets_keeps
    (S := fun l => Reserved transaction l.name) hact (only_orHook (only_prepareChanges
      (fun _ _ => reserved_tempName) (anySite _))) fun l hl ha => ha.2 hl)).mono
        (fun _ h => h.2) ?_))
  rintro ⟨prepared, result⟩ s₁ ⟨h, -⟩
  have hplaced : ∀ p ∈ prepared, ∃ c, Placed plan root.fd transaction tree c p := by
    intro p hp
    obtain ⟨index, -, c, hc, hprep⟩ := h.slots p hp
    exact ⟨c, .of_slot hd hT hs hc hprep⟩
  rcases result with e | _
  · exact hquiet hplaced (only_cleanupBeforePublication (fun p hp => Or.inl ⟨p, hp, rfl⟩)
      (fun _ => Or.inr rfl) (anySite _))
  have hstaged : ∀ p ∈ prepared, Staged plan root.fd transaction tree p s₁ := by
    intro p hp
    obtain ⟨-, index, c, hc, hprep, -, hst⟩ := h.ready rfl p hp
    exact ⟨c, .of_slot hd hT hs hc hprep, hst⟩
  refine meets_fallible_bind.2 (meets_lift.2 ((meets_publishPrepared_keeps hinj hact hstaged
    h.apart).imp ?_))
  rintro ⟨prepared', result⟩ s₂ hsame
  have hplaced' : ∀ p ∈ prepared', ∃ c, Placed plan root.fd transaction tree c p := by
    intro p hp
    obtain ⟨q, hq, he⟩ := List.mem_map.1 (hsame ▸ List.mem_map_of_mem hp)
    obtain ⟨c, h⟩ := hplaced q hq
    exact ⟨c, h.of_unpublished he⟩
  rcases result with e | _
  · refine meets_fallible_bind.2 (meets_lift.2 ((meets_rollbackAll_keeps hinj hact fun p hp => ?_).imp
      ?_))
    · exact hplaced' p (by simpa using (List.mem_filter.1 hp).1)
    rintro (_ | _) s₃ -
    · trivial
    refine hquiet hplaced' (.fallible_bind (only_takeBack (fun p hp => Or.inl ⟨p, hp, rfl⟩)
      (fun _ => Or.inr rfl) (anySite _)).lift fun complete => ?_)
    rcases complete with _ | _
    · trivial
    · exact .fallible_bind (only_syncDirectory (anySite _)).attempt fun _ => trivial
  · exact hquiet hplaced' (only_commit (fun p hp => Or.inl ⟨p, hp, rfl⟩) (Or.inr rfl) (anySite _)
      (anySite _))

end Loop

/-! ### The whole publication -/

section Publication

variable {plan : ChangePlan D} {process : Process} {path : Option String} {tree : Tree}
  {root : Identity} {transaction : String}

/-- **Every publication** keeps what is foreign. -/
theorem meets_publishChangePlan_keeps (hw : tree.WellFormed)
    (hinj : Function.Injective (ContentDigest.calculate : Bytes → D))
    (hroot : applicationDirectory slash process path tree = some root)
    (htx : transactionId process = .ok transaction) (hu : Unused transaction plan tree) :
    Meets (environment slash (outsideActor slash process path tree))
      (Keeps plan root transaction tree) (fun _ _ => True)
      (publishChangePlan process path plan).run tree := by
  have hact : Outside root transaction (outsideActor slash process path tree) :=
    fun _ _ _ _ h l hl => h l hl root transaction hroot htx
  unfold publishChangePlan
  split
  · trivial
  next hv =>
  split
  · trivial
  refine meets_saw_bind (meets_open passive_keeps) (fun _ => trivial) fun root' hroot' => ?_
  obtain rfl : root'.fd = root := Option.some.inj (hroot'.symm.trans hroot)
  split
  · trivial
  next hany =>
  have hn : ∀ c ∈ plan.changes, c.path.text ≠ mutationMarker := by simpa using hany
  rw [htx]
  change Meets _ _ _ (createMarker root' plan transaction >>= fun marker =>
    publishMarked root' marker plan transaction).run tree
  have honly : (createMarker root' plan transaction).run.Only (Allowed (· = root'.marker) AnySite) :=
    only_createMarker rfl (anySite _)
  refine meets_fallible_bind.2 (((meets_keeps hact (only_orHook honly) ?_).and
    (meets_actor honly meets_createMarker)).mono (fun _ h => h.1) ?_)
  · rintro l rfl h
    exact h.1 rfl
  rintro (e | marker) s ⟨-, h⟩
  · trivial
  obtain ⟨hm, f, rfl⟩ := h
  obtain ⟨hd, hs⟩ := Setting.of_marked (f := f) hw hv hu hm hn
  exact meets_publishMarked_keeps hinj hact hd hs

/-- Along a run whose calls keep foreign entries, one that the actor leaves alone stays. -/
theorem Keeps.of_runs {env : Tree → (c : PublisherCall) → c.Reply → Tree → Prop} {α : Type}
    {p p' : Program PublisherCall PublisherCall.Reply α} {s s' : Tree}
    {t : List (Event PublisherCall PublisherCall.Reply Tree)} (hr : Runs env p s t p' s')
    {l : Location} {node : Node} (hk : ∀ e ∈ t, Keeps plan root transaction tree e)
    (ht : ∀ e ∈ t, ¬IsCall e → e.after l = e.before l) (hl : Application root transaction l)
    (hf : Foreign plan root tree l node) (hs : s l = some node) : s' l = some node := by
  induction hr with
  | refl p s => exact hs
  | @step s s₁ s₂ c r next t p' he hr ih =>
      obtain ⟨hk, hks⟩ := List.forall_mem_cons.1 hk
      obtain ⟨ht, hts⟩ := List.forall_mem_cons.1 ht
      refine ih hks hts ?_
      cases c with
      | fs c => exact hk.foreign trivial l node hl hs hf
      | hook point => exact (ht id).trans hs

/-- **No concurrent edit is lost.**  What the actor has left in the application and is
foreign to the transaction is there in the end, unless the actor has changed it
again; and each change is published over the original only. -/
theorem publish_keeps_foreign {t : List (Event PublisherCall PublisherCall.Reply Tree)}
    {r : Except MutationError MutationReceipt} {tree' : Tree} (hw : tree.WellFormed)
    (hinj : Function.Injective (ContentDigest.calculate : Bytes → D))
    (hu : ∀ transaction, transactionId process = .ok transaction → Unused transaction plan tree)
    (hr : Runs (environment slash (outsideActor slash process path tree))
      (publishChangePlan process path plan).run tree t (.done r) tree') :
    ∀ root transaction, applicationDirectory slash process path tree = some root →
      transactionId process = .ok transaction →
      (∀ t₁ e t₂ l node, t = t₁ ++ e :: t₂ → ¬IsCall e → Application root transaction l →
        e.after l = some node → Foreign plan root tree l node →
        (∀ e' ∈ t₂, ¬IsCall e' → e'.after l = e'.before l) → tree' l = some node) ∧
      ∀ e ∈ t, ∀ l, Application root transaction l → PublishesTo l e →
        ∃ c ∈ plan.changes, locate tree root c.path = some l ∧ Fits c (tree l) (e.before l) := by
  intro root transaction hroot htx
  have hk := ((meets_publishChangePlan_keeps hw hinj hroot htx (hu transaction htx)).of_runs hr).1
  refine ⟨?_, fun e he => (hk e he).fits⟩
  rintro t₁ e t₂ l node rfl - hl hn hf ht
  obtain ⟨q, hq⟩ := hr.after
  exact Keeps.of_runs hq (fun e' he' => hk e' (by simp [he'])) ht hl hf hn

end Publication

/-- Somebody writes the draft right before it is to be created. -/
def draftWriter : Scenario where
  fails _ := false
  act point m := (.ok (), if point = .beforeChange 0 then m.put draftLocation [9] else m)

/-- The writer of the example writes outside the transaction. -/
theorem outsideLocation_draft :
    OutsideLocation slashDirectory draftProcess (some "/app") (draftTree none) draftLocation := by
  have hm : draftLocation.name ≠ mutationMarker := by decide +kernel
  have hd : draftLocation.name.toList.head? ≠ some '.' := by decide +kernel
  exact fun root transaction _ _ => ⟨fun h => hm (congrArg Location.name h), fun h => hd h.head⟩

/-- So it is an actor that the theorem allows. -/
theorem outsideActor_draftWriter (point : HookPoint) (m : Machine) :
    outsideActor slashDirectory draftProcess (some "/app") (draftTree none) point m.tree
      (draftWriter.act point m).1 (draftWriter.act point m).2.tree := by
  intro l hl
  simp only [draftWriter] at hl
  split at hl
  · by_cases hd : l = draftLocation
    · exact hd ▸ outsideLocation_draft
    · exact absurd (Function.update_of_ne hd _ _) hl
  · exact absurd rfl hl

/-- The draft of somebody else is still there in the end, and was not published over. -/
theorem publish_keeps_foreign_draft :
    let run := publishRun draftWriter (createDraft [1]) (draftMachine none nofun)
    (run.2.2.tree draftLocation).isSome ∧ run.2.1.isOk = false ∧
      (∀ t₁ e t₂ l node, run.1 = t₁ ++ e :: t₂ → ¬IsCall e → Application appDirectory "7-1" l →
        e.after l = some node → Foreign (createDraft [1]) appDirectory (draftTree none) l node →
        (∀ e' ∈ t₂, ¬IsCall e' → e'.after l = e'.before l) → run.2.2.tree l = some node) ∧
      ∀ e ∈ run.1, ∀ l, Application appDirectory "7-1" l → PublishesTo l e →
        ∃ c ∈ (createDraft [1]).changes, locate (draftTree none) appDirectory c.path = some l ∧
          Fits c (draftTree none l) (e.before l) := by
  have hw : (draftTree none).WellFormed := draftTree_wellFormed nofun
  exact ⟨by decide +kernel, by decide +kernel, publish_keeps_foreign hw
    PlainDigest.calculate_injective (fun _ _ => unused_draftTree (by decide +kernel))
    (runs_publishRun (m := draftMachine none nofun) outsideActor_draftWriter) appDirectory "7-1"
    (by decide +kernel) (by decide +kernel)⟩

end Mutator
end Hegira
