/-
# The phases of a change

A change is first ready: its target is untouched and its content staged beside
it.  Publishing trades the two (`meets_publishOne`), so a published change holds
the original where the staged file was, and a rollback trades them back.  The
loops of `publish_with` are followed here over the list of prepared changes,
with nobody else at work: `Ready` for a change still to come, `Held` for one
whose original can be brought back, `Final` for one that has its result.

The tree `T` is the one with the marker just created.
-/

import Hegira.Mutator.Transaction

namespace Hegira
namespace Mutator

open Program

set_option linter.unusedSectionVars false

variable {D : Type} [ContentDigest D] [DecidableEq D]

/-- What a publication starts from, once its marker is there. -/
structure Setting (T : Tree) (root : Identity) (transaction : String) (plan : ChangePlan D) :
    Prop where
  wellFormed : T.WellFormed
  free : ∀ l, Reserved transaction l.name → T l = none
  names : ∀ c ∈ plan.changes, ¬Reserved transaction c.path.fileName
  paths : plan.changes.Pairwise fun c c' => c.path ≠ c'.path
  unmarked : ∀ c ∈ plan.changes, c.path.text ≠ mutationMarker

/-- `p` is a change of the plan with an index from `start` on. -/
def Slot (T : Tree) (root : Identity) (transaction : String) (start : Nat)
    (changes : List (PlannedFileChange D)) (p : PreparedChange D) : Prop :=
  ∃ index ≥ start, ∃ c ∈ changes, Prepares T root transaction index c p

/-- Two changes use different files. -/
def Apart (p q : PreparedChange D) : Prop :=
  p.target ≠ q.target ∧ p.temp ≠ q.temp

/-- The locations of the temporary files. -/
def Temps (prepared : List (PreparedChange D)) (l : Location) : Prop :=
  ∃ p ∈ prepared, l = p.temp

/-- The locations of the changes. -/
def Places (prepared : List (PreparedChange D)) (l : Location) : Prop :=
  ∃ p ∈ prepared, l = p.target ∨ l = p.temp

variable {T : Tree} {root : Identity} {transaction : String} {plan : ChangePlan D}

section Slot

variable {start : Nat} {changes : List (PlannedFileChange D)} {p q : PreparedChange D}

/-- A slot among some changes is one among more. -/
theorem Slot.mono {start' : Nat} {changes' : List (PlannedFileChange D)}
    (h : Slot T root transaction start changes p) (hs : start' ≤ start)
    (hc : ∀ c ∈ changes, c ∈ changes') : Slot T root transaction start' changes' p := by
  obtain ⟨index, hi, c, hm, hp⟩ := h
  exact ⟨index, hs.trans hi, c, hc c hm, hp⟩

/-- A temporary name is one of the transaction. -/
theorem Slot.reserved_temp (h : Slot T root transaction start changes p) :
    Reserved transaction p.temp.name := by
  obtain ⟨index, -, c, -, hp⟩ := h
  exact Or.inl ⟨index, hp.tempName⟩

/-- The target is named as the change says. -/
theorem Prepares.target_name {index : Nat} {c : PlannedFileChange D}
    (h : Prepares T root transaction index c p) : p.target.name = c.path.fileName := by
  obtain ⟨d, -, hd⟩ := Option.map_eq_some_iff.1 h.target
  rw [← hd]

end Slot

namespace Setting

variable {p q : PreparedChange D}

/-- No target has a name of the transaction. -/
theorem target_not_reserved (hs : Setting T root transaction plan)
    (h : Slot T root transaction 0 plan.changes p) : ¬Reserved transaction p.target.name := by
  obtain ⟨index, -, c, hc, hp⟩ := h
  exact hp.target_name ▸ hs.names c hc

/-- No target is a temporary file. -/
theorem target_ne_temp (hs : Setting T root transaction plan)
    (hp : Slot T root transaction 0 plan.changes p)
    (hq : Slot T root transaction 0 plan.changes q) : p.target ≠ q.temp :=
  fun h => hs.target_not_reserved hp (h ▸ hq.reserved_temp)

/-- A temporary name was free before. -/
theorem temp_free (hs : Setting T root transaction plan)
    (hp : Slot T root transaction 0 plan.changes p) : T p.temp = none :=
  hs.free _ hp.reserved_temp

/-- No target is the marker. -/
theorem target_ne_marker (hs : Setting T root transaction plan)
    (hp : Slot T root transaction 0 plan.changes p) : p.target ≠ ⟨root, mutationMarker⟩ := by
  obtain ⟨index, -, c, hc, hp⟩ := hp
  exact fun h => hs.unmarked c hc (hs.wellFormed.text_of_locate_marker (h ▸ hp.target))

/-- No temporary file is the marker. -/
theorem temp_ne_marker (hp : Slot T root transaction 0 plan.changes p) :
    p.temp ≠ ⟨root, mutationMarker⟩ :=
  fun h => hp.reserved_temp.ne_marker (congrArg Location.name h)

/-- A created file was not there. -/
theorem target_free (hp : Slot T root transaction 0 plan.changes p)
    (ho : p.operation = .create) : T p.target = none := by
  obtain ⟨index, -, c, -, hp⟩ := hp
  have h := hp.original
  rw [hp.operation] at ho
  cases c <;> simp_all [Observes, PlannedFileChange.operation, PlannedFileChange.precondition]

end Setting

/-- Prepared, with the target untouched and the content staged. -/
def Ready (T : Tree) (root : Identity) (transaction : String) (plan : ChangePlan D)
    (p : PreparedChange D) (tree : Tree) : Prop :=
  p.published = false ∧ ∃ index, ∃ c ∈ plan.changes, Prepares T root transaction index c p ∧
    tree p.target = T p.target ∧
    tree p.temp = c.resultingContent.map (privateFile p.stagedIdentity)

/-- The original is where it was or, after publication, at the temporary file. -/
def Held (T : Tree) (p : PreparedChange D) (tree : Tree) : Prop :=
  tree (if p.published then p.temp else p.target) = T p.target

/-- The entry a change ends with: the staged file with its mode set, or nothing. -/
def finalNode (c : PlannedFileChange D) (p : PreparedChange D) : Option Node :=
  c.resultingContent.map fun content => .file ⟨p.stagedIdentity, content,
    regularMode (p.original.elim createdMode fun observed => observed.mode &&& 0o777)⟩

/-- Published with its result, the original at the temporary file. -/
def Final (T : Tree) (root : Identity) (transaction : String) (plan : ChangePlan D)
    (p : PreparedChange D) (tree : Tree) : Prop :=
  p.published = true ∧ ∃ index, ∃ c ∈ plan.changes, Prepares T root transaction index c p ∧
    tree p.temp = T p.target ∧ tree p.target = finalNode c p

section

variable {p : PreparedChange D} {tree tree' : Tree}

/-- A change that is ready has its slot. -/
theorem Ready.slot (h : Ready T root transaction plan p tree) :
    Slot T root transaction 0 plan.changes p := by
  obtain ⟨-, index, c, hc, hp, -⟩ := h
  exact ⟨index, Nat.zero_le _, c, hc, hp⟩

/-- A change that is ready holds the original at its target. -/
theorem Ready.held (h : Ready T root transaction plan p tree) : Held T p tree := by
  obtain ⟨hf, -, c, -, -, ht, -⟩ := h
  simpa [Held, hf] using ht

/-- A published change holds the original at its temporary name. -/
theorem Final.held (h : Final T root transaction plan p tree) : Held T p tree := by
  obtain ⟨hf, -, c, -, -, ht, -⟩ := h
  simpa [Held, hf] using ht

/-- Being ready concerns two locations only. -/
theorem Ready.congr (h : Ready T root transaction plan p tree) (ht : tree' p.target = tree p.target)
    (hp : tree' p.temp = tree p.temp) : Ready T root transaction plan p tree' := by
  simpa only [Ready, ht, hp] using h

theorem Held.congr (h : Held T p tree) (ht : tree' p.target = tree p.target)
    (hp : tree' p.temp = tree p.temp) : Held T p tree' := by
  unfold Held at *
  split at h <;> simp_all

theorem Final.congr (h : Final T root transaction plan p tree) (ht : tree' p.target = tree p.target)
    (hp : tree' p.temp = tree p.temp) : Final T root transaction plan p tree' := by
  simpa only [Final, ht, hp] using h

end

variable {slash : Identity} {tree : Tree}

/-! ### Preparation -/

/-- Files may come and go among the same directories. -/
theorem sameDirectories_update {l : Location} {node : Option Node}
    (h : ∀ d, tree l ≠ some (.directory d)) (hn : ∀ d, node ≠ some (.directory d)) :
    SameDirectories tree (Function.update tree l node) := by
  intro k d
  by_cases hk : k = l
  · subst hk
    simp [h d, hn d]
  · rw [Function.update_of_ne hk]

/-- A change prepared while others are staged is prepared in `T`. -/
theorem Prepares.of_staged {index : Nat} {c : PlannedFileChange D} {p : PreparedChange D}
    (hd : SameDirectories T tree) (ht : tree p.target = T p.target)
    (h : Prepares tree root transaction index c p) : Prepares T root transaction index c p where
  path := h.path
  target := locate_congr hd root c.path ▸ h.target
  tempName := h.tempName
  operation := h.operation
  expected := h.expected
  resultDigest := h.resultDigest
  original := by simpa only [Observes, ht] using h.original
  resultMode := h.resultMode

/-- How the preparation of `changes` from `index` on may end. -/
structure Prepared (T : Tree) (root : Identity) (transaction : String) (plan : ChangePlan D)
    (index : Nat) (changes : List (PlannedFileChange D)) (tree : Tree)
    (prepared : List (PreparedChange D)) (result : Except MutationError Unit) (tree' : Tree) :
    Prop where
  slots : ∀ p ∈ prepared, Slot T root transaction index changes p
  apart : prepared.Pairwise Apart
  frame : (∀ e, result = .error e → e.kind ≠ .recoveryRequired) →
    AgreeOff (Temps prepared) tree tree'
  ready : result = .ok () → ∀ p ∈ prepared, Ready T root transaction plan p tree'
  all : result = .ok () → ∀ c ∈ changes, ∃ p ∈ prepared, ∃ k, Prepares T root transaction k c p

/-- Staging touches the temporary name only. -/
theorem PreparedChange.stage_apply_of_ne {p : PreparedChange D} {c : PlannedFileChange D}
    {l : Location} (h : l ≠ p.temp) : p.stage c tree l = tree l := by
  unfold PreparedChange.stage
  rcases c.resultingContent with _ | content
  · rfl
  · exact Function.update_of_ne h _ _

/-- A free temporary name holds the planned bytes. -/
theorem PreparedChange.stage_temp {p : PreparedChange D} {c : PlannedFileChange D}
    (h : tree p.temp = none) :
    p.stage c tree p.temp = c.resultingContent.map (privateFile p.stagedIdentity) := by
  unfold PreparedChange.stage
  rcases c.resultingContent with _ | content
  · exact h
  · exact Function.update_self _ _ _

/-- Staging makes no directory. -/
theorem PreparedChange.sameDirectories_stage {p : PreparedChange D} {c : PlannedFileChange D}
    (h : tree p.temp = none) : SameDirectories tree (p.stage c tree) := by
  unfold PreparedChange.stage
  split
  · exact sameDirectories_update (by simp [h]) (by simp [privateFile])
  · exact fun _ _ => Iff.rfl

/-- Each change that is prepared is ready, and stays so while the next ones are. -/
theorem meets_prepareFrom {actor : Actor} {root : Root} {index : Nat}
    {changes : List (PlannedFileChange D)} (hs : Setting T root.fd transaction plan)
    (hc : ∀ c ∈ changes, c ∈ plan.changes)
    (hp : changes.Pairwise fun c c' => c.path ≠ c'.path) (hd : SameDirectories T tree)
    (ha : AgreeOff (fun l => ∃ j < index, l.name = tempName transaction j) T tree) :
    Meets (environment slash actor) (fun _ => True)
      (fun r tree' => Prepared T root.fd transaction plan index changes tree r.1 r.2 tree')
      (prepareFrom root transaction index changes) tree := by
  induction changes generalizing index tree with
  | nil =>
      exact ⟨by simp, .nil, fun _ => .refl, by simp, by simp⟩
  | cons c rest ih =>
      refine meets_bind.2 (meets_prepareChange.imp ?_)
      rintro (e | p) tree₁ h
      · -- This change could not be prepared, and has left nothing behind.
        refine ⟨by simp, .nil, fun hk => ?_, nofun, nofun⟩
        rcases h with h | rfl
        · exact absurd h (hk e rfl)
        · exact .refl
      obtain ⟨⟨hprep, hpub⟩, rfl⟩ := h
      have hname : p.target.name = c.path.fileName := hprep.target_name
      have htarget : tree p.target = T p.target := by
        refine ha _ ?_
        rintro ⟨j, -, hj⟩
        exact hs.names c (hc c (by simp)) (hname ▸ hj ▸ reserved_tempName)
      have htemp : tree p.temp = none := by
        rw [ha p.temp, hs.free p.temp (Or.inl ⟨index, hprep.tempName⟩)]
        rintro ⟨j, hj, h⟩
        have := tempName_injective (hprep.tempName.symm.trans h)
        omega
      have hprep := hprep.of_staged hd htarget
      have hframe : AgreeOff (fun l => l = p.temp) tree (p.stage c tree) :=
        fun l hl => PreparedChange.stage_apply_of_ne hl
      refine meets_bind.2 ((ih (fun c hm => hc c (by simp [hm]))
        (List.pairwise_cons.1 hp).2 (hd.trans (PreparedChange.sameDirectories_stage htemp)) ?_).imp
        ?_)
      · intro l hl
        rw [hframe l fun h => hl ⟨index, by omega, h ▸ hprep.tempName⟩]
        exact ha l fun ⟨j, hj, h⟩ => hl ⟨j, by omega, h⟩
      rintro ⟨others, result⟩ tree' h
      have hne : p.target ≠ p.temp := fun he =>
        hs.names c (hc c (by simp)) (hname ▸ he ▸ Or.inl ⟨index, hprep.tempName⟩)
      have hnot : ∀ q ∈ others, p.temp ≠ q.temp := by
        intro q hq he
        obtain ⟨k, hk, c', -, hq'⟩ := h.slots q hq
        have := tempName_injective
          (hprep.tempName.symm.trans ((congrArg Location.name he).trans hq'.tempName))
        omega
      have hstay : result = .ok () → tree' p.temp = p.stage c tree p.temp ∧
          tree' p.target = p.stage c tree p.target := by
        rintro rfl
        refine ⟨h.frame nofun _ ?_, h.frame nofun _ ?_⟩
        · rintro ⟨q, hq, he⟩
          exact hnot q hq he
        · rintro ⟨q, hq, he⟩
          exact hs.names c (hc c (by simp)) (hname ▸ he ▸ (h.slots q hq).reserved_temp)
      refine ⟨?_, ?_, ?_, ?_, ?_⟩
      · rintro q (_ | ⟨_, hq⟩)
        · exact ⟨index, le_rfl, c, by simp, hprep⟩
        · exact (h.slots q hq).mono (Nat.le_succ _) fun _ => List.mem_cons_of_mem _
      · refine List.pairwise_cons.2 ⟨fun q hq => ⟨fun he => ?_, hnot q hq⟩, h.apart⟩
        obtain ⟨k, -, c', hc', hq'⟩ := h.slots q hq
        exact (List.pairwise_cons.1 hp).1 c' hc'
          (hs.wellFormed.locate_injective hprep.target (he ▸ hq'.target))
      · intro hk
        refine (hframe.mono ?_).trans ((h.frame hk).mono ?_)
        · rintro l rfl
          exact ⟨p, by simp, rfl⟩
        · rintro l ⟨q, hq, rfl⟩
          exact ⟨q, by simp [hq], rfl⟩
      · rintro rfl q (_ | ⟨_, hq⟩)
        · obtain ⟨hst, hsx⟩ := hstay rfl
          refine ⟨hpub, index, c, hc c (by simp), hprep, ?_, ?_⟩
          · rw [hsx, hframe _ hne, htarget]
          · rw [hst, PreparedChange.stage_temp htemp]
        · exact h.ready rfl q hq
      · rintro rfl c' (_ | ⟨_, hc'⟩)
        · exact ⟨p, by simp, index, hprep⟩
        · obtain ⟨q, hq, k, hk⟩ := h.all rfl c' hc'
          exact ⟨q, by simp [hq], k, hk⟩

/-- The whole plan is prepared, or what was staged is known. -/
theorem meets_prepareChanges {actor : Actor} {root : Root}
    (hs : Setting T root.fd transaction plan) :
    Meets (environment slash actor) (fun _ => True)
      (fun r tree' => Prepared T root.fd transaction plan 0 plan.changes T r.1 r.2 tree')
      (prepareChanges root plan transaction) T := by
  refine meets_bind.2 ((meets_prepareFrom hs (fun _ => id) hs.paths (fun _ _ => Iff.rfl)
    .refl).imp ?_)
  rintro ⟨prepared, e | _⟩ tree₁ h
  · exact h
  · refine meets_bind.2 ((unchanged passive_true (only_syncUniqueParents (anySite _))).imp ?_)
    rintro r tree₂ rfl
    exact ⟨h.slots, h.apart, fun _ => h.frame nofun, fun _ => h.ready rfl, fun _ => h.all rfl⟩

/-! ### Publication -/

/-- With nobody else at work a hook changes nothing. -/
theorem meets_hook {point : HookPoint} :
    Meets (environment slash noActor) (fun _ => True) (Saw tree fun _ => True) (hook point).run
      tree := by
  rintro r tree' ⟨rfl, rfl⟩
  exact ⟨trivial, rfl, fun _ _ => trivial⟩

/-- A published change has exchanged its two files. -/
theorem meets_beforePublished {root : Root} {marker : Marker} {index : Nat}
    {p : PreparedChange D} :
    Meets (environment slash noActor) (fun _ => True)
      (Did tree fun _ tree' => tree' = tree.swap p.temp p.target)
      (beforePublished root marker index p).run tree := by
  refine meets_saw_bind (looks passive_true (only_verifyNamespace (anySite _)))
    (fun _ => rfl) fun _ _ => ?_
  refine meets_saw_bind meets_verifyMarker (fun _ => rfl) fun _ _ => ?_
  refine meets_saw_bind (looks passive_true (only_verifyParentNamespace (anySite _)))
    (fun _ => rfl) fun _ _ => ?_
  refine meets_saw_bind meets_hook (fun _ => rfl) fun _ _ => ?_
  refine meets_saw_bind (looks passive_true (only_verifyParentNamespace (anySite _)))
    (fun _ => rfl) fun _ _ => ?_
  refine meets_saw_bind (meets_verifyPrecondition passive_true) (fun _ => rfl) fun _ _ => ?_
  refine meets_publishOne.imp ?_
  rintro (e | _) tree' h
  · exact h
  · exact h.1

/-- After the mode is set only looks follow. -/
theorem meets_afterPublished {root : Root} {marker : Marker} {index : Nat}
    {p : PreparedChange D} :
    Meets (environment slash noActor) (fun _ => True)
      (fun r tree' => AgreeOff (· = p.target) tree tree' ∧ (r = .ok () → match p.resultMode with
        | none => tree' = tree
        | some mode => ∃ f, tree p.target = some (.file f) ∧ f.identity = p.stagedIdentity ∧
            tree' = Function.update tree p.target
              (some (.file { f with mode := regularMode mode }))))
      (afterPublished root marker index p).run tree := by
  refine meets_fallible_bind.2 ((meets_setPublishedMode.and (frame (S := (· = p.target))
    (only_setPublishedMode rfl))).mono (fun _ _ => trivial) ?_)
  rintro (e | _) tree₁ ⟨hmode, hframe⟩
  · exact ⟨hframe, nofun⟩
  have hmode := hmode rfl
  have hlook : ∀ {tree₂ : Tree} {r : Except MutationError Unit}, tree₂ = tree₁ →
      AgreeOff (· = p.target) tree tree₂ ∧ (r = .ok () → match p.resultMode with
        | none => tree₂ = tree
        | some mode => ∃ f, tree p.target = some (.file f) ∧ f.identity = p.stagedIdentity ∧
            tree₂ = Function.update tree p.target
              (some (.file { f with mode := regularMode mode }))) := by
    rintro _ _ rfl
    exact ⟨hframe, fun _ => hmode⟩
  refine meets_saw_bind (looks passive_true (only_verifyPublished))
    (fun _ => hlook rfl) fun _ _ => ?_
  refine meets_saw_bind (looks passive_true (only_syncDirectory (anySite _)))
    (fun _ => hlook rfl) fun _ _ => ?_
  refine meets_saw_bind meets_hook (fun _ => hlook rfl) fun _ _ => ?_
  refine meets_saw_bind (looks passive_true (only_verifyNamespace (anySite _)))
    (fun _ => hlook rfl) fun _ _ => ?_
  refine meets_saw_bind meets_verifyMarker (fun _ => hlook rfl) fun _ _ => ?_
  exact (unchanged passive_true (only_verifyParentNamespace (anySite _))).imp fun _ _ h => hlook h

/-- The change before it was published. -/
def PreparedChange.unpublished (p : PreparedChange D) : PreparedChange D :=
  { p with published := false }

/-- An unpublished change is as it was prepared. -/
theorem PreparedChange.unpublished_eq {p : PreparedChange D} (h : p.published = false) :
    p.unpublished = p := by
  rw [unpublished, ← h]

/-- How the publication of `prepared` may end. -/
structure Publishes (T : Tree) (root : Identity) (transaction : String) (plan : ChangePlan D)
    (prepared : List (PreparedChange D)) (tree : Tree) (prepared' : List (PreparedChange D))
    (result : Except MutationError Unit) (tree' : Tree) : Prop where
  same : prepared'.map PreparedChange.unpublished = prepared
  frame : AgreeOff (Places prepared) tree tree'
  held : ∀ p ∈ prepared', Held T p tree'
  final : result = .ok () → ∀ p ∈ prepared', Final T root transaction plan p tree'

/-- A step of the loop publishes one change. -/
theorem Ready.final {p : PreparedChange D} {tree' : Tree}
    (h : Ready T root transaction plan p tree) (hne : p.target ≠ p.temp)
    (hmode : match p.resultMode with
      | none => tree' = tree.swap p.temp p.target
      | some mode => ∃ f, tree.swap p.temp p.target p.target = some (.file f) ∧
          f.identity = p.stagedIdentity ∧ tree' = Function.update (tree.swap p.temp p.target)
            p.target (some (.file { f with mode := regularMode mode }))) :
    Final T root transaction plan { p with published := true } tree' := by
  obtain ⟨-, index, c, hc, hprep, htarget, htemp⟩ := h
  refine ⟨rfl, index, c, hc, { hprep with }, ?_⟩
  rw [hprep.resultMode] at hmode
  have hback : tree.swap p.temp p.target p.temp = T p.target := by
    rw [Tree.swap_left, htarget]
  have hnew : tree.swap p.temp p.target p.target =
      c.resultingContent.map (privateFile p.stagedIdentity) := by
    rw [Tree.swap_right, htemp]
  rcases hr : c.resultingContent with _ | content
  · rw [hr] at hmode hnew
    obtain rfl : tree' = _ := hmode
    exact ⟨hback, by simp only [finalNode, hr]; exact hnew⟩
  · rw [hr] at hmode hnew
    obtain ⟨f, hf, -, rfl⟩ := hmode
    obtain rfl : _ = f := by simpa [privateFile] using hnew.symm.trans hf
    refine ⟨?_, by simp [finalNode, hr, PreparedChange.target]⟩
    rw [Function.update_of_ne]
    · exact hback
    · exact fun he => hne he.symm

/-- What another change did leaves a change as it was. -/
theorem Apart.agree {p q : PreparedChange D} {tree' : Tree}
    (hs : Setting T root transaction plan) (hp : Slot T root transaction 0 plan.changes p)
    (hq : Slot T root transaction 0 plan.changes q) (h : Apart p q)
    (ha : AgreeOff (fun l => l = p.target ∨ l = p.temp) tree tree') :
    tree' q.target = tree q.target ∧ tree' q.temp = tree q.temp := by
  refine ⟨ha _ ?_, ha _ ?_⟩
  · rintro (he | he)
    · exact h.1 he.symm
    · exact hs.target_ne_temp hq hp he
  · rintro (he | he)
    · exact hs.target_ne_temp hp hq he.symm
    · exact h.2 he.symm

/-- Published are the first changes, and the others are ready as before. -/
theorem meets_publishFrom {root : Root} {marker : Marker} {index : Nat}
    {prepared : List (PreparedChange D)} (hs : Setting T root.fd transaction plan)
    (hr : ∀ p ∈ prepared, Ready T root.fd transaction plan p tree)
    (ha : prepared.Pairwise Apart) :
    Meets (environment slash noActor) (fun _ => True)
      (fun r tree' => Publishes T root.fd transaction plan prepared tree r.1 r.2 tree')
      (publishFrom root marker index prepared) tree := by
  induction prepared generalizing index tree with
  | nil => exact ⟨rfl, .refl, by simp, by simp⟩
  | cons p rest ih =>
      obtain ⟨hfirst, hrest⟩ := List.pairwise_cons.1 ha
      have hready := hr p (by simp)
      have hslot := hready.slot
      have hne : p.target ≠ p.temp := hs.target_ne_temp hslot hslot
      have hsame : (p :: rest).map PreparedChange.unpublished = p :: rest :=
        (List.map_congr_left fun q hq => PreparedChange.unpublished_eq (hr q hq).1).trans
          (List.map_id _)
      refine meets_bind.2 (meets_beforePublished.imp ?_)
      rintro (e | _) tree₁ h₁
      · obtain rfl : tree₁ = tree := h₁
        exact ⟨hsame, .refl, fun q hq => (hr q hq).held, fun h => by cases h⟩
      obtain rfl : tree₁ = tree.swap p.temp p.target := h₁
      refine meets_bind.2 (meets_afterPublished.imp ?_)
      rintro r tree₂ ⟨hframe, hmode⟩
      have hlocal : AgreeOff (fun l => l = p.target ∨ l = p.temp) tree tree₂ := by
        intro l hl
        obtain ⟨ht, hp⟩ := not_or.1 hl
        rw [hframe l ht]
        simp [Tree.swap, ht, hp]
      -- The changes still to come are where they were.
      have hothers : ∀ q ∈ rest, Ready T root.fd transaction plan q tree₂ := by
        intro q hq
        have hq' := hr q (by simp [hq])
        obtain ⟨h₁, h₂⟩ := (hfirst q hq).agree hs hslot hq'.slot hlocal
        exact hq'.congr h₁ h₂
      rcases r with e | _
      · refine ⟨?_, ?_, ?_, fun h => by cases h⟩
        · simpa [PreparedChange.unpublished] using hsame
        · exact hlocal.mono fun l hl => ⟨p, by simp, hl⟩
        · rintro q (_ | ⟨_, hq⟩)
          · obtain ⟨-, -, -, -, -, ht, -⟩ := hready
            have hback : tree₂ p.temp = T p.target := by
              rw [hframe p.temp hne.symm, Tree.swap_left, ht]
            exact hback
          · exact (hothers q hq).held
      have hfinal := hready.final hne (hmode rfl)
      refine meets_bind.2 ((ih hothers hrest).imp ?_)
      rintro ⟨others, result⟩ tree' h
      have hkeep := h.frame
      have hplaces : ∀ l, l = p.target ∨ l = p.temp → tree' l = tree₂ l := by
        rintro l hl
        refine hkeep l ?_
        rintro ⟨q, hq, hql⟩
        obtain ⟨h₁, h₂⟩ := hfirst q hq
        have hqs := (hothers q hq).slot
        rcases hl with rfl | rfl <;> rcases hql with he | he
        · exact h₁ he
        · exact hs.target_ne_temp hslot hqs he
        · exact hs.target_ne_temp hqs hslot he.symm
        · exact h₂ he
      have hfinal' := hfinal.congr (hplaces p.target (Or.inl rfl)) (hplaces p.temp (Or.inr rfl))
      refine ⟨?_, ?_, ?_, ?_⟩
      · rw [List.map_cons, h.same]
        exact congrArg (· :: rest) (PreparedChange.unpublished_eq hready.1)
      · refine (hlocal.mono fun l hl => ?_).trans (hkeep.mono ?_)
        · exact ⟨p, by simp, hl⟩
        · rintro l ⟨q, hq, hl⟩
          exact ⟨q, by simp [hq], hl⟩
      · rintro q (_ | ⟨_, hq⟩)
        · exact hfinal'.held
        · exact h.held q hq
      · rintro hok q (_ | ⟨_, hq⟩)
        · exact hfinal'
        · exact h.final hok q hq

/-- How `publish_with` may come out of its publishing closure: recovery may be
required, or the changes are published as far as the loop came. -/
def Attempted (T : Tree) (root : Identity) (transaction : String) (plan : ChangePlan D)
    (prepared : List (PreparedChange D)) (tree : Tree)
    (r : List (PreparedChange D) × Except MutationError Unit) (tree' : Tree) : Prop :=
  r.1.map PreparedChange.unpublished = prepared ∧
    ((∃ e, r.2 = .error e ∧ e.kind = .recoveryRequired) ∨
      Publishes T root transaction plan prepared tree r.1 r.2 tree')

/-- The last look before the publication changes nothing. -/
theorem meets_verifyAll {root : Root} {marker : Marker} {prepared : List (PreparedChange D)} :
    Meets (environment slash noActor) (fun _ => True) (Saw tree fun _ => True)
      (ExceptT.run do
        root.verifyNamespace
        verifyMarker root marker
        verifyAllParentNamespaces root prepared) tree :=
  looks passive_true (.fallible_bind (only_verifyNamespace (anySite _)) fun _ =>
    .fallible_bind only_verifyMarker fun _ => only_verifyAllParentNamespaces (anySite _))

/-- The publication publishes all changes, or the first ones. -/
theorem meets_publishPrepared {root : Root} {marker : Marker}
    {prepared : List (PreparedChange D)} (hs : Setting T root.fd transaction plan)
    (hr : ∀ p ∈ prepared, Ready T root.fd transaction plan p tree)
    (ha : prepared.Pairwise Apart) :
    Meets (environment slash noActor) (fun _ => True)
      (Attempted T root.fd transaction plan prepared tree)
      (publishPrepared root marker transaction prepared) tree := by
  have hsame : prepared.map PreparedChange.unpublished = prepared :=
    (List.map_congr_left fun q hq => PreparedChange.unpublished_eq (hr q hq).1).trans
      (List.map_id _)
  have hfail : ∀ e, Attempted T root.fd transaction plan prepared tree
      (prepared, .error e) tree :=
    fun e => ⟨hsame, Or.inr ⟨hsame, .refl, fun p hp => (hr p hp).held, nofun⟩⟩
  refine meets_bind.2 (Meets.imp (?_ : Meets _ _ (fun r tree' => tree' = tree ∨
    ∃ e, r = .error e ∧ e.kind = .recoveryRequired) _ _) ?_)
  · refine meets_saw_bind meets_hook (fun _ => Or.inl rfl) fun _ _ => ?_
    refine meets_fallible_bind.2 (meets_preflightFilesystemSemantics.imp ?_)
    rintro (e | _) tree₁ h
    · exact h.symm.imp id fun h => ⟨e, rfl, h⟩
    obtain rfl : tree₁ = tree := h
    refine meets_saw_bind (looks passive_true (only_verifyNamespace (anySite _)))
      (fun _ => Or.inl rfl) fun _ _ => ?_
    refine meets_saw_bind meets_verifyMarker (fun _ => Or.inl rfl) fun _ _ => ?_
    refine meets_saw_bind (looks passive_true (only_verifyAllPreconditions (anySite _)))
      (fun _ => Or.inl rfl) fun _ _ => ?_
    exact meets_hook.imp fun _ _ h => Or.inl h.1
  · rintro (e | _) tree₁ (rfl | ⟨e', he, hk⟩)
    · exact hfail e
    · cases he
      exact ⟨hsame, Or.inl ⟨e, rfl, hk⟩⟩
    · refine meets_bind.2 ((meets_publishFrom hs hr ha).imp ?_)
      rintro ⟨prepared', e | _⟩ tree₂ h
      · exact ⟨h.same, Or.inr h⟩
      · refine meets_bind.2 (meets_verifyAll.imp ?_)
        rintro r tree₃ ⟨rfl, -⟩
        exact ⟨h.same, Or.inr ⟨h.same, h.frame, h.held, fun _ => h.final rfl⟩⟩
    · cases he

/-! ### Under the marker -/

/-- After the call the marker is there, or one of the `clean` trees. -/
def Guarded (marker : Location) (clean : Tree → Prop)
    (e : Event PublisherCall PublisherCall.Reply Tree) : Prop :=
  e.after marker ≠ none ∨ clean e.after

section Guarded

variable {marker : Location} {clean : Tree → Prop} {α : Type} {S : Location → Prop}
  {p : Program PublisherCall PublisherCall.Reply α} {post : α → Tree → Prop}

/-- A part that does not touch the marker, under its contract. -/
theorem meets_guarded (h : Meets (environment slash noActor) (fun _ => True) post p tree)
    (hp : p.Only (AllowedOrHook S AnySite)) (hS : ¬S marker) (hm : tree marker ≠ none) :
    Meets (environment slash noActor) (Guarded marker clean)
      (fun a tree' => post a tree' ∧ tree' marker ≠ none) p tree := by
  refine (h.and (hp.meets_invariant (I := fun tree => tree marker ≠ none) ?_ hm)).mono
    (fun e he => Or.inl he.2.2) fun _ _ => id
  rintro s (c | point) r s' hc he hs
  · rwa [FsStep.frame he fun hw => hS (hc.1 _ hw)]
  · rwa [he.2]

/-- Looking around leaves the tree as it is all along. -/
theorem meets_fixed (hp : p.Only (Allowed (fun _ => False) AnySite)) :
    Meets (environment slash noActor) (fun e => e.after = tree) (fun _ tree' => tree' = tree) p
      tree := by
  refine (hp.meets_invariant (I := (· = tree)) ?_ rfl).mono (fun _ h => h.2) fun _ _ => id
  rintro s (c | point) r s' hc he rfl
  · exact FsStep.eq_of_writes_nil he (List.eq_nil_iff_forall_not_mem.2 hc.1)
  · exact hc.elim

/-- Looking around in a tree that may be left as it is. -/
theorem meets_still (hp : p.Only (Allowed (fun _ => False) AnySite))
    (h : tree marker ≠ none ∨ clean tree) :
    Meets (environment slash noActor) (Guarded marker clean) (fun _ tree' => tree' = tree) p
      tree :=
  (meets_fixed hp).mono (fun e he => by rwa [Guarded, he]) fun _ _ => id

/-- **The marker goes last.** -/
theorem meets_removeMarker_guarded {root : Root} {marker : Marker}
    (hm : tree root.marker ≠ none) (hc : clean (Function.update tree root.marker none)) :
    Meets (environment slash noActor) (Guarded root.marker clean)
      (Did tree fun _ tree' => tree' = Function.update tree root.marker none)
      (removeMarker root marker).run tree := by
  refine meets_fallible_bind.2 ((meets_still only_verifyMarker (Or.inl hm)).imp ?_)
  rintro (e | _) tree' rfl
  · exact rfl
  · refine meets_did_adapt (meets_sys (fun e he => ⟨Or.inl hm, rfl⟩) fun _ tree'' he => ?_)
    obtain rfl := FsStep.unlink_ok he
    exact ⟨Or.inr hc, rfl⟩

end Guarded

/-- The preparation leaves the marker alone. -/
theorem meets_prepareChanges_guarded {root : Root} (clean : Tree → Prop)
    (hs : Setting T root.fd transaction plan) (hm : T root.marker ≠ none) :
    Meets (environment slash noActor) (Guarded root.marker clean)
      (fun r tree' => Prepared T root.fd transaction plan 0 plan.changes T r.1 r.2 tree' ∧
        tree' root.marker ≠ none)
      (prepareChanges root plan transaction) T :=
  meets_guarded (S := fun l => Reserved transaction l.name) (meets_prepareChanges hs)
    (only_orHook (only_prepareChanges (fun _ _ => reserved_tempName) (anySite _)))
    (fun h => h.ne_marker rfl) hm

/-- So does the publication of what is prepared. -/
theorem meets_publishPrepared_guarded {root : Root} {marker : Marker} (clean : Tree → Prop)
    {prepared : List (PreparedChange D)} (hs : Setting T root.fd transaction plan)
    (hr : ∀ p ∈ prepared, Ready T root.fd transaction plan p tree)
    (ha : prepared.Pairwise Apart) (hm : tree root.marker ≠ none) :
    Meets (environment slash noActor) (Guarded root.marker clean)
      (fun r tree' => Attempted T root.fd transaction plan prepared tree r tree' ∧
        tree' root.marker ≠ none)
      (publishPrepared root marker transaction prepared) tree := by
  refine meets_guarded (S := fun l => Places prepared l ∨ Reserved transaction l.name)
    (meets_publishPrepared hs hr ha) (only_publishPrepared (fun p hp => ?_)
      (fun _ _ _ => Or.inr reserved_probeName) (anySite _) (anySite _)) ?_ hm
  · exact ⟨Or.inl ⟨p, hp, Or.inl rfl⟩, Or.inl ⟨p, hp, Or.inr rfl⟩⟩
  · rintro (⟨p, hp, he | he⟩ | h)
    · exact hs.target_ne_marker (hr p hp).slot he.symm
    · exact Setting.temp_ne_marker (hr p hp).slot he.symm
    · exact h.ne_marker rfl

/-! ### Rolling back -/

/-- The temporary files are gone as far as they could be removed. -/
structure Cleared (prepared : List (PreparedChange D)) (tree : Tree) (complete : Bool)
    (tree' : Tree) : Prop where
  frame : ∀ l, tree' l = tree l ∨ tree' l = none ∧ Temps prepared l
  done : complete = true → ∀ p ∈ prepared, tree' p.temp = none

/-- What was staged is cleared, or an error says so. -/
theorem meets_removeTemps {actor : Actor} {prepared : List (PreparedChange D)} :
    Meets (environment slash actor) (fun _ => True) (Cleared prepared tree)
      (allOk removeTempIfPresent prepared) tree := by
  induction prepared generalizing tree with
  | nil => exact ⟨fun _ => Or.inl rfl, by simp⟩
  | cons p rest ih =>
      refine meets_bind.2 (meets_removeTempIfPresent.imp fun r tree₁ h₁ => ?_)
      refine meets_bind.2 (ih.imp fun complete tree₂ h₂ => ?_)
      refine ⟨fun l => ?_, fun hc q hq => ?_⟩
      · have hfirst : tree₁ l = tree l ∨ tree₁ l = none ∧ l = p.temp := by
          rcases r with e | _
          · exact Or.inl (congrFun h₁ l)
          · rw [show tree₁ = _ from h₁]
            by_cases hl : l = p.temp
            · exact Or.inr ⟨by simp [hl], hl⟩
            · exact Or.inl (Function.update_of_ne hl _ _)
        rcases h₂.frame l with h | ⟨h, q, hq, rfl⟩
        · rw [h]
          exact hfirst.imp id fun ⟨hn, hl⟩ => ⟨hn, p, by simp, hl⟩
        · exact Or.inr ⟨h, q, by simp [hq], rfl⟩
      · rcases r with e | _
        · simp [Except.isOk, Except.toBool] at hc
        rcases hq with _ | ⟨_, hq⟩
        · rcases h₂.frame p.temp with h | ⟨h, -⟩
          · rw [h, show tree₁ = _ from h₁, Function.update_self]
          · exact h
        · exact h₂.done (by simpa [Except.isOk, Except.toBool] using hc) q hq

/-- Clearing away the temporary files of a tree that is otherwise `T` gives `T`. -/
theorem Cleared.eq {prepared : List (PreparedChange D)} {tree' : Tree}
    (h : Cleared prepared tree true tree') (ha : AgreeOff (Temps prepared) T tree)
    (hf : ∀ p ∈ prepared, T p.temp = none) : tree' = T := by
  funext l
  by_cases hl : Temps prepared l
  · obtain ⟨p, hp, rfl⟩ := hl
    rw [h.done rfl p hp, hf p hp]
  · rcases h.frame l with h | ⟨-, h⟩
    · rw [h, ha l hl]
    · exact absurd h hl

/-- **Taking back ends in the tree without the marker**, unless recovery was
required anyway. -/
theorem meets_takeBack {root : Root} {marker : Marker} (clean : Tree → Prop)
    {prepared : List (PreparedChange D)} {error : MutationError}
    (ha : error.kind ≠ .recoveryRequired → AgreeOff (Temps prepared) T tree)
    (hs : Setting T root.fd transaction plan)
    (hslot : ∀ p ∈ prepared, Slot T root.fd transaction 0 plan.changes p)
    (hm : tree root.marker ≠ none) (hc : clean (Function.update T root.marker none)) :
    Meets (environment slash noActor) (Guarded root.marker clean)
      (fun complete tree' => complete = true →
        error.kind = .recoveryRequired ∧ tree' root.marker ≠ none ∨
          error.kind ≠ .recoveryRequired ∧ tree' = Function.update T root.marker none)
      (takeBack root marker prepared error) tree := by
  refine meets_bind.2 ((meets_guarded (S := Temps prepared) meets_removeTemps
    (only_orHook (only_allOk fun p hp => only_removeTempIfPresent ⟨p, hp, rfl⟩)) ?_ hm).imp
    fun complete tree₁ h₁ => ?_)
  · rintro ⟨p, hp, he⟩
    exact Setting.temp_ne_marker (hslot p hp) he.symm
  obtain ⟨h₁, hm₁⟩ := h₁
  rcases complete with _ | _
  · exact nofun
  refine meets_bind.2 ((meets_still (only_syncUniqueParents (anySite _)) (Or.inl hm₁)).imp ?_)
  rintro (e | _) tree₂ rfl
  · exact nofun
  by_cases hk : error.kind = .recoveryRequired
  · simp [Except.isOk, Except.toBool, hk, hm₁]
  · obtain rfl := h₁.eq (ha hk) fun p hp => hs.temp_free (hslot p hp)
    simp only [Except.isOk, Except.toBool, hk]
    refine meets_bind.2 ((meets_removeMarker_guarded hm₁ hc).imp ?_)
    rintro (e | _) tree₃ h₃
    · exact nofun
    · exact fun _ => Or.inr ⟨hk, h₃⟩

/-- The slot of a change is that of the unpublished one. -/
theorem Slot.unpublished {start : Nat} {changes : List (PlannedFileChange D)}
    {p : PreparedChange D} (h : Slot T root transaction start changes p.unpublished) :
    Slot T root transaction start changes p := by
  obtain ⟨index, hi, c, hc, hp⟩ := h
  exact ⟨index, hi, c, hc, { hp with }⟩

/-- The published changes among them are rolled back one by one. -/
theorem meets_rollbackAll {actor : Actor} {prepared : List (PreparedChange D)}
    (hs : Setting T root transaction plan)
    (hslot : ∀ p ∈ prepared, Slot T root transaction 0 plan.changes p)
    (hp : ∀ p ∈ prepared, p.published = true) (hh : ∀ p ∈ prepared, Held T p tree)
    (ha : prepared.Pairwise fun p q => Apart q p) :
    Meets (environment slash actor) (fun _ => True)
      (fun complete tree' => AgreeOff (Places prepared) tree tree' ∧
        (complete = true → ∀ p ∈ prepared, tree' p.target = T p.target))
      (allOk rollbackOne prepared) tree := by
  induction prepared generalizing tree with
  | nil => exact ⟨.refl, by simp⟩
  | cons p rest ih =>
      obtain ⟨hfirst, hrest⟩ := List.pairwise_cons.1 ha
      have hps := hslot p (by simp)
      refine meets_bind.2 (((meets_rollbackOne (hs.target_ne_temp hps hps)).and
        (frame (S := fun l => l = p.target ∨ l = p.temp) (only_rollbackOne (Or.inl rfl)
          (Or.inr rfl) (anySite _)))).mono (fun _ _ => trivial) ?_)
      rintro r tree₁ ⟨hback, hframe⟩
      have happart : ∀ q ∈ rest, Apart p q := fun q hq =>
        ⟨(hfirst q hq).1.symm, (hfirst q hq).2.symm⟩
      have hothers : ∀ q ∈ rest, Held T q tree₁ := by
        intro q hq
        obtain ⟨h₁, h₂⟩ := (happart q hq).agree hs hps (hslot q (by simp [hq])) hframe
        exact (hh q (by simp [hq])).congr h₁ h₂
      refine meets_bind.2 ((ih (fun q hq => hslot q (by simp [hq])) (fun q hq => hp q (by simp [hq]))
        hothers hrest).imp ?_)
      rintro complete tree₂ ⟨hkeep, hdone⟩
      refine ⟨?_, fun hc q hq => ?_⟩
      · refine (hframe.mono fun l hl => ⟨p, by simp, hl⟩).trans (hkeep.mono ?_)
        rintro l ⟨q, hq, hl⟩
        exact ⟨q, by simp [hq], hl⟩
      rcases r with e | _
      · simp [Except.isOk, Except.toBool] at hc
      rcases hq with _ | ⟨_, hq⟩
      · rw [hkeep p.target, hback rfl]
        · have hheld : tree p.temp = T p.target := by
            simpa [Held, hp p (by simp)] using hh p (by simp)
          split
          next ho => exact (Setting.target_free hps ho).symm
          next => exact hheld
        · rintro ⟨q, hq, he | he⟩
          · exact (happart q hq).1 he
          · exact hs.target_ne_temp hps (hslot q (by simp [hq])) he
      · exact hdone (by simpa [Except.isOk, Except.toBool] using hc) q hq

/-- How a publication that did not go through may end: with the error that stopped
it and the tree of before, or with a word that recovery is needed. -/
def TakenBack (T : Tree) (marker : Location) (error : MutationError)
    (r : Except MutationError MutationReceipt) (tree' : Tree) : Prop :=
  ∃ e, r = .error e ∧ (e.kind = .recoveryRequired ∨ e.kind = .rollbackIncomplete ∨
    e = error ∧ tree' = Function.update T marker none)

/-- Before the publication the clean-up restores the tree, or recovery is required. -/
theorem meets_cleanupBeforePublication {root : Root} {marker : Marker} (clean : Tree → Prop)
    {prepared : List (PreparedChange D)} {error : MutationError}
    (ha : error.kind ≠ .recoveryRequired → AgreeOff (Temps prepared) T tree)
    (hs : Setting T root.fd transaction plan)
    (hslot : ∀ p ∈ prepared, Slot T root.fd transaction 0 plan.changes p)
    (hm : tree root.marker ≠ none) (hc : clean (Function.update T root.marker none)) :
    Meets (environment slash noActor) (Guarded root.marker clean) (TakenBack T root.marker error)
      (cleanupBeforePublication root marker prepared error).run tree := by
  refine meets_fallible_bind.2 (meets_lift.2 ((meets_takeBack clean ha hs hslot hm hc).imp ?_))
  rintro (_ | _) tree₁ h
  · exact ⟨_, rfl, Or.inl rfl⟩
  · rcases h rfl with ⟨hk, -⟩ | ⟨-, h⟩
    · exact ⟨error, rfl, Or.inl hk⟩
    · exact ⟨error, rfl, Or.inr (Or.inr ⟨rfl, h⟩)⟩

/-- When every published change could be rolled back, the temporary files are all that
is left of the attempt. -/
theorem meets_rollbackPublished {root : Identity} {tree₀ : Tree}
    {prepared prepared' : List (PreparedChange D)} {error : MutationError}
    (hs : Setting T root transaction plan)
    (ha : prepared'.Pairwise Apart) (h₀ : AgreeOff (Temps prepared) T tree₀)
    (hslot : ∀ p ∈ prepared', Slot T root transaction 0 plan.changes p)
    (h : Attempted T root transaction plan prepared tree₀ (prepared', .error error) tree) :
    Meets (environment slash noActor) (fun _ => True)
      (fun complete tree' => complete = true → error.kind ≠ .recoveryRequired →
        AgreeOff (Temps prepared') T tree')
      (allOk rollbackOne (prepared'.reverse.filter (·.published))) tree := by
  obtain ⟨hsame, h⟩ := h
  have hplaces : ∀ l, Temps prepared l ↔ Temps prepared' l := by
    subst hsame
    intro l
    simp [Temps, PreparedChange.temp, PreparedChange.unpublished]
  by_cases hk : error.kind = .recoveryRequired
  · refine (frame (S := fun _ => True) (only_allOk fun p _ =>
      only_rollbackOne trivial trivial (anySite _))).imp fun _ _ _ _ hk' => absurd hk hk'
  have hp : Publishes T root transaction plan prepared tree₀ prepared' (.error error) tree := by
    rcases h with ⟨e, he, hk'⟩ | h
    · cases he
      exact absurd hk' hk
    · exact h
  have hmem : ∀ p ∈ prepared'.reverse.filter (·.published), p ∈ prepared' ∧ p.published = true := by
    intro p hp
    simpa using hp
  refine (meets_rollbackAll hs (fun p hp => hslot p (hmem p hp).1) (fun p hp => (hmem p hp).2)
    (fun p hp' => hp.held p (hmem p hp').1) ((List.pairwise_reverse.2 ha).filter _)).imp ?_
  rintro complete tree' ⟨hkeep, hdone⟩ hc - l hl
  by_cases hq : ∃ q ∈ prepared'.reverse.filter (·.published), l = q.target
  · obtain ⟨q, hq, rfl⟩ := hq
    exact hdone hc q hq
  rw [hkeep l]
  · by_cases hpl : ∃ p ∈ prepared', l = p.target
    · -- A change that was not published is where it was.
      obtain ⟨p, hpm, rfl⟩ := hpl
      have hf : p.published = false := by
        by_contra hf
        exact hq ⟨p, by simpa [hpm] using hf, rfl⟩
      simpa [Held, hf] using hp.held p hpm
    · rw [hp.frame l, h₀ l fun h => hl ((hplaces l).1 h)]
      rintro ⟨p, hpm, rfl | rfl⟩
      · subst hsame
        obtain ⟨p', hp', rfl⟩ := List.mem_map.1 hpm
        exact hpl ⟨p', hp', rfl⟩
      · exact hl ((hplaces _).1 ⟨p, hpm, rfl⟩)
  · rintro ⟨q, hqm, rfl | rfl⟩
    · exact hq ⟨q, hqm, rfl⟩
    · exact hl ⟨q, (hmem q hqm).1, rfl⟩

/-- After a failed publication the rollback restores the tree, or its error says so. -/
theorem meets_rollbackOrReport {root : Root} {marker : Marker} {tree₀ : Tree}
    (clean : Tree → Prop) {prepared prepared' : List (PreparedChange D)} {error : MutationError}
    (hs : Setting T root.fd transaction plan)
    (hr : ∀ p ∈ prepared, Ready T root.fd transaction plan p tree₀)
    (ha : prepared.Pairwise Apart) (h₀ : AgreeOff (Temps prepared) T tree₀)
    (h : Attempted T root.fd transaction plan prepared tree₀ (prepared', .error error) tree)
    (hm : tree root.marker ≠ none) (hc : clean (Function.update T root.marker none)) :
    Meets (environment slash noActor) (Guarded root.marker clean) (TakenBack T root.marker error)
      (rollbackOrReport root marker prepared' error).run tree := by
  have hslot : ∀ p ∈ prepared', Slot T root.fd transaction 0 plan.changes p := fun p hp =>
    (hr _ (h.1 ▸ List.mem_map_of_mem hp)).slot.unpublished
  have hapart : prepared'.Pairwise Apart :=
    List.Pairwise.of_map PreparedChange.unpublished (fun _ _ h => h) (h.1 ▸ ha)
  refine meets_fallible_bind.2 (meets_lift.2 ((meets_guarded (S := Places prepared')
    (meets_rollbackPublished hs hapart h₀ hslot h) (only_orHook (only_allOk fun p hp => ?_)) ?_
    hm).imp ?_))
  · have hp : p ∈ prepared' := by simpa using (List.mem_filter.1 hp).1
    exact only_rollbackOne ⟨p, hp, Or.inl rfl⟩ ⟨p, hp, Or.inr rfl⟩ (anySite _)
  · rintro ⟨p, hp, he | he⟩
    · exact hs.target_ne_marker (hslot p hp) he.symm
    · exact Setting.temp_ne_marker (hslot p hp) he.symm
  rintro (_ | _) tree₁ ⟨h₁, hm₁⟩
  · exact ⟨_, rfl, Or.inr (Or.inl rfl)⟩
  refine meets_fallible_bind.2 (meets_lift.2 ((meets_takeBack clean (h₁ rfl) hs hslot hm₁ hc).imp ?_))
  rintro (_ | _) tree₂ h₂
  · exact ⟨_, rfl, Or.inr (Or.inl rfl)⟩
  refine meets_fallible_bind.2 (meets_attempt.2 ((meets_still (only_syncDirectory (anySite _))
    ?_).imp ?_))
  · rcases h₂ rfl with ⟨-, h₂⟩ | ⟨-, rfl⟩
    · exact Or.inl h₂
    · exact Or.inr hc
  rintro r tree₃ rfl
  rcases h₂ rfl with ⟨hk, -⟩ | ⟨-, h₂⟩
  · exact ⟨error, rfl, Or.inl hk⟩
  · exact ⟨error, rfl, Or.inr (Or.inr ⟨rfl, h₂⟩)⟩

/-! ### Committing -/

/-- A backup is gone, or recovery is required. -/
theorem meets_removeBackup {actor : Actor} {p : PreparedChange D} :
    Meets (environment slash actor) (fun _ => True)
      (fun r tree' => match r with
        | .ok _ => tree' = Function.update tree p.temp none
        | .error e => e.kind = .recoveryRequired)
      (removeBackup p).run tree := by
  unfold removeBackup
  split
  · exact rfl
  · refine meets_adapt.2 (meets_removeNamedIfIdentity.imp ?_)
    rintro (e | _) tree' h
    · exact rfl
    · exact h

/-- The backups are gone, or recovery is required. -/
theorem meets_removeBackups {actor : Actor} {prepared : List (PreparedChange D)} :
    Meets (environment slash actor) (fun _ => True)
      (fun r tree' => match r with
        | .ok _ => (∀ l, tree' l = tree l ∨ tree' l = none ∧ Temps prepared l) ∧
            ∀ p ∈ prepared, p.operation ≠ .create → tree' p.temp = none
        | .error e => e.kind = .recoveryRequired)
      (removeBackups prepared).run tree := by
  induction prepared generalizing tree with
  | nil => exact ⟨fun _ => Or.inl rfl, by simp⟩
  | cons p rest ih =>
      unfold removeBackups
      split
      next ho =>
        refine meets_fallible_bind.2 (meets_removeBackup.imp ?_)
        rintro (e | _) tree₁ h₁
        · exact h₁
        obtain rfl : tree₁ = _ := h₁
        refine ih.imp ?_
        rintro (e | _) tree₂ h₂
        · exact h₂
        have hl : ∀ l, tree₂ l = tree l ∨ tree₂ l = none ∧ Temps (p :: rest) l := by
          intro l
          by_cases hl : l = p.temp
          · refine Or.inr ⟨?_, p, by simp, hl⟩
            rcases h₂.1 l with h | ⟨h, -⟩
            · simpa [hl] using h
            · exact h
          · rcases h₂.1 l with h | ⟨h, q, hq, hql⟩
            · exact Or.inl (h.trans (Function.update_of_ne hl _ _))
            · exact Or.inr ⟨h, q, by simp [hq], hql⟩
        refine ⟨hl, ?_⟩
        rintro q (_ | ⟨_, hq⟩) hqo
        · rcases h₂.1 p.temp with h | ⟨h, -⟩
          · simpa using h
          · exact h
        · exact h₂.2 q hq hqo
      next ho =>
        refine ih.imp ?_
        rintro (e | _) tree₂ h₂
        · exact h₂
        have hl : ∀ l, Temps rest l → Temps (p :: rest) l := fun l hl =>
          hl.imp fun q hq => ⟨List.mem_cons_of_mem _ hq.1, hq.2⟩
        refine ⟨fun l => (h₂.1 l).imp id (And.imp_right (hl l)), ?_⟩
        rintro q (_ | ⟨_, hq⟩) hqo
        · exact absurd hqo ho
        · exact h₂.2 q hq hqo

/-- Every change has its result, and no temporary file is left. -/
structure Committed (T : Tree) (root : Identity) (transaction : String) (plan : ChangePlan D)
    (prepared : List (PreparedChange D)) (tree : Tree) : Prop where
  result : ∀ p ∈ prepared, ∃ index, ∃ c ∈ plan.changes,
    Prepares T root transaction index c p ∧ tree p.target = finalNode c p
  temp : ∀ p ∈ prepared, tree p.temp = none
  frame : AgreeOff (Places prepared) T tree

/-- Without the backups the tree is that of the published plan. -/
theorem Publishes.committed {prepared prepared' : List (PreparedChange D)} {tree₀ tree' : Tree}
    (hs : Setting T root transaction plan)
    (hr : ∀ p ∈ prepared, Ready T root transaction plan p tree₀)
    (h₀ : AgreeOff (Temps prepared) T tree₀)
    (h : Publishes T root transaction plan prepared tree₀ prepared' (.ok ()) tree)
    (hl : ∀ l, tree' l = tree l ∨ tree' l = none ∧ Temps prepared' l)
    (hb : ∀ p ∈ prepared', p.operation ≠ .create → tree' p.temp = none) :
    Committed T root transaction plan prepared' tree' := by
  have hslot : ∀ p ∈ prepared', Slot T root transaction 0 plan.changes p := fun p hp =>
    (hr _ (h.same ▸ List.mem_map_of_mem hp)).slot.unpublished
  refine ⟨fun p hp => ?_, fun p hp => ?_, fun l hpl => ?_⟩
  · obtain ⟨-, index, c, hc, hprep, -, hfinal⟩ := h.final rfl p hp
    refine ⟨index, c, hc, hprep, ?_⟩
    rcases hl p.target with ht | ⟨-, q, hq, he⟩
    · exact ht.trans hfinal
    · exact absurd he (hs.target_ne_temp (hslot p hp) (hslot q hq))
  · by_cases ho : p.operation = .create
    · -- The temporary file of a creation became the created file.
      obtain ⟨-, -, -, -, -, ht, -⟩ := h.final rfl p hp
      rcases hl p.temp with h' | ⟨h', -⟩
      · rw [h', ht, Setting.target_free (hslot p hp) ho]
      · exact h'
    · exact hb p hp ho
  · have hpl' : ¬Places prepared l := by
      rintro ⟨q, hq, he⟩
      rw [← h.same] at hq
      obtain ⟨p, hp, rfl⟩ := List.mem_map.1 hq
      exact hpl ⟨p, hp, he⟩
    rcases hl l with h' | ⟨-, p, hp, he⟩
    · rw [h', h.frame l hpl', h₀ l fun ⟨q, hq, he⟩ => hpl' ⟨q, hq, Or.inr he⟩]
    · exact absurd ⟨p, hp, Or.inr he⟩ hpl

end Mutator
end Hegira
