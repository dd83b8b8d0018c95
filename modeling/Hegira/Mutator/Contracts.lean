/-
# What the functions of the publisher find and leave behind

Contracts of the helpers of the publisher in an environment where any call may
fail and `actor` says what a hook may do.  A function that only looks returns
what it saw and leaves the tree alone; one that writes says exactly what it has
changed when it returns a value, and that it has changed nothing, or that
recovery is required, when it fails.
-/

import Hegira.Mutator.Footprint

namespace Hegira
namespace Mutator

open Program

set_option linter.unusedSectionVars false

/-- What may happen at a hook: the tree before, the reply, the tree after. -/
abbrev Actor := HookPoint → Tree → Except MutationError Unit → Tree → Prop

/-- The operating system with the actor at the hooks. -/
def environment (slash : Identity) (actor : Actor) :
    Tree → (c : PublisherCall) → c.Reply → Tree → Prop
  | tree, .fs c, r, tree' => FsStep slash tree c r tree'
  | tree, .hook point, r, tree' => actor point tree r tree'

/-- The hook of `publish`, which nobody uses. -/
def noActor : Actor := fun _ tree r tree' => r = .ok () ∧ tree' = tree

/-- Calls that write nothing satisfy `ev`. -/
def Passive (ev : Event PublisherCall PublisherCall.Reply Tree → Prop) : Prop :=
  ∀ tree c r, c.writes = [] → ev ⟨tree, .fs c, r, tree⟩

theorem passive_true : Passive fun _ => True := fun _ _ _ _ => trivial

/-- The trees agree outside `S`. -/
def AgreeOff (S : Location → Prop) (tree tree' : Tree) : Prop :=
  ∀ l, ¬S l → tree' l = tree l

section AgreeOff

variable {S S' : Location → Prop} {tree tree' tree'' : Tree}

/-- A tree agrees with itself. -/
theorem AgreeOff.refl : AgreeOff S tree tree := fun _ _ => rfl

/-- Agreement outside some locations, step after step. -/
theorem AgreeOff.trans (h : AgreeOff S tree tree') (h' : AgreeOff S tree' tree'') :
    AgreeOff S tree tree'' :=
  fun l hl => (h' l hl).trans (h l hl)

/-- Trees that agree outside some locations agree outside more. -/
theorem AgreeOff.mono (h : AgreeOff S tree tree') (hS : ∀ l, S l → S' l) :
    AgreeOff S' tree tree' :=
  fun l hl => h l (mt (hS l) hl)

end AgreeOff

variable {slash : Identity} {actor : Actor}
  {ev : Event PublisherCall PublisherCall.Reply Tree → Prop} {tree : Tree}
  {α ε : Type} {post : Except ε α → Tree → Prop}

/-- The rule for one call: it fails and nothing has changed, or it works. -/
theorem meets_sys {c : FsCall} {post : Except Errno c.Value → Tree → Prop}
    (herr : ∀ e, FsStep slash tree c (.error e) tree →
      ev ⟨tree, .fs c, .error e, tree⟩ ∧ post (.error e) tree)
    (hok : ∀ v tree', FsStep slash tree c (.ok v) tree' →
      ev ⟨tree, .fs c, .ok v, tree'⟩ ∧ post (.ok v) tree') :
    Meets (environment slash actor) ev post (sys c).run tree := by
  rintro (e | v) tree' h
  · obtain rfl := FsStep.eq_of_error h
    exact herr e h
  · exact hok v tree' h

/-- The rule for a call that writes nothing. -/
theorem meets_read (hev : Passive ev) {c : FsCall} {post : Except Errno c.Value → Tree → Prop}
    (hc : c.writes = []) (h : ∀ r, FsStep slash tree c r tree → post r tree) :
    Meets (environment slash actor) ev post (sys c).run tree := by
  refine meets_sys (fun e he => ⟨hev _ _ _ hc, h _ he⟩) fun v tree' hv => ?_
  obtain rfl := FsStep.eq_of_writes_nil hv hc
  exact ⟨hev _ _ _ hc, h _ hv⟩

/-- All parts of a publication. -/
def AnySite : Site → Prop := fun _ => True

theorem anySite (site : Site) : AnySite site := trivial

/-- A program without hooks that writes inside `S` leaves the rest alone. -/
theorem frame {p : Program PublisherCall PublisherCall.Reply α} {S : Location → Prop}
    (hp : p.Only (Allowed S AnySite)) :
    Meets (environment slash actor) (fun _ => True) (fun _ tree' => AgreeOff S tree tree') p
      tree := by
  refine (hp.meets_invariant (I := AgreeOff S tree) ?_ .refl).mono (fun _ _ => trivial) fun _ _ => id
  rintro s (c | point) r s' hc he hs
  · exact fun l hl => (FsStep.frame he fun hw => hl (hc.1 l hw)).trans (hs l hl)
  · exact hc.elim

/-- A program without hooks does not depend on the actor. -/
theorem meets_actor {actor' : Actor} {p : Program PublisherCall PublisherCall.Reply α}
    {S : Location → Prop} {sites : Site → Prop} {post : α → Tree → Prop}
    (hp : p.Only (Allowed S sites)) (h : Meets (environment slash actor) ev post p tree) :
    Meets (environment slash actor') ev post p tree := by
  induction p generalizing tree with
  | done a => exact h
  | call c next ih =>
      cases c with
      | fs c => exact fun r tree' he => ⟨(h r tree' he).1, ih r (hp.2 r) (h r tree' he).2⟩
      | hook point => exact hp.1.elim

/-- A program without hooks that writes nothing leaves the tree alone. -/
theorem unchanged (hev : Passive ev) {p : Program PublisherCall PublisherCall.Reply α}
    (hp : p.Only (Allowed (fun _ => False) AnySite)) :
    Meets (environment slash actor) ev (fun _ tree' => tree' = tree) p tree := by
  induction p with
  | done a => rfl
  | call c next ih =>
      intro r tree' he
      cases c with
      | fs c =>
          have hw : c.writes = [] := List.eq_nil_iff_forall_not_mem.2 hp.1.1
          obtain rfl := FsStep.eq_of_writes_nil he hw
          exact ⟨hev _ _ _ hw, ih r (hp.2 r)⟩
      | hook point => exact hp.1.elim

/-! ### Looking -/

/-- `tree'` is the tree before, and a value that is returned satisfies `found`. -/
def Saw (tree : Tree) (found : α → Prop) (r : Except ε α) (tree' : Tree) : Prop :=
  tree' = tree ∧ ∀ a, r = .ok a → found a

@[simp] theorem saw_ok {found : α → Prop} {a : α} {tree' : Tree} :
    Saw tree found (.ok a : Except ε α) tree' ↔ tree' = tree ∧ found a := by
  simp [Saw]

@[simp] theorem saw_error {found : α → Prop} {e : ε} {tree' : Tree} :
    Saw tree found (.error e : Except ε α) tree' ↔ tree' = tree := by
  simp [Saw]

/-- An error may be given another text. -/
theorem meets_saw_adapt {ε' : Type} {found : α → Prop} {f : ε' → ε}
    {p : Fallible ε' PublisherCall PublisherCall.Reply α}
    (h : Meets (environment slash actor) ev (Saw tree found) p.run tree) :
    Meets (environment slash actor) ev (Saw tree found) (ExceptT.adapt f p).run tree := by
  refine meets_adapt.2 (h.imp ?_)
  rintro (e | a) tree' h' <;> simpa [Except.mapError] using h'

/-- A look, then the rest of the program in the same tree. -/
theorem meets_saw_bind {β : Type} {found : β → Prop}
    {p : Fallible ε PublisherCall PublisherCall.Reply β}
    {f : β → Fallible ε PublisherCall PublisherCall.Reply α}
    (hp : Meets (environment slash actor) ev (Saw tree found) p.run tree)
    (herr : ∀ e, post (.error e) tree)
    (hf : ∀ b, found b → Meets (environment slash actor) ev post (f b).run tree) :
    Meets (environment slash actor) ev post (p >>= f : Fallible ε _ _ α).run tree := by
  refine meets_fallible_bind.2 (hp.imp ?_)
  rintro (e | b) tree' h
  · obtain rfl := saw_error.1 h
    exact herr e
  · obtain ⟨rfl, hb⟩ := saw_ok.1 h
    exact hf b hb

/-- The same with the errors of the look renamed. -/
theorem meets_saw_adapt_bind {β ε' : Type} {found : β → Prop} {g : ε' → ε}
    {p : Fallible ε' PublisherCall PublisherCall.Reply β}
    {f : β → Fallible ε PublisherCall PublisherCall.Reply α}
    (hp : Meets (environment slash actor) ev (Saw tree found) p.run tree)
    (herr : ∀ e, post (.error (g e)) tree)
    (hf : ∀ b, found b → Meets (environment slash actor) ev post (f b).run tree) :
    Meets (environment slash actor) ev post (ExceptT.adapt g p >>= f : Fallible ε _ _ α).run
      tree := by
  refine meets_fallible_bind.2 (meets_adapt.2 (hp.imp ?_))
  rintro (e | b) tree' h
  · obtain rfl := saw_error.1 h
    exact herr e
  · obtain ⟨rfl, hb⟩ := saw_ok.1 h
    exact hf b hb

/-- A call that writes nothing shows the tree as it is. -/
theorem meets_saw_read (hev : Passive ev) {c : FsCall} {found : c.Value → Prop}
    (hc : c.writes = []) (h : ∀ v, FsStep slash tree c (.ok v) tree → found v) :
    Meets (environment slash actor) ev (Saw tree found) (sys c).run tree :=
  meets_read hev hc fun _ hr => ⟨rfl, fun v hv => h v (hv ▸ hr)⟩

/-- A call that writes nothing leaves the tree. -/
theorem meets_saw_any (hev : Passive ev) {c : FsCall} (hc : c.writes = []) :
    Meets (environment slash actor) ev (Saw tree fun _ => True) (sys c).run tree :=
  meets_saw_read hev hc fun _ _ => trivial

/-- A look whose value does not matter. -/
theorem looks (hev : Passive ev) {p : Fallible ε PublisherCall PublisherCall.Reply α}
    (hp : p.run.Only (Allowed (fun _ => False) AnySite)) :
    Meets (environment slash actor) ev (Saw tree fun _ => True) p.run tree :=
  (unchanged hev hp).imp fun _ _ h => ⟨h, fun _ _ => trivial⟩

/-- What `read_regular_file` reports of a file. -/
def observe {D : Type} [ContentDigest D] (f : RegularFile) : ObservedFile D :=
  ⟨f.identity, ContentDigest.calculate f.bytes, f.mode⟩

variable {D : Type} [ContentDigest D] [DecidableEq D]

/-- What is read is the file that is there. -/
theorem meets_readRegularFile (hev : Passive ev) {location : Location} {path : ChangePath} :
    Meets (environment slash actor) ev
      (Saw tree fun o => ∃ f, tree location = some (.file f) ∧ o = observe f)
      (readRegularFile location path : Publishing (ObservedFile D)).run tree := by
  refine meets_saw_adapt_bind (meets_saw_any hev rfl)
    (by simp) fun _ _ => ?_
  refine meets_saw_adapt_bind (meets_saw_read hev rfl fun _ => FsStep.metadata_ok)
    (by simp) fun m hm => ?_
  split
  · simp
  next hfile =>
    refine meets_saw_adapt_bind (meets_saw_read hev rfl fun _ => FsStep.readToEnd_ok)
      (by simp) fun b hb => ?_
    obtain ⟨f, hf, rfl⟩ := hb
    obtain ⟨node, hn, hi, hm⟩ := hm
    obtain rfl : node = .file f := Option.some.inj (hn.symm.trans hf)
    obtain ⟨f', hf', hm⟩ := hm (by simpa using hfile)
    cases hf'
    exact saw_ok.2 ⟨rfl, f, hf, by simp [observe, hi, hm, Node.identity]⟩

/-- A name is found free only if it is. -/
theorem meets_ensureAbsent (hev : Passive ev) {location : Location} {path : ChangePath} :
    Meets (environment slash actor) ev (Saw tree fun _ => tree location = none)
      (ensureAbsent location path).run tree := by
  refine meets_fallible_bind.2 (meets_attempt.2 (meets_read hev rfl fun r hr => ?_))
  rcases r with (_ | _ | _) | _ <;> try exact saw_error.2 rfl
  exact saw_ok.2 ⟨rfl, FsStep.statAt_noent hr⟩

/-- The identity is that of the node. -/
theorem meets_fileIdentity (hev : Passive ev) {location : Location} :
    Meets (environment slash actor) ev
      (Saw tree fun i => ∃ node, tree location = some node ∧ node.identity = i)
      (fileIdentity location).run tree := by
  refine meets_saw_bind (meets_saw_read hev rfl fun _ => FsStep.metadata_ok) (by simp) ?_
  rintro m ⟨node, hn, hi, -⟩
  exact saw_ok.2 ⟨rfl, node, hn, hi.symm⟩

theorem meets_readIdentity (hev : Passive ev) {location : Location} :
    Meets (environment slash actor) ev
      (Saw tree fun i => ∃ node, tree location = some node ∧ node.identity = i)
      (readIdentity location).run tree :=
  meets_saw_bind (meets_saw_any hev rfl) (by simp)
    fun _ _ => meets_fileIdentity hev

/-- The file is the one observed before. -/
theorem meets_requireObserved (hev : Passive ev) {location : Location} {path : ChangePath}
    {original : ObservedFile D} {error : MutationError} :
    Meets (environment slash actor) ev
      (Saw tree fun _ => ∃ f, tree location = some (.file f) ∧ observe f = original)
      (requireObserved location path original error).run tree := by
  refine meets_saw_bind (meets_readRegularFile hev) (by simp) ?_
  rintro o ⟨f, hf, rfl⟩
  split
  · simp
  · exact saw_ok.2 ⟨rfl, f, hf, not_not.1 ‹_›⟩

/-- The directory a list of components leads to. -/
def resolve (tree : Tree) : Identity → List Component → Option Identity
  | fd, [] => some fd
  | fd, .normal name :: rest =>
      match tree ⟨fd, name⟩ with
      | some (.directory identity) => resolve tree identity rest
      | _ => none
  | _, _ :: _ => none

/-- The directory that is opened is the one the path leads to. -/
theorem meets_descendComponents (hev : Passive ev) {change : ChangePath} {fd : Identity}
    {path : List Component} (hp : .normal "." ∉ path) :
    Meets (environment slash actor) ev (Saw tree fun d => resolve tree fd path = some d)
      (descendComponents change fd path).run tree := by
  induction path generalizing fd with
  | nil => exact saw_ok.2 ⟨rfl, rfl⟩
  | cons component rest ih =>
      cases component with
      | rootDir | curDir | parentDir => exact saw_error.2 rfl
      | normal name =>
          refine meets_saw_adapt_bind (meets_saw_read hev rfl fun _ => FsStep.openDirectory_ok)
            (by simp) fun d hd => ?_
          have hn : name ≠ "." := fun h => hp (by simp [h])
          rw [if_neg hn] at hd
          simpa only [resolve, hd] using ih fun h => hp (by simp [h])

theorem meets_descend (hev : Passive ev) {change : ChangePath} {root : Identity}
    {path : List Component} (hp : .normal "." ∉ path) :
    Meets (environment slash actor) ev (Saw tree fun d => resolve tree root path = some d)
      (descend root path change).run tree := by
  refine meets_saw_adapt_bind (meets_saw_read hev rfl fun _ => FsStep.openDirectory_ok)
    (by simp) fun d hd => ?_
  rw [show d = root by simpa using hd]
  exact meets_descendComponents hev hp

/-- What `verify_precondition` checks: the target is as it was observed. -/
def PreparedChange.Undisturbed (tree : Tree) (change : PreparedChange D) : Prop :=
  match change.expected, change.original with
  | .absent, none => tree change.target = none
  | .matchesDigest expected, some original =>
      ∃ f, tree change.target = some (.file f) ∧ f.identity = original.identity ∧
        ContentDigest.calculate f.bytes = expected ∧ f.mode = original.mode
  | _, _ => False

/-- A precondition that is verified holds. -/
theorem meets_verifyPrecondition (hev : Passive ev) {change : PreparedChange D} :
    Meets (environment slash actor) ev (Saw tree fun _ => change.Undisturbed tree)
      (verifyPrecondition change).run tree := by
  unfold verifyPrecondition PreparedChange.Undisturbed
  rcases change.expected with _ | expected <;> rcases change.original with _ | original
  · exact meets_ensureAbsent hev
  · exact saw_error.2 rfl
  · exact saw_error.2 rfl
  · refine meets_saw_bind (meets_readRegularFile hev) (by simp) ?_
    rintro o ⟨f, hf, rfl⟩
    dsimp only
    split
    · simp
    next hsame =>
      refine saw_ok.2 ⟨rfl, f, hf, ?_⟩
      simpa [observe, not_or] using hsame

/-- What is checked before a rollback: the target is what was published. -/
def PreparedChange.Ours (tree : Tree) (change : PreparedChange D) : Prop :=
  if change.operation = .retire then tree change.target = none
  else ∃ f, tree change.target = some (.file f) ∧ f.identity = change.stagedIdentity ∧
    some (ContentDigest.calculate f.bytes) = change.resultDigest

/-- What is about to be taken back is what was published. -/
theorem meets_verifyBeforeRollback (hev : Passive ev) {change : PreparedChange D} :
    Meets (environment slash actor) ev (Saw tree fun _ => change.Ours tree)
      (verifyBeforeRollback change).run tree := by
  unfold verifyBeforeRollback PreparedChange.Ours
  split
  · exact meets_saw_adapt (meets_ensureAbsent hev)
  · refine meets_saw_adapt_bind (meets_readRegularFile hev) (by simp) ?_
    rintro o ⟨f, hf, rfl⟩
    split
    · simp
    next hsame =>
      refine saw_ok.2 ⟨rfl, f, hf, ?_⟩
      simpa [observe, not_or] using hsame

/-! ### Writing -/

/-- A value comes with what was done, an error with the tree before. -/
def Did (tree : Tree) (done : α → Tree → Prop) : Except ε α → Tree → Prop
  | .ok a, tree' => done a tree'
  | .error _, tree' => tree' = tree

/-- The same, but an error that asks for recovery says nothing about the tree. -/
def DidOrStuck (tree : Tree) (done : α → Tree → Prop) : Except MutationError α → Tree → Prop
  | .ok a, tree' => done a tree'
  | .error e, tree' => e.kind = .recoveryRequired ∨ tree' = tree

section Did

variable {done : α → Tree → Prop} {a : α} {tree' : Tree}

@[simp] theorem did_ok : Did tree done (.ok a : Except ε α) tree' ↔ done a tree' := Iff.rfl

@[simp] theorem did_error {e : ε} :
    Did tree done (.error e : Except ε α) tree' ↔ tree' = tree := Iff.rfl

@[simp] theorem didOrStuck_ok : DidOrStuck tree done (.ok a) tree' ↔ done a tree' := Iff.rfl

@[simp] theorem didOrStuck_error {e : MutationError} :
    DidOrStuck tree done (.error e) tree' ↔ e.kind = .recoveryRequired ∨ tree' = tree := Iff.rfl

/-- An error may be given another text. -/
theorem meets_did_adapt {ε' : Type} {f : ε' → ε}
    {p : Fallible ε' PublisherCall PublisherCall.Reply α}
    (h : Meets (environment slash actor) ev (Did tree done) p.run tree) :
    Meets (environment slash actor) ev (Did tree done) (ExceptT.adapt f p).run tree := by
  refine meets_adapt.2 (h.imp ?_)
  rintro (e | a) tree' h' <;> exact h'

/-- The same with the errors of the step renamed. -/
theorem meets_did_adapt_bind {β ε' : Type} {done : β → Tree → Prop} {g : ε' → ε}
    {p : Fallible ε' PublisherCall PublisherCall.Reply β}
    {f : β → Fallible ε PublisherCall PublisherCall.Reply α}
    (hp : Meets (environment slash actor) ev (Did tree done) p.run tree)
    (herr : ∀ e, post (.error (g e)) tree)
    (hf : ∀ b tree', done b tree' → Meets (environment slash actor) ev post (f b).run tree') :
    Meets (environment slash actor) ev post (ExceptT.adapt g p >>= f : Fallible ε _ _ α).run
      tree := by
  refine meets_fallible_bind.2 (meets_adapt.2 (hp.imp ?_))
  rintro (e | b) tree' h
  · obtain rfl : tree' = tree := h
    exact herr e
  · exact hf b tree' h

end Did

/-- A call that works has its effect, and one that fails has none. -/
theorem meets_did_sys {c : FsCall} {done : c.Value → Tree → Prop}
    (h : ∀ v tree', FsStep slash tree c (.ok v) tree' → done v tree') :
    Meets (environment slash actor) (fun _ => True) (Did tree done) (sys c).run tree :=
  meets_sys (fun _ _ => ⟨trivial, rfl⟩) fun v tree' hv => ⟨trivial, h v tree' hv⟩

/-- A removed name is gone. -/
theorem meets_removeNamedIfIdentity {location : Location} {expected : Identity} :
    Meets (environment slash actor) (fun _ => True)
      (Did tree fun _ tree' => tree' = Function.update tree location none)
      (removeNamedIfIdentity location expected).run tree := by
  refine meets_saw_adapt_bind (meets_readIdentity passive_true) (by simp)
    fun identity _ => ?_
  split
  · exact rfl
  · exact meets_did_adapt (meets_did_sys fun _ _ => FsStep.unlink_ok)

/-- Creating a file and taking it away again changes nothing. -/
theorem update_created {location : Location} {node : Option Node} (h : tree location = none) :
    Function.update (Function.update tree location node) location none = tree := by
  rw [Function.update_idem, ← h, Function.update_eq_self]

/-- A file the publisher has just created. -/
def privateFile (identity : Identity) (content : Bytes) : Node :=
  .file ⟨identity, content, regularMode privateMode⟩

/-- A staged file was not there before. -/
theorem meets_stageFile {location : Location} {path : ChangePath} {content : Bytes} :
    Meets (environment slash actor) (fun _ => True)
      (DidOrStuck tree fun identity tree' => tree location = none ∧
        tree' = Function.update tree location (some (privateFile identity content)))
      (stageFile location path content).run tree := by
  refine meets_did_adapt_bind (meets_did_sys fun _ _ => FsStep.createFile_ok)
    (fun _ => Or.inr rfl) fun _ created => ?_
  rintro ⟨hfree, identity, -, rfl⟩
  refine meets_saw_adapt_bind (meets_fileIdentity passive_true)
    (fun _ => Or.inl rfl) fun found hi => ?_
  obtain rfl : identity = found := by simpa [Node.identity] using hi
  refine meets_fallible_bind.2 (meets_attempt.2 ?_)
  refine Meets.imp (?_ : Meets _ _ (fun r tree' => ∃ content',
    tree' = Function.update tree location (some (privateFile identity content')) ∧
      (r = .ok () → content' = content)) _ _) ?_
  · refine meets_did_adapt_bind (meets_did_sys fun _ _ => FsStep.writeAll_ok)
      (fun _ => ⟨[], rfl, by simp⟩) fun _ written => ?_
    rintro ⟨f, hf, rfl⟩
    obtain rfl : _ = f := by simpa using hf
    refine meets_saw_adapt (meets_saw_any passive_true rfl) |>.imp ?_
    rintro r tree' ⟨rfl, -⟩
    exact ⟨content, by simp [privateFile], fun _ => rfl⟩
  · rintro (message | _) tree' ⟨content', rfl, hc⟩
    · refine meets_fallible_bind.2 (meets_attempt.2 (meets_removeNamedIfIdentity.imp ?_))
      rintro (_ | _) tree'' h
      · exact Or.inl rfl
      · exact Or.inr (h.trans (update_created hfree))
    · exact ⟨hfree, by rw [hc rfl]⟩

theorem meets_createProbe {location : Location} {path : ChangePath} :
    Meets (environment slash actor) (fun _ => True)
      (DidOrStuck tree fun identity tree' => tree location = none ∧
        tree' = Function.update tree location (some (privateFile identity [])))
      (createProbe location path).run tree := by
  refine meets_did_adapt_bind (meets_did_sys fun _ _ => FsStep.createFile_ok)
    (fun _ => Or.inr rfl) fun _ created => ?_
  rintro ⟨hfree, identity, -, rfl⟩
  refine meets_saw_adapt_bind (meets_fileIdentity passive_true)
    (fun _ => Or.inl rfl) fun found hi => ?_
  obtain rfl : identity = found := by simpa [Node.identity] using hi
  refine meets_fallible_bind.2 (meets_attempt.2 (meets_read passive_true rfl fun r _ => ?_))
  rcases r with _ | _
  · refine meets_fallible_bind.2 (meets_attempt.2 (meets_removeNamedIfIdentity.imp ?_))
    rintro (_ | _) tree'' h
    · exact Or.inl rfl
    · exact Or.inr (h.trans (update_created hfree))
  · exact ⟨hfree, rfl⟩

/-- Both probes are gone, or recovery is required. -/
theorem meets_removeProbes {first second : Location} {i j : Identity} {path : ChangePath} :
    Meets (environment slash actor) (fun _ => True)
      (fun r tree' => (∃ e, r = .error e ∧ e.kind = .recoveryRequired) ∨
        r = .ok () ∧ tree' = Function.update (Function.update tree first none) second none)
      (removeProbes first second i j path).run tree := by
  refine meets_fallible_bind.2 (meets_attempt.2 (meets_removeNamedIfIdentity.imp ?_))
  intro r₁ tree₁ h₁
  refine meets_fallible_bind.2 (meets_attempt.2 (meets_removeNamedIfIdentity.imp ?_))
  intro r₂ tree₂ h₂
  rcases r₁ with _ | _
  · exact Or.inl ⟨_, rfl, rfl⟩
  rcases r₂ with _ | _
  · exact Or.inl ⟨_, rfl, rfl⟩
  · obtain rfl : tree₁ = _ := h₁
    exact Or.inr ⟨rfl, h₂⟩

/-- Two files created and taken away, whatever became of them in between. -/
theorem update_pair {a b : Location} {node node' : Option Node} {tree' : Tree}
    (ha : tree a = none) (hb : Function.update tree a node b = none)
    (h : ∀ l, l ≠ a → l ≠ b →
      tree' l = Function.update (Function.update tree a node) b node' l) :
    Function.update (Function.update tree' a none) b none = tree := by
  funext l
  by_cases hlb : l = b
  · subst hlb
    by_cases hla : l = a
    · simp [hla, ha]
    · simpa [hla] using hb.symm
  · by_cases hla : l = a
    · subst hla
      simp [hlb, ha]
    · simpa [hlb, hla] using h l hla hlb

/-- **Probing leaves no trace**, unless it asks for recovery. -/
theorem meets_preflightChange {transaction : String} {index : Nat} {change : PreparedChange D} :
    Meets (environment slash actor) (fun _ => True) (DidOrStuck tree fun _ tree' => tree' = tree)
      (preflightChange transaction index change).run tree := by
  refine meets_fallible_bind.2 (meets_createProbe.imp ?_)
  rintro (e | first) tree₁ h₁
  · exact h₁
  obtain ⟨ha, rfl⟩ := h₁
  refine meets_fallible_bind.2 ?_
  refine meets_fallible_bind.2 (meets_attempt.2 (meets_createProbe.imp ?_))
  rintro (e | second) tree₂ h₂
  · -- The second probe could not be made, and the first goes.
    refine meets_fallible_bind.2 (meets_attempt.2 (meets_removeNamedIfIdentity.imp ?_))
    rintro (_ | _) tree₃ h₃
    · exact Or.inl rfl
    · rcases h₂ with h₂ | rfl
      · exact Or.inl h₂
      · exact Or.inr (h₃.trans (update_created ha))
  obtain ⟨hb, rfl⟩ := h₂
  refine meets_fallible_bind.2 (meets_attempt.2 fun renamed tree₃ h₃ => ⟨trivial, ?_⟩)
  refine meets_fallible_bind.2 (meets_removeProbes.imp ?_)
  rintro r tree₄ (⟨e, rfl, he⟩ | ⟨rfl, rfl⟩)
  · exact Or.inl he
  rw [update_pair ha hb fun l hl hl' => FsStep.frame h₃ (by simp [FsCall.writes, hl, hl'])]
  refine meets_liftExcept.2 ?_
  change DidOrStuck tree _ (probeCheck change.path change.operation renamed).1 tree
  generalize (probeCheck change.path change.operation renamed).1 = check
  rcases check with _ | _
  · exact Or.inr rfl
  · rfl

/-- The trial of the file system leaves no trace. -/
theorem meets_preflightFilesystemSemantics {prepared : List (PreparedChange D)}
    {transaction : String} :
    Meets (environment slash actor) (fun _ => True) (DidOrStuck tree fun _ tree' => tree' = tree)
      (preflightFilesystemSemantics prepared transaction).run tree := by
  unfold preflightFilesystemSemantics
  generalize 0 = index
  induction prepared generalizing index with
  | nil => exact rfl
  | cons change rest ih =>
      refine meets_fallible_bind.2 (meets_preflightChange.imp ?_)
      rintro (e | _) tree' h
      · exact h
      · obtain rfl : tree' = tree := h
        exact ih (index + 1)

/-- **A published change has traded its target for its temporary file.** -/
theorem meets_publishOne {change : PreparedChange D} :
    Meets (environment slash actor) (fun _ => True)
      (Did tree fun _ tree' => tree' = tree.swap change.temp change.target ∧
        (change.operation = .create → tree change.target = none) ∧
        (change.operation = .retire → tree change.temp = none))
      (publishOne change).run tree := by
  unfold publishOne PreparedChange.renaming
  rcases change.operation with _ | _ | _ <;>
    refine meets_did_adapt (meets_did_sys fun _ tree' h => ?_) <;>
    obtain ⟨hfree, rfl⟩ := FsStep.rename_ok h
  · exact ⟨rfl, fun _ => hfree rfl, nofun⟩
  · exact ⟨rfl, nofun, nofun⟩
  · exact ⟨tree.swap_comm _ _, nofun, fun _ => hfree rfl⟩

/-- The mode is set on the published file and on nothing else. -/
theorem meets_setPublishedMode {change : PreparedChange D} :
    Meets (environment slash actor) (fun _ => True)
      (fun r tree' => r = .ok () → match change.resultMode with
        | none => tree' = tree
        | some mode => ∃ f, tree change.target = some (.file f) ∧
            f.identity = change.stagedIdentity ∧ tree' = Function.update tree change.target
              (some (.file { f with mode := regularMode mode })))
      (setPublishedMode change).run tree := by
  unfold setPublishedMode
  rcases change.resultMode with _ | mode
  · exact fun _ => rfl
  refine meets_saw_adapt_bind (meets_saw_any passive_true rfl) nofun fun _ _ => ?_
  refine meets_saw_adapt_bind (meets_saw_any passive_true rfl) nofun fun metadata _ => ?_
  dsimp only
  split
  · exact nofun
  refine meets_saw_adapt_bind (meets_fileIdentity passive_true) nofun ?_
  rintro identity ⟨node, hn, hi⟩
  split
  · exact nofun
  next hid =>
    refine meets_did_adapt_bind (meets_did_sys fun _ _ => FsStep.changeMode_ok) nofun ?_
    rintro _ tree' ⟨f, hf, rfl⟩
    obtain rfl : node = .file f := Option.some.inj (hn.symm.trans hf)
    refine (meets_saw_adapt (meets_saw_any passive_true rfl)).imp ?_
    rintro r tree'' ⟨rfl, -⟩ _
    exact ⟨f, hf, hi.trans (not_not.1 hid), rfl⟩

/-- The staged file is gone. -/
theorem meets_removeStagedTemp {change : PreparedChange D} :
    Meets (environment slash actor) (fun _ => True)
      (Did tree fun _ tree' => tree' = Function.update tree change.temp none)
      (removeStagedTemp change).run tree :=
  meets_did_adapt meets_removeNamedIfIdentity

/-- What was staged is gone. -/
theorem meets_removeTempIfPresent {change : PreparedChange D} :
    Meets (environment slash actor) (fun _ => True)
      (Did tree fun _ tree' => tree' = Function.update tree change.temp none)
      (removeTempIfPresent change).run tree := by
  refine meets_fallible_bind.2 (meets_attempt.2 (meets_read passive_true rfl fun r hr => ?_))
  rcases r with (_ | _ | _) | _
  · have h : tree change.temp = none := FsStep.statAt_noent hr
    exact (by rw [← h, Function.update_eq_self] : tree = Function.update tree change.temp none)
  · exact rfl
  · exact rfl
  · exact meets_removeStagedTemp

/-- The original and the published file have changed places again. -/
theorem meets_restoreOriginal {change : PreparedChange D} {original : ObservedFile D}
    {flags : RenameFlags} {texts : RestoreTexts} :
    Meets (environment slash actor) (fun _ => True)
      (fun r tree' => r = .ok () → tree' = tree.swap change.temp change.target)
      (restoreOriginal change original flags texts).run tree := by
  refine meets_saw_adapt_bind (meets_readRegularFile passive_true) (fun e h => by cases h)
    fun backup _ => ?_
  dsimp only
  split
  · exact fun h => by cases h
  refine meets_did_adapt_bind (meets_did_sys fun _ _ => FsStep.rename_ok)
    (fun e h => by cases h) ?_
  rintro _ tree' ⟨-, rfl⟩
  exact (meets_requireObserved passive_true).imp fun r tree'' h _ => h.1

/-- **A change rolled back** leaves nothing where it created a file, and puts back
what its temporary file held where it edited or retired one. -/
theorem meets_rollbackOne {change : PreparedChange D} (hne : change.target ≠ change.temp) :
    Meets (environment slash actor) (fun _ => True)
      (fun r tree' => r = .ok () → tree' change.target =
        if change.operation = .create then none else tree change.temp)
      (rollbackOne change).run tree := by
  refine meets_saw_bind (meets_verifyBeforeRollback passive_true) nofun fun _ _ => ?_
  refine meets_fallible_bind.2 (Meets.imp (?_ : Meets _ _ (fun r tree' => r = .ok () →
    tree' change.target = if change.operation = .create then none else tree change.temp) _ _) ?_)
  · unfold takeBackChange
    rcases change.operation with _ | _ | _
    · refine (meets_did_adapt (meets_did_sys fun _ _ => FsStep.unlink_ok)).imp ?_
      rintro (e | _) tree' h
      · exact nofun
      · intro _
        rw [show tree' = _ from h]
        simp
    · rcases change.original with _ | original
      · exact nofun
      refine meets_fallible_bind.2 (meets_restoreOriginal.imp ?_)
      rintro (e | _) tree' h
      · exact nofun
      refine meets_removeStagedTemp.imp ?_
      rintro (e | _) tree'' h'
      · exact nofun
      · intro _
        rw [show tree'' = _ from h', h rfl]
        simp [hne]
    · rcases change.original with _ | original
      · exact nofun
      refine meets_restoreOriginal.imp fun r tree' h hr => ?_
      simp [h hr]
  · rintro (e | _) tree' h
    · exact nofun
    · refine (unchanged passive_true (only_syncDirectory (anySite _))).imp ?_
      rintro r tree'' rfl _
      exact h rfl

/-- Looking at the marker leaves the tree. -/
theorem meets_verifyMarker {root : Root} {marker : Marker} :
    Meets (environment slash actor) (fun _ => True) (Saw tree fun _ => True)
      (verifyMarker root marker).run tree :=
  looks passive_true only_verifyMarker

/-- The marker is gone. -/
theorem meets_removeMarker {root : Root} {marker : Marker} :
    Meets (environment slash actor) (fun _ => True)
      (Did tree fun _ tree' => tree' = Function.update tree root.marker none)
      (removeMarker root marker).run tree :=
  meets_saw_bind meets_verifyMarker (fun _ => rfl) fun _ _ =>
    meets_did_adapt (meets_did_sys fun _ _ => FsStep.unlink_ok)

end Mutator
end Hegira
