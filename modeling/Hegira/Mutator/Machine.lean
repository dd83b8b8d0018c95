/-
# A file system to run the publisher on

One deterministic environment among those of `FsStep`: the calls that fail are
given, a file gets the next inode, and what an outside actor does at the hooks is
a function.  It produces complete runs of the publisher (`runs_publish`).
-/

import Hegira.Mutator.Transaction

namespace Hegira
namespace Mutator

open Program

/-- A tree whose inodes have all been given out already. -/
structure Machine where
  tree : Tree
  next : Nat
  bounded : ∀ l node, tree l = some node → node.identity.inode < next

/-- What a run is told: the calls that fail, and what happens at a hook. -/
structure Scenario where
  fails : FsCall → Bool
  act : HookPoint → Machine → Except MutationError Unit × Machine

namespace Machine

/-- The identity of the next file. -/
def fresh (m : Machine) : Identity := ⟨0, m.next⟩

/-- A fresh inode is nowhere linked. -/
theorem unlinked_fresh (m : Machine) : Unlinked m.tree m.fresh := by
  intro l node hl he
  have := m.bounded l node hl
  rw [he] at this
  exact Nat.lt_irrefl _ this

/-- What is found after an update was there or is new. -/
theorem update_eq_some {tree : Tree} {location l : Location} {entry : Option Node} {node : Node}
    (h : Function.update tree location entry l = some node) :
    entry = some node ∨ tree l = some node := by
  by_cases hl : l = location
  · subst hl
    exact Or.inl (by simpa using h)
  · exact Or.inr (by rwa [Function.update_of_ne hl] at h)

/-- A call makes no identities up but that of a file it creates. -/
theorem effect_identity {slash fresh : Identity} {tree : Tree} {c : FsCall} {l : Location}
    {node : Node} (h : (c.effect slash fresh tree).2 l = some node) :
    node.identity = fresh ∨ ∃ l' node', tree l' = some node' ∧ node'.identity = node.identity := by
  have hsame : ∀ {l}, tree l = some node → node.identity = fresh ∨
      ∃ l' node', tree l' = some node' ∧ node'.identity = node.identity :=
    fun hl => Or.inr ⟨_, node, hl, rfl⟩
  cases c with
  | createFile location =>
      simp only [FsCall.effect] at h
      split at h
      · exact hsame h
      · rcases update_eq_some h with he | hl
        · cases he
          exact Or.inl rfl
        · exact hsame hl
  | writeAll location _ | changeMode location _ =>
      simp only [FsCall.effect] at h
      split at h
      next file hf =>
        rcases update_eq_some h with he | hl
        · cases he
          exact Or.inr ⟨location, .file file, hf, rfl⟩
        · exact hsame hl
      · exact hsame h
  | rename site directory source destination flags =>
      simp only [FsCall.effect] at h
      split at h
      all_goals first
        | exact hsame h
        | rcases update_eq_some h with he | h'
          · exact hsame he
          · rcases update_eq_some h' with he | hl
            · exact hsame he
            · exact hsame hl
  | unlink location =>
      simp only [FsCall.effect] at h
      split at h
      · exact hsame h
      · rcases update_eq_some h with he | hl
        · cases he
        · exact hsame hl
      · exact hsame h
  | _ =>
      simp only [FsCall.effect] at h
      repeat' split at h
      all_goals exact hsame h

/-- The machine makes a call to the operating system. -/
def sys (slash : Identity) (m : Machine) (c : FsCall) : Except Errno c.Value × Machine :=
  ((c.effect slash m.fresh m.tree).1,
    { tree := (c.effect slash m.fresh m.tree).2
      next := m.next + 1
      bounded := by
        intro l node hl
        rcases effect_identity hl with he | ⟨l', node', hl', he⟩
        · rw [he]
          exact Nat.lt_succ_self _
        · rw [← he]
          exact Nat.lt_succ_of_lt (m.bounded l' node' hl') })

/-- The machine answers a call of the publisher. -/
def answer (slash : Identity) (scenario : Scenario) (m : Machine) :
    (c : PublisherCall) → c.Reply × Machine
  | .fs c => if scenario.fails c then (.error (.other 5), m) else m.sys slash c
  | .hook point => scenario.act point m

/-- Somebody puts a file of their own at a location. -/
def put (m : Machine) (location : Location) (content : Bytes) : Machine where
  tree := Function.update m.tree location
    (some (.file ⟨m.fresh, content, regularMode 0o644⟩))
  next := m.next + 1
  bounded := by
    intro l node hl
    rcases update_eq_some hl with he | hl
    · cases he
      exact Nat.lt_succ_self _
    · exact Nat.lt_succ_of_lt (m.bounded l node hl)

/-- The answers of the machine are answers of the environment. -/
theorem environment_answer {slash : Identity} {scenario : Scenario} {actor : Actor}
    (h : ∀ point m, actor point m.tree (scenario.act point m).1 (scenario.act point m).2.tree)
    (m : Machine) (c : PublisherCall) :
    environment slash actor m.tree c (m.answer slash scenario c).1
      (m.answer slash scenario c).2.tree := by
  cases c with
  | fs c =>
      simp only [answer]
      split
      · exact .fault 5
      · exact .effect m.fresh m.unlinked_fresh
  | hook point => exact h point m

end Machine

/-! ### An application with a draft -/

/-- The directory `/`. -/
def slashDirectory : Identity := ⟨0, 1⟩

/-- The directory `/app`, an application. -/
def appDirectory : Identity := ⟨0, 2⟩

/-- The directory `/app/src`. -/
def srcDirectory : Identity := ⟨0, 3⟩

/-- The location of the draft. -/
def draftLocation : Location := ⟨srcDirectory, "draft.rs"⟩

/-- A path after the draft. -/
def notesPath : ChangePath := ⟨"src/notes.rs", by decide⟩

/-- The application, with or without the draft. -/
def draftTree (draft : Option Node) : Tree :=
  Function.update (Function.update (Function.update (fun _ => none) ⟨slashDirectory, "app"⟩
    (some (.directory appDirectory))) ⟨appDirectory, "src"⟩ (some (.directory srcDirectory)))
    draftLocation draft

/-- What is in the tree of the example. -/
theorem draftTree_eq_some {draft : Option Node} {l : Location} {node : Node}
    (h : draftTree draft l = some node) :
    l = draftLocation ∧ draft = some node ∨
      l = ⟨appDirectory, "src"⟩ ∧ node = .directory srcDirectory ∨
        l = ⟨slashDirectory, "app"⟩ ∧ node = .directory appDirectory := by
  simp only [draftTree, Function.update_apply] at h
  split at h
  · exact Or.inl ⟨‹_›, h⟩
  split at h
  · exact Or.inr (Or.inl ⟨‹_›, by simpa using h.symm⟩)
  split at h
  · exact Or.inr (Or.inr ⟨‹_›, by simpa using h.symm⟩)
  · cases h

/-- Its directories form a tree. -/
theorem draftTree_wellFormed {draft : Option Node} (h : ∀ d, draft ≠ some (.directory d)) :
    (draftTree draft).WellFormed := by
  have hd : ∀ l d, draftTree draft l = some (.directory d) →
      l = ⟨appDirectory, "src"⟩ ∧ d = srcDirectory ∨
        l = ⟨slashDirectory, "app"⟩ ∧ d = appDirectory := by
    intro l d hl
    rcases draftTree_eq_some hl with ⟨-, he⟩ | ⟨he, hd⟩ | ⟨he, hd⟩
    · exact absurd he (h d)
    · exact Or.inl ⟨he, by simpa using hd⟩
    · exact Or.inr ⟨he, by simpa using hd⟩
  refine ⟨fun l l' d hl hl' => ?_, Identity.inode, fun l d hl => ?_⟩
  · rcases hd l d hl with ⟨rfl, rfl⟩ | ⟨rfl, rfl⟩ <;>
      rcases hd l' _ hl' with ⟨rfl, he⟩ | ⟨rfl, he⟩ <;>
      first | rfl | exact absurd he (by decide)
  · rcases hd l d hl with ⟨rfl, rfl⟩ | ⟨rfl, rfl⟩ <;> decide

/-- The names of a transaction start with a dot. -/
theorem Reserved.head {transaction name : String} (h : Reserved transaction name) :
    name.toList.head? = some '.' := by
  have hdot : ∀ p q : String, p.toList.head? = some '.' → (p ++ q).toList.head? = some '.' := by
    intro p q hp
    rw [String.toList_append, List.head?_append, hp]
    rfl
  rcases h with ⟨i, rfl⟩ | ⟨i, side, rfl⟩ <;> exact hdot _ _ (by decide +kernel)

/-- A plan for files without a leading dot does not get in the way of a transaction. -/
theorem unused_draftTree {transaction : String} {draft : Option Node}
    {plan : ChangePlan PlainDigest}
    (h : ∀ c ∈ plan.changes, c.path.fileName.toList.head? ≠ some '.') :
    Unused transaction plan (draftTree draft) := by
  refine ⟨fun l hl => ?_, fun c hc hr => ?_⟩
  · by_contra hne
    obtain ⟨node, hn⟩ := Option.ne_none_iff_exists'.1 hne
    rcases draftTree_eq_some hn with ⟨rfl, -⟩ | ⟨rfl, -⟩ | ⟨rfl, -⟩ <;>
      exact absurd hl.head (by decide +kernel)
  · exact h c hc hr.head

/-- A machine with the application. -/
def draftMachine (draft : Option Node) (h : ∀ node ∈ draft, node.identity.inode < 5) : Machine where
  tree := draftTree draft
  next := 5
  bounded := by
    intro l node hl
    rcases Machine.update_eq_some hl with he | hl
    · exact h node he
    rcases Machine.update_eq_some hl with he | hl
    · cases he
      decide
    rcases Machine.update_eq_some hl with he | hl
    · cases he
      decide
    · cases hl

/-- A process to publish from. -/
def draftProcess : Process := ⟨none, 7, some 1⟩

/-- The run of a publication on a machine: its calls, its result and the tree it leaves. -/
def publishRun (scenario : Scenario) (plan : ChangePlan PlainDigest) (m : Machine) :
    List (Event PublisherCall PublisherCall.Reply Tree) ×
      Except MutationError MutationReceipt × Machine :=
  (publishChangePlan draftProcess (some "/app") plan).run.execute Machine.tree
    (Machine.answer slashDirectory scenario) m

/-- What the machine does is a run. -/
theorem runs_publishRun {scenario : Scenario} {actor : Actor} {plan : ChangePlan PlainDigest}
    {m : Machine} (h : ∀ point m,
      actor point m.tree (scenario.act point m).1 (scenario.act point m).2.tree) :
    Runs (environment slashDirectory actor)
      (publishChangePlan draftProcess (some "/app") plan).run m.tree
      (publishRun scenario plan m).1 (.done (publishRun scenario plan m).2.1)
      (publishRun scenario plan m).2.2.tree :=
  runs_execute (Machine.environment_answer h) _ m

/-- Nobody else is at work, and the given calls fail. -/
def Scenario.faulty (fails : FsCall → Bool) : Scenario where
  fails := fails
  act _ m := (.ok (), m)

/-- What a machine with failing calls does is a run. -/
theorem runs_faulty (fails : FsCall → Bool) (plan : ChangePlan PlainDigest) (m : Machine) :
    Runs (environment slashDirectory noActor)
      (publishChangePlan draftProcess (some "/app") plan).run m.tree
      (publishRun (.faulty fails) plan m).1 (.done (publishRun (.faulty fails) plan m).2.1)
      (publishRun (.faulty fails) plan m).2.2.tree :=
  runs_publishRun fun _ _ => ⟨rfl, rfl⟩

end Mutator
end Hegira
