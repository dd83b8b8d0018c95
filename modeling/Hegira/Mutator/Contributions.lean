/-
# Component contributions

The additive installation types of `tools/application_mutator/src/installation.rs`
and `compose_component_contributions`, which collapses an ordered series of them
into one contribution per path.

A contribution carries the checks of its constructors as fields: its owner owns
its path, and an integration never edits a historical migration.  The fold keeps
them, since it changes contents and result digests only.  At every path it is a
chain of contributions (`tracks_composeContribution`), read off key by key.
-/

import Hegira.Mutator.Composition

namespace Hegira
namespace Mutator

open Keyed

/-- `ApplicationFileOwner`. -/
inductive ApplicationFileOwner where
  | workspaceManifest
  | applicationManifest
  | configuration
  | server
  | web
  | domainShared
  | domain
  | applicationContracts
  | application
  | infrastructure
  | presentation
  deriving DecidableEq, Repr

/-- `below`: the path lies under the directory `root`. -/
def below (path root : String) : Bool :=
  (root.toList ++ ['/']).isPrefixOf path.toList

/-- `ApplicationFileOwner::owns`. -/
def ApplicationFileOwner.owns (owner : ApplicationFileOwner) (path : ChangePath) : Bool :=
  match owner with
  | .workspaceManifest => path.text == "Cargo.toml"
  | .applicationManifest => path.text == "hegira.toml"
  | .configuration => below path.text "config"
  | .server => below path.text "apps/server"
  | .web => below path.text "apps/web"
  | .domainShared => below path.text "crates/domain_shared"
  | .domain => below path.text "crates/domain"
  | .applicationContracts => below path.text "crates/application_contracts"
  | .application => below path.text "crates/application"
  | .infrastructure => below path.text "crates/infrastructure"
  | .presentation => below path.text "crates/presentation"

/-- `is_historical_migration`. -/
def isHistoricalMigration (path : ChangePath) : Bool :=
  "crates/infrastructure/migrations/".toList.isPrefixOf path.text.toList

/-- `ComponentInstallationErrorKind`. -/
inductive ComponentInstallationErrorKind where
  | invalidComponent
  | duplicateInstalledComponent
  | alreadyInstalled
  | invalidOwnership
  | historicalMigrationEdit
  | conflictingContribution
  | emptyInstallation
  | invalidChangePlan
  deriving DecidableEq, Repr

/-- `ComponentInstallationError`. -/
structure ComponentInstallationError where
  kind : ComponentInstallationErrorKind
  path : Option ChangePath
  message : String
  deriving DecidableEq

namespace ComponentInstallationError

/-- `ComponentInstallationError::at_path`. -/
def atPath (kind : ComponentInstallationErrorKind) (path : ChangePath) (message : String) :
    ComponentInstallationError :=
  ⟨kind, some path, message⟩

/-- `ComponentInstallationError::plan`; an error of the plan displays as its
message. -/
def plan (error : ChangePlanError) : ComponentInstallationError :=
  ⟨.invalidChangePlan, error.path, error.message⟩

end ComponentInstallationError

section Contributions

variable (D : Type) [ContentDigest D]

/-- `ComponentArtifact`. -/
structure ComponentArtifact where
  owner : ApplicationFileOwner
  creation : FileCreation D
  owned : owner.owns creation.path
  deriving DecidableEq

/-- `ComponentIntegration`. -/
structure ComponentIntegration where
  owner : ApplicationFileOwner
  edit : StructuredFileEdit D
  owned : owner.owns edit.path
  notHistorical : isHistoricalMigration edit.path = false
  deriving DecidableEq

/-- `ComponentContribution`. -/
inductive ComponentContribution where
  | artifact (artifact : ComponentArtifact D)
  | integration (integration : ComponentIntegration D)
  deriving DecidableEq

end Contributions

variable {D : Type} [ContentDigest D]

/-- The error of `validate_ownership`. -/
def outsideOwner (path : ChangePath) : ComponentInstallationError :=
  .atPath .invalidOwnership path
    "component contribution path is outside its canonical application owner"

/-- `ComponentArtifact::new`. -/
def ComponentArtifact.new (owner : ApplicationFileOwner) (path : String) (content : Bytes) :
    Except ComponentInstallationError (ComponentArtifact D) :=
  match FileCreation.new path content with
  | .error error => .error (.plan error)
  | .ok creation =>
      if h : owner.owns creation.path then .ok ⟨owner, creation, h⟩
      else .error (outsideOwner creation.path)

/-- `ComponentIntegration::new`. -/
def ComponentIntegration.new (owner : ApplicationFileOwner) (edit : StructuredFileEdit D) :
    Except ComponentInstallationError (ComponentIntegration D) :=
  if h : owner.owns edit.path then
    if hm : isHistoricalMigration edit.path then
      .error (.atPath .historicalMigrationEdit edit.path
        "component installation cannot edit historical application migrations")
    else .ok ⟨owner, edit, h, by simpa using hm⟩
  else .error (outsideOwner edit.path)

namespace ComponentContribution

/-- `ComponentContribution::owner`. -/
def owner : ComponentContribution D → ApplicationFileOwner
  | .artifact a => a.owner
  | .integration i => i.owner

/-- `ComponentContribution::path`. -/
def path : ComponentContribution D → ChangePath
  | .artifact a => a.creation.path
  | .integration i => i.edit.path

/-- The change of `ComponentContribution::into_parts`. -/
def change : ComponentContribution D → PlannedFileChange D
  | .artifact a => .create a.creation
  | .integration i => .edit i.edit

variable [DecidableEq D]

/-- The `match (previous, contribution)` of `compose_component_contributions`. -/
def chained : ComponentContribution D → ComponentContribution D → Option (ComponentContribution D)
  | .artifact previous, .integration next =>
      if next.edit.originalDigest = previous.creation.resultDigest then
        some (.artifact { previous with
          creation := { previous.creation with
            content := next.edit.content
            resultDigest := next.edit.resultDigest
            resultDigest_eq := next.edit.resultDigest_eq } })
      else none
  | .integration previous, .integration next =>
      if next.edit.originalDigest = previous.edit.resultDigest then
        some (.integration { previous with
          edit := { previous.edit with
            content := next.edit.content
            resultDigest := next.edit.resultDigest
            resultDigest_eq := next.edit.resultDigest_eq } })
      else none
  | _, _ => none

end ComponentContribution

open ComponentContribution

/-- The map `compose_component_contributions` builds. -/
abbrev ComposedContributions (D : Type) [ContentDigest D] :=
  Std.TreeMap ChangePath (ComponentContribution D)

variable [DecidableEq D]

/-- The body of the loop of `compose_component_contributions`. -/
def composeContribution (composed : ComposedContributions D)
    (contribution : ComponentContribution D) :
    Except ComponentInstallationError (ComposedContributions D) :=
  let path := contribution.path
  match composed[path]? with
  | none => .ok (composed.insert path contribution)
  | some previous =>
      let composed := composed.erase path
      if previous.owner ≠ contribution.owner then
        .error (.atPath .invalidOwnership path
          "component contribution sequence changes the canonical owner of one path")
      else match previous.chained contribution with
        | some chained => .ok (composed.insert path chained)
        | none => .error (.atPath .conflictingContribution path
            "component contribution sequence does not preserve the preceding result digest")

/-- `compose_component_contributions`. -/
def composeComponentContributions (contributions : List (ComponentContribution D)) :
    Except ComponentInstallationError (List (ComponentContribution D)) := do
  let composed ← contributions.foldlM composeContribution ∅
  return composed.toList.map Prod.snd

namespace ComponentContribution

/-- What the loop makes of a further contribution at a path. -/
def chainStep : Option (ComponentContribution D) → ComponentContribution D →
    Option (Option (ComponentContribution D))
  | none, contribution => some (some contribution)
  | some previous, contribution =>
      if previous.owner ≠ contribution.owner then none
      else (previous.chained contribution).map some

/-- **A chained contribution keeps its path and its precondition** and takes over
the result of the one chained to it, which is an integration of the preceding
result. -/
theorem chained_eq_some {previous next c : ComponentContribution D}
    (h : previous.chained next = some c) :
    c.path = previous.path ∧ c.change.operation = previous.change.operation ∧
      c.change.precondition = previous.change.precondition ∧
      c.change.resultPrecondition = next.change.resultPrecondition ∧
      next.change.precondition = previous.change.resultPrecondition := by
  cases previous with
  | artifact first =>
      cases next with
      | artifact second => cases h
      | integration second =>
          simp only [chained, Option.ite_none_right_eq_some, Option.some.injEq] at h
          obtain ⟨hd, rfl⟩ := h
          exact ⟨rfl, rfl, rfl, rfl, congrArg FilePrecondition.matchesDigest hd⟩
  | integration first =>
      cases next with
      | artifact second => cases h
      | integration second =>
          simp only [chained, Option.ite_none_right_eq_some, Option.some.injEq] at h
          obtain ⟨hd, rfl⟩ := h
          exact ⟨rfl, rfl, rfl, rfl, congrArg FilePrecondition.matchesDigest hd⟩

/-- The loop of `compose_component_contributions` chains at the path of each
contribution. -/
theorem tracks_composeContribution :
    Tracks (fun (composed : ComposedContributions D) path => composed[path]?) path chainStep
      fun composed c => (composeContribution composed c).toOption where
  ran {composed c composed'} h := by
    rcases hp : composed[c.path]? with _ | previous
    · obtain rfl : composed.insert c.path c = composed' := by
        simpa [composeContribution, hp, Except.toOption] using h
      exact ⟨some c, rfl, lookup_insert ..⟩
    · by_cases ho : previous.owner = c.owner
      · rcases hc : previous.chained c with _ | chained
        · simp [composeContribution, hp, ho, hc, Except.toOption] at h
        · obtain rfl : (composed.erase c.path).insert c.path chained = composed' := by
            simpa [composeContribution, hp, ho, hc, Except.toOption] using h
          refine ⟨some chained, by simp [chainStep, ho, hc], ?_⟩
          simp only [lookup_insert, lookup_erase, Function.update_idem]
      · simp [composeContribution, hp, ho, Except.toOption] at h
  stuck {composed c} h := by
    rcases hp : composed[c.path]? with _ | previous
    · simp [composeContribution, hp, Except.toOption] at h
    · by_cases ho : previous.owner = c.owner
      · rcases hc : previous.chained c with _ | chained
        · simp [chainStep, ho, hc]
        · simp [composeContribution, hp, ho, hc, Except.toOption] at h
      · simp [chainStep, ho]

/-- **A chain keeps its first precondition and its last result.** -/
theorem chain_eq_some {rest : List (ComponentContribution D)} {first : ComponentContribution D}
    {net : Option (ComponentContribution D)} (h : rest.foldlM chainStep (some first) = some net) :
    ∃ c, net = some c ∧ c.path = first.path ∧ c.change.precondition = first.change.precondition ∧
      ∃ last ∈ (first :: rest).getLast?,
        c.change.resultPrecondition = last.change.resultPrecondition := by
  induction rest generalizing first with
  | nil =>
      obtain rfl : some first = net := by simpa using h
      exact ⟨first, rfl, rfl, rfl, first, rfl, rfl⟩
  | cons next rest ih =>
      rw [List.foldlM_cons] at h
      obtain ⟨net₁, h₁, h⟩ := Option.bind_eq_some_iff.1 h
      rw [chainStep] at h₁
      split_ifs at h₁
      obtain ⟨chained, hc, rfl⟩ := Option.map_eq_some_iff.1 h₁
      obtain ⟨hpath, -, hpre, hres, -⟩ := chained_eq_some hc
      obtain ⟨c, rfl, hcp, hcpre, last, hl, hcl⟩ := ih h
      refine ⟨c, rfl, hcp.trans hpath, hcpre.trans hpre, ?_⟩
      rcases rest with _ | ⟨third, rest⟩
      · obtain rfl : chained = last := by simpa using hl
        exact ⟨next, by simp, hcl.trans hres⟩
      · exact ⟨last, by simpa using hl, hcl⟩

/-- **`compose_component_contributions`, path by path.**  The contribution at a
path is the net contribution of the ones given there. -/
theorem mem_composeComponentContributions {contributions composed : List (ComponentContribution D)}
    (h : composeComponentContributions contributions = .ok composed) (k : ChangePath) :
    ∃ net, (opsAt path contributions k).foldlM chainStep none = some net ∧
      ∀ c, c ∈ composed ∧ c.path = k ↔ net = some c := by
  unfold composeComponentContributions at h
  cases hm : contributions.foldlM composeContribution ∅ with
  | error e => simp [hm, bind, Except.bind] at h
  | ok m =>
      obtain rfl : m.toList.map Prod.snd = composed := by
        simpa [hm, bind, Except.bind, pure, Except.pure] using h
      have hchain (k : ChangePath) :
          (opsAt path contributions k).foldlM chainStep none = some m[k]? := by
        have hf := toOption_foldlM composeContribution contributions ∅
        rw [hm] at hf
        simpa using tracks_composeContribution.lookup_of_foldlM _ hf.symm k
      have hkey (k : ChangePath) (c : ComponentContribution D) (hc : m[k]? = some c) :
          c.path = k := by
        have hk := hchain k
        rcases hops : opsAt path contributions k with _ | ⟨first, rest⟩
        · rw [hops, hc] at hk
          simp at hk
        · rw [hops, List.foldlM_cons, hc] at hk
          obtain ⟨c', he, hp, -⟩ := chain_eq_some hk
          obtain rfl : c = c' := Option.some.inj he
          exact hp.trans (key_of_mem_opsAt (hops ▸ List.mem_cons_self))
      refine ⟨m[k]?, hchain k, fun c => ?_⟩
      simp only [List.mem_map, Prod.exists, exists_eq_right,
        Std.TreeMap.mem_toList_iff_getElem?_eq_some]
      constructor
      · rintro ⟨⟨k', hc⟩, rfl⟩
        rw [hkey k' c hc]
        exact hc
      · exact fun hc => ⟨⟨k, hc⟩, hkey k c hc⟩

end ComponentContribution

end Mutator
end Hegira
