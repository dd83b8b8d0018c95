/-
# What composition resolution accepts

`Acceptable` says in terms of the component map what a request must meet, and
`Describes` what its composition then is: the components that can be reached from the
roots, each after what it requires, with their modules and capabilities.

Resolution ends, accepts exactly the acceptable requests, and does not depend on the
order of the roots.  Every diagnostic is the failure of one condition
(`selectionDiagnostics_eq_nil`), and the search contributes `DepthFirst`.
-/

import Mathlib.Data.Finset.Dedup
import Hegira.Library.KeyedFold
import Hegira.Library.Validation
import Hegira.Template.Composition

namespace Hegira
namespace Template

open Std (TreeMap)
open DepthFirst (Graph)
open Relation (TransGen)

variable {package : ComponentPackageManifest} {components : Components}
  {request : CompositionRequest}

/-! ### What a request asks for -/

/-- A component that can be reached from the roots. -/
def Selected (components : Components) (request : CompositionRequest) (id : String) : Prop :=
  ∃ root ∈ request.components, (graph components).Reaches root id

/-- A component that can be reached from the roots and exists. -/
def SelectedAs (components : Components) (request : CompositionRequest) (id : String)
    (component : ComponentManifest) : Prop :=
  Selected components request id ∧ components[id]? = some component

/-- What a request must meet. -/
structure Acceptable (package : ComponentPackageManifest) (components : Components)
    (request : CompositionRequest) : Prop where
  framework : request.framework = package.framework
  identity : request.package = ⟨package.id, package.version⟩
  valid : ∀ root ∈ request.components, validIdentifier root
  distinct : request.components.Nodup
  present : ∀ id, Selected components request id → id ∈ components
  acyclic : ∀ id, Selected components request id → ¬TransGen (graph components).Requires id id
  version : ∀ id component, SelectedAs components request id component →
    component.version = some package.version
  optional : ∀ id component, SelectedAs components request id component →
    ∀ dependency ∈ component.optionalDependencies, dependency ∈ components
  /-- Either side may declare a conflict. -/
  compatible : ∀ id component other, SelectedAs components request id component →
    Selected components request other → other ∉ component.conflicts
  packaged : ∀ id component, SelectedAs components request id component →
    ∀ module ∈ component.modules, module ∈ package.modules
  owner : ∀ id component id' component', SelectedAs components request id component →
    SelectedAs components request id' component' →
    ∀ module ∈ component.modules, module ∈ component'.modules → id = id'
  /-- A component that lists a module twice is counted as two owners; the loader lets
  no such component in. -/
  owned : ∀ id component, SelectedAs components request id component → component.modules.Nodup
  provided : ∀ id component, SelectedAs components request id component →
    ∀ capability ∈ component.requiresCapabilities, ∃ id' component',
      SelectedAs components request id' component' ∧
        capability ∈ component'.providesCapabilities
  recordedModules : ∀ recorded, request.recordedModules = some recorded →
    (recorded.map InstalledModule.id).Nodup ∧ ∀ module, module ∈ recorded ↔
      module.version = package.version ∧ ∃ id component,
        SelectedAs components request id component ∧ module.id ∈ component.modules
  recordedCapabilities : ∀ recorded, request.recordedCapabilities = some recorded →
    ∀ capability, capability ∈ recorded ↔ ∃ id component,
      SelectedAs components request id component ∧ capability ∈ component.providesCapabilities

/-- A component of a composition, as its manifest has it. -/
def describe (package : ComponentPackageManifest) (entry : String × ComponentManifest) :
    ResolvedComponent where
  id := entry.1
  version := package.version
  requiredDependencies := entry.2.requires
  optionalDependencies := entry.2.optionalDependencies
  modules := entry.2.modules
  providesCapabilities := entry.2.providesCapabilities
  requiresCapabilities := entry.2.requiresCapabilities
  installation := entry.2.installation

/-- What the composition of a request is. -/
structure Describes (package : ComponentPackageManifest) (components : Components)
    (request : CompositionRequest) (composition : ResolvedComposition) : Prop where
  schema : composition.schema = compositionGraphSchema
  framework : composition.framework = package.framework
  identity : composition.package = ⟨package.id, package.version⟩
  /-- Exactly the components that can be reached, each once. -/
  selected : ∀ id, id ∈ composition.components.map ResolvedComponent.id ↔
    Selected components request id
  nodup : (composition.components.map ResolvedComponent.id).Nodup
  faithful : ∀ resolved ∈ composition.components, ∃ component,
    components[resolved.id]? = some component ∧ resolved = describe package (resolved.id, component)
  /-- Every component after all it requires. -/
  ordered : ∀ pre resolved post, composition.components = pre ++ resolved :: post →
    ∀ dependency ∈ resolved.requiredDependencies, dependency ∈ pre.map ResolvedComponent.id
  modules : ∀ module, module ∈ composition.modules ↔
    module.version = package.version ∧ ∃ resolved ∈ composition.components,
      module.id ∈ resolved.modules
  modulesOnce : composition.modules.Nodup
  capabilities : ∀ capability, capability ∈ composition.capabilities ↔
    ∃ resolved ∈ composition.components, capability ∈ resolved.providesCapabilities

/-! ### The roots -/

/-- One step of the loop over the requested components, on its two results. -/
theorem addRoot_fst (acc : Finset String × List CompositionDiagnostic) (c : String) :
    (addRoot acc c).1 = if validIdentifier c then insert c acc.1 else acc.1 := by
  by_cases hv : validIdentifier c <;> by_cases hc : c ∈ acc.1 <;> simp [addRoot, hv, hc]

/-- What one root adds to the diagnostics. -/
theorem addRoot_snd (acc : Finset String × List CompositionDiagnostic) (c : String) :
    (addRoot acc c).2 = acc.2 ++
      if !validIdentifier c then [⟨.invalidComponent, c, none, none, none⟩]
      else if c ∈ acc.1 then [⟨.duplicateComponent, c, none, none, none⟩] else [] := by
  by_cases hv : validIdentifier c <;> by_cases hc : c ∈ acc.1 <;> simp [addRoot, hv, hc]

/-- The roots that are collected are the valid ones. -/
theorem foldl_addRoot_fst (cs : List String) (acc : Finset String × List CompositionDiagnostic) :
    (cs.foldl addRoot acc).1 = acc.1 ∪ (cs.filter validIdentifier).toFinset := by
  induction cs generalizing acc with
  | nil => simp
  | cons c cs ih =>
      rw [List.foldl_cons, ih, addRoot_fst]
      by_cases hv : validIdentifier c <;> simp [hv, Finset.insert_union]

theorem collectRoots_fst (cs : List String) :
    (collectRoots cs).1 = (cs.filter validIdentifier).toFinset := by
  rw [collectRoots, foldl_addRoot_fst, Finset.empty_union]

/-- There is no diagnostic when every root is valid and new. -/
theorem foldl_addRoot_snd_eq_nil (cs : List String)
    (acc : Finset String × List CompositionDiagnostic) :
    (cs.foldl addRoot acc).2 = [] ↔
      acc.2 = [] ∧ (∀ c ∈ cs, validIdentifier c ∧ c ∉ acc.1) ∧ cs.Nodup := by
  induction cs generalizing acc with
  | nil => simp
  | cons c cs ih =>
      rw [List.foldl_cons, ih, addRoot_fst, addRoot_snd, List.forall_mem_cons, List.nodup_cons]
      by_cases hv : validIdentifier c
      · by_cases hc : c ∈ acc.1
        · simp [hv, hc]
        · simp only [hv, hc, Bool.not_true, Bool.false_eq_true, if_false, if_true, List.append_nil,
            Finset.mem_insert, not_or, not_false_eq_true, and_self, true_and]
          refine and_congr_right fun _ => ⟨fun ⟨h, hn⟩ => ?_, fun ⟨h, hn, hd⟩ => ?_⟩
          · exact ⟨fun x hx => ⟨(h x hx).1, (h x hx).2.2⟩, fun hx => (h c hx).2.1 rfl, hn⟩
          · exact ⟨fun x hx => ⟨(h x hx).1, fun e => hn (e ▸ hx), (h x hx).2⟩, hd⟩
      · simp [hv]

/-- **The roots are in order exactly when they are valid and distinct.** -/
theorem collectRoots_snd_eq_nil (cs : List String) :
    (collectRoots cs).2 = [] ↔ (∀ c ∈ cs, validIdentifier c) ∧ cs.Nodup := by
  rw [collectRoots, foldl_addRoot_snd_eq_nil]
  simp

/-- The loop's results up to the order of the diagnostics. -/
def SameRoots (acc acc' : Finset String × List CompositionDiagnostic) : Prop :=
  acc.1 = acc'.1 ∧ acc.2.Perm acc'.2

/-- Equal collections have the same roots. -/
theorem SameRoots.refl (acc : Finset String × List CompositionDiagnostic) : SameRoots acc acc :=
  ⟨rfl, .refl _⟩

theorem SameRoots.trans {acc acc' acc'' : Finset String × List CompositionDiagnostic}
    (h : SameRoots acc acc') (h' : SameRoots acc' acc'') : SameRoots acc acc'' :=
  ⟨h.1.trans h'.1, h.2.trans h'.2⟩

/-- Two turns of the loop change places up to the order of their diagnostics. -/
theorem addRoot_comm (acc : Finset String × List CompositionDiagnostic) (c d : String) :
    SameRoots (addRoot (addRoot acc c) d) (addRoot (addRoot acc d) c) := by
  rcases eq_or_ne c d with rfl | hcd
  · exact ⟨rfl, .refl _⟩
  · constructor
    · rw [addRoot_fst, addRoot_fst, addRoot_fst, addRoot_fst]
      by_cases hc : validIdentifier c <;> by_cases hd : validIdentifier d <;>
        simp [hc, hd, Finset.insert_comm]
    · rw [addRoot_snd, addRoot_snd, addRoot_snd, addRoot_snd, addRoot_fst, addRoot_fst]
      have hfresh (x y : String) (hne : x ≠ y) :
          (x ∈ if validIdentifier y then insert y acc.1 else acc.1) ↔ x ∈ acc.1 := by
        split <;> simp [hne]
      simp only [hfresh d c hcd.symm, hfresh c d hcd, List.append_assoc]
      exact List.perm_append_comm.append_left acc.2

/-- Further roots keep it so. -/
theorem SameRoots.foldl {acc acc' : Finset String × List CompositionDiagnostic}
    (h : SameRoots acc acc') (cs : List String) :
    SameRoots (cs.foldl addRoot acc) (cs.foldl addRoot acc') := by
  induction cs generalizing acc acc' with
  | nil => exact h
  | cons c cs ih =>
      refine ih ⟨?_, ?_⟩
      · rw [addRoot_fst, addRoot_fst, h.1]
      · rw [addRoot_snd, addRoot_snd, h.1]
        exact h.2.append_right _

/-- The order of the roots does not matter. -/
theorem foldl_addRoot_perm {cs ds : List String} (h : cs.Perm ds)
    (acc : Finset String × List CompositionDiagnostic) :
    SameRoots (cs.foldl addRoot acc) (ds.foldl addRoot acc) := by
  induction h generalizing acc with
  | nil => exact .refl _
  | cons c _ ih => exact ih (addRoot acc c)
  | swap c d cs => exact SameRoots.foldl (addRoot_comm acc d c) cs
  | trans _ _ ih ih' => exact (ih acc).trans (ih' acc)

/-- **The order of the roots** changes neither the set of the roots nor, up to their
order, the diagnostics. -/
theorem collectRoots_perm {cs ds : List String} (h : cs.Perm ds) :
    SameRoots (collectRoots cs) (collectRoots ds) :=
  foldl_addRoot_perm h _

/-! ### The modules and their owners -/

/-- The ids with the modules they own, in the order of the loop. -/
def ownerships (ordered : List (String × ComponentManifest)) : List (String × String) :=
  ordered.flatMap fun entry => entry.2.modules.map (entry.1, ·)

/-- The owners of the modules, as one loop over the ownerships. -/
theorem moduleOwners_eq (ordered : List (String × ComponentManifest)) :
    moduleOwners ordered = (ownerships ordered).foldl (fun owners o => addOwner o.1 owners o.2) ∅ := by
  rw [moduleOwners, ownerships, List.foldl_flatMap]
  simp only [List.foldl_map]

/-- What one ownership adds. -/
theorem getElem?_addOwner (id : String) (owners : TreeMap String (List String))
    (module m : String) :
    (addOwner id owners module)[m]? =
      if module = m then some (owners.getD module [] ++ [id]) else owners[m]? := by
  rw [addOwner, TreeMap.getElem?_insert]
  simp

/-- The owners of a module are those of its ownerships. -/
theorem getElem?_foldl_addOwner (os : List (String × String))
    (owners : TreeMap String (List String)) (m : String) :
    (os.foldl (fun owners o => addOwner o.1 owners o.2) owners)[m]? =
      if m ∈ os.map Prod.snd then
        some (owners.getD m [] ++ (os.filter fun o => o.2 = m).map Prod.fst)
      else owners[m]? := by
  induction os generalizing owners with
  | nil => simp
  | cons o os ih =>
      rw [List.foldl_cons, ih, TreeMap.getD_eq_getD_getElem?, getElem?_addOwner]
      by_cases ho : o.2 = m
      · subst ho
        by_cases hm : o.2 ∈ os.map Prod.snd
        · simp [hm]
        · have : (os.filter fun o' => o'.2 = o.2) = [] := by
            refine List.filter_eq_nil_iff.2 fun o' ho' => ?_
            simpa using fun e : o'.2 = o.2 => hm (e ▸ List.mem_map_of_mem ho')
          simp [hm, this]
      · have hmem : m ∈ (o :: os).map Prod.snd ↔ m ∈ os.map Prod.snd := by
          rw [List.map_cons, List.mem_cons]
          exact or_iff_right (Ne.symm ho)
        simp only [hmem, ho, if_false, TreeMap.getD_eq_getD_getElem?, List.filter_cons,
          decide_false, Bool.false_eq_true]

/-- **Who owns a module.** -/
theorem getElem?_moduleOwners (ordered : List (String × ComponentManifest)) (m : String) :
    (moduleOwners ordered)[m]? =
      if m ∈ (ownerships ordered).map Prod.snd then
        some (((ownerships ordered).filter fun o => o.2 = m).map Prod.fst)
      else none := by
  rw [moduleOwners_eq, getElem?_foldl_addOwner]
  simp

/-- The modules of the ownerships. -/
theorem map_snd_ownerships (ordered : List (String × ComponentManifest)) :
    (ownerships ordered).map Prod.snd = ordered.flatMap fun entry => entry.2.modules := by
  simp [ownerships, List.map_flatMap, Function.comp_def]

/-- A module has an owner when a component has it. -/
theorem mem_keys_moduleOwners {ordered : List (String × ComponentManifest)} {m : String} :
    m ∈ (moduleOwners ordered).keys ↔ ∃ entry ∈ ordered, m ∈ entry.2.modules := by
  rw [TreeMap.mem_keys, TreeMap.mem_iff_isSome_getElem?, getElem?_moduleOwners,
    map_snd_ownerships]
  simp

/-- **No module has two owners** exactly when no module is listed twice. -/
theorem ownerDiagnostics_eq_nil (ordered : List (String × ComponentManifest)) :
    ownerDiagnostics (moduleOwners ordered) = [] ↔
      (ordered.flatMap fun entry => entry.2.modules).Nodup := by
  have hcount (m : String) : (((ownerships ordered).filter fun o => o.2 = m).map Prod.fst).length =
      (ordered.flatMap fun entry => entry.2.modules).count m := by
    rw [List.length_map, ← map_snd_ownerships, ← List.countP_eq_length_filter, List.count,
      List.countP_map]
    rfl
  rw [ownerDiagnostics, List.map_eq_nil_iff, List.filter_eq_nil_iff, List.nodup_iff_count_le_one]
  constructor
  · intro h m
    by_cases hm : m ∈ (ownerships ordered).map Prod.snd
    · have := h (m, _) (TreeMap.mem_toList_iff_getElem?_eq_some.2
        ((getElem?_moduleOwners ordered m).trans (if_pos hm)))
      rw [hcount] at this
      simpa using this
    · rw [map_snd_ownerships] at hm
      simp [List.count_eq_zero.2 hm]
  · rintro h ⟨m, owners⟩ hm
    rw [TreeMap.mem_toList_iff_getElem?_eq_some, getElem?_moduleOwners] at hm
    split at hm
    · obtain rfl := Option.some.inj hm
      rw [hcount]
      simpa using h m
    · cases hm

/-! ### The diagnostics of a selection -/

/-- There is no mismatch between equals. -/
theorem mismatch_eq_nil (kind : CompositionDiagnosticKind) (subject expected actual : String) :
    mismatch kind subject expected actual = [] ↔ actual = expected := by
  rw [mismatch]
  split
  · next h => simpa using Ne.symm h
  · next h => simpa using (not_not.1 h).symm

/-- When a request fits its package. -/
theorem compatibilityDiagnostics_eq_nil :
    compatibilityDiagnostics package request = [] ↔
      request.framework = package.framework ∧ request.package = ⟨package.id, package.version⟩ := by
  obtain ⟨⟨repository, version⟩, ⟨id, packageVersion⟩, _, _, _⟩ := request
  obtain ⟨_, _, _, ⟨_, _⟩, _⟩ := package
  simp [compatibilityDiagnostics, mismatch_eq_nil, and_assoc]

/-- When a component fits the selection. -/
theorem componentDiagnostics_eq_nil {selected : Finset String} {id : String}
    {component : ComponentManifest} :
    componentDiagnostics package components selected id component = [] ↔
      component.version.getD "" = package.version ∧
      (∀ dependency ∈ component.optionalDependencies, dependency ∈ components) ∧
      (∀ other ∈ component.conflicts, other ∉ selected) ∧
      ∀ module ∈ component.modules, module ∈ package.modules := by
  simp [componentDiagnostics, List.filter_eq_nil_iff]

/-- When its capabilities are provided. -/
theorem capabilityDiagnostics_eq_nil {provided : Finset ApplicationCapability} {id : String}
    {component : ComponentManifest} :
    capabilityDiagnostics provided id component = [] ↔
      ∀ capability ∈ component.requiresCapabilities, capability ∈ provided := by
  simp [capabilityDiagnostics, List.filter_eq_nil_iff]

/-- A capability is provided by a component. -/
theorem mem_providedCapabilities {ordered : List (String × ComponentManifest)}
    {capability : ApplicationCapability} :
    capability ∈ providedCapabilities ordered ↔
      ∃ entry ∈ ordered, capability ∈ entry.2.providesCapabilities := by
  suffices h : ∀ provided : Finset ApplicationCapability,
      capability ∈ ordered.foldl
          (fun provided entry => provided ∪ entry.2.providesCapabilities.toFinset) provided ↔
        capability ∈ provided ∨ ∃ entry ∈ ordered, capability ∈ entry.2.providesCapabilities by
    rw [providedCapabilities, h]
    simp
  induction ordered with
  | nil => simp
  | cons entry ordered ih =>
      intro provided
      rw [List.foldl_cons, ih, Finset.mem_union, List.mem_toFinset, or_assoc]
      simp

/-! ### The recorded state -/

/-- The recorded modules, as a map. -/
theorem foldl_addRecorded (recorded : List InstalledModule)
    (acc : TreeMap String String × List CompositionDiagnostic) :
    (recorded.foldl addRecorded acc).1 =
        recorded.foldl (fun actual module => actual.insert module.id module.version) acc.1 ∧
      ((recorded.foldl addRecorded acc).2 = [] ↔ acc.2 = [] ∧
        (∀ module ∈ recorded, module.id ∉ acc.1) ∧ (recorded.map InstalledModule.id).Nodup) := by
  induction recorded generalizing acc with
  | nil => simp
  | cons module recorded ih =>
      obtain ⟨ih₁, ih₂⟩ := ih (addRecorded acc module)
      refine ⟨ih₁, ih₂.trans ?_⟩
      rw [addRecorded, List.forall_mem_cons, List.map_cons, List.nodup_cons]
      by_cases hm : module.id ∈ acc.1
      · simp [hm]
      · simp only [TreeMap.contains_iff_mem, hm, if_false, TreeMap.mem_insert,
          Std.compare_eq_iff_eq, not_or, List.mem_map, not_exists, not_and, not_false_eq_true,
          true_and]
        refine and_congr_right fun _ => ⟨fun ⟨h, hn⟩ => ?_, fun ⟨h, hn, hd⟩ => ?_⟩
        · exact ⟨fun m hm => (h m hm).2, fun m hm he => (h m hm).1 he.symm, hn⟩
        · exact ⟨fun m hm => ⟨fun he => hn m hm he.symm, h m hm⟩, hd⟩

/-- The map of distinct modules holds their versions. -/
theorem getElem?_versions {modules : List InstalledModule}
    (h : (modules.map InstalledModule.id).Nodup) (id version : String) :
    (modules.foldl (fun versions module => versions.insert module.id module.version)
        (∅ : TreeMap String String))[id]? = some version ↔
      (⟨id, version⟩ : InstalledModule) ∈ modules := by
  rw [Keyed.getElem?_foldl_insert h]
  exact ⟨fun ⟨m, hm, hid, hv⟩ => by subst hid hv; exact hm, fun hm => ⟨_, hm, rfl, rfl⟩⟩

/-- When a module is recorded as expected. -/
theorem expectModule_eq_nil {id version : String} {actual : Option String} :
    expectModule id version actual = [] ↔ actual = some version := by
  rcases actual with _ | actual <;> simp [expectModule]

/-- **The recorded modules agree** exactly when they are the modules, each recorded
once. -/
theorem recordedModuleDiagnostics_eq_nil {modules recorded : List InstalledModule}
    (h : (modules.map InstalledModule.id).Nodup) :
    recordedModuleDiagnostics modules recorded = [] ↔
      (recorded.map InstalledModule.id).Nodup ∧ ∀ module, module ∈ recorded ↔ module ∈ modules := by
  obtain ⟨h₁, h₂⟩ := foldl_addRecorded recorded (∅, [])
  simp only [recordedModuleDiagnostics, List.append_eq_nil_iff, h₁, h₂, and_assoc,
    List.flatMap_eq_nil_iff, List.map_eq_nil_iff, List.filter_eq_nil_iff, TreeMap.not_mem_emptyc,
    not_false_eq_true, implies_true, true_and, Prod.forall,
    TreeMap.mem_toList_iff_getElem?_eq_some]
  refine and_congr_right fun hr => ?_
  simp only [expectModule_eq_nil, getElem?_versions h, getElem?_versions hr, Bool.not_eq_true,
    Bool.not_eq_false', TreeMap.contains_iff_mem, TreeMap.mem_iff_isSome_getElem?,
    Option.isSome_iff_exists]
  constructor
  · rintro ⟨hmissing, hunexpected⟩ module
    refine ⟨fun hm => ?_, hmissing module.id module.version⟩
    obtain ⟨version, hv⟩ := hunexpected module.id module.version hm
    -- the module is recorded with its own version, and recorded once
    have hsame := List.inj_on_of_nodup_map hr hm (hmissing _ _ hv) rfl
    exact hsame ▸ hv
  · intro hmem
    exact ⟨fun id version => (hmem ⟨id, version⟩).2, fun id version hm => ⟨version, (hmem _).1 hm⟩⟩

/-! ### The selection -/

/-- The modules of the result have distinct ids. -/
theorem nodup_installedModules (ordered : List (String × ComponentManifest)) :
    ((installedModules package ordered).map InstalledModule.id).Nodup := by
  have : InstalledModule.id ∘ (⟨·, package.version⟩) = id := rfl
  rw [installedModules, List.map_map, this, List.map_id]
  exact TreeMap.nodup_keys

/-- A module is installed by a component. -/
theorem mem_installedModules {ordered : List (String × ComponentManifest)}
    {module : InstalledModule} :
    module ∈ installedModules package ordered ↔
      module.version = package.version ∧ ∃ entry ∈ ordered, module.id ∈ entry.2.modules := by
  rw [installedModules, List.mem_map, ← mem_keys_moduleOwners, and_comm]
  exact ⟨fun ⟨m, hm, he⟩ => he ▸ ⟨hm, rfl⟩, fun ⟨hm, hv⟩ => ⟨module.id, hm, by rw [← hv]⟩⟩

/-- The entries of a list of ids. -/
theorem mapM_component_eq_ok {ids : List String} {ordered : List (String × ComponentManifest)} :
    ids.mapM (component components) = .ok ordered ↔
      ordered.map Prod.fst = ids ∧ ∀ entry ∈ ordered, components[entry.1]? = some entry.2 := by
  have hcomponent {id : String} {entry : String × ComponentManifest} :
      component components id = .ok entry ↔ entry.1 = id ∧ components[id]? = some entry.2 := by
    rw [component]
    split
    · next c hc => simp [hc, Prod.ext_iff, eq_comm]
    · next hc => simp [hc]
  rw [Validation.mapM_eq_ok]
  induction ids generalizing ordered with
  | nil => cases ordered <;> simp
  | cons id ids ih =>
      rcases ordered with _ | ⟨entry, ordered⟩
      · simp
      · rw [List.forall₂_cons, hcomponent, List.map_cons, List.cons.injEq, List.forall_mem_cons]
        constructor
        · rintro ⟨⟨rfl, he⟩, ht⟩
          obtain ⟨rfl, h⟩ := ih.1 ht
          exact ⟨⟨rfl, rfl⟩, he, h⟩
        · rintro ⟨⟨rfl, rfl⟩, he, h⟩
          exact ⟨⟨rfl, he⟩, ih.2 ⟨rfl, h⟩⟩

/-- No module is listed twice when each component lists its modules once and no two
components list the same one. -/
theorem nodup_modules_iff {ordered : List (String × ComponentManifest)}
    (h : (ordered.map Prod.fst).Nodup) :
    (ordered.flatMap fun entry => entry.2.modules).Nodup ↔
      (∀ entry ∈ ordered, entry.2.modules.Nodup) ∧ ∀ entry ∈ ordered, ∀ entry' ∈ ordered,
        ∀ module ∈ entry.2.modules, module ∈ entry'.2.modules → entry.1 = entry'.1 := by
  rw [List.nodup_flatMap]
  refine and_congr_right fun _ => ⟨fun hp entry he entry' he' module hm hm' => ?_, fun hd => ?_⟩
  · by_contra hne
    have hsymm : Std.Symm (Function.onFun List.Disjoint
        fun entry : String × ComponentManifest => entry.2.modules) :=
      ⟨fun _ _ hab => List.Disjoint.symm hab⟩
    exact hp.forall he he' (fun e => hne (congrArg Prod.fst e)) hm hm'
  · refine (List.Nodup.of_map _ h).pairwise_of_forall_ne fun entry he entry' he' hne => ?_
    intro module hm hm'
    exact hne (List.inj_on_of_nodup_map h he he' (hd entry he entry' he' module hm hm'))

/-- When the recorded state is that of the components. -/
theorem validateRecordedState_eq_nil {ordered : List (String × ComponentManifest)} :
    validateRecordedState (installedModules package ordered) (providedCapabilities ordered)
        request = [] ↔
      (∀ recorded, request.recordedModules = some recorded →
        (recorded.map InstalledModule.id).Nodup ∧ ∀ module, module ∈ recorded ↔
          module.version = package.version ∧ ∃ entry ∈ ordered, module.id ∈ entry.2.modules) ∧
      ∀ recorded, request.recordedCapabilities = some recorded → ∀ capability,
        capability ∈ recorded ↔ ∃ entry ∈ ordered, capability ∈ entry.2.providesCapabilities := by
  rw [validateRecordedState, List.append_eq_nil_iff]
  refine and_congr ?_ ?_
  · rcases request.recordedModules with _ | recorded
    · simp
    · simp only [Option.elim_some, Option.some.injEq, forall_eq',
        recordedModuleDiagnostics_eq_nil (nodup_installedModules ordered), mem_installedModules]
  · rcases request.recordedCapabilities with _ | recorded
    · simp
    · have hr : recorded = providedCapabilities ordered ↔ ∀ capability, capability ∈ recorded ↔
          ∃ entry ∈ ordered, capability ∈ entry.2.providesCapabilities := by
        simp only [Finset.ext_iff, mem_providedCapabilities]
      simp [hr]

/-- **No diagnostic of a selection**, condition by condition. -/
theorem selectionDiagnostics_eq_nil {ordered : List (String × ComponentManifest)}
    (h : (ordered.map Prod.fst).Nodup) :
    selectionDiagnostics package components request ordered = [] ↔
      (∀ entry ∈ ordered, entry.2.version.getD "" = package.version ∧
        (∀ dependency ∈ entry.2.optionalDependencies, dependency ∈ components) ∧
        (∀ other ∈ entry.2.conflicts, other ∉ ordered.map Prod.fst) ∧
        (∀ module ∈ entry.2.modules, module ∈ package.modules) ∧
        entry.2.modules.Nodup ∧
        ∀ capability ∈ entry.2.requiresCapabilities, ∃ entry' ∈ ordered,
          capability ∈ entry'.2.providesCapabilities) ∧
      (∀ entry ∈ ordered, ∀ entry' ∈ ordered, ∀ module ∈ entry.2.modules,
        module ∈ entry'.2.modules → entry.1 = entry'.1) ∧
      (∀ recorded, request.recordedModules = some recorded →
        (recorded.map InstalledModule.id).Nodup ∧ ∀ module, module ∈ recorded ↔
          module.version = package.version ∧ ∃ entry ∈ ordered, module.id ∈ entry.2.modules) ∧
      ∀ recorded, request.recordedCapabilities = some recorded → ∀ capability,
        capability ∈ recorded ↔ ∃ entry ∈ ordered, capability ∈ entry.2.providesCapabilities := by
  simp only [selectionDiagnostics, List.append_eq_nil_iff, List.flatMap_eq_nil_iff,
    componentDiagnostics_eq_nil, capabilityDiagnostics_eq_nil, mem_providedCapabilities,
    ownerDiagnostics_eq_nil, nodup_modules_iff h, validateRecordedState_eq_nil, List.mem_toFinset]
  grind

/-! ### Resolution -/

/-- When a component resolves. -/
theorem resolvedComponent_eq_ok {entry : String × ComponentManifest}
    {resolved : ResolvedComponent} :
    resolvedComponent entry = .ok resolved ↔
      ∃ version, entry.2.version = some version ∧ resolved = {
        id := entry.1
        version
        requiredDependencies := entry.2.requires
        optionalDependencies := entry.2.optionalDependencies
        modules := entry.2.modules
        providesCapabilities := entry.2.providesCapabilities
        requiresCapabilities := entry.2.requiresCapabilities
        installation := entry.2.installation } := by
  rw [resolvedComponent]
  split
  · next version hv => simp [hv, eq_comm]
  · next hv => simp [hv]

/-- When a composition is concluded, and which. -/
theorem conclude_eq_ok {diagnostics : List CompositionDiagnostic} {ids : List String}
    {composition : ResolvedComposition} :
    conclude package components request diagnostics ids = .ok composition ↔
      ∃ ordered resolved, ids.mapM (component components) = .ok ordered ∧ diagnostics = [] ∧
        selectionDiagnostics package components request ordered = [] ∧
        ordered.mapM resolvedComponent = .ok resolved ∧
        composition = {
          schema := compositionGraphSchema
          framework := package.framework
          package := ⟨package.id, package.version⟩
          components := resolved
          modules := installedModules package ordered
          capabilities := providedCapabilities ordered } := by
  rw [conclude, Validation.bind_eq_ok]
  refine exists_congr fun ordered => ?_
  rw [exists_and_left]
  refine and_congr_right fun _ => ?_
  dsimp only
  split
  · next h =>
      refine ⟨nofun, ?_⟩
      rintro ⟨_, rfl, hs, _⟩
      exact absurd hs h
  · next h =>
      rw [ne_eq, not_not, List.append_eq_nil_iff] at h
      rw [Validation.bind_eq_ok]
      refine exists_congr fun resolved => ?_
      rw [Validation.pure_eq_ok]
      exact ⟨fun ⟨hr, he⟩ => ⟨h.1, h.2, hr, he.symm⟩, fun ⟨_, _, hr, he⟩ => ⟨hr, he.symm⟩⟩

/-- Sorting forgets the order of the diagnostics. -/
theorem fromDiagnostics_perm {d d' : List CompositionDiagnostic} (h : d.Perm d') :
    CompositionError.fromDiagnostics d = CompositionError.fromDiagnostics d' := by
  have hsort : d.mergeSort (· ≤ ·) = d'.mergeSort (· ≤ ·) :=
    List.Perm.eq_of_sortedLE List.sortedLE_mergeSort List.sortedLE_mergeSort
      ((List.mergeSort_perm ..).trans (h.trans (List.mergeSort_perm ..).symm))
  rw [CompositionError.fromDiagnostics, CompositionError.fromDiagnostics, hsort]

/-- The order of the diagnostics does not matter to that. -/
theorem conclude_perm {d d' : List CompositionDiagnostic} (h : d.Perm d') (ids : List String) :
    conclude package components request d ids = conclude package components request d' ids := by
  have happend (ds : List CompositionDiagnostic) : (d ++ ds).Perm (d' ++ ds) := h.append_right ds
  have hnil (ds : List CompositionDiagnostic) : d ++ ds ≠ [] ↔ d' ++ ds ≠ [] :=
    not_congr ⟨fun e => (e ▸ happend ds).nil_eq.symm, fun e => (e ▸ happend ds).eq_nil⟩
  simp only [conclude, hnil, fromDiagnostics_perm (happend _)]

/-- The search of the roots ends, with the same result for every fuel that is enough. -/
theorem exists_visitRoots (components : Components) (roots : Finset String) :
    ∃ search, ∀ fuel, components.size < fuel →
      visitRoots fuel components roots = some search := by
  have hsupport (id : String) (h : (graph components).next id ≠ none) : id ∈ components.keys := by
    rw [TreeMap.mem_keys, TreeMap.mem_iff_isSome_getElem?, Option.isSome_iff_ne_none]
    rintro he
    exact h (by simp [graph, he])
  have hlength : ((DepthFirst.Search.start : DepthFirst.Search String CompositionDiagnostic).unmarked
      components.keys).length < components.size + 1 := by
    rw [← TreeMap.length_keys]
    exact Nat.lt_succ_of_le (List.length_filter_le ..)
  obtain ⟨search, hs⟩ : ∃ search, visitRoots (components.size + 1) components roots = some search :=
    DepthFirst.exists_visitAll hsupport DepthFirst.Search.start_coherent hlength
  exact ⟨search, fun fuel hf => DepthFirst.visitAll_mono hf hs⟩

/-- The entries of the search are the selected components. -/
theorem mem_ordered {ids : List String} {ordered : List (String × ComponentManifest)}
    (hordered : ids.mapM (component components) = .ok ordered)
    (hids : ∀ id, id ∈ ids ↔ Selected components request id)
    (entry : String × ComponentManifest) :
    entry ∈ ordered ↔ SelectedAs components request entry.1 entry.2 := by
  obtain ⟨rfl, hget⟩ := mapM_component_eq_ok.1 hordered
  refine ⟨fun he => ⟨(hids _).1 (List.mem_map_of_mem he), hget entry he⟩, fun ⟨hs, hc⟩ => ?_⟩
  obtain ⟨entry', he, hid⟩ := List.mem_map.1 ((hids _).2 hs)
  have hc' := hget entry' he
  rw [hid, hc, Option.some.injEq] at hc'
  rwa [Prod.ext (x := entry) (y := entry') hid.symm hc']

variable {fuel : ℕ} {search : DepthFirst.Search String CompositionDiagnostic}

/-- What the search lists when the roots are in order and nothing is reported. -/
theorem ordered_visitRoots
    (hs : visitRoots fuel components (collectRoots request.components).1 = some search)
    (hvalid : ∀ root ∈ request.components, validIdentifier root) (he : search.reports = []) :
    search.ordered.Nodup ∧ (graph components).Closed search.ordered ∧
      ∀ id, id ∈ search.ordered ↔ Selected components request id := by
  obtain ⟨hnodup, hclosed, hmem⟩ := DepthFirst.ordered_of_reports_eq_nil hs he
  refine ⟨hnodup, hclosed, fun id => (hmem id).trans ?_⟩
  simp only [Selected, Finset.mem_sort, collectRoots_fst, List.mem_toFinset, List.mem_filter]
  exact exists_congr fun root => and_congr_left fun _ => and_iff_left_of_imp (hvalid root)

/-- The search reports nothing when every selected component exists and lies on no
cycle. -/
theorem reports_visitRoots
    (hs : visitRoots fuel components (collectRoots request.components).1 = some search)
    (hvalid : ∀ root ∈ request.components, validIdentifier root) :
    search.reports = [] ↔ ∀ id, Selected components request id →
      id ∈ components ∧ ¬TransGen (graph components).Requires id id := by
  rw [DepthFirst.reports_eq_nil_iff hs]
  simp only [Graph.Sound, Finset.mem_sort, collectRoots_fst, List.mem_toFinset, List.mem_filter]
  have hnext (id : String) : (graph components).next id ≠ none ↔ id ∈ components := by
    rw [TreeMap.mem_iff_isSome_getElem?, Option.isSome_iff_ne_none]
    simp [graph]
  constructor
  · rintro h id ⟨root, hroot, hr⟩
    exact ⟨(hnext id).1 (h root ⟨hroot, hvalid root hroot⟩ id hr).1,
      (h root ⟨hroot, hvalid root hroot⟩ id hr).2⟩
  · intro h root hroot id hr
    exact ⟨(hnext id).2 (h id ⟨root, hroot.1, hr⟩).1, (h id ⟨root, hroot.1, hr⟩).2⟩

/-- **The conditions, as the loops check them.** -/
theorem acceptable_iff {ids : List String} {ordered : List (String × ComponentManifest)}
    (hordered : ids.mapM (component components) = .ok ordered) (hnodup : ids.Nodup)
    (hids : ∀ id, id ∈ ids ↔ Selected components request id) :
    Acceptable package components request ↔
      (request.framework = package.framework ∧ request.package = ⟨package.id, package.version⟩) ∧
      ((∀ root ∈ request.components, validIdentifier root) ∧ request.components.Nodup) ∧
      (∀ id, Selected components request id →
        id ∈ components ∧ ¬TransGen (graph components).Requires id id) ∧
      selectionDiagnostics package components request ordered = [] ∧
      ∀ entry ∈ ordered, entry.2.version ≠ none := by
  have hmem := mem_ordered hordered hids
  obtain ⟨hfst, -⟩ := mapM_component_eq_ok.1 hordered
  rw [selectionDiagnostics_eq_nil (by rw [hfst]; exact hnodup), hfst]
  simp only [hmem, hids, Prod.forall, Prod.exists]
  constructor
  · intro h
    refine ⟨⟨h.framework, h.identity⟩, ⟨h.valid, h.distinct⟩,
      fun id hid => ⟨h.present id hid, h.acyclic id hid⟩, ⟨fun id c hc => ?_, ?_,
        h.recordedModules, h.recordedCapabilities⟩, fun id c hc => by simp [h.version id c hc]⟩
    · exact ⟨by rw [h.version id c hc]; rfl, h.optional id c hc,
        fun other ho hsel => h.compatible id c other hc hsel ho, h.packaged id c hc,
        h.owned id c hc, h.provided id c hc⟩
    · exact fun id c hc id' c' => h.owner id c id' c' hc
  · rintro ⟨⟨hframework, hidentity⟩, ⟨hvalid, hdistinct⟩, hsound,
      ⟨hentry, howner, hmodules, hcapabilities⟩, hversion⟩
    refine ⟨hframework, hidentity, hvalid, hdistinct, fun id hid => (hsound id hid).1,
      fun id hid => (hsound id hid).2, fun id c hc => ?_, fun id c hc => (hentry id c hc).2.1,
      fun id c other hc hsel ho => (hentry id c hc).2.2.1 other ho hsel,
      fun id c hc => (hentry id c hc).2.2.2.1, fun id c id' c' hc => howner id c hc id' c',
      fun id c hc => (hentry id c hc).2.2.2.2.1, fun id c hc => (hentry id c hc).2.2.2.2.2,
      hmodules, hcapabilities⟩
    obtain ⟨version, hv⟩ := Option.ne_none_iff_exists'.1 (hversion id c hc)
    have := (hentry id c hc).1
    rw [hv, Option.getD_some] at this
    rw [hv, this]

/-- The components of the result of an acceptable request. -/
theorem Acceptable.mapM_resolvedComponent (h : Acceptable package components request)
    {ordered : List (String × ComponentManifest)}
    (hmem : ∀ entry, entry ∈ ordered ↔ SelectedAs components request entry.1 entry.2) :
    ordered.mapM resolvedComponent = .ok (ordered.map (describe package)) :=
  Validation.mapM_eq_ok_map fun entry he =>
    resolvedComponent_eq_ok.2 ⟨_, h.version entry.1 entry.2 ((hmem entry).1 he), rfl⟩

/-- What the composition is, read off the entries of the search. -/
theorem describes_of_ordered {ids : List String} {ordered : List (String × ComponentManifest)}
    (hordered : ids.mapM (component components) = .ok ordered) (hnodup : ids.Nodup)
    (hclosed : (graph components).Closed ids)
    (hids : ∀ id, id ∈ ids ↔ Selected components request id) :
    Describes package components request {
      schema := compositionGraphSchema
      framework := package.framework
      package := ⟨package.id, package.version⟩
      components := ordered.map (describe package)
      modules := installedModules package ordered
      capabilities := providedCapabilities ordered } := by
  obtain ⟨rfl, hget⟩ := mapM_component_eq_ok.1 hordered
  have hid : (ordered.map (describe package)).map ResolvedComponent.id = ordered.map Prod.fst :=
    List.map_map
  refine ⟨rfl, rfl, rfl, ?_, ?_, ?_, ?_, ?_, ?_, ?_⟩
  · intro id
    rw [hid, hids]
  · rw [hid]
    exact hnodup
  · intro resolved hr
    obtain ⟨entry, he, rfl⟩ := List.mem_map.1 hr
    exact ⟨entry.2, hget entry he, rfl⟩
  · intro pre resolved post hsplit dependency hd
    obtain ⟨pre, rest, rfl, rfl, hrest⟩ := List.map_eq_append_iff.1 hsplit
    obtain ⟨entry, post, rfl, rfl, rfl⟩ := List.map_eq_cons_iff.1 hrest
    obtain ⟨deps, hdeps, hpre⟩ := hclosed (pre.map Prod.fst) entry.1 (post.map Prod.fst) (by simp)
    obtain rfl : entry.2.requires = deps := by
      simpa [graph, hget entry (by simp)] using hdeps
    have := hpre dependency hd
    simpa [describe] using this
  · intro module
    rw [mem_installedModules]
    simp [describe]
  · exact .of_map _ (nodup_installedModules ordered)
  · intro capability
    rw [mem_providedCapabilities]
    simp [describe]

/-- **What is accepted is acceptable**, and the composition is what it should be. -/
theorem acceptable_of_conclude {composition : ResolvedComposition}
    (hs : visitRoots fuel components (collectRoots request.components).1 = some search)
    (h : conclude package components request
      (compatibilityDiagnostics package request ++ (collectRoots request.components).2 ++
        search.reports) search.ordered = .ok composition) :
    Acceptable package components request ∧ Describes package components request composition := by
  obtain ⟨ordered, resolved, hordered, hd, hselection, hresolved, rfl⟩ := conclude_eq_ok.1 h
  rw [List.append_eq_nil_iff, List.append_eq_nil_iff, compatibilityDiagnostics_eq_nil,
    collectRoots_snd_eq_nil] at hd
  obtain ⟨⟨hcompatible, hroots⟩, hreports⟩ := hd
  obtain ⟨hnodup, hclosed, hids⟩ := ordered_visitRoots hs hroots.1 hreports
  have hversion (entry) (he : entry ∈ ordered) : entry.2.version ≠ none := by
    obtain ⟨r, hr⟩ := Validation.exists_of_mapM_eq_ok hresolved he
    obtain ⟨version, hv, -⟩ := resolvedComponent_eq_ok.1 hr
    simp [hv]
  have hacceptable : Acceptable package components request :=
    (acceptable_iff hordered hnodup hids).2 ⟨hcompatible, hroots,
      (reports_visitRoots hs hroots.1).1 hreports, hselection, hversion⟩
  have hdescribe := hacceptable.mapM_resolvedComponent (mem_ordered hordered hids)
  obtain rfl : ordered.map (describe package) = resolved := Except.ok.inj (hdescribe.symm.trans hresolved)
  exact ⟨hacceptable, describes_of_ordered hordered hnodup hclosed hids⟩

/-- **What is acceptable is accepted.** -/
theorem Acceptable.exists_conclude (h : Acceptable package components request)
    (hs : visitRoots fuel components (collectRoots request.components).1 = some search) :
    ∃ composition, conclude package components request
      (compatibilityDiagnostics package request ++ (collectRoots request.components).2 ++
        search.reports) search.ordered = .ok composition := by
  have hreports : search.reports = [] := (reports_visitRoots hs h.valid).2 fun id hid =>
    ⟨h.present id hid, h.acyclic id hid⟩
  obtain ⟨hnodup, -, hids⟩ := ordered_visitRoots hs h.valid hreports
  have hordered : search.ordered.mapM (component components) =
      .ok (search.ordered.map fun id => (id, components.getD id default)) := by
    refine Validation.mapM_eq_ok_map fun id hid => ?_
    have hsome := TreeMap.mem_iff_isSome_getElem?.1 (h.present id ((hids id).1 hid))
    obtain ⟨c, hc⟩ := Option.isSome_iff_exists.1 hsome
    simp [component, hc, TreeMap.getD_eq_getD_getElem?]
  obtain ⟨hcompatible, hroots, -, hselection, -⟩ := (acceptable_iff hordered hnodup hids).1 h
  exact ⟨_, conclude_eq_ok.2 ⟨_, _, hordered,
    by simp [compatibilityDiagnostics_eq_nil.2 hcompatible, (collectRoots_snd_eq_nil _).2 hroots,
      hreports],
    hselection, h.mapM_resolvedComponent (mem_ordered hordered hids), rfl⟩⟩

/-- The outcome of resolution from the search on. -/
theorem resolve_eq (hs : visitRoots fuel components (collectRoots request.components).1 = some search) :
    resolve fuel package components request = some (conclude package components request
      (compatibilityDiagnostics package request ++ (collectRoots request.components).2 ++
        search.reports) search.ordered) := by
  rw [resolve]
  simp only [hs]
  rfl

/-- The search of roots that are listed in order. -/
theorem exists_visitRoots_eq {requested roots ids : List String}
    {reports : List CompositionDiagnostic}
    (hroots : (collectRoots requested).1 = roots.toFinset) (hnodup : roots.Nodup)
    (hsorted : roots.Pairwise (· ≤ ·))
    (hvisit : (DepthFirst.visitAll (graph components) fuel roots none .start).map
      (fun search => (search.reports, search.ordered)) = some (reports, ids)) :
    ∃ search, visitRoots fuel components (collectRoots requested).1 = some search ∧
      search.reports = reports ∧ search.ordered = ids := by
  obtain ⟨search, hs, hfound⟩ := Option.map_eq_some_iff.1 hvisit
  obtain ⟨rfl, rfl⟩ := Prod.mk.inj hfound
  refine ⟨search, ?_, rfl, rfl⟩
  rw [visitRoots, hroots, (List.toFinset_sort _ hnodup).2 hsorted, hs]

/-- **Composition resolution is exact.**  It ends, whatever the components require; it
has one outcome for all orders of the roots, accepts exactly the acceptable requests,
and then describes what they select. -/
theorem resolve_exact (package : ComponentPackageManifest) (components : Components)
    (request : CompositionRequest) :
    ∃ outcome,
      (∀ fuel roots, components.size < fuel → request.components.Perm roots →
        resolve fuel package components { request with components := roots } = some outcome) ∧
      ((∃ composition, outcome = .ok composition) ↔ Acceptable package components request) ∧
      ∀ composition, outcome = .ok composition →
        Describes package components request composition := by
  obtain ⟨search, hs⟩ := exists_visitRoots components (collectRoots request.components).1
  have hs' := hs _ (Nat.lt_succ_self _)
  refine ⟨_, fun fuel roots hf hperm => ?_, ⟨fun ⟨composition, h⟩ => (acceptable_of_conclude hs' h).1,
    fun h => h.exists_conclude hs'⟩, fun composition h => (acceptable_of_conclude hs' h).2⟩
  obtain ⟨hroots, hdiagnostics⟩ := collectRoots_perm hperm
  have hsearch : visitRoots fuel components (collectRoots roots).1 = some search := by
    rw [← hroots]
    exact hs fuel hf
  rw [resolve_eq hsearch, Option.some.injEq]
  exact conclude_perm ((hdiagnostics.symm.append_left _).append_right _) _

/-! #### A package of two components -/

def hegiraPackage : ComponentPackageManifest where
  schema := 3
  id := "hegira-canonical"
  version := "v0.7.0"
  framework := ⟨"hegira", "v0.7.0"⟩
  templates := ["layered"]
  components := ["layered-base", "layered-leptos-identity"]
  modules := ["identity"]
  contentDigest := "sha256:"

def hegiraBase : ComponentManifest where
  schema := 3
  id := "layered-base"
  version := some "v0.7.0"
  source := ⟨[.normal [98]]⟩
  conflicts := []
  optionalDependencies := ["layered-leptos-identity"]

def hegiraIdentity : ComponentManifest where
  schema := 3
  id := "layered-leptos-identity"
  version := some "v0.7.0"
  source := ⟨[.normal [105]]⟩
  requires := ["layered-base"]
  modules := ["identity"]
  providesCapabilities := [.authentication]

def hegiraComponents : Components :=
  ((∅ : Components).insert "layered-base" hegiraBase).insert "layered-leptos-identity"
    hegiraIdentity

def hegiraRequest (roots : List String) : CompositionRequest :=
  ⟨⟨"hegira", "v0.7.0"⟩, ⟨"hegira-canonical", "v0.7.0"⟩, roots, none, none⟩

/-- The request of the example is acceptable. -/
theorem acceptable_hegiraRequest :
    Acceptable hegiraPackage hegiraComponents
      (hegiraRequest ["layered-leptos-identity", "layered-base"]) := by
  have hvalid : ∀ root ∈ ["layered-leptos-identity", "layered-base"], validIdentifier root := by decide
  obtain ⟨search, hs, hreports, hordered⟩ : ∃ search,
      visitRoots 3 hegiraComponents
          (collectRoots ["layered-leptos-identity", "layered-base"]).1 = some search ∧
        search.reports = [] ∧ search.ordered = ["layered-base", "layered-leptos-identity"] :=
    exists_visitRoots_eq (show _ = ["layered-base", "layered-leptos-identity"].toFinset by decide)
      (by decide) (by decide) (by decide)
  obtain ⟨hnodup, -, hids⟩ : _ ∧ _ ∧ ∀ id, id ∈ search.ordered ↔
      Selected hegiraComponents (hegiraRequest ["layered-leptos-identity", "layered-base"]) id :=
    ordered_visitRoots hs hvalid hreports
  rw [hordered] at hnodup hids
  refine (acceptable_iff rfl hnodup hids).2 ⟨⟨rfl, rfl⟩, ⟨hvalid, by decide⟩, ?_, by decide, by decide⟩
  exact (reports_visitRoots hs hvalid).1 hreports

/-- Both orders of the roots have the same composition. -/
theorem resolve_exact_reordered :
    ∃ composition,
      resolve 3 hegiraPackage hegiraComponents
          (hegiraRequest ["layered-leptos-identity", "layered-base"]) =
        some (.ok composition) ∧
      resolve 3 hegiraPackage hegiraComponents
          (hegiraRequest ["layered-base", "layered-leptos-identity"]) =
        some (.ok composition) ∧
      Describes hegiraPackage hegiraComponents
        (hegiraRequest ["layered-leptos-identity", "layered-base"]) composition := by
  obtain ⟨outcome, hres, hiff, hdesc⟩ :=
    resolve_exact hegiraPackage hegiraComponents
      (hegiraRequest ["layered-leptos-identity", "layered-base"])
  obtain ⟨composition, rfl⟩ := hiff.2 acceptable_hegiraRequest
  exact ⟨composition, hres 3 _ (by decide) (.refl _), hres 3 _ (by decide) (.swap ..),
    hdesc composition rfl⟩

end Template
end Hegira
