/-
# Registrations of a resource in every layer

What `plan_complete_resource` of `tools/hegira_cli/src/lib.rs` makes of the sources that all
resources of an application share: the module declarations of
`tools/resource_generator/src/source.rs` and `persistence.rs`, the services, routes and
documents of `http.rs`, and the registrations of `web.rs`.  The files that a resource has for
itself are planned beside these.

The plan of a resource is a schedule of edits of each shared source (`registrations`), so two
orders of generating the same resources that are both accepted leave the same sources
(`resources_registered_in_any_order`).
-/

import Hegira.Generator.ResourceRuns
import Hegira.Mutator.ModuleInsertions

namespace Hegira
namespace Generator

open Mutator (Bytes ContentDigest ManagedInsertion planEntry planModule planRustModule)
open Validation

def domainRoot : String := "crates/domain/src/lib.rs"
def applicationContractsRoot : String := "crates/application_contracts/src/lib.rs"
def applicationRoot : String := "crates/application/src/lib.rs"
def infrastructureRoot : String := "crates/infrastructure/src/lib.rs"
def presentationRoot : String := "crates/presentation/src/lib.rs"
def infrastructureServices : String := "crates/infrastructure/src/identity/services.rs"
def identityRuntime : String := "apps/server/src/identity_runtime.rs"

/-! ### Entries -/

namespace ResourceSpecification

variable (specification : ResourceSpecification)

def serviceImport : String :=
  "use crate::" ++ specification.names.rustModule ++ "::\x7bComposed" ++
    specification.names.singularType ++ "Service, " ++ specification.names.singularType ++
    "AuthorizationAdapter, compose_" ++ specification.names.rustModule ++ "_service\x7d;"

def serviceAlias : String :=
  "pub type Application" ++ specification.names.singularType ++ "Service = Composed" ++
    specification.names.singularType ++ "Service<" ++ specification.names.singularType ++
    "AuthorizationAdapter>;"

def serviceField : String :=
  "pub " ++ specification.names.rustModule ++ ": Application" ++
    specification.names.singularType ++ "Service,"

def serviceInitialization : String :=
  specification.names.rustModule ++ ": " ++ specification.names.rustModule ++
    "_service(pool.clone(), config),"

def serviceFactory : String :=
  "pub fn " ++ specification.names.rustModule ++
    "_service(pool: DatabasePool, config: &AppConfig) -> Application" ++
    specification.names.singularType ++ "Service \x7b\n    let authorization = " ++
    specification.names.singularType ++
    "AuthorizationAdapter::new(pool.clone(), config);\n    compose_" ++
    specification.names.rustModule ++
    "_service(&pool, authorization).expect(\"selected resource database must match the application database\")\n\x7d"

def routeRegistration : String :=
  ".merge(app_presentation::" ++ specification.names.rustModule ++
    "::bearer_api_routes(app_state.services." ++ specification.names.rustModule ++ ".clone()))"

def minimalRouteRegistration : String :=
  ".merge(app_presentation::" ++ specification.names.rustModule ++
    "::bearer_api_routes(identity_runtime.services()." ++ specification.names.rustModule ++
    ".clone()))"

def openapiRegistration : String :=
  "let document = document.merge(app_presentation::" ++ specification.names.rustModule ++
    "::openapi_document());"

/-- The entries of the services. -/
def serviceEntries : List (String × String) :=
  [("service-imports", specification.serviceImport),
    ("service-type-aliases", specification.serviceAlias),
    ("service-fields", specification.serviceField),
    ("service-init", specification.serviceInitialization),
    ("service-factories", specification.serviceFactory)]

/-- The entries of the HTTP layer in the server source. -/
def serverEntries (minimal : Bool) : List (String × String) :=
  if minimal then [("resource-bearer-routes", specification.minimalRouteRegistration)]
  else [("resource-bearer-routes", specification.routeRegistration),
    ("resource-openapi-documents", specification.openapiRegistration)]

end ResourceSpecification

/-! ### Plans -/

/-- The sources that the resources of an application share. -/
structure SharedSources where
  domainRoot : Bytes
  applicationContractsRoot : Bytes
  applicationRoot : Bytes
  infrastructureRoot : Bytes
  presentationRoot : Bytes
  infrastructureServices : Bytes
  identityRuntime : Bytes
  application : ApplicationSources

section Plans

variable (D : Type) [ContentDigest D] [DecidableEq D]

/-- A declaration of the module of a resource in the root of a layer.  The layers have errors
of the same kinds and with the same texts. -/
def declareModule (module path : String) (observed : Bytes) : Except WebLayerError Bytes :=
  plannedContent D module path (planRustModule path observed module)

/-- `plan_complete_resource`: what the plan makes of the shared sources. -/
def planSharedSources (minimal : Bool) (specification : ResourceSpecification) (s : SharedSources) :
    Except WebLayerError SharedSources := do
  let module := specification.names.rustModule
  -- `plan_inward_resource_layers`
  let domain ← declareModule D module domainRoot s.domainRoot
  let contracts ← declareModule D module applicationContractsRoot s.applicationContractsRoot
  let application ← declareModule D module applicationRoot s.applicationRoot
  -- `plan_resource_persistence`
  let infrastructure ← declareModule D module infrastructureRoot s.infrastructureRoot
  -- `plan_resource_http_for_composition`
  let presentation ← declareModule D module presentationRoot s.presentationRoot
  let services ← managedFileEdit D infrastructureServices s.infrastructureServices
    specification.serviceEntries module
  let server ← managedFileEdit D serverSource s.application.web.serverSource
    (specification.serverEntries minimal) module
  let runtime ←
    if minimal then
      managedFileEdit D identityRuntime s.identityRuntime
        [("resource-openapi-documents", specification.openapiRegistration)] module
    else pure s.identityRuntime
  -- `plan_resource_web` and `plan_resource_web_minimal`
  let (web, dashboard) ← planWeb D minimal specification server s.application
  return ⟨domain, contracts, application, infrastructure, presentation, services, runtime,
    { s.application with web, dashboard }⟩

/-- The resources planned one after the other. -/
def registerResources (minimal : Bool) (specifications : List ResourceSpecification)
    (s : SharedSources) : Except WebLayerError SharedSources :=
  specifications.foldlM (fun s specification => planSharedSources D minimal specification s) s

end Plans

/-! ### Schedules of edits -/

/-- An edit of a Rust source. -/
inductive RustEdit where
  | module (name : String)
  | entry (insertion : ManagedInsertion)
  deriving DecidableEq

/-- The shared sources. -/
inductive SharedFile where
  | domainRoot
  | applicationContractsRoot
  | applicationRoot
  | infrastructureRoot
  | presentationRoot
  | infrastructureServices
  | identityRuntime
  | webRoot
  | routes
  | navigation
  | i18n
  | sidebar
  | dashboard
  | server
  deriving DecidableEq

namespace SharedFile

def path : SharedFile → String
  | domainRoot => Generator.domainRoot
  | applicationContractsRoot => Generator.applicationContractsRoot
  | applicationRoot => Generator.applicationRoot
  | infrastructureRoot => Generator.infrastructureRoot
  | presentationRoot => Generator.presentationRoot
  | infrastructureServices => Generator.infrastructureServices
  | identityRuntime => Generator.identityRuntime
  | webRoot => Generator.webRoot
  | routes => webRoutes
  | navigation => webNavigation
  | i18n => webI18n
  | sidebar => webSidebar
  | dashboard => webDashboard
  | server => serverSource

def content (s : SharedSources) : SharedFile → Bytes
  | domainRoot => s.domainRoot
  | applicationContractsRoot => s.applicationContractsRoot
  | applicationRoot => s.applicationRoot
  | infrastructureRoot => s.infrastructureRoot
  | presentationRoot => s.presentationRoot
  | infrastructureServices => s.infrastructureServices
  | identityRuntime => s.identityRuntime
  | webRoot => s.application.web.webRoot
  | routes => s.application.web.routes
  | navigation => s.application.web.navigation
  | i18n => s.application.web.i18n
  | sidebar => s.application.web.sidebar
  | dashboard => s.application.dashboard
  | server => s.application.web.serverSource

/-- The blocks and texts of a resource in a source, if the source is none of the roots. -/
def entries (minimal : Bool) (specification : ResourceSpecification) :
    SharedFile → List (String × String)
  | infrastructureServices => specification.serviceEntries
  | identityRuntime =>
      if minimal then [("resource-openapi-documents", specification.openapiRegistration)] else []
  | routes =>
      if minimal then [("resource-routes-native", specification.nativeRouteRegistration)]
      else [("resource-routes-native", specification.nativeRouteRegistration),
        ("resource-routes-split", specification.splitRouteRegistration)]
  | navigation =>
      if minimal then []
      else [("nav-icons", specification.navigationIcon),
        ("nav-items", specification.navigationItem),
        ("nav-titles", specification.navigationTitle)]
  | i18n =>
      if minimal then []
      else [("resource-i18n-keys", specification.localizationKeys),
        ("resource-i18n-en", localization specification false),
        ("resource-i18n-tr", localization specification true)]
  | sidebar => if minimal then [] else [("nav-icon-views", specification.navigationIconView)]
  | dashboard =>
      if minimal then [("module-navigation", specification.minimalNavigationItem)] else []
  | server =>
      specification.serverEntries minimal ++
        [("resource-leptos-contexts", specification.serverContext minimal)]
  | _ => []

/-- Whether resources declare their modules in a source. -/
def isRoot : SharedFile → Bool
  | domainRoot | applicationContractsRoot | applicationRoot | infrastructureRoot
  | presentationRoot | webRoot => true
  | _ => false

/-- The edits of a source that register a resource. -/
def registrations (minimal : Bool) (specification : ResourceSpecification) (file : SharedFile) :
    List RustEdit :=
  if file.isRoot then [.module specification.names.rustModule]
  else (file.entries minimal specification).map fun (block, entry) =>
    .entry ⟨block, specification.names.rustModule, entry⟩

end SharedFile

section Schedules

variable {D : Type} [ContentDigest D] [DecidableEq D]

/-- The content that an edit leaves. -/
def planEdit (D : Type) [ContentDigest D] [DecidableEq D] (path : String) :
    RustEdit → Bytes → Option Bytes
  | .module name => planModule D path name
  | .entry insertion => planEntry D path insertion

variable {path module : String} {observed content : Bytes}

/-- Declaring a module is one edit. -/
theorem planEdit_of_declareModule (h : declareModule D module path observed = .ok content) :
    planEdit D path (.module module) observed = some content := by
  obtain ⟨kind, edit, hplan, rfl⟩ := plannedContent_eq_ok h
  show planModule D path module observed = _
  rw [planModule, hplan]

/-- It is a schedule of that edit alone. -/
theorem run_of_declareModule (h : declareModule D module path observed = .ok content) :
    Schedules.run (planEdit D path) [.module module] observed = some content := by
  rw [Schedules.run_cons_of_step (planEdit_of_declareModule h)]
  rfl

/-- The edits of a source follow each other. -/
theorem run_of_foldlM {entries : List (String × String)}
    (h : entries.foldlM (fun resulting (block, entry) => plannedContent D module path
      (Mutator.planRustManagedEntry path resulting block module entry)) observed = .ok content) :
    Schedules.run (planEdit D path) (entries.map fun (block, entry) =>
      .entry ⟨block, module, entry⟩) observed = some content := by
  induction entries generalizing observed with
  | nil =>
      obtain rfl := pure_eq_ok.1 h
      rfl
  | cons entry entries ih =>
      obtain ⟨resulting, hfirst, hrest⟩ := foldlM_cons_eq_ok.1 h
      obtain ⟨kind, edit, hplan, rfl⟩ := plannedContent_eq_ok hfirst
      have hstep : planEdit D path (.entry ⟨entry.1, module, entry.2⟩) observed =
          some edit.content := by
        show planEntry D path _ observed = _
        rw [planEntry, hplan]
      rw [List.map_cons, Schedules.run_cons_of_step hstep]
      exact ih hrest

/-- Editing a managed file is a schedule of its entries. -/
theorem run_of_managedFileEdit {entries : List (String × String)}
    (h : managedFileEdit D path observed entries module = .ok content) :
    Schedules.run (planEdit D path) (entries.map fun (block, entry) =>
      .entry ⟨block, module, entry⟩) observed = some content :=
  run_of_foldlM (managedFileEdit_eq_ok h)

/-- **A plan is a schedule of edits of each shared source.** -/
theorem registrations_of_planSharedSources {minimal : Bool} {specification : ResourceSpecification}
    {s s' : SharedSources} (h : planSharedSources D minimal specification s = .ok s') :
    (∀ file : SharedFile, Schedules.run (planEdit D file.path)
      (file.registrations minimal specification) (file.content s) = some (file.content s')) ∧
    s'.application.rustFiles = s.application.rustFiles := by
  obtain ⟨domain, hdomain, h⟩ := bind_eq_ok.1 h
  obtain ⟨contracts, hcontracts, h⟩ := bind_eq_ok.1 h
  obtain ⟨application, happlication, h⟩ := bind_eq_ok.1 h
  obtain ⟨infrastructure, hinfrastructure, h⟩ := bind_eq_ok.1 h
  obtain ⟨presentation, hpresentation, h⟩ := bind_eq_ok.1 h
  obtain ⟨services, hservices, h⟩ := bind_eq_ok.1 h
  obtain ⟨server, hserver, h⟩ := bind_eq_ok.1 h
  have hserver := run_of_managedFileEdit hserver
  cases minimal with
  | true =>
      obtain ⟨runtime, hruntime, h⟩ := bind_eq_ok.1 h
      obtain ⟨⟨web, dashboard⟩, hweb, h⟩ := bind_eq_ok.1 h
      obtain rfl := pure_eq_ok.1 h
      obtain ⟨sources, hsources, hweb⟩ := bind_eq_ok.1 hweb
      obtain ⟨rfl, rfl⟩ := Prod.mk.inj (pure_eq_ok.1 hweb)
      obtain ⟨-, -, hsources⟩ := bind_eq_ok.1 hsources
      obtain ⟨-, -, hsources⟩ := bind_eq_ok.1 hsources
      obtain ⟨root, hroot, hsources⟩ := bind_eq_ok.1 hsources
      obtain ⟨routes, hroutes, hsources⟩ := bind_eq_ok.1 hsources
      obtain ⟨dashboard, hdashboard, hsources⟩ := bind_eq_ok.1 hsources
      obtain ⟨contexts, hcontexts, hsources⟩ := bind_eq_ok.1 hsources
      obtain rfl := pure_eq_ok.1 hsources
      refine ⟨fun file => ?_, rfl⟩
      cases file with
      | domainRoot => exact run_of_declareModule hdomain
      | applicationContractsRoot => exact run_of_declareModule hcontracts
      | applicationRoot => exact run_of_declareModule happlication
      | infrastructureRoot => exact run_of_declareModule hinfrastructure
      | presentationRoot => exact run_of_declareModule hpresentation
      | infrastructureServices => exact run_of_managedFileEdit hservices
      | identityRuntime => exact run_of_managedFileEdit hruntime
      | webRoot => exact run_of_declareModule hroot
      | routes => exact run_of_managedFileEdit hroutes
      | navigation | i18n | sidebar => rfl
      | dashboard => exact run_of_managedFileEdit hdashboard
      | server =>
          show Schedules.run _ (List.map _ (_ ++ _)) _ = _
          rw [List.map_append, Schedules.run_append]
          exact Option.bind_eq_some_iff.2 ⟨server, hserver, run_of_managedFileEdit hcontexts⟩
  | false =>
      obtain ⟨runtime, hruntime, h⟩ := bind_eq_ok.1 h
      obtain ⟨⟨web, dashboard⟩, hweb, h⟩ := bind_eq_ok.1 h
      obtain rfl := pure_eq_ok.1 hruntime
      obtain rfl := pure_eq_ok.1 h
      obtain ⟨sources, hsources, hweb⟩ := bind_eq_ok.1 hweb
      obtain ⟨rfl, rfl⟩ := Prod.mk.inj (pure_eq_ok.1 hweb)
      obtain ⟨-, -, hsources⟩ := bind_eq_ok.1 hsources
      obtain ⟨-, -, hsources⟩ := bind_eq_ok.1 hsources
      obtain ⟨-, -, hsources⟩ := bind_eq_ok.1 hsources
      obtain ⟨root, hroot, hsources⟩ := bind_eq_ok.1 hsources
      obtain ⟨routes, hroutes, hsources⟩ := bind_eq_ok.1 hsources
      obtain ⟨navigation, hnavigation, hsources⟩ := bind_eq_ok.1 hsources
      obtain ⟨i18n, hi18n, hsources⟩ := bind_eq_ok.1 hsources
      obtain ⟨sidebar, hsidebar, hsources⟩ := bind_eq_ok.1 hsources
      obtain ⟨contexts, hcontexts, hsources⟩ := bind_eq_ok.1 hsources
      obtain rfl := pure_eq_ok.1 hsources
      refine ⟨fun file => ?_, rfl⟩
      cases file with
      | domainRoot => exact run_of_declareModule hdomain
      | applicationContractsRoot => exact run_of_declareModule hcontracts
      | applicationRoot => exact run_of_declareModule happlication
      | infrastructureRoot => exact run_of_declareModule hinfrastructure
      | presentationRoot => exact run_of_declareModule hpresentation
      | infrastructureServices => exact run_of_managedFileEdit hservices
      | identityRuntime | dashboard => rfl
      | webRoot => exact run_of_declareModule hroot
      | routes => exact run_of_managedFileEdit hroutes
      | navigation => exact run_of_managedFileEdit hnavigation
      | i18n => exact run_of_managedFileEdit hi18n
      | sidebar => exact run_of_managedFileEdit hsidebar
      | server =>
          show Schedules.run _ (List.map _ (_ ++ _)) _ = _
          rw [List.map_append, Schedules.run_append]
          exact Option.bind_eq_some_iff.2 ⟨server, hserver, run_of_managedFileEdit hcontexts⟩

/-- Edits of different modules, or of different places. -/
def RustEdit.Different : RustEdit → RustEdit → Prop
  | .module name, .module name' => name ≠ name'
  | .entry op, .entry op' => (op.block, op.key) ≠ (op'.block, op'.key)
  | _, _ => False

instance (edit edit' : RustEdit) : Decidable (edit.Different edit') := by
  cases edit <;> cases edit' <;> unfold RustEdit.Different <;> infer_instance

/-- **Two different edits meet.** In either order they give the same content. -/
theorem planEdit_meet (hD : Function.Injective (ContentDigest.calculate : Bytes → D))
    {edit edit' : RustEdit} (h : edit.Different edit') :
    Schedules.Meet (planEdit D path) edit edit' := by
  cases edit with
  | module name =>
      cases edit' with
      | module name' => exact Mutator.planModule_meet hD h
      | entry op' => exact h.elim
  | entry op =>
      cases edit' with
      | module name' => exact h.elim
      | entry op' => exact Mutator.planEntry_meet hD h

/-- Edits of different resources are taken in either order. -/
theorem registrations_meet (hD : Function.Injective (ContentDigest.calculate : Bytes → D))
    {minimal : Bool} {a b : ResourceSpecification} (hne : a.names.rustModule ≠ b.names.rustModule)
    (file : SharedFile) : Schedules.Meet (Schedules.run (planEdit D file.path))
      (file.registrations minimal a) (file.registrations minimal b) := by
  refine Schedules.meet_run fun edit hedit edit' hedit' => planEdit_meet hD ?_
  unfold SharedFile.registrations at hedit hedit'
  split at hedit
  · next hroot =>
      rw [if_pos hroot] at hedit'
      obtain rfl := List.mem_singleton.1 hedit
      obtain rfl := List.mem_singleton.1 hedit'
      exact hne
  · next hroot =>
      rw [if_neg hroot] at hedit'
      obtain ⟨_, -, rfl⟩ := List.mem_map.1 hedit
      obtain ⟨_, -, rfl⟩ := List.mem_map.1 hedit'
      exact fun heq => hne (congrArg Prod.snd heq)

/-- A registration runs the edits of every resource on every shared file. -/
theorem run_of_registerResources {minimal : Bool} {specifications : List ResourceSpecification}
    {s s' : SharedSources} (h : registerResources D minimal specifications s = .ok s')
    (file : SharedFile) :
    Schedules.run (Schedules.run (planEdit D file.path))
      (specifications.map (file.registrations minimal)) (file.content s) =
        some (file.content s') := by
  induction specifications generalizing s with
  | nil =>
      obtain rfl := pure_eq_ok.1 h
      rfl
  | cons specification specifications ih =>
      obtain ⟨s₁, hfirst, hrest⟩ := foldlM_cons_eq_ok.1 h
      rw [List.map_cons,
        Schedules.run_cons_of_step ((registrations_of_planSharedSources hfirst).1 file)]
      exact ih hrest

/-- It leaves the Rust files of the application. -/
theorem rustFiles_of_registerResources {minimal : Bool}
    {specifications : List ResourceSpecification} {s s' : SharedSources}
    (h : registerResources D minimal specifications s = .ok s') :
    s'.application.rustFiles = s.application.rustFiles := by
  induction specifications generalizing s with
  | nil =>
      obtain rfl := pure_eq_ok.1 h
      rfl
  | cons specification specifications ih =>
      obtain ⟨s₁, hfirst, hrest⟩ := foldlM_cons_eq_ok.1 h
      rw [ih hrest, (registrations_of_planSharedSources hfirst).2]

/-- Shared sources are their contents. -/
theorem sharedSources_ext {s s' : SharedSources}
    (hcontent : ∀ file : SharedFile, file.content s = file.content s')
    (hfiles : s.application.rustFiles = s'.application.rustFiles) : s = s' := by
  obtain ⟨_, _, _, _, _, _, _, ⟨_, ⟨_, _, _, _, _, _⟩, _⟩⟩ := s
  obtain ⟨_, _, _, _, _, _, _, ⟨_, ⟨_, _, _, _, _, _⟩, _⟩⟩ := s'
  obtain rfl := hcontent .domainRoot
  obtain rfl := hcontent .applicationContractsRoot
  obtain rfl := hcontent .applicationRoot
  obtain rfl := hcontent .infrastructureRoot
  obtain rfl := hcontent .presentationRoot
  obtain rfl := hcontent .infrastructureServices
  obtain rfl := hcontent .identityRuntime
  obtain rfl := hcontent .webRoot
  obtain rfl := hcontent .routes
  obtain rfl := hcontent .navigation
  obtain rfl := hcontent .i18n
  obtain rfl := hcontent .sidebar
  obtain rfl := hcontent .dashboard
  obtain rfl := hcontent .server
  obtain rfl := hfiles
  rfl

end Schedules

/-! ### Sources of empty blocks -/

open Mutator (blockMarker SourceLines)

/-- A source that is the markers of blocks. -/
def blocksSource (blocks : List String) : SourceLines :=
  ⟨blocks.flatMap fun block =>
    [(blockMarker block).toList, (blockMarker block ++ ":end").toList], ['\n'], true⟩

/-- A block whose markers are lines of their own. -/
structure PlainBlock (block : String) : Prop where
  valid : ':' ∉ block.toList
  first : Mutator.trim (blockMarker block).toList = (blockMarker block).toList
  last : Mutator.trim (blockMarker block ++ ":end").toList = (blockMarker block ++ ":end").toList
  plain : '\n' ∉ block.toList ∧ '\r' ∉ block.toList

instance (block : String) : Decidable (PlainBlock block) :=
  decidable_of_iff (':' ∉ block.toList ∧
    Mutator.trim (blockMarker block).toList = (blockMarker block).toList ∧
    Mutator.trim (blockMarker block ++ ":end").toList = (blockMarker block ++ ":end").toList ∧
    '\n' ∉ block.toList ∧ '\r' ∉ block.toList)
    ⟨fun h => ⟨h.1, h.2.1, h.2.2.1, h.2.2.2⟩, fun h => ⟨h.valid, h.first, h.last, h.plain⟩⟩

/-- Other blocks have no line of this one. -/
theorem foreign_of_blocksSource {block : String} {blocks : List String} (hblock : PlainBlock block)
    (hblocks : ∀ other ∈ blocks, PlainBlock other ∧ other ≠ block) :
    ∀ line ∈ (blocksSource blocks).lines, Mutator.ForeignLine block line := by
  intro line hline
  obtain ⟨other, hother, hline⟩ := List.mem_flatMap.1 hline
  obtain ⟨hplain, hne⟩ := hblocks other hother
  rcases List.mem_cons.1 hline with rfl | hline
  · refine ⟨?_, ?_⟩
    · rw [hplain.first]
      intro heq
      simp only [Mutator.blockMarker_toList, List.append_cancel_left_eq] at heq
      exact hne (String.toList_inj.1 heq)
    · rw [hplain.first]
      exact Mutator.not_markerStart_blockMarker block hplain.valid
  · obtain rfl := List.mem_singleton.1 hline
    exact Mutator.foreign_of_markerStart hplain.valid hblock.valid hne
      (hplain.last.trans (Mutator.blockEnd_toList other))

/-- The place of a key in an empty block. -/
theorem gap_blocksSource {block key : String} {before after : List String}
    (hblocks : ∀ other ∈ before ++ block :: after, PlainBlock other)
    (hnodup : (before ++ block :: after).Nodup) :
    Mutator.Gap block key (blocksSource before).lines (blockMarker block).toList [] []
      (blockMarker block ++ ":end").toList (blocksSource after).lines := by
  have hblock := hblocks block (List.mem_append_right _ List.mem_cons_self)
  have hnot : block ∉ before ++ after := by
    have hcons := (List.nodup_middle.1 hnodup)
    exact (List.nodup_cons.1 hcons).1
  have hforeign : ∀ line ∈ (blocksSource before).lines ++ (blocksSource after).lines,
      Mutator.ForeignLine block line := by
    refine List.forall_mem_append.2 ⟨foreign_of_blocksSource hblock fun other hother => ⟨?_, ?_⟩,
      foreign_of_blocksSource hblock fun other hother => ⟨?_, ?_⟩⟩
    · exact hblocks other (List.mem_append_left _ hother)
    · rintro rfl
      exact hnot (List.mem_append_left _ hother)
    · exact hblocks other (List.mem_append_right _ (List.mem_cons_of_mem _ hother))
    · rintro rfl
      exact hnot (List.mem_append_right _ hother)
  refine ⟨⟨hblock.first, hblock.last, fun line hline => ?_, nofun, .nil⟩,
    fun line hline => ?_, nofun, nofun, nofun⟩
  · have hmem : line ∈ (blocksSource before).lines ++ (blocksSource after).lines := by
      simpa [Mutator.segmentLines] using hline
    exact ⟨(hforeign line hmem).1, (hforeign line hmem).ne_blockEnd⟩
  · exact ⟨(hforeign line hline).ne_entryStart, (hforeign line hline).ne_entryEnd⟩

/-- The lines of two lists of blocks. -/
theorem blocksSource_append (blocks blocks' : List String) :
    (blocksSource (blocks ++ blocks')).lines =
      (blocksSource blocks).lines ++ (blocksSource blocks').lines :=
  List.flatMap_append

/-- A source made of blocks is well formed. -/
theorem wellFormed_blocksSource {blocks : List String} (hne : blocks ≠ [])
    (hblocks : ∀ block ∈ blocks, PlainBlock block) : (blocksSource blocks).WellFormed := by
  refine ⟨?_, fun line hline => ?_, nofun, .inl rfl⟩
  · obtain ⟨block, rest, rfl⟩ := List.exists_cons_of_ne_nil hne
    exact List.cons_ne_nil _ _
  · obtain ⟨block, hblock, hline⟩ := List.mem_flatMap.1 hline
    have hplain := (hblocks block hblock).plain
    have hmarker : ∀ c ∈ "// hegira:".toList ++ ":end".toList, c ≠ '\n' ∧ c ≠ '\r' := by simp
    have hlist : line = "// hegira:".toList ++ block.toList ∨
        line = "// hegira:".toList ++ block.toList ++ ":end".toList := by
      rcases List.mem_cons.1 hline with rfl | hline
      · exact .inl (Mutator.blockMarker_toList block)
      · obtain rfl := List.mem_singleton.1 hline
        rw [String.toList_append, Mutator.blockMarker_toList]
        exact .inr rfl
    have hchar : ∀ c ∈ line, c ∈ "// hegira:".toList ++ ":end".toList ∨ c ∈ block.toList := by
      intro c hc
      rcases hlist with rfl | rfl
      · exact (List.mem_append.1 hc).imp (List.mem_append_left _) id
      · rcases List.mem_append.1 hc with hc | hc
        · exact (List.mem_append.1 hc).imp (List.mem_append_left _) id
        · exact .inl (List.mem_append_right _ hc)
    constructor
    · intro hc
      rcases hchar _ hc with hc | hc
      · exact (hmarker _ hc).1 rfl
      · exact hplain.1 hc
    · intro hc
      rcases hchar _ hc with hc | hc
      · exact (hmarker _ hc).2 rfl
      · exact hplain.2 hc

/-- An entry is planned in a source of empty blocks. -/
theorem planEntry_blocksSource {p : Mutator.ChangePath} {op : ManagedInsertion}
    {before after : List String} (hop : op.Accepted)
    (hblocks : ∀ other ∈ before ++ op.block :: after, PlainBlock other)
    (hnodup : (before ++ op.block :: after).Nodup) :
    planEntry Mutator.PlainDigest p.text op (bytesOf (blocksSource (before ++ op.block :: after))) =
      some (Mutator.sourceBytes (blocksSource (before ++ op.block :: after))
        ((blocksSource before).lines ++ (blockMarker op.block).toList ::
          Mutator.generatedLines op.block op.key op.entry.toList [] ++
            (blockMarker op.block ++ ":end").toList :: (blocksSource after).lines)) := by
  have hsource : Mutator.observedLines p (bytesOf (blocksSource (before ++ op.block :: after))) =
      .ok (blocksSource (before ++ op.block :: after)) :=
    observedLines_bytesOf (wellFormed_blocksSource
      (List.append_ne_nil_of_right_ne_nil _ (List.cons_ne_nil _ _)) hblocks)
  refine (Mutator.planEntry_eq_some Mutator.PlainDigest.calculate_injective).2
    ⟨hop, p, _, _, p.new_text, hsource, ?_, rfl⟩
  have hinsert := @Mutator.Gap.insertEntry_eq p op.block op.key op.entry.toList _ _ _ _ _ _
    (@gap_blocksSource op.block op.key before after hblocks hnodup)
  have hlines : (blocksSource (before ++ op.block :: after)).lines =
      Mutator.linesAbove (blocksSource before).lines (blockMarker op.block).toList [] ++
        Mutator.linesBelow [] (blockMarker op.block ++ ":end").toList (blocksSource after).lines := by
    rw [blocksSource_append]
    simp [Mutator.linesAbove, Mutator.linesBelow, Mutator.segmentLines, blocksSource]
  rw [hlines, hinsert]
  have hindentation : (blockMarker op.block).toList.takeWhile Mutator.isWhitespace = [] := by
    rw [Mutator.blockMarker_toList]
    rfl
  simp [Mutator.linesAbove, Mutator.linesBelow, Mutator.segmentLines, hindentation]

/-! ### What a schedule plans -/

section Plans

variable {path module : String} {observed content : Bytes}

/-- The number of the lines of a source. -/
def lineCount (source : Bytes) : ℕ :=
  (((Mutator.fromUtf8 source).bind fun text => SourceLines.read text.toList).map fun lines =>
    lines.lines.length).getD 0

/-- An accepted content has the lines that were read. -/
theorem lineCount_of_observedLines {p : Mutator.ChangePath} {lines : SourceLines}
    (h : Mutator.observedLines p observed = .ok lines) : lineCount observed = lines.lines.length := by
  obtain ⟨text, hutf8, hread⟩ := Mutator.observedLines_eq_ok.1 h
  rw [lineCount, hutf8, Option.bind_some, hread]
  rfl

/-- A planned entry adds lines. -/
theorem lineCount_of_planEntry {op : ManagedInsertion}
    (h : planEntry Mutator.PlainDigest path op observed = some content) :
    lineCount observed < lineCount content := by
  obtain ⟨hop, p, source, result, -, hsource, hinsert, rfl⟩ :=
    (Mutator.planEntry_eq_some Mutator.PlainDigest.calculate_injective).1 h
  rw [lineCount_of_observedLines hsource,
    lineCount_of_observedLines (Mutator.observedLines_insertEntry hop hsource hinsert)]
  obtain ⟨head, first, before, after, last, tail, -, hlines, rfl⟩ := Mutator.exists_gap hinsert
  rw [hlines]
  simp only [List.length_append, Mutator.generatedLines, List.length_singleton]
  omega

/-- A schedule of entries is the loop over them. -/
theorem foldlM_of_run {entries : List (String × String)}
    (h : Schedules.run (planEdit Mutator.PlainDigest path) (entries.map fun (block, entry) =>
      .entry ⟨block, module, entry⟩) observed = some content) :
    entries.foldlM (fun resulting (block, entry) => plannedContent Mutator.PlainDigest module path
      (Mutator.planRustManagedEntry path resulting block module entry)) observed = .ok content ∧
      (entries = [] ∨ lineCount observed < lineCount content) := by
  induction entries generalizing observed with
  | nil =>
      obtain rfl := Option.some.inj h
      exact ⟨rfl, .inl rfl⟩
  | cons entry entries ih =>
      obtain ⟨resulting, hfirst, hrest⟩ := Option.bind_eq_some_iff.1 h
      obtain ⟨hfold, hcount⟩ := ih hrest
      have hfirst : planEntry Mutator.PlainDigest path ⟨entry.1, module, entry.2⟩ observed =
          some resulting := hfirst
      have hgrow := lineCount_of_planEntry hfirst
      refine ⟨foldlM_cons_eq_ok.2 ⟨resulting, ?_, hfold⟩, .inr ?_⟩
      · unfold planEntry at hfirst
        split at hfirst
        · next kind edit hplan =>
            obtain rfl := Option.some.inj hfirst
            exact congrArg (plannedContent _ _ _) hplan
        · cases hfirst
      · rcases hcount with rfl | hcount
        · obtain rfl := Option.some.inj hrest
          exact hgrow
        · exact hgrow.trans hcount

/-- A schedule of entries is an edit of the managed file. -/
theorem managedFileEdit_of_run {p : Mutator.ChangePath} {entries : List (String × String)}
    (hne : entries ≠ [])
    (h : Schedules.run (planEdit Mutator.PlainDigest p.text) (entries.map fun (block, entry) =>
      .entry ⟨block, module, entry⟩) observed = some content) :
    managedFileEdit Mutator.PlainDigest p.text observed entries module = .ok content := by
  obtain ⟨hfold, hcount⟩ := foldlM_of_run h
  have hchanged : (ContentDigest.calculate observed : Mutator.PlainDigest) ≠
      ContentDigest.calculate content := by
    intro heq
    obtain rfl := Mutator.PlainDigest.calculate_injective heq
    exact (hcount.resolve_left hne).ne rfl
  refine bind_eq_ok.2 ⟨content, hfold, bind_eq_ok.2 ⟨⟨p, ContentDigest.calculate observed, content,
    ContentDigest.calculate content, ⟨_, rfl⟩, rfl⟩, mapError_eq_ok.2 ?_, rfl⟩⟩
  exact bind_eq_ok.2 ⟨p, p.new_text, guarded_eq_ok.2 ⟨hchanged, rfl⟩⟩

/-- A schedule of a module is its declaration. -/
theorem declareModule_of_run
    (h : Schedules.run (planEdit Mutator.PlainDigest path) [.module module] observed =
      some content) : declareModule Mutator.PlainDigest module path observed = .ok content := by
  obtain ⟨resulting, hfirst, hrest⟩ := Option.bind_eq_some_iff.1 h
  obtain rfl := Option.some.inj hrest
  have hfirst : planModule Mutator.PlainDigest path module observed = some resulting := hfirst
  unfold planModule at hfirst
  split at hfirst
  · next kind edit hplan =>
      obtain rfl := Option.some.inj hfirst
      exact congrArg (plannedContent _ _ _) hplan
  · cases hfirst

/-- A minimal composition plans what its schedules plan, if no route is taken. -/
theorem planSharedSources_of_runs {specification : ResourceSpecification} {s : SharedSources}
    {contents : SharedFile → Bytes} (hclient : specification.selection.client = .leptos)
    (hroutes : rejectRouteConflicts specification s.application.web.routes s.application.dashboard =
      .ok ())
    (h : ∀ file : SharedFile, Schedules.run (planEdit Mutator.PlainDigest file.path)
      (file.registrations true specification) (file.content s) = some (contents file)) :
    ∃ s', planSharedSources Mutator.PlainDigest true specification s = .ok s' ∧
      ∀ file : SharedFile, file.content s' = contents file := by
  have hserver := h .server
  have hregistrations : SharedFile.server.registrations true specification =
      ([("resource-bearer-routes", specification.minimalRouteRegistration)].map
        fun (block, entry) => .entry ⟨block, specification.names.rustModule, entry⟩) ++
      ([("resource-leptos-contexts", specification.serverContext true)].map
        fun (block, entry) => .entry ⟨block, specification.names.rustModule, entry⟩) := rfl
  rw [hregistrations, Schedules.run_append] at hserver
  obtain ⟨server, hbearer, hcontexts⟩ := Option.bind_eq_some_iff.1 hserver
  have hdomain := declareModule_of_run (h .domainRoot)
  have hcontracts := declareModule_of_run (h .applicationContractsRoot)
  have happlication := declareModule_of_run (h .applicationRoot)
  have hinfrastructure := declareModule_of_run (h .infrastructureRoot)
  have hpresentation := declareModule_of_run (h .presentationRoot)
  have hroot := declareModule_of_run (h .webRoot)
  have hservices : managedFileEdit Mutator.PlainDigest infrastructureServices s.infrastructureServices
      specification.serviceEntries specification.names.rustModule =
        .ok (contents .infrastructureServices) :=
    managedFileEdit_of_run (p := ⟨infrastructureServices, by decide⟩) (List.cons_ne_nil _ _)
      (h .infrastructureServices)
  have hruntime : managedFileEdit Mutator.PlainDigest identityRuntime s.identityRuntime
      [("resource-openapi-documents", specification.openapiRegistration)]
      specification.names.rustModule = .ok (contents .identityRuntime) :=
    managedFileEdit_of_run (p := ⟨identityRuntime, by decide⟩) (List.cons_ne_nil _ _) (h .identityRuntime)
  have hrouteSource : managedFileEdit Mutator.PlainDigest webRoutes s.application.web.routes
      [("resource-routes-native", specification.nativeRouteRegistration)]
      specification.names.rustModule = .ok (contents .routes) :=
    managedFileEdit_of_run (p := ⟨webRoutes, by decide⟩) (List.cons_ne_nil _ _) (h .routes)
  have hdashboard : managedFileEdit Mutator.PlainDigest webDashboard s.application.dashboard
      [("module-navigation", specification.minimalNavigationItem)]
      specification.names.rustModule = .ok (contents .dashboard) :=
    managedFileEdit_of_run (p := ⟨webDashboard, by decide⟩) (List.cons_ne_nil _ _) (h .dashboard)
  have hbearerRoutes : managedFileEdit Mutator.PlainDigest serverSource s.application.web.serverSource
      (specification.serverEntries true) specification.names.rustModule = .ok server :=
    managedFileEdit_of_run (p := ⟨serverSource, by decide⟩) (List.cons_ne_nil _ _) hbearer
  have hserverSource : managedFileEdit Mutator.PlainDigest serverSource server
      [("resource-leptos-contexts", specification.serverContext true)]
      specification.names.rustModule = .ok (contents .server) :=
    managedFileEdit_of_run (p := ⟨serverSource, by decide⟩) (List.cons_ne_nil _ _) hcontexts
  have hleptos : ensureLeptos specification = .ok () := by
    rw [ensureLeptos, hclient]
    rfl
  have hweb : planWeb Mutator.PlainDigest true specification server s.application =
      .ok ({ s.application.web with
        webRoot := contents .webRoot
        routes := contents .routes
        serverSource := contents .server }, contents .dashboard) :=
    bind_eq_ok.2 ⟨⟨contents .webRoot, contents .routes, contents .dashboard, contents .server⟩,
      bind_eq_ok.2 ⟨(), hleptos, bind_eq_ok.2 ⟨(), hroutes, bind_eq_ok.2 ⟨_, hroot,
        bind_eq_ok.2 ⟨_, hrouteSource, bind_eq_ok.2 ⟨_, hdashboard,
          bind_eq_ok.2 ⟨_, hserverSource, rfl⟩⟩⟩⟩⟩⟩, rfl⟩
  refine ⟨_, bind_eq_ok.2 ⟨_, hdomain, bind_eq_ok.2 ⟨_, hcontracts, bind_eq_ok.2 ⟨_, happlication,
    bind_eq_ok.2 ⟨_, hinfrastructure, bind_eq_ok.2 ⟨_, hpresentation, bind_eq_ok.2 ⟨_, hservices,
      bind_eq_ok.2 ⟨_, hbearerRoutes, bind_eq_ok.2 ⟨_, hruntime, bind_eq_ok.2 ⟨_, hweb,
        rfl⟩⟩⟩⟩⟩⟩⟩⟩⟩, fun file => ?_⟩
  cases file with
  | navigation => exact Option.some.inj (h .navigation)
  | i18n => exact Option.some.inj (h .i18n)
  | sidebar => exact Option.some.inj (h .sidebar)
  | _ => rfl

end Plans

/-! ### Two resources -/

/-- The names of a resource of one word. -/
def wordNames (singular plural module table : String)
    (artifacts : List (LayerOwner × Mutator.ChangePath)) : LayeredArtifactNames :=
  ⟨singular, plural, module, table, table, table, artifacts⟩

def bookSpecification : ResourceSpecification :=
  ⟨wordNames "Book" "Books" "book" "books" (LayerOwner.all.map fun owner =>
    (owner, ⟨owner.sourceRoot ++ "/book.rs", by cases owner <;> decide +kernel⟩)),
    ⟨.sqlite, .leptos⟩, [⟨"title", .string, false⟩]⟩

def noteSpecification : ResourceSpecification :=
  ⟨wordNames "Note" "Notes" "note" "notes" (LayerOwner.all.map fun owner =>
    (owner, ⟨owner.sourceRoot ++ "/note.rs", by cases owner <;> decide +kernel⟩)),
    ⟨.sqlite, .leptos⟩, [⟨"body", .string, false⟩]⟩

/-- The blocks of a source of a minimal application. -/
def SharedFile.blocks : SharedFile → List String
  | infrastructureServices => ["service-imports", "service-type-aliases", "service-fields",
      "service-init", "service-factories"]
  | identityRuntime => ["resource-openapi-documents"]
  | routes => ["resource-routes-native"]
  | dashboard => ["module-navigation"]
  | server => ["resource-bearer-routes", "resource-leptos-contexts"]
  | _ => []

/-- What a source of a minimal application without resources is. -/
def SharedFile.emptyContent (file : SharedFile) : Bytes :=
  if file.isRoot then bytesOf (markerLines Mutator.rustModulesStart Mutator.rustModulesEnd)
  else bytesOf (blocksSource file.blocks)

/-- The sources of these contents. -/
def SharedSources.ofContents (contents : SharedFile → Bytes) : SharedSources where
  domainRoot := contents .domainRoot
  applicationContractsRoot := contents .applicationContractsRoot
  applicationRoot := contents .applicationRoot
  infrastructureRoot := contents .infrastructureRoot
  presentationRoot := contents .presentationRoot
  infrastructureServices := contents .infrastructureServices
  identityRuntime := contents .identityRuntime
  application := {
    rustFiles _ := ["lib.rs"]
    web := {
      webRoot := contents .webRoot
      routes := contents .routes
      navigation := contents .navigation
      i18n := contents .i18n
      sidebar := contents .sidebar
      serverSource := contents .server }
    dashboard := contents .dashboard }

/-- The content of a file of given sources. -/
theorem content_ofContents (contents : SharedFile → Bytes) (file : SharedFile) :
    file.content (.ofContents contents) = contents file := by
  cases file <;> rfl

/-- Every shared file has its own plain blocks. -/
theorem plainBlocks (file : SharedFile) :
    (∀ block ∈ file.blocks, PlainBlock block) ∧ file.blocks.Nodup := by
  cases file <;> decide +kernel

/-- A text that `plan_rust_managed_entry` accepts. -/
def acceptedText (entry : List Char) : Bool :=
  decide (Mutator.trim entry ≠ []) && !FirstMatch.contains "// hegira:".toList entry
    && !entry.contains '\r'

/-- An insertion with valid names and text is accepted. -/
theorem accepted_of_text {block key entry : String}
    (hblock : Mutator.validMarkerIdentifier block.toList = true)
    (hkey : Mutator.validMarkerIdentifier key.toList = true)
    (hentry : acceptedText entry.toList = true) : ManagedInsertion.Accepted ⟨block, key, entry⟩ := by
  simp only [acceptedText, Bool.and_eq_true, Bool.not_eq_true', decide_eq_true_eq] at hentry
  obtain ⟨⟨htrim, hmarker⟩, hplain⟩ := hentry
  refine ⟨hblock, hkey, htrim, fun hinfix => ?_, by simpa using hplain⟩
  rw [(FirstMatch.contains_iff (by decide)).2 hinfix] at hmarker
  cases hmarker

namespace ResourceSpecification

/-- The texts that register a resource in a minimal application. -/
def registrationTexts (specification : ResourceSpecification) : List String :=
  [specification.serviceImport, specification.serviceAlias, specification.serviceField,
    specification.serviceInitialization, specification.serviceFactory,
    specification.openapiRegistration, specification.nativeRouteRegistration,
    specification.minimalNavigationItem, specification.minimalRouteRegistration,
    specification.serverContext true]

/-- A resource whose registrations are accepted in the sources of a minimal application. -/
structure Registrable (specification : ResourceSpecification) : Prop where
  module : Mutator.validRustIdentifier specification.names.rustModule.toList = true
  key : Mutator.validMarkerIdentifier specification.names.rustModule.toList = true
  client : specification.selection.client = .leptos
  texts : ∀ text ∈ specification.registrationTexts, acceptedText text.toList = true

end ResourceSpecification

/-- The two resources of the example can be registered. -/
theorem books_and_notes_registrable :
    ∀ specification ∈ [bookSpecification, noteSpecification], specification.Registrable := by
  simp only [List.forall_mem_cons, List.not_mem_nil, false_implies, implies_true, and_true]
  refine ⟨⟨by decide, by decide, rfl, ?_⟩, ⟨by decide, by decide, rfl, ?_⟩⟩
  all_goals
    simp only [ResourceSpecification.registrationTexts, List.forall_mem_cons, List.not_mem_nil,
      false_implies, implies_true, and_true]
    refine ⟨?_, ?_, ?_, ?_, ?_, ?_, ?_, ?_, ?_, ?_⟩
    · unfold ResourceSpecification.serviceImport
      simp only [bookSpecification, noteSpecification, wordNames, String.toList_append]
      repeat rw [String.toList_ofList]
      decide +kernel
    · unfold ResourceSpecification.serviceAlias
      simp only [bookSpecification, noteSpecification, wordNames, String.toList_append]
      repeat rw [String.toList_ofList]
      decide +kernel
    · unfold ResourceSpecification.serviceField
      simp only [bookSpecification, noteSpecification, wordNames, String.toList_append]
      repeat rw [String.toList_ofList]
      decide +kernel
    · unfold ResourceSpecification.serviceInitialization
      simp only [bookSpecification, noteSpecification, wordNames, String.toList_append]
      repeat rw [String.toList_ofList]
      decide +kernel
    · unfold ResourceSpecification.serviceFactory
      simp only [bookSpecification, noteSpecification, wordNames, String.toList_append]
      repeat rw [String.toList_ofList]
      decide +kernel
    · unfold ResourceSpecification.openapiRegistration
      simp only [bookSpecification, noteSpecification, wordNames, String.toList_append]
      repeat rw [String.toList_ofList]
      decide +kernel
    · unfold ResourceSpecification.nativeRouteRegistration
      simp only [bookSpecification, noteSpecification, wordNames, String.toList_append]
      repeat rw [String.toList_ofList]
      decide +kernel
    · unfold ResourceSpecification.minimalNavigationItem
      simp only [bookSpecification, noteSpecification, wordNames, String.toList_append]
      repeat rw [String.toList_ofList]
      decide +kernel
    · unfold ResourceSpecification.minimalRouteRegistration
      simp only [bookSpecification, noteSpecification, wordNames, String.toList_append]
      repeat rw [String.toList_ofList]
      decide +kernel
    · unfold ResourceSpecification.serverContext
      simp only [bookSpecification, noteSpecification, wordNames, String.toList_append]
      repeat rw [String.toList_ofList]
      decide +kernel

section Registrable

variable {a b specification : ResourceSpecification}

/-- A resource has one entry for each block of a file. -/
theorem map_fst_entries (specification : ResourceSpecification) (file : SharedFile) :
    (file.entries true specification).map Prod.fst = file.blocks := by
  cases file <;> rfl

/-- Every entry is one of the texts of a registration. -/
theorem text_mem_registrationTexts {file : SharedFile} {entry : String × String}
    (h : entry ∈ file.entries true specification) :
    entry.2 ∈ specification.registrationTexts := by
  have hmem : ∀ file : SharedFile, ∀ text ∈ (file.entries true specification).map Prod.snd,
      text ∈ specification.registrationTexts := by
    intro file
    cases file <;> simp [SharedFile.entries, ResourceSpecification.serviceEntries,
      ResourceSpecification.serverEntries, ResourceSpecification.registrationTexts]
  exact hmem file entry.2 (List.mem_map_of_mem h)

def SharedFile.changePath (file : SharedFile) : Mutator.ChangePath :=
  ⟨file.path, by cases file <;> decide +kernel⟩

/-- A module is declared in a root without modules. -/
theorem planModule_emptyContent {file : SharedFile} (hroot : file.isRoot = true) {module : String}
    (hmodule : Mutator.validRustIdentifier module.toList = true) :
    (planModule Mutator.PlainDigest file.path module file.emptyContent).isSome = true := by
  have hwell : (markerLines Mutator.rustModulesStart Mutator.rustModulesEnd).WellFormed :=
    wellFormed_markerLines (by decide) (by decide)
  have hinsert := (@Mutator.insertModule_eq_ok_iff file.changePath module
    (Mutator.moduleLines [] [] []) _).2 ⟨[], [], [], rfl, ⟨nofun, nofun, .nil⟩, nofun, rfl⟩
  rw [SharedFile.emptyContent, if_pos hroot]
  exact Option.isSome_iff_exists.2 ⟨_,
    (Mutator.planModule_eq_some Mutator.PlainDigest.calculate_injective).2 ⟨hmodule,
      file.changePath, _, _, file.changePath.new_text, observedLines_bytesOf hwell, hinsert, rfl⟩⟩

/-- An entry is planned in an empty block. -/
theorem planEntry_emptyContent {file : SharedFile} (hroot : ¬file.isRoot = true)
    {op : ManagedInsertion} (hblock : op.block ∈ file.blocks) (hop : op.Accepted) :
    (planEntry Mutator.PlainDigest file.path op file.emptyContent).isSome = true := by
  obtain ⟨hplain, hnodup⟩ := plainBlocks file
  obtain ⟨before, after, hblocks⟩ := List.append_of_mem hblock
  rw [hblocks] at hplain hnodup
  rw [SharedFile.emptyContent, if_neg hroot, hblocks]
  exact Option.isSome_iff_exists.2
    ⟨_, @planEntry_blocksSource file.changePath op before after hop hplain hnodup⟩

/-- Each edit of a registrable resource applies to the empty file. -/
theorem ResourceSpecification.Registrable.isSome (h : specification.Registrable)
    (file : SharedFile) : ∀ edit ∈ file.registrations true specification,
      (planEdit Mutator.PlainDigest file.path edit file.emptyContent).isSome = true := by
  intro edit hedit
  unfold SharedFile.registrations at hedit
  split at hedit
  · next hroot =>
      obtain rfl := List.mem_singleton.1 hedit
      exact planModule_emptyContent hroot h.module
  · next hroot =>
      obtain ⟨entry, hentry, rfl⟩ := List.mem_map.1 hedit
      have hblock : entry.1 ∈ file.blocks :=
        map_fst_entries specification file ▸ List.mem_map_of_mem hentry
      have hvalid : ∀ file : SharedFile, ∀ block ∈ file.blocks,
          Mutator.validMarkerIdentifier block.toList = true := by
        intro file
        cases file <;> decide +kernel
      exact planEntry_emptyContent hroot hblock (accepted_of_text (hvalid file _ hblock) h.key
        (h.texts _ (text_mem_registrationTexts hentry)))

/-- The edits of two resources are different. -/
theorem pairwise_registrations (hne : a.names.rustModule ≠ b.names.rustModule) (file : SharedFile) :
    (file.registrations true a ++ file.registrations true b).Pairwise RustEdit.Different := by
  have hone : ∀ specification : ResourceSpecification,
      (file.registrations true specification).Pairwise RustEdit.Different := by
    intro specification
    unfold SharedFile.registrations
    split
    · exact List.pairwise_singleton _ _
    · have hnodup := (plainBlocks file).2
      rw [← map_fst_entries specification file, List.Nodup, List.pairwise_map] at hnodup
      rw [List.pairwise_map]
      refine hnodup.imp fun {entry entry'} hne => ?_
      obtain ⟨block, text⟩ := entry
      obtain ⟨block', text'⟩ := entry'
      exact fun heq => hne (Prod.mk.inj heq).1
  refine List.pairwise_append.2 ⟨hone a, hone b, fun edit hedit edit' hedit' => ?_⟩
  unfold SharedFile.registrations at hedit hedit'
  split at hedit
  · next hroot =>
      rw [if_pos hroot] at hedit'
      obtain rfl := List.mem_singleton.1 hedit
      obtain rfl := List.mem_singleton.1 hedit'
      exact hne
  · next hroot =>
      rw [if_neg hroot] at hedit'
      obtain ⟨_, -, rfl⟩ := List.mem_map.1 hedit
      obtain ⟨_, -, rfl⟩ := List.mem_map.1 hedit'
      exact fun heq => hne (congrArg Prod.snd heq)

/-- Two resources are registered one after the other, if no route is taken. -/
theorem exists_registered (ha : a.Registrable) (hb : b.Registrable)
    (hne : a.names.rustModule ≠ b.names.rustModule)
    (hfirst : rejectRouteConflicts a SharedFile.routes.emptyContent
      SharedFile.dashboard.emptyContent = .ok ())
    (hsecond : ∀ routes dashboard,
      Schedules.run (planEdit Mutator.PlainDigest webRoutes) (SharedFile.routes.registrations true a)
        SharedFile.routes.emptyContent = some routes →
      Schedules.run (planEdit Mutator.PlainDigest webDashboard)
        (SharedFile.dashboard.registrations true a) SharedFile.dashboard.emptyContent =
          some dashboard → rejectRouteConflicts b routes dashboard = .ok ()) :
    ∃ s, registerResources Mutator.PlainDigest true [a, b]
      (.ofContents SharedFile.emptyContent) = .ok s := by
  have hrun : ∀ file : SharedFile, ∃ first second,
      Schedules.run (planEdit Mutator.PlainDigest file.path) (file.registrations true a)
        file.emptyContent = some first ∧
      Schedules.run (planEdit Mutator.PlainDigest file.path) (file.registrations true b) first =
        some second := by
    intro file
    have hsome := Schedules.isSome_run ((pairwise_registrations hne file).imp fun hdifferent =>
      @planEdit_meet Mutator.PlainDigest _ _ file.path Mutator.PlainDigest.calculate_injective _ _
        hdifferent) (List.forall_mem_append.2 ⟨ha.isSome file, hb.isSome file⟩)
    obtain ⟨second, hboth⟩ := Option.isSome_iff_exists.1 hsome
    rw [Schedules.run_append] at hboth
    obtain ⟨first, hfirst, hsecond⟩ := Option.bind_eq_some_iff.1 hboth
    exact ⟨first, second, hfirst, hsecond⟩
  choose first second hfirstRun hsecondRun using hrun
  obtain ⟨s₁, hs₁, hcontent₁⟩ := @planSharedSources_of_runs a
    (.ofContents SharedFile.emptyContent) first ha.client hfirst fun file => by
      rw [content_ofContents]
      exact hfirstRun file
  have hroutes : s₁.application.web.routes = first .routes := hcontent₁ .routes
  have hdashboard : s₁.application.dashboard = first .dashboard := hcontent₁ .dashboard
  obtain ⟨s₂, hs₂, -⟩ := @planSharedSources_of_runs b s₁ second hb.client
    (by rw [hroutes, hdashboard]; exact hsecond _ _ (hfirstRun .routes) (hfirstRun .dashboard))
    fun file => by
      rw [hcontent₁]
      exact hsecondRun file
  exact ⟨s₂, foldlM_cons_eq_ok.2 ⟨s₁, hs₁, foldlM_cons_eq_ok.2 ⟨s₂, hs₂, rfl⟩⟩⟩

end Registrable

/-! ### Any order -/

section Order

variable {D : Type} [ContentDigest D] [DecidableEq D]

/-- **Two orders of generating the same resources leave the same sources.** -/
theorem resources_registered_in_any_order
    (hD : Function.Injective (ContentDigest.calculate : Bytes → D)) {minimal : Bool}
    {specifications schedule : List ResourceSpecification} {s s₁ s₂ : SharedSources}
    (hperm : specifications.Perm schedule)
    (hmodules : (specifications.map fun specification => specification.names.rustModule).Nodup)
    (h : registerResources D minimal specifications s = .ok s₁)
    (h' : registerResources D minimal schedule s = .ok s₂) : s₁ = s₂ := by
  refine sharedSources_ext (fun file => ?_) ?_
  · have hmeet : (specifications.map (file.registrations minimal)).Pairwise
        (Schedules.Meet (Schedules.run (planEdit D file.path))) := by
      rw [List.Nodup, List.pairwise_map] at hmodules
      exact List.pairwise_map.2 (hmodules.imp fun hne => registrations_meet hD hne file)
    exact Schedules.run_unique (hperm.map _) hmeet (run_of_registerResources h file)
      (run_of_registerResources h' file)
  · rw [rustFiles_of_registerResources h, rustFiles_of_registerResources h']

/-- A route source or dashboard with the entry of one resource. -/
def registeredSource (block module entry : String) : SourceLines :=
  ⟨[(blockMarker block).toList] ++ Mutator.generatedLines block module entry.toList [] ++
    [(blockMarker block ++ ":end").toList], ['\n'], true⟩

/-- A schedule of one entry leaves a file that has registered it. -/
theorem registered_of_run {a : ResourceSpecification} {file : SharedFile} {block entry : String}
    {content : Bytes} (ha : a.Registrable) (hroot : ¬file.isRoot = true)
    (hentries : file.entries true a = [(block, entry)])
    (h : Schedules.run (planEdit Mutator.PlainDigest file.path) (file.registrations true a)
      file.emptyContent = some content) :
    content = bytesOf (registeredSource block a.names.rustModule entry) := by
  have hblocks : file.blocks = [block] := by
    rw [← map_fst_entries a file, hentries]
    rfl
  have hplain := plainBlocks file
  have hvalid : Mutator.validMarkerIdentifier block.toList = true := by
    have hall : ∀ file : SharedFile, ∀ block ∈ file.blocks,
        Mutator.validMarkerIdentifier block.toList = true := by
      intro file
      cases file <;> decide +kernel
    exact hall file block (hblocks ▸ List.mem_singleton_self _)
  have htext := text_mem_registrationTexts (hentries ▸ List.mem_singleton_self _)
  have hop : ManagedInsertion.Accepted ⟨block, a.names.rustModule, entry⟩ :=
    accepted_of_text hvalid ha.key (ha.texts _ htext)
  rw [hblocks] at hplain
  have hplan := @planEntry_blocksSource file.changePath ⟨block, a.names.rustModule, entry⟩ [] [] hop
    hplain.1 hplain.2
  rw [SharedFile.registrations, if_neg hroot, hentries, SharedFile.emptyContent, if_neg hroot,
    hblocks] at h
  have hstep : planEdit Mutator.PlainDigest file.path
      (.entry ⟨block, a.names.rustModule, entry⟩) (bytesOf (blocksSource [block])) = some _ := hplan
  rw [List.map_singleton, Schedules.run_cons_of_step hstep] at h
  exact (Option.some.inj h).symm

/-- What a source contains is read off its lines. -/
theorem sourceContains_bytesOf (source : SourceLines) (text : String) :
    sourceContains (bytesOf source) text = FirstMatch.contains text.toList source.write := by
  rw [sourceContains, lossy_bytesOf]

theorem rejectRouteConflicts_bytesOf {specification : ResourceSpecification}
    {routes navigation : SourceLines}
    (h : (FirstMatch.contains (routeProbe specification.names.routeSegment).toList routes.write
      || FirstMatch.contains
        ("href: \"/" ++ specification.names.routeSegment ++ "\"").toList navigation.write
      || FirstMatch.contains
        ("key: \"" ++ specification.names.routeSegment ++ "\"").toList navigation.write) = false) :
    rejectRouteConflicts specification (bytesOf routes) (bytesOf navigation) = .ok () := by
  refine guard_eq_ok.2 ?_
  simp only [sourceContains_bytesOf]
  rw [h]
  exact Bool.false_ne_true

/-- Neither resource of the example conflicts with an empty application. -/
theorem books_and_notes_free : ∀ specification ∈ [bookSpecification, noteSpecification],
    rejectRouteConflicts specification SharedFile.routes.emptyContent
      SharedFile.dashboard.emptyContent = .ok () := by
  have hroutes : SharedFile.routes.emptyContent =
      bytesOf (blocksSource SharedFile.routes.blocks) := if_neg (by decide)
  have hdashboard : SharedFile.dashboard.emptyContent =
      bytesOf (blocksSource SharedFile.dashboard.blocks) := if_neg (by decide)
  intro specification hspecification
  rw [hroutes, hdashboard]
  refine rejectRouteConflicts_bytesOf ?_
  revert specification
  decide +kernel

/-- The routes of a resource leave those of another one free. -/
def Leaves (a b : ResourceSpecification) : Prop :=
  rejectRouteConflicts b
    (bytesOf (registeredSource "resource-routes-native" a.names.rustModule
      a.nativeRouteRegistration))
    (bytesOf (registeredSource "module-navigation" a.names.rustModule
      a.minimalNavigationItem)) = .ok ()

theorem books_leave_notes : Leaves bookSpecification noteSpecification ∧
    Leaves noteSpecification bookSpecification := by
  constructor
  all_goals
    refine rejectRouteConflicts_bytesOf ?_
    unfold registeredSource Mutator.generatedLines ResourceSpecification.nativeRouteRegistration
      ResourceSpecification.minimalNavigationItem
    simp only [bookSpecification, noteSpecification, wordNames, String.toList_append]
    repeat rw [String.toList_ofList]
    decide +kernel

/-- Either can be registered after the other. -/
theorem exists_registered_of_leaves {a b : ResourceSpecification}
    (ha : a ∈ [bookSpecification, noteSpecification])
    (hb : b ∈ [bookSpecification, noteSpecification])
    (hne : a.names.rustModule ≠ b.names.rustModule) (hleaves : Leaves a b) :
    ∃ s, registerResources Mutator.PlainDigest true [a, b]
      (.ofContents SharedFile.emptyContent) = .ok s := by
  have hregistrable := books_and_notes_registrable a ha
  refine exists_registered hregistrable (books_and_notes_registrable b hb) hne
    (books_and_notes_free a ha) fun routes dashboard hroutes hdashboard => ?_
  have hrouteSource := @registered_of_run a .routes "resource-routes-native"
    a.nativeRouteRegistration routes hregistrable (by decide) rfl hroutes
  have hdashboardSource := @registered_of_run a .dashboard "module-navigation"
    a.minimalNavigationItem dashboard hregistrable (by decide) rfl hdashboard
  rw [hrouteSource, hdashboardSource]
  exact hleaves

/-- Both orders succeed. -/
theorem books_and_notes_registered : ∃ s,
    registerResources Mutator.PlainDigest true [bookSpecification, noteSpecification]
      (.ofContents SharedFile.emptyContent) = .ok s ∧
    registerResources Mutator.PlainDigest true [noteSpecification, bookSpecification]
      (.ofContents SharedFile.emptyContent) = .ok s := by
  obtain ⟨s₁, hs₁⟩ := exists_registered_of_leaves List.mem_cons_self
    (List.mem_cons_of_mem _ List.mem_cons_self) (by decide) books_leave_notes.1
  obtain ⟨s₂, hs₂⟩ := exists_registered_of_leaves (List.mem_cons_of_mem _ List.mem_cons_self)
    List.mem_cons_self (by decide) books_leave_notes.2
  obtain rfl := resources_registered_in_any_order Mutator.PlainDigest.calculate_injective
    (List.Perm.swap _ _ _) (by decide) hs₁ hs₂
  exact ⟨s₁, hs₁, hs₂⟩

end Order

end Generator
end Hegira
