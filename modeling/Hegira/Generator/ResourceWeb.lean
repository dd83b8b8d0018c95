/-
# Web registrations of a resource

`tools/resource_generator/src/web.rs`: what `plan_resource_web` and
`plan_resource_web_minimal` refuse, and the entries that they insert in the sources of the
web application.  What a source becomes is its lines with lines added
(`Registered.of_managedFileEdit`), so a route stays registered.
-/

import Hegira.Generator.Localization
import Hegira.Library.LossyText
import Hegira.Mutator.RustEdits

namespace Hegira
namespace Generator

open Mutator (Bytes ContentDigest SourceLines StructuredEditError StructuredEditOutcome
  StructuredFileEdit observedLines planRustManagedEntry planRustModule textLines trim)

def webRoot : String := "apps/web/src/lib.rs"
def webRoutes : String := "apps/web/src/routes.rs"
def webNavigation : String := "apps/web/src/app/navigation.rs"
def webI18n : String := "apps/web/src/shared/i18n/mod.rs"
def webSidebar : String := "apps/web/src/app/sidebar.rs"
def webDashboard : String := "apps/web/src/dashboard.rs"
def serverSource : String := "apps/server/src/server.rs"

/-- `WebLayerSources`. -/
structure WebLayerSources where
  webRoot : Bytes
  routes : Bytes
  navigation : Bytes
  i18n : Bytes
  sidebar : Bytes
  serverSource : Bytes

/-- `MinimalWebLayerSources`. -/
structure MinimalWebLayerSources where
  webRoot : Bytes
  routes : Bytes
  dashboard : Bytes
  serverSource : Bytes

inductive WebLayerErrorKind where
  | unsupportedClient
  | structuredEdit
  | existingRegistration
  | routeConflict
  | localizationConflict
  | planning
  deriving DecidableEq, Repr

structure WebLayerError where
  kind : WebLayerErrorKind
  message : String
  deriving DecidableEq, Repr

/-! ### Entries -/

namespace ResourceSpecification

variable (specification : ResourceSpecification)

def nativeRouteRegistration : String :=
  "<Route path=StaticSegment(\"" ++ specification.names.routeSegment ++ "\") view=crate::" ++
    specification.names.rustModule ++ "::" ++ specification.names.pluralType ++ "Route/>"

def splitRouteRegistration : String :=
  "<Route path=StaticSegment(\"" ++ specification.names.routeSegment ++
    "\") view=\x7bLazy::<crate::" ++ specification.names.rustModule ++ "::" ++
    specification.names.pluralType ++ "LazyRoute>::new()\x7d/>"

def navigationIcon : String := specification.names.singularType ++ ","

def navigationItem : String :=
  "NavItem \x7b\n    key: \"" ++ specification.names.routeSegment ++ "\",\n    label: T::" ++
    specification.names.pluralType ++ ",\n    href: \"/" ++ specification.names.routeSegment ++
    "\",\n    icon: NavIcon::" ++ specification.names.singularType ++
    ",\n    permission: Some(permissions::PermissionName(app_application_contracts::" ++
    specification.names.rustModule ++ "::LIST_PERMISSION)),\n\x7d,"

def navigationTitle : String :=
  "\"/" ++ specification.names.routeSegment ++ "\" => T::" ++ specification.names.pluralType ++ ","

def navigationIconView : String :=
  "NavIcon::" ++ specification.names.singularType ++
    " => view! \x7b <span class=\"inline-grid size-4 place-items-center text-xs\" aria-hidden=\"true\">\"◆\"</span> \x7d.into_any(),"

def minimalNavigationItem : String :=
  "<identity_leptos::shared::authorization::PermissionGate permission=identity_leptos::identity_application_contracts::identity::permissions::PermissionName(app_application_contracts::" ++
    specification.names.rustModule ++ "::LIST_PERMISSION)>\n    <a href=\"/" ++
    specification.names.routeSegment ++ "\">\"" ++ humanizeType specification.names.pluralType ++
    "\"</a>\n</identity_leptos::shared::authorization::PermissionGate>"

def serverContext (minimal : Bool) : String :=
  "provide_context(app_web::" ++ specification.names.rustModule ++ "::" ++
    specification.names.singularType ++ "LeptosServices::new(" ++
    (if minimal then "identity_web.services()" else "services") ++ "." ++
    specification.names.rustModule ++ ".clone()));"

def localizationKeys : String :=
  "\n".intercalate ((localizationKeyNames specification).map (· ++ ","))

end ResourceSpecification

/-! ### Conflicts -/

/-- `str::contains`, for the lossy text of a source. -/
def sourceContains (source : Bytes) (text : String) : Bool :=
  FirstMatch.contains text.toList (LossyText.lossy source).toList

/-- The text that registers a route. -/
def routeProbe (route : String) : String := "StaticSegment(\"" ++ route ++ "\")"

def rejectRouteConflicts (specification : ResourceSpecification) (routes navigation : Bytes) :
    Except WebLayerError Unit :=
  let route := specification.names.routeSegment
  if sourceContains routes (routeProbe route)
      || sourceContains navigation ("href: \"/" ++ route ++ "\"")
      || sourceContains navigation ("key: \"" ++ route ++ "\"") then
    throw ⟨.routeConflict, "web route `/" ++ route ++ "` is already occupied"⟩
  else
    pure ()

/-- The loop over the keys.  A carriage return before a newline is trimmed with the line. -/
def rejectLocalizationConflicts (specification : ResourceSpecification) (i18n : Bytes) :
    Except WebLayerError Unit :=
  (localizationKeyNames specification).forM fun key =>
    if (textLines (LossyText.lossy i18n).toList).any (fun line =>
        decide (trim line = (key ++ ",").toList)) then
      throw ⟨.localizationConflict, "application localization key `" ++ key ++
        "` is already occupied"⟩
    else
      pure ()

/-! ### Plans -/

section Plans

variable (D : Type) [ContentDigest D] [DecidableEq D]

/-- `existing`. -/
def existingRegistration (module path : String) : WebLayerError :=
  ⟨.existingRegistration, "resource module `" ++ module ++ "` is already registered in `" ++ path ++
    "`"⟩

def structuredEditError (error : StructuredEditError) : WebLayerError :=
  ⟨.structuredEdit, error.message⟩

/-- The content of a planned edit. -/
def plannedContent (module path : String) :
    Except StructuredEditError (StructuredEditOutcome D) → Except WebLayerError Bytes
  | .ok (.planned _ edit) => .ok edit.content
  | .ok (.alreadyPresent _ _) => .error (existingRegistration module path)
  | .error error => .error (structuredEditError error)

/-- The entries inserted one after the other, each in its block. -/
def managedFileEdit (path : String) (observed : Bytes) (entries : List (String × String))
    (key : String) : Except WebLayerError Bytes := do
  let resulting ← entries.foldlM (fun resulting (block, entry) =>
    plannedContent D key path (planRustManagedEntry path resulting block key entry)) observed
  let edit ← (StructuredFileEdit.new (D := D) path observed resulting).mapError fun error =>
    ⟨.planning, error.message⟩
  return edit.content

/-- The client that the planners support. -/
def ensureLeptos (specification : ResourceSpecification) : Except WebLayerError Unit :=
  if specification.selection.client ≠ .leptos then
    throw ⟨.unsupportedClient,
      "the selected client does not support Leptos resource generation"⟩
  else
    pure ()

/-- `plan_resource_web`: what the plan makes of the sources.  It also creates the page. -/
def planResourceWeb (specification : ResourceSpecification) (sources : WebLayerSources) :
    Except WebLayerError WebLayerSources := do
  ensureLeptos specification
  rejectRouteConflicts specification sources.routes sources.navigation
  rejectLocalizationConflicts specification sources.i18n
  let module := specification.names.rustModule
  let root ← plannedContent D module webRoot (planRustModule webRoot sources.webRoot module)
  let routes ← managedFileEdit D webRoutes sources.routes
    [("resource-routes-native", specification.nativeRouteRegistration),
      ("resource-routes-split", specification.splitRouteRegistration)] module
  let navigation ← managedFileEdit D webNavigation sources.navigation
    [("nav-icons", specification.navigationIcon), ("nav-items", specification.navigationItem),
      ("nav-titles", specification.navigationTitle)] module
  let i18n ← managedFileEdit D webI18n sources.i18n
    [("resource-i18n-keys", specification.localizationKeys),
      ("resource-i18n-en", localization specification false),
      ("resource-i18n-tr", localization specification true)] module
  let sidebar ← managedFileEdit D webSidebar sources.sidebar
    [("nav-icon-views", specification.navigationIconView)] module
  let server ← managedFileEdit D serverSource sources.serverSource
    [("resource-leptos-contexts", specification.serverContext false)] module
  return ⟨root, routes, navigation, i18n, sidebar, server⟩

/-- `plan_resource_web_minimal`: what the plan makes of the sources. -/
def planResourceWebMinimal (specification : ResourceSpecification)
    (sources : MinimalWebLayerSources) : Except WebLayerError MinimalWebLayerSources := do
  ensureLeptos specification
  rejectRouteConflicts specification sources.routes sources.dashboard
  let module := specification.names.rustModule
  let root ← plannedContent D module webRoot (planRustModule webRoot sources.webRoot module)
  let routes ← managedFileEdit D webRoutes sources.routes
    [("resource-routes-native", specification.nativeRouteRegistration)] module
  let dashboard ← managedFileEdit D webDashboard sources.dashboard
    [("module-navigation", specification.minimalNavigationItem)] module
  let server ← managedFileEdit D serverSource sources.serverSource
    [("resource-leptos-contexts", specification.serverContext true)] module
  return ⟨root, routes, dashboard, server⟩

end Plans

/-! ### What stays registered -/

open Validation

/-- A text stands in a line of a source. -/
def Registered (source : Bytes) (text : List Char) : Prop :=
  ∃ source' lines, Mutator.fromUtf8 source = some source' ∧
    SourceLines.read source'.toList = some lines ∧ ∃ line ∈ lines.lines, text <:+: line

/-- A source contains what it has registered. -/
theorem Registered.contains {source : Bytes} {text : String} (h : Registered source text.toList)
    (htext : text.toList ≠ []) : sourceContains source text = true := by
  obtain ⟨source', lines, hutf8, hread, line, hline, hinfix⟩ := h
  have hlossy : LossyText.lossy source = source' := LossyText.lossy_of_fromUTF8? hutf8
  have hwrite := SourceLines.write_of_read hread
  rw [SourceLines.write] at hwrite
  rw [sourceContains, FirstMatch.contains_iff htext, hlossy, ← hwrite]
  exact hinfix.trans ((Mutator.infix_intercalate hline).trans (List.infix_append' [] _ _))

section Plans

variable {D : Type} [ContentDigest D] [DecidableEq D] {path key module : String}
  {observed content : Bytes}

omit [DecidableEq D] in
/-- A planned edit has a content. -/
theorem plannedContent_eq_ok {outcome : Except StructuredEditError (StructuredEditOutcome D)}
    (h : plannedContent D module path outcome = .ok content) :
    ∃ kind edit, outcome = .ok (.planned kind edit) ∧ edit.content = content := by
  match outcome, h with
  | .ok (.planned kind edit), h => exact ⟨kind, edit, rfl, Except.ok.inj h⟩

/-- An edit of a managed file is a loop over its entries. -/
theorem managedFileEdit_eq_ok {entries : List (String × String)}
    (h : managedFileEdit D path observed entries key = .ok content) :
    entries.foldlM (fun resulting (block, entry) =>
      plannedContent D key path (planRustManagedEntry path resulting block key entry)) observed =
      .ok content := by
  obtain ⟨resulting, hresulting, h⟩ := bind_eq_ok.1 h
  obtain ⟨edit, hedit, h⟩ := bind_eq_ok.1 h
  obtain ⟨path', -, hedit⟩ := bind_eq_ok.1 (mapError_eq_ok.1 hedit)
  obtain ⟨-, hedit⟩ := guarded_eq_ok.1 hedit
  obtain rfl := pure_eq_ok.1 hedit
  rw [hresulting, ← pure_eq_ok.1 h]

/-- An entry that is planned keeps what is registered, and registers its lines. -/
theorem Registered.of_planned {block entry : String}
    (h : plannedContent D module path (planRustManagedEntry path observed block key entry) =
      .ok content) :
    (∀ text, Registered observed text → Registered content text) ∧
      ∀ line ∈ textLines entry.toList, line ≠ [] → Registered content line := by
  obtain ⟨kind, edit, hplanned, rfl⟩ := plannedContent_eq_ok h
  obtain ⟨p, source, result, hsource, hresult, hkept, hentry⟩ :=
    Mutator.lines_of_planRustManagedEntry hplanned
  obtain ⟨text, hutf8, hread⟩ := Mutator.observedLines_eq_ok.1 hsource
  obtain ⟨text', hutf8', hread'⟩ := Mutator.observedLines_eq_ok.1 hresult
  constructor
  · rintro text₀ ⟨text₁, lines, hutf8₁, hread₁, line, hline, hinfix⟩
    obtain rfl := Option.some.inj (hutf8.symm.trans hutf8₁)
    obtain rfl := Option.some.inj (hread.symm.trans hread₁)
    exact ⟨text', result, hutf8', hread', line, hkept line hline, hinfix⟩
  · intro line hline hne
    obtain ⟨indentation, hmem⟩ := hentry line hline hne
    exact ⟨text', result, hutf8', hread', _, hmem, (List.suffix_append _ _).isInfix⟩

/-- Each of them is registered, and what was before stays so. -/
theorem Registered.of_foldlM {entries : List (String × String)}
    (h : entries.foldlM (fun resulting (block, entry) =>
      plannedContent D key path (planRustManagedEntry path resulting block key entry)) observed =
      .ok content) {text : List Char} (htext : Registered observed text) :
    Registered content text := by
  induction entries generalizing observed with
  | nil => exact Except.ok.inj h ▸ htext
  | cons entry entries ih =>
      obtain ⟨resulting, hresulting, hrest⟩ := foldlM_cons_eq_ok.1 h
      exact ih hrest ((Registered.of_planned hresulting).1 text htext)

/-- **The entries of a file keep what is registered in it**, and the first is registered. -/
theorem Registered.of_managedFileEdit {block entry : String} {entries : List (String × String)}
    (h : managedFileEdit D path observed ((block, entry) :: entries) key = .ok content) :
    (∀ text, Registered observed text → Registered content text) ∧
      ∀ line ∈ textLines entry.toList, line ≠ [] → Registered content line := by
  have hfold := managedFileEdit_eq_ok h
  obtain ⟨resulting, hresulting, hrest⟩ := foldlM_cons_eq_ok.1 hfold
  exact ⟨fun text htext => Registered.of_foldlM hfold htext,
    fun line hline hne => Registered.of_foldlM hrest
      ((Registered.of_planned hresulting).2 line hline hne)⟩

end Plans

end Generator
end Hegira
