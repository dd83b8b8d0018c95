/-
# Names of the resources of an application

`generate_resource` of `tools/hegira_cli/src/lib.rs`, run after run on one application: a
resource is resolved against the stems of the application's Rust sources, and its routes are
refused when the sources of the web application register them.

A generation leaves its module in the source roots and its route in the route source
(`Installed`), and both stay there; so the modules differ, and the routes, which have the
words of the tables and of the permissions (`joined_injective`).  Nothing compares the plural
name with what the framework installs, beyond the reserved identities
(`generated_resources_separate`).
-/

import Hegira.Generator.ResourceWeb

namespace Hegira
namespace Generator

open Mutator (Bytes ContentDigest SourceLines observedLines planRustModule trim)
open Std (TreeMap)
open Template (ApplicationManifest Parsers)

/-! ### Applications -/

/-- `installed_component_ids`, in order. -/
def installedComponentIds (manifest : ApplicationManifest) : List String :=
  match manifest.composition with
  | some composition =>
      ((composition.components.map fun component => component.id).insertionSort (· ≤ ·)).dedup
  | none => manifest.selection.components.sort (· ≤ ·)

/-- Whether the application has the minimal web client. -/
def minimalWeb (manifest : ApplicationManifest) : Bool :=
  decide (Template.layeredLeptosMinimalComponent ∈ installedComponentIds manifest)

/-- The sources of an application that a generation reads or changes. -/
structure ApplicationSources where
  /-- The names of the files of a source root. -/
  rustFiles : LayerOwner → List String
  web : WebLayerSources
  dashboard : Bytes

/-- The stem of a Rust source. -/
def rustStem (file : String) : Option String :=
  let stem := file.toList.take (file.toList.length - 3)
  if ".rs".toList.isSuffixOf file.toList && stem ≠ [] then some (String.ofList stem) else none

/-- `application_source_names`.  A name that is not UTF-8 is refused. -/
def applicationSourceNames (s : ApplicationSources) : List String :=
  ((((LayerOwner.all.flatMap s.rustFiles).filterMap rustStem).filter fun stem =>
    stem ≠ "lib" && stem ≠ "main").insertionSort (· ≤ ·)).dedup

/-! ### Generations -/

inductive ResourceError where
  | naming (error : NamingError)
  | specification (error : SpecificationError)
  | web (error : WebLayerError)
  | other (message : String)

/-- A `generate resource`, with what the planners of the other layers and the publication
answer to it: the server source that they plan, if they do not refuse. -/
structure ResourceCommand where
  input : ResourceSpecificationInput
  others : Except ResourceError Bytes

/-- The plural type of a command. -/
def ResourceCommand.pluralType (command : ResourceCommand) : String :=
  command.input.naming.pluralType.getD (command.input.naming.singularType ++ "s")

/-- The sources with the file of a resource in each layer. -/
def ApplicationSources.create (s : ApplicationSources) (names : LayeredArtifactNames) :
    LayerOwner → List String :=
  fun owner => (names.rustModule ++ ".rs") :: s.rustFiles owner

section Generation

variable (D : Type) [ContentDigest D] [DecidableEq D]

/-- The web planner of the composition. -/
def planWeb (minimal : Bool) (specification : ResourceSpecification) (server : Bytes)
    (s : ApplicationSources) : Except WebLayerError (WebLayerSources × Bytes) :=
  if minimal then do
    let sources ← planResourceWebMinimal D specification
      ⟨s.web.webRoot, s.web.routes, s.dashboard, server⟩
    return ({ s.web with
      webRoot := sources.webRoot, routes := sources.routes, serverSource := sources.serverSource },
      sources.dashboard)
  else do
    let sources ← planResourceWeb D specification { s.web with serverSource := server }
    return (sources, s.dashboard)

/-- `generate_resource`. -/
def generateResource (parsers : Parsers) (manifest : ApplicationManifest)
    (command : ResourceCommand) (s : ApplicationSources) :
    Except ResourceError (ResourceSpecification × ApplicationSources) := do
  (ensureSupported parsers manifest).mapError .specification
  let occupied ← (ArtifactNamespace.new manifest.application (installedComponentIds manifest)
    (applicationSourceNames s)).mapError .naming
  let _ ← (LayeredArtifactNames.resolve command.input.naming occupied).mapError .naming
  let specification ← (ResourceSpecification.resolve parsers command.input occupied
    manifest).mapError .specification
  let server ← command.others
  let (web, dashboard) ← (planWeb D (minimalWeb manifest) specification server s).mapError .web
  return (specification, ⟨s.create specification.names, web, dashboard⟩)

/-- The generations that are accepted one after the other. -/
def generateResources (parsers : Parsers) (manifest : ApplicationManifest) :
    List ResourceCommand → ApplicationSources →
      Except ResourceError (List ResourceSpecification × ApplicationSources)
  | [], s => .ok ([], s)
  | command :: commands, s => do
      let (specification, s) ← generateResource D parsers manifest command s
      let (specifications, s) ← generateResources parsers manifest commands s
      return (specification :: specifications, s)

end Generation

/-! ### What the framework installs -/

/-- The tables that the migrations of the composition create and keep, in the one database or
the other: `AUTOINCREMENT` brings `sqlite_sequence`. -/
def frameworkTables (minimal : Bool) : List String :=
  ["_sqlx_migrations", "sqlite_sequence", "users", "sessions", "roles", "permissions",
    "user_roles", "role_permissions", "oauth_states", "user_oauth_connections",
    "oauth_pending_signups"] ++
    if minimal then ["application_metadata"]
    else ["audit_logs", "app_settings", "outbox_messages", "inbox_messages",
      "search_projection_versions"]

/-- The paths that the hosts and the identity module serve; the routes of the document come with
the bearer routes of the identity module, whichever composition installs it. -/
def frameworkRoutes (minimal : Bool) : List String :=
  ["/", "/login", "/register", "/profile", "/admin/roles", "/admin/users", "/dashboard",
    "/healthz", "/readyz", "/api/identity", "/api/application", "/api-docs/openapi.json",
    "/swagger-ui", "/swagger-ui/"] ++
    if minimal then [] else ["/metrics"]

def frameworkPermissions : List String :=
  ["Identity.Users", "Identity.Users.Create", "Identity.Users.Update", "Identity.Users.Delete",
    "Identity.Authorization"]

/-- The words of the tables and of the paths of one segment. -/
def frameworkWords (minimal : Bool) : List (List String) :=
  [["users"], ["sessions"], ["roles"], ["permissions"], ["user", "roles"], ["role", "permissions"],
    ["oauth", "states"], ["user", "oauth", "connections"], ["oauth", "pending", "signups"],
    ["sqlite", "sequence"], ["login"], ["register"], ["profile"], ["dashboard"], ["healthz"],
    ["readyz"], ["swagger", "ui"]] ++
    if minimal then [["application", "metadata"]]
    else [["audit", "logs"], ["app", "settings"], ["outbox", "messages"], ["inbox", "messages"],
      ["search", "projection", "versions"], ["metrics"]]

/-- A type whose words are those of something that the framework installs. -/
def FrameworkType (minimal : Bool) (value : String) : Prop :=
  (splitWords [] none value.toList).map String.ofList ∈ frameworkWords minimal

instance (minimal : Bool) (value : String) : Decidable (FrameworkType minimal value) :=
  inferInstanceAs (Decidable (_ ∈ _))

namespace LayeredArtifactNames

/-- The path of the page of a resource. -/
def webPath (names : LayeredArtifactNames) : String := "/" ++ names.routeSegment

/-- Names of two resources that do not collide. -/
structure Separate (a b : LayeredArtifactNames) : Prop where
  module : a.rustModule ≠ b.rustModule
  table : a.databaseTable ≠ b.databaseTable
  api : a.routePath ≠ b.routePath
  web : a.webPath ≠ b.webPath
  permission : ∀ action action', a.permission action ≠ b.permission action'

/-- Names that the framework does not install. -/
structure FrameworkFree (minimal : Bool) (names : LayeredArtifactNames) : Prop where
  table : names.databaseTable ∉ frameworkTables minimal
  api : names.routePath ∉ frameworkRoutes minimal
  web : names.webPath ∉ frameworkRoutes minimal
  permission : ∀ action, names.permission action ∉ frameworkPermissions

end LayeredArtifactNames

/-! ### Words -/

open Validation

/-- A character of the words of a type. -/
def Letter (c : Char) : Prop := c.isAlphanum = true ∧ c.toLower = c

/-- A lower-cased alphanumeric is a letter. -/
theorem letter_toLower {c : Char} (h : c.isAlphanum = true) : Letter c.toLower := by
  have hlt : c.toNat < 128 := by
    simp only [Char.isAlphanum, Char.isAlpha, Char.isUpper, Char.isLower, Char.isDigit,
      Bool.or_eq_true, Bool.and_eq_true, decide_eq_true_eq, UInt32.le_iff_toNat_le, ge_iff_le] at h
    have hval : c.toNat = c.val.toNat := rfl
    rcases h with (h | h) | h
    all_goals
      have hhigh := h.2
      rw [← hval] at hhigh
      exact hhigh.trans_lt (by decide)
  have hall : ∀ n < 128, (Char.ofNat n).isAlphanum = true →
      (Char.ofNat n).toLower.isAlphanum = true ∧
        (Char.ofNat n).toLower.toLower = (Char.ofNat n).toLower := by decide
  have hc := hall c.toNat hlt
  rw [Char.ofNat_toNat] at hc
  exact hc h

/-- No separator is a letter. -/
theorem Letter.ne {c d : Char} (h : Letter c) (hd : d.isAlphanum = false) : c ≠ d := by
  rintro rfl
  exact nomatch hd.symm.trans h.1

/-- Words of letters. -/
def Letters (words : List (List Char)) : Prop := ∀ word ∈ words, ∀ c ∈ word, Letter c

/-- No word of letters contains a separator. -/
theorem Letters.notMem {words : List (List Char)} (h : Letters words) {d : Char}
    (hd : d.isAlphanum = false) : ∀ word ∈ words, d ∉ word :=
  fun word hword hmem => (h word hword d hmem).ne hd rfl

/-- A valid type is made of letters. -/
theorem ValidType.letters {value : String} {words : List (List Char)} (h : ValidType value words) :
    Letters words := by
  intro word hword c hc
  have hflat : c ∈ words.flatten := List.mem_flatten.2 ⟨word, hword, hc⟩
  rw [← h.split, flatten_splitWords, List.nil_append, List.mem_map] at hflat
  obtain ⟨d, hd, rfl⟩ := hflat
  exact letter_toLower (h.alphanumeric d hd)

/-- A joined name, as characters. -/
theorem joined_toList (separator : String) (words : List (List Char)) :
    (joined separator words).toList = separator.toList.intercalate words := by
  rw [joined, String.toList_intercalate, List.map_map]
  simp [Function.comp_def]

/-- **Words are read back from their names.** -/
theorem joined_injective {separator : String} {d : Char} (hseparator : separator.toList = [d])
    (hd : d.isAlphanum = false) {words words' : List (List Char)} (h : Letters words)
    (h' : Letters words') (hne : words ≠ []) (hne' : words' ≠ [])
    (heq : joined separator words = joined separator words') : words = words' := by
  have hlist := congrArg String.toList heq
  rw [joined_toList, joined_toList, hseparator] at hlist
  rw [← List.splitOn_intercalate d (h.notMem hd) hne, hlist,
    List.splitOn_intercalate d (h'.notMem hd) hne']

/-- Filtering out the separators leaves the words. -/
theorem filter_intercalate {p : Char → Bool} {separator : List Char} {words : List (List Char)}
    (hseparator : separator.filter p = []) (hwords : ∀ word ∈ words, word.filter p = word) :
    (separator.intercalate words).filter p = words.flatten := by
  induction words with
  | nil => rfl
  | cons word words ih =>
      obtain ⟨hword, hwords⟩ := List.forall_mem_cons.1 hwords
      cases words with
      | nil => simp [hword]
      | cons next words =>
          rw [List.intercalate_cons_cons, List.filter_append, List.filter_append, hseparator, hword,
            ih hwords, List.append_nil, ← List.flatten_cons]

/-- The canonical form of a name is its words. -/
theorem canonical_joined {separator : String}
    (hseparator : separator.toList.filter Char.isAlphanum = []) {words : List (List Char)}
    (h : Letters words) :
    ((joined separator words).toList.filter Char.isAlphanum).map Char.toLower = words.flatten := by
  rw [joined_toList, filter_intercalate hseparator fun word hword =>
    List.filter_eq_self.2 fun c hc => (h word hword c hc).1]
  refine (List.map_congr_left fun c hc => ?_).trans (List.map_id _)
  obtain ⟨word, hword, hmem⟩ := List.mem_flatten.1 hc
  exact (h word hword c hmem).2

/-! ### What a name is resolved against -/

/-- The canonical form of a name. -/
def canonicalForm (value : String) : String :=
  String.ofList ((value.toList.filter Char.isAlphanum).map Char.toLower)

/-- An occupied name that is accepted is in its canonical form. -/
theorem canonicalOccupiedName_eq_ok {value canonical : String}
    (h : canonicalOccupiedName value = .ok canonical) : canonical = canonicalForm value := by
  unfold canonicalOccupiedName at h
  obtain ⟨-, h⟩ := guarded_eq_ok.1 h
  obtain ⟨-, h⟩ := guarded_eq_ok.1 h
  obtain ⟨-, h⟩ := guarded_eq_ok.1 h
  exact (pure_eq_ok.1 h).symm

/-- Every name given to the loop is occupied after it. -/
theorem mem_foldl_insertIfNew {owner : OccupiedNameOwner} {names : List String}
    {occupied : ArtifactNamespace} {name : String} (h : name ∈ occupied ∨ name ∈ names) :
    name ∈ names.foldl (fun occupied name => occupied.insertIfNew name owner) occupied := by
  induction names generalizing occupied with
  | nil => simpa using h
  | cons first names ih =>
      refine ih ?_
      rw [List.mem_cons] at h
      rcases h with h | rfl | h
      · exact .inl (TreeMap.mem_insertIfNew.2 (.inr h))
      · exact .inl TreeMap.mem_insertIfNew_self
      · exact .inr h

/-- The names that are found in the sources are occupied. -/
theorem mem_of_new {application : String} {modules sources : List String}
    {occupied : ArtifactNamespace} (h : ArtifactNamespace.new application modules sources =
      .ok occupied) {name : String} (hname : name ∈ sources) :
    canonicalForm name ∈ occupied := by
  obtain ⟨first, -, h⟩ := bind_eq_ok.1 h
  obtain ⟨second, -, h⟩ := bind_eq_ok.1 h
  obtain ⟨names, hnames, h⟩ := bind_eq_ok.1 h
  obtain rfl := pure_eq_ok.1 h
  have hmap : sources.mapM canonicalOccupiedName = .ok (sources.map canonicalForm) :=
    mapM_eq_ok_map fun source hsource => by
      obtain ⟨canonical, hcanonical⟩ := exists_of_mapM_eq_ok hnames hsource
      rw [hcanonical, canonicalOccupiedName_eq_ok hcanonical]
  obtain rfl := Except.ok.inj (hnames.symm.trans hmap)
  exact mem_foldl_insertIfNew (.inr (List.mem_map_of_mem hname))

/-- What is checked of a name. -/
structure Checked (input : LayeredNamingInput) (occupied : ArtifactNamespace)
    (names : LayeredArtifactNames) (singular plural : List (List Char)) : Prop where
  singularType : ValidType input.singularType singular
  pluralType : ValidType (input.pluralType.getD (input.singularType ++ "s")) plural
  pluralName : names.pluralType = input.pluralType.getD (input.singularType ++ "s")
  rustModule : names.rustModule = joined "_" singular
  databaseTable : names.databaseTable = joined "_" plural
  tableStart : names.databaseTable.toList.head? ≠ some '_'
  routeSegment : names.routeSegment = joined "-" plural
  permissionPrefix : names.permissionPrefix = joined "-" plural
  singularReserved : joined "" singular ∉ reservedIdentities
  pluralReserved : joined "" plural ∉ reservedIdentities
  free : joined "" singular ∉ occupied

/-- An accepted identity is neither reserved nor occupied. -/
theorem notMem_of_rejectReservedOrOccupied {identity : String} {occupied : ArtifactNamespace}
    (h : rejectReservedOrOccupied identity occupied = .ok ()) :
    identity ∉ reservedIdentities ∧ identity ∉ occupied := by
  unfold rejectReservedOrOccupied at h
  obtain ⟨hreserved, h⟩ := guarded_eq_ok.1 h
  refine ⟨hreserved, fun hmem => ?_⟩
  rw [TreeMap.mem_iff_isSome_getElem?, Option.isSome_iff_exists] at hmem
  obtain ⟨owner, howner⟩ := hmem
  rw [howner] at h
  cases h

/-- Names that resolve have passed every check. -/
theorem checked_of_resolve {input : LayeredNamingInput} {occupied : ArtifactNamespace}
    {names : LayeredArtifactNames} (h : LayeredArtifactNames.resolve input occupied = .ok names) :
    ∃ singular plural, Checked input occupied names singular plural := by
  unfold LayeredArtifactNames.resolve at h
  obtain ⟨singular, hsingular, h⟩ := bind_eq_ok.1 h
  obtain ⟨plural, hplural, h⟩ := bind_eq_ok.1 h
  obtain ⟨-, h⟩ := guarded_eq_ok.1 h
  obtain ⟨⟨⟩, hfree, h⟩ := bind_eq_ok.1 h
  obtain ⟨⟨⟩, hreserved, h⟩ := bind_eq_ok.1 h
  obtain ⟨-, -, h⟩ := bind_eq_ok.1 h
  obtain ⟨-, -, h⟩ := bind_eq_ok.1 h
  obtain ⟨⟨⟩, htable, h⟩ := bind_eq_ok.1 h
  obtain ⟨-, -, h⟩ := bind_eq_ok.1 h
  obtain ⟨artifacts, -, h⟩ := bind_eq_ok.1 h
  obtain rfl := pure_eq_ok.1 h
  have htable := guard_eq_ok.1 htable
  simp only [Bool.not_eq_true', Bool.not_eq_false, Bool.and_eq_true, decide_eq_true_eq] at htable
  exact ⟨singular, plural, validateRustType_eq_ok.1 hsingular, validateRustType_eq_ok.1 hplural,
    rfl, rfl, rfl, htable.1.1.2, rfl, rfl, (notMem_of_rejectReservedOrOccupied hfree).1,
    (notMem_of_rejectReservedOrOccupied hreserved).1, (notMem_of_rejectReservedOrOccupied hfree).2⟩

/-- A valid type has a letter. -/
theorem ValidType.flatten_ne_nil {value : String} {words : List (List Char)}
    (h : ValidType value words) : words.flatten ≠ [] := by
  rw [← h.split, flatten_splitWords, List.nil_append, ne_eq, List.map_eq_nil_iff]
  exact fun hnil => h.nonempty (String.toList_eq_nil_iff.1 hnil)

theorem ValidType.ne_nil {value : String} {words : List (List Char)} (h : ValidType value words) :
    words ≠ [] := by
  rintro rfl
  exact h.flatten_ne_nil rfl

/-- The separators do not matter to the canonical form. -/
theorem canonicalForm_joined {separator : String}
    (hseparator : separator.toList.filter Char.isAlphanum = []) {words : List (List Char)}
    (h : Letters words) : canonicalForm (joined separator words) = joined "" words := by
  rw [canonicalForm, canonical_joined hseparator h, joined_empty]

/-! ### One generation -/

/-- The stem of a Rust file. -/
theorem rustStem_append {stem : String} (h : stem ≠ "") : rustStem (stem ++ ".rs") = some stem := by
  have hne : stem.toList ≠ [] := fun hnil => h (String.toList_eq_nil_iff.1 hnil)
  have hrs : ".rs".toList.length = 3 := rfl
  have htake : (stem ++ ".rs").toList.take ((stem ++ ".rs").toList.length - 3) = stem.toList := by
    rw [String.toList_append, List.length_append, hrs, Nat.add_sub_cancel, List.take_left]
  have hsuffix : ".rs".toList.isSuffixOf (stem ++ ".rs").toList = true := by
    rw [List.isSuffixOf_iff_suffix, String.toList_append]
    exact List.suffix_append _ _
  simp only [rustStem, htake, hsuffix, Bool.true_and]
  rw [if_pos (by simpa using hne), String.ofList_toList]

/-- The files and the route of a resource are in the sources. -/
structure Installed (s : ApplicationSources) (names : LayeredArtifactNames) : Prop where
  module : ∀ owner, names.rustModule ++ ".rs" ∈ s.rustFiles owner
  route : Registered s.web.routes (routeProbe names.routeSegment).toList

/-- Names are found in the sources that they are installed in. -/
theorem Installed.mem_sourceNames {s : ApplicationSources} {input : LayeredNamingInput}
    {occupied : ArtifactNamespace} {names : LayeredArtifactNames} {singular plural : List (List Char)}
    (h : Installed s names) (hchecked : Checked input occupied names singular plural) :
    names.rustModule ∈ applicationSourceNames s := by
  have hcanonical : canonicalForm names.rustModule = joined "" singular := by
    rw [hchecked.rustModule]
    exact canonicalForm_joined rfl hchecked.singularType.letters
  have hne : names.rustModule ≠ "" := by
    intro heq
    rw [heq, joined_empty] at hcanonical
    exact hchecked.singularType.flatten_ne_nil (String.ofList_inj.1 hcanonical).symm
  have hreserved : ∀ name, canonicalForm name ∈ reservedIdentities → names.rustModule ≠ name := by
    rintro name hname rfl
    exact hchecked.singularReserved (hcanonical ▸ hname)
  rw [applicationSourceNames, List.mem_dedup, List.mem_insertionSort, List.mem_filter,
    List.mem_filterMap]
  refine ⟨⟨_, List.mem_flatMap.2 ⟨.domain, List.mem_cons_self, h.module .domain⟩,
    rustStem_append hne⟩, ?_⟩
  simp [hreserved "lib" (by decide), hreserved "main" (by decide)]

/-- What is in no word and in no separator is not in the joined name. -/
theorem notMem_joined {separator : String} {words : List (List Char)} (h : Letters words) (d : Char)
    (hd : d.isAlphanum = false) (hseparator : d ∉ separator.toList) :
    d ∉ (joined separator words).toList := by
  rw [joined_toList]
  intro hmem
  rcases Mutator.mem_of_mem_intercalate hmem with hmem | ⟨word, hword, hmem⟩
  · exact hseparator hmem
  · exact h.notMem hd word hword hmem

/-- A text without a line break is one line. -/
theorem textLines_of_notMem {text : List Char} (hne : text ≠ []) (h : '\n' ∉ text) :
    Mutator.textLines text = [text] := by
  have hlast : text.getLast? ≠ some '\n' := fun hlast => h (List.mem_of_getLast? hlast)
  rw [Mutator.textLines, if_neg hne, if_neg hlast, List.splitOn_eq_singleton h]

/-- A route registration is not empty. -/
theorem nativeRouteRegistration_ne_nil (specification : ResourceSpecification) :
    specification.nativeRouteRegistration.toList ≠ [] := by
  unfold ResourceSpecification.nativeRouteRegistration
  rw [String.toList_append]
  have hlast : "Route/>".toList ≠ [] := by simp
  exact List.append_ne_nil_of_right_ne_nil _ hlast

/-- The registration of a route is one line. -/
theorem textLines_nativeRouteRegistration {specification : ResourceSpecification}
    {input : LayeredNamingInput} {occupied : ArtifactNamespace} {singular plural : List (List Char)}
    (h : Checked input occupied specification.names singular plural) :
    Mutator.textLines specification.nativeRouteRegistration.toList =
      [specification.nativeRouteRegistration.toList] := by
  have hmodule : '\n' ∉ specification.names.rustModule.toList := by
    rw [h.rustModule]
    exact notMem_joined h.singularType.letters _ rfl (by decide)
  have hroute : '\n' ∉ specification.names.routeSegment.toList := by
    rw [h.routeSegment]
    exact notMem_joined h.pluralType.letters _ rfl (by decide)
  have hplural : '\n' ∉ specification.names.pluralType.toList := by
    rw [h.pluralName]
    exact fun hmem => nomatch h.pluralType.alphanumeric _ hmem
  refine textLines_of_notMem (nativeRouteRegistration_ne_nil specification) ?_
  unfold ResourceSpecification.nativeRouteRegistration
  simp only [String.toList_append, List.mem_append, not_or]
  exact ⟨⟨⟨⟨⟨⟨by decide, hroute⟩, by decide⟩, hmodule⟩, by decide⟩, hplural⟩, by decide⟩

/-- A registered route contains its own probe. -/
theorem probe_in_registration (specification : ResourceSpecification) :
    (routeProbe specification.names.routeSegment).toList <:+:
      specification.nativeRouteRegistration.toList := by
  have hregistration : specification.nativeRouteRegistration = "<Route path=" ++
      routeProbe specification.names.routeSegment ++ (" view=crate::" ++
        specification.names.rustModule ++ "::" ++ specification.names.pluralType ++ "Route/>") := by
    have hfirst : "<Route path=StaticSegment(\"" = "<Route path=" ++ "StaticSegment(\"" := rfl
    have hlast : "\") view=crate::" = "\")" ++ " view=crate::" := rfl
    unfold ResourceSpecification.nativeRouteRegistration routeProbe
    rw [hfirst, hlast]
    simp only [String.append_assoc]
  have hfront : ("<Route path=" ++ routeProbe specification.names.routeSegment).toList =
      "<Route path=".toList ++ (routeProbe specification.names.routeSegment).toList :=
    String.toList_append
  rw [hregistration, String.toList_append, hfront]
  exact List.infix_append _ _ _

/-- Sources without a conflict contain none of the probes. -/
theorem not_sourceContains {specification : ResourceSpecification} {routes navigation : Bytes}
    (h : rejectRouteConflicts specification routes navigation = .ok ()) :
    sourceContains routes (routeProbe specification.names.routeSegment) = false := by
  unfold rejectRouteConflicts at h
  have hguard := guard_eq_ok.1 h
  simp only [Bool.or_eq_true, not_or, Bool.not_eq_true] at hguard
  exact hguard.1.1

section Steps

variable {D : Type} [ContentDigest D] [DecidableEq D]

/-- The planners refuse a route that is registered, and register it. -/
theorem registered_of_planWeb {minimal : Bool} {specification : ResourceSpecification}
    {server dashboard : Bytes} {s : ApplicationSources} {web : WebLayerSources}
    (h : planWeb D minimal specification server s = .ok (web, dashboard)) :
    sourceContains s.web.routes (routeProbe specification.names.routeSegment) = false ∧
      (∀ text, Registered s.web.routes text → Registered web.routes text) ∧
      ∀ line ∈ Mutator.textLines specification.nativeRouteRegistration.toList, line ≠ [] →
        Registered web.routes line := by
  unfold planWeb at h
  split at h
  · obtain ⟨sources, hsources, h⟩ := bind_eq_ok.1 h
    obtain ⟨rfl, -⟩ := Prod.mk.inj (pure_eq_ok.1 h)
    unfold planResourceWebMinimal at hsources
    obtain ⟨-, -, hsources⟩ := bind_eq_ok.1 hsources
    obtain ⟨⟨⟩, hfree, hsources⟩ := bind_eq_ok.1 hsources
    obtain ⟨root, -, hsources⟩ := bind_eq_ok.1 hsources
    obtain ⟨routes, hroutes, hsources⟩ := bind_eq_ok.1 hsources
    obtain ⟨dashboard, -, hsources⟩ := bind_eq_ok.1 hsources
    obtain ⟨server, -, hsources⟩ := bind_eq_ok.1 hsources
    obtain rfl := pure_eq_ok.1 hsources
    exact ⟨not_sourceContains hfree, Registered.of_managedFileEdit hroutes⟩
  · obtain ⟨sources, hsources, h⟩ := bind_eq_ok.1 h
    obtain ⟨rfl, -⟩ := Prod.mk.inj (pure_eq_ok.1 h)
    unfold planResourceWeb at hsources
    obtain ⟨-, -, hsources⟩ := bind_eq_ok.1 hsources
    obtain ⟨⟨⟩, hfree, hsources⟩ := bind_eq_ok.1 hsources
    obtain ⟨-, -, hsources⟩ := bind_eq_ok.1 hsources
    obtain ⟨root, -, hsources⟩ := bind_eq_ok.1 hsources
    obtain ⟨routes, hroutes, hsources⟩ := bind_eq_ok.1 hsources
    obtain ⟨navigation, -, hsources⟩ := bind_eq_ok.1 hsources
    obtain ⟨i18n, -, hsources⟩ := bind_eq_ok.1 hsources
    obtain ⟨sidebar, -, hsources⟩ := bind_eq_ok.1 hsources
    obtain ⟨server, -, hsources⟩ := bind_eq_ok.1 hsources
    obtain rfl := pure_eq_ok.1 hsources
    exact ⟨not_sourceContains hfree, Registered.of_managedFileEdit hroutes⟩

variable {parsers : Parsers} {manifest : ApplicationManifest}

/-- **A generation.**  The names are checked against what is found in the sources; the
resource is installed, and what was installed stays so. -/
theorem generateResource_eq_ok {command : ResourceCommand} {s s' : ApplicationSources}
    {specification : ResourceSpecification}
    (h : generateResource D parsers manifest command s = .ok (specification, s')) :
    (∃ occupied singular plural, (∀ name ∈ applicationSourceNames s, canonicalForm name ∈ occupied) ∧
      Checked command.input.naming occupied specification.names singular plural) ∧
    sourceContains s.web.routes (routeProbe specification.names.routeSegment) = false ∧
    (∀ names, Installed s names → Installed s' names) ∧ Installed s' specification.names := by
  unfold generateResource at h
  obtain ⟨-, -, h⟩ := bind_eq_ok.1 h
  obtain ⟨occupied, hoccupied, h⟩ := bind_eq_ok.1 h
  obtain ⟨-, -, h⟩ := bind_eq_ok.1 h
  obtain ⟨resolved, hresolved, h⟩ := bind_eq_ok.1 h
  obtain ⟨server, -, h⟩ := bind_eq_ok.1 h
  obtain ⟨⟨web, dashboard⟩, hweb, h⟩ := bind_eq_ok.1 h
  obtain ⟨rfl, rfl⟩ := Prod.mk.inj (pure_eq_ok.1 h)
  unfold ResourceSpecification.resolve at hresolved
  obtain ⟨-, -, hresolved⟩ := bind_eq_ok.1 (mapError_eq_ok.1 hresolved)
  obtain ⟨selection, -, hresolved⟩ := bind_eq_ok.1 hresolved
  obtain ⟨names, hnames, hresolved⟩ := bind_eq_ok.1 hresolved
  obtain ⟨fields, -, hresolved⟩ := bind_eq_ok.1 hresolved
  obtain rfl := pure_eq_ok.1 hresolved
  obtain ⟨singular, plural, hchecked⟩ := checked_of_resolve (mapError_eq_ok.1 hnames)
  obtain ⟨hfree, hkept, hnew⟩ := registered_of_planWeb (mapError_eq_ok.1 hweb)
  have hline := textLines_nativeRouteRegistration
    (show Checked command.input.naming occupied (ResourceSpecification.names ⟨names, selection, fields⟩)
      singular plural from hchecked)
  refine ⟨⟨occupied, singular, plural, fun name hname => mem_of_new (mapError_eq_ok.1 hoccupied) hname,
    hchecked⟩, hfree, fun old hold => ⟨fun owner => List.mem_cons_of_mem _ (hold.module owner),
      hkept _ hold.route⟩, fun owner => List.mem_cons_self, ?_⟩
  rw [hline] at hnew
  obtain ⟨text, lines, hutf8, hread, line, hmem, hinfix⟩ := hnew _ (List.mem_singleton_self _)
    (nativeRouteRegistration_ne_nil _)
  exact ⟨text, lines, hutf8, hread, line, hmem, (probe_in_registration _).trans hinfix⟩

end Steps

/-! ### Names of two resources -/

section Names

variable {input input' : LayeredNamingInput} {occupied occupied' : ArtifactNamespace}
  {names names' : LayeredArtifactNames} {singular plural singular' plural' : List (List Char)}

/-- A text before a dot without dots is read back. -/
theorem eq_of_append_dot {a b a' b' : List Char} (ha : '.' ∉ a) (hb : '.' ∉ b)
    (h : a ++ '.' :: a' = b ++ '.' :: b') : a = b := by
  have htake : ∀ {front rest : List Char}, '.' ∉ front →
      (front ++ '.' :: rest).takeWhile (· != '.') = front := by
    intro front rest hfront
    have hpos : ∀ c ∈ front, (c != '.') = true := by
      rintro c hc
      exact bne_iff_ne.2 fun heq => hfront (heq ▸ hc)
    rw [List.takeWhile_append_of_pos hpos]
    simp
  rw [← @htake a a' ha, h, htake hb]

/-- Resources of different routes have different tables and permissions. -/
theorem separate_of_routeSegment (h : Checked input occupied names singular plural)
    (h' : Checked input' occupied' names' singular' plural')
    (hmodule : names.rustModule ≠ names'.rustModule)
    (hroute : names.routeSegment ≠ names'.routeSegment) : names.Separate names' := by
  refine ⟨hmodule, fun htable => hroute ?_, fun hapi => hroute ?_, fun hweb => hroute ?_,
    fun action action' hpermission => hroute ?_⟩
  · rw [h.databaseTable, h'.databaseTable] at htable
    rw [h.routeSegment, h'.routeSegment, joined_injective rfl rfl h.pluralType.letters
      h'.pluralType.letters h.pluralType.ne_nil h'.pluralType.ne_nil htable]
  · exact String.append_right_inj _ |>.1 hapi
  · exact String.append_right_inj _ |>.1 hweb
  · have hdot : '.' ∉ names.permissionPrefix.toList := by
      rw [h.permissionPrefix]
      exact notMem_joined h.pluralType.letters _ rfl (by decide)
    have hdot' : '.' ∉ names'.permissionPrefix.toList := by
      rw [h'.permissionPrefix]
      exact notMem_joined h'.pluralType.letters _ rfl (by decide)
    have hlist := congrArg String.toList hpermission
    simp only [LayeredArtifactNames.permission, String.toList_append, List.append_assoc] at hlist
    have hsame := String.toList_inj.1 (eq_of_append_dot hdot hdot' hlist)
    rw [h.routeSegment, h'.routeSegment, ← h.permissionPrefix, ← h'.permissionPrefix, hsame]

/-- The words are those of the tables and of the paths of one segment. -/
theorem frameworkWords_spec (minimal : Bool) :
    (∀ words ∈ frameworkWords minimal, "_".intercalate words ∈ frameworkTables minimal ∨
      "/" ++ "-".intercalate words ∈ frameworkRoutes minimal) ∧
    (∀ table ∈ frameworkTables minimal, table.toList.head? = some '_' ∨
      ∃ words ∈ frameworkWords minimal, table = "_".intercalate words) ∧
    ∀ route ∈ frameworkRoutes minimal, '/' ∈ route.toList.drop 1 ∨ route = "/" ∨
      ∃ words ∈ frameworkWords minimal, route = "/" ++ "-".intercalate words := by
  cases minimal <;> decide +kernel

/-- The framework's words are of lower-case letters. -/
theorem frameworkWords_letters (minimal : Bool) : ∀ words ∈ frameworkWords minimal, words ≠ [] ∧
    ∀ word ∈ words, ∀ c ∈ word.toList, c.isAlphanum = true ∧ c.toLower = c := by
  have hall : ((frameworkWords minimal).all fun words => !words.isEmpty && words.all fun word =>
      word.toList.all fun c => c.isAlphanum && c.toLower == c) = true := by
    cases minimal <;> decide +kernel
  simpa [List.all_eq_true] using hall

/-- The paths under the prefix of the resources belong to reserved identities. -/
theorem frameworkRoutes_api (minimal : Bool) : ∀ route ∈ frameworkRoutes minimal,
    "/api/".toList.isPrefixOf route.toList = true →
      canonicalForm (String.ofList (route.toList.drop 5)) ∈ reservedIdentities := by
  cases minimal <;> decide +kernel

/-- A joined plural is a framework name when its words are the framework's. -/
theorem mem_frameworkWords {separator : String} {d : Char} {minimal : Bool} {words : List String}
    (hseparator : separator.toList = [d]) (hd : d.isAlphanum = false) (hplural : Letters plural)
    (hne : plural ≠ []) (hwords : words ∈ frameworkWords minimal)
    (heq : joined separator plural = separator.intercalate words) :
    plural.map String.ofList ∈ frameworkWords minimal := by
  obtain ⟨hne', hletters⟩ := frameworkWords_letters minimal words hwords
  have hback : (words.map String.toList).map String.ofList = words := by
    rw [List.map_map]
    exact (List.map_congr_left fun word _ => String.ofList_toList).trans (List.map_id _)
  have hjoined : joined separator plural = joined separator (words.map String.toList) := by
    rw [heq, joined, hback]
  have hlist : Letters (words.map String.toList) := by
    intro word hword c hc
    obtain ⟨text, htext, rfl⟩ := List.mem_map.1 hword
    exact hletters text htext c hc
  rw [joined_injective hseparator hd hplural hlist hne (by simpa using hne') hjoined, hback]
  exact hwords

/-- **A resource is free of the framework unless its plural has the words of it.** -/
theorem frameworkFree_iff {minimal : Bool} (h : Checked input occupied names singular plural) :
    names.FrameworkFree minimal ↔ plural.map String.ofList ∉ frameworkWords minimal := by
  obtain ⟨hwords, htables, hroutes⟩ := frameworkWords_spec minimal
  constructor
  · intro hfree hmem
    rcases hwords _ hmem with htable | hroute
    · exact hfree.table (h.databaseTable ▸ htable)
    · refine hfree.web ?_
      rw [LayeredArtifactNames.webPath, h.routeSegment]
      exact hroute
  · intro hnot
    refine ⟨fun htable => ?_, fun hapi => ?_, fun hweb => ?_, fun action hpermission => ?_⟩
    · rcases htables _ htable with hstart | ⟨words, hmem, heq⟩
      · exact h.tableStart hstart
      · exact hnot (mem_frameworkWords rfl rfl h.pluralType.letters h.pluralType.ne_nil hmem
          (h.databaseTable ▸ heq))
    · have hreserved := frameworkRoutes_api minimal _ hapi (by
        rw [LayeredArtifactNames.routePath, List.isPrefixOf_iff_prefix, String.toList_append]
        exact List.prefix_append _ _)
      have hdrop : names.routePath.toList.drop 5 = names.routeSegment.toList := by
        rw [LayeredArtifactNames.routePath, String.toList_append]
        exact List.drop_left' rfl
      rw [hdrop, String.ofList_toList, h.routeSegment,
        canonicalForm_joined rfl h.pluralType.letters] at hreserved
      exact h.pluralReserved hreserved
    · have hdrop : names.webPath.toList.drop 1 = names.routeSegment.toList := by
        rw [LayeredArtifactNames.webPath, String.toList_append]
        exact List.drop_left' rfl
      rcases hroutes _ hweb with hslash | hroot | ⟨words, hmem, heq⟩
      · rw [hdrop, h.routeSegment] at hslash
        exact notMem_joined h.pluralType.letters _ rfl (by decide) hslash
      · have hempty : names.routeSegment.toList = [] := by
          rw [← hdrop, hroot]
          rfl
        have hcanonical : canonicalForm (joined "-" plural) = joined "" plural :=
          canonicalForm_joined rfl h.pluralType.letters
        rw [← h.routeSegment, canonicalForm, hempty, joined_empty] at hcanonical
        exact h.pluralType.flatten_ne_nil (String.ofList_inj.1 hcanonical).symm
      · rw [LayeredArtifactNames.webPath, h.routeSegment] at heq
        have hsegment := (String.append_right_inj _).1 heq
        exact hnot (mem_frameworkWords rfl rfl h.pluralType.letters h.pluralType.ne_nil hmem hsegment)
    · have hupper : ∀ permission ∈ frameworkPermissions, 'I' ∈ permission.toList := by decide
      have haction : 'I' ∉ action.identifier.toList := by cases action <;> decide
      have hmem := hupper _ hpermission
      rw [LayeredArtifactNames.permission, h.permissionPrefix, String.toList_append,
        String.toList_append, List.mem_append, List.mem_append, joined_toList] at hmem
      rcases hmem with (hmem | hmem) | hmem
      · rcases Mutator.mem_of_mem_intercalate hmem with hmem | ⟨word, hword, hmem⟩
        · exact absurd hmem (by decide)
        · exact absurd (h.pluralType.letters word hword _ hmem).2 (by decide)
      · exact absurd hmem (by decide)
      · exact haction hmem

end Names

/-! ### Runs -/

section Runs

variable {D : Type} [ContentDigest D] [DecidableEq D] {parsers : Parsers}
  {manifest : ApplicationManifest}

/-- Names that were checked for some input. -/
def Resolved (names : LayeredArtifactNames) : Prop :=
  ∃ input occupied singular plural, Checked input occupied names singular plural

/-- A generation is apart from what is installed. -/
theorem separate_of_generateResource {command : ResourceCommand} {s s' : ApplicationSources}
    {specification : ResourceSpecification}
    (h : generateResource D parsers manifest command s = .ok (specification, s'))
    {names : LayeredArtifactNames} (hnames : Resolved names) (hinstalled : Installed s names) :
    names.Separate specification.names := by
  obtain ⟨⟨occupied, singular, plural, hoccupied, hchecked⟩, hroute, -, -⟩ :=
    generateResource_eq_ok h
  obtain ⟨input', occupied', singular', plural', hchecked'⟩ := hnames
  refine separate_of_routeSegment hchecked' hchecked (fun hmodule => ?_) fun hsegment => ?_
  · have hmem := hoccupied _ (hinstalled.mem_sourceNames hchecked')
    rw [hmodule, hchecked.rustModule,
      canonicalForm_joined rfl hchecked.singularType.letters] at hmem
    exact hchecked.free hmem
  · have hne : (routeProbe names.routeSegment).toList ≠ [] := by
      unfold routeProbe
      rw [String.toList_append]
      exact List.append_ne_nil_of_right_ne_nil _ (by simp)
    have hcontains := hinstalled.route.contains hne
    rw [hsegment, hroute] at hcontains
    cases hcontains

/-- **Accepted resources are apart**, from each other and from what was installed. -/
theorem separate_of_generateResources {commands : List ResourceCommand}
    {s s' : ApplicationSources} {specifications : List ResourceSpecification}
    (h : generateResources D parsers manifest commands s = .ok (specifications, s')) :
    (∀ names, Resolved names → Installed s names →
      ∀ specification ∈ specifications, names.Separate specification.names) ∧
    (specifications.map ResourceSpecification.names).Pairwise LayeredArtifactNames.Separate := by
  induction commands generalizing s specifications with
  | nil =>
      obtain ⟨rfl, rfl⟩ := Prod.mk.inj (Except.ok.inj h)
      exact ⟨fun _ _ _ _ hmem => (nomatch hmem), .nil⟩
  | cons command commands ih =>
      obtain ⟨⟨specification, t⟩, hfirst, h⟩ := bind_eq_ok.1 h
      obtain ⟨⟨rest, t'⟩, hrest, h⟩ := bind_eq_ok.1 h
      obtain ⟨rfl, rfl⟩ := Prod.mk.inj (pure_eq_ok.1 h)
      obtain ⟨⟨occupied, singular, plural, -, hchecked⟩, -, hkept, hnew⟩ :=
        generateResource_eq_ok hfirst
      obtain ⟨hlater, hpairwise⟩ := ih hrest
      refine ⟨fun names hnames hinstalled => List.forall_mem_cons.2
        ⟨separate_of_generateResource hfirst hnames hinstalled,
          hlater names hnames (hkept names hinstalled)⟩, ?_⟩
      rw [List.map_cons, List.pairwise_cons]
      refine ⟨fun names hmem => ?_, hpairwise⟩
      obtain ⟨other, hother, rfl⟩ := List.mem_map.1 hmem
      exact hlater _ ⟨_, occupied, singular, plural, hchecked⟩ hnew other hother

/-- Colliding with a framework type, by the words of the singular. -/
theorem frameworkType_iff {input : LayeredNamingInput} {occupied : ArtifactNamespace}
    {names : LayeredArtifactNames} {singular plural : List (List Char)} {minimal : Bool}
    (h : Checked input occupied names singular plural) :
    FrameworkType minimal (input.pluralType.getD (input.singularType ++ "s")) ↔
      plural.map String.ofList ∈ frameworkWords minimal := by
  rw [FrameworkType, h.pluralType.split]

/-- **Generated resources do not collide unless a plural has the words of the framework.** -/
theorem generated_resources_separate {commands : List ResourceCommand}
    {s s' : ApplicationSources} {specifications : List ResourceSpecification}
    (h : generateResources D parsers manifest commands s = .ok (specifications, s')) :
    ((specifications.map ResourceSpecification.names).Pairwise LayeredArtifactNames.Separate ∧
      ∀ specification ∈ specifications,
        specification.names.FrameworkFree (minimalWeb manifest)) ↔
      ∀ command ∈ commands, ¬FrameworkType (minimalWeb manifest) command.pluralType := by
  have hfree : (∀ specification ∈ specifications,
      specification.names.FrameworkFree (minimalWeb manifest)) ↔
        ∀ command ∈ commands, ¬FrameworkType (minimalWeb manifest) command.pluralType := by
    induction commands generalizing s specifications with
    | nil =>
        obtain ⟨rfl, rfl⟩ := Prod.mk.inj (Except.ok.inj h)
        simp
    | cons command commands ih =>
        obtain ⟨⟨specification, t⟩, hfirst, h⟩ := bind_eq_ok.1 h
        obtain ⟨⟨rest, t'⟩, hrest, h⟩ := bind_eq_ok.1 h
        obtain ⟨rfl, rfl⟩ := Prod.mk.inj (pure_eq_ok.1 h)
        obtain ⟨⟨occupied, singular, plural, -, hchecked⟩, -, -, -⟩ :=
          generateResource_eq_ok hfirst
        rw [List.forall_mem_cons, List.forall_mem_cons, ih hrest, frameworkFree_iff hchecked,
          ResourceCommand.pluralType, frameworkType_iff hchecked]
  rw [← hfree]
  exact ⟨And.right, fun hall => ⟨(separate_of_generateResources h).2, hall⟩⟩

end Runs

/-! ### A table of the framework -/

/-- The manifest of an application with the minimal web client. -/
def minimalApplication : ApplicationManifest :=
  { demoApplication .sqlite with
    composition := some {
      package := demoPackage
      components := [⟨Template.layeredBaseComponent, "v0.7.0"⟩,
        ⟨Template.layeredLeptosMinimalComponent, "v0.7.0"⟩, ⟨Template.identityComponent, "v0.7.0"⟩]
      modules := [⟨Template.identityModule, "v0.7.0"⟩]
      capabilities := {.authentication, .authorization} } }

/-- A source that is the markers of a block. -/
def markerLines (first last : String) : SourceLines :=
  ⟨[first.toList, last.toList], ['\n'], true⟩

def blockLines (block : String) : SourceLines :=
  markerLines ("// hegira:" ++ block) ("// hegira:" ++ block ++ ":end")

def bytesOf (source : SourceLines) : Bytes := Mutator.intoBytes (String.ofList source.write)

/-- The sources of that application, where no resource is generated. -/
def minimalSources : ApplicationSources where
  rustFiles _ := ["lib.rs"]
  web := {
    webRoot := bytesOf (markerLines Mutator.rustModulesStart Mutator.rustModulesEnd)
    routes := bytesOf (blockLines "resource-routes-native")
    navigation := []
    i18n := []
    sidebar := []
    serverSource := [] }
  dashboard := bytesOf (blockLines "module-navigation")

def sessionCommand : ResourceCommand where
  input := ⟨⟨"Session", none⟩, [⟨"title", "string", false⟩]⟩
  others := .ok (bytesOf (blockLines "resource-leptos-contexts"))

/-- A well formed source is read back. -/
theorem observedLines_bytesOf {p : Mutator.ChangePath} {source : SourceLines}
    (h : source.WellFormed) : observedLines p (bytesOf source) = .ok source := by
  refine Mutator.observedLines_eq_ok.2 ⟨_, Mutator.fromUtf8_intoBytes _, ?_⟩
  rw [String.toList_ofList]
  exact SourceLines.read_write h

/-- Two marker lines are a well formed source. -/
theorem wellFormed_markerLines {first last : String}
    (hfirst : '\n' ∉ first.toList ∧ '\r' ∉ first.toList)
    (hlast : '\n' ∉ last.toList ∧ '\r' ∉ last.toList) : (markerLines first last).WellFormed :=
  ⟨List.cons_ne_nil _ _, List.forall_mem_cons.2 ⟨hfirst, List.forall_mem_cons.2 ⟨hlast, nofun⟩⟩,
    nofun, .inl rfl⟩

/-- Different sources have different digests. -/
theorem bytesOf_ne {source source' : SourceLines} (h : source.write ≠ source'.write) :
    (ContentDigest.calculate (bytesOf source) : Mutator.PlainDigest) ≠
      ContentDigest.calculate (bytesOf source') :=
  fun heq => h (String.ofList_inj.1 (Mutator.intoBytes_injective
    (Mutator.PlainDigest.calculate_injective heq)))

/-- Whether an entry is accepted, and inserted in the lines of a source. -/
def insertsEntry (p : Mutator.ChangePath) (source : SourceLines) (block key entry : String) : Bool :=
  Mutator.validMarkerIdentifier block.toList && Mutator.validMarkerIdentifier key.toList
    && decide (trim entry.toList ≠ [])
    && !FirstMatch.contains "// hegira:".toList entry.toList && !entry.toList.contains '\r'
    && (Mutator.insertEntry p block key entry.toList source.lines).toOption.any fun result =>
      result.any fun lines => decide (source.write ≠ { source with lines := lines }.write)

/-- An entry that can be inserted is planned. -/
theorem exists_managedFileEdit (p : Mutator.ChangePath) {source : SourceLines}
    {block key entry : String} (hwell : source.WellFormed)
    (h : insertsEntry p source block key entry = true) :
    ∃ content, managedFileEdit Mutator.PlainDigest p.text (bytesOf source) [(block, entry)] key =
      .ok content := by
  simp only [insertsEntry, Bool.and_eq_true, Bool.not_eq_true', decide_eq_true_eq] at h
  obtain ⟨⟨⟨⟨⟨hblock, hkey⟩, hentry⟩, hmarker⟩, hreturn⟩, hinsert⟩ := h
  obtain ⟨result, hlines, hany⟩ := exists_of_toOption_any hinsert
  obtain ⟨lines, rfl, hne⟩ := (Option.any_eq_true _ _).1 hany
  have hne := bytesOf_ne (of_decide_eq_true hne)
  obtain ⟨edit, hcontent, hplanned⟩ := Mutator.planRustManagedEntry_of_insertEntry hblock hkey hentry
    hmarker hreturn (observedLines_bytesOf hwell) hlines hne
  refine ⟨edit.content, bind_eq_ok.2 ⟨edit.content, ?_, ?_⟩⟩
  · refine foldlM_cons_eq_ok.2 ⟨edit.content, ?_, rfl⟩
    exact congrArg (plannedContent _ _ _) hplanned
  · refine bind_eq_ok.2 ⟨⟨p, ContentDigest.calculate (bytesOf source), edit.content,
      ContentDigest.calculate edit.content, ⟨_, rfl⟩, rfl⟩, mapError_eq_ok.2 ?_, rfl⟩
    refine bind_eq_ok.2 ⟨p, p.new_text, guarded_eq_ok.2 ⟨?_, rfl⟩⟩
    rw [hcontent]
    exact hne

/-- Whether a module is accepted, and inserted in the lines of a source. -/
def insertsModule (p : Mutator.ChangePath) (source : SourceLines) (module : String) : Bool :=
  Mutator.validRustIdentifier module.toList
    && (Mutator.insertModule p module source.lines).toOption.any fun result =>
      result.any fun lines => decide (source.write ≠ { source with lines := lines }.write)

/-- A module that can be declared is planned. -/
theorem exists_plannedModule (p : Mutator.ChangePath) {source : SourceLines} {module : String}
    (hwell : source.WellFormed) (h : insertsModule p source module = true) :
    ∃ content, plannedContent Mutator.PlainDigest module p.text
      (planRustModule p.text (bytesOf source) module) = .ok content := by
  simp only [insertsModule, Bool.and_eq_true] at h
  obtain ⟨hmodule, hinsert⟩ := h
  obtain ⟨result, hlines, hany⟩ := exists_of_toOption_any hinsert
  obtain ⟨lines, rfl, hne⟩ := (Option.any_eq_true _ _).1 hany
  obtain ⟨edit, hcontent, hplanned⟩ := Mutator.planRustModule_of_insertModule hmodule
    (observedLines_bytesOf hwell) hlines (bytesOf_ne (of_decide_eq_true hne))
  exact ⟨edit.content, congrArg (plannedContent _ _ _) hplanned⟩

/-- How a session of the application is named. -/
theorem session_resolved : ∃ occupied specification,
    ArtifactNamespace.new minimalApplication.application (installedComponentIds minimalApplication)
      (applicationSourceNames minimalSources) = .ok occupied ∧
    ResourceSpecification.resolve Template.releaseParsers sessionCommand.input occupied
      minimalApplication = .ok specification ∧
    specification.names.singularType = "Session" ∧ specification.names.pluralType = "Sessions" ∧
    specification.names.rustModule = "session" ∧ specification.names.routeSegment = "sessions" ∧
    specification.names.databaseTable = "sessions" ∧ specification.selection.client = .leptos := by
  have hcheck : (ArtifactNamespace.new minimalApplication.application
      (installedComponentIds minimalApplication) (applicationSourceNames minimalSources)).toOption.any
        (fun occupied => (ResourceSpecification.resolve Template.releaseParsers sessionCommand.input
          occupied minimalApplication).toOption.any fun specification =>
            decide (specification.names.singularType = "Session" ∧
              specification.names.pluralType = "Sessions" ∧
              specification.names.rustModule = "session" ∧
              specification.names.routeSegment = "sessions" ∧
              specification.names.databaseTable = "sessions" ∧
              specification.selection.client = .leptos)) = true := by decide +kernel
  obtain ⟨occupied, hoccupied, hcheck⟩ := exists_of_toOption_any hcheck
  obtain ⟨specification, hspecification, hcheck⟩ := exists_of_toOption_any hcheck
  exact ⟨occupied, specification, hoccupied, hspecification, of_decide_eq_true hcheck⟩

/-- A source is read as its own text. -/
theorem lossy_bytesOf (source : SourceLines) :
    (LossyText.lossy (bytesOf source)).toList = source.write := by
  rw [bytesOf, LossyText.lossy_of_fromUTF8? (Mutator.fromUtf8_intoBytes _), String.toList_ofList]

/-- The web planner plans a session. -/
theorem session_planned {specification : ResourceSpecification}
    (hsingular : specification.names.singularType = "Session")
    (hplural : specification.names.pluralType = "Sessions")
    (hmodule : specification.names.rustModule = "session")
    (hroute : specification.names.routeSegment = "sessions")
    (hclient : specification.selection.client = .leptos) :
    ∃ sources, planResourceWebMinimal Mutator.PlainDigest specification
      ⟨minimalSources.web.webRoot, minimalSources.web.routes, minimalSources.dashboard,
        bytesOf (blockLines "resource-leptos-contexts")⟩ = .ok sources := by
  have hblock : ∀ block ∈ ["resource-routes-native", "module-navigation",
      "resource-leptos-contexts"], (blockLines block).WellFormed := by
    intro block hmem
    refine wellFormed_markerLines ?_ ?_
    all_goals
      revert block
      decide
  have hmarkers : (markerLines Mutator.rustModulesStart Mutator.rustModulesEnd).WellFormed :=
    wellFormed_markerLines (by decide) (by decide)
  obtain ⟨root, hroot⟩ := exists_plannedModule ⟨webRoot, by decide⟩ hmarkers
    (show insertsModule _ _ "session" = true by decide +kernel)
  obtain ⟨routes, hroutes⟩ := exists_managedFileEdit ⟨webRoutes, by decide⟩
    (hblock "resource-routes-native" (by decide))
    (show insertsEntry _ _ "resource-routes-native" "session"
      specification.nativeRouteRegistration = true by
        unfold ResourceSpecification.nativeRouteRegistration
        simp only [hplural, hmodule, hroute, insertsEntry, String.toList_append]
        repeat rw [String.toList_ofList]
        decide +kernel)
  obtain ⟨dashboard, hdashboard⟩ := exists_managedFileEdit ⟨webDashboard, by decide⟩
    (hblock "module-navigation" (by decide))
    (show insertsEntry _ _ "module-navigation" "session"
      specification.minimalNavigationItem = true by
        unfold ResourceSpecification.minimalNavigationItem
        simp only [hplural, hmodule, hroute, insertsEntry, String.toList_append]
        repeat rw [String.toList_ofList]
        decide +kernel)
  obtain ⟨server, hserver⟩ := exists_managedFileEdit ⟨serverSource, by decide⟩
    (hblock "resource-leptos-contexts" (by decide))
    (show insertsEntry _ _ "resource-leptos-contexts" "session"
      (specification.serverContext true) = true by
        unfold ResourceSpecification.serverContext
        simp only [hsingular, hmodule, insertsEntry, String.toList_append]
        repeat rw [String.toList_ofList]
        decide +kernel)
  refine ⟨⟨root, routes, dashboard, server⟩, bind_eq_ok.2 ⟨(), ?_, bind_eq_ok.2 ⟨(), ?_, ?_⟩⟩⟩
  · rw [ensureLeptos, hclient]
    rfl
  · unfold rejectRouteConflicts sourceContains
    refine guard_eq_ok.2 ?_
    show ¬_
    rw [hroute, minimalSources]
    simp only [lossy_bytesOf]
    decide +kernel
  · rw [hmodule]
    exact bind_eq_ok.2 ⟨root, hroot, bind_eq_ok.2 ⟨routes, hroutes, bind_eq_ok.2
      ⟨dashboard, hdashboard, bind_eq_ok.2 ⟨server, hserver, rfl⟩⟩⟩⟩

/-- The generator accepts a `Session`, with the table `sessions`. -/
theorem session_generated : ∃ specification s', generateResources Mutator.PlainDigest
    Template.releaseParsers minimalApplication [sessionCommand] minimalSources =
      .ok ([specification], s') ∧ specification.names.databaseTable = "sessions" := by
  obtain ⟨occupied, specification, hoccupied, hspecification, hsingular, hplural, hmodule, hroute,
    htable, hclient⟩ := session_resolved
  obtain ⟨sources, hsources⟩ := session_planned hsingular hplural hmodule hroute hclient
  have hresolved := hspecification
  unfold ResourceSpecification.resolve at hresolved
  obtain ⟨⟨⟩, hsupported, hresolved⟩ := bind_eq_ok.1 hresolved
  obtain ⟨selection, -, hresolved⟩ := bind_eq_ok.1 hresolved
  obtain ⟨names, hnames, -⟩ := bind_eq_ok.1 hresolved
  have hminimal : minimalWeb minimalApplication = true := by decide
  have hweb : ∃ planned, planWeb Mutator.PlainDigest (minimalWeb minimalApplication) specification
      (bytesOf (blockLines "resource-leptos-contexts")) minimalSources = .ok planned := by
    rw [hminimal]
    exact ⟨_, bind_eq_ok.2 ⟨sources, hsources, rfl⟩⟩
  obtain ⟨⟨web, dashboard⟩, hweb⟩ := hweb
  refine ⟨specification, _, bind_eq_ok.2 ⟨_, bind_eq_ok.2 ⟨(), mapError_eq_ok.2 hsupported,
    bind_eq_ok.2 ⟨occupied, mapError_eq_ok.2 hoccupied, bind_eq_ok.2 ⟨names,
      mapError_eq_ok.2 (mapError_eq_ok.1 hnames), bind_eq_ok.2 ⟨specification,
        mapError_eq_ok.2 hspecification, bind_eq_ok.2 ⟨_, rfl, bind_eq_ok.2 ⟨_,
          mapError_eq_ok.2 hweb, rfl⟩⟩⟩⟩⟩⟩, rfl⟩, htable⟩

/-- The equivalence holds of that run. -/
theorem session_separate : ∃ specifications s', generateResources Mutator.PlainDigest
    Template.releaseParsers minimalApplication [sessionCommand] minimalSources =
      .ok (specifications, s') ∧
    (((specifications.map ResourceSpecification.names).Pairwise LayeredArtifactNames.Separate ∧
      ∀ specification ∈ specifications,
        specification.names.FrameworkFree (minimalWeb minimalApplication)) ↔
      ∀ command ∈ [sessionCommand],
        ¬FrameworkType (minimalWeb minimalApplication) command.pluralType) := by
  obtain ⟨specification, s', h, -⟩ := session_generated
  exact ⟨_, s', h, generated_resources_separate h⟩

/-- A `Session` takes the table of the sessions. -/
theorem session_takes_framework_table : ∃ specification s', generateResources Mutator.PlainDigest
    Template.releaseParsers minimalApplication [sessionCommand] minimalSources =
      .ok ([specification], s') ∧
    ¬(([specification].map ResourceSpecification.names).Pairwise LayeredArtifactNames.Separate ∧
      ∀ specification' ∈ [specification],
        specification'.names.FrameworkFree (minimalWeb minimalApplication)) := by
  obtain ⟨specification, s', h, htable⟩ := session_generated
  refine ⟨specification, s', h, fun hclaim => ?_⟩
  have hfree := (hclaim.2 _ (List.mem_singleton_self _)).table
  rw [htable] at hfree
  exact hfree (by decide)

end Generator
end Hegira
