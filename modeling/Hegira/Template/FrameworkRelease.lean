/-
# Moving the dependencies of a manifest

An upgrade moves the workspace dependencies of a manifest from the source release of the
framework to the target release: `reject_removed_framework_dependencies` scans which
entries are of the source release, and each target dependency is moved when it is
declared there and inserted when it is not.

The edits touch one entry each and read no other (`moveDependency_eq_ok_iff`), so the
manifest after all of them has the target declarations in place and the rest untouched,
in whatever order they are made.  What a moved entry loses is what the matcher lets pass:
its other settings are kept exactly where the entry was regular
(`dependencies_move_together_iff`).
-/

import Hegira.Mutator.DependencyMatching
import Hegira.Template.UpgradePlanning

namespace Hegira
namespace Template

open Mutator (Bytes CargoDependency CargoDependencySection ChangePath ContentDigest Item PlainDigest
  Regular SameDeclaration StructuredEditOutcome Table TomlEdit cargoDependencyMatches
  cargoDependencyValue fromUtf8 intoBytes planCargoDependency planCargoDependencyTransition
  sameContract validateCargoDependency)
open Validation

/-! ### Tables -/

section Tables

variable {t : Table} {f g : Table → Table}

theorem mapTable_comp (item : Item) : (item.mapTable g).mapTable f = item.mapTable (f ∘ g) := by
  cases item <;> rfl

theorem asTableLike_mapTable (item : Item) :
    (item.mapTable f).asTableLike = item.asTableLike.map f := by
  cases item <;> rfl

/-- Two changes at one path are one. -/
theorem modifyAt_modifyAt (path : List String) (t : Table) :
    Table.modifyAt f path (Table.modifyAt g path t) = Table.modifyAt (f ∘ g) path t := by
  induction path generalizing t with
  | nil => rfl
  | cons segment path ih =>
      rw [Table.modifyAt, Table.modifyAt, Table.modifyAt, List.map_map]
      refine List.map_congr_left fun e _ => ?_
      by_cases he : e.1 = segment
      · simp only [Function.comp_apply, if_pos he, mapTable_comp]
        rw [show Table.modifyAt f path ∘ Table.modifyAt g path = Table.modifyAt (f ∘ g) path from
          funext ih]
      · simp only [Function.comp_apply, if_neg he]

theorem modifyAt_id (path : List String) (t : Table) : Table.modifyAt (fun t => t) path t = t := by
  induction path generalizing t with
  | nil => rfl
  | cons segment path ih =>
      have hitem (item : Item) : item.mapTable (Table.modifyAt (fun t => t) path) = item := by
        cases item <;> simp [Item.mapTable, ih]
      rw [Table.modifyAt]
      refine List.map_id'' (fun e => ?_) t
      rw [hitem, ite_self]

theorem get_mapAt (k : Item → Item) (segment : String) (t : Table) :
    Table.get (t.map fun e => if e.1 = segment then (e.1, k e.2) else e) segment =
      (t.get segment).map k := by
  induction t with
  | nil => rfl
  | cons e t ih =>
      rw [List.map_cons, Table.get_cons, Table.get_cons, ih]
      by_cases he : e.1 = segment
      · simp [he]
      · have hne : segment ≠ e.1 := fun h => he h.symm
        simp [he, hne]

/-- The table at a path that was changed there. -/
theorem find?_modifyAt (path : List String) (t : Table) :
    (Table.modifyAt f path t).find? path = (t.find? path).map f := by
  induction path generalizing t with
  | nil => rfl
  | cons segment path ih =>
      rw [Table.modifyAt, Table.find?, Table.find?, get_mapAt]
      cases t.get segment with
      | none => rfl
      | some item =>
          simp only [Option.map_some, Option.bind_eq_bind, Option.bind_some, asTableLike_mapTable]
          cases item.asTableLike with
          | none => rfl
          | some child => exact ih child

/-- The table after insertions. -/
def insertAll (t : Table) (entries : List (String × Item)) : Table :=
  entries.foldl (fun t entry => t.insert entry.1 entry.2) t

theorem mem_of_get {key : String} {item : Item} (h : t.get key = some item) : (key, item) ∈ t := by
  induction t with
  | nil => cases h
  | cons e t ih =>
      rw [Table.get_cons] at h
      split at h
      · next he =>
          obtain rfl := Option.some.inj h
          rw [he]
          exact List.mem_cons_self
      · exact List.mem_cons_of_mem _ (ih h)

/-- Insertions at distinct keys, read back. -/
theorem get_insertAll {entries : List (String × Item)} (hn : (entries.map Prod.fst).Nodup)
    (t : Table) (key : String) :
    (insertAll t entries).get key = (Table.get entries key).or (t.get key) := by
  induction entries generalizing t with
  | nil => rfl
  | cons entry entries ih =>
      obtain ⟨hentry, hn⟩ := List.nodup_cons.1 hn
      have hstep : insertAll t (entry :: entries) = insertAll (t.insert entry.1 entry.2) entries := rfl
      rw [hstep, ih hn, Table.get_insert, Table.get_cons]
      by_cases hk : key = entry.1
      · have hnone : Table.get entries key = none := by
          rw [Table.get, List.lookup_eq_none_iff]
          intro other hother
          rw [bne_iff_ne, hk]
          exact fun he => hentry (he ▸ List.mem_map_of_mem hother)
        simp [hk, hk ▸ hnone]
      · simp [hk]

end Tables

/-! ### One dependency -/

/-- `workspace.dependencies`. -/
abbrev dependenciesPath : List String := CargoDependencySection.workspaceDependencies.tablePath

/-- The entry of a dependency at the target release. -/
def releaseEntry (target : FrameworkContract) (dependency : FrameworkDependency) : String × Item :=
  (dependency.name, cargoDependencyValue (frameworkRelease target dependency))

/-- What the edit of a dependency asks of its entry: it is not there, or it is the one
of the source release. -/
structure Movable (source target : FrameworkContract) (path : String)
    (dependency : FrameworkDependency) (entry : Option Item) : Prop where
  valid : ∃ p, ChangePath.new path = .ok p ∧
    validateCargoDependency .workspaceDependencies (frameworkRelease source dependency) p = .ok () ∧
    validateCargoDependency .workspaceDependencies (frameworkRelease target dependency) p = .ok ()
  contract : sameContract (frameworkRelease source dependency) (frameworkRelease target dependency) =
    true
  matched : ∀ existing, entry = some existing →
    cargoDependencyMatches existing (frameworkRelease source dependency) = true

section Edits

variable {Document D : Type} [ContentDigest D] [DecidableEq D] {formats : Formats Document}
  {source target : FrameworkContract} {path : String} {current next : Bytes}
  {dependency : FrameworkDependency}

theorem kind_of_validate {sec : CargoDependencySection} {release : CargoDependency} {p : ChangePath}
    {e : Mutator.StructuredEditError} (h : validateCargoDependency sec release p = .error e) :
    e.kind = .invalidInput := by
  unfold validateCargoDependency at h
  split at h
  · obtain rfl := Except.error.inj h
    rfl
  · split at h
    · split at h
      · cases h
      · obtain rfl := Except.error.inj h
        rfl
    · obtain rfl := Except.error.inj h
      rfl
    · split at h
      · cases h
      · obtain rfl := Except.error.inj h
        rfl
    · cases h
    · obtain rfl := Except.error.inj h
      rfl
    · obtain rfl := Except.error.inj h
      rfl

/-- The checks of a transition that is planned, or refused for its entry. -/
theorem valid_of_planTransition {release release' : CargoDependency}
    {r : Except Mutator.StructuredEditError (StructuredEditOutcome D)}
    (h : planCargoDependencyTransition formats.toml path current .workspaceDependencies release
      release' = r) (hr : ∀ e, r = .error e → e.kind = .tomlConflict) :
    (∃ p, ChangePath.new path = .ok p ∧
      validateCargoDependency .workspaceDependencies release p = .ok () ∧
      validateCargoDependency .workspaceDependencies release' p = .ok ()) ∧
    sameContract release release' = true := by
  have hother {e : Mutator.StructuredEditError} (hkind : e.kind ≠ .tomlConflict) (he : r = .error e) :
      False := hkind (hr e he)
  unfold planCargoDependencyTransition at h
  cases hp : ChangePath.new path with
  | error e =>
      rw [hp] at h
      exact (hother (e := .ofPlan e) (by simp [Mutator.StructuredEditError.ofPlan]) h.symm).elim
  | ok p =>
  rw [hp] at h
  replace h : (validateCargoDependency .workspaceDependencies release p >>= _) = r := h
  cases hs : validateCargoDependency .workspaceDependencies release p with
  | error e =>
      rw [hs] at h
      exact (hother (by simp [kind_of_validate hs]) h.symm).elim
  | ok u =>
  rw [hs] at h
  replace h : (validateCargoDependency .workspaceDependencies release' p >>= _) = r := h
  cases ht : validateCargoDependency .workspaceDependencies release' p with
  | error e =>
      rw [ht] at h
      exact (hother (by simp [kind_of_validate ht]) h.symm).elim
  | ok u =>
  rw [ht] at h
  refine ⟨⟨p, rfl, hs, ht⟩, ?_⟩
  by_contra hc
  have hc : sameContract release release' = false := by simpa using hc
  have hinput {message : String} :
      (Mutator.StructuredEditError.atPath .invalidInput p message).kind ≠ .tomlConflict := by
    simp [Mutator.StructuredEditError.atPath]
  dsimp only [bind, Except.bind] at h
  split at h
  · simp only [hc, Bool.not_false, if_true, throw, throwThe, MonadExceptOf.throw] at h
    exact hother hinput h.symm
  · exact hother hinput h.symm

section Reads

variable {p : ChangePath} {text : String} {document : Document} {table : Table}
  {release release' : CargoDependency} (htext : fromUtf8 current = some text)
  (hparse : formats.toml.parse text = some document)
  (hfind : (formats.toml.root document).find? dependenciesPath = some table)
include htext hparse hfind

omit hfind in
theorem parseToml_eq : Mutator.parseToml formats.toml current p = .ok document := by
  rw [Mutator.parseToml, htext]
  dsimp only
  rw [hparse]

omit htext hparse in
theorem findTable_eq : Mutator.findTable formats.toml document dependenciesPath p = .ok table := by
  rw [Mutator.findTable, hfind]

/-- The transition, where its checks pass. -/
theorem planTransition_eq (hp : ChangePath.new path = .ok p)
    (hs : validateCargoDependency .workspaceDependencies release p = .ok ())
    (ht : validateCargoDependency .workspaceDependencies release' p = .ok ())
    (hc : sameContract release release' = true) :
    (planCargoDependencyTransition formats.toml path current .workspaceDependencies release release' :
      Except _ (StructuredEditOutcome D)) =
      match table.get release.name with
      | none => .error (.atPath .tomlConflict p
          "framework dependency required by the target composition is missing")
      | some existing =>
          if cargoDependencyMatches existing release then
            Mutator.planned .cargoDependency p current (intoBytes (formats.toml.print
              (formats.toml.insert document dependenciesPath release'.name
                (cargoDependencyValue release'))))
          else .error (.atPath .tomlConflict p
            "framework dependency does not match the authenticated source release") := by
  have hdocument := parseToml_eq htext hparse (p := p)
  have htable := findTable_eq hfind (p := p)
  obtain ⟨hrelease, hrelease'⟩ : (∃ r v d, release.source = .frameworkRelease r v d) ∧
      ∃ r v d, release'.source = .frameworkRelease r v d := by
    rw [sameContract] at hc
    split at hc
    · next h h' => exact ⟨⟨_, _, _, h⟩, _, _, _, h'⟩
    · cases hc
  obtain ⟨_, _, _, hsource⟩ := hrelease
  obtain ⟨_, _, _, hsource'⟩ := hrelease'
  simp only [planCargoDependencyTransition, hp, hs, ht, hc, hsource, hsource', hdocument, htable,
    bind, Except.bind, Mutator.liftPlan, Except.mapError]
  cases table.get release.name with
  | none => rfl
  | some existing =>
      cases hm : cargoDependencyMatches existing release with
      | true => simp [hm]
      | false => simp [hm, throw, throwThe, MonadExceptOf.throw]

/-- The insertion, where its checks pass. -/
theorem planDependency_eq (hp : ChangePath.new path = .ok p)
    (ht : validateCargoDependency .workspaceDependencies release p = .ok ()) :
    (planCargoDependency formats.toml path current .workspaceDependencies release :
      Except _ (StructuredEditOutcome D)) =
      match table.get release.name with
      | some existing =>
          if cargoDependencyMatches existing release then
            .ok (.alreadyPresent .cargoDependency p)
          else .error (.atPath .tomlConflict p
            "Cargo dependency already exists with a different declaration")
      | none => Mutator.planned .cargoDependency p current (intoBytes (formats.toml.print
          (formats.toml.insert document dependenciesPath release.name
            (cargoDependencyValue release)))) := by
  have hdocument := parseToml_eq htext hparse (p := p)
  have htable := findTable_eq hfind (p := p)
  simp only [planCargoDependency, hp, ht, hdocument, htable, bind, Except.bind, Mutator.liftPlan,
    Except.mapError]
  cases table.get release.name with
  | none => rfl
  | some existing =>
      cases hm : cargoDependencyMatches existing release with
      | true => simp [hm, pure, Except.pure]
      | false => simp [hm, throw, throwThe, MonadExceptOf.throw]

/-- What an edit that is planned says of its entry, and the text it plans. -/
theorem planRelease_eq_ok {outcome : StructuredEditOutcome D} (hne : ∀ kind q,
      outcome ≠ .alreadyPresent kind q)
    (h : planRelease formats source target path current dependency = .ok outcome) :
    Movable source target path dependency (table.get dependency.name) ∧
      ∃ p, Mutator.planned .cargoDependency p current (intoBytes (formats.toml.print
        (formats.toml.insert document dependenciesPath dependency.name
          (cargoDependencyValue (frameworkRelease target dependency))))) = .ok outcome := by
  rw [planRelease] at h
  split at h
  · next transition htransition =>
      obtain rfl := pure_eq_ok.1 h
      obtain ⟨hvalid, hc⟩ := valid_of_planTransition htransition (by simp)
      obtain ⟨p, hp, hs, ht⟩ := hvalid
      rw [planTransition_eq htext hparse hfind hp hs ht hc] at htransition
      rw [show (frameworkRelease source dependency).name = dependency.name from rfl] at htransition
      split at htransition
      · cases htransition
      · next existing hexisting =>
          split at htransition
          · next hmatches =>
              refine ⟨⟨⟨p, hp, hs, ht⟩, hc, fun other hother => ?_⟩, p, htransition⟩
              rw [hexisting] at hother
              exact Option.some.inj hother ▸ hmatches
          · cases htransition
  · next error herror =>
      split at h
      · next hkind =>
          obtain ⟨hvalid, hc⟩ := valid_of_planTransition herror fun e he => by
            rw [← Except.error.inj he]
            exact hkind
          obtain ⟨p, hp, hs, ht⟩ := hvalid
          rw [mapError_eq_ok, planDependency_eq htext hparse hfind hp ht] at h
          rw [show (frameworkRelease target dependency).name = dependency.name from rfl] at h
          split at h
          · split at h
            · exact (hne _ _ (Except.ok.inj h).symm).elim
            · cases h
          · next hnone =>
              exact ⟨⟨⟨p, hp, hs, ht⟩, hc, fun other hother => by simp [hnone] at hother⟩, p, h⟩
      · cases h

/-- **An edit reads and writes its own entry.** -/
theorem moveDependency_eq_ok_iff :
    moveDependency formats D source target path current dependency = .ok next ↔
      Movable source target path dependency (table.get dependency.name) ∧
      next = intoBytes (formats.toml.print (formats.toml.insert document dependenciesPath
        (releaseEntry target dependency).1 (releaseEntry target dependency).2)) ∧
      (ContentDigest.calculate current : D) ≠ ContentDigest.calculate next := by
  constructor
  · intro h
    obtain ⟨outcome, houtcome, h⟩ := bind_eq_ok.1 h
    cases outcome with
    | alreadyPresent kind q => cases h
    | planned kind edit =>
        obtain rfl : edit.content = next := Except.ok.inj h
        obtain ⟨hmovable, p, hplanned⟩ := planRelease_eq_ok htext hparse hfind
          (fun _ _ h => by cases h) houtcome
        have hcontent := Mutator.planned_eq_ok hplanned
        obtain ⟨edit', he, -, hcontent⟩ := hcontent
        cases he
        refine ⟨hmovable, hcontent, fun hsame => ?_⟩
        rw [hcontent] at hsame
        rw [(Mutator.planned_eq .cargoDependency p _ _).1 hsame] at hplanned
        cases hplanned
  · rintro ⟨⟨⟨p, hp, hs, ht⟩, hc, hmatched⟩, rfl, hne⟩
    obtain ⟨edit, hcontent, hplanned⟩ := (Mutator.planned_eq (D := D) .cargoDependency p _ _).2 hne
    have htransition := planTransition_eq (D := D) htext hparse hfind hp hs ht hc
    rw [show (frameworkRelease source dependency).name = dependency.name from rfl] at htransition
    have houtcome : planRelease formats source target path current dependency =
        .ok (.planned .cargoDependency edit) := by
      rw [planRelease, htransition]
      cases hget : table.get dependency.name with
      | some existing =>
          simp only [hmatched existing hget, if_true]
          rw [show (frameworkRelease target dependency).name = (releaseEntry target dependency).1
            from rfl, show cargoDependencyValue (frameworkRelease target dependency) =
              (releaseEntry target dependency).2 from rfl, hplanned]
          rfl
      | none =>
          have hinsert := planDependency_eq (D := D) htext hparse hfind hp ht
          rw [show (frameworkRelease target dependency).name = dependency.name from rfl, hget]
            at hinsert
          simp only [hinsert, Mutator.StructuredEditError.atPath, if_true]
          rw [mapError_eq_ok]
          exact hplanned
    exact bind_eq_ok.2 ⟨_, houtcome, congrArg Except.ok hcontent⟩

end Reads

end Edits

/-! ### All dependencies of a manifest -/

section Runs

variable {Document D : Type} [ContentDigest D] [DecidableEq D] {formats : Formats Document}
  {source target : FrameworkContract} {path : String} {original current : Bytes}
  {targets rest : List FrameworkDependency}

/-- The documents the edits come to: the manifest, and what is read back after an edit. -/
inductive Written (formats : Formats Document) (target : FrameworkContract) (original : Bytes)
    (targets : List FrameworkDependency) : Document → Prop
  | read {text : String} {document : Document} (htext : fromUtf8 original = some text)
      (hparse : formats.toml.parse text = some document) : Written formats target original targets document
  | edited {document document' : Document} {dependency : FrameworkDependency}
      (h : Written formats target original targets document) (hd : dependency ∈ targets)
      (hparse : formats.toml.parse (formats.toml.print (formats.toml.insert document dependenciesPath
        (releaseEntry target dependency).1 (releaseEntry target dependency).2)) = some document') :
      Written formats target original targets document'

/-- A document that was edited is read back as it was printed. -/
def ReadsBack (formats : Formats Document) (target : FrameworkContract) (original : Bytes)
    (targets : List FrameworkDependency) : Prop :=
  ∀ document, Written formats target original targets document → ∀ dependency ∈ targets,
    (formats.toml.parse (formats.toml.print (formats.toml.insert document dependenciesPath
      (releaseEntry target dependency).1 (releaseEntry target dependency).2))).map formats.toml.root =
    some (formats.toml.root (formats.toml.insert document dependenciesPath
      (releaseEntry target dependency).1 (releaseEntry target dependency).2))

/-- The document after one edit. -/
theorem exists_edited (hreads : ReadsBack formats target original targets) {document : Document}
    (hw : Written formats target original targets document) {dependency : FrameworkDependency}
    (hd : dependency ∈ targets) {table : Table}
    (hfind : (formats.toml.root document).find? dependenciesPath = some table) :
    ∃ document', formats.toml.parse (formats.toml.print (formats.toml.insert document dependenciesPath
        (releaseEntry target dependency).1 (releaseEntry target dependency).2)) = some document' ∧
      Written formats target original targets document' ∧
      formats.toml.root document' = (formats.toml.root document).modifyAt
        (fun t => insertAll t [releaseEntry target dependency]) dependenciesPath := by
  obtain ⟨document', hparse, hroot⟩ := Option.map_eq_some_iff.1 (hreads document hw dependency hd)
  refine ⟨document', hparse, hw.edited hd hparse, ?_⟩
  rw [hroot]
  exact formats.toml.root_insert _ _ _ _ (by rw [hfind]; rfl)

/-- Edits at other names leave an entry alone. -/
theorem get_insertAll_of_ne {dependency other : FrameworkDependency} (table : Table)
    (hne : other.name ≠ dependency.name) :
    (insertAll table [releaseEntry target dependency]).get other.name = table.get other.name := by
  have hstep : insertAll table [releaseEntry target dependency] =
      table.insert dependency.name (releaseEntry target dependency).2 := rfl
  rw [hstep, Table.get_insert, if_neg hne]

/-- **What a run of edits has found and written.** -/
theorem foldlM_moveDependency_eq_ok (hreads : ReadsBack formats target original targets)
    (hsub : rest ⊆ targets) (hn : (rest.map FrameworkDependency.name).Nodup) {text : String}
    {document : Document} {table : Table} {result : Bytes} (htext : fromUtf8 current = some text)
    (hparse : formats.toml.parse text = some document)
    (hw : Written formats target original targets document)
    (hfind : (formats.toml.root document).find? dependenciesPath = some table)
    (h : rest.foldlM (moveDependency formats D source target path) current = .ok result) :
    (∀ dependency ∈ rest, Movable source target path dependency (table.get dependency.name)) ∧
    ∃ text' document', fromUtf8 result = some text' ∧ formats.toml.parse text' = some document' ∧
      formats.toml.root document' = (formats.toml.root document).modifyAt
        (fun t => insertAll t (rest.map (releaseEntry target))) dependenciesPath := by
  induction rest generalizing current text document table with
  | nil =>
      obtain rfl := Except.ok.inj h
      exact ⟨nofun, text, document, htext, hparse, (modifyAt_id _ _).symm⟩
  | cons dependency rest ih =>
      obtain ⟨hname, hn⟩ := List.nodup_cons.1 hn
      obtain ⟨next, hnext, h⟩ := foldlM_cons_eq_ok.1 h
      obtain ⟨hmovable, rfl, -⟩ := (moveDependency_eq_ok_iff htext hparse hfind).1 hnext
      obtain ⟨document₁, hparse₁, hw₁, hroot₁⟩ :=
        exists_edited hreads hw (hsub List.mem_cons_self) hfind
      have hfind₁ : (formats.toml.root document₁).find? dependenciesPath =
          some (insertAll table [releaseEntry target dependency]) := by
        rw [hroot₁, find?_modifyAt, hfind]
        rfl
      obtain ⟨hrest, text', document', htext', hparse', hroot'⟩ :=
        ih (fun _ hd => hsub (List.mem_cons_of_mem _ hd)) hn (Mutator.fromUtf8_intoBytes _) hparse₁
          hw₁ hfind₁ h
      refine ⟨List.forall_mem_cons.2 ⟨hmovable, fun other hother => ?_⟩, text', document', htext',
        hparse', ?_⟩
      · have hne : other.name ≠ dependency.name := fun he =>
          hname (he ▸ List.mem_map_of_mem hother)
        rw [← get_insertAll_of_ne table hne]
        exact hrest other hother
      · rw [hroot', hroot₁, modifyAt_modifyAt]
        rfl

/-- An edit of an entry that may be moved changes the text. -/
theorem ne_of_movable (hreads : ReadsBack formats target original targets) {text : String}
    {document : Document} {table : Table} {dependency : FrameworkDependency}
    (htext : fromUtf8 current = some text) (hparse : formats.toml.parse text = some document)
    (hw : Written formats target original targets document) (hd : dependency ∈ targets)
    (hfind : (formats.toml.root document).find? dependenciesPath = some table)
    (hmovable : Movable source target path dependency (table.get dependency.name)) :
    current ≠ intoBytes (formats.toml.print (formats.toml.insert document dependenciesPath
      (releaseEntry target dependency).1 (releaseEntry target dependency).2)) := by
  intro he
  rw [he, Mutator.fromUtf8_intoBytes] at htext
  obtain rfl := Option.some.inj htext
  obtain ⟨document', hparse', -, hroot⟩ := exists_edited hreads hw hd hfind
  obtain rfl := Option.some.inj (hparse.symm.trans hparse')
  have hget : (table.get dependency.name) = some (releaseEntry target dependency).2 := by
    have htable := congrArg (fun t : Table => t.find? dependenciesPath) hroot
    rw [find?_modifyAt, hfind, Option.map_some, Option.some.injEq] at htable
    rw [htable]
    exact (Table.get_insert ..).trans (if_pos rfl)
  have hsame : frameworkRelease source dependency = frameworkRelease target dependency :=
    Mutator.eq_of_matches_declaration rfl (hmovable.matched _ hget)
  have hcontract := hmovable.contract
  rw [hsame] at hcontract
  simp [sameContract, frameworkRelease] at hcontract

/-- Entries that may be moved are moved, in any order. -/
theorem exists_foldlM_moveDependency (hinj : Function.Injective (ContentDigest.calculate : Bytes → D))
    (hreads : ReadsBack formats target original targets) (hsub : rest ⊆ targets)
    (hn : (rest.map FrameworkDependency.name).Nodup) {text : String} {document : Document}
    {table : Table} (htext : fromUtf8 current = some text)
    (hparse : formats.toml.parse text = some document)
    (hw : Written formats target original targets document)
    (hfind : (formats.toml.root document).find? dependenciesPath = some table)
    (hmovable : ∀ dependency ∈ rest,
      Movable source target path dependency (table.get dependency.name)) :
    ∃ result, rest.foldlM (moveDependency formats D source target path) current = .ok result := by
  induction rest generalizing current text document table with
  | nil => exact ⟨current, rfl⟩
  | cons dependency rest ih =>
      obtain ⟨hname, hn⟩ := List.nodup_cons.1 hn
      obtain ⟨hfirst, hrest⟩ := List.forall_mem_cons.1 hmovable
      have hd : dependency ∈ targets := hsub List.mem_cons_self
      have hne := ne_of_movable hreads htext hparse hw hd hfind hfirst
      have hnext := (moveDependency_eq_ok_iff (D := D) htext hparse hfind).2
        ⟨hfirst, rfl, fun he => hne (hinj he)⟩
      obtain ⟨document₁, hparse₁, hw₁, hroot₁⟩ := exists_edited hreads hw hd hfind
      have hfind₁ : (formats.toml.root document₁).find? dependenciesPath =
          some (insertAll table [releaseEntry target dependency]) := by
        rw [hroot₁, find?_modifyAt, hfind]
        rfl
      obtain ⟨result, h⟩ := ih (fun _ hd => hsub (List.mem_cons_of_mem _ hd)) hn
        (Mutator.fromUtf8_intoBytes _) hparse₁ hw₁ hfind₁ fun other hother => by
          rw [get_insertAll_of_ne table fun he => hname (he ▸ List.mem_map_of_mem hother)]
          exact hrest other hother
      exact ⟨result, foldlM_cons_eq_ok.2 ⟨_, hnext, h⟩⟩

end Runs

/-! ### Moving together -/

section Together

variable {Document : Type}

/-- The root table of a manifest. -/
def documentOf (formats : Formats Document) (source : Bytes) : Option Table := do
  let source ← fromUtf8 source
  formats.table source

/-- The git source of an entry is a release of the framework. -/
def PointsTo (framework : FrameworkContract) (item : Item) : Prop :=
  ∃ t, item.asTableLike = some t ∧ (t.get "git").bind Item.asStr = some framework.repository ∧
    (t.get "tag").bind Item.asStr = some framework.version

/-- The entries of `workspace.dependencies` before and after. -/
structure MovedTogether (source target : FrameworkContract) (targets : List FrameworkDependency)
    (before after : Table) : Prop where
  moved : ∀ name item t, before.get name = some item → PointsTo source item →
    item.asTableLike = some t → ∃ item' t', after.get name = some item' ∧ PointsTo target item' ∧
      item'.asTableLike = some t' ∧ SameDeclaration (t.insert "tag" (.string target.version)) t'
  left : ∀ name item, after.get name = some item → ¬PointsTo source item
  present : ∀ dependency ∈ targets, ∃ item, after.get dependency.name = some item ∧
    PointsTo target item
  kept : ∀ name item, before.get name = some item → ¬PointsTo source item →
    after.get name = some item
  added : ∀ name, before.get name = none → name ∉ targets.map FrameworkDependency.name →
    after.get name = none

/-- The manifest after the edits: its dependencies have moved, the rest is as it was. -/
def MovesTogether (formats : Formats Document) (source target : FrameworkContract)
    (targets : List FrameworkDependency) (original result : Bytes) : Prop :=
  ∃ (root before : Table) (edit : Table → Table), documentOf formats original = some root ∧
    root.find? dependenciesPath = some before ∧
    documentOf formats result = some (root.modifyAt edit dependenciesPath) ∧
    MovedTogether source target targets before (edit before)

/-- Two manifests that differ in the order of their dependencies only. -/
def SameDocument (formats : Formats Document) (result result' : Bytes) : Prop :=
  ∃ (root : Table) (edit edit' : Table → Table),
    documentOf formats result = some (root.modifyAt edit dependenciesPath) ∧
    documentOf formats result' = some (root.modifyAt edit' dependenciesPath) ∧
    ∀ table name, (edit table).get name = (edit' table).get name

/-- The dependencies may be moved in any order, with the same manifest after. -/
def AnyOrder (D : Type) [ContentDigest D] [DecidableEq D] (formats : Formats Document)
    (source target : FrameworkContract) (path : String) (targets : List FrameworkDependency)
    (original result : Bytes) : Prop :=
  ∀ targets', targets'.Perm targets →
    (Function.Injective (ContentDigest.calculate : Bytes → D) →
      ∃ result', moveDependencies formats D source target path original targets' = .ok result') ∧
    ∀ result', moveDependencies formats D source target path original targets' = .ok result' →
      SameDocument formats result result'

/-- What is declared under a name in the dependencies of a manifest. -/
def declarationOf (formats : Formats Document) (original : Bytes) (name : String) : Option Table := do
  let dependencies ← workspaceDependencies formats original
  let item ← dependencies.get name
  item.asTableLike

section Entries

variable {source target : FrameworkContract} {targets : List FrameworkDependency}
  {dependency : FrameworkDependency}

theorem map_fst_releaseEntry (target : FrameworkContract) : (targets.map (releaseEntry target)).map Prod.fst =
    targets.map FrameworkDependency.name :=
  List.map_map

theorem get_releaseEntries (hn : (targets.map FrameworkDependency.name).Nodup)
    (hd : dependency ∈ targets) : Table.get (targets.map (releaseEntry target)) dependency.name =
      some (cargoDependencyValue (frameworkRelease target dependency)) := by
  induction targets with
  | nil => cases hd
  | cons other targets ih =>
      obtain ⟨hother, hn⟩ := List.nodup_cons.1 hn
      rw [List.map_cons, Table.get_cons]
      rcases List.mem_cons.1 hd with rfl | hd
      · exact if_pos rfl
      · have hne : dependency.name ≠ (releaseEntry target other).1 := by
          intro he
          rw [show (releaseEntry target other).1 = other.name from rfl] at he
          exact hother (he ▸ List.mem_map_of_mem hd)
        rw [if_neg hne, ih hn hd]

theorem get_releaseEntries_of_notMem {name : String}
    (hname : name ∉ targets.map FrameworkDependency.name) :
    Table.get (targets.map (releaseEntry target)) name = none := by
  rw [Table.get, List.lookup_eq_none_iff]
  intro entry hentry
  rw [bne_iff_ne]
  rintro rfl
  exact hname (map_fst_releaseEntry target ▸ List.mem_map_of_mem hentry)

/-- The entries of the targets do not depend on their order. -/
theorem get_releaseEntries_perm {targets' : List FrameworkDependency} (hp : targets'.Perm targets)
    (hn : (targets.map FrameworkDependency.name).Nodup) (name : String) :
    Table.get (targets.map (releaseEntry target)) name =
      Table.get (targets'.map (releaseEntry target)) name := by
  have hn' := (hp.map FrameworkDependency.name).nodup_iff.2 hn
  by_cases hname : name ∈ targets.map FrameworkDependency.name
  · obtain ⟨dependency, hd, rfl⟩ := List.mem_map.1 hname
    rw [get_releaseEntries hn hd, get_releaseEntries hn' (hp.mem_iff.2 hd)]
  · have hname' := mt (hp.map FrameworkDependency.name).mem_iff.1 hname
    rw [get_releaseEntries_of_notMem hname, get_releaseEntries_of_notMem hname']

/-- The encoder points to the release it is given. -/
theorem pointsTo_value (target : FrameworkContract) (dependency : FrameworkDependency) :
    PointsTo target (cargoDependencyValue (frameworkRelease target dependency)) := by
  refine ⟨_, rfl, ?_, ?_⟩ <;>
    simp [CargoDependency.get_declaration, frameworkRelease, Mutator.CargoDependencySource.entries,
      Table.get_cons, Item.asStr]

/-- A matched entry points to the release it is matched by. -/
theorem pointsTo_of_matches {item : Item}
    (h : cargoDependencyMatches item (frameworkRelease source dependency) = true) :
    PointsTo source item := by
  rw [cargoDependencyMatches] at h
  cases ht : item.asTableLike with
  | none => simp [ht] at h
  | some t =>
      simp only [ht, Bool.and_eq_true] at h
      have hsource := h.1.1.2
      simp only [frameworkRelease, Mutator.sourceMatches, Bool.and_eq_true, beq_iff_eq] at hsource
      exact ⟨t, ht, hsource.1.1.2, hsource.1.2⟩

/-- A release of other than its version is no entry of the source. -/
theorem not_pointsTo_value {path : String} {entry : Option Item}
    (h : Movable source target path dependency entry) :
    ¬PointsTo source (cargoDependencyValue (frameworkRelease target dependency)) := by
  rintro ⟨t, ht, -, htag⟩
  obtain ⟨t', ht', -, htag'⟩ := pointsTo_value target dependency
  obtain rfl := Option.some.inj (ht.symm.trans ht')
  have hversion : source.version = target.version := Option.some.inj (htag.symm.trans htag')
  have hcontract := h.contract
  simp [sameContract, frameworkRelease, hversion] at hcontract

/-- Where a matched entry has moved, it has kept its settings exactly if it was regular. -/
theorem sameDeclaration_iff_regular {path : String} {item : Item} {t : Table}
    (h : Movable source target path dependency (some item)) (ht : item.asTableLike = some t) :
    SameDeclaration (t.insert "tag" (.string target.version))
        (frameworkRelease target dependency).declaration ↔
      Regular (frameworkRelease source dependency).source t := by
  obtain ⟨_, version, _, hsource, -, hget⟩ := Mutator.get_declaration_of_sameContract h.contract
  cases hsource
  exact Mutator.sameDeclaration_transition_iff ht (h.matched item rfl) hget

end Entries

/-- The scan sees the entries that point to the release. -/
theorem ensures_addSourceName {framework : FrameworkContract} {past : List (String × Item)}
    {entry : String × Item} {sourceNames : Finset String}
    (h : ∀ e ∈ past, PointsTo framework e.2 → e.1 ∈ sourceNames) :
    Ensures (fun _ => True) (fun sourceNames' : Finset String =>
        ∀ e ∈ past ++ [entry], PointsTo framework e.2 → e.1 ∈ sourceNames')
      (addSourceName framework.repository framework.version sourceNames entry) := by
  have hadd {sourceNames' : Finset String} (hsub : sourceNames ⊆ sourceNames')
      (hentry : PointsTo framework entry.2 → entry.1 ∈ sourceNames') :
      ∀ e ∈ past ++ [entry], PointsTo framework e.2 → e.1 ∈ sourceNames' := by
    intro e he hpoints
    rcases List.mem_append.1 he with he | he
    · exact hsub (h e he hpoints)
    · obtain rfl := List.mem_singleton.1 he
      exact hentry hpoints
  rw [addSourceName]
  split
  · next hnone =>
      refine hadd (Finset.Subset.refl _) fun ⟨t, ht, _⟩ => ?_
      rw [hnone] at ht
      cases ht
  · next declaration hdeclaration =>
      refine Ensures.guarded (fun _ => trivial) fun _ => ?_
      refine hadd ?_ fun ⟨t, ht, hgit, _⟩ => ?_
      · split
        · exact Finset.subset_insert _ _
        · exact Finset.Subset.refl _
      · obtain rfl := Option.some.inj (hdeclaration.symm.trans ht)
        rw [if_pos (by rw [hgit, beq_self_eq_true])]
        exact Finset.mem_insert_self _ _

/-- What the scan has found: every entry of the source release is a target. -/
theorem mem_of_rejectRemoved {formats : Formats Document} {original : Bytes}
    {source : FrameworkContract} {targets : List FrameworkDependency} {u : Unit}
    (h : rejectRemovedFrameworkDependencies formats original source.repository source.version targets =
      .ok u) :
    ∃ before, workspaceDependencies formats original = some before ∧
      ∀ entry ∈ before, PointsTo source entry.2 → entry.1 ∈ targets.map FrameworkDependency.name := by
  rw [rejectRemovedFrameworkDependencies] at h
  split at h
  swap
  · cases h
  next before hbefore =>
  obtain ⟨sourceNames, hloop, h⟩ := bind_eq_ok.1 h
  have hsubset := guard_eq_ok.1 h
  rw [not_not] at hsubset
  refine ⟨before, hbefore, fun entry hentry hpoints => ?_⟩
  have hseen := (Ensures.foldlM (I := fun past _ sourceNames =>
    ∀ e ∈ past, PointsTo source e.2 → e.1 ∈ sourceNames)
    (fun _ _ _ _ h => ensures_addSourceName h) nofun).of_eq_ok hloop
  exact List.mem_toFinset.1 (hsubset (hseen entry hentry hpoints))

/-- The tables of the manifest, before and after. -/
theorem movedTogether_iff {source target : FrameworkContract} {path : String}
    {targets : List FrameworkDependency} {before : Table}
    (hn : (targets.map FrameworkDependency.name).Nodup)
    (hscan : ∀ entry ∈ before, PointsTo source entry.2 →
      entry.1 ∈ targets.map FrameworkDependency.name)
    (hmovable : ∀ dependency ∈ targets,
      Movable source target path dependency (before.get dependency.name)) :
    MovedTogether source target targets before
        (insertAll before (targets.map (releaseEntry target))) ↔
      ∀ dependency ∈ targets, ∀ item t, before.get dependency.name = some item →
        item.asTableLike = some t → Regular (frameworkRelease source dependency).source t := by
  have hkeys : ((targets.map (releaseEntry target)).map Prod.fst).Nodup :=
    map_fst_releaseEntry target ▸ hn
  have htarget {dependency : FrameworkDependency} (hd : dependency ∈ targets) :
      (insertAll before (targets.map (releaseEntry target))).get dependency.name =
        some (cargoDependencyValue (frameworkRelease target dependency)) := by
    rw [get_insertAll hkeys, get_releaseEntries hn hd, Option.some_or]
  have hother {name : String} (hname : name ∉ targets.map FrameworkDependency.name) :
      (insertAll before (targets.map (releaseEntry target))).get name = before.get name := by
    rw [get_insertAll hkeys, get_releaseEntries_of_notMem hname, Option.none_or]
  have hentry {dependency : FrameworkDependency} (hd : dependency ∈ targets) {item : Item}
      (hitem : before.get dependency.name = some item) :
      Movable source target path dependency (some item) := hitem ▸ hmovable dependency hd
  constructor
  · intro h dependency hd item t hitem ht
    have hpoints := pointsTo_of_matches ((hentry hd hitem).matched item rfl)
    obtain ⟨item', t', hitem', -, ht', hsame⟩ := h.moved _ _ _ hitem hpoints ht
    obtain rfl := Option.some.inj ((htarget hd).symm.trans hitem')
    obtain rfl := Option.some.inj ht'
    exact (sameDeclaration_iff_regular (hentry hd hitem) ht).1 hsame
  · intro h
    refine ⟨fun name item t hitem hpoints ht => ?_, fun name item hitem hpoints => ?_,
      fun dependency hd => ⟨_, htarget hd, pointsTo_value _ _⟩, fun name item hitem hpoints => ?_,
      fun name hnone hname => (hother hname).trans hnone⟩
    · have hmem := hscan (name, item) (mem_of_get hitem) hpoints
      obtain ⟨dependency, hd, rfl⟩ := List.mem_map.1 hmem
      exact ⟨_, _, htarget hd, pointsTo_value _ _, rfl,
        (sameDeclaration_iff_regular (hentry hd hitem) ht).2 (h dependency hd item t hitem ht)⟩
    · by_cases hname : name ∈ targets.map FrameworkDependency.name
      · obtain ⟨dependency, hd, rfl⟩ := List.mem_map.1 hname
        obtain rfl := Option.some.inj ((htarget hd).symm.trans hitem)
        exact not_pointsTo_value (hmovable dependency hd) hpoints
      · rw [hother hname] at hitem
        exact hname (hscan (name, item) (mem_of_get hitem) hpoints)
    · have hname : name ∉ targets.map FrameworkDependency.name := by
        intro hname
        obtain ⟨dependency, hd, rfl⟩ := List.mem_map.1 hname
        exact hpoints (pointsTo_of_matches ((hentry hd hitem).matched item rfl))
      rw [hother hname, hitem]

variable {D : Type} [ContentDigest D] [DecidableEq D]

theorem workspaceDependencies_eq (formats : Formats Document) (source : Bytes) :
    workspaceDependencies formats source =
      (documentOf formats source).bind fun root => root.find? dependenciesPath := by
  rw [workspaceDependencies, documentOf]
  cases fromUtf8 source <;> rfl

/-- **Dependencies move together.**  When the edits of a manifest succeed, its entries of
the source release are at the target release with their other settings, none is left, all
targets are there and the rest is as it was, in whatever order the edits are made, exactly
where the entries that are moved were regular. -/
theorem dependencies_move_together_iff (formats : Formats Document)
    (hagree : ∀ text, formats.table text = (formats.toml.parse text).map formats.toml.root)
    (source target : FrameworkContract) (path : String) (original result : Bytes)
    (targets : List FrameworkDependency) (hn : (targets.map FrameworkDependency.name).Nodup)
    (hreads : ReadsBack formats target original targets)
    (h : moveDependencies formats D source target path original targets = .ok result) :
    (MovesTogether formats source target targets original result ∧
      AnyOrder D formats source target path targets original result) ↔
    ∀ dependency ∈ targets, ∀ t, declarationOf formats original dependency.name = some t →
      Regular (frameworkRelease source dependency).source t := by
  obtain ⟨u, hscan, hloop⟩ := bind_eq_ok.1 h
  obtain ⟨before, hbefore, hmem⟩ := mem_of_rejectRemoved hscan
  obtain ⟨text, htext, hroot⟩ := Option.bind_eq_some_iff.1 hbefore
  obtain ⟨root, hroot, hfind⟩ := Option.bind_eq_some_iff.1 hroot
  replace hfind : root.find? dependenciesPath = some before := hfind
  have htable := hroot
  rw [hagree] at hroot
  obtain ⟨document, hparse, rfl⟩ := Option.map_eq_some_iff.1 hroot
  have hw : Written formats target original targets document := .read htext hparse
  have hrun {targets' : List FrameworkDependency} {result' : Bytes} (hp : targets'.Perm targets)
      (hloop : targets'.foldlM (moveDependency formats D source target path) original = .ok result') :
      (∀ dependency ∈ targets', Movable source target path dependency (before.get dependency.name)) ∧
      documentOf formats result' = some ((formats.toml.root document).modifyAt
        (fun t => insertAll t (targets'.map (releaseEntry target))) dependenciesPath) := by
    have hn' := (hp.map FrameworkDependency.name).nodup_iff.2 hn
    obtain ⟨hmovable, text', document', htext', hparse', hroot'⟩ :=
      foldlM_moveDependency_eq_ok hreads hp.subset hn' htext hparse hw hfind hloop
    refine ⟨hmovable, ?_⟩
    rw [documentOf, htext', Option.bind_eq_bind, Option.bind_some, hagree, hparse', Option.map_some,
      hroot']
  obtain ⟨hmovable, hresult⟩ := hrun (.refl _) hloop
  have hdocument : documentOf formats original = some (formats.toml.root document) := by
    rw [documentOf, htext]
    exact htable
  have hdeclaration (name : String) (t : Table) : declarationOf formats original name = some t ↔
      ∃ item, before.get name = some item ∧ item.asTableLike = some t := by
    rw [declarationOf, hbefore, Option.bind_eq_bind, Option.bind_some]
    exact Option.bind_eq_some_iff
  have hmoved := movedTogether_iff hn hmem hmovable
  have horder : AnyOrder D formats source target path targets original result := by
    intro targets' hp
    have hnames : (targets'.map FrameworkDependency.name).toFinset =
        (targets.map FrameworkDependency.name).toFinset :=
      List.toFinset_eq_of_perm _ _ (hp.map _)
    have hscan' : rejectRemovedFrameworkDependencies formats original source.repository
        source.version targets' = .ok u := by
      rw [← hscan, rejectRemovedFrameworkDependencies, rejectRemovedFrameworkDependencies, hnames]
    refine ⟨fun hinj => ?_, fun result' h' => ?_⟩
    · obtain ⟨result', hloop'⟩ := exists_foldlM_moveDependency hinj hreads hp.subset
        ((hp.map FrameworkDependency.name).nodup_iff.2 hn) htext hparse hw hfind
        fun dependency hd => hmovable dependency (hp.subset hd)
      exact ⟨result', bind_eq_ok.2 ⟨u, hscan', hloop'⟩⟩
    · obtain ⟨_, -, hloop'⟩ := bind_eq_ok.1 h'
      refine ⟨_, _, _, hresult, (hrun hp hloop').2, fun table name => ?_⟩
      have hn' := (hp.map FrameworkDependency.name).nodup_iff.2 hn
      rw [get_insertAll (map_fst_releaseEntry target ▸ hn),
        get_insertAll (map_fst_releaseEntry target ▸ hn'),
        get_releaseEntries_perm hp hn]
  constructor
  · rintro ⟨⟨root, before', edit, hroot', hfind', hresult', htogether⟩, -⟩ dependency hd t ht
    obtain ⟨item, hitem, ht⟩ := (hdeclaration _ _).1 ht
    obtain rfl := Option.some.inj (hdocument.symm.trans hroot')
    obtain rfl := Option.some.inj (hfind.symm.trans hfind')
    have hedit : edit before = insertAll before (targets.map (releaseEntry target)) := by
      have htables : (Table.modifyAt edit dependenciesPath (formats.toml.root document)).find?
            dependenciesPath =
          (Table.modifyAt (fun t => insertAll t (targets.map (releaseEntry target))) dependenciesPath
            (formats.toml.root document)).find? dependenciesPath := by
        rw [Option.some.inj (hresult'.symm.trans hresult)]
      rw [find?_modifyAt, find?_modifyAt, hfind] at htables
      exact Option.some.inj htables
    exact hmoved.1 (hedit ▸ htogether) dependency hd item t hitem ht
  · intro hregular
    refine ⟨⟨_, before, _, hdocument, hfind, hresult, hmoved.2 ?_⟩, horder⟩
    exact fun dependency hd item t hitem ht =>
      hregular dependency hd t ((hdeclaration _ _).2 ⟨item, hitem, ht⟩)

end Together

/-! #### Manifests with few dependencies -/

open Mutator (httpDeclaration manifestToml workspaceManifest workspaceRoot)

def httpRepository : String := "https://github.com/example/framework"

/-- `toml_edit` on manifests with these dependencies. -/
def workspaceToml (known : List Table) : TomlEdit Table where
  parse text := (known.find? fun dependencies => workspaceManifest dependencies = text).map workspaceRoot
  print document := workspaceManifest ((document.find? ["workspace", "dependencies"]).getD [])
  root := id
  insert document path key item := document.modifyAt (fun t => t.insert key item) path
  root_insert := manifestToml.root_insert

/-- The formats of manifests with these dependencies. -/
def workspaceFormats (known : List Table) : Formats Table where
  toml := workspaceToml known
  table text := (workspaceToml known).parse text
  toToml _ := none

/-- The manifest with these dependencies. -/
def workspaceBytes (dependencies : Table) : Bytes := intoBytes (workspaceManifest dependencies)

section Workspace

variable {known : List Table} {dependencies : Table} (hknown : (known.map workspaceManifest).Nodup)

include hknown in
theorem parse_known (hmem : dependencies ∈ known) :
    (workspaceFormats known).toml.parse (workspaceManifest dependencies) =
      some (workspaceRoot dependencies) := by
  have hfound : (known.find? fun found =>
      workspaceManifest found = workspaceManifest dependencies).isSome :=
    List.find?_isSome.2 ⟨dependencies, hmem, decide_eq_true rfl⟩
  obtain ⟨found, hfind⟩ := Option.isSome_iff_exists.1 hfound
  have htext : workspaceManifest found = workspaceManifest dependencies := by
    simpa using List.find?_some hfind
  have hsame : found = dependencies :=
    List.inj_on_of_nodup_map hknown (List.mem_of_find?_eq_some hfind) hmem htext
  exact congrArg (Option.map workspaceRoot) (hsame ▸ hfind)

include hknown in
theorem documentOf_known (hmem : dependencies ∈ known) :
    documentOf (workspaceFormats known) (workspaceBytes dependencies) =
      some (workspaceRoot dependencies) := by
  rw [documentOf, workspaceBytes, Mutator.fromUtf8_intoBytes]
  exact parse_known hknown hmem

include hknown in
/-- Manifests that are known with every edit of theirs are read back. -/
theorem readsBack_known {target : FrameworkContract} {targets : List FrameworkDependency}
    (hmem : dependencies ∈ known) (hclosed : ∀ dependencies ∈ known, ∀ dependency ∈ targets,
      dependencies.insert (releaseEntry target dependency).1 (releaseEntry target dependency).2 ∈
        known) :
    ReadsBack (workspaceFormats known) target (workspaceBytes dependencies) targets := by
  have hwritten {document : Table} (h : Written (workspaceFormats known) target
      (workspaceBytes dependencies) targets document) :
      ∃ dependencies ∈ known, document = workspaceRoot dependencies := by
    induction h with
    | read htext hparse =>
        rw [workspaceBytes, Mutator.fromUtf8_intoBytes] at htext
        obtain rfl := Option.some.inj htext
        rw [parse_known hknown hmem] at hparse
        exact ⟨_, hmem, (Option.some.inj hparse).symm⟩
    | edited h hd hparse ih =>
        obtain ⟨dependencies, hmem, rfl⟩ := ih
        have hedited := hclosed dependencies hmem _ hd
        obtain rfl := Option.some.inj ((parse_known hknown hedited).symm.trans hparse)
        exact ⟨_, hedited, rfl⟩
  intro document h dependency hd
  obtain ⟨dependencies, hmem, rfl⟩ := hwritten h
  exact congrArg (Option.map id) (parse_known hknown (hclosed dependencies hmem dependency hd))

end Workspace

def httpDependency : FrameworkDependency :=
  ⟨"Cargo.toml", "hegira_http", .ofString "crates/http", none⟩

def jobsDependency : FrameworkDependency :=
  ⟨"Cargo.toml", "hegira_jobs", .ofString "crates/jobs", none⟩

/-- The two dependencies, each at a release. -/
def releasePair (http jobs : String) : Table :=
  [releaseEntry ⟨httpRepository, http⟩ httpDependency,
    releaseEntry ⟨httpRepository, jobs⟩ jobsDependency]

/-- The manifests on the way from one release to the other. -/
def knownPairs : List Table :=
  [releasePair "v0.6.0" "v0.6.0", releasePair "v0.7.0" "v0.6.0", releasePair "v0.6.0" "v0.7.0",
    releasePair "v0.7.0" "v0.7.0"]

theorem nodup_knownPairs : (knownPairs.map workspaceManifest).Nodup := by
  decide +kernel

theorem insert_knownPairs : ∀ dependencies ∈ knownPairs,
    ∀ dependency ∈ [httpDependency, jobsDependency],
      dependencies.insert (releaseEntry ⟨httpRepository, "v0.7.0"⟩ dependency).1
        (releaseEntry ⟨httpRepository, "v0.7.0"⟩ dependency).2 ∈ knownPairs := by
  have hhttp (http jobs : String) : (releasePair http jobs).insert
      (releaseEntry ⟨httpRepository, "v0.7.0"⟩ httpDependency).1
      (releaseEntry ⟨httpRepository, "v0.7.0"⟩ httpDependency).2 = releasePair "v0.7.0" jobs := rfl
  have hjobs (http jobs : String) : (releasePair http jobs).insert
      (releaseEntry ⟨httpRepository, "v0.7.0"⟩ jobsDependency).1
      (releaseEntry ⟨httpRepository, "v0.7.0"⟩ jobsDependency).2 = releasePair http "v0.7.0" := rfl
  simp [knownPairs, hhttp, hjobs]

/-- Two dependencies are moved with their settings, in either order. -/
theorem dependencies_move_together_iff_http :
    MovesTogether (workspaceFormats knownPairs) ⟨httpRepository, "v0.6.0"⟩
        ⟨httpRepository, "v0.7.0"⟩ [httpDependency, jobsDependency]
        (workspaceBytes (releasePair "v0.6.0" "v0.6.0"))
        (workspaceBytes (releasePair "v0.7.0" "v0.7.0")) ∧
      AnyOrder PlainDigest (workspaceFormats knownPairs) ⟨httpRepository, "v0.6.0"⟩
        ⟨httpRepository, "v0.7.0"⟩ "Cargo.toml" [httpDependency, jobsDependency]
        (workspaceBytes (releasePair "v0.6.0" "v0.6.0"))
        (workspaceBytes (releasePair "v0.7.0" "v0.7.0")) := by
  have hmem : releasePair "v0.6.0" "v0.6.0" ∈ knownPairs := List.mem_cons_self
  have hmove : moveDependencies (workspaceFormats knownPairs) PlainDigest
      ⟨httpRepository, "v0.6.0"⟩ ⟨httpRepository, "v0.7.0"⟩ "Cargo.toml"
      (workspaceBytes (releasePair "v0.6.0" "v0.6.0")) [httpDependency, jobsDependency] =
        .ok (workspaceBytes (releasePair "v0.7.0" "v0.7.0")) := by
    decide +kernel
  refine (dependencies_move_together_iff (workspaceFormats knownPairs)
    (fun text => Option.map_id'.symm) ⟨httpRepository, "v0.6.0"⟩ ⟨httpRepository, "v0.7.0"⟩
    "Cargo.toml" _ _ [httpDependency, jobsDependency] (by decide)
    (readsBack_known nodup_knownPairs hmem insert_knownPairs) hmove).2 ?_
  intro dependency hd t ht
  have hdeclared : declarationOf (workspaceFormats knownPairs)
      (workspaceBytes (releasePair "v0.6.0" "v0.6.0")) dependency.name =
        some [("git", .string httpRepository), ("tag", .string "v0.6.0")] := by
    rw [declarationOf, workspaceDependencies_eq, documentOf_known nodup_knownPairs hmem]
    rcases List.mem_pair.1 hd with rfl | rfl <;> rfl
  obtain rfl := Option.some.inj (hdeclared.symm.trans ht)
  exact ⟨fun _ => rfl, nofun, nofun⟩

/-! #### A version of its own -/

/-- The dependency at the target release. -/
def movedHttp : Table := [releaseEntry ⟨httpRepository, "v0.7.0"⟩ httpDependency]

/-- The dependency as the application has it. -/
def declaredHttp (extra : Table) : Table := [("hegira_http", httpDeclaration extra)]

/-- The formats of a manifest with the dependency, before and after. -/
def httpFormats (extra : Table) : Formats Table := workspaceFormats [declaredHttp extra, movedHttp]

/-- The manifest with the dependency. -/
def httpManifest (extra : Table) : Bytes := workspaceBytes (declaredHttp extra)

/-- **A version that is lost.**  The entry with a version of its own is matched and moved,
and the version is gone. -/
theorem version_lost_in_move :
    moveDependencies (httpFormats [("version", .string "0.6.0")]) PlainDigest
        ⟨httpRepository, "v0.6.0"⟩ ⟨httpRepository, "v0.7.0"⟩ "Cargo.toml"
        (httpManifest [("version", .string "0.6.0")]) [httpDependency] =
      .ok (workspaceBytes movedHttp) ∧
    ¬MovesTogether (httpFormats [("version", .string "0.6.0")]) ⟨httpRepository, "v0.6.0"⟩
      ⟨httpRepository, "v0.7.0"⟩ [httpDependency] (httpManifest [("version", .string "0.6.0")])
      (workspaceBytes movedHttp) := by
  have hknown : ([declaredHttp [("version", .string "0.6.0")], movedHttp].map
      workspaceManifest).Nodup := by
    decide +kernel
  refine ⟨by decide +kernel, ?_⟩
  rintro ⟨root, before, edit, hroot, hfind, hresult, h⟩
  obtain rfl := Option.some.inj ((documentOf_known hknown List.mem_cons_self).symm.trans hroot)
  obtain rfl : declaredHttp [("version", .string "0.6.0")] = before := Option.some.inj hfind
  have hmoved : documentOf (httpFormats [("version", .string "0.6.0")]) (workspaceBytes movedHttp) =
      some (workspaceRoot movedHttp) := documentOf_known hknown (by simp)
  rw [hmoved] at hresult
  have hedit : movedHttp = edit (declaredHttp [("version", .string "0.6.0")]) := by
    have htables := congrArg (fun t : Option Table => t.bind fun t => t.find? dependenciesPath) hresult
    exact Option.some.inj htables
  obtain ⟨item', t', hitem', -, ht', hsame⟩ := h.moved "hegira_http"
    (httpDeclaration [("version", .string "0.6.0")]) _ rfl ⟨_, rfl, rfl, rfl⟩ rfl
  rw [← hedit] at hitem'
  obtain rfl := Option.some.inj hitem'
  obtain rfl := Option.some.inj ht'
  have hversion := hsame "version"
  cases hversion

end Template
end Hegira
