/-
# What a matched dependency says

`cargo_dependency_matches` accepts a declaration that an application has written
for a dependency of the framework, and an upgrade then replaces it by
`cargo_dependency_value`.  So the two should be the same declaration, up to
defaults that may be written or left out and the order of features
(`SameDeclaration`).

The encoder keeps its side: its declarations are matched by their own dependency
and by no other (`matches_declaration`, `eq_of_matches_declaration`).  The matcher
lets two things pass: a `version` next to a workspace or framework source, and a
flag that is no boolean, which it reads as not written.  On declarations without
these (`Regular`) it is exact.
-/

import Hegira.Mutator.CargoDependency

namespace Hegira
namespace Mutator

open Validation

/-- A value that may as well be left out. -/
def isDefault : String → Item → Bool
  | "default-features", .boolean true => true
  | "optional", .boolean false => true
  | "features", .array [] => true
  | _, _ => false

/-- What a declaration says at a key, defaults left out. -/
def Table.written (t : Table) (key : String) : Option Item :=
  (t.get key).filter fun item => !isDefault key item

/-- Two entries at a key are the same, the order of features aside. -/
inductive SameEntry (key : String) : Option Item → Option Item → Prop
  | same (entry : Option Item) : SameEntry key entry entry
  | reordered {items items' : List Item} (hk : key = "features") (hp : items.Perm items') :
      SameEntry key (some (.array items)) (some (.array items'))

/-- Two tables are the same declaration. -/
def SameDeclaration (t t' : Table) : Prop := ∀ key, SameEntry key (t.written key) (t'.written key)

@[simp] theorem sameEntry_none_right {key : String} {entry : Option Item} :
    SameEntry key entry none ↔ entry = none := by
  refine ⟨fun h => ?_, fun h => h ▸ .same _⟩
  cases h
  rfl

/-- The two things that the matcher lets pass do not occur: a version next to a source
that has none, and a flag that is no boolean. -/
structure Regular (source : CargoDependencySource) (t : Table) : Prop where
  version : (∀ version, source ≠ .registry version) → t.get "version" = none
  optional : ∀ item, t.get "optional" = some item → ∃ value, item = .boolean value
  defaultFeatures : ∀ item, t.get "default-features" = some item → ∃ value, item = .boolean value

/-! ### The encoder -/

namespace CargoDependency

variable (d : CargoDependency)

theorem get_declaration (key : String) : d.declaration.get key =
    if key = "optional" then if d.optional then some (.boolean true) else none
    else if key = "features" then
      if d.features = ∅ then none
      else some (.array ((d.features.sort (· ≤ ·)).map .string))
    else d.source.entries.get key := by
  have hentries : d.source.entries.get "optional" = none ∧
      d.source.entries.get "features" = none := by
    rcases hs : d.source with _ | version | ⟨repository, version, defaultFeatures⟩
    · exact ⟨rfl, rfl⟩
    · exact ⟨rfl, rfl⟩
    · cases defaultFeatures <;> exact ⟨rfl, rfl⟩
  have hoptional : Table.get (if d.optional then [("optional", .boolean true)] else []) key =
      if key = "optional" then if d.optional then some (.boolean true) else none else none := by
    cases d.optional <;> simp [Table.get_cons]
  have hfeatures : Table.get (if d.features = ∅ then []
        else [("features", .array ((d.features.sort (· ≤ ·)).map .string))]) key =
      if key = "features" then
        if d.features = ∅ then none
        else some (.array ((d.features.sort (· ≤ ·)).map .string))
      else none := by
    by_cases h : d.features = ∅ <;> simp [h, Table.get_cons]
  rw [declaration, Table.get_append, Table.get_append, hoptional, hfeatures]
  split
  · next hk =>
      subst hk
      rw [hentries.1]
      simp
  · split
    · next hk =>
        subst hk
        rw [hentries.2]
        simp
    · simp

end CargoDependency

/-! ### The matcher -/

section Matcher

variable {t t' : Table} {key : String}

@[simp] theorem Item.asBool_eq_some {item : Item} {value : Bool} :
    item.asBool = some value ↔ item = .boolean value := by
  cases item <;> simp [asBool]

@[simp] theorem Item.asStr_eq_some {item : Item} {value : String} :
    item.asStr = some value ↔ item = .string value := by
  cases item <;> simp [asStr]

/-- Only flags and features have defaults. -/
theorem Table.written_eq_get (h : key ≠ "default-features" ∧ key ≠ "optional" ∧ key ≠ "features") :
    t.written key = t.get key := by
  obtain ⟨h₁, h₂, h₃⟩ := h
  have hd (item : Item) : isDefault key item = false := by
    unfold isDefault
    split <;> first | rfl | contradiction
  rw [written]
  cases t.get key <;> simp [hd]

theorem flagMatches_eq_true {default expected : Bool} : flagMatches t key default expected = true ↔
    t.get key = some (.boolean expected) ∨
      (∀ value, t.get key ≠ some (.boolean value)) ∧ default = expected := by
  rw [flagMatches]
  rcases hget : t.get key with _ | item
  · simp
  · cases item <;> simp [Item.asBool]

/-- **A flag is matched exactly when it is a boolean.** -/
theorem sameEntry_flag {default expected : Bool}
    (hk : key = "default-features" ∧ default = true ∨ key = "optional" ∧ default = false)
    (h : flagMatches t key default expected = true)
    (ht : t'.get key = if expected = default then none else some (.boolean expected)) :
    SameEntry key (t.written key) (t'.written key) ↔
      ∀ item, t.get key = some item → ∃ value, item = .boolean value := by
  have hdefault (value : Bool) : isDefault key (.boolean value) = (value == default) := by
    rcases hk with ⟨rfl, rfl⟩ | ⟨rfl, rfl⟩ <;> cases value <;> rfl
  have hwritten : t'.written key = if expected = default then none else some (.boolean expected) := by
    rw [Table.written, ht]
    split
    · rfl
    · next hne => simp [hdefault, hne]
  rw [hwritten]
  rcases flagMatches_eq_true.1 h with hget | ⟨hget, rfl⟩
  · refine iff_of_true ?_ ?_
    · rw [Table.written, hget]
      by_cases he : expected = default
      · simp [hdefault, he]
      · have hno : isDefault key (.boolean expected) = false := by simp [hdefault, he]
        simp only [Option.filter_some, hno, Bool.not_false, if_true, if_neg he]
        exact .same _
    · rintro item hitem
      exact ⟨expected, Option.some.inj (hitem.symm.trans hget)⟩
  · rw [if_pos rfl, sameEntry_none_right, Table.written]
    rcases hitem : t.get key with _ | item
    · simp
    · have hno : isDefault key item = false := by
        rcases hk with ⟨rfl, -⟩ | ⟨rfl, -⟩ <;> cases item <;> simp_all [isDefault]
      refine iff_of_false (by simp [hno]) fun hall => ?_
      obtain ⟨value, rfl⟩ := hall item rfl
      exact hget value hitem

theorem eq_map_of_mapM_asStr {items : List Item} {entries : List String}
    (h : items.mapM Item.asStr = some entries) : items = entries.map .string := by
  induction items generalizing entries with
  | nil =>
      obtain rfl : [] = entries := by simpa using h
      rfl
  | cons item items ih =>
      rw [List.mapM_cons] at h
      obtain ⟨value, hv, h⟩ := Option.bind_eq_some_iff.1 h
      obtain ⟨rest, hr, h⟩ := Option.bind_eq_some_iff.1 h
      obtain rfl : value :: rest = entries := by simpa using h
      rw [Item.asStr_eq_some.1 hv, ih hr, List.map_cons]

theorem mapM_asStr_map (entries : List String) :
    (entries.map Item.string).mapM Item.asStr = some entries := by
  induction entries with
  | nil => rfl
  | cons value entries ih =>
      rw [List.map_cons, List.mapM_cons, ih]
      rfl

/-- **Features are matched up to their order.** -/
theorem featuresMatch_eq_true {features : Finset String} : featuresMatch t features = true ↔
    t.get "features" = none ∧ features = ∅ ∨
      ∃ entries : List String, t.get "features" = some (.array (entries.map .string)) ∧
        entries.Perm (features.sort (· ≤ ·)) := by
  have hperm {entries : List String} : entries.length = features.card ∧ entries.toFinset = features ↔
      entries.Perm (features.sort (· ≤ ·)) := by
    constructor
    · rintro ⟨hlen, rfl⟩
      have hnodup : entries.Nodup := Multiset.toFinset_card_eq_card_iff_nodup.1 hlen.symm
      exact List.perm_of_nodup_nodup_toFinset_eq hnodup (Finset.sort_nodup ..)
        (Finset.sort_toFinset ..).symm
    · intro hp
      refine ⟨by rw [hp.length_eq, Finset.length_sort], ?_⟩
      rw [List.toFinset_eq_of_perm _ _ hp, Finset.sort_toFinset]
  rw [featuresMatch]
  rcases hget : t.get "features" with _ | item
  · simp
  · cases item with
    | array items =>
        simp only [Option.bind_some, Item.asArray]
        cases hm : items.mapM Item.asStr with
        | none =>
            refine iff_of_false (by simp) ?_
            rintro (⟨h, -⟩ | ⟨entries, h, -⟩)
            · cases h
            · rw [Option.some.inj h |> Item.array.inj, mapM_asStr_map] at hm
              cases hm
        | some entries =>
            rw [Bool.and_eq_true, beq_iff_eq, beq_iff_eq, hperm, eq_map_of_mapM_asStr hm]
            constructor
            · exact fun hp => Or.inr ⟨entries, rfl, hp⟩
            · rintro (⟨h, -⟩ | ⟨entries', h, hp⟩)
              · cases h
              · have he : entries = entries' :=
                  List.map_injective_iff.2 (fun _ _ => Item.string.inj) (Item.array.inj (Option.some.inj h))
                exact he ▸ hp
    | _ => simp [Item.asArray]

/-- **A matched source is the source of the dependency**, its version aside. -/
theorem sourceMatches_eq_true {source : CargoDependencySource} (h : sourceMatches t source = true) :
    (∀ key ∈ ["workspace", "git", "tag"], t.get key = source.entries.get key) ∧
      (∃ defaultFeatures, flagMatches t "default-features" true defaultFeatures = true ∧
        source.entries.get "default-features" =
          if defaultFeatures = true then none else some (.boolean defaultFeatures)) ∧
      ∀ version, source = .registry version → t.get "version" = source.entries.get "version" := by
  have hflag (h : (t.get "default-features").isNone = true) :
      flagMatches t "default-features" true true = true := by
    rw [Option.isNone_iff_eq_none] at h
    exact flagMatches_eq_true.2 (Or.inr ⟨by simp [h], rfl⟩)
  rcases source with _ | version | ⟨repository, version, defaultFeatures⟩
  · simp only [sourceMatches, Bool.and_eq_true, beq_iff_eq, Option.bind_eq_some_iff,
      Item.asBool_eq_some, exists_eq_right, Option.isNone_iff_eq_none] at h
    obtain ⟨⟨⟨hworkspace, hgit⟩, htag⟩, hdefault⟩ := h
    refine ⟨?_, ⟨true, hflag (by simp [hdefault]), rfl⟩, nofun⟩
    simp [CargoDependencySource.entries, Table.get_cons, hworkspace, hgit, htag]
  · simp only [sourceMatches, Bool.and_eq_true, beq_iff_eq, Option.bind_eq_some_iff,
      Item.asStr_eq_some, exists_eq_right, Option.isNone_iff_eq_none] at h
    obtain ⟨⟨⟨⟨hworkspace, hgit⟩, htag⟩, hversion⟩, hdefault⟩ := h
    refine ⟨?_, ⟨true, hflag (by simp [hdefault]), rfl⟩, fun _ _ => hversion⟩
    simp [CargoDependencySource.entries, Table.get_cons, hworkspace, hgit, htag]
  · simp only [sourceMatches, Bool.and_eq_true, beq_iff_eq, Option.bind_eq_some_iff,
      Item.asStr_eq_some, exists_eq_right, Option.isNone_iff_eq_none] at h
    obtain ⟨⟨⟨hworkspace, hgit⟩, htag⟩, hdefault⟩ := h
    refine ⟨?_, ⟨defaultFeatures, hdefault, ?_⟩, nofun⟩
    · cases defaultFeatures <;>
        simp [CargoDependencySource.entries, Table.get_cons, hworkspace, hgit, htag]
    · cases defaultFeatures <;> rfl

/-- A source has entries at its own keys only. -/
theorem CargoDependencySource.get_entries (source : CargoDependencySource)
    (h : key ∉ ["workspace", "git", "tag", "default-features", "version"] ∨
      key = "version" ∧ ∀ version, source ≠ .registry version) : source.entries.get key = none := by
  rcases source with _ | version | ⟨repository, version, defaultFeatures⟩
  · rcases h with h | ⟨rfl, h⟩
    · simp_all [entries, Table.get_cons]
    · rfl
  · rcases h with h | ⟨rfl, h⟩
    · simp_all [entries, Table.get_cons]
    · exact absurd rfl (h version)
  · rcases h with h | ⟨rfl, h⟩
    · cases defaultFeatures <;> simp_all [entries, Table.get_cons]
    · cases defaultFeatures <;> rfl

/-- Every key of an accepted declaration is an allowed one. -/
theorem get_eq_none_of_all (h : t.all (fun e => allowedKeys.contains e.1) = true)
    (hk : key ∉ allowedKeys) : t.get key = none := by
  induction t with
  | nil => rfl
  | cons e t ih =>
      rw [List.all_cons, Bool.and_eq_true, List.contains_iff_mem] at h
      have hne : key ≠ e.1 := by
        rintro rfl
        exact hk h.1
      rw [Table.get_cons, if_neg hne, ih h.2]

/-- **When a matched declaration is the dependency's.** -/
theorem sameDeclaration_iff {d : CargoDependency} {existing : Item} (he : existing.asTableLike = some t)
    (h : cargoDependencyMatches existing d = true) :
    SameDeclaration t d.declaration ↔ Regular d.source t := by
  rw [cargoDependencyMatches, he] at h
  simp only [Bool.and_eq_true] at h
  obtain ⟨⟨⟨hkeys, hsource⟩, hoptional⟩, hfeatures⟩ := h
  obtain ⟨hplain, ⟨defaultFeatures, hflag, hentry⟩, hversion⟩ := sourceMatches_eq_true hsource
  have hdefault : SameEntry "default-features" (t.written _) (d.declaration.written _) ↔ _ :=
    sameEntry_flag (Or.inl ⟨rfl, rfl⟩) hflag (by rw [d.get_declaration]; exact hentry)
  have hopt : SameEntry "optional" (t.written _) (d.declaration.written _) ↔ _ :=
    sameEntry_flag (Or.inr ⟨rfl, rfl⟩) hoptional
      (by rw [d.get_declaration]; cases d.optional <;> rfl)
  have hver : SameEntry "version" (t.written "version") (d.declaration.written "version") ↔
      ((∀ version, d.source ≠ .registry version) → t.get "version" = none) := by
    rw [Table.written_eq_get (by decide), Table.written_eq_get (by decide), d.get_declaration]
    simp only [String.reduceEq, if_false]
    by_cases hr : ∃ version, d.source = .registry version
    · obtain ⟨version, hr⟩ := hr
      rw [hversion version hr]
      exact iff_of_true (.same _) fun h => absurd hr (h version)
    · rw [d.source.get_entries (Or.inr ⟨rfl, not_exists.1 hr⟩), sameEntry_none_right]
      exact ⟨fun h _ => h, fun h => h (not_exists.1 hr)⟩
  constructor
  · intro hsame
    exact ⟨hver.1 (hsame _), hopt.1 (hsame _), hdefault.1 (hsame _)⟩
  · intro hregular key
    by_cases hk₁ : key = "optional"
    · exact hk₁ ▸ hopt.2 hregular.optional
    by_cases hk₂ : key = "default-features"
    · exact hk₂ ▸ hdefault.2 hregular.defaultFeatures
    by_cases hk₃ : key = "version"
    · exact hk₃ ▸ hver.2 hregular.version
    by_cases hk₄ : key = "features"
    · subst hk₄
      rw [Table.written, Table.written, d.get_declaration]
      simp only [String.reduceEq, if_false, if_true]
      rcases featuresMatch_eq_true.1 hfeatures with ⟨hget, hempty⟩ | ⟨entries, hget, hp⟩
      · rw [hget, if_pos hempty]
        exact .same _
      · rw [hget]
        split
        · next hempty =>
            rw [hempty, Finset.sort_empty, List.perm_nil] at hp
            rw [hp]
            exact .same _
        · next hne =>
            have hsorted : d.features.sort (· ≤ ·) ≠ [] := fun h =>
              hne (by rw [← Finset.sort_toFinset d.features (· ≤ ·), h]; rfl)
            have hentries : entries ≠ [] := by
              rintro rfl
              exact hsorted (List.nil_perm.1 hp)
            have hno {items : List Item} (h : items ≠ []) :
                isDefault "features" (.array items) = false := by
              cases items with
              | nil => exact absurd rfl h
              | cons item items => rfl
            rw [Option.filter_some, Option.filter_some, hno (by simpa using hentries),
              hno (by simpa using hsorted)]
            exact .reordered rfl (hp.map _)
    rw [Table.written_eq_get ⟨hk₂, hk₁, hk₄⟩, Table.written_eq_get ⟨hk₂, hk₁, hk₄⟩,
      d.get_declaration, if_neg hk₁, if_neg hk₄]
    by_cases hk₅ : key ∈ ["workspace", "git", "tag"]
    · rw [hplain key hk₅]
      exact .same _
    · have hk : key ∉ allowedKeys := by
        simp_all [allowedKeys]
      rw [get_eq_none_of_all hkeys hk, d.source.get_entries (Or.inl ?_)]
      · exact .same _
      · simp_all

end Matcher

/-- **A dependency matches its own declaration.** -/
theorem matches_declaration (d : CargoDependency) :
    cargoDependencyMatches (cargoDependencyValue d) d = true := by
  have hkeys : d.declaration.all (fun e => allowedKeys.contains e.1) = true := by
    have hsource : d.source.entries.all (fun e => allowedKeys.contains e.1) = true := by
      rcases d.source with _ | version | ⟨repository, version, _ | _⟩ <;> rfl
    have hoptional : (if d.optional then [("optional", Item.boolean true)] else []).all
        (fun e => allowedKeys.contains e.1) = true := by
      cases d.optional <;> rfl
    have hfeatures : (if d.features = ∅ then []
          else [("features", Item.array ((d.features.sort (· ≤ ·)).map .string))]).all
        (fun e => allowedKeys.contains e.1) = true := by
      split <;> rfl
    rw [CargoDependency.declaration, List.all_append, List.all_append, hsource, hoptional, hfeatures]
    rfl
  have hsource : sourceMatches d.declaration d.source = true := by
    rcases hs : d.source with _ | version | ⟨repository, version, _ | _⟩ <;>
      simp [sourceMatches, flagMatches, d.get_declaration, hs, CargoDependencySource.entries,
        Table.get_cons, Item.asBool, Item.asStr]
  have hoptional : flagMatches d.declaration "optional" false d.optional = true := by
    rw [flagMatches_eq_true, d.get_declaration]
    cases d.optional <;> simp
  have hfeatures : featuresMatch d.declaration d.features = true := by
    rw [featuresMatch_eq_true, d.get_declaration]
    simp only [String.reduceEq, if_false, if_true]
    by_cases he : d.features = ∅
    · exact Or.inl ⟨if_pos he, he⟩
    · exact Or.inr ⟨_, if_neg he, .refl _⟩
  simp only [cargoDependencyMatches, cargoDependencyValue, Item.asTableLike, hkeys, hsource,
    hoptional, hfeatures, Bool.and_self]

/-- The entries of a source are its own. -/
theorem source_eq_of_matches {d : CargoDependency} {source : CargoDependencySource}
    (h : sourceMatches d.declaration source = true) : source = d.source := by
  rcases hs : d.source with _ | version | ⟨repository, version, _ | _⟩ <;>
    rcases source with _ | version' | ⟨repository', version', _ | _⟩ <;>
    simp_all [sourceMatches, flagMatches, d.get_declaration, CargoDependencySource.entries,
      Table.get_cons, Item.asBool, Item.asStr]

/-- **A declaration is matched by one dependency of its name.** -/
theorem eq_of_matches_declaration {d d' : CargoDependency} (hname : d'.name = d.name)
    (h : cargoDependencyMatches (cargoDependencyValue d) d' = true) : d' = d := by
  simp only [cargoDependencyMatches, cargoDependencyValue, Item.asTableLike, Bool.and_eq_true] at h
  obtain ⟨⟨⟨-, hsource⟩, hoptional⟩, hfeatures⟩ := h
  have hs : d'.source = d.source := source_eq_of_matches hsource
  have ho : d'.optional = d.optional := by
    have := flagMatches_eq_true.1 hoptional
    rw [d.get_declaration] at this
    cases hd : d.optional <;> simp_all
  have hf : d'.features = d.features := by
    have := featuresMatch_eq_true.1 hfeatures
    rw [d.get_declaration] at this
    simp only [String.reduceEq, if_false, if_true] at this
    rcases this with ⟨hget, hempty⟩ | ⟨entries, hget, hp⟩
    · by_cases he : d.features = ∅
      · rw [hempty, he]
      · rw [if_neg he] at hget
        cases hget
    · by_cases he : d.features = ∅
      · rw [if_pos he] at hget
        cases hget
      · rw [if_neg he] at hget
        have hentries : d.features.sort (· ≤ ·) = entries :=
          List.map_injective_iff.2 (fun _ _ => Item.string.inj) (Item.array.inj (Option.some.inj hget))
        rw [← Finset.sort_toFinset d.features (· ≤ ·), ← Finset.sort_toFinset d'.features (· ≤ ·),
          hentries, List.toFinset_eq_of_perm _ _ hp]
  cases d
  cases d'
  simp_all

/-! ### Transitions -/

section Transition

variable {source target : CargoDependency}

/-- The declarations of two releases differ in the tag. -/
theorem get_declaration_of_sameContract (h : sameContract source target = true) :
    ∃ repository version defaultFeatures,
      target.source = .frameworkRelease repository version defaultFeatures ∧
        target.name = source.name ∧ ∀ key, target.declaration.get key =
          if key = "tag" then some (.string version) else source.declaration.get key := by
  rcases hs : source.source with _ | _ | ⟨repository, version, defaultFeatures⟩ <;>
    rcases ht : target.source with _ | _ | ⟨repository', version', defaultFeatures'⟩ <;>
    simp only [sameContract, hs, ht, Bool.false_eq_true, Bool.and_eq_true, beq_iff_eq] at h
  obtain ⟨⟨⟨⟨⟨hname, hoptional⟩, hfeatures⟩, rfl⟩, rfl⟩, -⟩ := h
  refine ⟨_, _, _, rfl, hname.symm, fun key => ?_⟩
  rw [target.get_declaration, source.get_declaration, hs, ht, hoptional, hfeatures]
  by_cases hk : key = "tag"
  · subst hk
    cases defaultFeatures <;> rfl
  · rw [if_neg hk]
    cases defaultFeatures <;> simp [CargoDependencySource.entries, Table.get_cons, hk]

/-- **What a transition keeps.**  Moving the tag of a matched declaration gives the new
declaration exactly when the old one was the dependency's. -/
theorem sameDeclaration_transition_iff {existing : Item} {t : Table} {version : String}
    (he : existing.asTableLike = some t) (h : cargoDependencyMatches existing source = true)
    (hv : ∀ key, target.declaration.get key =
      if key = "tag" then some (.string version) else source.declaration.get key) :
    SameDeclaration (t.insert "tag" (.string version)) target.declaration ↔
      Regular source.source t := by
  rw [← sameDeclaration_iff he h]
  have htag : SameEntry "tag" (t.written "tag") (source.declaration.written "tag") := by
    rw [cargoDependencyMatches, he] at h
    simp only [Bool.and_eq_true] at h
    obtain ⟨hplain, -, -⟩ := sourceMatches_eq_true h.1.1.2
    rw [Table.written_eq_get (by decide), Table.written_eq_get (by decide), source.get_declaration,
      hplain "tag" (by decide)]
    exact .same _
  refine forall_congr' fun key => ?_
  by_cases hk : key = "tag"
  · subst hk
    refine iff_of_true ?_ htag
    rw [Table.written, Table.written, Table.get_insert, hv]
    exact .same _
  · rw [Table.written, Table.written, Table.get_insert, hv, if_neg hk, if_neg hk]
    rfl

end Transition

/-- A document after a transition: the declaration of the target stands in the place of
the one that was there, and the rest is untouched. -/
structure Moved {Document : Type} (toml : TomlEdit Document) (sec : CargoDependencySection)
    (source target : CargoDependency) (document document' : Document) (t : Table) : Prop where
  found : ((toml.root document).find? sec.tablePath).bind (fun table =>
    (table.get source.name).bind Item.asTableLike) = some t
  replaced : toml.root document' = (toml.root document).modifyAt
    (fun table => table.insert target.name (.inlineTable target.declaration)) sec.tablePath

section Plan

variable {Document D : Type} [ContentDigest D] [DecidableEq D] {toml : TomlEdit Document}
  {path : String} {observedSource : Bytes} {sec : CargoDependencySection}
  {source target : CargoDependency} {kind : StructuredEditKind} {edit : StructuredFileEdit D}

/-- What a planned transition has found, and what it writes. -/
theorem planCargoDependencyTransition_eq_ok
    (h : planCargoDependencyTransition toml path observedSource sec source target =
      .ok (.planned kind edit)) :
    sameContract source target = true ∧ ∃ text document document' existing t,
      fromUtf8 observedSource = some text ∧ toml.parse text = some document ∧
        existing.asTableLike = some t ∧ cargoDependencyMatches existing source = true ∧
        Moved toml sec source target document document' t ∧
        edit.content = intoBytes (toml.print document') := by
  obtain ⟨path', -, h⟩ := bind_eq_ok.1 h
  obtain ⟨_, -, h⟩ := bind_eq_ok.1 h
  obtain ⟨_, -, h⟩ := bind_eq_ok.1 h
  dsimp only at h
  split at h
  swap
  · cases h
  obtain ⟨hcontract, h⟩ := guarded_eq_ok.1 h
  obtain ⟨document, hdocument, h⟩ := bind_eq_ok.1 h
  obtain ⟨table, htable, h⟩ := bind_eq_ok.1 h
  refine ⟨by simpa using hcontract, ?_⟩
  unfold parseToml at hdocument
  split at hdocument
  · cases hdocument
  next text htext =>
  split at hdocument
  · cases hdocument
  next hparse =>
  obtain rfl := Except.ok.inj hdocument
  unfold findTable at htable
  split at htable
  · cases htable
  next hfind =>
  obtain rfl := Except.ok.inj htable
  split at h
  · cases h
  next existing hexisting =>
  obtain ⟨hmatches, h⟩ := guarded_eq_ok.1 h
  have hmatches : cargoDependencyMatches existing source = true := by simpa using hmatches
  obtain ⟨edit', he, -, hcontent⟩ := planned_eq_ok h
  cases he
  cases ht : existing.asTableLike with
  | none =>
      rw [cargoDependencyMatches, ht] at hmatches
      cases hmatches
  | some t =>
      refine ⟨text, _, _, existing, t, htext, hparse, ht, hmatches, ⟨?_, ?_⟩, hcontent⟩
      · rw [hfind, Option.bind_some, hexisting, Option.bind_some, ht]
      · exact toml.root_insert _ _ _ _ (by rw [hfind]; rfl)

end Plan

/-- **Dependency matching, and where it is exact.**  A declaration that a dependency
matches is its own, up to defaults and the order of features, exactly when it is
regular; the encoder's declaration is matched by its own dependency and by no other
of that name; and a planned transition replaces the declaration it has matched by the
same one with the new tag exactly when that one was regular. -/
theorem dependency_matching_iff {Document D : Type} [ContentDigest D] [DecidableEq D]
    (toml : TomlEdit Document) (d : CargoDependency) :
    (∀ (existing : Item) (t : Table), existing.asTableLike = some t →
      cargoDependencyMatches existing d = true →
        (SameDeclaration t d.declaration ↔ Regular d.source t)) ∧
    (cargoDependencyMatches (cargoDependencyValue d) d = true ∧
      ∀ d' : CargoDependency, d'.name = d.name →
        cargoDependencyMatches (cargoDependencyValue d) d' = true → d' = d) ∧
    ∀ (path : String) (observedSource : Bytes) (sec : CargoDependencySection)
      (target : CargoDependency) (kind : StructuredEditKind) (edit : StructuredFileEdit D),
      planCargoDependencyTransition toml path observedSource sec d target =
        .ok (.planned kind edit) →
      ∃ text document document' t repository version defaultFeatures,
        fromUtf8 observedSource = some text ∧ toml.parse text = some document ∧
          target.source = .frameworkRelease repository version defaultFeatures ∧
          edit.content = intoBytes (toml.print document') ∧
          Moved toml sec d target document document' t ∧
          (SameDeclaration (t.insert "tag" (.string version)) target.declaration ↔
            Regular d.source t) := by
  refine ⟨fun existing t he h => sameDeclaration_iff he h,
    ⟨matches_declaration d, fun d' hname h => eq_of_matches_declaration hname h⟩, ?_⟩
  intro path observedSource sec target kind edit h
  obtain ⟨hcontract, text, document, document', existing, t, htext, hparse, ht, hmatches, hmoved,
    hcontent⟩ := planCargoDependencyTransition_eq_ok h
  obtain ⟨_, version, _, htarget, -, hget⟩ := get_declaration_of_sameContract hcontract
  exact ⟨text, document, document', t, _, version, _, htext, hparse, htarget, hcontent, hmoved,
    sameDeclaration_transition_iff ht hmatches hget⟩

/-- A release of the HTTP crate of the framework. -/
def httpRelease (version : String) : CargoDependency :=
  ⟨"hegira_http", .frameworkRelease "https://github.com/example/framework" version true, false, ∅⟩

/-- Its declaration, with further entries. -/
def httpDeclaration (extra : Table) : Item :=
  .inlineTable ([("git", .string "https://github.com/example/framework"),
    ("tag", .string "v0.6.0")] ++ extra)

/-- A string as it is written in a document. -/
def quoted (text : String) : String := "\"" ++ text ++ "\""

/-- A manifest whose dependencies are all inline tables of strings. -/
def workspaceManifest (dependencies : Table) : String :=
  "[workspace.dependencies]\n" ++ String.join (dependencies.map fun e =>
    e.1 ++ " = \x7b " ++ ", ".intercalate ((e.2.asTableLike.getD []).map fun e =>
      e.1 ++ " = " ++ quoted (e.2.asStr.getD "")) ++ " \x7d\n")

/-- The root table of such a manifest. -/
def workspaceRoot (dependencies : Table) : Table :=
  [("workspace", .table [("dependencies", .table dependencies)])]

/-- `toml_edit` on the manifest with one release of the HTTP crate. -/
def manifestToml : TomlEdit Table where
  parse text :=
    if text = workspaceManifest [("hegira_http", httpDeclaration [])] then
      some (workspaceRoot [("hegira_http", httpDeclaration [])])
    else none
  print document := workspaceManifest ((document.find? ["workspace", "dependencies"]).getD [])
  root := id
  insert document path key item := document.modifyAt (fun t => t.insert key item) path
  root_insert _ _ _ _ _ := rfl

/-- The outcome is planned. -/
def StructuredEditOutcome.isPlanned : StructuredEditOutcome PlainDigest → Bool
  | .planned _ _ => true
  | .alreadyPresent _ _ => false

theorem StructuredEditOutcome.exists_of_isPlanned
    {r : Except StructuredEditError (StructuredEditOutcome PlainDigest)}
    (h : r.toOption.any isPlanned = true) : ∃ kind edit, r = .ok (.planned kind edit) := by
  rcases r with _ | ⟨kind, edit⟩ | _
  · cases h
  · exact ⟨kind, edit, rfl⟩
  · cases h

/-- A plain declaration, its release, and the transition to the next one. -/
theorem dependency_matching_iff_http :
    (SameDeclaration (httpRelease "v0.6.0").declaration (httpRelease "v0.6.0").declaration ↔
      Regular (httpRelease "v0.6.0").source (httpRelease "v0.6.0").declaration) ∧
    (∀ d', d'.name = (httpRelease "v0.6.0").name →
      cargoDependencyMatches (cargoDependencyValue (httpRelease "v0.6.0")) d' = true →
        d' = httpRelease "v0.6.0") ∧
    ∃ (kind : StructuredEditKind) (edit : StructuredFileEdit PlainDigest),
      planCargoDependencyTransition manifestToml "Cargo.toml"
          (intoBytes (workspaceManifest [("hegira_http", httpDeclaration [])]))
          .workspaceDependencies (httpRelease "v0.6.0") (httpRelease "v0.7.0") =
        .ok (.planned kind edit) ∧
      ∃ document t, manifestToml.parse (workspaceManifest [("hegira_http", httpDeclaration [])]) =
          some document ∧
        (SameDeclaration (t.insert "tag" (.string "v0.7.0")) (httpRelease "v0.7.0").declaration ↔
          Regular (httpRelease "v0.6.0").source t) := by
  obtain ⟨hmatched, ⟨-, honly⟩, hmoved⟩ :=
    dependency_matching_iff (D := PlainDigest) manifestToml (httpRelease "v0.6.0")
  refine ⟨hmatched (httpDeclaration []) _ rfl (by decide +kernel), honly, ?_⟩
  obtain ⟨kind, edit, h⟩ := StructuredEditOutcome.exists_of_isPlanned
    (r := planCargoDependencyTransition (D := PlainDigest) manifestToml "Cargo.toml"
      (intoBytes (workspaceManifest [("hegira_http", httpDeclaration [])]))
      .workspaceDependencies (httpRelease "v0.6.0") (httpRelease "v0.7.0")) (by decide +kernel)
  obtain ⟨text, document, _, t, _, version, _, htext, hparse, htarget, -, -, hsame⟩ :=
    hmoved _ _ _ _ kind edit h
  rw [fromUtf8_intoBytes] at htext
  obtain rfl := Option.some.inj htext
  cases htarget
  exact ⟨kind, edit, h, document, t, hparse, hsame⟩

/-- **What the matcher lets pass.**  The release of the HTTP crate is valid; it matches
a declaration with a version of its own, and declarations whose flags are strings. -/
theorem irregular_declaration_matched :
    validateCargoDependency .workspaceDependencies (httpRelease "v0.6.0") draftPath = .ok () ∧
    ¬(∀ (d : CargoDependency) (existing : Item) (t : Table), existing.asTableLike = some t →
      cargoDependencyMatches existing d = true → SameDeclaration t d.declaration) ∧
    ∀ extra ∈ [[("version", Item.string "1.2.3")], [("optional", .string "yes")],
        [("default-features", .string "no")]],
      cargoDependencyMatches (httpDeclaration extra) (httpRelease "v0.6.0") = true ∧
        ∀ t, (httpDeclaration extra).asTableLike = some t →
          ¬SameDeclaration t (httpRelease "v0.6.0").declaration := by
  have hextra : ∀ extra ∈ [[("version", Item.string "1.2.3")], [("optional", .string "yes")],
        [("default-features", .string "no")]],
      cargoDependencyMatches (httpDeclaration extra) (httpRelease "v0.6.0") = true ∧
        ∀ t, (httpDeclaration extra).asTableLike = some t →
          ¬SameDeclaration t (httpRelease "v0.6.0").declaration := by
    intro extra hextra
    have hmatches : cargoDependencyMatches (httpDeclaration extra) (httpRelease "v0.6.0") = true := by
      simp only [List.mem_cons, List.not_mem_nil, or_false] at hextra
      rcases hextra with rfl | rfl | rfl <;> decide +kernel
    refine ⟨hmatches, fun t ht hsame => ?_⟩
    have hregular := (sameDeclaration_iff ht hmatches).1 hsame
    cases ht
    simp only [List.mem_cons, List.not_mem_nil, or_false] at hextra
    rcases hextra with rfl | rfl | rfl
    · cases hregular.version nofun
    · obtain ⟨value, h⟩ := hregular.optional (.string "yes") rfl
      cases h
    · obtain ⟨value, h⟩ := hregular.defaultFeatures (.string "no") rfl
      cases h
  refine ⟨by decide +kernel, fun hall => ?_, hextra⟩
  obtain ⟨hmatches, hsame⟩ := hextra _ List.mem_cons_self
  exact hsame _ rfl (hall _ _ _ rfl hmatches)

end Mutator
end Hegira
