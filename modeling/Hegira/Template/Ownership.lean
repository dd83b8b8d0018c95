/-
# Ownership of source files

`SourceOwnership::validate` of `crates/application_manifest/src/lib.rs` compares the
paths of the claims as texts.  What a claim is for is said on segments: it covers the
file at its path and every file below it.  On the paths that the validation accepts
the two agree (`ownershipPathsOverlap_iff`), since an accepted path is its segments
joined by slashes and no segment has a slash.

The validation accepts exactly the lists of valid claims in which two claims over one
file are one path shared by two managed integrations (`validate_eq_ok_iff`), so the
owner of every file is unambiguous (`ownership_unambiguous`).
-/

import Mathlib.Data.List.Pairwise
import Hegira.Library.Validation
import Hegira.Template.ApplicationManifest

namespace Hegira
namespace Template

open Mutator (Component components normalizedSegments normalizedSegments_eq_ok)
open Validation

/-! ### Names joined by slashes -/

section Joined

variable {names others : List String}

theorem splitOn_join (hnames : ∀ name ∈ names, '/' ∉ name.toList) (hne : names ≠ []) :
    ("/".intercalate names).toList.splitOn '/' = names.map String.toList := by
  rw [String.toList_intercalate]
  refine List.splitOn_intercalate '/' ?_ (by simpa using hne)
  intro segment hsegment
  obtain ⟨name, hname, rfl⟩ := List.mem_map.1 hsegment
  exact hnames name hname

theorem join_injective (hnames : ∀ name ∈ names, '/' ∉ name.toList) (hne : names ≠ [])
    (hothers : ∀ name ∈ others, '/' ∉ name.toList) (hne' : others ≠ []) :
    "/".intercalate names = "/".intercalate others ↔ names = others := by
  refine ⟨fun h => ?_, congrArg _⟩
  have hsplit := splitOn_join hnames hne
  rw [h, splitOn_join hothers hne'] at hsplit
  exact (List.map_injective_iff.2 (fun _ _ => String.toList_inj.1) hsplit).symm

/-- A joined text followed by a slash starts another one when the names of the first
start the names of the second and the second has more. -/
theorem join_slash_isPrefixOf (hnames : ∀ name ∈ names, '/' ∉ name.toList) (hne : names ≠ [])
    (hothers : ∀ name ∈ others, '/' ∉ name.toList) (hne' : others ≠ []) :
    ("/".intercalate names ++ "/").toList.isPrefixOf ("/".intercalate others).toList = true ↔
      ∃ rest, rest ≠ [] ∧ others = names ++ rest := by
  rw [List.isPrefixOf_iff_prefix]
  constructor
  · rintro ⟨suffix, h⟩
    have hsplit := splitOn_join hothers hne'
    rw [← h, String.toList_append, List.append_assoc] at hsplit
    change List.splitOn '/' (_ ++ '/' :: suffix) = _ at hsplit
    rw [List.splitOn_append_cons_self, splitOn_join hnames hne] at hsplit
    obtain ⟨front, rest, rfl, hfront, hrest⟩ := List.map_eq_append_iff.1 hsplit.symm
    obtain rfl := List.map_injective_iff.2 (fun _ _ => String.toList_inj.1) hfront
    refine ⟨rest, ?_, rfl⟩
    rintro rfl
    exact List.splitOn_ne_nil '/' suffix hrest.symm
  · rintro ⟨rest, hrest, rfl⟩
    rw [String.intercalate_append_of_ne_nil hne hrest, String.toList_append (t := "/".intercalate _)]
    exact List.prefix_append _ _

end Joined

/-! ### Accepted paths -/

/-- An accepted segment has no slash. -/
theorem slash_notMem_of_segmentOk {segment : String} (h : Mutator.segmentOk segment = true) :
    '/' ∉ segment.toList := by
  intro hslash
  simp only [Mutator.segmentOk, Bool.and_eq_true, List.all_eq_true] at h
  exact absurd (h.2 '/' hslash) (by decide)

theorem segmentOk_of_normalizedSegments {path : List Component} {names : List String}
    (h : normalizedSegments path = .ok names) : ∀ name ∈ names, Mutator.segmentOk name = true := by
  induction path generalizing names with
  | nil =>
      cases h
      exact nofun
  | cons component rest ih =>
      cases component with
      | normal segment =>
          simp only [normalizedSegments] at h
          split at h
          next hsegment =>
            obtain ⟨others, hothers, h⟩ := bind_eq_ok.1 h
            cases h
            exact List.forall_mem_cons.2 ⟨hsegment, ih hothers⟩
          · cases h
      | rootDir | curDir | parentDir => cases h

/-- An accepted path is its segments joined by slashes. -/
theorem exists_names_of_validateOwnershipPath {path : String}
    (h : validateOwnershipPath path = .ok ()) :
    ∃ names : List String, names ≠ [] ∧ (∀ name ∈ names, '/' ∉ name.toList) ∧
      components path = names.map .normal ∧ "/".intercalate names = path := by
  unfold validateOwnershipPath at h
  obtain ⟨hguard, h⟩ := guarded_eq_ok.1 h
  obtain ⟨names, hnames, h⟩ := bind_eq_ok.1 h
  rw [mapError_eq_ok] at hnames
  have hjoin : "/".intercalate names = path := not_not.1 (guard_eq_ok.1 h)
  refine ⟨names, ?_, fun name hname =>
    slash_notMem_of_segmentOk (segmentOk_of_normalizedSegments hnames name hname),
    normalizedSegments_eq_ok hnames, hjoin⟩
  rintro rfl
  exact hguard (by rw [← hjoin]; decide)

/-- **Text prefixes are segment prefixes.**  On accepted paths the textual test holds
when one path is the other or an ancestor of it. -/
theorem ownershipPathsOverlap_iff {left right : String}
    (hleft : validateOwnershipPath left = .ok ())
    (hright : validateOwnershipPath right = .ok ()) :
    ownershipPathsOverlap left right = true ↔
      components left <+: components right ∨ components right <+: components left := by
  obtain ⟨ls, hls, hlslash, hlcomponents, rfl⟩ := exists_names_of_validateOwnershipPath hleft
  obtain ⟨rs, hrs, hrslash, hrcomponents, rfl⟩ := exists_names_of_validateOwnershipPath hright
  have hinjective : Function.Injective Component.normal := fun _ _ => Component.normal.inj
  rw [hlcomponents, hrcomponents, List.prefix_map_iff_of_injective hinjective,
    List.prefix_map_iff_of_injective hinjective, ownershipPathsOverlap, Bool.or_eq_true,
    Bool.or_eq_true, beq_iff_eq, join_injective hlslash hls hrslash hrs,
    join_slash_isPrefixOf hrslash hrs hlslash hls, join_slash_isPrefixOf hlslash hls hrslash hrs]
  constructor
  · rintro ((rfl | ⟨rest, -, rfl⟩) | ⟨rest, -, rfl⟩)
    · exact .inl List.prefix_rfl
    · exact .inr (List.prefix_append _ _)
    · exact .inl (List.prefix_append _ _)
  · rintro (⟨rest, rfl⟩ | ⟨rest, rfl⟩)
    · rcases eq_or_ne rest [] with rfl | hrest
      · exact .inl (.inl (List.append_nil _).symm)
      · exact .inr ⟨rest, hrest, rfl⟩
    · rcases eq_or_ne rest [] with rfl | hrest
      · exact .inl (.inl (List.append_nil _))
      · exact .inl (.inr ⟨rest, hrest, rfl⟩)

/-! ### Claims over files -/

namespace SourceOwnershipClaim

/-- The claim is about `file`: its path is the file's, or one of its ancestors. -/
def Covers (claim : SourceOwnershipClaim) (file : String) : Prop :=
  components claim.path <+: components file

instance (claim : SourceOwnershipClaim) (file : String) : Decidable (claim.Covers file) :=
  inferInstanceAs (Decidable (_ <+: _))

/-- Two managed integrations on one path. -/
def Shares (left right : SourceOwnershipClaim) : Prop :=
  left.path = right.path ∧ left.class = .managedIntegration ∧
    right.class = .managedIntegration ∧ left.integration ≠ right.integration

instance (left right : SourceOwnershipClaim) : Decidable (left.Shares right) :=
  inferInstanceAs (Decidable (_ ∧ _ ∧ _ ∧ _))

/-- A claim that is accepted on its own. -/
def Valid (claim : SourceOwnershipClaim) : Prop :=
  validateOwnershipPath claim.path = .ok () ∧ claim.validateIntegration = .ok ()

variable {claim left right : SourceOwnershipClaim}

instance : Std.Symm Shares := ⟨fun _ _ h => ⟨h.1.symm, h.2.2.1, h.2.1, h.2.2.2.symm⟩⟩

/-- Claims over one file have paths one of which is in the other. -/
theorem exists_covers_iff : (∃ file, left.Covers file ∧ right.Covers file) ↔
    components left.path <+: components right.path ∨
      components right.path <+: components left.path := by
  constructor
  · rintro ⟨file, hleft, hright⟩
    exact List.prefix_or_prefix_of_prefix hleft hright
  · rintro (h | h)
    · exact ⟨right.path, h, List.prefix_rfl⟩
    · exact ⟨left.path, List.prefix_rfl, h⟩

/-- On claims that differ in path or integration the second loop stops at the pairs
that cover a common file and do not share a path. -/
theorem conflicts_eq_false_iff (hleft : left.Valid) (hright : right.Valid)
    (hne : (left.path, left.integration) ≠ (right.path, right.integration)) :
    left.conflicts right = false ↔
      ((∃ file, left.Covers file ∧ right.Covers file) → left.Shares right) := by
  rw [exists_covers_iff, ← ownershipPathsOverlap_iff hleft.1 hright.1, conflicts]
  have hshares : left.Shares right ↔ (left.path == right.path && left.class == .managedIntegration
      && right.class == .managedIntegration) = true := by
    simp only [Bool.and_eq_true, beq_iff_eq]
    refine ⟨fun h => ⟨⟨h.1, h.2.1⟩, h.2.2.1⟩, fun h => ⟨h.1.1, h.1.2, h.2, fun hint => ?_⟩⟩
    exact hne (Prod.ext h.1.1 hint)
  rw [hshares]
  cases ownershipPathsOverlap left.path right.path <;> simp

theorem Valid.integration_isSome (h : claim.Valid) (hclass : claim.class = .managedIntegration) :
    claim.integration.isSome = true := by
  have hintegration := h.2
  unfold validateIntegration at hintegration
  rw [hclass] at hintegration
  rcases hnone : claim.integration with _ | integration
  · rw [hnone] at hintegration
    cases hintegration
  · rfl

/-- One turn of the first loop accepts a valid claim under a new identity. -/
theorem validate_eq_ok_iff {identities after : Finset (String × Option String)} :
    claim.validate identities = .ok after ↔ claim.Valid ∧
      (claim.path, claim.integration) ∉ identities ∧
      insert (claim.path, claim.integration) identities = after := by
  unfold SourceOwnershipClaim.validate
  constructor
  · intro h
    obtain ⟨⟨⟩, hpath, h⟩ := bind_eq_ok.1 h
    obtain ⟨⟨⟩, hintegration, h⟩ := bind_eq_ok.1 h
    obtain ⟨hnew, h⟩ := guarded_eq_ok.1 h
    exact ⟨⟨hpath, hintegration⟩, hnew, pure_eq_ok.1 h⟩
  · rintro ⟨⟨hpath, hintegration⟩, hnew, rfl⟩
    exact bind_eq_ok.2 ⟨_, hpath, bind_eq_ok.2 ⟨_, hintegration, guarded_eq_ok.2 ⟨hnew, rfl⟩⟩⟩

end SourceOwnershipClaim

/-! ### The two loops -/

section Loops

variable {claims : List SourceOwnershipClaim}

/-- The first loop accepts valid claims with different identities. -/
theorem foldlM_validate_eq_ok_iff {identities : Finset (String × Option String)} :
    (∃ after, claims.foldlM SourceOwnershipClaim.validate identities = .ok after) ↔
      (∀ claim ∈ claims, claim.Valid) ∧
      (∀ claim ∈ claims, (claim.path, claim.integration) ∉ identities) ∧
      claims.Pairwise fun left right =>
        (left.path, left.integration) ≠ (right.path, right.integration) := by
  induction claims generalizing identities with
  | nil => exact ⟨fun _ => ⟨nofun, nofun, .nil⟩, fun _ => ⟨_, rfl⟩⟩
  | cons claim claims ih =>
      simp only [foldlM_cons_eq_ok, SourceOwnershipClaim.validate_eq_ok_iff,
        List.forall_mem_cons, List.pairwise_cons]
      constructor
      · rintro ⟨after, _, ⟨hvalid, hnew, rfl⟩, h⟩
        obtain ⟨hvalids, hothers, hpairs⟩ := ih.1 ⟨after, h⟩
        refine ⟨⟨hvalid, hvalids⟩, ⟨hnew, fun other hother hmem => ?_⟩, ?_, hpairs⟩
        · exact hothers other hother (Finset.mem_insert_of_mem hmem)
        · intro other hother heq
          exact hothers other hother (heq ▸ Finset.mem_insert_self _ _)
      · rintro ⟨⟨hvalid, hvalids⟩, ⟨hnew, hothers⟩, hfirst, hpairs⟩
        have hlater : ∀ other ∈ claims, (other.path, other.integration) ∉
            insert (claim.path, claim.integration) identities := by
          intro other hother hmem
          rcases Finset.mem_insert.1 hmem with heq | hmem
          · exact hfirst other hother heq.symm
          · exact hothers other hother hmem
        obtain ⟨after, h⟩ := ih.2 ⟨hvalids, hlater, hpairs⟩
        exact ⟨after, _, ⟨hvalid, hnew, rfl⟩, h⟩

/-- The second loop compares every claim with the later ones. -/
theorem rejectOverlaps_eq_ok_iff : rejectOverlaps claims = .ok () ↔
    claims.Pairwise fun left right => left.conflicts right = false := by
  induction claims with
  | nil => exact ⟨fun _ => .nil, fun _ => rfl⟩
  | cons left claims ih =>
      rw [rejectOverlaps, List.pairwise_cons]
      rcases hfind : claims.find? left.conflicts with _ | right
      · rw [← ih]
        have hnone := List.find?_eq_none.1 hfind
        exact ⟨fun h => ⟨fun right hright => by simpa using hnone right hright, h⟩, fun h => h.2⟩
      · have hconflict := List.find?_some hfind
        have hmem := List.mem_of_find?_eq_some hfind
        refine ⟨nofun, fun h => ?_⟩
        rw [h.1 right hmem] at hconflict
        cases hconflict

end Loops

namespace SourceOwnership

variable {ownership : SourceOwnership}

/-- The claims over one file. -/
def covering (ownership : SourceOwnership) (file : String) : List SourceOwnershipClaim :=
  ownership.claims.filter fun claim => claim.Covers file

/-- **What the validation accepts.**  Valid claims, two of which are over one file only
when they share a path. -/
theorem validate_eq_ok_iff : ownership.validate = .ok () ↔
    ownership.default = .applicationOwned ∧ ownership.claims.length ≤ 4096 ∧
    (∀ claim ∈ ownership.claims, claim.Valid) ∧
    ownership.claims.Pairwise fun left right =>
      (∃ file, left.Covers file ∧ right.Covers file) → left.Shares right := by
  have hloops : (∃ after, ownership.claims.foldlM SourceOwnershipClaim.validate ∅ = .ok after ∧
      rejectOverlaps ownership.claims = .ok ()) ↔ (∀ claim ∈ ownership.claims, claim.Valid) ∧
      ownership.claims.Pairwise fun left right =>
        (∃ file, left.Covers file ∧ right.Covers file) → left.Shares right := by
    rw [exists_and_right, foldlM_validate_eq_ok_iff, rejectOverlaps_eq_ok_iff]
    constructor
    · rintro ⟨⟨hvalid, -, hne⟩, hconflicts⟩
      refine ⟨hvalid, (hne.and hconflicts).imp_of_mem fun hleft hright h => ?_⟩
      exact (SourceOwnershipClaim.conflicts_eq_false_iff (hvalid _ hleft) (hvalid _ hright) h.1).1 h.2
    · rintro ⟨hvalid, hshares⟩
      -- claims under one identity would share their path with one integration
      have hne : ownership.claims.Pairwise fun left right =>
          (left.path, left.integration) ≠ (right.path, right.integration) := by
        refine hshares.imp fun {left right} h heq => ?_
        obtain ⟨hpath, hintegration⟩ := Prod.mk.inj heq
        have hpre : components left.path <+: components right.path := by rw [hpath]
        exact (h (SourceOwnershipClaim.exists_covers_iff.2 (.inl hpre))).2.2.2 hintegration
      refine ⟨⟨hvalid, fun _ _ => Finset.notMem_empty _, hne⟩, ?_⟩
      refine (hne.and hshares).imp_of_mem fun hleft hright h => ?_
      exact (SourceOwnershipClaim.conflicts_eq_false_iff (hvalid _ hleft) (hvalid _ hright) h.1).2 h.2
  rw [← hloops]
  unfold SourceOwnership.validate
  constructor
  · intro h
    obtain ⟨hdefault, h⟩ := guarded_eq_ok.1 h
    obtain ⟨hlength, h⟩ := guarded_eq_ok.1 h
    obtain ⟨after, hfold, h⟩ := bind_eq_ok.1 h
    exact ⟨not_not.1 hdefault, Nat.le_of_not_lt hlength, after, hfold, h⟩
  · rintro ⟨hdefault, hlength, after, hfold, h⟩
    exact guarded_eq_ok.2 ⟨not_not.2 hdefault, guarded_eq_ok.2 ⟨Nat.not_lt.2 hlength,
      bind_eq_ok.2 ⟨after, hfold, h⟩⟩⟩

theorem pairwise_covering (h : ownership.claims.Pairwise fun left right =>
      (∃ file, left.Covers file ∧ right.Covers file) → left.Shares right) (file : String) :
    (ownership.covering file).Pairwise SourceOwnershipClaim.Shares :=
  (h.sublist List.filter_sublist).imp_of_mem fun hleft hright hpair =>
    hpair ⟨file, of_decide_eq_true (List.mem_filter.1 hleft).2,
      of_decide_eq_true (List.mem_filter.1 hright).2⟩

/-- **Ownership is unambiguous.**  The claims of an accepted ownership that are over one
file have one path and one class; there are several only on a path that different managed
integrations share.  A list with two claims over one file that do not share a path so is
refused. -/
theorem ownership_unambiguous (ownership : SourceOwnership) :
    (ownership.validate = .ok () → ∀ file,
      (∀ left ∈ ownership.covering file, ∀ right ∈ ownership.covering file,
        left.path = right.path ∧ left.class = right.class) ∧
      (1 < (ownership.covering file).length →
        (∀ claim ∈ ownership.covering file,
          claim.class = .managedIntegration ∧ claim.integration.isSome = true) ∧
        ((ownership.covering file).map fun claim => claim.integration).Nodup)) ∧
    ∀ file left right, [left, right].Sublist (ownership.covering file) →
      ¬left.Shares right → ∃ e, ownership.validate = .error e := by
  refine ⟨fun h file => ?_, fun file left right hsub hshares => ?_⟩
  · obtain ⟨-, -, hvalid, hpairs⟩ := validate_eq_ok_iff.1 h
    have hcovering := pairwise_covering hpairs file
    have hone : ∀ left ∈ ownership.covering file, ∀ right ∈ ownership.covering file,
        left.path = right.path ∧ left.class = right.class := by
      intro left hleft right hright
      rcases eq_or_ne left right with rfl | hne
      · exact ⟨rfl, rfl⟩
      · have hshares := hcovering.forall hleft hright hne
        exact ⟨hshares.1, hshares.2.1.trans hshares.2.2.1.symm⟩
    refine ⟨hone, fun hlength => ?_⟩
    obtain ⟨first, second, rest, hlist⟩ : ∃ first second rest,
        ownership.covering file = first :: second :: rest := by
      match hlist : ownership.covering file, hlength with
      | first :: second :: rest, _ => exact ⟨first, second, rest, rfl⟩
    have hfirst : first ∈ ownership.covering file := by simp [hlist]
    have hmanaged : first.class = .managedIntegration := by
      rw [hlist, List.pairwise_cons] at hcovering
      exact (hcovering.1 second (by simp)).2.1
    refine ⟨fun claim hclaim => ?_, ?_⟩
    · have hclass := (hone claim hclaim first hfirst).2.trans hmanaged
      exact ⟨hclass, (hvalid claim (List.mem_of_mem_filter hclaim)).integration_isSome hclass⟩
    · exact List.pairwise_map.2 (hcovering.imp fun h => h.2.2.2)
  · rcases hrun : ownership.validate with e | ⟨⟩
    · exact ⟨e, rfl⟩
    · obtain ⟨-, -, -, hpairs⟩ := validate_eq_ok_iff.1 hrun
      have hpair := (pairwise_covering hpairs file).sublist hsub
      exact absurd (List.pairwise_pair.1 hpair) hshares

/-- Two managed integrations share one file beside a directory of the application. -/
theorem ownership_unambiguous_shared :
    let ownership : SourceOwnership := ⟨.applicationOwned,
      [⟨"crates/app", .applicationOwned, none⟩,
        ⟨"src/routes.rs", .managedIntegration, some "identity"⟩,
        ⟨"src/routes.rs", .managedIntegration, some "search"⟩]⟩
    ∀ left ∈ ownership.covering "src/routes.rs", ∀ right ∈ ownership.covering "src/routes.rs",
      left.path = right.path ∧ left.class = right.class :=
  ((ownership_unambiguous _).1 (by decide +kernel) _).1

end SourceOwnership

end Template
end Hegira
