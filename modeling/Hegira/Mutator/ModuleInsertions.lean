/-
# Module insertions

What a planned module does to a source.  The block of modules is declarations only, in
increasing order, and the sort of `plan_rust_module` in
`tools/application_mutator/src/editor.rs` puts the new one at its place among them
(`insertionSort_concat`), so modules are planned in any order as entries are.
-/

import Hegira.Mutator.ManagedInsertions

namespace Hegira
namespace Mutator

open KeyedPlacement (keys place)
open Validation

/-! ### The block of modules -/

/-- The modules of a source, between its head and its tail. -/
structure ModuleLayout (head : List (List Char)) (modules : List String)
    (tail : List (List Char)) : Prop where
  outer : ∀ line ∈ head ++ tail, line ≠ rustModulesStart.toList ∧ line ≠ rustModulesEnd.toList
  valid : ∀ module ∈ modules, validRustIdentifier module.toList = true
  increasing : modules.Pairwise (· < ·)

/-- The lines of a source with modules. -/
def moduleLines (head : List (List Char)) (modules : List String) (tail : List (List Char)) :
    List (List Char) :=
  head ++ rustModulesStart.toList ::
    (modules.map moduleLine ++ rustModulesEnd.toList :: tail)

/-- The modules after an insertion. -/
def insertedModule (module : String) (modules : List String) : List String :=
  place some module module modules

/-- A declaration is of one module. -/
theorem moduleLine_injective : Function.Injective moduleLine := by
  intro a b h
  unfold moduleLine at h
  rw [List.append_assoc, List.append_assoc, List.append_cancel_left_eq] at h
  exact String.toList_inj.1 (List.append_cancel_right h)

/-- A declaration is no marker. -/
theorem moduleLine_ne_marker (module : String) :
    moduleLine module ≠ rustModulesStart.toList ∧ moduleLine module ≠ rustModulesEnd.toList :=
  ⟨fun h => absurd (List.cons.inj h).1 (by decide), fun h => absurd (List.cons.inj h).1 (by decide)⟩

/-- A line declares a module when it is its declaration. -/
theorem declaredModule_eq_ok {path : ChangePath} {line : List Char} {module : String} :
    declaredModule path line = .ok module ↔
      line = moduleLine module ∧ validRustIdentifier module.toList = true := by
  unfold declaredModule
  constructor
  · intro h
    obtain ⟨hline, h⟩ := guarded_eq_ok.1 h
    obtain ⟨hvalid, h⟩ := guarded_eq_ok.1 h
    obtain rfl := pure_eq_ok.1 h
    simp only [Bool.not_eq_true', Bool.not_eq_false, Bool.and_eq_true, decide_eq_true_eq,
      List.isPrefixOf_iff_prefix] at hline hvalid
    obtain ⟨⟨rest, rfl⟩, hlast⟩ := hline
    rw [List.drop_left] at hlast hvalid ⊢
    obtain ⟨front, rfl⟩ := List.getLast?_eq_some_iff.1 hlast
    rw [List.dropLast_concat] at hvalid ⊢
    have hmodule : (String.ofList front).toList = front := String.toList_ofList
    unfold moduleLine
    rw [hmodule, List.append_assoc]
    exact ⟨rfl, hvalid⟩
  · rintro ⟨rfl, hvalid⟩
    have hstarts : "pub mod ".toList.isPrefixOf (moduleLine module) = true := by
      unfold moduleLine
      rw [List.isPrefixOf_iff_prefix, List.append_assoc]
      exact List.prefix_append _ _
    have hdrop : (moduleLine module).drop "pub mod ".toList.length = module.toList ++ [';'] := by
      unfold moduleLine
      rw [List.append_assoc]
      exact List.drop_left ..
    refine guarded_eq_ok.2 ⟨?_, guarded_eq_ok.2 ⟨?_, ?_⟩⟩
    · rw [hstarts, hdrop, List.getLast?_concat]
      decide
    · rw [hdrop, List.dropLast_concat, hvalid]
      decide
    · rw [hdrop, List.dropLast_concat, String.ofList_toList]
      rfl

theorem mapM_declaredModule_eq_ok {path : ChangePath} {lines : List (List Char)}
    {modules : List String} : lines.mapM (declaredModule path) = .ok modules ↔
      lines = modules.map moduleLine ∧
        ∀ module ∈ modules, validRustIdentifier module.toList = true := by
  rw [mapM_eq_ok]
  constructor
  · intro h
    induction h with
    | nil => exact ⟨rfl, nofun⟩
    | @cons line module lines modules hline _ ih =>
        obtain ⟨rfl, hvalid⟩ := declaredModule_eq_ok.1 hline
        obtain ⟨rfl, hothers⟩ := ih
        exact ⟨rfl, List.forall_mem_cons.2 ⟨hvalid, hothers⟩⟩
  · rintro ⟨rfl, hvalid⟩
    rw [List.forall₂_map_left_iff]
    exact List.forall₂_same.2 fun module hmodule =>
      declaredModule_eq_ok.2 ⟨rfl, hvalid module hmodule⟩

section Sorted

variable {module : String} {modules : List String}

/-- The keys of a list of modules. -/
theorem keys_some (modules : List String) : keys some modules = modules := List.filterMap_some

/-- A new module keeps the order. -/
theorem pairwise_insertedModule (hnew : module ∉ modules) (h : modules.Pairwise (· < ·)) :
    (insertedModule module modules).Pairwise (· < ·) := by
  have hpairwise : (keys some (insertedModule module modules)).Pairwise (· < ·) :=
    KeyedPlacement.pairwise_place rfl (by rwa [keys_some]) (by rwa [keys_some])
  rwa [keys_some] at hpairwise

/-- It adds itself only. -/
theorem mem_insertedModule {other : String} :
    other ∈ insertedModule module modules ↔ other = module ∨ other ∈ modules := by
  have hmem := @KeyedPlacement.mem_keys_place _ _ _ some module module modules rfl other
  rwa [keys_some, keys_some] at hmem

/-- The sort puts a new module at its place. -/
theorem insertionSort_concat (hnew : module ∉ modules) (h : modules.Pairwise (· < ·)) :
    (modules ++ [module]).insertionSort (· ≤ ·) = insertedModule module modules := by
  have hpairwise := pairwise_insertedModule hnew h
  have hnodup : (modules ++ [module]).Nodup :=
    List.nodup_append'.2 ⟨h.imp ne_of_lt, List.nodup_singleton _, by simpa using hnew⟩
  have hperm : ((modules ++ [module]).insertionSort (· ≤ ·)).Perm
      (insertedModule module modules) := by
    refine (List.perm_insertionSort _ _).trans
      ((List.perm_ext_iff_of_nodup hnodup (hpairwise.imp ne_of_lt)).2 fun other => ?_)
    rw [mem_insertedModule, List.mem_append, List.mem_singleton, or_comm]
  exact hperm.eq_of_pairwise (fun _ _ _ _ hab hba => le_antisymm hab hba)
    (List.pairwise_insertionSort ..) (hpairwise.imp le_of_lt)

end Sorted

/-! ### Insertions -/

section Insert

variable {path : ChangePath} {module module' : String} {lines : List (List Char)}
  {head tail : List (List Char)} {modules : List String}

/-- No line outside of the block declares a module. -/
def Undeclared (module : String) (head tail : List (List Char)) : Prop :=
  ∀ line ∈ head ++ tail, trim line ≠ moduleLine module

/-- A declaration outside the block, as a property. -/
theorem any_declared_iff : (head ++ tail).any (fun line =>
    decide (trim line = moduleLine module)) = true ↔ ¬Undeclared module head tail := by
  simp only [List.any_eq_true, decide_eq_true_eq, Undeclared, not_forall, not_not, exists_prop]

/-- The block of modules is found when its markers stand once and in order. -/
theorem blockOf_modules {missing ambiguous : String} {start finish : ℕ} :
    blockOf path (markerPositions lines rustModulesStart.toList)
      (markerPositions lines rustModulesEnd.toList) missing ambiguous = .ok (start, finish) ↔
      ∃ head middle tail,
        lines = head ++ rustModulesStart.toList :: (middle ++ rustModulesEnd.toList :: tail) ∧
        start = head.length ∧ finish = head.length + 1 + middle.length ∧
        ∀ line ∈ head ++ middle ++ tail,
          line ≠ rustModulesStart.toList ∧ line ≠ rustModulesEnd.toList := by
  have hdisjoint : rustModulesStart.toList ≠ rustModulesEnd.toList := by decide
  rw [markerPositions, markerPositions, blockOf_positions fun line hstart hend => hdisjoint
    ((of_decide_eq_true hstart).symm.trans (of_decide_eq_true hend))]
  simp only [decide_eq_true_eq, ne_eq]
  constructor
  · rintro ⟨head, first, middle, last, tail, rfl, rfl, rfl, rfl, rfl, hinner⟩
    exact ⟨head, middle, tail, rfl, rfl, rfl, hinner⟩
  · rintro ⟨head, middle, tail, rfl, rfl, rfl, hinner⟩
    exact ⟨head, _, middle, _, tail, rfl, rfl, rfl, rfl, rfl, hinner⟩

/-- **What an insertion does to the modules of a source.** -/
theorem insertModule_eq_ok_iff {result : Option (List (List Char))} :
    insertModule path module lines = .ok result ↔
      ∃ head modules tail, lines = moduleLines head modules tail ∧
        ModuleLayout head modules tail ∧ Undeclared module head tail ∧
        result = if module ∈ modules then none
          else some (moduleLines head (insertedModule module modules) tail) := by
  -- the lines around the modules stay
  have hkept : ∀ (head middle tail : List (List Char)) (sorted : List (List Char)),
      (head ++ rustModulesStart.toList :: (middle ++ rustModulesEnd.toList :: tail)).take
        (head.length + 1) ++ sorted ++
      (head ++ rustModulesStart.toList :: (middle ++ rustModulesEnd.toList :: tail)).drop
        (head.length + 1 + middle.length) =
      head ++ rustModulesStart.toList :: (sorted ++ rustModulesEnd.toList :: tail) := by
    intro head middle tail sorted
    have hfront : head ++ rustModulesStart.toList :: (middle ++ rustModulesEnd.toList :: tail) =
        (head ++ [rustModulesStart.toList]) ++ (middle ++ rustModulesEnd.toList :: tail) := by simp
    have hback : head ++ rustModulesStart.toList :: (middle ++ rustModulesEnd.toList :: tail) =
        (head ++ rustModulesStart.toList :: middle) ++ rustModulesEnd.toList :: tail := by simp
    have htake := @List.take_left' _ (head ++ [rustModulesStart.toList])
      (middle ++ rustModulesEnd.toList :: tail) (head.length + 1) (by simp)
    have hdrop := @List.drop_left' _ (head ++ rustModulesStart.toList :: middle)
      (rustModulesEnd.toList :: tail) (head.length + 1 + middle.length) (by simp; omega)
    rw [← hfront] at htake
    rw [← hback] at hdrop
    rw [htake, hdrop]
    simp
  unfold insertModule
  constructor
  · intro h
    obtain ⟨⟨start, finish⟩, hblock, h⟩ := bind_eq_ok.1 h
    obtain ⟨head, middle, tail, rfl, rfl, rfl, hinner⟩ := blockOf_modules.1 hblock
    obtain ⟨hout, h⟩ := guarded_eq_ok.1 h
    obtain ⟨modules, hmodules, h⟩ := bind_eq_ok.1 h
    obtain ⟨-, h⟩ := guarded_eq_ok.1 h
    obtain ⟨hincreasing, h⟩ := guarded_eq_ok.1 h
    rw [List.take_left, drop_block, any_declared_iff, not_not] at hout
    rw [middle_block] at hmodules
    obtain ⟨rfl, hvalid⟩ := mapM_declaredModule_eq_ok.1 hmodules
    rw [Bool.not_eq_true, Bool.not_eq_false', increasing_iff] at hincreasing
    refine ⟨head, modules, tail, rfl, ⟨fun line hline => hinner line ?_, hvalid, hincreasing⟩, hout,
      ?_⟩
    · simp only [List.mem_append] at hline ⊢
      tauto
    · split at h
      · next hmem =>
          rw [if_pos hmem]
          exact (pure_eq_ok.1 h).symm
      · next hmem =>
          rw [if_neg hmem, moduleLines, ← hkept _ (modules.map moduleLine),
            ← insertionSort_concat hmem hincreasing]
          exact (pure_eq_ok.1 h).symm
  · rintro ⟨head, modules, tail, rfl, hlayout, hout, rfl⟩
    have hinner : ∀ line ∈ head ++ modules.map moduleLine ++ tail,
        line ≠ rustModulesStart.toList ∧ line ≠ rustModulesEnd.toList := by
      intro line hline
      have houter := hlayout.outer line
      simp only [List.mem_append, List.mem_map] at hline houter
      rcases hline with (hline | ⟨other, -, rfl⟩) | hline
      · exact houter (.inl hline)
      · exact moduleLine_ne_marker other
      · exact houter (.inr hline)
    refine bind_eq_ok.2 ⟨(head.length, head.length + 1 + (modules.map moduleLine).length),
      blockOf_modules.2 ⟨head, modules.map moduleLine, tail, rfl, rfl, rfl, hinner⟩,
      guarded_eq_ok.2 ⟨?_, bind_eq_ok.2 ⟨modules, ?_, guarded_eq_ok.2 ⟨?_, guarded_eq_ok.2 ⟨?_,
        ?_⟩⟩⟩⟩⟩
    · rw [moduleLines, List.take_left, drop_block, any_declared_iff, not_not]
      exact hout
    · rw [moduleLines, middle_block]
      exact mapM_declaredModule_eq_ok.2 ⟨rfl, hlayout.valid⟩
    · rw [not_not]
      exact hlayout.increasing.imp ne_of_lt
    · rw [increasing_iff.2 hlayout.increasing]
      exact Bool.noConfusion
    · split
      · rfl
      · next hmem =>
          refine congrArg (fun lines => Except.ok (some lines)) ?_
          rw [insertionSort_concat hmem hlayout.increasing]
          exact hkept ..

/-- A source has one layout of its modules. -/
theorem ModuleLayout.unique {head' tail' : List (List Char)} {modules' : List String}
    (h : ModuleLayout head modules tail)
    (hlines : moduleLines head modules tail = moduleLines head' modules' tail') :
    head = head' ∧ modules = modules' ∧ tail = tail' := by
  have hdisjoint : rustModulesStart.toList ≠ rustModulesEnd.toList := by decide
  have hmodules : ∀ {marker : List Char} {modules : List String},
      (∀ module, moduleLine module ≠ marker) → marker ∉ modules.map moduleLine := by
    intro marker modules hmarker hmem
    obtain ⟨other, -, hother⟩ := List.mem_map.1 hmem
    exact hmarker other hother
  have hstart := fun module => (moduleLine_ne_marker module).1
  have hfinish := fun module => (moduleLine_ne_marker module).2
  have hhead : rustModulesStart.toList ∉ head := fun hmem =>
    (h.outer _ (List.mem_append_left _ hmem)).1 rfl
  have hrest : rustModulesStart.toList ∉
      modules.map moduleLine ++ rustModulesEnd.toList :: tail := by
    simp only [List.mem_append, List.mem_cons, not_or]
    exact ⟨hmodules hstart, hdisjoint, fun hmem => (h.outer _ (List.mem_append_right _ hmem)).1 rfl⟩
  have hend : rustModulesEnd.toList ∉ tail := fun hmem =>
    (h.outer _ (List.mem_append_right _ hmem)).2 rfl
  obtain ⟨rfl, -, hblock⟩ := (List.append_cons_inj_of_notMem hhead hrest).1 hlines
  obtain ⟨hmap, -, rfl⟩ := (List.append_cons_inj_of_notMem (hmodules hfinish) hend).1 hblock
  exact ⟨rfl, moduleLine_injective.list_map hmap, rfl⟩

/-- A new module keeps the layout. -/
theorem ModuleLayout.insert (h : ModuleLayout head modules tail)
    (hmodule : validRustIdentifier module.toList = true) (hnew : module ∉ modules) :
    ModuleLayout head (insertedModule module modules) tail := by
  refine ⟨h.outer, fun other hother => ?_, pairwise_insertedModule hnew h.increasing⟩
  rcases mem_insertedModule.1 hother with rfl | hother
  · exact hmodule
  · exact h.valid other hother

variable {result result' : List (List Char)}

/-- A module is there after its insertion. -/
theorem insertModule_again (hmodule : validRustIdentifier module.toList = true)
    (h : insertModule path module lines = .ok (some result)) :
    insertModule path module result = .ok none := by
  obtain ⟨head, modules, tail, -, hlayout, hout, hresult⟩ := insertModule_eq_ok_iff.1 h
  split at hresult
  · cases hresult
  · next hnew =>
      obtain rfl := Option.some.inj hresult
      refine insertModule_eq_ok_iff.2 ⟨head, _, tail, rfl, hlayout.insert hmodule hnew, hout, ?_⟩
      rw [if_pos (mem_insertedModule.2 (.inl rfl))]

/-- Modules are inserted in any order. -/
theorem insertModule_comm (hmodule : validRustIdentifier module.toList = true)
    (hmodule' : validRustIdentifier module'.toList = true) (hne : module ≠ module')
    (h : insertModule path module lines = .ok (some result))
    (h' : insertModule path module' lines = .ok (some result')) :
    ∃ both, insertModule path module' result = .ok (some both) ∧
      insertModule path module result' = .ok (some both) := by
  obtain ⟨head, modules, tail, rfl, hlayout, hout, hresult⟩ := insertModule_eq_ok_iff.1 h
  obtain ⟨_, _, _, hlines, hlayout', hout', hresult'⟩ := insertModule_eq_ok_iff.1 h'
  obtain ⟨rfl, rfl, rfl⟩ := hlayout.unique hlines
  split at hresult
  · cases hresult
  · next hnew =>
      split at hresult'
      · cases hresult'
      · next hnew' =>
          obtain rfl := Option.some.inj hresult
          obtain rfl := Option.some.inj hresult'
          have hcomm : insertedModule module' (insertedModule module modules) =
              insertedModule module (insertedModule module' modules) :=
            KeyedPlacement.place_comm rfl rfl hne.symm
          have hfirst : module' ∉ insertedModule module modules := by
            rw [mem_insertedModule, not_or]
            exact ⟨hne.symm, hnew'⟩
          have hsecond : module ∉ insertedModule module' modules := by
            rw [mem_insertedModule, not_or]
            exact ⟨hne, hnew⟩
          refine ⟨moduleLines head (insertedModule module' (insertedModule module modules)) tail,
            insertModule_eq_ok_iff.2 ⟨head, _, tail, rfl, hlayout.insert hmodule hnew, hout', ?_⟩,
            insertModule_eq_ok_iff.2 ⟨head, _, tail, rfl, hlayout.insert hmodule' hnew', hout, ?_⟩⟩
          · rw [if_neg hfirst]
          · rw [if_neg hsecond, hcomm]

/-- An insertion is one line between the markers. -/
theorem exists_module_place (h : insertModule path module lines = .ok (some result)) :
    ∃ head before after tail,
      let above := head ++ rustModulesStart.toList :: before.map moduleLine
      let below := after.map moduleLine ++ rustModulesEnd.toList :: tail
      ModuleLayout head (before ++ after) tail ∧ module ∉ before ++ after ∧
      insertedModule module (before ++ after) = before ++ module :: after ∧
      lines = above ++ below ∧ result = above ++ [moduleLine module] ++ below := by
  obtain ⟨head, modules, tail, rfl, hlayout, -, hresult⟩ := insertModule_eq_ok_iff.1 h
  split at hresult
  · cases hresult
  · next hnew =>
      obtain ⟨before, after, rfl, hplace, -, -⟩ :=
        @KeyedPlacement.exists_place _ _ _ some module module modules
      obtain rfl := Option.some.inj hresult
      refine ⟨head, before, after, tail, hlayout, hnew, hplace, ?_, ?_⟩
      · simp [moduleLines]
      · rw [insertedModule, hplace]
        simp [moduleLines]

end Insert

/-! ### Planned modules -/

section Planned

variable {D : Type} [ContentDigest D] [DecidableEq D]

/-- The content that a planned module leaves. -/
def planModule (D : Type) [ContentDigest D] [DecidableEq D] (path module : String)
    (observed : Bytes) : Option Bytes :=
  match (planRustModule path observed module :
      Except StructuredEditError (StructuredEditOutcome D)) with
  | .ok (.planned _ edit) => some edit.content
  | _ => none

variable {path module module' : String} {observed content : Bytes} {p : ChangePath}
  {source : SourceLines} {result : List (List Char)}

/-- A declaration has no line break. -/
theorem plain_moduleLine (h : validRustIdentifier module.toList = true) :
    '\n' ∉ moduleLine module ∧ '\r' ∉ moduleLine module := by
  have hplain : ∀ c ∈ module.toList, c ≠ '\n' ∧ c ≠ '\r' := by
    intro c hc
    simp only [validRustIdentifier, Bool.and_eq_true, List.all_eq_true] at h
    obtain ⟨i, hi, rfl⟩ := List.getElem_of_mem hc
    have hchar := h.1.1.2 (module.toList[i], i)
      (List.mk_mem_zipIdx_iff_getElem?.2 (List.getElem?_eq_getElem hi))
    refine ⟨?_, ?_⟩
    · rintro heq
      rw [heq] at hchar
      revert hchar
      simp
    · rintro heq
      rw [heq] at hchar
      revert hchar
      simp
  have hfront : ∀ c ∈ "pub mod ".toList ++ [';'], c ≠ '\n' ∧ c ≠ '\r' := by simp
  have hline : ∀ c ∈ moduleLine module, c ≠ '\n' ∧ c ≠ '\r' := by
    intro c hc
    unfold moduleLine at hc
    rcases List.mem_append.1 hc with hc | hc
    · rcases List.mem_append.1 hc with hc | hc
      · exact hfront c (List.mem_append_left _ hc)
      · exact hplain c hc
    · exact hfront c (List.mem_append_right _ hc)
  exact ⟨fun hc => (hline _ hc).1 rfl, fun hc => (hline _ hc).2 rfl⟩

/-- The lines with a module are read back. -/
theorem observedLines_insertModule (hmodule : validRustIdentifier module.toList = true)
    (hsource : observedLines p observed = .ok source)
    (hinsert : insertModule p module source.lines = .ok (some result)) :
    observedLines p (sourceBytes source result) = .ok { source with lines := result } := by
  obtain ⟨head, before, after, tail, -, -, -, hlines, rfl⟩ := exists_module_place hinsert
  obtain ⟨text, -, hread⟩ := observedLines_eq_ok.1 hsource
  have hlength := congrArg List.length hlines
  simp only [List.length_append, List.length_cons] at hlength
  have hwell := SourceLines.wellFormed_of_read hread (by omega)
  have hresult := @wellFormed_insert source
    (head ++ rustModulesStart.toList :: before.map moduleLine).length [moduleLine module] hwell
    (by simp only [List.length_append, List.length_cons]; omega)
    (List.forall_mem_singleton.2 (plain_moduleLine hmodule))
  rw [hlines, List.take_left, List.drop_left] at hresult
  exact observedLines_eq_ok.2 ⟨_, fromUtf8_intoBytes _,
    (congrArg SourceLines.read String.toList_ofList).trans (SourceLines.read_write hresult)⟩

/-- An inserted module changes the bytes. -/
theorem sourceBytes_ne_insertModule (hmodule : validRustIdentifier module.toList = true)
    (hsource : observedLines p observed = .ok source)
    (hinsert : insertModule p module source.lines = .ok (some result)) :
    observed ≠ sourceBytes source result := by
  rintro heq
  have hback := observedLines_insertModule hmodule hsource hinsert
  rw [← heq, hsource, Except.ok.injEq] at hback
  have hlines : source.lines = result := congrArg SourceLines.lines hback
  obtain ⟨head, before, after, tail, -, -, -, habove, hresult⟩ := exists_module_place hinsert
  rw [habove, hresult] at hlines
  have hlength := congrArg List.length hlines
  simp only [List.length_append, List.length_singleton] at hlength
  omega

/-- What a module that is planned has passed, and what it writes. -/
theorem planRustModule_eq_ok {kind : StructuredEditKind} {edit : StructuredFileEdit D}
    (h : planRustModule path observed module = .ok (.planned kind edit)) :
    ∃ p source result, ChangePath.new path = .ok p ∧
      validRustIdentifier module.toList = true ∧ observedLines p observed = .ok source ∧
      insertModule p module source.lines = .ok (some result) ∧ kind = .rustModule ∧
      edit.content = sourceBytes source result := by
  unfold planRustModule at h
  obtain ⟨p, hp, h⟩ := bind_eq_ok.1 h
  obtain ⟨hvalid, h⟩ := guarded_eq_ok.1 h
  obtain ⟨source, hsource, h⟩ := bind_eq_ok.1 h
  obtain ⟨lines, hlines, h⟩ := bind_eq_ok.1 h
  obtain ⟨result, rfl, hkind, -, hcontent⟩ := plannedLines_eq_ok h
  rw [Bool.not_eq_true', Bool.not_eq_false] at hvalid
  exact ⟨p, source, result, mapError_eq_ok.1 hp, hvalid, hsource, hlines, hkind, hcontent⟩

/-- **What it means that a module is planned.** -/
theorem planModule_eq_some (hD : Function.Injective (ContentDigest.calculate : Bytes → D)) :
    planModule D path module observed = some content ↔
      validRustIdentifier module.toList = true ∧ ∃ p source result, ChangePath.new path = .ok p ∧
        observedLines p observed = .ok source ∧
        insertModule p module source.lines = .ok (some result) ∧
        content = sourceBytes source result := by
  unfold planModule
  constructor
  · intro h
    split at h
    · next kind edit hplan =>
        obtain rfl := Option.some.inj h
        obtain ⟨p, source, result, hp, hmodule, hsource, hinsert, -, hcontent⟩ :=
          planRustModule_eq_ok hplan
        exact ⟨hmodule, p, source, result, hp, hsource, hinsert, hcontent⟩
    · cases h
  · rintro ⟨hmodule, p, source, result, hp, hsource, hinsert, rfl⟩
    obtain rfl := ChangePath.text_of_new hp
    obtain ⟨edit, hcontent, hplan⟩ := @planRustModule_of_insertModule D _ _ observed p source module
      result hmodule hsource hinsert fun heq =>
        sourceBytes_ne_insertModule hmodule hsource hinsert (hD heq)
    rw [hplan]
    exact congrArg some hcontent

/-- Modules are planned in either order. -/
theorem planModule_meet (hD : Function.Injective (ContentDigest.calculate : Bytes → D))
    (hne : module ≠ module') : Schedules.Meet (planModule D path) module module' := by
  intro observed content content' h h'
  obtain ⟨hmodule, p, source, result, hp, hsource, hinsert, rfl⟩ := (planModule_eq_some hD).1 h
  obtain ⟨hmodule', p', source', result', hp', hsource', hinsert', rfl⟩ :=
    (planModule_eq_some hD).1 h'
  obtain rfl := Except.ok.inj (hp.symm.trans hp')
  obtain rfl := Except.ok.inj (hsource.symm.trans hsource')
  obtain ⟨both, hboth, hboth'⟩ := insertModule_comm hmodule hmodule' hne hinsert hinsert'
  exact ⟨sourceBytes source both,
    (planModule_eq_some hD).2 ⟨hmodule', p, _, both, hp,
      observedLines_insertModule hmodule hsource hinsert, hboth, rfl⟩,
    (planModule_eq_some hD).2 ⟨hmodule, p, _, both, hp,
      observedLines_insertModule hmodule' hsource hinsert', hboth', rfl⟩⟩

/-- A module that is there is not planned. -/
theorem planRustModule_of_present (hmodule : validRustIdentifier module.toList = true)
    (hsource : observedLines p observed = .ok source)
    (hinsert : insertModule p module source.lines = .ok none) :
    (planRustModule p.text observed module :
      Except StructuredEditError (StructuredEditOutcome D)) = .ok (.alreadyPresent .rustModule p) :=
  bind_eq_ok.2 ⟨p, mapError_eq_ok.2 p.new_text, guarded_eq_ok.2 ⟨by simp [hmodule],
    bind_eq_ok.2 ⟨source, hsource, bind_eq_ok.2 ⟨none, hinsert, rfl⟩⟩⟩⟩

end Planned

/-! ### A source with a module -/

def draftModules : SourceLines :=
  ⟨["//! Pages.".toList, rustModulesStart.toList, "pub mod accounts;".toList,
    rustModulesEnd.toList], ['\n'], true⟩

def draftModuleBytes : Bytes := sourceBytes draftModules draftModules.lines

/-- The bytes of the example are read. -/
theorem draft_modules_observed : observedLines draftPath draftModuleBytes = .ok draftModules := by
  have hwell : draftModules.WellFormed := ⟨by decide, by decide, nofun, .inl rfl⟩
  exact observedLines_eq_ok.2 ⟨_, fromUtf8_intoBytes _,
    (congrArg SourceLines.read String.toList_ofList).trans (SourceLines.read_write hwell)⟩

/-- Another module can be inserted there. -/
theorem draft_modules_insert {module : String} (hnew : module ≠ "accounts")
    (hout : trim "//! Pages.".toList ≠ moduleLine module) :
    insertModule draftPath module draftModules.lines = .ok (some (moduleLines
      ["//! Pages.".toList] (insertedModule module ["accounts"]) [])) := by
  refine insertModule_eq_ok_iff.2 ⟨["//! Pages.".toList], ["accounts"], [], rfl,
    ⟨by decide, by decide, List.pairwise_singleton _ _⟩, ?_, ?_⟩
  · exact List.forall_mem_singleton.2 hout
  · rw [if_neg (by simpa using hnew)]

/-! ### What a planned module does -/

section Placed

variable {D : Type} [ContentDigest D] [DecidableEq D] {path module : String} {observed : Bytes}

/-- The content is the observed source with one line between the markers of the modules, the
modules increase before and after, and the module is there afterwards. -/
def PlacedModule (D : Type) [ContentDigest D] [DecidableEq D] (path : String) (observed : Bytes)
    (module : String) (content : Bytes) : Prop :=
  ∃ p source head before after tail,
    let above := head ++ rustModulesStart.toList :: before.map moduleLine
    let below := after.map moduleLine ++ rustModulesEnd.toList :: tail
    let front := above.flatMap (· ++ source.newline)
    let back := SourceLines.write { source with lines := below }
    observedLines p observed = .ok source ∧ source.lines = above ++ below ∧
    ModuleLayout head (before ++ after) tail ∧
    observed = intoBytes (String.ofList (front ++ back)) ∧
    content = intoBytes (String.ofList (front ++ (moduleLine module ++ source.newline) ++ back)) ∧
    observedLines p content = .ok { source with lines := above ++ [moduleLine module] ++ below } ∧
    ModuleLayout head (before ++ module :: after) tail ∧
    (planRustModule path content module : Except StructuredEditError (StructuredEditOutcome D)) =
      .ok (.alreadyPresent .rustModule p)

/-- **A planned module is one line in the order of the modules.** -/
theorem planned_module_placed {kind : StructuredEditKind} {edit : StructuredFileEdit D}
    (h : planRustModule path observed module = .ok (.planned kind edit)) :
    PlacedModule D path observed module edit.content := by
  obtain ⟨p, source, result, hp, hmodule, hsource, hinsert, -, hcontent⟩ := planRustModule_eq_ok h
  have hback := observedLines_insertModule hmodule hsource hinsert
  have hread : intoBytes (String.ofList source.write) = observed := by
    obtain ⟨text, hutf8, hread⟩ := observedLines_eq_ok.1 hsource
    rw [SourceLines.write_of_read hread, String.ofList_toList]
    exact fromUtf8_eq_some hutf8
  obtain ⟨head, before, after, tail, hlayout, hnew, hplace, hlines, rfl⟩ :=
    exists_module_place hinsert
  refine ⟨p, source, head, before, after, tail, ?_⟩
  intro above below front back
  have hbelow : below ≠ [] := List.append_ne_nil_of_right_ne_nil _ (List.cons_ne_nil _ _)
  have hobserved : source.write = front ++ back := by
    have hwritten := @write_append source above _ hbelow
    rwa [← hlines] at hwritten
  have hinserted : SourceLines.write { source with
      lines := above ++ [moduleLine module] ++ below } =
        front ++ (moduleLine module ++ source.newline) ++ back := by
    rw [write_append hbelow, List.flatMap_append, List.flatMap_singleton]
  have hafter := hlayout.insert hmodule hnew
  rw [hplace] at hafter
  refine ⟨hsource, hlines, hlayout, ?_, ?_, ?_, hafter, ?_⟩
  · exact hread.symm.trans (congrArg (fun text => intoBytes (String.ofList text)) hobserved)
  · exact hcontent.trans (congrArg (fun text => intoBytes (String.ofList text)) hinserted)
  · exact (congrArg (observedLines p) hcontent).trans hback
  · obtain rfl := ChangePath.text_of_new hp
    rw [hcontent]
    exact planRustModule_of_present hmodule hback (insertModule_again hmodule hinsert)

/-- It is placed in the block. -/
theorem draft_module_placed : ∃ edit : StructuredFileEdit PlainDigest,
    PlacedModule PlainDigest draftPath.text draftModuleBytes "books" edit.content := by
  have hinsert := @draft_modules_insert "books" (by decide) (by decide)
  obtain ⟨edit, -, hplan⟩ := @planRustModule_of_insertModule PlainDigest _ _ draftModuleBytes
    draftPath draftModules "books" _ (by decide) draft_modules_observed hinsert fun heq =>
      sourceBytes_ne_insertModule (by decide) draft_modules_observed hinsert
        (PlainDigest.calculate_injective heq)
  exact ⟨edit, planned_module_placed hplan⟩

/-- **Different modules are planned in any order, to the same source.** -/
theorem modules_planned_in_any_order
    (hD : Function.Injective (ContentDigest.calculate : Bytes → D)) {modules : List String}
    (hdistinct : modules.Nodup)
    (hplanned : ∀ module ∈ modules, (planModule D path module observed).isSome = true) :
    ∃ content, ∀ schedule, modules.Perm schedule →
      Schedules.run (planModule D path) schedule observed = some content :=
  Schedules.run_perm (hdistinct.imp fun hne => planModule_meet hD hne) hplanned

/-- Two modules are planned in either order with one result. -/
theorem draft_modules_planned : ∃ content, ∀ schedule, List.Perm ["books", "addresses"] schedule →
    Schedules.run (planModule PlainDigest draftPath.text) schedule draftModuleBytes =
      some content := by
  have hplanned : ∀ {module : String}, validRustIdentifier module.toList = true →
      module ≠ "accounts" → trim "//! Pages.".toList ≠ moduleLine module →
        (planModule PlainDigest draftPath.text module draftModuleBytes).isSome = true :=
    fun hmodule hnew hout => Option.isSome_iff_exists.2 ⟨_,
      (planModule_eq_some PlainDigest.calculate_injective).2 ⟨hmodule, draftPath, draftModules, _,
        draftPath.new_text, draft_modules_observed, draft_modules_insert hnew hout, rfl⟩⟩
  exact modules_planned_in_any_order PlainDigest.calculate_injective (by decide)
    (List.forall_mem_cons.2 ⟨hplanned (by decide) (by decide) (by decide),
      List.forall_mem_cons.2 ⟨hplanned (by decide) (by decide) (by decide), nofun⟩⟩)

end Placed

end Mutator
end Hegira
