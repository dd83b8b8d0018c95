/-
# Localization keys of a resource

`localization_key_names`, `localization` and the key enumeration of the minimal shell, of
`tools/resource_generator/src/web.rs`.

The keys are the entity and the plural with fixed texts before or after them (`affixed`),
and one key a field, whose name is camel-cased.  Affixes of one name never meet
(`nodup_affixed`); those of the two names can, and camel-casing forgets the underscores
before digits (`camel_eq_iff`).  The keys are distinct exactly when neither happens
(`Distinguishable`).
-/

import Mathlib
import Hegira.Generator.Specification

namespace Hegira
namespace Generator

open Template (ApplicationManifest Parsers)

/-! ### Field names in a key and in a label -/

/-- `to_ascii_uppercase` of the first character. -/
def capitalize : List Char → List Char
  | [] => []
  | c :: rest => c.toUpper :: rest

def upperCamelField (value : String) : String :=
  String.ofList ((value.toList.splitOn '_').flatMap capitalize)

def humanizeField (value : String) : String :=
  String.ofList (capitalize (value.toList.map fun c => if c = '_' then ' ' else c))

def humanizeType (value : String) : String :=
  match value.toList with
  | [] => ""
  | first :: rest => String.ofList (first :: rest.flatMap fun c =>
      if c.isUpper then [' ', c.toLower] else [c.toLower])

/-! ### Keys and tables -/

def fieldKey (entity : String) (field : ResourceField) : String :=
  entity ++ upperCamelField field.name ++ "Field"

def localizationKeyNames (specification : ResourceSpecification) : List String :=
  let entity := specification.names.singularType
  let plural := specification.names.pluralType
  [entity, plural, "New" ++ entity, "Edit" ++ entity, "Save" ++ entity, "Delete" ++ entity,
    "Empty" ++ plural, "Loading" ++ plural, entity ++ "Saved", entity ++ "Deleted",
    entity ++ "SaveFailed", entity ++ "DeleteFailed", plural ++ "Actions", plural ++ "Pagination",
    plural ++ "FirstPage", plural ++ "PreviousPage", plural ++ "NextPage", plural ++ "LastPage",
    plural ++ "Refresh", plural ++ "Page", plural ++ "Records"] ++
    specification.fields.map (fieldKey entity)

/-- The entries that do not depend on the fields. -/
def localizationValues (entity plural : String) (turkish : Bool) : List (String × String) :=
  let entityLabel := humanizeType entity
  let pluralLabel := humanizeType plural
  if turkish then
    [(entity, entityLabel), (plural, pluralLabel), ("New" ++ entity, "Yeni " ++ entityLabel),
      ("Edit" ++ entity, entityLabel ++ " düzenle"), ("Save" ++ entity, "Kaydet"),
      ("Delete" ++ entity, "Sil"), ("Empty" ++ plural, "Henüz " ++ pluralLabel ++ " yok."),
      ("Loading" ++ plural, "Yükleniyor..."), (entity ++ "Saved", entityLabel ++ " kaydedildi"),
      (entity ++ "Deleted", entityLabel ++ " silindi"), (entity ++ "SaveFailed", "Kayıt başarısız"),
      (entity ++ "DeleteFailed", "Silme başarısız"), (plural ++ "Actions", "İşlemler"),
      (plural ++ "Pagination", "Sayfalama"), (plural ++ "FirstPage", "İlk"),
      (plural ++ "PreviousPage", "Önceki"), (plural ++ "NextPage", "Sonraki"),
      (plural ++ "LastPage", "Son"), (plural ++ "Refresh", "Yenile"), (plural ++ "Page", "Sayfa"),
      (plural ++ "Records", "kayıt")]
  else
    [(entity, entityLabel), (plural, pluralLabel), ("New" ++ entity, "New " ++ entityLabel),
      ("Edit" ++ entity, "Edit " ++ entityLabel), ("Save" ++ entity, "Save"),
      ("Delete" ++ entity, "Delete"), ("Empty" ++ plural, "No " ++ pluralLabel ++ " yet."),
      ("Loading" ++ plural, "Loading..."), (entity ++ "Saved", entityLabel ++ " saved"),
      (entity ++ "Deleted", entityLabel ++ " deleted"), (entity ++ "SaveFailed", "Save failed"),
      (entity ++ "DeleteFailed", "Delete failed"), (plural ++ "Actions", "Actions"),
      (plural ++ "Pagination", "Pagination"), (plural ++ "FirstPage", "First"),
      (plural ++ "PreviousPage", "Previous"), (plural ++ "NextPage", "Next"),
      (plural ++ "LastPage", "Last"), (plural ++ "Refresh", "Refresh"), (plural ++ "Page", "Page"),
      (plural ++ "Records", "records")]

/-- The table of a language: its keys with their texts, in the order of their lines. -/
def localizationTable (specification : ResourceSpecification) (turkish : Bool) :
    List (String × String) :=
  localizationValues specification.names.singularType specification.names.pluralType turkish ++
    specification.fields.map fun field =>
      (fieldKey specification.names.singularType field, humanizeField field.name)

def localizationLine (turkish : Bool) (entry : String × String) : String :=
  "(Locale::" ++ (if turkish then "Tr" else "En") ++ ", T::" ++ entry.1 ++ ") => \"" ++ entry.2 ++ "\","

def localization (specification : ResourceSpecification) (turkish : Bool) : String :=
  "\n".intercalate ((localizationTable specification turkish).map (localizationLine turkish))

/-- The variants of the enumeration that `write_minimal_web_support` writes. -/
def minimalVariants (specification : ResourceSpecification) : List String :=
  localizationKeyNames specification ++ ["Cancel"]

/-- The arms of its match: the lines of the English table, and one for `Cancel`. -/
def minimalArms (specification : ResourceSpecification) : List (String × String) :=
  localizationTable specification false ++ [("Cancel", "Cancel")]

/-- Each table has the keys in the order of their list. -/
theorem map_localizationTable (specification : ResourceSpecification) (turkish : Bool) :
    (localizationTable specification turkish).map Prod.fst = localizationKeyNames specification := by
  cases turkish <;> simp [localizationTable, localizationValues, localizationKeyNames,
    Function.comp_def]

/-! ### Names with affixes -/

section Affixes

variable {α : Type*} {first last first' last' : List (List α)} {base base' : List α}

/-- A name, with each text before it and with each text after it. -/
def affixed (first last : List (List α)) (base : List α) : List (List α) :=
  base :: (first.map (· ++ base) ++ last.map (base ++ ·))

/-- The keys made from a base. -/
theorem mem_affixed {key : List α} : key ∈ affixed first last base ↔
    key = base ∨ (∃ pre ∈ first, pre ++ base = key) ∨ ∃ suf ∈ last, base ++ suf = key := by
  simp [affixed]

/-- A text before a name and one after it have the same letters when they give one key. -/
theorem perm_of_append_eq {pre suf : List α} (h : pre ++ base = base ++ suf) : pre.Perm suf := by
  have hperm : (base ++ pre).Perm (base ++ suf) := List.perm_append_comm.trans (.of_eq h)
  exact (List.perm_append_left_iff base).1 hperm

/-- **Affixes of one name give different keys.** -/
theorem nodup_affixed (hfirst : first.Nodup) (hlast : last.Nodup) (hnil : [] ∉ first)
    (hnil' : [] ∉ last) (h : ∀ pre ∈ first, ∀ suf ∈ last, ¬pre.Perm suf) :
    (affixed first last base).Nodup := by
  have hpre : (first.map (· ++ base)).Nodup := hfirst.map fun _ _ => List.append_cancel_right
  have hsuf : (last.map (base ++ ·)).Nodup := hlast.map fun _ _ => List.append_cancel_left
  refine List.nodup_cons.2 ⟨fun hmem => ?_, hpre.append hsuf fun key hkey hkey' => ?_⟩
  · rcases List.mem_append.1 hmem with hmem | hmem
    · obtain ⟨pre, hpre, he⟩ := List.mem_map.1 hmem
      exact hnil (List.append_left_eq_self.1 he ▸ hpre)
    · obtain ⟨suf, hsuf, he⟩ := List.mem_map.1 hmem
      exact hnil' (List.append_right_eq_self.1 he ▸ hsuf)
  · obtain ⟨pre, hpre, rfl⟩ := List.mem_map.1 hkey
    obtain ⟨suf, hsuf, he⟩ := List.mem_map.1 hkey'
    exact h pre hpre suf hsuf (perm_of_append_eq he.symm)

end Affixes

/-! ### Camel case -/

/-- `upper_camel_field`, character by character; `start` after an underscore. -/
def camel (start : Bool) : List Char → List Char
  | [] => []
  | c :: rest =>
      if c = '_' then camel true rest
      else (if start then c.toUpper else c) :: camel false rest

/-- A name without the underscores that stand before a digit. -/
def dropDigitUnderscores (pending : Bool) : List Char → List Char
  | [] => []
  | c :: rest =>
      if c = '_' then dropDigitUnderscores true rest
      else (if pending && !c.isDigit then ['_', c] else [c]) ++ dropDigitUnderscores false rest

/-- Capitals as underscores with small letters. -/
def uncamel (text : List Char) : List Char :=
  text.flatMap fun c => if c.isUpper then ['_', c.toLower] else [c]

/-- The parts between underscores, the first as it is or capitalised. -/
theorem exists_splitOn (name : List Char) : ∃ part parts, name.splitOn '_' = part :: parts ∧
    part ++ parts.flatMap capitalize = camel false name ∧
    capitalize part ++ parts.flatMap capitalize = camel true name := by
  induction name with
  | nil => exact ⟨[], [], List.splitOn_nil _, rfl, rfl⟩
  | cons c rest ih =>
      obtain ⟨part, parts, hsplit, hfalse, htrue⟩ := ih
      by_cases hc : c = '_'
      · subst hc
        refine ⟨[], part :: parts, ?_, ?_, ?_⟩
        · rw [List.splitOn, List.splitOnP_cons_eq_if_modifyHead, ← List.splitOn, hsplit]
          rfl
        · simpa [camel] using htrue
        · simpa [camel, capitalize] using htrue
      · refine ⟨c :: part, parts, ?_, ?_, ?_⟩
        · rw [List.splitOn, List.splitOnP_cons_eq_if_modifyHead, ← List.splitOn, hsplit]
          simp [hc]
        · simpa [camel, hc] using hfalse
        · simpa [camel, capitalize, hc] using hfalse

/-- The camel form of a field, as characters. -/
theorem upperCamelField_toList (value : String) :
    (upperCamelField value).toList = camel true value.toList := by
  obtain ⟨part, parts, hsplit, -, htrue⟩ := exists_splitOn value.toList
  rw [upperCamelField, String.toList_ofList, hsplit, List.flatMap_cons, htrue]

/-- A character of a field name. -/
def FieldChar (c : Char) : Prop := c.isLower = true ∨ c.isDigit = true ∨ c = '_'

/-- A lower-case letter is one of 26. -/
theorem exists_of_isLower {c : Char} (h : c.isLower = true) :
    ∃ n : Fin 26, c = Char.ofNat (97 + n) := by
  simp only [Char.isLower, Bool.and_eq_true, decide_eq_true_eq, UInt32.le_iff_toNat_le, ge_iff_le] at h
  have hlow : 97 ≤ c.toNat := h.1
  have hhigh : c.toNat ≤ 122 := h.2
  refine ⟨⟨c.toNat - 97, by omega⟩, ?_⟩
  rw [show 97 + (c.toNat - 97) = c.toNat from by omega, Char.ofNat_toNat]

/-- A digit is one of 10. -/
theorem exists_of_isDigit {c : Char} (h : c.isDigit = true) :
    ∃ n : Fin 10, c = Char.ofNat (48 + n) := by
  simp only [Char.isDigit, Bool.and_eq_true, decide_eq_true_eq, UInt32.le_iff_toNat_le, ge_iff_le] at h
  have hlow : 48 ≤ c.toNat := h.1
  have hhigh : c.toNat ≤ 57 := h.2
  refine ⟨⟨c.toNat - 48, by omega⟩, ?_⟩
  rw [show 48 + (c.toNat - 48) = c.toNat from by omega, Char.ofNat_toNat]

/-- The cases of a small letter. -/
theorem lower_cases {c : Char} (h : c.isLower = true) :
    c.toUpper.isUpper = true ∧ c.toUpper.toLower = c ∧ c.isUpper = false ∧ c.isDigit = false := by
  obtain ⟨n, rfl⟩ := exists_of_isLower h
  revert n
  decide

/-- The cases of a digit. -/
theorem digit_cases {c : Char} (h : c.isDigit = true) : c.toUpper = c ∧ c.isUpper = false := by
  obtain ⟨n, rfl⟩ := exists_of_isDigit h
  revert n
  decide

/-- The camel form forgets the underscores before digits, and nothing else. -/
theorem uncamel_camel {start : Bool} {name : List Char} (h : ∀ c ∈ name, FieldChar c) :
    uncamel (camel start name) = dropDigitUnderscores start name := by
  induction name generalizing start with
  | nil => rfl
  | cons c rest ih =>
      obtain ⟨hc, hrest⟩ := List.forall_mem_cons.1 h
      rw [camel, dropDigitUnderscores]
      split
      · exact ih hrest
      · next hne =>
          rw [uncamel, List.flatMap_cons, ← uncamel, ih hrest]
          congr 1
          rcases hc with hlower | hdigit | hunderscore
          · obtain ⟨hupper, hback, hnot, hdigit⟩ := lower_cases hlower
            cases start <;> simp [hupper, hback, hnot, hdigit]
          · obtain ⟨hsame, hnot⟩ := digit_cases hdigit
            cases start <;> simp [hsame, hnot, hdigit]
          · exact absurd hunderscore hne

theorem camel_dropDigitUnderscores {start : Bool} {name : List Char} (h : ∀ c ∈ name, FieldChar c) :
    camel false (dropDigitUnderscores start name) = camel start name := by
  induction name generalizing start with
  | nil => rfl
  | cons c rest ih =>
      obtain ⟨hc, hrest⟩ := List.forall_mem_cons.1 h
      rw [camel, dropDigitUnderscores]
      split
      · exact ih hrest
      · next hne =>
          rcases hc with hlower | hdigit | hunderscore
          · cases start <;> simp [camel, hne, ih hrest, (lower_cases hlower).2.2.2]
          · cases start <;> simp [camel, hne, ih hrest, hdigit, (digit_cases hdigit).1]
          · exact absurd hunderscore hne

/-- **Camel case forgets the underscores before digits**, and nothing else. -/
theorem camel_eq_iff {name name' : List Char} (h : ∀ c ∈ name, FieldChar c)
    (h' : ∀ c ∈ name', FieldChar c) : camel true name = camel true name' ↔
      dropDigitUnderscores true name = dropDigitUnderscores true name' := by
  constructor
  · intro he
    rw [← uncamel_camel h, he, uncamel_camel h']
  · intro he
    rw [← camel_dropDigitUnderscores h, he, camel_dropDigitUnderscores h']

/-! ### Distinct keys -/

def entityFirst : List (List Char) := ["New".toList, "Edit".toList, "Save".toList, "Delete".toList]

def entityLast : List (List Char) :=
  ["Saved".toList, "Deleted".toList, "SaveFailed".toList, "DeleteFailed".toList]

def pluralFirst : List (List Char) := ["Empty".toList, "Loading".toList]

def pluralLast : List (List Char) :=
  ["Actions".toList, "Pagination".toList, "FirstPage".toList, "PreviousPage".toList,
    "NextPage".toList, "LastPage".toList, "Refresh".toList, "Page".toList, "Records".toList]

/-- The key of a field, after the entity. -/
def fieldText (field : ResourceField) : List Char := camel true field.name.toList ++ "Field".toList

/-- What the names of a specification may not be to one another. -/
structure Distinguishable (entity plural : List Char) (fields : List ResourceField) : Prop where
  cancel : entity ≠ "Cancel".toList ∧ plural ≠ "Cancel".toList
  camelCase : (fields.map fun field => dropDigitUnderscores true field.name.toList).Nodup
  pluralOf : (∀ pre ∈ entityFirst, plural ≠ pre ++ entity) ∧ ∀ suf ∈ entityLast, plural ≠ entity ++ suf
  entityOf : (∀ pre ∈ pluralFirst, entity ≠ pre ++ plural) ∧ ∀ suf ∈ pluralLast, entity ≠ plural ++ suf
  around : (∀ pre ∈ entityFirst, ∀ suf ∈ pluralLast, pre ++ entity ≠ plural ++ suf) ∧
    ∀ suf ∈ entityLast, ∀ pre ∈ pluralFirst, entity ++ suf ≠ pre ++ plural
  fieldOf : ∀ field ∈ fields, plural ≠ entity ++ fieldText field ∧
    ∀ pre ∈ pluralFirst, entity ++ fieldText field ≠ pre ++ plural

/-- The keys of an entity are different. -/
theorem nodup_entity (entity : List Char) : (affixed entityFirst entityLast entity).Nodup :=
  nodup_affixed (by decide) (by decide) (by decide) (by decide) (by decide)

theorem nodup_plural (plural : List Char) : (affixed pluralFirst pluralLast plural).Nodup :=
  nodup_affixed (by decide) (by decide) (by decide) (by decide) (by decide)

/-- The keys, name by name. -/
theorem keys_perm (specification : ResourceSpecification) :
    ((localizationKeyNames specification).map String.toList).Perm
      (affixed entityFirst entityLast specification.names.singularType.toList ++
        (affixed pluralFirst pluralLast specification.names.pluralType.toList ++
          specification.fields.map fun field =>
            specification.names.singularType.toList ++ fieldText field)) := by
  have hfields : (specification.fields.map (fieldKey specification.names.singularType)).map
      String.toList = specification.fields.map fun field =>
        specification.names.singularType.toList ++ fieldText field := by
    rw [List.map_map]
    refine List.map_congr_left fun field _ => ?_
    simp [fieldKey, fieldText, upperCamelField_toList]
  rw [localizationKeyNames, List.map_append, hfields, ← Multiset.coe_eq_coe]
  simp only [affixed, entityFirst, entityLast, pluralFirst, pluralLast, List.map_cons, List.map_nil,
    List.cons_append, List.nil_append, String.toList_append, ← Multiset.cons_coe,
    ← Multiset.singleton_add]
  abel

section Distinct

variable {entity plural : List Char} {field : ResourceField} {fields : List ResourceField}

/-- Two keys that start differently are different. -/
theorem take_append_ne {pre pre' base base' : List Char} (h : 2 ≤ pre.length) (h' : 2 ≤ pre'.length)
    (hne : pre.take 2 ≠ pre'.take 2) : pre ++ base ≠ pre' ++ base' := by
  intro he
  have htake := congrArg (List.take 2) he
  rw [List.take_append_of_le_length h, List.take_append_of_le_length h'] at htake
  exact hne htake

theorem getLast_append_ne {suf suf' base base' : List Char} (h : suf ≠ []) (h' : suf' ≠ [])
    (hne : suf.getLast? ≠ suf'.getLast?) : base ++ suf ≠ base' ++ suf' := by
  intro he
  have hlast := congrArg List.getLast? he
  rw [List.getLast?_append_of_ne_nil _ h, List.getLast?_append_of_ne_nil _ h'] at hlast
  exact hne hlast

/-- The texts before the two names start differently. -/
theorem first_ne_first : ∀ pre ∈ entityFirst, ∀ pre' ∈ pluralFirst,
    2 ≤ pre.length ∧ 2 ≤ pre'.length ∧ pre.take 2 ≠ pre'.take 2 := by decide

/-- The texts after the two names end differently. -/
theorem last_ne_last : ∀ suf ∈ entityLast, ∀ suf' ∈ pluralLast,
    suf ≠ [] ∧ suf' ≠ [] ∧ suf.getLast? ≠ suf'.getLast? := by decide

/-- No suffix of a plural ends like a field. -/
theorem last_ne_field : ∀ suf ∈ pluralLast, suf ≠ [] ∧ suf.getLast? ≠ some 'd' := by decide

/-- The key of a field ends in the letter of `Field`. -/
theorem getLast_fieldText : (fieldText field).getLast? = some 'd' := by
  rw [fieldText, List.getLast?_append_of_ne_nil _ (by decide)]
  decide

/-- The text of a field is not empty. -/
theorem fieldText_ne_nil : fieldText field ≠ [] := by
  simp [fieldText]

/-- The keys of the entity against those of the plural. -/
theorem names_ne_iff : (∀ key ∈ affixed entityFirst entityLast entity,
      ∀ key' ∈ affixed pluralFirst pluralLast plural, key ≠ key') ↔
    entity ≠ plural ∧
    ((∀ pre ∈ entityFirst, plural ≠ pre ++ entity) ∧ ∀ suf ∈ entityLast, plural ≠ entity ++ suf) ∧
    ((∀ pre ∈ pluralFirst, entity ≠ pre ++ plural) ∧ ∀ suf ∈ pluralLast, entity ≠ plural ++ suf) ∧
    (∀ pre ∈ entityFirst, ∀ suf ∈ pluralLast, pre ++ entity ≠ plural ++ suf) ∧
    ∀ suf ∈ entityLast, ∀ pre ∈ pluralFirst, entity ++ suf ≠ pre ++ plural := by
  constructor
  · intro h
    have hbase : entity ∈ affixed entityFirst entityLast entity := mem_affixed.2 (.inl rfl)
    have hbase' : plural ∈ affixed pluralFirst pluralLast plural := mem_affixed.2 (.inl rfl)
    have hpre {pre : List Char} (hp : pre ∈ entityFirst) :
        pre ++ entity ∈ affixed entityFirst entityLast entity := mem_affixed.2 (.inr (.inl ⟨_, hp, rfl⟩))
    have hsuf {suf : List Char} (hs : suf ∈ entityLast) :
        entity ++ suf ∈ affixed entityFirst entityLast entity := mem_affixed.2 (.inr (.inr ⟨_, hs, rfl⟩))
    have hpre' {pre : List Char} (hp : pre ∈ pluralFirst) :
        pre ++ plural ∈ affixed pluralFirst pluralLast plural := mem_affixed.2 (.inr (.inl ⟨_, hp, rfl⟩))
    have hsuf' {suf : List Char} (hs : suf ∈ pluralLast) :
        plural ++ suf ∈ affixed pluralFirst pluralLast plural := mem_affixed.2 (.inr (.inr ⟨_, hs, rfl⟩))
    exact ⟨h _ hbase _ hbase',
      ⟨fun _ hp => (h _ (hpre hp) _ hbase').symm, fun _ hs => (h _ (hsuf hs) _ hbase').symm⟩,
      ⟨fun _ hp => h _ hbase _ (hpre' hp), fun _ hs => h _ hbase _ (hsuf' hs)⟩,
      fun _ hp _ hs => h _ (hpre hp) _ (hsuf' hs), fun _ hs _ hp => h _ (hsuf hs) _ (hpre' hp)⟩
  · rintro ⟨hne, hplural, hentity, haround, haround'⟩ key hkey key' hkey'
    rcases mem_affixed.1 hkey with rfl | ⟨pre, hpre, rfl⟩ | ⟨suf, hsuf, rfl⟩
    · rcases mem_affixed.1 hkey' with rfl | ⟨pre', hpre', rfl⟩ | ⟨suf', hsuf', rfl⟩
      · exact hne
      · exact hentity.1 pre' hpre'
      · exact hentity.2 suf' hsuf'
    · rcases mem_affixed.1 hkey' with rfl | ⟨pre', hpre', rfl⟩ | ⟨suf', hsuf', rfl⟩
      · exact (hplural.1 pre hpre).symm
      · obtain ⟨hlength, hlength', htake⟩ := first_ne_first pre hpre pre' hpre'
        exact take_append_ne hlength hlength' htake
      · exact haround pre hpre suf' hsuf'
    · rcases mem_affixed.1 hkey' with rfl | ⟨pre', hpre', rfl⟩ | ⟨suf', hsuf', rfl⟩
      · exact (hplural.2 suf hsuf).symm
      · exact haround' suf hsuf pre' hpre'
      · obtain ⟨hnil, hnil', hlast⟩ := last_ne_last suf hsuf suf' hsuf'
        exact getLast_append_ne hnil hnil' hlast

/-- The key of a field is no key of the entity. -/
theorem field_ne_entity : ∀ key ∈ affixed entityFirst entityLast entity,
    key ≠ entity ++ fieldText field := by
  intro key hkey he
  rcases mem_affixed.1 hkey with rfl | ⟨pre, hpre, rfl⟩ | ⟨suf, hsuf, rfl⟩
  · exact fieldText_ne_nil (List.append_right_eq_self.1 he.symm)
  · have hmem : 'F' ∈ pre := (perm_of_append_eq he).mem_iff.2 (by simp [fieldText])
    have hnone : ∀ pre ∈ entityFirst, 'F' ∉ pre := by decide
    exact hnone pre hpre hmem
  · have hsuffix : "Field".toList <:+ suf := ⟨_, (List.append_cancel_left he).symm⟩
    have hnone : ∀ suf ∈ entityLast, ¬"Field".toList <:+ suf := by decide
    exact hnone suf hsuf hsuffix

/-- The keys of the plural against that of a field. -/
theorem plural_ne_field_iff : (∀ key ∈ affixed pluralFirst pluralLast plural,
      key ≠ entity ++ fieldText field) ↔
    plural ≠ entity ++ fieldText field ∧
      ∀ pre ∈ pluralFirst, entity ++ fieldText field ≠ pre ++ plural := by
  constructor
  · intro h
    exact ⟨h _ (mem_affixed.2 (.inl rfl)),
      fun pre hpre => (h _ (mem_affixed.2 (.inr (.inl ⟨pre, hpre, rfl⟩)))).symm⟩
  · rintro ⟨hbase, hpre⟩ key hkey
    rcases mem_affixed.1 hkey with rfl | ⟨pre, hp, rfl⟩ | ⟨suf, hsuf, rfl⟩
    · exact hbase
    · exact (hpre pre hp).symm
    · obtain ⟨hnil, hlast⟩ := last_ne_field suf hsuf
      exact getLast_append_ne hnil fieldText_ne_nil (getLast_fieldText ▸ hlast)

/-- The keys of the fields are different when their names are, up to those underscores. -/
theorem nodup_fields_iff (h : ∀ field ∈ fields, ∀ c ∈ field.name.toList, FieldChar c) :
    (fields.map fun field => entity ++ fieldText field).Nodup ↔
      (fields.map fun field => dropDigitUnderscores true field.name.toList).Nodup := by
  unfold List.Nodup
  rw [List.pairwise_map, List.pairwise_map]
  have hiff : ∀ f ∈ fields, ∀ g ∈ fields, entity ++ fieldText f = entity ++ fieldText g ↔
      dropDigitUnderscores true f.name.toList = dropDigitUnderscores true g.name.toList := by
    intro f hf g hg
    rw [List.append_right_inj, fieldText, fieldText, List.append_left_inj]
    exact camel_eq_iff (h f hf) (h g hg)
  exact ⟨fun hp => hp.imp_of_mem fun hf hg hne he => hne ((hiff _ hf _ hg).2 he),
    fun hp => hp.imp_of_mem fun hf hg hne he => hne ((hiff _ hf _ hg).1 he)⟩

/-- `Cancel` is a key when it is one of the names. -/
theorem cancel_notMem_iff : "Cancel".toList ∉ affixed entityFirst entityLast entity ++
      (affixed pluralFirst pluralLast plural ++
        fields.map fun field => entity ++ fieldText field) ↔
    entity ≠ "Cancel".toList ∧ plural ≠ "Cancel".toList := by
  have hfirst : ∀ pre ∈ entityFirst ++ pluralFirst, 2 ≤ pre.length ∧
      pre.take 2 ≠ ("Cancel".toList).take 2 := by decide
  have hlast : ∀ suf ∈ entityLast ++ pluralLast, suf ≠ [] ∧
      suf.getLast? ≠ ("Cancel".toList).getLast? := by decide
  have hpre {pre base : List Char} (hp : pre ∈ entityFirst ++ pluralFirst) :
      pre ++ base ≠ "Cancel".toList := by
    obtain ⟨hlength, htake⟩ := hfirst pre hp
    simpa using @take_append_ne pre _ base [] hlength (by decide) htake
  have hsuf {suf base : List Char} (hs : suf ∈ entityLast ++ pluralLast) :
      base ++ suf ≠ "Cancel".toList := by
    obtain ⟨hnil, hend⟩ := hlast suf hs
    simpa using @getLast_append_ne suf _ base [] hnil (by decide) hend
  constructor
  · intro h
    constructor
    · rintro rfl
      exact h (List.mem_append_left _ (mem_affixed.2 (.inl rfl)))
    · rintro rfl
      exact h (List.mem_append_right _ (List.mem_append_left _ (mem_affixed.2 (.inl rfl))))
  · rintro ⟨hentity, hplural⟩ hmem
    rcases List.mem_append.1 hmem with hmem | hmem
    · rcases mem_affixed.1 hmem with he | ⟨pre, hp, he⟩ | ⟨suf, hs, he⟩
      · exact hentity he.symm
      · exact hpre (List.mem_append_left _ hp) he
      · exact hsuf (List.mem_append_left _ hs) he
    rcases List.mem_append.1 hmem with hmem | hmem
    · rcases mem_affixed.1 hmem with he | ⟨pre, hp, he⟩ | ⟨suf, hs, he⟩
      · exact hplural he.symm
      · exact hpre (List.mem_append_right _ hp) he
      · exact hsuf (List.mem_append_right _ hs) he
    · obtain ⟨field, -, he⟩ := List.mem_map.1 hmem
      have hend : (fieldText field).getLast? ≠ ("Cancel".toList).getLast? := by
        rw [getLast_fieldText]
        decide
      exact @getLast_append_ne _ _ entity [] fieldText_ne_nil (by decide) hend (by simpa using he)

end Distinct

/-! ### Well-formed localization -/

/-- The keys are distinct and none is `Cancel`, each table has one entry for each of them and
none beside, and so has the match of the minimal shell for each of its variants. -/
structure WellFormed (specification : ResourceSpecification) : Prop where
  distinct : (localizationKeyNames specification).Nodup
  cancel : "Cancel" ∉ localizationKeyNames specification
  tables : ∀ turkish key, ((localizationTable specification turkish).map Prod.fst).count key =
    if key ∈ localizationKeyNames specification then 1 else 0
  variants : (minimalVariants specification).Nodup
  arms : ∀ key, ((minimalArms specification).map Prod.fst).count key =
    if key ∈ minimalVariants specification then 1 else 0

/-- A key of a list without repetition is counted once. -/
theorem count_eq_of_nodup {keys : List String} (h : keys.Nodup) (key : String) :
    keys.count key = if key ∈ keys then 1 else 0 := by
  split
  · next hmem => exact List.count_eq_one_of_mem h hmem
  · next hmem => exact List.count_eq_zero_of_not_mem hmem

/-- The bundles are well formed when no key repeats or is `Cancel`. -/
theorem wellFormed_iff {specification : ResourceSpecification} : WellFormed specification ↔
    (localizationKeyNames specification).Nodup ∧ "Cancel" ∉ localizationKeyNames specification := by
  refine ⟨fun h => ⟨h.distinct, h.cancel⟩, fun ⟨hdistinct, hcancel⟩ => ?_⟩
  have hvariants : (minimalVariants specification).Nodup := by
    refine hdistinct.append (List.nodup_singleton _) fun key hkey hkey' => ?_
    exact hcancel (List.mem_singleton.1 hkey' ▸ hkey)
  refine ⟨hdistinct, hcancel, fun turkish key => ?_, hvariants, fun key => ?_⟩
  · rw [map_localizationTable]
    exact count_eq_of_nodup hdistinct key
  · have harms : (minimalArms specification).map Prod.fst = minimalVariants specification := by
      rw [minimalArms, List.map_append, map_localizationTable]
      rfl
    rw [harms]
    exact count_eq_of_nodup hvariants key

/-- A valid field is of lower-case letters, digits and underscores. -/
theorem ValidField.fieldChar {name : String} (h : ValidField name) : ∀ c ∈ name.toList, FieldChar c := by
  have hspelling := h.spelling
  simp only [snakeCase, Bool.and_eq_true, List.all_eq_true, Bool.or_eq_true, beq_iff_eq] at hspelling
  intro c hc
  exact or_assoc.1 (hspelling.1.2 c hc)

/-- **Localization keys are distinct** exactly when the names of the specification can be
told apart. -/
theorem localization_keys_distinct_iff {parsers : Parsers} {input : ResourceSpecificationInput}
    {occupied : ArtifactNamespace} {manifest : ApplicationManifest}
    {specification : ResourceSpecification}
    (h : ResourceSpecification.resolve parsers input occupied manifest = .ok specification) :
    WellFormed specification ↔ Distinguishable specification.names.singularType.toList
      specification.names.pluralType.toList specification.fields := by
  have haccepted := accepted_of_resolve h
  have hne : specification.names.singularType.toList ≠ specification.names.pluralType.toList :=
    fun he => haccepted.names.distinct (congrArg _ he)
  have hchars := fun field hfield => (haccepted.valid field hfield).fieldChar
  have hperm := keys_perm specification
  have hcancel : "Cancel" ∉ localizationKeyNames specification ↔
      "Cancel".toList ∉ (localizationKeyNames specification).map String.toList := by
    rw [List.mem_map_of_injective fun _ _ => String.toList_inj.1]
  have hnodup : (localizationKeyNames specification).Nodup ↔
      ((localizationKeyNames specification).map String.toList).Nodup :=
    (List.nodup_map_iff fun _ _ => String.toList_inj.1).symm
  rw [wellFormed_iff, hnodup, hcancel, hperm.nodup_iff, hperm.mem_iff, cancel_notMem_iff,
    List.nodup_append, List.nodup_append, nodup_fields_iff hchars]
  constructor
  · rintro ⟨⟨-, ⟨-, hcamel, hfields⟩, hentity⟩, hcancel⟩
    obtain ⟨-, hplural, hentityOf, haround⟩ := names_ne_iff.1 fun key hkey key' hkey' =>
      hentity key hkey key' (List.mem_append_left _ hkey')
    refine ⟨hcancel, hcamel, hplural, hentityOf, haround, fun field hfield => ?_⟩
    exact plural_ne_field_iff.1 fun key hkey =>
      hfields key hkey _ (List.mem_map_of_mem hfield)
  · intro hd
    refine ⟨⟨nodup_entity _, ⟨nodup_plural _, hd.camelCase, ?_⟩, ?_⟩, hd.cancel⟩
    · intro key hkey key' hkey'
      obtain ⟨field, hfield, rfl⟩ := List.mem_map.1 hkey'
      exact plural_ne_field_iff.2 (hd.fieldOf field hfield) key hkey
    · intro key hkey key' hkey'
      rcases List.mem_append.1 hkey' with hkey' | hkey'
      · exact names_ne_iff.2 ⟨hne, hd.pluralOf, hd.entityOf, hd.around⟩ key hkey key' hkey'
      · obtain ⟨field, -, rfl⟩ := List.mem_map.1 hkey'
        exact field_ne_entity key hkey

/-- Two fields of a post that differ in an underscore before a digit. -/
def numberedFields : List ResourceFieldInput :=
  [⟨"line1", "string", false⟩, ⟨"line_1", "string", false⟩]

/-- Two fields that differ by an underscore before a digit share a key. -/
theorem numbered_fields_share_key : ∃ specification,
    demoResolve "Post" none numberedFields = .ok specification ∧ ¬WellFormed specification := by
  have hshared : (demoResolve "Post" none numberedFields).toOption.any
      (fun specification => !decide (localizationKeyNames specification).Nodup) = true := by
    decide +kernel
  cases hresolve : demoResolve "Post" none numberedFields with
  | error error =>
      rw [hresolve] at hshared
      cases hshared
  | ok specification =>
      rw [hresolve] at hshared
      refine ⟨specification, rfl, fun h => ?_⟩
      simp [Except.toOption, h.distinct] at hshared

/-- The equivalence at a resource with a title. -/
theorem localization_keys_distinct_titled : ∃ specification,
    demoResolve "Post" none [⟨"title", "string", false⟩] = .ok specification ∧
      (WellFormed specification ↔ Distinguishable specification.names.singularType.toList
        specification.names.pluralType.toList specification.fields) := by
  have haccepted : (demoResolve "Post" none [⟨"title", "string", false⟩]).toOption.isSome = true := by
    decide +kernel
  cases hresolve : demoResolve "Post" none [⟨"title", "string", false⟩] with
  | error error =>
      rw [hresolve] at haccepted
      cases haccepted
  | ok specification => exact ⟨specification, rfl, localization_keys_distinct_iff hresolve⟩

end Generator
end Hegira
