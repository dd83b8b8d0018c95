/-
# The file names of migrations

The name the planner gives a migration is read back as its version and its identity
(`parseMigrationFilename_migrationFilename`), so the next planning sees what the last
one wrote.
-/

import Hegira.Library.Validation
import Hegira.Generator.Migration

namespace Hegira
namespace Generator

/-! ### Reading -/

/-- A suffix is stripped. -/
@[simp] theorem stripSuffix_append (text suffix : List Char) :
    stripSuffix suffix (text ++ suffix) = some text := by
  rw [stripSuffix, if_pos (by simp)]
  simp

/-- A text is split at its first separator. -/
theorem splitOnce_append {separator : Char} {text rest : List Char} (h : separator ∉ text) :
    splitOnce separator (text ++ separator :: rest) = some (text, rest) := by
  have hne (c : Char) (hc : c ∈ text) : (c ≠ separator) = True :=
    eq_true fun he => h (he ▸ hc)
  have htake : (text ++ separator :: rest).takeWhile (· ≠ separator) = text := by
    rw [List.takeWhile_append_of_pos (by simpa using fun c hc => of_eq_true (hne c hc))]
    simp
  have hdrop : (text ++ separator :: rest).dropWhile (· ≠ separator) = separator :: rest := by
    rw [List.dropWhile_append_of_pos (by simpa using fun c hc => of_eq_true (hne c hc))]
    simp
  rw [splitOnce, if_pos (by simp), htake, hdrop, List.tail_cons]

/-- An identity is made again from its text. -/
theorem MigrationIdentity.new_value (identity : MigrationIdentity) :
    MigrationIdentity.new identity.value = .ok identity := by
  unfold MigrationIdentity.new
  split
  · rfl
  · next e h => exact absurd (identity.checked.symm.trans h) (by simp)

/-- What an identity is spelled with. -/
theorem MigrationIdentity.mem_toList {identity : MigrationIdentity} {c : Char}
    (h : c ∈ identity.value.toList) : c.isLower ∨ c.isDigit ∨ c = '_' := by
  have hchecked := identity.checked
  unfold MigrationIdentity.check at hchecked
  obtain ⟨hvalid, -⟩ := Validation.guarded_eq_ok.1 hchecked
  simp only [Bool.not_eq_true', Bool.not_eq_false, Bool.and_eq_true, List.all_eq_true,
    Bool.or_eq_true, beq_iff_eq] at hvalid
  exact or_assoc.1 (hvalid.1.2 c h)

/-! ### Versions -/

/-- A positive number does not start with a zero. -/
theorem head?_toDigits_ne {n : ℕ} (h : 0 < n) : (Nat.toDigits 10 n).head? ≠ some '0' := by
  induction n using Nat.strong_induction_on with
  | _ n ih =>
      rw [Nat.toDigits_eq_if (by omega)]
      split
      · next hn =>
          have hdigit : ∀ m < 10, 0 < m → [Nat.digitChar m].head? ≠ some '0' := by decide
          exact hdigit n hn h
      · next hn =>
          rw [List.head?_append_of_ne_nil _ Nat.toDigits_ne_nil]
          exact ih (n / 10) (by omega) (by omega)

/-- A version is padded to three digits. -/
theorem toList_formatVersion (version : ℤ) : (formatVersion version).toList =
    List.replicate (3 - (Nat.toDigits 10 version.toNat).length) '0'
      ++ Nat.toDigits 10 version.toNat := by
  simp [formatVersion]

/-- It is written with digits only. -/
theorem isDigit_of_mem_formatVersion {version : ℤ} {c : Char}
    (h : c ∈ (formatVersion version).toList) : c.isDigit := by
  rw [toList_formatVersion, List.mem_append, List.mem_replicate] at h
  rcases h with ⟨-, rfl⟩ | h
  · rfl
  · exact Nat.isDigit_of_mem_toDigits (by omega) (by omega) h

theorem ofDigitChars_formatVersion {version : ℤ} (h : 0 < version) :
    (Nat.ofDigitChars 10 (formatVersion version).toList 0 : ℤ) = version := by
  rw [toList_formatVersion, Nat.ofDigitChars_append, Nat.ofDigitChars_replicate_zero, Nat.mul_zero,
    Nat.ofDigitChars_ten_toDigits]
  omega

/-- **A file name is read back.** -/
theorem parseMigrationFilename_migrationFilename {version : ℤ} (identity : MigrationIdentity)
    (hpos : 0 < version) (hmax : version ≤ i64Max) :
    parseMigrationFilename (migrationFilename version identity) = .ok (version, identity) := by
  have hname : (migrationFilename version identity).toList =
      ((formatVersion version).toList ++ '_' :: identity.value.toList) ++ ".sql".toList := by
    simp [migrationFilename]
  have hunder : '_' ∉ (formatVersion version).toList := fun h =>
    absurd (isDigit_of_mem_formatVersion h) (by decide)
  have hlength : ¬(formatVersion version).toList.length < 3 := by
    rw [toList_formatVersion, List.length_append, List.length_replicate]
    omega
  have hdigits : (formatVersion version).toList.all Char.isDigit :=
    List.all_eq_true.2 fun c hc => isDigit_of_mem_formatVersion hc
  -- a version with more than three digits has no padding
  have hhead : ¬(3 < (formatVersion version).toList.length ∧
      (formatVersion version).toList.head? = some '0') := by
    rw [toList_formatVersion, List.length_append, List.length_replicate]
    rintro ⟨hlen, hzero⟩
    have hpad : 3 - (Nat.toDigits 10 version.toNat).length = 0 := by omega
    rw [hpad, List.replicate_zero, List.nil_append] at hzero
    exact head?_toDigits_ne (by omega) hzero
  rw [parseMigrationFilename, hname, stripSuffix_append]
  dsimp only
  rw [splitOnce_append hunder]
  dsimp only
  rw [if_neg (by simp [hlength, hdigits]; simpa using hhead), ofDigitChars_formatVersion hpos,
    if_neg (not_lt.2 hmax), if_neg (by simp [hpos]), String.ofList_toList,
    MigrationIdentity.new_value]
  rfl

/-- A file name names a file. -/
theorem slash_notMem_migrationFilename (version : ℤ) (identity : MigrationIdentity) :
    '/' ∉ (migrationFilename version identity).toList := by
  simp only [migrationFilename, String.toList_append, List.mem_append, not_or]
  refine ⟨⟨⟨fun h => ?_, by decide⟩, fun h => ?_⟩, by decide⟩
  · exact absurd (isDigit_of_mem_formatVersion h) (by decide)
  · exact absurd (MigrationIdentity.mem_toList h) (by decide)

end Generator
end Hegira
