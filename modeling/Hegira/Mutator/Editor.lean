/-
# Structured edits

What the editors of `tools/application_mutator/src/editor.rs` have in common: the
kinds of their edits and errors, their outcomes, and `planned`.
-/

import Hegira.Library.Validation
import Hegira.Mutator.ChangePlan

namespace Hegira
namespace Mutator

/-- `StructuredEditKind`. -/
inductive StructuredEditKind where
  | rustModule
  | rustManagedEntry
  | cargoDependency
  | tomlArrayString
  | tomlArrayTable
  | tomlTableString
  deriving DecidableEq, Repr

/-- `StructuredEditErrorKind`. -/
inductive StructuredEditErrorKind where
  | invalidPath
  | invalidInput
  | invalidSource
  | missingIntegrationPoint
  | ambiguousIntegrationPoint
  | duplicateRegistration
  | reorderedRegistrations
  | existingOutsideManagedBlock
  | tomlConflict
  deriving DecidableEq, Repr

/-- `StructuredEditError`. -/
structure StructuredEditError where
  kind : StructuredEditErrorKind
  path : Option ChangePath
  message : String
  deriving DecidableEq

namespace StructuredEditError

/-- `StructuredEditError::at_path`. -/
def atPath (kind : StructuredEditErrorKind) (path : ChangePath) (message : String) :
    StructuredEditError :=
  ⟨kind, some path, message⟩

/-- `From<ChangePlanError>`, whatever the kind of the plan error. -/
def ofPlan (error : ChangePlanError) : StructuredEditError :=
  ⟨.invalidPath, error.path, error.message⟩

end StructuredEditError

/-- `StructuredEditOutcome`. -/
inductive StructuredEditOutcome (D : Type) [ContentDigest D] where
  | planned (kind : StructuredEditKind) (edit : StructuredFileEdit D)
  | alreadyPresent (kind : StructuredEditKind) (path : ChangePath)
  deriving DecidableEq

/-- `str::from_utf8`. -/
def fromUtf8 (bytes : Bytes) : Option String := String.fromUTF8? ⟨bytes.toArray⟩

/-- `String::into_bytes`. -/
def intoBytes (text : String) : Bytes := text.toByteArray.data.toList

/-- A text is its bytes. -/
theorem intoBytes_injective : Function.Injective intoBytes := by
  intro a b h
  have hdata : a.toByteArray.data = b.toByteArray.data := Array.toList_inj.1 h
  exact String.toByteArray_inj.1 (congrArg ByteArray.mk hdata)

@[simp] theorem fromUtf8_intoBytes (text : String) : fromUtf8 (intoBytes text) = some text := by
  have hbytes : (⟨(intoBytes text).toArray⟩ : ByteArray) = text.toByteArray := rfl
  rw [fromUtf8, hbytes, String.fromUTF8?, dif_pos text.isValidUTF8]
  rfl

/-- Bytes that are read are those of the text. -/
theorem fromUtf8_eq_some {bytes : Bytes} {text : String} (h : fromUtf8 bytes = some text) :
    intoBytes text = bytes := by
  unfold fromUtf8 String.fromUTF8? at h
  split at h
  · obtain rfl := Option.some.inj h
    rfl
  · cases h

variable {D : Type} [ContentDigest D] [DecidableEq D]

/-- A step of an editor that fails with the error of a plan. -/
def liftPlan {α : Type} (r : Except ChangePlanError α) : Except StructuredEditError α :=
  r.mapError .ofPlan

/-- `planned`. -/
def planned (kind : StructuredEditKind) (path : ChangePath) (observedSource resultingSource : Bytes) :
    Except StructuredEditError (StructuredEditOutcome D) := do
  let edit ← liftPlan (StructuredFileEdit.new path.text observedSource resultingSource)
  return .planned kind edit

open Validation

/-- An accepted path keeps its text. -/
theorem ChangePath.text_of_new {text : String} {path : ChangePath}
    (h : ChangePath.new text = .ok path) : path.text = text := by
  unfold ChangePath.new at h
  split at h
  · rw [← Except.ok.inj h]
  · cases h

/-- A planned edit is at its path, and writes what it was planned with. -/
theorem planned_eq_ok {kind : StructuredEditKind} {path : ChangePath}
    {observedSource resultingSource : Bytes} {outcome : StructuredEditOutcome D}
    (h : planned kind path observedSource resultingSource = .ok outcome) :
    ∃ edit, outcome = .planned kind edit ∧ edit.path = path ∧ edit.content = resultingSource := by
  obtain ⟨edit, hedit, h⟩ := bind_eq_ok.1 h
  rw [liftPlan, mapError_eq_ok] at hedit
  obtain ⟨path', hpath, hedit⟩ := bind_eq_ok.1 hedit
  obtain ⟨-, hedit⟩ := guarded_eq_ok.1 hedit
  obtain rfl := pure_eq_ok.1 hedit
  exact ⟨_, (pure_eq_ok.1 h).symm, ChangePath.ext (ChangePath.text_of_new hpath), rfl⟩

/-- It is accepted again. -/
theorem ChangePath.new_text (p : ChangePath) : ChangePath.new p.text = .ok p := by
  unfold ChangePath.new
  split
  · rfl
  · next h => rw [p.checked] at h; cases h

/-- An edit is planned when it changes the digest. -/
theorem planned_eq (kind : StructuredEditKind) (p : ChangePath)
    (observedSource resultingSource : Bytes) :
    ((ContentDigest.calculate observedSource : D) = ContentDigest.calculate resultingSource →
      planned (D := D) kind p observedSource resultingSource =
        .error (.ofPlan (.unchanged p))) ∧
    ((ContentDigest.calculate observedSource : D) ≠ ContentDigest.calculate resultingSource →
      ∃ edit : StructuredFileEdit D, edit.content = resultingSource ∧
        planned kind p observedSource resultingSource = .ok (.planned kind edit)) := by
  constructor
  · intro h
    simp [planned, StructuredFileEdit.new, ChangePath.new_text, h, bind, Except.bind,
      liftPlan, Except.mapError, throw, throwThe, MonadExceptOf.throw]
  · intro h
    refine ⟨⟨p, ContentDigest.calculate observedSource, resultingSource,
      ContentDigest.calculate resultingSource, ⟨_, rfl⟩, rfl⟩, rfl, ?_⟩
    simp [planned, StructuredFileEdit.new, ChangePath.new_text, h, bind, Except.bind,
      liftPlan, Except.mapError, pure, Except.pure]

end Mutator
end Hegira
