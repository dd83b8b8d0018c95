/-
# Change plans

The plan types of `tools/application_mutator/src/lib.rs` and `ChangePlan::compose`.

SHA-256 comes from the `sha2` crate, so the digest is a parameter: a type `D`
with `ContentDigest.calculate` and `ContentDigest.toHex`.  The fields of the
change types are private in the source and only their constructors fill them,
so each type carries what the constructors establish: a result digest is the
digest of the content next to it, an original digest is the digest of some
observed content.  `StructuredFileEdit.new` also refuses an edit that changes
nothing, but `compose` builds edits without it, so that is no field.
-/

import Hegira.Mutator.ChangePath

namespace Hegira
namespace Mutator

abbrev Bytes := List UInt8

/-- The digest of file contents, `ContentDigest` of the source. -/
class ContentDigest (D : Type) where
  calculate : Bytes → D
  toHex : D → String

/-- `ChangePlanErrorKind`. -/
inductive ChangePlanErrorKind where
  | invalidPath
  | invalidOwnership
  | duplicatePath
  | conflictingOperations
  | unchangedEdit
  | nonDeterministicOrder
  | invalidDigest
  deriving DecidableEq, Repr

/-- `ChangePlanError`. -/
structure ChangePlanError where
  kind : ChangePlanErrorKind
  path : Option ChangePath
  message : String
  deriving DecidableEq

namespace ChangePlanError

/-- `ChangePlanError::invalid_path`. -/
def invalidPath (message : String) : ChangePlanError :=
  ⟨.invalidPath, none, message⟩

/-- `ChangePlanError::unchanged`. -/
def unchanged (path : ChangePath) : ChangePlanError :=
  ⟨.unchangedEdit, some path,
    "structured edit for `" ++ path.text ++ "` does not change the observed content"⟩

/-- `ChangePlanError::at_path`.  The source panics on the last three kinds, which
have constructors of their own, and never passes them. -/
def atPath (kind : ChangePlanErrorKind) (path : ChangePath) : ChangePlanError :=
  let message := match kind with
    | .duplicatePath => "change plan contains duplicate operations for `" ++ path.text ++ "`"
    | .conflictingOperations =>
        "change plan contains conflicting operations for `" ++ path.text ++ "`"
    | .nonDeterministicOrder =>
        "change plan is not in deterministic path order at `" ++ path.text ++ "`"
    | .invalidDigest => "change plan result digest does not match content for `" ++ path.text ++ "`"
    | .invalidPath | .invalidOwnership | .unchangedEdit => ""
  ⟨kind, some path, message⟩

end ChangePlanError

/-- `ChangePath::new`. -/
def ChangePath.new (path : String) : Except ChangePlanError ChangePath :=
  match h : ChangePath.check path with
  | .ok () => .ok ⟨path, h⟩
  | .error message => .error (.invalidPath message)

/-- `ChangeOperation`. -/
inductive ChangeOperation where
  | create
  | edit
  | retire
  deriving DecidableEq, Repr

/-- `FilePrecondition`. -/
inductive FilePrecondition (D : Type) where
  | absent
  | matchesDigest (digest : D)
  deriving DecidableEq

section Changes

variable (D : Type) [ContentDigest D]

/-- `FileCreation`. -/
structure FileCreation where
  path : ChangePath
  content : Bytes
  resultDigest : D
  resultDigest_eq : resultDigest = ContentDigest.calculate content
  deriving DecidableEq

/-- `StructuredFileEdit`. -/
structure StructuredFileEdit where
  path : ChangePath
  originalDigest : D
  content : Bytes
  resultDigest : D
  observed : ∃ original, ContentDigest.calculate original = originalDigest
  resultDigest_eq : resultDigest = ContentDigest.calculate content
  deriving DecidableEq

/-- `ManagedFileRetirement`. -/
structure ManagedFileRetirement where
  path : ChangePath
  originalDigest : D
  integration : String
  observed : ∃ original, ContentDigest.calculate original = originalDigest
  deriving DecidableEq

/-- `PlannedFileChange`. -/
inductive PlannedFileChange where
  | create (change : FileCreation D)
  | edit (change : StructuredFileEdit D)
  | retire (change : ManagedFileRetirement D)
  deriving DecidableEq

/-- `ChangePlan`, before `validate`. -/
structure ChangePlan where
  changes : List (PlannedFileChange D)
  deriving DecidableEq

end Changes

variable {D : Type} [ContentDigest D]

/-- The digest of observed bytes is one of some bytes. -/
theorem calculated (content : Bytes) :
    ∃ original, ContentDigest.calculate original = (ContentDigest.calculate content : D) :=
  ⟨content, rfl⟩

/-- `FileCreation::new`. -/
def FileCreation.new (path : String) (content : Bytes) :
    Except ChangePlanError (FileCreation D) := do
  let path ← ChangePath.new path
  return ⟨path, content, ContentDigest.calculate content, rfl⟩

/-- `StructuredFileEdit::new`. -/
def StructuredFileEdit.new [DecidableEq D] (path : String) (observedContent content : Bytes) :
    Except ChangePlanError (StructuredFileEdit D) := do
  let path ← ChangePath.new path
  let originalDigest : D := ContentDigest.calculate observedContent
  let resultDigest : D := ContentDigest.calculate content
  if originalDigest = resultDigest then
    throw (.unchanged path)
  return ⟨path, ContentDigest.calculate observedContent, content, ContentDigest.calculate content,
    ⟨observedContent, rfl⟩, rfl⟩

namespace PlannedFileChange

/-- `PlannedFileChange::path`. -/
def path : PlannedFileChange D → ChangePath
  | .create change => change.path
  | .edit change => change.path
  | .retire change => change.path

/-- `PlannedFileChange::operation`. -/
def operation : PlannedFileChange D → ChangeOperation
  | .create _ => .create
  | .edit _ => .edit
  | .retire _ => .retire

/-- `PlannedFileChange::precondition`. -/
def precondition : PlannedFileChange D → FilePrecondition D
  | .create _ => .absent
  | .edit change => .matchesDigest change.originalDigest
  | .retire change => .matchesDigest change.originalDigest

/-- `PlannedFileChange::resulting_content`. -/
def resultingContent : PlannedFileChange D → Option Bytes
  | .create change => some change.content
  | .edit change => some change.content
  | .retire _ => none

/-- `PlannedFileChange::result_digest`. -/
def resultDigest : PlannedFileChange D → Option D
  | .create change => some change.resultDigest
  | .edit change => some change.resultDigest
  | .retire _ => none

/-- `PlannedFileChange::result_precondition`. -/
def resultPrecondition (change : PlannedFileChange D) : FilePrecondition D :=
  match change.resultDigest with
  | none => .absent
  | some digest => .matchesDigest digest

/-- The result digest of a change is the digest of its resulting content. -/
theorem resultDigest_eq_map (change : PlannedFileChange D) :
    change.resultDigest = change.resultingContent.map ContentDigest.calculate := by
  cases change with
  | create change => exact congrArg some change.resultDigest_eq
  | edit change => exact congrArg some change.resultDigest_eq
  | retire change => rfl

/-- The `match (previous, change)` of `ChangePlan::compose`: the change that
`previous` and `change` make together, `none` inside when they cancel, and no
result at all for the pairs the source refuses. -/
def chained : PlannedFileChange D → PlannedFileChange D → Option (Option (PlannedFileChange D))
  | .create creation, .edit second =>
      some (some (.create { creation with
        content := second.content
        resultDigest := second.resultDigest
        resultDigest_eq := second.resultDigest_eq }))
  | .create _, .retire _ => some none
  | .edit first, .edit second =>
      some (some (.edit { first with
        content := second.content
        resultDigest := second.resultDigest
        resultDigest_eq := second.resultDigest_eq }))
  | .edit first, .retire retirement =>
      some (some (.retire { retirement with
        originalDigest := first.originalDigest
        observed := first.observed }))
  | .retire retirement, .create creation =>
      some (some (.edit {
        path := retirement.path
        originalDigest := retirement.originalDigest
        content := creation.content
        resultDigest := creation.resultDigest
        observed := retirement.observed
        resultDigest_eq := creation.resultDigest_eq }))
  | _, _ => none

end PlannedFileChange

namespace ChangePlan

variable [DecidableEq D]

/-- The loop of `ChangePlan::validate`, `previous` the path before. -/
def validateFrom : Option ChangePath → List (PlannedFileChange D) → Except ChangePlanError Unit
  | _, [] => .ok ()
  | previous, change :: rest => do
      if previous.any fun path => (compare path change.path).isGE then
        throw (.atPath .nonDeterministicOrder change.path)
      match change.resultingContent, change.resultDigest with
      | some content, some digest =>
          if ContentDigest.calculate content ≠ digest then
            throw (.atPath .invalidDigest change.path)
      | _, _ =>
          if change.operation ≠ .retire then
            throw (.atPath .invalidDigest change.path)
      validateFrom (some change.path) rest

/-- `ChangePlan::validate`. -/
def validate (plan : ChangePlan D) : Except ChangePlanError Unit :=
  validateFrom none plan.changes

/-- The body of the inner loop of `ChangePlan::compose`. -/
def composeChange (composed : Std.TreeMap ChangePath (PlannedFileChange D))
    (change : PlannedFileChange D) :
    Except ChangePlanError (Std.TreeMap ChangePath (PlannedFileChange D)) :=
  let path := change.path
  match composed[path]? with
  | none => .ok (composed.insert path change)
  | some previous =>
      let composed := composed.erase path
      if change.precondition ≠ previous.resultPrecondition then
        .error (.atPath .conflictingOperations path)
      else match previous.chained change with
        | some (some chained) => .ok (composed.insert path chained)
        | some none => .ok composed
        | none => .error (.atPath .conflictingOperations path)

/-- The body of the outer loop of `ChangePlan::compose`. -/
def composePlan (composed : Std.TreeMap ChangePath (PlannedFileChange D)) (plan : ChangePlan D) :
    Except ChangePlanError (Std.TreeMap ChangePath (PlannedFileChange D)) := do
  plan.validate
  plan.changes.foldlM composeChange composed

/-- `BTreeMap::into_values`, the values in the order of their paths. -/
def intoValues (composed : Std.TreeMap ChangePath (PlannedFileChange D)) : ChangePlan D :=
  ⟨composed.toList.map Prod.snd⟩

/-- `ChangePlan::compose`. -/
def compose (plans : List (ChangePlan D)) : Except ChangePlanError (ChangePlan D) := do
  let composed ← plans.foldlM composePlan ∅
  let plan := intoValues composed
  plan.validate
  return plan

/-- The loop of `ChangePlan::new`. -/
def collect (ordered : Std.TreeMap ChangePath (PlannedFileChange D))
    (change : PlannedFileChange D) :
    Except ChangePlanError (Std.TreeMap ChangePath (PlannedFileChange D)) :=
  let path := change.path
  match ordered[path]? with
  | some existing =>
      let kind := if existing.operation = change.operation then
        ChangePlanErrorKind.duplicatePath else .conflictingOperations
      .error (.atPath kind path)
  | none => .ok (ordered.insert path change)

/-- `ChangePlan::new`. -/
def new (changes : List (PlannedFileChange D)) : Except ChangePlanError (ChangePlan D) := do
  let ordered ← changes.foldlM collect ∅
  let plan := intoValues ordered
  plan.validate
  return plan

/-- `ChangePlan::is_empty`. -/
def isEmpty (plan : ChangePlan D) : Bool := plan.changes.isEmpty

end ChangePlan

/-- A digest for evaluating plans on concrete contents: the content itself, so
that no two contents share one. -/
structure PlainDigest where
  bytes : Bytes
  deriving DecidableEq, Repr

/-- Two lowercase hexadecimal digits, the `{byte:02x}` of `to_hex`. -/
def hexByte (byte : UInt8) : String :=
  String.ofList [Nat.digitChar (byte.toNat / 16), Nat.digitChar (byte.toNat % 16)]

instance : ContentDigest PlainDigest where
  calculate content := ⟨content⟩
  toHex digest := String.join (digest.bytes.map hexByte)

theorem PlainDigest.calculate_injective :
    Function.Injective (ContentDigest.calculate : Bytes → PlainDigest) := by
  rintro a b h
  exact congrArg PlainDigest.bytes h

/-- A path to plan at. -/
def draftPath : ChangePath := ⟨"src/draft.rs", by decide⟩

/-- A plan that creates the draft. -/
def createDraft (content : Bytes) : ChangePlan PlainDigest :=
  ⟨[.create ⟨draftPath, content, ⟨content⟩, rfl⟩]⟩

/-- A plan that edits the draft. -/
def editDraft (original content : Bytes) : ChangePlan PlainDigest :=
  ⟨[.edit ⟨draftPath, ⟨original⟩, content, ⟨content⟩, ⟨original, rfl⟩, rfl⟩]⟩

/-- A plan that retires the draft. -/
def retireDraft (original : Bytes) : ChangePlan PlainDigest :=
  ⟨[.retire ⟨draftPath, ⟨original⟩, "drafts", ⟨original, rfl⟩⟩]⟩

end Mutator
end Hegira
