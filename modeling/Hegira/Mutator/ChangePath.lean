/-
# Change paths

`ChangePath` of `tools/application_mutator/src/lib.rs`: the relative, canonical
spelling under which a plan names a file of the application.  `ChangePath.check`
is the body of `ChangePath::new`; a `ChangePath` carries the proof that its text
passed it, so a path with dot segments, empty segments or foreign characters
cannot be built.  Paths are `String`s here, so the UTF-8 check of the source is
part of the type.
-/

import Mathlib.Data.String.Basic

namespace Hegira
namespace Mutator

/-- `std::path::Component` on Unix, where no prefix component exists. -/
inductive Component where
  | rootDir
  | curDir
  | parentDir
  | normal (segment : String)
  deriving DecidableEq, Repr

/-- One segment between slashes: empty and interior `.` segments are skipped. -/
def Component.ofSegment : String → Option Component
  | "" => none
  | "." => none
  | ".." => some .parentDir
  | segment => some (.normal segment)

/-- `Path::components`: a leading slash is the root, a leading `.` of a relative
path is kept. -/
def components (text : String) : List Component :=
  let segments := (text.toList.splitOn '/').map String.ofList
  let start := if text.toList.head? = some '/' then [Component.rootDir]
    else if segments.head? = some "." then [.curDir] else []
  start ++ segments.filterMap Component.ofSegment

/-- `char::is_control`: the Unicode category `Cc`. -/
def isControl (c : Char) : Bool :=
  c.toNat < 0x20 || (0x7F ≤ c.toNat && c.toNat < 0xA0)

/-- The bytes a change path segment may use. -/
def isSegmentChar (c : Char) : Bool :=
  ('a' ≤ c && c ≤ 'z') || ('A' ≤ c && c ≤ 'Z') || ('0' ≤ c && c ≤ '9') ||
    c == '-' || c == '_' || c == '.'

/-- `segment` as the loop of `ChangePath::new` accepts it. -/
def segmentOk (segment : String) : Bool :=
  segment ≠ "" && segment.utf8ByteSize ≤ 255 && segment.toList.all isSegmentChar

/-- The loop of `ChangePath::new` over the components, collecting the segments. -/
def normalizedSegments : List Component → Except String (List String)
  | [] => .ok []
  | .normal segment :: rest =>
      if segmentOk segment then do
        let normalized ← normalizedSegments rest
        return segment :: normalized
      else .error "change path segments must use 1–255 ASCII letters, digits, dots, hyphens, or underscores"
  | _ :: _ =>
      .error "change paths may not contain dot, dot-dot, prefixes, or root components"

/-- An accepted path has names only. -/
theorem normalizedSegments_eq_ok {path : List Component} {names : List String}
    (h : normalizedSegments path = .ok names) : path = names.map .normal := by
  induction path generalizing names with
  | nil => cases h; rfl
  | cons component rest ih =>
      cases component with
      | normal segment =>
          simp only [normalizedSegments] at h
          split at h
          · rcases hr : normalizedSegments rest with e | others
            · rw [hr] at h; cases h
            · rw [hr] at h; cases h
              rw [ih hr]; rfl
          · cases h
      | rootDir | curDir | parentDir => cases h

/-- A name between slashes is no dot. -/
theorem normal_mem_components {text name : String} (h : .normal name ∈ components text) :
    name ≠ "." := by
  rintro rfl
  simp only [components, List.mem_append, List.mem_filterMap] at h
  rcases h with h | ⟨segment, -, h⟩
  · split_ifs at h <;> simp at h
  · unfold Component.ofSegment at h
    split at h <;> simp_all

/-- The checks of `ChangePath::new`, in order, with the message of the failing one. -/
def ChangePath.check (text : String) : Except String Unit := do
  if text = "" || 4096 < text.utf8ByteSize || text.toList.any isControl then
    throw "change paths must contain 1–4096 visible UTF-8 bytes"
  if text.toList.contains '\\' || text.toList.head? = some '/' then
    throw "change paths must be relative and use forward slashes"
  let normalized ← normalizedSegments (components text)
  if "/".intercalate normalized ≠ text then
    throw "change paths must use one canonical spelling"

/-- A canonical relative path. -/
structure ChangePath where
  text : String
  checked : ChangePath.check text = .ok ()
  deriving DecidableEq

namespace ChangePath

/-- Two accepted paths with one text are one. -/
@[ext] theorem ext {p q : ChangePath} (h : p.text = q.text) : p = q := by
  cases p; cases q; cases h; rfl

/-- Paths are ordered by their bytes, as the derived `Ord` of the source. -/
instance : Ord ChangePath := ⟨compareOn ChangePath.text⟩

instance : Std.TransOrd ChangePath := inferInstanceAs (Std.TransCmp (compareOn ChangePath.text))

instance : Std.LawfulEqOrd ChangePath where
  eq_of_compare {a b} h := ext (Std.LawfulEqCmp.eq_of_compare
    (show compare a.text b.text = .eq from h))

/-- The segments of a change path: the names from the application root down to
the file. -/
def segments (p : ChangePath) : List String :=
  (components p.text).filterMap fun
    | .normal segment => some segment
    | _ => none

/-- `Path::file_name`; `ChangePath` always names a file. -/
def fileName (p : ChangePath) : String := p.segments.getLastD ""

/-- `Path::parent`, as the segments from the application root. -/
def parent (p : ChangePath) : List String := p.segments.dropLast

/-- An accepted text is its names with slashes between. -/
theorem exists_segments (p : ChangePath) :
    ∃ names, components p.text = names.map .normal ∧ "/".intercalate names = p.text := by
  have h := p.checked
  simp only [ChangePath.check, bind, Except.bind, throw, throwThe, MonadExceptOf.throw, pure,
    Except.pure] at h
  split at h
  · cases h
  split at h
  · cases h
  rcases hn : normalizedSegments (components p.text) with e | names
  · rw [hn] at h
    cases h
  · rw [hn] at h
    dsimp only at h
    split at h
    · cases h
    next heq => exact ⟨names, normalizedSegments_eq_ok hn, not_not.1 heq⟩

/-- The components of a change path are its segments. -/
theorem components_eq (p : ChangePath) : components p.text = p.segments.map .normal := by
  obtain ⟨names, hn, -⟩ := p.exists_segments
  simp [segments, hn, List.filterMap_map]

/-- The segments of a path give its text back. -/
theorem intercalate_segments (p : ChangePath) : "/".intercalate p.segments = p.text := by
  obtain ⟨names, hn, hi⟩ := p.exists_segments
  have h : p.segments = names := by simp [segments, hn, List.filterMap_map]
  rw [h, hi]

/-- A path is given by its segments. -/
theorem segments_injective {p q : ChangePath} (h : p.segments = q.segments) : p = q :=
  ext (by rw [← p.intercalate_segments, h, q.intercalate_segments])

/-- No accepted path is empty. -/
theorem segments_ne_nil (p : ChangePath) : p.segments ≠ [] := by
  intro h
  have ht : p.text = "" := by rw [← p.intercalate_segments, h]; rfl
  have hc := p.checked
  rw [ChangePath.check, ht] at hc
  cases hc

/-- A path is its parent and its file name. -/
theorem segments_eq (p : ChangePath) : p.segments = p.parent ++ [p.fileName] := by
  rw [parent, fileName, List.getLastD_eq_getLast?, List.getLast?_eq_getLast_of_ne_nil p.segments_ne_nil]
  exact (List.dropLast_append_getLast p.segments_ne_nil).symm

end ChangePath

end Mutator
end Hegira
