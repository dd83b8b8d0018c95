/-
# Publishing a rendered application

`tools/template_renderer/src/destination.rs`: `checked_path`, `Parent`, `Staging` and
`publish_with`, as the programs of calls they make.

The application is written to a private directory next to the destination, which is
then renamed.  `Staging` records what was created in the directory; when the publication
fails, its destructor (`drop`) takes that away again.  A failure on the way carries the
record as it was then (`Stopped`).  The working directory, the process id and the clock
are inputs; a path of a rendered file is the list of its names once it is checked.
-/

import Mathlib.Data.String.Basic
import Hegira.Library.Arrangement
import Hegira.Destination.FileSystem
import Hegira.Mutator.Editor

namespace Hegira
namespace Destination

open Std (TreeMap)
open Mutator (Bytes Identity fromUtf8 intoBytes isControl)
open Template (Fault PathBuf PathComponent rendererError)

def safety (message : String) : Fault := rendererError message

def conflict : Fault :=
  rendererError "destination already exists; choose a new directory (overwrite is not supported)"

/-! ### The destination -/

/-- `application_manifest::reserved_project_name`. -/
def reservedProjectName (name : String) : Bool :=
  let name := name.map Char.toLower
  name ∈ ["as", "async", "await", "break", "const", "continue", "crate", "dyn", "else", "enum",
      "extern", "false", "fn", "for", "if", "impl", "in", "let", "loop", "match", "mod", "move",
      "mut", "pub", "ref", "return", "self", "static", "struct", "super", "trait", "true", "type",
      "unsafe", "use", "where", "while", "abstract", "become", "box", "do", "final", "gen",
      "macro", "override", "priv", "try", "typeof", "unsized", "virtual", "yield", "union",
      "target", "con", "prn", "aux", "nul"] ||
    (name.startsWith "com" || name.startsWith "lpt") && name.utf8ByteSize == 4 &&
      name.toList.getLast?.any fun c => '1' ≤ c && c ≤ '9'

/-- A `..` after a named directory, or in an absolute path. -/
def traversesBack (absolute : Bool) : Bool → List PathComponent → Bool
  | _, [] => false
  | normalSeen, .parentDir :: rest =>
      normalSeen || absolute || traversesBack absolute normalSeen rest
  | _, .normal _ :: rest => traversesBack absolute true rest
  | normalSeen, _ :: rest => traversesBack absolute normalSeen rest

/-- One round of the loop that resolves `.` and `..`. -/
def resolvePart (resolved : List PathComponent) : PathComponent → List PathComponent
  | .parentDir => ((⟨resolved⟩ : PathBuf).parent.map PathBuf.components).getD resolved
  | .curDir => resolved
  | other => resolved ++ [other]

/-- `checked_path`. -/
def checkedPath (currentDir : Option PathBuf) (output : Bytes) : Except Fault PathBuf := do
  let some text := fromUtf8 output | throw (safety "destination must be valid UTF-8")
  if text.isEmpty || text.toList.any isControl || text.toList.contains '\\' then
    throw (safety "destination must be non-empty and contain no controls or backslashes")
  let part := (text.toList.splitOn '/').reverse.find? (· ≠ [])
  if part = some ['.'] || part = some ['.', '.'] then
    throw (safety "destination must end in a new directory name, not dot or dot-dot")
  let path := PathBuf.ofBytes output
  if traversesBack path.isAbsolute false path.components then
    throw (safety "destination may not traverse back through a named directory")
  let some name := path.fileName.bind fromUtf8
    | throw (safety "destination must name a new application directory")
  if name.utf8ByteSize > 64 ||
      !(name.toList.all fun c => c.isAlphanum || c == '-' || c == '_') ||
      !(name.toList.head?.any Char.isAlphanum) || reservedProjectName name then
    throw (safety "destination directory must use 1–64 ASCII letters, digits, hyphens or underscores and must not be reserved")
  if path.isAbsolute then
    return ⟨path.components.foldl resolvePart []⟩
  else
    match currentDir with
    | none => throw (safety "cannot resolve current directory")
    | some currentDir => return ⟨(currentDir.join path).components.foldl resolvePart []⟩

/-! ### Calls -/

abbrev Publisher := Fallible Fault Call Call.Reply

/-- A call to the operating system. -/
def fs (phase : Phase) (c : FsCall) (onError : Errno → Fault) : Publisher c.Value :=
  ExceptT.mk (.call (.fs phase c) fun r => .done (r.mapError onError))

/-- A call of a hook. -/
def hook (point : HookPoint) (staging : Location) : Publisher Unit :=
  ExceptT.mk (.call (.hook point staging) .done)

/-- One round of the loop of `Parent::open`. -/
def openComponent (fd : Identity) (component : PathComponent) : Publisher Identity :=
  let openAt (name : Name) := fs .publication (.openDirectory ⟨fd, name⟩) fun _ =>
    safety "destination parent must already exist and contain no symlinks; choose or create a real parent directory"
  match component with
  | .rootDir | .curDir => pure fd
  | .normal name => openAt name
  | .parentDir => openAt (intoBytes "..")

/-- `Parent::open`. -/
def openParent (path : PathBuf) : Publisher Identity := do
  let parent ← liftExcept (path.parent.elim (.error (safety "destination has no parent")) .ok)
  let fd ← fs .publication .openSlash fun _ => safety "cannot open filesystem root"
  parent.components.foldlM openComponent fd

/-- `path.file_name().unwrap()`. -/
def fileName (path : PathBuf) : Except Fault Name :=
  path.fileName.elim (.error (.panicked "called `Option::unwrap()` on a `None` value")) .ok

/-- `Parent::ensure_absent`. -/
def ensureAbsent (parent : Identity) (path : PathBuf) : Publisher Unit := do
  let name ← liftExcept (fileName path)
  ExceptT.mk (.call (.fs .publication (.statAt ⟨parent, name⟩)) fun
    | .error .noent => .done (.ok ())
    | .ok _ => .done (.error conflict)
    | .error _ =>
        .done (.error (safety "cannot inspect destination; check parent permissions")))

/-- `same_directory`. -/
def sameDirectory (phase : Phase) (a b : Identity) : Publisher Bool := do
  let a ← fs phase (.stat a) fun _ => safety "cannot inspect open directory"
  let b ← fs phase (.stat b) fun _ => safety "cannot inspect open directory"
  return a == b

/-! ### The staging directory -/

/-- A relative path of names. -/
abbrev RelativePath := List Name

/-- `Staging`; it is dropped before it is published. -/
structure Staging where
  parent : Identity
  name : Name
  fd : Identity
  files : List RelativePath
  directories : List RelativePath

/-- A failure, with the record at that time. -/
structure Stopped where
  fault : Fault
  staging : Staging

abbrev Stager := Fallible Stopped Call Call.Reply

/-- A part that leaves the record as it is. -/
def onto {α : Type} (staging : Staging) (p : Publisher α) : Stager α :=
  ExceptT.adapt (fun fault => ⟨fault, staging⟩) p

/-- `descend`. -/
def descend (phase : Phase) (root : Identity) (path : RelativePath) : Publisher Identity := do
  let fd ← fs phase (.duplicate root) fun _ => safety "cannot open staging directory"
  path.foldlM (fun fd name => fs phase (.openDirectory ⟨fd, name⟩) fun _ =>
    safety "staging directory changed during rendering") fd

/-- One round of the loop over the parent of a file. -/
def makeDirectory (staging : Staging) (directory : RelativePath) (part : Name) : Stager Staging := do
  let fd ← onto staging (descend .publication staging.fd directory)
  if directory ++ [part] ∈ staging.directories then
    return staging
  else do
    onto staging (fs .publication (.makeDirectory ⟨fd, part⟩) fun _ =>
      safety "cannot create private rendered directory")
    return { staging with directories := staging.directories ++ [directory ++ [part]] }

def makeDirectories (staging : Staging) (directory : RelativePath) : List Name → Stager Staging
  | [] => pure staging
  | part :: rest => do
      let staging ← makeDirectory staging directory part
      makeDirectories staging (directory ++ [part]) rest

/-- The names of a path without a root or traversal. -/
def relativeNames (path : PathBuf) : Option RelativePath :=
  path.components.mapM fun
    | .normal name => some name
    | _ => none

/-- The file itself, when its directory is there. -/
def createFile (staging : Staging) (directory : RelativePath) (name : Name) (bytes : Bytes) :
    Stager Staging := do
  let fd ← onto staging (descend .publication staging.fd directory)
  onto staging (fs .publication (.createFile ⟨fd, name⟩) fun _ =>
    safety "cannot exclusively create rendered file")
  let staging := { staging with files := staging.files ++ [directory ++ [name]] }
  onto staging (fs .publication (.writeAll ⟨fd, name⟩ bytes) fun _ =>
    safety "failed to write rendered file; check disk space and permissions")
  return staging

/-- One round of the loop over the files. -/
def writeFile (staging : Staging) (file : PathBuf × Bytes) : Stager Staging :=
  match relativeNames file.1 with
  | none | some [] =>
      throw ⟨safety "rendered component paths must be relative without traversal", staging⟩
  | some (first :: rest) => do
      let names := first :: rest
      let staging ← makeDirectories staging [] names.dropLast
      createFile staging names.dropLast (names.getLastD []) file.2

/-- What follows the files. -/
def finish (output : PathBuf) (staging : Staging) : Publisher Unit := do
  let location : Location := ⟨staging.parent, staging.name⟩
  hook .beforePublish location
  let currentParent ← openParent output
  let same ← sameDirectory .publication staging.parent currentParent
  if !same then
    throw (safety "destination parent changed during rendering; retry with a stable directory")
  ensureAbsent staging.parent output
  let currentStaging ← fs .publication (.openDirectory location) fun _ =>
    safety "staging directory changed before publication"
  let same ← sameDirectory .publication staging.fd currentStaging
  if !same then
    throw (safety "staging directory changed before publication")
  hook .beforeRename location
  let name ← liftExcept (fileName output)
  fs .publication (.rename location ⟨staging.parent, name⟩) fun error =>
    if error = .exist then conflict
    else safety "atomic no-overwrite publication failed; the filesystem must support exclusive rename"

/-- The rendered files, by their paths. -/
structure RenderPlan where
  files : TreeMap PathBuf Bytes

/-- What is done under the record. -/
def stage (output : PathBuf) (plan : RenderPlan) (staging : Staging) : Stager Unit := do
  let staging ← plan.files.toList.foldlM writeFile staging
  onto staging (finish output staging)

/-! ### Clean-up -/

/-- One round of the loop over the recorded files. -/
def removeFile (root : Identity) (file : RelativePath) : Program Call Call.Reply Unit :=
  (descend .cleanup root file.dropLast).run >>= fun
    | .error _ => .done ()
    | .ok fd => .call (.fs .cleanup (.unlink ⟨fd, file.getLastD []⟩)) fun _ => .done ()

/-- One round of the loop over the recorded directories. -/
def removeDirectory (root : Identity) (directory : RelativePath) : Program Call Call.Reply Unit :=
  (descend .cleanup root directory.dropLast).run >>= fun
    | .error _ => .done ()
    | .ok fd => .call (.fs .cleanup (.removeDirectory ⟨fd, directory.getLastD []⟩)) fun _ => .done ()

/-- The staging directory itself, when it is still the one that was opened. -/
def removeStaging (staging : Staging) : Program Call Call.Reply Unit :=
  .call (.fs .cleanup (.openDirectory ⟨staging.parent, staging.name⟩)) fun
    | .error _ => .done ()
    | .ok fd => (sameDirectory .cleanup fd staging.fd).run >>= fun
        | .ok true =>
            .call (.fs .cleanup (.removeDirectory ⟨staging.parent, staging.name⟩)) fun _ => .done ()
        | _ => .done ()

/-- The order of a `BTreeSet` of paths. -/
def pathKey (path : RelativePath) : List (List ℕ) := path.map (·.map UInt8.toNat)

/-- `Staging::drop`. -/
def drop (staging : Staging) : Program Call Call.Reply Unit := do
  staging.files.forM (removeFile staging.fd)
  (Arrangement.sortBy pathKey staging.directories).reverse.forM (removeDirectory staging.fd)
  removeStaging staging

/-! ### The publication -/

/-- The name of the staging directory. -/
def stagingName (processId nonce : Nat) : Name := intoBytes s!".hegira-render-{processId}-{nonce}"

/-- The publication from the moment the staging directory is open. -/
def publishStaging (output : PathBuf) (plan : RenderPlan) (staging : Staging) : Publisher Unit := do
  match ← attempt (stage output plan staging) with
  | .ok () => return ()
  | .error stopped => do
      ExceptT.lift (drop stopped.staging)
      throw stopped.fault

/-- `publish_with`. -/
def publishWith (currentDir : Option PathBuf) (processId : Nat) (now : Option Nat) (output : Bytes)
    (plan : RenderPlan) : Publisher Unit := do
  let output ← liftExcept (checkedPath currentDir output)
  let parent ← openParent output
  ensureAbsent parent output
  let nonce ← liftExcept (now.elim (.error (safety "cannot read system clock")) .ok)
  let location : Location := ⟨parent, stagingName processId nonce⟩
  fs .publication (.makeDirectory location) fun _ =>
    safety "cannot allocate private staging directory"
  let fd ← fs .publication (.openStaging location) fun _ =>
    safety "cannot open private staging directory"
  publishStaging output plan ⟨parent, stagingName processId nonce, fd, [], []⟩

end Destination
end Hegira
