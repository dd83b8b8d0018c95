/-
# The publisher

`tools/application_mutator/src/publisher.rs`: a plan is staged next to the files
it changes, published by renames and either committed or rolled back, all of it
under a marker file in the application root.  Every function is the program of
operating system calls the source makes, in its order; the hook that the tests
of the source pass to `publish_with` is one more call, so that an environment
may act there.

Two inputs stand for calls that reach outside the file system: `Process` holds
the working directory, the process id and the clock.  A path that is not UTF-8
is `none`.
-/

import Hegira.Library.Program
import Hegira.Mutator.FileSystem

namespace Hegira
namespace Mutator

/-- `MUTATION_MARKER`. -/
def mutationMarker : String := ".hegira-mutation.lock"

/-- `MutationErrorKind`. -/
inductive MutationErrorKind where
  | invalidPlan
  | unsupportedPlatform
  | unsafeRoot
  | recoveryRequired
  | preconditionFailed
  | publicationFailed
  | rollbackIncomplete
  deriving DecidableEq, Repr

/-- `MutationError`. -/
structure MutationError where
  kind : MutationErrorKind
  path : Option ChangePath
  message : String
  deriving DecidableEq

namespace MutationError

/-- `MutationError::new`. -/
def new (kind : MutationErrorKind) (message : String) : MutationError := ⟨kind, none, message⟩

/-- `MutationError::at_path`. -/
def atPath (kind : MutationErrorKind) (path : ChangePath) (message : String) : MutationError :=
  ⟨kind, some path, message⟩

/-- `impl From<ChangePlanError> for MutationError`. -/
def ofPlanError (error : ChangePlanError) : MutationError :=
  ⟨.invalidPlan, error.path, error.message⟩

end MutationError

/-- `MutationReceipt`. -/
structure MutationReceipt where
  changedFiles : Nat
  deriving DecidableEq, Repr

/-- `HookPoint`. -/
inductive HookPoint where
  | beforeFilesystemPreflight
  | beforePublication
  | beforeChange (index : Nat)
  | afterChange (index : Nat)
  deriving DecidableEq, Repr

/-- The calls of a publication. -/
inductive PublisherCall where
  | fs (c : FsCall)
  | hook (point : HookPoint)
  deriving DecidableEq

/-- The reply to a call. -/
abbrev PublisherCall.Reply : PublisherCall → Type
  | .fs c => Except Errno c.Value
  | .hook _ => Except MutationError Unit

/-- Operating system calls with their errors. -/
abbrev Io := Fallible Errno PublisherCall PublisherCall.Reply

/-- The functions of the publisher. -/
abbrev Publishing := Fallible MutationError PublisherCall PublisherCall.Reply

/-- One call to the operating system. -/
def sys (c : FsCall) : Io c.Value :=
  ExceptT.mk (.call (.fs c) .done)

/-- The `hook` argument of `publish_with`. -/
def hook (point : HookPoint) : Publishing Unit :=
  ExceptT.mk (.call (.hook point) .done)

/-- `map_err` of a call. -/
def orFail {α : Type} (io : Io α) (error : MutationError) : Publishing α :=
  ExceptT.adapt (fun _ => error) io

/-- `map_err` of a call that tells its errors apart. -/
def mapErr {α : Type} (io : Io α) (error : Errno → MutationError) : Publishing α :=
  ExceptT.adapt error io

/-- What the process is told from outside the file system. -/
structure Process where
  /-- `std::env::current_dir`, `none` where it fails. -/
  currentDir : Option String
  /-- `std::process::id`. -/
  id : Nat
  /-- Nanoseconds since the epoch, `none` before it. -/
  clock : Option Nat
  deriving DecidableEq, Repr

/-- `CREATED_MODE`. -/
def createdMode : Nat := 0o644

/-- `ObservedFile`. -/
structure ObservedFile (D : Type) where
  identity : Identity
  digest : D
  mode : Nat
  deriving DecidableEq

/-- `Root`; the handle is the directory it was opened at. -/
structure Root where
  path : List Component
  fd : Identity
  identity : Identity
  deriving DecidableEq

/-- `Marker`. -/
structure Marker where
  identity : Identity
  deriving DecidableEq

/-- `PreparedChange`. -/
structure PreparedChange (D : Type) where
  path : ChangePath
  parentPath : List Component
  name : String
  parent : Identity
  tempName : String
  operation : ChangeOperation
  expected : FilePrecondition D
  resultDigest : Option D
  original : Option (ObservedFile D)
  stagedIdentity : Identity
  resultMode : Option Nat
  published : Bool
  deriving DecidableEq

/-- Where the change takes effect. -/
def PreparedChange.target {D : Type} (change : PreparedChange D) : Location :=
  ⟨change.parent, change.name⟩

/-- Where the change keeps its staged file, and the original once it is published. -/
def PreparedChange.temp {D : Type} (change : PreparedChange D) : Location :=
  ⟨change.parent, change.tempName⟩

variable {D : Type} [ContentDigest D] [DecidableEq D]

/-! ### The root -/

/-- The `absolute` of `checked_root`, as its components. -/
def absolutePath (process : Process) (text : String) : Except MutationError (List Component) :=
  if (components text).head? = some .rootDir then .ok (components text)
  else match process.currentDir with
    | some current => .ok (components (current ++ "/" ++ text))
    | none => .error (.new .unsafeRoot "cannot resolve the current directory")

/-- `checked_root`, returning the components of the absolute path. -/
def checkedRoot (process : Process) (path : Option String) :
    Except MutationError (List Component) := do
  let some text := path
    | throw (.new .unsafeRoot "application root must be valid UTF-8")
  if text = "" || text.toList.contains '\\' || text.toList.any isControl then
    throw (.new .unsafeRoot
      "application root must be non-empty and contain no controls or backslashes")
  if (components text).contains .parentDir then
    throw (.new .unsafeRoot "application root may not contain parent traversal")
  let absolute ← absolutePath process text
  match absolute.getLast? with
  | some (.normal _) => return absolute
  | _ =>
      throw (.new .unsafeRoot "application root must name a directory below the filesystem root")

/-- The loop of `open_directory_path`. -/
def openComponents (fd : Identity) : List Component → Publishing Identity
  | [] => return fd
  | .rootDir :: rest | .curDir :: rest => openComponents fd rest
  | .normal name :: rest => do
      let fd ← orFail (sys (.openDirectory fd name)) (.new .unsafeRoot
        "application root and its ancestors must be existing real directories")
      openComponents fd rest
  | .parentDir :: _ =>
      throw (.new .unsafeRoot "application root contains an unsupported path component")

/-- `open_directory_path`. -/
def openDirectoryPath (path : List Component) : Publishing Identity := do
  let fd ← orFail (sys .openSlash) (.new .unsafeRoot "cannot open the filesystem root")
  openComponents fd path

/-- The loop of `descend`. -/
def descendComponents (change : ChangePath) (fd : Identity) :
    List Component → Publishing Identity
  | [] => return fd
  | .normal name :: rest => do
      let fd ← orFail (sys (.openDirectory fd name)) (.atPath .unsafeRoot change
        "change parents must be existing real directories")
      descendComponents change fd rest
  | _ :: _ =>
      throw (.atPath .unsafeRoot change "change parent contains an unsupported path component")

/-- `descend`. -/
def descend (root : Identity) (path : List Component) (change : ChangePath) :
    Publishing Identity := do
  let fd ← orFail (sys (.openDirectory root ".")) (.atPath .unsafeRoot change
    "cannot anchor a change to the application root")
  descendComponents change fd path

/-- `directory_identity`. -/
def directoryIdentity (site : Site) (fd : Identity) : Publishing Identity :=
  orFail (sys (.statDirectory site fd))
    (.new .unsafeRoot "cannot inspect an opened application directory")

/-- `Root::open`. -/
def Root.open (process : Process) (path : Option String) : Publishing Root := do
  let path ← liftExcept (checkedRoot process path)
  let fd ← openDirectoryPath path
  let identity ← directoryIdentity .preparation fd
  return ⟨path, fd, identity⟩

/-- The error of `Root::verify_namespace`. -/
def rootChanged : MutationError :=
  .new .unsafeRoot "application root changed during mutation; manual inspection may be required"

/-- `Root::verify_namespace`. -/
def Root.verifyNamespace (root : Root) : Publishing Unit := do
  let current ← ExceptT.adapt (fun _ => rootChanged) (openDirectoryPath root.path)
  let identity ← directoryIdentity .publication current
  if identity ≠ root.identity then
    throw rootChanged

/-! ### Reading and removing files -/

/-- `sync_directory`. -/
def syncDirectory (site : Site) (fd : Identity) : Publishing Unit := do
  orFail (sys (.duplicate site fd))
    (.new .publicationFailed "cannot duplicate an application directory handle")
  orFail (sys (.syncDirectory site fd))
    (.new .publicationFailed "cannot make application directory changes durable")

/-- The loop of `sync_unique_parents`. -/
def syncParents (site : Site) (seen : List Identity) : List (PreparedChange D) → Publishing Unit
  | [] => return ()
  | change :: rest => do
      let identity ← directoryIdentity site change.parent
      if identity ∈ seen then
        syncParents site seen rest
      else
        syncDirectory site change.parent
        syncParents site (identity :: seen) rest

/-- `sync_unique_parents`. -/
def syncUniqueParents (site : Site) (prepared : List (PreparedChange D)) : Publishing Unit :=
  syncParents site [] prepared

/-- `precondition_failed`. -/
def preconditionFailed (path : ChangePath) : MutationError :=
  .atPath .preconditionFailed path
    ("mutation precondition no longer holds for `" ++ path.text ++ "`")

/-- `ensure_absent`. -/
def ensureAbsent (location : Location) (path : ChangePath) : Publishing Unit := do
  match ← attempt (sys (.statAt location)) with
  | .error .noent => return ()
  | .ok _ => throw (preconditionFailed path)
  | .error _ =>
      throw (.atPath .unsafeRoot path "cannot safely inspect a mutation destination")

/-- `read_regular_file`. -/
def readRegularFile (location : Location) (path : ChangePath) : Publishing (ObservedFile D) := do
  orFail (sys (.openFile location)) (preconditionFailed path)
  let metadata ← orFail (sys (.metadata location)) (preconditionFailed path)
  if !metadata.isFile then
    throw (preconditionFailed path)
  let content ← orFail (sys (.readToEnd location)) (preconditionFailed path)
  return ⟨metadata.identity, ContentDigest.calculate content, metadata.mode⟩

/-- `file_identity`. -/
def fileIdentity (file : Location) : Io Identity := do
  let metadata ← sys (.metadata file)
  return metadata.identity

/-- `read_identity`. -/
def readIdentity (location : Location) : Io Identity := do
  sys (.openFile location)
  fileIdentity location

/-- `remove_named_if_identity`; its error carries nothing. -/
def removeNamedIfIdentity (location : Location) (expected : Identity) :
    Fallible Unit PublisherCall PublisherCall.Reply Unit := do
  let identity ← ExceptT.adapt (fun _ => ()) (readIdentity location)
  if identity ≠ expected then
    throw ()
  ExceptT.adapt (fun _ => ()) (sys (.unlink location))

/-! ### The marker -/

/-- `transaction_id`. -/
def transactionId (process : Process) : Except MutationError String :=
  match process.clock with
  | none => .error (.new .publicationFailed "cannot allocate a mutation transaction identifier")
  | some nonce => .ok (toString process.id ++ "-" ++ toString nonce)

/-- `temp_name`. -/
def tempName (transaction : String) (index : Nat) : String :=
  ".hegira-mutation-" ++ (transaction ++ "-" ++ toString index)

/-- `probe_name`. -/
def probeName (transaction : String) (index : Nat) (side : Char) : String :=
  ".hegira-probe-" ++ (transaction ++ "-" ++ toString index ++ "-" ++ side.toString)

/-- The marker in the root directory. -/
def Root.marker (root : Root) : Location := ⟨root.fd, mutationMarker⟩

/-- The line of the manifest for one change. -/
def manifestLine (transaction : String) (index : Nat) (change : PlannedFileChange D) : String :=
  let operation := match change.operation with
    | .create => "create"
    | .edit => "edit"
    | .retire => "retire"
  let precondition := match change.precondition with
    | .absent => "absent"
    | .matchesDigest digest => ContentDigest.toHex digest
  let result := match change.resultDigest with
    | none => "absent"
    | some digest => ContentDigest.toHex digest
  "change=" ++ toString index ++ "\t" ++ operation ++ "\t" ++ change.path.text ++ "\t" ++
    precondition ++ "\t" ++ result ++ "\t" ++ tempName transaction index ++ "\n"

/-- The manifest `create_marker` writes. -/
def manifest (plan : ChangePlan D) (transaction : String) : String :=
  plan.changes.zipIdx.foldl
    (fun manifest (change, index) => manifest ++ manifestLine transaction index change)
    ("schema=1\ntransaction=" ++ transaction ++ "\nstate=publishing\n")

/-- `create_marker`. -/
def createMarker (root : Root) (plan : ChangePlan D) (transaction : String) :
    Publishing Marker := do
  mapErr (sys (.createFile root.marker)) fun
    | .exist => .new .recoveryRequired
        "an existing mutation marker requires inspection before another mutation"
    | _ => .new .publicationFailed "cannot create the private mutation marker"
  let identity ← orFail (fileIdentity root.marker) (.new .recoveryRequired
    "cannot inspect the private mutation marker; manual recovery is required")
  orFail (sys (.writeAll root.marker (manifest plan transaction).toUTF8.toList))
    (.new .recoveryRequired
      "cannot write the private mutation marker; inspect it before another mutation")
  orFail (sys (.syncFile root.marker)) (.new .recoveryRequired
    "cannot make the mutation marker durable; inspect it before another mutation")
  ExceptT.adapt (fun _ => .new .recoveryRequired
    "cannot make the mutation marker durable; inspect it before another mutation")
    (syncDirectory .preparation root.fd)
  return ⟨identity⟩

/-- The error of `verify_marker`. -/
def markerChanged : MutationError :=
  .new .recoveryRequired "mutation marker changed during publication; manual recovery is required"

/-- `verify_marker`. -/
def verifyMarker (root : Root) (marker : Marker) : Publishing Unit := do
  let observed ← orFail (readIdentity root.marker) markerChanged
  if observed ≠ marker.identity then
    throw markerChanged

/-- `remove_marker`. -/
def removeMarker (root : Root) (marker : Marker) : Publishing Unit := do
  verifyMarker root marker
  orFail (sys (.unlink root.marker))
    (.new .recoveryRequired "cannot remove the mutation marker")

/-! ### Preparation -/

/-- `stage_file`. -/
def stageFile (location : Location) (path : ChangePath) (content : Bytes) :
    Publishing Identity := do
  orFail (sys (.createFile location))
    (.atPath .publicationFailed path "cannot create a private staged mutation file")
  let identity ← orFail (fileIdentity location) (.atPath .recoveryRequired path
    "cannot inspect a staged mutation file; manual cleanup is required")
  let result ← attempt (do
    ExceptT.adapt (fun _ => "cannot write a private staged mutation file")
      (sys (.writeAll location content))
    ExceptT.adapt (fun _ => "cannot make a staged mutation file durable")
      (sys (.syncFile location)))
  match result with
  | .ok () => return identity
  | .error message =>
      match ← attempt (removeNamedIfIdentity location identity) with
      | .ok () => throw (.atPath .publicationFailed path message)
      | .error () => throw (.atPath .recoveryRequired path
          "staged mutation file cleanup requires manual inspection")

/-- `verify_initial_precondition`. -/
def verifyInitialPrecondition (location : Location) (change : PlannedFileChange D) :
    Publishing (Option (ObservedFile D)) := do
  match change.precondition with
  | .absent =>
      ensureAbsent location change.path
      return none
  | .matchesDigest expected =>
      let observed ← readRegularFile location change.path
      if observed.digest ≠ expected then
        throw (preconditionFailed change.path)
      return some observed

/-- The staged file of a change and the mode it is published with.  A retirement
stages nothing and has observed the file it retires, so its identity is not made
up. -/
def stageChange (location : Location) (change : PlannedFileChange D)
    (original : Option (ObservedFile D)) : Publishing (Identity × Option Nat) :=
  match change.resultingContent with
  | some content => do
      let mode := original.elim createdMode fun observed => observed.mode &&& 0o777
      let identity ← stageFile location change.path content
      return (identity, some mode)
  | none => return (original.elim ⟨0, 0⟩ (·.identity), none)

/-- The body of the loop of `prepare_changes`. -/
def prepareChange (root : Root) (transaction : String) (index : Nat)
    (change : PlannedFileChange D) : Publishing (PreparedChange D) := do
  let parentPath := (components change.path.text).dropLast
  let name := change.path.fileName
  let parent ← descend root.fd parentPath change.path
  let original ← verifyInitialPrecondition ⟨parent, name⟩ change
  let tempName := tempName transaction index
  let (stagedIdentity, resultMode) ← stageChange ⟨parent, tempName⟩ change original
  return {
    path := change.path
    parentPath := parentPath
    name := name
    parent := parent
    tempName := tempName
    operation := change.operation
    expected := change.precondition
    resultDigest := change.resultDigest
    original := original
    stagedIdentity := stagedIdentity
    resultMode := resultMode
    published := false }

/-- The loop of `prepare_changes`: the changes prepared so far, and how it ended. -/
def prepareFrom (root : Root) (transaction : String) :
    Nat → List (PlannedFileChange D) →
      Program PublisherCall PublisherCall.Reply
        (List (PreparedChange D) × Except MutationError Unit)
  | _, [] => return ([], .ok ())
  | index, change :: rest => do
      match ← (prepareChange root transaction index change).run with
      | .error error => return ([], .error error)
      | .ok prepared =>
          let (others, result) ← prepareFrom root transaction (index + 1) rest
          return (prepared :: others, result)

/-- `prepare_changes`. -/
def prepareChanges (root : Root) (plan : ChangePlan D) (transaction : String) :
    Program PublisherCall PublisherCall.Reply
      (List (PreparedChange D) × Except MutationError Unit) := do
  let (prepared, result) ← prepareFrom root transaction 0 plan.changes
  match result with
  | .error error => return (prepared, .error error)
  | .ok () =>
      let result ← (syncUniqueParents .preparation prepared).run
      return (prepared, result)

/-! ### Checks before a change -/

/-- `verify_parent_namespace`. -/
def verifyParentNamespace (root : Root) (change : PreparedChange D) : Publishing Unit := do
  let current ← descend root.fd change.parentPath change.path
  let current ← directoryIdentity .publication current
  let parent ← directoryIdentity .publication change.parent
  if current ≠ parent then
    throw (.atPath .unsafeRoot change.path "a change parent was replaced during mutation")

/-- `verify_precondition`. -/
def verifyPrecondition (change : PreparedChange D) : Publishing Unit := do
  match change.expected, change.original with
  | .absent, none => ensureAbsent change.target change.path
  | .matchesDigest expected, some original =>
      let observed ← readRegularFile change.target change.path
      if observed.identity ≠ original.identity ∨ observed.digest ≠ expected ∨
          observed.mode ≠ original.mode then
        throw (preconditionFailed change.path)
  | _, _ => throw (.atPath .invalidPlan change.path
      "mutation precondition and operation are inconsistent")

/-- `verify_all_preconditions`. -/
def verifyAllPreconditions (root : Root) : List (PreparedChange D) → Publishing Unit
  | [] => return ()
  | change :: rest => do
      verifyParentNamespace root change
      verifyPrecondition change
      verifyAllPreconditions root rest

/-- `verify_all_parent_namespaces`. -/
def verifyAllParentNamespaces (root : Root) : List (PreparedChange D) → Publishing Unit
  | [] => return ()
  | change :: rest => do
      verifyParentNamespace root change
      verifyAllParentNamespaces root rest

/-! ### Probing the file system -/

/-- `unsupported_semantics`. -/
def unsupportedSemantics (path : ChangePath) : MutationError :=
  .atPath .unsupportedPlatform path
    "the target filesystem does not provide required safe mutation semantics"

/-- The error of a probe that could not be taken away again. -/
def probeCleanupFailed (path : ChangePath) : MutationError :=
  .atPath .recoveryRequired path "filesystem safety probe cleanup requires manual inspection"

/-- `create_probe`. -/
def createProbe (location : Location) (path : ChangePath) : Publishing Identity := do
  orFail (sys (.createFile location)) (unsupportedSemantics path)
  let identity ← orFail (fileIdentity location) (.atPath .recoveryRequired path
    "filesystem safety probe cannot be inspected; manual cleanup is required")
  match ← attempt (sys (.syncFile location)) with
  | .ok () => return identity
  | .error _ =>
      match ← attempt (removeNamedIfIdentity location identity) with
      | .ok () => throw (unsupportedSemantics path)
      | .error () => throw (probeCleanupFailed path)

/-- The rename a probe tries for an operation. -/
def probeFlags : ChangeOperation → RenameFlags
  | .create | .retire => .noreplace
  | .edit => .exchange

/-- `check` and `exchanged` of the probe: an exchange has to work, a move onto an
existing file has to be refused. -/
def probeCheck (path : ChangePath) :
    ChangeOperation → Except Errno Unit → Except MutationError Unit × Bool
  | .create, .error .exist | .retire, .error .exist => (.ok (), false)
  | .create, _ | .retire, _ => (.error (unsupportedSemantics path), false)
  | .edit, .ok () => (.ok (), true)
  | .edit, .error _ => (.error (unsupportedSemantics path), false)

/-- The second probe; without it the first goes away again. -/
def createSecondProbe (firstLocation secondLocation : Location) (first : Identity)
    (path : ChangePath) : Publishing Identity := do
  match ← attempt (createProbe secondLocation path) with
  | .ok second => return second
  | .error error =>
      match ← attempt (removeNamedIfIdentity firstLocation first) with
      | .ok () => throw error
      | .error () => throw (probeCleanupFailed path)

/-- The removal of both probes, where the rename has left them. -/
def removeProbes (firstLocation secondLocation : Location) (firstExpected secondExpected : Identity)
    (path : ChangePath) : Publishing Unit := do
  let firstCleanup ← attempt (removeNamedIfIdentity firstLocation firstExpected)
  let secondCleanup ← attempt (removeNamedIfIdentity secondLocation secondExpected)
  if !firstCleanup.isOk || !secondCleanup.isOk then
    throw (.atPath .recoveryRequired path
      "filesystem safety probes could not be cleaned; inspect the application")

/-- The body of the loop of `preflight_filesystem_semantics`. -/
def preflightChange (transaction : String) (index : Nat) (change : PreparedChange D) :
    Publishing Unit := do
  let firstName := probeName transaction index 'a'
  let secondName := probeName transaction index 'b'
  let firstLocation : Location := ⟨change.parent, firstName⟩
  let secondLocation : Location := ⟨change.parent, secondName⟩
  let first ← createProbe firstLocation change.path
  let second ← createSecondProbe firstLocation secondLocation first change.path
  let renamed ← attempt (sys (.rename .preparation change.parent firstName secondName
    (probeFlags change.operation)))
  let (check, exchanged) := probeCheck change.path change.operation renamed
  removeProbes firstLocation secondLocation (if exchanged then second else first)
    (if exchanged then first else second) change.path
  liftExcept check

/-- The loop of `preflight_filesystem_semantics`. -/
def preflightFrom (transaction : String) : Nat → List (PreparedChange D) → Publishing Unit
  | _, [] => return ()
  | index, change :: rest => do
      preflightChange transaction index change
      preflightFrom transaction (index + 1) rest

/-- `preflight_filesystem_semantics`. -/
def preflightFilesystemSemantics (prepared : List (PreparedChange D)) (transaction : String) :
    Publishing Unit :=
  preflightFrom transaction 0 prepared

/-! ### Publishing one change -/

/-- The source and the destination of the rename of `publish_one`, and its flags. -/
def PreparedChange.renaming (change : PreparedChange D) : String × String × RenameFlags :=
  match change.operation with
  | .create => (change.tempName, change.name, .noreplace)
  | .edit => (change.tempName, change.name, .exchange)
  | .retire => (change.name, change.tempName, .noreplace)

/-- `publish_one`. -/
def publishOne (change : PreparedChange D) : Publishing Unit :=
  let (source, destination, flags) := change.renaming
  mapErr (sys (.rename .publication change.parent source destination flags)) fun
    | .exist => preconditionFailed change.path
    | _ => .atPath .publicationFailed change.path "atomic mutation publication failed"

/-- The error of `set_published_mode` for a file that is not the staged one. -/
def publishedReplaced (path : ChangePath) : MutationError :=
  .atPath .publicationFailed path
    "published mutation file identity changed before permissions were set"

/-- `set_published_mode`.  The source asks for the metadata twice and gives up on
the identity when the second call fails. -/
def setPublishedMode (change : PreparedChange D) : Publishing Unit := do
  let some mode := change.resultMode
    | return ()
  orFail (sys (.openFile change.target)) (.atPath .publicationFailed change.path
    "cannot open the published mutation file to set permissions")
  let metadata ← orFail (sys (.metadata change.target)) (.atPath .publicationFailed change.path
    "cannot inspect the published mutation file")
  if !metadata.isFile then
    throw (publishedReplaced change.path)
  let identity ← orFail (fileIdentity change.target) (publishedReplaced change.path)
  if identity ≠ change.stagedIdentity then
    throw (publishedReplaced change.path)
  orFail (sys (.changeMode change.target mode)) (.atPath .publicationFailed change.path
    "cannot set published mutation file permissions")
  orFail (sys (.syncFile change.target)) (.atPath .publicationFailed change.path
    "cannot make published mutation file permissions durable")

/-- The file at `location` is still the observed one, or `error`. -/
def requireObserved (location : Location) (path : ChangePath) (original : ObservedFile D)
    (error : MutationError) : Publishing Unit := do
  let observed : ObservedFile D ← readRegularFile location path
  if observed ≠ original then
    throw error

/-- The first half of `verify_published`, about the target. -/
def verifyResult (change : PreparedChange D) : Publishing Unit := do
  if change.operation = .retire then
    ExceptT.adapt (fun _ => .atPath .publicationFailed change.path
      "retired mutation path is unexpectedly present")
      (ensureAbsent change.target change.path)
  else
    let result : ObservedFile D ← readRegularFile change.target change.path
    if result.identity ≠ change.stagedIdentity ∨ some result.digest ≠ change.resultDigest ∨
        some (result.mode &&& 0o777) ≠ change.resultMode then
      throw (.atPath .publicationFailed change.path
        "published mutation result could not be verified")

/-- `verify_published`. -/
def verifyPublished (change : PreparedChange D) : Publishing Unit := do
  verifyResult change
  match change.original with
  | none => return ()
  | some original =>
      requireObserved change.temp change.path original
        (.atPath .publicationFailed change.path "mutation rollback source could not be verified")

/-- The loop body of `publish_with` up to `published = true`. -/
def beforePublished (root : Root) (marker : Marker) (index : Nat) (change : PreparedChange D) :
    Publishing Unit := do
  root.verifyNamespace
  verifyMarker root marker
  verifyParentNamespace root change
  hook (.beforeChange index)
  verifyParentNamespace root change
  verifyPrecondition change
  publishOne change

/-- The loop body of `publish_with` after `published = true`. -/
def afterPublished (root : Root) (marker : Marker) (index : Nat) (change : PreparedChange D) :
    Publishing Unit := do
  setPublishedMode change
  verifyPublished change
  syncDirectory .publication change.parent
  hook (.afterChange index)
  root.verifyNamespace
  verifyMarker root marker
  verifyParentNamespace root change

/-- The loop of `publish_with`: the changes with their `published` flags, and how
it ended. -/
def publishFrom (root : Root) (marker : Marker) :
    Nat → List (PreparedChange D) →
      Program PublisherCall PublisherCall.Reply
        (List (PreparedChange D) × Except MutationError Unit)
  | _, [] => return ([], .ok ())
  | index, change :: rest => do
      match ← (beforePublished root marker index change).run with
      | .error error => return (change :: rest, .error error)
      | .ok () =>
          let change := { change with published := true }
          match ← (afterPublished root marker index change).run with
          | .error error => return (change :: rest, .error error)
          | .ok () =>
              let (others, result) ← publishFrom root marker (index + 1) rest
              return (change :: others, result)

/-! ### Rolling back -/

/-- `remove_staged_temp`. -/
def removeStagedTemp (change : PreparedChange D) : Publishing Unit :=
  ExceptT.adapt (fun _ => .atPath .recoveryRequired change.path
    "cannot safely remove a transaction-owned temporary file")
    (removeNamedIfIdentity change.temp change.stagedIdentity)

/-- `remove_temp_if_present`. -/
def removeTempIfPresent (change : PreparedChange D) : Publishing Unit := do
  match ← attempt (sys (.statAt change.temp)) with
  | .error .noent => return ()
  | .ok _ => removeStagedTemp change
  | .error _ => throw (.atPath .recoveryRequired change.path
      "cannot inspect a transaction-owned temporary file")

/-- The check at the head of `rollback_one`: what was published is still there. -/
def verifyBeforeRollback (change : PreparedChange D) : Publishing Unit := do
  if change.operation = .retire then
    ExceptT.adapt (fun _ => .atPath .rollbackIncomplete change.path
      "a retired path was recreated before rollback; it was not overwritten")
      (ensureAbsent change.target change.path)
  else
    let result : ObservedFile D ← ExceptT.adapt (fun _ => .atPath .rollbackIncomplete change.path
      "cannot verify a published file before rollback")
      (readRegularFile change.target change.path)
    if result.identity ≠ change.stagedIdentity ∨ some result.digest ≠ change.resultDigest then
      throw (.atPath .rollbackIncomplete change.path
        "a published file changed before rollback; it was not overwritten")

/-- The texts of `rollback_one` for one of the two operations that have an original. -/
structure RestoreTexts where
  unverified : String
  changed : String
  failed : String
  mismatch : String

/-- The texts for an edit. -/
def RestoreTexts.edit : RestoreTexts where
  unverified := "cannot verify the original file before rollback"
  changed := "the original rollback file changed; it was not published"
  failed := "cannot atomically restore an edited file"
  mismatch := "restored file identity could not be verified"

/-- The texts for a retirement. -/
def RestoreTexts.retire : RestoreTexts where
  unverified := "cannot verify the retired file before rollback"
  changed := "the retired rollback file changed; it was not restored"
  failed := "cannot atomically restore a retired file"
  mismatch := "restored retired-file identity or metadata could not be verified"

/-- The original goes back to its path: the two arms of `rollback_one` for edits
and retirements, which differ in the rename flags and in their texts. -/
def restoreOriginal (change : PreparedChange D) (original : ObservedFile D) (flags : RenameFlags)
    (texts : RestoreTexts) : Publishing Unit := do
  let backup : ObservedFile D ←
    ExceptT.adapt (fun _ => .atPath .rollbackIncomplete change.path texts.unverified)
      (readRegularFile change.temp change.path)
  if backup ≠ original then
    throw (.atPath .rollbackIncomplete change.path texts.changed)
  orFail (sys (.rename .rollback change.parent change.tempName change.name flags))
    (.atPath .rollbackIncomplete change.path texts.failed)
  requireObserved change.target change.path original
    (.atPath .rollbackIncomplete change.path texts.mismatch)

/-- The `match` of `rollback_one`.  An edit or a retirement without an original
would panic; no prepared change is one (`prepareChange`). -/
def takeBackChange (change : PreparedChange D) : Publishing Unit := do
  match change.operation, change.original with
  | .create, _ =>
      orFail (sys (.unlink change.target)) (.atPath .rollbackIncomplete change.path
        "cannot remove a transaction-owned created file during rollback")
  | .edit, some original =>
      restoreOriginal change original .exchange .edit
      removeStagedTemp change
  | .retire, some original => restoreOriginal change original .noreplace .retire
  | .edit, none => throw (.new .rollbackIncomplete "edits have original state")
  | .retire, none => throw (.new .rollbackIncomplete "retirements have original state")

/-- `rollback_one`.  The source also takes `published` back, which nothing reads
any more. -/
def rollbackOne (change : PreparedChange D) : Publishing Unit := do
  verifyBeforeRollback change
  takeBackChange change
  syncDirectory .rollback change.parent

/-- A step for each change, going on after failures: whether all went well. -/
def allOk (step : PreparedChange D → Publishing Unit) :
    List (PreparedChange D) → Program PublisherCall PublisherCall.Reply Bool
  | [] => return true
  | change :: rest => do
      let result ← (step change).run
      let complete ← allOk step rest
      return result.isOk && complete

/-- The end of `rollback_or_report` and `cleanup_before_publication`, from the
removal of the staged files to that of the marker. -/
def takeBack (root : Root) (marker : Marker) (prepared : List (PreparedChange D))
    (error : MutationError) : Program PublisherCall PublisherCall.Reply Bool := do
  let complete ← allOk removeTempIfPresent prepared
  if !complete then
    return false
  let synced ← (syncUniqueParents .rollback prepared).run
  if !synced.isOk then
    return false
  if error.kind = .recoveryRequired then
    return true
  let removed ← (removeMarker root marker).run
  return removed.isOk

/-- `rollback_or_report`. -/
def rollbackOrReport (root : Root) (marker : Marker) (prepared : List (PreparedChange D))
    (originalError : MutationError) : Publishing MutationReceipt := do
  let complete ← ExceptT.lift (allOk rollbackOne (prepared.reverse.filter (·.published)))
  let complete ←
    if complete then ExceptT.lift (takeBack root marker prepared originalError) else pure false
  if complete then
    let _ ← attempt (syncDirectory .rollback root.fd)
    throw originalError
  else
    throw (.new .rollbackIncomplete
      "mutation rollback could not be completed; the recovery marker and remaining transaction files require manual inspection")

/-- `cleanup_before_publication`. -/
def cleanupBeforePublication (root : Root) (marker : Marker) (prepared : List (PreparedChange D))
    (error : MutationError) : Publishing MutationReceipt := do
  let complete ← ExceptT.lift (takeBack root marker prepared error)
  if complete then
    throw error
  else
    throw (.new .recoveryRequired
      "mutation preparation failed and transaction cleanup requires manual inspection")

/-! ### The publication -/

/-- The closure of `publish_with` that publishes the prepared changes. -/
def publishPrepared (root : Root) (marker : Marker) (transaction : String)
    (prepared : List (PreparedChange D)) :
    Program PublisherCall PublisherCall.Reply
      (List (PreparedChange D) × Except MutationError Unit) := do
  let checked ← ExceptT.run do
    hook .beforeFilesystemPreflight
    preflightFilesystemSemantics prepared transaction
    root.verifyNamespace
    verifyMarker root marker
    verifyAllPreconditions root prepared
    hook .beforePublication
  match checked with
  | .error error => return (prepared, .error error)
  | .ok () =>
      let (prepared, result) ← publishFrom root marker 0 prepared
      match result with
      | .error error => return (prepared, .error error)
      | .ok () =>
          let result ← ExceptT.run do
            root.verifyNamespace
            verifyMarker root marker
            verifyAllParentNamespaces root prepared
          return (prepared, result)

/-- `remove_backup`.  A change without an original would panic; edits and
retirements have one. -/
def removeBackup (change : PreparedChange D) : Publishing Unit :=
  match change.original with
  | none => throw (.new .recoveryRequired "edits and retirements have backups")
  | some original =>
      ExceptT.adapt (fun _ => .atPath .recoveryRequired change.path
        "cannot safely remove a transaction-owned rollback file")
        (removeNamedIfIdentity change.temp original.identity)

/-- The loop of `publish_with` that removes the backups. -/
def removeBackups : List (PreparedChange D) → Publishing Unit
  | [] => return ()
  | change :: rest => do
      if change.operation ≠ .create then
        removeBackup change
      removeBackups rest

/-- The end of `publish_with`, once every change is published. -/
def commit (root : Root) (marker : Marker) (prepared : List (PreparedChange D)) :
    Publishing MutationReceipt := do
  removeBackups prepared
  syncUniqueParents .commit prepared
  ExceptT.adapt (fun _ => .new .recoveryRequired
    "mutation completed but its recovery marker could not be removed; inspect the application before another mutation")
    (removeMarker root marker)
  ExceptT.adapt (fun _ => .new .recoveryRequired
    "mutation completed but marker cleanup durability is uncertain; inspect the application before another mutation")
    (syncDirectory .completion root.fd)
  return ⟨prepared.length⟩

/-- `publish_with` once the marker is there. -/
def publishMarked (root : Root) (marker : Marker) (plan : ChangePlan D) (transaction : String) :
    Publishing MutationReceipt := do
  let (prepared, result) ← ExceptT.lift (prepareChanges root plan transaction)
  match result with
  | .error error => cleanupBeforePublication root marker prepared error
  | .ok () =>
      let (prepared, result) ←
        ExceptT.lift (publishPrepared root marker transaction prepared)
      match result with
      | .error error => rollbackOrReport root marker prepared error
      | .ok () => commit root marker prepared

/-- `publish_with`. -/
def publishWith (process : Process) (applicationRoot : Option String) (plan : ChangePlan D) :
    Publishing MutationReceipt := do
  let root ← Root.open process applicationRoot
  if plan.changes.any fun change => change.path.text = mutationMarker then
    throw (.new .invalidPlan "change plans may not target the reserved mutation marker")
  let transaction ← liftExcept (transactionId process)
  let marker ← createMarker root plan transaction
  publishMarked root marker plan transaction

/-- `publish_change_plan`. -/
def publishChangePlan (process : Process) (applicationRoot : Option String)
    (plan : ChangePlan D) : Publishing MutationReceipt :=
  match plan.validate with
  | .error error => throw (.ofPlanError error)
  | .ok () =>
      if plan.isEmpty then return ⟨0⟩
      else publishWith process applicationRoot plan

end Mutator
end Hegira
