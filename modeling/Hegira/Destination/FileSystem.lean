/-
# The file system under the publication of an application

The calls `tools/template_renderer/src/destination.rs` makes to the operating system.  A
tree maps a location (a directory and a name in it) to what is found there; a directory
handle is the identity of the directory, and a file handle is the location the file was
created at.

`Effect` is what a call does when it works, and how it is refused.  While the application
is published a call may also fail of its own (`Step.fault`), and a write that fails may
have written anything.  The calls of the clean-up do not fail of their own.

At a hook somebody else acts.  They leave the staging directory alone (`InStaging`), and
`World.left` is the tree as they left it, without the staging directory.
-/

import Hegira.Library.Program
import Hegira.Mutator.FileSystem
import Hegira.Template.Manifest

namespace Hegira
namespace Destination

open Mutator (Bytes Identity)
open Template (Fault)

/-- A name in a directory. -/
abbrev Name := List UInt8

inductive Node where
  | file (identity : Identity) (bytes : Bytes)
  | directory (identity : Identity)
  | other (identity : Identity)
  deriving DecidableEq

def Node.identity : Node → Identity
  | .file identity _ | .directory identity | .other identity => identity

structure Location where
  directory : Identity
  name : Name
  deriving DecidableEq

/-- The entries of all directories. -/
abbrev Tree := Location → Option Node

/-- `rustix::io::Errno`, as far as the publication tells errors apart. -/
inductive Errno where
  | noent
  | exist
  | other (code : Nat)
  deriving DecidableEq

/-- The calls to the operating system. -/
inductive FsCall where
  /-- `open("/", DIRECTORY)`. -/
  | openSlash
  /-- `openat(parent, name, DIRECTORY)`. -/
  | openDirectory (location : Location)
  /-- The first `openat` of the staging directory. -/
  | openStaging (location : Location)
  /-- `openat(fd, ".", DIRECTORY)`. -/
  | duplicate (directory : Identity)
  /-- `fstat`. -/
  | stat (directory : Identity)
  /-- `statat(parent, name, SYMLINK_NOFOLLOW)`. -/
  | statAt (location : Location)
  /-- `mkdirat`. -/
  | makeDirectory (location : Location)
  /-- `openat(parent, name, WRONLY | CREATE | EXCL | NOFOLLOW | CLOEXEC)`. -/
  | createFile (location : Location)
  /-- `File::write_all`. -/
  | writeAll (location : Location) (bytes : Bytes)
  /-- `renameat_with(.., NOREPLACE)`. -/
  | rename (source destination : Location)
  /-- `unlinkat(parent, name, AtFlags::empty())`. -/
  | unlink (location : Location)
  /-- `unlinkat(parent, name, AtFlags::REMOVEDIR)`. -/
  | removeDirectory (location : Location)
  deriving DecidableEq

/-- What a call returns when it works. -/
abbrev FsCall.Value : FsCall → Type
  | .openSlash | .openDirectory _ | .openStaging _ | .duplicate _ | .stat _ => Identity
  | .statAt _ | .makeDirectory _ | .createFile _ | .writeAll _ _ | .rename _ _ | .unlink _
  | .removeDirectory _ => Unit

/-- Nothing in the tree has this identity. -/
structure Unused (slash : Identity) (tree : Tree) (identity : Identity) : Prop where
  slash : identity ≠ slash
  entries : ∀ name, tree ⟨identity, name⟩ = none
  nodes : ∀ location node, tree location = some node → node.identity ≠ identity

/-- What a call does that does not fail of its own; `slash` is the root directory. -/
inductive Effect (slash : Identity) (tree : Tree) :
    (c : FsCall) → Except Errno c.Value → Tree → Prop
  | openedSlash : Effect slash tree .openSlash (.ok slash) tree
  | opened {location : Location} {identity : Identity}
      (h : tree location = some (.directory identity)) :
      Effect slash tree (.openDirectory location) (.ok identity) tree
  | notOpened {location : Location} (e : Errno)
      (h : ∀ identity, tree location ≠ some (.directory identity)) :
      Effect slash tree (.openDirectory location) (.error e) tree
  | openedStaging {location : Location} {identity : Identity}
      (h : tree location = some (.directory identity)) :
      Effect slash tree (.openStaging location) (.ok identity) tree
  | notOpenedStaging {location : Location} (e : Errno)
      (h : ∀ identity, tree location ≠ some (.directory identity)) :
      Effect slash tree (.openStaging location) (.error e) tree
  | duplicated {directory : Identity} :
      Effect slash tree (.duplicate directory) (.ok directory) tree
  | stated {directory : Identity} : Effect slash tree (.stat directory) (.ok directory) tree
  | found {location : Location} {node : Node} (h : tree location = some node) :
      Effect slash tree (.statAt location) (.ok ()) tree
  | absent {location : Location} (h : tree location = none) :
      Effect slash tree (.statAt location) (.error .noent) tree
  | madeDirectory {location : Location} {fresh : Identity} (h : tree location = none)
      (hfresh : Unused slash tree fresh) :
      Effect slash tree (.makeDirectory location) (.ok ())
        (Function.update tree location (some (.directory fresh)))
  | notMade {location : Location} {node : Node} (h : tree location = some node) :
      Effect slash tree (.makeDirectory location) (.error .exist) tree
  | created {location : Location} {fresh : Identity} (h : tree location = none)
      (hfresh : Unused slash tree fresh) :
      Effect slash tree (.createFile location) (.ok ())
        (Function.update tree location (some (.file fresh [])))
  | notCreated {location : Location} {node : Node} (h : tree location = some node) :
      Effect slash tree (.createFile location) (.error .exist) tree
  | wrote {location : Location} {identity : Identity} {old bytes : Bytes}
      (h : tree location = some (.file identity old)) :
      Effect slash tree (.writeAll location bytes) (.ok ())
        (Function.update tree location
          (some (.file identity (bytes ++ old.drop bytes.length))))
  | renamed {source destination : Location} {node : Node} (h : tree source = some node)
      (hfree : tree destination = none) :
      Effect slash tree (.rename source destination) (.ok ())
        (Function.update (Function.update tree source none) destination (some node))
  | occupied {source destination : Location} {node : Node} (h : tree destination = some node) :
      Effect slash tree (.rename source destination) (.error .exist) tree
  | vanished {source destination : Location} (h : tree source = none) :
      Effect slash tree (.rename source destination) (.error .noent) tree
  | unlinked {location : Location} {node : Node} (h : tree location = some node)
      (hfile : ∀ identity, node ≠ .directory identity) :
      Effect slash tree (.unlink location) (.ok ()) (Function.update tree location none)
  | notUnlinked {location : Location} (e : Errno)
      (h : ∀ node, tree location = some node → ∃ identity, node = .directory identity) :
      Effect slash tree (.unlink location) (.error e) tree
  | removed {location : Location} {identity : Identity}
      (h : tree location = some (.directory identity))
      (hempty : ∀ name, tree ⟨identity, name⟩ = none) :
      Effect slash tree (.removeDirectory location) (.ok ()) (Function.update tree location none)
  | notRemoved {location : Location} (e : Errno)
      (h : ∀ identity, tree location = some (.directory identity) →
        ∃ name, tree ⟨identity, name⟩ ≠ none) :
      Effect slash tree (.removeDirectory location) (.error e) tree

/-- Which part of the publication a call belongs to. -/
inductive Phase where
  | publication
  | cleanup
  deriving DecidableEq

inductive HookPoint where
  | beforePublish
  | beforeRename
  deriving DecidableEq

/-- The calls of a publication; a hook is told where the staging directory is, so that
it can be said what it leaves alone. -/
inductive Call where
  | fs (phase : Phase) (c : FsCall)
  | hook (point : HookPoint) (staging : Location)
  deriving DecidableEq

/-- The reply to a call. -/
abbrev Call.Reply : Call → Type
  | .fs _ c => Except Errno c.Value
  | .hook _ _ => Except Fault Unit

/-- The directories below a directory, itself included. -/
inductive Reachable (tree : Tree) (root : Identity) : Identity → Prop
  | refl : Reachable tree root root
  | step {directory child : Identity} {name : Name} (h : Reachable tree root directory)
      (hchild : tree ⟨directory, name⟩ = some (.directory child)) : Reachable tree root child

/-- The location is that of the staging directory, or lies in it. -/
def InStaging (staging : Location) (tree : Tree) (l : Location) : Prop :=
  l = staging ∨ ∃ root, tree staging = some (.directory root) ∧ Reachable tree root l.directory

/-- `left` is the tree without the staging directory. -/
structure Without (staging : Location) (tree left : Tree) : Prop where
  inside : ∀ l, InStaging staging tree l → left l = none
  outside : ∀ l, ¬InStaging staging tree l → left l = tree l

/-- The tree, and the tree as others left it last, without the staging directory. -/
structure World where
  tree : Tree
  left : Tree

/-- What may come of a call. -/
inductive Step (slash : Identity) (w : World) : (c : Call) → c.Reply → World → Prop
  | effect {phase : Phase} {c : FsCall} {r : Except Errno c.Value} {tree : Tree}
      (h : Effect slash w.tree c r tree) : Step slash w (.fs phase c) r ⟨tree, w.left⟩
  | fault {c : FsCall} (e : Errno) : Step slash w (.fs .publication c) (.error e) w
  | partly {location : Location} {identity : Identity} {old bytes : Bytes} (written : Bytes)
      (e : Errno) (h : w.tree location = some (.file identity old)) :
      Step slash w (.fs .publication (.writeAll location bytes)) (.error e)
        ⟨Function.update w.tree location (some (.file identity written)), w.left⟩
  | hook {point : HookPoint} {staging : Location} {tree left : Tree} (r : Except Fault Unit)
      (huntouched : ∀ l, InStaging staging w.tree l → tree l = w.tree l)
      (hleft : Without staging tree left) : Step slash w (.hook point staging) r ⟨tree, left⟩

end Destination
end Hegira
