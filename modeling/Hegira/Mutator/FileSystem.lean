/-
# The file system under the publisher

The calls `tools/application_mutator/src/publisher.rs` makes to the operating
system, over a tree that maps a location (a directory and a name in it) to the
entry found there.  A directory handle is the identity of the directory.  A file
handle is the location it was opened at: the publisher never uses one across a
rename of its own, and nobody else runs between opening a file and dropping it.

`FsCall.effect` is what a call does when it works.  Any call may also fail and leave
the tree as it was (`FsStep`), with any error but the two that report on the
tree itself: `ENOENT` and `EEXIST` are only ever told when they are true.
-/

import Hegira.Mutator.ChangePlan

namespace Hegira
namespace Mutator

/-- `Identity`: the device and inode of a file or directory. -/
structure Identity where
  device : Nat
  inode : Nat
  deriving DecidableEq, Repr

/-- `rustix::io::Errno`, as far as the publisher tells errors apart. -/
inductive Errno where
  | noent
  | exist
  | other (code : Nat)
  deriving DecidableEq, Repr

/-- A regular file; `mode` is its `st_mode`, type bits included. -/
structure RegularFile where
  identity : Identity
  bytes : Bytes
  mode : Nat
  deriving DecidableEq, Repr

/-- What a name in a directory stands for. -/
inductive Node where
  | file (file : RegularFile)
  | directory (identity : Identity)
  | symlink (identity : Identity)
  | other (identity : Identity)
  deriving DecidableEq, Repr

def Node.identity : Node → Identity
  | .file regular => regular.identity
  | .directory identity | .symlink identity | .other identity => identity

/-- A name in a directory. -/
structure Location where
  directory : Identity
  name : String
  deriving DecidableEq, Repr

/-- The entries of all directories. -/
abbrev Tree := Location → Option Node

/-- `st_mode` of a regular file with the given permission bits: `S_IFREG` is set. -/
def regularMode (permissions : Nat) : Nat := 0o100000 + permissions

/-- `RenameFlags`. -/
inductive RenameFlags where
  | noreplace
  | exchange
  deriving DecidableEq, Repr

/-- Which part of a publication a call belongs to.  The file system does not look
at it; it tells apart the calls that one helper makes from several places. -/
inductive Site where
  | preparation
  | publication
  | rollback
  | commit
  | completion
  deriving DecidableEq, Repr

/-- The fields of `std::fs::Metadata` the publisher reads. -/
structure Metadata where
  identity : Identity
  isFile : Bool
  mode : Nat
  deriving DecidableEq, Repr

/-- The calls to the operating system. -/
inductive FsCall where
  /-- `open("/", DIRECTORY)`. -/
  | openSlash
  /-- `openat(parent, name, DIRECTORY)`. -/
  | openDirectory (parent : Identity) (name : String)
  /-- `openat(fd, ".", DIRECTORY)` of `sync_directory`. -/
  | duplicate (site : Site) (directory : Identity)
  /-- `fstat` of a directory handle. -/
  | statDirectory (site : Site) (directory : Identity)
  /-- `sync_all` of a directory handle. -/
  | syncDirectory (site : Site) (directory : Identity)
  /-- `statat(parent, name, SYMLINK_NOFOLLOW)`. -/
  | statAt (location : Location)
  /-- `openat(parent, name, PRIVATE_FILE, PRIVATE_MODE)`. -/
  | createFile (location : Location)
  /-- `openat(parent, name, READ_FILE)`. -/
  | openFile (location : Location)
  /-- `File::metadata`. -/
  | metadata (location : Location)
  /-- `File::read_to_end`. -/
  | readToEnd (location : Location)
  /-- `File::write_all` at the start of the file. -/
  | writeAll (location : Location) (bytes : Bytes)
  /-- `File::sync_all`. -/
  | syncFile (location : Location)
  /-- `fchmod`. -/
  | changeMode (location : Location) (permissions : Nat)
  /-- `renameat_with` inside one directory. -/
  | rename (site : Site) (directory : Identity) (source destination : String)
      (flags : RenameFlags)
  /-- `unlinkat(parent, name, AtFlags::empty())`. -/
  | unlink (location : Location)
  deriving DecidableEq

/-- What a call returns when it works. -/
abbrev FsCall.Value : FsCall → Type
  | .openSlash | .openDirectory _ _ | .statDirectory _ _ => Identity
  | .metadata _ => Metadata
  | .readToEnd _ => Bytes
  | .duplicate _ _ | .syncDirectory _ _ | .statAt _ | .createFile _ | .openFile _
  | .writeAll _ _ | .syncFile _ | .changeMode _ _ | .rename _ _ _ _ _ | .unlink _ => Unit

/-- `ENOTDIR`. -/
def Errno.notdir : Errno := .other 20

/-- `EISDIR`. -/
def Errno.isdir : Errno := .other 21

/-- `ELOOP`. -/
def Errno.loop : Errno := .other 40

/-- `EBADF`. -/
def Errno.badf : Errno := .other 9

/-- `PRIVATE_MODE`. -/
def privateMode : Nat := 0o600

/-- The effect of a call that does not fail of its own; `slash` is the root
directory, `fresh` the identity of a file the call creates. -/
def FsCall.effect (slash fresh : Identity) (tree : Tree) :
    (c : FsCall) → Except Errno c.Value × Tree
  | .openSlash => (.ok slash, tree)
  | .openDirectory parent name =>
      if name = "." then (.ok parent, tree)
      else match tree ⟨parent, name⟩ with
        | some (.directory identity) => (.ok identity, tree)
        | some _ => (.error .notdir, tree)
        | none => (.error .noent, tree)
  | .duplicate _ _ => (.ok (), tree)
  | .statDirectory _ directory => (.ok directory, tree)
  | .syncDirectory _ _ => (.ok (), tree)
  | .statAt location =>
      match tree location with
      | some _ => (.ok (), tree)
      | none => (.error .noent, tree)
  | .createFile location =>
      match tree location with
      | some _ => (.error .exist, tree)
      | none =>
          let created := RegularFile.mk fresh [] (regularMode privateMode)
          (.ok (), Function.update tree location (some (.file created)))
  | .openFile location =>
      match tree location with
      | some (.symlink _) => (.error .loop, tree)
      | some _ => (.ok (), tree)
      | none => (.error .noent, tree)
  | .metadata location =>
      match tree location with
      | some (.file file) => (.ok ⟨file.identity, true, file.mode⟩, tree)
      | some node => (.ok ⟨node.identity, false, 0⟩, tree)
      | none => (.error .badf, tree)
  | .readToEnd location =>
      match tree location with
      | some (.file file) => (.ok file.bytes, tree)
      | some _ => (.error .isdir, tree)
      | none => (.error .badf, tree)
  | .writeAll location bytes =>
      match tree location with
      | some (.file file) =>
          let written := { file with bytes := bytes ++ file.bytes.drop bytes.length }
          (.ok (), Function.update tree location (some (.file written)))
      | _ => (.error .badf, tree)
  | .syncFile _ => (.ok (), tree)
  | .changeMode location permissions =>
      match tree location with
      | some (.file file) =>
          let changed := { file with mode := regularMode permissions }
          (.ok (), Function.update tree location (some (.file changed)))
      | _ => (.error .badf, tree)
  | .rename _ directory source destination flags =>
      let moved := tree ⟨directory, source⟩
      let present := tree ⟨directory, destination⟩
      match moved, flags, present with
      | none, _, _ => (.error .noent, tree)
      | some _, .noreplace, some _ => (.error .exist, tree)
      | some _, .noreplace, none | some _, .exchange, some _ =>
          let tree := Function.update tree ⟨directory, source⟩ present
          (.ok (), Function.update tree ⟨directory, destination⟩ moved)
      | some _, .exchange, none => (.error .noent, tree)
  | .unlink location =>
      match tree location with
      | some (.directory _) => (.error .isdir, tree)
      | some _ => (.ok (), Function.update tree location none)
      | none => (.error .noent, tree)

/-- Opening what is not there fails. -/
example (slash fresh : Identity) (location : Location) :
    ((FsCall.openFile location).effect slash fresh fun _ => none).1 = .error .noent := by
  simp only [FsCall.effect]

/-- No entry of the tree has this identity. -/
def Unlinked (tree : Tree) (identity : Identity) : Prop :=
  ∀ location node, tree location = some node → node.identity ≠ identity

/-- One call to the operating system: it fails, or takes effect. -/
inductive FsStep (slash : Identity) (tree : Tree) (c : FsCall) :
    Except Errno c.Value → Tree → Prop
  | fault (code : Nat) : FsStep slash tree c (.error (.other code)) tree
  | effect (fresh : Identity) (h : Unlinked tree fresh) :
      FsStep slash tree c (c.effect slash fresh tree).1 (c.effect slash fresh tree).2

/-- The entries of two locations change places. -/
def Tree.swap (tree : Tree) (l l' : Location) : Tree :=
  Function.update (Function.update tree l (tree l')) l' (tree l)

/-- A swap is symmetric. -/
theorem Tree.swap_comm (tree : Tree) (l l' : Location) : tree.swap l l' = tree.swap l' l := by
  by_cases h : l = l'
  · rw [h]
  · exact Function.update_comm h _ _ _

@[simp] theorem Tree.swap_left (tree : Tree) (l l' : Location) : tree.swap l l' l = tree l' := by
  by_cases h : l = l' <;> simp [Tree.swap, h]

@[simp] theorem Tree.swap_right (tree : Tree) (l l' : Location) : tree.swap l l' l' = tree l := by
  simp [Tree.swap]

/-- The locations a call may change. -/
def FsCall.writes : FsCall → List Location
  | .createFile location | .writeAll location _ | .changeMode location _ | .unlink location =>
      [location]
  | .rename _ directory source destination _ => [⟨directory, source⟩, ⟨directory, destination⟩]
  | _ => []


namespace FsStep

variable {slash : Identity} {tree tree' : Tree} {location l : Location}

/-- Reading calls change nothing. -/
theorem eq_of_writes_nil {c : FsCall} {r : Except Errno c.Value} (h : FsStep slash tree c r tree')
    (hc : c.writes = []) : tree' = tree := by
  cases h with
  | fault code => rfl
  | effect fresh hf =>
      cases c <;> simp only [FsCall.writes, reduceCtorEq] at hc <;> simp only [FsCall.effect] <;>
        split <;> first | rfl | (split <;> rfl)

/-- **A failing call changes nothing.** -/
theorem eq_of_error {c : FsCall} {e : Errno} (h : FsStep slash tree c (.error e) tree') :
    tree' = tree := by
  generalize hr : Except.error e = r at h
  cases h with
  | fault code => rfl
  | effect fresh hf =>
      cases c <;> simp only [FsCall.effect] at hr ⊢ <;> (repeat' split) <;> simp_all

/-- **Frame.**  A call leaves alone what it does not write. -/
theorem frame {c : FsCall} {r : Except Errno c.Value} (h : FsStep slash tree c r tree')
    (hl : l ∉ c.writes) : tree' l = tree l := by
  cases h with
  | fault code => rfl
  | effect fresh hf =>
      cases c <;> simp only [FsCall.effect] <;> (repeat' split) <;>
        simp_all [FsCall.writes, Function.update_of_ne]

/-- A call that works takes effect. -/
theorem effect_of_ok {c : FsCall} {v : c.Value} (h : FsStep slash tree c (.ok v) tree') :
    ∃ fresh, Unlinked tree fresh ∧ (c.effect slash fresh tree).1 = .ok v ∧
      (c.effect slash fresh tree).2 = tree' := by
  generalize hr : (Except.ok v : Except Errno c.Value) = r at h
  cases h with
  | fault code => cases hr
  | effect fresh hf => exact ⟨fresh, hf, rfl, rfl⟩

/-! What a call that works has found, and what it leaves behind. -/

/-- What each call that succeeds has found and changed. -/
theorem openSlash_ok {identity : Identity}
    (h : FsStep slash tree .openSlash (.ok identity) tree') : identity = slash := by
  obtain ⟨fresh, hf, hr, ht⟩ := h.effect_of_ok
  exact (Except.ok.inj hr).symm

theorem openDirectory_ok {parent identity : Identity} {name : String}
    (h : FsStep slash tree (.openDirectory parent name) (.ok identity) tree') :
    if name = "." then identity = parent else tree ⟨parent, name⟩ = some (.directory identity) := by
  obtain ⟨fresh, hf, hr, ht⟩ := h.effect_of_ok
  simp only [FsCall.effect] at hr; (repeat' split at hr) <;> simp_all

theorem statAt_noent (h : FsStep slash tree (.statAt location) (.error .noent) tree') :
    tree location = none := by
  generalize hr : (Except.error Errno.noent : Except Errno (FsCall.statAt location).Value) = r at h
  cases h with
  | fault code => cases hr
  | effect fresh hf => simp only [FsCall.effect] at hr; split at hr <;> simp_all

theorem createFile_ok (h : FsStep slash tree (.createFile location) (.ok ()) tree') :
    tree location = none ∧ ∃ fresh, Unlinked tree fresh ∧
      tree' = Function.update tree location
        (some (.file ⟨fresh, [], regularMode privateMode⟩)) := by
  obtain ⟨fresh, hf, hr, ht⟩ := h.effect_of_ok
  simp only [FsCall.effect] at hr ht
  split at hr <;> simp_all
  exact ⟨fresh, hf, ht.symm⟩

theorem metadata_ok {m : Metadata}
    (h : FsStep slash tree (.metadata location) (.ok m) tree') :
    ∃ node, tree location = some node ∧ m.identity = node.identity ∧
      (m.isFile = true → ∃ f, node = .file f ∧ m.mode = f.mode) := by
  obtain ⟨fresh, hf, hr, ht⟩ := h.effect_of_ok
  simp only [FsCall.effect] at hr
  split at hr <;> simp_all <;> subst hr <;> simp_all [Node.identity]

theorem readToEnd_ok {bytes : Bytes}
    (h : FsStep slash tree (.readToEnd location) (.ok bytes) tree') :
    ∃ f, tree location = some (.file f) ∧ bytes = f.bytes := by
  obtain ⟨fresh, hf, hr, ht⟩ := h.effect_of_ok
  simp only [FsCall.effect] at hr; split at hr <;> simp_all

theorem writeAll_ok {bytes : Bytes}
    (h : FsStep slash tree (.writeAll location bytes) (.ok ()) tree') :
    ∃ f, tree location = some (.file f) ∧ tree' = Function.update tree location
      (some (.file { f with bytes := bytes ++ f.bytes.drop bytes.length })) := by
  obtain ⟨fresh, hf, hr, ht⟩ := h.effect_of_ok
  simp only [FsCall.effect] at hr ht; split at hr <;> simp_all

theorem changeMode_ok {permissions : Nat}
    (h : FsStep slash tree (.changeMode location permissions) (.ok ()) tree') :
    ∃ f, tree location = some (.file f) ∧ tree' = Function.update tree location
      (some (.file { f with mode := regularMode permissions })) := by
  obtain ⟨fresh, hf, hr, ht⟩ := h.effect_of_ok
  simp only [FsCall.effect] at hr ht; split at hr <;> simp_all

theorem unlink_ok (h : FsStep slash tree (.unlink location) (.ok ()) tree') :
    tree' = Function.update tree location none := by
  obtain ⟨fresh, hf, hr, ht⟩ := h.effect_of_ok
  simp only [FsCall.effect] at hr ht; split at hr <;> simp_all

/-- A rename that works trades the entries of its two locations; one that may
not replace anything finds its destination free. -/
theorem rename_ok {site : Site} {directory : Identity} {source destination : String}
    {flags : RenameFlags}
    (h : FsStep slash tree (.rename site directory source destination flags) (.ok ()) tree') :
    (flags = .noreplace → tree ⟨directory, destination⟩ = none) ∧
      tree' = tree.swap ⟨directory, source⟩ ⟨directory, destination⟩ := by
  obtain ⟨fresh, hf, hr, ht⟩ := h.effect_of_ok
  simp only [FsCall.effect] at hr ht
  split at hr <;> simp_all [Tree.swap]

end FsStep

end Mutator
end Hegira
