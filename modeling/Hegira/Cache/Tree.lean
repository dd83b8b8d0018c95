/-
# What a scan of a cache counts

`Tree::scan`, `walk`, `names`, `regular` and `add_allocated` of
`tools/hegira_cli/src/operations/execution/platform/cache.rs` with `Directory::open_child`
and `Directory::verify`, over a directory tree that nobody changes during the scan: the
second look at an entry finds what the first one found, so that of the checks for
stability none is left.  What is left of the openings is whether they succeed: an inode
may be read or not, nothing may be mounted at an entry, and every directory found keeps a
descriptor of the process (`Access`).

The walk of a tree is the fold over its visits (`visits`, `walkAll_eq`), and a fold
that keeps running sums succeeds exactly when every visit is allowed and the last sums
are (`foldlM_visit`, whose invariant is `Counted`).  A scan so counts every inode once,
whichever of its links comes first (`tree_scan_counts_once`).
-/

import Mathlib.Algebra.Order.BigOperators.Group.Finset
import Mathlib.Algebra.Ring.Nat
import Mathlib.Data.Finset.Dedup
import Hegira.Library.Validation

namespace Hegira
namespace Cache

/-! ### Errors -/

inductive OperationErrorKind where
  | validation
  | conflict
  deriving DecidableEq

structure OperationError where
  kind : OperationErrorKind
  code : String
  message : String
  deriving DecidableEq

def invalid : OperationError where
  kind := .conflict
  code := "validation-cache-ownership"
  message := "Validation storage is unclaimed, unsafe, changed or exceeds scan limits (200000 entries/64 levels). Inspect target/hegira/validation manually; never forge claims or remove recovery state."

/-! ### Directories -/

/-- `(st_dev, st_ino)`. -/
structure FileId where
  device : Nat
  inode : Nat
  deriving DecidableEq

instance : Ord FileId := ⟨compareLex (compareOn FileId.device) (compareOn FileId.inode)⟩

instance : Std.TransOrd FileId :=
  inferInstanceAs (Std.TransCmp (compareLex (compareOn FileId.device) (compareOn FileId.inode)))

instance : Std.LawfulEqOrd FileId where
  eq_of_compare {a b} h := by
    obtain ⟨hdevice, hinode⟩ := Ordering.then_eq_eq.1 (show (compare a.device b.device).then
      (compare a.inode b.inode) = .eq from h)
    obtain ⟨device, inode⟩ := a
    obtain ⟨device', inode'⟩ := b
    obtain rfl := Std.LawfulEqOrd.eq_of_compare hdevice
    obtain rfl := Std.LawfulEqOrd.eq_of_compare hinode
    rfl

/-- What is read of the `Stat` of an inode; a `stamp` stands for its times. -/
structure Stat where
  mode : Nat
  nlink : Nat
  size : Nat
  blocks : Nat
  stamp : Nat
  deriving DecidableEq

/-- An entry of a directory.  Entries are listed in the order of their names; at a mount
point another file or directory is found, of whichever device. -/
inductive Node where
  | file (name : String) (id : FileId)
  | directory (name : String) (id : FileId) (entries : List Node)
  | special (name : String) (id : FileId)
  | mountPoint (name : String) (id : FileId)

def Node.name : Node → String
  | .file name _ | .directory name _ _ | .special name _ | .mountPoint name _ => name

def Node.id : Node → FileId
  | .file _ id | .directory _ id _ | .special _ id | .mountPoint _ id => id

/-- What a process can open: the files that it may read and the directories that it may
read and search, and how many descriptors it has left. -/
structure Access where
  readable : FileId → Bool
  descriptors : Nat

/-! ### The walk -/

structure FileEntry where
  parent : List String
  name : String
  id : FileId
  observed : Stat
  deriving DecidableEq

/-- `Tree`; a directory is its path. -/
structure Tree where
  files : List FileEntry
  directories : List (List String × String)
  allocated : Nat
  logical : Nat
  uniqueFiles : Nat
  deriving DecidableEq

/-- The links seen of each inode, and how many it has. -/
abbrev Links := Std.TreeMap FileId (Nat × Nat)

/-- A tree that is being scanned, with how many entries and descriptors remain and the link
table. -/
structure Walk where
  tree : Tree
  remaining : Nat
  descriptors : Nat
  links : Links

/-- The number as a `u64`. -/
def u64 (n : Nat) : Except OperationError Nat :=
  if n < UInt64.size then .ok n else .error invalid

section Walk

variable (stat : FileId → Stat) (readable : FileId → Bool) (device : Nat)

/-- The bytes of the blocks of an inode. -/
def allocation (id : FileId) : Nat := (stat id).blocks * 512

def Walk.addAllocated (w : Walk) (id : FileId) : Except OperationError Walk := do
  let bytes ← u64 (allocation stat id)
  let allocated ← u64 (w.tree.allocated + bytes)
  return { w with tree := { w.tree with allocated := allocated } }

/-- `Directory::verify`: the path is opened again, each component while the one before it is
open. -/
def Walk.verify (w : Walk) : Except OperationError Unit :=
  if w.descriptors < 2 then .error invalid else .ok ()

/-- `names`: the directory is opened once more to be read. -/
def Walk.names (w : Walk) (id : FileId) (count : Nat) : Except OperationError Walk := do
  w.verify
  if !readable id then throw invalid
  if w.remaining < count then throw invalid
  return { w with remaining := w.remaining - count }

/-- The beginning of `walk`, in the directory `id` of so many entries. -/
def Walk.enter (w : Walk) (depth : Nat) (id : FileId) (count : Nat) : Except OperationError Walk := do
  if depth > 64 then throw invalid
  let w ← w.addAllocated stat id
  w.names readable id count

/-- `Directory::open_child`, where nothing is mounted; the tree keeps the descriptor. -/
def Walk.openChild (w : Walk) (id : FileId) : Except OperationError Walk := do
  w.verify
  if !readable id then throw invalid
  return { w with descriptors := w.descriptors - 1 }

/-- `regular`, where nothing is mounted. -/
def Walk.regular (w : Walk) (id : FileId) : Except OperationError Unit :=
  if w.descriptors < 1 ∨ readable id = false then .error invalid else .ok ()

/-- The sums after a link to a file, with `seen` links before it. -/
def Walk.count (w : Walk) (id : FileId) (seen : Nat) : Except OperationError Walk :=
  if seen = 0 then do
    let w ← w.addAllocated stat id
    let logical ← u64 (w.tree.logical + (stat id).size)
    return { w with tree := { w.tree with logical := logical } }
  else
    .ok w

/-- A link to a regular file. -/
def Walk.file (w : Walk) (path : List String) (name : String) (id : FileId) :
    Except OperationError Walk := do
  let observed := stat id
  let record := (w.links[id]?).getD (0, observed.nlink)
  if record.2 ≠ observed.nlink then throw invalid
  let w ← w.count stat id record.1
  return { w with
    links := w.links.insert id (record.1 + 1, record.2)
    tree := { w.tree with files := w.tree.files ++ [⟨path, name, id, observed⟩] } }

mutual

/-- `walk`, at an entry of the directory at `path`. -/
def Node.walk (depth : Nat) (path : List String) (w : Walk) : Node → Except OperationError Walk
  | .file name id => do
      if id.device ≠ device then throw invalid
      w.regular readable id
      w.file stat path name id
  | .directory name id entries => do
      if id.device ≠ device then throw invalid
      let w ← w.openChild readable id
      let w ← w.enter stat readable (depth + 1) id entries.length
      let w ← walkAll (depth + 1) (path ++ [name]) w entries
      w.verify
      return { w with
        tree := { w.tree with directories := w.tree.directories ++ [(path, name)] } }
  -- `openat2` refuses to cross a mount point: `NO_XDEV`
  | .special .. | .mountPoint .. => .error invalid

/-- `walk`, at the entries of the directory at `path`. -/
def walkAll (depth : Nat) (path : List String) (w : Walk) :
    List Node → Except OperationError Walk
  | [] => return w
  | node :: entries => do
      let w ← node.walk depth path w
      walkAll depth path w entries

end

/-- `scan`, with the entries that remain after it. -/
def scan (access : Access) (id : FileId) (entries : List Node) (remaining : Nat) :
    Except OperationError (Tree × Nat) := do
  let w : Walk := ⟨⟨[], [], 0, 0, 0⟩, remaining, access.descriptors, ∅⟩
  let w ← w.enter stat access.readable 0 id entries.length
  let w ← walkAll stat access.readable device 0 [] w entries
  w.verify
  if w.links.toList.any fun link => link.2.1 != link.2.2 then throw invalid
  return ({ w.tree with uniqueFiles := w.links.size }, w.remaining)

end Walk

/-! ### What there is to count -/

mutual

/-- The directories nested below an entry. -/
def Node.levels : Node → Nat
  | .directory _ _ entries => 1 + levels entries
  | .file .. | .special .. | .mountPoint .. => 0

def levels : List Node → Nat
  | [] => 0
  | node :: entries => max node.levels (levels entries)

end

mutual

/-- An entry and all below it. -/
def Node.all : Node → List Node
  | .directory name id entries => .directory name id entries :: below entries
  | .file name id => [.file name id]
  | .special name id => [.special name id]
  | .mountPoint name id => [.mountPoint name id]

def below : List Node → List Node
  | [] => []
  | node :: entries => node.all ++ below entries

end

def Node.fileId? : Node → Option FileId
  | .file _ id => some id
  | .directory .. | .special .. | .mountPoint .. => none

def Node.directoryId? : Node → Option FileId
  | .directory _ id _ => some id
  | .file .. | .special .. | .mountPoint .. => none

/-- The inodes of the links to files below a directory. -/
def fileIds (entries : List Node) : List FileId := (below entries).filterMap Node.fileId?

/-- The inodes of the directories below a directory. -/
def directoryIds (entries : List Node) : List FileId := (below entries).filterMap Node.directoryId?

/-- An entry that is neither a directory nor a regular file. -/
def Node.isSpecial : Node → Bool
  | .special .. => true
  | .file .. | .directory .. | .mountPoint .. => false

def Node.isMountPoint : Node → Bool
  | .mountPoint .. => true
  | .file .. | .directory .. | .special .. => false

section Totals

variable (stat : FileId → Stat)

/-- The bytes of directories, and of files once each. -/
def allocatedOf (directories files : List FileId) : Nat :=
  (directories.map (allocation stat)).sum + ∑ id ∈ files.toFinset, allocation stat id

/-- The sizes of files, once each. -/
def logicalOf (files : List FileId) : Nat := ∑ id ∈ files.toFinset, (stat id).size

/-- A tree under the directory `id` that can be counted with `remaining` entries. -/
structure Countable (id : FileId) (entries : List Node) (remaining : Nat) : Prop where
  device : ∀ node ∈ below entries, node.id.device = id.device
  depth : levels entries ≤ 64
  count : (below entries).length ≤ remaining
  regular : ∀ node ∈ below entries, node.isSpecial = false
  links : ∀ file ∈ fileIds entries, (fileIds entries).count file = (stat file).nlink
  allocated : allocatedOf stat (id :: directoryIds entries) (fileIds entries) < UInt64.size
  logical : logicalOf stat (fileIds entries) < UInt64.size

end Totals

/-- A tree under the directory `id` of which everything can be opened. -/
structure Openable (access : Access) (id : FileId) (entries : List Node) : Prop where
  root : access.readable id = true
  readable : ∀ node ∈ below entries, access.readable node.id = true
  mounts : ∀ node ∈ below entries, node.isMountPoint = false
  descriptors : (directoryIds entries).length + 2 ≤ access.descriptors

/-! ### The walk as a fold -/

/-- What a walk does in turn. -/
inductive Visit where
  | device (id : FileId)
  | openChild (id : FileId)
  | enter (depth : Nat) (id : FileId) (count : Nat)
  | regular (id : FileId)
  | file (path : List String) (name : String) (id : FileId)
  | verify
  | leave (path : List String) (name : String)
  | refused

section Visits

variable (stat : FileId → Stat) (readable : FileId → Bool) (device : Nat)

def Walk.visit (w : Walk) : Visit → Except OperationError Walk
  | .device id => if id.device ≠ device then .error invalid else .ok w
  | .openChild id => w.openChild readable id
  | .enter depth id count => w.enter stat readable depth id count
  | .regular id => (w.regular readable id).map fun _ => w
  | .file path name id => w.file stat path name id
  | .verify => w.verify.map fun _ => w
  | .leave path name =>
      .ok { w with tree := { w.tree with directories := w.tree.directories ++ [(path, name)] } }
  | .refused => .error invalid

mutual

def Node.visits (depth : Nat) (path : List String) : Node → List Visit
  | .file name id => [.device id, .regular id, .file path name id]
  | .directory name id entries =>
      .device id :: .openChild id :: .enter (depth + 1) id entries.length ::
        (visits (depth + 1) (path ++ [name]) entries ++ [.verify, .leave path name])
  | .special .. | .mountPoint .. => [.refused]

def visits (depth : Nat) (path : List String) : List Node → List Visit
  | [] => []
  | node :: entries => node.visits depth path ++ visits depth path entries

end

variable {stat readable device}

/-- A check, then the rest of a walk. -/
theorem foldlM_visit_check {x : Except OperationError Unit} {w : Walk} {v : Visit}
    {vs : List Visit} (h : w.visit stat readable device v = x.map fun _ => w) :
    (v :: vs).foldlM (fun w v => w.visit stat readable device v) w =
      x >>= fun _ => vs.foldlM (fun w v => w.visit stat readable device v) w := by
  rw [List.foldlM_cons, h]
  cases x <;> rfl

mutual

/-- Walking a node is one pass over its visits. -/
theorem Node.walk_eq (depth : Nat) (path : List String) (w : Walk) : ∀ node : Node,
    node.walk stat readable device depth path w =
      (node.visits depth path).foldlM (fun w v => w.visit stat readable device v) w
  | .file name id => by
      rw [Node.walk, Node.visits, List.foldlM_cons, Walk.visit]
      split
      · rfl
      · show (w.regular readable id >>= fun _ => w.file stat path name id) =
          (Visit.regular id :: [.file path name id]).foldlM _ w
        rw [foldlM_visit_check (x := w.regular readable id) rfl]
        refine bind_congr fun _ => ?_
        rw [List.foldlM_cons, Walk.visit]
        cases w.file stat path name id <;> rfl
  | .directory name id entries => by
      rw [Node.walk, Node.visits, List.foldlM_cons, Walk.visit]
      split
      · rfl
      · refine bind_congr fun w => ?_
        rw [List.foldlM_cons]
        refine bind_congr fun w => ?_
        rw [walkAll_eq, List.foldlM_append]
        refine bind_congr fun w => ?_
        rw [foldlM_visit_check (x := w.verify) rfl]
        rfl
  | .special .. | .mountPoint .. => by
      rw [Node.walk, Node.visits]
      rfl

/-- **A walk is the fold over its visits.** -/
theorem walkAll_eq (depth : Nat) (path : List String) (w : Walk) : ∀ entries : List Node,
    walkAll stat readable device depth path w entries =
      (visits depth path entries).foldlM (fun w v => w.visit stat readable device v) w
  | [] => by rw [walkAll, visits]; rfl
  | node :: entries => by
      rw [walkAll, visits, List.foldlM_append, Node.walk_eq]
      refine bind_congr fun w => ?_
      exact walkAll_eq depth path w entries

end

end Visits

/-! ### What visits add up to -/

def Visit.entered? : Visit → Option FileId
  | .enter _ id _ => some id
  | _ => none

def Visit.filed? : Visit → Option FileId
  | .file _ _ id => some id
  | _ => none

def Visit.opened? : Visit → Option FileId
  | .openChild id => some id
  | _ => none

def Visit.count : Visit → Nat
  | .enter _ _ count => count
  | _ => 0

/-- How many descriptors a visit needs. -/
def Visit.needs : Visit → Nat
  | .openChild _ | .enter .. | .verify => 2
  | .regular _ => 1
  | .device _ | .file .. | .leave .. | .refused => 0

def Visit.entry? (stat : FileId → Stat) : Visit → Option FileEntry
  | .file path name id => some ⟨path, name, id, stat id⟩
  | _ => none

def Visit.left? : Visit → Option (List String × String)
  | .leave path name => some (path, name)
  | _ => none

/-- The directories that the visits enter, the links they file, the directories they keep
open and the entries they read. -/
def entered (vs : List Visit) : List FileId := vs.filterMap Visit.entered?

def filed (vs : List Visit) : List FileId := vs.filterMap Visit.filed?

def opened (vs : List Visit) : List FileId := vs.filterMap Visit.opened?

def counted (vs : List Visit) : Nat := (vs.map Visit.count).sum

/-- A visit that does not fail by itself. -/
def Visit.Allowed (readable : FileId → Bool) (device : Nat) : Visit → Prop
  | .device id => id.device = device
  | .openChild id | .regular id => readable id = true
  | .enter depth id _ => depth ≤ 64 ∧ readable id = true
  | .file .. | .verify | .leave .. => True
  | .refused => False

/-- Each visit has the descriptors that it needs. -/
def Affordable (descriptors : Nat) (vs : List Visit) : Prop :=
  ∀ past v rest, vs = past ++ v :: rest → (opened past).length + v.needs ≤ descriptors

section Sums

/-- The entries and the descriptors that a scan may use. -/
structure Budget where
  remaining : Nat
  descriptors : Nat

variable (stat : FileId → Stat) (budget : Budget)

/-- The sums over the visits are within their bounds. -/
structure Bounded (vs : List Visit) : Prop where
  allocated : allocatedOf stat (entered vs) (filed vs) < UInt64.size
  logical : logicalOf stat (filed vs) < UInt64.size
  count : counted vs ≤ budget.remaining
  descriptors : Affordable budget.descriptors vs

/-- The walk has counted the visits. -/
structure Counted (vs : List Visit) (w : Walk) : Prop where
  allocated : w.tree.allocated = allocatedOf stat (entered vs) (filed vs)
  logical : w.tree.logical = logicalOf stat (filed vs)
  remaining : w.remaining + counted vs = budget.remaining
  descriptors : w.descriptors + (opened vs).length = budget.descriptors
  links : ∀ id, w.links[id]? =
    if id ∈ filed vs then some ((filed vs).count id, (stat id).nlink) else none
  size : w.links.size = (filed vs).toFinset.card
  files : w.tree.files = vs.filterMap (Visit.entry? stat)
  directories : w.tree.directories = vs.filterMap Visit.left?

variable {stat budget} {descriptors : Nat} {vs : List Visit} {w : Walk} {v : Visit}
  {readable : FileId → Bool} {device : Nat}

/-- What is entered, filed, opened and counted adds up over two lists of visits. -/
@[simp] theorem entered_append (vs vs' : List Visit) :
    entered (vs ++ vs') = entered vs ++ entered vs' := List.filterMap_append ..

@[simp] theorem filed_append (vs vs' : List Visit) : filed (vs ++ vs') = filed vs ++ filed vs' :=
  List.filterMap_append ..

@[simp] theorem opened_append (vs vs' : List Visit) :
    opened (vs ++ vs') = opened vs ++ opened vs' := List.filterMap_append ..

@[simp] theorem counted_append (vs vs' : List Visit) :
    counted (vs ++ vs') = counted vs + counted vs' := by
  simp [counted]

/-- One more visit adds what it contributes. -/
theorem filterMap_concat {β : Type} (f : Visit → Option β) :
    (vs ++ [v]).filterMap f = vs.filterMap f ++ (f v).toList := by
  rw [List.filterMap_append]
  cases h : f v with
  | none => rw [List.filterMap_cons_none h]; rfl
  | some b => rw [List.filterMap_cons_some h]; rfl

/-- No visit needs no descriptor. -/
theorem affordable_nil : Affordable descriptors [] := by
  intro past v rest h
  cases past <;> cases h

/-- The visits up to a point need no more than all of them. -/
theorem Affordable.of_append {vs' : List Visit} (h : Affordable descriptors (vs ++ vs')) :
    Affordable descriptors vs := by
  rintro past v rest rfl
  exact h past v (rest ++ vs') (by simp)

/-- One more visit has what it needs. -/
theorem affordable_concat : Affordable descriptors (vs ++ [v]) ↔
    Affordable descriptors vs ∧ (opened vs).length + v.needs ≤ descriptors := by
  refine ⟨fun h => ⟨h.of_append, h vs v [] rfl⟩, ?_⟩
  rintro ⟨h, hlast⟩ past v' rest heq
  rcases List.eq_nil_or_concat rest with rfl | ⟨rest, last, rfl⟩
  · obtain ⟨rfl, hv⟩ := List.append_inj' heq rfl
    obtain rfl := List.singleton_inj.1 hv
    exact hlast
  · rw [List.concat_eq_append, ← List.cons_append, ← List.append_assoc] at heq
    exact h past v' rest (List.append_inj' heq rfl).1

/-- A file seen again is not one more file. -/
theorem toFinset_concat_of_mem {files : List FileId} {id : FileId} (h : id ∈ files) :
    (files ++ [id]).toFinset = files.toFinset := by
  simp [List.toFinset_append, h]

theorem toFinset_concat {files : List FileId} {id : FileId} :
    (files ++ [id]).toFinset = insert id files.toFinset := by
  rw [List.toFinset_append, List.toFinset_cons, List.toFinset_nil, insert_empty_eq,
    Finset.union_comm, Finset.singleton_union]

/-- What a link adds: the sum over files, of the first link of an inode only. -/
theorem sum_concat (f : FileId → Nat) (files : List FileId) (id : FileId) :
    ∑ file ∈ (files ++ [id]).toFinset, f file =
      (∑ file ∈ files.toFinset, f file) + if id ∈ files then 0 else f id := by
  split
  · next h => rw [toFinset_concat_of_mem h, Nat.add_zero]
  · next h =>
      rw [toFinset_concat, Finset.sum_insert (by simpa using h), Nat.add_comm]

/-- One more directory adds its allocation. -/
theorem allocatedOf_enter (directories files : List FileId) (id : FileId) :
    allocatedOf stat (directories ++ [id]) files =
      allocatedOf stat directories files + allocation stat id := by
  simp only [allocatedOf, List.map_append, List.map_cons, List.map_nil, List.sum_append,
    List.sum_cons, List.sum_nil]
  omega

/-- One more file adds its allocation the first time it is seen. -/
theorem allocatedOf_file (directories files : List FileId) (id : FileId) :
    allocatedOf stat directories (files ++ [id]) = allocatedOf stat directories files +
      if id ∈ files then 0 else allocation stat id := by
  rw [allocatedOf, sum_concat, allocatedOf, Nat.add_assoc]

/-- And its size the first time it is seen. -/
theorem logicalOf_file (files : List FileId) (id : FileId) :
    logicalOf stat (files ++ [id]) =
      logicalOf stat files + if id ∈ files then 0 else (stat id).size := sum_concat ..

/-! ### One visit -/

/-- A sum is accepted when it fits in 64 bits. -/
theorem u64_eq_ok {n m : Nat} : u64 n = .ok m ↔ n < UInt64.size ∧ m = n := by
  rw [u64]
  split
  · next h => simp [h, eq_comm]
  · next h => simp [h]

/-- When `addAllocated` is accepted, and what it leaves. -/
theorem addAllocated_eq_ok {w' : Walk} {id : FileId} :
    w.addAllocated stat id = .ok w' ↔
      w.tree.allocated + allocation stat id < UInt64.size ∧
        w' = { w with tree :=
          { w.tree with allocated := w.tree.allocated + allocation stat id } } := by
  rw [Walk.addAllocated]
  simp only [Validation.bind_eq_ok, u64_eq_ok]
  constructor
  · rintro ⟨bytes, ⟨-, rfl⟩, allocated, ⟨hlt, rfl⟩, h⟩
    exact ⟨hlt, (Except.ok.inj h).symm⟩
  · rintro ⟨hlt, rfl⟩
    exact ⟨_, ⟨by omega, rfl⟩, _, ⟨hlt, rfl⟩, rfl⟩

/-- When the check against the directory is accepted. -/
theorem verify_eq_ok : w.verify = .ok () ↔ 2 ≤ w.descriptors := by
  rw [Walk.verify]
  split
  · next h => exact iff_of_false (by simp) (Nat.not_le.2 h)
  · next h => exact iff_of_true rfl (Nat.not_lt.1 h)

/-- When a file is opened. -/
theorem regular_eq_ok {id : FileId} :
    w.regular readable id = .ok () ↔ 1 ≤ w.descriptors ∧ readable id = true := by
  rw [Walk.regular]
  split
  · next h =>
      refine iff_of_false (by simp) ?_
      rintro ⟨hle, hread⟩
      rcases h with h | h
      · exact absurd hle (Nat.not_le.2 h)
      · rw [hread] at h
        cases h
  · next h =>
      obtain ⟨hle, hread⟩ := not_or.1 h
      exact iff_of_true rfl ⟨Nat.not_lt.1 hle, by simpa using hread⟩

/-- When the names of a directory are read. -/
theorem names_eq_ok {w' : Walk} {id : FileId} {count : Nat} :
    w.names readable id count = .ok w' ↔ 2 ≤ w.descriptors ∧ readable id = true ∧
      count ≤ w.remaining ∧ w' = { w with remaining := w.remaining - count } := by
  rw [Walk.names, Validation.bind_eq_ok]
  constructor
  · rintro ⟨⟨⟩, hverify, h⟩
    obtain ⟨hread, h⟩ := Validation.guarded_eq_ok.1 h
    obtain ⟨hcount, h⟩ := Validation.guarded_eq_ok.1 h
    exact ⟨verify_eq_ok.1 hverify, by simpa using hread, Nat.not_lt.1 hcount,
      (Except.ok.inj h).symm⟩
  · rintro ⟨hle, hread, hcount, rfl⟩
    refine ⟨(), verify_eq_ok.2 hle, Validation.guarded_eq_ok.2 ⟨by simp [hread], ?_⟩⟩
    exact Validation.guarded_eq_ok.2 ⟨Nat.not_lt.2 hcount, rfl⟩

/-- When a directory below is opened. -/
theorem openChild_eq_ok {w' : Walk} {id : FileId} :
    w.openChild readable id = .ok w' ↔ 2 ≤ w.descriptors ∧ readable id = true ∧
      w' = { w with descriptors := w.descriptors - 1 } := by
  rw [Walk.openChild, Validation.bind_eq_ok]
  constructor
  · rintro ⟨⟨⟩, hverify, h⟩
    obtain ⟨hread, h⟩ := Validation.guarded_eq_ok.1 h
    exact ⟨verify_eq_ok.1 hverify, by simpa using hread, (Except.ok.inj h).symm⟩
  · rintro ⟨hle, hread, rfl⟩
    exact ⟨(), verify_eq_ok.2 hle, Validation.guarded_eq_ok.2 ⟨by simp [hread], rfl⟩⟩

/-- When a directory is entered. -/
theorem enter_eq_ok {w' : Walk} {depth count : Nat} {id : FileId} :
    w.enter stat readable depth id count = .ok w' ↔
      (depth ≤ 64 ∧ readable id = true) ∧ w.tree.allocated + allocation stat id < UInt64.size ∧
        2 ≤ w.descriptors ∧ count ≤ w.remaining ∧
        w' = { w with
          tree := { w.tree with allocated := w.tree.allocated + allocation stat id }
          remaining := w.remaining - count } := by
  rw [Walk.enter, Validation.guarded_eq_ok, Validation.bind_eq_ok]
  constructor
  · rintro ⟨hdepth, w₁, h, hnames⟩
    obtain ⟨hlt, rfl⟩ := addAllocated_eq_ok.1 h
    obtain ⟨hle, hread, hcount, rfl⟩ := names_eq_ok.1 hnames
    exact ⟨⟨Nat.not_lt.1 hdepth, hread⟩, hlt, hle, hcount, rfl⟩
  · rintro ⟨⟨hdepth, hread⟩, hlt, hle, hcount, rfl⟩
    exact ⟨Nat.not_lt.2 hdepth, _, addAllocated_eq_ok.2 ⟨hlt, rfl⟩,
      names_eq_ok.2 ⟨hle, hread, hcount, rfl⟩⟩

/-- What a link adds to a sum. -/
def first (n seen : Nat) : Nat := if seen = 0 then n else 0

/-- When a file is counted. -/
theorem count_eq_ok {w' : Walk} {id : FileId} {seen : Nat}
    (hallocated : w.tree.allocated < UInt64.size) (hlogical : w.tree.logical < UInt64.size) :
    w.count stat id seen = .ok w' ↔
      w.tree.allocated + first (allocation stat id) seen < UInt64.size ∧
      w.tree.logical + first (stat id).size seen < UInt64.size ∧
        w' = { w with tree := { w.tree with
          allocated := w.tree.allocated + first (allocation stat id) seen
          logical := w.tree.logical + first (stat id).size seen } } := by
  rw [Walk.count]
  by_cases hseen : seen = 0
  · simp only [hseen, first, if_true, Validation.bind_eq_ok]
    constructor
    · rintro ⟨w₁, h, hrest⟩
      obtain ⟨hlt, rfl⟩ := addAllocated_eq_ok.1 h
      obtain ⟨logical, h, hrest⟩ := hrest
      obtain ⟨hlt', rfl⟩ := u64_eq_ok.1 h
      exact ⟨hlt, hlt', (Except.ok.inj hrest).symm⟩
    · rintro ⟨hlt, hlt', rfl⟩
      exact ⟨_, addAllocated_eq_ok.2 ⟨hlt, rfl⟩, _, u64_eq_ok.2 ⟨hlt', rfl⟩, rfl⟩
  · simp only [hseen, first, if_false, Nat.add_zero]
    exact ⟨fun h => ⟨hallocated, hlogical, (Except.ok.inj h).symm⟩, fun h => h.2.2 ▸ rfl⟩

/-- A link to a file, with `seen` links of its inode before it. -/
theorem file_eq_ok {w' : Walk} {path : List String} {name : String} {id : FileId} {seen : Nat}
    (hrecord : (w.links[id]?).getD (0, (stat id).nlink) = (seen, (stat id).nlink))
    (hallocated : w.tree.allocated < UInt64.size) (hlogical : w.tree.logical < UInt64.size) :
    w.file stat path name id = .ok w' ↔
      w.tree.allocated + first (allocation stat id) seen < UInt64.size ∧
      w.tree.logical + first (stat id).size seen < UInt64.size ∧
        w' = { w with
          tree := { w.tree with
            files := w.tree.files ++ [⟨path, name, id, stat id⟩]
            allocated := w.tree.allocated + first (allocation stat id) seen
            logical := w.tree.logical + first (stat id).size seen }
          links := w.links.insert id (seen + 1, (stat id).nlink) } := by
  rw [Walk.file, hrecord, Validation.guarded_eq_ok, Validation.bind_eq_ok]
  constructor
  · rintro ⟨-, w₁, h, hrest⟩
    obtain ⟨hlt, hlt', rfl⟩ := (count_eq_ok hallocated hlogical).1 h
    exact ⟨hlt, hlt', (Except.ok.inj hrest).symm⟩
  · rintro ⟨hlt, hlt', rfl⟩
    exact ⟨not_not.2 rfl, _, (count_eq_ok hallocated hlogical).2 ⟨hlt, hlt', rfl⟩, rfl⟩

/-- What is charged the first time only, by the files seen before. -/
theorem first_count (n : Nat) (files : List FileId) (id : FileId) :
    first n (files.count id) = if id ∈ files then 0 else n := by
  rw [first]
  by_cases h : id ∈ files
  · rw [if_pos h, if_neg (List.count_pos_iff.2 h).ne']
  · rw [if_neg h, if_pos (List.count_eq_zero.2 h)]

/-- The record of a file's links counts how often it was seen. -/
theorem Counted.record (h : Counted stat budget vs w) (id : FileId) :
    (w.links[id]?).getD (0, (stat id).nlink) = ((filed vs).count id, (stat id).nlink) := by
  rw [h.links]
  split
  · rfl
  · next hid => rw [List.count_eq_zero.2 hid, Option.getD_none]

/-- A visit that has what it needs leaves the sums within their bounds. -/
theorem Counted.bounded {w' : Walk} (h' : Counted stat budget (vs ++ [v]) w')
    (hb : Bounded stat budget vs) (h : Counted stat budget vs w) (hneeds : v.needs ≤ w.descriptors)
    (hallocated : w'.tree.allocated < UInt64.size) (hlogical : w'.tree.logical < UInt64.size) :
    Bounded stat budget (vs ++ [v]) := by
  refine ⟨h'.allocated ▸ hallocated, h'.logical ▸ hlogical, h'.remaining ▸ Nat.le_add_left _ _, ?_⟩
  have hdescriptors := h.descriptors
  exact affordable_concat.2 ⟨hb.descriptors, by omega⟩

/-- A visit within the bounds has what it needs. -/
theorem Counted.needs (h : Counted stat budget vs w) (hb : Bounded stat budget (vs ++ [v])) :
    v.needs ≤ w.descriptors := by
  have hlast := (affordable_concat.1 hb.descriptors).2
  have hdescriptors := h.descriptors
  omega

/-- A visit that counts nothing. -/
theorem Counted.neutral (h : Counted stat budget vs w) (hentered : v.entered? = none)
    (hfiled : v.filed? = none) (hopened : v.opened? = none) (hcount : v.count = 0)
    (hentry : v.entry? stat = none) :
    Counted stat budget (vs ++ [v]) { w with tree := { w.tree with
      directories := w.tree.directories ++ v.left?.toList } } := by
  have hentered : entered (vs ++ [v]) = entered vs := by
    simp [entered, hentered]
  have hfiled : filed (vs ++ [v]) = filed vs := by simp [filed, hfiled]
  have hopened : opened (vs ++ [v]) = opened vs := by simp [opened, hopened]
  refine ⟨?_, ?_, ?_, ?_, ?_, ?_, ?_, ?_⟩
  · rw [hentered, hfiled]
    exact h.allocated
  · rw [hfiled]
    exact h.logical
  · rw [counted_append, counted, counted, List.map_singleton, List.sum_singleton, hcount]
    exact h.remaining
  · rw [hopened]
    exact h.descriptors
  · rw [hfiled]
    exact h.links
  · rw [hfiled]
    exact h.size
  · rw [filterMap_concat, hentry, Option.toList_none, List.append_nil]
    exact h.files
  · rw [filterMap_concat, h.directories]

/-- A visit that only looks. -/
theorem Counted.look (h : Counted stat budget vs w) (hentered : v.entered? = none)
    (hfiled : v.filed? = none) (hopened : v.opened? = none) (hcount : v.count = 0)
    (hentry : v.entry? stat = none) (hleft : v.left? = none) :
    Counted stat budget (vs ++ [v]) w := by
  have hw := h.neutral hentered hfiled hopened hcount hentry
  rwa [hleft, Option.toList_none, List.append_nil] at hw

/-- Opening a directory keeps the account. -/
theorem Counted.openChild {id : FileId} (h : Counted stat budget vs w) (hle : 1 ≤ w.descriptors) :
    Counted stat budget (vs ++ [.openChild id]) { w with descriptors := w.descriptors - 1 } := by
  have hentered : entered (vs ++ [.openChild id]) = entered vs := by
    simp [entered, Visit.entered?]
  have hfiled : filed (vs ++ [.openChild id]) = filed vs := by simp [filed, Visit.filed?]
  have hopened : (opened (vs ++ [.openChild id])).length = (opened vs).length + 1 := by
    simp [opened, Visit.opened?]
  have hcounted : counted (vs ++ [.openChild id]) = counted vs := by
    simp [counted, Visit.count]
  refine ⟨?_, ?_, ?_, ?_, ?_, ?_, ?_, ?_⟩
  · rw [hentered, hfiled]
    exact h.allocated
  · rw [hfiled]
    exact h.logical
  · rw [hcounted]
    exact h.remaining
  · have hdescriptors := h.descriptors
    rw [hopened]
    show w.descriptors - 1 + ((opened vs).length + 1) = budget.descriptors
    omega
  · rw [hfiled]
    exact h.links
  · rw [hfiled]
    exact h.size
  · rw [filterMap_concat]
    exact h.files.trans (List.append_nil _).symm
  · rw [filterMap_concat]
    exact h.directories.trans (List.append_nil _).symm

theorem Counted.enter {depth count : Nat} {id : FileId} (h : Counted stat budget vs w)
    (hcount : count ≤ w.remaining) :
    Counted stat budget (vs ++ [.enter depth id count]) { w with
      tree := { w.tree with allocated := w.tree.allocated + allocation stat id }
      remaining := w.remaining - count } := by
  have hentered : entered (vs ++ [.enter depth id count]) = entered vs ++ [id] := by
    simp [entered, Visit.entered?]
  have hfiled : filed (vs ++ [.enter depth id count]) = filed vs := by
    simp [filed, Visit.filed?]
  have hopened : opened (vs ++ [.enter depth id count]) = opened vs := by
    simp [opened, Visit.opened?]
  have hcounted : counted (vs ++ [.enter depth id count]) = counted vs + count := by
    simp [counted, Visit.count]
  refine ⟨?_, ?_, ?_, ?_, ?_, ?_, ?_, ?_⟩
  · rw [hentered, hfiled, allocatedOf_enter, ← h.allocated]
  · rw [hfiled]
    exact h.logical
  · have hremaining := h.remaining
    rw [hcounted]
    show w.remaining - count + (counted vs + count) = budget.remaining
    omega
  · rw [hopened]
    exact h.descriptors
  · rw [hfiled]
    exact h.links
  · rw [hfiled]
    exact h.size
  · rw [filterMap_concat]
    exact h.files.trans (List.append_nil _).symm
  · rw [filterMap_concat]
    exact h.directories.trans (List.append_nil _).symm

theorem Counted.file {path : List String} {name : String} {id : FileId}
    (h : Counted stat budget vs w) :
    Counted stat budget (vs ++ [.file path name id]) { w with
      tree := { w.tree with
        files := w.tree.files ++ [⟨path, name, id, stat id⟩]
        allocated := w.tree.allocated + first (allocation stat id) ((filed vs).count id)
        logical := w.tree.logical + first (stat id).size ((filed vs).count id) }
      links := w.links.insert id ((filed vs).count id + 1, (stat id).nlink) } := by
  have hentered : entered (vs ++ [.file path name id]) = entered vs := by
    simp [entered, Visit.entered?]
  have hfiled : filed (vs ++ [.file path name id]) = filed vs ++ [id] := by
    simp [filed, Visit.filed?]
  have hopened : opened (vs ++ [.file path name id]) = opened vs := by
    simp [opened, Visit.opened?]
  have hcounted : counted (vs ++ [.file path name id]) = counted vs := by
    simp [counted, Visit.count]
  refine ⟨?_, ?_, ?_, ?_, ?_, ?_, ?_, ?_⟩
  · rw [hentered, hfiled, allocatedOf_file, ← h.allocated]
    exact congrArg (w.tree.allocated + ·) (first_count ..)
  · rw [hfiled, logicalOf_file, ← h.logical]
    exact congrArg (w.tree.logical + ·) (first_count ..)
  · rw [hcounted]
    exact h.remaining
  · rw [hopened]
    exact h.descriptors
  · intro id'
    rw [hfiled, Std.TreeMap.getElem?_insert]
    by_cases heq : id = id'
    · subst heq
      simp [List.count_append]
    · rw [if_neg (by simpa using heq), h.links]
      simp [List.count_append, Ne.symm heq, heq]
  · rw [hfiled, Std.TreeMap.size_insert]
    have hmem : w.links.contains id = true ↔ id ∈ filed vs := by
      rw [Std.TreeMap.contains_eq_isSome_getElem?, h.links]
      split <;> simp [*]
    by_cases hid : id ∈ filed vs
    · rw [if_pos (hmem.2 hid), toFinset_concat_of_mem hid]
      exact h.size
    · rw [if_neg fun hw => hid (hmem.1 hw), toFinset_concat,
        Finset.card_insert_of_notMem (by simpa using hid), h.size]
  · rw [filterMap_concat, ← h.files]
    rfl
  · rw [filterMap_concat]
    exact h.directories.trans (List.append_nil _).symm

/-- A check that succeeds leaves the walk as it is. -/
theorem map_eq_ok {x : Except OperationError Unit} {w' : Walk} :
    (x.map fun _ => w) = .ok w' ↔ x = .ok () ∧ w' = w := by
  cases x with
  | error e => exact ⟨nofun, nofun⟩
  | ok u => exact ⟨fun h => ⟨rfl, (Except.ok.inj h).symm⟩, fun h => congrArg Except.ok h.2.symm⟩

/-- **What a visit does.** -/
theorem Counted.visit (h : Counted stat budget vs w) (hb : Bounded stat budget vs) :
    (∀ w', w.visit stat readable device v = .ok w' →
      v.Allowed readable device ∧ Bounded stat budget (vs ++ [v]) ∧
        Counted stat budget (vs ++ [v]) w') ∧
      (v.Allowed readable device → Bounded stat budget (vs ++ [v]) →
        ∃ w', w.visit stat readable device v = .ok w') := by
  have hallocated : w.tree.allocated < UInt64.size := h.allocated ▸ hb.allocated
  have hlogical : w.tree.logical < UInt64.size := h.logical ▸ hb.logical
  cases v with
  | device id =>
      have hw : Counted stat budget (vs ++ [.device id]) w := h.look rfl rfl rfl rfl rfl rfl
      rw [Walk.visit]
      split
      · next hid => exact ⟨nofun, fun hallowed => absurd hallowed hid⟩
      · next hid =>
          refine ⟨fun w' h' => ?_, fun _ _ => ⟨w, rfl⟩⟩
          obtain rfl := Except.ok.inj h'
          exact ⟨not_not.1 hid, hw.bounded hb h (Nat.zero_le _) hallocated hlogical, hw⟩
  | openChild id =>
      refine ⟨fun w' h' => ?_, fun hread hbounded => ?_⟩
      · obtain ⟨hle, hread, rfl⟩ := openChild_eq_ok.1 h'
        have hw : Counted stat budget (vs ++ [.openChild id]) _ := h.openChild (by omega)
        exact ⟨hread, hw.bounded hb h hle hallocated hlogical, hw⟩
      · exact ⟨_, openChild_eq_ok.2 ⟨h.needs hbounded, hread, rfl⟩⟩
  | enter depth id count =>
      refine ⟨fun w' h' => ?_, fun hallowed hbounded => ?_⟩
      · obtain ⟨hallowed, hlt, hle, hcount, rfl⟩ := enter_eq_ok.1 h'
        have hw : Counted stat budget (vs ++ [.enter depth id count]) _ := h.enter hcount
        exact ⟨hallowed, hw.bounded hb h hle hlt hlogical, hw⟩
      · have hlt := hbounded.allocated
        have hcount := hbounded.count
        have hremaining := h.remaining
        rw [counted_append] at hcount
        simp only [entered, filed, filterMap_concat, Visit.entered?, Visit.filed?,
          Option.toList_some, Option.toList_none, List.append_nil] at hlt
        rw [allocatedOf_enter] at hlt
        have hone : counted [.enter depth id count] = count := by simp [counted, Visit.count]
        exact ⟨_, enter_eq_ok.2
          ⟨hallowed, h.allocated ▸ hlt, h.needs hbounded, by omega, rfl⟩⟩
  | regular id =>
      have hw : Counted stat budget (vs ++ [.regular id]) w := h.look rfl rfl rfl rfl rfl rfl
      rw [Walk.visit]
      refine ⟨fun w' h' => ?_, fun hread hbounded => ?_⟩
      · obtain ⟨hok, rfl⟩ := map_eq_ok.1 h'
        obtain ⟨hle, hread⟩ := regular_eq_ok.1 hok
        exact ⟨hread, hw.bounded hb h hle hallocated hlogical, hw⟩
      · exact ⟨w, map_eq_ok.2 ⟨regular_eq_ok.2 ⟨h.needs hbounded, hread⟩, rfl⟩⟩
  | file path name id =>
      have hrecord := h.record id
      refine ⟨fun w' h' => ?_, fun _ hbounded => ?_⟩
      · obtain ⟨hlt, hlt', rfl⟩ := (file_eq_ok hrecord hallocated hlogical).1 h'
        exact ⟨trivial, h.file.bounded hb h (Nat.zero_le _) hlt hlt', h.file⟩
      · have hw : Counted stat budget (vs ++ [.file path name id]) _ := h.file
        refine ⟨_, (file_eq_ok hrecord hallocated hlogical).2 ⟨?_, ?_, rfl⟩⟩
        · exact lt_of_eq_of_lt hw.allocated hbounded.allocated
        · exact lt_of_eq_of_lt hw.logical hbounded.logical
  | verify =>
      have hw : Counted stat budget (vs ++ [.verify]) w := h.look rfl rfl rfl rfl rfl rfl
      rw [Walk.visit]
      refine ⟨fun w' h' => ?_, fun _ hbounded => ?_⟩
      · obtain ⟨hok, rfl⟩ := map_eq_ok.1 h'
        exact ⟨trivial, hw.bounded hb h (verify_eq_ok.1 hok) hallocated hlogical, hw⟩
      · exact ⟨w, map_eq_ok.2 ⟨verify_eq_ok.2 (h.needs hbounded), rfl⟩⟩
  | leave path name =>
      have hw : Counted stat budget (vs ++ [.leave path name])
          { w with tree := { w.tree with directories := w.tree.directories ++ [(path, name)] } } :=
        h.neutral rfl rfl rfl rfl rfl
      refine ⟨fun w' h' => ?_, fun _ _ => ⟨_, rfl⟩⟩
      obtain rfl := Except.ok.inj h'
      exact ⟨trivial, hw.bounded hb h (Nat.zero_le _) hallocated hlogical, hw⟩
  | refused => exact ⟨nofun, nofun⟩

/-- More directories and files allocate no less. -/
theorem allocatedOf_le {directories directories' files files' : List FileId} :
    allocatedOf stat directories files ≤
      allocatedOf stat (directories ++ directories') (files ++ files') := by
  refine Nat.add_le_add ?_ ?_
  · rw [List.map_append, List.sum_append]
    exact Nat.le_add_right _ _
  · refine Finset.sum_le_sum_of_subset fun id hid => ?_
    rw [List.mem_toFinset] at hid ⊢
    exact List.mem_append_left _ hid

/-- More files are no smaller. -/
theorem logicalOf_le {files files' : List FileId} :
    logicalOf stat files ≤ logicalOf stat (files ++ files') := by
  refine Finset.sum_le_sum_of_subset fun id hid => ?_
  rw [List.mem_toFinset] at hid ⊢
  exact List.mem_append_left _ hid

/-- What is bounded in the end was bounded on the way. -/
theorem Bounded.of_append {vs' : List Visit} (h : Bounded stat budget (vs ++ vs')) :
    Bounded stat budget vs := by
  have hallocated := h.allocated
  have hlogical := h.logical
  have hcount := h.count
  rw [entered_append, filed_append] at hallocated
  rw [filed_append] at hlogical
  rw [counted_append] at hcount
  exact ⟨lt_of_le_of_lt allocatedOf_le hallocated, lt_of_le_of_lt logicalOf_le hlogical,
    Nat.le_of_add_right_le hcount, h.descriptors.of_append⟩

/-- **A fold that keeps its sums succeeds when every visit is allowed and they stay
within bounds.** -/
theorem foldlM_visit {w₀ : Walk} (h : Counted stat budget [] w₀)
    (hb : Bounded stat budget []) (vs : List Visit) :
    (∀ w, vs.foldlM (fun w v => w.visit stat readable device v) w₀ = .ok w →
      (∀ v ∈ vs, v.Allowed readable device) ∧ Bounded stat budget vs ∧
        Counted stat budget vs w) ∧
      ((∀ v ∈ vs, v.Allowed readable device) → Bounded stat budget vs →
        ∃ w, vs.foldlM (fun w v => w.visit stat readable device v) w₀ = .ok w) := by
  induction vs using List.reverseRecOn with
  | nil =>
      refine ⟨fun w hw => ?_, fun _ _ => ⟨w₀, rfl⟩⟩
      obtain rfl := Except.ok.inj hw
      exact ⟨nofun, hb, h⟩
  | append_singleton vs v ih =>
      obtain ⟨hsound, hcomplete⟩ := ih
      constructor
      · intro w' hw'
        rw [List.foldlM_append] at hw'
        obtain ⟨w, hw, hv⟩ := Validation.bind_eq_ok.1 hw'
        obtain ⟨hallowed, hbounded, hcounted⟩ := hsound w hw
        rw [List.foldlM_cons] at hv
        obtain ⟨w₁, hw₁, hnil⟩ := Validation.bind_eq_ok.1 hv
        obtain rfl := Except.ok.inj hnil
        obtain ⟨hlast, hbounded', hcounted'⟩ := (hcounted.visit hbounded).1 _ hw₁
        refine ⟨fun v' hv' => ?_, hbounded', hcounted'⟩
        rcases List.mem_append.1 hv' with hv' | hv'
        · exact hallowed v' hv'
        · rwa [List.mem_singleton.1 hv']
      · intro hallowed hbounded
        have hpast := hbounded.of_append
        obtain ⟨w, hw⟩ := hcomplete (fun v' hv' => hallowed v' (List.mem_append_left _ hv')) hpast
        obtain ⟨-, -, hcounted⟩ := hsound w hw
        obtain ⟨w', hw'⟩ := (hcounted.visit hpast).2
          (hallowed v (List.mem_append_right _ List.mem_cons_self)) hbounded
        refine ⟨w', ?_⟩
        rw [List.foldlM_append, hw]
        show List.foldlM _ w [v] = Except.ok w'
        rw [List.foldlM_cons, hw']
        rfl

/-- A link table tells of an inode that has links elsewhere. -/
theorem Counted.any_links (h : Counted stat budget vs w) :
    (w.links.toList.any fun link => link.2.1 != link.2.2) = true ↔
      ¬∀ id ∈ filed vs, (filed vs).count id = (stat id).nlink := by
  rw [List.any_eq_true]
  constructor
  · rintro ⟨⟨id, n, nlink⟩, hmem, hne⟩ hall
    rw [Std.TreeMap.mem_toList_iff_getElem?_eq_some, h.links] at hmem
    split at hmem
    · next hid =>
        obtain ⟨rfl, rfl⟩ := Prod.mk.inj (Option.some.inj hmem)
        simp [hall id hid] at hne
    · cases hmem
  · intro hnot
    push Not at hnot
    obtain ⟨id, hid, hne⟩ := hnot
    refine ⟨(id, (filed vs).count id, (stat id).nlink), ?_, by simpa using hne⟩
    rw [Std.TreeMap.mem_toList_iff_getElem?_eq_some, h.links, if_pos hid]

end Sums

/-! ### The visits of a tree -/

/-- Visits are read as the entries are that they are made for. -/
structure Reads (f : Visit → Option FileId) (g : Node → Option FileId) : Prop where
  file : ∀ path name id, f (.file path name id) = g (.file name id)
  directory : ∀ depth name id entries,
    [Visit.openChild id, .enter depth id (List.length entries)].filterMap f =
      [Node.directory name id entries].filterMap g
  checks : ∀ id, f (.device id) = none ∧ f (.regular id) = none
  leaves : f .verify = none ∧ ∀ path name, f (.leave path name) = none
  refused : f .refused = none ∧ ∀ name id,
    g (.special name id) = none ∧ g (.mountPoint name id) = none

section Reads

variable {f : Visit → Option FileId} {g : Node → Option FileId}

mutual

/-- What the visits of a node contribute is read off its nodes. -/
theorem Node.filterMap_visits (h : Reads f g) (depth : Nat) (path : List String) :
    ∀ node : Node, (node.visits depth path).filterMap f = node.all.filterMap g
  | .file name id => by
      rw [Node.visits, Node.all, List.filterMap_cons_none (h.checks id).1,
        List.filterMap_cons_none (h.checks id).2, List.filterMap_cons, List.filterMap_cons, h.file]
      rfl
  | .directory name id entries => by
      have ih := filterMap_visits h (depth + 1) (path ++ [name]) entries
      have hlast : [Visit.verify, .leave path name].filterMap f = [] := by
        rw [List.filterMap_cons_none h.leaves.1, List.filterMap_cons_none (h.leaves.2 path name)]
        rfl
      rw [Node.visits, Node.all, List.filterMap_cons_none (h.checks id).1]
      show ([Visit.openChild id, .enter (depth + 1) id entries.length] ++
          (visits (depth + 1) (path ++ [name]) entries ++ [Visit.verify, .leave path name])).filterMap f =
        ([Node.directory name id entries] ++ below entries).filterMap g
      rw [List.filterMap_append, List.filterMap_append, List.filterMap_append, hlast, ih,
        h.directory, List.append_nil]
  | .special name id => by
      rw [Node.visits, Node.all, List.filterMap_cons_none h.refused.1,
        List.filterMap_cons_none (h.refused.2 name id).1]
      rfl
  | .mountPoint name id => by
      rw [Node.visits, Node.all, List.filterMap_cons_none h.refused.1,
        List.filterMap_cons_none (h.refused.2 name id).2]
      rfl

/-- The same, for the entries of a directory. -/
theorem filterMap_visits (h : Reads f g) (depth : Nat) (path : List String) :
    ∀ entries : List Node, (visits depth path entries).filterMap f = (below entries).filterMap g
  | [] => by
      rw [visits, below]
      rfl
  | node :: entries => by
      rw [visits, below, List.filterMap_append, List.filterMap_append,
        node.filterMap_visits h depth path, filterMap_visits h depth path entries]

end

end Reads

theorem reads_entered : Reads Visit.entered? Node.directoryId? :=
  ⟨fun _ _ _ => rfl, fun _ _ _ _ => rfl, fun _ => ⟨rfl, rfl⟩, ⟨rfl, fun _ _ => rfl⟩,
    ⟨rfl, fun _ _ => ⟨rfl, rfl⟩⟩⟩

theorem reads_filed : Reads Visit.filed? Node.fileId? :=
  ⟨fun _ _ _ => rfl, fun _ _ _ _ => rfl, fun _ => ⟨rfl, rfl⟩, ⟨rfl, fun _ _ => rfl⟩,
    ⟨rfl, fun _ _ => ⟨rfl, rfl⟩⟩⟩

theorem reads_opened : Reads Visit.opened? Node.directoryId? :=
  ⟨fun _ _ _ => rfl, fun _ _ _ _ => rfl, fun _ => ⟨rfl, rfl⟩, ⟨rfl, fun _ _ => rfl⟩,
    ⟨rfl, fun _ _ => ⟨rfl, rfl⟩⟩⟩

mutual

/-- Every node below a node is counted once. -/
theorem Node.counted_visits (depth : Nat) (path : List String) : ∀ node : Node,
    counted (node.visits depth path) + 1 = node.all.length
  | .file .. | .special .. | .mountPoint .. => by
      rw [Node.visits, Node.all]
      rfl
  | .directory name id entries => by
      have ih := counted_visits (depth + 1) (path ++ [name]) entries
      have hvisits : counted (Node.visits depth path (.directory name id entries)) =
          entries.length + counted (visits (depth + 1) (path ++ [name]) entries) := by
        rw [Node.visits]
        simp [counted, Visit.count]
      rw [hvisits, Node.all, List.length_cons]
      omega

/-- The same, for the entries of a directory. -/
theorem counted_visits (depth : Nat) (path : List String) : ∀ entries : List Node,
    counted (visits depth path entries) + entries.length = (below entries).length
  | [] => by
      rw [visits, below]
      rfl
  | node :: entries => by
      have hnode := node.counted_visits depth path
      have ih := counted_visits depth path entries
      rw [visits, counted_append, below, List.length_append, List.length_cons]
      omega

end

/-- An entry that a scan may meet. -/
structure Node.Regular (readable : FileId → Bool) (device : Nat) (node : Node) : Prop where
  device : node.id.device = device
  readable : readable node.id = true
  regular : node.isSpecial = false
  mounts : node.isMountPoint = false

section Allowed

variable {readable : FileId → Bool} {device : Nat}

mutual

/-- The visits of a node are allowed when its nodes are regular and not too deep. -/
theorem Node.allowed_visits {depth : Nat} (hdepth : depth ≤ 64) (path : List String) :
    ∀ node : Node, (∀ v ∈ node.visits depth path, v.Allowed readable device) ↔
      (∀ node' ∈ node.all, node'.Regular readable device) ∧ depth + node.levels ≤ 64
  | .file name id => by
      rw [Node.visits, Node.all, Node.levels, List.forall_mem_singleton, List.forall_mem_cons,
        List.forall_mem_cons, List.forall_mem_singleton]
      exact ⟨fun h => ⟨⟨h.1, h.2.1, rfl, rfl⟩, hdepth⟩,
        fun h => ⟨h.1.device, h.1.readable, trivial⟩⟩
  | .directory name id entries => by
      rw [Node.visits, Node.all, Node.levels, List.forall_mem_cons, List.forall_mem_cons,
        List.forall_mem_cons, List.forall_mem_cons, List.forall_mem_append, List.forall_mem_cons,
        List.forall_mem_singleton]
      by_cases hnext : depth + 1 ≤ 64
      · have ih := allowed_visits hnext (path ++ [name]) entries
        constructor
        · rintro ⟨hid, hread, -, hentries, -⟩
          obtain ⟨hregular, hlevels⟩ := ih.1 hentries
          exact ⟨⟨⟨hid, hread, rfl, rfl⟩, hregular⟩, by omega⟩
        · rintro ⟨⟨hid, hregular⟩, hlevels⟩
          exact ⟨hid.device, hid.readable, ⟨hnext, hid.readable⟩, ih.2 ⟨hregular, by omega⟩,
            trivial, trivial⟩
      · exact ⟨fun h => absurd h.2.2.1.1 hnext, fun h => absurd h.2 (by omega)⟩
  | .special name id => by
      rw [Node.visits, Node.all, List.forall_mem_singleton, List.forall_mem_singleton]
      exact ⟨False.elim, fun h => Bool.noConfusion h.1.regular⟩
  | .mountPoint name id => by
      rw [Node.visits, Node.all, List.forall_mem_singleton, List.forall_mem_singleton]
      exact ⟨False.elim, fun h => Bool.noConfusion h.1.mounts⟩

/-- The same, for the entries of a directory. -/
theorem allowed_visits {depth : Nat} (hdepth : depth ≤ 64) (path : List String) :
    ∀ entries : List Node, (∀ v ∈ visits depth path entries, v.Allowed readable device) ↔
      (∀ node ∈ below entries, node.Regular readable device) ∧ depth + levels entries ≤ 64
  | [] => by
      rw [visits, below, levels]
      exact ⟨fun _ => ⟨nofun, hdepth⟩, fun _ => nofun⟩
  | node :: entries => by
      rw [visits, below, levels, List.forall_mem_append, List.forall_mem_append,
        node.allowed_visits hdepth path, allowed_visits hdepth path entries]
      constructor
      · rintro ⟨⟨hnode, hlevel⟩, hentries, hlevels⟩
        exact ⟨⟨hnode, hentries⟩, by omega⟩
      · rintro ⟨⟨hnode, hentries⟩, hlevels⟩
        exact ⟨⟨hnode, by omega⟩, hentries, by omega⟩

end

end Allowed

/-! ### The scan -/

section Scan

variable {stat : FileId → Stat} {access : Access}

/-- The visits of a scan. -/
def scanVisits (id : FileId) (entries : List Node) : List Visit :=
  .enter 0 id entries.length :: (visits 0 [] entries ++ [.verify])

/-- A scan enters the root and every directory below it. -/
theorem entered_scanVisits (id : FileId) (entries : List Node) :
    entered (scanVisits id entries) = id :: directoryIds entries := by
  rw [directoryIds, ← filterMap_visits reads_entered 0 [] entries]
  simp [entered, scanVisits, Visit.entered?]

/-- It counts every file below it. -/
theorem filed_scanVisits (id : FileId) (entries : List Node) :
    filed (scanVisits id entries) = fileIds entries := by
  rw [fileIds, ← filterMap_visits reads_filed 0 [] entries]
  simp [filed, scanVisits, List.filterMap_cons, Visit.filed?]

/-- It opens every directory below it. -/
theorem opened_scanVisits (id : FileId) (entries : List Node) :
    opened (scanVisits id entries) = directoryIds entries := by
  rw [directoryIds, ← filterMap_visits reads_opened 0 [] entries]
  simp [opened, scanVisits, List.filterMap_cons, Visit.opened?]

/-- It counts every entry below it. -/
theorem counted_scanVisits (id : FileId) (entries : List Node) :
    counted (scanVisits id entries) = (below entries).length := by
  rw [← counted_visits 0 [] entries]
  simp [counted, scanVisits, Visit.count, Nat.add_comm]

/-- No visit needs more than two descriptors at once. -/
theorem Visit.needs_le (v : Visit) : v.needs ≤ 2 := by
  cases v <;> simp [Visit.needs]

/-- A scan can be afforded when two descriptors are left once every directory is open. -/
theorem affordable_scanVisits {descriptors : Nat} (id : FileId) (entries : List Node) :
    Affordable descriptors (scanVisits id entries) ↔
      (directoryIds entries).length + 2 ≤ descriptors := by
  rw [← opened_scanVisits id entries]
  constructor
  · intro h
    have hlast := h (.enter 0 id entries.length :: visits 0 [] entries) .verify [] rfl
    have hopened : opened (scanVisits id entries) =
        opened (.enter 0 id entries.length :: visits 0 [] entries) := by
      simp [opened, scanVisits, List.filterMap_cons, Visit.opened?]
    rw [hopened]
    exact hlast
  · intro h past v rest heq
    have hle := v.needs_le
    rw [heq, opened_append, List.length_append] at h
    omega

/-- A scan before its first visit. -/
def Walk.start (budget : Budget) : Walk :=
  ⟨⟨[], [], 0, 0, 0⟩, budget.remaining, budget.descriptors, ∅⟩

/-- The walk starts with nothing counted. -/
theorem counted_start (budget : Budget) : Counted stat budget [] (Walk.start budget) :=
  ⟨rfl, rfl, rfl, rfl, fun _ => Std.TreeMap.getElem?_emptyc, rfl, rfl, rfl⟩

/-- Nothing visited stays within any bound. -/
theorem bounded_nil (budget : Budget) : Bounded stat budget [] :=
  have hpos : 0 < UInt64.size := by decide
  ⟨hpos, hpos, Nat.zero_le _, affordable_nil⟩

/-- What a scan that succeeds has counted. -/
theorem scan_eq_ok {device : Nat} {id : FileId} {entries : List Node} {remaining rest : Nat}
    {tree : Tree} :
    scan stat device access id entries remaining = .ok (tree, rest) ↔ ∃ w : Walk,
      (scanVisits id entries).foldlM (fun w v => w.visit stat access.readable device v)
        (Walk.start ⟨remaining, access.descriptors⟩) = .ok w ∧
      (w.links.toList.any fun link => link.2.1 != link.2.2) = false ∧
      tree = { w.tree with uniqueFiles := w.links.size } ∧ rest = w.remaining := by
  rw [scan, scanVisits, List.foldlM_cons, Walk.visit]
  simp only [walkAll_eq, Validation.bind_eq_ok, List.foldlM_append]
  constructor
  · rintro ⟨w₀, hw₀, w, hw, ⟨⟩, hverify, hlast⟩
    obtain ⟨hlinks, hlast⟩ := Validation.guarded_eq_ok.1 hlast
    obtain ⟨rfl, rfl⟩ := Prod.mk.inj (Except.ok.inj hlast)
    refine ⟨w, ⟨w₀, hw₀, w, hw, ?_⟩, Bool.eq_false_iff.2 hlinks, rfl, rfl⟩
    rw [foldlM_visit_check (x := w.verify) rfl, hverify]
    rfl
  · rintro ⟨w, ⟨w₀, hw₀, w₁, hw, hverify⟩, hlinks, rfl, rfl⟩
    rw [foldlM_visit_check (x := w₁.verify) rfl] at hverify
    obtain ⟨⟨⟩, hchecked, hnil⟩ := Validation.bind_eq_ok.1 hverify
    obtain rfl : w₁ = w := Except.ok.inj hnil
    exact ⟨w₀, hw₀, w₁, hw, (), hchecked,
      Validation.guarded_eq_ok.2 ⟨Bool.eq_false_iff.1 hlinks, rfl⟩⟩

/-- The visits of a scan are allowed and bounded when the tree can be counted and opened,
but for the links. -/
theorem countable_iff {id : FileId} {entries : List Node} {remaining : Nat} :
    Countable stat id entries remaining ∧ Openable access id entries ↔
      (∀ v ∈ scanVisits id entries, v.Allowed access.readable id.device) ∧
        Bounded stat ⟨remaining, access.descriptors⟩ (scanVisits id entries) ∧
        ∀ file ∈ fileIds entries, (fileIds entries).count file = (stat file).nlink := by
  have hallowed : (∀ v ∈ scanVisits id entries, v.Allowed access.readable id.device) ↔
      access.readable id = true ∧
        (∀ node ∈ below entries, node.Regular access.readable id.device) ∧
          levels entries ≤ 64 := by
    rw [scanVisits, List.forall_mem_cons, List.forall_mem_append, List.forall_mem_singleton,
      allowed_visits (Nat.zero_le _), Nat.zero_add]
    exact ⟨fun h => ⟨h.1.2, h.2.1⟩, fun h => ⟨⟨Nat.zero_le _, h.1⟩, h.2, trivial⟩⟩
  have hbounded : Bounded stat ⟨remaining, access.descriptors⟩ (scanVisits id entries) ↔
      allocatedOf stat (id :: directoryIds entries) (fileIds entries) < UInt64.size ∧
        logicalOf stat (fileIds entries) < UInt64.size ∧ (below entries).length ≤ remaining ∧
        (directoryIds entries).length + 2 ≤ access.descriptors := by
    rw [← affordable_scanVisits id entries, ← entered_scanVisits, ← filed_scanVisits id entries,
      ← counted_scanVisits id entries]
    exact ⟨fun h => ⟨h.allocated, h.logical, h.count, h.descriptors⟩,
      fun h => ⟨h.1, h.2.1, h.2.2.1, h.2.2.2⟩⟩
  rw [hallowed, hbounded]
  constructor
  · rintro ⟨h, ho⟩
    exact ⟨⟨ho.root, fun node hn => ⟨h.device node hn, ho.readable node hn, h.regular node hn,
      ho.mounts node hn⟩, h.depth⟩, ⟨h.allocated, h.logical, h.count, ho.descriptors⟩, h.links⟩
  · rintro ⟨⟨hroot, hregular, hdepth⟩, ⟨hallocated, hlogical, hcount, hdescriptors⟩, hlinks⟩
    exact ⟨⟨fun node hn => (hregular node hn).device, hdepth, hcount,
        fun node hn => (hregular node hn).regular, hlinks, hallocated, hlogical⟩,
      ⟨hroot, fun node hn => (hregular node hn).readable,
        fun node hn => (hregular node hn).mounts, hdescriptors⟩⟩

/-- What a scan that succeeds returns. -/
structure Scanned (stat : FileId → Stat) (access : Access) (id : FileId) (entries : List Node)
    (remaining : Nat) (tree : Tree) (rest : Nat) : Prop where
  countable : Countable stat id entries remaining
  openable : Openable access id entries
  allocated : tree.allocated = allocatedOf stat (id :: directoryIds entries) (fileIds entries)
  logical : tree.logical = logicalOf stat (fileIds entries)
  uniqueFiles : tree.uniqueFiles = (fileIds entries).toFinset.card
  rest : rest + (below entries).length = remaining
  files : tree.files = (visits 0 [] entries).filterMap (Visit.entry? stat)
  directories : tree.directories = (visits 0 [] entries).filterMap Visit.left?

/-- **Soundness.** A scan that succeeds has counted the tree. -/
theorem scanned_of_scan {id : FileId} {entries : List Node} {remaining rest : Nat} {tree : Tree}
    (h : scan stat id.device access id entries remaining = .ok (tree, rest)) :
    Scanned stat access id entries remaining tree rest := by
  obtain ⟨w, hw, hlinks, rfl, rfl⟩ := scan_eq_ok.1 h
  obtain ⟨hallowed, hbounded, hcounted⟩ :=
    (foldlM_visit (counted_start _) (bounded_nil _) _).1 w hw
  have hlinked : ∀ file ∈ fileIds entries, (fileIds entries).count file = (stat file).nlink := by
    rw [← filed_scanVisits id entries]
    exact not_not.1 fun hnot => Bool.eq_false_iff.1 hlinks (hcounted.any_links.2 hnot)
  obtain ⟨hcountable, hopenable⟩ := countable_iff.2 ⟨hallowed, hbounded, hlinked⟩
  have hallocated := hcounted.allocated
  have hlogical := hcounted.logical
  have hsize := hcounted.size
  have hremaining := hcounted.remaining
  rw [filed_scanVisits] at hallocated hlogical hsize
  rw [entered_scanVisits] at hallocated
  rw [counted_scanVisits] at hremaining
  refine ⟨hcountable, hopenable, hallocated, hlogical, hsize, hremaining, ?_, ?_⟩
  · refine hcounted.files.trans ?_
    simp [scanVisits, List.filterMap_cons, Visit.entry?]
  · refine hcounted.directories.trans ?_
    simp [scanVisits, List.filterMap_cons, Visit.left?]

/-- **Completeness.** A tree that can be counted and opened is scanned. -/
theorem exists_scan {id : FileId} {entries : List Node} {remaining : Nat}
    (h : Countable stat id entries remaining ∧ Openable access id entries) :
    ∃ tree rest, scan stat id.device access id entries remaining = .ok (tree, rest) := by
  obtain ⟨hallowed, hbounded, hlinks⟩ := countable_iff.1 h
  obtain ⟨hsound, hcomplete⟩ :=
    foldlM_visit (counted_start _) (bounded_nil _) (scanVisits id entries)
  obtain ⟨w, hw⟩ := hcomplete hallowed hbounded
  obtain ⟨-, -, hcounted⟩ := hsound w hw
  refine ⟨_, _, scan_eq_ok.2 ⟨w, hw, Bool.eq_false_iff.2 fun hany => ?_, rfl, rfl⟩⟩
  exact hcounted.any_links.1 hany ((filed_scanVisits id entries).symm ▸ hlinks)

end Scan

/-- **A scan counts every file once.**  It succeeds exactly on the trees that can be
counted and opened. -/
theorem tree_scan_counts_once (stat : FileId → Stat) (access : Access) (id : FileId)
    (entries : List Node) (remaining : Nat) :
    ((∃ tree rest, scan stat id.device access id entries remaining = .ok (tree, rest)) ↔
      Countable stat id entries remaining ∧ Openable access id entries) ∧
    ∀ tree rest, scan stat id.device access id entries remaining = .ok (tree, rest) →
      tree.allocated = ((id :: directoryIds entries).map (allocation stat)).sum +
          ∑ file ∈ (fileIds entries).toFinset, allocation stat file ∧
        tree.logical = ∑ file ∈ (fileIds entries).toFinset, (stat file).size ∧
        tree.uniqueFiles = (fileIds entries).toFinset.card := by
  refine ⟨⟨fun ⟨tree, rest, h⟩ => ?_, exists_scan⟩, ?_⟩
  · have hscanned := scanned_of_scan h
    exact ⟨hscanned.countable, hscanned.openable⟩
  · intro tree rest h
    have hscanned := scanned_of_scan h
    exact ⟨hscanned.allocated, hscanned.logical, hscanned.uniqueFiles⟩

/-- A file with a link next to a directory and one in it. -/
def linkedTwice : List Node :=
  [.file "a" ⟨1, 3⟩, .directory "d" ⟨1, 2⟩ [.file "b" ⟨1, 3⟩]]

def statTwice (id : FileId) : Stat := ⟨0o100644, if id.inode = 3 then 2 else 1, 10, 8, 0⟩

theorem tree_scan_counts_once_linked : ∃ tree rest,
    scan statTwice 1 ⟨fun _ => true, 3⟩ ⟨1, 1⟩ linkedTwice 5 = .ok (tree, rest) ∧
      tree.allocated = 3 * 4096 ∧ tree.logical = 10 ∧ tree.uniqueFiles = 1 := by
  have hscan : (scan statTwice 1 ⟨fun _ => true, 3⟩ ⟨1, 1⟩ linkedTwice 5).toOption.isSome = true := by
    decide +kernel
  cases heq : scan statTwice 1 ⟨fun _ => true, 3⟩ ⟨1, 1⟩ linkedTwice 5 with
  | error error =>
      rw [heq] at hscan
      cases hscan
  | ok result =>
      obtain ⟨tree, rest⟩ := result
      obtain ⟨hallocated, hlogical, hunique⟩ :=
        (tree_scan_counts_once statTwice ⟨fun _ => true, 3⟩ ⟨1, 1⟩ linkedTwice 5).2 tree rest heq
      exact ⟨tree, rest, rfl, hallocated.trans (by decide +kernel),
        hlogical.trans (by decide +kernel), hunique.trans (by decide +kernel)⟩

/-- The tree of the example can be counted. -/
theorem countable_linkedTwice : Countable statTwice ⟨1, 1⟩ linkedTwice 5 := by
  refine ⟨?_, ?_, ?_, ?_, ?_, ?_, ?_⟩ <;> decide +kernel

/-- A tree that can be counted is refused when its file may not be read, and when the
process runs out of descriptors. -/
theorem scan_refuses_unopened : Countable statTwice ⟨1, 1⟩ linkedTwice 5 ∧
    (∀ tree rest, scan statTwice 1 ⟨fun id => id.inode != 3, 1024⟩ ⟨1, 1⟩ linkedTwice 5 ≠
      .ok (tree, rest)) ∧
    ∀ tree rest, scan statTwice 1 ⟨fun _ => true, 2⟩ ⟨1, 1⟩ linkedTwice 5 ≠ .ok (tree, rest) := by
  have hrefused : ∀ access : Access,
      (scan statTwice 1 access ⟨1, 1⟩ linkedTwice 5).toOption.isSome = false →
        ∀ tree rest, scan statTwice 1 access ⟨1, 1⟩ linkedTwice 5 ≠ .ok (tree, rest) := by
    intro access h tree rest heq
    rw [heq] at h
    cases h
  exact ⟨countable_linkedTwice, hrefused _ (by decide +kernel), hrefused _ (by decide +kernel)⟩

end Cache
end Hegira
