/-
# What an inspection accepts

`Storage::inspect` of `tools/hegira_cli/src/operations/execution/platform/cache.rs` with
`claim` and the reading of `.last-used`, over a disk that nobody changes meanwhile.  Of the
disk there is the validation storage of one application: the tree of its links, and for an
inode what is read of it (`Disk.stat`); its link count is the links in the storage and
those outside of it.  What a scan of a cache can open is as the process finds it when the
cache's turn comes (`Disk.access`).

An inspected storage has allocated what its caches have and more (`Inspected`).
-/

import Hegira.Cache.Tree

namespace Hegira
namespace Cache

abbrev Bytes := List UInt8

def markerName : String := ".hegira-cache.json"

def accessName : String := ".last-used"

def kinds : List String := ["build", "check", "test"]

def limit : Nat := 200000

/-! ### The disk -/

/-- The entries of a directory, no two of one name. -/
structure Listing where
  entries : List Node
  nodup : (entries.map Node.name).Nodup

/-- What stands at `target/hegira/validation`: nothing, what cannot be opened as a
directory of the application's device, or a directory. -/
inductive Place where
  | missing
  | blocked
  | present (id : FileId) (root : Listing)

structure Disk where
  place : Place
  /-- The links to an inode that are not in the storage. -/
  outside : FileId → Nat
  mode : FileId → Nat
  blocks : FileId → Nat
  stamp : FileId → Nat
  content : FileId → Bytes
  /-- The directories that others hold a lease of. -/
  leased : FileId → Bool
  /-- What can be opened of a cache, by its name. -/
  access : String → Access

def Place.entries : Place → List Node
  | .present _ root => root.entries
  | .missing | .blocked => []

def Disk.stat (disk : Disk) (id : FileId) : Stat where
  mode := disk.mode id
  nlink := (fileIds disk.place.entries).count id + disk.outside id
  size := (disk.content id).length
  blocks := disk.blocks id
  stamp := disk.stamp id

/-- The entry of a name. -/
def entry? (entries : List Node) (name : String) : Option Node :=
  entries.find? fun node => node.name == name

/-! ### The markers -/

/-- The fields that `cache_marker` writes. -/
structure CacheMarker where
  outputSchema : Nat
  owner : String
  application : String
  cache : String
  deriving DecidableEq

/-- What is read of the plan of an operation; `toVec` is the encoder of JSON. -/
structure OperationPlan where
  application : String
  toVec : CacheMarker → Option Bytes

def OperationPlan.cacheMarker (plan : OperationPlan) (kind : String) :
    Except OperationError Bytes :=
  match plan.toVec ⟨1, "hegira-validation-cache", plan.application, kind⟩ with
  | some bytes => .ok bytes
  | none => .error invalid

/-- `claim`: the marker is the only link to a file that reads as expected. -/
def Disk.claim (disk : Disk) (device : Nat) (entries : List Node) (expected : Bytes) :
    Except OperationError Unit :=
  match entry? entries markerName with
  | some (.file _ id) =>
      if id.device ≠ device ∨ (disk.stat id).nlink ≠ 1 ∨ 4096 < (disk.content id).length ∨
          disk.content id ≠ expected then
        .error invalid
      else
        .ok ()
  | _ => .error invalid

/-! ### The last use -/

def digit? (byte : UInt8) : Option Nat :=
  if 48 ≤ byte ∧ byte ≤ 57 then some (byte.toNat - 48) else none

/-- `parse::<u64>`: digits after an optional sign. -/
def parseU64 (bytes : Bytes) : Option Nat :=
  let digits := if bytes.head? = some 43 then bytes.tail else bytes
  if digits = [] then
    none
  else
    digits.foldlM (fun n byte => do
      let d ← digit? byte
      let n := n * 10 + d
      if n < UInt64.size then some n else none) 0

def Disk.readAccess (disk : Disk) (entries : List Node) : Except OperationError Nat :=
  match entry? entries accessName with
  | some (.file _ id) =>
      if 32 < (disk.content id).length then
        .error invalid
      else
        match parseU64 (disk.content id) with
        | some used => .ok used
        | none => .error invalid
  | _ => .error invalid

/-! ### The inspection -/

/-- `Cache`: its directory is the entry `kind` of the storage. -/
structure ClaimedCache where
  kind : String
  id : FileId
  used : Nat
  tree : Tree
  active : Bool
  deriving DecidableEq

/-- `Storage`; `remaining` is how many entries an inspection may still read. -/
structure Inspection where
  caches : List ClaimedCache
  allocated : Nat
  logical : Nat
  remaining : Nat

structure Storage where
  caches : List ClaimedCache
  allocated : Nat
  logical : Nat
  deriving DecidableEq

section Inspect

variable (plan : OperationPlan) (disk : Disk) (device : Nat)

/-- The cache in the directory `id`. -/
def inspectCache (s : Inspection) (kind : String) (id : FileId) (entries : List Node) :
    Except OperationError Inspection := do
  if id.device ≠ device then throw invalid
  let marker ← plan.cacheMarker kind
  disk.claim device entries marker
  let used ← disk.readAccess entries
  let (tree, remaining) ← scan disk.stat device (disk.access kind) id entries s.remaining
  let allocated ← u64 (s.allocated + tree.allocated)
  let logical ← u64 (s.logical + tree.logical)
  return {
    caches := s.caches ++ [⟨kind, id, used, tree, disk.leased id⟩]
    allocated, logical, remaining }

/-- One entry of the storage. -/
def inspectEntry (s : Inspection) (node : Node) : Except OperationError Inspection :=
  if node.name = markerName then
    .ok s
  else
    match kinds.find? fun kind => kind == node.name with
    | none => .error invalid
    | some kind =>
        match node with
        | .directory _ id entries => inspectCache plan disk device s kind id entries
        | .file .. | .special .. | .mountPoint .. => .error invalid

/-- The bytes of the storage's own directory and marker. -/
def overhead (id : FileId) (entries : List Node) : Except OperationError (Nat × Nat) :=
  match entry? entries markerName with
  | none => .error invalid
  | some node => do
      let root ← u64 (allocation disk.stat id)
      let bytes ← u64 (allocation disk.stat node.id)
      let allocated ← u64 (root + bytes)
      return (allocated, (disk.stat node.id).size)

/-- `Storage::inspect`. -/
def inspect : Except OperationError (Option Storage) :=
  match disk.place with
  | .missing => .ok none
  | .blocked => .error invalid
  | .present id root => do
      let marker ← plan.cacheMarker "root"
      disk.claim id.device root.entries marker
      let (allocated, logical) ← overhead disk id root.entries
      if limit < root.entries.length then throw invalid
      let s ← root.entries.foldlM (inspectEntry plan disk id.device)
        ⟨[], allocated, logical, limit - root.entries.length⟩
      return some ⟨s.caches, s.allocated, s.logical⟩

end Inspect

/-! ### What an inspection has seen -/

def allocatedSum (caches : List ClaimedCache) : Nat := (caches.map fun cache => cache.tree.allocated).sum

@[simp] theorem allocatedSum_nil : allocatedSum [] = 0 := rfl

/-- What caches allocate adds up. -/
@[simp] theorem allocatedSum_cons (cache : ClaimedCache) (caches : List ClaimedCache) :
    allocatedSum (cache :: caches) = cache.tree.allocated + allocatedSum caches := rfl

@[simp] theorem allocatedSum_append (caches caches' : List ClaimedCache) :
    allocatedSum (caches ++ caches') = allocatedSum caches + allocatedSum caches' := by
  simp [allocatedSum]

/-- What holds of the caches seen so far, `allocated` bytes with those of the storage's own. -/
structure Inspected (caches : List ClaimedCache) (allocated : Nat) : Prop where
  sum : allocatedSum caches ≤ allocated
  kinds : ∀ cache ∈ caches, cache.kind ∈ kinds
  nodup : (caches.map ClaimedCache.kind).Nodup

section Inspected

variable {plan : OperationPlan} {disk : Disk} {device : Nat} {s s' : Inspection}

/-- A cache that is inspected is counted. -/
theorem inspectCache_eq_ok {kind : String} {id : FileId} {entries : List Node}
    (h : inspectCache plan disk device s kind id entries = .ok s') : ∃ cache,
      cache.kind = kind ∧ s'.caches = s.caches ++ [cache] ∧
        s'.allocated = s.allocated + cache.tree.allocated := by
  rw [inspectCache] at h
  obtain ⟨-, h⟩ := Validation.guarded_eq_ok.1 h
  obtain ⟨marker, -, h⟩ := Validation.bind_eq_ok.1 h
  obtain ⟨-, -, h⟩ := Validation.bind_eq_ok.1 h
  obtain ⟨used, -, h⟩ := Validation.bind_eq_ok.1 h
  obtain ⟨⟨tree, remaining⟩, -, h⟩ := Validation.bind_eq_ok.1 h
  obtain ⟨allocated, hallocated, h⟩ := Validation.bind_eq_ok.1 h
  obtain ⟨logical, -, h⟩ := Validation.bind_eq_ok.1 h
  obtain rfl := Validation.pure_eq_ok.1 h
  exact ⟨⟨kind, id, used, tree, disk.leased id⟩, rfl, rfl, (u64_eq_ok.1 hallocated).2⟩

/-- An entry is the marker, or one more cache of its name. -/
theorem inspectEntry_eq_ok {node : Node} (h : inspectEntry plan disk device s node = .ok s') :
    s' = s ∨ ∃ cache, cache.kind = node.name ∧ cache.kind ∈ kinds ∧
      s'.caches = s.caches ++ [cache] ∧ s'.allocated = s.allocated + cache.tree.allocated := by
  rw [inspectEntry] at h
  split at h
  · exact .inl (Except.ok.inj h).symm
  · split at h
    · cases h
    · next kind hfind =>
        have hkind : kind = node.name := by simpa using List.find?_some hfind
        split at h
        · obtain ⟨cache, hcache, hcaches, hallocated⟩ := inspectCache_eq_ok h
          refine .inr ⟨cache, hcache.trans hkind, ?_, hcaches, hallocated⟩
          exact hcache ▸ List.mem_of_find?_eq_some hfind
        · cases h
        · cases h
        · cases h

/-- The caches seen have names of entries read. -/
theorem Inspected.foldlM {entries : List Node}
    (h : entries.foldlM (inspectEntry plan disk device) s = .ok s')
    (hs : Inspected s.caches s.allocated)
    (hn : (s.caches.map ClaimedCache.kind ++ entries.map Node.name).Nodup) :
    Inspected s'.caches s'.allocated := by
  induction entries generalizing s with
  | nil =>
      obtain rfl : s = s' := Except.ok.inj h
      exact hs
  | cons node entries ih =>
      obtain ⟨t, ht, hrest⟩ := Validation.foldlM_cons_eq_ok.1 h
      rcases inspectEntry_eq_ok ht with rfl | ⟨cache, hname, hkind, hcaches, hallocated⟩
      · refine ih hrest hs (hn.sublist ?_)
        exact (List.Sublist.refl _).append (List.sublist_cons_self ..)
      · have hkinds : t.caches.map ClaimedCache.kind ++ entries.map Node.name =
            s.caches.map ClaimedCache.kind ++ (node :: entries).map Node.name := by
          simp [hcaches, hname]
        refine ih hrest ⟨?_, ?_, ?_⟩ (hkinds ▸ hn)
        · have hsum := hs.sum
          rw [hcaches, hallocated, allocatedSum_append, allocatedSum_cons, allocatedSum_nil]
          omega
        · intro c hc
          rw [hcaches] at hc
          rcases List.mem_append.1 hc with hc | hc
          · exact hs.kinds c hc
          · exact List.mem_singleton.1 hc ▸ hkind
        · have hn := hkinds ▸ hn
          exact (List.nodup_append.1 hn).1

/-- A storage that is inspected has counted its caches. -/
theorem inspected_of_inspect {storage : Storage} (h : inspect plan disk = .ok (some storage)) :
    Inspected storage.caches storage.allocated := by
  rw [inspect] at h
  split at h
  · cases h
  · cases h
  · next id root hplace =>
      obtain ⟨marker, -, h⟩ := Validation.bind_eq_ok.1 h
      obtain ⟨-, -, h⟩ := Validation.bind_eq_ok.1 h
      obtain ⟨⟨allocated, logical⟩, -, h⟩ := Validation.bind_eq_ok.1 h
      obtain ⟨-, h⟩ := Validation.guarded_eq_ok.1 h
      obtain ⟨s, hs, h⟩ := Validation.bind_eq_ok.1 h
      obtain rfl := Option.some.inj (Validation.pure_eq_ok.1 h)
      refine Inspected.foldlM hs ⟨Nat.zero_le _, nofun, List.nodup_nil⟩ ?_
      simpa using root.nodup

end Inspected

end Cache
end Hegira
