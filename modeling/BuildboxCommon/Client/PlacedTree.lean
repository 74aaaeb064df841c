import BuildboxCommon.Client.Download
import BuildboxCommon.Merklize.DirectoryTree
import BuildboxCommon.Posix.Disk

set_option autoImplicit false

namespace BuildboxCommon

open ByteString Client Posix

def Posix.FileObject.kind {ι : Type} : FileObject ι → Kind
  | .regular _ _ _ => .file
  | .directory _ _ _ _ => .directory
  | .symlink _ => .symlink

def FileNode.listed (node : FileNode) : Bytes × Node := (node.name, .file node.digest node.isExecutable)

def DirectoryNode.listed (node : DirectoryNode) : Bytes × Node := (node.name, .dir node.digest)

def SymlinkNode.listed (node : SymlinkNode) : Bytes × Node := (node.name, .symlink node.target)

def Directory.nodes (directory : Directory) : List (Bytes × Node) :=
  directory.files.map FileNode.listed ++ directory.directories.map DirectoryNode.listed ++
    directory.symlinks.map SymlinkNode.listed

theorem mem_nodes {directory : Directory} {entry : Bytes × Node} :
    entry ∈ directory.nodes ↔ (∃ node ∈ directory.files, node.listed = entry) ∨
      (∃ node ∈ directory.directories, node.listed = entry) ∨ ∃ node ∈ directory.symlinks, node.listed = entry := by
  simp only [Directory.nodes, List.mem_append, List.mem_map, or_assoc]

def Clashes (directory : Directory) : Prop :=
  ∃ name first second, (name, first) ∈ directory.nodes ∧ (name, second) ∈ directory.nodes ∧
    first.entry.kind ≠ second.entry.kind

inductive Contains (find : Digest → Option Directory) : Directory → Directory → Prop where
  | self (directory : Directory) : Contains find directory directory
  | inside {parent child directory : Directory} {node : DirectoryNode} (member : node ∈ parent.directories)
    (found : find node.digest = some child) (deeper : Contains find child directory) : Contains find parent directory

theorem Contains.among {find : Digest → Option Directory} {root directory : Directory}
    (contained : Contains find root directory) {directories : List Directory}
    (closed : ∀ parent ∈ directories, ∀ node ∈ parent.directories, find node.digest ∈ directories.map some)
    (member : root ∈ directories) : directory ∈ directories := by
  induction contained with
  | self => exact member
  | inside listed found _ ih =>
    have known := closed _ member _ listed
    rw [found] at known
    obtain ⟨child, among, same⟩ := List.mem_map.mp known
    exact ih (Option.some.inj same ▸ among)

structure Storage where
  format : WireFormat Directory
  blobs : Bytes × Int → Option Bytes

namespace Storage

variable (storage : Storage)

def directory (digest : Digest) : Option Directory :=
  (storage.blobs digest.key).bind fun bytes =>
    if storage.format.parses bytes then some (storage.format.parseFromString bytes) else none

def Has (hash data : Bytes) : Prop := ∃ size, storage.blobs (hash, size) = some data

def Depicts (moded : Prop) : Node → FileObject Nat → Prop
  | .file digest isExecutable, .regular contents permissions _ =>
    storage.Has digest.hashOther contents ∧ (moded → permissions = Fin.ofNat _ (filePermissions isExecutable))
  | .symlink target, .symlink stored => stored = cString target
  | .dir _, .directory _ _ _ _ => True
  | _, _ => False

variable {storage} in
theorem Depicts.kind {moded : Prop} {node : Node} {object : FileObject Nat}
    (depicts : storage.Depicts moded node object) :
    object.kind = node.entry.kind := by
  cases node <;> cases object <;> first | rfl | exact depicts.elim

variable {storage} in
theorem Depicts.mono {moded fewer : Prop} (imp : fewer → moded) {node : Node} {object : FileObject Nat}
    (depicts : storage.Depicts moded node object) : storage.Depicts fewer node object := by
  cases node <;> cases object <;> first | exact depicts | exact depicts.elim | exact ⟨depicts.1, depicts.2 ∘ imp⟩

inductive Placed (moded : Prop) (low : Nat) (disk : Disk) : Nat → List (Bytes × Node) → Prop where
  | mk {here : Nat} {nodes : List (Bytes × Node)} (directory : disk.files.graph.IsDirectory here)
    (complete : ∀ name node, (name, node) ∈ nodes →
      ∃ found, disk.find here name = some found ∧ (disk.files.object found).kind = node.entry.kind)
    (sound : ∀ name found, disk.find here name = some found →
      low ≤ found ∧ ∃ node, (name, node) ∈ nodes ∧ storage.Depicts moded node (disk.files.object found))
    (below : ∀ name digest child sub, (name, .dir digest) ∈ nodes → storage.directory digest = some child →
      disk.find here name = some sub → Placed moded low disk sub child.nodes) : Placed moded low disk here nodes

namespace Placed

variable {storage} {moded : Prop} {low here : Nat} {disk after : Disk} {nodes others : List (Bytes × Node)}

theorem directory (placed : storage.Placed moded low disk here nodes) : disk.files.graph.IsDirectory here := by
  cases placed
  assumption

theorem complete (placed : storage.Placed moded low disk here nodes) {name : Bytes} {node : Node}
    (member : (name, node) ∈ nodes) :
    ∃ found, disk.find here name = some found ∧ (disk.files.object found).kind = node.entry.kind := by
  cases placed with
  | mk _ complete _ _ => exact complete name node member

theorem sound (placed : storage.Placed moded low disk here nodes) {name : Bytes} {found : Nat}
    (entry : disk.find here name = some found) :
    low ≤ found ∧ ∃ node, (name, node) ∈ nodes ∧ storage.Depicts moded node (disk.files.object found) := by
  cases placed with
  | mk _ _ sound _ => exact sound name found entry

theorem inside (placed : storage.Placed moded low disk here nodes) {name : Bytes} {digest : Digest} {child : Directory}
    {sub : Nat} (member : (name, .dir digest) ∈ nodes) (known : storage.directory digest = some child)
    (entry : disk.find here name = some sub) : storage.Placed moded low disk sub child.nodes := by
  cases placed with
  | mk _ _ _ below => exact below name digest child sub member known entry

theorem mono {fewer : Prop} {lower : Nat} (placed : storage.Placed moded low disk here nodes) (imp : fewer → moded)
    (le : lower ≤ low) : storage.Placed fewer lower disk here nodes := by
  induction placed with
  | mk directory complete sound _ ih =>
    refine ⟨directory, complete, fun name found entry => ?_, ih⟩
    obtain ⟨late, node, member, depicts⟩ := sound name found entry
    exact ⟨le.trans late, node, member, depicts.mono imp⟩

theorem congr (placed : storage.Placed moded low disk here nodes) (same : ∀ entry, entry ∈ nodes ↔ entry ∈ others) :
    storage.Placed moded low disk here others := by
  refine ⟨placed.directory, fun name node member => placed.complete ((same _).mpr member), fun name found entry => ?_,
    fun name digest child sub member known entry => placed.inside ((same _).mpr member) known entry⟩
  obtain ⟨new, node, member, depicts⟩ := placed.sound entry
  exact ⟨new, node, (same _).mp member, depicts⟩

theorem nil (directory : disk.files.graph.IsDirectory here) (empty : ∀ name, disk.find here name = none) :
    storage.Placed moded low disk here [] :=
  ⟨directory, by simp, fun name found entry => by simp [empty] at entry, by simp⟩

theorem later (placed : storage.Placed moded low disk here nodes)
    (unchanged : ∀ node, low ≤ node → node < disk.next → after.files.object node = disk.files.object node)
    (same : after.files.object here = disk.files.object here) : storage.Placed moded low after here nodes := by
  induction placed with
  | @mk here nodes directory complete sound below ih =>
    have find (name : Bytes) : after.find here name = disk.find here name := Disk.find_congr same name
    have object {name : Bytes} {found : Nat} (entry : disk.find here name = some found) :
        after.files.object found = disk.files.object found :=
      unchanged found (sound name found entry).1 (Disk.find_used entry)
    refine ⟨?_, fun name node member => ?_, fun name found entry => ?_,
      fun name digest child sub member known entry => ?_⟩
    next =>
      rw [FileSystem.isDirectory_iff] at directory ⊢
      rwa [same]
    next =>
      obtain ⟨found, entry, kind⟩ := complete name node member
      exact ⟨found, (find name).trans entry, (object entry) ▸ kind⟩
    next =>
      rw [find] at entry
      rw [object entry]
      exact sound name found entry
    next =>
      rw [find] at entry
      exact ih name digest child sub member known entry (object entry)

theorem put (placed : storage.Placed moded low disk here nodes) {name : Bytes} {listed : Node} {node : Nat}
    (directory : after.files.graph.IsDirectory here) (new : low ≤ node)
    (find : ∀ probe, after.find here probe = if probe = name then some node else disk.find here probe)
    (unchanged : ∀ other, low ≤ other → other < disk.next → after.files.object other = disk.files.object other)
    (depicts : storage.Depicts moded listed (after.files.object node))
    (replaced : ∀ old, (name, old) ∈ nodes → old.entry.kind = .file ∧ listed.entry.kind = .file)
    (below : ∀ digest child, listed = .dir digest → storage.directory digest = some child →
      storage.Placed moded low after node child.nodes) : storage.Placed moded low after here
        (nodes ++ [(name, listed)]) := by
  have object {probe : Bytes} {found : Nat} (entry : disk.find here probe = some found) :
      after.files.object found = disk.files.object found :=
    unchanged found (placed.sound entry).1 (Disk.find_used entry)
  refine ⟨directory, fun probe other member => ?_, fun probe found entry => ?_,
    fun probe digest child sub member known entry => ?_⟩
  next =>
    rw [find]
    by_cases same : probe = name
    next =>
      subst same
      rw [if_pos rfl]
      refine ⟨node, rfl, depicts.kind.trans ?_⟩
      rcases List.mem_append.mp member with old | last
      next => rw [(replaced other old).1, (replaced other old).2]
      next => rw [(Prod.mk.inj (List.mem_singleton.mp last)).2]
    next =>
      rw [if_neg same]
      rcases List.mem_append.mp member with old | last
      next =>
        obtain ⟨found, entry, kind⟩ := placed.complete old
        exact ⟨found, entry, (object entry) ▸ kind⟩
      next => exact absurd (Prod.mk.inj (List.mem_singleton.mp last)).1 same
  next =>
    rw [find] at entry
    split_ifs at entry with same
    next =>
      subst same
      obtain rfl := Option.some.inj entry
      exact ⟨new, listed, by simp, depicts⟩
    next =>
      obtain ⟨late, other, member, shown⟩ := placed.sound entry
      exact ⟨late, other, List.mem_append_left _ member, (object entry) ▸ shown⟩
  next =>
    rw [find] at entry
    split_ifs at entry with same
    next =>
      subst same
      obtain rfl := Option.some.inj entry
      rcases List.mem_append.mp member with old | last
      next => exact absurd (replaced _ old).1 nofun
      next => exact below digest child (Prod.mk.inj (List.mem_singleton.mp last)).2.symm known
    next =>
      rcases List.mem_append.mp member with old | last
      next => exact (placed.inside old known entry).later unchanged (object entry)
      next => exact absurd (Prod.mk.inj (List.mem_singleton.mp last)).1 same

theorem contains {root directory : Directory} (placed : storage.Placed moded low disk here root.nodes)
    (contained : Contains storage.directory root directory) :
    ∃ sub, storage.Placed moded low disk sub directory.nodes := by
  induction contained generalizing here with
  | self directory => exact ⟨here, placed⟩
  | @inside parent child directory node member found _ ih =>
    have listed : (node.name, .dir node.digest) ∈ parent.nodes := mem_nodes.mpr (.inr (.inl ⟨node, member, rfl⟩))
    obtain ⟨sub, entry, -⟩ := placed.complete listed
    exact ih (placed.inside listed found entry)

theorem not_clashes {directory : Directory} (placed : storage.Placed moded low disk here directory.nodes) :
    ¬Clashes directory := by
  rintro ⟨name, first, second, left, right, differs⟩
  obtain ⟨found, entry, kind⟩ := placed.complete left
  obtain ⟨other, entry', kind'⟩ := placed.complete right
  rw [entry, Option.some.injEq] at entry'
  exact differs (kind.symm.trans (entry' ▸ kind'))

end Placed

end Storage

end BuildboxCommon
