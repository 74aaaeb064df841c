import BuildboxCommon.Merklize.ToDigest

set_option autoImplicit false

namespace BuildboxCommon

open ByteString FileUtils OrderedEntries

inductive Node where
  | file (digest : Digest) (isExecutable : Bool)
  | symlink (target : Bytes)
  | dir (digest : Digest)
deriving DecidableEq

def Node.entry : Node → Entry
  | .file digest isExecutable => .file ⟨digest, isExecutable, none⟩
  | .symlink target => .symlink target
  | .dir _ => .directory

def Directory.names (directory : Directory) : List Bytes :=
  directory.files.map FileNode.name ++ directory.symlinks.map SymlinkNode.name ++
    directory.directories.map DirectoryNode.name

structure WellNamed (directory : Directory) : Prop where
  nonempty : ∀ name ∈ directory.names, name ≠ []
  no_slash : ∀ name ∈ directory.names, slash ∉ name
  distinct : directory.names.Nodup

inductive Lists (find : Digest → Option Directory) : Directory → List Bytes → Node → Prop where
  | file {directory : Directory} {node : FileNode} (member : node ∈ directory.files) :
    Lists find directory [node.name] (.file node.digest node.isExecutable)
  | symlink {directory : Directory} {node : SymlinkNode} (member : node ∈ directory.symlinks) :
    Lists find directory [node.name] (.symlink node.target)
  | dir {directory : Directory} {node : DirectoryNode} (member : node ∈ directory.directories) :
    Lists find directory [node.name] (.dir node.digest)
  | inside {directory child : Directory} {node : DirectoryNode} {path : List Bytes} {inner : Node}
    (member : node ∈ directory.directories) (found : find node.digest = some child)
    (below : Lists find child path inner) : Lists find directory (node.name :: path) inner

def flattening (find : Digest → Option Directory) (directory : Directory) : Listing := fun path entry =>
  ∃ node, Lists find directory path node ∧ node.entry = entry

inductive Grounded (find : Digest → Option Directory) : Directory → Prop where
  | mk {directory : Directory}
    (children : ∀ node ∈ directory.directories, ∀ child, find node.digest = some child → Grounded find child) :
    Grounded find directory

def Deep (find : Digest → Option Directory) : Nat → Directory → Prop
  | 0, _ => False
  | depth + 1, directory =>
    ∀ node ∈ directory.directories, ∀ child, find node.digest = some child → Deep find depth child

theorem Deep.above {find : Digest → Option Directory} {directory : Directory} {children : List Directory} {depth : Nat}
    (known : ∀ node ∈ directory.directories, find node.digest ∈ children.map some)
    (deep : ∀ child ∈ children, Deep find depth child) : Deep find (depth + 1) directory := by
  intro node member child found
  have among := known node member
  rw [found] at among
  obtain ⟨other, listed, same⟩ := List.mem_map.mp among
  exact Option.some.inj same ▸ deep other listed

theorem Deep.succ {find : Digest → Option Directory} {depth : Nat} {directory : Directory}
    (deep : Deep find depth directory) : Deep find (depth + 1) directory := by
  induction depth generalizing directory with
  | zero => exact deep.elim
  | succ depth ih => exact fun node member child found => ih (deep node member child found)

theorem Deep.mono {find : Digest → Option Directory} {depth deeper : Nat} {directory : Directory}
    (deep : Deep find depth directory) (le : depth ≤ deeper) : Deep find deeper directory := by
  induction le with
  | refl => exact deep
  | step _ ih => exact ih.succ

theorem Grounded.deep {find : Digest → Option Directory} {directory : Directory}
    (grounded : Grounded find directory) : ∃ depth, Deep find depth directory := by
  induction grounded with
  | mk children ih =>
    rename_i directory
    have bound : ∀ nodes ⊆ directory.directories, ∃ depth, ∀ node ∈ nodes, ∀ child,
        find node.digest = some child → Deep find depth child := by
      intro nodes within
      induction nodes with
      | nil => exact ⟨0, by simp⟩
      | cons node nodes ihNodes =>
        obtain ⟨member, within⟩ := List.cons_subset.mp within
        obtain ⟨depth, others⟩ := ihNodes within
        cases found : find node.digest with
        | none =>
          refine ⟨depth, fun other listed child resolved => ?_⟩
          rcases List.mem_cons.mp listed with rfl | later
          next => simp [found] at resolved
          next => exact others other later child resolved
        | some target =>
          obtain ⟨own, deep⟩ := ih node member target found
          refine ⟨max own depth, fun other listed child resolved => ?_⟩
          rcases List.mem_cons.mp listed with rfl | later
          next =>
            rw [found, Option.some.injEq] at resolved
            exact resolved ▸ deep.mono (le_max_left _ _)
          next => exact (others other later child resolved).mono (le_max_right _ _)
    obtain ⟨depth, all⟩ := bound directory.directories (List.Subset.refl _)
    exact ⟨depth + 1, all⟩

def Entry.plain : Entry → Entry
  | .file stored => .file { stored with mtime := none }
  | .symlink target => .symlink target
  | .directory => .directory

namespace NestedDirectory

section Flattening

variable {hash : Bytes → Bytes} {codec : Encoding Directory}

theorem message_files (nd : NestedDirectory) : (message hash codec nd).files =
    nd.files.map fun entry => entry.2.toFilenode entry.1 := by
  cases nd
  rfl

theorem message_symlinks (nd : NestedDirectory) :
    (message hash codec nd).symlinks = nd.symlinks.map symlinkNode := by
  cases nd
  rfl

theorem message_directories (nd : NestedDirectory) : (message hash codec nd).directories =
    nd.subdirs.map fun entry => ⟨entry.1, digestOf hash codec (message hash codec entry.2)⟩ := by
  cases nd
  exact directoryNodes_eq hash codec _

variable {find : Digest → Option Directory}

def FindsBelow (hash : Bytes → Bytes) (codec : Encoding Directory) (find : Digest → Option Directory)
    (nd : NestedDirectory) : Prop :=
  ∀ directory ∈ subdirMessages hash codec nd.subdirs, find (digestOf hash codec directory) = some directory

theorem FindsBelow.of_messages {nd : NestedDirectory}
    (stored : ∀ directory ∈ messages hash codec nd, find (digestOf hash codec directory) = some directory) :
    FindsBelow hash codec find nd :=
  fun directory member => stored directory (subdirMessages_subset hash codec nd member)

section Subdirectory

variable {nd : NestedDirectory} (finds : FindsBelow hash codec find nd) {entry : Bytes × NestedDirectory}
  (listed : entry ∈ nd.subdirs)

include finds listed

theorem FindsBelow.found :
    find (digestOf hash codec (message hash codec entry.2)) = some (message hash codec entry.2) :=
  finds _ ((mem_subdirMessages hash codec).mpr ⟨entry, listed, message_mem hash codec entry.2⟩)

theorem FindsBelow.deeper : FindsBelow hash codec find entry.2 :=
  fun directory member => finds directory
    ((mem_subdirMessages hash codec).mpr ⟨entry, listed, subdirMessages_subset hash codec entry.2 member⟩)

end Subdirectory

theorem holds_of_lists {nd : NestedDirectory} (ordered : Ordered nd)
    (finds : FindsBelow hash codec find nd)
    {path : List Bytes} {node : Node} (lists : Lists find (message hash codec nd) path node) :
    ∃ held, nd.Holds path held ∧ node.entry = held.plain := by
  induction nd using NestedDirectory.induction generalizing path with
  | step files symlinks subdirs ih =>
    cases lists with
    | file member =>
      rw [message_files] at member
      obtain ⟨entry, listed, rfl⟩ := List.mem_map.mp member
      exact ⟨.file entry.2, (mem_iff_get ordered.files _ _).mp listed, rfl⟩
    | symlink member =>
      rw [message_symlinks] at member
      obtain ⟨entry, listed, rfl⟩ := List.mem_map.mp member
      exact ⟨.symlink entry.2, (mem_iff_get ordered.symlinks _ _).mp listed, rfl⟩
    | dir member =>
      rw [message_directories] at member
      obtain ⟨entry, listed, rfl⟩ := List.mem_map.mp member
      exact ⟨.directory, ⟨entry.2, (mem_iff_get ordered.subdirs _ _).mp listed⟩, rfl⟩
    | inside member found below =>
      rw [message_directories] at member
      obtain ⟨entry, listed, rfl⟩ := List.mem_map.mp member
      rw [finds.found listed, Option.some.injEq] at found
      subst found
      obtain ⟨held, holds, same⟩ := ih entry listed (ordered.subdir listed) (finds.deeper listed) below
      rename_i rest
      refine ⟨held, ?_, same⟩
      cases rest with
      | nil => exact absurd holds (holds_nil _ _)
      | cons next rest => exact ⟨entry.2, (mem_iff_get ordered.subdirs _ _).mp listed, holds⟩

theorem lists_of_holds {nd : NestedDirectory}
    (finds : FindsBelow hash codec find nd)
    {path : List Bytes} {held : Entry} (holds : nd.Holds path held) :
    ∃ node, Lists find (message hash codec nd) path node ∧ node.entry = held.plain := by
  induction path generalizing nd with
  | nil => exact absurd holds (holds_nil _ _)
  | cons name path ih =>
    cases path with
    | nil =>
      cases held with
      | file file =>
        have listed : file.toFilenode name ∈ (message hash codec nd).files := by
          rw [message_files]
          exact List.mem_map.mpr ⟨(name, file), mem_of_get holds, rfl⟩
        exact ⟨_, .file listed, rfl⟩
      | symlink target =>
        have listed : ⟨name, target, none⟩ ∈ (message hash codec nd).symlinks := by
          rw [message_symlinks]
          exact List.mem_map.mpr ⟨(name, target), mem_of_get holds, rfl⟩
        exact ⟨_, .symlink listed, rfl⟩
      | directory =>
        obtain ⟨sub, found⟩ := holds
        have listed : ⟨name, digestOf hash codec (message hash codec sub)⟩ ∈
            (message hash codec nd).directories := by
          rw [message_directories]
          exact List.mem_map.mpr ⟨(name, sub), mem_of_get found, rfl⟩
        exact ⟨_, .dir listed, rfl⟩
    | cons next path =>
      obtain ⟨sub, found, inside⟩ := holds
      obtain ⟨node, lists, same⟩ := ih (finds.deeper (mem_of_get found)) inside
      have listed : ⟨name, digestOf hash codec (message hash codec sub)⟩ ∈
          (message hash codec nd).directories := by
        rw [message_directories]
        exact List.mem_map.mpr ⟨(name, sub), mem_of_get found, rfl⟩
      exact ⟨node, .inside listed (finds.found (mem_of_get found)) lists, same⟩

theorem flattening_message {nd : NestedDirectory} (ordered : Ordered nd)
    (finds : FindsBelow hash codec find nd)
    (path : List Bytes) (entry : Entry) :
    flattening find (message hash codec nd) path entry ↔ ∃ held, nd.Holds path held ∧ entry = held.plain := by
  constructor
  next =>
    rintro ⟨node, lists, rfl⟩
    exact holds_of_lists ordered finds lists
  next =>
    rintro ⟨held, holds, rfl⟩
    exact lists_of_holds finds holds

theorem mem_message_files {nd : NestedDirectory} (ordered : Ordered nd) (name : Bytes) :
    (∃ node ∈ (message hash codec nd).files, node.name = name) ↔ ∃ file, nd.Here name (.file file) := by
  rw [message_files]
  constructor
  next =>
    rintro ⟨node, member, rfl⟩
    obtain ⟨entry, listed, rfl⟩ := List.mem_map.mp member
    exact ⟨entry.2, (mem_iff_get ordered.files _ _).mp listed⟩
  next => exact fun ⟨file, found⟩ => ⟨_, List.mem_map.mpr ⟨_, mem_of_get found, rfl⟩, rfl⟩

theorem mem_message_symlinks {nd : NestedDirectory} (ordered : Ordered nd) (name : Bytes) :
    (∃ node ∈ (message hash codec nd).symlinks, node.name = name) ↔
      ∃ target, nd.Here name (.symlink target) := by
  rw [message_symlinks]
  constructor
  next =>
    rintro ⟨node, member, rfl⟩
    obtain ⟨entry, listed, rfl⟩ := List.mem_map.mp member
    exact ⟨entry.2, (mem_iff_get ordered.symlinks _ _).mp listed⟩
  next => exact fun ⟨target, found⟩ => ⟨_, List.mem_map.mpr ⟨_, mem_of_get found, rfl⟩, rfl⟩

theorem mem_message_directories {nd : NestedDirectory} (ordered : Ordered nd) (name : Bytes) :
    (∃ node ∈ (message hash codec nd).directories, node.name = name) ↔ nd.Here name .directory := by
  rw [message_directories]
  constructor
  next =>
    rintro ⟨node, member, rfl⟩
    obtain ⟨entry, listed, rfl⟩ := List.mem_map.mp member
    exact ⟨entry.2, (mem_iff_get ordered.subdirs _ _).mp listed⟩
  next => exact fun ⟨sub, found⟩ => ⟨_, List.mem_map.mpr ⟨_, mem_of_get found, rfl⟩, rfl⟩

def SingleKindedHere (nd : NestedDirectory) : Prop :=
  ∀ name first second, nd.Here name first → nd.Here name second → first.kind = second.kind

theorem singleKindedHere_of_apart {nd : NestedDirectory}
    (files_symlinks : ∀ name file target, nd.Here name (.file file) → ¬nd.Here name (.symlink target))
    (files_directories : ∀ name file, nd.Here name (.file file) → ¬nd.Here name .directory)
    (directories_symlinks : ∀ name target, nd.Here name .directory → ¬nd.Here name (.symlink target)) :
    SingleKindedHere nd := by
  intro name first second left right
  cases first with
  | file file =>
    cases second with
    | file other => rfl
    | symlink target => exact absurd right (files_symlinks name file target left)
    | directory => exact absurd right (files_directories name file left)
  | symlink target =>
    cases second with
    | file file => exact absurd left (files_symlinks name file target right)
    | symlink other => rfl
    | directory => exact absurd left (directories_symlinks name target right)
  | directory =>
    cases second with
    | file file => exact absurd left (files_directories name file right)
    | symlink target => exact absurd right (directories_symlinks name target left)
    | directory => rfl

theorem canonical_message_iff {nd : NestedDirectory} (ordered : Ordered nd) :
    Canonical (message hash codec nd) ↔ SingleKindedHere nd := by
  have files := @mem_message_files hash codec nd ordered
  have symlinks := @mem_message_symlinks hash codec nd ordered
  have directories := @mem_message_directories hash codec nd ordered
  constructor
  next =>
    intro canonical
    apply singleKindedHere_of_apart
    next =>
      intro name file target left right
      obtain ⟨a, member, named⟩ := (files name).mpr ⟨file, left⟩
      obtain ⟨b, other, same⟩ := (symlinks name).mpr ⟨target, right⟩
      exact canonical.files_symlinks a member b other (named.trans same.symm)
    next =>
      intro name file left right
      obtain ⟨a, member, named⟩ := (files name).mpr ⟨file, left⟩
      obtain ⟨b, other, same⟩ := (directories name).mpr right
      exact canonical.files_directories a member b other (named.trans same.symm)
    next =>
      intro name target left right
      obtain ⟨a, member, named⟩ := (directories name).mpr left
      obtain ⟨b, other, same⟩ := (symlinks name).mpr ⟨target, right⟩
      exact canonical.directories_symlinks a member b other (named.trans same.symm)
  next =>
    intro single
    refine ⟨?_, ?_, ?_, ?_, ?_, ?_⟩
    next =>
      rw [message_files]
      exact sorted_map ordered.files _ FileNode.name fun _ => rfl
    next =>
      rw [message_directories]
      exact sorted_map ordered.subdirs _ DirectoryNode.name fun _ => rfl
    next =>
      rw [message_symlinks]
      exact sorted_map ordered.symlinks _ SymlinkNode.name fun _ => rfl
    next =>
      intro a left b right same
      obtain ⟨file, held⟩ := (files a.name).mp ⟨a, left, rfl⟩
      have other := (directories a.name).mp ⟨b, right, same.symm⟩
      simpa [Entry.kind] using single _ _ _ held other
    next =>
      intro a left b right same
      obtain ⟨file, held⟩ := (files a.name).mp ⟨a, left, rfl⟩
      obtain ⟨target, other⟩ := (symlinks a.name).mp ⟨b, right, same.symm⟩
      simpa [Entry.kind] using single _ _ _ held other
    next =>
      intro a left b right same
      have held := (directories a.name).mp ⟨a, left, rfl⟩
      obtain ⟨target, other⟩ := (symlinks a.name).mp ⟨b, right, same.symm⟩
      simpa [Entry.kind] using single _ _ _ held other

theorem singleKinded_holds_iff {nd : NestedDirectory} (ordered : Ordered nd) :
    SingleKinded nd.Holds ↔
      SingleKindedHere nd ∧ ∀ entry ∈ nd.subdirs, SingleKinded entry.2.Holds := by
  constructor
  next =>
    intro single
    refine ⟨fun name => single [name], fun entry listed path first second left right => ?_⟩
    have found := (mem_iff_get ordered.subdirs entry.1 entry.2).mp listed
    cases path with
    | nil => exact absurd left (holds_nil _ _)
    | cons next path =>
      exact single (entry.1 :: next :: path) first second ⟨entry.2, found, left⟩ ⟨entry.2, found, right⟩
  next =>
    rintro ⟨here, below⟩ path first second left right
    match path with
    | [] => exact absurd left (holds_nil _ _)
    | [name] => exact here name first second left right
    | name :: next :: path =>
      obtain ⟨sub, found, left⟩ := left
      obtain ⟨other, same, right⟩ := right
      rw [found, Option.some.injEq] at same
      subst same
      exact below (name, sub) (mem_of_get found) _ first second left right

theorem messages_forall_iff {asked : Directory → Prop} {holds : NestedDirectory → Prop}
    (each : ∀ nd, Ordered nd → (holds nd ↔ asked (message hash codec nd) ∧ ∀ entry ∈ nd.subdirs, holds entry.2))
    {nd : NestedDirectory} (ordered : Ordered nd) :
    (∀ directory ∈ messages hash codec nd, asked directory) ↔ holds nd := by
  induction nd using NestedDirectory.induction with
  | step files symlinks subdirs ih =>
    rw [each _ ordered]
    have inside (entry : Bytes × NestedDirectory) (listed : entry ∈ subdirs) :=
      ih entry listed (ordered.subdir listed)
    constructor
    next =>
      intro all
      refine ⟨all _ (message_mem hash codec _), fun entry listed => ?_⟩
      refine (inside entry listed).mp fun directory member => all directory ?_
      exact (mem_messages hash codec).mpr (.inr ⟨entry, listed, member⟩)
    next =>
      rintro ⟨own, below⟩ directory member
      rcases (mem_messages hash codec).mp member with rfl | ⟨entry, listed, member⟩
      next => exact own
      next => exact (inside entry listed).mpr (below entry listed) directory member

theorem canonical_messages_iff {nd : NestedDirectory} (ordered : Ordered nd) :
    (∀ directory ∈ messages hash codec nd, Canonical directory) ↔ SingleKinded nd.Holds := by
  apply messages_forall_iff _ ordered
  intro nd ordered
  rw [singleKinded_holds_iff ordered, canonical_message_iff ordered]

end Flattening

end NestedDirectory

end BuildboxCommon
