import BuildboxCommon.Client.TemporaryNames
import BuildboxCommon.Merklize.MakeNestedDirectory

set_option autoImplicit false

namespace BuildboxCommon.Client

open ByteString Effect FileUtils LexicalPath NestedDirectory OrderedEntries PathResolution Posix

variable {ι σ : Type}

structure WellFormed (hash : Bytes → Bytes) (storage : Storage) (directory : Directory) : Prop where
  canonical : Canonical directory
  names : ∀ name ∈ directory.names, IsName name
  targets : ∀ node ∈ directory.symlinks, node.target ≠ []
  plain : directory.nodeProperties = none
  plain_files : ∀ node ∈ directory.files, node.nodeProperties = none
  plain_symlinks : ∀ node ∈ directory.symlinks, node.nodeProperties = none
  blobs : ∀ node ∈ directory.files, ∃ data, storage.blobs node.digest.key = some data ∧
    node.digest = makeDigest hash data
  subdirectories : ∀ node ∈ directory.directories, ∃ child, storage.directory node.digest = some child ∧
    node.digest = digestOf hash storage.format child

def Uncollided (storage : Storage) : Prop :=
  ∀ key data key' data', storage.blobs key = some data → storage.blobs key' = some data' → key.1 = key'.1 → data = data'

def Resembles (storage : Storage) : Node → FileObject Nat → Prop
  | .file digest executable, .regular contents permissions mtime =>
    storage.blobs digest.key = some contents ∧
      isExecutable (.regular contents permissions mtime : FileObject Nat) = executable
  | .symlink target, .symlink stored => stored = target
  | .dir _, .directory _ _ _ _ => True
  | _, _ => False

structure Mirrors (storage : Storage) (disk : Disk) (target : Nat) (root : Directory) : Prop where
  complete : ∀ names node, Lists storage.directory root names node →
    ∃ found, disk.files.graph.Descent target names found ∧ Resembles storage node (disk.files.object found)
  exact : ∀ names found, names ≠ [] → disk.files.graph.Descent target names found →
    ∃ node, Lists storage.directory root names node ∧ Resembles storage node (disk.files.object found)

def Recaptures (hash : Bytes → Bytes) (codec : Encoding Directory) (disk : Disk) (path : Bytes) (depth : Nat)
    (digest : Digest) : Prop :=
  ∀ {τ : Type} (stack : Nat) (fileMap digestMap : DigestStringMap) (s : Session Nat τ), depth ≤ stack →
    ∃ captured s', makeNestedDirectory disk.files hash [] false stack disk.files.currentDirectory [] (cString path)
      fileMap s = .ok captured s' ∧ (toDigest hash codec captured.1 digestMap).1 = digest

section Names

variable {hash : Bytes → Bytes} {storage : Storage} {directory : Directory}

theorem WellFormed.admitted (wellFormed : WellFormed hash storage directory) : Admitted hash storage directory := by
  refine ⟨wellFormed.names, wellFormed.targets, fun node member => ?_⟩
  obtain ⟨data, known, same⟩ := wellFormed.blobs node member
  exact ⟨data, known, by rw [same]⟩

theorem dir_mem_nodes {name : Bytes} {digest : Digest} :
    (name, .dir digest) ∈ directory.nodes ↔ ⟨name, digest⟩ ∈ directory.directories := by
  rw [mem_nodes]
  constructor
  next =>
    rintro (⟨node, -, other⟩ | ⟨node, member, same⟩ | ⟨node, -, other⟩)
    next => cases other
    next =>
      cases same
      exact member
    next => cases other
  next => exact fun member => .inr (.inl ⟨_, member, rfl⟩)

theorem file_mem_nodes (wellFormed : WellFormed hash storage directory) {name : Bytes} {digest : Digest}
    {executable : Bool} :
    (name, .file digest executable) ∈ directory.nodes ↔ ⟨name, digest, executable, none⟩ ∈ directory.files := by
  rw [mem_nodes]
  constructor
  next =>
    rintro (⟨node, member, same⟩ | ⟨node, -, other⟩ | ⟨node, -, other⟩)
    next =>
      have plain := wellFormed.plain_files node member
      cases same
      exact plain ▸ member
    next => cases other
    next => cases other
  next => exact fun member => .inl ⟨_, member, rfl⟩

theorem symlink_mem_nodes (wellFormed : WellFormed hash storage directory) {name target : Bytes} :
    (name, .symlink target) ∈ directory.nodes ↔ ⟨name, target, none⟩ ∈ directory.symlinks := by
  rw [mem_nodes]
  constructor
  next =>
    rintro (⟨node, -, other⟩ | ⟨node, -, other⟩ | ⟨node, member, same⟩)
    next => cases other
    next => cases other
    next =>
      have plain := wellFormed.plain_symlinks node member
      cases same
      exact plain ▸ member
  next => exact fun member => .inr (.inr ⟨_, member, rfl⟩)

theorem eq_of_name {α : Type} {nodes : List α} {name : α → Bytes} (sorted : nodes.Pairwise fun a b => name a < name b)
    {a b : α} (left : a ∈ nodes) (right : b ∈ nodes) (same : name a = name b) : a = b := by
  have distinct : (nodes.map name).Nodup := List.pairwise_map.mpr (sorted.imp ne_of_lt)
  exact List.inj_on_of_nodup_map distinct left right same

theorem nodes_functional (canonical : Canonical directory) {name : Bytes} {first second : Node}
    (left : (name, first) ∈ directory.nodes) (right : (name, second) ∈ directory.nodes) : first = second := by
  rcases mem_nodes.mp left with ⟨a, member, shown⟩ | ⟨a, member, shown⟩ | ⟨a, member, shown⟩ <;>
    obtain ⟨rfl, rfl⟩ := Prod.mk.inj shown <;>
    rcases mem_nodes.mp right with ⟨b, other, shown'⟩ | ⟨b, other, shown'⟩ | ⟨b, other, shown'⟩ <;>
    obtain ⟨named, rfl⟩ := Prod.mk.inj shown'
  next => rw [eq_of_name canonical.files_sorted other member named]
  next => exact absurd named.symm (canonical.files_directories a member b other)
  next => exact absurd named.symm (canonical.files_symlinks a member b other)
  next => exact absurd named (canonical.files_directories b other a member)
  next => rw [eq_of_name canonical.directories_sorted other member named]
  next => exact absurd named.symm (canonical.directories_symlinks a member b other)
  next => exact absurd named (canonical.files_symlinks b other a member)
  next => exact absurd named (canonical.directories_symlinks b other a member)
  next => rw [eq_of_name canonical.symlinks_sorted other member named]

end Names

theorem isExecutable_filePermissions (executable : Bool) (contents : Bytes) (mtime : Int) :
    isExecutable (.regular contents (Fin.ofNat _ (filePermissions executable)) mtime : FileObject Nat) =
      executable := by
  cases executable <;> simp [isExecutable, FileObject.stMode, filePermissions]

section Entries

variable {hash : Bytes → Bytes} {storage : Storage} (uncollided : Uncollided storage) {directory : Directory}
    (wellFormed : WellFormed hash storage directory)
  (whole : ∀ node ∈ directory.symlinks, NulFree node.target)

include uncollided wellFormed whole

theorem resembles_of_depicts {name : Bytes} {node : Node} (listed : (name, node) ∈ directory.nodes)
    {object : FileObject Nat} (depicts : storage.Depicts True node object) : Resembles storage node object := by
  rcases mem_nodes.mp listed with ⟨a, member, shown⟩ | ⟨a, member, shown⟩ | ⟨a, member, shown⟩ <;>
    obtain ⟨rfl, rfl⟩ := Prod.mk.inj shown
  next =>
    cases object with
    | directory | symlink => exact depicts.elim
    | regular contents permissions mtime =>
      obtain ⟨⟨size, stored⟩, moded⟩ := depicts
      obtain rfl := moded trivial
      obtain ⟨data, known, -⟩ := wellFormed.blobs a member
      obtain rfl := uncollided _ data _ contents known stored rfl
      exact ⟨known, isExecutable_filePermissions _ _ _⟩
  next =>
    cases object with
    | regular | symlink => exact depicts.elim
    | directory => trivial
  next =>
    cases object with
    | regular | directory => exact depicts.elim
    | symlink stored =>
      obtain rfl : stored = cString a.target := depicts
      exact cString_of_nulFree (whole a member)

variable {low here : Nat} {disk : Disk} (placed : storage.Placed True low disk here directory.nodes)

include placed

theorem entry_of_node {name : Bytes} {node : Node} (listed : (name, node) ∈ directory.nodes) :
    ∃ found, disk.find here name = some found ∧ Resembles storage node (disk.files.object found) := by
  obtain ⟨found, entry, -⟩ := placed.complete listed
  obtain ⟨-, other, shown, depicts⟩ := placed.sound entry
  obtain rfl := nodes_functional wellFormed.canonical shown listed
  exact ⟨found, entry, resembles_of_depicts uncollided wellFormed whole listed depicts⟩

theorem node_of_entry {name : Bytes} {found : Nat} (entry : disk.find here name = some found) :
    ∃ node, (name, node) ∈ directory.nodes ∧ Resembles storage node (disk.files.object found) := by
  obtain ⟨-, node, listed, depicts⟩ := placed.sound entry
  exact ⟨node, listed, resembles_of_depicts uncollided wellFormed whole listed depicts⟩

omit uncollided whole placed in
theorem fileAt_of_resembles {name : Bytes} {digest : Digest} {executable : Bool} {found : Nat}
    (listed : (name, .file digest executable) ∈ directory.nodes)
    (shown : Resembles storage (.file digest executable) (disk.files.object found)) :
    fileAt disk.files hash [] found = some ⟨digest, executable, none⟩ := by
  obtain ⟨data, known, same⟩ := wellFormed.blobs _ ((file_mem_nodes wellFormed).mp listed)
  cases object : disk.files.object found with
  | directory | symlink =>
    rw [object] at shown
    exact shown.elim
  | regular contents permissions mtime =>
    rw [object] at shown
    obtain ⟨stored, rfl⟩ := shown
    obtain rfl := Option.some.inj (known.symm.trans stored)
    simp [fileAt, FileSystem.read, object, ← same]

theorem file_entry_iff {name : Bytes} {file : File} :
    (∃ found, disk.files.graph.enter here (.down name) = .ok found ∧ fileAt disk.files hash [] found = some file) ↔
      file.toFilenode name ∈ directory.files := by
  constructor
  next =>
    rintro ⟨found, entered, regular⟩
    obtain ⟨node, listed, shown⟩ := node_of_entry uncollided wellFormed whole placed (Disk.find_eq_some.mpr entered)
    cases node with
    | file digest executable =>
      have read := fileAt_of_resembles wellFormed listed shown
      obtain rfl := Option.some.inj (read.symm.trans regular)
      exact (file_mem_nodes wellFormed).mp listed
    | symlink | dir =>
      cases object : disk.files.object found with
      | regular =>
        rw [object] at shown
        exact shown.elim
      | directory | symlink => simp [fileAt, FileSystem.read, object] at regular
  next =>
    intro member
    have timeless : file.mtime = none := Option.map_eq_none_iff.mp (wellFormed.plain_files _ member)
    obtain ⟨digest, executable, mtime⟩ := file
    obtain rfl : mtime = none := timeless
    have listed := (file_mem_nodes wellFormed).mpr member
    obtain ⟨found, entry, shown⟩ := entry_of_node uncollided wellFormed whole placed listed
    exact ⟨found, Disk.find_eq_some.mp entry, fileAt_of_resembles wellFormed listed shown⟩

theorem symlink_entry_iff {name target : Bytes} :
    (∃ found, disk.files.graph.enter here (.down name) = .ok found ∧ disk.files.object found = .symlink target) ↔
      symlinkNode (name, target) ∈ directory.symlinks := by
  constructor
  next =>
    rintro ⟨found, entered, link⟩
    obtain ⟨node, listed, shown⟩ := node_of_entry uncollided wellFormed whole placed (Disk.find_eq_some.mpr entered)
    rw [link] at shown
    cases node with
    | file | dir => exact shown.elim
    | symlink other =>
      obtain rfl : target = other := shown
      exact (symlink_mem_nodes wellFormed).mp listed
  next =>
    intro member
    obtain ⟨found, entry, shown⟩ := entry_of_node uncollided wellFormed whole placed
      ((symlink_mem_nodes wellFormed).mpr member)
    refine ⟨found, Disk.find_eq_some.mp entry, ?_⟩
    cases object : disk.files.object found with
    | regular | directory =>
      rw [object] at shown
      exact shown.elim
    | symlink stored =>
      rw [object] at shown
      exact congrArg FileObject.symlink shown

theorem subdir_entry_iff {name : Bytes} :
    (∃ found, disk.files.graph.enter here (.down name) = .ok found ∧ disk.files.graph.IsDirectory found) ↔
      ∃ digest, ⟨name, digest⟩ ∈ directory.directories := by
  constructor
  next =>
    rintro ⟨found, entered, isDirectory⟩
    obtain ⟨parent, entries, permissions, mtime, object⟩ := (FileSystem.isDirectory_iff found).mp isDirectory
    obtain ⟨node, listed, shown⟩ := node_of_entry uncollided wellFormed whole placed (Disk.find_eq_some.mpr entered)
    rw [object] at shown
    cases node with
    | file | symlink => exact shown.elim
    | dir digest => exact ⟨digest, dir_mem_nodes.mp listed⟩
  next =>
    rintro ⟨digest, member⟩
    obtain ⟨found, entry, shown⟩ := entry_of_node uncollided wellFormed whole placed (dir_mem_nodes.mpr member)
    refine ⟨found, Disk.find_eq_some.mp entry, (FileSystem.isDirectory_iff found).mpr ?_⟩
    cases object : disk.files.object found with
    | regular | symlink =>
      rw [object] at shown
      exact shown.elim
    | directory => exact ⟨_, _, _, _, rfl⟩

end Entries

theorem lists_of_node {find : Digest → Option Directory} {directory : Directory} {name : Bytes} {node : Node}
    (listed : (name, node) ∈ directory.nodes) : Lists find directory [name] node := by
  rcases mem_nodes.mp listed with ⟨a, member, shown⟩ | ⟨a, member, shown⟩ | ⟨a, member, shown⟩ <;>
    obtain ⟨rfl, rfl⟩ := Prod.mk.inj shown
  next => exact .file member
  next => exact .dir member
  next => exact .symlink member

section Tree

variable {hash : Bytes → Bytes} {storage : Storage} (uncollided : Uncollided storage) {root : Directory}
  (wellFormed : ∀ directory, Contains storage.directory root directory → WellFormed hash storage directory)
  (whole : ∀ directory, Contains storage.directory root directory → ∀ node ∈ directory.symlinks, NulFree node.target)
  {low : Nat} {disk : Disk}

include uncollided wellFormed whole

theorem descent_of_lists {here : Nat} (placed : storage.Placed True low disk here root.nodes) {names : List Bytes}
    {node : Node} (lists : Lists storage.directory root names node) :
    ∃ found, disk.files.graph.Descent here names found ∧ Resembles storage node (disk.files.object found) := by
  have alone {directory : Directory} {here : Nat} {name : Bytes} {node : Node}
      (good : WellFormed hash storage directory) (links : ∀ node ∈ directory.symlinks, NulFree node.target)
      (placed : storage.Placed True low disk here directory.nodes) (listed : (name, node) ∈ directory.nodes) :
      ∃ found, disk.files.graph.Descent here [name] found ∧ Resembles storage node (disk.files.object found) := by
    obtain ⟨found, entry, shown⟩ := entry_of_node uncollided good links placed listed
    exact ⟨found, .inside (Disk.find_eq_some.mp entry) (.here found), shown⟩
  induction lists generalizing here with
  | @file directory node member =>
    exact alone (wellFormed _ (.self _)) (whole _ (.self _)) placed (mem_nodes.mpr (.inl ⟨node, member, rfl⟩))
  | @symlink directory node member =>
    exact alone (wellFormed _ (.self _)) (whole _ (.self _)) placed (mem_nodes.mpr (.inr (.inr ⟨node, member, rfl⟩)))
  | @dir directory node member =>
    exact alone (wellFormed _ (.self _)) (whole _ (.self _)) placed (mem_nodes.mpr (.inr (.inl ⟨node, member, rfl⟩)))
  | @inside directory child node names inner member found _ ih =>
    have listed : (node.name, .dir node.digest) ∈ directory.nodes := mem_nodes.mpr (.inr (.inl ⟨node, member, rfl⟩))
    obtain ⟨sub, entry, -⟩ := placed.complete listed
    obtain ⟨target, descent, shown⟩ := ih (fun other deeper => wellFormed other (.inside member found deeper))
      (fun other deeper => whole other (.inside member found deeper)) (placed.inside listed found entry)
    exact ⟨target, .inside (Disk.find_eq_some.mp entry) descent, shown⟩

theorem lists_of_descent {here found : Nat} (placed : storage.Placed True low disk here root.nodes) {names : List Bytes}
    (some : names ≠ []) (descent : disk.files.graph.Descent here names found) :
    ∃ node, Lists storage.directory root names node ∧ Resembles storage node (disk.files.object found) := by
  induction descent generalizing root with
  | here => exact absurd rfl some
  | @inside here next target name names entered below ih =>
    have entry := Disk.find_eq_some.mpr entered
    obtain ⟨node, listed, shown⟩ := node_of_entry uncollided (wellFormed _ (.self _)) (whole _ (.self _)) placed entry
    cases below with
    | here => exact ⟨node, lists_of_node listed, shown⟩
    | inside entered' below' =>
      obtain ⟨parent, entries, permissions, mtime, kind⟩ :=
        (FileSystem.isDirectory_iff next).mp (Graph.isDirectory_of_enter entered')
      rw [kind] at shown
      cases node with
      | file | symlink => exact shown.elim
      | dir digest =>
        have member := dir_mem_nodes.mp listed
        obtain ⟨child, known, -⟩ := (wellFormed _ (.self _)).subdirectories _ member
        obtain ⟨inner, lists, shown⟩ := ih (fun other deeper => wellFormed other (.inside member known deeper))
          (fun other deeper => whole other (.inside member known deeper)) (placed.inside listed known entry) (by simp)
        exact ⟨inner, .inside member known lists, shown⟩

theorem mirrors_of_placed {here : Nat} (placed : storage.Placed True low disk here root.nodes) :
    Mirrors storage disk here root :=
  ⟨fun _ _ => descent_of_lists uncollided wellFormed whole placed,
    fun _ _ => lists_of_descent uncollided wellFormed whole placed⟩

theorem message_of_captured {here : Nat} {nd : NestedDirectory} (captured : Captured disk.files hash [] here nd)
    (placed : storage.Placed True low disk here root.nodes) : message hash storage.format nd = root := by
  induction captured generalizing root with
  | @mk here nd directory ordered files symlinks subdirs below ih =>
    have good := wellFormed root (.self root)
    have links := whole root (.self root)
    have sameFiles : (message hash storage.format nd).files = root.files := by
      rw [message_files]
      refine map_eq_of_get ordered.files _ FileNode.name (fun _ => rfl) good.canonical.files_sorted
        (fun name file held => ?_) fun node member => ?_
      next => exact (file_entry_iff uncollided good links placed).mp ((files name file).mp held)
      next =>
        have shape : File.toFilenode ⟨node.digest, node.isExecutable, none⟩ node.name = node := by
          rw [File.toFilenode, Option.map_none, ← good.plain_files node member]
        have held := (file_entry_iff uncollided good links placed).mpr (shape.symm ▸ member)
        exact ⟨_, (files _ _).mpr held, shape⟩
    have sameSymlinks : (message hash storage.format nd).symlinks = root.symlinks := by
      rw [message_symlinks]
      refine map_eq_of_get ordered.symlinks _ SymlinkNode.name (fun _ => rfl) good.canonical.symlinks_sorted
        (fun name target held => ?_) fun node member => ?_
      next => exact (symlink_entry_iff uncollided good links placed).mp ((symlinks name target).mp held)
      next =>
        have shape : symlinkNode (node.name, node.target) = node := by
          rw [symlinkNode, ← good.plain_symlinks node member]
        have held := (symlink_entry_iff uncollided good links placed).mpr (shape.symm ▸ member)
        exact ⟨_, (symlinks _ _).mpr held, shape⟩
    have digest_of {name : Bytes} {sub : NestedDirectory} {digest : Digest} (held : get name nd.subdirs = some sub)
        (member : ⟨name, digest⟩ ∈ root.directories) :
        digest = digestOf hash storage.format (message hash storage.format sub) := by
      obtain ⟨child, known, same⟩ := good.subdirectories _ member
      obtain ⟨found, entered, -⟩ := (subdirs name).mp ⟨sub, held⟩
      rw [ih name sub found held entered (fun other deeper => wellFormed other (.inside member known deeper))
        (fun other deeper => whole other (.inside member known deeper))
        (placed.inside (dir_mem_nodes.mpr member) known (Disk.find_eq_some.mpr entered))]
      exact same
    have sameDirectories : (message hash storage.format nd).directories = root.directories := by
      rw [message_directories]
      refine map_eq_of_get ordered.subdirs _ DirectoryNode.name (fun _ => rfl) good.canonical.directories_sorted
        (fun name sub held => ?_) fun node member => ?_
      next =>
        obtain ⟨digest, listed⟩ := (subdir_entry_iff uncollided good links placed).mp
          ((subdirs name).mp ⟨sub, held⟩)
        exact digest_of held listed ▸ listed
      next =>
        obtain ⟨sub, held⟩ := (subdirs node.name).mpr
          ((subdir_entry_iff uncollided good links placed).mpr ⟨node.digest, member⟩)
        exact ⟨_, held, congrArg (DirectoryNode.mk node.name) (digest_of held member).symm⟩
    have samePlain : (message hash storage.format nd).nodeProperties = root.nodeProperties := by
      rw [good.plain]
      cases nd
      rfl
    obtain ⟨files', directories', symlinks', properties⟩ := root
    exact congr (congr (congr (congrArg Directory.mk sameFiles) sameDirectories) sameSymlinks) samePlain

omit uncollided whole in
theorem openable_of_placed {depth here : Nat} (deep : Deep storage.directory depth root)
    (placed : storage.Placed True low disk here root.nodes)
    (granted : ∀ node, low ≤ node → node < disk.next → disk.files.denied node = none) :
    Openable disk.files depth here := by
  induction depth generalizing root here with
  | zero => exact deep.elim
  | succ depth ih =>
    refine ⟨placed.directory, fun name fd entered plain => ?_⟩
    have entry := Disk.find_eq_some.mpr entered
    obtain ⟨late, node, listed, depicts⟩ := placed.sound entry
    refine ⟨by rw [FileSystem.granted, granted fd late (Disk.find_used entry)], fun directory => ?_⟩
    obtain ⟨parent, entries, permissions, mtime, object⟩ := (FileSystem.isDirectory_iff fd).mp directory
    rw [object] at depicts
    cases node with
    | file | symlink => exact depicts.elim
    | dir digest =>
      have member := dir_mem_nodes.mp listed
      obtain ⟨child, known, -⟩ := (wellFormed _ (.self _)).subdirectories _ member
      exact ih (fun other deeper => wellFormed other (.inside member known deeper)) (deep _ member child known)
        (placed.inside listed known entry)

theorem recaptures_of_placed {depth here : Nat} (deep : Deep storage.directory depth root)
    (placed : storage.Placed True low disk here root.nodes)
    (granted : ∀ node, low ≤ node → node < disk.next → disk.files.denied node = none)
    (opens : disk.files.denied here = none) {path : Bytes} {old : Nat → Prop} {normalized : Prop}
    (denotes : disk.Denotes old normalized path here) :
    Recaptures hash storage.format disk path depth (digestOf hash storage.format root) := by
  intro τ stack fileMap digestMap s enough
  obtain ⟨parent, entries, permissions, mtime, object⟩ := (FileSystem.isDirectory_iff here).mp denotes.directory
  have opened : disk.files.openat disk.files.currentDirectory path ⟨true, false⟩ = .ok here := by
    simp only [FileSystem.openat, Bool.not_false, denotes.pathname, object, FileSystem.granted, opens]
  have openable := openable_of_placed wellFormed deep placed granted
  rw [cString_of_nulFree denotes.free]
  obtain ⟨captured, s', run⟩ := @makeNestedDirectory_returns Nat τ disk.files hash [] here depth stack openable enough
    disk.files.currentDirectory [] path opened fileMap s
  refine ⟨captured, s', run, ?_⟩
  have ended := @makeNestedDirectory_captures Nat τ disk.files hash [] here stack disk.files.currentDirectory [] path
    (fun other found => Except.ok.inj (found.symm.trans opened)) fileMap s s rfl
  rw [run] at ended
  rw [toDigest_eq, message_of_captured uncollided wellFormed whole ended.captured placed]

end Tree

theorem downloadDirectory_recaptured {client : Client σ} {storage : Storage} (stores : Stores client storage)
    (environment : Environment σ) (sorting : SizeSort Digest fun d => d.sizeBytes)
    (uncollided : Uncollided storage) {root : Directory}
      (known : storage.directory (digestOf client.hash storage.format root) = some root)
    (wellFormed : ∀ directory, Contains storage.directory root directory → WellFormed client.hash storage directory)
    (whole : ∀ directory, Contains storage.directory root directory → ∀ node ∈ directory.symlinks, NulFree node.target)
    {depth : Nat} (deep : Deep storage.directory depth root) {path : Bytes} {target : Nat} {s s' : Session ι (World σ)}
    (fresh : s.server.journal = []) (receives : Receives s.server.disk (HasFiles storage root) path target)
    (opens : s.server.disk.files.denied target = none) {stack : Nat}
    (run : client.outside.downloadDirectory environment.host sorting storage.format stack
      (digestOf client.hash storage.format root) path s = .ok () s')
    (clean : Clean s'.server.journal) (moded : ModesSet s'.server.journal) :
    Mirrors storage s'.server.disk target root ∧ Recaptures client.hash storage.format s'.server.disk path depth
      (digestOf client.hash storage.format root) := by
  have ended := @downloadDirectory_runs ι σ client storage stores environment sorting s.server.disk target stack _ root known
    (fun directory contained => (wellFormed directory contained).admitted) path receives s ⟨rfl, fresh⟩
  rw [run] at ended
  have placed := (ended.placed clean).mono (fun _ : True => moded) le_rfl
  have within := ended.stage.within
  have denotes := receives.level.now within
  have open' : s'.server.disk.files.denied target = none :=
    (within.denied target receives.level.denotes.used).trans opens
  exact ⟨mirrors_of_placed uncollided wellFormed whole placed,
    recaptures_of_placed uncollided wellFormed whole deep placed within.granted open' denotes⟩

section Samples

theorem eq_of_one_slash {first second rest others : Bytes} (same : first ++ slash :: rest = second ++ slash :: others)
    (plain : slash ∉ second) (plain' : slash ∉ others) : first = second := by
  rcases List.append_eq_append_iff.mp same with ⟨more, rfl, shape⟩ | ⟨more, rfl, shape⟩
  next =>
    cases more with
    | nil => exact (List.append_nil _).symm
    | cons byte more =>
      obtain ⟨rfl, -⟩ := List.cons.inj shape
      exact absurd (by simp) plain
  next =>
    cases more with
    | nil => exact List.append_nil _
    | cons byte more =>
      obtain ⟨rfl, rfl⟩ := List.cons.inj shape
      exact absurd (by simp) plain'

theorem wireData_named : ∀ blob ∈ wireData,
    wireHash blob.2 = blob.1 ∧ slash ∉ blob.1 ∧ slash ∉ text (toString blob.2.length) := by decide +kernel

theorem wire_uncollided : Uncollided wireStorage := by
  have addressed {key : Bytes × Int} {data : Bytes} (stored : wireStorage.blobs key = some data) :
    key.1 = wireHash data := by
    obtain ⟨blob, found, rfl⟩ := Option.map_eq_some_iff.mp stored
    obtain ⟨hashed, plain, plain'⟩ := wireData_named blob (List.mem_of_find?_eq_some found)
    have same : text "blobs/" ++ blob.1 ++ text "/" ++ text (toString blob.2.length) =
        text "blobs/" ++ key.1 ++ text "/" ++ text (toString key.2) := by simpa using List.find?_some found
    have separator : text "/" = [slash] := rfl
    rw [separator, List.append_assoc, List.append_assoc, List.append_assoc, List.append_assoc,
      List.append_cancel_left_eq] at same
    rw [hashed]
    exact (eq_of_one_slash same.symm plain plain').trans rfl
  intro key data key' data' stored stored' same
  rw [addressed stored, addressed stored'] at same
  exact wireHash_injective same

theorem canonical_listed {directories : List Directory} (listed : ∀ directory ∈ directories,
      directory.files.Pairwise (fun a b => a.name < b.name) ∧
        directory.directories.Pairwise (fun a b => a.name < b.name) ∧
        directory.symlinks.Pairwise (fun a b => a.name < b.name) ∧ directory.names.Nodup) {directory : Directory}
    (member : directory ∈ directories) : Canonical directory := by
  obtain ⟨files, subdirectories, symlinks, distinct⟩ := listed directory member
  rw [Directory.names, List.append_assoc, List.nodup_append, List.nodup_append] at distinct
  obtain ⟨-, ⟨-, -, among⟩, apart⟩ := distinct
  refine ⟨files, subdirectories, symlinks, fun a left b right => ?_, fun a left b right => ?_, fun a left b right => ?_⟩
  next => exact apart _ (List.mem_map_of_mem left) _ (List.mem_append_right _ (List.mem_map_of_mem right))
  next => exact apart _ (List.mem_map_of_mem left) _ (List.mem_append_left _ (List.mem_map_of_mem right))
  next => exact (among _ (List.mem_map_of_mem right) _ (List.mem_map_of_mem left)).symm

theorem wire_wellFormed {directories : List Directory} (canonical : ∀ directory ∈ directories,
      directory.files.Pairwise (fun a b => a.name < b.name) ∧
        directory.directories.Pairwise (fun a b => a.name < b.name) ∧
        directory.symlinks.Pairwise (fun a b => a.name < b.name) ∧ directory.names.Nodup)
    (named : ∀ directory ∈ directories, (∀ name ∈ directory.names, IsName name) ∧
      (∀ node ∈ directory.symlinks, node.target ≠ [] ∧ node.nodeProperties = none) ∧ directory.nodeProperties = none)
    (files : ∀ directory ∈ directories, ∀ node ∈ directory.files, node.digest = ⟨xHash, 1, []⟩ ∧
      node.nodeProperties = none)
    (known : ∀ directory ∈ directories, ∀ node ∈ directory.directories, ∃ child ∈ directories,
      wireStorage.directory node.digest = some child ∧ node.digest = digestOf wireHash wireStorage.format child)
    {directory : Directory} (member : directory ∈ directories) : WellFormed wireHash wireStorage directory where
  canonical := canonical_listed canonical member
  names := (named directory member).1
  targets node among := ((named directory member).2.1 node among).1
  plain := (named directory member).2.2
  plain_files node among := (files directory member node among).2
  plain_symlinks node among := ((named directory member).2.1 node among).2
  blobs node among := by
    rw [(files directory member node among).1]
    exact stored_x
  subdirectories node among := by
    obtain ⟨child, -, found⟩ := known directory member node among
    exact ⟨child, found⟩

def leafAbove : Directory :=
  ⟨[xNode (text "f")], [nodeOf "e" 0xe3b0c44298fc1c149afbf4c8996fb92427ae41e4649b934ca495991b7852b855 0], [], none⟩

def mixedTree : Directory :=
  ⟨[runFile], [nodeOf "d" 0x7faee42c2ee72df8a00fcc7c1e75e9736c42d3025c1a55b85913bd594faf80f3 148],
    [⟨text "l", text "d/f", none⟩], none⟩

def returned : EStateM.Result Exn (Session Bool (World Unit)) Unit → Option (World Unit)
  | .ok _ s => some s.server
  | .error _ _ => none

theorem mixedTree_known :
    wireStorage.directory (digestOf wireHash wireStorage.format mixedTree) = some mixedTree ∧
    (∀ node ∈ mixedTree.directories, node.digest = digestOf wireHash wireStorage.format leafAbove ∧
      wireStorage.directory node.digest = some leafAbove) ∧
    ∀ node ∈ leafAbove.directories, node.digest = digestOf wireHash wireStorage.format ⟨[], [], [], none⟩ ∧
      wireStorage.directory node.digest = some ⟨[], [], [], none⟩ := by decide +kernel

theorem downloaded_returns :
    (returned (downloaded mixedTree (text "elsewhere/out"))).map (fun w =>
      decide (∀ operation ∈ w.journal, ∀ path ∈ operation.call.paths, operation.call = .fchmod path →
        operation.answer.isOk = true)) = some true ∧
    (returned (downloaded singleFile detour)).map (fun w => (w.disk.find 5 (text "buildboxAAAAAA")).isSome) =
      some true := by decide +kernel

theorem modesSet_of_answers {journal : List Operation} (answered : ∀ operation ∈ journal, ∀ path ∈ operation.call.paths,
    operation.call = .fchmod path → operation.answer.isOk = true) : ModesSet journal := by
  intro operation member path same
  have fine := answered operation member path (by simp [same, SystemCall.paths]) same
  cases shape : operation.answer with
  | ok done => rfl
  | error errno =>
    rw [shape] at fine
    cases fine

theorem returned_eq_some {ran : EStateM.Result Exn (Session Bool (World Unit)) Unit} {w : World Unit}
    (found : returned ran = some w) : ∃ s', ran = .ok () s' ∧ s'.server = w := by
  cases ran with
  | ok done s' => exact ⟨s', rfl, Option.some.inj found⟩
  | error e s' => cases found

theorem mixedTree_children : ∀ parent ∈ [mixedTree, leafAbove, ⟨[], [], [], none⟩], ∀ node ∈ parent.directories,
    ∃ child ∈ [mixedTree, leafAbove, ⟨[], [], [], none⟩],
      wireStorage.directory node.digest = some child ∧ node.digest = digestOf wireHash wireStorage.format child := by
  obtain ⟨-, above, below⟩ := mixedTree_known
  intro parent among node member
  simp only [List.mem_cons, List.not_mem_nil, or_false] at among
  rcases among with rfl | rfl | rfl
  · exact ⟨leafAbove, by simp, (above node member).2, (above node member).1⟩
  · exact ⟨⟨[], [], [], none⟩, by simp, (below node member).2, (below node member).1⟩
  · cases member

theorem mixedTree_closed : ∀ parent ∈ [mixedTree, leafAbove, ⟨[], [], [], none⟩], ∀ node ∈ parent.directories,
    wireStorage.directory node.digest ∈ [mixedTree, leafAbove, ⟨[], [], [], none⟩].map some := by
  intro parent among node member
  obtain ⟨child, listed, found, -⟩ := mixedTree_children parent among node member
  exact found ▸ List.mem_map_of_mem listed

theorem mixedTree_wellFormed (directory : Directory) (contained : Contains wireStorage.directory mixedTree directory) :
    WellFormed wireHash wireStorage directory :=
  wire_wellFormed (by decide) (by decide) (by decide) mixedTree_children (contained.among mixedTree_closed (by simp))

theorem mixedTree_deep : Deep wireStorage.directory 3 mixedTree := by
  obtain ⟨-, above, below⟩ := mixedTree_known
  refine @Deep.above _ _ [leafAbove] _ (fun node member => by simp [(above node member).2]) fun child member => ?_
  obtain rfl := List.mem_singleton.mp member
  refine @Deep.above _ _ [⟨[], [], [], none⟩] _
    (fun node member => by simp [(below node member).2]) fun child member => ?_
  obtain rfl := List.mem_singleton.mp member
  exact nofun

theorem mixedTree_unpicked : Unpicked calmEnvironment wireStorage mixedTree := by
  rintro suffix ⟨template, state, rfl⟩ directory contained node member
  have apart : ∀ directory ∈ [mixedTree, leafAbove, ⟨[], [], [], none⟩], ∀ node ∈ directory.files,
      text "buildboxAAAAAA" ≠ node.name := by decide
  exact apart directory (contained.among mixedTree_closed (by simp)) node member

theorem mixedTree_returned : ∃ s', downloaded mixedTree (text "elsewhere/out") = .ok () s' ∧
    ModesSet s'.server.journal := by
  obtain ⟨w, found, fine⟩ := Option.map_eq_some_iff.mp downloaded_returns.1
  obtain ⟨s', run, rfl⟩ := returned_eq_some found
  exact ⟨s', run, modesSet_of_answers (of_decide_eq_true fine)⟩

theorem downloadDirectory_recaptured_mixed : ∃ s', downloaded mixedTree (text "elsewhere/out") = .ok () s' ∧
    Mirrors wireStorage s'.server.disk 5 mixedTree ∧
    Recaptures wireHash wireStorage.format s'.server.disk (text "elsewhere/out") 3
      (digestOf wireHash wireStorage.format mixedTree) := by
  obtain ⟨s', run, moded⟩ := mixedTree_returned
  obtain ⟨known, -⟩ := mixedTree_known
  have whole : ∀ directory ∈ [mixedTree, leafAbove, ⟨[], [], [], none⟩], ∀ node ∈ directory.symlinks,
      NulFree node.target := by decide
  refine ⟨s', run, ?_⟩
  unfold downloaded at run
  have only {other : Directory}
    (found : wireStorage.directory (digestOf wireHash wireStorage.format mixedTree) = some other) :
    other = mixedTree := Option.some.inj (found.symm.trans known)
  have admitted (other : Directory)
      (found : wireStorage.directory (digestOf wireHash wireStorage.format mixedTree) = some other)
        (directory : Directory)
      (contained : Contains wireStorage.directory other directory) : Admitted wireHash wireStorage directory := by
    rw [only found] at contained
    exact (mixedTree_wellFormed directory contained).admitted
  have unpicked (other : Directory)
      (found : wireStorage.directory (digestOf wireHash wireStorage.format mixedTree) = some other) :
      Unpicked calmEnvironment wireStorage other := (only found).symm ▸ mixedTree_unpicked
  have cleaned := @downloadDirectory_clean Bool Unit wireClient wireStorage wire_stores calmEnvironment
    (SizeSort.stable _ _) 4 (digestOf wireHash wireStorage.format mixedTree) admitted unpicked (text "elsewhere/out")
    (by decide) (by decide)
  have fresh : Clean detourSession.server.journal := List.forall_mem_nil _
  have clean := cleaned.of_ok fresh run
  exact downloadDirectory_recaptured wire_stores calmEnvironment (SizeSort.stable _ _) wire_uncollided known
    mixedTree_wellFormed (fun directory contained => whole directory (contained.among mixedTree_closed (by simp)))
    mixedTree_deep rfl (receives_elsewhere mixedTree) rfl run clean moded

theorem singleFile_wellFormed (directory : Directory)
    (contained : Contains wireStorage.directory singleFile directory) :
    WellFormed wireHash wireStorage directory :=
  @wire_wellFormed [singleFile] (by decide) (by decide) (by decide) (List.forall_mem_singleton.mpr nofun) _
    (contained.among (by decide) (by simp))

theorem downloadDirectory_leaves_temporary : Stores wireClient wireStorage ∧ Uncollided wireStorage ∧
    wireStorage.directory (digestOf wireHash wireStorage.format singleFile) = some singleFile ∧
    (∀ directory, Contains wireStorage.directory singleFile directory → WellFormed wireHash wireStorage directory) ∧
    detourDisk.files.pathname true detourDisk.files.currentDirectory detour = .ok 5 ∧
    detourDisk.files.object 5 = .directory 3 [] 0o755 0 ∧
    ∃ s', downloaded singleFile detour = .ok () s' ∧ ¬Mirrors wireStorage s'.server.disk 5 singleFile := by
  obtain ⟨w, found, present⟩ := Option.map_eq_some_iff.mp downloaded_returns.2
  obtain ⟨s', run, rfl⟩ := returned_eq_some found
  obtain ⟨-, -, known, -⟩ := wire_holds
  obtain ⟨-, -, -, denotes⟩ := downloaded_journals
  refine ⟨wire_stores, wire_uncollided, known, singleFile_wellFormed, denotes, rfl, s', run, fun mirrors => ?_⟩
  obtain ⟨node, entry⟩ := Option.isSome_iff_exists.mp present
  obtain ⟨other, lists, -⟩ := mirrors.exact [text "buildboxAAAAAA"] node (by simp)
    (.inside (Disk.find_eq_some.mp entry) (.here node))
  generalize shape : text "buildboxAAAAAA" = name at lists
  cases lists with
  | file member =>
    obtain rfl := List.mem_singleton.mp member
    exact absurd shape (by decide)
  | symlink member => cases member
  | dir member => cases member
  | inside member found below => cases member

end Samples

end BuildboxCommon.Client
