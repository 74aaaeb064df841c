import BuildboxCommon.Merklize.ToDigest

set_option autoImplicit false

namespace BuildboxCommon

open ByteString FileUtils

def parseTimestamp (timestamp : Timestamp) : Int :=
  timestamp.seconds * 1000000000 + timestamp.nanos.tdiv 1000 * 1000

theorem parseTimestamp_makeTimestamp (mtime : Int) : parseTimestamp (makeTimestamp mtime) = mtime.tdiv 1000 * 1000 := by
  have whole : (mtime.tdiv 1000 % 1000000 * 1000).tdiv 1000 = mtime.tdiv 1000 % 1000000 :=
    Int.mul_tdiv_cancel _ (by decide)
  have split := Int.mul_ediv_add_emod (mtime.tdiv 1000) 1000000
  simp only [parseTimestamp, makeTimestamp, whole]
  omega

-- Times are cut off to microseconds towards the epoch.
def File.atMicroseconds (file : File) : File :=
  { file with mtime := file.mtime.map fun mtime => mtime.tdiv 1000 * 1000 }

def FileNode.toFile (node : FileNode) : File :=
  ⟨node.digest, node.isExecutable, (node.nodeProperties.bind NodeProperties.mtime).map parseTimestamp⟩

theorem File.toFile_toFilenode (file : File) (name : Bytes) : (file.toFilenode name).toFile = file.atMicroseconds := by
  obtain ⟨digest, executable, mtime⟩ := file
  cases mtime with
  | none => rfl
  | some mtime => simp [toFilenode, FileNode.toFile, atMicroseconds, parseTimestamp_makeTimestamp]

theorem File.toFilenode_atMicroseconds (file : File) (name : Bytes) :
    file.atMicroseconds.toFilenode name = file.toFilenode name := by
  obtain ⟨digest, executable, mtime⟩ := file
  cases mtime with
  | none => rfl
  | some mtime => simp [toFilenode, atMicroseconds, makeTimestamp]

namespace NestedDirectory

mutual

def atMicroseconds : NestedDirectory → NestedDirectory
  | ⟨files, symlinks, subdirs⟩ =>
    ⟨files.map fun entry => (entry.1, entry.2.atMicroseconds), symlinks, subdirsAtMicroseconds subdirs⟩

def subdirsAtMicroseconds : List (Bytes × NestedDirectory) → List (Bytes × NestedDirectory)
  | [] => []
  | (name, subdir) :: rest => (name, atMicroseconds subdir) :: subdirsAtMicroseconds rest

end

mutual

def height : NestedDirectory → Nat
  | ⟨_, _, subdirs⟩ => heightOf subdirs + 1

def heightOf : List (Bytes × NestedDirectory) → Nat
  | [] => 0
  | (_, subdir) :: rest => max (height subdir) (heightOf rest)

end

def decode (codec : Encoding Directory) (find : Digest → Option Bytes) : Nat → Digest → Option NestedDirectory
  | 0, _ => none
  | depth + 1, digest =>
    (find digest).bind fun blob =>
      let directory := codec.parseFromString blob
      (directory.directories.mapM fun node =>
        (decode codec find depth node.digest).map fun subdir => (node.name, subdir)).map fun subdirs =>
          ⟨directory.files.map fun node => (node.name, node.toFile),
            directory.symlinks.map fun node => (node.name, node.target), subdirs⟩

theorem subdirsAtMicroseconds_eq (subdirs : List (Bytes × NestedDirectory)) :
    subdirsAtMicroseconds subdirs = subdirs.map fun entry => (entry.1, entry.2.atMicroseconds) := by
  induction subdirs with
  | nil => rfl
  | cons first rest ih => simp [subdirsAtMicroseconds, ih]

theorem height_le_heightOf {subdirs : List (Bytes × NestedDirectory)} {entry : Bytes × NestedDirectory}
    (member : entry ∈ subdirs) : height entry.2 ≤ heightOf subdirs := by
  induction subdirs with
  | nil => simp at member
  | cons first rest ih =>
    rw [heightOf]
    rcases List.mem_cons.mp member with rfl | later
    next => exact le_max_left _ _
    next => exact (ih later).trans (le_max_right _ _)

theorem mapM_eq_some {α β : Type} {f : α → Option β} {g : α → β} {xs : List α}
    (each : ∀ x ∈ xs, f x = some (g x)) : xs.mapM f = some (xs.map g) := by
  induction xs with
  | nil => rfl
  | cons x xs ih =>
    have first := each x (by simp)
    have others := ih fun y member => each y (by simp [member])
    simp [List.mapM_cons, first, others]

theorem toFile_filenodes (files : List (Bytes × File)) :
    (files.map fun entry => entry.2.toFilenode entry.1).map (fun node => (node.name, node.toFile)) =
      files.map fun entry => (entry.1, entry.2.atMicroseconds) := by
  rw [List.map_map]
  exact List.map_congr_left fun entry _ => Prod.ext rfl (File.toFile_toFilenode entry.2 entry.1)

theorem target_symlinkNodes (symlinks : List (Bytes × Bytes)) :
    (symlinks.map symlinkNode).map (fun node => (node.name, node.target)) = symlinks := by
  rw [List.map_map]
  exact List.map_id' symlinks

section Decode

variable {hash : Bytes → Bytes} {codec : Encoding Directory} {find : Digest → Option Bytes}

theorem decode_message {codec : Codec Directory} {nd : NestedDirectory} {depth : Nat} (deep : height nd ≤ depth)
    (stored : ∀ directory ∈ messages hash codec nd,
      find (digestOf hash codec directory) = some (codec.serializeAsString directory)) :
    decode codec find depth (digestOf hash codec (message hash codec nd)) = some nd.atMicroseconds := by
  induction nd using NestedDirectory.induction generalizing depth with
  | step files symlinks subdirs ih =>
    rw [height] at deep
    obtain ⟨depth, rfl⟩ := Nat.exists_eq_add_of_le' (Nat.le_of_add_left_le deep)
    have below : ((directoryNodes hash codec subdirs).mapM fun node =>
        (decode codec find depth node.digest).map fun subdir => (node.name, subdir)) =
          some (subdirsAtMicroseconds subdirs) := by
      rw [directoryNodes_eq, List.mapM_map, subdirsAtMicroseconds_eq]
      refine mapM_eq_some fun entry member => ?_
      have lower : height entry.2 ≤ depth := (height_le_heightOf member).trans (Nat.le_of_succ_le_succ deep)
      have decoded := ih entry member lower fun directory listed =>
        stored directory ((mem_messages hash codec).mpr (.inr ⟨entry, member, listed⟩))
      simp [decoded]
    rw [decode, stored _ (message_mem hash codec _), Option.bind_some]
    simp only [codec.parse_serialize, message, below, toFile_filenodes, target_symlinkNodes, Option.map_some,
      atMicroseconds]

theorem directoryNodes_injective {first second : List (Bytes × NestedDirectory)}
    (each : ∀ entry ∈ first, ∀ other : NestedDirectory,
      digestOf hash codec (message hash codec entry.2) = digestOf hash codec (message hash codec other) →
        entry.2.atMicroseconds = other.atMicroseconds)
    (same : directoryNodes hash codec first = directoryNodes hash codec second) :
    subdirsAtMicroseconds first = subdirsAtMicroseconds second := by
  induction first generalizing second with
  | nil =>
    cases second with
    | nil => rfl
    | cons => simp [directoryNodes] at same
  | cons entry first ih =>
    cases second with
    | nil => simp [directoryNodes] at same
    | cons other second =>
      obtain ⟨name, subdir⟩ := entry
      obtain ⟨name', subdir'⟩ := other
      simp only [directoryNodes, List.cons.injEq, DirectoryNode.mk.injEq] at same
      obtain ⟨⟨rfl, digests⟩, rest⟩ := same
      have here := each (name, subdir) (by simp) subdir' digests
      have later := ih (fun entry member => each entry (by simp [member])) rest
      simp only [subdirsAtMicroseconds, here, later]

theorem message_atMicroseconds (nd : NestedDirectory) :
    message hash codec nd.atMicroseconds = message hash codec nd := by
  induction nd using NestedDirectory.induction with
  | step files symlinks subdirs ih =>
    have below : directoryNodes hash codec (subdirsAtMicroseconds subdirs) = directoryNodes hash codec subdirs := by
      rw [subdirsAtMicroseconds_eq, directoryNodes_eq, directoryNodes_eq, List.map_map]
      exact List.map_congr_left fun entry member => by rw [Function.comp_apply, ih entry member]
    simp [atMicroseconds, message, below, File.toFilenode_atMicroseconds, Function.comp_def]

variable (injective : Function.Injective hash)

include injective

theorem atMicroseconds_eq_of_digest {first second : NestedDirectory}
    (same : digestOf hash codec (message hash codec first) = digestOf hash codec (message hash codec second)) :
    first.atMicroseconds = second.atMicroseconds := by
  induction first using NestedDirectory.induction generalizing second with
  | step files symlinks subdirs ih =>
    obtain ⟨files', symlinks', subdirs'⟩ := second
    have messages := digestOf_injective injective (congrArg Digest.key same)
    simp only [message, Directory.mk.injEq, and_true] at messages
    obtain ⟨sameFiles, sameSubdirs, sameSymlinks⟩ := messages
    have files_eq := congrArg (List.map fun node => (node.name, FileNode.toFile node)) sameFiles
    have symlinks_eq := congrArg (List.map fun node => (node.name, SymlinkNode.target node)) sameSymlinks
    have subdirs_eq := directoryNodes_injective (fun entry member other => ih entry member) sameSubdirs
    rw [toFile_filenodes, toFile_filenodes] at files_eq
    rw [target_symlinkNodes, target_symlinkNodes] at symlinks_eq
    simp only [atMicroseconds, files_eq, symlinks_eq, subdirs_eq]

end Decode

section Stored

variable {hash : Bytes → Bytes} {codec : Encoding Directory}

structure Restorable (hash : Bytes → Bytes) (codec : Encoding Directory) (nd : NestedDirectory) (digest : Digest)
    (digestMap : DigestStringMap) : Prop where
  keys : ∀ entry ∈ digestMap.entries, makeDigest hash entry.2 = entry.1
  closed : ∀ entry ∈ digestMap.entries, ∀ node ∈ (codec.parseFromString entry.2).directories,
    ∃ blob, digestMap.find node.digest = some blob
  decoded : ∀ depth, height nd ≤ depth → decode codec digestMap.find depth digest = some nd.atMicroseconds

theorem mem_stored {directories : List Directory} {digestMap : DigestStringMap} {entry : Digest × Bytes}
    (member : entry ∈ (directories.foldl (store hash codec) digestMap).entries) :
    entry ∈ digestMap.entries ∨ ∃ directory ∈ directories,
      entry.1.key = (digestOf hash codec directory).key ∧ entry.2 = codec.serializeAsString directory := by
  induction directories using List.reverseRecOn with
  | nil => exact .inl member
  | append_singleton directories directory ih =>
    rw [List.foldl_append, List.foldl_cons, List.foldl_nil, store] at member
    rcases UnorderedMap.mem_assign member with old | ⟨key, blob, -⟩
    next =>
      refine (ih old).imp_right ?_
      rintro ⟨other, listed, shape⟩
      exact ⟨other, List.mem_append_left _ listed, shape⟩
    next => exact .inr ⟨directory, by simp, key, blob⟩

theorem stored_keys {directories : List Directory} {digestMap : DigestStringMap}
    (keys : ∀ entry ∈ digestMap.entries, makeDigest hash entry.2 = entry.1) :
    ∀ entry ∈ (directories.foldl (store hash codec) digestMap).entries, makeDigest hash entry.2 = entry.1 := by
  induction directories generalizing digestMap with
  | nil => exact keys
  | cons directory directories ih =>
    refine ih fun entry member => ?_
    rcases UnorderedMap.mem_assign member with old | ⟨key, blob, same | ⟨held, old⟩⟩
    next => exact keys entry old
    next => rw [blob, same, digestOf]
    next =>
      -- The key that was there before belongs to a blob of the same digest.
      have before := keys _ old
      rw [blob, ← before]
      exact makeDigest_eq_of_key (by rw [before, key, digestOf])

variable (injective : Function.Injective hash)

include injective

theorem toDigest_restorable {codec : Codec Directory} (nd : NestedDirectory) :
    Restorable hash codec nd (toDigest hash codec nd .empty).1 (toDigest hash codec nd .empty).2 := by
  have stored (directory : Directory) (member : directory ∈ messages hash codec nd) :
      (toDigest hash codec nd .empty).2.find (digestOf hash codec directory) =
        some (codec.serializeAsString directory) := find_message injective member
  refine ⟨?_, ?_, ?_⟩
  next =>
    rw [toDigest_eq]
    exact stored_keys (by simp [UnorderedMap.empty])
  next =>
    intro entry member node listed
    have kept := member
    rw [toDigest_eq] at kept
    rcases mem_stored kept with none | ⟨directory, among, -, blob⟩
    next => simp [UnorderedMap.empty] at none
    next =>
      rw [blob, codec.parse_serialize] at listed
      obtain ⟨child, below, same⟩ := closed_messages hash codec among listed
      exact ⟨_, same ▸ stored child (subdirMessages_subset hash codec nd below)⟩
  next =>
    intro depth deep
    have root : (toDigest hash codec nd .empty).1 = digestOf hash codec (message hash codec nd) :=
      congrArg Prod.fst (toDigest_eq hash codec nd .empty)
    rw [root]
    exact decode_message deep stored

theorem toDigest_faithful (codec : Codec Directory) (first : NestedDirectory) :
    Restorable hash codec first (toDigest hash codec first .empty).1 (toDigest hash codec first .empty).2 ∧
      ∀ second : NestedDirectory,
        (toDigest hash codec first .empty).1.key = (toDigest hash codec second .empty).1.key ↔
          first.atMicroseconds = second.atMicroseconds := by
  refine ⟨toDigest_restorable injective first, fun second => ?_⟩
  rw [toDigest_eq, toDigest_eq]
  constructor
  next =>
    intro same
    exact atMicroseconds_eq_of_digest injective (makeDigest_eq_of_key same)
  next =>
    intro same
    rw [← message_atMicroseconds first, same, message_atMicroseconds]

end Stored

def fileAndDirectory : NestedDirectory :=
  ⟨[(text "f", { hashedFile with executable := true, mtime := some 1500 })], [], [(text "d", empty)]⟩

theorem toDigest_faithful_sample :
    Restorable wireHash wireCodec fileAndDirectory (toDigest wireHash wireCodec fileAndDirectory .empty).1
        (toDigest wireHash wireCodec fileAndDirectory .empty).2 ∧
      ∀ second : NestedDirectory, (toDigest wireHash wireCodec fileAndDirectory .empty).1.key =
          (toDigest wireHash wireCodec second .empty).1.key ↔
        fileAndDirectory.atMicroseconds = second.atMicroseconds :=
  toDigest_faithful wireHash_injective wireCodec fileAndDirectory

end NestedDirectory

end BuildboxCommon
