import BuildboxCommon.Merklize.ToDigest

set_option autoImplicit false

namespace BuildboxCommon.NestedDirectory

open ByteString FileUtils

section Model

variable (hash : Bytes → Bytes) (codec : Encoding Directory)

mutual

def toTree : NestedDirectory → Tree
  | ⟨files, symlinks, subdirs⟩ =>
    let (directories, children) := subtreeNodes subdirs
    ⟨⟨files.map fun entry => entry.2.toFilenode entry.1, directories, symlinks.map symlinkNode, none⟩, children⟩

def subtreeNodes : List (Bytes × NestedDirectory) → List DirectoryNode × List Directory
  | [] => ([], [])
  | (name, subdir) :: rest =>
    let subtree := toTree subdir
    let (directories, children) := subtreeNodes rest
    (⟨name, makeDigest hash (codec.serializeAsString subtree.root)⟩ :: directories,
      subtree.children ++ subtree.root :: children)

end

end Model

mutual

def descendants : NestedDirectory → List NestedDirectory
  | ⟨_, _, subdirs⟩ => descendantsOf subdirs

def descendantsOf : List (Bytes × NestedDirectory) → List NestedDirectory
  | [] => []
  | (_, subdir) :: rest => subdir :: descendants subdir ++ descendantsOf rest

end

variable {hash : Bytes → Bytes} {codec : Encoding Directory}

theorem toTree_eq (nd : NestedDirectory) :
    toTree hash codec nd = ⟨message hash codec nd, subdirMessages hash codec nd.subdirs⟩ := by
  induction nd using NestedDirectory.induction with
  | step files symlinks subdirs ih =>
    have nodes : subtreeNodes hash codec subdirs =
        (directoryNodes hash codec subdirs, subdirMessages hash codec subdirs) := by
      induction subdirs with
      | nil => rfl
      | cons first rest ihRest =>
        obtain ⟨name, subdir⟩ := first
        have here := ih (name, subdir) (by simp)
        have later := ihRest fun entry member => ih entry (by simp [member])
        obtain ⟨files, symlinks, inner⟩ := subdir
        simp [subtreeNodes, here, later, directoryNodes, subdirMessages, messages, NestedDirectory.subdirs]
    simp [toTree, nodes, message, NestedDirectory.subdirs]

theorem messages_perm (nd : NestedDirectory) :
    (messages hash codec nd).Perm ((nd :: descendants nd).map (message hash codec)) ∧
      (subdirMessages hash codec nd.subdirs).Perm ((descendants nd).map (message hash codec)) := by
  induction nd using NestedDirectory.induction with
  | step files symlinks subdirs ih =>
    have below : (subdirMessages hash codec subdirs).Perm ((descendantsOf subdirs).map (message hash codec)) := by
      induction subdirs with
      | nil => exact .refl _
      | cons first rest ihRest =>
        obtain ⟨name, subdir⟩ := first
        have here := (ih (name, subdir) (by simp)).1
        have later := ihRest fun entry member => ih entry (by simp [member])
        rw [subdirMessages, descendantsOf, List.map_append]
        exact here.append later
    refine ⟨?_, below⟩
    rw [messages, List.map_cons, descendants]
    exact List.perm_append_singleton _ _ |>.trans (below.cons _)

def CollisionFree (hash : Bytes → Bytes) (codec : Encoding Directory) (nd : NestedDirectory) : Prop :=
  ∀ first ∈ messages hash codec nd, ∀ second ∈ messages hash codec nd,
    (digestOf hash codec first).key = (digestOf hash codec second).key →
      codec.serializeAsString first = codec.serializeAsString second

structure TreeFits (hash : Bytes → Bytes) (codec : Encoding Directory) (nd : NestedDirectory) (tree : Tree)
    (digested : Digest × DigestStringMap) : Prop where
  root : makeDigest hash (codec.serializeAsString tree.root) = digested.1
  children : tree.children.Perm ((descendants nd).map (message hash codec))
  keyed : ∀ child ∈ tree.children, ∃ other ∈ messages hash codec nd,
    (digestOf hash codec other).key = (digestOf hash codec child).key ∧
      digested.2.find (makeDigest hash (codec.serializeAsString child)) = some (codec.serializeAsString other)
  stored : CollisionFree hash codec nd → ∀ child ∈ tree.children,
    digested.2.find (makeDigest hash (codec.serializeAsString child)) = some (codec.serializeAsString child)
  closed : ∀ directory ∈ tree.root :: tree.children, ∀ node ∈ directory.directories,
    ∃ child ∈ tree.children, node.digest = makeDigest hash (codec.serializeAsString child)

-- Of the messages with one digest the last one is kept.
theorem find_last {nd : NestedDirectory} {directory : Directory} (member : directory ∈ messages hash codec nd)
    (digestMap : DigestStringMap) : ∃ other ∈ messages hash codec nd,
      (digestOf hash codec other).key = (digestOf hash codec directory).key ∧
        (toDigest hash codec nd digestMap).2.find (digestOf hash codec directory) =
          some (codec.serializeAsString other) := by
  rw [toDigest_eq]
  obtain ⟨blob, found⟩ := (UnorderedMap.exists_find_foldl_assign (digestOf hash codec) codec.serializeAsString
    (messages hash codec nd) digestMap (digestOf hash codec directory)).mpr (.inl ⟨directory, member, rfl⟩)
  rcases (UnorderedMap.find_foldl_assign _ _ _ _ _ _).mp found with ⟨before, other, after, split, same, -, rfl⟩ |
    ⟨none, -⟩
  next => exact ⟨other, by simp [split], same, found⟩
  next => exact absurd rfl (none directory member)

theorem toTree_fits (hash : Bytes → Bytes) (codec : Encoding Directory) (nd : NestedDirectory)
    (digestMap : DigestStringMap) :
    TreeFits hash codec nd (toTree hash codec nd) (toDigest hash codec nd digestMap) := by
  have tree := @toTree_eq hash codec nd
  refine ⟨?_, ?_, ?_, ?_, ?_⟩
  next => rw [tree, toDigest_eq, digestOf]
  next =>
    rw [tree]
    exact (messages_perm nd).2
  next =>
    intro child member
    rw [tree] at member
    exact find_last (subdirMessages_subset hash codec nd member) digestMap
  next =>
    intro free child member
    rw [tree] at member
    have listed := subdirMessages_subset hash codec nd member
    obtain ⟨other, among, same, found⟩ := find_last listed digestMap
    rwa [free other among child listed same] at found
  next =>
    intro directory member node listed
    rw [tree] at member ⊢
    refine closed_messages hash codec ?_ listed
    rcases List.mem_cons.mp member with rfl | below
    next => exact message_mem hash codec nd
    next => exact subdirMessages_subset hash codec nd below

def dirAndLink : NestedDirectory :=
  ⟨[], [(text "l", text "d")], [(text "d", ⟨[(text "f", hashedFile)], [], [(text "e", empty)]⟩)]⟩

theorem dirAndLink_collisionFree : CollisionFree wireHash wireCodec dirAndLink := by
  unfold CollisionFree
  decide +kernel

theorem toTree_fits_dirAndLink :
    TreeFits wireHash wireCodec dirAndLink (toTree wireHash wireCodec dirAndLink)
      (toDigest wireHash wireCodec dirAndLink .empty) ∧
    ∀ child ∈ (toTree wireHash wireCodec dirAndLink).children,
      (toDigest wireHash wireCodec dirAndLink .empty).2.find (makeDigest wireHash (wireCodec.serializeAsString child)) =
        some (wireCodec.serializeAsString child) :=
  ⟨toTree_fits wireHash wireCodec dirAndLink .empty,
    (toTree_fits wireHash wireCodec dirAndLink .empty).stored dirAndLink_collisionFree⟩

end BuildboxCommon.NestedDirectory
