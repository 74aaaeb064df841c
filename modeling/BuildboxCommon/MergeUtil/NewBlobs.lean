import BuildboxCommon.MergeUtil.Neutral

set_option autoImplicit false

namespace BuildboxCommon.MergeUtil

open ByteString FileUtils NestedDirectory

inductive Reachable (codec : Encoding Directory) (find : Digest → Option Bytes) (root : Digest) : Digest → Prop where
  | root : Reachable codec find root root
  | child {digest : Digest} {blob : Bytes} {node : DirectoryNode} (reached : Reachable codec find root digest)
    (found : find digest = some blob) (listed : node ∈ (codec.parseFromString blob).directories) :
    Reachable codec find root node.digest

def uploaded (blobs : DigestStringMap) (list : List Digest) (cas : Digest → Option Bytes) (digest : Digest) :
    Option Bytes :=
  if digest ∈ list then blobs.find digest else cas digest

section Spec

variable (hash : Bytes → Bytes) (codec : Encoding Directory)

def HoldsTree (cas : Digest → Option Bytes) (tree : List Directory) : Prop :=
  ∀ directory ∈ tree, cas (digestOf hash codec directory) = some (codec.serializeAsString directory)

structure MergedBlobs (inputTree templateTree : List Directory) (after : MergeOutputs) (list : List Digest) : Prop where
  hashed : ∀ entry ∈ after.newDirectoryBlobs.entries, makeDigest hash entry.2 = entry.1
  closed : ∀ entry ∈ after.newDirectoryBlobs.entries, ∀ node ∈ (codec.parseFromString entry.2).directories,
    ∃ blob, after.newDirectoryBlobs.find node.digest = some blob
  reachable : ∀ digest, digest ∈ after.newDirectoryBlobs.entries.map Prod.fst ↔
    Reachable codec after.newDirectoryBlobs.find after.rootDigest digest
  listed : after.mergedDirectoryList = some list
  distinct : list.Nodup
  fresh : ∀ digest, digest ∈ list ↔ digest ∈ after.newDirectoryBlobs.entries.map Prod.fst ∧
    ∀ directory ∈ inputTree ++ templateTree, digestOf hash codec directory ≠ digest
  complete : ∀ cas, HoldsTree hash codec cas (inputTree ++ templateTree) → ∀ digest,
    Reachable codec (uploaded after.newDirectoryBlobs list cas) after.rootDigest digest →
      ∃ blob, after.newDirectoryBlobs.find digest = some blob ∧
        uploaded after.newDirectoryBlobs list cas digest = some blob

end Spec

section Stored

variable {hash : Bytes → Bytes} (injective : Function.Injective hash) {codec : Codec Directory} {nd : NestedDirectory}

theorem message_listed {entry : Bytes × NestedDirectory} (member : entry ∈ nd.subdirs) :
    ⟨entry.1, digestOf hash codec (message hash codec entry.2)⟩ ∈ (message hash codec nd).directories := by
  rw [message_directories]
  exact List.mem_map_of_mem member

theorem reachable_iff {find : Digest → Option Bytes} (stored : HoldsTree hash codec find (messages hash codec nd))
    (digest : Digest) : Reachable codec find (digestOf hash codec (message hash codec nd)) digest ↔
      ∃ directory ∈ messages hash codec nd, digest = digestOf hash codec directory := by
  constructor
  next =>
    intro reached
    induction reached with
    | root => exact ⟨_, message_mem hash codec nd, rfl⟩
    | child reached found listed ih =>
      obtain ⟨directory, member, rfl⟩ := ih
      rw [stored directory member, Option.some.injEq] at found
      rw [← found, codec.parse_serialize] at listed
      obtain ⟨child, below, same⟩ := closed_messages hash codec member listed
      exact ⟨child, subdirMessages_subset hash codec nd below, same⟩
  next =>
    rintro ⟨directory, member, rfl⟩
    have below (root : Digest) (sub : NestedDirectory) (within : messages hash codec sub ⊆ messages hash codec nd)
        (start : Reachable codec find root (digestOf hash codec (message hash codec sub)))
        (member : directory ∈ messages hash codec sub) : Reachable codec find root (digestOf hash codec directory) := by
      induction sub using NestedDirectory.induction with
      | step files symlinks subdirs ih =>
        rcases (mem_messages hash codec).mp member with rfl | ⟨entry, listed, inside⟩
        next => exact start
        next =>
          have found := stored _ (within (message_mem hash codec _))
          have next := Reachable.child start found (by rw [codec.parse_serialize]; exact message_listed listed)
          refine ih entry listed (fun other among => within ?_) next inside
          exact (mem_messages hash codec).mpr (.inr ⟨entry, listed, among⟩)
    exact below _ nd (List.Subset.refl _) .root member

variable {inputTree templateTree : List Directory} {stack : Nat} {iteration : Iteration} {outputs after : MergeOutputs}

theorem not_among_iff (digest : Digest) :
    (buildDigestDirectoryMap hash codec templateTree
      (buildDigestDirectoryMap hash codec inputTree .empty)).find digest =
      none ↔ ∀ directory ∈ inputTree ++ templateTree, (digestOf hash codec directory).key ≠ digest.key := by
  have joined : buildDigestDirectoryMap hash codec templateTree (buildDigestDirectoryMap hash codec inputTree .empty) =
      buildDigestDirectoryMap hash codec (inputTree ++ templateTree) .empty := by simp [buildDigestDirectoryMap]
  rw [joined, find_digestDirectoryMap, Option.map_eq_none_iff, childOf, List.find?_eq_none]
  simp

include injective

theorem mem_keys_iff (digest : Digest) :
    digest ∈ ((messages hash codec nd).foldl (store hash codec) .empty).entries.map Prod.fst ↔
      ∃ directory ∈ messages hash codec nd, digest = digestOf hash codec directory := by
  have keys := @stored_keys hash codec (messages hash codec nd) .empty (by simp [UnorderedMap.empty])
  rw [List.mem_map]
  constructor
  next =>
    rintro ⟨entry, member, rfl⟩
    rcases mem_stored member with none | ⟨directory, among, -, blob⟩
    next => simp [UnorderedMap.empty] at none
    next => exact ⟨directory, among, by rw [← keys entry member, blob, digestOf]⟩
  next =>
    rintro ⟨directory, member, rfl⟩
    have found := (find_stored injective (messages hash codec nd) .empty (digestOf hash codec directory) _).mpr
      (.inl ⟨directory, member, rfl, rfl⟩)
    obtain ⟨key, -, held⟩ := (UnorderedMap.find_eq_some _ _ _).mp found
    exact ⟨_, held, (keys _ held).symm⟩

theorem mergedBlobs_of_messages {list : List Digest}
    (root : after.rootDigest = digestOf hash codec (message hash codec nd))
    (blobs : after.newDirectoryBlobs = (messages hash codec nd).foldl (store hash codec) .empty)
    (listed : after.mergedDirectoryList = some list) (distinct : list.Nodup)
    (fresh : ∀ digest, digest ∈ list ↔ digest ∈ after.newDirectoryBlobs.entries.map Prod.fst ∧
      ∀ directory ∈ inputTree ++ templateTree, digestOf hash codec directory ≠ digest) :
    MergedBlobs hash codec inputTree templateTree after list := by
  have keys := @mem_keys_iff _ injective codec nd
  have stored : HoldsTree hash codec after.newDirectoryBlobs.find (messages hash codec nd) := by
    intro directory member
    rw [blobs]
    exact (find_stored injective _ _ _ _).mpr (.inl ⟨directory, member, rfl, rfl⟩)
  refine ⟨?_, ?_, ?_, listed, distinct, fresh, ?_⟩
  next =>
    rw [blobs]
    exact stored_keys (by simp [UnorderedMap.empty])
  next =>
    intro entry member node among
    rw [blobs] at member
    rcases mem_stored member with none | ⟨directory, inside, -, blob⟩
    next => simp [UnorderedMap.empty] at none
    next =>
      rw [blob, codec.parse_serialize] at among
      obtain ⟨child, below, same⟩ := closed_messages hash codec inside among
      exact ⟨_, same ▸ stored child (subdirMessages_subset hash codec nd below)⟩
  next =>
    intro digest
    rw [root, reachable_iff stored, blobs, keys]
  next =>
    intro cas holds digest reached
    have kept : HoldsTree hash codec (uploaded after.newDirectoryBlobs list cas) (messages hash codec nd) := by
      intro directory member
      unfold uploaded
      split
      next => exact stored directory member
      next absent =>
        have there : digestOf hash codec directory ∈ after.newDirectoryBlobs.entries.map Prod.fst := by
          rw [blobs, keys]
          exact ⟨directory, member, rfl⟩
        rw [fresh, not_and, not_forall] at absent
        obtain ⟨other, old⟩ := absent there
        rw [not_forall, not_not] at old
        obtain ⟨among, same⟩ := old
        rw [← digestOf_injective injective (congrArg Digest.key same)]
        exact holds other among
    rw [root, reachable_iff kept] at reached
    obtain ⟨directory, member, rfl⟩ := reached
    exact ⟨_, stored directory member, kept directory member⟩

theorem createMergedDigest_mergedBlobs (blobs : outputs.newDirectoryBlobs = .empty)
    (listed : outputs.mergedDirectoryList = some [])
    (created : createMergedDigest hash codec stack iteration inputTree templateTree outputs = .ok (true, after)) :
    ∃ list, MergedBlobs hash codec inputTree templateTree after list := by
  obtain ⟨map, merged, newBlobs, -, -, same, rfl⟩ := result_of_created created
  rw [blobs] at same
  have perm := iteration.newDirectoryBlobs.perm newBlobs
  rw [listed, Option.map_some, List.nil_append]
  refine ⟨_, mergedBlobs_of_messages injective rfl same rfl ?_ ?_⟩
  next =>
    have keys : ((iteration.newDirectoryBlobs.visit newBlobs).map fun it => it.1.key).Nodup :=
      (perm.map _).nodup_iff.mpr newBlobs.distinct
    have visited : ((iteration.newDirectoryBlobs.visit newBlobs).map Prod.fst).Nodup :=
      List.Nodup.of_map Digest.key (by rwa [List.map_map])
    exact visited.sublist (List.filter_sublist.map _)
  next =>
    intro digest
    have keys := @mem_keys_iff _ injective codec merged digest
    rw [← same] at keys
    rw [← (perm.map Prod.fst).mem_iff, List.mem_map]
    simp only [List.mem_filter, decide_eq_true_eq, not_among_iff]
    constructor
    next =>
      rintro ⟨it, ⟨member, fresh⟩, rfl⟩
      exact ⟨List.mem_map_of_mem member, fun directory among equal => fresh directory among (congrArg Digest.key equal)⟩
    next =>
      rintro ⟨member, fresh⟩
      obtain ⟨held, -, rfl⟩ := keys.mp ((perm.map Prod.fst).mem_iff.mp member)
      obtain ⟨it, visited, there⟩ := List.mem_map.mp member
      refine ⟨it, ⟨visited, fun directory among alike => fresh directory among ?_⟩, there⟩
      rw [there] at alike
      rw [digestOf_injective injective alike]

end Stored

section Samples

def filesBelow (names : List Bytes) : List (Bytes × NestedDirectory) :=
  [(text "d", ⟨names.map fun name => (name, hashedFile), [], []⟩)]

def fileBelow : NestedDirectory := ⟨[], [], filesBelow [text "f"]⟩

def fileAndLink : NestedDirectory := ⟨[], [(text "l", text "d")], filesBelow [text "g"]⟩

def filesAndLink : NestedDirectory := ⟨[], [(text "l", text "d")], filesBelow [text "f", text "g"]⟩

noncomputable def fileBelowTree : DirectoryTree := treeOf wireHash wireCodec fileBelow

noncomputable def fileAndLinkTree : DirectoryTree := treeOf wireHash wireCodec fileAndLink

def nodesOfBoth : List (Bytes × Node) :=
  [(text "d", .dir (nodeOf "d" 0x0d423f10af9adc1f16ebfc16921bce09e40d6506db29f2f1b248deb485b39f88 75).digest),
    (text "d/f", .file hashedFile.digest false), (text "l", .symlink (text "d")),
    (text "d", .dir (nodeOf "d" 0x5162ad3b45918119d770053502285f652524edd44b764121ec5657a45ea6b622 75).digest),
    (text "d/g", .file hashedFile.digest false)]

theorem nodesOf_both : nodesOf (childOf wireHash wireCodec (fileBelowTree.list ++ fileAndLinkTree.list)) 2
      fileBelowTree.root [] ++
    nodesOf (childOf wireHash wireCodec (fileBelowTree.list ++ fileAndLinkTree.list)) 2 fileAndLinkTree.root [] =
      nodesOfBoth := by
  decide +kernel

theorem merged_both : ∃ map, nodesOfBoth.foldlM addVisit .empty = .ok map ∧
    NestedDirectory.empty.putAll (placementsOf map.entries) = filesAndLink := ⟨_, rfl, rfl⟩

theorem created_both : ∃ after, createMergedDigest wireHash wireCodec 2 ⟨.asStored, .asStored⟩ fileBelowTree.list
    fileAndLinkTree.list emptyOutputs = .ok (true, after) ∧
      after.mergedDirectoryList =
        some ((messages wireHash wireCodec filesAndLink).map (digestOf wireHash wireCodec)) := by
  have given (directory : Directory) : wireCodec.parseFromString (wireCodec.serializeAsString directory) = directory :=
    wireCodec.parse_serialize directory
  have deep (nd : NestedDirectory) (enough : height nd ≤ 2)
      (within : (treeOf wireHash wireCodec nd).list ⊆ fileBelowTree.list ++ fileAndLinkTree.list) :
      Deep (parsedChild wireHash wireCodec (fileBelowTree.list ++ fileAndLinkTree.list)) 2
        (message wireHash wireCodec nd) :=
    deep_message ((treeOf_whole nd).findsBelow wireHash_injective (fun directory _ => given directory) within) enough
  have flattened := flattenTrees_nodes (deep fileBelow (by decide) (List.subset_append_left _ _))
    (deep fileAndLink (by decide) (List.subset_append_right _ _))
  obtain ⟨map, added, merged⟩ := merged_both
  rw [parsedChild_eq] at flattened
  have flattened := (flattened.trans (congrArg _ nodesOf_both)).trans added
  obtain ⟨list, created⟩ := createMergedDigest_of_map flattened ⟨.asStored, .asStored⟩ emptyOutputs
  refine ⟨_, created, ?_⟩
  obtain ⟨map', nd, blobs, again, rfl, rfl, same⟩ := result_of_created created
  obtain rfl := Except.ok.inj (again.symm.trans flattened)
  rw [same, show IterationOrder.asStored.visit map' = map'.entries from rfl, merged]
  decide +kernel

theorem createMergedDigest_mergedBlobs_both : ∃ after list,
    createMergedDigest wireHash wireCodec 2
      ⟨.asStored, .asStored⟩ fileBelowTree.list fileAndLinkTree.list emptyOutputs =
      .ok (true, after) ∧
    list = (messages wireHash wireCodec filesAndLink).map (digestOf wireHash wireCodec) ∧
    MergedBlobs wireHash wireCodec fileBelowTree.list fileAndLinkTree.list after list := by
  obtain ⟨after, created, listed⟩ := created_both
  obtain ⟨list, blobs⟩ := createMergedDigest_mergedBlobs wireHash_injective rfl rfl created
  exact ⟨after, list, created, Option.some.inj (blobs.listed.symm.trans listed), blobs⟩

end Samples

end BuildboxCommon.MergeUtil
