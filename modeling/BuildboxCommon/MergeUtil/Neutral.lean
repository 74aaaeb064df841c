import BuildboxCommon.MergeUtil.MeetingOrder

set_option autoImplicit false

namespace BuildboxCommon.MergeUtil

open ByteString FileUtils NestedDirectory OrderedEntries

section Neutral

variable (hash : Bytes → Bytes) (codec : Encoding Directory)

structure TreeOf (nd : NestedDirectory) (tree : DirectoryTree) : Prop where
  root : tree.root = message hash codec nd
  rest : ∀ directory, directory ∈ tree.rest ↔ directory ∈ subdirMessages hash codec nd.subdirs

def emptyTree : DirectoryTree := ⟨⟨[], [], [], none⟩, []⟩

def Yields (stack : Nat) (inputTree templateTree : DirectoryTree) (digest : Digest) : Prop :=
  ∀ iteration outputs, ∃ after, createMergedDigest hash codec stack iteration inputTree.list templateTree.list outputs =
    .ok (true, after) ∧ after.rootDigest = digest

structure Reproduced (stack : Nat) (nd : NestedDirectory) (tree : DirectoryTree) : Prop where
  before_empty : Yields hash codec stack tree emptyTree (toDigest hash codec nd .empty).1
  after_empty : Yields hash codec stack emptyTree tree (toDigest hash codec nd .empty).1
  twice : Yields hash codec stack tree tree (toDigest hash codec nd .empty).1

variable {hash codec} {stack : Nat} {inputTree templateTree : DirectoryTree} {nd : NestedDirectory}

theorem flattenTrees_nodes
    (inputDeep : Deep (parsedChild hash codec (inputTree.list ++ templateTree.list)) stack inputTree.root)
    (templateDeep : Deep (parsedChild hash codec (inputTree.list ++ templateTree.list)) stack templateTree.root) :
    flattenTrees codec (buildDigestDirectoryMap hash codec templateTree.list
      (buildDigestDirectoryMap hash codec inputTree.list .empty)) stack inputTree.list templateTree.list =
        (nodesOf (parsedChild hash codec (inputTree.list ++ templateTree.list)) stack inputTree.root [] ++
          nodesOf (parsedChild hash codec (inputTree.list ++ templateTree.list)) stack templateTree.root []).foldlM
            addVisit .empty := by
  have resolves := @resolves_parsedChild hash codec inputTree.list templateTree.list
  rw [List.foldlM_append, ← buildFlattenedPath_nodesOf resolves inputDeep .empty []]
  simp only [← buildFlattenedPath_nodesOf resolves templateDeep]
  rfl

theorem nodesOf_emptyTree (find : Digest → Option Directory) : nodesOf find stack emptyTree.root [] = [] := by
  cases stack <;> rfl

theorem deep_emptyTree (find : Digest → Option Directory) (some : 0 < stack) : Deep find stack emptyTree.root := by
  obtain ⟨depth, rfl⟩ := Nat.exists_eq_add_of_le' some
  exact fun node listed => absurd listed List.not_mem_nil

theorem height_pos (nd : NestedDirectory) : 0 < height nd := by
  cases nd
  exact Nat.succ_pos _

theorem TreeOf.findsBelow {tree : DirectoryTree} (whole : TreeOf hash codec nd tree)
    (injective : Function.Injective hash)
    (given : ∀ directory ∈ subdirMessages hash codec nd.subdirs,
      codec.parseFromString (codec.serializeAsString directory) = directory)
    {directories : List Directory} (within : tree.list ⊆ directories) :
    FindsBelow hash codec (parsedChild hash codec directories) nd := by
  intro directory member
  have listed := within (List.mem_cons_of_mem _ ((whole.rest directory).mpr member))
  rw [parsedChild, childOf_digestOf injective listed, Option.map_some, given directory member]

theorem emplaceAll_of_ok {nodes : List (Bytes × Node)} {map : PathNodeMetaDataMap}
    (added : nodes.foldlM addVisit .empty = .ok map) : map = emplaceAll .empty nodes := by
  obtain ⟨passes, raises⟩ := foldlM_addVisit_empty nodes
  by_cases twice : ListsTwice nodes
  next =>
    obtain ⟨what, raised⟩ := raises twice
    cases added.symm.trans raised
  next => exact Except.ok.inj (added.symm.trans (passes twice))

theorem untimed_operations {operation : NestedDirectory.Operation} {nodes : List (Bytes × Node)}
    {visited : List (Bytes × NodeMetaData)}
    (perm : visited.Perm (emplaceAll .empty nodes).entries)
    (member : operation ∈ visited.map fun it => operationOf it.2) {file : File} (same : operation.entry = .file file) :
    file.mtime = none := by
  obtain ⟨⟨key, node⟩, among, rfl⟩ := List.mem_map.mp member
  have found := (UnorderedMap.find_eq_some _ _ _).mpr ⟨key, rfl, perm.subset among⟩
  rw [find_emplaceAll, Option.map_eq_some_iff] at found
  obtain ⟨⟨path, visit⟩, -, rfl⟩ := found
  cases visit with
  | file digest isExecutable =>
    obtain rfl := Entry.file.inj same
    rfl
  | symlink | dir => cases same

section Whole

variable (ordered : Ordered nd) (enough : height nd ≤ stack)

include ordered enough

theorem yields_of_survives (survives : Survives nd) {nodes : List (Bytes × Node)}
    (finds : FindsBelow hash codec (parsedChild hash codec (inputTree.list ++ templateTree.list)) nd)
    (repeated : nodes = nodesOf (parsedChild hash codec (inputTree.list ++ templateTree.list)) stack
      (message hash codec nd) [] ∨
      nodes = nodesOf (parsedChild hash codec (inputTree.list ++ templateTree.list)) stack (message hash codec nd) [] ++
        nodesOf (parsedChild hash codec (inputTree.list ++ templateTree.list)) stack (message hash codec nd) [])
    (flattened : flattenTrees codec (buildDigestDirectoryMap hash codec templateTree.list
      (buildDigestDirectoryMap hash codec inputTree.list .empty)) stack inputTree.list templateTree.list =
        nodes.foldlM addVisit .empty) :
    Yields hash codec stack inputTree templateTree (toDigest hash codec nd .empty).1 := by
  have rebuilt := survives.toRebuilt
  have turns := nodesOf_takeTurns ordered rebuilt enough finds
  have same (key : Bytes) : nodes.find? (fun other => other.1 = key) =
      (nodesOf (parsedChild hash codec (inputTree.list ++ templateTree.list)) stack (message hash codec nd) []).find?
        fun other => other.1 = key := by
    rcases repeated with rfl | rfl
    next => rfl
    next => rw [List.find?_append, Option.or_self]
  have once : ¬ListsTwice nodes := by
    apply turns.not_listsTwice _ same
    rcases repeated with rfl | rfl <;> simp
  intro iteration outputs
  rw [(foldlM_addVisit_empty nodes).1 once] at flattened
  obtain ⟨list, produced⟩ := createMergedDigest_of_map flattened iteration outputs
  have holds := holds_merged ordered rebuilt enough finds same (iteration.map.perm _)
  have retained := retained_iff.mpr ⟨survives.links, survives.occupied⟩
  have merged : NestedDirectory.empty.putAll (placementsOf (iteration.map.visit (emplaceAll .empty nodes))) = nd :=
    ext_of_holds (Ordered.empty.putAll _) ordered fun path entry => (holds path entry).trans (retained path entry)
  rw [merged] at produced
  exact ⟨_, produced, by rw [toDigest_eq]⟩

variable (injective : Function.Injective hash) {tree : DirectoryTree} (whole : TreeOf hash codec nd tree)
  (given : ∀ directory ∈ subdirMessages hash codec nd.subdirs,
    codec.parseFromString (codec.serializeAsString directory) = directory)

include injective whole given

theorem reproduced_of_survives (survives : Survives nd) : Reproduced hash codec stack nd tree := by
  have positive : 0 < stack := (height_pos nd).trans_le enough
  have deep {find : Digest → Option Directory} (finds : FindsBelow hash codec find nd) : Deep find stack tree.root :=
    whole.root ▸ deep_message finds enough
  constructor
  next =>
    have finds := whole.findsBelow injective given (List.subset_append_left tree.list emptyTree.list)
    apply yields_of_survives ordered enough survives finds (.inl rfl)
    rw [flattenTrees_nodes (deep finds) (deep_emptyTree _ positive), whole.root, nodesOf_emptyTree, List.append_nil]
  next =>
    have finds := whole.findsBelow injective given (List.subset_append_right emptyTree.list tree.list)
    apply yields_of_survives ordered enough survives finds (.inl rfl)
    rw [flattenTrees_nodes (deep_emptyTree _ positive) (deep finds), whole.root, nodesOf_emptyTree, List.nil_append]
  next =>
    have finds := whole.findsBelow injective given (List.subset_append_left tree.list tree.list)
    apply yields_of_survives ordered enough survives finds (.inr rfl)
    rw [flattenTrees_nodes (deep finds) (deep finds), whole.root]

theorem survives_of_yields (yields : Yields hash codec stack tree emptyTree (toDigest hash codec nd .empty).1) :
    Survives nd := by
  have finds := whole.findsBelow injective given (List.subset_append_left tree.list emptyTree.list)
  obtain ⟨after, created, root⟩ := yields ⟨.asStored, .asStored⟩ emptyOutputs
  obtain ⟨map, merged, blobs, flattened, rfl, rfl, rfl⟩ := result_of_created created
  have same : digestOf hash codec (message hash codec (NestedDirectory.empty.putAll (placementsOf map.entries))) =
      digestOf hash codec (message hash codec nd) := by
    rw [toDigest_eq] at root
    exact root
  have positive : 0 < stack := (height_pos nd).trans_le enough
  rw [flattenTrees_nodes (whole.root ▸ deep_message finds enough) (deep_emptyTree _ positive), whole.root,
    nodesOf_emptyTree, List.append_nil] at flattened
  obtain rfl := emplaceAll_of_ok flattened
  have rebuilt : Rebuilt (NestedDirectory.empty.putAll (placementsOf (emplaceAll .empty (nodesOf (parsedChild hash codec
      (tree.list ++ emptyTree.list)) stack (message hash codec nd) [])).entries)) := by
    rw [putAll_placementsOf]
    exact rebuilt_applyAll fun operation member file entry => untimed_operations (.refl _) member entry
  have merged := eq_of_atMicroseconds (Ordered.empty.putAll _) ordered rebuilt.untimed
    (atMicroseconds_eq_of_digest injective same)
  have holds := holds_merged ordered (merged ▸ rebuilt) enough finds (fun _ => rfl) (.refl _)
  rw [merged] at rebuilt holds
  obtain ⟨links, occupied⟩ := retained_iff.mp fun path entry => (holds path entry).symm
  exact ⟨rebuilt, links, occupied⟩

end Whole

def ValidBelow (hash : Bytes → Bytes) (codec : Encoding Directory) (nd : NestedDirectory) : Prop :=
  ∀ directory ∈ subdirMessages hash codec nd.subdirs, utf8 directory = true

theorem createMergedDigest_reproduced_iff (injective : Function.Injective hash) {format : WireFormat Directory}
    (valid : ValidBelow hash format nd) (ordered : Ordered nd) {tree : DirectoryTree}
      (whole : TreeOf hash format nd tree)
    (enough : height nd ≤ stack) : Reproduced hash format stack nd tree ↔ Survives nd := by
  have given (directory : Directory) (member : directory ∈ subdirMessages hash format nd.subdirs) :=
    format.parse_serialize directory (valid directory member)
  constructor
  next => exact fun reproduced => survives_of_yields ordered enough injective whole given reproduced.before_empty
  next => exact reproduced_of_survives ordered enough injective whole given

section Samples

def treeOf (hash : Bytes → Bytes) (codec : Encoding Directory) (nd : NestedDirectory) : DirectoryTree :=
  ⟨message hash codec nd, subdirMessages hash codec nd.subdirs⟩

theorem treeOf_whole (nd : NestedDirectory) : TreeOf hash codec nd (treeOf hash codec nd) := ⟨rfl, fun _ => Iff.rfl⟩

theorem get_single {β : Type} {key name : Bytes} {value stored : β} (found : get name [(key, value)] = some stored) :
    name = key ∧ value = stored := by
  rw [get_cons, get_nil] at found
  split_ifs at found with same
  exact ⟨same, Option.some.inj found⟩

def linkAndDirectory : NestedDirectory :=
  ⟨[], [(text "d", text "f")], [(text "d", ⟨[(text "f", hashedFile)], [], []⟩)]⟩

theorem linkAndDirectory_ordered : Ordered linkAndDirectory := by
  have inner : Ordered ⟨[(text "f", hashedFile)], [], []⟩ :=
    ⟨List.pairwise_singleton _ _, sorted_nil, sorted_nil, List.forall_mem_nil _⟩
  refine ⟨sorted_nil, List.pairwise_singleton _ _, List.pairwise_singleton _ _, fun entry member => ?_⟩
  rw [List.mem_singleton.mp member]
  exact inner

theorem linkAndDirectory_holds {path : List Bytes} {entry : Entry} (holds : linkAndDirectory.Holds path entry) :
    path = [text "d"] ∧ (entry = .symlink (text "f") ∨ entry = .directory) ∨
      path = [text "d", text "f"] ∧ entry = .file hashedFile := by
  match path with
  | [] => exact absurd holds (holds_nil _ _)
  | [name] =>
    cases entry with
    | file file => cases holds
    | symlink target =>
      obtain ⟨rfl, rfl⟩ := get_single holds
      exact .inl ⟨rfl, .inl rfl⟩
    | directory =>
      obtain ⟨sub, found⟩ := holds
      obtain ⟨rfl, -⟩ := get_single found
      exact .inl ⟨rfl, .inr rfl⟩
  | [first, name] =>
    obtain ⟨sub, found, here⟩ := holds
    obtain ⟨rfl, rfl⟩ := get_single found
    cases entry with
    | file file =>
      obtain ⟨rfl, rfl⟩ := get_single here
      exact .inr ⟨rfl, rfl⟩
    | symlink target => cases here
    | directory =>
      obtain ⟨sub, found⟩ := here
      cases found
  | first :: name :: next :: path =>
    obtain ⟨sub, found, other, inside, -⟩ := holds
    obtain ⟨-, rfl⟩ := get_single found
    cases inside

theorem linkAndDirectory_survives : Survives linkAndDirectory := by
  constructor
  next =>
    constructor
    next =>
      intro path entry holds
      obtain ⟨rfl, -⟩ | ⟨rfl, -⟩ := linkAndDirectory_holds holds
      next => simp only [List.mem_singleton, forall_eq]; decide
      next => simp only [List.mem_cons, List.not_mem_nil, or_false, forall_eq_or_imp, forall_eq]; decide
    next =>
      intro path entry holds
      obtain ⟨rfl, -⟩ | ⟨rfl, -⟩ := linkAndDirectory_holds holds
      next => simp
      next => simp only [List.dropLast_cons_cons, List.dropLast_singleton, List.mem_singleton, forall_eq]; decide
    next =>
      intro path file holds
      obtain ⟨-, same | same⟩ | ⟨-, same⟩ := linkAndDirectory_holds holds
      next => cases same
      next => cases same
      next =>
        obtain rfl := Entry.file.inj same
        rfl
  next =>
    intro path file target left right
    obtain ⟨rfl, -⟩ | ⟨-, same⟩ := linkAndDirectory_holds right
    next => cases left
    next => cases same
  next =>
    intro path entry holds other directory
    obtain ⟨rfl, -⟩ | ⟨rfl, same⟩ := linkAndDirectory_holds directory
    next =>
      have inside : linkAndDirectory.Holds [text "d", text "f"] (.file hashedFile) := ⟨_, rfl, rfl⟩
      exact ⟨_, _, inside, by simp, ⟨[text "f"], rfl⟩, by simp⟩
    next => cases same

theorem linkAndDirectory_valid : ValidBelow wireHash wireFormat linkAndDirectory := by
  unfold ValidBelow
  decide +kernel

theorem createMergedDigest_reproduced_linkAndDirectory :
    Reproduced wireHash wireFormat 2 linkAndDirectory (treeOf wireHash wireFormat linkAndDirectory) :=
  (createMergedDigest_reproduced_iff wireHash_injective linkAndDirectory_valid linkAndDirectory_ordered (treeOf_whole _)
    le_rfl).mpr linkAndDirectory_survives

def timedFile : NestedDirectory := ⟨[(text "f", { hashedFile with mtime := some 1000 })], [], []⟩

theorem time_is_dropped : ¬∃ stack, height timedFile ≤ stack ∧
    Reproduced wireHash wireFormat stack timedFile (treeOf wireHash wireFormat timedFile) := by
  rintro ⟨stack, enough, reproduced⟩
  have ordered : Ordered timedFile :=
    ⟨List.pairwise_singleton _ _, sorted_nil, sorted_nil, List.forall_mem_nil _⟩
  have survives := survives_of_yields ordered enough wireHash_injective (treeOf_whole _) (List.forall_mem_nil _)
    reproduced.before_empty
  have none := survives.untimed [text "f"] _ rfl
  cases none

end Samples

end Neutral

end BuildboxCommon.MergeUtil
