import BuildboxCommon.MergeUtil.MergedMap

set_option autoImplicit false

namespace BuildboxCommon.MergeUtil

open ByteString FileUtils NestedDirectory

structure DirectoryTree where
  root : Directory
  rest : List Directory

def DirectoryTree.list (tree : DirectoryTree) : List Directory := tree.root :: tree.rest

section Spec

variable (hash : Bytes → Bytes) (codec : Encoding Directory)

def childOf (directories : List Directory) (digest : Digest) : Option Directory :=
  directories.find? fun directory => (digestOf hash codec directory).key = digest.key

structure MergeInput (inputTree templateTree : DirectoryTree) : Prop where
  named : ∀ directory ∈ inputTree.list ++ templateTree.list, WellNamed directory
  resolved : ∀ directory ∈ inputTree.list ++ templateTree.list, ∀ node ∈ directory.directories,
    ∃ child ∈ inputTree.list ++ templateTree.list, node.digest = digestOf hash codec child
  grounded : ∀ directory ∈ inputTree.list ++ templateTree.list,
    Grounded (childOf hash codec (inputTree.list ++ templateTree.list)) directory

def Produces (placements : List Placement) (outputs : MergeOutputs)
    (result : Except Exn (Bool × MergeOutputs)) : Prop :=
  let merged := NestedDirectory.empty.putAll placements
  ∃ list, result = .ok (true, ⟨digestOf hash codec (message hash codec merged),
    (messages hash codec merged).foldl (store hash codec) outputs.newDirectoryBlobs, list⟩)

structure MergeSpec (inputTree templateTree : DirectoryTree) (stack : Nat) : Prop where
  collides : Collides (childOf hash codec (inputTree.list ++ templateTree.list)) inputTree.root templateTree.root →
    ∀ iteration outputs, createMergedDigest hash codec stack iteration inputTree.list templateTree.list outputs =
      .ok (false, outputs)
  merges : ¬Collides (childOf hash codec (inputTree.list ++ templateTree.list)) inputTree.root templateTree.root →
    ∃ merged : List Placement, (∀ placement ∈ merged, Placeable placement.1) ∧
      (∀ path entry, Lands merged path entry ↔
        MergedLands (childOf hash codec (inputTree.list ++ templateTree.list)) inputTree.root templateTree.root
          path entry) ∧
      (∀ iteration, ∃ placements, placements.Perm merged ∧ ∀ outputs, Produces hash codec placements outputs
        (createMergedDigest hash codec stack iteration inputTree.list templateTree.list outputs)) ∧
      ∀ placements, placements.Perm merged → ∃ iteration, ∀ outputs, Produces hash codec placements outputs
        (createMergedDigest hash codec stack iteration inputTree.list templateTree.list outputs)

variable {hash} {codec}

theorem buildDigestDirectoryMap_eq (tree : List Directory) (dsMap : DigestStringMap) :
    buildDigestDirectoryMap hash codec tree dsMap = tree.foldl (fun dsMap directory =>
      dsMap.emplace (digestOf hash codec directory) (codec.serializeAsString directory)) dsMap := rfl

theorem find_digestDirectoryMap (tree : List Directory) (digest : Digest) :
    (buildDigestDirectoryMap hash codec tree .empty).find digest =
      (childOf hash codec tree digest).map codec.serializeAsString := by
  rw [buildDigestDirectoryMap_eq]
  induction tree using List.reverseRecOn with
  | nil => rfl
  | append_singleton tree directory ih =>
    have split : childOf hash codec (tree ++ [directory]) digest =
        (childOf hash codec tree digest).or
          (if (digestOf hash codec directory).key = digest.key then some directory else none) := by
      rw [childOf, List.find?_append, childOf, List.find?_singleton]
      simp
    rw [List.foldl_append, List.foldl_cons, List.foldl_nil, UnorderedMap.find_emplace, split]
    by_cases same : digest.key = (digestOf hash codec directory).key
    next =>
      rw [if_pos same, if_pos same.symm, ← UnorderedMap.find_congr _ same, ih]
      cases childOf hash codec tree digest <;> rfl
    next =>
      rw [if_neg same, if_neg (Ne.symm same), ih, Option.or_none]

def parsedChild (hash : Bytes → Bytes) (codec : Encoding Directory) (directories : List Directory) (digest : Digest) :
    Option Directory :=
  (childOf hash codec directories digest).map fun child => codec.parseFromString (codec.serializeAsString child)

theorem resolves_parsedChild (first second : List Directory) :
    Resolves codec (buildDigestDirectoryMap hash codec second (buildDigestDirectoryMap hash codec first .empty))
      (parsedChild hash codec (first ++ second)) := by
  intro digest
  have whole : buildDigestDirectoryMap hash codec second (buildDigestDirectoryMap hash codec first .empty) =
      buildDigestDirectoryMap hash codec (first ++ second) .empty := by
    simp [buildDigestDirectoryMap]
  rw [whole, find_digestDirectoryMap, Option.map_map, parsedChild]
  rfl

theorem parsedChild_eq (codec : Codec Directory) (directories : List Directory) :
    parsedChild hash codec directories = childOf hash codec directories := by
  funext digest
  simp only [parsedChild, codec.parse_serialize, Option.map_id']

theorem resolves_childOf (codec : Codec Directory) (first second : List Directory) :
    Resolves codec (buildDigestDirectoryMap hash codec second (buildDigestDirectoryMap hash codec first .empty))
      (childOf hash codec (first ++ second)) := by
  have resolves := @resolves_parsedChild hash codec first second
  rwa [parsedChild_eq] at resolves

theorem childOf_mem {directories : List Directory} {digest : Digest} {child : Directory}
    (found : childOf hash codec directories digest = some child) : child ∈ directories :=
  List.mem_of_find?_eq_some found

theorem childOf_digestOf (injective : Function.Injective hash) {directories : List Directory}
    {directory : Directory} (member : directory ∈ directories) :
    childOf hash codec directories (digestOf hash codec directory) = some directory := by
  cases found : childOf hash codec directories (digestOf hash codec directory) with
  | none => simpa using List.find?_eq_none.mp found directory member
  | some other =>
    have same : (digestOf hash codec other).key = (digestOf hash codec directory).key := by
      simpa using List.find?_some found
    rw [digestOf_injective injective same]

variable {inputTree templateTree : DirectoryTree}

theorem MergeInput.closed (input : MergeInput hash codec inputTree templateTree) :
    Closed (childOf hash codec (inputTree.list ++ templateTree.list)) (inputTree.list ++ templateTree.list) :=
  ⟨input.named, fun _ _ _ _ _ found => childOf_mem found⟩

theorem inputRoot_mem : inputTree.root ∈ inputTree.list ++ templateTree.list := by
  simp [DirectoryTree.list]

theorem templateRoot_mem : templateTree.root ∈ inputTree.list ++ templateTree.list := by
  simp [DirectoryTree.list]

def placementOf (it : Bytes × NodeMetaData) : Placement :=
  ((cString it.2.path).splitOn slash, match it.2 with
    | .file _ stored => .file stored
    | .symlink _ target => .symlink target
    | .dir _ _ => .directory)

def placementsOf (visited : List (Bytes × NodeMetaData)) : List Placement := visited.map placementOf

theorem foldl_addToNestedDirectory (visited : List (Bytes × NodeMetaData)) (result : NestedDirectory) :
    visited.foldl (fun result it => it.2.addToNestedDirectory result) result =
      result.putAll (placementsOf visited) := by
  rw [putAll, placementsOf, List.foldl_map]
  refine List.foldl_ext _ _ _ fun result it _ => ?_
  obtain ⟨path, node⟩ := it
  cases node <;> rfl

def placed (visit : Visit) : Placement := (landing visit.1, visit.2.entry)

def mergedVisits (first second : List Visit) : List Visit :=
  first ++ second.filter fun visit => visit.1 ∉ first.map Prod.fst

section Flattened

variable {find : Digest → Option Directory} {tree : List Directory} (closed : Closed find tree) {stack : Nat}
  {first second : Directory} (first_mem : first ∈ tree) (second_mem : second ∈ tree)
  (first_deep : Deep find stack first) (second_deep : Deep find stack second)

include closed first_mem first_deep

theorem visits_proper {visit : Visit} (member : visit ∈ visits find stack first) : ProperNames visit.1 :=
  lists_proper closed first_mem ((mem_visits first_deep visit.1 visit.2).mp member)

theorem keyed_distinct : (((visits find stack first).map (keyed [])).map Prod.fst).Nodup := by
  have shape : ((visits find stack first).map (keyed [])).map Prod.fst =
      ((visits find stack first).map Prod.fst).map renderPath := by
    simp [keyed]
  rw [shape]
  refine (visits_distinct closed first_mem).map_on fun left leftMem right rightMem same => ?_
  obtain ⟨a, visited, rfl⟩ := List.mem_map.mp leftMem
  obtain ⟨b, other, rfl⟩ := List.mem_map.mp rightMem
  exact renderPath_injective (visits_proper closed first_mem first_deep visited)
    (visits_proper closed first_mem first_deep other) same

def firstMap (find : Digest → Option Directory) (stack : Nat) (first : Directory) : PathNodeMetaDataMap :=
  emplaceAll .empty ((visits find stack first).map (keyed []))

omit first_mem first_deep closed in
theorem consistent_empty : Consistent .empty := by
  intro path other found
  simp at found

theorem firstMap_entries : (firstMap find stack first).entries =
    (visits find stack first).map fun visit => (renderPath visit.1, metaData (renderPath visit.1) visit.2) := by
  rw [firstMap, entries_emplaceAll (keyed_distinct closed first_mem first_deep)]
  simp only [UnorderedMap.find_empty, decide_true, List.filter_true, List.map_map]
  rfl

theorem firstMap_find {path : List Bytes} (proper : ProperNames path) (other : NodeMetaData) :
    (firstMap find stack first).find (renderPath path) = some other ↔
      ∃ node, Lists find first path node ∧ other = metaData (renderPath path) node := by
  rw [UnorderedMap.find_eq_some, firstMap_entries closed first_mem first_deep]
  constructor
  next =>
    rintro ⟨stored, same, member⟩
    obtain ⟨visit, visited, shape⟩ := List.mem_map.mp member
    obtain ⟨rfl, rfl⟩ := Prod.mk.inj shape
    have alike := renderPath_injective (visits_proper closed first_mem first_deep visited) proper same
    exact ⟨visit.2, (mem_visits first_deep _ _).mp (alike ▸ visited), by rw [← alike]⟩
  next =>
    rintro ⟨node, lists, rfl⟩
    exact ⟨renderPath path, rfl, List.mem_map.mpr ⟨(path, node), (mem_visits first_deep _ _).mpr lists, rfl⟩⟩

theorem firstMap_consistent : Consistent (firstMap find stack first) := by
  intro path other found
  obtain ⟨stored, same, member⟩ := (UnorderedMap.find_eq_some _ _ _).mp found
  rw [firstMap_entries closed first_mem first_deep] at member
  obtain ⟨visit, -, shape⟩ := List.mem_map.mp member
  obtain ⟨rfl, rfl⟩ := Prod.mk.inj shape
  obtain rfl : renderPath visit.1 = path := same
  exact ⟨visit.2, rfl⟩

theorem first_addVisit : ((visits find stack first).map (keyed [])).foldlM addVisit .empty =
    .ok (firstMap find stack first) := by
  refine foldlM_addVisit_ok (keyed_distinct closed first_mem first_deep) consistent_empty ?_
  rintro ⟨visit, -, stored, found, -⟩
  simp at found

include second_mem second_deep

theorem collision_iff : Collision (firstMap find stack first) ((visits find stack second).map (keyed [])) ↔
    Collides find first second := by
  constructor
  next =>
    rintro ⟨_, member, stored, found, clash⟩
    obtain ⟨visit, visited, rfl⟩ := List.mem_map.mp member
    have proper := visits_proper closed second_mem second_deep visited
    obtain ⟨node, lists, same⟩ := (firstMap_find closed first_mem first_deep proper _).mp found
    obtain rfl := metaData_injective same
    exact ⟨visit.1, stored, visit.2, lists, (mem_visits second_deep _ _).mp visited, clash⟩
  next =>
    rintro ⟨path, stored, node, left, right, clash⟩
    have visited := (mem_visits second_deep path node).mpr right
    refine ⟨_, List.mem_map_of_mem visited, stored, ?_, clash⟩
    exact (firstMap_find closed first_mem first_deep (lists_proper closed second_mem right) _).mpr ⟨stored, left, rfl⟩

theorem secondMap_entries :
    (emplaceAll (firstMap find stack first) ((visits find stack second).map (keyed []))).entries =
      (mergedVisits (visits find stack first) (visits find stack second)).map
        fun visit => (renderPath visit.1, metaData (renderPath visit.1) visit.2) := by
  rw [entries_emplaceAll (keyed_distinct closed second_mem second_deep),
    firstMap_entries closed first_mem first_deep, mergedVisits, List.map_append, List.filter_map, List.map_map]
  congr 1
  have same : (visits find stack second).filter
      ((fun visit => decide ((firstMap find stack first).find visit.1 = none)) ∘ keyed []) =
      (visits find stack second).filter fun visit => visit.1 ∉ (visits find stack first).map Prod.fst := by
    refine List.filter_congr fun visit visited => ?_
    have proper := visits_proper closed second_mem second_deep visited
    have absent : (firstMap find stack first).find (renderPath visit.1) = none ↔
        visit.1 ∉ (visits find stack first).map Prod.fst := by
      rw [Option.eq_none_iff_forall_ne_some]
      constructor
      next =>
        intro none member
        obtain ⟨other, present, same⟩ := List.mem_map.mp member
        have lists := (mem_visits first_deep other.1 other.2).mp present
        exact none _ ((firstMap_find closed first_mem first_deep proper _).mpr ⟨_, same ▸ lists, rfl⟩)
      next =>
        intro missing other found
        obtain ⟨node, lists, -⟩ := (firstMap_find closed first_mem first_deep proper _).mp found
        exact missing (List.mem_map.mpr ⟨_, (mem_visits first_deep _ _).mpr lists, rfl⟩)
    exact decide_eq_decide.mpr absent
  rw [same]
  rfl

omit first_mem second_mem closed in
theorem mem_mergedVisits (path : List Bytes) (node : Node) :
    (path, node) ∈ mergedVisits (visits find stack first) (visits find stack second) ↔
      Merged find first second path node := by
  simp only [mergedVisits, List.mem_append, List.mem_filter, decide_eq_true_eq, Merged,
    mem_visits first_deep, mem_visits second_deep]
  refine or_congr_right (and_congr_right fun _ => ?_)
  constructor
  next => exact fun missing other lists => missing (List.mem_map.mpr ⟨_, (mem_visits first_deep _ _).mpr lists, rfl⟩)
  next =>
    intro none member
    obtain ⟨other, present, rfl⟩ := List.mem_map.mp member
    exact none other.2 ((mem_visits first_deep _ _).mp present)

end Flattened

theorem merged_proper {find : Digest → Option Directory} {tree : List Directory} (closed : Closed find tree)
    {first second : Directory} (first_mem : first ∈ tree) (second_mem : second ∈ tree) {path : List Bytes}
    {node : Node} (merged : Merged find first second path node) : ProperNames path := by
  rcases merged with left | ⟨right, -⟩
  next => exact lists_proper closed first_mem left
  next => exact lists_proper closed second_mem right

theorem placementsOf_merged (merged : List Visit) :
    placementsOf (merged.map fun visit => (renderPath visit.1, metaData (renderPath visit.1) visit.2)) =
      merged.map placed := by
  rw [placementsOf, List.map_map]
  refine List.map_congr_left fun visit _ => ?_
  obtain ⟨path, node⟩ := visit
  cases node <;> rfl

theorem lands_placed {find : Digest → Option Directory} {first second : Directory} {merged : List Visit}
    (correct : ∀ path node, (path, node) ∈ merged ↔ Merged find first second path node) (path : List Bytes)
    (entry : Entry) : Lands (merged.map placed) path entry ↔ MergedLands find first second path entry := by
  simp only [Lands, MergedLands, List.mem_map, placed, Prod.mk.injEq]
  constructor
  next =>
    rintro (⟨visit, member, same, kind⟩ | ⟨kind, _, ⟨visit, member, rfl⟩, below⟩)
    next => exact .inl ⟨visit.1, visit.2, (correct _ _).mp member, same, kind⟩
    next => exact .inr ⟨kind, visit.1, visit.2, (correct _ _).mp member, below⟩
  next =>
    rintro (⟨names, node, member, same, kind⟩ | ⟨kind, names, node, member, below⟩)
    next => exact .inl ⟨(names, node), (correct _ _).mpr member, same, kind⟩
    next => exact .inr ⟨kind, _, ⟨(names, node), (correct _ _).mpr member, rfl⟩, below⟩

noncomputable def iterationOf (map : PathNodeMetaDataMap) (visited : List (Bytes × NodeMetaData))
    (perm : visited.Perm map.entries) : Iteration where
  map :=
    { visit := fun other => open Classical in if other = map then visited else other.entries
      perm := fun other => by
        split
        next same => exact same ▸ perm
        next => exact List.Perm.refl _ }
  newDirectoryBlobs := .asStored

theorem iterationOf_visit (map : PathNodeMetaDataMap) (visited : List (Bytes × NodeMetaData))
    (perm : visited.Perm map.entries) : (iterationOf map visited perm).map.visit map = visited := by
  simp [iterationOf]

theorem exists_order_of_perm {placements : List Placement} {entries : List (Bytes × NodeMetaData)}
    (perm : placements.Perm (placementsOf entries)) :
    ∃ visited : List (Bytes × NodeMetaData), visited.map placementOf = placements ∧ visited.Perm entries := by
  have related : List.Forall₂ (fun placement it => placementOf it = placement) (placementsOf entries) entries := by
    simp [placementsOf, List.forall₂_map_left_iff, List.forall₂_same]
  obtain ⟨visited, matched, order⟩ := List.perm_comp_forall₂ perm related
  refine ⟨visited, ?_, order⟩
  rw [← List.forall₂_eq_eq_eq, List.forall₂_map_left_iff]
  exact matched.flip

theorem result_of_created {inputTree templateTree : List Directory} {stack : Nat} {iteration : Iteration}
    {outputs after : MergeOutputs}
    (created : createMergedDigest hash codec stack iteration inputTree templateTree outputs = .ok (true, after)) :
    ∃ map merged blobs, flattenTrees codec (buildDigestDirectoryMap hash codec templateTree
        (buildDigestDirectoryMap hash codec inputTree .empty)) stack inputTree templateTree = .ok map ∧
      merged = NestedDirectory.empty.putAll (placementsOf (iteration.map.visit map)) ∧
      blobs = (messages hash codec merged).foldl (store hash codec) outputs.newDirectoryBlobs ∧
      after = ⟨digestOf hash codec (message hash codec merged), blobs, outputs.mergedDirectoryList.map fun list =>
        list ++ ((iteration.newDirectoryBlobs.visit blobs).filter fun it =>
          (buildDigestDirectoryMap hash codec templateTree (buildDigestDirectoryMap hash codec inputTree .empty)).find
            it.1 = none).map Prod.fst⟩ := by
  unfold createMergedDigest at created
  split at created
  next => cases created
  next =>
    cases flattened : flattenTrees codec (buildDigestDirectoryMap hash codec templateTree
        (buildDigestDirectoryMap hash codec inputTree .empty)) stack inputTree templateTree with
    | error thrown =>
      simp only [flattened] at created
      split at created <;> cases created
    | ok map =>
      simp only [flattened, foldl_addToNestedDirectory, toDigest_eq] at created
      exact ⟨map, _, _, rfl, rfl, rfl, (Prod.mk.inj (Except.ok.inj created)).2.symm⟩

theorem createMergedDigest_of_map {stack : Nat} {map : PathNodeMetaDataMap}
    (flattened : flattenTrees codec (buildDigestDirectoryMap hash codec templateTree.list
      (buildDigestDirectoryMap hash codec inputTree.list .empty)) stack inputTree.list templateTree.list = .ok map)
    (iteration : Iteration) (outputs : MergeOutputs) :
    Produces hash codec (placementsOf (iteration.map.visit map)) outputs
      (createMergedDigest hash codec stack iteration inputTree.list templateTree.list outputs) := by
  have some : ¬(inputTree.list = [] ∧ templateTree.list = []) := by simp [DirectoryTree.list]
  unfold Produces createMergedDigest
  rw [if_neg some]
  simp only [flattened, foldl_addToNestedDirectory, toDigest_eq]
  exact ⟨_, rfl⟩

theorem createMergedDigest_of_error {stack : Nat} {what : Bytes}
    (flattened : flattenTrees codec (buildDigestDirectoryMap hash codec templateTree.list
      (buildDigestDirectoryMap hash codec inputTree.list .empty)) stack inputTree.list templateTree.list =
        .error (.runtimeError what))
    (iteration : Iteration) (outputs : MergeOutputs) :
    createMergedDigest hash codec stack iteration inputTree.list templateTree.list outputs =
      .ok (false, outputs) := by
  have some : ¬(inputTree.list = [] ∧ templateTree.list = []) := by simp [DirectoryTree.list]
  rw [createMergedDigest, if_neg some]
  simp [flattened, Exn.isRuntimeError]

theorem mergeSpec_of_deep {codec : Codec Directory} (input : MergeInput hash codec inputTree templateTree) {stack : Nat}
    (first_deep : Deep (childOf hash codec (inputTree.list ++ templateTree.list)) stack inputTree.root)
    (second_deep : Deep (childOf hash codec (inputTree.list ++ templateTree.list)) stack templateTree.root) :
    MergeSpec hash codec inputTree templateTree stack := by
  have closed := input.closed
  have first_mem : inputTree.root ∈ inputTree.list ++ templateTree.list := inputRoot_mem
  have second_mem : templateTree.root ∈ inputTree.list ++ templateTree.list := templateRoot_mem
  have resolves := @resolves_childOf hash codec inputTree.list templateTree.list
  have input_flattened := buildFlattenedPath_eq resolves closed first_mem first_deep .empty
    (List.forall_mem_nil _)
  have template_flattened := fun map => buildFlattenedPath_eq resolves closed second_mem second_deep map
    (List.forall_mem_nil _)
  rw [first_addVisit closed first_mem first_deep] at input_flattened
  have flattened : flattenTrees codec (buildDigestDirectoryMap hash codec templateTree.list
      (buildDigestDirectoryMap hash codec inputTree.list .empty)) stack inputTree.list templateTree.list =
      ((visits (childOf hash codec (inputTree.list ++ templateTree.list)) stack templateTree.root).map
        (keyed [])).foldlM addVisit
          (firstMap (childOf hash codec (inputTree.list ++ templateTree.list)) stack inputTree.root) := by
    rw [← template_flattened]
    show (buildFlattenedPath codec _ stack .empty inputTree.root (renderPath []) >>= _) = _
    rw [input_flattened]
    rfl
  have consistent := firstMap_consistent closed first_mem first_deep
  have distinct := keyed_distinct closed second_mem second_deep
  have collision := collision_iff closed first_mem second_mem first_deep second_deep
  constructor
  next =>
    intro collides iteration outputs
    obtain ⟨what, raised⟩ := foldlM_addVisit_error distinct consistent (collision.mpr collides)
    exact createMergedDigest_of_error (flattened.trans raised) iteration outputs
  next =>
    intro free
    have merged := foldlM_addVisit_ok distinct consistent (mt collision.mp free)
    have entries := secondMap_entries closed first_mem second_mem first_deep second_deep
    have correct := fun path node => @mem_mergedVisits _ stack _ _ first_deep second_deep path node
    refine ⟨_, ?_, lands_placed correct, fun iteration => ?_, fun placements perm => ?_⟩
    next =>
      intro placement member
      obtain ⟨visit, visited, rfl⟩ := List.mem_map.mp member
      exact landing_placeable (merged_proper closed first_mem second_mem ((correct _ _).mp visited))
    next =>
      refine ⟨_, ?_, createMergedDigest_of_map (flattened.trans merged) iteration⟩
      rw [← placementsOf_merged, ← entries]
      exact (iteration.map.perm _).map placementOf
    next =>
      rw [← placementsOf_merged, ← entries] at perm
      obtain ⟨visited, same, order⟩ := exists_order_of_perm perm
      refine ⟨iterationOf _ visited order, fun outputs => ?_⟩
      have produced := createMergedDigest_of_map (flattened.trans merged) (iterationOf _ visited order) outputs
      rw [iterationOf_visit, placementsOf, same] at produced
      exact produced

theorem merge_spec {codec : Codec Directory} (input : MergeInput hash codec inputTree templateTree) :
    ∃ depth, ∀ stack, depth ≤ stack → MergeSpec hash codec inputTree templateTree stack := by
  obtain ⟨inputDepth, inputDeep⟩ := (input.grounded _ inputRoot_mem).deep
  obtain ⟨templateDepth, templateDeep⟩ := (input.grounded _ templateRoot_mem).deep
  refine ⟨max inputDepth templateDepth, fun stack enough => ?_⟩
  have first_deep := inputDeep.mono ((le_max_left _ _).trans enough)
  have second_deep := templateDeep.mono ((le_max_right _ _).trans enough)
  exact mergeSpec_of_deep input first_deep second_deep

end Spec

end BuildboxCommon.MergeUtil
