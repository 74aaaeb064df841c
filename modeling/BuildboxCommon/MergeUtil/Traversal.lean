import BuildboxCommon.MergeUtil.FlattenedPath

set_option autoImplicit false

namespace BuildboxCommon.MergeUtil

open ByteString FileUtils

def renderPath (names : List Bytes) : Bytes := [slash].intercalate names

structure ProperNames (names : List Bytes) : Prop where
  present : names ≠ []
  nonempty : ∀ name ∈ names, name ≠ []
  no_slash : ∀ name ∈ names, slash ∉ name

theorem renderPath_injective {first second : List Bytes} (left : ProperNames first)
    (right : ProperNames second) (same : renderPath first = renderPath second) : first = second := by
  rw [← List.splitOn_intercalate slash left.no_slash left.present,
    ← List.splitOn_intercalate slash right.no_slash right.present]
  exact congrArg _ same

theorem renderPath_eq_nil {names : List Bytes} (nonempty : ∀ name ∈ names, name ≠ []) :
    renderPath names = [] ↔ names = [] := by
  cases names with
  | nil => simp [renderPath]
  | cons name names =>
    have present := nonempty name (by simp)
    cases names <;> simp [renderPath, List.intercalate_cons_cons, present]

theorem renderPath_snoc {names : List Bytes} (nonempty : ∀ name ∈ names, name ≠ []) (name : Bytes) :
    renderPath (names ++ [name]) = genNewPath (renderPath names) name := by
  unfold genNewPath
  by_cases none : names = []
  next => simp [none, renderPath]
  next =>
    rw [if_neg (mt (renderPath_eq_nil nonempty).mp none)]
    have joined := intercalate_append slash none (by simp : [name] ≠ [])
    simpa [renderPath] using joined

abbrev Visit := List Bytes × Node

def descend (name : Bytes) (visit : Visit) : Visit := (name :: visit.1, visit.2)

def visitsBelow (find : Digest → Option Directory) (inner : Directory → List Visit)
    (node : DirectoryNode) : List Visit :=
  match find node.digest with
  | none => []
  | some child => (inner child).map (descend node.name)

def visits (find : Digest → Option Directory) : Nat → Directory → List Visit
  | 0, _ => []
  | depth + 1, directory =>
    (directory.files.map fun node => ([node.name], .file node.digest node.isExecutable)) ++
    (directory.symlinks.map fun node => ([node.name], .symlink node.target)) ++
    directory.directories.flatMap fun node =>
      ([node.name], .dir node.digest) :: visitsBelow find (visits find depth) node

theorem mem_visitsBelow {find : Digest → Option Directory} {inner : Directory → List Visit}
    {node : DirectoryNode} {visit : Visit} :
    visit ∈ visitsBelow find inner node ↔
      ∃ child, find node.digest = some child ∧ ∃ below ∈ inner child, descend node.name below = visit := by
  unfold visitsBelow
  cases find node.digest <;> simp

theorem mem_visits {find : Digest → Option Directory} {depth : Nat} {directory : Directory}
    (deep : Deep find depth directory) (path : List Bytes) (node : Node) :
    (path, node) ∈ visits find depth directory ↔ Lists find directory path node := by
  induction depth generalizing directory path with
  | zero => exact deep.elim
  | succ depth ih =>
    simp only [visits, List.mem_append, List.mem_map, List.mem_flatMap, List.mem_cons, Prod.mk.injEq,
      mem_visitsBelow]
    constructor
    next =>
      rintro ((⟨file, member, rfl, rfl⟩ | ⟨symlink, member, rfl, rfl⟩) |
        ⟨dir, member, ⟨rfl, rfl⟩ | ⟨child, found, visit, visited, same⟩⟩)
      next => exact .file member
      next => exact .symlink member
      next => exact .dir member
      next =>
        cases same
        exact .inside member found ((ih (deep dir member child found) _).mp visited)
    next =>
      intro lists
      cases lists with
      | file member => exact .inl (.inl ⟨_, member, rfl, rfl⟩)
      | symlink member => exact .inl (.inr ⟨_, member, rfl, rfl⟩)
      | dir member => exact .inr ⟨_, member, .inl ⟨rfl, rfl⟩⟩
      | inside member found below =>
        exact .inr ⟨_, member, .inr ⟨_, found, _, (ih (deep _ member _ found) _).mpr below, rfl⟩⟩

def metaData (path : Bytes) : Node → NodeMetaData
  | .file digest isExecutable => .file path ⟨digest, isExecutable, none⟩
  | .symlink target => .symlink path target
  | .dir digest => .dir path digest

def nodeDigest : Node → Digest
  | .file digest _ => digest
  | .symlink _ => .unset
  | .dir digest => digest

def nodeExecutable : Node → Bool
  | .file _ isExecutable => isExecutable
  | .symlink _ | .dir _ => false

-- Files collide with anything unlike them, symlinks with other symlinks, directories with nothing.
def Clash (stored : Node) : Node → Prop
  | .file digest isExecutable => ¬((nodeDigest stored).key = digest.key ∧ nodeExecutable stored = isExecutable)
  | .symlink target => ∃ other, stored = .symlink other ∧ other ≠ target
  | .dir _ => False

def addVisit (map : PathNodeMetaDataMap) (visit : Bytes × Node) : Except Exn PathNodeMetaDataMap :=
  match visit.2 with
  | .file digest isExecutable => flattenFile [] map ⟨visit.1, digest, isExecutable, none⟩
  | .symlink target => flattenSymlink [] map ⟨visit.1, target, none⟩
  | .dir digest => .ok (map.emplace visit.1 (.dir visit.1 digest))

theorem flattenFile_eq (dirName : Bytes) (map : PathNodeMetaDataMap) (node : FileNode) :
    flattenFile dirName map node =
      addVisit map (genNewPath dirName node.name, .file node.digest node.isExecutable) := rfl

theorem flattenSymlink_eq (dirName : Bytes) (map : PathNodeMetaDataMap) (node : SymlinkNode) :
    flattenSymlink dirName map node = addVisit map (genNewPath dirName node.name, .symlink node.target) := rfl

def Resolves (codec : Encoding Directory) (dsMap : DigestStringMap) (find : Digest → Option Directory) : Prop :=
  ∀ digest, (dsMap.find digest).map codec.parseFromString = find digest

def keyed (dirNames : List Bytes) (visit : Visit) : Bytes × Node := (renderPath (dirNames ++ visit.1), visit.2)

section Visits

variable {find : Digest → Option Directory} {tree : List Directory}

structure Closed (find : Digest → Option Directory) (tree : List Directory) : Prop where
  named : ∀ directory ∈ tree, WellNamed directory
  children : ∀ directory ∈ tree, ∀ node ∈ directory.directories, ∀ child,
    find node.digest = some child → child ∈ tree

theorem file_name_mem {directory : Directory} {node : FileNode} (member : node ∈ directory.files) :
    node.name ∈ directory.names := by
  simp only [Directory.names, List.mem_append, List.mem_map]
  exact .inl (.inl ⟨node, member, rfl⟩)

theorem symlink_name_mem {directory : Directory} {node : SymlinkNode} (member : node ∈ directory.symlinks) :
    node.name ∈ directory.names := by
  simp only [Directory.names, List.mem_append, List.mem_map]
  exact .inl (.inr ⟨node, member, rfl⟩)

theorem directory_name_mem {directory : Directory} {node : DirectoryNode}
    (member : node ∈ directory.directories) : node.name ∈ directory.names := by
  simp only [Directory.names, List.mem_append, List.mem_map]
  exact .inr ⟨node, member, rfl⟩

theorem properNames_one {directory : Directory} (named : WellNamed directory) {name : Bytes}
    (member : name ∈ directory.names) : ProperNames [name] :=
  ⟨by simp, by simpa using named.nonempty name member, by simpa using named.no_slash name member⟩

theorem lists_proper (closed : Closed find tree) {directory : Directory} (member : directory ∈ tree)
    {path : List Bytes} {node : Node} (lists : Lists find directory path node) : ProperNames path := by
  induction lists with
  | file listed => exact properNames_one (closed.named _ member) (file_name_mem listed)
  | symlink listed => exact properNames_one (closed.named _ member) (symlink_name_mem listed)
  | dir listed => exact properNames_one (closed.named _ member) (directory_name_mem listed)
  | inside listed found below ih =>
    have inner := ih (closed.children _ member _ listed _ found)
    have first := properNames_one (closed.named _ member) (directory_name_mem listed)
    refine ⟨by simp, fun name member => ?_, fun name member => ?_⟩
    next =>
      exact (List.mem_cons.mp member).elim (fun same => first.nonempty name (by simp [same])) (inner.nonempty name)
    next =>
      exact (List.mem_cons.mp member).elim (fun same => first.no_slash name (by simp [same])) (inner.no_slash name)

theorem visits_nonempty (find : Digest → Option Directory) (depth : Nat) (directory : Directory) :
    ∀ path ∈ (visits find depth directory).map Prod.fst, path ≠ [] := by
  cases depth with
  | zero => simp [visits]
  | succ depth =>
    intro path member
    obtain ⟨visit, visited, rfl⟩ := List.mem_map.mp member
    simp only [visits, List.mem_append, List.mem_map, List.mem_flatMap, List.mem_cons, mem_visitsBelow] at visited
    rcases visited with (⟨_, -, rfl⟩ | ⟨_, -, rfl⟩) | ⟨node, -, rfl | ⟨_, _, _, _, rfl⟩⟩ <;> simp [descend]

theorem visits_distinct (closed : Closed find tree) {depth : Nat} {directory : Directory}
    (member : directory ∈ tree) : ((visits find depth directory).map Prod.fst).Nodup := by
  induction depth generalizing directory with
  | zero => simp [visits]
  | succ depth ih =>
    have distinct := (closed.named directory member).distinct
    rw [Directory.names, List.nodup_append] at distinct
    obtain ⟨flat, dirs, apart⟩ := distinct
    -- The paths of one subdirectory all start with its name.
    let block (node : DirectoryNode) : List (List Bytes) :=
      [node.name] :: (visitsBelow find (visits find depth) node).map Prod.fst
    have heads (node : DirectoryNode) (path : List Bytes) (inside : path ∈ block node) :
        path.head? = some node.name := by
      rcases List.mem_cons.mp inside with rfl | below
      next => rfl
      next =>
        obtain ⟨visit, visited, rfl⟩ := List.mem_map.mp below
        obtain ⟨_, _, _, _, rfl⟩ := mem_visitsBelow.mp visited
        rfl
    have blocks (node : DirectoryNode) (listed : node ∈ directory.directories) : (block node).Nodup := by
      refine List.nodup_cons.mpr ?_
      cases found : find node.digest with
      | none => simp [visitsBelow, found]
      | some child =>
        have inner := ih (closed.children directory member node listed child found)
        have nonempty := visits_nonempty find depth child
        have shape : (visitsBelow find (visits find depth) node).map Prod.fst =
            ((visits find depth child).map Prod.fst).map (node.name :: ·) := by
          simp [visitsBelow, found, descend]
        rw [shape]
        refine ⟨?_, inner.map fun a b same => (List.cons.inj same).2⟩
        intro inside
        obtain ⟨path, visited, same⟩ := List.mem_map.mp inside
        exact nonempty path visited (List.cons.inj same).2
    have all : (visits find (depth + 1) directory).map Prod.fst =
        (directory.files.map FileNode.name ++ directory.symlinks.map SymlinkNode.name).map (fun name => [name]) ++
          directory.directories.flatMap block := by
      simp only [visits, block, List.map_append, List.map_map, List.map_flatMap, List.map_cons]
      rfl
    rw [all, List.nodup_append]
    refine ⟨flat.map fun a b same => (List.cons.inj same).1, ?_, ?_⟩
    next =>
      rw [List.nodup_flatMap]
      refine ⟨blocks, ?_⟩
      rw [List.Nodup, List.pairwise_map] at dirs
      refine dirs.imp fun {first second} differs path left right => differs ?_
      have same := (heads _ _ left).symm.trans (heads _ _ right)
      exact Option.some.inj same
    next =>
      intro path left other right same
      obtain ⟨name, listed, rfl⟩ := List.mem_map.mp left
      obtain ⟨node, dir, inside⟩ := List.mem_flatMap.mp right
      have first := heads node other inside
      rw [← same] at first
      exact apart name listed node.name (List.mem_map_of_mem dir) (Option.some.inj first)

theorem metaData_digest (path : Bytes) (node : Node) : (metaData path node).digest = nodeDigest node := by
  cases node <;> rfl

theorem metaData_isExecutable (path : Bytes) (node : Node) :
    (metaData path node).isExecutable = nodeExecutable node := by
  cases node <;> rfl

theorem addVisit_clash {map : PathNodeMetaDataMap} {path : Bytes} {stored node : Node}
    (found : map.find path = some (metaData path stored)) (clash : Clash stored node) :
    ∃ what, addVisit map (path, node) = .error (.runtimeError what) := by
  cases node with
  | file digest isExecutable =>
    have differs : (metaData path stored).equalsFile ⟨path, digest, isExecutable, none⟩ = false := by
      simp only [NodeMetaData.equalsFile, metaData_digest, metaData_isExecutable, decide_eq_false_iff_not]
      exact clash
    simp only [addVisit, flattenFile, genNewPath, if_true, found, differs]
    exact ⟨_, rfl⟩
  | symlink target =>
    obtain ⟨other, rfl, differs⟩ := clash
    simp only [addVisit, flattenSymlink, genNewPath, if_true, found, metaData, differs, if_false]
    exact ⟨_, rfl⟩
  | dir digest => exact clash.elim

theorem addVisit_ok {map : PathNodeMetaDataMap} {path : Bytes} {node : Node}
    (free : ∀ other, map.find path = some other → ∃ stored, other = metaData path stored ∧ ¬Clash stored node) :
    addVisit map (path, node) = .ok (map.emplace path (metaData path node)) := by
  cases node with
  | file digest isExecutable =>
    simp only [addVisit, flattenFile, genNewPath, if_true]
    cases found : map.find path with
    | none => rfl
    | some other =>
      obtain ⟨stored, rfl, same⟩ := free other found
      have equal : (metaData path stored).equalsFile ⟨path, digest, isExecutable, none⟩ = true := by
        simp only [NodeMetaData.equalsFile, metaData_digest, metaData_isExecutable, decide_eq_true_eq]
        exact not_not.mp same
      simp only [equal, if_true]
      rfl
  | symlink target =>
    simp only [addVisit, flattenSymlink, genNewPath, if_true]
    cases found : map.find path with
    | none => rfl
    | some other =>
      obtain ⟨stored, rfl, same⟩ := free other found
      cases stored with
      | file | dir => rfl
      | symlink old =>
        have equal : old = target := by
          by_contra differs
          exact same ⟨old, rfl, differs⟩
        simp only [metaData, equal, if_true]
  | dir digest => rfl

theorem addVisit_dir (map : PathNodeMetaDataMap) (path : Bytes) (digest : Digest) :
    addVisit map (path, .dir digest) = pure (map.emplace path (.dir path digest)) := rfl

theorem foldlM_flatMap {step : PathNodeMetaDataMap → DirectoryNode → Except Exn PathNodeMetaDataMap}
    {expand : DirectoryNode → List (Bytes × Node)} {nodes : List DirectoryNode}
    (each : ∀ map, ∀ node ∈ nodes, step map node = (expand node).foldlM addVisit map) (map : PathNodeMetaDataMap) :
    nodes.foldlM step map = (nodes.flatMap expand).foldlM addVisit map := by
  induction nodes generalizing map with
  | nil => rfl
  | cons node nodes ih =>
    rw [List.foldlM_cons, List.flatMap_cons, List.foldlM_append, each map node List.mem_cons_self]
    exact bind_congr fun map => ih (fun map other listed => each map other (List.mem_cons_of_mem _ listed)) map

def nodesOf (find : Digest → Option Directory) : Nat → Directory → Bytes → List (Bytes × Node)
  | 0, _, _ => []
  | depth + 1, directory, dirName =>
    (directory.files.map fun node => (genNewPath dirName node.name, .file node.digest node.isExecutable)) ++
    (directory.symlinks.map fun node => (genNewPath dirName node.name, .symlink node.target)) ++
    directory.directories.flatMap fun node => (genNewPath dirName node.name, .dir node.digest) ::
      match find node.digest with
      | none => []
      | some child => nodesOf find depth child (genNewPath dirName node.name)

theorem buildFlattenedPath_nodesOf {codec : Encoding Directory} {dsMap : DigestStringMap}
    (resolves : Resolves codec dsMap find) {stack : Nat}
    {directory : Directory} (deep : Deep find stack directory) (map : PathNodeMetaDataMap) (dirName : Bytes) :
    buildFlattenedPath codec dsMap stack map directory dirName =
      (nodesOf find stack directory dirName).foldlM addVisit map := by
  induction stack generalizing directory map dirName with
  | zero => exact deep.elim
  | succ stack ih =>
    rw [nodesOf, List.foldlM_append, List.foldlM_append, buildFlattenedPath]
    simp only [List.foldlM_map, ← flattenFile_eq, ← flattenSymlink_eq, bind_assoc]
    refine bind_congr fun map => bind_congr fun map => ?_
    apply foldlM_flatMap
    intro map node listed
    have resolved := resolves node.digest
    rw [List.foldlM_cons, addVisit_dir, pure_bind]
    cases stored : dsMap.find node.digest with
    | none =>
      rw [stored, Option.map_none] at resolved
      simp only [← resolved, List.foldlM_nil]
    | some serialized =>
      rw [stored, Option.map_some] at resolved
      simp only [← resolved, ih (deep node listed _ resolved.symm)]

theorem nodesOf_nodes (depth : Nat) (directory : Directory) (dirName : Bytes) :
    (nodesOf find depth directory dirName).map Prod.snd = (visits find depth directory).map Prod.snd := by
  induction depth generalizing directory dirName with
  | zero => rfl
  | succ depth ih =>
    simp only [nodesOf, visits, List.map_append, List.map_map, List.map_flatMap, List.map_cons]
    congr 1
    apply List.flatMap_congr
    intro node _
    cases found : find node.digest with
    | none => simp [visitsBelow, found]
    | some child =>
      have below := ih child (genNewPath dirName node.name)
      simp only [visitsBelow, found, List.map_map, below]
      rfl

theorem nodesOf_eq {depth : Nat} {directory : Directory}
    (inner : ∀ visit ∈ visits find depth directory, ∀ name ∈ visit.1.dropLast, name ≠ []) {dirNames : List Bytes}
    (nonempty : ∀ name ∈ dirNames, name ≠ []) :
    nodesOf find depth directory (renderPath dirNames) = (visits find depth directory).map (keyed dirNames) := by
  induction depth generalizing directory dirNames with
  | zero => rfl
  | succ depth ih =>
    simp only [nodesOf, visits, List.map_append, List.map_map, List.map_flatMap, List.map_cons,
      ← renderPath_snoc nonempty]
    congr 1
    apply List.flatMap_congr
    intro node listed
    have later : visitsBelow find (visits find depth) node ⊆ visits find (depth + 1) directory := by
      intro visit member
      simp only [visits, List.mem_append, List.mem_flatMap]
      exact .inr ⟨node, listed, List.mem_cons_of_mem _ member⟩
    cases found : find node.digest with
    | none => simp [visitsBelow, found, keyed]
    | some child =>
      have below : visitsBelow find (visits find depth) node = (visits find depth child).map (descend node.name) := by
        simp [visitsBelow, found]
      rw [below] at later
      have present (visit : Visit) (member : visit ∈ visits find depth child) : visit.1 ≠ [] :=
        visits_nonempty find depth child visit.1 (List.mem_map_of_mem member)
      have named (visit : Visit) (member : visit ∈ visits find depth child) (name : Bytes)
          (within : name = node.name ∨ name ∈ visit.1.dropLast) : name ≠ [] := by
        have split : (descend node.name visit).1.dropLast = node.name :: visit.1.dropLast :=
          List.dropLast_cons_of_ne_nil (present visit member)
        apply inner _ (later (List.mem_map_of_mem member))
        rw [split]
        exact List.mem_cons.mpr within
      by_cases nameless : node.name = []
      next =>
        have nothing : visits find depth child = [] := by
          apply List.eq_nil_iff_forall_not_mem.mpr
          exact fun visit member => named visit member [] (.inl nameless.symm) rfl
        have none := @nodesOf_nodes find depth child (renderPath (dirNames ++ [node.name]))
        rw [nothing, List.map_nil, List.map_eq_nil_iff] at none
        simp [below, none, nothing, keyed]
      next =>
        have extended : ∀ name ∈ dirNames ++ [node.name], name ≠ [] := by
          intro name member
          rcases List.mem_append.mp member with old | new
          next => exact nonempty name old
          next => exact List.mem_singleton.mp new ▸ nameless
        have inside := ih (fun visit member name within => named visit member name (.inr within)) extended
        simp [below, inside, keyed, descend]

theorem buildFlattenedPath_eq {codec : Encoding Directory} {dsMap : DigestStringMap}
    (resolves : Resolves codec dsMap find) (closed : Closed find tree) {stack : Nat} {directory : Directory}
    (member : directory ∈ tree) (deep : Deep find stack directory) (map : PathNodeMetaDataMap)
    {dirNames : List Bytes} (nonempty : ∀ name ∈ dirNames, name ≠ []) :
    buildFlattenedPath codec dsMap stack map directory (renderPath dirNames) =
      ((visits find stack directory).map (keyed dirNames)).foldlM addVisit map := by
  have inner (visit : Visit) (visited : visit ∈ visits find stack directory) (name : Bytes)
      (within : name ∈ visit.1.dropLast) : name ≠ [] :=
    (lists_proper closed member ((mem_visits deep _ _).mp visited)).nonempty name (List.mem_of_mem_dropLast within)
  rw [buildFlattenedPath_nodesOf resolves deep, nodesOf_eq inner nonempty]

end Visits

end BuildboxCommon.MergeUtil
