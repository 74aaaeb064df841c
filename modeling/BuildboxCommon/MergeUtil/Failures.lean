import BuildboxCommon.MergeUtil.Union

set_option autoImplicit false

namespace BuildboxCommon.MergeUtil

open ByteString FileUtils NestedDirectory

def OnlyCollisions {α : Type} (result : Except Exn α) : Prop :=
  ∀ thrown, result = .error thrown → thrown.isRuntimeError = true

section OnlyCollisions

variable {α β : Type}

theorem onlyCollisions_ok (value : α) : OnlyCollisions (.ok value) := by simp [OnlyCollisions]

theorem onlyCollisions_runtimeError (what : Bytes) : OnlyCollisions (.error (.runtimeError what) : Except Exn α) := by
  intro thrown same
  obtain rfl := Except.error.inj same
  rfl

theorem OnlyCollisions.bind {result : Except Exn α} (first : OnlyCollisions result) {rest : α → Except Exn β}
    (later : ∀ value, OnlyCollisions (rest value)) : OnlyCollisions (result >>= rest) := by
  cases result with
  | error thrown => exact fun other same => first other (by rw [← Except.error.inj same])
  | ok value => exact later value

theorem onlyCollisions_foldlM {step : β → α → Except Exn β} {items : List α}
    (each : ∀ value, ∀ item ∈ items, OnlyCollisions (step value item)) (value : β) :
    OnlyCollisions (items.foldlM step value) := by
  induction items generalizing value with
  | nil => exact onlyCollisions_ok value
  | cons item items ih =>
    rw [List.foldlM_cons]
    exact (each value item List.mem_cons_self).bind
      fun next => ih (fun value other member => each value other (List.mem_cons_of_mem _ member)) next

theorem onlyCollisions_flattenFile (dirName : Bytes) (map : PathNodeMetaDataMap) (node : FileNode) :
    OnlyCollisions (flattenFile dirName map node) := by
  simp only [flattenFile]
  split
  next => exact onlyCollisions_ok _
  next =>
    split
    next => exact onlyCollisions_ok _
    next => exact onlyCollisions_runtimeError _

theorem onlyCollisions_flattenSymlink (dirName : Bytes) (map : PathNodeMetaDataMap) (node : SymlinkNode) :
    OnlyCollisions (flattenSymlink dirName map node) := by
  simp only [flattenSymlink]
  split
  next path target found =>
    split
    next => exact onlyCollisions_ok _
    next => exact onlyCollisions_runtimeError _
  next => exact onlyCollisions_ok _

end OnlyCollisions

variable {hash : Bytes → Bytes} {codec : Codec Directory}

section Listed

-- The node that came first at its path stays.
theorem find_emplaceAll (visited : List (Bytes × Node)) (path : Bytes) : (emplaceAll .empty visited).find path =
    (visited.find? fun visit => visit.1 = path).map fun visit => metaData path visit.2 := by
  induction visited using List.reverseRecOn with
  | nil => rfl
  | append_singleton visited visit ih =>
    have step : emplaceAll .empty (visited ++ [visit]) =
        (emplaceAll .empty visited).emplace visit.1 (metaData visit.1 visit.2) := by
      simp [emplaceAll]
    rw [step, UnorderedMap.find_emplace, ih, List.find?_append, List.find?_singleton]
    by_cases same : path = visit.1
    next =>
      subst same
      cases found : visited.find? fun other => decide (other.1 = visit.1) <;> simp [ih, found]
    next =>
      have differs : ¬visit.1 = path := Ne.symm same
      cases found : visited.find? fun other => decide (other.1 = path) <;> simp [same, differs]

def ListsTwice (nodes : List (Bytes × Node)) : Prop :=
  ∃ before visit after first, nodes = before ++ visit :: after ∧
    before.find? (fun other => other.1 = visit.1) = some first ∧ Clash first.2 visit.2

theorem listsTwice_snoc (nodes : List (Bytes × Node)) (visit : Bytes × Node) : ListsTwice (nodes ++ [visit]) ↔
    ListsTwice nodes ∨ ∃ first, nodes.find? (fun other => other.1 = visit.1) = some first ∧ Clash first.2 visit.2 := by
  constructor
  next =>
    rintro ⟨before, other, after, first, split, found, clash⟩
    cases after using List.reverseRecOn with
    | nil =>
      obtain ⟨rfl, same⟩ := List.append_inj' split rfl
      obtain rfl := List.cons.inj same |>.1
      exact .inr ⟨first, found, clash⟩
    | append_singleton after last =>
      rw [← List.cons_append, ← List.append_assoc] at split
      exact .inl ⟨before, other, after, first, (List.append_inj' split rfl).1, found, clash⟩
  next =>
    rintro (⟨before, other, after, first, rfl, found, clash⟩ | ⟨first, found, clash⟩)
    next => exact ⟨before, other, after ++ [visit], first, by simp, found, clash⟩
    next => exact ⟨nodes, visit, [], first, rfl, found, clash⟩

theorem foldlM_addVisit_empty (nodes : List (Bytes × Node)) :
    (¬ListsTwice nodes → nodes.foldlM addVisit .empty = .ok (emplaceAll .empty nodes)) ∧
      (ListsTwice nodes → ∃ what, nodes.foldlM addVisit .empty = .error (.runtimeError what)) := by
  induction nodes using List.reverseRecOn with
  | nil =>
    refine ⟨fun _ => rfl, ?_⟩
    rintro ⟨before, visit, after, first, split, -⟩
    simp at split
  | append_singleton nodes visit ih =>
    rw [listsTwice_snoc, List.foldlM_append]
    by_cases already : ListsTwice nodes
    next =>
      obtain ⟨what, raised⟩ := ih.2 already
      rw [raised]
      exact ⟨fun none => absurd (.inl already) none, fun _ => ⟨what, rfl⟩⟩
    next =>
      have found := find_emplaceAll nodes visit.1
      have one (map : PathNodeMetaDataMap) : [visit].foldlM addVisit map = addVisit map visit := by simp
      rw [ih.1 already]
      constructor
      next =>
        intro none
        rw [not_or] at none
        have added := @addVisit_ok (emplaceAll .empty nodes) visit.1 visit.2 ?_
        next =>
          refine (one _).trans (added.trans ?_)
          simp [emplaceAll]
        next =>
          intro other stored
          rw [found, Option.map_eq_some_iff] at stored
          obtain ⟨first, first_found, rfl⟩ := stored
          exact ⟨first.2, rfl, fun clash => none.2 ⟨first, first_found, clash⟩⟩
      next =>
        rintro (before | ⟨first, first_found, clash⟩)
        next => exact absurd before already
        next =>
          rw [first_found, Option.map_some] at found
          obtain ⟨what, raised⟩ := addVisit_clash found clash
          exact ⟨what, (one _).trans raised⟩

end Listed

theorem onlyCollisions_buildFlattenedPath {dsMap : DigestStringMap} {find : Digest → Option Directory}
    (resolves : Resolves codec dsMap find) {stack : Nat} {directory : Directory} (deep : Deep find stack directory)
    (map : PathNodeMetaDataMap) (dirName : Bytes) :
    OnlyCollisions (buildFlattenedPath codec dsMap stack map directory dirName) := by
  rw [buildFlattenedPath_nodesOf resolves deep]
  apply onlyCollisions_foldlM
  intro map visit _
  obtain ⟨path, node⟩ := visit
  cases node with
  | file => exact onlyCollisions_flattenFile _ _ _
  | symlink => exact onlyCollisions_flattenSymlink _ _ _
  | dir => exact onlyCollisions_ok _

def Contained (result : Except Exn (Bool × MergeOutputs)) (outputs : MergeOutputs) : Prop :=
  ∃ merged after, result = .ok (merged, after) ∧ (merged = false → after = outputs)

def CollidesAlone (find : Digest → Option Directory) (stack : Nat) (inputTree : List Directory) : Prop :=
  ∃ root, inputTree.head? = some root ∧ ListsTwice (nodesOf find stack root [])

variable {inputTree templateTree : List Directory} {stack : Nat} {iteration : Iteration} {outputs : MergeOutputs}

theorem contained_of_onlyCollisions (collisions : OnlyCollisions (flattenTrees codec (buildDigestDirectoryMap hash codec
    templateTree (buildDigestDirectoryMap hash codec inputTree .empty)) stack inputTree templateTree)) :
    Contained (createMergedDigest hash codec stack iteration inputTree templateTree outputs) outputs := by
  unfold Contained createMergedDigest
  split
  next => exact ⟨false, outputs, rfl, fun _ => rfl⟩
  next =>
    dsimp only
    split
    next thrown failed =>
      rw [if_pos (collisions thrown failed)]
      exact ⟨false, outputs, rfl, fun _ => rfl⟩
    next => exact ⟨true, _, rfl, by simp⟩

theorem not_contained_of_thrown {thrown : Exn} (other : thrown.isRuntimeError = false)
    (some : ¬(inputTree = [] ∧ templateTree = []))
    (failed : flattenTrees codec (buildDigestDirectoryMap hash codec templateTree
      (buildDigestDirectoryMap hash codec inputTree .empty)) stack inputTree templateTree = .error thrown) :
    ¬Contained (createMergedDigest hash codec stack iteration inputTree templateTree outputs) outputs := by
  rintro ⟨merged, after, returned, -⟩
  rw [createMergedDigest, if_neg some] at returned
  simp [failed, other] at returned

theorem exists_deep {find : Digest → Option Directory} {tree : List Directory}
    (grounded : ∀ root, tree.head? = some root → Grounded find root) :
    ∃ depth, ∀ stack, depth ≤ stack → ∀ root, tree.head? = some root → Deep find stack root := by
  cases tree with
  | nil => exact ⟨0, by simp⟩
  | cons root rest =>
    obtain ⟨depth, deep⟩ := (grounded root rfl).deep
    refine ⟨depth, fun stack enough other same => ?_⟩
    obtain rfl := Option.some.inj same
    exact deep.mono enough

theorem createMergedDigest_contained_iff
    (inputGrounded : ∀ root, inputTree.head? = some root →
      Grounded (childOf hash codec (inputTree ++ templateTree)) root)
    (templateGrounded : ∀ root, templateTree.head? = some root →
      Grounded (childOf hash codec (inputTree ++ templateTree)) root) :
    ∃ depth, ∀ stack, depth ≤ stack → ∀ iteration outputs,
      Contained (createMergedDigest hash codec stack iteration inputTree templateTree outputs) outputs ↔
        (inputTree = [] ↔ templateTree = []) ∨ templateTree = [] ∧
          CollidesAlone (childOf hash codec inputTree) stack inputTree := by
  obtain ⟨inputDepth, inputDeep⟩ := exists_deep inputGrounded
  obtain ⟨templateDepth, templateDeep⟩ := exists_deep templateGrounded
  refine ⟨max inputDepth templateDepth, fun stack enough iteration outputs => ?_⟩
  have resolves := @resolves_childOf hash codec inputTree templateTree
  cases inputTree with
  | nil =>
    cases templateTree with
    | nil => exact iff_of_true ⟨false, outputs, rfl, fun _ => rfl⟩ (.inl Iff.rfl)
    | cons second others =>
      have escapes := @not_contained_of_thrown hash codec [] (second :: others) stack iteration outputs .outOfRange rfl
        (by simp) rfl
      exact iff_of_false escapes (by simp)
  | cons first rest =>
    have deep := inputDeep stack ((le_max_left _ _).trans enough) first rfl
    have input := onlyCollisions_buildFlattenedPath resolves deep .empty []
    cases templateTree with
    | nil =>
      have resolves := @resolves_childOf hash codec (first :: rest) []
      rw [List.append_nil] at resolves deep
      have built := buildFlattenedPath_nodesOf resolves deep .empty []
      have flattened : flattenTrees codec (buildDigestDirectoryMap hash codec [] (buildDigestDirectoryMap hash codec
          (first :: rest) .empty)) stack (first :: rest) [] = buildFlattenedPath codec
            (buildDigestDirectoryMap hash codec (first :: rest) .empty) stack .empty first [] >>=
              fun _ => .error .outOfRange := rfl
      obtain ⟨passes, raises⟩ := foldlM_addVisit_empty (nodesOf (childOf hash codec (first :: rest)) stack first [])
      by_cases twice : ListsTwice (nodesOf (childOf hash codec (first :: rest)) stack first [])
      next =>
        obtain ⟨what, raised⟩ := raises twice
        have failed := flattened.trans (congrArg (· >>= fun _ => Except.error Exn.outOfRange) (built.trans raised))
        apply iff_of_true
        next =>
          apply contained_of_onlyCollisions
          rw [failed]
          exact onlyCollisions_runtimeError what
        next => exact .inr ⟨rfl, first, rfl, twice⟩
      next =>
        have failed := flattened.trans
          (congrArg (· >>= fun _ => Except.error Exn.outOfRange) (built.trans (passes twice)))
        apply iff_of_false
        next => exact not_contained_of_thrown rfl (by simp) failed
        next =>
          rintro (both | ⟨-, root, same, alone⟩)
          next => exact absurd (both.mpr rfl) (List.cons_ne_nil first rest)
          next =>
            obtain rfl := Option.some.inj same
            exact twice alone
    | cons second others =>
      have deeper := templateDeep stack ((le_max_right _ _).trans enough) second rfl
      apply iff_of_true
      next =>
        apply contained_of_onlyCollisions
        exact input.bind fun map => onlyCollisions_buildFlattenedPath resolves deeper map []
      next => exact .inl (by simp)

section Samples

theorem createMergedDigest_contained_sample : ∃ depth, ∀ stack, depth ≤ stack → ∀ iteration outputs, Contained
    (createMergedDigest sampleHash sampleCodec stack iteration sampleInput.list sampleTemplate.list outputs) outputs := by
  have grounded (tree : DirectoryTree) (within : tree.list ⊆ sampleInput.list ++ sampleTemplate.list) (root : Directory)
      (first : tree.list.head? = some root) :
      Grounded (childOf sampleHash sampleCodec (sampleInput.list ++ sampleTemplate.list)) root :=
    sampleMergeInput.grounded root (within (List.mem_of_head? first))
  obtain ⟨depth, contained⟩ := createMergedDigest_contained_iff (grounded sampleInput (List.subset_append_left _ _))
    (grounded sampleTemplate (List.subset_append_right _ _))
  refine ⟨depth, fun stack enough iteration outputs => (contained stack enough iteration outputs).mpr (.inl ?_)⟩
  simp [DirectoryTree.list]

def emptyOutputs : MergeOutputs := ⟨.unset, .empty, some []⟩

theorem one_empty_tree_throws :
    createMergedDigest sampleHash sampleCodec 1 ⟨.asStored, .asStored⟩ [] [⟨[], [], [], none⟩]
      emptyOutputs = .error .outOfRange ∧
    ¬Contained (createMergedDigest sampleHash sampleCodec 1 ⟨.asStored, .asStored⟩ [] [⟨[], [], [], none⟩] emptyOutputs)
      emptyOutputs :=
  ⟨rfl, not_contained_of_thrown rfl (by simp) rfl⟩

end Samples

end BuildboxCommon.MergeUtil
