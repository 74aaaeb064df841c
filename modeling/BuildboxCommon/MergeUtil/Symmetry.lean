import BuildboxCommon.MergeUtil.CanonicalMerge

set_option autoImplicit false

namespace BuildboxCommon.MergeUtil

open ByteString FileUtils NestedDirectory

def MergesAlike (hash : Bytes → Bytes) (codec : Codec Directory) (stack : Nat)
    (first second : DirectoryTree) : Prop :=
  ∀ iteration iteration' outputs, ∃ merged after merged' after',
    createMergedDigest hash codec stack iteration first.list second.list outputs = .ok (merged, after) ∧
    createMergedDigest hash codec stack iteration' second.list first.list outputs = .ok (merged', after') ∧
    merged = merged' ∧
    (merged = true → after.rootDigest = after'.rootDigest ∧
      ∀ digest, after.newDirectoryBlobs.find digest = after'.newDirectoryBlobs.find digest)

structure FillAlike (find : Digest → Option Directory) (first second : Directory) : Prop where
  free : ¬Collides find first second
  free' : ¬Collides find second first
  single : SingleValued (MergedLands find first second)
  alike : ∀ path entry, MergedLands find first second path entry ↔ MergedLands find second first path entry

def OrderIrrelevant (find : Digest → Option Directory) (first second : Directory) : Prop :=
  Collides find first second ∧ Collides find second first ∨ FillAlike find first second

section Resolution

variable {hash : Bytes → Bytes} (injective : Function.Injective hash) {codec : Codec Directory}

include injective

theorem childOf_congr {directories others : List Directory}
    (same : ∀ directory, directory ∈ directories ↔ directory ∈ others) :
    childOf hash codec directories = childOf hash codec others := by
  have one {directories others : List Directory} (within : directories ⊆ others) {digest : Digest}
      {child : Directory} (found : childOf hash codec directories digest = some child) :
      childOf hash codec others digest = some child := by
    have key : (digestOf hash codec child).key = digest.key := by simpa using List.find?_some found
    rw [childOf, ← key]
    exact childOf_digestOf injective (within (childOf_mem found))
  funext digest
  refine Option.ext fun child => ⟨one fun directory => (same directory).mp, one fun directory => (same directory).mpr⟩

theorem childOf_swap (first second : List Directory) :
    childOf hash codec (second ++ first) = childOf hash codec (first ++ second) :=
  childOf_congr injective fun directory => by rw [List.mem_append, List.mem_append, or_comm]

theorem MergeInput.swap {first second : DirectoryTree} (input : MergeInput hash codec first second) :
    MergeInput hash codec second first := by
  have swapped (directory : Directory) (member : directory ∈ second.list ++ first.list) :
      directory ∈ first.list ++ second.list := by
    rwa [List.mem_append, or_comm, ← List.mem_append]
  constructor
  next => exact fun directory member => input.named directory (swapped directory member)
  next =>
    intro directory member node listed
    obtain ⟨child, stored, same⟩ := input.resolved directory (swapped directory member) node listed
    exact ⟨child, by rwa [List.mem_append, or_comm, ← List.mem_append], same⟩
  next =>
    intro directory member
    rw [childOf_swap injective]
    exact input.grounded directory (swapped directory member)

theorem holds_of_same_outputs {placements others : List Placement} {blobs : DigestStringMap}
    (plain : ∀ path entry, (empty.putAll placements).Holds path entry → entry.plain = entry)
    (plain' : ∀ path entry, (empty.putAll others).Holds path entry → entry.plain = entry)
    (root : digestOf hash codec (message hash codec (empty.putAll placements)) =
      digestOf hash codec (message hash codec (empty.putAll others)))
    (stored : ∀ digest, ((messages hash codec (empty.putAll placements)).foldl (store hash codec) blobs).find digest =
      ((messages hash codec (empty.putAll others)).foldl (store hash codec) blobs).find digest)
    (path : List Bytes) (entry : Entry) :
    (empty.putAll placements).Holds path entry ↔ (empty.putAll others).Holds path entry := by
  have left := @stored_flattening hash codec injective _ (Ordered.empty.putAll placements) plain blobs path entry
  have right := @stored_flattening hash codec injective _ (Ordered.empty.putAll others) plain' blobs path entry
  have same : storedChild codec ((messages hash codec (empty.putAll placements)).foldl (store hash codec) blobs) =
      storedChild codec ((messages hash codec (empty.putAll others)).foldl (store hash codec) blobs) := by
    funext digest
    rw [storedChild, storedChild, stored]
  rw [← left, ← right, same, digestOf_injective injective (congrArg Digest.key root)]

variable {first second : DirectoryTree} {stack : Nat}
  (spec : MergeSpec hash codec first second stack) (spec' : MergeSpec hash codec second first stack)

include spec spec'

theorem mergesAlike_of_fillAlike
    (fill : FillAlike (childOf hash codec (first.list ++ second.list)) first.root second.root) :
    MergesAlike hash codec stack first second := by
  intro iteration iteration' outputs
  obtain ⟨merged, placeable, lands, produces, -⟩ := spec.merges fill.free
  rw [← childOf_swap injective] at fill
  obtain ⟨merged', placeable', lands', produces', -⟩ := spec'.merges fill.free'
  rw [childOf_swap injective] at fill lands'
  obtain ⟨placements, perm, produced⟩ := produces iteration
  obtain ⟨others, perm', produced'⟩ := produces' iteration'
  obtain ⟨list, success⟩ := produced outputs
  obtain ⟨list', success'⟩ := produced' outputs
  have landed (path : List Bytes) (entry : Entry) : Lands placements path entry ↔ Lands others path entry := by
    rw [lands_perm perm, lands, fill.alike, ← lands', lands_perm perm']
  have single : SingleValued (Lands placements) := by
    intro path a b left right
    rw [lands_perm perm, lands] at left right
    exact fill.single path a b left right
  have single' : SingleValued (Lands others) := by
    intro path a b left right
    rw [← landed] at left right
    exact single path a b left right
  have same : empty.putAll placements = empty.putAll others := by
    refine ext_of_holds (Ordered.empty.putAll placements) (Ordered.empty.putAll others) fun path entry => ?_
    rw [holds_putAll (fun placement member => placeable placement (perm.mem_iff.mp member)) single,
      holds_putAll (fun placement member => placeable' placement (perm'.mem_iff.mp member)) single', landed]
  refine ⟨true, _, true, _, success, success', rfl, fun _ => ⟨?_, fun digest => ?_⟩⟩
  next => rw [same]
  next => rw [same]

theorem fillAlike_of_mergesAlike (merges : MergesAlike hash codec stack first second)
    (free : ¬Collides (childOf hash codec (first.list ++ second.list)) first.root second.root)
    (free' : ¬Collides (childOf hash codec (first.list ++ second.list)) second.root first.root) :
    FillAlike (childOf hash codec (first.list ++ second.list)) first.root second.root := by
  have swap := @childOf_swap hash injective codec first.list second.list
  obtain ⟨merged, placeable, lands, -, orders⟩ := spec.merges free
  obtain ⟨merged', placeable', lands', -, orders'⟩ := spec'.merges (swap ▸ free')
  rw [swap] at lands'
  -- Whatever the two orders of visiting are, the two merges hold the same.
  have same {placements others : List Placement} (perm : placements.Perm merged) (perm' : others.Perm merged')
      (path : List Bytes) (entry : Entry) :
      (empty.putAll placements).Holds path entry ↔ (empty.putAll others).Holds path entry := by
    obtain ⟨iteration, produced⟩ := orders placements perm
    obtain ⟨iteration', produced'⟩ := orders' others perm'
    obtain ⟨list, success⟩ := produced ⟨.unset, .empty, none⟩
    obtain ⟨list', success'⟩ := produced' ⟨.unset, .empty, none⟩
    obtain ⟨_, after, _, after', returned, returned', -, outputs⟩ := merges iteration iteration' ⟨.unset, .empty, none⟩
    obtain ⟨rfl, rfl⟩ := Prod.mk.inj (Except.ok.inj (returned.symm.trans success))
    obtain ⟨rfl, rfl⟩ := Prod.mk.inj (Except.ok.inj (returned'.symm.trans success'))
    obtain ⟨root, stored⟩ := outputs rfl
    refine holds_of_same_outputs injective ?_ ?_ root stored path entry
    next =>
      intro path entry holds
      have landed := lands_of_holds (fun placement member => placeable placement (perm.mem_iff.mp member)) holds
      exact mergedLands_plain ((lands path entry).mp ((lands_perm perm path entry).mp landed))
    next =>
      intro path entry holds
      have landed := lands_of_holds (fun placement member => placeable' placement (perm'.mem_iff.mp member)) holds
      exact mergedLands_plain ((lands' path entry).mp ((lands_perm perm' path entry).mp landed))
  -- So each keeps all that lands in the other, in whatever order it was placed.
  have kept {path : List Bytes} {entry : Entry} (landed : Lands merged path entry) :
      (empty.putAll merged').Holds path entry := by
    obtain ⟨order, perm, holds⟩ := exists_holds placeable landed
    exact (same perm (.refl _) path entry).mp holds
  have kept' {path : List Bytes} {entry : Entry} (landed : Lands merged' path entry) :
      (empty.putAll merged).Holds path entry := by
    obtain ⟨order, perm, holds⟩ := exists_holds placeable' landed
    exact (same (.refl _) perm path entry).mpr holds
  refine ⟨free, free', fun path a b left right kind => ?_, fun path entry => ?_⟩
  next => exact holds_functional (kept ((lands _ _).mpr left)) (kept ((lands _ _).mpr right)) kind
  next =>
    rw [← lands, ← lands']
    exact ⟨fun landed => lands_of_holds placeable' (kept landed),
      fun landed => lands_of_holds placeable (kept' landed)⟩

omit injective spec' in
theorem merge_succeeds_iff (iteration : Iteration) (outputs : MergeOutputs) : ∃ merged after,
    createMergedDigest hash codec stack iteration first.list second.list outputs = .ok (merged, after) ∧
      (merged = true ↔ ¬Collides (childOf hash codec (first.list ++ second.list)) first.root second.root) := by
  by_cases collides : Collides (childOf hash codec (first.list ++ second.list)) first.root second.root
  next => exact ⟨false, outputs, spec.collides collides iteration outputs, by simpa using collides⟩
  next =>
    obtain ⟨_, _, _, produces, -⟩ := spec.merges collides
    obtain ⟨_, _, produced⟩ := produces iteration
    obtain ⟨list, success⟩ := produced outputs
    exact ⟨true, _, success, by simpa using collides⟩

theorem collides_iff_of_mergesAlike (merges : MergesAlike hash codec stack first second) :
    Collides (childOf hash codec (first.list ++ second.list)) first.root second.root ↔
      Collides (childOf hash codec (first.list ++ second.list)) second.root first.root := by
  obtain ⟨merged, after, returned, succeeds⟩ := merge_succeeds_iff spec entriesInOrder ⟨.unset, .empty, none⟩
  obtain ⟨merged', after', returned', succeeds'⟩ := merge_succeeds_iff spec' entriesInOrder ⟨.unset, .empty, none⟩
  obtain ⟨_, _, _, _, left, right, same, -⟩ := merges entriesInOrder entriesInOrder ⟨.unset, .empty, none⟩
  obtain ⟨rfl, -⟩ := Prod.mk.inj (Except.ok.inj (left.symm.trans returned))
  obtain ⟨rfl, -⟩ := Prod.mk.inj (Except.ok.inj (right.symm.trans returned'))
  rw [childOf_swap injective] at succeeds'
  rw [← not_iff_not, ← succeeds, ← succeeds', same]

theorem mergesAlike_iff : MergesAlike hash codec stack first second ↔
    OrderIrrelevant (childOf hash codec (first.list ++ second.list)) first.root second.root := by
  constructor
  next =>
    intro merges
    have both := collides_iff_of_mergesAlike injective spec spec' merges
    by_cases collides : Collides (childOf hash codec (first.list ++ second.list)) first.root second.root
    next => exact .inl ⟨collides, both.mp collides⟩
    next => exact .inr (fillAlike_of_mergesAlike injective spec spec' merges collides (mt both.mpr collides))
  next =>
    rintro (⟨collides, collides'⟩ | fill)
    next =>
      rw [← childOf_swap injective] at collides'
      intro iteration iteration' outputs
      exact ⟨false, _, false, _, spec.collides collides iteration outputs,
        spec'.collides collides' iteration' outputs, rfl, by simp⟩
    next => exact mergesAlike_of_fillAlike injective spec spec' fill

end Resolution

section Ordinary

variable {find : Digest → Option Directory} {tree : List Directory} (closed : Closed find tree)
  (ordinary : OrdinaryTrees tree) {first second : Directory} (first_mem : first ∈ tree)
  (second_mem : second ∈ tree) {stack : Nat} (first_deep : Deep find stack first)
  (second_deep : Deep find stack second)

theorem SameKinds.swap (kinds : SameKinds find first second) : SameKinds find second first :=
  fun path a b left right => (kinds path b a right left).symm

theorem Compatible.swap (compatible : Compatible find first second) : Compatible find second first := by
  constructor
  next =>
    intro path digest isExecutable digest' isExecutable' left right
    obtain ⟨same, alike⟩ := compatible.files path _ _ _ _ right left
    exact ⟨same.symm, alike.symm⟩
  next => exact fun path target target' left right => (compatible.symlinks path _ _ right left).symm

include closed ordinary first_mem second_mem first_deep second_deep

theorem orderIrrelevant_of_sameKinds (kinds : SameKinds find first second) :
    OrderIrrelevant find first second := by
  have free := compatible_iff closed ordinary first_mem second_mem kinds
  have free' := compatible_iff closed ordinary second_mem first_mem kinds.swap
  by_cases compatible : Compatible find first second
  next =>
    refine .inr ⟨free.mpr compatible, free'.mpr compatible.swap,
      union_singleValued closed ordinary first_mem second_mem kinds first_deep second_deep compatible, ?_⟩
    intro path entry
    rw [mergedLands_union closed ordinary first_mem second_mem kinds compatible,
      mergedLands_union closed ordinary second_mem first_mem kinds.swap compatible.swap, or_comm]
  next =>
    refine .inl ⟨not_not.mp (mt free.mp compatible), not_not.mp fun open' => compatible ?_⟩
    exact (free'.mp open').swap

theorem mergedLands_first {path : List Bytes} {node : Node} {entry : Entry} (left : Lists find first path node)
    (lands : MergedLands find first second path entry) : entry = node.entry ∨ entry = .directory := by
  rcases (mergedLands_iff closed ordinary.nulFree first_mem second_mem path entry).mp lands with
    ⟨other, merged, rfl⟩ | ⟨rfl, -⟩
  next => exact .inl (by rw [merged_functional closed first_mem second_mem first_deep second_deep merged (.inl left)])
  next => exact .inr rfl

theorem sameKinds_of_fillAlike (fill : FillAlike find first second) : SameKinds find first second := by
  intro path a b left right
  have lands := (mergedLands_iff closed ordinary.nulFree first_mem second_mem path _).mpr
    (.inl ⟨a, .inl left, rfl⟩)
  have lands' := (mergedLands_iff closed ordinary.nulFree second_mem first_mem path _).mpr
    (.inl ⟨b, .inl right, rfl⟩)
  rcases mergedLands_first closed ordinary first_mem second_mem first_deep second_deep left
    ((fill.alike path _).mpr lands') with same | directory
  next => rw [same]
  next =>
    rcases mergedLands_first closed ordinary second_mem first_mem second_deep first_deep right
      ((fill.alike path _).mp lands) with same | directory'
    next => rw [same]
    next => rw [directory, directory']

theorem orderIrrelevant_iff : OrderIrrelevant find first second ↔
    SameKinds find first second ∨ Collides find first second ∧ Collides find second first := by
  constructor
  next =>
    rintro (both | fill)
    next => exact .inr both
    next =>
      exact .inl (sameKinds_of_fillAlike closed ordinary first_mem second_mem first_deep second_deep fill)
  next =>
    rintro (kinds | both)
    next =>
      exact orderIrrelevant_of_sameKinds closed ordinary first_mem second_mem first_deep second_deep kinds
    next => exact .inl both

end Ordinary

theorem createMergedDigest_comm_iff {hash : Bytes → Bytes} (injective : Function.Injective hash)
    (codec : Codec Directory) (inputTree templateTree : DirectoryTree)
    (input : MergeInput hash codec inputTree templateTree) :
    (∃ depth, ∀ stack, depth ≤ stack → (MergesAlike hash codec stack inputTree templateTree ↔
      OrderIrrelevant (childOf hash codec (inputTree.list ++ templateTree.list)) inputTree.root
        templateTree.root)) ∧
    (OrdinaryTrees (inputTree.list ++ templateTree.list) →
      (OrderIrrelevant (childOf hash codec (inputTree.list ++ templateTree.list)) inputTree.root
        templateTree.root ↔
      SameKinds (childOf hash codec (inputTree.list ++ templateTree.list)) inputTree.root templateTree.root ∨
        Collides (childOf hash codec (inputTree.list ++ templateTree.list)) inputTree.root templateTree.root ∧
        Collides (childOf hash codec (inputTree.list ++ templateTree.list)) templateTree.root inputTree.root)) := by
  constructor
  next =>
    obtain ⟨depth, spec⟩ := merge_spec input
    obtain ⟨depth', spec'⟩ := merge_spec (input.swap injective)
    refine ⟨max depth depth', fun stack enough => ?_⟩
    exact mergesAlike_iff injective (spec stack ((le_max_left _ _).trans enough))
      (spec' stack ((le_max_right _ _).trans enough))
  next =>
    intro ordinary
    obtain ⟨first_depth, first_deep⟩ := (input.grounded _ inputRoot_mem).deep
    obtain ⟨second_depth, second_deep⟩ := (input.grounded _ templateRoot_mem).deep
    exact orderIrrelevant_iff input.closed ordinary inputRoot_mem templateRoot_mem
      (first_deep.mono (le_max_left _ second_depth)) (second_deep.mono (le_max_right first_depth _))

theorem createMergedDigest_comm_iff_sample :
    (∃ depth, ∀ stack, depth ≤ stack → (MergesAlike sampleHash sampleCodec stack sampleInput sampleTemplate ↔
      OrderIrrelevant (childOf sampleHash sampleCodec (sampleInput.list ++ sampleTemplate.list)) sampleInput.root
        sampleTemplate.root)) ∧
    (OrdinaryTrees (sampleInput.list ++ sampleTemplate.list) →
      (OrderIrrelevant (childOf sampleHash sampleCodec (sampleInput.list ++ sampleTemplate.list)) sampleInput.root
        sampleTemplate.root ↔
      SameKinds (childOf sampleHash sampleCodec (sampleInput.list ++ sampleTemplate.list)) sampleInput.root
        sampleTemplate.root ∨
        Collides (childOf sampleHash sampleCodec (sampleInput.list ++ sampleTemplate.list)) sampleInput.root
          sampleTemplate.root ∧
        Collides (childOf sampleHash sampleCodec (sampleInput.list ++ sampleTemplate.list)) sampleTemplate.root
          sampleInput.root)) :=
  createMergedDigest_comm_iff sampleHash_injective sampleCodec sampleInput sampleTemplate sampleMergeInput

theorem mixed_collides {find : Digest → Option Directory} : Collides find mixedTemplate.root mixedInput.root :=
  ⟨_, _, _, mixedTemplate_lists, mixedInput_lists, by simp [Clash, nodeExecutable]⟩

theorem createMergedDigest_order_matters :
    ¬∀ first second, MergeInput sampleHash sampleCodec first second →
      (∀ directory ∈ first.list ++ second.list, Canonical directory) →
      ∃ depth, ∀ stack, depth ≤ stack → MergesAlike sampleHash sampleCodec stack first second := by
  intro claimed
  obtain ⟨depth, alike⟩ := claimed mixedInput mixedTemplate mixedMergeInput mixed_canonical
  obtain ⟨enough, spec⟩ := merge_spec mixedMergeInput
  obtain ⟨enough', spec'⟩ := merge_spec (mixedMergeInput.swap sampleHash_injective)
  have same := collides_iff_of_mergesAlike sampleHash_injective
    (spec _ ((le_max_left _ _).trans (le_max_right _ _))) (spec' _ ((le_max_right _ _).trans (le_max_right depth _)))
    (alike _ (le_max_left _ _))
  exact mixed_free (same.mpr mixed_collides)

end BuildboxCommon.MergeUtil
