import BuildboxCommon.MergeUtil.Neutral
import BuildboxCommon.MergeUtil.Symmetry
import BuildboxCommon.Merklize.CanonicalForm

set_option autoImplicit false

namespace BuildboxCommon.MergeUtil

open ByteString FileUtils NestedDirectory OrderedEntries

section Listings

variable {first second third : Listing}

def Joined (first second : Listing) : Listing := fun path entry => first path entry ∨ second path entry

def Agree (first second : Listing) : Prop := ∀ path a b, first path a → second path b → a = b

def AlikeKinds (first second : Listing) : Prop := ∀ path a b, first path a → second path b → a.kind = b.kind

theorem agree_joined_left : Agree (Joined first second) third ↔ Agree first third ∧ Agree second third :=
  ⟨fun agree => ⟨fun path a b left => agree path a b (.inl left), fun path a b left => agree path a b (.inr left)⟩,
    fun both path a b left => left.elim (both.1 path a b) (both.2 path a b)⟩

theorem agree_joined_right : Agree first (Joined second third) ↔ Agree first second ∧ Agree first third :=
  ⟨fun agree => ⟨fun path a b left right => agree path a b left (.inl right),
      fun path a b left right => agree path a b left (.inr right)⟩,
    fun both path a b left right => right.elim (both.1 path a b left) (both.2 path a b left)⟩

theorem AlikeKinds.joined_left (kinds : AlikeKinds first third) (kinds' : AlikeKinds second third) :
    AlikeKinds (Joined first second) third :=
  fun path a b left right => left.elim (kinds path a b · right) (kinds' path a b · right)

theorem AlikeKinds.joined_right (kinds : AlikeKinds first second) (kinds' : AlikeKinds first third) :
    AlikeKinds first (Joined second third) :=
  fun path a b left right => right.elim (kinds path a b left) (kinds' path a b left)

end Listings

section Trees

variable (hash : Bytes → Bytes) (codec : Codec Directory)

structure WholeTree (tree : DirectoryTree) : Prop where
  named : ∀ directory ∈ tree.list, WellNamed directory
  resolved : ∀ directory ∈ tree.list, ∀ node ∈ directory.directories,
    ∃ child ∈ tree.list, node.digest = digestOf hash codec child
  grounded : ∀ directory ∈ tree.list, Grounded (childOf hash codec tree.list) directory

def contents (tree : DirectoryTree) : Listing := flattening (childOf hash codec tree.list) tree.root

def Gives (nd : NestedDirectory) (create : Iteration → MergeOutputs → Except Exn (Bool × MergeOutputs)) : Prop :=
  ∀ iteration outputs, ∃ list, create iteration outputs = .ok (true, ⟨digestOf hash codec (message hash codec nd),
    (messages hash codec nd).foldl (store hash codec) outputs.newDirectoryBlobs, list⟩)

def Fails (create : Iteration → MergeOutputs → Except Exn (Bool × MergeOutputs)) : Prop :=
  ∀ iteration outputs, create iteration outputs = .ok (false, outputs)

structure Filled (nd : NestedDirectory) (listing : Listing) : Prop where
  ordered : Ordered nd
  holds : ∀ path entry, nd.Holds path entry ↔ listing path entry

end Trees

theorem Filled.unique {first second : NestedDirectory} {listing : Listing} (filled : Filled first listing)
    (filled' : Filled second listing) : first = second :=
  ext_of_holds filled.ordered filled'.ordered fun path entry => (filled.holds path entry).trans
    (filled'.holds path entry).symm

section Whole

variable {hash : Bytes → Bytes} (injective : Function.Injective hash) {codec : Codec Directory} {tree : DirectoryTree}
  (whole : WholeTree hash codec tree) {directories : List Directory} (within : tree.list ⊆ directories)

theorem WholeTree.closed (whole : WholeTree hash codec tree) : Closed (childOf hash codec tree.list) tree.list :=
  ⟨whole.named, fun _ _ _ _ _ found => childOf_mem found⟩

theorem root_mem (tree : DirectoryTree) : tree.root ∈ tree.list := List.mem_cons_self

include injective whole within

theorem WholeTree.find {directory : Directory} (member : directory ∈ tree.list) {node : DirectoryNode}
    (listed : node ∈ directory.directories) : ∃ child ∈ tree.list,
      childOf hash codec tree.list node.digest = some child ∧
        childOf hash codec directories node.digest = some child := by
  obtain ⟨child, inside, same⟩ := whole.resolved directory member node listed
  rw [same]
  exact ⟨child, inside, childOf_digestOf injective inside, childOf_digestOf injective (within inside)⟩

theorem WholeTree.lists_iff {directory : Directory} (member : directory ∈ tree.list) {path : List Bytes} {node : Node} :
    Lists (childOf hash codec directories) directory path node ↔
      Lists (childOf hash codec tree.list) directory path node := by
  constructor
  next =>
    intro lists
    induction lists with
    | file listed => exact .file listed
    | symlink listed => exact .symlink listed
    | dir listed => exact .dir listed
    | inside listed found below ih =>
      obtain ⟨child, inside, here, there⟩ := whole.find injective within member listed
      obtain rfl := Option.some.inj (found.symm.trans there)
      exact .inside listed here (ih inside)
  next =>
    intro lists
    induction lists with
    | file listed => exact .file listed
    | symlink listed => exact .symlink listed
    | dir listed => exact .dir listed
    | inside listed found below ih =>
      obtain ⟨child, inside, here, there⟩ := whole.find injective within member listed
      obtain rfl := Option.some.inj (found.symm.trans here)
      exact .inside listed there (ih inside)

theorem WholeTree.flattening_iff (path : List Bytes) (entry : Entry) :
    flattening (childOf hash codec directories) tree.root path entry ↔ contents hash codec tree path entry :=
  exists_congr fun _ => and_congr_left fun _ => whole.lists_iff injective within (root_mem tree)

theorem WholeTree.deep_of {depth : Nat} {directory : Directory} (member : directory ∈ tree.list)
    (deep : Deep (childOf hash codec tree.list) depth directory) :
    Deep (childOf hash codec directories) depth directory := by
  induction depth generalizing directory with
  | zero => exact deep
  | succ depth ih =>
    intro node listed child found
    obtain ⟨other, inside, here, there⟩ := whole.find injective within member listed
    obtain rfl := Option.some.inj (found.symm.trans there)
    exact ih inside (deep node listed child here)

theorem WholeTree.grounded_in {directory : Directory} (member : directory ∈ tree.list) :
    Grounded (childOf hash codec directories) directory := by
  have grounded := whole.grounded directory member
  induction grounded with
  | mk children ih =>
    refine .mk fun node listed child found => ?_
    obtain ⟨other, inside, here, there⟩ := whole.find injective within member listed
    obtain rfl := Option.some.inj (found.symm.trans there)
    exact ih node listed child here inside

end Whole

section Pairs

variable {hash : Bytes → Bytes} (injective : Function.Injective hash) {codec : Codec Directory}
    {first second : DirectoryTree}

variable (whole : WholeTree hash codec first) (whole' : WholeTree hash codec second)

include injective whole whole'

theorem mergeInput_of_whole : MergeInput hash codec first second := by
  have left : first.list ⊆ first.list ++ second.list := List.subset_append_left _ _
  have right : second.list ⊆ first.list ++ second.list := List.subset_append_right _ _
  constructor
  next => exact fun directory member =>
    (List.mem_append.mp member).elim (whole.named directory) (whole'.named directory)
  next =>
    intro directory member node listed
    rcases List.mem_append.mp member with inFirst | inSecond
    next =>
      obtain ⟨child, inside, same⟩ := whole.resolved directory inFirst node listed
      exact ⟨child, left inside, same⟩
    next =>
      obtain ⟨child, inside, same⟩ := whole'.resolved directory inSecond node listed
      exact ⟨child, right inside, same⟩
  next =>
    exact fun directory member => (List.mem_append.mp member).elim (whole.grounded_in injective left)
      (whole'.grounded_in injective right)

variable (ordinary : OrdinaryTrees (first.list ++ second.list))
  (kinds : AlikeKinds (contents hash codec first) (contents hash codec second))

include kinds

theorem sameKinds_of_alike : SameKinds (childOf hash codec (first.list ++ second.list)) first.root second.root := by
  intro path a b left right
  refine kinds path a.entry b.entry ?_ ?_
  next => exact (whole.flattening_iff injective (List.subset_append_left _ _) path a.entry).mp ⟨a, left, rfl⟩
  next => exact (whole'.flattening_iff injective (List.subset_append_right _ _) path b.entry).mp ⟨b, right, rfl⟩

theorem compatible_iff_agree : Compatible (childOf hash codec (first.list ++ second.list)) first.root second.root ↔
    Agree (contents hash codec first) (contents hash codec second) := by
  have kinds' := sameKinds_of_alike injective whole whole' kinds
  have inFirst := whole.flattening_iff injective (List.subset_append_left first.list second.list)
  have inSecond := whole'.flattening_iff injective (List.subset_append_right first.list second.list)
  constructor
  next =>
    intro compatible path a b left right
    obtain ⟨node, lists, rfl⟩ := (inFirst path a).mpr left
    obtain ⟨node', lists', rfl⟩ := (inSecond path b).mpr right
    exact entry_eq kinds' compatible lists lists'
  next =>
    intro agree
    constructor
    next =>
      intro path digest isExecutable digest' isExecutable' left right
      have same := agree path _ _ ((inFirst path _).mp ⟨_, left, rfl⟩) ((inSecond path _).mp ⟨_, right, rfl⟩)
      obtain ⟨rfl, rfl, -⟩ := File.mk.inj (Entry.file.inj same)
      exact ⟨rfl, rfl⟩
    next =>
      intro path target target' left right
      have same := agree path _ _ ((inFirst path _).mp ⟨_, left, rfl⟩) ((inSecond path _).mp ⟨_, right, rfl⟩)
      exact Entry.symlink.inj same

variable {stack : Nat} (deep : Deep (childOf hash codec (first.list ++ second.list)) stack first.root)
  (deep' : Deep (childOf hash codec (first.list ++ second.list)) stack second.root)

include ordinary deep deep'

theorem fails_of_not_agree (disagree : ¬Agree (contents hash codec first) (contents hash codec second)) :
    Fails fun iteration => createMergedDigest hash codec stack iteration first.list second.list := by
  have input := mergeInput_of_whole injective whole whole'
  have free := compatible_iff input.closed ordinary inputRoot_mem templateRoot_mem
    (sameKinds_of_alike injective whole whole' kinds)
  rw [compatible_iff_agree injective whole whole' kinds, not_iff_comm] at free
  exact (mergeSpec_of_deep input deep deep').collides (free.mp disagree)

theorem gives_of_agree (agree : Agree (contents hash codec first) (contents hash codec second)) :
    ∃ nd, Filled nd (Joined (contents hash codec first) (contents hash codec second)) ∧
      Gives hash codec nd fun iteration => createMergedDigest hash codec stack iteration first.list second.list := by
  have input := mergeInput_of_whole injective whole whole'
  have kinds' := sameKinds_of_alike injective whole whole' kinds
  have compatible := (compatible_iff_agree injective whole whole' kinds).mpr agree
  have free := (compatible_iff input.closed ordinary inputRoot_mem templateRoot_mem kinds').mpr compatible
  have single := union_singleValued input.closed ordinary inputRoot_mem templateRoot_mem kinds' deep deep' compatible
  obtain ⟨merged, placeable, lands, produces, -⟩ := (mergeSpec_of_deep input deep deep').merges free
  have filled {placements : List Placement} (perm : placements.Perm merged) :
      Filled (NestedDirectory.empty.putAll placements)
        (Joined (contents hash codec first) (contents hash codec second)) := by
    refine ⟨Ordered.empty.putAll placements, fun path entry => ?_⟩
    rw [holds_putAll (fun placement member => placeable placement (perm.mem_iff.mp member)) ?_, lands_perm perm, lands,
      mergedLands_union input.closed ordinary inputRoot_mem templateRoot_mem kinds' compatible,
      whole.flattening_iff injective (List.subset_append_left _ _),
      whole'.flattening_iff injective (List.subset_append_right _ _)]
    next => rfl
    next =>
      intro path a b left right
      rw [lands_perm perm, lands] at left right
      exact single path a b left right
  refine ⟨_, filled (.refl merged), fun iteration outputs => ?_⟩
  obtain ⟨placements, perm, produced⟩ := produces iteration
  obtain ⟨list, created⟩ := produced outputs
  have same := (filled perm).unique (filled (.refl merged))
  exact ⟨list, same ▸ created⟩

end Pairs

end BuildboxCommon.MergeUtil
