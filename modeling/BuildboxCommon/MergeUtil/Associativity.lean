import BuildboxCommon.MergeUtil.NewBlobs
import BuildboxCommon.MergeUtil.WholeTrees

set_option autoImplicit false

namespace BuildboxCommon.MergeUtil

open ByteString FileUtils NestedDirectory OrderedEntries

section Turns

variable (hash : Bytes → Bytes) (codec : Codec Directory)

structure MergedTree (after : MergeOutputs) (tree : DirectoryTree) : Prop where
  root : storedChild codec after.newDirectoryBlobs after.rootDigest = some tree.root
  list : ∀ directory, directory ∈ tree.list ↔
    ∃ digest, Reachable codec after.newDirectoryBlobs.find after.rootDigest digest ∧
    storedChild codec after.newDirectoryBlobs digest = some directory

def InTurn (once : Iteration → MergeOutputs → Except Exn (Bool × MergeOutputs))
    (again : DirectoryTree → Iteration → MergeOutputs → Except Exn (Bool × MergeOutputs))
      (result : Option Digest) : Prop :=
  ∃ iteration outputs merged after, once iteration outputs = .ok (merged, after) ∧
    (merged = false ∧ result = none ∨
      merged = true ∧ ∃ tree, MergedTree codec after tree ∧ ∃ iteration' outputs' merged' after',
        again tree iteration' outputs' = .ok (merged', after') ∧ result = if merged' then
          some after'.rootDigest else none)

def FirstTwoFirst (stack : Nat) (first second third : DirectoryTree) : Option Digest → Prop :=
  InTurn codec (fun iteration => createMergedDigest hash codec stack iteration first.list second.list)
    fun both iteration => createMergedDigest hash codec stack iteration both.list third.list

def LastTwoFirst (stack : Nat) (first second third : DirectoryTree) : Option Digest → Prop :=
  InTurn codec (fun iteration => createMergedDigest hash codec stack iteration second.list third.list)
    fun both iteration => createMergedDigest hash codec stack iteration first.list both.list

end Turns

section Merged

variable {hash : Bytes → Bytes} (injective : Function.Injective hash) {codec : Codec Directory} {nd : NestedDirectory}
  {tree first second : DirectoryTree}

theorem grounded_messages {find : Digest → Option Directory}
    (finds : FindsBelow hash codec find nd)
    {directory : Directory} (member : directory ∈ messages hash codec nd) : Grounded find directory := by
  induction nd using NestedDirectory.induction generalizing directory with
  | step files symlinks subdirs ih =>
    rcases (mem_messages hash codec).mp member with rfl | ⟨entry, listed, inside⟩
    next =>
      refine .mk fun node member child found => ?_
      rw [message_directories] at member
      obtain ⟨entry, listed, rfl⟩ := List.mem_map.mp member
      have same := found.symm.trans (finds.found listed)
      rw [Option.some.inj same]
      exact ih entry listed (finds.deeper listed) (message_mem hash codec entry.2)
    next => exact ih entry listed (finds.deeper listed) inside

theorem files_messages_iff {asked : Digest → Prop} (ordered : Ordered nd) :
    (∀ directory ∈ messages hash codec nd, ∀ node ∈ directory.files, asked node.digest) ↔
      ∀ path file, nd.Holds path (.file file) → asked file.digest := by
  refine @messages_forall_iff hash codec (fun directory => ∀ node ∈ directory.files, asked node.digest)
    (fun nd => ∀ path file, nd.Holds path (.file file) → asked file.digest) (fun nd ordered => ?_) nd ordered
  constructor
  next =>
    intro all
    refine ⟨fun node listed => ?_, fun entry listed path file holds => ?_⟩
    next =>
      rw [message_files] at listed
      obtain ⟨entry, member, rfl⟩ := List.mem_map.mp listed
      exact all [entry.1] entry.2 ((mem_iff_get ordered.files _ _).mp member)
    next =>
      cases path with
      | nil => exact absurd holds (holds_nil _ _)
      | cons next path =>
        exact all (entry.1 :: next :: path) file ⟨entry.2, (mem_iff_get ordered.subdirs _ _).mp listed, holds⟩
  next =>
    rintro ⟨here, below⟩ path file holds
    match path with
    | [] => exact absurd holds (holds_nil _ _)
    | [name] =>
      refine here (file.toFilenode name) ?_
      rw [message_files]
      exact List.mem_map.mpr ⟨(name, file), mem_of_get holds, rfl⟩
    | name :: next :: path =>
      obtain ⟨sub, found, holds⟩ := holds
      exact below (name, sub) (mem_of_get found) _ file holds

theorem wellNamed_of_canonical {directory : Directory} (canonical : Canonical directory)
    (segments : ∀ name ∈ directory.names, IsSegment name) : WellNamed directory := by
  refine ⟨fun name member => (segments name member).1, fun name member => (segments name member).2, ?_⟩
  have once {α : Type} {name : α → Bytes} {nodes : List α} (sorted : nodes.Pairwise fun a b => name a < name b) :
      (nodes.map name).Nodup := List.pairwise_map.mpr (sorted.imp fun less => ne_of_lt less)
  rw [Directory.names, List.append_assoc, List.nodup_append, List.nodup_append]
  refine ⟨once canonical.files_sorted, ⟨once canonical.symlinks_sorted, once canonical.directories_sorted, ?_⟩, ?_⟩
  next =>
    intro a left b right
    obtain ⟨node, listed, rfl⟩ := List.mem_map.mp left
    obtain ⟨node', listed', rfl⟩ := List.mem_map.mp right
    exact (canonical.directories_symlinks node' listed' node listed).symm
  next =>
    intro a left b right
    obtain ⟨node, listed, rfl⟩ := List.mem_map.mp left
    rcases List.mem_append.mp right with right | right
    next =>
      obtain ⟨node', listed', rfl⟩ := List.mem_map.mp right
      exact canonical.files_symlinks node listed node' listed'
    next =>
      obtain ⟨node', listed', rfl⟩ := List.mem_map.mp right
      exact canonical.files_directories node listed node' listed'

structure MessagesOf (hash : Bytes → Bytes) (codec : Codec Directory) (nd : NestedDirectory)
    (tree : DirectoryTree) : Prop where
  root : tree.root = message hash codec nd
  list : ∀ directory, directory ∈ tree.list ↔ directory ∈ messages hash codec nd

theorem messagesOf_treeOf (nd : NestedDirectory) : MessagesOf hash codec nd (treeOf hash codec nd) := by
  refine ⟨rfl, fun directory => ?_⟩
  rw [mem_messages, ← mem_subdirMessages, DirectoryTree.list, List.mem_cons]
  rfl

include injective

theorem MessagesOf.stored (made : MessagesOf hash codec nd tree) {directories : List Directory}
    (within : tree.list ⊆ directories)
    {directory : Directory} (member : directory ∈ messages hash codec nd) :
    childOf hash codec directories (digestOf hash codec directory) = some directory :=
  childOf_digestOf injective (within ((made.list directory).mpr member))

theorem holdsTree_store (blobs : DigestStringMap) :
    HoldsTree hash codec ((messages hash codec nd).foldl (store hash codec) blobs).find (messages hash codec nd) :=
  fun directory member => (find_stored injective _ _ _ _).mpr (.inl ⟨directory, member, rfl, rfl⟩)

theorem mergedTree_iff (blobs : DigestStringMap) (list : Option (List Digest)) : MergedTree codec
    ⟨digestOf hash codec (message hash codec nd), (messages hash codec nd).foldl (store hash codec) blobs, list⟩ tree ↔
      MessagesOf hash codec nd tree := by
  have stored := @storedChild_messages hash codec injective nd blobs
  have reached (directory : Directory) :
    (∃ digest, Reachable codec ((messages hash codec nd).foldl (store hash codec) blobs).find
      (digestOf hash codec (message hash codec nd)) digest ∧
        storedChild codec ((messages hash codec nd).foldl (store hash codec) blobs) digest = some directory) ↔
          directory ∈ messages hash codec nd := by
    constructor
    next =>
      rintro ⟨digest, reachable, found⟩
      obtain ⟨other, member, rfl⟩ := (reachable_iff (holdsTree_store injective blobs) digest).mp reachable
      rw [stored other member, Option.some.injEq] at found
      exact found ▸ member
    next =>
      intro member
      exact ⟨_, (reachable_iff (holdsTree_store injective blobs) _).mpr ⟨directory, member, rfl⟩,
        stored directory member⟩
  constructor
  next =>
    intro merged
    have root := merged.root
    rw [stored _ (message_mem hash codec nd), Option.some.injEq] at root
    exact ⟨root.symm, fun directory => (merged.list directory).trans (reached directory)⟩
  next =>
    intro made
    exact ⟨by rw [stored _ (message_mem hash codec nd), made.root],
      fun directory => (made.list directory).trans (reached directory).symm⟩

theorem MessagesOf.contents_iff (made : MessagesOf hash codec nd tree) (ordered : Ordered nd)
    (plain : ∀ path entry, nd.Holds path entry → entry.plain = entry) (path : List Bytes) (entry : Entry) :
    contents hash codec tree path entry ↔ nd.Holds path entry := by
  rw [contents, made.root, flattening_message ordered
    (.of_messages fun directory => made.stored injective (List.Subset.refl _))]
  constructor
  next =>
    rintro ⟨held, holds, rfl⟩
    rwa [plain path held holds]
  next => exact fun holds => ⟨entry, holds, (plain path entry holds).symm⟩

theorem MessagesOf.whole (made : MessagesOf hash codec nd tree) (ordered : Ordered nd) (single : SingleKinded nd.Holds)
    (segments : AllNamed IsSegment nd) : WholeTree hash codec tree := by
  have canonical := (@canonical_messages_iff hash codec nd ordered).mpr single
  have named := (@names_messages_iff hash codec _ nd ordered).mpr segments
  constructor
  next =>
    intro directory member
    have among := (made.list directory).mp member
    exact wellNamed_of_canonical (canonical directory among) (named directory among)
  next =>
    intro directory member node listed
    obtain ⟨child, below, same⟩ := closed_messages hash codec ((made.list directory).mp member) listed
    exact ⟨child, (made.list child).mpr (subdirMessages_subset hash codec nd below), same⟩
  next =>
    intro directory member
    exact grounded_messages (.of_messages fun directory => made.stored injective (List.Subset.refl _))
      ((made.list directory).mp member)

end Merged

section Stacks

variable {hash : Bytes → Bytes} (injective : Function.Injective hash) {codec : Codec Directory} {stack : Nat}

structure Mergeable (hash : Bytes → Bytes) (codec : Codec Directory) (stack : Nat) (tree : DirectoryTree) : Prop where
  whole : WholeTree hash codec tree
  ordinary : OrdinaryTrees tree.list
  deep : Deep (childOf hash codec tree.list) stack tree.root

def Answers (hash : Bytes → Bytes) (codec : Codec Directory) (merges : Prop) (listing : Listing)
    (result : Option Digest) : Prop :=
  ¬merges ∧ result = none ∨ merges ∧ ∃ nd, Filled nd listing ∧
    result = some (digestOf hash codec (message hash codec nd))

def Ends (create : Iteration → MergeOutputs → Except Exn (Bool × MergeOutputs)) (result : Option Digest) : Prop :=
  ∀ iteration outputs, ∃ merged after, create iteration outputs = .ok (merged, after) ∧
    result = if merged then some after.rootDigest else none

variable {first second third tree : DirectoryTree} {nd : NestedDirectory} {merges others : Prop}
    {listing listing' : Listing}
  {result result' : Option Digest}

theorem Filled.congr (filled : Filled nd listing) (same : ∀ path entry, listing path entry ↔ listing' path entry) :
    Filled nd listing' :=
  ⟨filled.ordered, fun path entry => (filled.holds path entry).trans (same path entry)⟩

theorem Answers.congr (answers : Answers hash codec merges listing result) (both : merges ↔ others)
    (same : ∀ path entry, listing path entry ↔ listing' path entry) : Answers hash codec others listing' result := by
  rcases answers with ⟨fails, none⟩ | ⟨goes, nd, filled, some⟩
  next => exact .inl ⟨mt both.mpr fails, none⟩
  next => exact .inr ⟨both.mp goes, nd, filled.congr same, some⟩

theorem Answers.unique (answers : Answers hash codec merges listing result)
    (answers' : Answers hash codec merges listing result') : result = result' := by
  rcases answers with ⟨fails, rfl⟩ | ⟨goes, nd, filled, rfl⟩ <;> rcases answers' with ⟨fails', rfl⟩ |
    ⟨goes', nd', filled', rfl⟩
  next => rfl
  next => exact absurd goes' fails
  next => exact absurd goes fails'
  next => rw [filled.unique filled']

theorem height_bounded (listing : Listing) : ∃ depth, ∀ nd, Filled nd listing → height nd ≤ depth := by
  by_cases some : ∃ nd, Filled nd listing
  next =>
    obtain ⟨nd, filled⟩ := some
    exact ⟨height nd, fun other filled' => (filled'.unique filled ▸ le_refl (height nd))⟩
  next => exact ⟨0, fun nd filled => absurd ⟨nd, filled⟩ some⟩

theorem OrdinaryTrees.append {directories others : List Directory} (ordinary : OrdinaryTrees directories)
    (ordinary' : OrdinaryTrees others) : OrdinaryTrees (directories ++ others) :=
  ⟨fun directory member => (List.mem_append.mp member).elim (ordinary.nulFree directory) (ordinary'.nulFree directory),
    fun directory member => (List.mem_append.mp member).elim (ordinary.stringValued directory)
      (ordinary'.stringValued directory)⟩

theorem Mergeable.mono {deeper : Nat} (mergeable : Mergeable hash codec stack tree) (le : stack ≤ deeper) :
    Mergeable hash codec deeper tree :=
  ⟨mergeable.whole, mergeable.ordinary, mergeable.deep.mono le⟩

theorem Mergeable.path_of_contents (mergeable : Mergeable hash codec stack tree) {path : List Bytes} {entry : Entry}
    (listed : contents hash codec tree path entry) :
    entry.plain = entry ∧ (∀ segment ∈ path, IsSegment segment) ∧ ∀ segment ∈ path, NulFree segment := by
  obtain ⟨node, lists, rfl⟩ := listed
  have proper := lists_proper mergeable.whole.closed (root_mem tree) lists
  refine ⟨by cases node <;> rfl,
    fun segment member => ⟨proper.nonempty segment member, proper.no_slash segment member⟩, ?_⟩
  exact lists_nulFree mergeable.whole.closed mergeable.ordinary.nulFree (root_mem tree) lists

theorem Mergeable.valued_of_contents (mergeable : Mergeable hash codec stack tree) {path : List Bytes} {file : File}
    (listed : contents hash codec tree path (.file file)) : StringValued file.digest := by
  obtain ⟨node, lists, same⟩ := listed
  cases node with
  | file digest isExecutable =>
    obtain rfl := Entry.file.inj same
    exact lists_stringValued mergeable.whole.closed mergeable.ordinary (root_mem tree) lists
  | symlink | dir => cases same

theorem Mergeable.contents_functional (mergeable : Mergeable hash codec stack tree) {path : List Bytes} {a b : Entry}
    (left : contents hash codec tree path a) (right : contents hash codec tree path b) : a = b := by
  obtain ⟨node, lists, rfl⟩ := left
  obtain ⟨node', lists', rfl⟩ := right
  rw [lists_functional mergeable.whole.closed (root_mem tree) mergeable.deep lists lists']

include injective

section Pair

variable (left : Mergeable hash codec stack first) (right : Mergeable hash codec stack second)
  (kinds : AlikeKinds (contents hash codec first) (contents hash codec second))

include left right kinds

theorem merge_gives (agree : Agree (contents hash codec first) (contents hash codec second)) :
    ∃ nd, Filled nd (Joined (contents hash codec first) (contents hash codec second)) ∧
      Gives hash codec nd fun iteration => createMergedDigest hash codec stack iteration first.list second.list :=
  gives_of_agree injective left.whole right.whole (left.ordinary.append right.ordinary) kinds
    (left.whole.deep_of injective (List.subset_append_left _ _) (root_mem first) left.deep)
    (right.whole.deep_of injective (List.subset_append_right _ _) (root_mem second) right.deep) agree

theorem merge_fails (disagree : ¬Agree (contents hash codec first) (contents hash codec second)) :
    Fails fun iteration => createMergedDigest hash codec stack iteration first.list second.list :=
  fails_of_not_agree injective left.whole right.whole (left.ordinary.append right.ordinary) kinds
    (left.whole.deep_of injective (List.subset_append_left _ _) (root_mem first) left.deep)
    (right.whole.deep_of injective (List.subset_append_right _ _) (root_mem second) right.deep) disagree

theorem merge_ends : ∃ result, Answers hash codec (Agree (contents hash codec first) (contents hash codec second))
    (Joined (contents hash codec first) (contents hash codec second)) result ∧
      Ends (fun iteration => createMergedDigest hash codec stack iteration first.list second.list) result := by
  by_cases agree : Agree (contents hash codec first) (contents hash codec second)
  next =>
    obtain ⟨nd, filled, gives⟩ := merge_gives injective left right kinds agree
    refine ⟨some (digestOf hash codec (message hash codec nd)), .inr ⟨agree, nd, filled, rfl⟩,
      fun iteration outputs => ?_⟩
    obtain ⟨list, created⟩ := gives iteration outputs
    exact ⟨true, _, created, rfl⟩
  next =>
    have fails := merge_fails injective left right kinds agree
    exact ⟨none, .inl ⟨agree, rfl⟩, fun iteration outputs => ⟨false, outputs, fails iteration outputs, rfl⟩⟩

theorem mergeable_of_filled (filled : Filled nd (Joined (contents hash codec first) (contents hash codec second)))
    (made : MessagesOf hash codec nd tree) (enough : height nd ≤ stack) : Mergeable hash codec stack tree ∧
      ∀ path entry, contents hash codec tree path entry ↔
        Joined (contents hash codec first) (contents hash codec second) path entry := by
  have path_of_holds {path : List Bytes} {entry : Entry} (holds : nd.Holds path entry) :=
    ((filled.holds path entry).mp holds).elim left.path_of_contents right.path_of_contents
  have single : SingleKinded nd.Holds := by
    intro path a b holds holds'
    rw [filled.holds] at holds holds'
    rcases holds with listed | listed <;> rcases holds' with listed' | listed'
    next => rw [left.contents_functional listed listed']
    next => exact kinds path a b listed listed'
    next => exact (kinds path b a listed' listed).symm
    next => rw [right.contents_functional listed listed']
  have whole := made.whole injective filled.ordered single fun path entry holds => (path_of_holds holds).2.1
  refine ⟨⟨whole, ⟨?_, ?_⟩, ?_⟩, fun path entry => ?_⟩
  next =>
    have nulFree : AllNamed NulFree nd := fun path entry holds => (path_of_holds holds).2.2
    exact fun directory member => (@names_messages_iff hash codec _ nd filled.ordered).mpr nulFree directory
      ((made.list directory).mp member)
  next =>
    have valued (path : List Bytes) (file : File) (holds : nd.Holds path (.file file)) : StringValued file.digest :=
      ((filled.holds path _).mp holds).elim left.valued_of_contents right.valued_of_contents
    exact fun directory member => (@files_messages_iff hash codec nd StringValued filled.ordered).mpr valued directory
      ((made.list directory).mp member)
  next =>
    rw [made.root]
    exact deep_message (.of_messages fun directory => made.stored injective (List.Subset.refl _)) enough
  next =>
    rw [made.contents_iff injective filled.ordered fun path entry holds => (path_of_holds holds).1]
    exact filled.holds path entry

end Pair

section Turns

variable {once : Iteration → MergeOutputs → Except Exn (Bool × MergeOutputs)}
  {again : DirectoryTree → Iteration → MergeOutputs → Except Exn (Bool × MergeOutputs)}

omit injective in
theorem inTurn_of_fails (fails : Fails once) (other : Option Digest) :
    InTurn codec once again other ↔ other = none := by
  constructor
  next =>
    rintro ⟨iteration, outputs, merged, after, created, outcome⟩
    obtain ⟨rfl, -⟩ := Prod.mk.inj (Except.ok.inj (created.symm.trans (fails iteration outputs)))
    rcases outcome with ⟨-, none⟩ | ⟨true, -⟩
    next => exact none
    next => cases true
  next =>
    rintro rfl
    exact ⟨entriesInOrder, emptyOutputs, false, emptyOutputs, fails entriesInOrder emptyOutputs, .inl ⟨rfl, rfl⟩⟩

theorem inTurn_of_gives (gives : Gives hash codec nd once)
    (ends : ∀ tree, MessagesOf hash codec nd tree → ∃ result, Answers hash codec merges listing result ∧
      Ends (again tree) result) :
    ∃ result, Answers hash codec merges listing result ∧ ∀ other, InTurn codec once again other ↔ other = result := by
  obtain ⟨result, answers, ended⟩ := ends _ (messagesOf_treeOf nd)
  refine ⟨result, answers, fun other => ⟨?_, ?_⟩⟩
  next =>
    rintro ⟨iteration, outputs, merged, after, created, outcome⟩
    obtain ⟨list, given⟩ := gives iteration outputs
    obtain ⟨rfl, rfl⟩ := Prod.mk.inj (Except.ok.inj (created.symm.trans given))
    rcases outcome with ⟨false, -⟩ | ⟨-, tree, merged, iteration', outputs', merged', after', created', rfl⟩
    next => cases false
    next =>
      obtain ⟨result', answers', ended'⟩ := ends tree ((mergedTree_iff injective _ _).mp merged)
      obtain ⟨_, _, returned, rfl⟩ := ended' iteration' outputs'
      obtain ⟨rfl, rfl⟩ := Prod.mk.inj (Except.ok.inj (created'.symm.trans returned))
      exact answers'.unique answers
  next =>
    rintro rfl
    obtain ⟨list, given⟩ := gives entriesInOrder emptyOutputs
    obtain ⟨merged, after, returned, same⟩ := ended entriesInOrder emptyOutputs
    exact ⟨entriesInOrder, emptyOutputs, true, _, given,
      .inr ⟨rfl, _, (mergedTree_iff injective _ _).mpr (messagesOf_treeOf nd),
      entriesInOrder, emptyOutputs, merged, after, returned, same⟩⟩

end Turns

section Triple

variable (one : Mergeable hash codec stack first) (two : Mergeable hash codec stack second)
  (three : Mergeable hash codec stack third)
  (kinds : AlikeKinds (contents hash codec first) (contents hash codec second))
  (kinds' : AlikeKinds (contents hash codec first) (contents hash codec third))
  (kinds'' : AlikeKinds (contents hash codec second) (contents hash codec third))

include one two three kinds kinds' kinds''

theorem firstTwoFirst_answers
    (enough : ∀ nd, Filled nd (Joined (contents hash codec first) (contents hash codec second)) → height nd ≤ stack) :
    ∃ result, Answers hash codec (Agree (contents hash codec first) (contents hash codec second) ∧
        Agree (contents hash codec first) (contents hash codec third) ∧
          Agree (contents hash codec second) (contents hash codec third))
      (Joined (Joined (contents hash codec first) (contents hash codec second)) (contents hash codec third)) result ∧
        ∀ other, FirstTwoFirst hash codec stack first second third other ↔ other = result := by
  by_cases agree : Agree (contents hash codec first) (contents hash codec second)
  next =>
    obtain ⟨nd, filled, gives⟩ := merge_gives injective one two kinds agree
    refine inTurn_of_gives injective gives fun tree made => ?_
    obtain ⟨both, same⟩ := mergeable_of_filled injective one two kinds filled made (enough nd filled)
    have listed : contents hash codec tree = Joined (contents hash codec first) (contents hash codec second) :=
      funext fun path => funext fun entry => propext (same path entry)
    have joined : AlikeKinds (contents hash codec tree) (contents hash codec third) := by
      rw [listed]
      exact kinds'.joined_left kinds''
    obtain ⟨result, answers, ends⟩ := merge_ends injective both three joined
    rw [listed] at answers
    refine ⟨result, answers.congr ?_ fun _ _ => Iff.rfl, ends⟩
    rw [agree_joined_left, and_iff_right agree]
  next => exact ⟨none, .inl ⟨fun all => agree all.1, rfl⟩, inTurn_of_fails (merge_fails injective one two kinds agree)⟩

theorem lastTwoFirst_answers
    (enough : ∀ nd, Filled nd (Joined (contents hash codec second) (contents hash codec third)) → height nd ≤ stack) :
    ∃ result, Answers hash codec (Agree (contents hash codec first) (contents hash codec second) ∧
        Agree (contents hash codec first) (contents hash codec third) ∧
          Agree (contents hash codec second) (contents hash codec third))
      (Joined (contents hash codec first) (Joined (contents hash codec second) (contents hash codec third))) result ∧
        ∀ other, LastTwoFirst hash codec stack first second third other ↔ other = result := by
  by_cases agree : Agree (contents hash codec second) (contents hash codec third)
  next =>
    obtain ⟨nd, filled, gives⟩ := merge_gives injective two three kinds'' agree
    refine inTurn_of_gives injective gives fun tree made => ?_
    obtain ⟨both, same⟩ := mergeable_of_filled injective two three kinds'' filled made (enough nd filled)
    have listed : contents hash codec tree = Joined (contents hash codec second) (contents hash codec third) :=
      funext fun path => funext fun entry => propext (same path entry)
    have joined : AlikeKinds (contents hash codec first) (contents hash codec tree) := by
      rw [listed]
      exact kinds.joined_right kinds'
    obtain ⟨result, answers, ends⟩ := merge_ends injective one both joined
    rw [listed] at answers
    refine ⟨result, answers.congr ?_ fun _ _ => Iff.rfl, ends⟩
    rw [agree_joined_right, ← and_assoc, and_iff_left agree]
  next => exact ⟨none, .inl ⟨fun all => agree all.2.2, rfl⟩,
    inTurn_of_fails (merge_fails injective two three kinds'' agree)⟩

end Triple

end Stacks

theorem createMergedDigest_assoc {hash : Bytes → Bytes} (injective : Function.Injective hash) (codec : Codec Directory)
    (first second third : DirectoryTree) (whole : ∀ tree ∈ [first, second, third], WholeTree hash codec tree)
    (ordinary : ∀ tree ∈ [first, second, third], OrdinaryTrees tree.list)
    (kinds : AlikeKinds (contents hash codec first) (contents hash codec second))
    (kinds' : AlikeKinds (contents hash codec first) (contents hash codec third))
    (kinds'' : AlikeKinds (contents hash codec second) (contents hash codec third)) :
    ∃ depth, ∀ stack, depth ≤ stack → ∃ result, ∀ other,
      (FirstTwoFirst hash codec stack first second third other ↔ other = result) ∧
        (LastTwoFirst hash codec stack first second third other ↔ other = result) := by
  have mergeable (tree : DirectoryTree) (member : tree ∈ [first, second, third]) :
    ∃ depth, Mergeable hash codec depth tree := by
    obtain ⟨depth, deep⟩ := ((whole tree member).grounded tree.root (root_mem tree)).deep
    exact ⟨depth, whole tree member, ordinary tree member, deep⟩
  obtain ⟨depth, one⟩ := mergeable first (by simp)
  obtain ⟨depth', two⟩ := mergeable second (by simp)
  obtain ⟨depth'', three⟩ := mergeable third (by simp)
  obtain ⟨high, bound⟩ := height_bounded (Joined (contents hash codec first) (contents hash codec second))
  obtain ⟨high', bound'⟩ := height_bounded (Joined (contents hash codec second) (contents hash codec third))
  refine ⟨depth + depth' + depth'' + high + high', fun stack enough => ?_⟩
  replace one := one.mono (by omega : depth ≤ stack)
  replace two := two.mono (by omega : depth' ≤ stack)
  replace three := three.mono (by omega : depth'' ≤ stack)
  obtain ⟨result, answers, reached⟩ :=
    firstTwoFirst_answers injective one two three kinds kinds' kinds'' fun nd filled => by
    have low := bound nd filled
    omega
  obtain ⟨result', answers', reached'⟩ :=
    lastTwoFirst_answers injective one two three kinds kinds' kinds'' fun nd filled => by
    have low := bound' nd filled
    omega
  obtain rfl := answers.unique (answers'.congr Iff.rfl fun path entry => or_assoc.symm)
  exact ⟨result, fun other => ⟨reached other, reached' other⟩⟩

section Samples

def otherBelow : NestedDirectory := ⟨[], [], filesBelow [text "h"]⟩

noncomputable def otherBelowTree : DirectoryTree := treeOf wireHash wireCodec otherBelow

def keptAt : List Bytes → Entry
  | [name] => if name = text "l" then .symlink (text "d") else .directory
  | _ => .file hashedFile

section Below

variable {links : List (Bytes × Bytes)} {name : Bytes}

theorem below_ordered (sorted : Sorted links) : Ordered ⟨[], links, filesBelow [name]⟩ := by
  refine ⟨sorted_nil, sorted, List.pairwise_singleton _ _, fun entry member => ?_⟩
  obtain rfl := List.mem_singleton.mp member
  exact ⟨List.pairwise_singleton _ _, sorted_nil, sorted_nil, List.forall_mem_nil _⟩

theorem below_holds (only : links ⊆ [(text "l", text "d")]) {path : List Bytes} {entry : Entry}
    (holds : (⟨[], links, filesBelow [name]⟩ : NestedDirectory).Holds path entry) :
    entry = keptAt path ∧ ∀ segment ∈ path, segment ∈ [text "l", text "d", name] := by
  match path with
  | [] => exact absurd holds (holds_nil _ _)
  | [first] =>
    cases entry with
    | file file => cases holds
    | symlink target =>
      obtain ⟨rfl, rfl⟩ := Prod.mk.inj (List.mem_singleton.mp (only (mem_of_get holds)))
      exact ⟨rfl, by simp⟩
    | directory =>
      obtain ⟨sub, found⟩ := holds
      obtain ⟨rfl, -⟩ := get_single found
      exact ⟨rfl, by simp⟩
  | first :: next :: path =>
    obtain ⟨sub, found, below⟩ := holds
    obtain ⟨rfl, rfl⟩ := get_single found
    cases path with
    | nil =>
      cases entry with
      | file file =>
        obtain ⟨rfl, rfl⟩ := get_single below
        exact ⟨rfl, by simp⟩
      | symlink target => cases below
      | directory =>
        obtain ⟨sub, found⟩ := below
        cases found
    | cons last path =>
      obtain ⟨sub, found, -⟩ := below
      cases found

theorem below_plain (only : links ⊆ [(text "l", text "d")]) (path : List Bytes) (entry : Entry)
    (holds : (⟨[], links, filesBelow [name]⟩ : NestedDirectory).Holds path entry) : entry.plain = entry := by
  obtain ⟨rfl, -⟩ := below_holds only holds
  unfold keptAt
  split
  next => split <;> rfl
  next => rfl

theorem below_contents (sorted : Sorted links) (only : links ⊆ [(text "l", text "d")]) {path : List Bytes}
    {entry : Entry}
    (listed : contents wireHash wireCodec (treeOf wireHash wireCodec ⟨[], links, filesBelow [name]⟩) path entry) :
    entry = keptAt path :=
  (below_holds only (((messagesOf_treeOf _).contents_iff wireHash_injective (below_ordered sorted) (below_plain only)
    path entry).mp listed)).1

theorem below_whole (sorted : Sorted links) (only : links ⊆ [(text "l", text "d")]) (segment : IsSegment name) :
    WholeTree wireHash wireCodec (treeOf wireHash wireCodec ⟨[], links, filesBelow [name]⟩) := by
  refine (messagesOf_treeOf _).whole wireHash_injective (below_ordered sorted) ?_ ?_
  next =>
    intro path a b left right
    rw [(below_holds only left).1, (below_holds only right).1]
  next =>
    intro path entry holds part member
    have among := (below_holds only holds).2 part member
    simp only [List.mem_cons, List.not_mem_nil, or_false] at among
    rcases among with rfl | rfl | rfl
    next => exact ⟨by decide, by decide⟩
    next => exact ⟨by decide, by decide⟩
    next => exact segment

end Below

theorem samples_kept {tree : DirectoryTree} (member : tree ∈ [fileBelowTree, fileAndLinkTree, otherBelowTree])
    {path : List Bytes} {entry : Entry} (listed : contents wireHash wireCodec tree path entry) :
    entry = keptAt path := by
  simp only [List.mem_cons, List.not_mem_nil, or_false] at member
  rcases member with rfl | rfl | rfl
  next => exact below_contents sorted_nil (List.nil_subset _) listed
  next => exact below_contents (List.pairwise_singleton _ _) (List.Subset.refl _) listed
  next => exact below_contents sorted_nil (List.nil_subset _) listed

theorem samples_alike {first second : DirectoryTree} (member : first ∈ [fileBelowTree, fileAndLinkTree, otherBelowTree])
    (member' : second ∈ [fileBelowTree, fileAndLinkTree, otherBelowTree]) :
    AlikeKinds (contents wireHash wireCodec first) (contents wireHash wireCodec second) :=
  fun path a b left right => by rw [samples_kept member left, samples_kept member' right]

theorem createMergedDigest_assoc_below : ∃ depth, ∀ stack, depth ≤ stack → ∃ result, ∀ other,
    (FirstTwoFirst wireHash wireCodec stack fileBelowTree fileAndLinkTree otherBelowTree other ↔ other = result) ∧
      (LastTwoFirst wireHash wireCodec stack fileBelowTree fileAndLinkTree otherBelowTree other ↔ other = result) := by
  refine createMergedDigest_assoc wireHash_injective wireCodec _ _ _ ?_ ?_ (samples_alike (by simp) (by simp))
    (samples_alike (by simp) (by simp)) (samples_alike (by simp) (by simp))
  next =>
    intro tree member
    simp only [List.mem_cons, List.not_mem_nil, or_false] at member
    rcases member with rfl | rfl | rfl
    next => exact below_whole sorted_nil (List.nil_subset _) ⟨by decide, by decide⟩
    next => exact below_whole (List.pairwise_singleton _ _) (List.Subset.refl _) ⟨by decide, by decide⟩
    next => exact below_whole sorted_nil (List.nil_subset _) ⟨by decide, by decide⟩
  next =>
    intro tree member
    have named : ∀ tree ∈ [fileBelowTree, fileAndLinkTree, otherBelowTree], ∀ directory ∈ tree.list,
        ∀ name ∈ directory.names, NulFree name := by decide +kernel
    have valued : ∀ tree ∈ [fileBelowTree, fileAndLinkTree, otherBelowTree], ∀ directory ∈ tree.list,
        ∀ node ∈ directory.files, node.digest.hashOther ≠ [] ∧ node.digest.hashBlake3zcc = [] := by decide +kernel
    refine ⟨named tree member, fun directory listed node among => ?_⟩
    obtain ⟨other, blake⟩ := valued tree member directory listed node among
    exact ⟨other, blake⟩

end Samples

end BuildboxCommon.MergeUtil
