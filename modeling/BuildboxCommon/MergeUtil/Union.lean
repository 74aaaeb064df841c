import BuildboxCommon.MergeUtil.CreateMergedDigest

set_option autoImplicit false

namespace BuildboxCommon.MergeUtil

open ByteString FileUtils NestedDirectory

structure StringValued (digest : Digest) : Prop where
  hash_other : digest.hashOther ≠ []
  no_blake3 : digest.hashBlake3zcc = []

theorem StringValued.eq_of_key {first second : Digest} (left : StringValued first) (right : StringValued second)
    (same : first.key = second.key) : first = second := by
  obtain ⟨hash, size, blake3⟩ := first
  obtain ⟨hash', size', blake3'⟩ := second
  obtain ⟨rfl, rfl⟩ := Prod.mk.inj same
  obtain rfl : blake3 = [] := left.no_blake3
  obtain rfl : blake3' = [] := right.no_blake3
  rfl

def NulFreeNames (directories : List Directory) : Prop :=
  ∀ directory ∈ directories, ∀ name ∈ directory.names, NulFree name

structure OrdinaryTrees (directories : List Directory) : Prop where
  nulFree : NulFreeNames directories
  stringValued : ∀ directory ∈ directories, ∀ node ∈ directory.files, StringValued node.digest

section Lists

variable {find : Digest → Option Directory} {tree : List Directory}

theorem lists_functional (closed : Closed find tree) {stack : Nat} {directory : Directory} (member : directory ∈ tree)
    (deep : Deep find stack directory) {path : List Bytes} {first second : Node}
    (left : Lists find directory path first) (right : Lists find directory path second) : first = second := by
  have distinct := @visits_distinct find tree closed stack directory member
  have same := List.inj_on_of_nodup_map distinct ((mem_visits deep _ _).mpr left) ((mem_visits deep _ _).mpr right) rfl
  exact (Prod.mk.inj same).2

theorem lists_dir_of_append {directory : Directory} {path rest : List Bytes} {node : Node}
    (present : path ≠ []) (more : rest ≠ []) (lists : Lists find directory (path ++ rest) node) :
    ∃ digest, Lists find directory path (.dir digest) := by
  induction path generalizing directory with
  | nil => contradiction
  | cons name path ih =>
    obtain ⟨next, rest, rfl⟩ := List.exists_cons_of_ne_nil more
    rw [List.cons_append] at lists
    generalize shape : path ++ next :: rest = below at lists
    cases lists with
    | file | symlink | dir => simp at shape
    | inside listed found lists =>
      subst shape
      cases path with
      | nil => exact ⟨_, .dir listed⟩
      | cons other path =>
        obtain ⟨digest, inner⟩ := ih (by simp) lists
        exact ⟨digest, .inside listed found inner⟩

theorem lists_dir_of_below {directory : Directory} {path names : List Bytes} {node : Node}
    (below : StrictlyBelow names path) (lists : Lists find directory names node) :
    ∃ digest, Lists find directory path (.dir digest) := by
  obtain ⟨present, ⟨rest, rfl⟩, differs⟩ := below
  exact lists_dir_of_append present (by simpa using differs) lists

variable (closed : Closed find tree) (nulFree : NulFreeNames tree) (ordinary : OrdinaryTrees tree)

include closed nulFree

theorem lists_nulFree {directory : Directory} (member : directory ∈ tree) {path : List Bytes} {node : Node}
    (lists : Lists find directory path node) : ∀ name ∈ path, NulFree name := by
  induction lists with
  | file listed => simpa using nulFree _ member _ (file_name_mem listed)
  | symlink listed => simpa using nulFree _ member _ (symlink_name_mem listed)
  | dir listed => simpa using nulFree _ member _ (directory_name_mem listed)
  | inside listed found below ih =>
    have inner := ih (closed.children _ member _ listed _ found)
    have first := nulFree _ member _ (directory_name_mem listed)
    intro name inside
    rcases List.mem_cons.mp inside with rfl | later
    next => exact first
    next => exact inner name later

theorem landing_of_merged {first second : Directory} (first_mem : first ∈ tree) (second_mem : second ∈ tree)
    {path : List Bytes} {node : Node} (merged : Merged find first second path node) : landing path = path := by
  have proper := merged_proper closed first_mem second_mem merged
  apply landing_of_nulFree proper.present proper.no_slash
  rcases merged with left | ⟨right, -⟩
  next => exact lists_nulFree closed nulFree first_mem left
  next => exact lists_nulFree closed nulFree second_mem right

theorem mergedLands_iff {first second : Directory} (first_mem : first ∈ tree) (second_mem : second ∈ tree)
    (path : List Bytes) (entry : Entry) : MergedLands find first second path entry ↔
      (∃ node, Merged find first second path node ∧ node.entry = entry) ∨
        entry = .directory ∧ ∃ names node, Merged find first second names node ∧ StrictlyBelow names path := by
  have lands := @landing_of_merged find tree closed nulFree first second first_mem second_mem
  constructor
  next =>
    rintro (⟨names, node, merged, rfl, kind⟩ | ⟨kind, names, node, merged, below⟩)
    next => exact .inl ⟨node, (lands merged).symm ▸ merged, kind⟩
    next => exact .inr ⟨kind, names, node, merged, lands merged ▸ below⟩
  next =>
    rintro (⟨node, merged, kind⟩ | ⟨kind, names, node, merged, below⟩)
    next => exact .inl ⟨path, node, merged, lands merged, kind⟩
    next => exact .inr ⟨kind, names, node, merged, (lands merged).symm ▸ below⟩

omit nulFree in
include ordinary in
theorem lists_stringValued {directory : Directory} (member : directory ∈ tree) {path : List Bytes}
    {digest : Digest} {isExecutable : Bool} (lists : Lists find directory path (.file digest isExecutable)) :
    StringValued digest := by
  generalize kind : Node.file digest isExecutable = node at lists
  induction lists with
  | file listed =>
    obtain ⟨rfl, rfl⟩ := Node.file.inj kind
    exact ordinary.stringValued _ member _ listed
  | symlink | dir => simp at kind
  | inside listed found below ih => exact ih (closed.children _ member _ listed _ found) kind

end Lists

structure Compatible (find : Digest → Option Directory) (first second : Directory) : Prop where
  files : ∀ path digest isExecutable digest' isExecutable', Lists find first path (.file digest isExecutable) →
    Lists find second path (.file digest' isExecutable') → digest = digest' ∧ isExecutable = isExecutable'
  symlinks : ∀ path target target', Lists find first path (.symlink target) →
    Lists find second path (.symlink target') → target = target'

def SameKinds (find : Digest → Option Directory) (first second : Directory) : Prop :=
  ∀ path a b, Lists find first path a → Lists find second path b → a.entry.kind = b.entry.kind

section Compatibility

variable {find : Digest → Option Directory} {tree : List Directory} (closed : Closed find tree)
  (ordinary : OrdinaryTrees tree) {first second : Directory} (first_mem : first ∈ tree)
  (second_mem : second ∈ tree) (kinds : SameKinds find first second)

include closed ordinary first_mem second_mem kinds

theorem compatible_iff : ¬Collides find first second ↔ Compatible find first second := by
  constructor
  next =>
    intro free
    constructor
    next =>
      intro path digest isExecutable digest' isExecutable' left right
      have same : digest.key = digest'.key ∧ isExecutable = isExecutable' := by
        by_contra differs
        exact free ⟨path, _, _, left, right, differs⟩
      have left_valued := lists_stringValued closed ordinary first_mem left
      have right_valued := lists_stringValued closed ordinary second_mem right
      exact ⟨left_valued.eq_of_key right_valued same.1, same.2⟩
    next =>
      intro path target target' left right
      by_contra differs
      exact free ⟨path, _, _, left, right, target, rfl, differs⟩
  next =>
    rintro compatible ⟨path, stored, node, left, right, clash⟩
    have kind := kinds path stored node left right
    cases node with
    | dir digest => exact clash.elim
    | symlink target =>
      obtain ⟨other, rfl, differs⟩ := clash
      exact differs (compatible.symlinks path other target left right)
    | file digest isExecutable =>
      cases stored with
      | symlink | dir => simp [Node.entry, Entry.kind] at kind
      | file other flag =>
        obtain ⟨rfl, rfl⟩ := compatible.files path _ _ _ _ left right
        exact clash ⟨rfl, rfl⟩

omit closed ordinary first_mem second_mem in
theorem entry_eq (compatible : Compatible find first second) {path : List Bytes} {a b : Node}
    (left : Lists find first path a) (right : Lists find second path b) : a.entry = b.entry := by
  have kind := kinds path a b left right
  cases a with
  | file digest flag =>
    cases b with
    | symlink | dir => simp [Node.entry, Entry.kind] at kind
    | file digest' flag' =>
      obtain ⟨rfl, rfl⟩ := compatible.files path _ _ _ _ left right
      rfl
  | symlink target =>
    cases b with
    | file | dir => simp [Node.entry, Entry.kind] at kind
    | symlink target' => rw [compatible.symlinks path _ _ left right]
  | dir digest =>
    cases b with
    | file | symlink => simp [Node.entry, Entry.kind] at kind
    | dir => rfl

theorem mergedLands_union (compatible : Compatible find first second) (path : List Bytes) (entry : Entry) :
    MergedLands find first second path entry ↔
      flattening find first path entry ∨ flattening find second path entry := by
  rw [mergedLands_iff closed ordinary.nulFree first_mem second_mem]
  constructor
  next =>
    rintro (⟨node, left | ⟨right, -⟩, kind⟩ | ⟨rfl, names, node, merged, below⟩)
    next => exact .inl ⟨node, left, kind⟩
    next => exact .inr ⟨node, right, kind⟩
    next =>
      rcases merged with left | ⟨right, -⟩
      next =>
        obtain ⟨digest, lists⟩ := lists_dir_of_below below left
        exact .inl ⟨_, lists, rfl⟩
      next =>
        obtain ⟨digest, lists⟩ := lists_dir_of_below below right
        exact .inr ⟨_, lists, rfl⟩
  next =>
    rintro (⟨node, left, kind⟩ | ⟨node, right, kind⟩)
    next => exact .inl ⟨node, .inl left, kind⟩
    next =>
      by_cases shared : ∃ other, Lists find first path other
      next =>
        obtain ⟨other, left⟩ := shared
        exact .inl ⟨other, .inl left, (entry_eq kinds compatible left right).trans kind⟩
      next => exact .inl ⟨node, .inr ⟨right, not_exists.mp shared⟩, kind⟩

theorem union_singleValued {stack : Nat} (first_deep : Deep find stack first) (second_deep : Deep find stack second)
    (compatible : Compatible find first second) : SingleValued (MergedLands find first second) := by
  intro path a b left right _
  rw [mergedLands_union closed ordinary first_mem second_mem kinds compatible] at left right
  rcases left with ⟨node, left, rfl⟩ | ⟨node, left, rfl⟩ <;> rcases right with ⟨other, right, rfl⟩ | ⟨other, right, rfl⟩
  next => rw [lists_functional closed first_mem first_deep left right]
  next => exact entry_eq kinds compatible left right
  next => exact (entry_eq kinds compatible right left).symm
  next => rw [lists_functional closed second_mem second_deep left right]

end Compatibility

theorem mergedLands_plain {find : Digest → Option Directory} {first second : Directory} {path : List Bytes}
    {entry : Entry} (lands : MergedLands find first second path entry) : entry.plain = entry := by
  rcases lands with ⟨names, node, -, -, rfl⟩ | ⟨rfl, -⟩
  next => cases node <;> rfl
  next => rfl

def storedChild (codec : Codec Directory) (blobs : DigestStringMap) (digest : Digest) : Option Directory :=
  (blobs.find digest).map codec.parseFromString

section Stored

variable {hash : Bytes → Bytes} {codec : Codec Directory} (injective : Function.Injective hash)

include injective

theorem storedChild_messages (nd : NestedDirectory) (blobs : DigestStringMap) :
    ∀ directory ∈ messages hash codec nd,
      storedChild codec ((messages hash codec nd).foldl (store hash codec) blobs) (digestOf hash codec directory) =
        some directory := by
  intro directory member
  have found := (find_stored injective (messages hash codec nd) blobs (digestOf hash codec directory) _).mpr
    (.inl ⟨directory, member, rfl, rfl⟩)
  rw [storedChild, found, Option.map_some, codec.parse_serialize]

theorem stored_flattening (nd : NestedDirectory) (ordered : Ordered nd)
    (plain : ∀ path entry, nd.Holds path entry → entry.plain = entry) (blobs : DigestStringMap)
    (path : List Bytes) (entry : Entry) :
    flattening (storedChild codec ((messages hash codec nd).foldl (store hash codec) blobs)) (message hash codec nd)
      path entry ↔ nd.Holds path entry := by
  rw [flattening_message ordered (.of_messages (storedChild_messages injective nd blobs))]
  constructor
  next =>
    rintro ⟨other, holds, rfl⟩
    rwa [plain path other holds]
  next => exact fun holds => ⟨entry, holds, (plain path entry holds).symm⟩

variable {inputTree templateTree : DirectoryTree} {stack : Nat}

theorem merge_flattening (spec : MergeSpec hash codec inputTree templateTree stack)
    (free : ¬Collides (childOf hash codec (inputTree.list ++ templateTree.list)) inputTree.root templateTree.root)
    (single : SingleValued
      (MergedLands (childOf hash codec (inputTree.list ++ templateTree.list)) inputTree.root templateTree.root))
    (iteration : Iteration) (outputs : MergeOutputs) :
    ∃ after root, createMergedDigest hash codec stack iteration inputTree.list templateTree.list outputs =
        .ok (true, after) ∧
      storedChild codec after.newDirectoryBlobs after.rootDigest = some root ∧
      ∀ path entry, flattening (storedChild codec after.newDirectoryBlobs) root path entry ↔
        MergedLands (childOf hash codec (inputTree.list ++ templateTree.list)) inputTree.root templateTree.root
          path entry := by
  obtain ⟨merged, placeable, lands, produces, -⟩ := spec.merges free
  obtain ⟨placements, perm, produced⟩ := produces iteration
  obtain ⟨list, returned⟩ := produced outputs
  have held : ∀ path entry, (NestedDirectory.empty.putAll placements).Holds path entry ↔
      MergedLands (childOf hash codec (inputTree.list ++ templateTree.list)) inputTree.root templateTree.root
        path entry := by
    intro path entry
    rw [← lands, ← lands_perm perm]
    refine holds_putAll (fun placement member => placeable placement (perm.mem_iff.mp member)) ?_ path entry
    intro path first second left right
    rw [lands_perm perm, lands] at left right
    exact single path first second left right
  refine ⟨_, message hash codec (NestedDirectory.empty.putAll placements), returned,
    storedChild_messages injective _ _ _ (message_mem hash codec _), fun path entry => ?_⟩
  rw [← held]
  refine stored_flattening injective _ (Ordered.empty.putAll placements) (fun path entry holds => ?_) _ path entry
  exact mergedLands_plain ((held path entry).mp holds)

end Stored

theorem createMergedDigest_union {hash : Bytes → Bytes} (injective : Function.Injective hash)
    (codec : Codec Directory) (inputTree templateTree : DirectoryTree)
    (input : MergeInput hash codec inputTree templateTree)
    (ordinary : OrdinaryTrees (inputTree.list ++ templateTree.list))
    (kinds : SameKinds (childOf hash codec (inputTree.list ++ templateTree.list)) inputTree.root templateTree.root) :
    ∃ depth, ∀ stack, depth ≤ stack → ∀ iteration outputs, ∃ merged after,
      createMergedDigest hash codec stack iteration inputTree.list templateTree.list outputs =
        .ok (merged, after) ∧
      (merged = true ↔ Compatible (childOf hash codec (inputTree.list ++ templateTree.list)) inputTree.root
        templateTree.root) ∧
      (merged = true → ∃ root, storedChild codec after.newDirectoryBlobs after.rootDigest = some root ∧
        ∀ path entry, flattening (storedChild codec after.newDirectoryBlobs) root path entry ↔
          flattening (childOf hash codec (inputTree.list ++ templateTree.list)) inputTree.root path entry ∨
          flattening (childOf hash codec (inputTree.list ++ templateTree.list)) templateTree.root path entry) := by
  have closed := input.closed
  have first_mem : inputTree.root ∈ inputTree.list ++ templateTree.list := inputRoot_mem
  have second_mem : templateTree.root ∈ inputTree.list ++ templateTree.list := templateRoot_mem
  have compatible := compatible_iff closed ordinary first_mem second_mem kinds
  obtain ⟨first_depth, first_deep⟩ := (input.grounded _ first_mem).deep
  obtain ⟨second_depth, second_deep⟩ := (input.grounded _ second_mem).deep
  obtain ⟨depth, spec⟩ := merge_spec input
  refine ⟨depth, fun stack enough iteration outputs => ?_⟩
  by_cases free : Collides (childOf hash codec (inputTree.list ++ templateTree.list)) inputTree.root templateTree.root
  next =>
    refine ⟨false, outputs, (spec stack enough).collides free iteration outputs, ?_, by simp⟩
    simp [← compatible, free]
  next =>
    have agree := compatible.mp free
    have single := union_singleValued closed ordinary first_mem second_mem kinds
      (first_deep.mono (le_max_left _ second_depth)) (second_deep.mono (le_max_right first_depth _)) agree
    obtain ⟨after, root, returned, stored, listed⟩ :=
      merge_flattening injective (spec stack enough) free single iteration outputs
    refine ⟨true, after, returned, by simpa using agree, fun _ => ⟨root, stored, fun path entry => ?_⟩⟩
    rw [listed, mergedLands_union closed ordinary first_mem second_mem kinds agree]

section Sample

def emptyHash : Bytes := hexDigest 0xe3b0c44298fc1c149afbf4c8996fb92427ae41e4649b934ca495991b7852b855

def emptyDirectory : Directory := ⟨[], [], [], none⟩

def sampleInput : DirectoryTree where
  root := ⟨[], [⟨text "d", ⟨emptyHash, 0, []⟩⟩], [], none⟩
  rest := [emptyDirectory]

def sampleTemplate : DirectoryTree where
  root := ⟨[], [], [⟨text "l", text "d", none⟩], none⟩
  rest := []

def sampleMessages : List (Directory × Bytes) :=
  [(emptyDirectory, []),
    (sampleInput.root, [18, 71, 10, 1, 100, 18, 66, 10, 64] ++ emptyHash),
    (sampleTemplate.root, [26, 6, 10, 1, 108, 18, 1, 100])]

def sampleHashes : List (Bytes × Bytes) :=
  [([], emptyHash),
    ([18, 71, 10, 1, 100, 18, 66, 10, 64] ++ emptyHash,
      hexDigest 0xf1ed8604d447226847193a5c1573b32482f889243ffee1c724576aac3b68c344),
    ([26, 6, 10, 1, 108, 18, 1, 100], hexDigest 0x4ca29298b1828870c2353c0bc3f08dcf5b8ec958780ee1b36b85071d1b146524)]

def sampleHash : Bytes → Bytes := patch sampleHashes id

theorem sampleHash_injective : Function.Injective sampleHash :=
  patch_injective (by decide) (by decide) Function.injective_id

def sampleSerialize : Directory → Bytes :=
  patch sampleMessages fun directory => List.replicate (Encodable.encode directory) 0

theorem sampleSerialize_injective : Function.Injective sampleSerialize := by
  refine patch_injective (by decide) (by decide) fun first second same => ?_
  exact Encodable.encode_injective (by simpa using congrArg List.length same)

noncomputable def sampleCodec : Codec Directory := .ofInjective sampleSerialize sampleSerialize_injective

theorem sampleChild {directories : List Directory} (member : emptyDirectory ∈ directories) :
    childOf sampleHash sampleCodec directories ⟨emptyHash, 0, []⟩ = some emptyDirectory := by
  have digest : digestOf sampleHash sampleCodec emptyDirectory = ⟨emptyHash, 0, []⟩ := by rfl
  rw [← digest]
  exact childOf_digestOf sampleHash_injective member

theorem sampleMergeInput : MergeInput sampleHash sampleCodec sampleInput sampleTemplate := by
  have leaf (directory : Directory) (none : directory.directories = []) :
      Grounded (childOf sampleHash sampleCodec (sampleInput.list ++ sampleTemplate.list)) directory :=
    ⟨by simp [none]⟩
  constructor
  next =>
    intro directory member
    simp only [DirectoryTree.list, sampleInput, sampleTemplate, List.cons_append, List.nil_append, List.mem_cons,
      List.not_mem_nil, or_false] at member
    rcases member with rfl | rfl | rfl <;> exact ⟨by decide, by decide, by decide⟩
  next =>
    have known : ∀ directory ∈ sampleInput.list ++ sampleTemplate.list, ∀ node ∈ directory.directories,
        node.digest = ⟨emptyHash, 0, []⟩ := by decide
    exact fun directory member node listed => ⟨emptyDirectory, by decide, known directory member node listed⟩
  next =>
    have known : ∀ directory ∈ sampleInput.list ++ sampleTemplate.list, ∀ node ∈ directory.directories,
        node.digest = ⟨emptyHash, 0, []⟩ := by decide
    refine fun directory member => ⟨fun node listed child found => ?_⟩
    rw [known directory member node listed, sampleChild (by decide), Option.some.injEq] at found
    exact leaf child (found ▸ rfl)

end Sample

theorem createMergedDigest_union_sample :
    ∃ depth, ∀ stack, depth ≤ stack → ∀ iteration outputs, ∃ merged after,
      createMergedDigest sampleHash sampleCodec stack iteration sampleInput.list sampleTemplate.list outputs =
        .ok (merged, after) ∧
      (merged = true ↔ Compatible (childOf sampleHash sampleCodec (sampleInput.list ++ sampleTemplate.list))
        sampleInput.root sampleTemplate.root) ∧
      (merged = true → ∃ root, storedChild sampleCodec after.newDirectoryBlobs after.rootDigest = some root ∧
        ∀ path entry, flattening (storedChild sampleCodec after.newDirectoryBlobs) root path entry ↔
          flattening (childOf sampleHash sampleCodec (sampleInput.list ++ sampleTemplate.list)) sampleInput.root
            path entry ∨
          flattening (childOf sampleHash sampleCodec (sampleInput.list ++ sampleTemplate.list)) sampleTemplate.root
            path entry) := by
  refine createMergedDigest_union sampleHash_injective sampleCodec sampleInput sampleTemplate sampleMergeInput
    ⟨by unfold NulFreeNames; decide, by simp [DirectoryTree.list, sampleInput, sampleTemplate, emptyDirectory]⟩ ?_
  intro path a b left right
  cases right with
  | file member | dir member | inside member => simp [sampleTemplate] at member
  | symlink member =>
    obtain rfl := List.mem_singleton.mp member
    generalize shape : [text "l"] = path at left
    cases left with
    | file member | symlink member => simp [sampleInput] at member
    | dir member | inside member =>
      obtain rfl := List.mem_singleton.mp member
      simp [text] at shape

def cutInput : DirectoryTree where
  root := ⟨[⟨[97, nul, 98], ⟨emptyHash, 0, []⟩, false, none⟩], [], [], none⟩
  rest := []

def cutTemplate : DirectoryTree := ⟨emptyDirectory, []⟩

theorem cutMergeInput : MergeInput sampleHash sampleCodec cutInput cutTemplate := by
  constructor
  next =>
    intro directory member
    simp only [DirectoryTree.list, cutInput, cutTemplate, List.cons_append, List.nil_append, List.mem_cons,
      List.not_mem_nil, or_false] at member
    rcases member with rfl | rfl <;> exact ⟨by decide, by decide, by decide⟩
  next => simp [DirectoryTree.list, cutInput, cutTemplate, emptyDirectory]
  next =>
    intro directory member
    simp only [DirectoryTree.list, cutInput, cutTemplate, List.cons_append, List.nil_append, List.mem_cons,
      List.not_mem_nil, or_false] at member
    rcases member with rfl | rfl <;> exact ⟨by simp [emptyDirectory]⟩

theorem cutLists {find : Digest → Option Directory} {path : List Bytes} {node : Node} :
    Lists find cutInput.root path node ↔ path = [[97, nul, 98]] ∧ node = .file ⟨emptyHash, 0, []⟩ false := by
  constructor
  next =>
    intro lists
    cases lists with
    | file member =>
      obtain rfl := List.mem_singleton.mp member
      exact ⟨rfl, rfl⟩
    | symlink member | dir member | inside member => simp [cutInput] at member
  next =>
    rintro ⟨rfl, rfl⟩
    have member : ⟨[97, nul, 98], ⟨emptyHash, 0, []⟩, false, none⟩ ∈ cutInput.root.files := by simp [cutInput]
    exact .file member

theorem cutLists_template {find : Digest → Option Directory} (path : List Bytes) (node : Node) :
    ¬Lists find cutTemplate.root path node := by
  intro lists
  cases lists with
  | file member | symlink member | dir member | inside member => simp [cutTemplate, emptyDirectory] at member

theorem cutLands {find : Digest → Option Directory} {path : List Bytes} {entry : Entry}
    (lands : MergedLands find cutInput.root cutTemplate.root path entry) :
    path = [[97]] ∧ entry = .file ⟨⟨emptyHash, 0, []⟩, false, none⟩ := by
  have landed : landing [[97, nul, 98]] = [[97]] := by decide
  rcases lands with ⟨names, node, left | ⟨right, -⟩, rfl, rfl⟩ | ⟨-, names, node, left | ⟨right, -⟩, below⟩
  next =>
    obtain ⟨rfl, rfl⟩ := cutLists.mp left
    exact ⟨landed, rfl⟩
  next => exact absurd right (cutLists_template names node)
  next =>
    obtain ⟨rfl, rfl⟩ := cutLists.mp left
    rw [landed] at below
    obtain ⟨present, within, differs⟩ := below
    have longer := List.length_pos_iff.mpr present
    exact absurd (within.eq_of_length_le longer) differs
  next => exact absurd right (cutLists_template names node)

theorem createMergedDigest_truncates :
    ¬∀ inputTree templateTree, MergeInput sampleHash sampleCodec inputTree templateTree →
      (∀ directory ∈ inputTree.list ++ templateTree.list, ∀ node ∈ directory.files, StringValued node.digest) →
      SameKinds (childOf sampleHash sampleCodec (inputTree.list ++ templateTree.list)) inputTree.root
        templateTree.root →
      ∃ depth, ∀ stack, depth ≤ stack → ∀ iteration outputs, ∃ merged after,
        createMergedDigest sampleHash sampleCodec stack iteration inputTree.list templateTree.list outputs =
          .ok (merged, after) ∧
        (merged = true ↔ Compatible (childOf sampleHash sampleCodec (inputTree.list ++ templateTree.list))
          inputTree.root templateTree.root) ∧
        (merged = true → ∃ root, storedChild sampleCodec after.newDirectoryBlobs after.rootDigest = some root ∧
          ∀ path entry, flattening (storedChild sampleCodec after.newDirectoryBlobs) root path entry ↔
            flattening (childOf sampleHash sampleCodec (inputTree.list ++ templateTree.list)) inputTree.root
              path entry ∨
            flattening (childOf sampleHash sampleCodec (inputTree.list ++ templateTree.list)) templateTree.root
              path entry) := by
  intro claimed
  have valued : ∀ directory ∈ cutInput.list ++ cutTemplate.list, ∀ node ∈ directory.files,
    StringValued node.digest := by
    intro directory member node listed
    have shape : ∀ directory ∈ cutInput.list ++ cutTemplate.list, ∀ node ∈ directory.files,
        node.digest = ⟨emptyHash, 0, []⟩ := by decide
    rw [shape directory member node listed]
    exact ⟨by decide, rfl⟩
  obtain ⟨depth, claimed⟩ := claimed cutInput cutTemplate cutMergeInput valued
    fun path a b _ right => absurd right (cutLists_template path b)
  obtain ⟨enough, spec⟩ := merge_spec cutMergeInput
  let iteration : Iteration := ⟨⟨fun map => map.entries, fun _ => .refl _⟩, ⟨fun map => map.entries, fun _ => .refl _⟩⟩
  obtain ⟨merged, after, returned, success, union⟩ :=
    claimed (max depth enough) (le_max_left _ _) iteration ⟨.unset, .empty, none⟩
  have compatible : merged = true := success.mpr
    ⟨fun path _ _ _ _ _ right => absurd right (cutLists_template path _),
      fun path _ _ _ right => absurd right (cutLists_template path _)⟩
  obtain ⟨root, stored, listed⟩ := union compatible
  obtain ⟨after', root', returned', stored', listed'⟩ := merge_flattening sampleHash_injective
    (spec (max depth enough) (le_max_right _ _))
    (fun ⟨path, _, node, _, right, _⟩ => cutLists_template path node right)
    (fun _ _ _ left right _ => (cutLands left).2.trans (cutLands right).2.symm) iteration ⟨.unset, .empty, none⟩
  obtain ⟨-, rfl⟩ := Prod.mk.inj (Except.ok.inj (returned.symm.trans returned'))
  obtain rfl := Option.some.inj (stored.symm.trans stored')
  have kept := (listed _ _).mpr (.inl ⟨_, cutLists.mpr ⟨rfl, rfl⟩, rfl⟩)
  have cut := (cutLands ((listed' _ _).mp kept)).1
  revert cut
  decide

end BuildboxCommon.MergeUtil
