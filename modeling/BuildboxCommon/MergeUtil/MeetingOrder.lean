import BuildboxCommon.MergeUtil.Failures
import BuildboxCommon.Merklize.Rebuilt

set_option autoImplicit false

namespace BuildboxCommon.MergeUtil

open ByteString FileUtils NestedDirectory OrderedEntries

def operationOf : NodeMetaData → NestedDirectory.Operation
  | .file path stored => .add stored path
  | .symlink path target => .addSymlink target path
  | .dir path _ => .addDirectory path

theorem putAll_placementsOf (visited : List (Bytes × NodeMetaData)) :
    NestedDirectory.empty.putAll (placementsOf visited) = applyAll (visited.map fun it => operationOf it.2) := by
  rw [← foldl_addToNestedDirectory, applyAll, List.foldl_map]
  apply List.foldl_ext
  intro result it _
  cases it.2 <;> rfl

section Traversed

variable {hash : Bytes → Bytes} {codec : Encoding Directory} {find : Digest → Option Directory} {nd : NestedDirectory}

theorem deep_message (finds : FindsBelow hash codec find nd)
    {depth : Nat} (enough : height nd ≤ depth) : Deep find depth (message hash codec nd) := by
  induction nd using NestedDirectory.induction generalizing depth with
  | step files symlinks subdirs ih =>
    rw [height] at enough
    obtain ⟨depth, rfl⟩ := Nat.exists_eq_add_of_le' (Nat.le_of_add_left_le enough)
    intro node member child found
    rw [message_directories] at member
    obtain ⟨entry, listed, rfl⟩ := List.mem_map.mp member
    have same := found.symm.trans (finds.found listed)
    have lower : height entry.2 ≤ heightOf subdirs := height_le_heightOf listed
    rw [Option.some.inj same]
    exact ih entry listed (finds.deeper listed) (by omega)

def subdirVisits (hash : Bytes → Bytes) (codec : Encoding Directory) (find : Digest → Option Directory) (depth : Nat)
    (entry : Bytes × NestedDirectory) : List Visit :=
  ([entry.1], .dir (digestOf hash codec (message hash codec entry.2))) ::
    (visits find depth (message hash codec entry.2)).map (descend entry.1)

theorem visits_message (depth : Nat)
    (finds : FindsBelow hash codec find nd) :
    visits find (depth + 1) (message hash codec nd) =
      (nd.files.map fun entry => ([entry.1], .file entry.2.digest entry.2.executable)) ++
      (nd.symlinks.map fun entry => ([entry.1], .symlink entry.2)) ++
      nd.subdirs.flatMap (subdirVisits hash codec find depth) := by
  rw [visits, message_files, message_symlinks, message_directories, List.map_map, List.map_map, List.flatMap_map]
  congr 1
  apply List.flatMap_congr
  intro entry listed
  have found := finds.found listed
  simp [visitsBelow, subdirVisits, found]

-- At one path files come before symlinks and symlinks before directories, and there is one of each.
def TakeTurns {κ : Type} (visited : List (κ × Node)) : Prop :=
  visited.Pairwise fun first second => first.1 = second.1 → first.2.entry.turn < second.2.entry.turn

theorem takeTurns_single {β : Type} {entries : List (Bytes × β)} (sorted : Sorted entries) (node : Bytes × β → Node) :
    TakeTurns (entries.map fun entry => ([entry.1], node entry)) := by
  rw [TakeTurns, List.pairwise_map]
  exact sorted.imp fun less same => absurd (List.cons.inj same).1 less.ne

section Below

variable {depth : Nat} {entry : Bytes × NestedDirectory}

theorem head_subdirVisits {visit : Visit} (member : visit ∈ subdirVisits hash codec find depth entry) :
    visit.1.head? = some entry.1 := by
  rcases List.mem_cons.mp member with rfl | below
  next => rfl
  next =>
    obtain ⟨visit, -, rfl⟩ := List.mem_map.mp below
    rfl

theorem entry_subdirVisits {visit : Visit} (member : visit ∈ subdirVisits hash codec find depth entry)
    (short : visit.1.length = 1) : visit.2.entry = .directory := by
  rcases List.mem_cons.mp member with rfl | below
  next => rfl
  next =>
    obtain ⟨visit, visited, rfl⟩ := List.mem_map.mp below
    have present := visits_nonempty find depth _ visit.1 (List.mem_map_of_mem visited)
    refine absurd ?_ present
    simpa [descend] using short

theorem takeTurns_subdirVisits (below : TakeTurns (visits find depth (message hash codec entry.2))) :
    TakeTurns (subdirVisits hash codec find depth entry) := by
  refine List.pairwise_cons.mpr ⟨fun visit member same => ?_, ?_⟩
  next =>
    obtain ⟨visit, visited, rfl⟩ := List.mem_map.mp member
    have present := visits_nonempty find depth _ visit.1 (List.mem_map_of_mem visited)
    exact absurd (List.cons.inj same).2.symm present
  next =>
    rw [List.pairwise_map]
    exact below.imp fun turn same => turn (List.cons.inj same).2

end Below

theorem visits_takeTurns (ordered : Ordered nd) (depth : Nat)
    (finds : FindsBelow hash codec find nd) :
    TakeTurns (visits find depth (message hash codec nd)) := by
  induction depth generalizing nd with
  | zero => exact .nil
  | succ depth ih =>
    have blocks : TakeTurns (nd.subdirs.flatMap (subdirVisits hash codec find depth)) := by
      rw [TakeTurns, List.pairwise_flatMap]
      constructor
      next =>
        intro entry listed
        exact takeTurns_subdirVisits (ih (ordered.subdir listed) (finds.deeper listed))
      next =>
        apply ordered.subdirs.imp
        intro first second less visit left other right same
        have heads := (head_subdirVisits left).symm.trans ((congrArg List.head? same).trans (head_subdirVisits right))
        exact absurd (Option.some.inj heads) less.ne
    rw [visits_message depth finds, TakeTurns, List.pairwise_append, List.pairwise_append]
    refine ⟨⟨takeTurns_single ordered.files _, takeTurns_single ordered.symlinks _, ?_⟩, blocks, ?_⟩
    next =>
      intro visit left other right _
      obtain ⟨file, -, rfl⟩ := List.mem_map.mp left
      obtain ⟨symlink, -, rfl⟩ := List.mem_map.mp right
      exact Nat.zero_lt_one
    next =>
      intro visit left other right same
      obtain ⟨entry, -, within⟩ := List.mem_flatMap.mp right
      rcases List.mem_append.mp left with file | symlink
      next =>
        obtain ⟨file, -, rfl⟩ := List.mem_map.mp file
        rw [entry_subdirVisits within (by rw [← same]; rfl)]
        exact Nat.zero_lt_two
      next =>
        obtain ⟨symlink, -, rfl⟩ := List.mem_map.mp symlink
        rw [entry_subdirVisits within (by rw [← same]; rfl)]
        exact Nat.one_lt_two

theorem TakeTurns.find_iff {κ : Type} [DecidableEq κ] {visited : List (κ × Node)} (turns : TakeTurns visited)
    (visit : κ × Node) :
    (visited.find? fun other => other.1 = visit.1) = some visit ↔
      visit ∈ visited ∧ ∀ other ∈ visited, other.1 = visit.1 → visit.2.entry.turn ≤ other.2.entry.turn := by
  induction visited with
  | nil => simp
  | cons first rest ih =>
    obtain ⟨before, later⟩ := List.pairwise_cons.mp turns
    by_cases here : first.1 = visit.1
    next =>
      rw [List.find?_cons_of_pos (by simpa using here), Option.some.injEq]
      constructor
      next =>
        rintro rfl
        refine ⟨List.mem_cons_self, fun other member same => ?_⟩
        rcases List.mem_cons.mp member with rfl | below
        next => exact le_rfl
        next => exact (before other below same.symm).le
      next =>
        rintro ⟨member, least⟩
        rcases List.mem_cons.mp member with same | below
        next => exact same.symm
        next =>
          have less := before visit below here
          have most := least first List.mem_cons_self here
          omega
    next =>
      rw [List.find?_cons_of_neg (by simpa using here), ih later]
      simp [here, ne_of_apply_ne Prod.fst (Ne.symm here)]

theorem placementOf_metaData (key : Bytes) (node : Node) :
    placementOf (key, metaData key node) = ((cString key).splitOn slash, node.entry) := by
  cases node <;> rfl

theorem retained_functional {path : List Bytes} {first second : Entry} (left : nd.Retained path first)
    (right : nd.Retained path second) (kind : first.kind = second.kind) : first = second := by
  rcases left with left | ⟨rfl, -⟩
  next =>
    rcases right with right | ⟨rfl, -⟩
    next => exact left.unique right
    next => cases first <;> simp_all [Entry.kind]
  next => cases second <;> simp_all [Entry.kind]

theorem splitOn_renderPath (rebuilt : Rebuilt nd) {path : List Bytes} {entry : Entry} (holds : nd.Holds path entry) :
    (renderPath path).splitOn slash = path := by
  apply List.splitOn_intercalate slash (fun name member => (rebuilt.segments path entry holds name member).1)
  rintro rfl
  exact holds_nil _ _ holds

theorem landing_eq (rebuilt : Rebuilt nd) {path : List Bytes} {entry : Entry} (holds : nd.Holds path entry) :
    landing path = path := by
  have all := rebuilt.segments path entry holds
  apply landing_of_nulFree _ (fun name member => (all name member).1) fun name member => (all name member).2
  rintro rfl
  exact holds_nil _ _ holds

section Rebuilding

variable (ordered : Ordered nd) (rebuilt : Rebuilt nd) {depth : Nat} (enough : height nd ≤ depth)
  (finds : FindsBelow hash codec find nd)

include ordered rebuilt enough finds

theorem exists_visit_iff (path : List Bytes) (entry : Entry) :
    (∃ node, (path, node) ∈ visits find depth (message hash codec nd) ∧ node.entry = entry) ↔ nd.Holds path entry := by
  have plain {held : Entry} (holds : nd.Holds path held) : held.plain = held := by
    cases held with
    | file file => rw [Entry.plain, ← rebuilt.untimed path file holds]
    | symlink | directory => rfl
  simp only [mem_visits (deep_message finds enough)]
  apply (flattening_message ordered finds path entry).trans
  constructor
  next =>
    rintro ⟨held, holds, rfl⟩
    rwa [plain holds]
  next => exact fun holds => ⟨entry, holds, (plain holds).symm⟩

theorem nodesOf_message : nodesOf find depth (message hash codec nd) [] =
    (visits find depth (message hash codec nd)).map (keyed []) := by
  apply nodesOf_eq _ (List.forall_mem_nil _)
  intro visit visited
  exact rebuilt.named _ _ ((exists_visit_iff ordered rebuilt enough finds visit.1 _).mp ⟨visit.2, visited, rfl⟩)

theorem nodesOf_takeTurns : TakeTurns (nodesOf find depth (message hash codec nd) []) := by
  have turns := visits_takeTurns ordered depth finds
  have holds (visit : Visit) (visited : visit ∈ visits find depth (message hash codec nd)) :=
    (exists_visit_iff ordered rebuilt enough finds visit.1 _).mp ⟨visit.2, visited, rfl⟩
  rw [nodesOf_message ordered rebuilt enough finds, TakeTurns, List.pairwise_map]
  refine turns.imp_of_mem fun {first second} left right turn same => turn ?_
  have split := congrArg (List.splitOn slash) same
  simp only [keyed, List.nil_append] at split
  rwa [splitOn_renderPath rebuilt (holds first left), splitOn_renderPath rebuilt (holds second right)] at split

variable {nodes : List (Bytes × Node)} (same : ∀ key, nodes.find? (fun other => other.1 = key) =
    (nodesOf find depth (message hash codec nd) []).find? fun other => other.1 = key)
  {visited : List (Bytes × NodeMetaData)} (perm : visited.Perm (emplaceAll .empty nodes).entries)

include same perm

theorem mem_placementsOf (path : List Bytes) (entry : Entry) :
    (path, entry) ∈ placementsOf visited ↔ nd.First path entry := by
  have turns := nodesOf_takeTurns ordered rebuilt enough finds
  have shape := nodesOf_message ordered rebuilt enough finds
  have holds := exists_visit_iff ordered rebuilt enough finds
  rw [placementsOf, List.mem_map]
  constructor
  next =>
    rintro ⟨⟨key, node⟩, member, placed⟩
    have found := (UnorderedMap.find_eq_some _ _ _).mpr ⟨key, rfl, perm.subset member⟩
    rw [find_emplaceAll, same, Option.map_eq_some_iff] at found
    obtain ⟨visit, first, rfl⟩ := found
    obtain rfl : visit.1 = key := by simpa using List.find?_some first
    obtain ⟨listed, least⟩ := (turns.find_iff visit).mp first
    rw [shape] at listed
    obtain ⟨⟨names, node⟩, among, rfl⟩ := List.mem_map.mp listed
    have held := (holds names node.entry).mp ⟨node, among, rfl⟩
    have there : landing names = path ∧ node.entry = entry := Prod.mk.inj ((placementOf_metaData _ _).symm.trans placed)
    rw [landing_eq rebuilt held] at there
    obtain ⟨rfl, rfl⟩ := there
    refine ⟨held, fun other present => ?_⟩
    obtain ⟨node', among', rfl⟩ := (holds names other).mpr present
    have met : keyed [] (names, node') ∈ nodesOf find depth (message hash codec nd) [] :=
      shape ▸ List.mem_map_of_mem among'
    exact least _ met rfl
  next =>
    rintro ⟨held, least⟩
    obtain ⟨node, among, rfl⟩ := (holds path entry).mpr held
    have first := (turns.find_iff (renderPath path, node)).mpr ⟨shape ▸ List.mem_map_of_mem among, ?_⟩
    next =>
      have found : (emplaceAll .empty nodes).find (renderPath path) = some (metaData (renderPath path) node) := by
        rw [find_emplaceAll, same, first, Option.map_some]
      obtain ⟨key, view, member⟩ := (UnorderedMap.find_eq_some _ _ _).mp found
      obtain rfl : key = renderPath path := view
      have there : placementOf (renderPath path, metaData (renderPath path) node) = (landing path, node.entry) :=
        placementOf_metaData _ _
      rw [landing_eq rebuilt held] at there
      exact ⟨_, perm.symm.subset member, there⟩
    next =>
      intro other listed alike
      rw [shape] at listed
      obtain ⟨⟨names, node'⟩, among', rfl⟩ := List.mem_map.mp listed
      have present := (holds names node'.entry).mp ⟨node', among', rfl⟩
      have split : (renderPath names).splitOn slash = (renderPath path).splitOn slash := congrArg _ alike
      rw [splitOn_renderPath rebuilt present, splitOn_renderPath rebuilt held] at split
      exact least _ (split ▸ present)

theorem holds_merged (path : List Bytes) (entry : Entry) :
    (NestedDirectory.empty.putAll (placementsOf visited)).Holds path entry ↔ nd.Retained path entry := by
  have placements := mem_placementsOf ordered rebuilt enough finds same perm
  have lands (path : List Bytes) (entry : Entry) :
    Lands (placementsOf visited) path entry ↔ nd.Retained path entry := by
    apply or_congr (placements path entry) (and_congr_right fun _ => ?_)
    constructor
    next =>
      rintro ⟨⟨longer, other⟩, placed, below⟩
      exact ⟨longer, other, ((placements longer other).mp placed).1, below⟩
    next =>
      rintro ⟨longer, other, holds, below⟩
      obtain ⟨first, there⟩ := exists_first holds
      exact ⟨(longer, first), (placements longer first).mpr there, below⟩
  rw [holds_putAll, lands]
  next =>
    rintro ⟨path, entry⟩ placed
    have held := ((placements path entry).mp placed).1
    refine ⟨?_, rebuilt.named path entry held⟩
    rintro rfl
    exact holds_nil _ _ held
  next =>
    intro path first second left right kind
    exact retained_functional ((lands path first).mp left) ((lands path second).mp right) kind

end Rebuilding

theorem TakeTurns.not_listsTwice {nodes all : List (Bytes × Node)} (turns : TakeTurns nodes) (within : all ⊆ nodes)
    (same : ∀ key, all.find? (fun other => other.1 = key) = nodes.find? fun other => other.1 = key) :
    ¬ListsTwice all := by
  rintro ⟨before, visit, after, first, rfl, found, clash⟩
  have at_key : first.1 = visit.1 := by simpa using List.find?_some found
  have whole := same visit.1
  rw [List.find?_append, found, Option.some_or, ← at_key] at whole
  obtain ⟨-, least⟩ := (turns.find_iff first).mp whole.symm
  have member : visit ∈ nodes := within (by simp)
  have again (early : visit.2.entry.turn ≤ first.2.entry.turn) : first = visit := by
    have found := (turns.find_iff visit).mpr ⟨member, fun other listed alike => ?_⟩
    next =>
      rw [← at_key, ← whole] at found
      exact Option.some.inj found
    next => exact early.trans (least other listed (alike.trans at_key.symm))
  obtain ⟨key, node⟩ := visit
  cases node with
  | file digest isExecutable =>
    obtain rfl := again (Nat.zero_le _)
    exact clash ⟨rfl, rfl⟩
  | symlink target =>
    obtain ⟨other, link, differs⟩ := clash
    obtain rfl := again (by rw [link]; rfl)
    exact differs (Node.symlink.inj link).symm
  | dir digest => exact clash

end Traversed

end BuildboxCommon.MergeUtil
