import BuildboxCommon.MergeUtil.Union

set_option autoImplicit false

namespace BuildboxCommon.MergeUtil

open ByteString FileUtils NestedDirectory

def FileMeetsOther (find : Digest → Option Directory) (first second : Directory) : Prop :=
  ∃ path a b, Lists find first path a ∧ Lists find second path b ∧
    ¬(a.entry.kind = .file ↔ b.entry.kind = .file)

def SymlinkMeetsFullDirectory (find : Digest → Option Directory) (first second : Directory) : Prop :=
  ∃ path target names node, Lists find first path (.symlink target) ∧ Lists find second names node ∧
    StrictlyBelow names path

def KeepsCanonical (hash : Bytes → Bytes) (codec : Codec Directory) (stack : Nat)
    (inputTree templateTree : DirectoryTree) : Prop :=
  ∀ iteration rootDigest list, ∃ merged after,
    createMergedDigest hash codec stack iteration inputTree.list templateTree.list ⟨rootDigest, .empty, list⟩ =
      .ok (merged, after) ∧
    (merged = true → ∀ digest blob, after.newDirectoryBlobs.find digest = some blob →
      Canonical (codec.parseFromString blob)) ∧
    (FileMeetsOther (childOf hash codec (inputTree.list ++ templateTree.list)) inputTree.root templateTree.root →
      merged = false)

def MergesCleanly (find : Digest → Option Directory) (first second : Directory) : Prop :=
  Collides find first second ∨
    ¬FileMeetsOther find first second ∧ SingleKinded (MergedLands find first second)

def entriesInOrder : Iteration := ⟨.asStored, .asStored⟩

section Canonical

variable {hash : Bytes → Bytes} (injective : Function.Injective hash) {codec : Codec Directory}

include injective

theorem canonical_stored_iff (nd : NestedDirectory) :
    (∀ digest blob, ((messages hash codec nd).foldl (store hash codec) .empty).find digest = some blob →
      Canonical (codec.parseFromString blob)) ↔ ∀ directory ∈ messages hash codec nd, Canonical directory := by
  constructor
  next =>
    intro stored directory member
    have found := (find_stored injective (messages hash codec nd) .empty (digestOf hash codec directory) _).mpr
      (.inl ⟨directory, member, rfl, rfl⟩)
    rw [← codec.parse_serialize directory]
    exact stored _ _ found
  next =>
    intro all digest blob found
    rcases (find_stored injective _ _ _ _).mp found with ⟨directory, member, -, rfl⟩ | ⟨-, nothing⟩
    next =>
      rw [codec.parse_serialize]
      exact all directory member
    next => simp at nothing

variable {inputTree templateTree : DirectoryTree} {stack : Nat}

theorem keepsCanonical_iff (spec : MergeSpec hash codec inputTree templateTree stack) :
    KeepsCanonical hash codec stack inputTree templateTree ↔
      MergesCleanly (childOf hash codec (inputTree.list ++ templateTree.list)) inputTree.root
        templateTree.root := by
  by_cases collides : Collides (childOf hash codec (inputTree.list ++ templateTree.list)) inputTree.root
      templateTree.root
  next =>
    refine iff_of_true (fun iteration rootDigest list => ?_) (.inl collides)
    exact ⟨false, _, spec.collides collides iteration _, by simp, fun _ => rfl⟩
  next =>
    obtain ⟨merged, placeable, lands, produces, -⟩ := spec.merges collides
    have kinds {placements : List Placement} (perm : placements.Perm merged) :
        (∀ directory ∈ messages hash codec (NestedDirectory.empty.putAll placements), Canonical directory) ↔
          SingleKinded (MergedLands (childOf hash codec (inputTree.list ++ templateTree.list)) inputTree.root
            templateTree.root) := by
      have same : Lands placements = MergedLands (childOf hash codec (inputTree.list ++ templateTree.list))
          inputTree.root templateTree.root := by
        funext path entry
        exact propext ((lands_perm perm path entry).trans (lands path entry))
      rw [canonical_messages_iff (Ordered.empty.putAll placements), singleKinded_putAll_iff, same]
      exact fun placement member => placeable placement (perm.mem_iff.mp member)
    constructor
    next =>
      intro keeps
      obtain ⟨placements, perm, produced⟩ := produces entriesInOrder
      obtain ⟨result, after, returned, canonical, mixed⟩ := keeps entriesInOrder .unset none
      obtain ⟨list, success⟩ := produced ⟨.unset, .empty, none⟩
      obtain ⟨rfl, rfl⟩ := Prod.mk.inj (Except.ok.inj (returned.symm.trans success))
      refine .inr ⟨fun meets => by simpa using mixed meets, (kinds perm).mp ?_⟩
      exact (canonical_stored_iff injective _).mp (canonical rfl)
    next =>
      intro clean iteration rootDigest list
      obtain ⟨apart, single⟩ := clean.resolve_left collides
      obtain ⟨placements, perm, produced⟩ := produces iteration
      obtain ⟨list', success⟩ := produced ⟨rootDigest, .empty, list⟩
      refine ⟨true, _, success, fun _ => ?_, fun meets => absurd meets apart⟩
      exact (canonical_stored_iff injective _).mpr ((kinds perm).mpr single)

end Canonical

section NulFree

variable {find : Digest → Option Directory} {tree : List Directory} (closed : Closed find tree)
  {first second : Directory} (first_mem : first ∈ tree) (second_mem : second ∈ tree) {stack : Nat}
  (first_deep : Deep find stack first) (second_deep : Deep find stack second)
  (nulFree : NulFreeNames tree)

include closed first_mem second_mem first_deep second_deep

theorem merged_functional {path : List Bytes} {a b : Node} (left : Merged find first second path a)
    (right : Merged find first second path b) : a = b := by
  rcases left with left | ⟨left, none⟩ <;> rcases right with right | ⟨right, none'⟩
  next => exact lists_functional closed first_mem first_deep left right
  next => exact absurd left (none' a)
  next => exact absurd right (none b)
  next => exact lists_functional closed second_mem second_deep left right

theorem directory_of_below (apart : ¬FileMeetsOther find first second)
    (thin : ¬SymlinkMeetsFullDirectory find first second) {path names : List Bytes} {node inner : Node}
    (here : Merged find first second path node) (there : Merged find first second names inner)
    (below : StrictlyBelow names path) : node.entry.kind = .directory := by
  have functional := @merged_functional find tree closed first second first_mem second_mem stack first_deep second_deep path
  rcases there with left | ⟨right, -⟩
  next =>
    obtain ⟨digest, dir⟩ := lists_dir_of_below below left
    rw [functional here (.inl dir)]
    rfl
  next =>
    obtain ⟨digest, dir⟩ := lists_dir_of_below below right
    by_cases shared : ∃ other, Lists find first path other
    next =>
      obtain ⟨other, left⟩ := shared
      obtain rfl := functional here (.inl left)
      cases node with
      | file hash flag => exact absurd ⟨path, _, _, left, dir, by simp [Node.entry, Entry.kind]⟩ apart
      | symlink target => exact absurd ⟨path, target, names, inner, left, right, below⟩ thin
      | dir => rfl
    next =>
      rw [functional here (.inr ⟨dir, not_exists.mp shared⟩)]
      rfl

include nulFree

theorem mergesCleanly_iff : MergesCleanly find first second ↔ Collides find first second ∨
    ¬FileMeetsOther find first second ∧ ¬SymlinkMeetsFullDirectory find first second := by
  have lands := mergedLands_iff closed nulFree first_mem second_mem
  refine or_congr_right (and_congr_right fun apart => ⟨?_, ?_⟩)
  next =>
    rintro single ⟨path, target, names, node, symlink, inner, below⟩
    have missing : ∀ other, ¬Lists find first names other := by
      intro other left
      obtain ⟨digest, dir⟩ := lists_dir_of_below below left
      exact absurd (lists_functional closed first_mem first_deep symlink dir) (by simp)
    have directory := (lands path .directory).mpr (.inr ⟨rfl, names, node, .inr ⟨inner, missing⟩, below⟩)
    have link := (lands path (.symlink target)).mpr (.inl ⟨_, .inl symlink, rfl⟩)
    simpa [Entry.kind] using single path _ _ link directory
  next =>
    intro thin path a b left right
    have directory := @directory_of_below find tree closed first second first_mem second_mem stack first_deep
      second_deep apart thin path
    rcases (lands path a).mp left with ⟨node, here, rfl⟩ | ⟨rfl, names, inner, there, below⟩ <;>
      rcases (lands path b).mp right with ⟨other, here', rfl⟩ | ⟨rfl, names', inner', there', below'⟩
    next => rw [merged_functional closed first_mem second_mem first_deep second_deep here here']
    next => exact directory here there' below'
    next => exact (directory here' there below).symm
    next => rfl

end NulFree

theorem createMergedDigest_canonical_iff {hash : Bytes → Bytes} (injective : Function.Injective hash)
    (codec : Codec Directory) (inputTree templateTree : DirectoryTree)
    (input : MergeInput hash codec inputTree templateTree) :
    (∃ depth, ∀ stack, depth ≤ stack → (KeepsCanonical hash codec stack inputTree templateTree ↔
      MergesCleanly (childOf hash codec (inputTree.list ++ templateTree.list)) inputTree.root
        templateTree.root)) ∧
    (NulFreeNames (inputTree.list ++ templateTree.list) →
      (MergesCleanly (childOf hash codec (inputTree.list ++ templateTree.list)) inputTree.root
        templateTree.root ↔
      Collides (childOf hash codec (inputTree.list ++ templateTree.list)) inputTree.root templateTree.root ∨
        ¬FileMeetsOther (childOf hash codec (inputTree.list ++ templateTree.list)) inputTree.root
          templateTree.root ∧
        ¬SymlinkMeetsFullDirectory (childOf hash codec (inputTree.list ++ templateTree.list)) inputTree.root
          templateTree.root)) := by
  constructor
  next =>
    obtain ⟨depth, spec⟩ := merge_spec input
    exact ⟨depth, fun stack enough => keepsCanonical_iff injective (spec stack enough)⟩
  next =>
    intro nulFree
    obtain ⟨first_depth, first_deep⟩ := (input.grounded _ inputRoot_mem).deep
    obtain ⟨second_depth, second_deep⟩ := (input.grounded _ templateRoot_mem).deep
    exact mergesCleanly_iff input.closed inputRoot_mem templateRoot_mem
      (first_deep.mono (le_max_left _ second_depth)) (second_deep.mono (le_max_right first_depth _)) nulFree

theorem createMergedDigest_canonical_iff_sample :
    (∃ depth, ∀ stack, depth ≤ stack → (KeepsCanonical sampleHash sampleCodec stack sampleInput sampleTemplate ↔
      MergesCleanly (childOf sampleHash sampleCodec (sampleInput.list ++ sampleTemplate.list)) sampleInput.root
        sampleTemplate.root)) ∧
    (NulFreeNames (sampleInput.list ++ sampleTemplate.list) →
      (MergesCleanly (childOf sampleHash sampleCodec (sampleInput.list ++ sampleTemplate.list)) sampleInput.root
        sampleTemplate.root ↔
      Collides (childOf sampleHash sampleCodec (sampleInput.list ++ sampleTemplate.list)) sampleInput.root
        sampleTemplate.root ∨
        ¬FileMeetsOther (childOf sampleHash sampleCodec (sampleInput.list ++ sampleTemplate.list)) sampleInput.root
          sampleTemplate.root ∧
        ¬SymlinkMeetsFullDirectory (childOf sampleHash sampleCodec (sampleInput.list ++ sampleTemplate.list))
          sampleInput.root sampleTemplate.root)) :=
  createMergedDigest_canonical_iff sampleHash_injective sampleCodec sampleInput sampleTemplate sampleMergeInput

def mixedInput : DirectoryTree where
  root := ⟨[⟨text "x", ⟨emptyHash, 0, []⟩, true, none⟩], [], [], none⟩
  rest := []

def mixedChild : Directory := ⟨[⟨text "y", ⟨emptyHash, 0, []⟩, false, none⟩], [], [], none⟩

noncomputable def mixedTemplate : DirectoryTree where
  root := ⟨[], [⟨text "x", digestOf sampleHash sampleCodec mixedChild⟩], [], none⟩
  rest := [mixedChild]

theorem mem_mixed {directory : Directory} (member : directory ∈ mixedInput.list ++ mixedTemplate.list) :
    directory = mixedInput.root ∨ directory = mixedTemplate.root ∨ directory = mixedChild := by
  simpa [DirectoryTree.list, mixedInput, mixedTemplate] using member

theorem mixed_canonical : ∀ directory ∈ mixedInput.list ++ mixedTemplate.list, Canonical directory := by
  intro directory member
  rcases mem_mixed member with rfl | rfl | rfl <;> constructor <;> simp [mixedInput, mixedTemplate, mixedChild]

theorem mixedMergeInput : MergeInput sampleHash sampleCodec mixedInput mixedTemplate := by
  have leaf (directory : Directory) (none : directory.directories = []) :
      Grounded (childOf sampleHash sampleCodec (mixedInput.list ++ mixedTemplate.list)) directory :=
    ⟨by simp [none]⟩
  have stored : mixedChild ∈ mixedInput.list ++ mixedTemplate.list := by
    simp [DirectoryTree.list, mixedTemplate]
  constructor
  next =>
    intro directory member
    rcases mem_mixed member with rfl | rfl | rfl <;> exact ⟨by decide, by decide, by decide⟩
  next =>
    intro directory member node listed
    rcases mem_mixed member with rfl | rfl | rfl
    next => simp [mixedInput] at listed
    next =>
      obtain rfl := List.mem_singleton.mp listed
      exact ⟨mixedChild, stored, rfl⟩
    next => simp [mixedChild] at listed
  next =>
    intro directory member
    rcases mem_mixed member with rfl | rfl | rfl
    next => exact leaf _ rfl
    next =>
      refine ⟨fun node listed child found => ?_⟩
      obtain rfl := List.mem_singleton.mp listed
      rw [childOf_digestOf sampleHash_injective stored, Option.some.injEq] at found
      exact leaf child (found ▸ rfl)
    next => exact leaf _ rfl

theorem mixedInput_lists {find : Digest → Option Directory} :
    Lists find mixedInput.root [text "x"] (.file ⟨emptyHash, 0, []⟩ true) :=
  have member : ⟨text "x", ⟨emptyHash, 0, []⟩, true, none⟩ ∈ mixedInput.root.files := by simp [mixedInput]
  .file member

theorem mixedTemplate_lists {find : Digest → Option Directory} :
    Lists find mixedTemplate.root [text "x"] (.dir (digestOf sampleHash sampleCodec mixedChild)) :=
  have member : ⟨text "x", digestOf sampleHash sampleCodec mixedChild⟩ ∈ mixedTemplate.root.directories := by
    simp [mixedTemplate]
  .dir member

theorem mixedInput_path {find : Digest → Option Directory} {path : List Bytes} {node : Node}
    (lists : Lists find mixedInput.root path node) : path = [text "x"] := by
  cases lists with
  | file member =>
    obtain rfl := List.mem_singleton.mp member
    rfl
  | symlink member | dir member | inside member => simp [mixedInput] at member

theorem mixed_free {find : Digest → Option Directory} : ¬Collides find mixedInput.root mixedTemplate.root := by
  rintro ⟨path, stored, node, left, right, clash⟩
  obtain rfl := mixedInput_path left
  generalize shape : [text "x"] = path at right
  cases right with
  | file member | symlink member => simp [mixedTemplate] at member
  | dir => exact clash.elim
  | inside member found below =>
    obtain ⟨-, rfl⟩ := List.cons.inj shape
    cases below

theorem createMergedDigest_mixed :
    ¬∀ inputTree templateTree, MergeInput sampleHash sampleCodec inputTree templateTree →
      (∀ directory ∈ inputTree.list ++ templateTree.list, Canonical directory) →
      ∃ depth, ∀ stack, depth ≤ stack → KeepsCanonical sampleHash sampleCodec stack inputTree templateTree := by
  intro claimed
  obtain ⟨depth, keeps⟩ := claimed mixedInput mixedTemplate mixedMergeInput mixed_canonical
  obtain ⟨enough, spec⟩ := merge_spec mixedMergeInput
  have clean := (keepsCanonical_iff sampleHash_injective (spec (max depth enough) (le_max_right _ _))).mp
    (keeps _ (le_max_left _ _))
  obtain ⟨apart, -⟩ := clean.resolve_left mixed_free
  exact apart ⟨_, _, _, mixedInput_lists, mixedTemplate_lists, by simp [Node.entry, Entry.kind]⟩

end BuildboxCommon.MergeUtil
