import BuildboxCommon.Merklize.DirectoryTree
import BuildboxCommon.Merklize.OperationOrder
import BuildboxCommon.Merklize.ToTree

set_option autoImplicit false

namespace BuildboxCommon.NestedDirectory

open ByteString FileUtils OrderedEntries

def IsSegment (name : Bytes) : Prop := name ≠ [] ∧ slash ∉ name

structure CanonicalForm (directory : Directory) : Prop extends Canonical directory where
  segments : ∀ name ∈ directory.names, IsSegment name

section Names

variable {hash : Bytes → Bytes} {codec : Encoding Directory} {good : Bytes → Prop} {nd : NestedDirectory}

def AllNamed (good : Bytes → Prop) (nd : NestedDirectory) : Prop :=
  ∀ path entry, nd.Holds path entry → ∀ segment ∈ path, good segment

theorem names_message_iff (ordered : Ordered nd) :
    (∀ name ∈ (message hash codec nd).names, good name) ↔ ∀ name entry, nd.Here name entry → good name := by
  have files := @mem_message_files hash codec nd ordered
  have symlinks := @mem_message_symlinks hash codec nd ordered
  have directories := @mem_message_directories hash codec nd ordered
  have listed (name : Bytes) : name ∈ (message hash codec nd).names ↔ ∃ entry, nd.Here name entry := by
    simp only [Directory.names, List.mem_append, List.mem_map, files, symlinks, directories]
    constructor
    next =>
      rintro ((⟨file, here⟩ | ⟨target, here⟩) | here)
      next => exact ⟨_, here⟩
      next => exact ⟨_, here⟩
      next => exact ⟨_, here⟩
    next =>
      rintro ⟨entry, here⟩
      cases entry with
      | file file => exact .inl (.inl ⟨file, here⟩)
      | symlink target => exact .inl (.inr ⟨target, here⟩)
      | directory => exact .inr here
  simp only [listed]
  exact ⟨fun all name entry here => all name ⟨entry, here⟩, fun all name ⟨entry, here⟩ => all name entry here⟩

theorem allNamed_iff (ordered : Ordered nd) : AllNamed good nd ↔
    (∀ name entry, nd.Here name entry → good name) ∧ ∀ entry ∈ nd.subdirs, AllNamed good entry.2 := by
  constructor
  next =>
    intro all
    refine ⟨fun name entry here => all [name] entry here name (by simp), fun entry listed path held holds => ?_⟩
    have found := (mem_iff_get ordered.subdirs entry.1 entry.2).mp listed
    cases path with
    | nil => exact absurd holds (holds_nil _ _)
    | cons next path =>
      intro segment member
      exact all (entry.1 :: next :: path) held ⟨entry.2, found, holds⟩ segment (List.mem_cons_of_mem _ member)
  next =>
    rintro ⟨here, below⟩ path entry holds segment member
    match path with
    | [] => cases member
    | [name] =>
      obtain rfl := List.mem_singleton.mp member
      exact here segment entry holds
    | name :: next :: path =>
      obtain ⟨sub, found, holds⟩ := holds
      rcases List.mem_cons.mp member with rfl | later
      next => exact here segment .directory ⟨sub, found⟩
      next => exact below (name, sub) (mem_of_get found) _ entry holds segment later

theorem names_messages_iff (ordered : Ordered nd) :
    (∀ directory ∈ messages hash codec nd, ∀ name ∈ directory.names, good name) ↔ AllNamed good nd := by
  apply messages_forall_iff _ ordered
  intro nd ordered
  rw [allNamed_iff ordered, ← @names_message_iff hash codec _ _ ordered]

end Names

section Targets

theorem nil_mem_entryTarget {segments : List Bytes} : [] ∈ entryTarget segments ↔ segments.getLast? = some [] := by
  induction segments with
  | nil => simp [entryTarget]
  | cons first segments ih =>
    cases segments with
    | nil => simp [entryTarget, eq_comm]
    | cons next rest =>
      rw [entryTarget, List.getLast?_cons_cons, ← ih]
      split
      next => rfl
      next kept => simp [Ne.symm kept]

def EndsInSlash (segments : List Bytes) : Prop := ∃ stem name, segments = stem ++ [name, []] ∧ name ≠ []

theorem not_endsInSlash_one (name : Bytes) : ¬EndsInSlash [name] := by
  rintro ⟨stem, last, shape, -⟩
  have lengths := congrArg List.length shape
  simp at lengths

theorem endsInSlash_cons {first next : Bytes} {rest : List Bytes} :
    EndsInSlash (first :: next :: rest) ↔ first ≠ [] ∧ next :: rest = [[]] ∨ EndsInSlash (next :: rest) := by
  constructor
  next =>
    rintro ⟨stem, name, shape, filled⟩
    cases stem with
    | nil =>
      obtain ⟨rfl, last⟩ := List.cons.inj shape
      exact .inl ⟨filled, last⟩
    | cons other stem => exact .inr ⟨stem, name, (List.cons.inj shape).2, filled⟩
  next =>
    rintro (⟨filled, last⟩ | ⟨stem, name, shape, filled⟩)
    next => exact ⟨[], first, by rw [last, List.nil_append], filled⟩
    next => exact ⟨first :: stem, name, by rw [shape, List.cons_append], filled⟩

theorem nil_mem_directoryTarget {segments : List Bytes} :
    [] ∈ directoryTarget segments ↔ segments = [[]] ∨ EndsInSlash segments := by
  induction segments with
  | nil => simp [directoryTarget, EndsInSlash]
  | cons first segments ih =>
    cases segments with
    | nil => simp [directoryTarget, not_endsInSlash_one, eq_comm]
    | cons next rest =>
      rw [directoryTarget, endsInSlash_cons]
      split_ifs with slash_only skipped
      next =>
        obtain ⟨rfl, rfl, rfl⟩ := slash_only
        simp [not_endsInSlash_one]
      next =>
        have more : next :: rest ≠ [[]] := fun last => slash_only ⟨skipped, by simpa using last⟩
        rw [ih]
        simp [more, skipped]
      next =>
        rw [List.mem_cons, ih]
        simp [skipped, Ne.symm skipped]

end Targets

section Operations

def Operation.Proper : Operation → Prop
  | .add _ relativePath | .addSymlink _ relativePath => ((cString relativePath).splitOn slash).getLast? ≠ some []
  | .addDirectory directory => cString directory ≠ []

instance (operation : Operation) : Decidable operation.Proper :=
  match operation with
  | .add _ _ | .addSymlink _ _ | .addDirectory _ => inferInstanceAs (Decidable (_ ≠ _))

def Operation.EndsInSlash (operation : Operation) : Prop :=
  NestedDirectory.EndsInSlash ((cString operation.path).splitOn slash)

def named (operations : List Operation) : List Placement :=
  (operations.map fun operation => (operation.segments, operation.entry)).filter fun placement => placement.1 ≠ []

def emitted (hash : Bytes → Bytes) (codec : Encoding Directory) (nd : NestedDirectory) : List Directory :=
  messages hash codec nd ++ (toTree hash codec nd).root :: (toTree hash codec nd).children

variable {hash : Bytes → Bytes} {codec : Encoding Directory} {operations : List Operation} {operation : Operation}

theorem splitOn_eq_nil_iff {bytes : Bytes} : bytes.splitOn slash = [[]] ↔ bytes = [] := by
  constructor
  next =>
    intro split
    have whole : [slash].intercalate (bytes.splitOn slash) = bytes := List.intercalate_splitOn slash
    rw [← whole, split]
    rfl
  next =>
    rintro rfl
    rfl

theorem getLast?_of_endsInSlash {segments : List Bytes} (ends : NestedDirectory.EndsInSlash segments) :
    segments.getLast? = some [] := by
  obtain ⟨stem, name, rfl, -⟩ := ends
  simp

theorem nil_mem_target (proper : operation.Proper) : [] ∈ operation.target ↔ operation.EndsInSlash := by
  cases operation with
  | add file relativePath =>
    exact iff_of_false (fun empty => proper (nil_mem_entryTarget.mp empty)) fun ends => proper
      (getLast?_of_endsInSlash ends)
  | addSymlink target relativePath =>
    exact iff_of_false (fun empty => proper (nil_mem_entryTarget.mp empty)) fun ends => proper
      (getLast?_of_endsInSlash ends)
  | addDirectory directory =>
    refine nil_mem_directoryTarget.trans ⟨fun either => either.resolve_left fun empty => ?_, .inr⟩
    exact proper (splitOn_eq_nil_iff.mp empty)

theorem target_eq_segments (filled : [] ∉ operation.target) : operation.target = operation.segments := by
  rw [← (target_inner operation).2, List.filter_eq_self.mpr]
  intro segment member
  exact decide_eq_true fun empty => filled (empty ▸ member)

theorem placements_eq_named (filled : ∀ operation ∈ operations, [] ∉ operation.target) :
    placements operations = named operations := by
  unfold placements named
  rw [List.map_congr_left fun operation member => by rw [target_eq_segments (filled operation member)]]

theorem isSegment_of_lands {path : List Bytes} {entry : Entry} (lands : Lands (named operations) path entry) :
    ∀ segment ∈ path, IsSegment segment := by
  have listed {placement : Placement} (member : placement ∈ named operations) :
      ∀ segment ∈ placement.1, IsSegment segment := by
    obtain ⟨operation, -, rfl⟩ := List.mem_map.mp (List.mem_filter.mp member).1
    intro segment kept
    obtain ⟨piece, filled⟩ := List.mem_filter.mp kept
    exact ⟨of_decide_eq_true filled, (mem_splitOn piece).1⟩
  rcases lands with member | ⟨-, placement, member, -, inner, -⟩
  next => exact listed member
  next => exact fun segment within => listed member segment (inner.subset within)

theorem mem_emitted {directory : Directory} {nd : NestedDirectory} :
    directory ∈ emitted hash codec nd ↔ directory ∈ messages hash codec nd := by
  rw [emitted, toTree_eq, List.mem_append, List.mem_cons, or_iff_left_iff_imp]
  rintro (rfl | below)
  next => exact message_mem hash codec nd
  next => exact subdirMessages_subset hash codec nd below

theorem emitted_canonical_iff (proper : ∀ operation ∈ operations, operation.Proper) :
    (∀ directory ∈ emitted hash codec (applyAll operations), CanonicalForm directory) ↔
      (∀ operation ∈ operations, ¬operation.EndsInSlash) ∧ SingleKinded (Lands (named operations)) := by
  have placeable := placeable_placements operations
  have ordered : Ordered (empty.putAll (placements operations)) := Ordered.empty.putAll _
  have canonical := @canonical_messages_iff hash codec _ ordered
  have segments := @names_messages_iff hash codec IsSegment _ ordered
  rw [singleKinded_putAll_iff placeable] at canonical
  simp only [mem_emitted, applyAll_eq_putAll]
  constructor
  next =>
    intro all
    have filled : ∀ operation ∈ operations, [] ∉ operation.target := by
      intro operation member empty
      have placed : Lands (placements operations) operation.target operation.entry :=
        .inl (mem_placements.mpr ⟨List.ne_nil_of_mem empty, operation, member, rfl⟩)
      obtain ⟨other, -, holds⟩ := holds_kind_of_lands placeable placed
      have proper := segments.mp (fun directory member => (all directory member).segments)
      exact (proper _ other holds [] empty).1 rfl
    refine ⟨fun operation member ends => ?_, ?_⟩
    next => exact filled operation member ((nil_mem_target (proper operation member)).mpr ends)
    next =>
      rw [← placements_eq_named filled]
      exact canonical.mp fun directory member => (all directory member).toCanonical
  next =>
    rintro ⟨unended, single⟩ directory member
    have filled : ∀ operation ∈ operations, [] ∉ operation.target := fun operation member empty =>
      unended operation member ((nil_mem_target (proper operation member)).mp empty)
    rw [← placements_eq_named filled] at single
    refine ⟨canonical.mpr single directory member, ?_⟩
    refine segments.mpr (fun path entry holds => ?_) directory member
    have lands := lands_of_holds placeable holds
    rw [placements_eq_named filled] at lands
    exact isSegment_of_lands lands

section Samples

def mixedOperations : List Operation :=
  [.addDirectory (text "d//"), .add hashedFile (text "d//f"), .addSymlink (text "f") (text "/d/l")]

theorem emitted_canonical_iff_mixed :
    (∀ directory ∈ emitted wireHash wireCodec (applyAll mixedOperations), CanonicalForm directory) ↔
      (∀ operation ∈ mixedOperations, ¬operation.EndsInSlash) ∧ SingleKinded (Lands (named mixedOperations)) := by
  refine emitted_canonical_iff fun operation member => ?_
  simp only [mixedOperations, List.mem_cons, List.not_mem_nil, or_false] at member
  rcases member with rfl | rfl | rfl <;> decide

theorem emitted_not_canonical :
    (Operation.addDirectory (text "a/")).Proper ∧
    (∃ directory ∈ emitted wireHash wireCodec (applyAll [.addDirectory (text "a/")]), [] ∈ directory.names) ∧
    (Operation.add hashedFile (text "a")).Proper ∧ (Operation.addSymlink (text "b") (text "a")).Proper ∧
    ∃ directory ∈ emitted wireHash wireCodec (applyAll [.add hashedFile (text "a"), .addSymlink (text "b") (text "a")]),
      ¬Canonical directory := by
  refine ⟨by decide, ?_, by decide, by decide, ?_⟩
  next =>
    have built : applyAll [.addDirectory (text "a/")] = ⟨[], [], [(text "a", ⟨[], [], [([], empty)]⟩)]⟩ := rfl
    have below : message wireHash wireCodec ⟨[], [], [([], empty)]⟩ ∈ messages wireHash wireCodec
        (applyAll [.addDirectory (text "a/")]) := by
      rw [built]
      exact (mem_messages _ _).mpr (.inr ⟨_, List.mem_singleton_self _, message_mem _ _ _⟩)
    exact ⟨_, mem_emitted.mpr below, List.mem_singleton_self _⟩
  next =>
    refine ⟨_, mem_emitted.mpr (message_mem _ _ _), fun canonical => ?_⟩
    exact canonical.files_symlinks _ (List.mem_singleton_self _) _ (List.mem_singleton_self _) rfl

end Samples

end Operations

end BuildboxCommon.NestedDirectory
