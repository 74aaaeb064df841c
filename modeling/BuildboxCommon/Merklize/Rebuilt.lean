import BuildboxCommon.Merklize.CanonicalForm
import BuildboxCommon.Merklize.FromDigest

set_option autoImplicit false

namespace BuildboxCommon

open ByteString FileUtils OrderedEntries

def Entry.turn : Entry → Nat
  | .file _ => 0
  | .symlink _ => 1
  | .directory => 2

namespace NestedDirectory

variable {nd : NestedDirectory}

structure Rebuilt (nd : NestedDirectory) : Prop where
  segments : AllNamed (fun name => slash ∉ name ∧ NulFree name) nd
  named : ∀ path entry, nd.Holds path entry → ∀ name ∈ path.dropLast, name ≠ []
  untimed : ∀ path file, nd.Holds path (.file file) → file.mtime = none

structure Survives (nd : NestedDirectory) : Prop extends Rebuilt nd where
  links : ∀ path file target, nd.Holds path (.file file) → ¬nd.Holds path (.symlink target)
  occupied : ∀ path entry, nd.Holds path entry → entry ≠ .directory → nd.Holds path .directory →
    ∃ longer other, nd.Holds longer other ∧ StrictlyBelow longer path

def First (nd : NestedDirectory) (path : List Bytes) (entry : Entry) : Prop :=
  nd.Holds path entry ∧ ∀ other, nd.Holds path other → entry.turn ≤ other.turn

def Retained (nd : NestedDirectory) : Listing := fun path entry =>
  nd.First path entry ∨ entry = .directory ∧ ∃ longer other, nd.Holds longer other ∧ StrictlyBelow longer path

theorem First.unique {path : List Bytes} {first second : Entry} (left : nd.First path first)
    (right : nd.First path second) : first = second := by
  apply holds_functional left.1 right.1
  have below := left.2 second right.1
  have above := right.2 first left.1
  cases first <;> cases second <;> simp [Entry.turn] at below above <;> rfl

theorem holds_directory_of_below {longer path : List Bytes} {entry : Entry} (holds : nd.Holds longer entry)
    (below : StrictlyBelow longer path) : nd.Holds path .directory := by
  obtain ⟨present, ⟨rest, rfl⟩, differs⟩ := below
  have more : rest ≠ [] := fun none => differs (by rw [none, List.append_nil])
  clear differs
  induction path generalizing nd with
  | nil => contradiction
  | cons name path ih =>
    cases path with
    | nil =>
      obtain ⟨next, others, rfl⟩ := List.exists_cons_of_ne_nil more
      obtain ⟨sub, found, -⟩ := holds
      exact ⟨sub, found⟩
    | cons next path =>
      obtain ⟨sub, found, inside⟩ := holds
      exact ⟨sub, found, ih (by simp) inside⟩

theorem exists_first {path : List Bytes} {entry : Entry} (holds : nd.Holds path entry) :
    ∃ first, nd.First path first := by
  by_cases file : ∃ file, nd.Holds path (.file file)
  next =>
    obtain ⟨file, held⟩ := file
    exact ⟨.file file, held, fun other _ => Nat.zero_le _⟩
  by_cases link : ∃ target, nd.Holds path (.symlink target)
  next =>
    obtain ⟨target, held⟩ := link
    refine ⟨.symlink target, held, fun other present => ?_⟩
    cases other with
    | file other => exact absurd ⟨other, present⟩ file
    | symlink | directory => simp [Entry.turn]
  next =>
    refine ⟨entry, holds, fun other present => ?_⟩
    cases other with
    | file other => exact absurd ⟨other, present⟩ file
    | symlink target => exact absurd ⟨target, present⟩ link
    | directory => cases entry <;> simp [Entry.turn]

theorem retained_iff : (∀ path entry, nd.Retained path entry ↔ nd.Holds path entry) ↔
    (∀ path file target, nd.Holds path (.file file) → ¬nd.Holds path (.symlink target)) ∧
      ∀ path entry, nd.Holds path entry → entry ≠ .directory → nd.Holds path .directory →
        ∃ longer other, nd.Holds longer other ∧ StrictlyBelow longer path := by
  constructor
  next =>
    intro retained
    have first (path : List Bytes) (entry : Entry) (holds : nd.Holds path entry) (other : entry ≠ .directory) :
        nd.First path entry := ((retained path entry).mpr holds).resolve_right fun below => other below.1
    refine ⟨fun path file target left right => ?_, fun path entry holds other directory => ?_⟩
    next =>
      have same := (first _ _ left (by simp)).unique (first _ _ right (by simp))
      cases same
    next =>
      rcases (retained path .directory).mpr directory with alone | ⟨-, below⟩
      next => exact absurd ((first _ _ holds other).unique alone) other
      next => exact below
  next =>
    rintro ⟨links, occupied⟩ path entry
    constructor
    next =>
      rintro (first | ⟨rfl, longer, other, holds, below⟩)
      next => exact first.1
      next => exact holds_directory_of_below holds below
    next =>
      intro holds
      cases entry with
      | file file => exact .inl ⟨holds, fun other _ => Nat.zero_le _⟩
      | symlink target =>
        refine .inl ⟨holds, fun other present => ?_⟩
        cases other with
        | file file => exact absurd holds (links path file target present)
        | symlink | directory => simp [Entry.turn]
      | directory =>
        by_cases alone : ∃ other, nd.Holds path other ∧ other ≠ .directory
        next =>
          obtain ⟨other, present, differs⟩ := alone
          exact .inr ⟨rfl, occupied path other present differs holds⟩
        next =>
          refine .inl ⟨holds, fun other present => ?_⟩
          rw [not_exists] at alone
          rw [not_not.mp fun differs => alone other ⟨present, differs⟩]

section Times

theorem get_map {β γ : Type} (f : β → γ) (key : Bytes) (entries : List (Bytes × β)) :
    get key (entries.map fun entry => (entry.1, f entry.2)) = (get key entries).map f := by
  induction entries with
  | nil => rfl
  | cons entry rest ih =>
    rw [List.map_cons, get_cons, get_cons, ih]
    split_ifs <;> rfl

theorem holds_atMicroseconds {path : List Bytes} {file : File} (holds : nd.Holds path (.file file)) :
    nd.atMicroseconds.Holds path (.file file.atMicroseconds) := by
  induction path generalizing nd with
  | nil => exact absurd holds (holds_nil _ _)
  | cons name path ih =>
    obtain ⟨files, symlinks, subdirs⟩ := nd
    cases path with
    | nil => exact (get_map _ name files).trans (congrArg (Option.map _) holds)
    | cons next path =>
      obtain ⟨sub, found, inside⟩ := holds
      refine ⟨sub.atMicroseconds, ?_, ih inside⟩
      have same := (get_map atMicroseconds name subdirs).trans (congrArg (Option.map _) found)
      rwa [← subdirsAtMicroseconds_eq] at same

theorem untimed_of_atMicroseconds
    (untimed : ∀ path file, nd.atMicroseconds.Holds path (.file file) → file.mtime = none) (path : List Bytes)
    (file : File) (holds : nd.Holds path (.file file)) : file.mtime = none :=
  Option.map_eq_none_iff.mp (untimed path _ (holds_atMicroseconds holds))

theorem atMicroseconds_untimed (ordered : Ordered nd)
    (untimed : ∀ path file, nd.Holds path (.file file) → file.mtime = none) : nd.atMicroseconds = nd := by
  induction nd using NestedDirectory.induction with
  | step files symlinks subdirs ih =>
    have same : files.map (fun entry => (entry.1, entry.2.atMicroseconds)) = files := by
      apply (List.map_congr_left fun entry member => ?_).trans (List.map_id files)
      have none := untimed [entry.1] entry.2 ((mem_iff_get ordered.files _ _).mp member)
      have unchanged : entry.2.atMicroseconds = entry.2 := by rw [File.atMicroseconds, none, Option.map_none, ← none]
      rw [unchanged, id]
    have below : subdirsAtMicroseconds subdirs = subdirs := by
      rw [subdirsAtMicroseconds_eq]
      apply (List.map_congr_left fun entry member => ?_).trans (List.map_id subdirs)
      have found := (mem_iff_get ordered.subdirs entry.1 entry.2).mp member
      have inside := ih entry member (ordered.subdir member) fun path file holds => by
        cases path with
        | nil => exact absurd holds (holds_nil _ _)
        | cons next path => exact untimed (entry.1 :: next :: path) file ⟨entry.2, found, holds⟩
      rw [inside, id]
    rw [atMicroseconds, same, below]

theorem eq_of_atMicroseconds {first second : NestedDirectory} (left : Ordered first) (right : Ordered second)
    (untimed : ∀ path file, first.Holds path (.file file) → file.mtime = none)
    (same : first.atMicroseconds = second.atMicroseconds) : first = second := by
  rw [atMicroseconds_untimed left untimed] at same
  have other := untimed_of_atMicroseconds (same ▸ untimed)
  rw [same, atMicroseconds_untimed right other]

end Times

theorem segment_of_target {operation : Operation} {segment : Bytes} (member : segment ∈ operation.target) :
    slash ∉ segment ∧ NulFree segment := by
  by_cases empty : segment = []
  next => simp [empty, NulFree]
  next =>
    have kept : segment ∈ operation.segments := by
      rw [← (target_inner operation).2]
      exact List.mem_filter.mpr ⟨member, decide_eq_true empty⟩
    obtain ⟨plain, within⟩ := mem_splitOn (List.mem_of_mem_filter kept)
    exact ⟨plain, fun inside => cString_nulFree _ (within inside)⟩

theorem rebuilt_applyAll {operations : List Operation}
    (untimed : ∀ operation ∈ operations, ∀ file, operation.entry = .file file → file.mtime = none) :
    Rebuilt (applyAll operations) := by
  have lands {path : List Bytes} {entry : Entry} (holds : (applyAll operations).Holds path entry) :
      Lands (placements operations) path entry := by
    rw [applyAll_eq_putAll] at holds
    exact lands_of_holds (placeable_placements operations) holds
  -- A path leads to the target of an operation or to a directory on its way.
  have leads {path : List Bytes} {entry : Entry} (holds : (applyAll operations).Holds path entry) :
      ∃ operation ∈ operations, path <+: operation.target := by
    rcases lands holds with placed | ⟨-, placement, placed, -, within, -⟩
    next =>
      obtain ⟨-, operation, member, same⟩ := mem_placements.mp placed
      obtain ⟨rfl, -⟩ := Prod.mk.inj same
      exact ⟨operation, member, List.prefix_rfl⟩
    next =>
      obtain ⟨-, operation, member, rfl⟩ := mem_placements.mp placed
      exact ⟨operation, member, within⟩
  constructor
  next =>
    intro path entry holds segment member
    obtain ⟨operation, -, within⟩ := leads holds
    exact segment_of_target (within.subset member)
  next =>
    intro path entry holds name member
    obtain ⟨operation, -, rest, whole⟩ := leads holds
    apply (target_inner operation).1 name
    by_cases all : rest = []
    next => rwa [← whole, all, List.append_nil]
    next =>
      rw [← whole, List.dropLast_append_of_ne_nil all]
      exact List.mem_append_left _ (List.mem_of_mem_dropLast member)
  next =>
    intro path file holds
    rcases lands holds with placed | ⟨directory, -⟩
    next =>
      obtain ⟨-, operation, member, same⟩ := mem_placements.mp placed
      exact untimed operation member file (congrArg Prod.snd same)
    next => cases directory

end NestedDirectory

end BuildboxCommon
