import BuildboxCommon.Merklize.ToDigest
import Mathlib.Data.List.Pairwise

set_option autoImplicit false

namespace BuildboxCommon.NestedDirectory

open ByteString FileUtils

inductive Operation where
  | add (file : File) (relativePath : Bytes)
  | addSymlink (target relativePath : Bytes)
  | addDirectory (directory : Bytes)

namespace Operation

def apply (nd : NestedDirectory) : Operation → NestedDirectory
  | .add file relativePath => nd.add file relativePath
  | .addSymlink target relativePath => nd.addSymlink target relativePath
  | .addDirectory directory => nd.addDirectory directory

def path : Operation → Bytes
  | .add _ relativePath | .addSymlink _ relativePath => relativePath
  | .addDirectory directory => directory

def entry : Operation → Entry
  | .add file _ => .file file
  | .addSymlink target _ => .symlink target
  | .addDirectory _ => .directory

def segments (operation : Operation) : List Bytes :=
  ((cString operation.path).splitOn slash).filter (· ≠ [])

end Operation

def applyAll (operations : List Operation) : NestedDirectory := operations.foldl Operation.apply empty

-- Where `add` and `addSymlink` put the entry: an empty segment counts in last position only.
def entryTarget : List Bytes → List Bytes
  | [] => []
  | [name] => [name]
  | first :: next :: rest => if first = [] then entryTarget (next :: rest) else first :: entryTarget (next :: rest)

-- `addDirectory` puts nothing there for what ends in two slashes.
def directoryTarget : List Bytes → List Bytes
  | [] => []
  | [name] => [name]
  | first :: next :: rest =>
    if first = [] ∧ next = [] ∧ rest = [] then []
    else if first = [] then directoryTarget (next :: rest)
    else first :: directoryTarget (next :: rest)

theorem entryTarget_ne_nil {segments : List Bytes} (present : segments ≠ []) : entryTarget segments ≠ [] := by
  induction segments with
  | nil => contradiction
  | cons first segments ih =>
    cases segments with
    | nil => simp [entryTarget]
    | cons next rest =>
      rw [entryTarget]
      split
      next => exact ih (by simp)
      next => simp

theorem place_entryTarget (leaf : Bytes → NestedDirectory → NestedDirectory) (segments : List Bytes)
    (nd : NestedDirectory) : nd.place leaf segments = nd.place leaf (entryTarget segments) := by
  induction segments generalizing nd with
  | nil => rfl
  | cons first segments ih =>
    cases segments with
    | nil => rfl
    | cons next rest =>
      have below : place leaf (next :: rest) = place leaf (entryTarget (next :: rest)) := funext ih
      obtain ⟨other, others, shape⟩ := List.exists_cons_of_ne_nil (@entryTarget_ne_nil (next :: rest) (by simp))
      by_cases skipped : first = []
      next => rw [place, entryTarget, if_pos skipped, if_pos skipped, ih]
      next =>
        rw [place, entryTarget, if_neg skipped, if_neg skipped, below, shape]
        conv_rhs => rw [place, if_neg skipped]

theorem placeDirectory_directoryTarget (segments : List Bytes) (nd : NestedDirectory) :
    nd.placeDirectory segments = nd.placeDirectory (directoryTarget segments) := by
  induction segments generalizing nd with
  | nil => rfl
  | cons first segments ih =>
    cases segments with
    | nil => rfl
    | cons next rest =>
      have below : placeDirectory (next :: rest) = placeDirectory (directoryTarget (next :: rest)) := funext ih
      by_cases slash_only : first = [] ∧ next = [] ∧ rest = []
      next => rw [placeDirectory, directoryTarget, if_pos slash_only, if_pos slash_only, placeDirectory]
      by_cases skipped : first = []
      next =>
        rw [placeDirectory, directoryTarget, if_neg slash_only, if_neg slash_only, if_pos skipped, if_pos skipped, ih]
      next =>
        have kept : ∀ others, ¬(first = [] ∧ others) := fun others both => skipped both.1
        rw [placeDirectory, directoryTarget, if_neg slash_only, if_neg slash_only, if_neg skipped, if_neg skipped,
          below]
        cases directoryTarget (next :: rest) with
        | nil => rfl
        | cons other others =>
          conv_rhs => rw [placeDirectory, if_neg (kept _), if_neg skipped]

theorem entryTarget_inner (segments : List Bytes) :
    (∀ segment ∈ (entryTarget segments).dropLast, segment ≠ []) ∧
      (entryTarget segments).filter (· ≠ []) = segments.filter (· ≠ []) := by
  induction segments with
  | nil => simp [entryTarget]
  | cons first segments ih =>
    cases segments with
    | nil => simp [entryTarget]
    | cons next rest =>
      rw [entryTarget]
      split
      next skipped =>
        refine ⟨ih.1, ih.2.trans ?_⟩
        simp [skipped]
      next kept =>
        refine ⟨fun segment member => ?_, ?_⟩
        next =>
          have present := @entryTarget_ne_nil (next :: rest) (by simp)
          rw [List.dropLast_cons_of_ne_nil present] at member
          rcases List.mem_cons.mp member with rfl | later
          next => exact kept
          next => exact ih.1 segment later
        next => rw [List.filter_cons, List.filter_cons, ih.2]

theorem directoryTarget_inner (segments : List Bytes) :
    (∀ segment ∈ (directoryTarget segments).dropLast, segment ≠ []) ∧
      (directoryTarget segments).filter (· ≠ []) = segments.filter (· ≠ []) := by
  induction segments with
  | nil => simp [directoryTarget]
  | cons first segments ih =>
    cases segments with
    | nil => simp [directoryTarget]
    | cons next rest =>
      rw [directoryTarget]
      split_ifs with slash_only skipped
      next => simp [slash_only]
      next =>
        refine ⟨ih.1, ih.2.trans ?_⟩
        simp [skipped]
      next =>
        refine ⟨fun segment member => ?_, ?_⟩
        next =>
          cases shape : directoryTarget (next :: rest) with
          | nil => simp [shape] at member
          | cons other others =>
            rw [shape, List.dropLast_cons_of_ne_nil (by simp)] at member
            rcases List.mem_cons.mp member with rfl | later
            next => exact skipped
            next => exact ih.1 segment (shape ▸ later)
        next => rw [List.filter_cons, List.filter_cons, ih.2]

def Operation.target (operation : Operation) : List Bytes :=
  match operation.entry with
  | .file _ | .symlink _ => entryTarget ((cString operation.path).splitOn slash)
  | .directory => directoryTarget ((cString operation.path).splitOn slash)

theorem apply_eq_put (nd : NestedDirectory) (operation : Operation) :
    operation.apply nd = nd.put operation.entry operation.target := by
  cases operation with
  | add file relativePath => exact place_entryTarget _ _ nd
  | addSymlink target relativePath => exact place_entryTarget _ _ nd
  | addDirectory directory => exact placeDirectory_directoryTarget _ nd

theorem target_inner (operation : Operation) : (∀ segment ∈ operation.target.dropLast, segment ≠ []) ∧
    operation.target.filter (· ≠ []) = operation.segments := by
  cases operation with
  | add file relativePath => exact entryTarget_inner _
  | addSymlink target relativePath => exact entryTarget_inner _
  | addDirectory directory => exact directoryTarget_inner _

theorem put_nil (nd : NestedDirectory) (entry : Entry) : nd.put entry [] = nd := by cases entry <;> rfl

def placements (operations : List Operation) : List Placement :=
  (operations.map fun operation => (operation.target, operation.entry)).filter fun placement => placement.1 ≠ []

theorem applyAll_eq_putAll (operations : List Operation) :
    applyAll operations = empty.putAll (placements operations) := by
  induction operations using List.reverseRecOn with
  | nil => rfl
  | append_singleton operations operation ih =>
    have last : applyAll (operations ++ [operation]) = operation.apply (applyAll operations) := by simp [applyAll]
    have split : placements (operations ++ [operation]) = placements operations ++ placements [operation] := by
      simp [placements]
    rw [last, ih, apply_eq_put, split]
    by_cases nothing : operation.target = []
    next => simp [nothing, put_nil, placements]
    next =>
      have kept : placements [operation] = [(operation.target, operation.entry)] := by simp [placements, nothing]
      rw [kept, putAll_snoc]

def Apart (first second : Operation) : Prop :=
  first.entry.kind = second.entry.kind → first.segments ≠ second.segments

instance : Std.Symm Apart := ⟨fun _ _ apart kind same => apart kind.symm same.symm⟩

def Distinct (operations : List Operation) : Prop := operations.Pairwise Apart

theorem mem_placements {operations : List Operation} {placement : Placement} :
    placement ∈ placements operations ↔
      placement.1 ≠ [] ∧ ∃ operation ∈ operations, (operation.target, operation.entry) = placement := by
  simp [placements, List.mem_filter, and_comm]

theorem placeable_placements (operations : List Operation) :
    ∀ placement ∈ placements operations, Placeable placement.1 := by
  intro placement member
  obtain ⟨present, operation, -, rfl⟩ := mem_placements.mp member
  exact ⟨present, (target_inner operation).1⟩

theorem singleValued_placements {operations : List Operation} (distinct : Distinct operations) :
    SingleValued (Lands (placements operations)) := by
  have directory {entry : Entry} (kind : entry.kind = Kind.directory) : entry = .directory := by
    cases entry <;> simp_all [Entry.kind]
  intro path first second left right kind
  rcases left with left | ⟨rfl, -⟩
  next =>
    rcases right with right | ⟨rfl, -⟩
    next =>
      obtain ⟨-, operation, listed, same⟩ := mem_placements.mp left
      obtain ⟨-, other, listed', same'⟩ := mem_placements.mp right
      obtain ⟨target, rfl⟩ := Prod.mk.inj same
      obtain ⟨target', rfl⟩ := Prod.mk.inj same'
      by_contra differs
      have ne : operation ≠ other := fun same => differs (congrArg Operation.entry same)
      have apart : Apart operation other := List.Pairwise.forall distinct listed listed' ne
      refine apart kind ?_
      rw [← (target_inner operation).2, ← (target_inner other).2, target, target']
    next => exact directory kind
  next => exact (directory kind.symm).symm

theorem applyAll_perm {first second : List Operation} (perm : first.Perm second) (distinct : Distinct first) :
    applyAll first = applyAll second := by
  have other : Distinct second :=
    perm.pairwise distinct fun apart => symm apart
  have lands : (placements first).Perm (placements second) := (perm.map _).filter _
  rw [applyAll_eq_putAll, applyAll_eq_putAll]
  refine ext_of_holds (Ordered.empty.putAll _) (Ordered.empty.putAll _) fun path entry => ?_
  rw [holds_putAll (placeable_placements first) (singleValued_placements distinct),
    holds_putAll (placeable_placements second) (singleValued_placements other), lands_perm lands]

theorem toDigest_perm (hash : Bytes → Bytes) (codec : Codec Directory) {first second : List Operation}
    (perm : first.Perm second) (distinct : Distinct first) (digestMap : DigestStringMap) :
    toDigest hash codec (applyAll first) digestMap = toDigest hash codec (applyAll second) digestMap := by
  rw [applyAll_perm perm distinct]

def oneOfEach : List Operation :=
  [.addDirectory (text "/d//"), .add hashedFile (text "d//f"), .addSymlink (text "d") (text "l")]

theorem toDigest_perm_swapped : toDigest wireHash wireCodec (applyAll oneOfEach) .empty =
    toDigest wireHash wireCodec (applyAll oneOfEach.reverse) .empty := by
  refine toDigest_perm wireHash wireCodec (List.reverse_perm _).symm ?_ .empty
  simp [Distinct, oneOfEach, Apart, Operation.entry, Entry.kind]

end BuildboxCommon.NestedDirectory
