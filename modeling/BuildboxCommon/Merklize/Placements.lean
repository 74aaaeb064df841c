import BuildboxCommon.Merklize.Entries

set_option autoImplicit false

namespace BuildboxCommon

open ByteString FileUtils

abbrev Placement := List Bytes × Entry

def Lands (placements : List Placement) : Listing := fun path entry =>
  (path, entry) ∈ placements ∨ entry = .directory ∧ ∃ placement ∈ placements, StrictlyBelow placement.1 path

theorem Lands.mono {first second : List Placement} (within : first ⊆ second) {path : List Bytes}
    {entry : Entry} (lands : Lands first path entry) : Lands second path entry := by
  rcases lands with member | ⟨directory, placement, member, below⟩
  next => exact .inl (within member)
  next => exact .inr ⟨directory, placement, within member, below⟩

theorem lands_perm {first second : List Placement} (perm : first.Perm second) (path : List Bytes)
    (entry : Entry) : Lands first path entry ↔ Lands second path entry :=
  ⟨Lands.mono perm.subset, Lands.mono perm.symm.subset⟩

def SingleValued (listing : Listing) : Prop :=
  ∀ path first second, listing path first → listing path second → first.kind = second.kind → first = second

def SingleKinded (listing : Listing) : Prop :=
  ∀ path first second, listing path first → listing path second → first.kind = second.kind

namespace NestedDirectory

def putAll (placements : List Placement) (nd : NestedDirectory) : NestedDirectory :=
  placements.foldl (fun nd placement => nd.put placement.2 placement.1) nd

theorem putAll_snoc (placements : List Placement) (placement : Placement) (nd : NestedDirectory) :
    nd.putAll (placements ++ [placement]) = (nd.putAll placements).put placement.2 placement.1 := by
  simp [putAll]

theorem Ordered.putAll {nd : NestedDirectory} (ordered : Ordered nd) (placements : List Placement) :
    Ordered (nd.putAll placements) := by
  induction placements generalizing nd with
  | nil => exact ordered
  | cons placement placements ih => exact ih (ordered.put placement.2 placement.1)

variable {placements : List Placement} (placeable : ∀ placement ∈ placements, Placeable placement.1)

include placeable

theorem lands_of_holds {path : List Bytes} {entry : Entry}
    (holds : (empty.putAll placements).Holds path entry) : Lands placements path entry := by
  induction placements using List.reverseRecOn with
  | nil => exact absurd holds (holds_empty path entry)
  | append_singleton placements placement ih =>
    rw [putAll_snoc, holds_put (placeable placement (by simp)) _ (Ordered.empty.putAll placements)] at holds
    rcases holds with ⟨same, new⟩ | ⟨directory, below⟩ | ⟨old, -⟩
    next =>
      refine .inl ?_
      rw [same, new]
      simp
    next => exact .inr ⟨directory, placement, by simp, below⟩
    next =>
      have earlier := ih (fun placement member => placeable placement (by simp [member])) old
      exact earlier.mono (List.subset_append_left _ _)

-- A later placement may replace an entry by another one of the same kind, but never removes a kind.
theorem holds_kind_of_lands {path : List Bytes} {entry : Entry} (lands : Lands placements path entry) :
    ∃ other, other.kind = entry.kind ∧ (empty.putAll placements).Holds path other := by
  induction placements using List.reverseRecOn with
  | nil => simp [Lands] at lands
  | append_singleton placements placement ih =>
    have step (other : Entry) :=
      holds_put (placeable placement (by simp)) placement.2 (Ordered.empty.putAll placements) path other
    by_cases replaced : path = placement.1 ∧ entry.kind = placement.2.kind
    next =>
      refine ⟨placement.2, replaced.2.symm, ?_⟩
      rw [putAll_snoc, step]
      exact .inl ⟨replaced.1, rfl⟩
    next =>
      by_cases earlier : Lands placements path entry
      next =>
        obtain ⟨other, kind, holds⟩ :=
          ih (fun placement member => placeable placement (by simp [member])) earlier
        refine ⟨other, kind, ?_⟩
        rw [putAll_snoc, step]
        exact .inr (.inr ⟨holds, by rwa [kind]⟩)
      next =>
        -- Then it is the last placement that puts the entry there, as a directory on its way.
        rcases lands with member | ⟨directory, inner, member, below⟩
        next =>
          rcases List.mem_append.mp member with old | new
          next => exact absurd (.inl old) earlier
          next =>
            have last : (path, entry) = placement := List.mem_singleton.mp new
            exact absurd (last ▸ ⟨rfl, rfl⟩) replaced
        next =>
          rcases List.mem_append.mp member with old | new
          next => exact absurd (.inr ⟨directory, inner, old, below⟩) earlier
          next =>
            refine ⟨.directory, by rw [directory], ?_⟩
            rw [putAll_snoc, step]
            exact .inr (.inl ⟨rfl, List.mem_singleton.mp new ▸ below⟩)

theorem holds_putAll (single : SingleValued (Lands placements)) (path : List Bytes) (entry : Entry) :
    (empty.putAll placements).Holds path entry ↔ Lands placements path entry := by
  refine ⟨lands_of_holds placeable, fun lands => ?_⟩
  obtain ⟨other, kind, holds⟩ := holds_kind_of_lands placeable lands
  have same := single path other entry (lands_of_holds placeable holds) lands kind
  exact same ▸ holds

theorem singleKinded_putAll_iff :
    SingleKinded (empty.putAll placements).Holds ↔ SingleKinded (Lands placements) := by
  constructor
  next =>
    intro single path first second left right
    obtain ⟨first', kind, left⟩ := holds_kind_of_lands placeable left
    obtain ⟨second', kind', right⟩ := holds_kind_of_lands placeable right
    rw [← kind, ← kind']
    exact single path first' second' left right
  next =>
    intro single path first second left right
    exact single path first second (lands_of_holds placeable left) (lands_of_holds placeable right)

end NestedDirectory

theorem NestedDirectory.holds_last (placements : List Placement) (placement : Placement)
    (placeable : Placeable placement.1) :
    (empty.putAll (placements ++ [placement])).Holds placement.1 placement.2 := by
  rw [putAll_snoc, holds_put placeable _ (Ordered.empty.putAll placements)]
  exact .inl ⟨rfl, rfl⟩

theorem NestedDirectory.exists_holds {placements : List Placement}
    (placeable : ∀ placement ∈ placements, Placeable placement.1) {path : List Bytes} {entry : Entry}
    (lands : Lands placements path entry) :
    ∃ order, order.Perm placements ∧ (empty.putAll order).Holds path entry := by
  rcases lands with member | ⟨rfl, placement, member, below⟩
  next =>
    obtain ⟨before, later, rfl⟩ := List.append_of_mem member
    refine ⟨before ++ later ++ [(path, entry)], ?_, holds_last _ _ (placeable _ member)⟩
    rw [List.append_assoc]
    exact (List.perm_append_comm).append_left before
  next =>
    obtain ⟨other, kind, holds⟩ := holds_kind_of_lands placeable (.inr ⟨rfl, placement, member, below⟩)
    cases other with
    | file | symlink => simp [Entry.kind] at kind
    | directory => exact ⟨placements, .refl _, holds⟩

end BuildboxCommon
