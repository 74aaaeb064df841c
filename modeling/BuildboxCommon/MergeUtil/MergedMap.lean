import BuildboxCommon.MergeUtil.Traversal

set_option autoImplicit false

namespace BuildboxCommon.MergeUtil

open ByteString FileUtils NestedDirectory

theorem metaData_injective {path : Bytes} {first second : Node}
    (same : metaData path first = metaData path second) : first = second := by
  cases first <;> cases second <;> simp_all [metaData]

def emplaceAll (map : PathNodeMetaDataMap) (visited : List (Bytes × Node)) : PathNodeMetaDataMap :=
  visited.foldl (fun map visit => map.emplace visit.1 (metaData visit.1 visit.2)) map

def Consistent (map : PathNodeMetaDataMap) : Prop :=
  ∀ path other, map.find path = some other → ∃ node, other = metaData path node

def Collision (map : PathNodeMetaDataMap) (visited : List (Bytes × Node)) : Prop :=
  ∃ visit ∈ visited, ∃ stored, map.find visit.1 = some (metaData visit.1 stored) ∧ Clash stored visit.2

theorem Consistent.emplace {map : PathNodeMetaDataMap} (consistent : Consistent map) (path : Bytes)
    (node : Node) : Consistent (map.emplace path (metaData path node)) := by
  intro probe other found
  rw [UnorderedMap.find_emplace] at found
  split_ifs at found with same
  next =>
    obtain rfl : probe = path := same
    cases old : map.find probe with
    | none =>
      rw [old, Option.getD_none, Option.some.injEq] at found
      exact ⟨node, found.symm⟩
    | some stored =>
      rw [old, Option.getD_some, Option.some.injEq] at found
      exact found ▸ consistent probe stored old
  next => exact consistent probe other found

section Fold

variable {visited : List (Bytes × Node)} (distinct : (visited.map Prod.fst).Nodup)
  {map : PathNodeMetaDataMap}

theorem find_emplace_other {path probe : Bytes} (node : Node) (differs : probe ≠ path) :
    (map.emplace path (metaData path node)).find probe = map.find probe := by
  rw [UnorderedMap.find_emplace]
  exact if_neg differs

theorem path_ne {path : Bytes} {rest : List (Bytes × Node)} {visit : Bytes × Node}
    (absent : path ∉ rest.map Prod.fst) (member : visit ∈ rest) : visit.1 ≠ path := by
  rintro rfl
  exact absent (List.mem_map_of_mem member)

include distinct

theorem foldlM_addVisit_ok (consistent : Consistent map) (free : ¬Collision map visited) :
    visited.foldlM addVisit map = .ok (emplaceAll map visited) := by
  induction visited generalizing map with
  | nil => rfl
  | cons visit rest ih =>
    obtain ⟨path, node⟩ := visit
    rw [List.map_cons, List.nodup_cons] at distinct
    have first : addVisit map (path, node) = .ok (map.emplace path (metaData path node)) := by
      apply addVisit_ok
      intro other found
      obtain ⟨stored, rfl⟩ := consistent path other found
      exact ⟨stored, rfl, fun clash => free ⟨(path, node), by simp, stored, found, clash⟩⟩
    have later : ¬Collision (map.emplace path (metaData path node)) rest := by
      rintro ⟨visit, member, stored, found, clash⟩
      have differs : visit.1 ≠ path := path_ne distinct.1 member
      rw [find_emplace_other node differs] at found
      exact free ⟨visit, by simp [member], stored, found, clash⟩
    rw [List.foldlM_cons, first]
    exact ih distinct.2 (consistent.emplace path node) later

theorem foldlM_addVisit_error (consistent : Consistent map) (collision : Collision map visited) :
    ∃ what, visited.foldlM addVisit map = .error (.runtimeError what) := by
  induction visited generalizing map with
  | nil =>
    obtain ⟨visit, member, -⟩ := collision
    simp at member
  | cons visit rest ih =>
    obtain ⟨path, node⟩ := visit
    rw [List.map_cons, List.nodup_cons] at distinct
    by_cases here : ∃ stored, map.find path = some (metaData path stored) ∧ Clash stored node
    next =>
      obtain ⟨stored, found, clash⟩ := here
      obtain ⟨what, raised⟩ := addVisit_clash found clash
      exact ⟨what, by rw [List.foldlM_cons, raised]; rfl⟩
    next =>
      have first : addVisit map (path, node) = .ok (map.emplace path (metaData path node)) := by
        apply addVisit_ok
        intro other found
        obtain ⟨stored, rfl⟩ := consistent path other found
        exact ⟨stored, rfl, fun clash => here ⟨stored, found, clash⟩⟩
      have later : Collision (map.emplace path (metaData path node)) rest := by
        obtain ⟨visit, member, stored, found, clash⟩ := collision
        rcases List.mem_cons.mp member with rfl | member
        next => exact absurd ⟨stored, found, clash⟩ here
        next =>
          have differs : visit.1 ≠ path := path_ne distinct.1 member
          exact ⟨visit, member, stored, by rwa [find_emplace_other node differs], clash⟩
      obtain ⟨what, raised⟩ := ih distinct.2 (consistent.emplace path node) later
      exact ⟨what, by rw [List.foldlM_cons, first]; exact raised⟩

-- First come, first served: of the visits only those at new paths are added.
theorem entries_emplaceAll : (emplaceAll map visited).entries = map.entries ++
    (visited.filter fun visit => map.find visit.1 = none).map fun visit => (visit.1, metaData visit.1 visit.2) := by
  induction visited generalizing map with
  | nil => simp [emplaceAll]
  | cons visit rest ih =>
    obtain ⟨path, node⟩ := visit
    rw [List.map_cons, List.nodup_cons] at distinct
    have step : emplaceAll map ((path, node) :: rest) =
        emplaceAll (map.emplace path (metaData path node)) rest := rfl
    have unchanged : (rest.filter fun visit =>
        (map.emplace path (metaData path node)).find visit.1 = none) =
        rest.filter fun visit => map.find visit.1 = none := by
      refine List.filter_congr fun visit member => ?_
      have differs : visit.1 ≠ path := path_ne distinct.1 member
      rw [find_emplace_other node differs]
    rw [step, ih distinct.2, unchanged]
    cases found : map.find path with
    | none => simp [UnorderedMap.entries_emplace _ found, found]
    | some stored => simp [UnorderedMap.emplace_of_find _ found, found]

end Fold

def Merged (find : Digest → Option Directory) (first second : Directory) (path : List Bytes) (node : Node) :
    Prop :=
  Lists find first path node ∨ Lists find second path node ∧ ∀ other, ¬Lists find first path other

def Collides (find : Digest → Option Directory) (first second : Directory) : Prop :=
  ∃ path stored node, Lists find first path stored ∧ Lists find second path node ∧ Clash stored node

def landing (path : List Bytes) : List Bytes := (cString (renderPath path)).splitOn slash

def MergedLands (find : Digest → Option Directory) (first second : Directory) : Listing := fun path entry =>
  (∃ names node, Merged find first second names node ∧ landing names = path ∧ node.entry = entry) ∨
    entry = .directory ∧ ∃ names node, Merged find first second names node ∧ StrictlyBelow (landing names) path

theorem renderPath_cons (name next : Bytes) (names : List Bytes) :
    renderPath (name :: next :: names) = name ++ slash :: renderPath (next :: names) := by
  simp [renderPath, List.intercalate_cons_cons]

theorem cString_subset (bytes : Bytes) : cString bytes ⊆ bytes := List.takeWhile_subset _

-- Only the last segment of a path can be cut short, so no inner segment gets empty.
theorem landing_placeable {names : List Bytes} (proper : ProperNames names) : Placeable (landing names) := by
  refine ⟨List.splitOn_ne_nil slash _, ?_⟩
  obtain ⟨present, nonempty, no_slash⟩ := proper
  unfold landing
  induction names with
  | nil => contradiction
  | cons name names ih =>
    have plain (bytes : Bytes) (within : bytes ⊆ name) : bytes.splitOn slash = [bytes] := by
      have alone := List.splitOn_intercalate slash (by simpa using fun h => no_slash name (by simp) (within h))
        (by simp : [bytes] ≠ [])
      simpa using alone
    cases names with
    | nil => simp [renderPath, plain _ (cString_subset name)]
    | cons next names =>
      have inner := ih (by simp) (fun other member => nonempty other (by simp [member]))
        fun other member => no_slash other (by simp [member])
      rw [renderPath_cons]
      by_cases free : NulFree name
      next =>
        have step : cString (slash :: renderPath (next :: names)) = slash :: cString (renderPath (next :: names)) := by
          simp [cString, slash, nul]
        rw [cString_append_of_nulFree free, step, List.splitOn_append_cons_self,
          plain name (List.Subset.refl _), List.singleton_append,
          List.dropLast_cons_of_ne_nil (List.splitOn_ne_nil slash _)]
        intro segment member
        rcases List.mem_cons.mp member with rfl | member
        next => exact nonempty segment (by simp)
        next => exact inner segment member
      next =>
        rw [cString_append_of_nul free, plain _ (cString_subset name)]
        simp

theorem landing_of_nulFree {names : List Bytes} (present : names ≠ []) (no_slash : ∀ name ∈ names, slash ∉ name)
    (free : ∀ name ∈ names, NulFree name) : landing names = names := by
  have whole : NulFree (renderPath names) := by
    have nothing := present
    clear present no_slash
    induction names with
    | nil => contradiction
    | cons name names ih =>
      cases names with
      | nil => simpa [renderPath] using free name (by simp)
      | cons next names =>
        rw [renderPath_cons, ← List.singleton_append, nulFree_append, nulFree_append]
        exact ⟨free name (by simp), by decide, ih (fun other member => free other (by simp [member])) (by simp)⟩
  rw [landing, cString_of_nulFree whole]
  exact List.splitOn_intercalate slash no_slash present

end BuildboxCommon.MergeUtil
