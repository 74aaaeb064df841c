import BuildboxCommon.FileUtils.NormalizePath

set_option autoImplicit false

namespace BuildboxCommon.FileUtils

open ByteString LexicalPath

theorem steps_join (first second : Bytes) :
    steps (first ++ slash :: second) = steps first ++ steps second := by
  simp [steps, List.splitOn_append_cons_self]

theorem rtakeWhile_slash (start : Bytes) {last : Bytes} (plain : slash ∉ last) :
    (start ++ slash :: last).rtakeWhile (· ≠ slash) = last := by
  have ends : ∀ byte ∈ last.reverse, decide (byte ≠ slash) = true := by
    intro byte member
    simpa using fun same : byte = slash => plain (same ▸ List.mem_reverse.mp member)
  rw [List.rtakeWhile, List.reverse_append, List.reverse_cons, List.append_assoc, List.takeWhile_append_of_pos ends]
  simp

theorem rdropWhile_slash (start : Bytes) {last : Bytes} (plain : slash ∉ last) :
    (start ++ slash :: last).rdropWhile (· ≠ slash) = start ++ [slash] :=
  rdropWhile_separator start plain

theorem rtakeWhile_plain {name : Bytes} (plain : slash ∉ name) : name.rtakeWhile (· ≠ slash) = name :=
  List.rtakeWhile_eq_self_iff.mpr fun byte member => by
    simpa using fun same : byte = slash => plain (same ▸ member)

theorem render_below {n below : NormalPath} {rest : List Bytes} (same : below.absolute = n.absolute)
    (present : n.segments ≠ []) (more : rest ≠ []) (split : below.segments = n.segments ++ rest) :
    below.render = n.render ++ slash :: [slash].intercalate rest := by
  have joined := intercalate_append slash present more
  obtain ⟨segment, others, shape⟩ := List.exists_cons_of_ne_nil present
  rw [NormalPath.render, NormalPath.render, split, same, shape, List.cons_append, joinSegments_cons, joinSegments_cons,
    ← List.cons_append, ← shape, joined]
  simp

theorem segments_present {b : NormalPath} (unlike : b.render ≠ [slash]) (ne_dot : b.render ≠ dot) :
    b.segments ≠ [] := by
  intro empty
  rw [NormalPath.render, empty] at unlike ne_dot
  cases absolute : b.absolute <;> rw [absolute] at unlike ne_dot <;> contradiction

theorem isGlobal_cString (path : Bytes) : isGlobal (cString path) = isGlobal path := by
  cases path with
  | nil => rfl
  | cons byte bytes =>
    by_cases ends : byte = nul
    next =>
      subst ends
      rfl
    next => simp [cString, isGlobal, ends]

theorem isGlobal_join (b : NormalPath) (rest : Bytes) :
    isGlobal (b.render ++ slash :: rest) = b.absolute := by
  have start := b.isGlobal_render
  obtain ⟨byte, bytes, shape⟩ := List.exists_cons_of_ne_nil (render_nonempty b)
  simpa [shape, isGlobal] using start

theorem render_join_nulFree (b w : NormalPath) : NulFree (b.render ++ slash :: w.render) := by
  have free (n : NormalPath) : NulFree n.render := n.cString_render ▸ cString_nulFree _
  rw [nulFree_append]
  refine ⟨free b, ?_⟩
  rw [← List.singleton_append, nulFree_append]
  exact ⟨by decide, free w⟩

theorem locate_join (b w : NormalPath) (cwd : List Bytes) :
    (normalForm (b.render ++ slash :: w.render)).locate cwd =
      w.displacement.act (b.locate cwd) := by
  rw [← resolve_cString, cString_of_nulFree (render_join_nulFree b w), resolve, isGlobal_join,
    steps_join, walk_append, walk_eq_act, walk_eq_act, NormalPath.displacement_render,
    NormalPath.displacement_render, NormalPath.locate]

theorem pathSegments_of_prefix {b j : NormalPath} {rest : Bytes} (present : b.segments ≠ [])
    (start : j.render = b.render ++ slash :: rest) :
    j.absolute = b.absolute ∧ j.segments = b.segments ++ rest.splitOn slash := by
  have same : j.absolute = b.absolute := by
    rw [← NormalPath.isGlobal_render, start, isGlobal_join]
  have split : pathSegments j.render = pathSegments b.render ++ rest.splitOn slash := by
    rw [pathSegments, NormalPath.isGlobal_render, same, start, pathSegments, NormalPath.isGlobal_render]
    obtain ⟨byte, bytes, shape⟩ := List.exists_cons_of_ne_nil (render_nonempty b)
    cases b.absolute with
    | false => exact List.splitOn_append_cons_self _ _
    | true =>
      rw [shape]
      exact List.splitOn_append_cons_self _ _
  refine ⟨same, ?_⟩
  rw [pathSegments_render, pathSegments_render, if_neg present] at split
  by_cases empty : j.segments = []
  next =>
    -- A path without segments renders as one segment, but here there are two at least.
    have two := congrArg List.length split
    have last := List.length_pos_iff.mpr (List.splitOn_ne_nil slash rest)
    have first := List.length_pos_iff.mpr present
    rw [if_pos empty, List.length_append] at two
    cases absolute : j.absolute <;> simp [absolute] at two <;> omega
  next => rwa [if_neg empty] at split

theorem ups_le_of_prefix {b j : NormalPath} {rest : List Bytes} (named : b.names ≠ [])
    (split : j.segments = b.segments ++ rest) : j.ups ≤ b.ups := by
  by_contra more
  obtain ⟨name, names, shape⟩ := List.exists_cons_of_ne_nil named
  have climbing : j.segments[b.ups]? = some dotdot := by
    simp [NormalPath.segments, List.getElem?_append_left, Nat.not_le.mp more]
  have entering : j.segments[b.ups]? = some name := by
    rw [split]
    simp [NormalPath.segments, shape]
  rw [climbing, Option.some.injEq] at entering
  exact (b.proper name (by simp [shape])).ne_dotdot entering.symm

theorem isName_below {b j : NormalPath} {rest : List Bytes} (named : b.names ≠ [])
    (split : j.segments = b.segments ++ rest) : ∀ segment ∈ rest, IsName segment := by
  intro segment member
  have fewer := ups_le_of_prefix named split
  have after : rest = j.names.drop (b.segments.length - j.ups) := by
    have dropped := congrArg (List.drop b.segments.length) split
    have shape : j.segments = List.replicate j.ups dotdot ++ j.names := rfl
    have climbed : (List.replicate j.ups dotdot).drop b.segments.length = [] := by
      simp [NormalPath.segments]
      omega
    rw [List.drop_left, shape, List.drop_append, climbed, List.length_replicate] at dropped
    simp [← dropped]
  exact j.proper segment (List.drop_subset _ _ (after ▸ member))

theorem locate_prefix {b j : NormalPath} {rest : Bytes} (named : b.names ≠ [])
    (start : j.render = b.render ++ slash :: rest) (cwd : List Bytes) :
    b.locate cwd <+: j.locate cwd := by
  have present : b.segments ≠ [] := by simp [NormalPath.segments, named]
  obtain ⟨same, split⟩ := pathSegments_of_prefix present start
  have down : (rest.splitOn slash).map classify = (rest.splitOn slash).map .down :=
    List.map_congr_left fun segment member => (isName_below named split segment member).classify
  have walked (n : NormalPath) :
      n.locate cwd = walk (if n.absolute then [] else cwd) (n.segments.map classify) := by
    rw [n.map_classify_segments, Displacement.walk_steps, NormalPath.locate]
  rw [walked b, walked j, same, split, List.map_append, walk_append, down, walk_down]
  exact List.prefix_append _ _

def climb (absolute : Bool) (ups : Nat) (anchored : absolute = true → ups = 0) : NormalPath where
  absolute := absolute
  ups := ups
  names := []
  proper := by simp
  anchored := anchored

theorem anchored_zero (absolute : Bool) : absolute = true → 0 = 0 := fun _ => rfl

def rootPath : NormalPath := climb true 0 (anchored_zero true)
def herePath : NormalPath := climb false 0 (anchored_zero false)
def parentPath : NormalPath := climb false 1 (by simp)

theorem eq_rootPath {n : NormalPath} (same : n.render = [slash]) : n = rootPath :=
  render_injective (same.trans (by decide))

theorem eq_herePath {n : NormalPath} (same : n.render = dot) : n = herePath :=
  render_injective (same.trans (by decide))

theorem eq_parentPath {n : NormalPath} (same : n.render = dotdot) : n = parentPath :=
  render_injective (same.trans (by decide))

-- The test `path == ".." || path.substr(0, 3) == "../"` of the source, on a normalised path.
theorem leadsUp_iff (n : NormalPath) :
    n.render = dotdot ∨ dotdot ++ [slash] <+: n.render ↔ 0 < n.ups := by
  constructor
  next =>
    rintro (same | ⟨rest, start⟩)
    next =>
      simp [eq_parentPath same, parentPath, climb]
    next =>
      have above : n.render = parentPath.render ++ slash :: rest := by
        rw [← start, List.append_assoc]
        rfl
      obtain ⟨-, split⟩ := pathSegments_of_prefix (by decide) above
      by_contra flat
      have ups : n.ups = 0 := by omega
      have member : dotdot ∈ n.names := by
        have shape : n.names = [dotdot] ++ rest.splitOn slash := by
          simpa [NormalPath.segments, ups, parentPath, climb] using split
        simp [shape]
      exact (n.proper _ member).ne_dotdot rfl
  next =>
    intro climbs
    have relative : n.absolute = false := by
      rw [← Bool.not_eq_true]
      exact fun absolute => climbs.ne' (n.anchored absolute)
    obtain ⟨ups, more⟩ := Nat.exists_eq_add_of_lt climbs
    have shape : n.segments = dotdot :: (List.replicate ups dotdot ++ n.names) := by
      simp [NormalPath.segments, more, List.replicate_succ]
    rw [NormalPath.render, relative, shape, joinSegments_cons]
    cases List.replicate ups dotdot ++ n.names with
    | nil => exact .inl (by simp)
    | cons segment segments =>
      refine .inr ?_
      rw [List.intercalate_cons_cons]
      exact List.prefix_append _ _

end BuildboxCommon.FileUtils
