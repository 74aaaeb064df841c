import BuildboxCommon.FileUtils.RelativePath

set_option autoImplicit false

namespace BuildboxCommon.FileUtils

open ByteString LexicalPath

section Common

variable {α : Type} [DecidableEq α]

def inCommon : List α → List α → Nat
  | one :: first, other :: second => if one = other then inCommon first second + 1 else 0
  | _, _ => 0

theorem take_inCommon (first second : List α) :
    second.take (inCommon first second) = first.take (inCommon first second) := by
  fun_induction inCommon first second with
  | case1 one first second ih => simp [ih]
  | case2 => rfl
  | case3 => rfl

theorem split_inCommon (first second : List α) :
    first = first.take (inCommon first second) ++ first.drop (inCommon first second) ∧
      second = first.take (inCommon first second) ++ second.drop (inCommon first second) := by
  rw [List.take_append_drop, ← take_inCommon, List.take_append_drop]
  exact ⟨rfl, rfl⟩

def Differ (first second : List α) : Prop := ∀ item rest, first = item :: rest → second.head? ≠ some item

theorem differ_inCommon (first second : List α) :
    Differ (first.drop (inCommon first second)) (second.drop (inCommon first second)) := by
  fun_induction inCommon first second with
  | case1 one first second ih => exact ih
  | case2 one first other second unlike =>
    rintro item rest shape head
    cases shape
    cases head
    exact unlike rfl
  | case3 first second unmatched =>
    rintro item rest rfl head
    cases second with
    | nil => simp at head
    | cons other second => exact unmatched _ _ _ _ rfl rfl

end Common

def lead (segments : List Bytes) : Bytes := segments.flatMap (slash :: ·)

section Lead

theorem lead_append (first second : List Bytes) : lead (first ++ second) = lead first ++ lead second :=
  List.flatMap_append

@[simp] theorem lead_nil : lead [] = [] := rfl

theorem lead_cons (segment : Bytes) (segments : List Bytes) :
    lead (segment :: segments) = slash :: segment ++ lead segments := rfl

theorem intercalate_lead (segment : Bytes) (segments : List Bytes) :
    [slash].intercalate (segment :: segments) = segment ++ lead segments := by
  induction segments generalizing segment with
  | nil => simp [lead]
  | cons other segments ih =>
    rw [List.intercalate_cons_cons, ih other, lead_cons]
    simp

theorem lead_intercalate {segments : List Bytes} (present : segments ≠ []) :
    lead segments = slash :: [slash].intercalate segments := by
  obtain ⟨segment, others, rfl⟩ := List.exists_cons_of_ne_nil present
  rw [intercalate_lead, lead_cons]
  rfl

theorem intercalate_inj {first second : List Bytes} (first_present : first ≠ []) (second_present : second ≠ [])
    (first_plain : ∀ segment ∈ first, slash ∉ segment) (second_plain : ∀ segment ∈ second, slash ∉ segment) :
    [slash].intercalate first = [slash].intercalate second ↔ first = second := by
  constructor
  next =>
    intro same
    have split := congrArg (List.splitOn slash) same
    rwa [List.splitOn_intercalate slash first_plain first_present,
      List.splitOn_intercalate slash second_plain second_present] at split
  next =>
    intro same
    rw [same]

theorem lead_pathSegments {path : Bytes} (absolute : path.head? = some slash) : lead (pathSegments path) = path := by
  cases path with
  | nil => cases absolute
  | cons byte rest =>
    cases absolute
    have segments : pathSegments (slash :: rest) = rest.splitOn slash := rfl
    rw [segments, lead_intercalate (List.splitOn_ne_nil _ _), List.intercalate_splitOn]

theorem plain_pathSegments (path : Bytes) : ∀ segment ∈ pathSegments path, slash ∉ segment :=
  fun _ member => (mem_splitOn member).1

theorem pathSegments_lead {segments : List Bytes} (present : segments ≠ [])
    (plain : ∀ segment ∈ segments, slash ∉ segment) :
    pathSegments (lead segments) = segments := by
  rw [lead_intercalate present, pathSegments]
  simpa [isGlobal] using List.splitOn_intercalate slash plain present

theorem lead_head {segments : List Bytes} (present : segments ≠ []) (rest : Bytes) :
    (lead segments ++ rest).head? = some slash := by
  obtain ⟨segment, others, rfl⟩ := List.exists_cons_of_ne_nil present
  rfl

theorem lead_head_ne {segments : List Bytes} {rest : Bytes} {byte : UInt8} (unlike : byte ≠ slash)
    (ends : rest.head? ≠ some byte) : (lead segments ++ rest).head? ≠ some byte := by
  cases segments with
  | nil => exact ends
  | cons segment segments => simpa [lead_cons] using unlike.symm

theorem innerSlashes_lead {segment : Bytes} {segments : List Bytes} {ending : Bytes}
    (plain : ∀ other ∈ segment :: segments, slash ∉ other) (free : NulFree (lead segments ++ ending))
    (ends : ending = [slash] ∨ ending = [] ∧ (segment :: segments).getLast? ≠ some []) :
    innerSlashes (segment ++ lead segments ++ ending) = segments.length := by
  induction segments generalizing segment with
  | nil =>
    rw [lead_nil, List.append_nil, innerSlashes_plain (plain segment (by simp))]
    rcases ends with rfl | ⟨rfl, -⟩ <;> rfl
  | cons other segments ih =>
    rw [lead_cons, List.cons_append, List.cons_append, ← List.singleton_append, nulFree_append] at free
    have present : other ++ lead segments ++ ending ≠ [] := by
      rcases ends with rfl | ⟨rfl, last⟩
      next => simp
      next =>
        cases segments with
        | nil => simpa using last
        | cons => simp [lead_cons]
    obtain ⟨byte, rest, shape⟩ := List.exists_cons_of_ne_nil present
    have unlike : byte ≠ nul := fun same => free.2 (by simp [shape, same])
    have rest_ends : ending = [slash] ∨ ending = [] ∧ (other :: segments).getLast? ≠ some [] := by simpa using ends
    have rest_free : NulFree (lead segments ++ ending) := by
      rw [List.append_assoc, nulFree_append] at free
      exact free.2.2
    have rest_counted := ih (fun another member => plain another (List.mem_cons_of_mem _ member)) rest_free rest_ends
    rw [lead_cons, List.append_assoc, innerSlashes_plain (plain segment (by simp)), List.cons_append, List.cons_append,
      innerSlashes, rest_counted, shape]
    simp [unlike, Nat.add_comm]

theorem render_absolute {n : NormalPath} (absolute : n.absolute = true) :
    n.render = if n.names = [] then [slash] else lead n.names := by
  have segments : n.segments = n.names := by simp [NormalPath.segments, n.anchored absolute]
  rw [NormalPath.render, absolute, segments]
  by_cases root : n.names = []
  next =>
    rw [if_pos root, root]
    rfl
  next =>
    obtain ⟨name, names, shape⟩ := List.exists_cons_of_ne_nil root
    rw [if_neg root, shape, joinSegments_cons, lead_intercalate (by simp)]
    rfl

theorem dotdots_lead (count : Nat) (segments : List Bytes) :
    [slash].intercalate (List.replicate (count + 1) dotdot ++ segments) = dotdots (count + 1) ++ lead segments := by
  rw [dotdots, List.replicate_succ, List.cons_append, intercalate_lead, intercalate_lead, lead_append,
    List.append_assoc]

theorem nulFree_lead_iff {segments : List Bytes} : NulFree (lead segments) ↔ ∀ segment ∈ segments, NulFree segment := by
  induction segments with
  | nil => exact iff_of_true (by decide) (by simp)
  | cons segment segments ih =>
    have bare : NulFree [slash] := by decide
    rw [lead_cons, ← List.singleton_append, nulFree_append, nulFree_append, ih, List.forall_mem_cons,
      and_iff_right bare]

theorem plain_names (n : NormalPath) : ∀ name ∈ n.names, slash ∉ name :=
  fun name member => (n.proper name member).no_slash

end Lead

structure Parted (path cwd : Bytes) (shared ahead left : List Bytes) (ending : Bytes) : Prop where
  path_eq : path = lead (shared ++ ahead)
  cwd_eq : cwd = lead (shared ++ left) ++ ending
  absolute : path.head? = some slash
  anchored : cwd.head? = some slash
  plain_path : ∀ segment ∈ shared ++ ahead, slash ∉ segment
  plain_cwd : ∀ segment ∈ shared ++ left, slash ∉ segment
  differ : Differ ahead left
  ends : ending = [slash] ∨ ending = [] ∧ (shared ++ left).getLast? ≠ some []

def trailingSlash (path : Bytes) : Bytes := if path.getLast? = some slash then [slash] else []

-- An empty segment behind the last slash of a directory is not counted.
def directorySegments (cwd : Bytes) : List Bytes :=
  if cwd.getLast? = some slash then (pathSegments cwd).dropLast else pathSegments cwd

def sharedSegments (path cwd : Bytes) : List Bytes :=
  (pathSegments path).take (inCommon (pathSegments path) (directorySegments cwd))

def aheadSegments (path cwd : Bytes) : List Bytes :=
  (pathSegments path).drop (inCommon (pathSegments path) (directorySegments cwd))

def leftSegments (path cwd : Bytes) : List Bytes :=
  (directorySegments cwd).drop (inCommon (pathSegments path) (directorySegments cwd))

theorem getLast?_lead {front : List Bytes} {last : Bytes} (plain : slash ∉ last) :
    (lead (front ++ [last])).getLast? = some slash ↔ last = [] := by
  rcases List.eq_nil_or_concat last with rfl | ⟨start, ends, rfl⟩
  next => simp [lead]
  next =>
    have unlike : ends ≠ slash := fun same => plain (by simp [same])
    have shape : lead (front ++ [start.concat ends]) = lead front ++ slash :: start ++ [ends] := by
      simp [lead_append, lead_cons]
    rw [shape, List.getLast?_concat]
    simp [unlike]

theorem directorySegments_eq {cwd : Bytes} (anchored : cwd.head? = some slash) :
    cwd = lead (directorySegments cwd) ++ trailingSlash cwd ∧
      (trailingSlash cwd = [slash] ∨ trailingSlash cwd = [] ∧ (directorySegments cwd).getLast? ≠ some []) := by
  have whole := lead_pathSegments anchored
  rcases List.eq_nil_or_concat (pathSegments cwd) with none | ⟨front, last, shape⟩
  next => exact absurd none (List.splitOn_ne_nil _ _)
  next =>
    rw [List.concat_eq_append] at shape
    have plain : slash ∉ last := plain_pathSegments cwd last (by simp [shape])
    have ends := @getLast?_lead front last plain
    rw [← shape, whole] at ends
    rw [directorySegments, trailingSlash]
    by_cases empty : last = []
    next =>
      rw [if_pos (ends.mpr empty), if_pos (ends.mpr empty), shape, List.dropLast_concat]
      refine ⟨?_, .inl rfl⟩
      rw [← whole, shape, empty]
      simp [lead]
    next =>
      rw [if_neg (mt ends.mp empty), if_neg (mt ends.mp empty), List.append_nil, whole, shape, List.getLast?_concat]
      exact ⟨rfl, .inr ⟨rfl, by simpa using empty⟩⟩

theorem plain_directorySegments (cwd : Bytes) : ∀ segment ∈ directorySegments cwd, slash ∉ segment := by
  intro segment member
  rw [directorySegments] at member
  split_ifs at member
  next => exact plain_pathSegments cwd segment (List.dropLast_subset _ member)
  next => exact plain_pathSegments cwd segment member

theorem parted {path cwd : Bytes} (absolute : path.head? = some slash) (anchored : cwd.head? = some slash) :
    Parted path cwd (sharedSegments path cwd) (aheadSegments path cwd) (leftSegments path cwd) (trailingSlash cwd) := by
  obtain ⟨path_segments, cwd_segments⟩ := split_inCommon (pathSegments path) (directorySegments cwd)
  obtain ⟨whole, ends⟩ := directorySegments_eq anchored
  constructor
  case path_eq => rw [sharedSegments, aheadSegments, ← path_segments, lead_pathSegments absolute]
  case cwd_eq => rwa [sharedSegments, leftSegments, ← cwd_segments]
  case absolute => exact absolute
  case anchored => exact anchored
  case plain_path =>
    rw [sharedSegments, aheadSegments, ← path_segments]
    exact plain_pathSegments path
  case plain_cwd =>
    rw [sharedSegments, leftSegments, ← cwd_segments]
    exact plain_directorySegments cwd
  case differ => exact differ_inCommon _ _
  case ends => rwa [sharedSegments, leftSegments, ← cwd_segments]

def entered (ending : Bytes) (ahead : List Bytes) : Bytes :=
  if ahead = [] then dot
  else if ahead = [[]] ∨ ending = [slash] ∧ ahead = [[], []] then text "./"
  else [slash].intercalate ahead

section Parted

variable {path cwd ending first : Bytes} {shared ahead left rest : List Bytes}

theorem lead_last {segments : List Bytes} (absolute : (lead segments).head? = some slash)
    (plain : ∀ segment ∈ segments, slash ∉ segment) (last : segments.getLast? ≠ some []) :
    ∃ start ends, lead segments = start ++ [ends] ∧ ends ≠ slash := by
  rcases List.eq_nil_or_concat segments with rfl | ⟨front, segment, rfl⟩
  next => simp at absolute
  next =>
    rcases List.eq_nil_or_concat segment with rfl | ⟨start, ends, rfl⟩
    next => simp at last
    next =>
      have unlike : ends ≠ slash := fun same => plain (start ++ [ends]) (by simp) (by simp [same])
      exact ⟨lead front ++ slash :: start, ends, by simp [lead_append, lead_cons], unlike⟩

-- For the longest directory there may be, `pathIndex + 2` wraps round, which only makes a difference where it is used.
def Enterable (cwd ending : Bytes) (ahead : List Bytes) : Prop :=
  cwd.length + 1 < unsignedRange ∨ ahead = [] ∨ ending = [slash] ∧ ahead ≠ [[], []]

theorem Parted.inside (parted : Parted path cwd shared ahead [] ending) (short : cwd.length < unsignedRange)
    (enterable : Enterable cwd ending ahead) : makePathRelative path cwd = .ok (entered ending ahead) := by
  obtain ⟨path_eq, cwd_eq, absolute, anchored, plain_path, plain_cwd, -, ends⟩ := parted
  rw [List.append_nil] at cwd_eq plain_cwd ends
  rw [lead_append] at path_eq
  have plain_ahead : ∀ segment ∈ ahead, slash ∉ segment := fun segment member => plain_path segment (by simp [member])
  by_cases none : ahead = []
  next =>
    rw [none, lead_nil, List.append_nil] at path_eq
    subst path_eq
    rw [entered, if_pos none]
    rcases ends with rfl | ⟨rfl, last⟩
    next =>
      subst cwd_eq
      exact relative_above absolute short
    next =>
      rw [List.append_nil] at cwd_eq
      subst cwd_eq
      obtain ⟨start, byte, shape, unlike⟩ := lead_last absolute plain_cwd last
      rw [shape] at absolute short ⊢
      rw [relative_same absolute (by simpa using short), if_neg unlike]
  next =>
    have alone : [slash].intercalate ahead = [] ↔ ahead = [[]] :=
      @intercalate_inj ahead [[]] none (by simp) plain_ahead (by simp)
    have twice : [slash].intercalate ahead = [slash] ↔ ahead = [[], []] :=
      @intercalate_inj ahead [[], []] none (by simp) plain_ahead (by simp)
    rw [lead_intercalate none] at path_eq
    rw [entered, if_neg none]
    generalize [slash].intercalate ahead = rest at *
    rcases ends with rfl | ⟨rfl, last⟩
    next =>
      subst path_eq cwd_eq
      by_cases single : rest = []
      next =>
        rw [single] at absolute ⊢
        rw [relative_same absolute (by simpa using short), if_pos rfl, if_pos (.inl (alone.mp single))]
      next =>
        by_cases double : rest = [slash]
        next =>
          have small := enterable.resolve_right (by simp [none, ← twice, double])
          rw [relative_within anchored (by simpa using small) single (.inl double), if_pos double,
            if_pos (.inr ⟨rfl, twice.mp double⟩)]
        next =>
          rw [relative_entered anchored (by simpa using short) single double]
          simp [← alone, ← twice, single, double]
    next =>
      rw [List.append_nil] at cwd_eq
      subst cwd_eq
      obtain ⟨start, byte, shape, unlike⟩ := lead_last anchored plain_cwd last
      rw [shape] at anchored short enterable path_eq ⊢
      rw [List.append_assoc, List.singleton_append] at path_eq
      subst path_eq
      have small := enterable.resolve_right (by simp [none])
      rw [relative_within anchored (by simpa using small) (by simp) (.inr (.inr rfl)), if_neg unlike]
      simp [alone]

theorem Parted.enterable (parted : Parted path cwd shared ahead [] ending) (short : path.length < unsignedRange) :
    Enterable cwd ending ahead := by
  obtain ⟨path_eq, cwd_eq, -, -, -, -, -, ends⟩ := parted
  rw [List.append_nil] at cwd_eq
  rw [path_eq, lead_append, List.length_append] at short
  have size := congrArg List.length cwd_eq
  rw [List.length_append] at size
  unfold Enterable
  by_cases none : ahead = []
  next => exact .inr (.inl none)
  next =>
    rcases ends with rfl | ⟨rfl, -⟩
    next =>
      by_cases double : ahead = [[], []]
      next =>
        have two : (lead ahead).length = 2 := by rw [double]; rfl
        rw [List.length_singleton] at size
        exact .inl (by omega)
      next => exact .inr (.inr ⟨rfl, double⟩)
    next =>
      rw [lead_intercalate none, List.length_cons] at short
      rw [List.length_nil] at size
      exact .inl (by omega)

theorem lead_slash (segments : List Bytes) : (lead segments ++ [slash]).head? = some slash := by
  cases segments with
  | nil => rfl
  | cons => rfl

theorem differ_segments {one other : Bytes} {others : List Bytes} (plain : slash ∉ other) (plain_one : slash ∉ one)
    (differ : Differ one other) (unlike : one = [] → other ≠ []) (ends : ending = [slash] ∨ ending = []) :
    Differ (one ++ lead others) (other ++ lead rest ++ ending) ∧
      (one ++ lead others = [] → (other ++ lead rest ++ ending).head? ≠ some slash) := by
  have behind (byte : UInt8) (different : byte ≠ slash) : (lead rest ++ ending).head? ≠ some byte := by
    apply lead_head_ne different
    rcases ends with rfl | rfl <;> simp [different.symm]
  cases other with
  | nil =>
    cases one with
    | nil => exact absurd rfl (unlike rfl)
    | cons byte one =>
      have different : byte ≠ slash := fun same => plain_one (by simp [same])
      constructor
      next =>
        intro item items shape
        cases shape
        simpa using behind byte different
      next => simp
  | cons head other =>
    have different : head ≠ slash := fun same => plain (by simp [same])
    constructor
    next =>
      intro item items shape
      cases one with
      | nil =>
        cases others with
        | nil => cases shape
        | cons =>
          cases shape
          simpa using different
      | cons byte one =>
        cases shape
        simpa using differ _ _ rfl
    next => simpa using fun _ _ => different

theorem Parted.leaves_some (parted : Parted path cwd shared ahead (first :: rest) ending) :
    first ++ lead rest ++ ending ≠ [] := by
  rcases parted.ends with rfl | ⟨rfl, last⟩
  next => simp
  next =>
    cases rest with
    | nil => simpa using last
    | cons => simp [lead_cons]

theorem Parted.cwd_split (parted : Parted path cwd shared ahead (first :: rest) ending) :
    cwd = lead shared ++ slash :: (first ++ lead rest ++ ending) := by
  rw [parted.cwd_eq, lead_append, lead_cons]
  simp

theorem relative_inside {base one below : Bytes} (absolute : (base ++ [slash]).head? = some slash) (some : first ≠ [])
    (plain : slash ∉ first) (more : one ≠ []) (inside : slash ∉ one) (behind : ¬first ++ [nul] <+: first ++ one)
    (small : (base ++ slash :: first).length < unsignedRange) :
    makePathRelative (base ++ slash :: first ++ (one ++ below)) (base ++ slash :: first) =
      putDotdots 1 (slash :: first ++ (one ++ below)) := by
  obtain ⟨byte, one, rfl⟩ := List.exists_cons_of_ne_nil more
  have byte_slash : byte ≠ slash := fun same => inside (by simp [same])
  have byte_nul : byte ≠ nul := fun same => behind (by simp [same])
  obtain ⟨start, last, rfl⟩ := (List.eq_nil_or_concat first).resolve_left some
  rw [List.concat_eq_append] at plain small ⊢
  have path_shape : base ++ slash :: (start ++ [last]) ++ (byte :: one ++ below) =
      base ++ slash :: start ++ last :: byte :: (one ++ below) := by simp
  have cwd_shape : base ++ slash :: (start ++ [last]) = base ++ slash :: start ++ [last] := by simp
  rw [cwd_shape, List.length_append] at small
  rw [path_shape, cwd_shape, relative_beside absolute plain byte_slash byte_nul small]
  simp

theorem Parted.outside (parted : Parted path cwd shared ahead (first :: rest) ending)
    (behind : rest = [] → ending = [] → ∀ segment, ahead.head? = some segment → ¬first ++ [nul] <+: segment)
    (short : cwd.length < unsignedRange) :
    makePathRelative path cwd = putDotdots (innerSlashes (first ++ lead rest ++ ending) + 1) (lead ahead) := by
  have some := parted.leaves_some
  have cwd_eq := parted.cwd_split
  obtain ⟨path_eq, -, absolute, anchored, plain_path, plain_cwd, differ, ends⟩ := parted
  rw [lead_append] at path_eq
  cases ahead with
  | nil =>
    rw [lead_nil, List.append_nil] at path_eq
    subst path_eq cwd_eq
    rw [relative_above absolute short, if_neg some, lead_nil]
  | cons segment others =>
    have unlike : segment ≠ first := fun same => differ segment others rfl (by simp [same])
    have plain_segment := plain_path segment (by simp)
    have plain_first := plain_cwd first (by simp)
    obtain ⟨segment_eq, first_eq⟩ := split_inCommon segment first
    have apart := differ_inCommon segment first
    generalize segment.take (inCommon segment first) = w at segment_eq first_eq
    generalize segment.drop (inCommon segment first) = one at segment_eq apart
    generalize first.drop (inCommon segment first) = other at first_eq apart
    subst segment_eq first_eq
    rw [List.mem_append, not_or] at plain_segment plain_first
    have longer : one = [] → other ≠ [] := by
      rintro rfl rfl
      exact unlike rfl
    have ending_eq : ending = [slash] ∨ ending = [] := ends.imp_right And.left
    obtain ⟨go, inside⟩ := @differ_segments ending rest one other others plain_first.2 plain_segment.2 apart longer ending_eq
    have path_split : path = lead shared ++ slash :: w ++ (one ++ lead others) := by
      rw [path_eq, lead_cons]
      simp
    have cwd_split : cwd = lead shared ++ slash :: w ++ (other ++ lead rest ++ ending) := by
      rw [cwd_eq]
      simp
    have counted : innerSlashes (w ++ other ++ lead rest ++ ending) = innerSlashes (other ++ lead rest ++ ending) := by
      rw [List.append_assoc, List.append_assoc, innerSlashes_plain plain_first.1, ← List.append_assoc]
    rw [counted]
    by_cases whole : other ++ lead rest ++ ending = []
    next =>
      simp only [List.append_eq_nil_iff] at whole
      obtain ⟨⟨rfl, unled⟩, rfl⟩ := whole
      have final : rest = [] := by
        cases rest with
        | nil => rfl
        | cons => cases unled
      subst final
      rw [List.append_nil, lead_nil, List.append_nil, List.append_nil] at some cwd_split
      have more : one ≠ [] := fun none => longer none rfl
      subst path_split cwd_split
      have unbroken := behind rfl rfl _ rfl
      rw [List.append_nil] at unbroken
      rw [relative_inside (lead_slash shared) some plain_first.1 more plain_segment.2 unbroken short, lead_cons]
      simp [innerSlashes]
    next =>
      subst path_split cwd_split
      rw [relative_apart (lead_slash shared) plain_first.1 whole go inside short, lead_cons]
      simp

end Parted

end BuildboxCommon.FileUtils
