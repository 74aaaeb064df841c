import BuildboxCommon.FileUtils.RelativeSegments

set_option autoImplicit false

namespace BuildboxCommon.FileUtils

open ByteString LexicalPath

def cut : List Bytes → List Bytes
  | [] => []
  | segment :: segments => if NulFree segment then segment :: cut segments else [cString segment]

section Cut

variable {segments first : List Bytes}

theorem cString_lead (segments : List Bytes) : cString (lead segments) = lead (cut segments) := by
  induction segments with
  | nil => rfl
  | cons segment segments ih =>
    have led : cString (lead (segment :: segments)) = slash :: cString (segment ++ lead segments) := rfl
    rw [led, cut]
    split_ifs with free
    next => rw [cString_append_of_nulFree free, ih, lead_cons, List.cons_append]
    next => rw [cString_append_of_nul free, lead_cons, lead_nil, List.append_nil]

theorem cut_append_of_nulFree (free : ∀ segment ∈ first, NulFree segment) (second : List Bytes) :
    cut (first ++ second) = first ++ cut second := by
  induction first with
  | nil => rfl
  | cons segment first ih =>
    rw [List.cons_append, cut, if_pos (free segment (by simp)), ih fun other member => free other (by simp [member]),
      List.cons_append]

theorem cut_append_of_nul (present : ¬∀ segment ∈ first, NulFree segment) (second : List Bytes) :
    cut (first ++ second) = cut first := by
  induction first with
  | nil => exact absurd (by simp) present
  | cons segment first ih =>
    rw [List.cons_append, cut, cut]
    by_cases free : NulFree segment
    next => rw [if_pos free, if_pos free, ih fun rest => present (by simpa [free] using rest)]
    next => rw [if_neg free, if_neg free]

theorem plain_cut (plain : ∀ segment ∈ segments, slash ∉ segment) : ∀ segment ∈ cut segments, slash ∉ segment := by
  induction segments with
  | nil => simp [cut]
  | cons segment segments ih =>
    rw [List.forall_mem_cons] at plain
    rw [cut]
    split_ifs
    next => exact List.forall_mem_cons.mpr ⟨plain.1, ih plain.2⟩
    next =>
      intro other member
      rw [List.mem_singleton.mp member]
      exact fun inside => plain.1 (List.takeWhile_subset _ inside)

theorem steps_lead (plain : ∀ segment ∈ segments, slash ∉ segment) :
    steps (lead segments) = .stay :: segments.map classify := by
  have whole : lead segments = [slash].intercalate ([] :: segments) := by rw [intercalate_lead, List.nil_append]
  have split := List.splitOn_intercalate slash (List.forall_mem_cons.mpr ⟨by simp, plain⟩)
    (List.cons_ne_nil [] segments)
  rw [steps, whole, split]
  simp

end Cut

def place (segments : List Bytes) : List Bytes := walk [] ((cut segments).map classify)

section Place

variable {first second idle : List Bytes}

theorem isGlobal_lead (present : first ≠ []) : isGlobal (cString (lead first)) = true := by
  obtain ⟨segment, segments, rfl⟩ := List.exists_cons_of_ne_nil present
  rfl

theorem displacement_lead (present : first ≠ []) (plain : ∀ segment ∈ first, slash ∉ segment) :
    (normalForm (lead first)).displacement = ⟨0, place first⟩ := by
  have global := isGlobal_lead present
  have free := cString_nulFree (lead first)
  rw [← normalForm_cString, normalForm_displacement free, if_pos global, cString_lead, steps_lead (plain_cut plain)]
  rfl

theorem normalForm_lead_iff (first_present : first ≠ []) (second_present : second ≠ [])
    (first_plain : ∀ segment ∈ first, slash ∉ segment) (second_plain : ∀ segment ∈ second, slash ∉ segment) :
    normalForm (lead first) = normalForm (lead second) ↔ place first = place second := by
  have one := displacement_lead first_present first_plain
  have other := displacement_lead second_present second_plain
  constructor
  next =>
    intro same
    rw [same, other] at one
    exact (congrArg Displacement.names one).symm
  next =>
    intro same
    apply eq_of_displacement
    next => rw [normalForm_absolute, normalForm_absolute, isGlobal_lead first_present, isGlobal_lead second_present]
    next => rw [one, other, same]

theorem place_idle (still : ∀ segment ∈ idle, segment = [] ∨ segment = dot) :
    place (first ++ idle ++ second) = place (first ++ second) := by
  rw [place, place, List.append_assoc]
  by_cases free : ∀ segment ∈ first, NulFree segment
  next =>
    have idle_free : ∀ segment ∈ idle, NulFree segment := by
      intro segment member
      rcases still segment member with rfl | rfl <;> decide
    have stays (directory : List Bytes) : walk directory (idle.map classify) = directory := by
      induction idle with
      | nil => rfl
      | cons segment idle ih =>
        rw [List.forall_mem_cons] at still idle_free
        have here : classify segment = .stay := by
          rcases still.1 with rfl | rfl <;> decide
        rw [List.map_cons, walk_cons, here]
        exact ih still.2 idle_free.2
    rw [cut_append_of_nulFree free, cut_append_of_nulFree free, cut_append_of_nulFree idle_free, List.map_append,
      List.map_append, List.map_append, walk_append, walk_append, walk_append, stays]
  next => rw [cut_append_of_nul free, cut_append_of_nul free]

theorem normalForm_trailing {path : Bytes} (absolute : path.head? = some slash) :
    normalForm (path ++ [slash]) = normalForm path := by
  have present : pathSegments path ≠ [] := List.splitOn_ne_nil _ _
  have plain := plain_pathSegments path
  have still : place (pathSegments path ++ [[]] ++ []) = place (pathSegments path ++ []) := place_idle (by simp)
  rw [List.append_nil, List.append_nil] at still
  have slashed : path ++ [slash] = lead (pathSegments path ++ [[]]) := by
    rw [lead_append, lead_pathSegments absolute]
    rfl
  rw [slashed]
  nth_rewrite 2 [← lead_pathSegments absolute]
  rw [normalForm_lead_iff (by simp) present (by simpa [or_imp, forall_and] using plain) plain, still]

theorem makePathAbsolute_normal {path cwd : Bytes} (anchored : cwd.head? = some slash)
    (relative : path.head? ≠ some slash) :
    ∃ absolute, makePathAbsolute path cwd = .ok absolute ∧ normalForm absolute = normalForm (cwd ++ slash :: path) := by
  have proper : ¬(cwd = [] ∨ cwd.head? ≠ some slash) := by
    rintro (rfl | other)
    next => simp at anchored
    next => exact other anchored
  have head : (cwd ++ slash :: path).head? = some slash := by
    cases cwd with
    | nil => cases anchored
    | cons => exact anchored
  have global : (normalForm (cwd ++ slash :: path)).render.head? = some slash := by
    apply eq_of_beq
    have same := NormalPath.isGlobal_render (normalForm (cwd ++ slash :: path))
    rw [normalForm_absolute, isGlobal_cString] at same
    exact same.trans (beq_iff_eq.mpr head)
  rw [makePathAbsolute, if_neg proper, if_pos relative]
  simp only
  split_ifs
  next => exact ⟨_, rfl, by rw [normalizePath_eq_render, normalForm_trailing global, normalForm_render]⟩
  next => exact ⟨_, rfl, normalForm_normalizePath _⟩

end Place

def SamePlace (path cwd : Bytes) : Prop := ∃ relative absolute, makePathRelative path cwd = .ok relative ∧
  relative.head? ≠ some slash ∧ makePathAbsolute relative cwd = .ok absolute ∧
    normalizePath absolute = normalizePath path

theorem normalizePath_inj {first second : Bytes} :
    normalizePath first = normalizePath second ↔ normalForm first = normalForm second := by
  rw [normalizePath_eq_render, normalizePath_eq_render, render_injective.eq_iff]

theorem samePlace_iff {path cwd relative : Bytes} (anchored : cwd.head? = some slash)
    (made : makePathRelative path cwd = .ok relative) : SamePlace path cwd ↔
      relative.head? ≠ some slash ∧ normalForm (cwd ++ slash :: relative) = normalForm path := by
  constructor
  next =>
    rintro ⟨other, absolute, made', rel, joined, same⟩
    cases made.symm.trans made'
    obtain ⟨absolute', joined', normal⟩ := makePathAbsolute_normal anchored rel
    cases joined.symm.trans joined'
    exact ⟨rel, normal.symm.trans (normalizePath_inj.mp same)⟩
  next =>
    rintro ⟨rel, same⟩
    obtain ⟨absolute, joined, normal⟩ := makePathAbsolute_normal anchored rel
    exact ⟨relative, absolute, made, rel, joined, normalizePath_inj.mpr (normal.trans same)⟩

theorem samePlace_fails {path cwd : Bytes} {thrown : Exn} (failed : makePathRelative path cwd = .error thrown) :
    ¬SamePlace path cwd := by
  rintro ⟨relative, absolute, made, -⟩
  cases failed.symm.trans made

section Meets

variable {path cwd ending first : Bytes} {shared ahead left rest : List Bytes}

def Proper (ending : Bytes) (ahead : List Bytes) : Prop :=
  ahead.head? ≠ some [] ∨ ahead = [[]] ∨ ending = [slash] ∧ ahead = [[], []]

theorem Parted.present (parted : Parted path cwd shared ahead left ending) : shared ++ ahead ≠ [] := by
  intro none
  have absolute := parted.absolute
  rw [parted.path_eq, none] at absolute
  cases absolute

theorem Parted.ending_lead (parted : Parted path cwd shared ahead left ending) :
    ∃ empty, (∀ segment ∈ empty, segment = []) ∧ ending = lead empty := by
  rcases parted.ends with rfl | ⟨rfl, -⟩
  next => exact ⟨[[]], by simp, rfl⟩
  next => exact ⟨[], by simp, rfl⟩

theorem normalForm_between {idle other : List Bytes} (present : shared ++ other ++ ahead ≠ [])
    (some : shared ++ idle ++ ahead ≠ [])
    (plain : ∀ segment ∈ shared ++ ahead, slash ∉ segment) (still : ∀ segment ∈ idle, segment = [] ∨ segment = dot)
    (still_other : ∀ segment ∈ other, segment = [] ∨ segment = dot) :
    normalForm (lead (shared ++ idle ++ ahead)) = normalForm (lead (shared ++ other ++ ahead)) := by
  have bare {segments : List Bytes} (still : ∀ segment ∈ segments, segment = [] ∨ segment = dot) :
      ∀ segment ∈ shared ++ segments ++ ahead, slash ∉ segment := by
    intro segment member
    simp only [List.mem_append] at member plain
    rcases member with (member | member) | member
    next => exact plain segment (.inl member)
    next => rcases still segment member with rfl | rfl <;> decide
    next => exact plain segment (.inr member)
  rw [normalForm_lead_iff some present (bare still) (bare still_other), place_idle still, place_idle still_other]

theorem Parted.samePlace_inside (parted : Parted path cwd shared ahead [] ending) (short : cwd.length < unsignedRange)
    (enterable : Enterable cwd ending ahead) : SamePlace path cwd ↔ Proper ending ahead := by
  have present := parted.present
  obtain ⟨empty, still, led⟩ := parted.ending_lead
  rw [samePlace_iff parted.anchored (parted.inside short enterable)]
  obtain ⟨path_eq, cwd_eq, -, -, plain, -, -, -⟩ := parted
  rw [List.append_nil, led] at cwd_eq
  have still_dot (more : List Bytes) (idle : ∀ segment ∈ more, segment = [] ∨ segment = dot) :
      ∀ segment ∈ empty ++ dot :: more, segment = [] ∨ segment = dot := by
    intro segment member
    rcases List.mem_append.mp member with member | member
    next => exact .inl (still segment member)
    next =>
      rcases List.mem_cons.mp member with same | member
      next => exact .inr same
      next => exact idle segment member
  have here (more : List Bytes) (idle : ∀ segment ∈ more, segment = [] ∨ segment = dot)
      (rest : ∀ segment ∈ ahead, segment = [] ∨ segment = dot) :
      normalForm (cwd ++ slash :: dot ++ lead more) = normalForm path := by
    have joined : cwd ++ slash :: dot ++ lead more = lead (shared ++ (empty ++ dot :: more) ++ []) := by
      rw [cwd_eq]
      simp [lead_append, lead_cons]
    rw [joined, path_eq, ← List.append_nil (shared ++ ahead)]
    exact normalForm_between (by simpa using present) (by simp)
      (fun segment member => plain segment (by simp at member; simp [member]))
      (still_dot more idle) rest
  rw [entered]
  split_ifs with none idle
  next =>
    have back := here [] (by simp) (by simp [none])
    rw [lead_nil, List.append_nil] at back
    exact iff_of_true ⟨by decide, back⟩ (.inl (by simp [none]))
  next =>
    have back := here [[]] (by simp) (by rcases idle with rfl | ⟨-, rfl⟩ <;> simp)
    rw [List.append_assoc] at back
    exact iff_of_true ⟨by decide, back⟩ (.inr idle)
  next =>
    have joined : cwd ++ slash :: [slash].intercalate ahead = lead (shared ++ empty ++ ahead) := by
      rw [cwd_eq, ← lead_intercalate none, lead_append, lead_append]
    have between : normalForm (lead (shared ++ empty ++ ahead)) = normalForm (lead (shared ++ [] ++ ahead)) :=
      normalForm_between (by simpa using present) (by simp [none]) plain
        (fun segment member => .inl (still segment member)) (by simp)
    have same : normalForm (cwd ++ slash :: [slash].intercalate ahead) = normalForm path := by
      rw [joined, path_eq, between, List.append_nil]
    rw [and_iff_left same, Proper, or_iff_left idle]
    obtain ⟨segment, others, rfl⟩ := List.exists_cons_of_ne_nil none
    rw [intercalate_lead, List.head?_cons]
    cases segment with
    | nil =>
      cases others with
      | nil => exact absurd (.inl rfl) idle
      | cons => exact iff_of_false (by simp [lead_cons]) (by simp)
    | cons byte bytes =>
      have unlike : byte ≠ slash := fun led => plain (byte :: bytes) (by simp) (by simp [led])
      exact iff_of_true (by simpa using unlike) (by simp)

-- What is left of the directory only goes down, or the rest of the path leads to the root or above it anyway.
def Undone (shared ahead left : List Bytes) : Prop := (∀ segment ∈ left, IsName segment) ∨
  (walk [] (shared.map classify)).length ≤ (displacement ((cut ahead).map classify)).ups

theorem isName_iff {segment : Bytes} (plain : slash ∉ segment) (free : NulFree segment) :
    IsName segment ↔ ∃ name, classify segment = .down name := by
  constructor
  next => exact fun proper => ⟨segment, proper.classify⟩
  next =>
    rintro ⟨name, down⟩
    obtain ⟨rfl, nonempty, ne_dot, ne_dotdot⟩ := classify_eq_down down
    exact ⟨nonempty, ne_dot, ne_dotdot, plain, free⟩

theorem place_undone (plain : ∀ segment ∈ left, slash ∉ segment) (shared_free : ∀ segment ∈ shared, NulFree segment)
    (left_free : ∀ segment ∈ left, NulFree segment) :
    place (shared ++ left ++ (List.replicate left.length dotdot ++ ahead)) = place (shared ++ ahead) ↔
      Undone shared ahead left := by
  have ups_free : ∀ segment ∈ List.replicate left.length dotdot, NulFree segment := by
    intro segment member
    rw [List.eq_of_mem_replicate member]
    decide
  have steps : (∀ step ∈ left.map classify, ∃ name, step = .down name) ↔ ∀ segment ∈ left, IsName segment := by
    rw [List.forall_mem_map]
    exact forall₂_congr fun segment member => (isName_iff (plain segment member) (left_free segment member)).symm
  have returned := walk_return_iff (walk [] (shared.map classify)) (left.map classify) ((cut ahead).map classify)
  rw [steps, List.length_map] at returned
  rw [place, place, List.append_assoc, cut_append_of_nulFree shared_free, cut_append_of_nulFree left_free,
    cut_append_of_nulFree ups_free, cut_append_of_nulFree shared_free, Undone, ← returned]
  simp [walk_append]

theorem Parted.samePlace_outside (parted : Parted path cwd shared ahead (first :: rest) ending)
    (behind : rest = [] → ending = [] → ∀ segment, ahead.head? = some segment → ¬first ++ [nul] <+: segment)
    (short : cwd.length < unsignedRange) (few : innerSlashes (first ++ lead rest ++ ending) + 1 ≤ 1431655765) :
    SamePlace path cwd ↔ if NulFree cwd then Undone shared ahead (first :: rest) else
      normalizePath cwd = normalizePath path := by
  have small : innerSlashes (first ++ lead rest ++ ending) * 3 + 2 < unsignedRange := by
    rw [unsignedRange]
    omega
  have made := parted.outside behind short
  rw [putDotdots_eq (lead ahead) small] at made
  have relative (count : Nat) : (dotdots (count + 1) ++ lead ahead).head? ≠ some slash := by
    rw [← dotdots_lead, List.replicate_succ, List.cons_append, intercalate_lead]
    simp [dotdot, text, slash]
  rw [samePlace_iff parted.anchored made, and_iff_right (relative _)]
  split_ifs with free
  next =>
    have present := parted.present
    obtain ⟨empty, still, led⟩ := parted.ending_lead
    obtain ⟨path_eq, cwd_eq, -, -, plain_path, plain_cwd, -, ends⟩ := parted
    rw [cwd_eq, nulFree_append, nulFree_lead_iff, List.forall_mem_append] at free
    obtain ⟨⟨shared_free, left_free⟩, ending_free⟩ := free
    rw [List.forall_mem_append] at plain_cwd
    have rest_free : NulFree (lead rest ++ ending) :=
      nulFree_append.mpr ⟨nulFree_lead_iff.mpr fun segment member => left_free segment (by simp [member]), ending_free⟩
    have counted := innerSlashes_lead plain_cwd.2 rest_free (ends.imp_right fun bare => ⟨bare.1, by simpa using bare.2⟩)
    have joined : cwd ++ slash :: (dotdots (rest.length + 1) ++ lead ahead) =
        lead (shared ++ first :: rest ++ empty ++ (List.replicate (first :: rest).length dotdot ++ ahead)) := by
      rw [← dotdots_lead, ← lead_intercalate (by simp [List.replicate_succ]), cwd_eq, led, ← lead_append, ← lead_append]
      rfl
    have plain_ups : ∀ segment ∈ List.replicate (first :: rest).length dotdot ++ ahead, slash ∉ segment := by
      intro segment member
      rcases List.mem_append.mp member with up | member
      next =>
        rw [List.eq_of_mem_replicate up]
        decide
      next => exact plain_path segment (by simp [member])
    have plain : ∀ segment ∈ shared ++ first :: rest ++ empty ++
      (List.replicate (first :: rest).length dotdot ++ ahead),
        slash ∉ segment := by
      simp only [List.forall_mem_append]
      refine ⟨⟨plain_cwd, fun segment member => ?_⟩, List.forall_mem_append.mp plain_ups⟩
      simp [still segment member]
    rw [counted, joined, path_eq, normalForm_lead_iff (by simp) present plain plain_path,
      place_idle fun segment member => .inl (still segment member), place_undone plain_cwd.2 shared_free left_free]
  next => rw [normalizePath_inj, ← normalForm_cString (cwd ++ _), cString_append_of_nul free, normalForm_cString]

def Distinct (path cwd : Bytes) : Prop := cwd.getLast? = some slash ∨ ¬cwd ++ [nul] <+: path

theorem samePlace_distinct (absolute : cwd.head? = some slash) (short : cwd.length + 1 < unsignedRange)
    (same : SamePlace path cwd) : Distinct path cwd := by
  by_contra confused
  obtain ⟨open_end, p, rfl⟩ : cwd.getLast? ≠ some slash ∧ cwd ++ [nul] <+: path := by simpa [Distinct] using confused
  rcases List.eq_nil_or_concat cwd with rfl | ⟨start, ends, rfl⟩
  next => cases absolute
  next =>
    rw [List.concat_eq_append] at absolute open_end short same
    rw [List.length_append, List.length_singleton] at short
    have failed := @relative_nul p start ends absolute (by simpa using open_end) short
    have shape : start ++ [ends] ++ [nul] ++ p = start ++ ends :: nul :: p := by simp
    rw [shape] at same
    exact samePlace_fails failed same

theorem Parted.behind (parted : Parted path cwd shared ahead (first :: rest) ending) (distinct : Distinct path cwd) :
    rest = [] → ending = [] → ∀ segment, ahead.head? = some segment → ¬first ++ [nul] <+: segment := by
  rintro rfl rfl segment head ⟨more, rfl⟩
  have some : first ≠ [] := by simpa using parted.leaves_some
  have plain := parted.plain_cwd first (by simp)
  obtain ⟨path_eq, cwd_eq, -, -, -, -, -, -⟩ := parted
  obtain ⟨others, rfl⟩ : ∃ others, ahead = (first ++ [nul] ++ more) :: others := by
    cases ahead with
    | nil => cases head
    | cons one others => exact ⟨others, by simpa using head⟩
  rw [List.append_nil] at cwd_eq
  rcases distinct with slashed | other
  next =>
    rw [cwd_eq, getLast?_lead plain] at slashed
    exact some slashed
  next =>
    apply other
    rw [path_eq, cwd_eq]
    exact ⟨more ++ lead others, by simp [lead_append, lead_cons]⟩

theorem few_dots {result : Bytes} (moderate : cwd.length ≤ 1431655765 ∨ path.length + 3 * cwd.length ≤ 8589934590)
    (parted : Parted path cwd shared ahead (first :: rest) ending)
    (put : putDotdots (innerSlashes (first ++ lead rest ++ ending) + 1) (lead ahead) = .ok result) :
    innerSlashes (first ++ lead rest ++ ending) + 1 ≤ 1431655765 := by
  have bound := innerSlashes_le (first ++ lead rest ++ ending)
  have positive := List.length_pos_iff.mpr parted.leaves_some
  have cwd_size := congrArg List.length parted.cwd_split
  have path_size := congrArg List.length parted.path_eq
  rw [lead_append, List.length_append] at path_size
  rw [List.length_append, List.length_cons] at cwd_size
  generalize innerSlashes (first ++ lead rest ++ ending) = count at *
  by_contra many
  obtain ⟨size, within⟩ := putDotdots_within put
  -- The slash for which the index is the largest.
  have last := within 1431655764 (by omega)
  rw [size] at last
  simp only [unsigned, unsignedRange] at last
  omega

def Reaches (path cwd : Bytes) : Prop :=
  cwd.length < 4294967296 ∧ Distinct path cwd ∧
    if leftSegments path cwd = [] then
      Enterable cwd (trailingSlash cwd) (aheadSegments path cwd) ∧ Proper (trailingSlash cwd) (aheadSegments path cwd)
    else innerSlashes ([slash].intercalate (leftSegments path cwd) ++ trailingSlash cwd) + 1 ≤ 1431655765 ∧
      if NulFree cwd then Undone (sharedSegments path cwd) (aheadSegments path cwd) (leftSegments path cwd)
      else normalizePath cwd = normalizePath path

theorem makePathRelative_samePlace (absolute : path.head? = some slash) (anchored : cwd.head? = some slash) :
    (Reaches path cwd → SamePlace path cwd) ∧
      (cwd.length ≤ 1431655765 ∨ path.length + 3 * cwd.length ≤ 8589934590 → SamePlace path cwd →
        Reaches path cwd) := by
  have parts := parted absolute anchored
  rw [Reaches]
  cases shape : leftSegments path cwd with
  | nil =>
    rw [shape] at parts
    rw [if_pos rfl]
    constructor
    next =>
      rintro ⟨short, -, enterable, proper⟩
      exact (parts.samePlace_inside short enterable).mpr proper
    next =>
      intro moderate same
      have short : cwd.length + 1 < 4294967296 := by omega
      have small := Nat.lt_of_succ_lt short
      exact ⟨small, samePlace_distinct anchored short same, .inl short,
        (parts.samePlace_inside small (.inl short)).mp same⟩
  | cons first rest =>
    rw [shape] at parts
    rw [if_neg (List.cons_ne_nil first rest), intercalate_lead]
    constructor
    next =>
      rintro ⟨short, distinct, few, climbs⟩
      exact (parts.samePlace_outside (parts.behind distinct) short few).mpr climbs
    next =>
      intro moderate same
      have short : cwd.length + 1 < 4294967296 := by omega
      have distinct := samePlace_distinct anchored short same
      have small := Nat.lt_of_succ_lt short
      have made := parts.outside (parts.behind distinct) small
      obtain ⟨relative, -, returned, -⟩ := id same
      have few := few_dots moderate parts (made.symm.trans returned)
      exact ⟨small, distinct, few, (parts.samePlace_outside (parts.behind distinct) small few).mp same⟩

theorem makePathRelative_samePlace_sibling : SamePlace (text "/a//c/../b") (text "/a//d/e/") := by
  apply (makePathRelative_samePlace rfl rfl).1
  refine ⟨by decide, .inl rfl, ?_⟩
  rw [if_neg (by decide), if_pos (by decide)]
  refine ⟨by decide, .inl ?_⟩
  have left : leftSegments (text "/a//c/../b") (text "/a//d/e/") = [text "d", text "e"] := by decide
  rw [left]
  intro segment member
  rcases List.mem_cons.mp member with rfl | member
  next => decide
  next =>
    rw [List.mem_singleton.mp member]
    decide

theorem makePathRelative_elsewhere :
    makePathRelative (text "/a//b") (text "/a") = .ok (text "/b") ∧
      makePathAbsolute (text "/b") (text "/a") = .ok (text "/b") ∧
      normalizePath (text "/a//b") = text "/a/b" ∧ normalizePath (text "/b") = text "/b" ∧
      makePathRelative (text "/a/b") (text "/a/..") = .ok (text "../b") ∧
      makePathAbsolute (text "../b") (text "/a/..") = .ok (text "/b") ∧ normalizePath (text "/a/b") = text "/a/b" := by
  decide

end Meets

end BuildboxCommon.FileUtils
