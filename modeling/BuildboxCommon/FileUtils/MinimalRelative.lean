import BuildboxCommon.FileUtils.RelativeSegments

set_option autoImplicit false

namespace BuildboxCommon.FileUtils

open ByteString LexicalPath

def minimalRelative (path cwd : List Bytes) : Bytes :=
  let segments := List.replicate (cwd.length - inCommon path cwd) dotdot ++ path.drop (inCommon path cwd)
  if segments = [] then dot else [slash].intercalate segments

def slashed (n : NormalPath) (trailing : Bool) : Bytes := n.render ++ if trailing then [slash] else []

section Dotdots

theorem dotdots_length (count : Nat) : (dotdots (count + 1)).length = count * 3 + 2 := by
  induction count with
  | zero => rfl
  | succ count ih =>
    have more : dotdots (count + 2) = dotdot ++ slash :: dotdots (count + 1) := by
      simp [dotdots, List.replicate_succ, List.intercalate_cons_cons]
    have two : dotdot.length = 2 := rfl
    rw [more, List.length_append, List.length_cons, ih, two]
    omega

theorem putDotdots_iff (count : Nat) (rest : Bytes) :
    putDotdots (count + 1) rest = .ok (dotdots (count + 1) ++ rest) ↔ count + 1 ≤ 1431655765 := by
  constructor
  next =>
    intro put
    obtain ⟨size, -⟩ := putDotdots_within put
    have small : unsigned ((count + 1) * 3 - 1) < unsignedRange := Nat.mod_lt _ (by decide)
    rw [List.length_append, dotdots_length] at size
    rw [unsignedRange] at small
    omega
  next =>
    intro few
    apply putDotdots_eq
    rw [unsignedRange]
    omega

end Dotdots

section Spelling

variable {n : NormalPath} {trailing : Bool}

def emptySegments (names : List Bytes) (trailing : Bool) : List Bytes :=
  (if names = [] then [[]] else []) ++ if trailing then [[]] else []

theorem slashed_lead (absolute : n.absolute = true) :
    slashed n trailing = lead (n.names ++ emptySegments n.names trailing) := by
  rw [slashed, render_absolute absolute, emptySegments]
  by_cases root : n.names = []
  next => cases trailing <;> simp [root, lead]
  next => cases trailing <;> simp [root, lead]

theorem eq_nil_of_emptySegments {names : List Bytes} {segment : Bytes}
    (member : segment ∈ emptySegments names trailing) :
    segment = [] := by
  rw [emptySegments] at member
  cases trailing <;> by_cases root : names = [] <;> simp_all

theorem plain_slashed (n : NormalPath) : ∀ segment ∈ n.names ++ emptySegments n.names trailing, slash ∉ segment := by
  intro segment member
  rcases List.mem_append.mp member with name | empty
  next => exact plain_names n segment name
  next => simp [eq_nil_of_emptySegments empty]

theorem slashed_double (absolute : n.absolute = true) :
    slashed n trailing = text "//" ↔ n.names = [] ∧ trailing = true := by
  rw [slashed_lead absolute]
  constructor
  next =>
    intro double
    have segments := congrArg pathSegments double
    have some : n.names ++ emptySegments n.names trailing ≠ [] := by
      by_cases root : n.names = [] <;> simp [emptySegments, root]
    have two : pathSegments (text "//") = [[], []] := by decide
    rw [pathSegments_lead some (plain_slashed n), two] at segments
    have root : n.names = [] := by
      cases names : n.names with
      | nil => rfl
      | cons name others =>
        rw [names] at segments
        have proper := (n.proper name (names ▸ List.mem_cons_self)).nonempty
        exact absurd (List.cons.inj segments).1 proper
    cases trailing with
    | false => simp [root, emptySegments] at segments
    | true => exact ⟨root, rfl⟩
  next =>
    rintro ⟨root, rfl⟩
    simp [root, emptySegments, lead]
    rfl

theorem trailingSlash_slashed (absolute : n.absolute = true) :
    trailingSlash (slashed n trailing) = if emptySegments n.names trailing = [] then [] else [slash] := by
  rw [trailingSlash, slashed_lead absolute]
  rcases List.eq_nil_or_concat (emptySegments n.names trailing) with none | ⟨front, segment, shape⟩
  next =>
    have some : n.names ≠ [] := fun root => by simp [emptySegments, root] at none
    obtain ⟨start, ends, shape, unlike⟩ := lead_last (by simpa using lead_head some []) (plain_names n)
      fun empty => (n.proper [] (List.mem_of_getLast? empty)).nonempty rfl
    rw [none, List.append_nil, if_pos rfl, shape, List.getLast?_concat, if_neg (by simpa using unlike)]
  next =>
    have member : segment ∈ emptySegments n.names trailing := by simp [shape]
    have empty := eq_nil_of_emptySegments member
    have ends : (lead (n.names ++ emptySegments n.names trailing)).getLast? = some slash := by
      rw [shape, empty]
      simp [lead]
    rw [if_pos ends, shape, if_neg (by simp)]

theorem slashed_head (absolute : n.absolute = true) : (slashed n trailing).head? = some slash := by
  have some : n.names ++ emptySegments n.names trailing ≠ [] := by
    by_cases root : n.names = [] <;> simp [emptySegments, root]
  rw [slashed_lead absolute]
  simpa using lead_head some []

theorem slashed_parted {m : NormalPath} {marked : Bool} (absolute : n.absolute = true) (anchored : m.absolute = true)
    (single : m.names = [] → marked = false) : Parted (slashed n trailing) (slashed m marked)
      (n.names.take (inCommon n.names m.names))
      (n.names.drop (inCommon n.names m.names) ++ emptySegments n.names trailing)
      (m.names.drop (inCommon n.names m.names)) (if m.names = [] ∨ marked = true then [slash] else []) := by
  obtain ⟨path_names, cwd_names⟩ := split_inCommon n.names m.names
  have differ := differ_inCommon n.names m.names
  constructor
  case path_eq => rw [← List.append_assoc, ← path_names, slashed_lead absolute]
  case cwd_eq =>
    rw [← cwd_names, slashed, render_absolute anchored]
    by_cases root : m.names = []
    next => simp [root, single root]
    next => simp [root]
  case absolute => exact slashed_head absolute
  case anchored => exact slashed_head anchored
  case plain_path =>
    rw [← List.append_assoc, ← path_names]
    exact plain_slashed n
  case plain_cwd =>
    rw [← cwd_names]
    exact plain_names m
  case differ =>
    intro segment rest shape head
    cases drop : n.names.drop (inCommon n.names m.names) with
    | nil =>
      rw [drop, List.nil_append] at shape
      have empty : segment = [] := eq_nil_of_emptySegments (shape ▸ List.mem_cons_self)
      have name := List.mem_of_mem_drop (List.mem_of_head? head)
      exact (m.proper segment name).nonempty empty
    | cons name names =>
      rw [drop, List.cons_append] at shape
      cases shape
      exact differ _ _ drop head
  case ends =>
    rw [← cwd_names]
    by_cases slashes : m.names = [] ∨ marked = true
    next => exact .inl (if_pos slashes)
    next => exact .inr ⟨if_neg slashes, fun empty => (m.proper [] (List.mem_of_getLast? empty)).nonempty rfl⟩

end Spelling

section Minimal

variable {n m : NormalPath} {trailing marked : Bool}

theorem lead_emptySegments (once : n.names = [] → trailing = false) :
    lead (emptySegments n.names trailing) = if emptySegments n.names trailing = [] then [] else [slash] := by
  by_cases root : n.names = []
  next => simp [emptySegments, root, once root, lead]
  next => cases trailing <;> simp [emptySegments, root, lead]

theorem minimal_inside (absolute : n.absolute = true) (anchored : m.absolute = true)
    (single : m.names = [] → marked = false)
    (short : (slashed n trailing).length < unsignedRange) (cwd_short : (slashed m marked).length < unsignedRange)
    (inside : m.names.drop (inCommon n.names m.names) = []) : makePathRelative (slashed n trailing) (slashed m marked) =
      .ok (minimalRelative n.names m.names ++ trailingSlash (slashed n trailing)) := by
  have parted := @slashed_parted n trailing m marked absolute anchored single
  rw [inside] at parted
  rw [parted.inside cwd_short (parted.enterable short), trailingSlash_slashed absolute, minimalRelative]
  have none : m.names.length - inCommon n.names m.names = 0 := by rw [← List.length_drop, inside, List.length_nil]
  simp only [none, List.replicate_zero, List.nil_append]
  cases below : n.names.drop (inCommon n.names m.names) with
  | nil =>
    by_cases root : n.names = []
    next =>
      have bare : m.names = [] := by simpa [root, inCommon] using inside
      cases trailing <;> simp [entered, emptySegments, root, bare] <;> rfl
    next =>
      cases trailing with
      | false => simp [entered, emptySegments, root]
      | true =>
        simp [entered, emptySegments, root]
        rfl
  | cons name names =>
    have proper := (n.proper name (List.mem_of_mem_drop (below ▸ List.mem_cons_self))).nonempty
    have named : n.names ≠ [] := by
      intro root
      simp [root] at below
    have spelled := @lead_emptySegments n trailing fun root => absurd root named
    rw [entered, if_neg (by simp), if_neg (by simp [proper]), if_neg (by simp), List.cons_append, intercalate_lead,
      intercalate_lead, lead_append, spelled, List.append_assoc]

theorem names_nulFree (n : NormalPath) : ∀ name ∈ n.names, NulFree name :=
  fun name member => (n.proper name member).nulFree

theorem outside_putDotdots (absolute : n.absolute = true) (anchored : m.absolute = true)
    (single : m.names = [] → marked = false) (cwd_short : (slashed m marked).length < unsignedRange)
    (outside : m.names.drop (inCommon n.names m.names) ≠ []) :
    makePathRelative (slashed n trailing) (slashed m marked) =
      putDotdots (m.names.length - inCommon n.names m.names)
        (lead (n.names.drop (inCommon n.names m.names) ++ emptySegments n.names trailing)) := by
  obtain ⟨first, rest, shape⟩ := List.exists_cons_of_ne_nil outside
  have parted := @slashed_parted n trailing m marked absolute anchored single
  have count : m.names.length - inCommon n.names m.names = rest.length + 1 := by
    rw [← List.length_drop, shape, List.length_cons]
  have left_names : ∀ name ∈ first :: rest, name ∈ m.names := by
    rw [← shape]
    exact fun name member => List.mem_of_mem_drop member
  rw [shape] at parted
  have behind : ∀ segment,
    (n.names.drop (inCommon n.names m.names) ++ emptySegments n.names trailing).head? = some segment →
      ¬first ++ [nul] <+: segment := by
    rintro segment head ⟨after, rfl⟩
    rcases List.mem_append.mp (List.mem_of_head? head) with name | empty
    next => exact names_nulFree n _ (List.mem_of_mem_drop name) (by simp)
    next => simpa using eq_nil_of_emptySegments empty
  have free : NulFree (lead rest ++ if m.names = [] ∨ marked = true then [slash] else []) := by
    rw [nulFree_append]
    constructor
    next => exact nulFree_lead_iff.mpr fun name member =>
      names_nulFree m name (left_names name (List.mem_cons_of_mem _ member))
    next => split_ifs <;> decide
  have ends : (if m.names = [] ∨ marked = true then [slash] else []) = [slash] ∨
      (if m.names = [] ∨ marked = true then [slash] else []) = [] ∧ (first :: rest).getLast? ≠ some [] :=
    parted.ends.imp_right fun ending => ⟨ending.1, by simpa using ending.2⟩
  have counted := innerSlashes_lead (fun name member => plain_names m name (left_names name member)) free ends
  rw [parted.outside (fun _ _ => behind) cwd_short, counted, count]

theorem minimal_outside (absolute : n.absolute = true) (anchored : m.absolute = true)
    (single : m.names = [] → marked = false) (cwd_short : (slashed m marked).length < unsignedRange)
    (outside : m.names.drop (inCommon n.names m.names) ≠ []) :
    makePathRelative (slashed n trailing) (slashed m marked) =
        .ok (minimalRelative n.names m.names ++ trailingSlash (slashed n trailing)) ↔
      m.names.length - inCommon n.names m.names ≤ 1431655765 ∧ (n.names = [] → trailing = false) := by
  obtain ⟨count, shape⟩ : ∃ count, m.names.length - inCommon n.names m.names = count + 1 := by
    apply Nat.exists_eq_succ_of_ne_zero
    rw [← List.length_drop]
    exact fun none => outside (List.length_eq_zero_iff.mp none)
  rw [outside_putDotdots absolute anchored single cwd_short outside, trailingSlash_slashed absolute,
    minimalRelative]
  simp only [shape]
  rw [dotdots_lead, if_neg (by simp [List.replicate_succ]), lead_append]
  by_cases once : n.names = [] → trailing = false
  next =>
    rw [lead_emptySegments once, List.append_assoc, putDotdots_iff]
    exact (and_iff_left once).symm
  next =>
    obtain ⟨root, doubled⟩ := Classical.not_imp.mp once
    have slashes : lead (emptySegments n.names trailing) = [slash, slash] := by
      simp [emptySegments, root, doubled, lead]
    have some : emptySegments n.names trailing ≠ [] := by simp [emptySegments, root]
    rw [slashes, if_neg some]
    constructor
    next =>
      intro put
      obtain ⟨size, -⟩ := putDotdots_within put
      simp only [List.length_append, dotdots_length, List.length_cons, List.length_nil, unsigned, unsignedRange] at size
      omega
    next => exact fun both => absurd both.2 once

theorem slashed_root (anchored : m.absolute = true) (root : m.names = []) : slashed m true = [slash, slash] := by
  rw [slashed, render_absolute anchored, if_pos root]
  rfl

theorem minimal_marked (absolute : n.absolute = true) (anchored : m.absolute = true) (root : m.names = [])
    (short : (slashed n trailing).length < unsignedRange) : makePathRelative (slashed n trailing) (slashed m true) =
      .ok (minimalRelative n.names m.names ++ trailingSlash (slashed n trailing)) ↔ n.names = [] ∧ trailing = true := by
  rw [slashed_root anchored root, root]
  by_cases above : n.names = []
  next =>
    rw [slashed, render_absolute absolute, if_pos above, above]
    cases trailing with
    | false => exact iff_of_false (by decide) (by simp)
    | true => exact iff_of_true (by decide) ⟨rfl, rfl⟩
  next =>
    have parted : Parted (slashed n trailing) [slash, slash] []
      (n.names ++ emptySegments n.names trailing) [[]] [slash] := by
      constructor
      case path_eq => rw [slashed_lead absolute, List.nil_append]
      case cwd_eq => rfl
      case absolute => exact slashed_head absolute
      case anchored => rfl
      case plain_path => exact plain_slashed n
      case plain_cwd => simp
      case differ =>
        obtain ⟨name, names, shape⟩ := List.exists_cons_of_ne_nil above
        rintro segment rest same
        rw [shape, List.cons_append] at same
        cases same
        simpa using (n.proper _ (shape ▸ List.mem_cons_self)).nonempty.symm
      case ends => exact .inl rfl
    have none : inCommon n.names [] = 0 := by cases n.names <;> rfl
    have minimal : minimalRelative n.names [] = [slash].intercalate n.names := by simp [minimalRelative, none, above]
    have counted : innerSlashes ([] ++ lead [] ++ [slash]) = 0 := by decide
    rw [parted.outside (by simp) (by decide), counted,
      putDotdots_eq _ (by decide), minimal, trailingSlash_slashed absolute, lead_append,
      lead_emptySegments fun root => absurd root above, lead_intercalate above]
    apply iff_of_false
    next =>
      intro same
      have size := congrArg List.length (Except.ok.inj same)
      simp only [List.length_append, dotdots_length, List.length_cons] at size
      omega
    next => exact fun both => above both.1

theorem makePathRelative_minimal_iff (absolute : n.absolute = true) (anchored : m.absolute = true)
    (short : (slashed n trailing).length < 4294967296) (cwd_short : (slashed m marked).length < 4294967296) :
    makePathRelative (slashed n trailing) (slashed m marked) =
      .ok (minimalRelative n.names m.names ++ trailingSlash (slashed n trailing)) ↔
        m.names.length - inCommon n.names m.names ≤ 1431655765 ∧
          (slashed n trailing = text "//" → m.names = []) ∧
          (slashed m marked = text "//" → slashed n trailing = text "//") := by
  rw [slashed_double absolute, slashed_double anchored]
  by_cases root : m.names = [] ∧ marked = true
  next =>
    rw [root.2, minimal_marked absolute anchored root.1 short]
    simp [root.1]
  next =>
    have single : m.names = [] → marked = false := fun bare => by simpa [bare] using root
    by_cases inside : m.names.drop (inCommon n.names m.names) = []
    next =>
      have none : m.names.length - inCommon n.names m.names = 0 := by rw [← List.length_drop, inside, List.length_nil]
      apply iff_of_true (minimal_inside absolute anchored single short cwd_short inside)
      refine ⟨by omega, fun double => ?_, fun double => absurd double root⟩
      simpa [double.1, inCommon] using inside
    next =>
      have some : m.names ≠ [] := fun bare => inside (by simp [bare])
      rw [minimal_outside absolute anchored single cwd_short inside]
      simp [some]

end Minimal

def rooted (names : List Bytes) (proper : ∀ name ∈ names, IsName name) : NormalPath where
  absolute := true
  ups := 0
  names := names
  proper := proper
  anchored := anchored_zero true

theorem makePathRelative_minimal_beside :
    makePathRelative (text "/some/tests/") (text "/some/test") = .ok (text "../tests/") :=
  (@makePathRelative_minimal_iff (rooted [text "some", text "tests"] (by decide))
    (rooted [text "some", text "test"] (by decide))
    true false rfl rfl (by decide) (by decide)).mpr (by decide)

section Overflow

def deep (count : Nat) : NormalPath :=
  rooted (List.replicate count (text "a")) fun name member => by
    rw [List.eq_of_mem_replicate member]
    decide

def sibling : NormalPath := rooted [text "b"] (by decide)

theorem deep_length {count : Nat} (some : count ≠ 0) : (slashed (deep count) false).length = count * 2 := by
  have spelled (count : Nat) : (lead (List.replicate count (text "a"))).length = count * 2 := by
    induction count with
    | zero => rfl
    | succ count ih =>
      have two : (slash :: text "a").length = 2 := rfl
      rw [List.replicate_succ, lead_cons, List.length_append, ih, two]
      omega
  have names : (deep count).names = List.replicate count (text "a") := rfl
  have none : emptySegments (List.replicate count (text "a")) false = [] := by simp [emptySegments, some]
  rw [slashed_lead rfl, names, none, List.append_nil, spelled]

-- One dot is left of all of them, and the second slash would be put behind the end.
theorem putDotdots_wraps {count : Nat} (many : 2 < count) (wraps : unsigned (count * 3 - 1) = 1) :
    putDotdots count (text "/b") = .error .undefined := by
  obtain ⟨more, rfl⟩ : ∃ more, count = more + 3 := ⟨count - 3, by omega⟩
  have steps : List.range (more + 3 - 1) = 0 :: 1 :: (List.range more).map (· + 2) := by
    rw [show more + 3 - 1 = more + 1 + 1 by omega, List.range_succ_eq_map, List.range_succ_eq_map]
    simp [Function.comp_def]
  rw [putDotdots, wraps, steps]
  rfl

theorem deep_overflows {count : Nat} (many : 2 < count) (short : count * 2 < 4294967296)
    (wraps : unsigned (count * 3 - 1) = 1) :
    makePathRelative (slashed sibling false) (slashed (deep count) false) = .error .undefined := by
  have apart : inCommon sibling.names (deep count).names = 0 := by
    obtain ⟨more, rfl⟩ := Nat.exists_eq_succ_of_ne_zero (Nat.ne_zero_of_lt many)
    rfl
  have size : (deep count).names.length = count := List.length_replicate
  have left : (deep count).names ≠ [] := by
    rw [ne_eq, ← List.length_eq_zero_iff, size]
    omega
  rw [outside_putDotdots rfl rfl (fun _ => rfl) (by rw [deep_length (by omega)]; exact short)
    (by simpa [apart] using left),
    apart, size]
  exact putDotdots_wraps many wraps

theorem makePathRelative_overflows :
    (slashed (deep 1431655766) false).length < 4294967296 ∧
      makePathRelative (slashed sibling false) (slashed (deep 1431655766) false) = .error .undefined := by
  constructor
  next =>
    rw [deep_length (by omega)]
    omega
  next => exact deep_overflows (by omega) (by omega) (by decide)

end Overflow

end BuildboxCommon.FileUtils
