import BuildboxCommon.FileUtils.MakePathRelative

set_option autoImplicit false

namespace BuildboxCommon.FileUtils

open ByteString LexicalPath

section Last

variable {rounds : Nat} {start rest : Bytes} {ends : UInt8} {last : Nat}

theorem matchSegments_last (short : start.length + 1 < unsignedRange) :
    matchSegments (start ++ ends :: rest) (start ++ [ends]) (rounds + 1) start.length last =
      if rest = [] then .ok (.returns (if ends = slash then text "./" else dot))
      else if rest = [slash] ∧ start.length + 2 < unsignedRange then .ok (.returns (text "./"))
      else if ends = slash then .ok (.returns rest)
      else if rest.head? = some slash then .ok (.returns ((start ++ ends :: rest).drop (unsigned (start.length + 2))))
      else matchSegments (start ++ ends :: rest) (start ++ [ends]) rounds (start.length + 1) last := by
  have within : start.length < (start ++ ends :: rest).length := by simp
  have whole : start.length + 1 = (start ++ [ends]).length := by simp
  have after : (start ++ ends :: rest).drop (start.length + 1) = rest := by
    rw [← List.singleton_append, ← List.append_assoc, whole, List.drop_left]
  rw [matchSegments, if_pos within, charAt_here, charAt_here]
  simp only [bind, Except.bind, if_true, unsigned_of_lt short, if_pos whole, charAt_next, after]
  cases rest with
  | nil => simp [pure, Except.pure]
  | cons byte rest =>
    have longer : (start ++ ends :: byte :: rest).length ≠ start.length + 1 := by simp
    have two : (start ++ ends :: byte :: rest).length = unsigned (start.length + 2) ↔
        rest = [] ∧ start.length + 2 < unsignedRange := by
      rw [List.length_append, List.length_cons, List.length_cons, ← List.length_eq_zero_iff]
      by_cases small : start.length + 2 < unsignedRange
      next =>
        rw [unsigned_of_lt small]
        omega
      next =>
        have wraps : start.length + 2 = unsignedRange := by omega
        rw [wraps, unsigned, Nat.mod_self]
        omega
    have alone : rest = [] ∧ start.length + 2 < unsignedRange ∧ byte = slash ↔
        (byte = slash ∧ rest = []) ∧ start.length + 2 < unsignedRange := by tauto
    simp only [if_neg longer, two, and_assoc, alone, List.headD_cons, reduceCtorEq, if_false, List.head?_cons,
      Option.some.injEq, List.cons.injEq]
    rfl

theorem matchSegments_same (short : start.length + 1 < unsignedRange) :
    matchSegments (start ++ [ends]) (start ++ [ends]) (rounds + 1) start.length last =
      .ok (.returns (if ends = slash then text "./" else dot)) := by
  have within : start.length < (start ++ [ends]).length := by simp
  have whole : start.length + 1 = (start ++ [ends]).length := by simp
  rw [matchSegments, if_pos within, charAt_here]
  simp only [bind, Except.bind, if_true, unsigned_of_lt short]
  rw [whole]
  simp only [if_true, charAt_end]
  rfl

theorem matchSegments_behind {cwd : Bytes} {byte : UInt8} (unlike : byte ≠ nul) :
    matchSegments (cwd ++ byte :: rest) cwd (rounds + 1) cwd.length last = .ok (.stops cwd.length last) := by
  rw [matchSegments, if_pos (by simp), charAt_here, charAt_end]
  simp only [bind, Except.bind, if_neg unlike]
  rfl

-- A NUL behind all of `cwd` equals its terminator, and the next round would go behind it.
theorem matchSegments_nul {cwd : Bytes} (short : cwd.length + 1 < unsignedRange) :
    matchSegments (cwd ++ nul :: rest) cwd (rounds + 2) cwd.length last =
      if rest = [] then .ok (.stops (cwd.length + 1) last) else .error .undefined := by
  have within : cwd.length < (cwd ++ nul :: rest).length := by simp
  have longer : cwd.length + 1 ≠ cwd.length := Nat.succ_ne_self _
  have unlike : nul ≠ slash := by decide
  rw [matchSegments, if_pos within, charAt_here, charAt_end]
  simp only [bind, Except.bind, if_true, unsigned_of_lt short, if_neg longer, if_neg unlike]
  rw [matchSegments]
  cases rest with
  | nil => simp [pure, Except.pure]
  | cons byte rest =>
    have inside : cwd.length + 1 < (cwd ++ nul :: byte :: rest).length := by simp
    rw [if_pos inside, charAt_next, charAt_behind (Nat.lt_succ_self _)]
    simp [bind, Except.bind]

end Last

section Runs

variable {path cwd result : Bytes} {pathIndex last : Nat} (absolute : path.head? = some slash)
  (anchored : cwd.head? = some slash)

include absolute anchored

theorem absolute_paths : ¬(cwd = [] ∨ path = [] ∨ path.head? ≠ some slash) ∧ ¬cwd.head? ≠ some slash := by
  have present (string : Bytes) (slashed : string.head? = some slash) : string ≠ [] := by
    rintro rfl
    cases slashed
  simp [present path absolute, present cwd anchored, absolute, anchored]

theorem makePathRelative_returns (matched : matchSegments path cwd unsignedRange 0 0 = .ok (.returns result)) :
    makePathRelative path cwd = .ok result := by
  obtain ⟨proper, slashed⟩ := absolute_paths absolute anchored
  rw [makePathRelative, if_neg proper, if_neg slashed, matched]
  rfl

theorem makePathRelative_stops (matched : matchSegments path cwd unsignedRange 0 0 = .ok (.stops pathIndex last))
    (apart : pathIndex = path.length → ∃ byte, charAt cwd pathIndex = .ok byte ∧ byte ≠ slash) :
    makePathRelative path cwd = replaceWithDotdots path cwd pathIndex last := by
  obtain ⟨proper, slashed⟩ := absolute_paths absolute anchored
  rw [makePathRelative, if_neg proper, if_neg slashed, matched]
  simp only [bind, Except.bind]
  split
  next whole =>
    obtain ⟨byte, read, unlike⟩ := apart whole
    simp only [read, if_neg unlike]
  next => rfl

theorem makePathRelative_above (matched : matchSegments path cwd unsignedRange 0 0 = .ok (.stops path.length last))
    (below : charAt cwd path.length = .ok slash) (short : path.length + 1 < unsignedRange) :
    makePathRelative path cwd = if path.length + 1 = cwd.length then .ok dot
      else replaceWithDotdots path cwd (path.length + 1) path.length := by
  obtain ⟨proper, slashed⟩ := absolute_paths absolute anchored
  rw [makePathRelative, if_neg proper, if_neg slashed, matched]
  simp only [bind, Except.bind, if_true, below, unsigned_of_lt short]
  rfl

theorem makePathRelative_fails {thrown : Exn} (matched : matchSegments path cwd unsignedRange 0 0 = .error thrown) :
    makePathRelative path cwd = .error thrown := by
  obtain ⟨proper, slashed⟩ := absolute_paths absolute anchored
  rw [makePathRelative, if_neg proper, if_neg slashed, matched]
  rfl

end Runs

section Outcomes

variable {base w p c rest start : Bytes} {ends : UInt8}

theorem matchSegments_common (extra : Nat) (short : start.length + extra < unsignedRange) (more : c ≠ []) :
    ∃ rounds later, matchSegments (start ++ p) (start ++ c) unsignedRange 0 0 =
        matchSegments (start ++ p) (start ++ c) (rounds + extra + 1) start.length later ∧
      ∀ base w, slash ∉ w → start = base ++ slash :: w → later = base.length := by
  obtain ⟨rounds, left⟩ : ∃ rounds, unsignedRange = rounds + extra + 1 + start.length :=
    ⟨unsignedRange - extra - 1 - start.length, by omega⟩
  have small : ([] ++ start).length < unsignedRange := Nat.lt_of_le_of_lt (Nat.le_add_right _ extra) short
  obtain ⟨later, passed, -, ends⟩ := @matchSegments_through (rounds + extra + 1) [] start p c 0 small more
  rw [← left] at passed
  exact ⟨rounds, later, passed, ends⟩

theorem relative_same (absolute : (start ++ [ends]).head? = some slash) (short : start.length + 1 < unsignedRange) :
    makePathRelative (start ++ [ends]) (start ++ [ends]) = .ok (if ends = slash then text "./" else dot) := by
  obtain ⟨rounds, later, matched, -⟩ := @matchSegments_common [ends] [ends] start 1 short (by simp)
  rw [matchSegments_same short] at matched
  exact makePathRelative_returns absolute absolute matched

theorem relative_within (absolute : (start ++ [ends]).head? = some slash) (short : start.length + 2 < unsignedRange)
    (more : rest ≠ []) (enters : rest = [slash] ∨ ends = slash ∨ rest.head? = some slash) :
    makePathRelative (start ++ ends :: rest) (start ++ [ends]) =
      .ok (if rest = [slash] then text "./" else if ends = slash then rest else rest.tail) := by
  obtain ⟨rounds, later, matched, -⟩ := @matchSegments_common (ends :: rest) [ends] start 2 short (by simp)
  have longer : (start ++ ends :: rest).head? = some slash := by
    cases start with
    | nil => exact absolute
    | cons => exact absolute
  have later : (start ++ ends :: rest).drop (start.length + 2) = rest.tail := by simp
  rw [matchSegments_last (Nat.lt_of_succ_lt short)] at matched
  simp only [if_neg more, and_iff_left short, unsigned_of_lt short, later] at matched
  apply makePathRelative_returns longer absolute
  rw [matched]
  split_ifs with single slashed above
  next => rfl
  next => rfl
  next => rfl
  next => exact absurd enters (by simp [single, slashed, above])

theorem relative_entered (absolute : (start ++ [slash]).head? = some slash) (short : start.length + 1 < unsignedRange)
    (more : rest ≠ []) (longer : rest ≠ [slash]) :
    makePathRelative (start ++ slash :: rest) (start ++ [slash]) = .ok rest := by
  obtain ⟨rounds, later, matched, -⟩ := @matchSegments_common (slash :: rest) [slash] start 1 short (by simp)
  have anchored : (start ++ slash :: rest).head? = some slash := by
    cases start with
    | nil => exact absolute
    | cons => exact absolute
  rw [matchSegments_last short, if_neg more, if_neg (mt And.left longer), if_pos rfl] at matched
  exact makePathRelative_returns anchored absolute matched

theorem relative_above {X : Bytes} (absolute : base.head? = some slash)
    (short : (base ++ slash :: X).length < unsignedRange) :
    makePathRelative base (base ++ slash :: X) =
      if X = [] then .ok dot else putDotdots (innerSlashes X + 1) [] := by
  have size : (base ++ slash :: X).length = base.length + 1 + X.length := by
    simp
    omega
  have small : base.length + 1 < unsignedRange := by
    rw [size] at short
    omega
  obtain ⟨rounds, later, matched, -⟩ := @matchSegments_common [] (slash :: X) base 1 small (by simp)
  rw [matchSegments_stops (by simp) (by simp), List.append_nil] at matched
  have below : charAt (base ++ slash :: X) base.length = .ok slash := charAt_here _ _ _
  have anchored : (base ++ slash :: X).head? = some slash := by
    cases base with
    | nil => rfl
    | cons => exact absolute
  rw [makePathRelative_above absolute anchored matched below small, size]
  by_cases none : X = []
  next => simp [none]
  next =>
    have positive := List.length_pos_iff.mpr none
    rw [if_neg (by omega), if_neg none]
    have replaced := @replaceWithDotdots_eq base [] (base ++ [slash]) X (by simpa using short)
    simpa using replaced

theorem slash_head (absolute : (base ++ [slash]).head? = some slash) (rest : Bytes) :
    (base ++ slash :: rest).head? = some slash := by
  cases base with
  | nil => rfl
  | cons => exact absolute

theorem relative_apart (absolute : (base ++ [slash]).head? = some slash) (plain : slash ∉ w) (more : c ≠ [])
    (differ : ∀ byte rest, p = byte :: rest → c.head? ≠ some byte) (inside : p = [] → c.head? ≠ some slash)
    (short : (base ++ slash :: w ++ c).length < unsignedRange) :
    makePathRelative (base ++ slash :: w ++ p) (base ++ slash :: w ++ c) =
      putDotdots (innerSlashes c + 1) (slash :: w ++ p) := by
  have small : (base ++ slash :: w).length + 1 < unsignedRange := by
    have positive := List.length_pos_iff.mpr more
    rw [List.length_append] at short
    omega
  obtain ⟨rounds, later, matched, last⟩ := @matchSegments_common p c (base ++ slash :: w) 1 small more
  rw [matchSegments_stops more differ, last base w plain rfl] at matched
  have head (rest : Bytes) : (base ++ slash :: w ++ rest).head? = some slash := by
    rw [List.append_assoc]
    exact slash_head absolute _
  rw [makePathRelative_stops (head p) (head c) matched]
  next =>
    have replaced := @replaceWithDotdots_eq base (slash :: w ++ p) (base ++ slash :: w) c short
    simpa using replaced
  next =>
    intro whole
    have sizes : (base ++ slash :: w ++ p).length = (base ++ slash :: w).length + p.length := List.length_append
    have ends : p = [] := List.length_eq_zero_iff.mp (by omega)
    obtain ⟨byte, others, rfl⟩ := List.exists_cons_of_ne_nil more
    exact ⟨byte, charAt_here _ _ _, by simpa using inside ends⟩

theorem relative_beside {byte : UInt8} (absolute : (base ++ [slash]).head? = some slash) (plain : slash ∉ w ++ [ends])
    (unlike : byte ≠ slash) (some : byte ≠ nul) (short : (base ++ slash :: w).length + 1 < unsignedRange) :
    makePathRelative (base ++ slash :: w ++ ends :: byte :: p) (base ++ slash :: w ++ [ends]) =
      putDotdots 1 (slash :: w ++ ends :: byte :: p) := by
  rw [List.mem_append, not_or] at plain
  have plain_end : ends ≠ slash := fun same => plain.2 (by simp [same])
  obtain ⟨rounds, later, matched, last⟩ := @matchSegments_common (ends :: byte :: p) [ends] (base ++ slash :: w) 1
    short (by simp)
  have whole : (base ++ slash :: w).length + 1 = (base ++ slash :: w ++ [ends]).length := by
    simp
    omega
  have split : base ++ slash :: w ++ ends :: byte :: p = base ++ slash :: w ++ [ends] ++ byte :: p := by simp
  have alone : byte :: p ≠ [slash] := fun same => unlike (List.cons.inj same).1
  have apart : (byte :: p).head? ≠ Option.some slash := by simpa using unlike
  rw [matchSegments_last short, if_neg (by simp), if_neg (mt And.left alone), if_neg plain_end, if_neg apart,
    whole, split,
    matchSegments_behind some, last base w plain.1 rfl] at matched
  have head (rest : Bytes) : (base ++ slash :: w ++ rest).head? = Option.some slash := by
    rw [List.append_assoc]
    exact slash_head absolute _
  have head_path := head (ends :: byte :: p)
  rw [split] at head_path ⊢
  rw [makePathRelative_stops head_path (head _) matched]
  next =>
    have replaced := @replaceWithDotdots_eq base (slash :: w ++ [ends] ++ byte :: p) (base ++ slash :: w ++ [ends]) []
      (by simp at short ⊢; omega)
    simpa [innerSlashes] using replaced
  next =>
    intro same
    have sizes : (base ++ slash :: w ++ [ends] ++ byte :: p).length = (base ++ slash :: w ++ [ends]).length +
      (p.length + 1) :=
      List.length_append
    omega

theorem relative_nul (absolute : (start ++ [ends]).head? = some slash) (plain : ends ≠ slash)
    (short : start.length + 2 < unsignedRange) :
    makePathRelative (start ++ ends :: nul :: p) (start ++ [ends]) = .error .undefined := by
  obtain ⟨rounds, later, matched, -⟩ := @matchSegments_common (ends :: nul :: p) [ends] start 2 short (by simp)
  have longer : (start ++ ends :: nul :: p).head? = some slash := by
    cases start with
    | nil => exact absolute
    | cons => exact absolute
  have whole : start.length + 1 = (start ++ [ends]).length := by simp
  have split : start ++ ends :: nul :: p = start ++ [ends] ++ nul :: p := by simp
  have unlike : nul ≠ slash := by decide
  rw [matchSegments_last (Nat.lt_of_succ_lt short), if_neg (by simp), if_neg (by simp [unlike]), if_neg plain,
    if_neg (by simp [unlike]), whole, split] at matched
  rw [split] at longer ⊢
  generalize start ++ [ends] = cwd at *
  rw [matchSegments_nul (by omega)] at matched
  by_cases final : p = []
  next =>
    have ends : (cwd ++ nul :: p).length = cwd.length + 1 := by simp [final]
    obtain ⟨proper, slashed⟩ := absolute_paths longer absolute
    rw [if_pos final] at matched
    rw [makePathRelative, if_neg proper, if_neg slashed, matched]
    simp only [bind, Except.bind, ends, if_true, charAt_behind (Nat.lt_succ_self _)]
  next =>
    rw [if_neg final] at matched
    exact makePathRelative_fails longer absolute matched

end Outcomes

end BuildboxCommon.FileUtils
