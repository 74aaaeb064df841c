import BuildboxCommon.FileUtils.JoinNormalized

set_option autoImplicit false

namespace BuildboxCommon.FileUtils

open ByteString LexicalPath

def unsignedRange : Nat := 4294967296

def unsigned (n : Nat) : Nat := n % unsignedRange

-- `std::string::operator[]`: the terminating NUL may be read, but nothing behind it.
def charAt (string : Bytes) (index : Nat) : Except Exn UInt8 :=
  match (string ++ [nul])[index]? with
  | none => .error .undefined
  | some byte => .ok byte

inductive Matching where
  | returns (result : Bytes)
  | stops (pathIndex lastMatchingSegmentEnd : Nat)

-- The first loop. `nextPathIndex` is always `pathIndex + 1`. Once the index wraps round, the loop makes the same
-- comparisons again and never ends, which is undefined behaviour too; that is what `rounds` stands for.
def matchSegments (path cwd : Bytes) : Nat → Nat → Nat → Except Exn Matching
  | 0, _, _ => .error .undefined
  | rounds + 1, pathIndex, lastMatchingSegmentEnd => do
    if pathIndex < path.length then
      let here ← charAt path pathIndex
      if here = (← charAt cwd pathIndex) then
        let nextPathIndex := unsigned (pathIndex + 1)
        if nextPathIndex = cwd.length then
          let following ← charAt path nextPathIndex
          if path.length = nextPathIndex then
            return .returns (if here = slash then text "./" else dot)
          else if path.length = unsigned (pathIndex + 2) ∧ following = slash then
            return .returns (text "./")
          else if here = slash then
            return .returns (path.drop nextPathIndex)
          else if following = slash then
            return .returns (path.drop (unsigned (pathIndex + 2)))
          else matchSegments path cwd rounds nextPathIndex lastMatchingSegmentEnd
        else
          matchSegments path cwd rounds nextPathIndex (if here = slash then pathIndex else lastMatchingSegmentEnd)
      else return .stops pathIndex lastMatchingSegmentEnd
    else return .stops pathIndex lastMatchingSegmentEnd

def countDotdots (cwd : Bytes) : Nat → Nat → Nat → Except Exn Nat
  | 0, _, _ => .error .undefined
  | rounds + 1, pathIndex, dotdotsNeeded => do
    if pathIndex < cwd.length then
      let nextPathIndex := unsigned (pathIndex + 1)
      if (← charAt cwd pathIndex) = slash ∧ (← charAt cwd nextPathIndex) ≠ nul then
        countDotdots cwd rounds nextPathIndex (unsigned (dotdotsNeeded + 1))
      else countDotdots cwd rounds nextPathIndex dotdotsNeeded
    else return dotdotsNeeded

def putSlash (result : Bytes) (j : Nat) : Except Exn Bytes :=
  let index := unsigned (j * 3 + 2)
  if index < result.length then .ok (result.set index slash) else .error .undefined

def period : UInt8 := 46

def putDotdots (dotdotsNeeded : Nat) (rest : Bytes) : Except Exn Bytes :=
  (List.range (dotdotsNeeded - 1)).foldlM putSlash (List.replicate (unsigned (dotdotsNeeded * 3 - 1)) period ++ rest)

def replaceWithDotdots (path cwd : Bytes) (pathIndex lastMatchingSegmentEnd : Nat) : Except Exn Bytes := do
  putDotdots (← countDotdots cwd unsignedRange pathIndex 1) (path.drop lastMatchingSegmentEnd)

def makePathRelative (path cwd : Bytes) : Except Exn Bytes :=
  if cwd = [] ∨ path = [] ∨ path.head? ≠ some slash then .ok path
  else if cwd.head? ≠ some slash then
    .error (.runtimeError (text "cwd must be an absolute path or empty: cwd=[" ++ cwd ++ text "]"))
  else do
    match ← matchSegments path cwd unsignedRange 0 0 with
    | .returns result => return result
    | .stops pathIndex lastMatchingSegmentEnd =>
      if pathIndex = path.length then
        if (← charAt cwd pathIndex) = slash then
          if unsigned (pathIndex + 1) = cwd.length then return dot
          else replaceWithDotdots path cwd (unsigned (pathIndex + 1)) pathIndex
        else replaceWithDotdots path cwd pathIndex lastMatchingSegmentEnd
      else replaceWithDotdots path cwd pathIndex lastMatchingSegmentEnd

section Characters

theorem unsigned_of_lt {n : Nat} (small : n < unsignedRange) : unsigned n = n := Nat.mod_eq_of_lt small

theorem charAt_here (done : Bytes) (byte : UInt8) (rest : Bytes) :
    charAt (done ++ byte :: rest) done.length = .ok byte := by
  simp [charAt]

theorem charAt_end (string : Bytes) : charAt string string.length = .ok nul := by
  simp [charAt]

theorem charAt_behind {string : Bytes} {index : Nat} (behind : string.length < index) :
    charAt string index = .error .undefined := by
  have none : (string ++ [nul])[index]? = none := List.getElem?_eq_none (by simp; omega)
  rw [charAt, none]

end Characters

section Matching

variable {rounds : Nat} {path cwd done common p c : Bytes} {byte : UInt8} {last : Nat}

theorem matchSegments_step (short : done.length + 1 < unsignedRange) (more : c ≠ []) :
    matchSegments (done ++ byte :: p) (done ++ byte :: c) (rounds + 1) done.length last =
      matchSegments (done ++ byte :: p) (done ++ byte :: c) rounds (done.length + 1)
        (if byte = slash then done.length else last) := by
  have within : done.length < (done ++ byte :: p).length := by simp
  have inner : done.length + 1 ≠ (done ++ byte :: c).length := by
    have positive := List.length_pos_iff.mpr more
    rw [List.length_append, List.length_cons]
    omega
  rw [matchSegments, if_pos within, charAt_here, charAt_here]
  simp only [bind, Except.bind, if_true, unsigned_of_lt short, if_neg inner]

-- The loop passes what both have in common; the last slash in it is remembered.
theorem matchSegments_through (short : (done ++ common).length < unsignedRange) (more : c ≠ []) :
    ∃ later, matchSegments (done ++ common ++ p) (done ++ common ++ c) (rounds + common.length) done.length last =
      matchSegments (done ++ common ++ p) (done ++ common ++ c) rounds (done ++ common).length later ∧
        (slash ∉ common → later = last) ∧
        ∀ base w, slash ∉ w → common = base ++ slash :: w → later = (done ++ base).length := by
  induction common generalizing done last with
  | nil => exact ⟨last, by simp, fun _ => rfl, fun base w _ empty => by simp at empty⟩
  | cons byte common ih =>
    have split (rest : Bytes) : done ++ byte :: common ++ rest = done ++ [byte] ++ common ++ rest := by simp
    have size : (done ++ byte :: common).length = (done ++ [byte] ++ common).length := by simp
    rw [size] at short
    obtain ⟨later, passed, plain, ends⟩ := @ih (done ++ [byte]) (if byte = slash then done.length else last) short
    have first := @matchSegments_step (rounds + common.length) done (common ++ p) (common ++ c) byte last
      (by rw [List.append_assoc, List.length_append] at short; simp at short; omega) (by simp [more])
    refine ⟨later, ?_, fun free => ?_, fun base w bare shape => ?_⟩
    next =>
      have rounded : rounds + (byte :: common).length = rounds + common.length + 1 := by simp [Nat.add_assoc]
      rw [rounded, size, split, split, ← passed]
      simpa using first
    next =>
      rw [List.mem_cons, not_or] at free
      rw [plain free.2, if_neg (Ne.symm free.1)]
    next =>
      cases base with
      | nil =>
        obtain ⟨rfl, rfl⟩ := List.cons.inj shape
        rw [plain bare, if_pos rfl, List.append_nil]
      | cons other base =>
        obtain ⟨rfl, same⟩ := List.cons.inj shape
        rw [ends base w bare same]
        simp

theorem matchSegments_stops (more : c ≠ []) (differ : ∀ byte rest, p = byte :: rest → c.head? ≠ some byte) :
    matchSegments (done ++ p) (done ++ c) (rounds + 1) done.length last = .ok (.stops done.length last) := by
  obtain ⟨other, others, rfl⟩ := List.exists_cons_of_ne_nil more
  cases p with
  | nil => simp [matchSegments, pure, Except.pure]
  | cons byte rest =>
    have unlike : byte ≠ other := fun same => differ byte rest rfl (by simp [same])
    rw [matchSegments, if_pos (by simp), charAt_here, charAt_here]
    simp only [bind, Except.bind, if_neg unlike]
    rfl

end Matching

section Dotdots

def innerSlashes : Bytes → Nat
  | [] => 0
  | byte :: rest => (if byte = slash ∧ rest.headD nul ≠ nul then 1 else 0) + innerSlashes rest

theorem innerSlashes_le (bytes : Bytes) : innerSlashes bytes ≤ bytes.length - 1 := by
  induction bytes with
  | nil => exact le_rfl
  | cons byte rest ih =>
    rw [innerSlashes, List.length_cons]
    cases rest with
    | nil => simp [innerSlashes]
    | cons =>
      rw [List.length_cons] at ih ⊢
      split_ifs <;> omega

theorem innerSlashes_plain {name : Bytes} (plain : slash ∉ name) (rest : Bytes) :
    innerSlashes (name ++ rest) = innerSlashes rest := by
  induction name with
  | nil => rfl
  | cons byte name ih =>
    rw [List.mem_cons, not_or] at plain
    rw [List.cons_append, innerSlashes, if_neg fun both => plain.1 both.1.symm, Nat.zero_add, ih plain.2]

theorem charAt_next (done : Bytes) (byte : UInt8) (rest : Bytes) :
    charAt (done ++ byte :: rest) (done.length + 1) = .ok (rest.headD nul) := by
  cases rest with
  | nil => simpa using charAt_end (done ++ [byte])
  | cons other rest => simpa using charAt_here (done ++ [byte]) other rest

theorem countDotdots_eq {done rest : Bytes} {rounds dotdotsNeeded : Nat} (short : (done ++ rest).length < unsignedRange)
    (enough : rest.length < rounds) (few : dotdotsNeeded + innerSlashes rest < unsignedRange) :
    countDotdots (done ++ rest) rounds done.length dotdotsNeeded = .ok (dotdotsNeeded + innerSlashes rest) := by
  induction rest generalizing done rounds dotdotsNeeded with
  | nil =>
    obtain ⟨rounds, rfl⟩ := Nat.exists_eq_succ_of_ne_zero (Nat.ne_zero_of_lt enough)
    simp [countDotdots, innerSlashes, pure, Except.pure]
  | cons byte rest ih =>
    obtain ⟨rounds, rfl⟩ := Nat.exists_eq_succ_of_ne_zero (Nat.ne_zero_of_lt enough)
    rw [List.length_cons] at enough
    have split : done ++ byte :: rest = done ++ [byte] ++ rest := by simp
    have position : done.length + 1 = (done ++ [byte]).length := by simp
    have next : unsigned (done.length + 1) = done.length + 1 := by
      apply unsigned_of_lt
      rw [List.length_append, List.length_cons] at short
      omega
    rw [innerSlashes] at few
    rw [countDotdots, if_pos (by simp), next, charAt_here]
    simp only [bind, Except.bind, charAt_next]
    rw [split] at short ⊢
    rw [position]
    by_cases counted : byte = slash ∧ rest.headD nul ≠ nul
    next =>
      rw [if_pos counted] at few
      rw [if_pos counted, innerSlashes, if_pos counted, unsigned_of_lt (by omega), ih short (by omega) (by omega),
        Nat.add_assoc]
    next =>
      rw [if_neg counted] at few
      rw [if_neg counted, innerSlashes, if_neg counted, ih short (by omega) (by omega), Nat.zero_add]

def dotdots (count : Nat) : Bytes := [slash].intercalate (List.replicate count dotdot)

theorem putSlash_at {start rest : Bytes} {byte : UInt8} {j : Nat} (position : start.length = j * 3 + 2)
    (small : j * 3 + 2 < unsignedRange) : putSlash (start ++ byte :: rest) j = .ok (start ++ slash :: rest) := by
  have within : start.length < (start ++ byte :: rest).length := by simp
  rw [putSlash, unsigned_of_lt small, ← position, if_pos within, List.set_append_right _ _ le_rfl, Nat.sub_self,
    List.set_cons_zero]

theorem dotdots_succ (count : Nat) :
    dotdots (count + 1) = (List.replicate count (dotdot ++ [slash])).flatten ++ dotdot := by
  induction count with
  | zero => rfl
  | succ count ih =>
    have more : dotdots (count + 2) = dotdot ++ slash :: dotdots (count + 1) := by
      simp [dotdots, List.replicate_succ, List.intercalate_cons_cons]
    rw [more, ih, List.replicate_succ, List.flatten_cons]
    simp

theorem putSlashes_eq (count : Nat) (rest : Bytes) (small : count * 3 + 2 < unsignedRange) :
    (List.range count).foldlM putSlash (List.replicate (count * 3 + 2) period ++ rest) =
      .ok (dotdots (count + 1) ++ rest) := by
  have after (done left : Nat) (all : done + left = count) :
      (List.range done).foldlM putSlash (List.replicate (count * 3 + 2) period ++ rest) =
        .ok ((List.replicate done (dotdot ++ [slash])).flatten ++ (List.replicate (left * 3 + 2) period ++ rest)) := by
    induction done generalizing left with
    | zero =>
      rw [← all, Nat.zero_add]
      rfl
    | succ done ih =>
      have before := ih (left + 1) (by omega)
      have dots : List.replicate ((left + 1) * 3 + 2) period = dotdot ++
        period :: List.replicate (left * 3 + 2) period := by
        rw [show (left + 1) * 3 + 2 = left * 3 + 2 + 1 + 1 + 1 by omega]
        rfl
      have size : ((List.replicate done (dotdot ++ [slash])).flatten ++ dotdot).length = done * 3 + 2 := by
        simp [dotdot, text]
      have put := @putSlash_at _ (List.replicate (left * 3 + 2) period ++ rest) period done size (by omega)
      rw [List.range_succ, List.foldlM_append, before, dots]
      have step : (List.replicate (done + 1) (dotdot ++ [slash])).flatten =
          (List.replicate done (dotdot ++ [slash])).flatten ++ (dotdot ++ [slash]) := by
        rw [List.replicate_succ', List.flatten_append, List.flatten_singleton]
      simp only [List.append_assoc] at put
      simp only [bind, Except.bind, List.foldlM_cons, List.foldlM_nil, List.append_assoc, List.cons_append, put, step]
      rfl
  have all := after count 0 rfl
  rw [all, dotdots_succ]
  simp [dotdot, text, period]

theorem replaceWithDotdots_eq {base path done rest : Bytes} (short : (done ++ rest).length < unsignedRange) :
    replaceWithDotdots (base ++ path) (done ++ rest) done.length base.length =
      putDotdots (innerSlashes rest + 1) path := by
  have within : rest.length < unsignedRange := by
    rw [List.length_append] at short
    omega
  have fewer := innerSlashes_le rest
  have wide : 1 < unsignedRange := by decide
  rw [replaceWithDotdots, countDotdots_eq short within (by omega)]
  simp only [bind, Except.bind, List.drop_left, Nat.add_comm]

theorem putDotdots_eq {count : Nat} (rest : Bytes) (few : count * 3 + 2 < unsignedRange) :
    putDotdots (count + 1) rest = .ok (dotdots (count + 1) ++ rest) := by
  have size : (count + 1) * 3 - 1 = count * 3 + 2 := by omega
  rw [putDotdots, size, unsigned_of_lt few]
  exact putSlashes_eq count rest few

theorem putSlashes_within {indices : List Nat} {before result : Bytes}
    (done : indices.foldlM putSlash before = .ok result) :
    result.length = before.length ∧ ∀ j ∈ indices, unsigned (j * 3 + 2) < before.length := by
  induction indices generalizing before with
  | nil =>
    cases done
    simp
  | cons j indices ih =>
    rw [List.foldlM_cons, putSlash] at done
    split at done
    next within =>
      obtain ⟨size, rest⟩ := ih done
      rw [List.length_set] at size rest
      exact ⟨size, List.forall_mem_cons.mpr ⟨within, rest⟩⟩
    next => cases done

theorem putDotdots_within {count : Nat} {rest result : Bytes} (put : putDotdots count rest = .ok result) :
    result.length = unsigned (count * 3 - 1) + rest.length ∧ ∀ j < count - 1, unsigned (j * 3 + 2) < result.length := by
  obtain ⟨size, within⟩ := putSlashes_within put
  rw [← size] at within
  rw [List.length_append, List.length_replicate] at size
  exact ⟨size, fun j small => within j (List.mem_range.mpr small)⟩

end Dotdots

end BuildboxCommon.FileUtils
