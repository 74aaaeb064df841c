import BuildboxCommon.Blake3.Chunks
import BuildboxCommon.Shared.LazyMerging

set_option autoImplicit false

namespace BuildboxCommon.Blake3

open ByteString LazyMerging

variable (key : Words) (flags : UInt8)

def treeOutput (input : Bytes) : Output :=
  if _large : chunkLen < input.length then
    parentOutput ((treeOutput (input.take (leftLen input.length))).chainingValue ++
      (treeOutput (input.drop (leftLen input.length))).chainingValue) key flags
  else chunkOutput key flags input
termination_by input.length
decreasing_by
  all_goals
    have left := leftLen_lt _large
    have some := leftLen_pos input.length
    simp only [List.length_take, List.length_drop]
    omega

theorem treeOutput_chunk {chunk : Bytes} (short : chunk.length ≤ chunkLen) :
    treeOutput key flags chunk = chunkOutput key flags chunk := by
  rw [treeOutput, dif_neg (not_lt.mpr short)]

theorem leftLen_eq {height right : Nat} (some : 0 < right) (fits : right ≤ chunkLen * 2 ^ height) :
    leftLen (chunkLen * 2 ^ height + right) = chunkLen * 2 ^ height := by
  have positive := Nat.two_pow_pos height
  have low : 2 ^ height ≤ (chunkLen * 2 ^ height + right - 1) / chunkLen := by
    rw [Nat.le_div_iff_mul_le (by decide), Nat.mul_comm]
    omega
  have high : (chunkLen * 2 ^ height + right - 1) / chunkLen < 2 ^ (height + 1) := by
    have twice : 2 ^ (height + 1) * chunkLen = chunkLen * 2 ^ height + chunkLen * 2 ^ height := by
      rw [Nat.pow_succ, Nat.mul_comm, ← Nat.mul_assoc]
      omega
    rw [Nat.div_lt_iff_lt_mul (by decide), twice]
    omega
  have log : Nat.log2 ((chunkLen * 2 ^ height + right - 1) / chunkLen) = height :=
    (Nat.log2_eq_iff (by omega)).mpr ⟨low, high⟩
  rw [leftLen, roundDownToPowerOf2_eq (by omega), log, Nat.mul_comm]

theorem treeOutput_append (left right : Bytes) (height : Nat) (full : left.length = chunkLen * 2 ^ height)
    (some : right ≠ []) (fits : right.length ≤ left.length) :
    treeOutput key flags (left ++ right) =
      parentOutput ((treeOutput key flags left).chainingValue ++
        (treeOutput key flags right).chainingValue) key flags := by
  have positive := List.length_pos_of_ne_nil some
  have chunk : chunkLen ≤ left.length := by
    rw [full]
    exact Nat.le_mul_of_pos_right _ (Nat.two_pow_pos height)
  have large : chunkLen < (left ++ right).length := by
    rw [List.length_append]
    omega
  have place : leftLen (left ++ right).length = left.length := by
    rw [List.length_append, full, leftLen_eq positive (full ▸ fits)]
  rw [treeOutput, dif_pos large, place, List.take_left, List.drop_left]

def merger : Merger UInt8 Output Bytes where
  unit := chunkLen
  unit_pos := by decide
  top := treeOutput key flags
  condense := Output.chainingValue
  join left right := parentOutput (left ++ right) key flags
  top_append := treeOutput_append key flags

theorem length_storeCvWords (words : Words) : (storeCvWords words).length = 32 := by
  simp [storeCvWords, store32]

@[simp] theorem length_chainingValue (output : Output) : output.chainingValue.length = 32 := length_storeCvWords _

section Wide

variable {key : Words} {flags : UInt8}

theorem wholeChunks_append (count : Nat) {front : Bytes} (whole : front.length = chunkLen * count) (rest : Bytes) :
    wholeChunks (front ++ rest) = ((wholeChunks front).1 ++ (wholeChunks rest).1, (wholeChunks rest).2) := by
  induction count generalizing front with
  | zero =>
    obtain rfl := List.length_eq_zero_iff.mp (whole.trans (Nat.mul_zero _))
    have none : wholeChunks [] = ([], []) := by
      rw [wholeChunks, dif_neg (by decide)]
    rw [none]
    rfl
  | succ count ih =>
    have long : chunkLen ≤ front.length := whole ▸ Nat.le_mul_of_pos_right _ (Nat.succ_pos count)
    have longer : chunkLen ≤ (front ++ rest).length := by
      rw [List.length_append]
      omega
    have shorter : (front.drop chunkLen).length = chunkLen * count := by
      rw [List.length_drop, whole, Nat.mul_succ, Nat.add_sub_cancel]
    have first : wholeChunks front = (front.take chunkLen :: (wholeChunks (front.drop chunkLen)).1,
        (wholeChunks (front.drop chunkLen)).2) := by
      rw [wholeChunks, dif_pos long]
    rw [wholeChunks, dif_pos longer, List.take_append_of_le_length long, List.drop_append_of_le_length long,
      ih shorter, first]
    rfl

theorem wholeChunks_level (depth : Nat) {input : Bytes} (full : input.length = chunkLen * 2 ^ depth) :
    hashMany (wholeChunks input).1 (chunkLen / blockLen) key flags chunkStart chunkEnd =
      (merger key flags).level depth input ∧
      (wholeChunks input).2 = [] := by
  induction depth generalizing input with
  | zero =>
    have length : input.length = chunkLen := full
    have single : wholeChunks input = ([input], []) := by
      rw [wholeChunks, dif_pos length.ge, List.drop_of_length_le length.le, List.take_of_length_le length.le,
        wholeChunks,
        dif_neg (by decide)]
    rw [single]
    refine ⟨?_, rfl⟩
    rw [hashMany, List.map_singleton, hashOne_chunk key flags length, ← treeOutput_chunk key flags length.le]
    rfl
  | succ depth ih =>
    obtain ⟨left, right⟩ := Merger.halves (m := merger key flags) full
    have split := wholeChunks_append (2 ^ depth) left (input.drop (input.length / 2))
    rw [List.take_append_drop] at split
    rw [split, hashMany, List.map_append]
    exact ⟨congrArg₂ _ (ih left).1 (ih right).1, (ih right).2⟩

theorem compressChunksParallel_level (depth : Nat) {input : Bytes} (full : input.length = chunkLen * 2 ^ depth) :
    compressChunksParallel input key flags = (merger key flags).level depth input := by
  obtain ⟨chunks, none⟩ := @wholeChunks_level key flags depth input full
  rw [compressChunksParallel]
  simp only [chunks, none, List.length_nil, lt_self_iff_false, if_false]

theorem compressParentsParallel_eq {values : List Bytes} (sized : ∀ value ∈ values, value.length = 32) :
    compressParentsParallel values key flags = (merger key flags).pairUp values := by
  induction values using parentsArray.induct with
  | case1 left right rest ih =>
    have block : (left ++ right).length = blockLen := by
      rw [List.length_append, sized left (by simp), sized right (by simp)]
      rfl
    have further := ih fun value member => sized value (List.mem_cons_of_mem _ (List.mem_cons_of_mem _ member))
    have first : compressParentsParallel (left :: right :: rest) key flags =
        hashOne (left ++ right) 1 key (flags ||| parent) 0 0 :: compressParentsParallel rest key flags := rfl
    rw [first, further, hashOne_parent key flags block]
    rfl
  | case2 rest single =>
    cases rest with
    | nil => rfl
    | cons left rest =>
      cases rest with
      | nil => rfl
      | cons right rest => exact absurd rfl (single left right rest)

theorem length_of_mem_level {depth : Nat} {input value : Bytes}
    (member : value ∈ (merger key flags).level depth input) :
    value.length = 32 := by
  induction depth generalizing input with
  | zero =>
    rw [List.mem_singleton.mp member]
    exact length_chainingValue _
  | succ depth ih => exact (List.mem_append.mp member).elim ih ih

theorem compressParentsParallel_level (depth : Nat) {input : Bytes} {height : Nat}
    (full : input.length = chunkLen * 2 ^ (height + depth + 1)) :
    compressParentsParallel ((merger key flags).level (depth + 1) input) key flags =
      (merger key flags).level depth input := by
  rw [compressParentsParallel_eq fun value => length_of_mem_level]
  exact Merger.pairUp_level depth full

theorem compressSubtreeWide_level {degree log : Nat} [NeZero degree] (power : degree = 2 ^ log) (height : Nat)
    {input : Bytes}
    (full : input.length = chunkLen * 2 ^ height) :
    compressSubtreeWide degree input key flags = (merger key flags).level (min height (max log 1)) input := by
  induction height generalizing input with
  | zero =>
    have few : input.length ≤ degree * chunkLen := by
      rw [full, power, Nat.mul_comm]
      exact Nat.mul_le_mul_right _ Nat.one_le_two_pow
    rw [compressSubtreeWide, dif_pos few, compressChunksParallel_level 0 full, Nat.zero_min]
  | succ height ih =>
    by_cases few : height + 1 ≤ log
    next =>
      have within : input.length ≤ degree * chunkLen := by
        rw [full, power, Nat.mul_comm]
        exact Nat.mul_le_mul_right _ (Nat.pow_le_pow_right Nat.two_pos few)
      rw [compressSubtreeWide, dif_pos within, compressChunksParallel_level (height + 1) full,
        Nat.min_eq_left (by omega)]
    next =>
      have beyond : ¬input.length ≤ degree * chunkLen := by
        rw [full, power, Nat.mul_comm, not_le]
        exact Nat.mul_lt_mul_of_pos_right (Nat.pow_lt_pow_right one_lt_two (by omega)) (by decide)
      have twice : input.length = chunkLen * 2 ^ height + chunkLen * 2 ^ height := by
        rw [full, Nat.pow_succ, ← Nat.mul_assoc]
        omega
      have place : leftLen input.length = input.length / 2 := by
        rw [twice, leftLen_eq (Nat.mul_pos (by decide) (Nat.two_pow_pos _)) le_rfl]
        omega
      have half : input.length / 2 = chunkLen * 2 ^ height := by omega
      obtain ⟨left, right⟩ := Merger.halves (m := merger key flags) full
      have joined (depth : Nat) : (merger key flags).level depth (input.take (input.length / 2)) ++
          (merger key flags).level depth (input.drop (input.length / 2)) =
            (merger key flags).level (depth + 1) input := rfl
      rw [compressSubtreeWide, dif_neg beyond]
      simp only [place, ih left, ih right, Merger.length_level]
      cases height with
      | zero =>
        obtain rfl : log = 0 := by omega
        have width : (if chunkLen < input.length / 2 ∧ degree = 1 then 2 else degree) = 1 := by
          rw [if_neg (by rw [half]; simp), power]
          rfl
        rw [width, Nat.zero_min, pow_zero, if_pos rfl, Nat.sub_self, List.replicate_zero, List.append_nil, joined]
        exact List.take_of_length_le (by simp)
      | succ height =>
        have depth : min (height + 1) (max log 1) = max log 1 := Nat.min_eq_right (by omega)
        have further : min (height + 1 + 1) (max log 1) = max log 1 := Nat.min_eq_right (by omega)
        have width : (if chunkLen < input.length / 2 ∧ degree = 1 then 2 else degree) = 2 ^ max log 1 := by
          have large : chunkLen < input.length / 2 := by
            rw [half]
            exact (Nat.lt_mul_iff_one_lt_right (by decide)).mpr (Nat.one_lt_two_pow (Nat.succ_ne_zero _))
          cases log with
          | zero => rw [if_pos ⟨large, power⟩]; rfl
          | succ log =>
            have several : degree ≠ 1 := power ▸ (Nat.one_lt_two_pow (Nat.succ_ne_zero _)).ne'
            rw [if_neg fun both => several both.2, power, Nat.max_eq_left (Nat.succ_pos log)]
        have several : (2 : Nat) ^ max log 1 ≠ 1 := (Nat.one_lt_two_pow (by omega)).ne'
        obtain ⟨above, exact'⟩ : ∃ above, height + 1 + 1 = above + max log 1 + 1 := ⟨height + 1 - max log 1, by omega⟩
        rw [depth, further, width, if_neg several, Nat.sub_self, List.replicate_zero, List.append_nil, joined,
          List.take_of_length_le (by rw [Merger.length_level]; omega)]
        exact compressParentsParallel_level (max log 1) (exact' ▸ full)

theorem condense_level (depth : Nat) {input : Bytes} {height : Nat}
    (full : input.length = chunkLen * 2 ^ (height + depth + 1)) :
    condense ((merger key flags).level (depth + 1) input) key flags = (merger key flags).level 1 input := by
  induction depth generalizing height with
  | zero => rw [condense, dif_neg (by simp)]
  | succ depth ih =>
    have many : 2 < ((merger key flags).level (depth + 1 + 1) input).length := by
      rw [Merger.length_level]
      exact Nat.pow_lt_pow_right one_lt_two (show 1 < depth + 1 + 1 by omega)
    rw [condense, dif_pos many, compressParentsParallel_level (depth + 1) full]
    exact @ih (height + 1) (by rw [full]; congr 2; omega)

theorem compressSubtreeToParentNode_halves {degree log : Nat} [NeZero degree] (power : degree = 2 ^ log) (height : Nat)
    {input : Bytes} (full : input.length = chunkLen * 2 ^ (height + 1)) :
    compressSubtreeToParentNode degree input key flags =
      [(treeOutput key flags (input.take (input.length / 2))).chainingValue,
        (treeOutput key flags (input.drop (input.length / 2))).chainingValue] := by
  obtain ⟨depth, deep⟩ : ∃ depth, min (height + 1) (max log 1) = depth + 1 :=
    ⟨min (height + 1) (max log 1) - 1, by omega⟩
  obtain ⟨above, exact'⟩ : ∃ above, height + 1 = above + depth + 1 := ⟨height - depth, by omega⟩
  rw [compressSubtreeToParentNode, compressSubtreeWide_level power (height + 1) full, deep,
    condense_level depth (exact' ▸ full)]
  rfl

theorem compressSubtreeToParentNode_degree (log log' height : Nat) (key : Words) (flags : UInt8) (input : Bytes)
    (full : input.length = chunkLen * 2 ^ (height + 1)) :
    compressSubtreeToParentNode (2 ^ log) input key flags = compressSubtreeToParentNode (2 ^ log') input key flags := by
  rw [@compressSubtreeToParentNode_halves key flags (2 ^ log) log _ rfl height input full,
    @compressSubtreeToParentNode_halves key flags (2 ^ log') log' _ rfl height input full]

theorem compressSubtreeToParentNode_degree_pair :
    compressSubtreeToParentNode (2 ^ 0) (List.replicate 2048 0) iv 0 =
      compressSubtreeToParentNode (2 ^ 4) (List.replicate 2048 0) iv 0 :=
  compressSubtreeToParentNode_degree 0 4 0 iv 0 (List.replicate 2048 0) List.length_replicate

end Wide

end BuildboxCommon.Blake3
