import BuildboxCommon.Blake3.Subtrees

set_option autoImplicit false

namespace BuildboxCommon.Blake3

open ByteString LazyMerging Merger

theorem popcnt_eq {x : Nat} (small : x < 2 ^ 64) : popcnt x = ones x := by
  rw [popcnt, List.countP_eq_length_filter, ones]
  refine List.Perm.length_eq
    ((List.perm_ext_iff_of_nodup (List.nodup_range.filter _) Nat.bitIndices_nodup).mpr fun index => ?_)
  rw [List.mem_filter, List.mem_range, Nat.mem_bitIndices, and_iff_right_iff_imp]
  intro set
  by_contra beyond
  have low := Nat.ge_two_pow_of_testBit set
  have high := Nat.pow_le_pow_right Nat.two_pos (not_lt.mp beyond)
  omega

namespace Hasher

variable {key : Words} {flags : UInt8} {hasher : Hasher} {blocks : List (merger key flags).Block}

-- Without any bits set the loop runs down to the bottom and beyond it.
theorem mergeLoop_underflow (key : Words) (flags : UInt8) (top : Bytes) (rest : List Bytes) :
    mergeLoop key flags 0 top rest = .error .undefined := by
  induction rest generalizing top with
  | nil => rfl
  | cons below rest ih => exact ih _

theorem mergeLoop_steady {block : (merger key flags).Block} {below : List (merger key flags).Block}
    (steady : Steady (block :: below)) :
    mergeLoop key flags (ones (count (block :: below))) block.value (below.map Block.value) =
      .ok ((block :: below).map Block.value) := by
  have same := steady.ones_count
  cases below with
  | nil => rw [same]; rfl
  | cons next rest =>
    rw [same, List.map_cons, mergeLoop, if_neg (by simp)]
    rfl

theorem mergeLoop_merged {block : (merger key flags).Block} {below : List (merger key flags).Block}
    (unmerged : Unmerged (block :: below)) :
    ∃ merged : List (merger key flags).Block, Steady merged ∧ contents merged = contents (block :: below) ∧
      count merged = count (block :: below) ∧
      mergeLoop key flags (ones (count (block :: below))) block.value (below.map Block.value) =
        .ok (merged.map Block.value) := by
  induction below generalizing block with
  | nil => exact ⟨[block], steady_single block, rfl, rfl, mergeLoop_steady (steady_single block)⟩
  | cons next rest ih =>
    by_cases same : block.height = next.height
    next =>
      have fewer := unmerged.ones_count_lt_iff.mpr same
      obtain ⟨merged, steady, whole, counted, ran⟩ := ih (unmerged.join same)
      rw [contents_join] at whole
      rw [count_join] at counted ran
      refine ⟨merged, steady, whole, counted, ?_⟩
      rw [List.map_cons, mergeLoop, if_pos (by rwa [List.length_map]), ← ran, Block.value_join]
      rfl
    next =>
      have steady := steady_cons_iff.mpr ⟨lt_of_le_of_ne unmerged.1 same, unmerged.2⟩
      exact ⟨block :: next :: rest, steady, rfl, rfl, mergeLoop_steady steady⟩

structure Stacked (key : Words) (flags : UInt8) (hasher : Hasher) (blocks : List (merger key flags).Block) : Prop where
  keyed : hasher.key = key
  flagged : hasher.chunk.flags = flags
  stack : hasher.cvStack = blocks.map Block.value

theorem Stacked.mergeCvStack (stacked : Stacked key flags hasher blocks) (unmerged : Unmerged blocks)
    (small : count blocks < 2 ^ 64) :
    ∃ merged : List (merger key flags).Block, Steady merged ∧ contents merged = contents blocks ∧
      count merged = count blocks ∧
      hasher.mergeCvStack (count blocks) = .ok { hasher with cvStack := merged.map Block.value } := by
  obtain ⟨keyed, flagged, stack⟩ := stacked
  obtain ⟨hasherKey, chunk, cvStack⟩ := hasher
  obtain rfl : hasherKey = key := keyed
  obtain rfl : chunk.flags = flags := flagged
  obtain rfl : cvStack = blocks.map Block.value := stack
  cases blocks with
  | nil => exact ⟨[], List.Pairwise.nil, rfl, rfl, rfl⟩
  | cons block below =>
    obtain ⟨merged, steady, whole, counted, ran⟩ := mergeLoop_merged unmerged
    refine ⟨merged, steady, whole, counted, ?_⟩
    rw [← popcnt_eq small] at ran
    exact congrArg (· >>= _) ran

theorem Stacked.pushCv (stacked : Stacked key flags hasher blocks) (unmerged : Unmerged blocks)
    (few : count blocks < 2 ^ maxDepth) (block : (merger key flags).Block) (aligned : 2 ^ block.height ∣ count blocks) :
    ∃ stack : List (merger key flags).Block, Unmerged stack ∧ contents stack = contents blocks ++ block.items ∧
      count stack = count blocks + 2 ^ block.height ∧ (blocks ≠ [] → 2 ≤ stack.length) ∧
      hasher.pushCv block.value (count blocks) = .ok { hasher with cvStack := stack.map Block.value } := by
  obtain ⟨merged, steady, whole, counted, ran⟩ := stacked.mergeCvStack unmerged (few.trans (by decide))
  have places : (merged.map Block.value).length ≤ maxDepth := by
    rw [List.length_map, ← steady.ones_count, counted]
    exact ones_le few
  refine ⟨block :: merged, ?_, by rw [contents, whole], by rw [count_cons, counted, Nat.add_comm], fun some => ?_, ?_⟩
  next =>
    cases merged with
    | nil => trivial
    | cons below rest => exact ⟨steady.height_le (counted ▸ aligned), steady⟩
  next =>
    cases merged with
    | nil =>
      obtain ⟨first, others, rfl⟩ := List.exists_cons_of_ne_nil some
      have positive := Nat.two_pow_pos first.height
      rw [count_nil, count_cons] at counted
      omega
    | cons below rest => simp
  next =>
    unfold Hasher.pushCv
    rw [ran]
    exact if_pos places

theorem Stacked.pushSubtree (stacked : Stacked key flags hasher blocks) (unmerged : Unmerged blocks)
    (counted : hasher.chunk.chunkCounter = count blocks) {height : Nat} {subtree : Bytes}
    (full : subtree.length = chunkLen * 2 ^ height) (aligned : 2 ^ height ∣ count blocks)
    (few : count blocks + 2 ^ height ≤ 2 ^ maxDepth) :
    ∃ stack : List (merger key flags).Block, Unmerged stack ∧ contents stack = contents blocks ++ subtree ∧
      count stack = count blocks + 2 ^ height ∧ (height ≠ 0 → 2 ≤ stack.length) ∧
      hasher.pushSubtree subtree = .ok { hasher with cvStack := stack.map Block.value } := by
  have positive := Nat.two_pow_pos height
  have room : count blocks < 2 ^ maxDepth := by omega
  cases height with
  | zero =>
    have short : subtree.length ≤ chunkLen := full.le
    have clean := ChunkState.clean_init key flags
    obtain ⟨stack, unmerged', whole, sum, -, ran⟩ := stacked.pushCv unmerged room ⟨0, subtree, full⟩ aligned
    refine ⟨stack, unmerged', whole, sum, fun tall => absurd rfl tall, ?_⟩
    have value : (((ChunkState.init key flags).counted (count blocks)).update subtree).output.chainingValue =
        Block.value (m := merger key flags) ⟨0, subtree, full⟩ := by
      rw [clean.output_counted]
      exact (congrArg Output.chainingValue (treeOutput_chunk key flags short)).symm
    rw [← value] at ran
    have pushed : hasher.pushSubtree subtree =
        hasher.pushCv (((ChunkState.init key flags).counted (count blocks)).update subtree).output.chainingValue
          (count blocks) := by
      rw [Hasher.pushSubtree, if_pos short, stacked.keyed, stacked.flagged, counted]
      rfl
    exact pushed.trans ran
  | succ height =>
    have long : ¬subtree.length ≤ chunkLen := by
      rw [full, not_le]
      exact (Nat.lt_mul_iff_one_lt_right (by decide)).mpr (Nat.one_lt_two_pow (Nat.succ_ne_zero _))
    have half : 2 ^ height ∣ count blocks := (Nat.pow_dvd_pow 2 (Nat.le_succ height)).trans aligned
    have twice : 2 ^ (height + 1) = 2 ^ height + 2 ^ height := by
      rw [Nat.pow_succ]
      omega
    obtain ⟨left, right⟩ := halves (m := merger key flags) full
    obtain ⟨first, unmerged', whole, sum, -, ran⟩ :=
      stacked.pushCv unmerged room ⟨height, subtree.take (subtree.length / 2), left⟩ half
    have stacked' : Stacked key flags { hasher with cvStack := first.map Block.value } first :=
      ⟨stacked.keyed, stacked.flagged, rfl⟩
    replace sum : count first = count blocks + 2 ^ height := sum
    have more := Nat.two_pow_pos height
    have some : first ≠ [] := by
      rintro rfl
      rw [count_nil] at sum
      omega
    obtain ⟨second, unmerged'', whole', sum', two, ran'⟩ := stacked'.pushCv unmerged' (by omega)
      ⟨height, subtree.drop (subtree.length / 2), right⟩ (sum ▸ Nat.dvd_add half (Nat.dvd_refl _))
    replace sum' : count second = count first + 2 ^ height := sum'
    refine ⟨second, unmerged'', ?_, by omega, fun _ => two some, ?_⟩
    next => rw [whole', whole, List.append_assoc, List.take_append_drop]
    next =>
      have bounded : (2 : Nat) ^ maxDepth < 2 ^ 64 := by decide
      have chunks : (hasher.chunk.chunkCounter + subtree.length / chunkLen / 2) % 2 ^ 64 = count first := by
        rw [counted, full, Nat.mul_div_cancel_left _ (by decide), Nat.mod_eq_of_lt (by omega)]
        omega
      have pushed : hasher.pushSubtree subtree = (do
          let first ← hasher.pushCv (treeOutput key flags (subtree.take (subtree.length / 2))).chainingValue
            (count blocks)
          first.pushCv (treeOutput key flags (subtree.drop (subtree.length / 2))).chainingValue
            ((first.chunk.chunkCounter + subtree.length / chunkLen / 2) % 2 ^ 64)) := by
        rw [Hasher.pushSubtree, if_neg long, stacked.keyed, stacked.flagged,
          @compressSubtreeToParentNode_halves key flags simdDegree 0 _ rfl height subtree full, counted]
        rfl
      rw [← chunks] at ran'
      rw [pushed]
      exact (congrArg (· >>= _) ran).trans ran'

theorem shrink_eq (countSoFar size : Nat) :
    ∃ shrunk, shrunk ≤ size ∧ shrink countSoFar (2 ^ size) = 2 ^ shrunk ∧ 2 ^ shrunk ∣ countSoFar ∧
      ∀ other ≤ size, 2 ^ other ∣ countSoFar → other ≤ shrunk := by
  have mask (size : Nat) : (2 ^ size - 1) &&& countSoFar ≠ 0 ↔ ¬2 ^ size ∣ countSoFar := by
    rw [Nat.and_comm, Nat.and_two_pow_sub_one_eq_mod, Nat.dvd_iff_mod_eq_zero]
  induction size with
  | zero =>
    refine ⟨0, le_rfl, ?_, Nat.one_dvd _, fun other low _ => low⟩
    rw [shrink, dif_neg (by rw [mask, not_not]; exact Nat.one_dvd _)]
  | succ size ih =>
    by_cases divides : 2 ^ (size + 1) ∣ countSoFar
    next =>
      refine ⟨size + 1, le_rfl, ?_, divides, fun other low _ => low⟩
      rw [shrink, dif_neg (by rwa [mask, not_not])]
    next =>
      obtain ⟨shrunk, low, result, aligned, largest⟩ := ih
      refine ⟨shrunk, low.trans (Nat.le_succ size), ?_, aligned, fun other bounded divided => ?_⟩
      next => rw [shrink, dif_pos ((mask _).mpr divides), Nat.pow_succ, Nat.mul_div_cancel _ Nat.two_pos, result]
      next =>
        refine largest other (Nat.le_of_lt_succ (lt_of_le_of_ne bounded ?_)) divided
        rintro rfl
        exact divides divided

theorem subtreeLen_eq {chunks inputLen : Nat} (counted : hasher.chunk.chunkCounter = chunks)
    (large : chunkLen < inputLen)
    (small : chunkLen * chunks < 2 ^ 64) :
    ∃ height, hasher.subtreeLen inputLen = chunkLen * 2 ^ height ∧ chunkLen * 2 ^ height ≤ inputLen ∧
      2 ^ height ∣ chunks ∧
      (2 ∣ chunks → 2 * chunkLen ≤ inputLen → height ≠ 0) := by
  have positive : 0 < inputLen := Nat.zero_lt_of_lt large
  have chunk : chunkLen = 2 ^ 10 := rfl
  have fits {size : Nat} (within : 2 ^ size ≤ inputLen) : size ≤ Nat.log2 inputLen :=
    (Nat.le_log2 positive.ne').mpr within
  obtain ⟨shrunk, low, result, aligned, largest⟩ := shrink_eq (chunks * chunkLen) (Nat.log2 inputLen)
  have one := largest 10 (fits large.le) (chunk ▸ Nat.dvd_mul_left _ _)
  obtain ⟨height, rfl⟩ := Nat.exists_eq_add_of_le one
  have sized : chunkLen * 2 ^ height = 2 ^ (10 + height) := by rw [chunk, Nat.pow_add]
  refine ⟨height, ?_, ?_, ?_, fun even two => ?_⟩
  next => rw [subtreeLen, counted, roundDownToPowerOf2_eq positive, Nat.mod_eq_of_lt (by rwa [Nat.mul_comm]),
    result, sized]
  next =>
    rw [sized]
    exact (Nat.pow_le_pow_right Nat.two_pos low).trans (Nat.log2_self_le positive.ne')
  next =>
    rw [Nat.pow_add, Nat.mul_comm, ← chunk] at aligned
    exact Nat.dvd_of_mul_dvd_mul_right (by decide) aligned
  next =>
    have both := largest 11 (fits two) (by
      rw [show (2 : Nat) ^ 11 = 2 * chunkLen from rfl]
      exact Nat.mul_dvd_mul even (Nat.dvd_refl _))
    omega

theorem compressSubtrees_short {input : Bytes} (short : input.length ≤ chunkLen) :
    hasher.compressSubtrees input = .ok (hasher, input) := by
  rw [compressSubtrees, dif_neg (not_lt.mpr short)]
  rfl

structure Aligned (key : Words) (flags : UInt8) (hasher : Hasher) (blocks : List (merger key flags).Block) : Prop where
  stacked : Stacked key flags hasher blocks
  unmerged : Unmerged blocks
  chunk : hasher.chunk = (ChunkState.init key flags).counted (count blocks)

theorem Aligned.pushSubtree (aligned : Aligned key flags hasher blocks) {height : Nat} {subtree : Bytes}
    (full : subtree.length = chunkLen * 2 ^ height) (fits : 2 ^ height ∣ count blocks)
    (few : count blocks + 2 ^ height ≤ 2 ^ maxDepth) :
    ∃ (stack : List (merger key flags).Block) (next : Hasher), Aligned key flags (next.advance (2 ^ height)) stack ∧
      contents stack = contents blocks ++ subtree ∧ count stack = count blocks + 2 ^ height ∧
      (height ≠ 0 → 2 ≤ stack.length) ∧ hasher.pushSubtree subtree = .ok next := by
  have counted : hasher.chunk.chunkCounter = count blocks := by
    rw [aligned.chunk]
    rfl
  obtain ⟨stack, unmerged, whole, sum, two, ran⟩ :=
    aligned.stacked.pushSubtree aligned.unmerged counted full fits few
  refine ⟨stack, { hasher with cvStack := stack.map Block.value },
    ⟨⟨aligned.stacked.keyed, aligned.stacked.flagged, rfl⟩, unmerged, ?_⟩, whole, sum, two, ran⟩
  have bounded : (2 : Nat) ^ maxDepth < 2 ^ 64 := by decide
  have chunks : (count blocks + 2 ^ height) % 2 ^ 64 = count stack := by
    rw [Nat.mod_eq_of_lt (by omega), sum]
  rw [← chunks]
  simp only [advance, aligned.chunk]
  rfl

theorem Aligned.compressSubtrees (aligned : Aligned key flags hasher blocks) {input : Bytes} (present : input ≠ [])
    (small : chunkLen * count blocks + input.length < 2 ^ 64) (even : input.length = chunkLen → 2 ∣ count blocks) :
    ∃ (stack : List (merger key flags).Block) (next : Hasher) (rest : Bytes), Aligned key flags next stack ∧
      contents stack ++ rest = contents blocks ++ input ∧ rest.length ≤ chunkLen ∧
      (rest = [] ↔ 2 * chunkLen ∣ chunkLen * count blocks + input.length) ∧ (rest = [] → 2 ≤ stack.length) ∧
      hasher.compressSubtrees input = .ok (next, rest) := by
  induction size : input.length using Nat.strong_induction_on generalizing hasher blocks input with
  | _ size ih =>
    subst size
    have positive := List.length_pos_of_ne_nil present
    by_cases large : chunkLen < input.length
    next =>
      have counted : hasher.chunk.chunkCounter = count blocks := by
        rw [aligned.chunk]
        rfl
      obtain ⟨height, sized, within, fits, two⟩ := subtreeLen_eq counted large (by omega)
      have some := Nat.two_pow_pos height
      have full : (input.take (hasher.subtreeLen input.length)).length = chunkLen * 2 ^ height := by
        rw [List.length_take, sized, Nat.min_eq_left within]
      have few : count blocks + 2 ^ height ≤ 2 ^ maxDepth := by
        have bounded : (2 : Nat) ^ 64 = chunkLen * 2 ^ maxDepth := rfl
        have scaled : chunkLen * (count blocks + 2 ^ height) ≤ chunkLen * 2 ^ maxDepth := by
          rw [Nat.mul_add]
          omega
        exact Nat.le_of_mul_le_mul_left scaled (by decide)
      obtain ⟨stack, next, aligned', whole, sum, several, ran⟩ := aligned.pushSubtree full fits few
      have chunks : hasher.subtreeLen input.length / chunkLen = 2 ^ height := by
        rw [sized, Nat.mul_div_cancel_left _ (by decide)]
      have step : hasher.compressSubtrees input =
          (next.advance (2 ^ height)).compressSubtrees (input.drop (hasher.subtreeLen input.length)) := by
        rw [Hasher.compressSubtrees, dif_pos large]
        simp only [ran, chunks]
        rfl
      have total : chunkLen * count stack + (input.drop (hasher.subtreeLen input.length)).length =
          chunkLen * count blocks + input.length := by
        rw [sum, List.length_drop, sized, Nat.mul_add]
        omega
      have even' (tall : height ≠ 0) : 2 ∣ count stack := by
        have two : 2 ∣ 2 ^ height := dvd_pow_self 2 tall
        rw [sum]
        exact Nat.dvd_add (two.trans fits) two
      rw [step]
      by_cases last : input.drop (hasher.subtreeLen input.length) = []
      next =>
        rw [last, List.length_nil, Nat.add_zero] at total
        have tall : height ≠ 0 := by
          rintro rfl
          rw [List.drop_eq_nil_iff, sized] at last
          omega
        rw [last] at step ⊢
        refine ⟨stack, _, [], aligned', ?_, Nat.zero_le _, ?_, fun _ => several tall,
          compressSubtrees_short (Nat.zero_le _)⟩
        next =>
          rw [List.append_nil, whole, List.take_of_length_le (List.drop_eq_nil_iff.mp last)]
        next =>
          refine iff_of_true rfl ?_
          rw [← total, Nat.mul_comm 2]
          exact Nat.mul_dvd_mul_left _ (even' tall)
      next =>
        have shorter : (input.drop (hasher.subtreeLen input.length)).length < input.length := by
          rw [List.length_drop, sized]
          have some' := Nat.mul_pos (show 0 < chunkLen by decide) some
          omega
        have even'' (single : (input.drop (hasher.subtreeLen input.length)).length = chunkLen) : 2 ∣ count stack := by
          by_cases tall : height = 0
          next =>
            subst tall
            rw [List.length_drop, sized, Nat.pow_zero, Nat.mul_one] at single
            have odd : ¬2 ∣ count blocks := fun even => two even (by omega) rfl
            omega
          next => exact even' tall
        obtain ⟨stack', next', rest, aligned'', whole', short, past, several', ran'⟩ :=
          ih _ shorter aligned' last (by omega) even'' rfl
        refine ⟨stack', next', rest, aligned'', ?_, short, total ▸ past, several', ran'⟩
        rw [whole', whole, List.append_assoc, List.take_append_drop]
    next =>
      have short := not_lt.mp large
      refine ⟨blocks, hasher, input, aligned, rfl, short, ?_, fun none => absurd none present,
        compressSubtrees_short short⟩
      refine iff_of_false present fun divides => ?_
      rw [chunkLen] at short even divides
      omega

end Hasher

end BuildboxCommon.Blake3
