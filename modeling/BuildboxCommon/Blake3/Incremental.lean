import BuildboxCommon.Blake3.Updates

set_option autoImplicit false

namespace BuildboxCommon.Blake3

open ByteString LazyMerging Merger

theorem ChunkState.Clean.update_nil {state : ChunkState} (clean : state.Clean) : state.update [] = state := by
  rw [clean.update_eq, List.append_nil, absorb, compressBlocks_short (clean.length_held.trans_le clean.short)]
  exact clean.filled_held

namespace Hasher

variable {key : Words} {flags : UInt8} {hasher : Hasher} {blocks : List (merger key flags).Block} {tail : Bytes}

structure Absorbed (key : Words) (flags : UInt8) (hasher : Hasher) (blocks : List (merger key flags).Block)
    (tail : Bytes) :
    Prop where
  stacked : Stacked key flags hasher blocks
  chunk : hasher.chunk = ((ChunkState.init key flags).counted (count blocks)).update tail
  short : tail.length ≤ chunkLen
  begun : tail ≠ [] → Steady blocks
  waiting : tail = [] → Unmerged blocks ∧ 2 ∣ count blocks ∧ (blocks ≠ [] → 2 ≤ blocks.length)

theorem clean_counted (key : Words) (flags : UInt8) (counter : Nat) :
    ((ChunkState.init key flags).counted counter).Clean :=
  (ChunkState.clean_init key flags).counted counter

theorem Absorbed.clean (absorbed : Absorbed key flags hasher blocks tail) : hasher.chunk.Clean := by
  rw [absorbed.chunk]
  exact (clean_counted key flags _).update tail

theorem Absorbed.len (absorbed : Absorbed key flags hasher blocks tail) : hasher.chunk.len = tail.length := by
  rw [absorbed.chunk, (clean_counted key flags _).len_update]
  exact Nat.zero_add _

theorem Absorbed.counted (absorbed : Absorbed key flags hasher blocks tail) :
    hasher.chunk.chunkCounter = count blocks := by
  rw [absorbed.chunk, (clean_counted key flags _).chunkCounter_update]
  rfl

theorem Absorbed.output (absorbed : Absorbed key flags hasher blocks tail) :
    hasher.chunk.output = treeOutput key flags tail := by
  rw [absorbed.chunk, (ChunkState.clean_init key flags).output_counted, treeOutput_chunk key flags absorbed.short]
  rfl

theorem absorbed_initBase (key : Words) (flags : UInt8) : Absorbed key flags (initBase key flags) [] [] where
  stacked := ⟨rfl, rfl, rfl⟩
  chunk := (clean_counted key flags 0).update_nil.symm
  short := Nat.zero_le _
  begun := fun some => absurd rfl some
  waiting := fun _ => ⟨trivial, Nat.dvd_zero 2, fun some => absurd rfl some⟩

theorem rollUp_eq (output : Output) (stack : List Bytes) :
    rollUp key flags output stack = (merger key flags).rollUp output stack := by
  induction stack generalizing output with
  | nil => rfl
  | cons cv rest ih => exact ih _

theorem Absorbed.finalizeSeek (absorbed : Absorbed key flags hasher blocks tail) (seek outLen : Nat) :
    hasher.finalizeSeek seek outLen = .ok ((treeOutput key flags (contents blocks ++ tail)).rootBytes seek outLen) := by
  have output := absorbed.output
  unfold Hasher.finalizeSeek
  by_cases nothing : outLen = 0
  next =>
    subst nothing
    rw [if_pos rfl, Output.rootBytes, Output.rootBytesFrom, dif_neg (Nat.lt_irrefl 0)]
  next =>
    rw [if_neg nothing, absorbed.stacked.stack, absorbed.stacked.keyed, absorbed.stacked.flagged, absorbed.len, output]
    by_cases some : tail = []
    next =>
      subst some
      obtain ⟨unmerged, -, two⟩ := absorbed.waiting rfl
      match blocks, unmerged, two with
      | [], _, _ => rfl
      | [_], _, two => exact absurd (two (List.cons_ne_nil _ _)) (by simp)
      | top :: below :: rest, unmerged, _ =>
        have fits : ∀ block ∈ (below :: rest).head?, top.items.length ≤ block.items.length := by
          intro block member
          obtain rfl : below = block := Option.mem_some_iff.mp member
          rw [top.full, below.full]
          exact Nat.mul_le_mul_left _ (Nat.pow_le_pow_right Nat.two_pos unmerged.1)
        have whole := rollUp_contents unmerged.2 top.items_ne_nil fits
        simp only [List.map_cons, List.length_nil, lt_self_iff_false, if_false, List.append_nil]
        rw [rollUp_eq, contents]
        exact congrArg (fun output => Except.ok (Output.rootBytes output seek outLen)) whole
    next =>
      have fits : ∀ block ∈ blocks.head?, tail.length ≤ block.items.length := fun block _ => by
        rw [block.full]
        exact absorbed.short.trans (Nat.le_mul_of_pos_right _ (Nat.two_pow_pos _))
      have whole := rollUp_contents (absorbed.begun some) some fits
      cases blocks with
      | nil => rfl
      | cons top rest =>
        simp only [List.map_cons, if_pos (List.length_pos_of_ne_nil some)]
        rw [rollUp_eq]
        exact congrArg (fun output => Except.ok (Output.rootBytes output seek outLen)) whole

def remaining (inputLen : Nat) : Nat := if 2 * chunkLen ∣ inputLen then 0 else (inputLen - 1) % chunkLen + 1

theorem Absorbed.aligned (absorbed : Absorbed key flags hasher blocks []) : Aligned key flags hasher blocks :=
  ⟨absorbed.stacked, (absorbed.waiting rfl).1, absorbed.chunk.trans (clean_counted key flags _).update_nil⟩

theorem Absorbed.update_waiting (absorbed : Absorbed key flags hasher blocks []) (piece : Bytes)
    (small : chunkLen * count blocks + piece.length < 2 ^ 64) :
    ∃ (stack : List (merger key flags).Block) (tail : Bytes) (next : Hasher), Absorbed key flags next stack tail ∧
      contents stack ++ tail = contents blocks ++ piece ∧ tail.length = remaining piece.length ∧
      hasher.update piece = .ok next := by
  obtain ⟨-, even, -⟩ := absorbed.waiting rfl
  by_cases present : piece = []
  next =>
    subst present
    exact ⟨blocks, [], hasher, absorbed, rfl, rfl, rfl⟩
  next =>
    obtain ⟨stack, next, rest, aligned, whole, short, past, two, ran⟩ :=
      absorbed.aligned.compressSubtrees present small fun _ => even
    have positive := List.length_pos_of_ne_nil present
    have started : hasher.update piece = hasher.updateWhole piece := by
      rw [Hasher.update, if_neg positive.ne', absorbed.len, List.length_nil, if_neg (Nat.lt_irrefl 0)]
    have bytes := congrArg List.length whole
    rw [List.length_append, List.length_append, length_contents, length_contents] at bytes
    replace bytes : chunkLen * count stack + rest.length = chunkLen * count blocks + piece.length := bytes
    have divides : 2 * chunkLen ∣ chunkLen * count blocks + piece.length ↔ 2 * chunkLen ∣ piece.length := by
      refine (Nat.dvd_add_iff_right ?_).symm
      rw [Nat.mul_comm 2]
      exact Nat.mul_dvd_mul_left _ even
    have counted : next.chunk.chunkCounter = count stack := by
      rw [aligned.chunk]
      rfl
    rw [divides] at past
    rw [started, Hasher.updateWhole, ran]
    by_cases none : rest = []
    next =>
      have all := past.mp none
      subst none
      rw [remaining, if_pos all]
      refine ⟨stack, [], next, ⟨aligned.stacked, ?_, Nat.zero_le _, fun some => absurd rfl some, fun _ => ?_⟩, whole,
        rfl, rfl⟩
      next => rw [aligned.chunk, (clean_counted key flags _).update_nil]
      next =>
        rw [chunkLen] at *
        exact ⟨aligned.unmerged, by simp only [List.length_nil] at bytes; omega, fun _ => two rfl⟩
    next =>
      have some := List.length_pos_of_ne_nil none
      have clean : next.chunk.Clean := aligned.chunk ▸ clean_counted key flags _
      have stacked : Stacked key flags { next with chunk := next.chunk.update rest } stack :=
        ⟨aligned.stacked.keyed, (clean.flags_update rest).trans aligned.stacked.flagged, aligned.stacked.stack⟩
      obtain ⟨merged, steady, whole', counted', ran'⟩ :=
        stacked.mergeCvStack aligned.unmerged (by rw [chunkLen] at *; omega)
      refine ⟨merged, rest, { next with chunk := next.chunk.update rest, cvStack := merged.map Block.value },
        ⟨⟨stacked.keyed, stacked.flagged, rfl⟩, ?_, short, fun _ => steady, fun empty => absurd empty none⟩, ?_, ?_, ?_⟩
      next => rw [counted', ← aligned.chunk]
      next => rw [whole', whole]
      next =>
        rw [remaining, if_neg fun all => none (past.mpr all)]
        rw [chunkLen] at *
        omega
      next =>
        have mergedAt : (next.chunk.update rest).chunkCounter = count stack := by
          rw [clean.chunkCounter_update, counted]
        rw [← mergedAt] at ran'
        simp only [bind, Except.bind, if_pos some]
        exact ran'

theorem Absorbed.update_begun (absorbed : Absorbed key flags hasher blocks tail) (some : tail ≠ []) (piece : Bytes)
    (fits : tail.length + piece.length ≤ chunkLen) :
    ∃ next : Hasher, Absorbed key flags next blocks (tail ++ piece) ∧ hasher.update piece = .ok next := by
  by_cases present : piece = []
  next =>
    subst present
    rw [List.append_nil]
    exact ⟨hasher, absorbed, rfl⟩
  next =>
    have positive := List.length_pos_of_ne_nil present
    have held := List.length_pos_of_ne_nil some
    refine ⟨{ hasher with chunk := hasher.chunk.update piece },
      ⟨⟨absorbed.stacked.keyed, ?_, absorbed.stacked.stack⟩, ?_, ?_,
      fun _ => absorbed.begun some, fun empty => absurd (List.append_eq_nil_iff.mp empty).1 some⟩, ?_⟩
    next => exact (absorbed.clean.flags_update piece).trans absorbed.stacked.flagged
    next => rw [absorbed.chunk, (clean_counted key flags _).update_update]
    next => rwa [List.length_append]
    next =>
      have take : (if piece.length < chunkLen - tail.length then piece.length else chunkLen - tail.length) =
        piece.length := by
        split <;> omega
      rw [Hasher.update, if_neg positive.ne', absorbed.len, if_pos held]
      simp only [take, List.take_length, List.drop_length, List.length_nil, lt_self_iff_false, if_false]
      rfl

section Crossing

variable {rest : Bytes}

theorem mergeCvStack_underflow (some : hasher.cvStack ≠ []) : hasher.mergeCvStack 0 = .error .undefined := by
  obtain ⟨top, below, stack⟩ := List.exists_cons_of_ne_nil some
  have bits : popcnt 0 = 0 := by decide
  rw [mergeCvStack, stack]
  simp only [bits, mergeLoop_underflow]
  rfl

theorem pushCv_underflow (some : hasher.cvStack ≠ []) (newCv : Bytes) : hasher.pushCv newCv 0 = .error .undefined := by
  rw [pushCv, mergeCvStack_underflow some]
  rfl

theorem pushSubtree_underflow (some : hasher.cvStack ≠ []) (lost : hasher.chunk.chunkCounter = 0) (subtree : Bytes) :
    hasher.pushSubtree subtree = .error .undefined := by
  rw [pushSubtree, lost]
  split
  next => exact pushCv_underflow some _
  next =>
    simp only [pushCv_underflow some]
    rfl

theorem updateWhole_underflow (some : hasher.cvStack ≠ []) (lost : hasher.chunk.chunkCounter = 0)
    (clean : hasher.chunk.Clean) (present : rest ≠ []) : hasher.updateWhole rest = .error .undefined := by
  have positive := List.length_pos_of_ne_nil present
  rw [updateWhole]
  by_cases large : chunkLen < rest.length
  next =>
    rw [compressSubtrees, dif_pos large]
    simp only [pushSubtree_underflow some lost]
    rfl
  next =>
    rw [compressSubtrees_short (not_lt.mp large)]
    simp only [bind, Except.bind, if_pos positive, clean.chunkCounter_update, lost]
    exact mergeCvStack_underflow some

end Crossing

theorem Absorbed.update_crossing (absorbed : Absorbed key flags hasher blocks tail) (some : tail ≠ []) {piece : Bytes}
    (crosses : chunkLen < tail.length + piece.length) (few : count blocks < 2 ^ maxDepth) :
    hasher.update piece = .error .undefined := by
  have held := List.length_pos_of_ne_nil some
  have short := absorbed.short
  have positive : 0 < piece.length := by omega
  have take : (if piece.length < chunkLen - tail.length then piece.length else chunkLen - tail.length) =
      chunkLen - tail.length := if_neg (by omega)
  have past : piece.drop (chunkLen - tail.length) ≠ [] := by
    rw [← List.length_pos_iff, List.length_drop]
    omega
  have full : (tail ++ piece.take (chunkLen - tail.length)).length = chunkLen * 2 ^ 0 := by
    rw [List.length_append, List.length_take]
    omega
  have stacked : Stacked key flags
    { hasher with chunk := hasher.chunk.update (piece.take (chunkLen - tail.length)) } blocks :=
    ⟨absorbed.stacked.keyed, (absorbed.clean.flags_update _).trans absorbed.stacked.flagged, absorbed.stacked.stack⟩
  have value : (hasher.chunk.update (piece.take (chunkLen - tail.length))).output.chainingValue =
      Block.value (m := merger key flags) ⟨0, tail ++ piece.take (chunkLen - tail.length), full⟩ := by
    rw [absorbed.chunk, (clean_counted key flags _).update_update, (ChunkState.clean_init key flags).output_counted]
    exact (congrArg Output.chainingValue (treeOutput_chunk key flags full.le)).symm
  obtain ⟨stack, -, -, counted, -, ran⟩ := stacked.pushCv (absorbed.begun some).unmerged few
    ⟨0, tail ++ piece.take (chunkLen - tail.length), full⟩ (Nat.one_dvd _)
  replace counted : count stack = count blocks + 1 := counted
  have stored : stack.map Block.value ≠ [] := by
    rintro none
    rw [List.map_eq_nil_iff] at none
    subst none
    rw [count_nil] at counted
    omega
  rw [← value] at ran
  rw [Hasher.update, if_neg positive.ne', absorbed.len, if_pos held]
  simp only [take, if_pos (List.length_pos_of_ne_nil past), absorbed.clean.chunkCounter_update, absorbed.counted, ran]
  exact updateWhole_underflow stored rfl ⟨Nat.zero_le _, rfl, rfl⟩ past

theorem updates_cons (hasher : Hasher) (piece : Bytes) (pieces : List Bytes) :
    hasher.updates (piece :: pieces) = hasher.update piece >>= fun next => next.updates pieces := rfl

theorem Absorbed.updates_begun {pieces : List Bytes} (absorbed : Absorbed key flags hasher blocks tail)
    (some : tail ≠ [])
    (fits : tail.length + pieces.flatten.length ≤ chunkLen) :
    ∃ next : Hasher, Absorbed key flags next blocks (tail ++ pieces.flatten) ∧ hasher.updates pieces = .ok next := by
  induction pieces generalizing hasher tail with
  | nil =>
    rw [List.flatten_nil, List.append_nil]
    exact ⟨hasher, absorbed, rfl⟩
  | cons piece pieces ih =>
    rw [List.flatten_cons, List.length_append] at fits
    obtain ⟨next, absorbed', ran⟩ := absorbed.update_begun some piece (by omega)
    obtain ⟨last, absorbed'', ran'⟩ := ih absorbed' (by simp [some]) (by rw [List.length_append]; omega)
    rw [List.append_assoc] at absorbed''
    exact ⟨last, absorbed'', by rw [updates_cons, ran]; exact ran'⟩

theorem Absorbed.updates_crossing {pieces : List Bytes} (absorbed : Absorbed key flags hasher blocks tail)
    (some : tail ≠ [])
    (crosses : chunkLen < tail.length + pieces.flatten.length) (few : count blocks < 2 ^ maxDepth) :
    hasher.updates pieces = .error .undefined := by
  induction pieces generalizing hasher tail with
  | nil =>
    have short := absorbed.short
    simp only [List.flatten_nil, List.length_nil] at crosses
    omega
  | cons piece pieces ih =>
    rw [List.flatten_cons, List.length_append] at crosses
    rw [updates_cons]
    by_cases fits : tail.length + piece.length ≤ chunkLen
    next =>
      obtain ⟨next, absorbed', ran⟩ := absorbed.update_begun some _ fits
      rw [ran]
      exact ih absorbed' (by simp [some]) (by rw [List.length_append]; omega)
    next =>
      rw [absorbed.update_crossing some (not_le.mp fits) few]
      rfl

-- All pieces behind the first one that does not end with an even number of chunks stay in the chunk that it begins.
def Uncrossed (pieces : List Bytes) : Prop :=
  match pieces.dropWhile fun piece => 2 * chunkLen ∣ piece.length with
  | [] => True
  | piece :: later => (piece.length - 1) % chunkLen + 1 + later.flatten.length ≤ chunkLen

instance (pieces : List Bytes) : Decidable (Uncrossed pieces) := by
  unfold Uncrossed
  split <;> infer_instance

theorem uncrossed_cons_of_dvd {piece : Bytes} (even : 2 * chunkLen ∣ piece.length) (pieces : List Bytes) :
    Uncrossed (piece :: pieces) ↔ Uncrossed pieces := by
  rw [Uncrossed, Uncrossed, List.dropWhile_cons_of_pos (by simpa using even)]

theorem uncrossed_cons_of_not_dvd {piece : Bytes} (odd : ¬2 * chunkLen ∣ piece.length) (pieces : List Bytes) :
    Uncrossed (piece :: pieces) ↔ remaining piece.length + pieces.flatten.length ≤ chunkLen := by
  rw [Uncrossed, List.dropWhile_cons_of_neg (by simpa using odd), remaining, if_neg odd]

theorem Absorbed.updates_waiting (absorbed : Absorbed key flags hasher blocks []) (pieces : List Bytes)
    (small : chunkLen * count blocks + pieces.flatten.length < 2 ^ 64) :
    (Uncrossed pieces → ∃ (stack : List (merger key flags).Block) (tail : Bytes) (last : Hasher),
      Absorbed key flags last stack tail ∧ contents stack ++ tail = contents blocks ++ pieces.flatten ∧
        hasher.updates pieces = .ok last) ∧
    (¬Uncrossed pieces → hasher.updates pieces = .error .undefined) := by
  induction pieces generalizing hasher blocks with
  | nil => exact ⟨fun _ => ⟨blocks, [], hasher, absorbed, rfl, rfl⟩, fun crossed => absurd trivial crossed⟩
  | cons piece pieces ih =>
    rw [List.flatten_cons, List.length_append] at small
    obtain ⟨stack, tail, next, absorbed', whole, left, ran⟩ := absorbed.update_waiting piece (by omega)
    have bytes := congrArg List.length whole
    rw [List.length_append, List.length_append, length_contents, length_contents] at bytes
    replace bytes : chunkLen * count stack + tail.length = chunkLen * count blocks + piece.length := bytes
    rw [updates_cons, ran]
    by_cases even : 2 * chunkLen ∣ piece.length
    next =>
      obtain rfl : tail = [] := List.length_eq_zero_iff.mp (left.trans (if_pos even))
      rw [uncrossed_cons_of_dvd even]
      rw [List.length_nil] at bytes
      obtain ⟨fine, broken⟩ := ih absorbed' (by omega)
      refine ⟨fun uncrossed => ?_, broken⟩
      obtain ⟨stack', tail', last, absorbed'', whole', ran'⟩ := fine uncrossed
      rw [List.append_nil] at whole
      exact ⟨stack', tail', last, absorbed'', by rw [whole', whole, List.append_assoc, List.flatten_cons], ran'⟩
    next =>
      have some : tail ≠ [] := by
        rintro rfl
        rw [remaining, if_neg even] at left
        exact Nat.succ_ne_zero _ left.symm
      rw [uncrossed_cons_of_not_dvd even, ← left]
      constructor
      next =>
        intro fits
        obtain ⟨last, absorbed'', ran'⟩ := absorbed'.updates_begun some fits
        refine ⟨stack, _, last, absorbed'', ?_, ran'⟩
        rw [← List.append_assoc, whole, List.append_assoc, List.flatten_cons]
      next =>
        intro crosses
        exact absorbed'.updates_crossing some (not_le.mp crosses)
          (by rw [chunkLen] at bytes small; rw [maxDepth]; omega)

theorem initBase_updates (key : Words) (flags : UInt8) {pieces : List Bytes} (small : pieces.flatten.length < 2 ^ 64) :
    (Uncrossed pieces → ∃ hasher : Hasher, (initBase key flags).updates pieces = .ok hasher ∧ ∀ seek outLen,
      hasher.finalizeSeek seek outLen = .ok ((treeOutput key flags pieces.flatten).rootBytes seek outLen)) ∧
    (¬Uncrossed pieces → (initBase key flags).updates pieces = .error .undefined) := by
  obtain ⟨fine, broken⟩ := (absorbed_initBase key flags).updates_waiting pieces (by simpa using small)
  refine ⟨fun uncrossed => ?_, broken⟩
  obtain ⟨stack, tail, hasher, absorbed, whole, ran⟩ := fine uncrossed
  refine ⟨hasher, ran, fun seek outLen => ?_⟩
  rw [absorbed.finalizeSeek, whole]
  rfl

theorem updates_finalizeSeek (key : Words) (flags : UInt8) (pieces : List Bytes)
    (small : pieces.flatten.length < 2 ^ 64)
    (seek outLen : Nat) :
    ((initBase key flags).updates pieces >>= fun hasher => hasher.finalizeSeek seek outLen) =
      if Uncrossed pieces then .ok ((treeOutput key flags pieces.flatten).rootBytes seek outLen) else
        .error .undefined := by
  obtain ⟨fine, broken⟩ := initBase_updates key flags small
  split
  next uncrossed =>
    obtain ⟨hasher, ran, result⟩ := fine uncrossed
    rw [ran]
    exact result seek outLen
  next crossed =>
    rw [broken crossed]
    rfl

theorem updates_finalizeSeek_chunk :
    ((initBase iv 0).updates [List.replicate 1000 0, List.replicate 25 0] >>= fun hasher => hasher.finalizeSeek 0 32) =
      .error .undefined :=
  (updates_finalizeSeek iv 0 [List.replicate 1000 0, List.replicate 25 0] (by decide +kernel) 0 32).trans
    (if_neg (by decide +kernel))

theorem uncrossed_single (piece : Bytes) : Uncrossed [piece] := by
  by_cases even : 2 * chunkLen ∣ piece.length
  next => exact (uncrossed_cons_of_dvd even []).mpr trivial
  next =>
    rw [uncrossed_cons_of_not_dvd even, remaining, if_neg even]
    exact Nat.mod_lt _ (by decide)

end Hasher

end BuildboxCommon.Blake3
