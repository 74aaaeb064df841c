import BuildboxCommon.Blake3.Hasher

set_option autoImplicit false

namespace BuildboxCommon.Blake3

open ByteString

namespace ChunkState

def held (self : ChunkState) : Bytes := self.buf.take self.bufLen

structure Clean (state : ChunkState) : Prop where
  short : state.bufLen ≤ blockLen
  length_held : state.held.length = state.bufLen
  padded : state.buf = state.held ++ List.replicate (blockLen - state.bufLen) 0

def emptied (self : ChunkState) : ChunkState := { self with buf := emptyBuf, bufLen := 0 }

def filled (self : ChunkState) (block : Bytes) : ChunkState :=
  { self with buf := block ++ List.replicate (blockLen - block.length) 0, bufLen := block.length }

def absorb (self : ChunkState) (input : Bytes) : ChunkState :=
  (self.compressBlocks input).1.filled (self.compressBlocks input).2

variable {state : ChunkState}

theorem clean_init (key : Words) (flags : UInt8) : (init key flags).Clean := ⟨Nat.zero_le _, rfl, rfl⟩

@[simp] theorem held_init (key : Words) (flags : UInt8) : (init key flags).held = [] := rfl

@[simp] theorem emptied_init (key : Words) (flags : UInt8) : (init key flags).emptied = init key flags := rfl

@[simp] theorem held_filled (state : ChunkState) (block : Bytes) : (state.filled block).held = block := by
  simp [held, filled]

theorem clean_filled (state : ChunkState) {block : Bytes} (short : block.length ≤ blockLen) :
    (state.filled block).Clean :=
  ⟨short, by rw [held_filled]; rfl, by rw [held_filled]; rfl⟩

theorem Clean.filled_held (clean : state.Clean) : state.emptied.filled state.held = state := by
  simp only [filled, clean.length_held, ← clean.padded]
  rfl

theorem Clean.fillBuf_eq (clean : state.Clean) (input : Bytes) :
    state.fillBuf input = (state.emptied.filled (state.held ++ input.take (blockLen - state.bufLen)),
      (input.take (blockLen - state.bufLen)).length) := by
  have length := clean.length_held
  have take : (if input.length < blockLen - state.bufLen then input.length else blockLen - state.bufLen) =
      (input.take (blockLen - state.bufLen)).length := by
    rw [List.length_take]
    split <;> omega
  have taken : input.take (input.take (blockLen - state.bufLen)).length = input.take (blockLen - state.bufLen) := by
    rw [List.length_take, ← List.take_eq_take_min]
  have rest : state.buf.drop (state.bufLen + (input.take (blockLen - state.bufLen)).length) =
      List.replicate (blockLen - (state.held ++ input.take (blockLen - state.bufLen)).length) 0 := by
    rw [clean.padded, ← List.drop_drop, List.drop_left' length, List.drop_replicate, List.length_append, length]
    congr 1
    omega
  unfold fillBuf
  simp only [take, taken, rest]
  rw [filled, List.length_append, length]
  rfl

theorem fillBuf_emptied (state : ChunkState) {input : Bytes} (short : input.length ≤ blockLen) :
    (state.emptied.fillBuf input).1 = state.filled input := by
  have clean : state.emptied.Clean := ⟨Nat.zero_le _, rfl, rfl⟩
  have room : state.emptied.bufLen = 0 := rfl
  have none : state.emptied.held = [] := rfl
  rw [clean.fillBuf_eq, room, none, Nat.sub_zero, List.take_of_length_le short]
  rfl

@[simp] theorem compressBlock_emptied (state : ChunkState) (block : Bytes) :
    state.emptied.compressBlock block = (state.compressBlock block).emptied := rfl

theorem compressBlocks_short {input : Bytes} (short : input.length ≤ blockLen) :
    state.compressBlocks input = (state, input) := by
  rw [compressBlocks, dif_neg (not_lt.mpr short)]

theorem compressBlocks_long {input : Bytes} (long : blockLen < input.length) :
    state.compressBlocks input = (state.compressBlock (input.take blockLen)).compressBlocks (input.drop blockLen) := by
  rw [compressBlocks, dif_pos long]

theorem compressBlocks_rest (state : ChunkState) (input : Bytes) :
    (state.compressBlocks input).2.length ≤ blockLen := by
  induction state, input using compressBlocks.induct with
  | case1 state input long ih => rwa [compressBlocks_long long]
  | case2 state input short =>
    rw [compressBlocks_short (not_lt.mp short)]
    exact not_lt.mp short

theorem compressBlocks_emptied (state : ChunkState) (input : Bytes) :
    state.emptied.compressBlocks input = ((state.compressBlocks input).1.emptied, (state.compressBlocks input).2) := by
  induction state, input using compressBlocks.induct with
  | case1 state input long ih => rw [compressBlocks_long long, compressBlocks_long long, compressBlock_emptied, ih]
  | case2 state input short => rw [compressBlocks_short (not_lt.mp short), compressBlocks_short (not_lt.mp short)]

theorem compressBlocks_append (state : ChunkState) (input more : Bytes) :
    state.compressBlocks (input ++ more) =
      (state.compressBlocks input).1.compressBlocks ((state.compressBlocks input).2 ++ more) := by
  induction state, input using compressBlocks.induct with
  | case1 state input long ih =>
    have longer : blockLen < (input ++ more).length := by
      rw [List.length_append]
      omega
    rw [compressBlocks_long longer, compressBlocks_long long, List.take_append_of_le_length long.le,
      List.drop_append_of_le_length long.le, ih]
  | case2 state input short => rw [compressBlocks_short (not_lt.mp short)]

theorem clean_absorb (state : ChunkState) (input : Bytes) : (state.absorb input).Clean :=
  clean_filled _ (compressBlocks_rest state input)

theorem absorb_emptied (state : ChunkState) (input : Bytes) : state.emptied.absorb input = state.absorb input := by
  rw [absorb, compressBlocks_emptied]
  rfl

theorem absorb_append (state : ChunkState) (input more : Bytes) :
    (state.absorb input).emptied.absorb ((state.absorb input).held ++ more) = state.absorb (input ++ more) := by
  have same (block rest : Bytes) : ((state.compressBlocks input).1.filled block).absorb rest =
      (state.compressBlocks input).1.absorb rest := by
    rw [← absorb_emptied, ← absorb_emptied (state.compressBlocks input).1]
    rfl
  have whole : state.absorb (input ++ more) =
      (state.compressBlocks input).1.absorb ((state.compressBlocks input).2 ++ more) := by
    rw [absorb, compressBlocks_append]
    rfl
  rw [whole, absorb_emptied, ← same (state.compressBlocks input).2]
  congr 2
  exact held_filled _ _

theorem Clean.update_eq (clean : state.Clean) (input : Bytes) :
    state.update input = state.emptied.absorb (state.held ++ input) := by
  have length := clean.length_held
  have last (state : ChunkState) (input : Bytes) :
      ((state.emptied.compressBlocks input).1.fillBuf (state.emptied.compressBlocks input).2).1 =
        state.emptied.absorb input := by
    rw [absorb, compressBlocks_emptied]
    exact fillBuf_emptied _ (compressBlocks_rest state input)
  by_cases some : 0 < state.bufLen
  next =>
    by_cases past : blockLen - state.bufLen < input.length
    next =>
      have full : (state.held ++ input.take (blockLen - state.bufLen)).length = blockLen := by
        have short := clean.short
        rw [List.length_append, List.length_take, length]
        omega
      have long : blockLen < (state.held ++ input).length := by
        rw [List.length_append, length]
        omega
      have block : (state.held ++ input).take blockLen = state.held ++ input.take (blockLen - state.bufLen) := by
        rw [List.take_append, length, List.take_of_length_le (length.trans_le clean.short)]
      have rest : (state.held ++ input).drop blockLen = input.drop (blockLen - state.bufLen) := by
        rw [List.drop_append, length, List.drop_of_length_le (length.trans_le clean.short), List.nil_append]
      have further : 0 < (input.drop (input.take (blockLen - state.bufLen)).length).length := by
        rw [List.length_drop, List.length_take]
        omega
      have dropped : input.drop (input.take (blockLen - state.bufLen)).length =
        input.drop (blockLen - state.bufLen) := by
        rw [List.length_take, Nat.min_eq_left past.le]
      simp only [update, if_pos some, clean.fillBuf_eq, if_pos further]
      have cleared : { (state.emptied.filled (state.held ++ input.take (blockLen - state.bufLen))).compressBlock
          (state.emptied.filled (state.held ++ input.take (blockLen - state.bufLen))).buf with
            bufLen := 0, buf := emptyBuf } =
          (state.emptied.compressBlock ((state.held ++ input).take blockLen)).emptied := by
        rw [block]
        simp only [filled, full, Nat.sub_self, List.replicate_zero, List.append_nil]
        rfl
      rw [cleared, last, dropped, ← rest, absorb_emptied, absorb, absorb, compressBlocks_long long]
    next =>
      have all : input.take (blockLen - state.bufLen) = input := List.take_of_length_le (not_lt.mp past)
      have short : (state.held ++ input).length ≤ blockLen := by
        have bounded := clean.short
        rw [List.length_append, length]
        omega
      simp only [update, if_pos some, clean.fillBuf_eq, all, List.drop_length, List.length_nil, lt_self_iff_false,
        if_false]
      have filled := clean_filled state.emptied short
      rw [compressBlocks_short (Nat.zero_le _), filled.fillBuf_eq, held_filled, List.take_nil, List.append_nil, absorb,
        compressBlocks_short short]
      rfl
  next =>
    have none : state.bufLen = 0 := Nat.eq_zero_of_not_pos some
    have nothing : state.held = [] := by rw [held, none, List.take_zero]
    have self : state.emptied = state := by
      have same := clean.filled_held
      rw [nothing] at same
      exact same
    simp only [update, if_neg some]
    rw [nothing, List.nil_append, ← last state input, self]

theorem Clean.update (clean : state.Clean) (input : Bytes) : (state.update input).Clean := by
  rw [clean.update_eq]
  exact clean_absorb _ _

theorem Clean.update_update (clean : state.Clean) (input more : Bytes) :
    (state.update input).update more = state.update (input ++ more) := by
  rw [(clean.update input).update_eq, clean.update_eq, absorb_append, clean.update_eq, List.append_assoc]

theorem compressBlocks_unchanged (state : ChunkState) (input : Bytes) :
    (state.compressBlocks input).1.flags = state.flags ∧
      (state.compressBlocks input).1.chunkCounter = state.chunkCounter := by
  induction state, input using compressBlocks.induct with
  | case1 state input long ih => rwa [compressBlocks_long long]
  | case2 state input short => simp [compressBlocks_short (not_lt.mp short)]

theorem compressBlocks_count (state : ChunkState) (input : Bytes) :
    blockLen * (state.compressBlocks input).1.blocksCompressed + (state.compressBlocks input).2.length =
      blockLen * state.blocksCompressed + input.length := by
  induction state, input using compressBlocks.induct with
  | case1 state input long ih =>
    rw [compressBlocks_long long, ih, List.length_drop, compressBlock, Nat.mul_add, Nat.mul_one]
    omega
  | case2 state input short => rw [compressBlocks_short (not_lt.mp short)]

theorem Clean.len_update (clean : state.Clean) (input : Bytes) :
    (state.update input).len = state.len + input.length := by
  rw [clean.update_eq, absorb, len]
  have count := compressBlocks_count state.emptied (state.held ++ input)
  rw [List.length_append, clean.length_held] at count
  simp only [filled, len]
  rw [count, ← Nat.add_assoc]
  rfl

theorem Clean.flags_update (clean : state.Clean) (input : Bytes) : (state.update input).flags = state.flags := by
  rw [clean.update_eq]
  exact (compressBlocks_unchanged _ _).1

theorem Clean.chunkCounter_update (clean : state.Clean) (input : Bytes) :
    (state.update input).chunkCounter = state.chunkCounter := by
  rw [clean.update_eq]
  exact (compressBlocks_unchanged _ _).2

def counted (self : ChunkState) (counter : Nat) : ChunkState := { self with chunkCounter := counter }

theorem compressBlocks_counted (state : ChunkState) (counter : Nat) (input : Bytes) :
    (state.counted counter).compressBlocks input =
      ((state.compressBlocks input).1.counted counter, (state.compressBlocks input).2) := by
  induction state, input using compressBlocks.induct with
  | case1 state input long ih =>
    rw [compressBlocks_long long, compressBlocks_long long, ← ih]
    rfl
  | case2 state input short => rw [compressBlocks_short (not_lt.mp short), compressBlocks_short (not_lt.mp short)]

theorem Clean.counted (clean : state.Clean) (counter : Nat) : (state.counted counter).Clean :=
  ⟨clean.short, clean.length_held, clean.padded⟩

theorem Clean.output_counted (clean : state.Clean) (counter : Nat) (input : Bytes) :
    ((state.counted counter).update input).output = (state.update input).output := by
  have same : (state.counted counter).emptied = state.emptied.counted counter := rfl
  rw [(clean.counted counter).update_eq, clean.update_eq, absorb, same, compressBlocks_counted]
  rfl

theorem absorb_hashOneLoop (blocks : Nat) {input : Bytes} (whole : input.length = blockLen * (blocks + 1)) :
    (state.absorb input).output.chainingValue =
      storeCvWords (hashOneLoop state.cv input (state.flags ||| state.maybeStartFlag) state.flags chunkEnd
        (blocks + 1)) := by
  induction blocks generalizing state input with
  | zero =>
    have length : input.length = blockLen := by omega
    rw [absorb, compressBlocks_short length.le, hashOneLoop, if_pos rfl, List.take_of_length_le length.le]
    simp [hashOneLoop, filled, output, Output.chainingValue, length, maybeStartFlag]
  | succ blocks ih =>
    have long : blockLen < input.length := by
      rw [whole, blockLen]
      omega
    have rest : (input.drop blockLen).length = blockLen * (blocks + 1) := by
      rw [List.length_drop, whole, Nat.mul_add]
      omega
    have step := @ih (state.compressBlock (input.take blockLen)) (input.drop blockLen) rest
    have later : (state.compressBlock (input.take blockLen)).maybeStartFlag = 0 := if_neg (Nat.succ_ne_zero _)
    rw [absorb, compressBlocks_long long]
    rw [absorb, later, UInt8.or_zero] at step
    rw [step]
    rfl

end ChunkState

def chunkOutput (key : Words) (flags : UInt8) (chunk : Bytes) : Output :=
  ((ChunkState.init key flags).update chunk).output

theorem hashOne_chunk (key : Words) (flags : UInt8) {chunk : Bytes} (whole : chunk.length = chunkLen) :
    hashOne chunk (chunkLen / blockLen) key flags chunkStart chunkEnd =
      (chunkOutput key flags chunk).chainingValue := by
  have clean := ChunkState.clean_init key flags
  rw [chunkOutput, clean.update_eq, ChunkState.held_init, List.nil_append, ChunkState.emptied_init,
    ChunkState.absorb_hashOneLoop 15 whole]
  rfl

theorem hashOne_parent (key : Words) (flags : UInt8) {block : Bytes} (whole : block.length = blockLen) :
    hashOne block 1 key (flags ||| parent) 0 0 = (parentOutput block key flags).chainingValue := by
  simp [hashOne, hashOneLoop, parentOutput, Output.chainingValue, List.take_of_length_le whole.le]

end BuildboxCommon.Blake3
