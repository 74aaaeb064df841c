import BuildboxCommon.Blake3.ExtendedOutput
import Mathlib.Data.List.Chain

set_option autoImplicit false

namespace BuildboxCommon.Blake3

open ByteString

namespace Output

def words (self : Output) : Words := compressInPlace self.inputCv self.block self.blockLen self.flags

def rooted (self : Output) : Output := { self with flags := self.flags ||| root }

def Follows (later earlier : Output) : Prop := later.inputCv = earlier.words

end Output

def Collision (first second : List Output) : Prop :=
  ∃ x ∈ first, ∃ y ∈ second, x ≠ y ∧ x.chainingValue = y.chainingValue

theorem Collision.mono {first second first' second' : List Output} (collision : Collision first second)
    (more : first ⊆ first') (more' : second ⊆ second') : Collision first' second' := by
  obtain ⟨x, left, y, right, both⟩ := collision
  exact ⟨x, more left, y, more' right, both⟩

theorem prefix_or_collision {latest : Output} {first second : List Output}
    (chain : (latest :: first).IsChain Output.Follows)
    (chain' : (latest :: second).IsChain Output.Follows) :
    first <+: second ∨ second <+: first ∨ Collision first second := by
  induction first generalizing latest second with
  | nil => exact .inl (List.nil_prefix)
  | cons x first ih =>
    cases second with
    | nil => exact .inr (.inl List.nil_prefix)
    | cons y second =>
      rw [List.isChain_cons_cons] at chain chain'
      by_cases same : x = y
      next =>
        subst same
        rcases ih chain.2 chain'.2 with shorter | longer | collision
        next => exact .inl ((List.prefix_cons_inj x).mpr shorter)
        next => exact .inr (.inl ((List.prefix_cons_inj x).mpr longer))
        next => exact .inr (.inr (collision.mono (List.subset_cons_self _ _) (List.subset_cons_self _ _)))
      next =>
        have words : x.words = y.words := chain.1.symm.trans chain'.1
        exact .inr (.inr ⟨x, List.mem_cons_self, y, List.mem_cons_self, same, congrArg storeCvWords words⟩)

def Plain (flags : UInt8) : Prop := flags &&& 15 = 0

theorem Plain.or_and {flags : UInt8} (plain : Plain flags) (marks : UInt8) :
    (flags ||| marks) &&& 15 = marks &&& 15 := by
  have distributed : (flags ||| marks) &&& 15 = (flags &&& 15) ||| (marks &&& 15) :=
    UInt8.toBitVec_inj.mp BitVec.and_or_distrib_right
  rw [distributed, plain, UInt8.zero_or]

def Starts (output : Output) : Prop :=
  output.flags &&& 15 = chunkStart ∨ output.flags &&& 15 = chunkStart ||| chunkEnd

namespace ChunkState

def blockOutputs (self : ChunkState) (input : Bytes) : List Output :=
  if _more : blockLen < input.length then
    ⟨self.cv, input.take blockLen, blockLen, self.flags ||| self.maybeStartFlag⟩ ::
      blockOutputs (self.compressBlock (input.take blockLen)) (input.drop blockLen)
  else []
termination_by input.length
decreasing_by
  rw [List.length_drop]
  rw [blockLen] at _more ⊢
  omega

def outputs (self : ChunkState) (input : Bytes) : List Output := self.blockOutputs input ++ [(self.absorb input).output]

variable {state : ChunkState} {input : Bytes}

theorem outputs_long (long : blockLen < input.length) :
    state.outputs input = ⟨state.cv, input.take blockLen, blockLen, state.flags ||| state.maybeStartFlag⟩ ::
      (state.compressBlock (input.take blockLen)).outputs (input.drop blockLen) := by
  rw [outputs, blockOutputs, dif_pos long, absorb, compressBlocks_long long]
  rfl

theorem outputs_short (short : input.length ≤ blockLen) : state.outputs input = [(state.filled input).output] := by
  rw [outputs, blockOutputs, dif_neg (not_lt.mpr short), absorb, compressBlocks_short short]
  rfl

theorem inputCv_outputs (state : ChunkState) (input : Bytes) :
    ∀ first ∈ (state.outputs input).head?, first.inputCv = state.cv := by
  intro first member
  by_cases long : blockLen < input.length
  next =>
    rw [outputs_long long, List.head?_cons, Option.mem_some_iff] at member
    rw [← member]
  next =>
    rw [outputs_short (not_lt.mp long), List.head?_cons, Option.mem_some_iff] at member
    rw [← member]
    rfl

theorem isChain_outputs (state : ChunkState) (input : Bytes) :
    (state.outputs input).IsChain fun earlier later => Output.Follows later earlier := by
  induction state, input using compressBlocks.induct with
  | case1 state input long ih =>
    rw [outputs_long long, List.isChain_cons]
    exact ⟨fun later member => inputCv_outputs _ _ later member, ih⟩
  | case2 state input short =>
    rw [outputs_short (not_lt.mp short)]
    exact List.isChain_singleton _

theorem flatMap_outputs (state : ChunkState) (input : Bytes) :
    (state.outputs input).flatMap (fun output => output.block.take output.blockLen) = input := by
  induction state, input using compressBlocks.induct with
  | case1 state input long ih =>
    rw [outputs_long long, List.flatMap_cons, ih, List.take_of_length_le (List.length_take_le _ _),
      List.take_append_drop]
  | case2 state input short =>
    rw [outputs_short (not_lt.mp short)]
    simp [filled, output]

theorem flags_outputs (plain : Plain state.flags) (begun : state.blocksCompressed ≠ 0) (input : Bytes) :
    ∀ output ∈ state.outputs input, ¬Starts output := by
  induction state, input using compressBlocks.induct with
  | case1 state input long ih =>
    have none : state.maybeStartFlag = 0 := if_neg begun
    intro output member
    rw [outputs_long long, none, List.mem_cons] at member
    rcases member with rfl | later
    next =>
      rw [Starts, plain.or_and]
      decide
    next => exact ih plain (Nat.succ_ne_zero _) output later
  | case2 state input short =>
    have none : (state.filled input).maybeStartFlag = 0 := if_neg begun
    intro output member
    rw [outputs_short (not_lt.mp short), List.mem_singleton] at member
    subst member
    have marks : (state.filled input).output.flags = state.flags ||| (0 ||| chunkEnd) := by
      rw [ChunkState.output, none]
      exact UInt8.or_assoc _ _ _
    rw [Starts, marks, plain.or_and]
    decide

end ChunkState

open ChunkState

variable {key : Words} {flags : UInt8}

def chunkOutputs (key : Words) (flags : UInt8) (chunk : Bytes) : List Output :=
  (ChunkState.init key flags).outputs chunk

theorem chunkOutputs_eq (key : Words) (flags : UInt8) (chunk : Bytes) :
    chunkOutputs key flags chunk = (ChunkState.init key flags).blockOutputs chunk ++ [chunkOutput key flags chunk] := by
  rw [chunkOutputs, outputs, chunkOutput, (clean_init key flags).update_eq]
  rfl

theorem flags_chunkOutputs (plain : Plain flags) (chunk : Bytes) :
    ∃ first later, chunkOutputs key flags chunk = first :: later ∧ Starts first ∧ ∀ output ∈ later, ¬Starts output := by
  by_cases long : blockLen < chunk.length
  next =>
    refine ⟨_, _, outputs_long long, .inl (plain.or_and chunkStart), ?_⟩
    exact flags_outputs plain (Nat.succ_ne_zero _) _
  next =>
    refine ⟨_, [], outputs_short (not_lt.mp long), .inr ?_, fun output member => absurd member List.not_mem_nil⟩
    have marks : ((ChunkState.init key flags).filled chunk).output.flags = flags ||| (chunkStart ||| chunkEnd) :=
      UInt8.or_assoc _ _ _
    rw [marks]
    exact plain.or_and _

theorem chunkOutputs_eq_of_suffix (plain : Plain flags) {chunk chunk' : Bytes}
    (suffix : chunkOutputs key flags chunk <:+ chunkOutputs key flags chunk') :
    chunkOutputs key flags chunk = chunkOutputs key flags chunk' := by
  obtain ⟨first, later, blocks, start, -⟩ := @flags_chunkOutputs key flags plain chunk
  obtain ⟨first', later', blocks', -, others⟩ := @flags_chunkOutputs key flags plain chunk'
  rw [blocks, blocks'] at suffix ⊢
  rcases List.suffix_cons_iff.mp suffix with same | inside
  next => exact same
  next =>
    exact absurd start (others first (inside.subset List.mem_cons_self))

theorem chunk_eq_or_collision (plain : Plain flags) {chunk chunk' : Bytes}
    (same : chunkOutput key flags chunk = chunkOutput key flags chunk') :
    chunk = chunk' ∨ Collision ((ChunkState.init key flags).blockOutputs chunk)
      ((ChunkState.init key flags).blockOutputs chunk') := by
  have chain (chunk : Bytes) :
    (chunkOutput key flags chunk :: ((ChunkState.init key flags).blockOutputs chunk).reverse).IsChain
      Output.Follows := by
    have forward := isChain_outputs (ChunkState.init key flags) chunk
    rw [← List.isChain_reverse] at forward
    have blocks := chunkOutputs_eq key flags chunk
    rw [chunkOutputs] at blocks
    rwa [blocks, List.reverse_append] at forward
  have equal (chunk chunk' : Bytes) (all : chunkOutputs key flags chunk = chunkOutputs key flags chunk') :
    chunk = chunk' := by
    have first := flatMap_outputs (ChunkState.init key flags) chunk
    have second := flatMap_outputs (ChunkState.init key flags) chunk'
    rw [chunkOutputs, chunkOutputs] at all
    rw [← first, all, second]
  have whole {chunk chunk' : Bytes} (same : chunkOutput key flags chunk = chunkOutput key flags chunk')
      (shorter : ((ChunkState.init key flags).blockOutputs chunk).reverse <+:
        ((ChunkState.init key flags).blockOutputs chunk').reverse) :
      chunk = chunk' := by
    refine equal chunk chunk' (chunkOutputs_eq_of_suffix plain ?_)
    rw [chunkOutputs_eq, chunkOutputs_eq, same]
    obtain ⟨more, split⟩ := List.reverse_prefix.mp shorter
    exact ⟨more, by rw [← List.append_assoc, split]⟩
  rcases prefix_or_collision (chain chunk) (same ▸ chain chunk') with shorter | longer | collision
  next => exact .inl (whole same shorter)
  next => exact .inl (whole same.symm longer).symm
  next =>
    refine .inr (collision.mono ?_ ?_)
    next => exact fun output member => List.mem_reverse.mp member
    next => exact fun output member => List.mem_reverse.mp member

def compressions (key : Words) (flags : UInt8) (input : Bytes) : List Output :=
  if _large : chunkLen < input.length then
    treeOutput key flags (input.take (leftLen input.length)) ::
      compressions key flags (input.take (leftLen input.length)) ++
      treeOutput key flags (input.drop (leftLen input.length)) ::
        compressions key flags (input.drop (leftLen input.length))
  else (ChunkState.init key flags).blockOutputs input
termination_by input.length
decreasing_by
  all_goals
    have left := leftLen_lt _large
    have some := leftLen_pos input.length
    simp only [List.length_take, List.length_drop]
    omega

theorem compressions_large {input : Bytes} (large : chunkLen < input.length) :
    compressions key flags input =
      treeOutput key flags (input.take (leftLen input.length)) ::
        compressions key flags (input.take (leftLen input.length)) ++
        treeOutput key flags (input.drop (leftLen input.length)) ::
          compressions key flags (input.drop (leftLen input.length)) := by
  rw [compressions, dif_pos large]

theorem treeOutput_large {input : Bytes} (large : chunkLen < input.length) :
    treeOutput key flags input =
      parentOutput ((treeOutput key flags (input.take (leftLen input.length))).chainingValue ++
        (treeOutput key flags (input.drop (leftLen input.length))).chainingValue) key flags := by
  rw [treeOutput, dif_pos large]

theorem flags_treeOutput (key : Words) (flags : UInt8) (input : Bytes) :
    ∃ marks ∈ [parent, chunkEnd, chunkStart ||| chunkEnd], (treeOutput key flags input).flags = flags ||| marks ∧
      (marks = parent ↔ chunkLen < input.length) := by
  by_cases large : chunkLen < input.length
  next =>
    rw [treeOutput_large large]
    exact ⟨parent, by simp, rfl, iff_of_true rfl large⟩
  next =>
    have unchanged := (clean_init key flags).flags_update input
    rw [treeOutput_chunk key flags (not_lt.mp large), chunkOutput, ChunkState.output, unchanged, maybeStartFlag]
    split
    next => exact ⟨chunkStart ||| chunkEnd, by simp, UInt8.or_assoc _ _ _, iff_of_false (by decide) large⟩
    next => exact ⟨chunkEnd, by simp, by rw [UInt8.or_zero]; rfl, iff_of_false (by decide) large⟩

theorem eq_of_rooted (plain : Plain flags) {input input' : Bytes}
    (same : (treeOutput key flags input).rooted = (treeOutput key flags input').rooted) :
    treeOutput key flags input = treeOutput key flags input' ∧
      (chunkLen < input.length ↔ chunkLen < input'.length) := by
  obtain ⟨marks, listed, marked, tall⟩ := flags_treeOutput key flags input
  obtain ⟨marks', listed', marked', tall'⟩ := flags_treeOutput key flags input'
  have apart : ∀ marks ∈ [parent, chunkEnd, chunkStart ||| chunkEnd],
    ∀ marks' ∈ [parent, chunkEnd, chunkStart ||| chunkEnd],
      (marks ||| root) &&& 15 = (marks' ||| root) &&& 15 → marks = marks' := by decide +kernel
  have flagged := congrArg (fun output => output.flags &&& 15) same
  simp only [Output.rooted, marked, marked', UInt8.or_assoc, plain.or_and] at flagged
  obtain rfl := apart marks listed marks' listed' flagged
  refine ⟨?_, tall.symm.trans tall'⟩
  have same' := Output.mk.inj same
  generalize treeOutput key flags input = output at same' marked ⊢
  generalize treeOutput key flags input' = output' at same' marked' ⊢
  obtain ⟨inputCv, block, blockLen, flags'⟩ := output
  obtain ⟨inputCv', block', blockLen', flags''⟩ := output'
  exact Output.mk.injEq _ _ _ _ _ _ _ _ |>.mpr ⟨same'.1, same'.2.1, same'.2.2.1, marked.trans marked'.symm⟩

theorem tree_eq_or_collision (plain : Plain flags) {input input' : Bytes}
    (same : treeOutput key flags input = treeOutput key flags input') :
    input = input' ∨ Collision (compressions key flags input) (compressions key flags input') := by
  induction size : input.length using Nat.strong_induction_on generalizing input input' with
  | _ size ih =>
    subst size
    have alike := (eq_of_rooted plain (congrArg Output.rooted same)).2
    by_cases large : chunkLen < input.length
    next =>
      have large' := alike.mp large
      have shorter := leftLen_lt large
      have some := leftLen_pos input.length
      rw [treeOutput_large large, treeOutput_large large'] at same
      obtain ⟨left, right⟩ := List.append_inj (congrArg Output.block same) (by simp)
      have part {part part' : Bytes} (less : part.length < input.length)
          (equal : (treeOutput key flags part).chainingValue = (treeOutput key flags part').chainingValue) :
          part = part' ∨ Collision (treeOutput key flags part :: compressions key flags part)
            (treeOutput key flags part' :: compressions key flags part') := by
        by_cases top : treeOutput key flags part = treeOutput key flags part'
        next =>
          exact (ih _ less top rfl).imp_right fun collision =>
            collision.mono (List.subset_cons_self _ _) (List.subset_cons_self _ _)
        next => exact .inr ⟨_, List.mem_cons_self, _, List.mem_cons_self, top, equal⟩
      rw [compressions_large large, compressions_large large']
      rcases part (by rw [List.length_take]; omega) left with front | collision
      next =>
        rcases part (by rw [List.length_drop]; omega) right with back | collision
        next =>
          left
          rw [← List.take_append_drop (leftLen input.length) input, front, back, List.take_append_drop]
        next => exact .inr (collision.mono (List.subset_append_right _ _) (List.subset_append_right _ _))
      next => exact .inr (collision.mono (List.subset_append_left _ _) (List.subset_append_left _ _))
    next =>
      have large' := alike.not.mp large
      rw [treeOutput_chunk key flags (not_lt.mp large), treeOutput_chunk key flags (not_lt.mp large')] at same
      rw [compressions, dif_neg large, compressions, dif_neg large']
      exact chunk_eq_or_collision plain same

theorem take_compressXof (cv : Words) (block : Bytes) (blockLen : Nat) (flags : UInt8) :
    (compressXof cv block blockLen flags).take outLen = storeCvWords (compressInPlace cv block blockLen flags) := by
  rw [compressXof, compressInPlace]
  exact List.take_left' (length_storeCvWords _)

theorem chainingValue_rooted (output : Output) : output.rooted.chainingValue = output.rootBytes 0 outLen := by
  rw [Output.rootBytes_eq, around_within (by rw [output.length_wideBuf]; decide), List.drop_zero, Output.wideBuf,
    take_compressXof]
  rfl

def hashCompressions (key : Words) (flags : UInt8) (input : Bytes) : List Output :=
  (treeOutput key flags input).rooted :: compressions key flags input

theorem hash_eq_or_collision (plain : Plain flags) {input input' : Bytes}
    (same : (treeOutput key flags input).rootBytes 0 outLen = (treeOutput key flags input').rootBytes 0 outLen) :
    input = input' ∨ Collision (hashCompressions key flags input) (hashCompressions key flags input') := by
  rw [← chainingValue_rooted, ← chainingValue_rooted] at same
  by_cases top : (treeOutput key flags input).rooted = (treeOutput key flags input').rooted
  next =>
    exact (tree_eq_or_collision plain (eq_of_rooted plain top).1).imp_right fun collision =>
      collision.mono (List.subset_cons_self _ _) (List.subset_cons_self _ _)
  next => exact .inr ⟨_, List.mem_cons_self, _, List.mem_cons_self, top, same⟩

end BuildboxCommon.Blake3
