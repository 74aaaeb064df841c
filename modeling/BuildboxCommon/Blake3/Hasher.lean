import BuildboxCommon.Blake3.Compression
import BuildboxCommon.Exceptions

set_option autoImplicit false

namespace BuildboxCommon.Blake3

open ByteString

structure Output where
  inputCv : Words
  block : Bytes
  blockLen : Nat
  flags : UInt8

namespace Output

def chainingValue (self : Output) : Bytes :=
  storeCvWords (compressInPlace self.inputCv self.block self.blockLen self.flags)

def wideBuf (self : Output) : Bytes := compressXof self.inputCv self.block self.blockLen (self.flags ||| root)

-- Each round gets the same bytes, as the counter of the output blocks is not used.
def rootBytesFrom (self : Output) (offsetWithinBlock : Fin 64) (outLen : Nat) : Bytes :=
  if _more : 0 < outLen then
    let availableBytes := 64 - offsetWithinBlock.val
    let memcpyLen := if availableBytes < outLen then availableBytes else outLen
    (self.wideBuf.drop offsetWithinBlock).take memcpyLen ++ rootBytesFrom self 0 (outLen - memcpyLen)
  else []
termination_by outLen
decreasing_by
  have inside := offsetWithinBlock.isLt
  split <;> omega

def rootBytes (self : Output) (seek outLen : Nat) : Bytes := self.rootBytesFrom (Fin.ofNat 64 seek) outLen

end Output

def parentOutput (block : Bytes) (key : Words) (flags : UInt8) : Output := ⟨key, block, blockLen, flags ||| parent⟩

structure ChunkState where
  cv : Words
  chunkCounter : Nat
  buf : Bytes
  bufLen : Nat
  blocksCompressed : Nat
  flags : UInt8

namespace ChunkState

def emptyBuf : Bytes := List.replicate blockLen 0

def init (key : Words) (flags : UInt8) : ChunkState := ⟨key, 0, emptyBuf, 0, 0, flags⟩

-- The counter that is handed over is not used.
def reset (self : ChunkState) (key : Words) (_chunkCounter : Nat) : ChunkState :=
  { self with cv := key, chunkCounter := 0, blocksCompressed := 0, buf := emptyBuf, bufLen := 0 }

def len (self : ChunkState) : Nat := blockLen * self.blocksCompressed + self.bufLen

def maybeStartFlag (self : ChunkState) : UInt8 := if self.blocksCompressed = 0 then chunkStart else 0

def fillBuf (self : ChunkState) (input : Bytes) : ChunkState × Nat :=
  let take := if input.length < blockLen - self.bufLen then input.length else blockLen - self.bufLen
  ({ self with
      buf := self.buf.take self.bufLen ++ input.take take ++ self.buf.drop (self.bufLen + take)
      bufLen := self.bufLen + take }, take)

def compressBlock (self : ChunkState) (block : Bytes) : ChunkState :=
  { self with
    cv := compressInPlace self.cv block blockLen (self.flags ||| self.maybeStartFlag)
    blocksCompressed := self.blocksCompressed + 1 }

def compressBlocks (self : ChunkState) (input : Bytes) : ChunkState × Bytes :=
  if _more : blockLen < input.length then
    compressBlocks (self.compressBlock (input.take blockLen)) (input.drop blockLen)
  else (self, input)
termination_by input.length
decreasing_by
  rw [List.length_drop]
  rw [blockLen] at _more ⊢
  omega

def update (self : ChunkState) (input : Bytes) : ChunkState :=
  let (self, input) :=
    if 0 < self.bufLen then
      let (self, take) := self.fillBuf input
      let input := input.drop take
      if 0 < input.length then ({ self.compressBlock self.buf with bufLen := 0, buf := emptyBuf }, input) else
        (self, input)
    else (self, input)
  let (self, input) := self.compressBlocks input
  (self.fillBuf input).1

def output (self : ChunkState) : Output :=
  ⟨self.cv, self.buf, self.bufLen, self.flags ||| self.maybeStartFlag ||| chunkEnd⟩

end ChunkState

def leftLen (contentLen : Nat) : Nat := roundDownToPowerOf2 ((contentLen - 1) / chunkLen) * chunkLen

def wholeChunks (input : Bytes) : List Bytes × Bytes :=
  if _more : chunkLen ≤ input.length then
    let (chunks, rest) := wholeChunks (input.drop chunkLen)
    (input.take chunkLen :: chunks, rest)
  else ([], input)
termination_by input.length
decreasing_by
  rw [List.length_drop]
  rw [chunkLen] at _more ⊢
  omega

def compressChunksParallel (input : Bytes) (key : Words) (flags : UInt8) : List Bytes :=
  let (chunksArray, rest) := wholeChunks input
  let out := hashMany chunksArray (chunkLen / blockLen) key flags chunkStart chunkEnd
  if 0 < rest.length then out ++ [((ChunkState.init key flags).update rest).output.chainingValue] else out

def parentsArray : List Bytes → List Bytes × List Bytes
  | left :: right :: rest => ((left ++ right) :: (parentsArray rest).1, (parentsArray rest).2)
  | rest => ([], rest)

theorem parentsArray_rest (values : List Bytes) : (parentsArray values).2.length ≤ 1 := by
  induction values using parentsArray.induct with
  | case1 left right rest ih => exact ih
  | case2 rest single =>
    match rest, single with
    | [], _ => exact Nat.zero_le 1
    | [_], _ => exact Nat.le_refl 1
    | left :: right :: rest, single => exact absurd rfl (single left right rest)

def compressParentsParallel (childChainingValues : List Bytes) (key : Words) (flags : UInt8) : List Bytes :=
  let (parents, rest) := parentsArray childChainingValues
  hashMany parents 1 key (flags ||| parent) 0 0 ++ rest

theorem parentsArray_length (values : List Bytes) :
    2 * (parentsArray values).1.length + (parentsArray values).2.length = values.length := by
  induction values using parentsArray.induct with
  | case1 left right rest ih =>
    simp only [parentsArray, List.length_cons]
    omega
  | case2 rest single => simp [parentsArray]

theorem roundDownToPowerOf2_eq {x : Nat} (positive : 0 < x) : roundDownToPowerOf2 x = 2 ^ Nat.log2 x := by
  have low := Nat.log2_self_le positive.ne'
  have high : x < 2 ^ (Nat.log2 x + 1) := Nat.lt_log2_self
  have same : Nat.log2 (x ||| 1) = Nat.log2 x := by
    rw [Nat.log2_eq_iff (Nat.pos_of_ne_zero fun none => positive.ne' (Nat.or_eq_zero_iff.mp none).1).ne']
    exact ⟨low.trans Nat.left_le_or, Nat.or_lt_two_pow high (Nat.one_lt_two_pow (by omega))⟩
  rw [roundDownToPowerOf2, same]

theorem roundDownToPowerOf2_pos (x : Nat) : 0 < roundDownToPowerOf2 x := Nat.two_pow_pos _

theorem roundDownToPowerOf2_le {x : Nat} (positive : 0 < x) : roundDownToPowerOf2 x ≤ x := by
  rw [roundDownToPowerOf2_eq positive]
  exact Nat.log2_self_le positive.ne'

theorem leftLen_pos (contentLen : Nat) : 0 < leftLen contentLen :=
  Nat.mul_pos (roundDownToPowerOf2_pos _) (by decide)

theorem leftLen_lt {contentLen : Nat} (large : chunkLen < contentLen) : leftLen contentLen < contentLen := by
  have chunks : 0 < (contentLen - 1) / chunkLen := Nat.div_pos (by omega) (by decide)
  have whole := Nat.div_mul_le_self (contentLen - 1) chunkLen
  have scaled := Nat.mul_le_mul_right chunkLen (roundDownToPowerOf2_le chunks)
  rw [leftLen]
  omega

def compressSubtreeWide (degree : Nat) [NeZero degree] (input : Bytes) (key : Words) (flags : UInt8) : List Bytes :=
  if _few : input.length ≤ degree * chunkLen then compressChunksParallel input key flags
  else
    let leftInputLen := leftLen input.length
    let rightPlace := if chunkLen < leftInputLen ∧ degree = 1 then 2 else degree
    let leftCvs := compressSubtreeWide degree (input.take leftInputLen) key flags
    let rightCvs := compressSubtreeWide degree (input.drop leftInputLen) key flags
    let cvArray := leftCvs ++ List.replicate (rightPlace - leftCvs.length) [] ++ rightCvs
    if leftCvs.length = 1 then cvArray.take 2
    else compressParentsParallel (cvArray.take (leftCvs.length + rightCvs.length)) key flags
termination_by input.length
decreasing_by
  all_goals
    have positive := Nat.pos_of_neZero degree
    have many : chunkLen ≤ degree * chunkLen := Nat.le_mul_of_pos_left _ positive
    have left := leftLen_lt (many.trans_lt (not_le.mp _few))
    have some := leftLen_pos input.length
    simp only [List.length_take, List.length_drop]
    omega

theorem length_compressParentsParallel (values : List Bytes) (key : Words) (flags : UInt8) :
    (compressParentsParallel values key flags).length = (parentsArray values).1.length +
      (parentsArray values).2.length := by
  simp [compressParentsParallel, hashMany]

def condense (cvs : List Bytes) (key : Words) (flags : UInt8) : List Bytes :=
  if _many : 2 < cvs.length then condense (compressParentsParallel cvs key flags) key flags else cvs
termination_by cvs.length
decreasing_by
  have both := parentsArray_length cvs
  have rest : (parentsArray cvs).2.length ≤ 1 := parentsArray_rest cvs
  rw [length_compressParentsParallel]
  omega

def compressSubtreeToParentNode (degree : Nat) [NeZero degree] (input : Bytes) (key : Words) (flags : UInt8) :
    List Bytes :=
  (condense (compressSubtreeWide degree input key flags) key flags).take 2

structure Hasher where
  key : Words
  chunk : ChunkState
  cvStack : List Bytes

namespace Hasher

def initBase (key : Words) (flags : UInt8) : Hasher := ⟨key, ChunkState.init key flags, []⟩

def init : Hasher := initBase iv 0

def initKeyed (key : Bytes) : Hasher := initBase (loadKeyWords key) keyedHash

-- With one value on it the stack is read below its first place.
def mergeLoop (key : Words) (flags : UInt8) (postMergeStackLen : Nat) (top : Bytes) :
    List Bytes → Except Exn (List Bytes)
  | [] => if postMergeStackLen < 1 then .error .undefined else .ok [top]
  | below :: rest =>
    if postMergeStackLen < rest.length + 2 then
      mergeLoop key flags postMergeStackLen (parentOutput (below ++ top) key flags).chainingValue rest
    else .ok (top :: below :: rest)

def mergeCvStack (self : Hasher) (totalLen : Nat) : Except Exn Hasher :=
  match self.cvStack with
  | [] => .ok self
  | top :: rest => do
    let cvStack ← mergeLoop self.key self.chunk.flags (popcnt totalLen) top rest
    return { self with cvStack := cvStack }

def pushCv (self : Hasher) (newCv : Bytes) (chunkCounter : Nat) : Except Exn Hasher := do
  let self ← self.mergeCvStack chunkCounter
  if self.cvStack.length ≤ maxDepth then return { self with cvStack := newCv :: self.cvStack } else throw .undefined

def shrink (countSoFar subtreeLen : Nat) : Nat :=
  if _divides : (subtreeLen - 1) &&& countSoFar ≠ 0 then shrink countSoFar (subtreeLen / 2) else subtreeLen
termination_by subtreeLen
decreasing_by
  have large : 1 < subtreeLen := by
    by_contra small
    rw [show subtreeLen - 1 = 0 by omega, Nat.zero_and] at _divides
    exact _divides rfl
  omega

def subtreeLen (self : Hasher) (inputLen : Nat) : Nat :=
  shrink (self.chunk.chunkCounter * chunkLen % 2 ^ 64) (roundDownToPowerOf2 inputLen)

def pushSubtree (self : Hasher) (subtree : Bytes) : Except Exn Hasher :=
  if subtree.length ≤ chunkLen then
    let chunkState := { ChunkState.init self.key self.chunk.flags with chunkCounter := self.chunk.chunkCounter }
    self.pushCv (chunkState.update subtree).output.chainingValue chunkState.chunkCounter
  else do
    let cvPair := compressSubtreeToParentNode simdDegree subtree self.key self.chunk.flags
    let self ← self.pushCv (cvPair.getD 0 []) self.chunk.chunkCounter
    self.pushCv (cvPair.getD 1 []) ((self.chunk.chunkCounter + subtree.length / chunkLen / 2) % 2 ^ 64)

def advance (self : Hasher) (chunks : Nat) : Hasher :=
  { self with chunk := { self.chunk with chunkCounter := (self.chunk.chunkCounter + chunks) % 2 ^ 64 } }

theorem shrink_pos {countSoFar subtreeLen : Nat} (positive : 0 < subtreeLen) : 0 < shrink countSoFar subtreeLen := by
  induction subtreeLen using shrink.induct countSoFar with
  | case1 subtreeLen divides ih =>
    have large : 1 < subtreeLen := by
      by_contra small
      rw [show subtreeLen - 1 = 0 by omega, Nat.zero_and] at divides
      exact divides rfl
    rw [shrink, dif_pos divides]
    exact ih (by omega)
  | case2 subtreeLen divides => rwa [shrink, dif_neg divides]

def compressSubtrees (self : Hasher) (input : Bytes) : Except Exn (Hasher × Bytes) :=
  if _more : chunkLen < input.length then do
    let subtreeLen := self.subtreeLen input.length
    let self ← self.pushSubtree (input.take subtreeLen)
    compressSubtrees (self.advance (subtreeLen / chunkLen)) (input.drop subtreeLen)
  else return (self, input)
termination_by input.length
decreasing_by
  rw [List.length_drop]
  exact Nat.sub_lt (Nat.zero_lt_of_lt _more) (shrink_pos (roundDownToPowerOf2_pos _))

def updateWhole (self : Hasher) (input : Bytes) : Except Exn Hasher := do
  let (self, input) ← self.compressSubtrees input
  if 0 < input.length then
    let self := { self with chunk := self.chunk.update input }
    self.mergeCvStack self.chunk.chunkCounter
  else return self

def update (self : Hasher) (input : Bytes) : Except Exn Hasher :=
  if input.length = 0 then return self
  else if 0 < self.chunk.len then
    let take := if input.length < chunkLen - self.chunk.len then input.length else chunkLen - self.chunk.len
    let self := { self with chunk := self.chunk.update (input.take take) }
    let input := input.drop take
    if 0 < input.length then do
      let self ← self.pushCv self.chunk.output.chainingValue self.chunk.chunkCounter
      updateWhole { self with chunk := self.chunk.reset self.key (self.chunk.chunkCounter + 1) } input
    else return self
  else self.updateWhole input

def updates (self : Hasher) (pieces : List Bytes) : Except Exn Hasher := pieces.foldlM update self

def rollUp (key : Words) (flags : UInt8) (output : Output) : List Bytes → Output
  | [] => output
  | cv :: rest => rollUp key flags (parentOutput (cv ++ output.chainingValue) key flags) rest

def finalizeSeek (self : Hasher) (seek outLen : Nat) : Except Exn Bytes :=
  if outLen = 0 then .ok []
  else match self.cvStack with
    | [] => .ok (self.chunk.output.rootBytes seek outLen)
    | top :: rest =>
      if 0 < self.chunk.len then
        .ok ((rollUp self.key self.chunk.flags self.chunk.output (top :: rest)).rootBytes seek outLen)
      else match rest with
        | [] => .error .undefined
        | below :: rest =>
          .ok ((rollUp self.key self.chunk.flags (parentOutput (below ++ top) self.key self.chunk.flags) rest).rootBytes
            seek outLen)

def finalize (self : Hasher) (outLen : Nat) : Except Exn Bytes := self.finalizeSeek 0 outLen

def initDeriveKeyRaw (context : Bytes) : Except Exn Hasher := do
  let contextHasher ← (initBase iv deriveKeyContext).update context
  let contextKey ← contextHasher.finalize keyLen
  return initBase (loadKeyWords contextKey) deriveKeyMaterial

def initDeriveKey (context : Bytes) : Except Exn Hasher := initDeriveKeyRaw (cString context)

end Hasher

end BuildboxCommon.Blake3
