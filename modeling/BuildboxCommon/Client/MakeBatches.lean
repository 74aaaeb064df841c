import BuildboxCommon.Protos
import BuildboxCommon.Shared.Ranges

set_option autoImplicit false

namespace BuildboxCommon.Client

open Ranges

def sizeofEstimatedTopLevelGrpcContainer : UInt64 := 256
def perBlobMetadataSize : UInt64 := 256

-- All sums are computed in `size_t`.
def fillBatch (maxBatchSize : UInt64) : UInt64 → List Digest → Nat
  | _, [] => 0
  | bytesInBatch, digest :: digests =>
    if bytesInBatch + UInt64.ofInt digest.sizeBytes + perBlobMetadataSize ≤ maxBatchSize then
      fillBatch maxBatchSize (bytesInBatch + (UInt64.ofInt digest.sizeBytes + perBlobMetadataSize)) digests + 1
    else 0

theorem fillBatch_pos {maxBatchSize : UInt64} {digest : Digest} {digests : List Digest}
    (fits : ¬UInt64.ofInt digest.sizeBytes + perBlobMetadataSize > maxBatchSize) :
    0 < fillBatch maxBatchSize 0 (digest :: digests) := by
  have within : 0 + UInt64.ofInt digest.sizeBytes + perBlobMetadataSize ≤ maxBatchSize := by
    rw [UInt64.zero_add]
    exact UInt64.not_lt.mp fits
  rw [fillBatch, if_pos within]
  exact Nat.succ_pos _

theorem fillBatch_le (maxBatchSize bytesInBatch : UInt64) (digests : List Digest) :
    fillBatch maxBatchSize bytesInBatch digests ≤ digests.length := by
  induction digests generalizing bytesInBatch with
  | nil => exact Nat.le_refl 0
  | cons digest digests ih =>
    rw [fillBatch]
    split
    next => exact Nat.succ_le_succ (ih _)
    next => exact Nat.zero_le _

def batchesFrom (maxBatchSize : UInt64) (batchStart : Nat) : List Digest → List (Nat × Nat)
  | [] => []
  | digest :: digests =>
    if UInt64.ofInt digest.sizeBytes + perBlobMetadataSize > maxBatchSize then []
    else
      let batchEnd := batchStart + fillBatch maxBatchSize 0 (digest :: digests)
      (batchStart, batchEnd) ::
        batchesFrom maxBatchSize batchEnd ((digest :: digests).drop (fillBatch maxBatchSize 0 (digest :: digests)))
termination_by digests => digests.length
decreasing_by
  rename_i fits
  have progress := @fillBatch_pos maxBatchSize digest digests fits
  rw [List.length_drop, List.length_cons]
  omega

def makeBatches (maxBatchTotalSizeBytes : UInt64) (digests : List Digest) : List (Nat × Nat) :=
  batchesFrom (maxBatchTotalSizeBytes - sizeofEstimatedTopLevelGrpcContainer) 0 digests

def batchesEnd (batches : List (Nat × Nat)) : Nat := (batches.getLast?.map Prod.snd).getD 0

theorem batchesFrom_contiguous (maxBatchSize : UInt64) (batchStart : Nat) (digests : List Digest) :
    ∃ stop, Contiguous batchStart (batchesFrom maxBatchSize batchStart digests) stop := by
  induction batchStart, digests using batchesFrom.induct maxBatchSize with
  | case1 batchStart => exact ⟨_, by rw [batchesFrom]; exact .nil _⟩
  | case2 batchStart digest digests fits => exact ⟨_, by rw [batchesFrom, if_pos fits]; exact .nil _⟩
  | case3 batchStart digest digests fits batchEnd ih =>
    obtain ⟨stop, rest⟩ := ih
    refine ⟨stop, ?_⟩
    rw [batchesFrom, if_neg fits]
    exact .cons (Nat.le_add_right _ _) rest

theorem makeBatches_contiguous (maxBatchTotalSizeBytes : UInt64) (digests : List Digest) :
    Contiguous 0 (makeBatches maxBatchTotalSizeBytes digests)
      (batchesEnd (makeBatches maxBatchTotalSizeBytes digests)) := by
  obtain ⟨stop, contiguous⟩ := batchesFrom_contiguous
    (maxBatchTotalSizeBytes - sizeofEstimatedTopLevelGrpcContainer) 0 digests
  have same : stop = batchesEnd (makeBatches maxBatchTotalSizeBytes digests) := contiguous.stop_eq
  exact same ▸ contiguous

end BuildboxCommon.Client
