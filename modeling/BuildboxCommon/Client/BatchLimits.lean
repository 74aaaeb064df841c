import BuildboxCommon.Client.MakeBatches

set_option autoImplicit false

namespace BuildboxCommon.Client

open Ranges

def grpcDefaultMaxRecvMessageLength : UInt64 := 4 * 1024 * 1024
def maxRoomForMetadata : UInt64 := (1 : UInt64) <<< 16

def initMaxBatchTotalSizeBytes (announced : Option Int) : UInt64 :=
  let byDefault := grpcDefaultMaxRecvMessageLength - maxRoomForMetadata
  match announced with
  | none => byDefault
  | some maxBatchTotalSizeBytes =>
    let serverMaxBatchTotalSizeBytes := UInt64.ofInt maxBatchTotalSizeBytes
    if serverMaxBatchTotalSizeBytes > 0 ∧ serverMaxBatchTotalSizeBytes < byDefault then serverMaxBatchTotalSizeBytes
    else byDefault

theorem defaultMaxBatchTotalSizeBytes : (grpcDefaultMaxRecvMessageLength - maxRoomForMetadata).toNat = 4128768 := rfl

theorem initMaxBatchTotalSizeBytes_le (announced : Option Int) :
    (initMaxBatchTotalSizeBytes announced).toNat ≤ 4128768 := by
  cases announced with
  | none => exact defaultMaxBatchTotalSizeBytes.le
  | some size =>
    simp only [initMaxBatchTotalSizeBytes]
    split
    next smaller => exact (UInt64.lt_iff_toNat_lt.mp smaller.2).le.trans defaultMaxBatchTotalSizeBytes.le
    next => exact defaultMaxBatchTotalSizeBytes.le

def weight (digest : Digest) : Nat := digest.sizeBytes.toNat + perBlobMetadataSize.toNat

def totalWeight (digests : List Digest) : Nat := (digests.map weight).sum

def Storable (digest : Digest) : Prop := 0 ≤ digest.sizeBytes ∧ digest.sizeBytes < 2 ^ 63

theorem toNat_sizeBytes {digest : Digest} (storable : Storable digest) :
    (UInt64.ofInt digest.sizeBytes).toNat = digest.sizeBytes.toNat := by
  obtain ⟨nonneg, small⟩ := storable
  rw [UInt64.ofInt, UInt64.toNat_ofNat']
  omega

theorem toNat_weight {digest : Digest} (storable : Storable digest) :
    (UInt64.ofInt digest.sizeBytes + perBlobMetadataSize).toNat = weight digest := by
  obtain ⟨nonneg, small⟩ := id storable
  have metadata : perBlobMetadataSize.toNat = 256 := by decide
  rw [UInt64.toNat_add, toNat_sizeBytes storable, weight, metadata]
  omega

theorem fits_iff {limit bytesInBatch : UInt64} (low : bytesInBatch.toNat ≤ 4128768) {digest : Digest}
    (storable : Storable digest) :
    bytesInBatch + UInt64.ofInt digest.sizeBytes + perBlobMetadataSize ≤ limit ↔
      bytesInBatch.toNat + weight digest ≤ limit.toNat := by
  obtain ⟨nonneg, small⟩ := id storable
  have metadata : perBlobMetadataSize.toNat = 256 := by decide
  rw [UInt64.add_assoc, UInt64.le_iff_toNat_le, UInt64.toNat_add, toNat_weight storable, weight, metadata,
    Nat.mod_eq_of_lt (by omega)]

theorem fillBatch_fits {limit : UInt64} (low : limit.toNat ≤ 4128768) {digests : List Digest}
    (storable : ∀ digest ∈ digests, Storable digest) {bytesInBatch : UInt64}
    (within : bytesInBatch.toNat ≤ limit.toNat) :
    bytesInBatch.toNat + totalWeight (digests.take (fillBatch limit bytesInBatch digests)) ≤ limit.toNat ∧
      ∀ digest, digests[fillBatch limit bytesInBatch digests]? = some digest →
        limit.toNat < bytesInBatch.toNat + totalWeight (digests.take (fillBatch limit bytesInBatch digests)) +
          weight digest := by
  induction digests generalizing bytesInBatch with
  | nil => simpa [fillBatch, totalWeight] using within
  | cons digest digests ih =>
    have first := storable digest (by simp)
    have fits := @fits_iff limit bytesInBatch (within.trans low) digest first
    rw [fillBatch]
    split
    next taken =>
      have sum := fits.mp taken
      have added : (bytesInBatch + (UInt64.ofInt digest.sizeBytes + perBlobMetadataSize)).toNat =
          bytesInBatch.toNat + weight digest := by
        rw [UInt64.toNat_add, toNat_weight first, Nat.mod_eq_of_lt (by omega)]
      have rest := ih (fun other member => storable other (by simp [member])) (added ▸ sum)
      rw [added] at rest
      simp only [List.take_succ_cons, totalWeight, List.map_cons, List.sum_cons, List.getElem?_cons_succ,
        ← Nat.add_assoc] at rest ⊢
      exact rest
    next full =>
      rw [fits] at full
      simp only [List.take_zero, totalWeight, List.map_nil, List.sum_nil, Nat.add_zero, List.getElem?_cons_zero,
        Option.some.injEq]
      refine ⟨within, ?_⟩
      rintro other rfl
      omega

structure Fits (limit : Nat) (digests : List Digest) (range : Nat × Nat) : Prop where
  nonempty : range.1 < range.2
  bounded : range.2 ≤ digests.length
  within : totalWeight (slice digests range) ≤ limit
  maximal : ∀ digest, digests[range.2]? = some digest → limit < totalWeight (slice digests range) + weight digest

theorem oversized_of_sorted {limit : Nat} {digest : Digest} {rest : List Digest}
    (sorted : (digest :: rest).Pairwise fun a b => a.sizeBytes ≤ b.sizeBytes) (own : limit < weight digest) :
    ∀ other ∈ digest :: rest, limit < weight other := by
  intro other member
  have larger : digest.sizeBytes ≤ other.sizeBytes := by
    rcases List.mem_cons.mp member with rfl | later
    next => exact le_rfl
    next => exact (List.pairwise_cons.mp sorted).1 other later
  simp only [weight] at own ⊢
  omega

theorem batchesFrom_fits {limit : UInt64} (low : limit.toNat ≤ 4128768) {digests : List Digest}
    (storable : ∀ digest ∈ digests, Storable digest) (sorted : digests.Pairwise fun a b => a.sizeBytes ≤ b.sizeBytes)
    (batchStart : Nat) (rest : List Digest) (left : rest = digests.drop batchStart) :
    (∀ range ∈ batchesFrom limit batchStart rest, Fits limit.toNat digests range) ∧
      ∀ digest ∈ digests.drop (((batchesFrom limit batchStart rest).getLast?.map Prod.snd).getD batchStart),
        limit.toNat < weight digest := by
  induction batchStart, rest using batchesFrom.induct limit with
  | case1 batchStart =>
    rw [batchesFrom]
    simp [← left]
  | case2 batchStart digest rest large =>
    rw [batchesFrom, if_pos large]
    have listed : digest ∈ digests := List.mem_of_mem_drop (left ▸ List.mem_cons_self)
    have own : limit.toNat < weight digest := by
      rw [← toNat_weight (storable digest listed)]
      exact UInt64.lt_iff_toNat_lt.mp large
    have ordered := sorted.drop (i := batchStart)
    rw [← left] at ordered
    rw [List.getLast?_nil, Option.map_none, Option.getD_none, ← left]
    exact ⟨by simp, oversized_of_sorted ordered own⟩
  | case3 batchStart digest rest fits batchEnd ih =>
    have present : ∀ other ∈ digest :: rest, Storable other := fun other member =>
      storable other (List.mem_of_mem_drop (left ▸ member))
    have filled := @fillBatch_fits limit low (digest :: rest) present 0 (Nat.zero_le _)
    have progress := @fillBatch_pos limit digest rest fits
    have size := fillBatch_le limit 0 (digest :: rest)
    have after : (digest :: rest).drop (fillBatch limit 0 (digest :: rest)) = digests.drop batchEnd := by
      rw [← List.drop_drop, ← left]
    obtain ⟨others, streamed⟩ := ih after
    rw [batchesFrom, if_neg fits]
    have cut : slice digests (batchStart, batchEnd) = (digest :: rest).take (fillBatch limit 0 (digest :: rest)) := by
      rw [slice, ← left]
      congr 1
      exact Nat.add_sub_cancel_left _ _
    have next : digests[batchEnd]? = (digest :: rest)[fillBatch limit 0 (digest :: rest)]? := by
      rw [← List.getElem?_drop, ← left]
    have bounded : batchEnd ≤ digests.length := by
      have length := congrArg List.length left
      rw [List.length_drop, List.length_cons] at length
      rw [List.length_cons] at size
      show batchStart + _ ≤ _
      omega
    have first : Fits limit.toNat digests (batchStart, batchEnd) := by
      refine ⟨Nat.lt_add_of_pos_right progress, bounded, ?_, ?_⟩
      next => simpa [cut] using filled.1
      next => simpa [cut, next] using filled.2
    refine ⟨fun range member => ?_, ?_⟩
    next =>
      rcases List.mem_cons.mp member with rfl | later
      next => exact first
      next => exact others range later
    next =>
      rw [List.getLast?_cons]
      cases shape : (batchesFrom limit batchEnd
          ((digest :: rest).drop (fillBatch limit 0 (digest :: rest)))).getLast? with
      | none => simpa [shape] using streamed
      | some last => simpa [shape] using streamed

structure PlanWithin (maxBatchTotalSizeBytes : Nat) (digests : List Digest) (batches : List (Nat × Nat)) : Prop where
  contiguous : Contiguous 0 batches (batchesEnd batches)
  nonempty : ∀ range ∈ batches, range.1 < range.2 ∧ range.2 ≤ digests.length
  within : ∀ range ∈ batches,
    totalWeight (slice digests range) + sizeofEstimatedTopLevelGrpcContainer.toNat ≤ maxBatchTotalSizeBytes
  maximal : ∀ range ∈ batches, ∀ digest, digests[range.2]? = some digest → maxBatchTotalSizeBytes <
    totalWeight (slice digests range) + weight digest + sizeofEstimatedTopLevelGrpcContainer.toNat
  streamed : ∀ digest ∈ digests.drop (batchesEnd batches),
    maxBatchTotalSizeBytes < weight digest + sizeofEstimatedTopLevelGrpcContainer.toNat
  none_if_small : maxBatchTotalSizeBytes < 512 → batches = []

theorem totalWeight_pos {digests : List Digest} {range : Nat × Nat} (nonempty : range.1 < range.2)
    (bounded : range.2 ≤ digests.length) : 256 ≤ totalWeight (slice digests range) := by
  have length : (slice digests range).length ≠ 0 := by
    rw [slice, List.length_take, List.length_drop]
    omega
  obtain ⟨digest, rest, shape⟩ := List.exists_cons_of_length_pos (Nat.pos_of_ne_zero length)
  have metadata : perBlobMetadataSize.toNat = 256 := rfl
  rw [shape, totalWeight, List.map_cons, List.sum_cons, weight, metadata]
  omega

-- The limit is right from 256 bytes on; below, the subtraction wraps around and all is put into batches.
theorem makeBatches_within_iff {digests : List Digest} (storable : ∀ digest ∈ digests, Storable digest)
    (sorted : digests.Pairwise fun a b => a.sizeBytes ≤ b.sizeBytes) (announced : Option Int) :
    PlanWithin (initMaxBatchTotalSizeBytes announced).toNat digests
        (makeBatches (initMaxBatchTotalSizeBytes announced) digests) ↔
      digests = [] ∨ 256 ≤ (initMaxBatchTotalSizeBytes announced).toNat := by
  have low := initMaxBatchTotalSizeBytes_le announced
  generalize initMaxBatchTotalSizeBytes announced = total at low ⊢
  have container : sizeofEstimatedTopLevelGrpcContainer.toNat = 256 := rfl
  constructor
  next =>
    intro plan
    by_contra neither
    rw [not_or, Nat.not_le] at neither
    obtain ⟨digest, rest, rfl⟩ := List.exists_cons_of_ne_nil neither.1
    have none := plan.none_if_small (by omega)
    -- The limit has wrapped around, so the first digest is not too large for a batch.
    have wrapped : 2 ^ 64 - 256 ≤ (total - sizeofEstimatedTopLevelGrpcContainer).toNat := by
      rw [UInt64.toNat_sub, container]
      omega
    have first := storable digest (by simp)
    obtain ⟨nonneg, small⟩ := id first
    have metadata : perBlobMetadataSize.toNat = 256 := rfl
    have fits : ¬UInt64.ofInt digest.sizeBytes +
      perBlobMetadataSize > total - sizeofEstimatedTopLevelGrpcContainer := by
      refine UInt64.not_lt.mpr (UInt64.le_iff_toNat_le.mpr ?_)
      rw [toNat_weight first, weight, metadata]
      omega
    rw [makeBatches, batchesFrom, if_neg fits] at none
    cases none
  next =>
    rintro (rfl | enough)
    next =>
      rw [makeBatches, batchesFrom]
      exact ⟨.nil 0, by simp, by simp, by simp, by simp, fun _ => rfl⟩
    next =>
      have exact_limit : (total - sizeofEstimatedTopLevelGrpcContainer).toNat + 256 = total.toNat := by
        rw [UInt64.toNat_sub_of_le _ _ (UInt64.le_iff_toNat_le.mpr (container ▸ enough)), container]
        omega
      obtain ⟨fits, streamed⟩ := @batchesFrom_fits (total - sizeofEstimatedTopLevelGrpcContainer) (by omega) digests
        storable sorted 0 digests (List.drop_zero).symm
      refine ⟨makeBatches_contiguous total digests, fun range member => ?_, fun range member => ?_,
        fun range member digest next => ?_, fun digest member => ?_, fun small => ?_⟩
      next => exact ⟨(fits range member).nonempty, (fits range member).bounded⟩
      next =>
        have within := (fits range member).within
        omega
      next =>
        have maximal := (fits range member).maximal digest next
        omega
      next =>
        have large := streamed digest member
        omega
      next =>
        refine List.eq_nil_iff_forall_not_mem.mpr fun range member => ?_
        have some := totalWeight_pos (fits range member).nonempty (fits range member).bounded
        have within := (fits range member).within
        omega

theorem makeBatches_wraps :
    ¬PlanWithin (initMaxBatchTotalSizeBytes (some 64)).toNat [⟨[], 1000000000, []⟩]
      (makeBatches (initMaxBatchTotalSizeBytes (some 64)) [⟨[], 1000000000, []⟩]) := by
  intro plan
  have none := plan.none_if_small (by decide)
  rw [makeBatches, batchesFrom, if_neg (by decide)] at none
  cases none

def twoSizes : List Digest := [⟨[], 10, []⟩, ⟨[], 1000, []⟩]

theorem makeBatches_within_iff_1024 :
    PlanWithin (initMaxBatchTotalSizeBytes (some 1024)).toNat twoSizes
        (makeBatches (initMaxBatchTotalSizeBytes (some 1024)) twoSizes) ↔
      twoSizes = [] ∨ 256 ≤ (initMaxBatchTotalSizeBytes (some 1024)).toNat :=
  makeBatches_within_iff (by simp [twoSizes, Storable]) (by simp [twoSizes]) (some 1024)

end BuildboxCommon.Client
