import BuildboxCommon.Blake3.HasherContext
import BuildboxCommon.Runner.UploadOutputs

set_option autoImplicit false

namespace BuildboxCommon.Blake3

open ByteString Hasher Posix

variable {ι : Type}

def fullReads (unread : Bytes) : List Bytes :=
  if _ended : unread = [] then []
  else unread.take DigestGenerator.hashBufferSizeBytes :: fullReads (unread.drop DigestGenerator.hashBufferSizeBytes)
termination_by unread.length
decreasing_by
  have left := List.length_pos_of_ne_nil _ended
  rw [List.length_drop, DigestGenerator.hashBufferSizeBytes]
  omega

theorem flatten_fullReads (unread : Bytes) : (fullReads unread).flatten = unread := by
  induction unread using fullReads.induct with
  | case1 => rw [fullReads, dif_pos rfl, List.flatten_nil]
  | case2 unread ended ih => rw [fullReads, dif_neg ended, List.flatten_cons, ih, List.take_append_drop]

theorem uncrossed_fullReads (unread : Bytes) : Uncrossed (fullReads unread) := by
  induction unread using fullReads.induct with
  | case1 =>
    rw [fullReads, dif_pos rfl]
    trivial
  | case2 unread ended ih =>
    rw [fullReads, dif_neg ended]
    by_cases full : DigestGenerator.hashBufferSizeBytes ≤ unread.length
    next =>
      have buffer : (unread.take DigestGenerator.hashBufferSizeBytes).length = 2 * chunkLen * 32 := by
        rw [List.length_take, Nat.min_eq_left full]
        rfl
      exact (uncrossed_cons_of_dvd (buffer ▸ Nat.dvd_mul_right _ _) _).mpr ih
    next =>
      have last : unread.drop DigestGenerator.hashBufferSizeBytes = [] := List.drop_of_length_le (not_le.mp full).le
      have none : fullReads [] = [] := by rw [fullReads, dif_pos rfl]
      rw [last, none]
      exact uncrossed_single _

theorem hashFd_fullReads (fd : Nat) {contents : Bytes} (small : contents.length < 2 ^ 63) (library : HashLibrary) :
    hashFd fd (fullReads contents) none = DigestGenerator.hash (withBlake3 library) .blake3zcc contents := by
  have whole := flatten_fullReads contents
  rw [hashFd_eq library fd (by rwa [whole]), if_pos (uncrossed_fullReads contents), whole]

theorem hashFile_withBlake3 {fs : FileSystem ι} {path contents : Bytes} (contains : HoldsContents fs path contents)
    (small : contents.length < 2 ^ 63) (library : HashLibrary) (fd : Nat) :
    CASHash.hashFile (withBlake3 library) .blake3zcc fs path = hashFd fd (fullReads contents) none ∧
      hashFd fd (fullReads contents) none = hash contents := by
  rw [CASHash.hashFile_eq contains, hashFd_fullReads fd small library, hash_eq library small, DigestGenerator.hash_eq]
  exact ⟨rfl, rfl⟩

theorem hashFile_withBlake3_stdout :
    CASHash.hashFile (withBlake3 Runner.sizedLibrary) .blake3zcc Runner.equalOutputs (text "out") =
      hashFd 3 (fullReads (text "a")) none ∧
      hashFd 3 (fullReads (text "a")) none = hash (text "a") :=
  hashFile_withBlake3 Runner.equalOutputs_contains.1 (by decide) Runner.sizedLibrary 3

end BuildboxCommon.Blake3
