import BuildboxCommon.Blake3.Collisions
import BuildboxCommon.DigestGenerator

set_option autoImplicit false

namespace BuildboxCommon.Blake3

open ByteString Hasher

structure HasherContext where
  b : Hasher
  dataSize : Nat
  finalized : Bool

def toInt64 (size : Nat) : Int := if size < 2 ^ 63 then size else size - 2 ^ 64

namespace HasherContext

def create : HasherContext := ⟨Hasher.init, 0, false⟩

def update (context : HasherContext) (data : Bytes) : Except Exn HasherContext :=
  if context.finalized then .error (.runtimeError (text "Cannot update finalized digest"))
  else do
    let b ← context.b.update data
    return { context with b := b, dataSize := (context.dataSize + data.length) % 2 ^ 64 }

def finalizeDigest (context : HasherContext) : Except Exn (Digest × HasherContext) :=
  if context.finalized then .error (.runtimeError (text "Digest already finalized"))
  else do
    let hashBuffer ← context.b.finalize outLen
    return (⟨[], toInt64 context.dataSize, hashBuffer⟩, { context with finalized := true })

def processFile (context : HasherContext) (fd : Nat) (pieces : List Bytes) (failure : Option Nat) :
    Except Exn HasherContext := do
  let context ← pieces.foldlM update context
  match failure with
  | none => return context
  | some errno => throw (.systemError errno (text "Error in read on file descriptor " ++ text (toString fd)))

end HasherContext

def hash (data : Bytes) : Except Exn Digest := do
  let context ← HasherContext.create.update data
  let (digest, _) ← context.finalizeDigest
  return digest

def hashFd (fd : Nat) (pieces : List Bytes) (failure : Option Nat) : Except Exn Digest := do
  let context ← HasherContext.create.processFile fd pieces failure
  let (digest, _) ← context.finalizeDigest
  return digest

def withBlake3 (library : HashLibrary) : HashLibrary
  | .blake3zcc => fun data => (treeOutput iv 0 data).rootBytes 0 outLen
  | other => library other

namespace HasherContext

theorem foldlM_update {context : HasherContext} (open' : context.finalized = false) (pieces : List Bytes) :
    pieces.foldlM update context = (do
      let b ← context.b.updates pieces
      return { context with
        b := b
        dataSize := pieces.foldl (fun size piece => (size + piece.length) % 2 ^ 64) context.dataSize }) := by
  induction pieces generalizing context with
  | nil => rfl
  | cons piece pieces ih =>
    have closed : ¬context.finalized = true := by simp [open']
    rw [List.foldlM_cons, update, if_neg closed, updates_cons]
    cases context.b.update piece with
    | error e => rfl
    | ok b => exact ih open'

theorem foldl_size {pieces : List Bytes} {size : Nat} (small : size + pieces.flatten.length < 2 ^ 64) :
    pieces.foldl (fun size piece => (size + piece.length) % 2 ^ 64) size = size + pieces.flatten.length := by
  induction pieces generalizing size with
  | nil => rfl
  | cons piece pieces ih =>
    rw [List.flatten_cons, List.length_append] at small ⊢
    rw [List.foldl_cons, Nat.mod_eq_of_lt (by omega), ih (by omega)]
    omega

end HasherContext

theorem hashFd_eq (library : HashLibrary) (fd : Nat) {pieces : List Bytes} (small : pieces.flatten.length < 2 ^ 63)
    (failure : Option Nat) :
    hashFd fd pieces failure =
      if Uncrossed pieces then
        match failure with
        | none => DigestGenerator.hash (withBlake3 library) .blake3zcc pieces.flatten
        | some errno => .error (.systemError errno (text "Error in read on file descriptor " ++ text (toString fd)))
      else .error .undefined := by
  have bounded : pieces.flatten.length < 2 ^ 64 := small.trans (by decide)
  obtain ⟨fine, broken⟩ := initBase_updates iv 0 bounded
  rw [hashFd, HasherContext.processFile, HasherContext.foldlM_update rfl]
  have start : HasherContext.create.b = initBase iv 0 := rfl
  rw [start]
  by_cases uncrossed : Uncrossed pieces
  next =>
    obtain ⟨hasher, ran, result⟩ := fine uncrossed
    rw [ran, if_pos uncrossed]
    cases failure with
    | some errno => rfl
    | none =>
      have size : HasherContext.create.dataSize = 0 := rfl
      have sized : toInt64 pieces.flatten.length = pieces.flatten.length := if_pos small
      rw [size, HasherContext.foldl_size (by omega), Nat.zero_add, DigestGenerator.hash_eq]
      have last : hasher.finalize outLen = .ok ((treeOutput iv 0 pieces.flatten).rootBytes 0 outLen) := result 0 outLen
      simp only [bind, Except.bind, pure, Except.pure, HasherContext.finalizeDigest, HasherContext.create, last, sized]
      rfl
  next =>
    rw [broken uncrossed, if_neg uncrossed]
    rfl

theorem hash_eq_hashFd (data : Bytes) : hash data = hashFd 0 [data] none := by
  rw [hash, hashFd, HasherContext.processFile, List.foldlM_cons]
  cases HasherContext.create.update data <;> rfl

theorem hash_eq (library : HashLibrary) {data : Bytes} (small : data.length < 2 ^ 63) :
    hash data = DigestGenerator.hash (withBlake3 library) .blake3zcc data := by
  have whole : [data].flatten = data := List.flatten_singleton
  rw [hash_eq_hashFd, hashFd_eq library 0 (by rwa [whole]), if_pos (uncrossed_single data), whole]

theorem hashFd_eq_hash_iff (fd : Nat) (pieces : List Bytes) (small : pieces.flatten.length < 2 ^ 63) :
    hashFd fd pieces none = hash pieces.flatten ↔ Uncrossed pieces := by
  rw [hashFd_eq (fun _ => id) fd small, hash_eq (fun _ => id) small, DigestGenerator.hash_eq]
  by_cases uncrossed : Uncrossed pieces
  next => simp [uncrossed]
  next => simp [uncrossed]

theorem hashFd_eq_hash_iff_short :
    hashFd 3 [text "a", text "b"] none = hash [text "a", text "b"].flatten ↔ Uncrossed [text "a", text "b"] :=
  hashFd_eq_hash_iff 3 [text "a", text "b"] (by decide)

theorem eq_or_collision_of_hash (data data' : Bytes) (small : data.length < 2 ^ 63) (small' : data'.length < 2 ^ 63)
    (same : hash data = hash data') :
    data = data' ∨ Collision (hashCompressions iv 0 data) (hashCompressions iv 0 data') := by
  rw [hash_eq (fun _ => id) small, hash_eq (fun _ => id) small', DigestGenerator.hash_eq,
    DigestGenerator.hash_eq] at same
  have hashed := congrArg Digest.hashBlake3zcc (Except.ok.inj same)
  exact hash_eq_or_collision (show Plain 0 by rfl) hashed

theorem eq_or_collision_of_hash_letter :
    text "a" = text "a" ∨ Collision (hashCompressions iv 0 (text "a")) (hashCompressions iv 0 (text "a")) :=
  eq_or_collision_of_hash (text "a") (text "a") (by decide) (by decide) rfl

end BuildboxCommon.Blake3
