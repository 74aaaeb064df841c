import BuildboxCommon.Protos
import BuildboxCommon.Shared.UnorderedMap
import Mathlib.Data.Prod.Lex

set_option autoImplicit false

namespace BuildboxCommon

open ByteString

inductive DigestFunction where
  | md5
  | sha1
  | sha256
  | sha384
  | sha512
  | blake3zcc
deriving DecidableEq

abbrev HashLibrary := DigestFunction → Bytes → Bytes

def DigestFunction.size : DigestFunction → Nat
  | .md5 => 16
  | .sha1 => 20
  | .sha256 | .blake3zcc => 32
  | .sha384 => 48
  | .sha512 => 64

def hexDigit (value : Nat) : UInt8 := if value < 10 then (48 + value).toUInt8 else (87 + value).toUInt8

def hashToHex (hash : Bytes) : Bytes :=
  hash.flatMap fun byte => [hexDigit (byte.toNat / 16), hexDigit (byte.toNat % 16)]

def finish (library : HashLibrary) (digestFunction : DigestFunction) (data : Bytes) : Digest :=
  match digestFunction with
  | .blake3zcc => ⟨[], data.length, library .blake3zcc data⟩
  | other => ⟨hashToHex (library other data), data.length, []⟩

structure DigestContext where
  consumed : Bytes
  dataSize : Nat
  finalized : Bool
  counted : dataSize = consumed.length

namespace DigestContext

def create : DigestContext := ⟨[], 0, false, rfl⟩

def update (context : DigestContext) (data : Bytes) : Except Exn DigestContext :=
  if context.finalized then .error (.runtimeError (text "Cannot update finalized digest"))
  else .ok ⟨context.consumed ++ data, context.dataSize + data.length, false,
    by rw [context.counted, List.length_append]⟩

def finalizeDigest (finish : Bytes → Digest) (context : DigestContext) : Except Exn (Digest × DigestContext) :=
  if context.finalized then .error (.runtimeError (text "Digest already finalized"))
  else .ok ({ finish context.consumed with sizeBytes := context.dataSize }, { context with finalized := true })

end DigestContext

def DigestGenerator.hash (library : HashLibrary) (digestFunction : DigestFunction) (data : Bytes) :
    Except Exn Digest := do
  let context ← DigestContext.create.update data
  let (digest, _) ← context.finalizeDigest (finish library digestFunction)
  return digest

-- `s_digestFunctionValue` is set when the library is built.
def CASHash.hash (library : HashLibrary) (digestFunctionValue : DigestFunction) (data : Bytes) : Except Exn Digest :=
  DigestGenerator.hash library digestFunctionValue data

def DigestGenerator.byDefault : DigestFunction := .sha256

namespace Digest

def equal (a b : Digest) : Bool := a.hashOther = b.hashOther ∧ a.sizeBytes = b.sizeBytes

def less (a b : Digest) : Bool :=
  if a.hashOther ≠ b.hashOther then a.hashOther < b.hashOther else a.sizeBytes < b.sizeBytes

def stdHash (stringHash : Bytes → UInt64) (digest : Digest) : UInt64 := stringHash digest.hashOther

theorem equal_iff (a b : Digest) : a.equal b = true ↔ a.key = b.key := by
  simp [equal, key]

theorem less_iff (a b : Digest) : a.less b = true ↔ toLex a.key < toLex b.key := by
  rw [Prod.Lex.toLex_lt_toLex]
  unfold less key
  split_ifs with differ
  next => simp [differ]
  next =>
    rw [not_not] at differ
    simp [differ]

theorem stdHash_eq (stringHash : Bytes → UInt64) {a b : Digest} (same : a.equal b = true) :
    a.stdHash stringHash = b.stdHash stringHash := by
  simp only [equal, decide_eq_true_eq] at same
  rw [stdHash, stdHash, same.1]

end Digest

theorem hexDigit_injective {first second : Nat} (small : first < 16) (small' : second < 16)
    (same : hexDigit first = hexDigit second) : first = second := by
  have digits : ∀ a b : Fin 16, hexDigit a = hexDigit b → a = b := by decide
  exact congrArg Fin.val (digits ⟨first, small⟩ ⟨second, small'⟩ same)

theorem hashToHex_injective : Function.Injective hashToHex := by
  intro first second same
  induction first generalizing second with
  | nil =>
    cases second with
    | nil => rfl
    | cons byte second => simp [hashToHex] at same
  | cons byte first ih =>
    cases second with
    | nil => simp [hashToHex] at same
    | cons other second =>
      simp only [hashToHex, List.flatMap_cons, List.cons_append, List.nil_append, List.cons.injEq] at same
      obtain ⟨high, low, rest⟩ := same
      have below := byte.toNat_lt
      have below' := other.toNat_lt
      have highs := hexDigit_injective (by omega) (by omega) high
      have lows := hexDigit_injective (by omega) (by omega) low
      rw [ih rest, UInt8.toNat_inj.mp (show byte.toNat = other.toNat by omega)]

theorem length_hashToHex (hash : Bytes) : (hashToHex hash).length = 2 * hash.length := by
  induction hash with
  | nil => rfl
  | cons byte hash ih =>
    rw [hashToHex] at ih ⊢
    rw [List.flatMap_cons, List.length_append, ih]
    simp only [List.length_cons, List.length_nil]
    omega

theorem DigestContext.update_append (context : DigestContext) (data more : Bytes) :
    (context.update data >>= fun context => context.update more) = context.update (data ++ more) := by
  unfold update
  split
  next finalized => rfl
  next => simp [bind, Except.bind, Nat.add_assoc]

theorem DigestGenerator.hash_eq (library : HashLibrary) (digestFunction : DigestFunction) (data : Bytes) :
    DigestGenerator.hash library digestFunction data = .ok (finish library digestFunction data) := by
  cases digestFunction <;> simp [DigestGenerator.hash, DigestContext.update, DigestContext.create,
    DigestContext.finalizeDigest, finish, bind, Except.bind, pure, Except.pure]

section Distinguishes

variable (stringHash : Bytes → UInt64) (digest : Bytes → Digest)

def insertAll (blobs : List Bytes) : UnorderedMap Digest.key Bytes :=
  blobs.foldl (fun map blob => map.assign (digest blob) blob) UnorderedMap.empty

def emplaceAll (blobs : List Bytes) : UnorderedMap Digest.key Bytes :=
  blobs.foldl (fun map blob => map.emplace (digest blob) blob) UnorderedMap.empty

structure Distinguishes (blobs : List Bytes) : Prop where
  equal_iff : ∀ x ∈ blobs, ∀ y ∈ blobs, (digest x).equal (digest y) = true ↔ x = y
  irreflexive : ∀ x ∈ blobs, ¬(digest x).less (digest x) = true
  transitive : ∀ x ∈ blobs, ∀ y ∈ blobs, ∀ z ∈ blobs, (digest x).less (digest y) = true →
    (digest y).less (digest z) = true → (digest x).less (digest z) = true
  equivalent_iff : ∀ x ∈ blobs, ∀ y ∈ blobs, (digest x).equal (digest y) = true ↔
    ¬(digest x).less (digest y) = true ∧ ¬(digest y).less (digest x) = true
  hash_eq : ∀ x ∈ blobs, ∀ y ∈ blobs, (digest x).equal (digest y) = true →
    (digest x).stdHash stringHash = (digest y).stdHash stringHash
  inserted : ∀ x ∈ blobs, (insertAll digest blobs).find (digest x) = some x
  emplaced : ∀ x ∈ blobs, (emplaceAll digest blobs).find (digest x) = some x

variable {digest}

theorem find_foldl {step : UnorderedMap Digest.key Bytes → Bytes → UnorderedMap Digest.key Bytes}
    {blobs : List Bytes} (apart : ∀ x ∈ blobs, ∀ y ∈ blobs, (digest x).key = (digest y).key → x = y)
    (own : ∀ (map : UnorderedMap Digest.key Bytes), ∀ x,
      (∀ stored, map.find (digest x) = some stored → stored = x) → (step map x).find (digest x) = some x)
    (other : ∀ (map : UnorderedMap Digest.key Bytes) x y, (digest y).key ≠ (digest x).key →
      (step map x).find (digest y) = map.find (digest y))
    {x : Bytes} (member : x ∈ blobs) : (blobs.foldl step UnorderedMap.empty).find (digest x) = some x := by
  have kept (rest : List Bytes) (listed : rest ⊆ blobs) (map : UnorderedMap Digest.key Bytes)
      (mine : ∀ stored, map.find (digest x) = some stored → stored = x) :
      (x ∈ rest ∨ map.find (digest x) = some x) → (rest.foldl step map).find (digest x) = some x := by
    induction rest generalizing map with
    | nil => simp
    | cons y rest ih =>
      intro somewhere
      have inside := List.cons_subset.mp listed
      rw [List.foldl_cons]
      by_cases same : (digest x).key = (digest y).key
      next =>
        obtain rfl := apart x member y inside.1 same
        have found := own map x mine
        exact ih inside.2 _ (fun stored held => by simpa [found] using held.symm) (.inr found)
      next =>
        have unchanged := other map y x same
        refine ih inside.2 _ (unchanged ▸ mine) ?_
        rw [unchanged]
        exact somewhere.imp_left fun listed =>
          (List.mem_cons.mp listed).resolve_left fun equal => same (equal ▸ rfl)
  exact kept blobs (List.Subset.refl _) _ (by simp) (.inl member)

theorem distinguishes_iff {blobs : List Bytes} :
    Distinguishes stringHash digest blobs ↔
      ∀ x ∈ blobs, ∀ y ∈ blobs, (digest x).key = (digest y).key → x = y := by
  constructor
  next => exact fun tells x left y right same => (tells.equal_iff x left y right).mp ((Digest.equal_iff _ _).mpr same)
  next =>
    intro apart
    refine ⟨fun x left y right => ?_, fun x _ => ?_, fun x _ y _ z _ below above => ?_, fun x _ y _ => ?_,
      fun x _ y _ => Digest.stdHash_eq stringHash, fun x => ?_, fun x => ?_⟩
    next =>
      rw [Digest.equal_iff]
      exact ⟨apart x left y right, congrArg fun blob => (digest blob).key⟩
    next =>
      rw [Digest.less_iff]
      exact lt_irrefl _
    next =>
      rw [Digest.less_iff] at below above ⊢
      exact below.trans above
    next =>
      rw [Digest.equal_iff, Digest.less_iff, Digest.less_iff, not_lt, not_lt, ← toLex_inj]
      exact ⟨fun same => ⟨same.ge, same.le⟩, fun both => le_antisymm both.2 both.1⟩
    next =>
      refine find_foldl apart (fun map x _ => ?_) fun map x y differs => ?_
      next => rw [UnorderedMap.find_assign, if_pos rfl]
      next => rw [UnorderedMap.find_assign, if_neg differs]
    next =>
      refine find_foldl apart (fun map x mine => ?_) fun map x y differs => ?_
      next =>
        rw [UnorderedMap.find_emplace, if_pos rfl]
        cases found : map.find (digest x) with
        | none => rfl
        | some stored => rw [mine stored found, Option.getD_some]
      next => rw [UnorderedMap.find_emplace, if_neg differs]

end Distinguishes

theorem key_finish_eq_iff {library : HashLibrary} {digestFunction : DigestFunction}
    (collisionFree : Function.Injective (library digestFunction)) (x y : Bytes) :
    (finish library digestFunction x).key = (finish library digestFunction y).key ↔
      if digestFunction = .blake3zcc then x.length = y.length else x = y := by
  have hexadecimal (same : hashToHex (library digestFunction x) = hashToHex (library digestFunction y)) : x = y :=
    collisionFree (hashToHex_injective same)
  cases digestFunction with
  | blake3zcc =>
    show (([] : Bytes), (x.length : Int)) = ([], (y.length : Int)) ↔ x.length = y.length
    rw [Prod.mk.injEq, Int.ofNat_inj, and_iff_right rfl]
  | _ => exact ⟨fun same => hexadecimal (congrArg Prod.fst same), fun same => same ▸ rfl⟩

-- BLAKE3ZCC leaves `hash_other` empty, so its digests tell blobs apart by their sizes only.
theorem digestGenerator_distinguishes_iff (library : HashLibrary) (digestFunction : DigestFunction)
    (collisionFree : Function.Injective (library digestFunction)) (stringHash : Bytes → UInt64) (blobs : List Bytes) :
    ∃ digest : Bytes → Digest, (∀ data, DigestGenerator.hash library digestFunction data = .ok (digest data)) ∧
      (Distinguishes stringHash digest blobs ↔
        (digestFunction = .blake3zcc → ∀ x ∈ blobs, ∀ y ∈ blobs, x.length = y.length → x = y)) := by
  refine ⟨finish library digestFunction, DigestGenerator.hash_eq library digestFunction, ?_⟩
  rw [distinguishes_iff]
  simp only [key_finish_eq_iff collisionFree]
  split_ifs with unset
  next => exact ⟨fun apart _ => apart, fun apart => apart unset⟩
  next => exact ⟨fun _ blake => absurd blake unset, fun _ _ _ _ _ same => same⟩

section Samples

def sampleLibrary : HashLibrary
  | .sha256 => patch [
      (text "a", [202, 151, 129, 18, 202, 27, 189, 202, 250, 194, 49, 179, 154, 35, 220, 77,
        167, 134, 239, 248, 20, 124, 78, 114, 185, 128, 119, 133, 175, 238, 72, 187]),
      (text "b", [62, 35, 232, 22, 0, 57, 89, 74, 51, 137, 79, 101, 100, 225, 177, 52,
        139, 189, 122, 0, 136, 212, 44, 74, 203, 115, 238, 174, 213, 156, 0, 157])] id
  | .blake3zcc => patch [
      (text "a", [23, 118, 47, 221, 217, 105, 164, 83, 146, 93, 101, 113, 122, 195, 238, 162,
        19, 32, 182, 107, 84, 52, 47, 222, 21, 18, 141, 108, 175, 33, 33, 95]),
      (text "b", [16, 229, 207, 61, 60, 138, 79, 159, 52, 104, 200, 204, 88, 238, 168, 72,
        146, 162, 47, 218, 219, 193, 172, 178, 36, 16, 25, 0, 68, 193, 213, 83])] id
  | _ => id

theorem digestGenerator_distinguishes_iff_sha256 :
    ∃ digest : Bytes → Digest, (∀ data, DigestGenerator.hash sampleLibrary .sha256 data = .ok (digest data)) ∧
      (Distinguishes (fun string => string.length.toUInt64) digest [text "a", text "b"] ↔
        (DigestFunction.sha256 = .blake3zcc → ∀ x ∈ [text "a", text "b"], ∀ y ∈ [text "a", text "b"],
          x.length = y.length → x = y)) :=
  digestGenerator_distinguishes_iff sampleLibrary .sha256
    (patch_injective (by decide) (by decide) Function.injective_id) _ _

theorem blake3zcc_confuses :
    ¬∃ digest : Bytes → Digest, (∀ data, DigestGenerator.hash sampleLibrary .blake3zcc data = .ok (digest data)) ∧
      Distinguishes (fun string => string.length.toUInt64) digest [text "a", text "b"] := by
  rintro ⟨digest, computed, tells⟩
  have known (data : Bytes) : digest data = finish sampleLibrary .blake3zcc data := by
    have both := computed data
    rw [DigestGenerator.hash_eq] at both
    exact (Except.ok.inj both).symm
  have same := (tells.equal_iff (text "a") (by simp) (text "b") (by simp)).mp (by rw [known, known]; decide)
  exact absurd same (by decide)

end Samples

end BuildboxCommon
