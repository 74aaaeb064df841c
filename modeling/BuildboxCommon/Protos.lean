import BuildboxCommon.Exceptions
import Mathlib.Algebra.Order.Ring.Int
import Mathlib.Logic.Equiv.List
import Mathlib.Logic.Function.Basic
import Mathlib.Tactic.DeriveEncodable

set_option autoImplicit false

namespace BuildboxCommon

open ByteString

structure Digest where
  hashOther : Bytes
  sizeBytes : Int
  hashBlake3zcc : Bytes
deriving DecidableEq

-- `operator==`, `operator<` and `std::hash` of a `Digest` only look at these two fields.
def Digest.key (digest : Digest) : Bytes × Int := (digest.hashOther, digest.sizeBytes)

def Digest.unset : Digest := ⟨[], 0, []⟩

structure Timestamp where
  seconds : Int
  nanos : Int
deriving DecidableEq

structure NodeProperty where
  name : Bytes
  value : Bytes
deriving DecidableEq

structure NodeProperties where
  properties : List NodeProperty
  mtime : Option Timestamp
  unixMode : Option Nat
deriving DecidableEq

structure FileNode where
  name : Bytes
  digest : Digest
  isExecutable : Bool
  nodeProperties : Option NodeProperties
deriving DecidableEq

structure DirectoryNode where
  name : Bytes
  digest : Digest
deriving DecidableEq

structure SymlinkNode where
  name : Bytes
  target : Bytes
  nodeProperties : Option NodeProperties
deriving DecidableEq

structure Directory where
  files : List FileNode
  directories : List DirectoryNode
  symlinks : List SymlinkNode
  nodeProperties : Option NodeProperties
deriving DecidableEq

structure Tree where
  root : Directory
  children : List Directory
deriving DecidableEq

structure OutputFile where
  path : Bytes
  digest : Digest
  isExecutable : Bool
  nodeProperties : Option NodeProperties
deriving DecidableEq

structure OutputDirectory where
  path : Bytes
  treeDigest : Digest
deriving DecidableEq

structure Command where
  workingDirectory : Bytes
  outputFiles : List Bytes
  outputDirectories : List Bytes
  outputPaths : List Bytes
  outputNodeProperties : List Bytes
deriving DecidableEq

structure ActionResult where
  outputFiles : List OutputFile
  outputDirectories : List OutputDirectory
deriving DecidableEq

structure Encoding (Message : Type) where
  serializeAsString : Message → Bytes
  parseFromString : Bytes → Message
  serialize_injective : Function.Injective serializeAsString

structure Codec (Message : Type) extends Encoding Message where
  parse_serialize : ∀ message, parseFromString (serializeAsString message) = message

instance codecEncoding {Message : Type} : CoeOut (Codec Message) (Encoding Message) := ⟨Codec.toEncoding⟩

def continuation (byte : UInt8) : Bool := 128 ≤ byte && byte < 192

-- No surrogates, nothing above the last code point and no character in more bytes than it needs.
def validUtf8 : Bytes → Bool
  | [] => true
  | a :: rest =>
    if a < 128 then validUtf8 rest
    else
      match rest with
      | [] => false
      | b :: rest =>
        if 194 ≤ a && a < 224 then continuation b && validUtf8 rest
        else
          match rest with
          | [] => false
          | c :: rest =>
            if 224 ≤ a && a < 240 then
              continuation b && continuation c && (a != 224 || 160 ≤ b) && (a != 237 || b < 160) && validUtf8 rest
            else
              match rest with
              | [] => false
              | d :: rest =>
                240 ≤ a && a < 245 && continuation b && continuation c && continuation d && (a != 240 || 144 ≤ b) &&
                  (a != 244 || b < 144) && validUtf8 rest

class Strings (Message : Type) where
  strings : Message → List Bytes

def utf8 {Message : Type} [Strings Message] (message : Message) : Bool := (Strings.strings message).all validUtf8

def NodeProperties.strings (nodeProperties : NodeProperties) : List Bytes :=
  nodeProperties.properties.flatMap fun property => [property.name, property.value]

instance directoryStrings : Strings Directory where
  strings directory :=
    directory.files.flatMap (fun file => file.name :: file.digest.hashOther ::
      (file.nodeProperties.map NodeProperties.strings).getD []) ++
    directory.directories.flatMap (fun node => [node.name, node.digest.hashOther]) ++
    directory.symlinks.flatMap (fun symlink => symlink.name :: symlink.target ::
      (symlink.nodeProperties.map NodeProperties.strings).getD []) ++
    (directory.nodeProperties.map NodeProperties.strings).getD []

-- Serialisation writes any string, and parsing refuses one that is not UTF-8. What a refused message is left
-- with is what `parseFromString` gives.
structure WireFormat (Message : Type) [Strings Message] extends Encoding Message where
  parses : Bytes → Bool
  parses_serialize : ∀ message, parses (serializeAsString message) = utf8 message
  parse_serialize : ∀ message, utf8 message = true → parseFromString (serializeAsString message) = message

instance wireFormatEncoding {Message : Type} [Strings Message] : CoeOut (WireFormat Message) (Encoding Message) :=
  ⟨WireFormat.toEncoding⟩

noncomputable def Codec.ofInjective {Message : Type} [Nonempty Message] (serialize : Message → Bytes)
    (injective : Function.Injective serialize) : Codec Message :=
  ⟨⟨serialize, Function.invFun serialize, injective⟩, Function.leftInverse_invFun injective⟩

def makeDigest (hash : Bytes → Bytes) (blob : Bytes) : Digest := ⟨hash blob, blob.length, []⟩

theorem makeDigest_eq_of_key {hash : Bytes → Bytes} {first second : Bytes}
    (same : (makeDigest hash first).key = (makeDigest hash second).key) :
    makeDigest hash first = makeDigest hash second := by
  obtain ⟨hashes, sizes⟩ := Prod.mk.inj same
  exact congrArg₂ (fun hashOther sizeBytes => Digest.mk hashOther sizeBytes []) hashes sizes

theorem makeDigest_injective {hash : Bytes → Bytes} (injective : Function.Injective hash) {first second : Bytes}
    (same : (makeDigest hash first).key = (makeDigest hash second).key) : first = second :=
  injective (congrArg Prod.fst same)

section Samples

instance encodableUInt8 : Encodable UInt8 := Encodable.ofLeftInverse UInt8.toNat Nat.toUInt8 fun byte => by simp

deriving instance Encodable for Digest
deriving instance Encodable for Timestamp
deriving instance Encodable for NodeProperty
deriving instance Encodable for NodeProperties
deriving instance Encodable for FileNode
deriving instance Encodable for DirectoryNode
deriving instance Encodable for SymlinkNode
deriving instance Encodable for Directory
deriving instance Encodable for Tree

instance : Nonempty Directory := ⟨⟨[], [], [], none⟩⟩
instance : Nonempty Tree := ⟨⟨⟨[], [], [], none⟩, []⟩⟩

variable {α : Type} [DecidableEq α]

def hexadecimal : Nat → Nat → Bytes
  | 0, _ => []
  | count + 1, value =>
    let digit := value / 16 ^ count % 16
    (if digit < 10 then 48 + digit else 87 + digit).toUInt8 :: hexadecimal count value

def hexDigest (value : Nat) : Bytes := hexadecimal 64 value

def patch (samples : List (α × Bytes)) (other : α → Bytes) (a : α) : Bytes :=
  match samples.find? fun sample => sample.1 = a with
  | some sample => sample.2
  | none => 255 :: other a

theorem patch_injective {samples : List (α × Bytes)} (distinct : (samples.map Prod.snd).Nodup)
    (plain : ∀ sample ∈ samples, sample.2.head? ≠ some 255) {other : α → Bytes}
    (injective : Function.Injective other) : Function.Injective (patch samples other) := by
  intro a b same
  have sampled (a : α) : (∃ sample ∈ samples, sample.1 = a ∧ patch samples other a = sample.2) ∨
      patch samples other a = 255 :: other a := by
    unfold patch
    cases found : samples.find? fun sample => sample.1 = a with
    | none => exact .inr rfl
    | some sample => exact .inl ⟨sample, List.mem_of_find?_eq_some found, by simpa using List.find?_some found, rfl⟩
  rcases sampled a with ⟨first, left, rfl, value⟩ | value <;>
    rcases sampled b with ⟨second, right, rfl, value'⟩ | value' <;> rw [value, value'] at same
  next => exact congrArg Prod.fst (List.inj_on_of_nodup_map distinct left right same)
  next => exact absurd (by rw [same]; rfl) (plain first left)
  next => exact absurd (by rw [← same]; rfl) (plain second right)
  next => exact injective (List.cons.inj same).2

noncomputable def unpatch [Nonempty α] (samples : List (α × Bytes)) (other : α → Bytes) (bytes : Bytes) : α :=
  match samples.find? fun sample => sample.2 = bytes with
  | some sample => sample.1
  | none => Function.invFun (patch samples other) bytes

theorem unpatch_patch [Nonempty α] {samples : List (α × Bytes)} (distinct : (samples.map Prod.snd).Nodup)
    (plain : ∀ sample ∈ samples, sample.2.head? ≠ some 255) {other : α → Bytes}
    (injective : Function.Injective other) (a : α) : unpatch samples other (patch samples other a) = a := by
  unfold unpatch
  cases found : samples.find? fun sample => sample.2 = patch samples other a with
  | none => exact Function.leftInverse_invFun (patch_injective distinct plain injective) a
  | some sample =>
    have member := List.mem_of_find?_eq_some found
    have value : sample.2 = patch samples other a := by simpa using List.find?_some found
    unfold patch at value
    split at value
    next first same =>
      have alike := List.inj_on_of_nodup_map distinct member (List.mem_of_find?_eq_some same) value
      rw [alike]
      simpa using List.find?_some same
    next => exact absurd (by rw [value]; rfl) (plain sample member)

noncomputable def Codec.ofSamples {Message : Type} [DecidableEq Message] [Encodable Message] [Nonempty Message]
    (samples : List (Message × Bytes)) (distinct : (samples.map Prod.snd).Nodup)
    (plain : ∀ sample ∈ samples, sample.2.head? ≠ some 255) : Codec Message :=
  have apart : Function.Injective fun message : Message => List.replicate (Encodable.encode message) (0 : UInt8) :=
    fun first second same => Encodable.encode_injective (by simpa using congrArg List.length same)
  ⟨⟨patch samples _, unpatch samples _, patch_injective distinct plain apart⟩, unpatch_patch distinct plain apart⟩

def varint (n : Nat) : Bytes := if n < 128 then [n.toUInt8] else [(n % 128 + 128).toUInt8, (n / 128).toUInt8]

def submessage (tag : UInt8) (bytes : Bytes) : Bytes := tag :: varint bytes.length ++ bytes

def stringField (tag : UInt8) (bytes : Bytes) : Bytes := if bytes = [] then [] else submessage tag bytes

def varintField (tag : UInt8) (n : Nat) : Bytes := if n = 0 then [] else tag :: varint n

def Digest.wire (digest : Digest) : Bytes :=
  stringField 10 digest.hashOther ++ varintField 16 digest.sizeBytes.toNat ++ stringField 26 digest.hashBlake3zcc

def Timestamp.wire (timestamp : Timestamp) : Bytes :=
  varintField 8 timestamp.seconds.toNat ++ varintField 16 timestamp.nanos.toNat

def NodeProperties.wire (nodeProperties : NodeProperties) : Bytes :=
  nodeProperties.properties.flatMap (fun property =>
    submessage 10 (stringField 10 property.name ++ stringField 18 property.value)) ++
  (nodeProperties.mtime.map fun mtime => submessage 18 mtime.wire).getD [] ++
  (nodeProperties.unixMode.map fun unixMode => submessage 26 (varintField 8 unixMode)).getD []

def Directory.wire (directory : Directory) : Bytes :=
  let properties (tag : UInt8) (nodeProperties : Option NodeProperties) : Bytes :=
    (nodeProperties.map fun nodeProperties => submessage tag nodeProperties.wire).getD []
  directory.files.flatMap (fun file => submessage 10 (stringField 10 file.name ++ submessage 18 file.digest.wire ++
    varintField 32 file.isExecutable.toNat ++ properties 50 file.nodeProperties)) ++
  directory.directories.flatMap
    (fun node => submessage 18 (stringField 10 node.name ++ submessage 18 node.digest.wire)) ++
  directory.symlinks.flatMap
    (fun symlink => submessage 26 (stringField 10 symlink.name ++ stringField 18 symlink.target ++
    properties 34 symlink.nodeProperties)) ++
  properties 42 directory.nodeProperties

noncomputable def WireFormat.ofSamples {Message : Type} [Strings Message] [DecidableEq Message] [Encodable Message]
    [Nonempty Message] (samples refused : List (Message × Bytes)) (unknownFields : Bytes → Bool)
    (distinct : ((samples ++ refused).map Prod.snd).Nodup)
    (plain : ∀ sample ∈ samples ++ refused, sample.2.head? ≠ some 255)
    (valid : ∀ sample ∈ samples, utf8 sample.1 = true)
    (invalid : ∀ sample ∈ refused, utf8 sample.1 = false ∧ unknownFields sample.2 = false) : WireFormat Message where
  toEncoding := (Codec.ofSamples (samples ++ refused) distinct plain).toEncoding
  parses bytes := bytes.head? != some 255 && unknownFields bytes || samples.any (fun sample => sample.2 = bytes) ||
    bytes.head? == some 255 && utf8 ((Codec.ofSamples (samples ++ refused) distinct plain).parseFromString bytes)
  parses_serialize message := by
    have parsed := (Codec.ofSamples (samples ++ refused) distinct plain).parse_serialize message
    rw [parsed, show (Codec.ofSamples (samples ++ refused) distinct plain).serializeAsString message =
      patch (samples ++ refused) (fun message => List.replicate (Encodable.encode message) 0) message from rfl]
    unfold patch
    cases found : (samples ++ refused).find? fun sample => sample.1 = message with
    | none =>
      have apart : samples.any (fun sample => sample.2 = 255 :: List.replicate (Encodable.encode message) 0) =
        false := by
        rw [List.any_eq_false]
        intro sample member same
        exact plain sample (List.mem_append_left _ member) (by rw [of_decide_eq_true same]; rfl)
      rw [apart]
      rfl
    | some sample =>
      have member := List.mem_of_find?_eq_some found
      obtain rfl : sample.1 = message := by simpa using List.find?_some found
      have head := plain sample member
      rcases List.mem_append.mp member with taken | given
      next =>
        have listed : samples.any (fun other => other.2 = sample.2) = true :=
          List.any_eq_true.mpr ⟨sample, taken, by simp⟩
        simp [listed, valid sample taken]
      next =>
        obtain ⟨broken, known⟩ := invalid sample given
        have unlisted : samples.any (fun other => other.2 = sample.2) = false := by
          rw [List.any_eq_false]
          intro other taken same
          have alike := List.inj_on_of_nodup_map distinct (List.mem_append_left _ taken) member (of_decide_eq_true same)
          exact absurd ((valid other taken).symm.trans (alike ▸ broken)) (by decide)
        simp [unlisted, broken, known]
  parse_serialize message _ := (Codec.ofSamples (samples ++ refused) distinct plain).parse_serialize message

end Samples

end BuildboxCommon
