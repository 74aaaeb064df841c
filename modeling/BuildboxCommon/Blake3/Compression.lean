import BuildboxCommon.Shared.Bytes
import Mathlib.Tactic.Ring

set_option autoImplicit false

namespace BuildboxCommon.Blake3

open ByteString

def keyLen : Nat := 32
def outLen : Nat := 32
def blockLen : Nat := 64
def chunkLen : Nat := 1024
def maxDepth : Nat := 54

def chunkStart : UInt8 := 1
def chunkEnd : UInt8 := 2
def parent : UInt8 := 4
def root : UInt8 := 8
def keyedHash : UInt8 := 16
def deriveKeyContext : UInt8 := 32
def deriveKeyMaterial : UInt8 := 64

abbrev Words := Vector UInt32 8
abbrev State := Vector UInt32 16

def iv : Words :=
  #v[0x6A09E667, 0xBB67AE85, 0x3C6EF372, 0xA54FF53A, 0x510E527F, 0x9B05688C, 0x1F83D9AB, 0x5BE0CD19]

def msgSchedule : Vector (Vector (Fin 16) 16) 7 :=
  #v[#v[0, 1, 2, 3, 4, 5, 6, 7, 8, 9, 10, 11, 12, 13, 14, 15],
    #v[2, 6, 3, 10, 7, 0, 4, 13, 1, 11, 12, 5, 9, 14, 15, 8],
    #v[3, 4, 10, 12, 13, 2, 7, 14, 6, 5, 9, 0, 11, 15, 8, 1],
    #v[10, 7, 12, 9, 14, 3, 13, 15, 4, 0, 11, 2, 5, 8, 1, 6],
    #v[12, 13, 9, 11, 15, 10, 14, 8, 7, 2, 5, 3, 0, 1, 6, 4],
    #v[9, 14, 11, 5, 8, 12, 15, 1, 13, 3, 0, 10, 2, 6, 4, 7],
    #v[11, 15, 5, 0, 1, 9, 8, 6, 14, 10, 2, 12, 3, 4, 7, 13]]

def popcnt (x : Nat) : Nat := (List.range 64).countP x.testBit

def roundDownToPowerOf2 (x : Nat) : Nat := 2 ^ Nat.log2 (x ||| 1)

def load32 (src : Bytes) (at' : Nat) : UInt32 :=
  (src.getD at' 0).toUInt32 ||| (src.getD (at' + 1) 0).toUInt32 <<< 8 ||| (src.getD (at' + 2) 0).toUInt32 <<< 16 |||
    (src.getD (at' + 3) 0).toUInt32 <<< 24

def loadKeyWords (key : Bytes) : Words := Vector.ofFn fun i => load32 key (4 * i)

def store32 (w : UInt32) : Bytes := [w.toUInt8, (w >>> 8).toUInt8, (w >>> 16).toUInt8, (w >>> 24).toUInt8]

def storeCvWords (cvWords : Words) : Bytes := cvWords.toList.flatMap store32

def rotr32 (w c : UInt32) : UInt32 := w >>> c ||| w <<< (32 - c)

def g (state : State) (a b c d : Fin 16) (x y : UInt32) : State :=
  let state := state.set a (state[a] + state[b] + x)
  let state := state.set d (rotr32 (state[d] ^^^ state[a]) 16)
  let state := state.set c (state[c] + state[d])
  let state := state.set b (rotr32 (state[b] ^^^ state[c]) 12)
  let state := state.set a (state[a] + state[b] + y)
  let state := state.set d (rotr32 (state[d] ^^^ state[a]) 8)
  let state := state.set c (state[c] + state[d])
  state.set b (rotr32 (state[b] ^^^ state[c]) 7)

def roundFn (state : State) (msg : State) (schedule : Vector (Fin 16) 16) : State :=
  let state := g state 0 4 8 12 msg[schedule[0]] msg[schedule[1]]
  let state := g state 1 5 9 13 msg[schedule[2]] msg[schedule[3]]
  let state := g state 2 6 10 14 msg[schedule[4]] msg[schedule[5]]
  let state := g state 3 7 11 15 msg[schedule[6]] msg[schedule[7]]
  let state := g state 0 5 10 15 msg[schedule[8]] msg[schedule[9]]
  let state := g state 1 6 11 12 msg[schedule[10]] msg[schedule[11]]
  let state := g state 2 7 8 13 msg[schedule[12]] msg[schedule[13]]
  g state 3 4 9 14 msg[schedule[14]] msg[schedule[15]]

def compressPre (cv : Words) (block : Bytes) (blockLen : Nat) (flags : UInt8) : State :=
  let blockWords : State := Vector.ofFn fun i => load32 block (4 * i)
  let state : State := #v[cv[0], cv[1], cv[2], cv[3], cv[4], cv[5], cv[6], cv[7], iv[0], iv[1], iv[2], iv[3],
    0, 0, blockLen.toUInt32, flags.toUInt32]
  msgSchedule.foldl (fun state schedule => roundFn state blockWords schedule) state

@[irreducible] def compressInPlace (cv : Words) (block : Bytes) (blockLen : Nat) (flags : UInt8) : Words :=
  let state := compressPre cv block blockLen flags
  Vector.ofFn fun i => state[i] ^^^ state[i.val + 8]

@[irreducible] def compressXof (cv : Words) (block : Bytes) (blockLen : Nat) (flags : UInt8) : Bytes :=
  let state := compressPre cv block blockLen flags
  storeCvWords (Vector.ofFn fun i => state[i] ^^^ state[i.val + 8]) ++
    storeCvWords (Vector.ofFn fun i => state[i.val + 8] ^^^ cv[i])

def hashOneLoop (cv : Words) (input : Bytes) (blockFlags flags flagsEnd : UInt8) : Nat → Words
  | 0 => cv
  | blocks + 1 =>
    let blockFlags := if blocks = 0 then blockFlags ||| flagsEnd else blockFlags
    hashOneLoop (compressInPlace cv (input.take blockLen) blockLen blockFlags)
      (input.drop blockLen) flags flags flagsEnd blocks

def hashOne (input : Bytes) (blocks : Nat) (key : Words) (flags flagsStart flagsEnd : UInt8) : Bytes :=
  storeCvWords (hashOneLoop key input (flags ||| flagsStart) flags flagsEnd blocks)

def hashMany (inputs : List Bytes) (blocks : Nat) (key : Words) (flags flagsStart flagsEnd : UInt8) : List Bytes :=
  inputs.map fun input => hashOne input blocks key flags flagsStart flagsEnd

abbrev simdDegree : Nat := 1

end BuildboxCommon.Blake3
