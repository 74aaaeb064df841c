import BuildboxCommon.Blake3.Incremental

set_option autoImplicit false

namespace BuildboxCommon.Blake3

open ByteString

def around (block : Bytes) (seek outLen : Nat) : Bytes :=
  (List.range outLen).map fun i => block.getD ((seek + i) % block.length) 0

theorem around_add (block : Bytes) (seek first second : Nat) :
    around block seek (first + second) = around block seek first ++ around block (seek + first) second := by
  simp only [around, List.range_add, List.map_append, List.map_map, Function.comp_def, Nat.add_assoc]

theorem around_mod (block : Bytes) (seek outLen : Nat) :
    around block (seek % block.length) outLen = around block seek outLen := by
  simp [around]

theorem around_within {block : Bytes} {seek outLen : Nat} (within : seek + outLen ≤ block.length) :
    around block seek outLen = (block.drop seek).take outLen := by
  refine List.ext_getElem ?_ fun i inside _ => ?_
  next =>
    rw [around, List.length_map, List.length_range, List.length_take, List.length_drop]
    omega
  next =>
    have low : i < outLen := by simpa [around] using inside
    have place : (seek + i) % block.length = seek + i := Nat.mod_eq_of_lt (by omega)
    simp only [around, List.getElem_map, List.getElem_range, place, List.getElem_take, List.getElem_drop]
    exact List.getD_eq_getElem?_getD.trans (by rw [List.getElem?_eq_getElem (by omega)]; rfl)

theorem length_compressXof (cv : Words) (block : Bytes) (blockLen : Nat) (flags : UInt8) :
    (compressXof cv block blockLen flags).length = 64 := by
  rw [compressXof, List.length_append, length_storeCvWords, length_storeCvWords]

theorem Output.length_wideBuf (output : Output) : output.wideBuf.length = 64 := length_compressXof _ _ _ _

theorem Output.rootBytesFrom_eq (output : Output) (offset : Fin 64) (outLen : Nat) :
    output.rootBytesFrom offset outLen = around output.wideBuf offset outLen := by
  have wide := output.length_wideBuf
  induction outLen using Nat.strong_induction_on generalizing offset with
  | _ outLen ih =>
    by_cases some : 0 < outLen
    next =>
      have inside := offset.isLt
      rw [rootBytesFrom, dif_pos some]
      by_cases more : 64 - offset.val < outLen
      next =>
        have behind : around output.wideBuf (offset + (64 - offset)) (outLen - (64 - offset)) =
            around output.wideBuf 0 (outLen - (64 - offset)) := by
          rw [← around_mod, wide]
          congr 1
          omega
        have split := around_add output.wideBuf offset (64 - offset) (outLen - (64 - offset))
        have first : around output.wideBuf offset (64 - offset) = (output.wideBuf.drop offset).take (64 - offset) :=
          around_within (by omega)
        rw [Nat.add_sub_cancel' more.le, behind, first] at split
        simp only [if_pos more]
        rw [split, ih _ (by omega)]
        rfl
      next =>
        have last : output.rootBytesFrom 0 0 = [] := by rw [rootBytesFrom, dif_neg (Nat.lt_irrefl 0)]
        simp only [if_neg more, Nat.sub_self, last, List.append_nil]
        rw [around_within (by omega)]
    next =>
      obtain rfl : outLen = 0 := by omega
      rw [rootBytesFrom, dif_neg some]
      rfl

theorem Output.rootBytes_eq (output : Output) (seek outLen : Nat) :
    output.rootBytes seek outLen = around output.wideBuf seek outLen := by
  have around := around_mod output.wideBuf seek outLen
  rw [output.length_wideBuf] at around
  rw [rootBytes, rootBytesFrom_eq, ← around]
  rfl

theorem Hasher.updates_finalizeSeek_around (key : Words) (flags : UInt8) (pieces : List Bytes)
    (small : pieces.flatten.length < 2 ^ 64) (uncrossed : Uncrossed pieces) :
    ∃ block : Bytes, block.length = 64 ∧ ∀ seek outLen,
      ((initBase key flags).updates pieces >>= fun hasher => hasher.finalizeSeek seek outLen) =
        .ok ((List.range outLen).map fun i => block.getD ((seek + i) % 64) 0) := by
  obtain ⟨hasher, ran, result⟩ := (initBase_updates key flags small).1 uncrossed
  have wide := (treeOutput key flags pieces.flatten).length_wideBuf
  refine ⟨(treeOutput key flags pieces.flatten).wideBuf, wide, fun seek outLen => ?_⟩
  rw [ran]
  refine (result seek outLen).trans ?_
  rw [Output.rootBytes_eq, around, wide]

theorem Hasher.updates_finalizeSeek_around_letter :
    ∃ block : Bytes, block.length = 64 ∧ ∀ seek outLen,
      ((initBase iv 0).updates [[97]] >>= fun hasher => hasher.finalizeSeek seek outLen) =
        .ok ((List.range outLen).map fun i => block.getD ((seek + i) % 64) 0) :=
  updates_finalizeSeek_around iv 0 [[97]] (by decide) (by decide)

end BuildboxCommon.Blake3
