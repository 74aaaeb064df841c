import Mathlib.Data.List.DropRight
import Mathlib.Data.List.Lex
import Mathlib.Data.List.TakeWhile

set_option autoImplicit false

namespace ByteString

abbrev Bytes := List UInt8

def text (literal : String) : Bytes := literal.toList.map fun c => c.toNat.toUInt8

-- Bytes compare unsigned, so strings compare as `memcmp` and code points do.
instance linearOrderUInt8 : LinearOrder UInt8 where
  le_refl := UInt8.le_refl
  le_trans _ _ _ := UInt8.le_trans
  le_antisymm _ _ := UInt8.le_antisymm
  le_total := UInt8.le_total
  lt_iff_le_not_ge a b := by
    simp only [UInt8.lt_iff_toNat_lt, UInt8.le_iff_toNat_le]
    omega
  toDecidableLE := inferInstance
  toDecidableEq := inferInstance
  toDecidableLT := inferInstance

instance lawfulBEqUInt8 : LawfulBEq UInt8 := inferInstance
instance lawfulBEqBytes : LawfulBEq Bytes := inferInstance

def nul : UInt8 := 0

-- What a callee sees of a byte string handed over as a `const char *`.
def cString (bytes : Bytes) : Bytes := bytes.takeWhile (· ≠ nul)

def NulFree (bytes : Bytes) : Prop := nul ∉ bytes

instance (bytes : Bytes) : Decidable (NulFree bytes) := inferInstanceAs (Decidable (¬ _))

@[simp] theorem cString_nil : cString [] = [] := rfl

theorem cString_of_nulFree {bytes : Bytes} (free : NulFree bytes) : cString bytes = bytes := by
  apply List.takeWhile_eq_self_iff.mpr
  intro byte member
  simpa using fun same : byte = nul => free (same ▸ member)

theorem cString_nulFree (bytes : Bytes) : NulFree (cString bytes) := by
  intro member
  simpa using List.mem_takeWhile_imp member

@[simp] theorem cString_cString (bytes : Bytes) : cString (cString bytes) = cString bytes :=
  cString_of_nulFree (cString_nulFree bytes)

theorem cString_append_of_nulFree {first : Bytes} (free : NulFree first) (rest : Bytes) :
    cString (first ++ rest) = first ++ cString rest := by
  apply List.takeWhile_append_of_pos
  intro byte member
  simpa using fun same : byte = nul => free (same ▸ member)

theorem cString_append_of_nul {first : Bytes} (present : ¬NulFree first) (rest : Bytes) :
    cString (first ++ rest) = cString first := by
  induction first with
  | nil => exact absurd (by simp [NulFree]) present
  | cons byte bytes ih =>
    by_cases ends : byte = nul
    next => simp [cString, ends]
    next =>
      have later : ¬NulFree bytes := by
        intro free
        apply present
        intro member
        rcases List.mem_cons.mp member with same | inside
        next => exact ends same.symm
        next => exact free inside
      simpa [cString, ends] using ih later

theorem mem_splitOn {separator : UInt8} {segment bytes : Bytes}
    (member : segment ∈ bytes.splitOn separator) : separator ∉ segment ∧ segment ⊆ bytes := by
  induction bytes generalizing segment with
  | nil => simp_all
  | cons byte bytes ih =>
    rw [List.splitOn_cons_eq_if_modifyHead] at member
    split_ifs at member with ends
    next =>
      rcases List.mem_cons.mp member with rfl | member
      next => simp
      next => exact ⟨(ih member).1, List.subset_cons_of_subset _ (ih member).2⟩
    next =>
      obtain ⟨first, others, split⟩ := List.exists_cons_of_ne_nil (List.splitOn_ne_nil separator bytes)
      rw [split, List.modifyHead_cons] at member
      rcases List.mem_cons.mp member with rfl | member
      next =>
        have inner := ih (split ▸ List.mem_cons_self : first ∈ _)
        refine ⟨?_, List.cons_subset_cons _ inner.2⟩
        simp only [List.mem_cons, not_or]
        exact ⟨fun same => ends (by simp [same]), inner.1⟩
      next =>
        have inner := ih (split ▸ List.mem_cons_of_mem _ member)
        exact ⟨inner.1, List.subset_cons_of_subset _ inner.2⟩

theorem rdropWhile_separator (start : Bytes) {separator : UInt8} {last : Bytes} (plain : separator ∉ last) :
    (start ++ separator :: last).rdropWhile (· ≠ separator) = start ++ [separator] := by
  have ends : ∀ byte ∈ last.reverse, decide (byte ≠ separator) = true := by
    intro byte member
    simpa using fun same : byte = separator => plain (same ▸ List.mem_reverse.mp member)
  rw [List.rdropWhile, List.reverse_append, List.reverse_cons, List.append_assoc, List.dropWhile_append_of_pos ends]
  simp

theorem nulFree_append {left right : Bytes} :
    NulFree (left ++ right) ↔ NulFree left ∧ NulFree right := by
  simp [NulFree, not_or]

theorem intercalate_append (separator : UInt8) {first second : List Bytes} (left : first ≠ [])
    (right : second ≠ []) : [separator].intercalate (first ++ second) =
      [separator].intercalate first ++ separator :: [separator].intercalate second := by
  induction first with
  | nil => contradiction
  | cons segment first ih =>
    cases first with
    | nil =>
      obtain ⟨next, others, rfl⟩ := List.exists_cons_of_ne_nil right
      simp [List.intercalate_cons_cons]
    | cons next first =>
      have inner := ih (by simp)
      simp only [List.cons_append, List.intercalate_cons_cons] at inner ⊢
      simp [inner]

end ByteString
