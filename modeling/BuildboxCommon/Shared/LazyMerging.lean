import Mathlib.Data.List.Perm.Subperm
import Mathlib.Data.Nat.BitIndices
import Mathlib.Tactic.Ring

set_option autoImplicit false

namespace LazyMerging

def ones (number : Nat) : Nat := number.bitIndices.length

theorem ones_sum {heights : List Nat} (rising : heights.Pairwise (· < ·)) :
    ones (heights.map (2 ^ ·)).sum = heights.length := by
  rw [ones, Nat.bitIndices_sum_map_two_pow rising.sortedLT]

theorem ones_le {number bits : Nat} (bounded : number < 2 ^ bits) : ones number ≤ bits := by
  have inside : number.bitIndices ⊆ List.range bits := by
    intro index member
    have low := Nat.two_pow_le_of_mem_bitIndices member
    rw [List.mem_range]
    exact (Nat.pow_lt_pow_iff_right one_lt_two).mp (low.trans_lt bounded)
  have fewer := (List.subperm_of_subset Nat.bitIndices_nodup inside).length_le
  rwa [List.length_range] at fewer

-- A list of more than one unit is split behind the largest power of two of units that leaves something over.
structure Merger (β ω α : Type) where
  unit : Nat
  unit_pos : 0 < unit
  top : List β → ω
  condense : ω → α
  join : α → α → ω
  top_append : ∀ (left right : List β) (height : Nat), left.length = unit * 2 ^ height → right ≠ [] →
    right.length ≤ left.length → top (left ++ right) = join (condense (top left)) (condense (top right))

namespace Merger

variable {β ω α : Type} (m : Merger β ω α)

def value (items : List β) : α := m.condense (m.top items)

structure Block where
  height : Nat
  items : List β
  full : items.length = m.unit * 2 ^ height

variable {m}

namespace Block

def value (block : m.Block) : α := m.value block.items

theorem items_ne_nil (block : m.Block) : block.items ≠ [] := by
  have positive := Nat.mul_pos m.unit_pos (Nat.two_pow_pos block.height)
  rw [← block.full] at positive
  exact List.ne_nil_of_length_pos positive

def join (left right : m.Block) (same : right.height = left.height) : m.Block where
  height := left.height + 1
  items := left.items ++ right.items
  full := by
    rw [List.length_append, left.full, right.full, same]
    ring

theorem value_join {left right : m.Block} (same : right.height = left.height) :
    (left.join right same).value = m.condense (m.join left.value right.value) := by
  have split := m.top_append left.items right.items left.height left.full right.items_ne_nil
    (by rw [left.full, right.full, same])
  exact congrArg m.condense split

end Block

def contents : List m.Block → List β
  | [] => []
  | block :: below => contents below ++ block.items

def count (blocks : List m.Block) : Nat := ((blocks.map Block.height).map (2 ^ ·)).sum

@[simp] theorem count_nil : count ([] : List m.Block) = 0 := rfl

@[simp] theorem count_cons (block : m.Block) (below : List m.Block) :
    count (block :: below) = 2 ^ block.height + count below := by simp [count]

theorem length_contents (blocks : List m.Block) : (contents blocks).length = m.unit * count blocks := by
  induction blocks with
  | nil => simp [contents]
  | cons block below ih =>
    rw [contents, List.length_append, ih, block.full, count_cons]
    ring

def Steady (blocks : List m.Block) : Prop := (blocks.map Block.height).Pairwise (· < ·)

def Unmerged : List m.Block → Prop
  | block :: below :: rest => block.height ≤ below.height ∧ Steady (below :: rest)
  | _ => True

theorem Steady.below {block : m.Block} {below : List m.Block} (steady : Steady (block :: below)) : Steady below :=
  (List.pairwise_cons.mp steady).2

theorem steady_cons_iff {block below : m.Block} {rest : List m.Block} :
    Steady (block :: below :: rest) ↔ block.height < below.height ∧ Steady (below :: rest) := by
  constructor
  next =>
    intro steady
    exact ⟨(List.pairwise_cons.mp steady).1 below.height (by simp), steady.below⟩
  next =>
    intro both
    refine List.pairwise_cons.mpr ⟨fun height member => ?_, both.2⟩
    rcases List.mem_cons.mp member with rfl | further
    next => exact both.1
    next => exact both.1.trans ((List.pairwise_cons.mp both.2).1 height further)

theorem steady_single (block : m.Block) : Steady [block] := List.pairwise_singleton _ _

theorem Steady.unmerged {blocks : List m.Block} (steady : Steady blocks) : Unmerged blocks := by
  match blocks, steady with
  | [], _ => trivial
  | [_], _ => trivial
  | _ :: _ :: _, steady =>
    have both := steady_cons_iff.mp steady
    exact ⟨both.1.le, both.2⟩

theorem Steady.ones_count {blocks : List m.Block} (steady : Steady blocks) : ones (count blocks) = blocks.length := by
  rw [count, ones_sum steady, List.length_map]

theorem dvd_count {height : Nat} {blocks : List m.Block} (higher : ∀ block ∈ blocks, height ≤ block.height) :
    2 ^ height ∣ count blocks := by
  induction blocks with
  | nil => exact Nat.dvd_zero _
  | cons block below ih =>
    rw [count_cons]
    exact Nat.dvd_add (Nat.pow_dvd_pow 2 (higher block (by simp)))
      (ih fun other member => higher other (by simp [member]))

theorem Steady.height_le {block : m.Block} {below : List m.Block} (steady : Steady (block :: below)) {height : Nat}
    (aligned : 2 ^ height ∣ count (block :: below)) : height ≤ block.height := by
  by_contra lower
  have others : 2 ^ (block.height + 1) ∣ count below := dvd_count fun other member =>
    (List.pairwise_cons.mp steady).1 other.height (List.mem_map_of_mem member)
  have all := (Nat.pow_dvd_pow 2 (show block.height + 1 ≤ height by omega)).trans aligned
  rw [count_cons, Nat.dvd_add_iff_left others |>.symm] at all
  have small := Nat.le_of_dvd (Nat.two_pow_pos _) all
  exact absurd small (not_le.mpr (Nat.pow_lt_pow_right one_lt_two (Nat.lt_succ_self _)))

theorem Unmerged.join {block below : m.Block} {rest : List m.Block} (unmerged : Unmerged (block :: below :: rest))
    (same : block.height = below.height) : Unmerged (below.join block same :: rest) := by
  cases rest with
  | nil => trivial
  | cons further rest =>
    have both := steady_cons_iff.mp unmerged.2
    exact ⟨both.1, both.2⟩

theorem count_join {block below : m.Block} (rest : List m.Block) (same : block.height = below.height) :
    count (below.join block same :: rest) = count (block :: below :: rest) := by
  simp only [count_cons, same, Block.join, Nat.pow_succ]
  omega

theorem contents_join {block below : m.Block} (rest : List m.Block) (same : block.height = below.height) :
    contents (below.join block same :: rest) = contents (block :: below :: rest) := by
  simp [contents, Block.join]

theorem Unmerged.ones_count_le {blocks : List m.Block} (unmerged : Unmerged blocks) :
    ones (count blocks) ≤ blocks.length := by
  induction size : blocks.length generalizing blocks with
  | zero =>
    rw [List.length_eq_zero_iff] at size
    subst size
    simp [ones]
  | succ size' ih =>
    by_cases steady : Steady blocks
    next => exact (steady.ones_count.trans size).le
    next =>
      match blocks, unmerged, size, steady with
      | [block], _, _, steady => exact absurd (steady_single block) steady
      | block :: below :: rest, unmerged, size, steady =>
        have same : block.height = below.height := by
          by_contra differ
          exact steady (steady_cons_iff.mpr ⟨lt_of_le_of_ne unmerged.1 differ, unmerged.2⟩)
        have fewer := ih (unmerged.join same) (by simpa using size)
        rw [count_join] at fewer
        omega

theorem Unmerged.ones_count_lt_iff {block below : m.Block} {rest : List m.Block}
    (unmerged : Unmerged (block :: below :: rest)) :
    ones (count (block :: below :: rest)) < rest.length + 2 ↔ block.height = below.height := by
  constructor
  next =>
    intro fewer
    by_contra differ
    have steady := steady_cons_iff.mpr ⟨lt_of_le_of_ne unmerged.1 differ, unmerged.2⟩
    have whole := steady.ones_count
    simp only [List.length_cons] at whole
    omega
  next =>
    intro same
    have fewer := (unmerged.join same).ones_count_le
    rw [count_join, List.length_cons] at fewer
    omega

def rollUp (m : Merger β ω α) (last : ω) (stack : List α) : ω :=
  stack.foldl (fun output value => m.join value (m.condense output)) last

theorem rollUp_contents {blocks : List m.Block} (steady : Steady blocks) {last : List β} (present : last ≠ [])
    (short : ∀ block ∈ blocks.head?, last.length ≤ block.items.length) :
    m.rollUp (m.top last) (blocks.map Block.value) = m.top (contents blocks ++ last) := by
  induction blocks generalizing last with
  | nil => rfl
  | cons block below ih =>
    have split := m.top_append block.items last block.height block.full present (short block rfl)
    have step : m.rollUp (m.top last) ((block :: below).map Block.value) =
        m.rollUp (m.top (block.items ++ last)) (below.map Block.value) := by
      rw [split]
      rfl
    rw [step, ih steady.below, contents, List.append_assoc]
    next => simp [present]
    next =>
      intro next member
      obtain ⟨rest, rfl⟩ : ∃ rest, below = next :: rest := by
        cases below with
        | nil => cases member
        | cons head rest => exact ⟨rest, by rw [Option.mem_some_iff.mp member]⟩
      have higher := (steady_cons_iff.mp steady).1
      have room : m.unit * 2 ^ (block.height + 1) ≤ m.unit * 2 ^ next.height :=
        Nat.mul_le_mul_left _ (Nat.pow_le_pow_right Nat.two_pos higher)
      have fits := short block rfl
      rw [block.full] at fits
      rw [List.length_append, block.full, next.full]
      rw [Nat.pow_succ, ← Nat.mul_assoc] at room
      omega

def level (m : Merger β ω α) : Nat → List β → List α
  | 0, items => [m.value items]
  | depth + 1, items => m.level depth (items.take (items.length / 2)) ++ m.level depth (items.drop (items.length / 2))

@[simp] theorem length_level (depth : Nat) (items : List β) : (m.level depth items).length = 2 ^ depth := by
  induction depth generalizing items with
  | zero => rfl
  | succ depth ih =>
    rw [level, List.length_append, ih, ih]
    ring

def pairUp (m : Merger β ω α) : List α → List α
  | left :: right :: rest => m.condense (m.join left right) :: m.pairUp rest
  | rest => rest

theorem pairUp_append (pairs : Nat) {front : List α} (even : front.length = 2 * pairs) (rest : List α) :
    m.pairUp (front ++ rest) = m.pairUp front ++ m.pairUp rest := by
  induction pairs generalizing front with
  | zero =>
    rw [List.length_eq_zero_iff.mp even]
    rfl
  | succ pairs ih =>
    match front, even with
    | left :: right :: front, even =>
      have shorter : front.length = 2 * pairs := by
        simp only [List.length_cons] at even
        omega
      simp [pairUp, ih shorter]

theorem halves {items : List β} {height : Nat} (full : items.length = m.unit * 2 ^ (height + 1)) :
    (items.take (items.length / 2)).length = m.unit * 2 ^ height ∧
      (items.drop (items.length / 2)).length = m.unit * 2 ^ height := by
  have twice : items.length = 2 * (m.unit * 2 ^ height) := by
    rw [full]
    ring
  rw [List.length_take, List.length_drop]
  omega

theorem value_halves {items : List β} {height : Nat} (full : items.length = m.unit * 2 ^ (height + 1)) :
    m.value items =
      m.condense (m.join (m.value (items.take (items.length / 2))) (m.value (items.drop (items.length / 2)))) := by
  obtain ⟨left, right⟩ := halves full
  have positive := Nat.mul_pos m.unit_pos (Nat.two_pow_pos height)
  have split := m.top_append (items.take (items.length / 2)) (items.drop (items.length / 2)) height left
    (List.ne_nil_of_length_pos (right ▸ positive)) (right.trans left.symm).le
  rw [List.take_append_drop] at split
  exact congrArg m.condense split

theorem pairUp_level (depth : Nat) {items : List β} {height : Nat}
    (full : items.length = m.unit * 2 ^ (height + depth + 1)) :
    m.pairUp (m.level (depth + 1) items) = m.level depth items := by
  induction depth generalizing items with
  | zero =>
    rw [level, level, value_halves full]
    rfl
  | succ depth ih =>
    have twice : items.length = m.unit * 2 ^ (height + depth + 1 + 1) := full
    obtain ⟨left, right⟩ := halves twice
    rw [level, pairUp_append (2 ^ depth) (by rw [length_level, Nat.pow_succ, Nat.mul_comm]), ih left, ih right]
    rfl

end Merger

end LazyMerging
