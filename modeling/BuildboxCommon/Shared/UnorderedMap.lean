import Mathlib.Data.List.Perm.Basic
import Mathlib.Data.List.Induction
import Mathlib.Data.List.Nodup

set_option autoImplicit false

variable {κ ι β : Type} [DecidableEq ι]

structure UnorderedMap (view : κ → ι) (β : Type) where
  entries : List (κ × β)
  distinct : (entries.map fun entry => view entry.1).Nodup

structure IterationOrder (view : κ → ι) (β : Type) where
  visit : UnorderedMap view β → List (κ × β)
  perm : ∀ map, (visit map).Perm map.entries

def IterationOrder.asStored {view : κ → ι} : IterationOrder view β := ⟨UnorderedMap.entries, fun _ => .refl _⟩

namespace UnorderedMap

variable {view : κ → ι}

def empty : UnorderedMap view β := ⟨[], List.nodup_nil⟩

def find (map : UnorderedMap view β) (key : κ) : Option β :=
  (map.entries.find? fun entry => view entry.1 = view key).map Prod.snd

theorem find_eq_none (map : UnorderedMap view β) (key : κ) :
    map.find key = none ↔ ∀ entry ∈ map.entries, view entry.1 ≠ view key := by
  simp [find]

theorem find_eq_some (map : UnorderedMap view β) (key : κ) (value : β) :
    map.find key = some value ↔ ∃ stored, view stored = view key ∧ (stored, value) ∈ map.entries := by
  obtain ⟨entries, distinct⟩ := map
  simp only [find]
  induction entries with
  | nil => simp
  | cons entry rest ih =>
    obtain ⟨other, first⟩ := entry
    rw [List.map_cons, List.nodup_cons] at distinct
    by_cases same : view other = view key
    next =>
      have unique : ∀ stored, view stored = view key → (stored, value) ∉ rest := by
        intro stored alike member
        exact distinct.1 (List.mem_map.mpr ⟨_, member, alike.trans same.symm⟩)
      simp only [List.find?_cons, same, decide_true, Option.map_some, Option.some.injEq]
      constructor
      next =>
        rintro rfl
        exact ⟨other, same, by simp⟩
      next =>
        rintro ⟨stored, alike, member⟩
        rcases List.mem_cons.mp member with first | later
        next => exact (Prod.mk.inj first).2.symm
        next => exact absurd later (unique stored alike)
    next =>
      simp only [List.find?_cons, same, decide_false]
      rw [ih distinct.2]
      constructor
      next => exact fun ⟨stored, alike, member⟩ => ⟨stored, alike, List.mem_cons_of_mem _ member⟩
      next =>
        rintro ⟨stored, alike, member⟩
        rcases List.mem_cons.mp member with first | later
        next => exact absurd ((Prod.mk.inj first).1 ▸ alike) same
        next => exact ⟨stored, alike, later⟩

theorem find_congr (map : UnorderedMap view β) {key other : κ} (same : view key = view other) :
    map.find key = map.find other := by
  simp [find, same]

-- An entry that is there already stays as it is.
def emplace (map : UnorderedMap view β) (key : κ) (value : β) : UnorderedMap view β :=
  if absent : map.find key = none then
    { entries := map.entries ++ [(key, value)]
      distinct := by
        rw [find_eq_none] at absent
        rw [List.map_append, List.nodup_append]
        refine ⟨map.distinct, by simp, ?_⟩
        intro other member new fresh same
        obtain ⟨entry, stored, rfl⟩ := List.mem_map.mp member
        simp only [List.map_cons, List.map_nil, List.mem_singleton] at fresh
        exact absent entry stored (same.trans fresh) }
  else map

-- `map[key] = value`: an entry that is there already keeps its key.
def assign (map : UnorderedMap view β) (key : κ) (value : β) : UnorderedMap view β :=
  if absent : map.find key = none then map.emplace key value
  else
    { entries := map.entries.map fun entry =>
        if view entry.1 = view key then (entry.1, value) else entry
      distinct := by
        have kept : (map.entries.map fun entry =>
            if view entry.1 = view key then (entry.1, value) else entry).map (fun entry => view entry.1) =
            map.entries.map fun entry => view entry.1 := by
          rw [List.map_map]
          refine List.map_congr_left fun entry _ => ?_
          simp only [Function.comp_apply]
          split <;> rfl
        rw [kept]
        exact map.distinct }

@[simp] theorem find_empty (key : κ) : (empty : UnorderedMap view β).find key = none := rfl

theorem emplace_of_find {map : UnorderedMap view β} {key : κ} {stored : β} (value : β)
    (found : map.find key = some stored) : map.emplace key value = map := by
  simp [emplace, found]

theorem entries_emplace {map : UnorderedMap view β} {key : κ} (value : β) (absent : map.find key = none) :
    (map.emplace key value).entries = map.entries ++ [(key, value)] := by
  simp [emplace, absent]

theorem find_emplace (map : UnorderedMap view β) (key probe : κ) (value : β) :
    (map.emplace key value).find probe =
      if view probe = view key then some ((map.find key).getD value) else map.find probe := by
  cases found : map.find key with
  | some stored =>
    rw [emplace_of_find value found]
    split_ifs with same
    next => rw [find_congr map same, found, Option.getD_some]
    next => rfl
  | none =>
    rw [find, entries_emplace value found, List.find?_append]
    split_ifs with same
    next =>
      rw [find, Option.map_eq_none_iff] at found
      simp [same, found]
    next =>
      have other : ¬view key = view probe := fun h => same h.symm
      simp [find, other]

theorem find_assign (map : UnorderedMap view β) (key probe : κ) (value : β) :
    (map.assign key value).find probe = if view probe = view key then some value else map.find probe := by
  unfold assign
  split_ifs with absent same same
  next => rw [find_emplace, if_pos same, absent, Option.getD_none]
  next => rw [find_emplace, if_neg same]
  next =>
    obtain ⟨stored, found⟩ := Option.ne_none_iff_exists'.mp absent
    obtain ⟨held, alike, member⟩ := (find_eq_some _ _ _).mp found
    rw [find_eq_some]
    refine ⟨held, alike.trans same.symm, List.mem_map.mpr ⟨_, member, ?_⟩⟩
    simp [alike]
  next =>
    have unchanged (stored : β) :
        (∃ held, view held = view probe ∧ (held, stored) ∈ map.entries.map fun entry =>
          if view entry.1 = view key then (entry.1, value) else entry) ↔
        ∃ held, view held = view probe ∧ (held, stored) ∈ map.entries := by
      refine exists_congr fun held => and_congr_right fun alike => ?_
      have differs : ¬view held = view key := fun h => same (alike.symm.trans h)
      rw [List.mem_map]
      constructor
      next =>
        rintro ⟨⟨other, old⟩, member, shape⟩
        split_ifs at shape with hit
        next => exact absurd ((Prod.mk.inj shape).1 ▸ hit) differs
        next => exact shape ▸ member
      next => exact fun member => ⟨_, member, by simp [differs]⟩
    ext stored
    rw [find_eq_some, find_eq_some]
    exact unchanged stored

theorem exists_find_foldl_assign {α : Type} (key : α → κ) (value : α → β) (xs : List α) (map : UnorderedMap view β)
    (probe : κ) : (∃ stored, (xs.foldl (fun map x => map.assign (key x) (value x)) map).find probe = some stored) ↔
      (∃ x ∈ xs, view (key x) = view probe) ∨ ∃ stored, map.find probe = some stored := by
  induction xs generalizing map with
  | nil => simp
  | cons x xs ih =>
    rw [List.foldl_cons, ih, find_assign]
    by_cases same : view probe = view (key x)
    next => simp [same]
    next =>
      have differs : view (key x) ≠ view probe := fun h => same h.symm
      simp [same, differs]

theorem find_foldl_assign {α : Type} (key : α → κ) (value : α → β) (xs : List α) (map : UnorderedMap view β)
    (probe : κ) (stored : β) :
    (xs.foldl (fun map x => map.assign (key x) (value x)) map).find probe = some stored ↔
      (∃ before x after, xs = before ++ x :: after ∧ view (key x) = view probe ∧
        (∀ y ∈ after, view (key y) ≠ view probe) ∧ value x = stored) ∨
      (∀ x ∈ xs, view (key x) ≠ view probe) ∧ map.find probe = some stored := by
  induction xs using List.reverseRecOn with
  | nil => simp
  | append_singleton xs x ih =>
    rw [List.foldl_append, List.foldl_cons, List.foldl_nil, find_assign]
    by_cases same : view probe = view (key x)
    next =>
      rw [if_pos same, Option.some.injEq]
      constructor
      next => exact fun equal => .inl ⟨xs, x, [], rfl, same.symm, by simp, equal⟩
      next =>
        rintro (⟨before, y, after, split, alike, last, equal⟩ | ⟨none, -⟩)
        next =>
          cases after using List.reverseRecOn with
          | nil =>
            obtain ⟨-, rfl⟩ := List.append_inj' split rfl |>.imp id fun tails => List.singleton_inj.mp tails
            exact equal
          | append_singleton after z =>
            rw [← List.cons_append, ← List.append_assoc] at split
            obtain ⟨-, tails⟩ := List.append_inj' split rfl
            exact absurd (List.singleton_inj.mp tails ▸ same.symm) (last z (by simp))
        next => exact absurd same.symm (none x (by simp))
    next =>
      have differs : view (key x) ≠ view probe := fun h => same h.symm
      rw [if_neg same, ih]
      constructor
      next =>
        rintro (⟨before, y, after, rfl, alike, last, equal⟩ | ⟨none, found⟩)
        next =>
          refine .inl ⟨before, y, after ++ [x], by simp, alike, fun z member => ?_, equal⟩
          rcases List.mem_append.mp member with old | new
          next => exact last z old
          next => exact List.mem_singleton.mp new ▸ differs
        next =>
          refine .inr ⟨fun z member => ?_, found⟩
          rcases List.mem_append.mp member with old | new
          next => exact none z old
          next => exact List.mem_singleton.mp new ▸ differs
      next =>
        rintro (⟨before, y, after, split, alike, last, equal⟩ | ⟨none, found⟩)
        next =>
          cases after using List.reverseRecOn with
          | nil =>
            obtain ⟨-, tails⟩ := List.append_inj' split rfl
            exact absurd (List.singleton_inj.mp tails ▸ alike) differs
          | append_singleton after z =>
            rw [← List.cons_append, ← List.append_assoc] at split
            obtain ⟨rfl, -⟩ := List.append_inj' split rfl
            exact .inl ⟨before, y, after, rfl, alike, fun w member => last w (by simp [member]), equal⟩
        next => exact .inr ⟨fun z member => none z (by simp [member]), found⟩

theorem find_foldl_emplace {α : Type} (key : α → κ) (value : α → β) (xs : List α) (map : UnorderedMap view β)
    (probe : κ) : (xs.foldl (fun map x => map.emplace (key x) (value x)) map).find probe =
      (map.find probe).or ((xs.find? fun x => view (key x) = view probe).map value) := by
  induction xs generalizing map with
  | nil => simp
  | cons x xs ih =>
    rw [List.foldl_cons, ih, find_emplace]
    by_cases same : view (key x) = view probe
    next =>
      rw [if_pos same.symm, find_congr map same]
      cases map.find probe <;> simp [same]
    next =>
      have differs : view probe ≠ view (key x) := fun h => same h.symm
      simp [same, differs]

theorem mem_assign {map : UnorderedMap view β} {key : κ} {value : β} {entry : κ × β}
    (member : entry ∈ (map.assign key value).entries) :
    entry ∈ map.entries ∨ view entry.1 = view key ∧ entry.2 = value ∧
      (entry.1 = key ∨ ∃ old, (entry.1, old) ∈ map.entries) := by
  unfold assign at member
  split_ifs at member with absent
  next =>
    rw [entries_emplace value absent] at member
    rcases List.mem_append.mp member with old | new
    next => exact .inl old
    next =>
      obtain rfl := List.mem_singleton.mp new
      exact .inr ⟨rfl, rfl, .inl rfl⟩
  next =>
    obtain ⟨stored, old, shape⟩ := List.mem_map.mp member
    split_ifs at shape with same
    next =>
      subst shape
      exact .inr ⟨same, rfl, .inr ⟨stored.2, old⟩⟩
    next => exact .inl (shape ▸ old)

end UnorderedMap
