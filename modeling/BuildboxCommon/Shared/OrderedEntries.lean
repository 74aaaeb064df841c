import Mathlib.Data.List.Sort

set_option autoImplicit false

namespace OrderedEntries

variable {κ β : Type} [LinearOrder κ]

def Sorted (entries : List (κ × β)) : Prop := entries.Pairwise fun a b => a.1 < b.1

def get (key : κ) : List (κ × β) → Option β
  | [] => none
  | (other, value) :: rest => if key = other then some value else get key rest

def alter (key : κ) (change : Option β → β) : List (κ × β) → List (κ × β)
  | [] => [(key, change none)]
  | (other, value) :: rest =>
    if key < other then (key, change none) :: (other, value) :: rest
    else if key = other then (other, change (some value)) :: rest
    else (other, value) :: alter key change rest

theorem sorted_nil : Sorted ([] : List (κ × β)) := List.Pairwise.nil

theorem sorted_cons {key : κ} {value : β} {rest : List (κ × β)} :
    Sorted ((key, value) :: rest) ↔ (∀ entry ∈ rest, key < entry.1) ∧ Sorted rest :=
  List.pairwise_cons

@[simp] theorem get_nil (key : κ) : get key ([] : List (κ × β)) = none := rfl

theorem get_cons (key other : κ) (value : β) (rest : List (κ × β)) :
    get key ((other, value) :: rest) = if key = other then some value else get key rest := rfl

theorem get_of_lt {key : κ} {entries : List (κ × β)} (below : ∀ entry ∈ entries, key < entry.1) :
    get key entries = none := by
  induction entries with
  | nil => rfl
  | cons entry rest ih =>
    obtain ⟨other, value⟩ := entry
    have less : key < other := below (other, value) (by simp)
    rw [get_cons, if_neg less.ne, ih fun entry member => below entry (by simp [member])]

theorem mem_of_get {key : κ} {value : β} {entries : List (κ × β)} (found : get key entries = some value) :
    (key, value) ∈ entries := by
  induction entries with
  | nil => simp at found
  | cons entry rest ih =>
    obtain ⟨other, stored⟩ := entry
    rw [get_cons] at found
    split_ifs at found with same
    next => simp_all
    next => exact List.mem_cons_of_mem _ (ih found)

theorem mem_iff_get {entries : List (κ × β)} (sorted : Sorted entries) (key : κ) (value : β) :
    (key, value) ∈ entries ↔ get key entries = some value := by
  refine ⟨?_, mem_of_get⟩
  induction entries with
  | nil => simp
  | cons entry rest ih =>
    obtain ⟨other, stored⟩ := entry
    rw [sorted_cons] at sorted
    intro member
    rw [get_cons]
    rcases List.mem_cons.mp member with first | later
    next => simp_all
    next =>
      have less : other < key := sorted.1 _ later
      rw [if_neg less.ne', ih sorted.2 later]

theorem below_first {key other : κ} (value : β) {rest : List (κ × β)} (before : key < other)
    (below : ∀ entry ∈ rest, other < entry.1) : ∀ entry ∈ (other, value) :: rest, key < entry.1 := by
  intro entry member
  rcases List.mem_cons.mp member with rfl | member
  next => exact before
  next => exact before.trans (below entry member)

theorem alter_below {key : κ} (change : Option β → β) {entries : List (κ × β)}
    (below : ∀ entry ∈ entries, key < entry.1) :
    alter key change entries = (key, change none) :: entries := by
  cases entries with
  | nil => rfl
  | cons first rest =>
    have less : key < first.1 := below first (by simp)
    exact if_pos less

theorem alter_cons_self (key : κ) (change : Option β → β) (value : β) (rest : List (κ × β)) :
    alter key change ((key, value) :: rest) = (key, change (some value)) :: rest := by
  simp [alter]

theorem alter_cons_above {key other : κ} (change : Option β → β) (value : β) (rest : List (κ × β))
    (above : other < key) :
    alter key change ((other, value) :: rest) = (other, value) :: alter key change rest := by
  simp [alter, above.not_gt, above.ne']

theorem mem_alter_key {key : κ} {change : Option β → β} {entries : List (κ × β)} {entry : κ × β}
    (member : entry ∈ alter key change entries) :
    entry.1 = key ∨ ∃ value, (entry.1, value) ∈ entries := by
  induction entries with
  | nil => simp_all [alter]
  | cons first rest ih =>
    obtain ⟨other, value⟩ := first
    unfold alter at member
    split_ifs at member with before same
    next => rcases List.mem_cons.mp member with rfl | old; exacts [.inl rfl, .inr ⟨entry.2, old⟩]
    next =>
      rcases List.mem_cons.mp member with rfl | old
      next => exact .inl same.symm
      next => exact .inr ⟨entry.2, List.mem_cons_of_mem _ old⟩
    next =>
      rcases List.mem_cons.mp member with rfl | old
      next => exact .inr ⟨value, by simp⟩
      next =>
        rcases ih old with new | ⟨stored, earlier⟩
        next => exact .inl new
        next => exact .inr ⟨stored, List.mem_cons_of_mem _ earlier⟩

theorem sorted_alter {key : κ} (change : Option β → β) {entries : List (κ × β)}
    (sorted : Sorted entries) : Sorted (alter key change entries) := by
  induction entries with
  | nil => simp [alter, Sorted]
  | cons first rest ih =>
    obtain ⟨other, value⟩ := first
    obtain ⟨below, later⟩ := sorted_cons.mp sorted
    rcases lt_trichotomy key other with before | rfl | after
    next =>
      have all := below_first value before below
      rw [alter_below change all]
      exact sorted_cons.mpr ⟨all, sorted⟩
    next =>
      rw [alter_cons_self]
      exact sorted_cons.mpr ⟨below, later⟩
    next =>
      rw [alter_cons_above change value rest after]
      refine sorted_cons.mpr ⟨fun entry member => ?_, ih later⟩
      rcases mem_alter_key member with same | ⟨stored, old⟩
      next => exact same ▸ after
      next => exact below (entry.1, stored) old

theorem get_alter (key : κ) (change : Option β → β) {entries : List (κ × β)} (sorted : Sorted entries)
    (probe : κ) : get probe (alter key change entries) =
      if probe = key then some (change (get key entries)) else get probe entries := by
  induction entries with
  | nil => simp [alter, get_cons]
  | cons first rest ih =>
    obtain ⟨other, value⟩ := first
    obtain ⟨below, later⟩ := sorted_cons.mp sorted
    rcases lt_trichotomy key other with before | rfl | after
    next =>
      have all := below_first value before below
      rw [alter_below change all, get_of_lt all, get_cons]
    next =>
      rw [alter_cons_self, get_cons, get_cons, get_cons, if_pos rfl]
      split_ifs <;> rfl
    next =>
      rw [alter_cons_above change value rest after, get_cons, ih later, get_cons, get_cons,
        if_neg after.ne']
      by_cases first : probe = other
      next => simp [first, after.ne]
      next => simp [first]

theorem forall_alter {key : κ} {change : Option β → β} {entries : List (κ × β)} {good : β → Prop}
    (all : ∀ entry ∈ entries, good entry.2)
    (changed : ∀ old, (∀ value, old = some value → good value) → good (change old)) :
    ∀ entry ∈ alter key change entries, good entry.2 := by
  induction entries with
  | nil =>
    intro entry member
    rw [List.mem_singleton.mp member]
    exact changed none (by simp)
  | cons first rest ih =>
    obtain ⟨other, value⟩ := first
    have others := ih fun entry member => all entry (by simp [member])
    intro entry member
    unfold alter at member
    split_ifs at member
    next =>
      rcases List.mem_cons.mp member with rfl | old
      next => exact changed none (by simp)
      next => exact all entry old
    next =>
      rcases List.mem_cons.mp member with rfl | old
      next =>
        refine changed (some value) fun stored same => ?_
        exact Option.some.inj same ▸ all (other, value) (by simp)
      next => exact all entry (by simp [old])
    next =>
      rcases List.mem_cons.mp member with rfl | old
      next => exact all (other, value) (by simp)
      next => exact others entry old

theorem sorted_ext {first second : List (κ × β)} (left : Sorted first) (right : Sorted second)
    (same : ∀ key, get key first = get key second) : first = second := by
  apply List.Pairwise.eq_of_mem_iff (r := fun a b : κ × β => a.1 < b.1) left right
  intro entry
  rw [mem_iff_get left entry.1 entry.2, mem_iff_get right entry.1 entry.2, same]

theorem sorted_map {γ : Type} {entries : List (κ × β)} (sorted : Sorted entries) (f : κ × β → γ)
    (name : γ → κ) (named : ∀ entry, name (f entry) = entry.1) :
    (entries.map f).Pairwise fun a b => name a < name b := by
  rw [List.pairwise_map]
  exact sorted.imp fun less => by rwa [named, named]

theorem map_eq_of_get {γ : Type} {entries : List (κ × β)} (sorted : Sorted entries) (f : κ × β → γ) (name : γ → κ)
    (named : ∀ entry, name (f entry) = entry.1) {items : List γ} (ordered : items.Pairwise fun a b => name a < name b)
    (sound : ∀ key value, get key entries = some value → f (key, value) ∈ items)
    (complete : ∀ item ∈ items, ∃ value, get (name item) entries = some value ∧ f (name item, value) = item) :
    entries.map f = items := by
  apply List.Pairwise.eq_of_mem_iff (r := fun a b : γ => name a < name b) (sorted_map sorted f name named) ordered
  intro item
  rw [List.mem_map]
  constructor
  next =>
    rintro ⟨⟨key, value⟩, member, rfl⟩
    exact sound key value ((mem_iff_get sorted key value).mp member)
  next =>
    intro member
    obtain ⟨value, held, same⟩ := complete item member
    exact ⟨(name item, value), mem_of_get held, same⟩

end OrderedEntries
