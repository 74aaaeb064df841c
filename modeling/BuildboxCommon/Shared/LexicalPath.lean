import Mathlib.Data.List.DropRight
import Mathlib.Data.List.Induction

set_option autoImplicit false

namespace LexicalPath

variable {α : Type}

inductive Step (α : Type) where
  | stay
  | up
  | down (name : α)
deriving DecidableEq

def Step.apply (directory : List α) : Step α → List α
  | .stay => directory
  | .up => directory.dropLast
  | .down name => directory ++ [name]

def walk (directory : List α) (steps : List (Step α)) : List α :=
  steps.foldl Step.apply directory

@[simp] theorem walk_nil (directory : List α) : walk directory [] = directory := rfl

@[simp] theorem walk_cons (directory : List α) (step : Step α) (steps : List (Step α)) :
    walk directory (step :: steps) = walk (step.apply directory) steps := rfl

theorem walk_append (directory : List α) (first second : List (Step α)) :
    walk directory (first ++ second) = walk (walk directory first) second := by
  simp [walk]

theorem walk_down (directory names : List α) :
    walk directory (names.map .down) = directory ++ names := by
  induction names generalizing directory with
  | nil => simp
  | cons name names ih => simp [ih, Step.apply]

theorem walk_length (directory : List α) (steps : List (Step α)) :
    (walk directory steps).length ≤ directory.length + steps.length := by
  induction steps generalizing directory with
  | nil => simp
  | cons step steps ih =>
    have rest := ih (step.apply directory)
    have one : (step.apply directory).length ≤ directory.length + 1 := by
      cases step with
      | stay => exact Nat.le_succ _
      | up =>
        rw [Step.apply, List.length_dropLast]
        omega
      | down name => simp [Step.apply]
    rw [walk_cons, List.length_cons]
    omega

theorem dropLast_rdrop (directory : List α) (ups : Nat) :
    (directory.rdrop ups).dropLast = directory.rdrop (ups + 1) := by
  rw [List.rdrop, List.rdrop, List.dropLast_eq_take, List.take_take, List.length_take]
  congr 1
  omega

theorem walk_up (directory : List α) (ups : Nat) :
    walk directory (List.replicate ups .up) = directory.rdrop ups := by
  induction ups with
  | zero => simp
  | succ ups ih =>
    rw [List.replicate_succ', walk_append, ih, ← dropLast_rdrop]
    rfl

theorem mem_walk {name : α} {directory : List α} {steps : List (Step α)}
    (member : name ∈ walk directory steps) : name ∈ directory ∨ .down name ∈ steps := by
  induction steps generalizing directory with
  | nil => exact .inl member
  | cons step steps ih =>
    rcases ih member with old | later
    next =>
      cases step with
      | stay => exact .inl old
      | up => exact .inl (List.dropLast_subset _ old)
      | down entered =>
        rcases List.mem_append.mp old with old | new
        next => exact .inl old
        next => simp_all
    next => exact .inr (List.mem_cons_of_mem _ later)

structure Displacement (α : Type) where
  ups : Nat
  names : List α
deriving DecidableEq

namespace Displacement

def act (d : Displacement α) (directory : List α) : List α := directory.rdrop d.ups ++ d.names

def extend (d : Displacement α) : Step α → Displacement α
  | .stay => d
  | .up => match d.names with
    | [] => { d with ups := d.ups + 1 }
    | _ :: _ => { d with names := d.names.dropLast }
  | .down name => { d with names := d.names ++ [name] }

def steps (d : Displacement α) : List (Step α) :=
  List.replicate d.ups .up ++ d.names.map .down

theorem act_extend (d : Displacement α) (step : Step α) (directory : List α) :
    (d.extend step).act directory = step.apply (d.act directory) := by
  rcases d with ⟨ups, names⟩
  cases step with
  | stay => rfl
  | down name => simp [extend, act, Step.apply]
  | up =>
    cases names with
    | nil => simp [extend, act, Step.apply, dropLast_rdrop]
    | cons name names => simp [extend, act, Step.apply, List.dropLast_append_of_ne_nil]

theorem walk_steps (d : Displacement α) (directory : List α) :
    walk directory d.steps = d.act directory := by
  rw [steps, walk_append, walk_up, walk_down, act]

end Displacement

def displacement (steps : List (Step α)) : Displacement α :=
  steps.foldl Displacement.extend ⟨0, []⟩

theorem displacement_snoc (steps : List (Step α)) (step : Step α) :
    displacement (steps ++ [step]) = (displacement steps).extend step := by
  simp [displacement]

theorem displacement_append (first second : List (Step α)) :
    displacement (first ++ second) = second.foldl Displacement.extend (displacement first) := by
  simp [displacement]

theorem walk_eq_act (directory : List α) (steps : List (Step α)) :
    walk directory steps = (displacement steps).act directory := by
  induction steps using List.reverseRecOn with
  | nil => simp [displacement, Displacement.act]
  | append_singleton steps step ih =>
    rw [walk_append, ih, displacement_snoc, Displacement.act_extend]
    rfl

theorem displacement_steps (d : Displacement α) : displacement d.steps = d := by
  rcases d with ⟨ups, names⟩
  have climbed : displacement (List.replicate ups (.up : Step α)) = ⟨ups, []⟩ := by
    induction ups with
    | zero => rfl
    | succ ups ih => rw [List.replicate_succ', displacement_snoc, ih]; rfl
  induction names using List.reverseRecOn with
  | nil => simpa [Displacement.steps] using climbed
  | append_singleton names name ih =>
    have split : Displacement.steps ⟨ups, names ++ [name]⟩ =
        Displacement.steps ⟨ups, names⟩ ++ [.down name] := by
      simp [Displacement.steps]
    rw [split, displacement_snoc, ih]
    rfl

namespace Displacement

def comp (d e : Displacement α) : Displacement α := ⟨d.ups + (e.ups - d.names.length), d.names.rdrop e.ups ++ e.names⟩

theorem extend_comp (d e : Displacement α) (step : Step α) : (d.comp e).extend step = d.comp (e.extend step) := by
  rcases d with ⟨ups, names⟩
  rcases e with ⟨more, others⟩
  cases step with
  | stay => rfl
  | down name => simp [comp, extend]
  | up =>
    cases others with
    | nil =>
      have kept : (names.rdrop more).length = names.length - more := by simp [List.rdrop]
      simp only [comp, extend, List.append_nil]
      split
      next empty =>
        rw [empty, List.length_nil] at kept
        simp [List.rdrop]
        omega
      next name rest shape =>
        rw [shape, List.length_cons] at kept
        rw [dropLast_rdrop, mk.injEq]
        exact ⟨by omega, rfl⟩
    | cons name others =>
      have last : names.rdrop more ++ name :: others ≠ [] := by simp
      obtain ⟨first, rest, shape⟩ := List.exists_cons_of_ne_nil last
      simp only [comp, extend, shape]
      rw [← shape, List.dropLast_append_of_ne_nil (List.cons_ne_nil name others)]

theorem foldl_extend (d : Displacement α) (steps : List (Step α)) :
    steps.foldl extend d = d.comp (displacement steps) := by
  induction steps using List.reverseRecOn with
  | nil => simp [displacement, comp]
  | append_singleton steps step ih =>
    rw [displacement_snoc, ← extend_comp, ← ih, List.foldl_append]
    rfl

end Displacement

theorem mem_displacement {name : α} {steps : List (Step α)}
    (member : name ∈ (displacement steps).names) : .down name ∈ steps := by
  have entered : name ∈ walk [] steps := by
    rw [walk_eq_act]
    exact List.mem_append_right _ member
  simpa using mem_walk entered

def height (steps : List (Step α)) : Int :=
  steps.foldl (fun level step => match step with
    | .stay => level
    | .up => level - 1
    | .down _ => level + 1) 0

def Leaves (steps : List (Step α)) : Prop := ∃ start, start <+: steps ∧ height start < 0

theorem height_eq (steps : List (Step α)) :
    height steps = (displacement steps).names.length - (displacement steps).ups := by
  induction steps using List.reverseRecOn with
  | nil => rfl
  | append_singleton steps step ih =>
    rw [displacement_snoc]
    rcases named : displacement steps with ⟨ups, names⟩
    rw [named] at ih
    simp only [height] at ih
    simp only [height, List.foldl_append, List.foldl_cons, List.foldl_nil, ih]
    cases step with
    | stay => rfl
    | down name => simp [Displacement.extend]; omega
    | up =>
      cases names with
      | nil => simp [Displacement.extend]; omega
      | cons name names => simp [Displacement.extend]; omega

theorem ups_le_extend (d : Displacement α) (step : Step α) : d.ups ≤ (d.extend step).ups := by
  rcases d with ⟨ups, names⟩
  cases step with
  | stay | down => exact le_rfl
  | up => cases names <;> simp [Displacement.extend]

theorem ups_mono {start steps : List (Step α)} (within : start <+: steps) :
    (displacement start).ups ≤ (displacement steps).ups := by
  obtain ⟨rest, rfl⟩ := within
  induction rest using List.reverseRecOn with
  | nil => simp
  | append_singleton rest step ih =>
    rw [← List.append_assoc, displacement_snoc]
    exact ih.trans (ups_le_extend _ _)

theorem leaves_iff (steps : List (Step α)) : Leaves steps ↔ 0 < (displacement steps).ups := by
  constructor
  next =>
    rintro ⟨start, within, below⟩
    have level := height_eq start
    have grows := ups_mono within
    omega
  next =>
    induction steps using List.reverseRecOn with
    | nil => simp [displacement]
    | append_singleton steps step ih =>
      intro climbs
      by_cases already : 0 < (displacement steps).ups
      next =>
        obtain ⟨start, within, below⟩ := ih already
        exact ⟨start, within.trans (List.prefix_append _ _), below⟩
      next =>
        refine ⟨_, List.prefix_rfl, ?_⟩
        rw [height_eq, displacement_snoc]
        rw [displacement_snoc] at climbs
        rcases named : displacement steps with ⟨ups, names⟩
        rw [named] at already climbs
        cases step with
        | stay | down => exact absurd climbs already
        | up =>
          cases names with
          | nil =>
            simp only [Displacement.extend, List.length_nil]
            omega
          | cons => exact absurd climbs already

section Return

theorem length_extend_le (d : Displacement α) (step : Step α) : (d.extend step).names.length ≤ d.names.length + 1 := by
  cases step with
  | stay => exact Nat.le_succ _
  | down name => simp [Displacement.extend]
  | up =>
    cases shape : d.names with
    | nil => simp [Displacement.extend, shape]
    | cons name names =>
      simp [Displacement.extend, shape]
      omega

theorem length_displacement_le (steps : List (Step α)) : (displacement steps).names.length ≤ steps.length := by
  induction steps using List.reverseRecOn with
  | nil => exact le_rfl
  | append_singleton steps step ih =>
    have last := length_extend_le (displacement steps) step
    rw [displacement_snoc, List.length_append, List.length_singleton]
    omega

theorem all_down_iff (steps : List (Step α)) : (∀ step ∈ steps, ∃ name, step = .down name) ↔
    (displacement steps).ups = 0 ∧ (displacement steps).names.length = steps.length := by
  induction steps using List.reverseRecOn with
  | nil => simp [displacement]
  | append_singleton steps step ih =>
    have bound := length_displacement_le steps
    rw [displacement_snoc, List.forall_mem_append, ih, List.length_append, List.length_singleton]
    cases step with
    | stay =>
      simp [Displacement.extend]
      omega
    | down name => simp [Displacement.extend]
    | up =>
      cases shape : (displacement steps).names with
      | nil => simp [Displacement.extend, shape]
      | cons name names =>
        rw [shape, List.length_cons] at bound
        simp [Displacement.extend, shape]
        omega

-- Going up once more matters unless the rest of the walk leads to the root or above it.
theorem walk_rdrop_iff (directory : List α) (ups : Nat) (rest : List (Step α)) :
    walk (directory.rdrop ups) rest = walk directory rest ↔ ups = 0 ∨ directory.length ≤ (displacement rest).ups := by
  rw [walk_eq_act, walk_eq_act, Displacement.act, Displacement.act, List.append_left_inj]
  simp only [List.rdrop, List.take_take, List.length_take, List.take_eq_take_iff]
  omega

theorem walk_return (directory : List α) (steps rest : List (Step α)) :
    walk directory (steps ++ List.replicate steps.length .up ++ rest) =
      walk (directory.rdrop ((displacement steps).ups + (steps.length - (displacement steps).names.length))) rest := by
  have bound := length_displacement_le steps
  rw [walk_append, walk_append, walk_up, walk_eq_act directory, Displacement.act]
  congr 1
  simp only [List.rdrop, List.length_append, List.length_take]
  rw [List.take_append_of_le_length (by rw [List.length_take]; omega), List.take_take]
  congr 1
  omega

theorem walk_return_iff (directory : List α) (steps rest : List (Step α)) :
    walk directory (steps ++ List.replicate steps.length .up ++ rest) = walk directory rest ↔
      (∀ step ∈ steps, ∃ name, step = .down name) ∨ directory.length ≤ (displacement rest).ups := by
  have bound := length_displacement_le steps
  rw [walk_return, walk_rdrop_iff, all_down_iff]
  omega

end Return

end LexicalPath
