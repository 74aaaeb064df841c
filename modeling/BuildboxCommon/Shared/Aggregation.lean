import Mathlib.Data.List.Basic

set_option autoImplicit false

namespace Aggregation

variable {ν σ : Type}

def total (aggregate : ν → ν → ν) : List ν → Option ν
  | [] => none
  | value :: values => some (values.foldl aggregate value)

def applied (apply : σ → ν → σ) (s : σ) (kept : Option ν) : σ := kept.elim s (apply s)

def Faithful (aggregate : ν → ν → ν) (apply : σ → ν → σ) : Prop :=
  ∀ s first second, apply s (aggregate first second) = apply (apply s first) second

variable {aggregate : ν → ν → ν} {apply : σ → ν → σ}

theorem total_append_singleton (values : List ν) (value : ν) :
    total aggregate (values ++ [value]) = some ((total aggregate values).elim value (aggregate · value)) := by
  cases values with
  | nil => rfl
  | cons first values => simp [total, List.foldl_append]

theorem applied_total (faithful : Faithful aggregate apply) (s : σ) (values : List ν) :
    applied apply s (total aggregate values) = values.foldl apply s := by
  cases values with
  | nil => rfl
  | cons first values =>
    change apply s (values.foldl aggregate first) = values.foldl apply (apply s first)
    induction values generalizing first with
    | nil => rfl
    | cons second values ih => rw [List.foldl_cons, List.foldl_cons, ih, faithful]

theorem foldl_applied_total (faithful : Faithful aggregate apply) (s : σ) (groups : List (List ν)) :
    (groups.map (total aggregate)).foldl (applied apply) s = groups.flatten.foldl apply s := by
  induction groups generalizing s with
  | nil => rfl
  | cons group groups ih =>
    rw [List.map_cons, List.foldl_cons, applied_total faithful, ih, List.flatten_cons, List.foldl_append]

end Aggregation
