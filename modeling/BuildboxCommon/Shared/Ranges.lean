import Mathlib.Data.List.TakeDrop

set_option autoImplicit false

namespace Ranges

variable {α : Type}

def slice (xs : List α) (range : Nat × Nat) : List α := (xs.drop range.1).take (range.2 - range.1)

inductive Contiguous : Nat → List (Nat × Nat) → Nat → Prop where
  | nil (start : Nat) : Contiguous start [] start
  | cons {start middle stop : Nat} {ranges : List (Nat × Nat)} (grows : start ≤ middle)
    (rest : Contiguous middle ranges stop) : Contiguous start ((start, middle) :: ranges) stop

theorem slice_append_drop (xs : List α) {start stop : Nat} (grows : start ≤ stop) :
    slice xs (start, stop) ++ xs.drop stop = xs.drop start := by
  have rest : xs.drop stop = (xs.drop start).drop (stop - start) := by
    rw [List.drop_drop]
    congr 1
    omega
  rw [slice, rest, List.take_append_drop]

theorem Contiguous.flatMap_slice {start stop : Nat} {ranges : List (Nat × Nat)}
    (contiguous : Contiguous start ranges stop) (xs : List α) :
    ranges.flatMap (slice xs) ++ xs.drop stop = xs.drop start := by
  induction contiguous with
  | nil start => rfl
  | cons grows rest ih => rw [List.flatMap_cons, List.append_assoc, ih, slice_append_drop xs grows]

theorem Contiguous.stop_eq {start stop : Nat} {ranges : List (Nat × Nat)}
    (contiguous : Contiguous start ranges stop) : stop = (ranges.getLast?.map Prod.snd).getD start := by
  induction contiguous with
  | nil start => rfl
  | @cons start middle stop ranges grows rest ih =>
    rw [ih, List.getLast?_cons]
    cases ranges.getLast? <;> rfl

end Ranges
