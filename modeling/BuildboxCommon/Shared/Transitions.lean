import Mathlib.Data.List.Basic

set_option autoImplicit false

namespace Transitions

variable {σ κ : Type} (step : κ → σ → Option σ)

def run : σ → List κ → Option σ
  | s, [] => some s
  | s, choice :: choices => (step choice s).bind fun s' => run s' choices

def Along (allowed : κ → σ → Prop) : σ → List κ → Prop
  | _, [] => True
  | s, choice :: choices => allowed choice s ∧ ∀ s', step choice s = some s' → Along allowed s' choices

instance decidableAlong (allowed : κ → σ → Prop) [∀ choice s, Decidable (allowed choice s)] :
    (s : σ) → (choices : List κ) → Decidable (Along step allowed s choices)
  | _, [] => .isTrue trivial
  | s, choice :: choices =>
    match taken : step choice s with
    | none => decidable_of_iff (allowed choice s) (by simp [Along, taken])
    | some s' =>
      have := decidableAlong allowed s' choices
      decidable_of_iff (allowed choice s ∧ Along step allowed s' choices) (by simp [Along, taken])

variable {step}

theorem run_along {allowed : κ → σ → Prop} {inv : σ → Prop}
    (each : ∀ choice s s', allowed choice s → step choice s = some s' → inv s → inv s') {choices : List κ} {s s' : σ}
    (along : Along step allowed s choices) (reached : run step s choices = some s') (start : inv s) : inv s' := by
  induction choices generalizing s with
  | nil => exact Option.some.inj reached ▸ start
  | cons choice choices ih =>
    obtain ⟨between, taken, rest⟩ := Option.bind_eq_some_iff.mp reached
    exact ih (along.2 between taken) rest (each choice s between along.1 taken start)

theorem run_invariant {inv : σ → Prop} (each : ∀ choice s s', step choice s = some s' → inv s → inv s')
    {choices : List κ} {s s' : σ} (reached : run step s choices = some s') (start : inv s) : inv s' := by
  induction choices generalizing s with
  | nil => exact Option.some.inj reached ▸ start
  | cons choice choices ih =>
    obtain ⟨between, taken, rest⟩ := Option.bind_eq_some_iff.mp reached
    exact ih rest (each choice s between taken start)

theorem Along.and {allowed permitted : κ → σ → Prop} {choices : List κ} {s : σ} (first : Along step allowed s choices)
    (second : Along step permitted s choices) :
    Along step (fun choice s => allowed choice s ∧ permitted choice s) s choices := by
  induction choices generalizing s with
  | nil => trivial
  | cons choice choices ih =>
    exact ⟨⟨first.1, second.1⟩, fun between taken => ih (first.2 between taken) (second.2 between taken)⟩

theorem along_of_final {allowed : κ → σ → Prop} {inv doomed : σ → Prop}
    (each : ∀ choice s s', allowed choice s → step choice s = some s' → inv s → inv s')
    (dooms : ∀ choice s s', ¬allowed choice s → step choice s = some s' → inv s → doomed s')
    (stays : ∀ choice s s', step choice s = some s' → doomed s → doomed s') {choices : List κ} {s s' : σ}
    (reached : run step s choices = some s') (start : inv s) (final : ¬doomed s') : Along step allowed s choices := by
  induction choices generalizing s with
  | nil => trivial
  | cons choice choices ih =>
    obtain ⟨between, taken, rest⟩ := Option.bind_eq_some_iff.mp reached
    have kept : allowed choice s := by
      by_contra forbidden
      exact final (run_invariant stays rest (dooms choice s between forbidden taken start))
    refine ⟨kept, fun between' taken' => ?_⟩
    rw [taken, Option.some.injEq] at taken'
    subst taken'
    exact ih rest (each choice s between kept taken start)

theorem along_iff {allowed permitted : κ → σ → Prop} {inv good : σ → Prop}
    (each : ∀ choice s s', permitted choice s → step choice s = some s' → inv s →
      inv s' ∧ (good s ∧ allowed choice s ↔ good s')) {choices : List κ} {s s' : σ}
    (permits : Along step permitted s choices) (reached : run step s choices = some s') (start : inv s) :
    good s ∧ Along step allowed s choices ↔ good s' := by
  induction choices generalizing s with
  | nil =>
    obtain rfl := Option.some.inj reached
    simp [Along]
  | cons choice choices ih =>
    obtain ⟨between, taken, rest⟩ := Option.bind_eq_some_iff.mp reached
    obtain ⟨kept, same⟩ := each choice s between permits.1 taken start
    rw [← ih (permits.2 between taken) rest kept, ← same]
    simp [Along, taken, and_assoc]

theorem run_append (first second : List κ) (s : σ) :
    run step s (first ++ second) = (run step s first).bind fun between => run step between second := by
  induction first generalizing s with
  | nil => rfl
  | cons choice first ih =>
    simp only [List.cons_append, run]
    cases step choice s with
    | none => rfl
    | some between => exact ih between

theorem Along.append {allowed : κ → σ → Prop} {first second : List κ} {s between : σ}
    (along : Along step allowed s (first ++ second)) (reached : run step s first = some between) :
    Along step allowed s first ∧ Along step allowed between second := by
  induction first generalizing s with
  | nil => exact ⟨trivial, Option.some.inj reached ▸ along⟩
  | cons choice first ih =>
    obtain ⟨next, taken, rest⟩ := Option.bind_eq_some_iff.mp reached
    obtain ⟨-, onwards⟩ := ih (along.2 next taken) rest
    exact ⟨⟨along.1, fun next' taken' =>
      (ih (along.2 next' taken') (Option.some.inj (taken.symm.trans taken') ▸ rest)).1⟩,
      onwards⟩

theorem run_crossing {holds : σ → Prop} {choices : List κ} {s s' : σ} (reached : run step s choices = some s')
    (start : ¬holds s) (final : holds s') : ∃ earlier choice later before after, choices = earlier ++ choice :: later ∧
      run step s earlier = some before ∧ step choice before = some after ∧ ¬holds before ∧ holds after := by
  induction choices generalizing s with
  | nil => exact absurd (Option.some.inj reached ▸ final) start
  | cons choice choices ih =>
    obtain ⟨between, taken, rest⟩ := Option.bind_eq_some_iff.mp reached
    by_cases already : holds between
    next => exact ⟨[], choice, choices, s, between, rfl, rfl, taken, start, already⟩
    next =>
      obtain ⟨earlier, last, later, before, after, rfl, onwards, rest⟩ := ih rest already
      exact ⟨choice :: earlier, last, later, before, after, rfl,
        Option.bind_eq_some_iff.mpr ⟨between, taken, onwards⟩, rest⟩

end Transitions
