import BuildboxCommon.Shared.Effect

set_option autoImplicit false

namespace Effect

variable {ε σ τ α β γ δ : Type}

def Simulates (rel : σ → τ → Prop) (program : EStateM ε σ α) (other : EStateM ε τ β) (returns : α → β → Prop) : Prop :=
  ∀ s t, rel s t → match program s, other t with
    | .ok a s', .ok b t' => returns a b ∧ rel s' t'
    | .error e s', .error e' t' => e = e' ∧ rel s' t'
    | _, _ => False

variable {rel : σ → τ → Prop} {returns : α → β → Prop} {after : γ → δ → Prop}

theorem Simulates.of_ok {program : EStateM ε σ α} {other : EStateM ε τ β}
    (simulates : Simulates rel program other returns)
    {s s' : σ} {t : τ} (start : rel s t) {a : α} (run : program s = .ok a s') :
    ∃ b t', other t = .ok b t' ∧ returns a b ∧ rel s' t' := by
  have ended := simulates s t start
  rw [run] at ended
  cases run' : other t with
  | ok b t' =>
    rw [run'] at ended
    exact ⟨b, t', rfl, ended⟩
  | error e t' =>
    rw [run'] at ended
    exact ended.elim

theorem Simulates.of_error {program : EStateM ε σ α} {other : EStateM ε τ β}
    (simulates : Simulates rel program other returns) {s s' : σ} {t : τ} (start : rel s t) {e : ε}
    (run : program s = .error e s') : ∃ t', other t = .error e t' ∧ rel s' t' := by
  have ended := simulates s t start
  rw [run] at ended
  cases run' : other t with
  | ok b t' =>
    rw [run'] at ended
    exact ended.elim
  | error e' t' =>
    rw [run'] at ended
    obtain ⟨rfl, ended⟩ := ended
    exact ⟨t', rfl, ended⟩

theorem Simulates.pure {a : α} {b : β} (correct : returns a b) :
    Simulates rel (pure a : EStateM ε σ α) (pure b : EStateM ε τ β) returns := fun _ _ start => ⟨correct, start⟩

theorem Simulates.throw (e : ε) :
    Simulates rel (throw e : EStateM ε σ α) (throw e : EStateM ε τ β) returns := fun _ _ start => ⟨rfl, start⟩

theorem Simulates.bind {program : EStateM ε σ α} {other : EStateM ε τ β} {rest : α → EStateM ε σ γ}
    {rest' : β → EStateM ε τ δ} (first : Simulates rel program other returns)
    (second : ∀ a b, returns a b → Simulates rel (rest a) (rest' b) after) :
    Simulates rel (program >>= rest) (other >>= rest') after := by
  intro s t start
  cases run : program s with
  | ok a s' =>
    obtain ⟨b, t', run', returned, related⟩ := first.of_ok start run
    rw [bind_ok rest run, bind_ok rest' run']
    exact second a b returned s' t' related
  | error e s' =>
    obtain ⟨t', run', related⟩ := first.of_error start run
    rw [bind_error rest run, bind_error rest' run']
    exact ⟨rfl, related⟩

theorem Simulates.get {rest : σ → EStateM ε σ γ} {rest' : τ → EStateM ε τ δ}
    (each : ∀ s t, rel s t → Simulates rel (rest s) (rest' t) after) :
    Simulates rel (get >>= rest) (get >>= rest') after := fun s t start => each s t start s t start

theorem Simulates.modify {change : σ → σ} {change' : τ → τ} (correct : ∀ s t, rel s t → rel (change s) (change' t)) :
    Simulates rel (modify change : EStateM ε σ PUnit) (modify change' : EStateM ε τ PUnit) Eq :=
  fun s t start => ⟨rfl, correct s t start⟩

theorem Simulates.ite {condition condition' : Prop} [Decidable condition] [Decidable condition']
    {program program' : EStateM ε σ α} {other other' : EStateM ε τ β} (same : condition ↔ condition')
    (yes : condition → Simulates rel program other returns) (no : ¬condition → Simulates rel program' other' returns) :
    Simulates rel (if condition then program else program') (if condition' then other else other') returns := by
  by_cases holds : condition
  next =>
    rw [if_pos holds, if_pos (same.mp holds)]
    exact yes holds
  next =>
    rw [if_neg holds, if_neg (mt same.mpr holds)]
    exact no holds

theorem Simulates.congr {program program' : EStateM ε σ α} {other other' : EStateM ε τ β}
    (simulates : Simulates rel program' other' returns)
    (same : ∀ s t, rel s t → program s = program' s ∧ other t = other' t) : Simulates rel program other returns := by
  intro s t start
  rw [(same s t start).1, (same s t start).2]
  exact simulates s t start

theorem Simulates.mono {program : EStateM ε σ α} {other : EStateM ε τ β} {weaker : α → β → Prop}
    (simulates : Simulates rel program other returns) (implied : ∀ a b, returns a b → weaker a b) :
    Simulates rel program other weaker := by
  intro s t start
  cases run : program s with
  | ok a s' =>
    obtain ⟨b, t', run', returned, related⟩ := simulates.of_ok start run
    rw [run']
    exact ⟨implied a b returned, related⟩
  | error e s' =>
    obtain ⟨t', run', related⟩ := simulates.of_error start run
    rw [run']
    exact ⟨rfl, related⟩

end Effect
