import Mathlib.Data.List.Basic
import Mathlib.Data.List.Forall2

set_option autoImplicit false

namespace Effect

variable {ε σ α β : Type}

def exitState : EStateM.Result ε σ α → σ
  | .ok _ s => s
  | .error _ s => s

def Keeps (inv : σ → Prop) (program : EStateM ε σ α) (returns : α → Prop) : Prop :=
  ∀ s, inv s → match program s with
    | .ok a s' => returns a ∧ inv s'
    | .error _ s' => inv s'

def Runs (before : σ → Prop) (program : EStateM ε σ α) (after : α → σ → Prop) (raised : σ → Prop) : Prop :=
  ∀ s, before s → match program s with
    | .ok a s' => after a s'
    | .error _ s' => raised s'

structure RaisesIff (kind : ε → Prop) (condition : Prop) (program : EStateM ε σ α) : Prop where
  raises : condition → ∀ s, ∃ e s', program s = .error e s' ∧ kind e
  returns : ¬condition → ∀ s, ∃ a s', program s = .ok a s'

def Returns (program : EStateM ε σ α) : Prop := ∀ s, ∃ a s', program s = .ok a s'

def RaisesOnly (kind : ε → Prop) (program : EStateM ε σ α) : Prop :=
  ∀ s e s', program s = .error e s' → kind e

-- The handler starts in the state that the exception left behind.
def catching (handled : ε → Bool) (program : EStateM ε σ α) (handler : ε → EStateM ε σ α) :
    EStateM ε σ α := fun s =>
  match program s with
  | .ok a s' => .ok a s'
  | .error e s' => if handled e then handler e s' else .error e s'

def calling (call : StateM σ α) : EStateM ε σ α := fun s =>
  match call s with
  | (a, s') => .ok a s'

def ensuring (cleanup : StateM σ Unit) (program : EStateM ε σ α) : EStateM ε σ α := fun s =>
  match program s with
  | .ok a s' => .ok a (cleanup s').2
  | .error e s' => .error e (cleanup s').2

theorem bind_ok {program : EStateM ε σ α} {s s' : σ} {a : α} (rest : α → EStateM ε σ β)
    (run : program s = .ok a s') : (program >>= rest) s = rest a s' := by
  show EStateM.bind program rest s = _
  simp only [EStateM.bind, run]

theorem bind_error {program : EStateM ε σ α} {s s' : σ} {e : ε} (rest : α → EStateM ε σ β)
    (run : program s = .error e s') : (program >>= rest) s = .error e s' := by
  show EStateM.bind program rest s = _
  simp only [EStateM.bind, run]

theorem of_bind_ok {program : EStateM ε σ α} {rest : α → EStateM ε σ β} {s s' : σ} {b : β}
    (run : (program >>= rest) s = .ok b s') : ∃ a between, program s = .ok a between ∧ rest a between = .ok b s' := by
  cases first : program s with
  | ok a between => exact ⟨a, between, rfl, (bind_ok rest first) ▸ run⟩
  | error e between =>
    rw [bind_error rest first] at run
    cases run

theorem catching_ok {program : EStateM ε σ α} {s s' : σ} {a : α} (handled : ε → Bool)
    (handler : ε → EStateM ε σ α) (run : program s = .ok a s') : catching handled program handler s = .ok a s' := by
  simp only [catching, run]

theorem catching_error {program : EStateM ε σ α} {s s' : σ} {e : ε} {handled : ε → Bool}
    (handler : ε → EStateM ε σ α) (run : program s = .error e s') (known : handled e = true) :
    catching handled program handler s = handler e s' := by
  simp only [catching, run, known, if_true]

theorem get_bind (rest : σ → EStateM ε σ α) (s : σ) : (get >>= rest) s = rest s s := rfl

@[simp] theorem pure_apply (a : α) (s : σ) : (pure a : EStateM ε σ α) s = .ok a s := rfl

@[simp] theorem throw_apply (e : ε) (s : σ) : (throw e : EStateM ε σ α) s = .error e s := rfl

@[simp] theorem liftExcept_ok (a : α) :
    (liftExcept (.ok a : Except ε α) : EStateM ε σ α) = pure a := rfl

@[simp] theorem liftExcept_error (e : ε) :
    (liftExcept (.error e : Except ε α) : EStateM ε σ α) = throw e := rfl

theorem of_liftExcept_ok {outcome : Except ε α} {a : α} {s s' : σ}
    (run : (liftExcept outcome : EStateM ε σ α) s = .ok a s') : outcome = .ok a ∧ s' = s := by
  cases outcome with
  | ok b =>
    cases run
    exact ⟨rfl, rfl⟩
  | error e => cases run

section Keeps

variable {inv : σ → Prop} {returns : α → Prop} {after : β → Prop}

theorem Keeps.exit {program : EStateM ε σ α} (keeps : Keeps inv program returns) {s : σ} (start : inv s) :
    inv (exitState (program s)) := by
  have kept := keeps s start
  cases run : program s with
  | ok a s' =>
    rw [run] at kept
    exact kept.2
  | error e s' =>
    rw [run] at kept
    exact kept

theorem Keeps.trivial (program : EStateM ε σ α) : Keeps (fun _ => True) program fun _ => True := by
  intro s _
  cases program s <;> simp

theorem Keeps.pure {a : α} (correct : returns a) : Keeps inv (pure a : EStateM ε σ α) returns :=
  fun _ start => ⟨correct, start⟩

theorem Keeps.throw (e : ε) : Keeps inv (throw e : EStateM ε σ α) returns := fun _ start => start

theorem Keeps.bind {program : EStateM ε σ α} {rest : α → EStateM ε σ β}
    (first : Keeps inv program returns) (second : ∀ a, returns a → Keeps inv (rest a) after) :
    Keeps inv (program >>= rest) after := by
  intro s start
  have kept := first s start
  cases run : program s with
  | ok a s' =>
    rw [run] at kept
    rw [bind_ok rest run]
    exact second a kept.1 s' kept.2
  | error e s' =>
    rw [run] at kept
    rw [bind_error rest run]
    exact kept

theorem Keeps.andThen {program : EStateM ε σ α} {rest : α → EStateM ε σ β}
    (first : Keeps inv program fun _ => True) (second : ∀ a, Keeps inv (rest a) after) :
    Keeps inv (program >>= rest) after :=
  first.bind fun a _ => second a

theorem Keeps.exit_bind {program : EStateM ε σ α} {rest : α → EStateM ε σ β} {s : σ}
    (held : inv (exitState (program s))) (second : ∀ a, Keeps inv (rest a) after) :
    inv (exitState ((program >>= rest) s)) := by
  cases run : program s with
  | ok a s' =>
    rw [run] at held
    rw [bind_ok rest run]
    exact (second a).exit held
  | error e s' =>
    rw [run] at held
    rwa [bind_error rest run]

theorem Keeps.get {rest : σ → EStateM ε σ β} (each : ∀ s, inv s → Keeps inv (rest s) after) :
    Keeps inv (get >>= rest) after := fun s start => each s start s start

theorem Keeps.ite {condition : Prop} [Decidable condition] {program other : EStateM ε σ α}
    (yes : condition → Keeps inv program returns) (no : ¬condition → Keeps inv other returns) :
    Keeps inv (if condition then program else other) returns := by
  split
  next holds => exact yes holds
  next fails => exact no fails

theorem Keeps.liftExcept {outcome : Except ε α} (correct : ∀ a, outcome = .ok a → returns a) :
    Keeps inv (liftExcept outcome : EStateM ε σ α) returns := by
  cases outcome with
  | ok a => exact .pure (correct a rfl)
  | error e => exact .throw e

theorem Keeps.forM {xs : List α} {body : α → EStateM ε σ PUnit}
    (each : ∀ x ∈ xs, Keeps inv (body x) fun _ => True) : Keeps inv (forM xs body) fun _ => True := by
  induction xs with
  | nil => exact .pure True.intro
  | cons x xs ih =>
    exact .bind (each x (by simp)) fun _ _ => ih fun y member => each y (by simp [member])

theorem Keeps.foldlM {xs : List β} {step : α → β → EStateM ε σ α}
    (each : ∀ a, ∀ x ∈ xs, Keeps inv (step a x) fun _ => True) (a : α) :
    Keeps inv (xs.foldlM step a) fun _ => True := by
  induction xs generalizing a with
  | nil => exact .pure True.intro
  | cons x xs ih =>
    rw [List.foldlM_cons]
    exact (each a x (by simp)).bind fun b _ => ih (fun a y member => each a y (by simp [member])) b

theorem Keeps.mapM {γ : Type} {xs : List β} {body : β → EStateM ε σ α} {f : α → γ} {g : β → γ}
    (each : ∀ x ∈ xs, Keeps inv (body x) fun a => f a = g x) :
    Keeps inv (xs.mapM body) fun as => as.map f = xs.map g := by
  induction xs with
  | nil =>
    rw [List.mapM_nil]
    exact .pure rfl
  | cons x xs ih =>
    rw [List.mapM_cons]
    have later := ih fun y member => each y (by simp [member])
    refine (each x (by simp)).bind fun a first => later.bind fun as rest => .pure ?_
    rw [List.map_cons, List.map_cons, first, rest]

theorem Keeps.of_runs {program : EStateM ε σ α} (runs : Runs inv program (fun _ => inv) inv) :
    Keeps inv program fun _ => True := by
  intro s start
  have ended := runs s start
  cases run : program s with
  | ok a s' =>
    rw [run] at ended
    exact ⟨True.intro, ended⟩
  | error e s' =>
    rw [run] at ended
    exact ended

end Keeps

section Runs

variable {before : σ → Prop} {between after : α → σ → Prop} {raised : σ → Prop} {finally' : β → σ → Prop}

theorem Runs.pure {a : α} (correct : ∀ s, before s → after a s) :
    Runs before (pure a : EStateM ε σ α) after raised := fun s start => correct s start

theorem Runs.throw {e : ε} (correct : ∀ s, before s → raised s) :
    Runs before (throw e : EStateM ε σ α) after raised := fun s start => correct s start

theorem Runs.bind {program : EStateM ε σ α} {rest : α → EStateM ε σ β}
    (first : Runs before program between raised) (second : ∀ a, Runs (between a) (rest a) finally' raised) :
    Runs before (program >>= rest) finally' raised := by
  intro s start
  have ended := first s start
  cases run : program s with
  | ok a s' =>
    rw [run] at ended
    rw [bind_ok rest run]
    exact second a s' ended
  | error e s' =>
    rw [run] at ended
    rw [bind_error rest run]
    exact ended

theorem Runs.discard {kept : σ → Prop} {program : EStateM ε σ α} (runs : Runs before program (fun _ => kept) raised) :
    Runs before (discard program) (fun _ => kept) raised :=
  (runs.bind fun _ => Runs.pure fun _ => id : Runs before (program >>= fun _ => Pure.pure ()) (fun _ => kept) raised)

theorem Runs.mono {stronger : σ → Prop} {weaker : α → σ → Prop} {program : EStateM ε σ α}
    (runs : Runs before program between raised) (strong : ∀ s, stronger s → before s)
    (weak : ∀ a s, between a s → weaker a s) : Runs stronger program weaker raised := by
  intro s start
  have ended := runs s (strong s start)
  cases run : program s with
  | ok a s' =>
    rw [run] at ended
    exact weak a s' ended
  | error e s' =>
    rw [run] at ended
    exact ended

theorem Runs.starting {program : EStateM ε σ α} (runs : Runs before program after raised) {s : σ} (start : before s) :
    Runs (fun s' => s' = s) program after raised := runs.mono (fun _ same => same ▸ start) fun _ _ => id

theorem Runs.of_ok {program : EStateM ε σ α} (runs : Runs before program after raised) {s s' : σ} {a : α}
    (start : before s) (run : program s = .ok a s') : after a s' := by
  have ended := runs s start
  rwa [run] at ended

theorem Runs.relax {program : EStateM ε σ α} {weaker : σ → Prop} (runs : Runs before program after raised)
    (weak : ∀ s, raised s → weaker s) : Runs before program after weaker := by
  intro s start
  have ended := runs s start
  cases run : program s with
  | ok a s' =>
    rw [run] at ended
    exact ended
  | error e s' =>
    rw [run] at ended
    exact weak s' ended

theorem Runs.of_exists {γ : Type} {given : γ → σ → Prop} {program : EStateM ε σ α}
    (each : ∀ c, Runs (given c) program after raised) : Runs (fun s => ∃ c, given c s) program after raised :=
  fun s ⟨c, start⟩ => each c s start

theorem Runs.of_and {condition : Prop} {program : EStateM ε σ α}
    (runs : condition → Runs before program after raised) :
    Runs (fun s => condition ∧ before s) program after raised :=
  fun s ⟨holds, start⟩ => runs holds s start

theorem Runs.ite {condition : Prop} [Decidable condition] {program other : EStateM ε σ α}
    (yes : condition → Runs before program after raised) (no : ¬condition → Runs before other after raised) :
    Runs before (if condition then program else other) after raised := by
  split
  next holds => exact yes holds
  next fails => exact no fails

theorem Runs.calling {call : StateM σ α} (correct : ∀ s, before s → after (call s).1 (call s).2) :
    Runs before (calling call : EStateM ε σ α) after raised := fun s start => correct s start

theorem Runs.get {rest : σ → EStateM ε σ β} (each : ∀ s, before s → Runs (fun s' => s' = s) (rest s) finally' raised) :
    Runs before (get >>= rest) finally' raised := fun s start => each s start s rfl

theorem Runs.modify {change : σ → σ} {after : PUnit → σ → Prop} (correct : ∀ s, before s → after ⟨⟩ (change s)) :
    Runs before (modify change : EStateM ε σ PUnit) after raised := fun s start => correct s start

theorem Runs.liftExcept {outcome : Except ε α} (returned : ∀ a, outcome = .ok a → ∀ s, before s → after a s)
    (failed : ∀ s, before s → raised s) : Runs before (liftExcept outcome : EStateM ε σ α) after raised := by
  cases outcome with
  | ok a => exact .pure (returned a rfl)
  | error e => exact .throw failed

theorem Runs.catching {handled : ε → Bool} {program : EStateM ε σ α} {handler : ε → EStateM ε σ α}
    (runs : Runs before program after raised) (handling : ∀ e, Runs raised (handler e) after raised) :
    Runs before (catching handled program handler) after raised := by
  intro s start
  have ended := runs s start
  cases run : program s with
  | ok a s' =>
    rw [run] at ended
    rw [catching_ok handled handler run]
    exact ended
  | error e s' =>
    rw [run] at ended
    by_cases known : handled e = true
    next =>
      rw [catching_error handler run known]
      exact handling e s' ended
    next =>
      simp only [Effect.catching, run, known]
      exact ended

theorem Runs.ensuring {cleanup : StateM σ Unit} {program : EStateM ε σ α} {failed : σ → Prop}
    (runs : Runs before program between failed) (returned : ∀ a s, between a s → after a (cleanup s).2)
    (thrown : ∀ s, failed s → raised (cleanup s).2) : Runs before (ensuring cleanup program) after raised := by
  intro s start
  have ended := runs s start
  unfold Effect.ensuring
  cases run : program s with
  | ok a s' =>
    rw [run] at ended
    exact returned a s' ended
  | error e s' =>
    rw [run] at ended
    exact thrown s' ended

theorem Runs.foldlM {xs : List β} {step : α → β → EStateM ε σ α}
    (each : ∀ a, ∀ x ∈ xs, Runs (between a) (step a x) between raised) (a : α) :
    Runs (between a) (xs.foldlM step a) between raised := by
  induction xs generalizing a with
  | nil => exact .pure fun _ => id
  | cons x xs ih =>
    rw [List.foldlM_cons]
    exact (each a x (by simp)).bind fun b => ih (fun a y member => each a y (by simp [member])) b

theorem Runs.forM_keeps {xs : List β} {body : β → EStateM ε σ PUnit}
    (each : ∀ x ∈ xs, Runs before (body x) (fun _ => before) raised) :
    Runs before (forM xs body) (fun _ => before) raised := by
  induction xs with
  | nil => exact .pure fun _ => id
  | cons x xs ih =>
    rw [List.forM_cons]
    exact (each x (by simp)).bind fun _ => ih fun y member => each y (by simp [member])

section Progress

variable {γ : Type} {inv : List γ → σ → Prop} {gains : β → List γ}

theorem Runs.foldlM_progress {xs : List β} {step : α → β → EStateM ε σ α}
    (each : ∀ a, ∀ x ∈ xs, ∀ done, Runs (inv done) (step a x) (fun _ => inv (done ++ gains x)) raised) (a : α)
    (done : List γ) : Runs (inv done) (xs.foldlM step a) (fun _ => inv (done ++ xs.flatMap gains)) raised := by
  induction xs generalizing a done with
  | nil => exact .pure fun _ held => by rwa [List.flatMap_nil, List.append_nil]
  | cons x xs ih =>
    rw [List.foldlM_cons, List.flatMap_cons, ← List.append_assoc]
    exact (each a x (by simp) done).bind fun b => ih (fun a y member => each a y (by simp [member])) b _

theorem Runs.forM_progress {xs : List β} {body : β → EStateM ε σ PUnit}
    (each : ∀ x ∈ xs, ∀ done, Runs (inv done) (body x) (fun _ => inv (done ++ gains x)) raised) (done : List γ) :
    Runs (inv done) (forM xs body) (fun _ => inv (done ++ xs.flatMap gains)) raised := by
  induction xs generalizing done with
  | nil => exact .pure fun _ held => by rwa [List.flatMap_nil, List.append_nil]
  | cons x xs ih =>
    rw [List.forM_cons, List.flatMap_cons, ← List.append_assoc]
    exact (each x (by simp) done).bind fun _ => ih (fun y member => each y (by simp [member])) _

theorem Runs.mapM_progress {xs : List β} {body : β → EStateM ε σ α}
    (each : ∀ x ∈ xs, ∀ done, Runs (inv done) (body x) (fun _ => inv (done ++ gains x)) raised) (done : List γ) :
    Runs (inv done) (xs.mapM body) (fun _ => inv (done ++ xs.flatMap gains)) raised := by
  induction xs generalizing done with
  | nil =>
    rw [List.mapM_nil]
    exact .pure fun _ held => by rwa [List.flatMap_nil, List.append_nil]
  | cons x xs ih =>
    rw [List.mapM_cons, List.flatMap_cons, ← List.append_assoc]
    refine (each x (by simp) done).bind fun _ => ?_
    exact (ih (fun y member => each y (by simp [member])) _).bind fun _ => .pure fun _ => id

end Progress

theorem Runs.mapM {xs : List β} {body : β → EStateM ε σ α}
    (each : ∀ x ∈ xs, Runs before (body x) (fun _ => before) before) :
    Runs before (xs.mapM body) (fun _ => before) before := by
  induction xs with
  | nil =>
    rw [List.mapM_nil]
    exact .pure fun _ => id
  | cons x xs ih =>
    rw [List.mapM_cons]
    refine (each x (by simp)).bind fun _ => ?_
    exact (ih fun y member => each y (by simp [member])).bind fun _ => .pure fun _ => id

end Runs

theorem mapM_ok_iff {gives : β → α → Prop} {xs : List β} {body : β → EStateM ε σ α}
    (each : ∀ x ∈ xs, ∀ a s, (∃ s', body x s = .ok a s') ↔ gives x a) (results : List α) (s : σ) :
    (∃ s', xs.mapM body s = .ok results s') ↔ List.Forall₂ gives xs results := by
  induction xs generalizing results s with
  | nil =>
    rw [List.mapM_nil, List.forall₂_nil_left_iff]
    constructor
    next => exact fun ⟨_, run⟩ => (EStateM.Result.ok.inj run).1.symm
    next =>
      rintro rfl
      exact ⟨s, rfl⟩
  | cons x xs ih =>
    have first := each x (by simp)
    have others := ih fun y member => each y (by simp [member])
    rw [List.mapM_cons, List.forall₂_cons_left_iff]
    constructor
    next =>
      rintro ⟨s', run⟩
      obtain ⟨a, between, here, rest⟩ := of_bind_ok run
      obtain ⟨as, ended, there, returned⟩ := of_bind_ok rest
      cases returned
      exact ⟨a, as, (first a s).mp ⟨between, here⟩, (others as between).mp ⟨_, there⟩, rfl⟩
    next =>
      rintro ⟨a, as, gave, rest, rfl⟩
      obtain ⟨between, here⟩ := (first a s).mpr gave
      obtain ⟨ended, there⟩ := (others as between).mpr rest
      exact ⟨ended, by rw [bind_ok _ here, bind_ok _ there]; rfl⟩
theorem of_foldlM_ok {xs : List β} {step : α → β → EStateM ε σ α} {a result : α} {s s' : σ}
    (run : xs.foldlM step a s = .ok result s') : ∀ x ∈ xs, ∃ a s b s', step a x s = .ok b s' := by
  induction xs generalizing a s with
  | nil => simp
  | cons x xs ih =>
    rw [List.foldlM_cons] at run
    obtain ⟨b, between, first, rest⟩ := of_bind_ok run
    intro y member
    rcases List.mem_cons.mp member with rfl | later
    next => exact ⟨a, s, b, between, first⟩
    next => exact ih rest y later

theorem of_forM_ok {inv : σ → Prop} {good : β → Prop} {raised : σ → Prop} {xs : List β} {body : β → EStateM ε σ PUnit}
    (each : ∀ x ∈ xs, good x → Runs inv (body x) (fun _ => inv) raised)
    (bad : ∀ x ∈ xs, ¬good x → ∀ s s', inv s → body x s ≠ .ok ⟨⟩ s') {s s' : σ} (start : inv s)
    (run : forM xs body s = .ok ⟨⟩ s') : ∀ x ∈ xs, good x := by
  induction xs generalizing s with
  | nil => simp
  | cons x xs ih =>
    rw [List.forM_cons] at run
    obtain ⟨_, between, first, rest⟩ := of_bind_ok run
    have fine : good x := by
      by_contra fails
      exact bad x (by simp) fails s between start first
    have held := each x (by simp) fine s start
    rw [first] at held
    have others := ih (fun y member => each y (by simp [member])) (fun y member => bad y (by simp [member])) held rest
    simpa [fine] using others

section RaisesOnly

variable {kind : ε → Prop}

theorem RaisesOnly.pure (a : α) : RaisesOnly kind (pure a : EStateM ε σ α) := by
  intro s e s' run
  simp at run

theorem RaisesOnly.throw {e : ε} (correct : kind e) : RaisesOnly kind (throw e : EStateM ε σ α) := by
  intro s thrown s' run
  simp only [throw_apply, EStateM.Result.error.injEq] at run
  exact run.1 ▸ correct

theorem RaisesOnly.calling (call : StateM σ α) : RaisesOnly kind (calling call : EStateM ε σ α) := by
  intro s e s' run
  unfold Effect.calling at run
  split at run
  cases run

theorem RaisesOnly.bind {program : EStateM ε σ α} {rest : α → EStateM ε σ β}
    (first : RaisesOnly kind program) (second : ∀ a, RaisesOnly kind (rest a)) :
    RaisesOnly kind (program >>= rest) := by
  intro s e s' run
  cases ended : program s with
  | ok a between =>
    rw [bind_ok rest ended] at run
    exact second a between e s' run
  | error thrown between =>
    rw [bind_error rest ended] at run
    cases run
    exact first s e s' ended

theorem RaisesOnly.bind_returned {program : EStateM ε σ α} {rest : α → EStateM ε σ β} {returns : α → Prop}
    (first : RaisesOnly kind program) (value : Keeps (fun _ => True) program returns)
    (second : ∀ a, returns a → RaisesOnly kind (rest a)) : RaisesOnly kind (program >>= rest) := by
  intro s e s' run
  have returned := value s trivial
  cases ended : program s with
  | ok a between =>
    rw [bind_ok rest ended] at run
    rw [ended] at returned
    exact second a returned.1 between e s' run
  | error thrown between =>
    rw [bind_error rest ended] at run
    cases run
    exact first s e s' ended

theorem RaisesOnly.catching {handled : ε → Bool} {program : EStateM ε σ α} {handler : ε → EStateM ε σ α}
    (raises : RaisesOnly kind program) (handling : ∀ e, RaisesOnly kind (handler e)) :
    RaisesOnly kind (catching handled program handler) := by
  intro s e s' run
  unfold Effect.catching at run
  cases ended : program s with
  | ok a between =>
    rw [ended] at run
    cases run
  | error thrown between =>
    rw [ended] at run
    simp only at run
    split at run
    next => exact handling thrown between e s' run
    next =>
      cases run
      exact raises s e _ ended

theorem RaisesOnly.foldlM {xs : List β} {step : α → β → EStateM ε σ α}
    (each : ∀ a, ∀ x ∈ xs, RaisesOnly kind (step a x)) (a : α) : RaisesOnly kind (xs.foldlM step a) := by
  induction xs generalizing a with
  | nil => exact .pure a
  | cons x xs ih =>
    rw [List.foldlM_cons]
    exact (each a x (by simp)).bind fun b => ih (fun a y member => each a y (by simp [member])) b

theorem RaisesOnly.forM {xs : List β} {body : β → EStateM ε σ PUnit} (each : ∀ x ∈ xs, RaisesOnly kind (body x)) :
    RaisesOnly kind (forM xs body) := by
  induction xs with
  | nil => exact .pure _
  | cons x xs ih =>
    rw [List.forM_cons]
    exact (each x (by simp)).bind fun _ => ih fun y member => each y (by simp [member])

theorem RaisesOnly.mapM {xs : List β} {body : β → EStateM ε σ α} (each : ∀ x ∈ xs, RaisesOnly kind (body x)) :
    RaisesOnly kind (xs.mapM body) := by
  induction xs with
  | nil =>
    rw [List.mapM_nil]
    exact .pure _
  | cons x xs ih =>
    rw [List.mapM_cons]
    refine (each x (by simp)).bind fun _ => ?_
    exact (ih fun y member => each y (by simp [member])).bind fun _ => .pure _

theorem RaisesOnly.ensuring (cleanup : StateM σ Unit) {program : EStateM ε σ α} (raises : RaisesOnly kind program) :
    RaisesOnly kind (ensuring cleanup program) := by
  intro s e s' run
  unfold Effect.ensuring at run
  cases ended : program s with
  | ok a between =>
    rw [ended] at run
    cases run
  | error thrown between =>
    rw [ended] at run
    cases run
    exact raises s e between ended

theorem RaisesOnly.ite {condition : Prop} [Decidable condition] {program other : EStateM ε σ α}
    (yes : RaisesOnly kind program) (no : RaisesOnly kind other) :
    RaisesOnly kind (if condition then program else other) := by
  split
  next => exact yes
  next => exact no

end RaisesOnly

section Returns

theorem Returns.pure (a : α) : Returns (pure a : EStateM ε σ α) := fun s => ⟨a, s, rfl⟩

theorem Returns.bind {program : EStateM ε σ α} {rest : α → EStateM ε σ β} (first : Returns program)
    (second : ∀ a, Returns (rest a)) : Returns (program >>= rest) := by
  intro s
  obtain ⟨a, s', run⟩ := first s
  rw [bind_ok rest run]
  exact second a s'

theorem Returns.foldlM {xs : List β} {step : α → β → EStateM ε σ α} (each : ∀ a, ∀ x ∈ xs, Returns (step a x)) (a : α) :
    Returns (xs.foldlM step a) := by
  induction xs generalizing a with
  | nil => exact .pure a
  | cons x xs ih =>
    rw [List.foldlM_cons]
    exact (each a x List.mem_cons_self).bind (ih fun b y member => each b y (List.mem_cons_of_mem _ member))

end Returns

section RaisesIff

variable {kind : ε → Prop} {condition : Prop}

theorem RaisesIff.congr {other : Prop} {program : EStateM ε σ α} (same : condition ↔ other)
    (correct : RaisesIff kind condition program) : RaisesIff kind other program :=
  ⟨fun h => correct.raises (same.mpr h), fun h => correct.returns (mt same.mp h)⟩

theorem Returns.raisesIff {program : EStateM ε σ α} (returns : Returns program) :
    RaisesIff kind False program :=
  ⟨False.elim, fun _ => returns⟩

theorem RaisesIff.liftExcept {outcome : Except ε α} (raised : condition → ∃ e, outcome = .error e ∧ kind e)
    (returned : ¬condition → ∃ a, outcome = .ok a) :
    RaisesIff kind condition (liftExcept outcome : EStateM ε σ α) := by
  constructor
  next =>
    intro holds s
    obtain ⟨e, rfl, correct⟩ := raised holds
    exact ⟨e, s, rfl, correct⟩
  next =>
    intro fails s
    obtain ⟨a, rfl⟩ := returned fails
    exact ⟨a, s, rfl⟩

theorem RaisesIff.bind {program : EStateM ε σ α} {rest : α → EStateM ε σ β} {later : Prop}
    {returns : α → Prop} (first : RaisesIff kind condition program)
    (value : Keeps (fun _ => True) program returns)
    (second : ¬condition → ∀ a, returns a → RaisesIff kind later (rest a)) :
    RaisesIff kind (condition ∨ later) (program >>= rest) := by
  constructor
  next =>
    intro some s
    by_cases early : condition
    next =>
      obtain ⟨e, s', run, correct⟩ := first.raises early s
      exact ⟨e, s', bind_error rest run, correct⟩
    next =>
      obtain ⟨a, s', run⟩ := first.returns early s
      have returned := value s trivial
      rw [run] at returned
      rw [bind_ok rest run]
      exact (second early a returned.1).raises (some.resolve_left early) s'
  next =>
    intro neither s
    rw [not_or] at neither
    obtain ⟨a, s', run⟩ := first.returns neither.1 s
    have returned := value s trivial
    rw [run] at returned
    rw [bind_ok rest run]
    exact (second neither.1 a returned.1).returns neither.2 s'

theorem RaisesIff.forM {xs : List α} {body : α → EStateM ε σ PUnit} {condition : α → Prop}
    (each : ∀ x ∈ xs, RaisesIff kind (condition x) (body x)) :
    RaisesIff kind (∃ x ∈ xs, condition x) (forM xs body) := by
  induction xs with
  | nil => exact ⟨by simp, fun _ s => ⟨_, s, rfl⟩⟩
  | cons x xs ih =>
    have first := each x (by simp)
    have others := ih fun y member => each y (by simp [member])
    exact RaisesIff.congr (by simp) (first.bind (Keeps.trivial _) fun _ _ _ => others)

end RaisesIff

end Effect
