import BuildboxCommon.StandardOutput.ReadBuffer

set_option autoImplicit false

namespace BuildboxCommon.StatFileMonitor

open ByteString Transitions

def ClosedAtStop (event : Event) (p : Process) : Prop :=
  event = .take .requestStop → p.thread.stopRequested = false → p.thread.closed = true

def Delivers (event : Event) (p : Process) : Prop :=
  Constructed event p ∧ (event = .take .requestStop → p.thread.stopRequested = false → p.thread.Timely) ∧
    ∀ choice, event = .take choice → p.thread.stopRequested = true → ReadsAll choice p.thread

instance (event : Event) (p : Process) : Decidable (ClosedAtStop event p) :=
  inferInstanceAs (Decidable (_ → _ → _))

instance (event : Event) (p : Process) : Decidable (Delivers event p) :=
  have : Decidable (∀ choice, event = .take choice → p.thread.stopRequested = true → ReadsAll choice p.thread) :=
    match event with
    | .construct => .isTrue (by simp)
    | .take choice =>
      decidable_of_iff (p.thread.stopRequested = true → ReadsAll choice p.thread) (by simp)
  inferInstanceAs (Decidable (_ ∧ (_ → _ → _) ∧ _))

structure Tracked (p : Process) : Prop where
  monitored : Monitored p.thread
  delivered : p.chunks.flatten = p.thread.delivered
  closed : p.thread.stopRequested = true → p.thread.closed = true

def Process.Complete (p : Process) : Prop :=
  p.corrupted = false ∧ (p.thread.stopRequested = true → p.thread.Whole)

theorem start_tracked (file : Bytes) : Tracked (start file) := ⟨create_monitored file, rfl, by simp [start, create]⟩

theorem start_complete (file : Bytes) : (start file).Complete := ⟨rfl, by simp [start, create]⟩

variable {readBufferSize : UInt64} {p p' : Process} {choice : Choice}

theorem handedOver_step {s s' : State} {limit : Nat} (taken : StatFileMonitor.step limit choice s = some s') :
    s'.delivered = s.delivered ++ (Process.handedOver s choice).flatten := by
  by_cases monitor : ∃ bytesRead, choice = .monitor bytesRead
  next =>
    obtain ⟨bytesRead, rfl⟩ := monitor
    exact handedOver_advance taken
  next =>
    obtain ⟨-, -, delivered, nothing⟩ := step_beside (not_exists.mp monitor) taken
    simp [delivered, nothing]

theorem flags_step {s s' : State} {limit : Nat} (taken : StatFileMonitor.step limit choice s = some s') :
    (s.closed = true → s'.closed = true) ∧
      (s'.stopRequested = true ↔ s.stopRequested = true ∨ choice = .requestStop) := by
  cases choice with
  | append data =>
    simp only [StatFileMonitor.step, Option.ite_none_left_eq_some, Option.some.injEq] at taken
    simp [← taken.2]
  | close =>
    simp only [StatFileMonitor.step, Option.ite_none_left_eq_some, Option.some.injEq] at taken
    simp [← taken.2]
  | requestStop =>
    simp only [StatFileMonitor.step, Option.some.injEq] at taken
    simp [← taken]
  | monitor bytesRead =>
    have keeps := State.advance_keeps taken
    simp [keeps]

theorem Tracked.move (tracked : Tracked p) (closed : ClosedAtStop (.take choice) p)
    (taken : p.move readBufferSize choice = some p') : Tracked p' := by
  obtain ⟨s', stepped, rfl⟩ := Option.map_eq_some_iff.mp taken
  obtain ⟨keeps, flag⟩ := flags_step stepped
  refine ⟨tracked.monitored.step stepped, ?_, fun stopped => ?_⟩
  next =>
    rw [List.flatten_append, tracked.delivered]
    exact (handedOver_step stepped).symm
  next =>
    by_cases already : p.thread.stopRequested = true
    next => exact keeps (tracked.closed already)
    next =>
      obtain rfl := (flag.mp stopped).resolve_left already
      exact keeps (closed rfl (Bool.not_eq_true _ ▸ already))

theorem Monitored.whole_of_requestStop {s : State} (monitored : Monitored s) (running : s.stopRequested = false) :
    State.Whole { s with stopRequested := true } ↔ s.Timely := by
  have ⟨notEnded, notLast⟩ := monitored.running running
  unfold State.Whole
  split
  next location => exact absurd location notLast
  next location => exact absurd location notEnded
  next => rfl

theorem Tracked.complete_move (tracked : Tracked p) (constructed : Constructed (.take choice) p)
    (defined : p.corrupted = false) (taken : p.move readBufferSize choice = some p') :
    p.Complete ∧ Delivers (.take choice) p ↔ p'.Complete := by
  obtain ⟨s', stepped, rfl⟩ := Option.map_eq_some_iff.mp taken
  obtain ⟨-, flag⟩ := flags_step stepped
  by_cases stopped : p.thread.stopRequested = true
  next =>
    have stopping : Stopping p.thread := ⟨tracked.monitored, tracked.closed stopped, stopped⟩
    simp [Process.Complete, Delivers, defined, constructed, stopped, flag.mpr (.inl stopped),
      ← stopping.whole_step stepped]
  next =>
    rw [Bool.not_eq_true] at stopped
    by_cases asked : choice = .requestStop
    next =>
      subst asked
      simp only [StatFileMonitor.step, Option.some.injEq] at stepped
      have whole := tracked.monitored.whole_of_requestStop stopped
      rw [stepped] at whole
      simp [Process.Complete, Delivers, defined, constructed, stopped, flag.mpr (.inr rfl), whole]
    next =>
      have running : s'.stopRequested = false := by
        rw [← Bool.not_eq_true, flag, not_or]
        exact ⟨by simp [stopped], asked⟩
      simp [Process.Complete, Delivers, defined, constructed, stopped, running, asked]

theorem Tracked.step {event : Event} (tracked : Tracked p) (closed : ClosedAtStop event p)
    (taken : p.step readBufferSize event = some p') :
    Tracked p' ∧ (p.Complete ∧ Delivers event p ↔ p'.Complete) := by
  cases event with
  | construct =>
    cases missing : p.uninitialized with
    | nil => simp [Process.step, missing] at taken
    | cons member rest =>
      simp only [Process.step, missing, Option.some.injEq] at taken
      subst taken
      exact ⟨⟨tracked.monitored, tracked.delivered, tracked.closed⟩, by simp [Process.Complete, Delivers, Constructed]⟩
  | take choice =>
    cases defined : p.corrupted with
    | true => simp [Process.step, defined] at taken
    | false =>
      by_cases constructed : Constructed (.take choice) p
      next =>
        have ready : ¬(p.NeedsBuffer choice = true ∧ p.uninitialized ≠ []) := fun early =>
          early.2 (constructed choice rfl early.1)
        simp only [Process.step, defined, Bool.false_eq_true, if_false, if_neg ready,
          Option.ite_none_left_eq_some] at taken
        exact ⟨tracked.move closed taken.2, tracked.complete_move constructed defined taken.2⟩
      next =>
        obtain rfl := step_of_early constructed taken defined
        exact ⟨⟨tracked.monitored, tracked.delivered, tracked.closed⟩,
          by simp [Process.Complete, Delivers, constructed]⟩

theorem stop_delivers_iff {file : Bytes} {events : List Event}
    (reached : run (Process.step readBufferSize) (start file) events = some p)
    (closed : Along (Process.step readBufferSize) ClosedAtStop (start file) events)
    (finished : p.corrupted = true ∨ p.thread.stopRequested = true ∧ p.thread.location = .ended) :
    p.corrupted = false ∧ p.chunks.flatten = p.thread.file ↔
      Along (Process.step readBufferSize) Delivers (start file) events := by
  have each (event : Event) (p p' : Process) (closed : ClosedAtStop event p)
      (taken : p.step readBufferSize event = some p') (tracked : Tracked p) := tracked.step closed taken
  have complete := along_iff each closed reached (start_tracked file)
  have tracked : Tracked p :=
    run_along (fun event p p' closed taken tracked => (each event p p' closed taken tracked).1)
    closed reached (start_tracked file)
  rw [and_iff_right (start_complete file)] at complete
  rw [complete, tracked.delivered]
  rcases finished with corrupted | ⟨stopped, ended⟩
  next => simp [Process.Complete, corrupted]
  next => simp [Process.Complete, stopped, State.Whole, ended]

section Samples

def written : List Event := [.take (.append [120]), .take .close]

def deliveredWhole : Process := ⟨[], ⟨[120], true, 1, [], [120], true, .ended⟩, [[120]], false⟩

def neverRead : Process := ⟨[], ⟨[120], true, 0, [], [], true, .ended⟩, [], false⟩

theorem stop_delivers_written : deliveredWhole.corrupted = false ∧ deliveredWhole.chunks.flatten = [120] :=
  (@stop_delivers_iff 4096 deliveredWhole [] (constructing ++ written ++ [.take (.monitor 0), .take (.monitor 0),
    .take .requestStop, .take (.monitor 1), .take (.monitor 0), .take (.monitor 0)]) rfl (by decide)
      (.inr ⟨rfl, rfl⟩)).mpr (by decide)

theorem stop_before_first_look : ∃ events, run (Process.step 4096) (start []) events = some neverRead ∧
    Along (Process.step 4096) ClosedAtStop (start []) events ∧ neverRead.thread.location = .ended ∧
      neverRead.chunks.flatten ≠ neverRead.thread.file :=
  ⟨constructing ++ .take (.monitor 0) :: .take (.monitor 0) :: written ++ [.take .requestStop, .take (.monitor 0)], rfl,
    by decide, rfl, by decide⟩

end Samples

end BuildboxCommon.StatFileMonitor
