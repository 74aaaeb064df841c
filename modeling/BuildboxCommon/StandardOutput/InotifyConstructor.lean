import BuildboxCommon.StandardOutput.InotifyDelivery

set_option autoImplicit false

namespace BuildboxCommon.InotifyFileMonitor

open ByteString Transitions

inductive Member where
  | readBufferSize
  | readBuffer
  | readBufferOffset
  | inotifyInstanceFd
  | inotifyWatchFd
deriving DecidableEq

structure Process where
  -- What the constructor still has to do. Its thread runs already.
  uninitialized : List Member
  monitor : State
  initial : Bytes
  closedUnwatched : Bool
  undefined : Bool
deriving DecidableEq

inductive Turn where
  | construct
  | take (choice : Choice)
deriving DecidableEq

def start (file : Bytes) : Process :=
  ⟨[.readBufferSize, .readBuffer, .readBufferOffset, .inotifyInstanceFd, .inotifyWatchFd], create file, file,
    false, false⟩

namespace Process

def NeedsInstance (p : Process) (choice : Choice) : Bool :=
  match choice, p.monitor.location with
  | .poll _, .polling _ => true
  | _, _ => false

def move (readBufferSize : Nat) (p : Process) (choice : Choice) : Option Process :=
  (InotifyFileMonitor.step readBufferSize choice p.monitor).map fun monitor => { p with monitor := monitor }

-- Without a watch nothing of what the writer does comes to the queue.
def unwatched (readBufferSize : Nat) (p : Process) (choice : Choice) : Option Process :=
  match choice with
  | .append data =>
    if data = [] then none
    else some { p with monitor := { p.monitor with file := p.monitor.file ++ data }, initial := p.initial ++ data }
  | .close => some { p with monitor := { p.monitor with closed := true }, closedUnwatched := true }
  | _ => p.move readBufferSize choice

def step (readBufferSize : Nat) (turn : Turn) (p : Process) : Option Process :=
  match turn with
  | .construct =>
    match p.uninitialized with
    | [] => none
    | _ :: rest => some { p with uninitialized := rest }
  | .take choice =>
    if p.undefined then none
    -- Nobody can call `stop()` before the constructor is through.
    else if choice = .requestStop ∧ p.uninitialized ≠ [] then none
    else if p.NeedsInstance choice ∧ .inotifyInstanceFd ∈ p.uninitialized then some { p with undefined := true }
    else if .inotifyWatchFd ∈ p.uninitialized then p.unwatched readBufferSize choice
    else p.move readBufferSize choice

end Process

def Constructed (turn : Turn) (p : Process) : Prop :=
  match turn with
  | .construct => True
  | .take choice => p.NeedsInstance choice = true → .inotifyInstanceFd ∉ p.uninitialized

def SoleWriter (turn : Turn) (p : Process) : Prop :=
  match turn with
  | .construct => True
  | .take choice => OnlyWriter choice p.monitor

instance decidableConstructed : (turn : Turn) → (p : Process) → Decidable (Constructed turn p)
  | .construct, _ => .isTrue trivial
  | .take _, _ => inferInstanceAs (Decidable (_ → _))

instance decidableSoleWriter : (turn : Turn) → (p : Process) → Decidable (SoleWriter turn p)
  | .construct, _ => .isTrue trivial
  | .take choice, p => inferInstanceAs (Decidable (OnlyWriter choice p.monitor))

structure Early (p : Process) : Prop where
  waiting : ∃ before, p.uninitialized = before ++ [.inotifyWatchFd]
  idle : ∃ location, p.monitor = { create p.initial with closed := p.closedUnwatched, location := location } ∧
    (location = .timedOut ∨ location = .ended true ∨ ∃ i, location = .polling i)

structure Watched (p : Process) : Prop where
  through : p.uninitialized = []
  monitored : Monitored p.initial p.monitor
  sole : p.closedUnwatched = false → Sole p.monitor
  silent : p.closedUnwatched = true → p.monitor.closed = true ∧ p.monitor.file = p.initial

def Tracked (p : Process) : Prop := p.undefined = false ∧ (Early p ∨ Watched p)

variable {readBufferSize : Nat} {p p' : Process} {choice : Choice}

theorem start_tracked (file : Bytes) : Tracked (start file) :=
  ⟨rfl, .inl ⟨⟨[.readBufferSize, .readBuffer, .readBufferOffset, .inotifyInstanceFd], rfl⟩, .polling 0, rfl,
    .inr (.inr ⟨0, rfl⟩)⟩⟩

theorem unwatched_undefined (taken : p.unwatched readBufferSize choice = some p') : p'.undefined = p.undefined := by
  unfold Process.unwatched at taken
  split at taken
  next data =>
    rw [Option.ite_none_left_eq_some, Option.some.injEq] at taken
    exact taken.2 ▸ rfl
  next => exact Option.some.inj taken ▸ rfl
  next =>
    obtain ⟨next, -, rfl⟩ := Option.map_eq_some_iff.mp taken
    rfl

theorem Early.unwatched (early : Early p) (other : choice ≠ .requestStop)
    (taken : p.unwatched readBufferSize choice = some p') : Early p' := by
  obtain ⟨waiting, location, monitor, where'⟩ := early
  cases choice with
  | append data =>
    simp only [Process.unwatched, Option.ite_none_left_eq_some, Option.some.injEq] at taken
    obtain ⟨-, rfl⟩ := taken
    exact ⟨waiting, location, by simp only [monitor]; rfl, where'⟩
  | close =>
    obtain rfl := Option.some.inj taken
    exact ⟨waiting, location, by simp only [monitor], where'⟩
  | requestStop => exact absurd rfl other
  | notify => simp [Process.unwatched, Process.move, step, monitor, create] at taken
  | poll outcome =>
    obtain ⟨next, stepped, rfl⟩ := Option.map_eq_some_iff.mp taken
    rw [monitor] at stepped
    rcases where' with rfl | rfl | ⟨i, rfl⟩
    next => cases stepped
    next => cases stepped
    next =>
      cases outcome with
      | failed => exact ⟨waiting, .ended true, (Option.some.inj stepped).symm, .inr (.inl rfl)⟩
      | timedOut => exact ⟨waiting, .timedOut, (Option.some.inj stepped).symm, .inl rfl⟩
      | ready => cases stepped
      | invalid =>
        refine ⟨waiting, _, (Option.some.inj stepped).symm, ?_⟩
        split
        next => exact .inr (.inr ⟨_, rfl⟩)
        next => exact .inr (.inl rfl)
  | timedOut =>
    obtain ⟨next, stepped, rfl⟩ := Option.map_eq_some_iff.mp taken
    rw [monitor] at stepped
    rcases where' with rfl | rfl | ⟨i, rfl⟩
    next => exact ⟨waiting, .polling 0, (Option.some.inj stepped).symm, .inr (.inr ⟨0, rfl⟩)⟩
    next => cases stepped
    next => cases stepped
  | readInotifyEvents succeeds =>
    obtain ⟨next, stepped, rfl⟩ := Option.map_eq_some_iff.mp taken
    rw [monitor] at stepped
    rcases where' with rfl | rfl | ⟨i, rfl⟩ <;> cases stepped
  | read bytesRead =>
    obtain ⟨next, stepped, rfl⟩ := Option.map_eq_some_iff.mp taken
    rw [monitor] at stepped
    rcases where' with rfl | rfl | ⟨i, rfl⟩ <;> cases stepped

theorem Early.watched (early : Early p) : Watched { p with uninitialized := [] } := by
  obtain ⟨-, location, monitor, where'⟩ := early
  have monitored : Monitored p.initial p.monitor := by
    rw [monitor]
    exact { create_monitored p.initial with
      noticed := fun _ _ _ other => absurd rfl other
      ready := fun never => by
        rcases where' with rfl | rfl | ⟨i, rfl⟩ <;> cases never }
  refine ⟨rfl, monitored, fun unclosed => ?_, fun closed => ?_⟩
  next =>
    simp only [monitor]
    simp only at unclosed
    rw [unclosed]
    refine (create_sole p.initial).goesOn ?_ ?_ fun never => by cases never
    next => rcases where' with rfl | rfl | ⟨i, rfl⟩ <;> simp
    next => rcases where' with rfl | rfl | ⟨i, rfl⟩ <;> simp
  next =>
    simp only [monitor]
    exact ⟨closed, rfl⟩

theorem Watched.move (watched : Watched p) (only : OnlyWriter choice p.monitor)
    (taken : p.move readBufferSize choice = some p') : Watched p' := by
  obtain ⟨next, stepped, rfl⟩ := Option.map_eq_some_iff.mp taken
  refine ⟨watched.through, watched.monitored.step stepped,
    fun unclosed => (watched.sole unclosed).step only watched.monitored.cycles stepped, fun closedUnwatched => ?_⟩
  obtain ⟨closed, file⟩ := watched.silent closedUnwatched
  rcases step_writer stepped with ⟨data, rfl, -⟩ | ⟨same, stays⟩
  next => cases closed.symm.trans only
  next => exact ⟨by rw [stays, closed, Bool.true_or], same.trans file⟩

theorem Tracked.step {turn : Turn} (tracked : Tracked p) (constructed : Constructed turn p) (only : SoleWriter turn p)
    (taken : Process.step readBufferSize turn p = some p') : Tracked p' := by
  obtain ⟨defined, phase⟩ := tracked
  cases turn with
  | construct =>
    rcases phase with early | watched
    next =>
      obtain ⟨before, missing⟩ := early.waiting
      cases before with
      | nil =>
        simp only [Process.step, missing, List.nil_append, Option.some.injEq] at taken
        subst taken
        exact ⟨defined, .inr early.watched⟩
      | cons member before =>
        simp only [Process.step, missing, List.cons_append, Option.some.injEq] at taken
        subst taken
        exact ⟨defined, .inl ⟨⟨before, rfl⟩, early.idle⟩⟩
    next => simp [Process.step, watched.through] at taken
  | take choice =>
    have ready : ¬(p.NeedsInstance choice = true ∧ .inotifyInstanceFd ∈ p.uninitialized) :=
      fun needs => constructed needs.1 needs.2
    simp only [Process.step, defined, Bool.false_eq_true, if_false, if_neg ready, Option.ite_none_left_eq_some] at taken
    obtain ⟨asked, taken⟩ := taken
    rcases phase with early | watched
    next =>
      obtain ⟨before, missing⟩ := early.waiting
      rw [if_pos (by simp [missing])] at taken
      have other : choice ≠ .requestStop := fun same => asked ⟨same, by simp [missing]⟩
      exact ⟨(unwatched_undefined taken).trans defined, .inl (early.unwatched other taken)⟩
    next =>
      rw [if_neg (by simp [watched.through])] at taken
      have moved := watched.move only taken
      obtain ⟨next, -, rfl⟩ := Option.map_eq_some_iff.mp taken
      exact ⟨defined, .inr moved⟩

section Runs

variable {file : Bytes} {before : List Turn}

theorem tracked_run (reached : run (Process.step readBufferSize) (start file) before = some p)
    (constructed : Along (Process.step readBufferSize) Constructed (start file) before)
    (only : Along (Process.step readBufferSize) SoleWriter (start file) before) : Tracked p := by
  have each (turn : Turn) (p p' : Process) (both : Constructed turn p ∧ SoleWriter turn p)
      (taken : Process.step readBufferSize turn p = some p') (tracked : Tracked p) : Tracked p' :=
    tracked.step both.1 both.2 taken
  exact run_along each (constructed.and only) reached (start_tracked file)

theorem step_through {turn : Turn} (through : p.uninitialized = []) (defined : p.undefined = false) :
    Process.step readBufferSize turn p =
      match turn with
      | .construct => none
      | .take choice => p.move readBufferSize choice := by
  cases turn with
  | construct => simp [Process.step, through]
  | take choice => simp [Process.step, through, defined]

theorem run_through {turns : List Turn} (through : p.uninitialized = []) (defined : p.undefined = false)
    (reached : run (Process.step readBufferSize) p turns = some p') :
    ∃ choices, turns = choices.map .take ∧ run (step readBufferSize) p.monitor choices = some p'.monitor ∧
      p'.uninitialized = [] ∧ p'.undefined = false ∧
      (Along (Process.step readBufferSize) SoleWriter p turns →
        Along (step readBufferSize) OnlyWriter p.monitor choices) := by
  induction turns generalizing p with
  | nil =>
    obtain rfl := Option.some.inj reached
    exact ⟨[], rfl, rfl, through, defined, fun _ => trivial⟩
  | cons turn turns ih =>
    obtain ⟨between, taken, rest⟩ := Option.bind_eq_some_iff.mp reached
    have same := taken
    rw [step_through through defined] at same
    cases turn with
    | construct => cases same
    | take choice =>
      obtain ⟨next, stepped, rfl⟩ := Option.map_eq_some_iff.mp same
      obtain ⟨choices, rfl, onwards, ended, kept, only⟩ := @ih { p with monitor := next } through defined rest
      refine ⟨choice :: choices, rfl, Option.bind_eq_some_iff.mpr ⟨next, stepped, onwards⟩, ended, kept,
        fun along => ?_⟩
      refine ⟨along.1, fun other stepped' => ?_⟩
      obtain rfl := Option.some.inj (stepped.symm.trans stepped')
      exact only (along.2 _ taken)

theorem stop_delivers (readBufferSize : Nat) (file : Bytes) (before after : List Turn) (p p' : Process)
    (reached : run (Process.step readBufferSize) (start file) before = some p)
    (constructed : Along (Process.step readBufferSize) Constructed (start file) before)
    (only : Along (Process.step readBufferSize) SoleWriter (start file) before)
    (running : p.monitor.stopRequested = false) (settled : p.monitor.unnotified = 0)
    (rest : run (Process.step readBufferSize) p (.take .requestStop :: after) = some p')
    (ended : p'.monitor.location = .ended false) :
    p'.monitor.delivered <+: p'.monitor.file ∧
      (p.monitor.file ≠ p.initial → p.monitor.file <+: p'.monitor.delivered) := by
  obtain ⟨defined, phase⟩ := tracked_run reached constructed only
  rcases phase with early | watched
  next =>
    obtain ⟨members, missing⟩ := early.waiting
    simp [run, Process.step, defined, missing] at rest
  next =>
    obtain ⟨choices, same, onwards, -⟩ := run_through watched.through defined rest
    cases choices with
    | nil => cases same
    | cons choice choices =>
      obtain ⟨rfl, -⟩ : choice = .requestStop ∧ choices.map Turn.take = after := by simpa [eq_comm] using same
      refine delivered_of_stop watched.monitored (fun written past => ?_) running settled onwards ended
      cases closed : p.closedUnwatched with
      | false => exact ((watched.sole closed).left past running).2
      | true => exact absurd (watched.silent closed).2 written

def Turn.isThread : Turn → Bool
  | .construct => false
  | .take choice => choice.isThread

def Turn.succeeds : Turn → Bool
  | .construct => false
  | .take choice => choice.succeeds

theorem close_ends (readBufferSize : Nat) (positive : 0 < readBufferSize) (file : Bytes) (before after : List Turn)
    (p p' : Process) (reached : run (Process.step readBufferSize) (start file) before = some p)
    (constructed : Along (Process.step readBufferSize) Constructed (start file) before)
    (only : Along (Process.step readBufferSize) SoleWriter (start file) before)
    (running : p.monitor.stopRequested = false) (closed : p.monitor.closed = true) (watched : p.closedUnwatched = false)
    (rest : run (Process.step readBufferSize) p after = some p')
    (only' : Along (Process.step readBufferSize) SoleWriter p after) :
    after.countP Turn.isThread ≤ p.monitor.unread + 7 ∧
      ((∀ turn : Turn, turn.succeeds → Process.step readBufferSize turn p' = none) →
        ∃ failed, p'.monitor.location = .ended failed) ∧
      (p'.monitor.location = .ended false → p'.monitor.delivered = p'.monitor.file) := by
  obtain ⟨defined, phase⟩ := tracked_run reached constructed only
  rcases phase with early | watching
  next =>
    obtain ⟨location, monitor, -⟩ := early.idle
    rw [monitor] at closed
    cases watched.symm.trans closed
  next =>
    obtain ⟨choices, rfl, onwards, through, kept, writer⟩ := run_through watching.through defined rest
    obtain ⟨few, ends, whole⟩ :=
      ends_of_close positive watching.monitored (watching.sole watched) running closed onwards
      (writer only')
    refine ⟨?_, fun stuck => ends fun choice succeeds => ?_, whole⟩
    next =>
      rw [List.countP_map]
      exact few
    next =>
      have none := stuck (.take choice) succeeds
      rw [step_through through kept] at none
      exact Option.map_eq_none_iff.mp none

end Runs

section Samples

def constructing : List Turn := List.replicate 5 .construct

theorem stop_delivers_letter :
    ∃ p p', run (Process.step 4096) (start []) ([.take (.append [97])] ++ constructing ++
        [.take (.append [98]), .take .notify]) = some p ∧
      run (Process.step 4096) p
        (.take .requestStop :: ([Choice.poll .ready, .readInotifyEvents true, .read (some 2), .read (some 0)] ++
        (List.replicate 4 [Choice.poll .timedOut, .timedOut]).flatten).map .take) = some p' ∧
      p'.monitor.delivered <+: p'.monitor.file ∧
      (p.monitor.file ≠ p.initial → p.monitor.file <+: p'.monitor.delivered) :=
  ⟨_, _, rfl, rfl, stop_delivers 4096 []
    ([.take (.append [97])] ++ constructing ++ [.take (.append [98]), .take .notify])
    (([Choice.poll .ready, .readInotifyEvents true, .read (some 2), .read (some 0)] ++
      (List.replicate 4 [Choice.poll .timedOut, .timedOut]).flatten).map .take) _ _ rfl (by decide)
        (by decide) rfl rfl rfl rfl⟩

theorem close_ends_letter :
    ∃ p p', run (Process.step 4096) (start [])
      (constructing ++ [.take (.append [97]), .take .notify, .take .close]) = some p ∧
      run (Process.step 4096) p
        ([Choice.poll .ready, .readInotifyEvents true, .read (some 1), .read (some 0)].map .take) = some p' ∧
      4 ≤ p.monitor.unread + 7 ∧ p'.monitor.delivered = p'.monitor.file := by
  have ends := close_ends 4096 (by decide) [] (constructing ++ [.take (.append [97]), .take .notify, .take .close])
    ([Choice.poll .ready, .readInotifyEvents true, .read (some 1), .read (some 0)].map .take) _ _ rfl (by decide)
      (by decide) rfl
    rfl rfl rfl (by decide)
  exact ⟨_, _, rfl, rfl, ends.1, ends.2.2 rfl⟩

end Samples

end BuildboxCommon.InotifyFileMonitor
