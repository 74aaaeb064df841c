import BuildboxCommon.StandardOutput.InotifyFileMonitor

set_option autoImplicit false

namespace BuildboxCommon.InotifyFileMonitor

open ByteString Transitions

def OnlyWriter (choice : Choice) (s : State) : Prop :=
  match choice with
  | .append _ => s.closed = false
  | .close => s.closed = false ∧ s.unnotified = 0
  | .notify | .requestStop | .poll _ | .timedOut | .readInotifyEvents _ | .read _ => True

instance decidableOnlyWriter : (choice : Choice) → (s : State) → Decidable (OnlyWriter choice s)
  | .append _, s => inferInstanceAs (Decidable (s.closed = false))
  | .close, s => inferInstanceAs (Decidable (s.closed = false ∧ s.unnotified = 0))
  | .notify, _ | .requestStop, _ | .poll _, _ | .timedOut, _ | .readInotifyEvents _, _ | .read _, _ => .isTrue trivial

structure Sole (s : State) : Prop where
  settled : s.closed = true → s.unnotified = 0
  queue : s.events.Sublist [.modify, .closeWrite]
  unclosed : s.closed = false → .closeWrite ∉ s.events
  -- The event of the close is in the queue until the thread has seen it.
  closing : s.closed = true → s.location = .readingInotifyEvents ∨ s.location = .reading false ∨ s.Waits →
    .closeWrite ∈ s.events
  seen : s.location = .reading true → s.closed = true
  left : s.location = .ended false → s.stopRequested = false → s.closed = true ∧ s.unread = 0

theorem create_sole (file : Bytes) : Sole (create file) where
  settled := fun never => by cases never
  queue := List.nil_sublist _
  unclosed := fun _ => List.not_mem_nil
  closing := fun never => by cases never
  seen := fun never => by cases never
  left := fun never => by cases never

variable {readBufferSize : Nat} {choice : Choice} {initial : Bytes} {s s' : State}

theorem enqueue_modify {events : List Event} (few : events.Sublist [.modify, .closeWrite])
    (unclosed : .closeWrite ∉ events) :
    enqueue events .modify = [.modify] := by
  cases few with
  | cons _ rest =>
    cases rest with
    | cons _ none => rw [List.sublist_nil.mp none]; rfl
    | cons_cons _ none => exact absurd List.mem_cons_self unclosed
  | cons_cons _ rest =>
    cases rest with
    | cons _ none => rw [List.sublist_nil.mp none]; rfl
    | cons_cons _ none => exact absurd (List.mem_cons_of_mem _ List.mem_cons_self) unclosed

theorem enqueue_closeWrite {events : List Event} (few : events.Sublist [.modify, .closeWrite]) :
    (enqueue events .closeWrite).Sublist [.modify, .closeWrite] ∧ .closeWrite ∈ enqueue events .closeWrite := by
  cases few with
  | cons _ rest =>
    cases rest with
    | cons _ none => rw [List.sublist_nil.mp none]; decide
    | cons_cons _ none => rw [List.sublist_nil.mp none]; decide
  | cons_cons _ rest =>
    cases rest with
    | cons _ none => rw [List.sublist_nil.mp none]; decide
    | cons_cons _ none => rw [List.sublist_nil.mp none]; decide

theorem step_writer (taken : step readBufferSize choice s = some s') :
    (∃ data, choice = .append data ∧ s'.file = s.file ++ data ∧ s'.closed = s.closed) ∨
      s'.file = s.file ∧ s'.closed = (s.closed || choice = .close) := by
  cases choice with
  | append data =>
    simp only [step, Option.ite_none_left_eq_some, Option.some.injEq] at taken
    exact .inl ⟨data, rfl, taken.2 ▸ rfl, taken.2 ▸ rfl⟩
  | notify =>
    simp only [step, Option.ite_none_left_eq_some, Option.some.injEq] at taken
    exact .inr ⟨taken.2 ▸ rfl, by simp [← taken.2]⟩
  | close => exact .inr ⟨Option.some.inj taken ▸ rfl, by simp [← Option.some.inj taken]⟩
  | requestStop => exact .inr ⟨Option.some.inj taken ▸ rfl, by simp [← Option.some.inj taken]⟩
  | poll outcome =>
    simp only [step] at taken
    split at taken
    next =>
      cases outcome <;> simp only [State.waitForInotify, Option.ite_none_right_eq_some, Option.some.injEq] at taken
      next => exact .inr ⟨taken ▸ rfl, by simp [← taken]⟩
      next => exact .inr ⟨taken.2 ▸ rfl, by simp [← taken.2]⟩
      next => exact .inr ⟨taken.2 ▸ rfl, by simp [← taken.2]⟩
      next => exact .inr ⟨taken ▸ rfl, by simp [← taken]⟩
    next => cases taken
  | timedOut =>
    simp only [step, State.cycle] at taken
    split at taken
    next =>
      have same := Option.some.inj taken
      split at same <;> exact .inr ⟨same ▸ rfl, by simp [← same]⟩
    next => cases taken
  | readInotifyEvents succeeds =>
    simp only [step] at taken
    split at taken
    next => split at taken <;> exact .inr ⟨Option.some.inj taken ▸ rfl, by simp [← Option.some.inj taken]⟩
    next => cases taken
  | read bytesRead =>
    simp only [step] at taken
    split at taken
    next =>
      unfold State.readFileAndStream at taken
      split at taken
      next => exact .inr ⟨Option.some.inj taken ▸ rfl, by simp [← Option.some.inj taken]⟩
      next =>
        split at taken
        next => exact .inr ⟨Option.some.inj taken ▸ rfl, by simp [← Option.some.inj taken]⟩
        next => cases taken
      next =>
        split at taken
        next => exact .inr ⟨Option.some.inj taken ▸ rfl, by simp [← Option.some.inj taken]⟩
        next => cases taken
    next => cases taken

theorem file_grows (taken : step readBufferSize choice s = some s') : s.file <+: s'.file := by
  rcases step_writer taken with ⟨data, -, more, -⟩ | ⟨same, -⟩
  next => exact more ▸ List.prefix_append _ _
  next => exact same ▸ List.prefix_rfl

namespace Sole

variable (sole : Sole s)

include sole

theorem take_events : s.events.take bufferedEvents = s.events ∧ s.events.drop bufferedEvents = [] ∧
    fileClosed s.events = decide (.closeWrite ∈ s.events) := by
  have short : s.events.length ≤ 2 := sole.queue.length_le
  refine ⟨List.take_of_length_le (short.trans (by decide)), List.drop_of_length_le (short.trans (by decide)), ?_⟩
  rw [fileClosed, List.take_of_length_le short, List.contains_eq_mem]

theorem failed : Sole { s with location := .ended true } :=
  { sole with
    closing := fun _ never => by rcases never with never | never | never <;> cases never
    seen := fun never => by cases never
    left := fun never => by cases never }

theorem goesOn {location : Location} (unseen : location ≠ .reading true) (running : location ≠ .ended false)
    (closing : s.closed = true → .closeWrite ∈ s.events) : Sole { s with location := location } :=
  { sole with
    closing := fun closed _ => closing closed
    seen := fun never => absurd never unseen
    left := fun never => absurd never running }

theorem poll {i : Nat} {outcome : Poll} (location : s.location = .polling i)
    (taken : s.waitForInotify i outcome = some s') :
    Sole s' := by
  have closing := fun closed => sole.closing closed (.inr (.inr (by rw [State.Waits, location]; trivial)))
  cases outcome with
  | failed =>
    obtain rfl := Option.some.inj taken
    exact sole.failed
  | timedOut =>
    simp only [State.waitForInotify, Option.ite_none_right_eq_some, Option.some.injEq] at taken
    obtain ⟨-, rfl⟩ := taken
    exact sole.goesOn (by simp) (by simp) closing
  | ready =>
    simp only [State.waitForInotify, Option.ite_none_right_eq_some, Option.some.injEq] at taken
    obtain ⟨-, rfl⟩ := taken
    exact sole.goesOn (by simp) (by simp) closing
  | invalid =>
    obtain rfl := Option.some.inj taken
    split
    next => exact sole.goesOn (by simp) (by simp) closing
    next => exact sole.failed

theorem cycle (location : s.location = .timedOut) (cycles : s.stopRequested = false → s.timeoutCyclesAfterStop = 3) :
    Sole s.cycle := by
  have closing := fun closed => sole.closing closed (.inr (.inr (by rw [State.Waits, location]; trivial)))
  unfold State.cycle
  split
  next past =>
    exact { sole with
      closing := fun _ never => by rcases never with never | never | never <;> cases never
      seen := fun never => by cases never
      left := fun _ running => by cases past.symm.trans (cycles running) }
  next =>
    exact { sole with
      closing := fun closed _ => closing closed
      seen := fun never => by cases never
      left := fun never => by cases never }

theorem readInotifyEvents (location : s.location = .readingInotifyEvents) :
    Sole { s with
      events := s.events.drop bufferedEvents
      location := .reading (fileClosed (s.events.take bufferedEvents)) } := by
  obtain ⟨taken, dropped, noticed⟩ := sole.take_events
  rw [taken, dropped, noticed]
  refine { sole with
    queue := List.nil_sublist _
    unclosed := fun _ => List.not_mem_nil
    closing := fun closed goesOn => ?_
    seen := fun seen => ?_
    left := fun never => by cases never }
  next =>
    have event := sole.closing closed (.inl location)
    simp [event, State.Waits] at goesOn
  next =>
    by_contra unclosed
    have none := sole.unclosed (Bool.not_eq_true _ ▸ unclosed)
    simp [none] at seen

theorem read {fileClosed : Bool} {bytesRead : Option Nat} (location : s.location = .reading fileClosed)
    (taken : s.readFileAndStream readBufferSize fileClosed bytesRead = some s') : Sole s' := by
  cases bytesRead with
  | none =>
    obtain rfl := Option.some.inj taken
    exact sole.failed
  | some bytesRead =>
    cases bytesRead with
    | zero =>
      simp only [State.readFileAndStream, Option.ite_none_right_eq_some, Option.some.injEq] at taken
      obtain ⟨all, rfl⟩ := taken
      cases fileClosed with
      | false => exact sole.goesOn (by simp) (by simp) fun closed => sole.closing closed (.inr (.inl location))
      | true =>
        exact { sole with
          closing := fun _ never => by rcases never with never | never | never <;> cases never
          seen := fun never => by cases never
          left := fun _ _ => ⟨sole.seen location, all⟩ }
    | succ bytesRead =>
      simp only [State.readFileAndStream, Option.ite_none_right_eq_some, Option.some.injEq] at taken
      obtain ⟨-, rfl⟩ := taken
      exact { sole with left := fun never => by cases location.symm.trans never }

theorem step (only : OnlyWriter choice s) (cycles : s.stopRequested = false → s.timeoutCyclesAfterStop = 3)
    (taken : InotifyFileMonitor.step readBufferSize choice s = some s') : Sole s' := by
  cases choice with
  | append data =>
    simp only [InotifyFileMonitor.step, Option.ite_none_left_eq_some, Option.some.injEq] at taken
    obtain ⟨-, rfl⟩ := taken
    have unclosed : s.closed = false := only
    exact { sole with
      settled := fun closed => by cases unclosed.symm.trans closed
      left := fun ended running => by cases unclosed.symm.trans (sole.left ended running).1 }
  | notify =>
    simp only [InotifyFileMonitor.step, Option.ite_none_left_eq_some, Option.some.injEq] at taken
    obtain ⟨some, rfl⟩ := taken
    have unclosed : s.closed = false := by
      by_contra closed
      exact some (sole.settled (Bool.not_eq_false _ ▸ closed))
    rw [enqueue_modify sole.queue (sole.unclosed unclosed)]
    exact { sole with
      settled := fun closed => by cases unclosed.symm.trans closed
      queue := (List.singleton_sublist.mpr List.mem_cons_self)
      unclosed := fun _ => by simp
      closing := fun closed => by cases unclosed.symm.trans closed }
  | close =>
    obtain rfl := Option.some.inj taken
    obtain ⟨unclosed, settled⟩ := only
    obtain ⟨few, listed⟩ := enqueue_closeWrite sole.queue
    exact {
      settled := fun _ => settled
      queue := few
      unclosed := fun never => by cases never
      closing := fun _ _ => listed
      seen := fun _ => rfl
      left := fun ended running => by cases unclosed.symm.trans (sole.left ended running).1 }
  | requestStop =>
    obtain rfl := Option.some.inj taken
    exact { sole with left := fun _ never => by cases never }
  | poll outcome =>
    simp only [InotifyFileMonitor.step] at taken
    split at taken
    next i location => exact sole.poll location taken
    next => cases taken
  | timedOut =>
    simp only [InotifyFileMonitor.step] at taken
    split at taken
    next location =>
      obtain rfl := Option.some.inj taken
      exact sole.cycle location cycles
    next => cases taken
  | readInotifyEvents succeeds =>
    simp only [InotifyFileMonitor.step] at taken
    split at taken
    next location =>
      split at taken
      next =>
        obtain rfl := Option.some.inj taken
        exact sole.readInotifyEvents location
      next =>
        obtain rfl := Option.some.inj taken
        exact sole.failed
    next => cases taken
  | read bytesRead =>
    simp only [InotifyFileMonitor.step] at taken
    split at taken
    next fileClosed location => exact sole.read location taken
    next => cases taken

end Sole

structure Stopping (mark : Nat) (s : State) : Prop where
  stopped : s.stopRequested = true
  written : mark ≤ s.file.length
  within : s.position ≤ s.file.length
  noticed : s.Waits → s.position < mark → s.events ≠ []
  cycled : s.location = .timedOut → s.timeoutCyclesAfterStop < 3 → mark ≤ s.position
  ended : s.location = .ended false → mark ≤ s.position

namespace Stopping

variable {mark : Nat} (stopping : Stopping mark s)

include stopping

theorem goesOn {location : Location} (waits : State.Waits { s with location := location } → s.Waits)
    (early : location ≠ .timedOut)
    (running : location ≠ .ended false) : Stopping mark { s with location := location } :=
  { stopping with
    noticed := fun now => stopping.noticed (waits now)
    cycled := fun never => absurd never early
    ended := fun never => absurd never running }

theorem poll {i : Nat} {outcome : Poll} (location : s.location = .polling i)
    (taken : s.waitForInotify i outcome = some s') :
    Stopping mark s' := by
  have waits : s.Waits := by rw [State.Waits, location]; trivial
  cases outcome with
  | failed =>
    obtain rfl := Option.some.inj taken
    exact stopping.goesOn (fun never => never.elim) (by simp) (by simp)
  | timedOut =>
    simp only [State.waitForInotify, Option.ite_none_right_eq_some, Option.some.injEq] at taken
    obtain ⟨none, rfl⟩ := taken
    exact { stopping with
      noticed := fun _ => stopping.noticed waits
      cycled := fun _ _ => Nat.le_of_not_lt fun less => stopping.noticed waits less none
      ended := fun never => by cases never }
  | ready =>
    simp only [State.waitForInotify, Option.ite_none_right_eq_some, Option.some.injEq] at taken
    obtain ⟨-, rfl⟩ := taken
    exact stopping.goesOn (fun never => never.elim) (by simp) (by simp)
  | invalid =>
    obtain rfl := Option.some.inj taken
    split
    next => exact stopping.goesOn (fun _ => waits) (by simp) (by simp)
    next => exact stopping.goesOn (fun never => never.elim) (by simp) (by simp)

theorem cycle (location : s.location = .timedOut) : Stopping mark s.cycle := by
  have waits : s.Waits := by rw [State.Waits, location]; trivial
  unfold State.cycle
  split
  next past =>
    exact { stopping with
      noticed := fun never => never.elim
      cycled := fun never => by cases never
      ended := fun _ => stopping.cycled location (by rw [past]; decide) }
  next =>
    exact { stopping with
      noticed := fun _ => stopping.noticed waits
      cycled := fun never => by cases never
      ended := fun never => by cases never }

theorem read {fileClosed : Bool} {bytesRead : Option Nat} (location : s.location = .reading fileClosed)
    (taken : s.readFileAndStream readBufferSize fileClosed bytesRead = some s') : Stopping mark s' := by
  have written := stopping.written
  have within := stopping.within
  cases bytesRead with
  | none =>
    obtain rfl := Option.some.inj taken
    exact stopping.goesOn (fun never => never.elim) (by simp) (by simp)
  | some bytesRead =>
    cases bytesRead with
    | zero =>
      simp only [State.readFileAndStream, Option.ite_none_right_eq_some, Option.some.injEq] at taken
      obtain ⟨all, rfl⟩ := taken
      have whole : mark ≤ s.position := by
        simp only [State.unread] at all
        omega
      exact { stopping with
        noticed := fun _ less => absurd less (Nat.not_lt.mpr whole)
        cycled := fun _ _ => whole
        ended := fun _ => whole }
    | succ bytesRead =>
      simp only [State.readFileAndStream, Option.ite_none_right_eq_some, Option.some.injEq] at taken
      obtain ⟨few, rfl⟩ := taken
      have reading : ¬s.Waits := by rw [State.Waits, location]; exact id
      exact { stopping with
        within := by
          simp only [State.unread] at few ⊢
          omega
        noticed := fun waits => absurd waits reading
        cycled := fun never => by cases location.symm.trans never
        ended := fun never => by cases location.symm.trans never }

theorem step (taken : InotifyFileMonitor.step readBufferSize choice s = some s') : Stopping mark s' := by
  cases choice with
  | append data =>
    simp only [InotifyFileMonitor.step, Option.ite_none_left_eq_some, Option.some.injEq] at taken
    obtain ⟨-, rfl⟩ := taken
    have longer : s.file.length ≤ (s.file ++ data).length := by
      rw [List.length_append]
      exact Nat.le_add_right _ _
    exact { stopping with
      written := stopping.written.trans longer
      within := stopping.within.trans longer }
  | notify =>
    simp only [InotifyFileMonitor.step, Option.ite_none_left_eq_some, Option.some.injEq] at taken
    obtain ⟨-, rfl⟩ := taken
    exact { stopping with noticed := fun _ _ => enqueue_ne_nil _ _ }
  | close =>
    obtain rfl := Option.some.inj taken
    exact { stopping with noticed := fun _ _ => enqueue_ne_nil _ _ }
  | requestStop =>
    obtain rfl := Option.some.inj taken
    exact { stopping with stopped := rfl }
  | poll outcome =>
    simp only [InotifyFileMonitor.step] at taken
    split at taken
    next i location => exact stopping.poll location taken
    next => cases taken
  | timedOut =>
    simp only [InotifyFileMonitor.step] at taken
    split at taken
    next location =>
      obtain rfl := Option.some.inj taken
      exact stopping.cycle location
    next => cases taken
  | readInotifyEvents succeeds =>
    simp only [InotifyFileMonitor.step] at taken
    split at taken
    next location =>
      split at taken
      next =>
        obtain rfl := Option.some.inj taken
        exact { stopping with
          noticed := fun never => never.elim
          cycled := fun never => by cases never
          ended := fun never => by cases never }
      next =>
        obtain rfl := Option.some.inj taken
        exact stopping.goesOn (fun never => never.elim) (by simp) (by simp)
    next => cases taken
  | read bytesRead =>
    simp only [InotifyFileMonitor.step] at taken
    split at taken
    next fileClosed location => exact stopping.read location taken
    next => cases taken

end Stopping

def Choice.isThread : Choice → Bool
  | .poll _ | .timedOut | .readInotifyEvents _ | .read _ => true
  | .append _ | .notify | .close | .requestStop => false

def Choice.succeeds : Choice → Bool
  | .poll .ready | .poll .timedOut | .timedOut | .readInotifyEvents true | .read (some _) => true
  | .poll .failed | .poll .invalid | .readInotifyEvents false | .read none | .append _ | .notify | .close |
    .requestStop => false

def Location.remaining : Location → Nat
  | .ended _ => 0
  | .reading true => 1
  | .readingInotifyEvents => 2
  | .polling i => 3 + (maxRetries - i)
  | .timedOut | .reading false => 7

def State.remaining (s : State) : Nat := s.unread + s.location.remaining

structure Closing (s : State) : Prop where
  sole : Sole s
  closed : s.closed = true
  cycles : s.location = .timedOut → s.timeoutCyclesAfterStop = 3
  ended : s.location = .ended false → s.unread = 0

namespace Closing

variable (closing : Closing s)

include closing

theorem poll {i : Nat} {outcome : Poll} (location : s.location = .polling i)
    (taken : s.waitForInotify i outcome = some s') :
    Closing s' ∧ s'.remaining < s.remaining := by
  have sole := closing.sole.poll location taken
  have waits : s.Waits := by rw [State.Waits, location]; trivial
  have event := closing.sole.closing closing.closed (.inr (.inr waits))
  cases outcome with
  | failed =>
    obtain rfl := Option.some.inj taken
    exact ⟨⟨sole, closing.closed, (fun never => by cases never), (fun never => by cases never)⟩,
      by simp only [State.remaining, State.unread, location, Location.remaining]; omega⟩
  | timedOut =>
    simp only [State.waitForInotify, Option.ite_none_right_eq_some] at taken
    rw [taken.1] at event
    cases event
  | ready =>
    simp only [State.waitForInotify, Option.ite_none_right_eq_some, Option.some.injEq] at taken
    obtain ⟨-, rfl⟩ := taken
    exact ⟨⟨sole, closing.closed, (fun never => by cases never), (fun never => by cases never)⟩,
      by simp only [State.remaining, State.unread, location, Location.remaining]; omega⟩
  | invalid =>
    obtain rfl := Option.some.inj taken
    refine ⟨⟨sole, closing.closed, fun never => ?_, fun never => ?_⟩, ?_⟩
    next => split at never <;> cases never
    next => split at never <;> cases never
    next =>
      simp only [State.remaining, State.unread, location]
      split <;> simp only [Location.remaining, maxRetries] at * <;> omega

theorem cycle (location : s.location = .timedOut) (cycles : s.stopRequested = false → s.timeoutCyclesAfterStop = 3) :
    Closing s.cycle ∧ s.cycle.remaining < s.remaining := by
  have sole := closing.sole.cycle location cycles
  have left : s.timeoutCyclesAfterStop ≠ 0 := by rw [closing.cycles location]; decide
  rw [State.cycle, if_neg left] at sole ⊢
  exact ⟨⟨sole, closing.closed, (fun never => by cases never), (fun never => by cases never)⟩,
    by simp [State.remaining, State.unread, location, Location.remaining, maxRetries]⟩

theorem readInotifyEvents (location : s.location = .readingInotifyEvents) :
    Closing { s with
      events := s.events.drop bufferedEvents
      location := .reading (fileClosed (s.events.take bufferedEvents)) } ∧
      State.remaining
        { s with
          events := s.events.drop bufferedEvents
          location := .reading (fileClosed (s.events.take bufferedEvents)) } <
        s.remaining := by
  have sole := closing.sole.readInotifyEvents location
  have event := closing.sole.closing closing.closed (.inl location)
  have seen : fileClosed (s.events.take bufferedEvents) = true := by
    rw [closing.sole.take_events.1, closing.sole.take_events.2.2, decide_eq_true event]
  rw [seen] at sole ⊢
  exact ⟨⟨sole, closing.closed, (fun never => by cases never), (fun never => by cases never)⟩,
    by simp [State.remaining, State.unread, location, Location.remaining]⟩

theorem read {fileClosed : Bool} {bytesRead : Option Nat} (location : s.location = .reading fileClosed)
    (taken : s.readFileAndStream readBufferSize fileClosed bytesRead = some s') :
    Closing s' ∧ s'.remaining < s.remaining := by
  have sole := closing.sole.read location taken
  cases bytesRead with
  | none =>
    obtain rfl := Option.some.inj taken
    refine ⟨⟨sole, closing.closed, (fun never => by cases never), (fun never => by cases never)⟩, ?_⟩
    cases fileClosed <;> simp [State.remaining, State.unread, location, Location.remaining]
  | some bytesRead =>
    cases bytesRead with
    | zero =>
      simp only [State.readFileAndStream, Option.ite_none_right_eq_some, Option.some.injEq] at taken
      obtain ⟨all, rfl⟩ := taken
      refine ⟨⟨sole, closing.closed, fun never => ?_, fun _ => all⟩, ?_⟩
      next => split at never <;> cases never
      next => cases fileClosed <;> simp [State.remaining, State.unread, location, Location.remaining, maxRetries]
    | succ bytesRead =>
      simp only [State.readFileAndStream, Option.ite_none_right_eq_some, Option.some.injEq] at taken
      obtain ⟨few, rfl⟩ := taken
      refine ⟨⟨sole, closing.closed, fun never => ?_, fun never => ?_⟩, ?_⟩
      next => cases location.symm.trans never
      next => cases location.symm.trans never
      next =>
        simp only [State.remaining, State.unread] at few ⊢
        omega

theorem step (only : OnlyWriter choice s) (cycles : s.stopRequested = false → s.timeoutCyclesAfterStop = 3)
    (taken : InotifyFileMonitor.step readBufferSize choice s = some s') :
    Closing s' ∧ (if choice.isThread then 1 else 0) + s'.remaining ≤ s.remaining := by
  cases choice with
  | append data => cases closing.closed.symm.trans only
  | close => cases closing.closed.symm.trans only.1
  | notify =>
    simp only [InotifyFileMonitor.step, Option.ite_none_left_eq_some] at taken
    exact absurd (closing.sole.settled closing.closed) taken.1
  | requestStop =>
    have sole := closing.sole.step only cycles taken
    obtain rfl := Option.some.inj taken
    exact ⟨⟨sole, closing.closed, closing.cycles, closing.ended⟩, (Nat.zero_add _).le⟩
  | poll outcome =>
    simp only [InotifyFileMonitor.step] at taken
    split at taken
    next i location =>
      obtain ⟨after, less⟩ := closing.poll location taken
      exact ⟨after, Nat.one_add _ ▸ less⟩
    next => cases taken
  | timedOut =>
    simp only [InotifyFileMonitor.step] at taken
    split at taken
    next location =>
      obtain rfl := Option.some.inj taken
      obtain ⟨after, less⟩ := closing.cycle location cycles
      exact ⟨after, Nat.one_add _ ▸ less⟩
    next => cases taken
  | readInotifyEvents succeeds =>
    simp only [InotifyFileMonitor.step] at taken
    split at taken
    next location =>
      split at taken
      next =>
        obtain rfl := Option.some.inj taken
        obtain ⟨after, less⟩ := closing.readInotifyEvents location
        exact ⟨after, Nat.one_add _ ▸ less⟩
      next =>
        obtain rfl := Option.some.inj taken
        exact ⟨⟨closing.sole.failed, closing.closed, (fun never => by cases never), (fun never => by cases never)⟩,
          by simp only [Choice.isThread, if_true, State.remaining, State.unread, location, Location.remaining]; omega⟩
    next => cases taken
  | read bytesRead =>
    simp only [InotifyFileMonitor.step] at taken
    split at taken
    next fileClosed location =>
      obtain ⟨after, less⟩ := closing.read location taken
      exact ⟨after, Nat.one_add _ ▸ less⟩
    next => cases taken

theorem run {choices : List Choice} (monitored : Monitored initial s)
    (only : Along (InotifyFileMonitor.step readBufferSize) OnlyWriter s choices)
    (reached : Transitions.run (InotifyFileMonitor.step readBufferSize) s choices = some s') :
    Closing s' ∧ Monitored initial s' ∧ choices.countP Choice.isThread + s'.remaining ≤ s.remaining := by
  induction choices generalizing s with
  | nil =>
    obtain rfl := Option.some.inj reached
    exact ⟨closing, monitored, (Nat.zero_add _).le⟩
  | cons choice choices ih =>
    obtain ⟨between, taken, rest⟩ := Option.bind_eq_some_iff.mp reached
    obtain ⟨next, less⟩ := closing.step only.1 monitored.cycles taken
    obtain ⟨final, later, few⟩ := ih next (monitored.step taken) (only.2 between taken) rest
    refine ⟨final, later, ?_⟩
    rw [List.countP_cons]
    omega

theorem ended_of_stuck (positive : 0 < readBufferSize)
    (stuck : ∀ choice : Choice, choice.succeeds → InotifyFileMonitor.step readBufferSize choice s = none) :
    ∃ failed, s.location = .ended failed := by
  cases location : s.location with
  | polling i =>
    have waits : s.Waits := by rw [State.Waits, location]; trivial
    have some : s.events ≠ [] := List.ne_nil_of_mem (closing.sole.closing closing.closed (.inr (.inr waits)))
    have goes := stuck (.poll .ready) rfl
    simp [InotifyFileMonitor.step, location, State.waitForInotify, some] at goes
  | timedOut =>
    have goes := stuck .timedOut rfl
    simp [InotifyFileMonitor.step, location] at goes
  | readingInotifyEvents =>
    have goes := stuck (.readInotifyEvents true) rfl
    simp [InotifyFileMonitor.step, location] at goes
  | reading fileClosed =>
    have ends := stuck (.read (some 0)) rfl
    have goes := stuck (.read (some 1)) rfl
    simp only [InotifyFileMonitor.step, location, State.readFileAndStream, ite_eq_right_iff, reduceCtorEq,
      imp_false] at ends goes
    omega
  | ended failed => exact ⟨failed, rfl⟩

end Closing

section Ends

variable {choices : List Choice}

theorem delivered_of_stop (monitored : Monitored initial s)
    (left : s.file ≠ initial → s.location = .ended false → s.unread = 0)
    (running : s.stopRequested = false) (settled : s.unnotified = 0)
    (rest : run (step readBufferSize) { s with stopRequested := true } choices = some s')
      (ended : s'.location = .ended false) :
    s'.delivered <+: s'.file ∧ (s.file ≠ initial → s.file <+: s'.delivered) := by
  have later : Monitored initial s' := run_invariant (fun _ _ _ taken monitored => monitored.step taken) rest
    { monitored with cycles := fun never => by cases never }
  refine ⟨by rw [later.content]; exact List.take_prefix _ _, fun written => ?_⟩
  have unread (waits : s.Waits) (less : s.position < s.file.length) : s.events ≠ [] := by
    intro none
    have all := monitored.noticed waits settled none written
    simp only [State.unread] at all
    omega
  have start : Stopping s.file.length { s with stopRequested := true } :=
    { stopped := rfl
      written := le_rfl
      within := monitored.within
      noticed := unread
      cycled := fun _ less => by
        have cycles := monitored.cycles running
        exact absurd (cycles ▸ less : 3 < 3) (lt_irrefl 3)
      ended := fun past => Nat.le_of_sub_eq_zero (left written past) }
  have each (choice : Choice) (t t' : State) (taken : step readBufferSize choice t = some t')
      (both : Stopping s.file.length t ∧ s.file <+: t.file) : Stopping s.file.length t' ∧ s.file <+: t'.file :=
    ⟨both.1.step taken, both.2.trans (file_grows taken)⟩
  have both := run_invariant each rest ⟨start, List.prefix_rfl⟩
  rw [later.content, List.prefix_take_iff]
  exact ⟨both.2, both.1.ended ended⟩

theorem ends_of_close (positive : 0 < readBufferSize) (monitored : Monitored initial s) (sole : Sole s)
    (running : s.stopRequested = false) (closed : s.closed = true)
      (rest : run (step readBufferSize) s choices = some s')
    (only : Along (step readBufferSize) OnlyWriter s choices) :
    choices.countP Choice.isThread ≤ s.unread + 7 ∧
      ((∀ choice : Choice, choice.succeeds → step readBufferSize choice s' = none) →
        ∃ failed, s'.location = .ended failed) ∧
      (s'.location = .ended false → s'.delivered = s'.file) := by
  have start : Closing s := ⟨sole, closed, fun _ => monitored.cycles running, fun ended => (sole.left ended running).2⟩
  obtain ⟨closing, later, few⟩ := start.run monitored only rest
  refine ⟨?_, closing.ended_of_stuck positive, fun ended => ?_⟩
  next =>
    have most : s.location.remaining ≤ 7 := by
      cases s.location with
      | reading fileClosed => cases fileClosed <;> decide
      | polling i => exact Nat.add_le_add_left (Nat.sub_le _ _) 3 |>.trans (by decide)
      | _ => simp [Location.remaining]
    simp only [State.remaining] at few
    omega
  next =>
    rw [later.content]
    exact List.take_of_length_le (Nat.le_of_sub_eq_zero (closing.ended ended))

end Ends

end BuildboxCommon.InotifyFileMonitor
