import BuildboxCommon.Shared.Bytes
import BuildboxCommon.Shared.Transitions

set_option autoImplicit false

namespace BuildboxCommon.InotifyFileMonitor

open ByteString Transitions

inductive Event where
  | modify
  | closeWrite
deriving DecidableEq

def sizeofInotifyEvent : Nat := 16
def nameMax : Nat := 255
def inotifyEventMaxSize : Nat := sizeofInotifyEvent + nameMax + 1
def inotifyMaxNumberOfEvents : Nat := 2
def inotifyBufferSize : Nat := inotifyMaxNumberOfEvents * inotifyEventMaxSize

def maxRetries : Nat := 3

inductive Location where
  | polling (i : Nat)
  | timedOut
  | readingInotifyEvents
  | reading (fileClosed : Bool)
  | ended (failed : Bool)
deriving DecidableEq

structure State where
  file : Bytes
  unnotified : Nat
  closed : Bool
  events : List Event
  position : Nat
  delivered : Bytes
  stopRequested : Bool
  timeoutCyclesAfterStop : Nat
  location : Location
deriving DecidableEq

inductive Poll where
  | failed
  | timedOut
  | ready
  | invalid
deriving DecidableEq

inductive Choice where
  | append (data : Bytes)
  | notify
  | close
  | requestStop
  | poll (outcome : Poll)
  | timedOut
  | readInotifyEvents (succeeds : Bool)
  | read (bytesRead : Option Nat)
deriving DecidableEq

def create (file : Bytes) : State := ⟨file, 0, false, [], 0, [], false, 3, .polling 0⟩

def enqueue (events : List Event) (event : Event) : List Event :=
  if events.getLast? = some event then events else events ++ [event]

def bufferedEvents : Nat := inotifyBufferSize / sizeofInotifyEvent

-- Of what is in the buffer the thread looks at the first two events.
def fileClosed (events : List Event) : Bool := (events.take 2).contains .closeWrite

namespace State

def unread (s : State) : Nat := s.file.length - s.position

def waitForInotify (s : State) (i : Nat) : Poll → Option State
  | .failed => some { s with location := .ended true }
  | .timedOut => if s.events = [] then some { s with location := .timedOut } else none
  | .ready => if s.events ≠ [] then some { s with location := .readingInotifyEvents } else none
  | .invalid => some { s with location := if i + 1 < maxRetries then .polling (i + 1) else .ended true }

def cycle (s : State) : State :=
  if s.timeoutCyclesAfterStop = 0 then { s with location := .ended false }
  else { s with
    timeoutCyclesAfterStop := if s.stopRequested then s.timeoutCyclesAfterStop - 1 else s.timeoutCyclesAfterStop
    location := .polling 0 }

-- A read stops short at will, but returns nothing only at the end of the file.
def readFileAndStream (s : State) (readBufferSize : Nat) (fileClosed : Bool) : Option Nat → Option State
  | none => some { s with location := .ended true }
  | some 0 =>
    if s.unread = 0 then some { s with location := if fileClosed then .ended false else .polling 0 } else none
  | some bytesRead =>
    if bytesRead ≤ min s.unread readBufferSize then some
      { s with
        position := s.position + bytesRead
        delivered := s.delivered ++ (s.file.drop s.position).take bytesRead }
    else none

end State

def step (readBufferSize : Nat) (choice : Choice) (s : State) : Option State :=
  match choice with
  | .append data => if data = [] then none else some { s with file := s.file ++ data, unnotified := s.unnotified + 1 }
  | .notify =>
    if s.unnotified = 0 then none
    else some { s with unnotified := s.unnotified - 1, events := enqueue s.events .modify }
  | .close => some { s with closed := true, events := enqueue s.events .closeWrite }
  | .requestStop => some { s with stopRequested := true }
  | .poll outcome =>
    match s.location with
    | .polling i => s.waitForInotify i outcome
    | _ => none
  | .timedOut =>
    match s.location with
    | .timedOut => some s.cycle
    | _ => none
  | .readInotifyEvents succeeds =>
    match s.location with
    | .readingInotifyEvents =>
      if succeeds then some
        { s with
          events := s.events.drop bufferedEvents
          location := .reading (fileClosed (s.events.take bufferedEvents)) }
      else some { s with location := .ended true }
    | _ => none
  | .read bytesRead =>
    match s.location with
    | .reading fileClosed => s.readFileAndStream readBufferSize fileClosed bytesRead
    | _ => none

def State.Waits (s : State) : Prop :=
  match s.location with
  | .polling _ | .timedOut => True
  | .readingInotifyEvents | .reading _ | .ended _ => False

structure Monitored (initial : Bytes) (s : State) : Prop where
  grown : initial <+: s.file
  within : s.position ≤ s.file.length
  content : s.delivered = s.file.take s.position
  -- What was written since the watch was added is not left without an event.
  noticed : s.Waits → s.unnotified = 0 → s.events = [] → s.file ≠ initial → s.unread = 0
  ready : s.location = .readingInotifyEvents → s.events ≠ []
  cycles : s.stopRequested = false → s.timeoutCyclesAfterStop = 3

theorem create_monitored (file : Bytes) : Monitored file (create file) where
  grown := List.prefix_rfl
  within := Nat.zero_le _
  content := rfl
  noticed := fun _ _ _ other => absurd rfl other
  ready := fun never => by cases never
  cycles := fun _ => rfl

variable {readBufferSize : Nat} {choice : Choice} {initial : Bytes} {s s' : State}

theorem enqueue_ne_nil (events : List Event) (event : Event) : enqueue events event ≠ [] := by
  unfold enqueue
  split
  next same =>
    intro none
    rw [none] at same
    cases same
  next => simp

namespace Monitored

variable (monitored : Monitored initial s)

include monitored

theorem append (data : Bytes) :
    Monitored initial { s with file := s.file ++ data, unnotified := s.unnotified + 1 } := by
  have within := monitored.within
  refine { monitored with
    grown := monitored.grown.trans (List.prefix_append _ _)
    within := ?_
    content := ?_
    noticed := fun _ settled => by cases settled }
  next =>
    rw [List.length_append]
    exact within.trans (Nat.le_add_right _ _)
  next => rw [List.take_append_of_le_length within, monitored.content]

theorem move {location : Location}
    (noticed : State.Waits { s with location := location } → s.unnotified = 0 → s.events = [] → s.file ≠ initial →
      s.unread = 0)
    (ready : location = .readingInotifyEvents → s.events ≠ []) : Monitored initial { s with location := location } :=
  ⟨monitored.grown, monitored.within, monitored.content, noticed, ready, monitored.cycles⟩

theorem poll {i : Nat} {outcome : Poll} (location : s.location = .polling i)
    (taken : s.waitForInotify i outcome = some s') :
    Monitored initial s' := by
  have waits : s.Waits := by rw [State.Waits, location]; trivial
  cases outcome with
  | failed =>
    obtain rfl := Option.some.inj taken
    exact monitored.move (fun never => never.elim) fun never => by cases never
  | timedOut =>
    simp only [State.waitForInotify, Option.ite_none_right_eq_some, Option.some.injEq] at taken
    obtain ⟨-, rfl⟩ := taken
    exact monitored.move (fun _ => monitored.noticed waits) fun never => by cases never
  | ready =>
    simp only [State.waitForInotify, Option.ite_none_right_eq_some, Option.some.injEq] at taken
    obtain ⟨some, rfl⟩ := taken
    exact monitored.move (fun never => never.elim) fun _ => some
  | invalid =>
    obtain rfl := Option.some.inj taken
    split
    next => exact monitored.move (fun _ => monitored.noticed waits) fun never => by cases never
    next => exact monitored.move (fun never => never.elim) fun never => by cases never

theorem cycle (location : s.location = .timedOut) : Monitored initial s.cycle := by
  have waits : s.Waits := by rw [State.Waits, location]; trivial
  unfold State.cycle
  split
  next => exact monitored.move (fun never => never.elim) fun never => by cases never
  next =>
    refine { monitored with
      noticed := fun _ => monitored.noticed waits
      ready := fun never => by cases never
      cycles := fun running => ?_ }
    have running : s.stopRequested = false := running
    rw [running, if_neg Bool.false_ne_true]
    exact monitored.cycles running

theorem read {fileClosed : Bool} {bytesRead : Option Nat} (location : s.location = .reading fileClosed)
    (taken : s.readFileAndStream readBufferSize fileClosed bytesRead = some s') : Monitored initial s' := by
  have reading : ¬s.Waits := by rw [State.Waits, location]; exact id
  cases bytesRead with
  | none =>
    obtain rfl := Option.some.inj taken
    exact monitored.move (fun never => never.elim) fun never => by cases never
  | some bytesRead =>
    cases bytesRead with
    | zero =>
      simp only [State.readFileAndStream, Option.ite_none_right_eq_some, Option.some.injEq] at taken
      obtain ⟨all, rfl⟩ := taken
      split
      next => exact monitored.move (fun never => never.elim) fun never => by cases never
      next => exact monitored.move (fun _ _ _ _ => all) fun never => by cases never
    | succ bytesRead =>
      simp only [State.readFileAndStream, Option.ite_none_right_eq_some, Option.some.injEq] at taken
      obtain ⟨few, rfl⟩ := taken
      have within := monitored.within
      refine { monitored with
        within := ?_
        content := ?_
        noticed := fun waits => absurd waits reading }
      next =>
        simp only [State.unread] at few ⊢
        omega
      next => exact (congrArg (· ++ _) monitored.content).trans List.take_add.symm

theorem step (taken : InotifyFileMonitor.step readBufferSize choice s = some s') : Monitored initial s' := by
  cases choice with
  | append data =>
    simp only [InotifyFileMonitor.step, Option.ite_none_left_eq_some, Option.some.injEq] at taken
    obtain ⟨-, rfl⟩ := taken
    exact monitored.append data
  | notify =>
    simp only [InotifyFileMonitor.step, Option.ite_none_left_eq_some, Option.some.injEq] at taken
    obtain ⟨-, rfl⟩ := taken
    exact { monitored with
      noticed := fun _ _ none => absurd none (enqueue_ne_nil _ _)
      ready := fun _ => enqueue_ne_nil _ _ }
  | close =>
    obtain rfl := Option.some.inj taken
    exact { monitored with
      noticed := fun _ _ none => absurd none (enqueue_ne_nil _ _)
      ready := fun _ => enqueue_ne_nil _ _ }
  | requestStop =>
    obtain rfl := Option.some.inj taken
    exact { monitored with cycles := fun never => by cases never }
  | poll outcome =>
    simp only [InotifyFileMonitor.step] at taken
    split at taken
    next i location => exact monitored.poll location taken
    next => cases taken
  | timedOut =>
    simp only [InotifyFileMonitor.step] at taken
    split at taken
    next location =>
      obtain rfl := Option.some.inj taken
      exact monitored.cycle location
    next => cases taken
  | readInotifyEvents succeeds =>
    simp only [InotifyFileMonitor.step] at taken
    split at taken
    next location =>
      split at taken
      next =>
        obtain rfl := Option.some.inj taken
        exact { monitored with
          noticed := fun never => never.elim
          ready := fun never => by cases never }
      next =>
        obtain rfl := Option.some.inj taken
        exact monitored.move (fun never => never.elim) fun never => by cases never
    next => cases taken
  | read bytesRead =>
    simp only [InotifyFileMonitor.step] at taken
    split at taken
    next fileClosed location => exact monitored.read location taken
    next => cases taken

end Monitored

end BuildboxCommon.InotifyFileMonitor
