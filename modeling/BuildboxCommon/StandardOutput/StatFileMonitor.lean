import BuildboxCommon.Shared.Bytes
import BuildboxCommon.Shared.Transitions

set_option autoImplicit false

namespace BuildboxCommon.StatFileMonitor

open ByteString Transitions

def minWriteBatchSizeBytes : Nat := 100

inductive Location where
  -- In `waitForInitialFileWrite`: before it looks at the flag, and before it looks at the file.
  | polling
  | statting
  | reading
  | deciding (bytesRead : Nat)
  | delivering (lastWrite : Bool)
  | waiting (bytesRead : Nat)
  | ended
deriving DecidableEq

structure State where
  file : Bytes
  closed : Bool
  position : Nat
  readBuffer : Bytes
  delivered : Bytes
  stopRequested : Bool
  location : Location
deriving DecidableEq

def create (file : Bytes) : State := ⟨file, false, 0, [], [], false, .polling⟩

inductive Choice where
  | append (data : Bytes)
  | close
  | requestStop
  | monitor (bytesRead : Nat)
deriving DecidableEq

namespace State

def unread (s : State) : Nat := s.file.length - s.position

def freeBytes (s : State) (readBufferSize : Nat) : Nat := readBufferSize - s.readBuffer.length - 1

def Reads (s : State) (readBufferSize bytesRead : Nat) : Prop :=
  bytesRead ≤ min s.unread (s.freeBytes readBufferSize) ∧
    (bytesRead = 0 → s.unread = 0 ∨ s.freeBytes readBufferSize = 0)

instance (s : State) (readBufferSize bytesRead : Nat) : Decidable (s.Reads readBufferSize bytesRead) :=
  inferInstanceAs (Decidable (_ ∧ _))

def read (s : State) (bytesRead : Nat) : State :=
  { s with
    position := s.position + bytesRead
    readBuffer := s.readBuffer ++ (s.file.drop s.position).take bytesRead
    location := .deciding bytesRead }

def deliver (s : State) (lastWrite : Bool) : State :=
  { s with
    delivered := s.delivered ++ s.readBuffer
    readBuffer := []
    location := if lastWrite then .ended else .reading }

def advance (s : State) (readBufferSize bytesRead : Nat) : Option State :=
  match s.location with
  | .polling => some { s with location := if s.stopRequested then .ended else .statting }
  | .statting => some { s with location := if s.file ≠ [] then .reading else .polling }
  | .reading => if s.Reads readBufferSize bytesRead then some (s.read bytesRead) else none
  | .deciding bytesRead =>
    let batchLargerThanMin : Bool := minWriteBatchSizeBytes < s.readBuffer.length
    let lastWrite : Bool := 0 < s.readBuffer.length ∧ s.stopRequested
    some { s with location := if batchLargerThanMin || lastWrite then .delivering lastWrite else .waiting bytesRead }
  | .delivering lastWrite => some (s.deliver lastWrite)
  | .waiting bytesRead =>
    some { s with location := if bytesRead = 0 ∧ s.stopRequested then .ended else .reading }
  | .ended => none

end State

def step (readBufferSize : Nat) : Choice → State → Option State
  | .append data, s => if s.closed then none else some { s with file := s.file ++ data }
  | .close, s => if s.closed then none else some { s with closed := true }
  | .requestStop, s => some { s with stopRequested := true }
  | .monitor bytesRead, s => s.advance readBufferSize bytesRead

structure Monitored (s : State) : Prop where
  within : s.position ≤ s.file.length
  content : s.delivered ++ s.readBuffer = s.file.take s.position
  unseen : s.location = .polling ∨ s.location = .statting → s.position = 0
  nothing : ∀ bytesRead, s.location = .deciding bytesRead → s.readBuffer = [] → bytesRead = 0
  running : s.stopRequested = false → s.location ≠ .ended ∧ s.location ≠ .delivering true

theorem create_monitored (file : Bytes) : Monitored (create file) := by
  constructor <;> simp [create]

variable {readBufferSize : Nat} {choice : Choice} {s s' : State}

theorem State.read_content {bytesRead : Nat} (content : s.delivered ++ s.readBuffer = s.file.take s.position) :
    s.delivered ++ (s.readBuffer ++ (s.file.drop s.position).take bytesRead) =
      s.file.take (s.position + bytesRead) := by
  rw [← List.append_assoc, content, List.take_add]

theorem Monitored.read {bytesRead : Nat} (monitored : Monitored s) (reads : s.Reads readBufferSize bytesRead) :
    Monitored (s.read bytesRead) := by
  have few : bytesRead ≤ s.unread := by
    have := reads.1
    omega
  have within := monitored.within
  constructor
  case within =>
    simp only [State.read, State.unread] at few ⊢
    omega
  case content => exact State.read_content monitored.content
  case unseen => simp [State.read]
  case nothing =>
    intro n location empty
    cases location
    have none_read := congrArg List.length (List.append_eq_nil_iff.mp empty).2
    simp only [State.unread, List.length_take, List.length_drop, List.length_nil] at none_read few
    omega
  case running => simp [State.read]

theorem Monitored.deliver {lastWrite : Bool} (monitored : Monitored s) (location : s.location = .delivering lastWrite) :
    Monitored (s.deliver lastWrite) := by
  constructor
  case within => exact monitored.within
  case content => simpa [State.deliver] using monitored.content
  case unseen => cases lastWrite <;> simp [State.deliver]
  case nothing => cases lastWrite <;> simp [State.deliver]
  case running =>
    intro running
    have notLast := (monitored.running running).2
    cases lastWrite with
    | true => exact absurd location notLast
    | false => simp [State.deliver]

theorem Monitored.moves {location : Location} (monitored : Monitored s)
    (unseen : location = .polling ∨ location = .statting → s.position = 0)
    (nothing : ∀ bytesRead, location ≠ .deciding bytesRead)
    (running : s.stopRequested = false → location ≠ .ended ∧ location ≠ .delivering true) :
    Monitored { s with location := location } :=
  ⟨monitored.within, monitored.content, unseen, fun bytesRead there => absurd there (nothing bytesRead), running⟩

theorem Monitored.advance {bytesRead : Nat} (monitored : Monitored s)
    (taken : s.advance readBufferSize bytesRead = some s') : Monitored s' := by
  unfold State.advance at taken
  cases location : s.location with
  | polling =>
    simp only [location, Option.some.injEq] at taken
    have start := monitored.unseen (.inl location)
    subst taken
    apply monitored.moves <;> grind
  | statting =>
    simp only [location, Option.some.injEq] at taken
    have start := monitored.unseen (.inr location)
    subst taken
    apply monitored.moves <;> grind
  | reading =>
    simp only [location, Option.ite_none_right_eq_some, Option.some.injEq] at taken
    exact taken.2 ▸ monitored.read taken.1
  | deciding n =>
    simp only [location, Option.some.injEq] at taken
    subst taken
    apply monitored.moves <;> grind
  | delivering lastWrite =>
    simp only [location, Option.some.injEq] at taken
    exact taken ▸ monitored.deliver location
  | waiting n =>
    simp only [location, Option.some.injEq] at taken
    subst taken
    apply monitored.moves <;> grind
  | ended => simp [location] at taken

theorem Monitored.step (monitored : Monitored s) (taken : step readBufferSize choice s = some s') : Monitored s' := by
  obtain ⟨within, content, unseen, nothing, running⟩ := id monitored
  cases choice with
  | append data =>
    simp only [StatFileMonitor.step, Option.ite_none_left_eq_some, Option.some.injEq] at taken
    obtain ⟨-, rfl⟩ := taken
    refine ⟨?_, ?_, unseen, nothing, running⟩
    next =>
      simp only [List.length_append]
      omega
    next => rw [List.take_append_of_le_length within, content]
  | close =>
    simp only [StatFileMonitor.step, Option.ite_none_left_eq_some, Option.some.injEq] at taken
    obtain ⟨-, rfl⟩ := taken
    exact ⟨within, content, unseen, nothing, running⟩
  | requestStop =>
    simp only [StatFileMonitor.step, Option.some.injEq] at taken
    subst taken
    exact ⟨within, content, unseen, nothing, by simp⟩
  | monitor bytesRead => exact monitored.advance taken

-- When `stop()` sets its flag, nothing is left that the thread will not come to read: it has seen that
-- the file is not empty, has not just read a part of what is left, and is not about to leave its loop.
def State.Timely (s : State) : Prop :=
  match s.location with
  | .polling => s.file = []
  | .deciding _ => s.unread = 0
  | .waiting 0 => s.readBuffer = [] ∧ s.unread = 0
  | _ => True

instance (s : State) : Decidable s.Timely := by
  unfold State.Timely
  split <;> infer_instance

def ReadsAll (choice : Choice) (s : State) : Prop :=
  ∀ bytesRead, choice = .monitor bytesRead → s.location = .reading → bytesRead = s.unread

instance (choice : Choice) (s : State) : Decidable (ReadsAll choice s) :=
  match choice with
  | .monitor bytesRead => decidable_of_iff (s.location = .reading → bytesRead = s.unread) (by simp [ReadsAll])
  | .append _ | .close | .requestStop => .isTrue (by simp [ReadsAll])

def State.Whole (s : State) : Prop :=
  match s.location with
  | .delivering true => s.unread = 0
  | .ended => s.delivered = s.file
  | _ => s.Timely

theorem Monitored.delivered_iff (monitored : Monitored s) :
    s.delivered = s.file ↔ s.readBuffer = [] ∧ s.unread = 0 := by
  have within := monitored.within
  have content := monitored.content
  constructor
  next =>
    intro delivered
    have lengths := congrArg List.length content
    simp only [delivered, List.length_append, List.length_take] at lengths
    constructor
    next =>
      rw [← List.length_eq_zero_iff]
      omega
    next =>
      simp only [State.unread]
      omega
  next =>
    rintro ⟨empty, all⟩
    simp only [State.unread] at all
    rw [← List.append_nil s.delivered, ← empty, content]
    exact List.take_of_length_le (by omega)

theorem Monitored.whole_advance {bytesRead : Nat} (monitored : Monitored s) (stopped : s.stopRequested = true)
    (taken : s.advance readBufferSize bytesRead = some s') :
    s.Whole ∧ (s.location = .reading → bytesRead = s.unread) ↔ s'.Whole := by
  have delivered := monitored.delivered_iff
  unfold State.advance at taken
  cases location : s.location with
  | polling =>
    have content := monitored.content
    rw [monitored.unseen (.inl location), List.take_zero, List.append_eq_nil_iff] at content
    simp only [location, stopped, if_true, Option.some.injEq] at taken
    subst taken
    simp [State.Whole, State.Timely, location, content.1, eq_comm]
  | statting =>
    simp only [location, Option.some.injEq] at taken
    subst taken
    by_cases empty : s.file = [] <;> simp [State.Whole, State.Timely, location, empty]
  | reading =>
    simp only [location, Option.ite_none_right_eq_some, Option.some.injEq] at taken
    obtain ⟨⟨few, -⟩, rfl⟩ := taken
    have within := monitored.within
    simp only [State.Whole, State.Timely, location, State.read, State.unread, true_and, forall_const] at few ⊢
    omega
  | deciding n =>
    have nothing := monitored.nothing n location
    simp only [location, stopped, Option.some.injEq] at taken
    subst taken
    by_cases empty : s.readBuffer = []
    next =>
      have zero := nothing empty
      simp [State.Whole, State.Timely, location, empty, zero, State.unread]
    next =>
      have filled : 0 < s.readBuffer.length := List.length_pos_iff.mpr empty
      simp [State.Whole, State.Timely, location, filled, State.unread]
  | delivering lastWrite =>
    simp only [location, Option.some.injEq] at taken
    have after := (monitored.deliver location).delivered_iff
    subst taken
    cases lastWrite with
    | true => simp_all [State.Whole, State.deliver, State.unread]
    | false => simp_all [State.Whole, State.Timely, State.deliver, State.unread]
  | waiting n =>
    simp only [location, stopped, Option.some.injEq] at taken
    subst taken
    cases n with
    | zero => simp [State.Whole, State.Timely, location, delivered]
    | succ n => simp [State.Whole, State.Timely, location]
  | ended => simp [location] at taken

theorem State.advance_keeps {bytesRead : Nat} (taken : s.advance readBufferSize bytesRead = some s') :
    s'.file = s.file ∧ s'.closed = s.closed ∧ s'.stopRequested = s.stopRequested := by
  unfold State.advance at taken
  split at taken <;> grind [State.read, State.deliver]

structure Stopping (s : State) : Prop where
  monitored : Monitored s
  closed : s.closed = true
  stopped : s.stopRequested = true

theorem Stopping.whole_step (stopping : Stopping s) (taken : StatFileMonitor.step readBufferSize choice s = some s') :
    s.Whole ∧ ReadsAll choice s ↔ s'.Whole := by
  cases choice with
  | append data => simp [StatFileMonitor.step, stopping.closed] at taken
  | close => simp [StatFileMonitor.step, stopping.closed] at taken
  | requestStop =>
    simp only [StatFileMonitor.step, Option.some.injEq] at taken
    have same : s' = s := by
      rw [← taken, ← stopping.stopped]
    simp [same, ReadsAll]
  | monitor bytesRead =>
    rw [← stopping.monitored.whole_advance stopping.stopped taken]
    simp [ReadsAll]

end BuildboxCommon.StatFileMonitor
