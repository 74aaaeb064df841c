import BuildboxCommon.StandardOutput.StatFileMonitor

set_option autoImplicit false

namespace BuildboxCommon.StandardOutputStreamer

open ByteString Transitions

inductive Callback where
  | writing
  | marking
  | testing
  | setting
  | joining
deriving DecidableEq

inductive Stopping where
  | testing
  | setting
  | joining
deriving DecidableEq

inductive Owner where
  | constructing
  | idle
  | testing
  | marking
  | stopping (destroying : Bool) (place : Stopping)
  | committing
  | closing
  | gone
deriving DecidableEq

inductive Crash where
  | joinedByItself
  | joinedTwice
  | destroyedJoinable
deriving DecidableEq

structure State where
  monitor : StatFileMonitor.State
  callback : Callback
  owner : Owner
  stopRequested : Bool
  joins : Nat
  crash : Option Crash
deriving DecidableEq

-- Until it is set, the streamer's flag has any value.
def create (file : Bytes) (uninitialised : Bool) : State :=
  ⟨StatFileMonitor.create file, .writing, .constructing, uninitialised, 0, none⟩

inductive Choice where
  | append (data : Bytes)
  | close
  | monitor (bytesRead : Nat)
  | streamLogChunk (writeSucceeded : Bool)
  | stop
  | destroy
  | owner
deriving DecidableEq

namespace State

def setMonitor (s : State) (monitor : StatFileMonitor.State) : State := { s with monitor := monitor }

def requestStop (s : State) : State := s.setMonitor { s.monitor with stopRequested := true }

def returned (s : State) (lastWrite : Bool) : State :=
  { s with monitor := s.monitor.deliver lastWrite, callback := .writing }

def streamLogChunk (s : State) (lastWrite writeSucceeded : Bool) : State :=
  match s.callback with
  | .writing => if writeSucceeded then s.returned lastWrite else { s with callback := .marking }
  | .marking => { s with stopRequested := true, callback := .testing }
  | .testing => if s.monitor.stopRequested then s.returned lastWrite else { s with callback := .setting }
  | .setting => { s.requestStop with callback := .joining }
  | .joining => { s with crash := some .joinedByItself }

def afterStop (destroying : Bool) : Owner := if destroying then .closing else .committing

def advanceOwner (s : State) : Option State :=
  match s.owner with
  | .constructing => some { s with stopRequested := false, owner := .idle }
  | .idle | .gone => none
  | .testing => some { s with owner := if s.stopRequested then .idle else .marking }
  | .marking => some { s with stopRequested := true, owner := .stopping false .testing }
  | .stopping destroying .testing =>
    some { s with owner := if s.monitor.stopRequested then afterStop destroying else .stopping destroying .setting }
  | .stopping destroying .setting => some { s.requestStop with owner := .stopping destroying .joining }
  | .stopping destroying .joining =>
    if s.joins ≠ 0 then some { s with crash := some .joinedTwice }
    else if s.monitor.location = .ended then some { s with joins := s.joins + 1, owner := afterStop destroying }
    else none
  | .committing => some { s with owner := .idle }
  | .closing => if s.joins = 0 then some { s with crash := some .destroyedJoinable } else some { s with owner := .gone }

end State

def act (readBufferSize : Nat) : Choice → State → Option State
  | .append data, s => (StatFileMonitor.step readBufferSize (.append data) s.monitor).map s.setMonitor
  | .close, s => (StatFileMonitor.step readBufferSize .close s.monitor).map s.setMonitor
  | .monitor bytesRead, s =>
    match s.monitor.location with
    | .delivering _ => none
    | _ => (s.monitor.advance readBufferSize bytesRead).map s.setMonitor
  | .streamLogChunk writeSucceeded, s =>
    match s.monitor.location with
    | .delivering lastWrite => some (s.streamLogChunk lastWrite writeSucceeded)
    | _ => none
  | .stop, s => if s.owner = .idle then some { s with owner := .testing } else none
  | .destroy, s => if s.owner = .idle then some { s with owner := .stopping true .testing } else none
  | .owner, s => s.advanceOwner

-- A process that was terminated does nothing more.
def step (readBufferSize : Nat) (choice : Choice) (s : State) : Option State :=
  if s.crash = none then act readBufferSize choice s else none

def Proper (s : State) : Prop := s.crash = none ∧ s.joins ≤ 1 ∧ (s.owner = .gone → s.joins = 1)

def Guarded (choice : Choice) (s : State) : Prop :=
  ∀ writeSucceeded, choice = .streamLogChunk writeSucceeded → s.callback = .testing → s.monitor.stopRequested = true

instance (choice : Choice) (s : State) : Decidable (Guarded choice s) :=
  match choice with
  | .streamLogChunk _ =>
    decidable_of_iff (s.callback = .testing → s.monitor.stopRequested = true) (by simp [Guarded])
  | .append _ | .close | .monitor _ | .stop | .destroy | .owner => .isTrue (by simp [Guarded])

-- The joins so far, from where the owner is and from the monitor's flag, which only the owner sets.
def Accounted (stopRequested : Bool) (owner : Owner) (joins : Nat) : Prop :=
  match owner with
  | .constructing | .stopping _ .setting => stopRequested = false ∧ joins = 0
  | .stopping _ .joining => stopRequested = true ∧ joins = 0
  | .committing | .closing | .gone => stopRequested = true ∧ joins = 1
  | .idle | .testing | .marking | .stopping _ .testing => joins = if stopRequested then 1 else 0

structure Owned (s : State) : Prop where
  alive : s.crash = none
  harmless : s.callback ≠ .setting ∧ s.callback ≠ .joining
  accounted : Accounted s.monitor.stopRequested s.owner s.joins

variable {readBufferSize : Nat} {choice : Choice} {s s' : State}

theorem Owned.proper (owned : Owned s) : Proper s := by
  obtain ⟨alive, -, accounted⟩ := owned
  unfold Accounted at accounted
  refine ⟨alive, ?_, ?_⟩ <;> grind

theorem Owned.setMonitor {monitor : StatFileMonitor.State} (owned : Owned s)
    (same : monitor.stopRequested = s.monitor.stopRequested) : Owned (s.setMonitor monitor) :=
  ⟨owned.alive, owned.harmless, same ▸ owned.accounted⟩

theorem Owned.returned {lastWrite : Bool} (owned : Owned s) : Owned (s.returned lastWrite) :=
  ⟨owned.alive, by simp [State.returned], owned.accounted⟩

theorem Owned.streamLogChunk {lastWrite writeSucceeded : Bool} (owned : Owned s)
    (guarded : s.callback = .testing → s.monitor.stopRequested = true) :
    Owned (s.streamLogChunk lastWrite writeSucceeded) := by
  unfold State.streamLogChunk
  split
  next =>
    split
    next => exact owned.returned
    next => exact ⟨owned.alive, by simp, owned.accounted⟩
  next => exact ⟨owned.alive, by simp, owned.accounted⟩
  next at_test =>
    rw [if_pos (guarded at_test)]
    exact owned.returned
  next location => exact absurd location owned.harmless.1
  next location => exact absurd location owned.harmless.2

theorem Owned.advanceOwner (owned : Owned s) (taken : s.advanceOwner = some s') : Owned s' := by
  obtain ⟨alive, harmless, accounted⟩ := owned
  unfold State.advanceOwner at taken
  cases owner : s.owner with
  | constructing =>
    simp only [owner, Option.some.injEq] at taken
    subst taken
    refine ⟨alive, harmless, ?_⟩
    simp_all [Accounted]
  | idle => simp [owner] at taken
  | testing =>
    simp only [owner, Option.some.injEq] at taken
    subst taken
    refine ⟨alive, harmless, ?_⟩
    cases stopRequested : s.stopRequested <;> simp_all [Accounted]
  | marking =>
    simp only [owner, Option.some.injEq] at taken
    subst taken
    refine ⟨alive, harmless, ?_⟩
    simp_all [Accounted]
  | stopping destroying place =>
    cases place with
    | testing =>
      simp only [owner, Option.some.injEq] at taken
      subst taken
      refine ⟨alive, harmless, ?_⟩
      cases flag : s.monitor.stopRequested <;> cases destroying <;> simp_all [Accounted, State.afterStop]
    | setting =>
      simp only [owner, Option.some.injEq] at taken
      subst taken
      refine ⟨alive, harmless, ?_⟩
      simp_all [Accounted, State.requestStop, State.setMonitor]
    | joining =>
      simp only [owner, Accounted] at accounted taken
      rw [if_neg (by simp [accounted.2]), Option.ite_none_right_eq_some, Option.some.injEq] at taken
      obtain ⟨-, rfl⟩ := taken
      refine ⟨alive, harmless, ?_⟩
      cases destroying <;> simp [Accounted, State.afterStop, accounted]
  | committing =>
    simp only [owner, Option.some.injEq] at taken
    subst taken
    refine ⟨alive, harmless, ?_⟩
    simp_all [Accounted]
  | closing =>
    simp only [owner, Accounted] at accounted taken
    rw [if_neg (by omega), Option.some.injEq] at taken
    subst taken
    exact ⟨alive, harmless, accounted⟩
  | gone => simp [owner] at taken

structure Quiet (monitor monitor' : StatFileMonitor.State) : Prop where
  flag : monitor'.stopRequested = monitor.stopRequested
  ended : monitor.location = .ended → monitor'.location = .ended
  delivering : ∀ lastWrite, monitor.location = .delivering lastWrite → monitor'.location = .delivering lastWrite

theorem act_cases (acted : act readBufferSize choice s = some s') :
    (∃ monitor, Quiet s.monitor monitor ∧ s' = s.setMonitor monitor) ∨
    (∃ lastWrite writeSucceeded, choice = .streamLogChunk writeSucceeded ∧
      s.monitor.location = .delivering lastWrite ∧ s' = s.streamLogChunk lastWrite writeSucceeded) ∨
    (s.owner = .idle ∧ ∃ owner, (owner = .testing ∨ owner = .stopping true .testing) ∧ s' = { s with owner := owner }) ∨
    s.advanceOwner = some s' := by
  cases choice with
  | append data =>
    obtain ⟨monitor, wrote, rfl⟩ := Option.map_eq_some_iff.mp acted
    simp only [StatFileMonitor.step, Option.ite_none_left_eq_some, Option.some.injEq] at wrote
    obtain ⟨-, rfl⟩ := wrote
    refine .inl ⟨_, ?_, rfl⟩
    exact ⟨rfl, id, fun _ => id⟩
  | close =>
    obtain ⟨monitor, wrote, rfl⟩ := Option.map_eq_some_iff.mp acted
    simp only [StatFileMonitor.step, Option.ite_none_left_eq_some, Option.some.injEq] at wrote
    obtain ⟨-, rfl⟩ := wrote
    refine .inl ⟨_, ?_, rfl⟩
    exact ⟨rfl, id, fun _ => id⟩
  | monitor bytesRead =>
    simp only [act] at acted
    split at acted
    next => contradiction
    next outside =>
      obtain ⟨monitor, advanced, rfl⟩ := Option.map_eq_some_iff.mp acted
      have flag := (StatFileMonitor.State.advance_keeps advanced).2.2
      refine .inl ⟨monitor, ⟨flag, ?_, fun lastWrite there => absurd there (outside lastWrite)⟩, rfl⟩
      intro ended
      simp [StatFileMonitor.State.advance, ended] at advanced
  | streamLogChunk writeSucceeded =>
    simp only [act] at acted
    split at acted
    next lastWrite location =>
      exact .inr (.inl ⟨lastWrite, writeSucceeded, rfl, location, (Option.some.inj acted).symm⟩)
    next => contradiction
  | stop =>
    simp only [act, Option.ite_none_right_eq_some, Option.some.injEq] at acted
    exact .inr (.inr (.inl ⟨acted.1, _, .inl rfl, acted.2.symm⟩))
  | destroy =>
    simp only [act, Option.ite_none_right_eq_some, Option.some.injEq] at acted
    exact .inr (.inr (.inl ⟨acted.1, _, .inr rfl, acted.2.symm⟩))
  | owner => exact .inr (.inr (.inr acted))

theorem Owned.step (owned : Owned s) (guarded : Guarded choice s)
    (taken : step readBufferSize choice s = some s') : Owned s' := by
  simp only [StandardOutputStreamer.step, owned.alive, if_true] at taken
  obtain ⟨monitor, quiet, rfl⟩ | ⟨lastWrite, writeSucceeded, chosen, -, rfl⟩ | ⟨idle, owner, called, rfl⟩ | advanced :=
    act_cases taken
  next => exact owned.setMonitor quiet.flag
  next => exact owned.streamLogChunk (guarded writeSucceeded chosen)
  next =>
    have accounted := owned.accounted
    refine ⟨owned.alive, owned.harmless, ?_⟩
    rcases called with rfl | rfl <;> simpa [Accounted, idle] using accounted
  next => exact owned.advanceOwner advanced

structure Running (s : State) : Prop where
  unjoined : s.monitor.location ≠ .ended → s.joins = 0
  closed : s.owner = .gone → s.joins ≠ 0

theorem streamLogChunk_keeps {lastWrite writeSucceeded : Bool} :
    (s.streamLogChunk lastWrite writeSucceeded).joins = s.joins ∧
      (s.streamLogChunk lastWrite writeSucceeded).owner = s.owner := by
  unfold State.streamLogChunk
  split <;> try split
  all_goals exact ⟨rfl, rfl⟩

theorem advanceOwner_keeps (advanced : s.advanceOwner = some s') :
    s'.callback = s.callback ∧ s'.monitor.location = s.monitor.location := by
  unfold State.advanceOwner at advanced
  split at advanced <;> grind [State.requestStop, State.setMonitor]

theorem Running.advanceOwner (running : Running s) (advanced : s.advanceOwner = some s') : Running s' := by
  have same := (advanceOwner_keeps advanced).2
  obtain ⟨unjoined, closed⟩ := running
  unfold State.advanceOwner at advanced
  constructor <;> grind [State.requestStop, State.setMonitor, State.afterStop]

theorem Running.step (running : Running s) (taken : step readBufferSize choice s = some s') : Running s' := by
  simp only [StandardOutputStreamer.step, Option.ite_none_right_eq_some] at taken
  obtain ⟨unjoined, closed⟩ := id running
  obtain ⟨monitor, quiet, rfl⟩ | ⟨lastWrite, writeSucceeded, -, location, rfl⟩ |
    ⟨idle, owner, called, rfl⟩ | advanced :=
    act_cases taken.2
  next => exact ⟨fun here => unjoined fun there => here (quiet.ended there), closed⟩
  next =>
    have ⟨joins, owner⟩ := @streamLogChunk_keeps s lastWrite writeSucceeded
    exact ⟨fun _ => joins.trans (unjoined (by simp [location])), by rwa [joins, owner]⟩
  next =>
    refine ⟨unjoined, fun gone => ?_⟩
    rcases called with rfl | rfl <;> contradiction
  next => exact running.advanceOwner advanced

structure Doomed (s : State) : Prop where
  harmful : s.callback = .setting ∨ s.callback = .joining
  delivering : ∃ lastWrite, s.monitor.location = .delivering lastWrite

theorem Doomed.step (doomed : Doomed s) (taken : step readBufferSize choice s = some s') : Doomed s' := by
  simp only [StandardOutputStreamer.step, Option.ite_none_right_eq_some] at taken
  obtain ⟨harmful, lastWrite, location⟩ := doomed
  obtain ⟨monitor, quiet, rfl⟩ | ⟨-, writeSucceeded, -, -, rfl⟩ | ⟨idle, owner, called, rfl⟩ | advanced :=
    act_cases taken.2
  next => exact ⟨harmful, lastWrite, quiet.delivering lastWrite location⟩
  next =>
    unfold State.streamLogChunk
    rcases harmful with harmful | harmful <;> simp only [harmful]
    next => exact ⟨.inr rfl, lastWrite, location⟩
    next => exact ⟨.inr rfl, lastWrite, location⟩
  next => exact ⟨harmful, lastWrite, location⟩
  next =>
    have ⟨callback, same⟩ := advanceOwner_keeps advanced
    exact ⟨callback ▸ harmful, lastWrite, same ▸ location⟩

section Samples

end Samples

end BuildboxCommon.StandardOutputStreamer
