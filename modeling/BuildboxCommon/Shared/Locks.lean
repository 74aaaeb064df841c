import Mathlib.Data.Finset.Basic
import Mathlib.Logic.Function.Basic

set_option autoImplicit false

namespace Locks

inductive Hold where
  | released
  | shared
  | exclusive
deriving DecidableEq

structure Lock (κ : Type) where
  sharers : Finset κ
  owner : Option κ
  apart : owner ≠ none → sharers = ∅

variable {κ φ : Type}

structure Tracks (l : Lock κ) (phases : κ → φ) (hold : φ → Hold) : Prop where
  sharer_iff : ∀ thread, thread ∈ l.sharers ↔ hold (phases thread) = .shared
  owner_iff : ∀ thread, l.owner = some thread ↔ hold (phases thread) = .exclusive

def Lock.free : Lock κ := ⟨∅, none, fun some => absurd rfl some⟩

namespace Tracks

variable {l : Lock κ} {phases : κ → φ} {hold : φ → Hold} {thread other : κ}

theorem free (phases : κ → φ) (released : ∀ thread, hold (phases thread) = .released) :
    Tracks Lock.free phases hold where
  sharer_iff := fun thread => iff_of_false (Finset.notMem_empty thread) (by rw [released]; decide)
  owner_iff := fun thread => iff_of_false (by simp [Lock.free]) (by rw [released]; decide)

theorem alone (tracks : Tracks l phases hold) (owns : hold (phases thread) = .exclusive)
    (holds : hold (phases other) ≠ .released) : other = thread := by
  have owner := (tracks.owner_iff thread).mpr owns
  cases held : hold (phases other) with
  | released => exact absurd held holds
  | shared =>
    have none := l.apart (by rw [owner]; exact Option.some_ne_none thread)
    have member := (tracks.sharer_iff other).mpr held
    rw [none] at member
    exact absurd member (Finset.notMem_empty other)
  | exclusive => exact Option.some.inj (((tracks.owner_iff other).mpr held).symm.trans owner)

theorem owner_eq_none_iff (tracks : Tracks l phases hold) :
    l.owner = none ↔ ∀ thread, hold (phases thread) ≠ .exclusive := by
  rw [Option.eq_none_iff_forall_ne_some]
  exact forall_congr' fun thread => not_congr (tracks.owner_iff thread)

theorem sharers_eq_empty_iff (tracks : Tracks l phases hold) :
    l.sharers = ∅ ↔ ∀ thread, hold (phases thread) ≠ .shared := by
  rw [Finset.eq_empty_iff_forall_notMem]
  exact forall_congr' fun thread => not_congr (tracks.sharer_iff thread)

end Tracks

variable [DecidableEq κ]

namespace Lock

def lock (l : Lock κ) (thread : κ) : Option (Lock κ) :=
  if l.owner = none ∧ l.sharers = ∅ then some ⟨∅, some thread, fun _ => rfl⟩ else none

def unlock (l : Lock κ) : Lock κ := ⟨l.sharers, none, fun some => absurd rfl some⟩

def lockShared (l : Lock κ) (thread : κ) : Option (Lock κ) :=
  if l.owner = none then some ⟨insert thread l.sharers, none, fun some => absurd rfl some⟩ else none

def unlockShared (l : Lock κ) (thread : κ) : Lock κ :=
  ⟨l.sharers.erase thread, l.owner, fun some => by rw [l.apart some, Finset.erase_empty]⟩

end Lock

namespace Tracks

variable {l l' : Lock κ} {phases : κ → φ} {hold : φ → Hold} {thread : κ} {phase : φ}

theorem lock_ne_none_iff (tracks : Tracks l phases hold) (thread : κ) :
    l.lock thread ≠ none ↔ ∀ other, hold (phases other) = .released := by
  have split : l.lock thread ≠ none ↔ l.owner = none ∧ l.sharers = ∅ := by
    rw [Lock.lock]
    split <;> simp_all
  rw [split, tracks.owner_eq_none_iff, tracks.sharers_eq_empty_iff]
  constructor
  next =>
    intro none other
    cases held : hold (phases other) with
    | released => rfl
    | shared => exact absurd held (none.2 other)
    | exclusive => exact absurd held (none.1 other)
  next =>
    intro released
    exact ⟨fun other => by rw [released]; decide, fun other => by rw [released]; decide⟩

theorem lockShared_ne_none_iff (tracks : Tracks l phases hold) (thread : κ) :
    l.lockShared thread ≠ none ↔ ∀ other, hold (phases other) ≠ .exclusive := by
  rw [← tracks.owner_eq_none_iff, Lock.lockShared]
  split <;> simp_all

theorem keep (tracks : Tracks l phases hold) (same : hold phase = hold (phases thread)) :
    Tracks l (Function.update phases thread phase) hold where
  sharer_iff := fun other => by
    rw [tracks.sharer_iff]
    by_cases self : other = thread
    next => rw [self, Function.update_self, same]
    next => rw [Function.update_of_ne self]
  owner_iff := fun other => by
    rw [tracks.owner_iff]
    by_cases self : other = thread
    next => rw [self, Function.update_self, same]
    next => rw [Function.update_of_ne self]

theorem lock (tracks : Tracks l phases hold) (got : l.lock thread = some l') (owns : hold phase = .exclusive) :
    Tracks l' (Function.update phases thread phase) hold := by
  have released := (tracks.lock_ne_none_iff thread).mp (by rw [got]; exact Option.some_ne_none l')
  rw [Lock.lock] at got
  split at got
  next =>
    obtain rfl := Option.some.inj got
    constructor
    next =>
      intro other
      by_cases self : other = thread
      next => simp [self, owns]
      next => simp [Function.update_of_ne self, released]
    next =>
      intro other
      by_cases self : other = thread
      next => simp [self, owns]
      next => simp [Function.update_of_ne self, released, Ne.symm self]
  next => cases got

theorem unlock (tracks : Tracks l phases hold) (owns : hold (phases thread) = .exclusive)
    (released : hold phase = .released) :
    Tracks l.unlock (Function.update phases thread phase) hold := by
  have none := l.apart (by rw [(tracks.owner_iff thread).mpr owns]; exact Option.some_ne_none thread)
  have others (other : κ) : hold (Function.update phases thread phase other) = .released := by
    by_cases self : other = thread
    next => rw [self, Function.update_self, released]
    next =>
      rw [Function.update_of_ne self]
      by_contra holds
      exact self (tracks.alone owns holds)
  exact ⟨fun other => by simp [Lock.unlock, none, others], fun other => by simp [Lock.unlock, others]⟩

theorem lockShared (tracks : Tracks l phases hold) (got : l.lockShared thread = some l')
    (shares : hold phase = .shared) :
    Tracks l' (Function.update phases thread phase) hold := by
  have released := (tracks.lockShared_ne_none_iff thread).mp (by rw [got]; exact Option.some_ne_none l')
  rw [Lock.lockShared] at got
  split at got
  next =>
    obtain rfl := Option.some.inj got
    constructor
    next =>
      intro other
      by_cases self : other = thread
      next => simp [self, shares]
      next => simp [self, tracks.sharer_iff]
    next =>
      intro other
      by_cases self : other = thread
      next => simp [self, shares]
      next => simp [Function.update_of_ne self, released]
  next => cases got

theorem unlockShared (tracks : Tracks l phases hold) (shares : hold (phases thread) = .shared)
    (released : hold phase = .released) :
    Tracks (l.unlockShared thread) (Function.update phases thread phase) hold := by
  constructor
  next =>
    intro other
    by_cases self : other = thread
    next => simp [Lock.unlockShared, self, released]
    next => simp [Lock.unlockShared, self, tracks.sharer_iff]
  next =>
    intro other
    by_cases self : other = thread
    next =>
      subst self
      have mine : l.owner ≠ some other := fun owns => by
        rw [(tracks.owner_iff other).mp owns] at shares
        cases shares
      simp [Lock.unlockShared, released, mine]
    next => simp [Lock.unlockShared, Function.update_of_ne self, tracks.owner_iff]

end Tracks

end Locks
