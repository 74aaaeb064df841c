import BuildboxCommon.Exceptions
import BuildboxCommon.Shared.Locks
import BuildboxCommon.Shared.Transitions
import BuildboxCommon.StringUtils

set_option autoImplicit false

namespace BuildboxCommon.ReloadTokenAuthenticator

open ByteString Locks Transitions

inductive Refresh where
  | skipped
  | current (currentTime : Int)
  | busy (currentTime : Int)
  | reloaded (currentTime : Int)
deriving DecidableEq

inductive Call where
  | idle
  | started (currentTime : Int)
  | readingNextRefreshTime (currentTime : Int)
  | due (currentTime : Int)
  | reloading (currentTime : Int)
  | loaded (currentTime : Int) (contents : Bytes)
  | setting (currentTime : Int) (contents : Bytes)
  | stamping (currentTime : Int) (contents : Bytes)
  | settingNextRefreshTime (currentTime : Int) (contents : Bytes)
  | stamped (currentTime : Int)
  | leaving (currentTime : Int)
  | getting (refresh : Refresh)
  | gettingTokenString (refresh : Refresh)
deriving DecidableEq

namespace Call

def reloadHold : Call → Hold
  | .reloading _ | .loaded _ _ | .setting _ _ | .stamping _ _ | .settingNextRefreshTime _ _ | .stamped _ | .leaving _ =>
    .exclusive
  | .idle | .started _ | .readingNextRefreshTime _ | .due _ | .getting _ | .gettingTokenString _ => .released

def tokenHold : Call → Hold
  | .setting _ _ | .stamping _ _ | .settingNextRefreshTime _ _ | .stamped _ => .exclusive
  | .gettingTokenString _ => .shared
  | .idle | .started _ | .readingNextRefreshTime _ | .due _ | .reloading _ | .loaded _ _ | .leaving _ | .getting _ =>
    .released

def nextHold : Call → Hold
  | .settingNextRefreshTime _ _ => .exclusive
  | .readingNextRefreshTime _ => .shared
  | .idle | .started _ | .due _ | .reloading _ | .loaded _ _ | .setting _ _ | .stamping _ _ | .stamped _ | .leaving _
  | .getting _ | .gettingTokenString _ => .released

end Call

structure Answer (κ : Type) where
  thread : κ
  refresh : Refresh
  lastLoad : Nat
  authorization : Bytes

structure State (κ : Type) where
  calls : κ → Call
  now : Int
  reloadLock : Lock κ
  tokenStringLock : Lock κ
  nextRefreshTimeLock : Lock κ
  tokenString : Bytes
  nextRefreshTime : Int
  -- What was read from the file, the number of what each thread was the last to read (at first that of the constructor),
  -- each token with the time of its next refresh, and what the calls took, in this order. No call looks at these.
  loads : List Bytes
  lastLoad : κ → Nat
  tokens : List (Bytes × Int)
  answers : List (Answer κ)

inductive Choice (κ : Type) where
  | tick (elapsed : Nat)
  | getMetadata (thread : κ)
  | proceed (thread : κ)
  | tryLockFails (thread : κ)
  | getFileContents (thread : κ) (result : Except Exn Bytes)

structure Config where
  skipRefresh : Bool
  refreshDuration : Int

def bearer (contents : Bytes) : Bytes := text "Bearer " ++ StringUtils.trim contents StringUtils.isspace

variable {κ : Type}

def construct (config : Config) (now : Int) (contents : Bytes) : State κ where
  calls := fun _ => .idle
  now := now
  reloadLock := .free
  tokenStringLock := .free
  nextRefreshTimeLock := .free
  tokenString := bearer contents
  nextRefreshTime := now + config.refreshDuration
  loads := [contents]
  lastLoad := fun _ => 0
  tokens := [(bearer contents, now + config.refreshDuration)]
  answers := []

variable [DecidableEq κ]

def State.moved (s : State κ) (thread : κ) (call : Call) : State κ :=
  { s with calls := Function.update s.calls thread call }

def step (config : Config) (choice : Choice κ) (s : State κ) : Option (State κ) :=
  match choice with
  | .tick elapsed => some { s with now := s.now + elapsed }
  | .getMetadata thread =>
    if s.calls thread = .idle then
      some (s.moved thread (if config.skipRefresh then .getting .skipped else .started s.now))
    else none
  | .tryLockFails thread =>
    match s.calls thread with
    | .due currentTime => some (s.moved thread (.getting (.busy currentTime)))
    | _ => none
  | .getFileContents thread result =>
    match s.calls thread with
    | .reloading currentTime =>
      match result with
      | .error _ => some { s.moved thread .idle with reloadLock := s.reloadLock.unlock }
      | .ok contents => some
        { s.moved thread (.loaded currentTime contents) with
          loads := s.loads ++ [contents]
          lastLoad := Function.update s.lastLoad thread s.loads.length }
    | _ => none
  | .proceed thread =>
    match s.calls thread with
    | .idle | .reloading _ => none
    | .started currentTime => (s.nextRefreshTimeLock.lockShared thread).map fun lock =>
      { s.moved thread (.readingNextRefreshTime currentTime) with nextRefreshTimeLock := lock }
    | .readingNextRefreshTime currentTime => some
      { s.moved thread
          (if s.nextRefreshTime ≤ currentTime then .due currentTime else .getting (.current currentTime)) with
        nextRefreshTimeLock := s.nextRefreshTimeLock.unlockShared thread }
    | .due currentTime =>
      match s.reloadLock.lock thread with
      | some lock => some { s.moved thread (.reloading currentTime) with reloadLock := lock }
      | none => some (s.moved thread (.getting (.busy currentTime)))
    | .loaded currentTime contents => (s.tokenStringLock.lock thread).map fun lock =>
      { s.moved thread (.setting currentTime contents) with tokenStringLock := lock }
    | .setting currentTime contents => some
      { s.moved thread (.stamping currentTime contents) with tokenString := bearer contents }
    | .stamping currentTime contents => (s.nextRefreshTimeLock.lock thread).map fun lock =>
      { s.moved thread (.settingNextRefreshTime currentTime contents) with nextRefreshTimeLock := lock }
    | .settingNextRefreshTime currentTime contents => some
      { s.moved thread (.stamped currentTime) with
        nextRefreshTime := s.now + config.refreshDuration
        nextRefreshTimeLock := s.nextRefreshTimeLock.unlock
        tokens := s.tokens ++ [(bearer contents, s.now + config.refreshDuration)] }
    | .stamped currentTime => some
      { s.moved thread (.leaving currentTime) with tokenStringLock := s.tokenStringLock.unlock }
    | .leaving currentTime => some
      { s.moved thread (.getting (.reloaded currentTime)) with reloadLock := s.reloadLock.unlock }
    | .getting refresh => (s.tokenStringLock.lockShared thread).map fun lock =>
      { s.moved thread (.gettingTokenString refresh) with tokenStringLock := lock }
    -- The token is copied and the lock left. Nobody sees what the call still does with the copy, and others may return
    -- before it.
    | .gettingTokenString refresh => some
      { s.moved thread .idle with
        tokenStringLock := s.tokenStringLock.unlockShared thread
        answers := s.answers ++ [⟨thread, refresh, s.lastLoad thread, s.tokenString⟩] }

structure Locked (s : State κ) : Prop where
  reload : Tracks s.reloadLock s.calls Call.reloadHold
  token : Tracks s.tokenStringLock s.calls Call.tokenHold
  next : Tracks s.nextRefreshTimeLock s.calls Call.nextHold

variable {config : Config} {choice : Choice κ} {s s' : State κ}

namespace Locked

variable (locked : Locked s)

include locked

theorem moved {thread : κ} {call : Call} (reload : call.reloadHold = (s.calls thread).reloadHold)
    (token : call.tokenHold = (s.calls thread).tokenHold) (next : call.nextHold = (s.calls thread).nextHold) :
    Locked (s.moved thread call) :=
  ⟨locked.reload.keep reload, locked.token.keep token, locked.next.keep next⟩

theorem proceed {thread : κ} (taken : ReloadTokenAuthenticator.step config (.proceed thread) s = some s') :
    Locked s' := by
  have reload {call : Call} (same : call.reloadHold = (s.calls thread).reloadHold) := locked.reload.keep same
  have token {call : Call} (same : call.tokenHold = (s.calls thread).tokenHold) := locked.token.keep same
  have next {call : Call} (same : call.nextHold = (s.calls thread).nextHold) := locked.next.keep same
  cases at' : s.calls thread with
  | idle => simp [ReloadTokenAuthenticator.step, at'] at taken
  | reloading currentTime => simp [ReloadTokenAuthenticator.step, at'] at taken
  | started currentTime =>
    simp only [ReloadTokenAuthenticator.step, at', Option.map_eq_some_iff] at taken
    obtain ⟨lock, got, rfl⟩ := taken
    exact ⟨reload (by rw [at']; rfl), token (by rw [at']; rfl), locked.next.lockShared got rfl⟩
  | readingNextRefreshTime currentTime =>
    simp only [ReloadTokenAuthenticator.step, at', Option.some.injEq] at taken
    subst taken
    split
    next => exact ⟨reload (by rw [at']; rfl), token (by rw [at']; rfl), locked.next.unlockShared (by rw [at']; rfl) rfl⟩
    next => exact ⟨reload (by rw [at']; rfl), token (by rw [at']; rfl), locked.next.unlockShared (by rw [at']; rfl) rfl⟩
  | due currentTime =>
    simp only [ReloadTokenAuthenticator.step, at'] at taken
    split at taken
    next lock got =>
      obtain rfl := Option.some.inj taken
      exact ⟨locked.reload.lock got rfl, token (by rw [at']; rfl), next (by rw [at']; rfl)⟩
    next =>
      obtain rfl := Option.some.inj taken
      exact locked.moved (by rw [at']; rfl) (by rw [at']; rfl) (by rw [at']; rfl)
  | loaded currentTime contents =>
    simp only [ReloadTokenAuthenticator.step, at', Option.map_eq_some_iff] at taken
    obtain ⟨lock, got, rfl⟩ := taken
    exact ⟨reload (by rw [at']; rfl), locked.token.lock got rfl, next (by rw [at']; rfl)⟩
  | setting currentTime contents =>
    simp only [ReloadTokenAuthenticator.step, at', Option.some.injEq] at taken
    subst taken
    exact ⟨reload (by rw [at']; rfl), token (by rw [at']; rfl), next (by rw [at']; rfl)⟩
  | stamping currentTime contents =>
    simp only [ReloadTokenAuthenticator.step, at', Option.map_eq_some_iff] at taken
    obtain ⟨lock, got, rfl⟩ := taken
    exact ⟨reload (by rw [at']; rfl), token (by rw [at']; rfl), locked.next.lock got rfl⟩
  | settingNextRefreshTime currentTime contents =>
    simp only [ReloadTokenAuthenticator.step, at', Option.some.injEq] at taken
    subst taken
    exact ⟨reload (by rw [at']; rfl), token (by rw [at']; rfl), locked.next.unlock (by rw [at']; rfl) rfl⟩
  | stamped currentTime =>
    simp only [ReloadTokenAuthenticator.step, at', Option.some.injEq] at taken
    subst taken
    exact ⟨reload (by rw [at']; rfl), locked.token.unlock (by rw [at']; rfl) rfl, next (by rw [at']; rfl)⟩
  | leaving currentTime =>
    simp only [ReloadTokenAuthenticator.step, at', Option.some.injEq] at taken
    subst taken
    exact ⟨locked.reload.unlock (by rw [at']; rfl) rfl, token (by rw [at']; rfl), next (by rw [at']; rfl)⟩
  | getting refresh =>
    simp only [ReloadTokenAuthenticator.step, at', Option.map_eq_some_iff] at taken
    obtain ⟨lock, got, rfl⟩ := taken
    exact ⟨reload (by rw [at']; rfl), locked.token.lockShared got rfl, next (by rw [at']; rfl)⟩
  | gettingTokenString refresh =>
    simp only [ReloadTokenAuthenticator.step, at', Option.some.injEq] at taken
    subst taken
    exact ⟨reload (by rw [at']; rfl), locked.token.unlockShared (by rw [at']; rfl) rfl, next (by rw [at']; rfl)⟩

theorem step (taken : ReloadTokenAuthenticator.step config choice s = some s') : Locked s' := by
  cases choice with
  | tick elapsed =>
    obtain rfl := Option.some.inj taken
    exact ⟨locked.reload, locked.token, locked.next⟩
  | getMetadata thread =>
    simp only [ReloadTokenAuthenticator.step] at taken
    split at taken
    next idle =>
      obtain rfl := Option.some.inj taken
      split
      next => exact locked.moved (by rw [idle]; rfl) (by rw [idle]; rfl) (by rw [idle]; rfl)
      next => exact locked.moved (by rw [idle]; rfl) (by rw [idle]; rfl) (by rw [idle]; rfl)
    next => cases taken
  | tryLockFails thread =>
    simp only [ReloadTokenAuthenticator.step] at taken
    split at taken
    next due =>
      obtain rfl := Option.some.inj taken
      exact locked.moved (by rw [due]; rfl) (by rw [due]; rfl) (by rw [due]; rfl)
    next => cases taken
  | getFileContents thread result =>
    simp only [ReloadTokenAuthenticator.step] at taken
    split at taken
    next reloading =>
      cases result with
      | error e =>
        obtain rfl := Option.some.inj taken
        exact ⟨locked.reload.unlock (by rw [reloading]; rfl) rfl, locked.token.keep (by rw [reloading]; rfl),
          locked.next.keep (by rw [reloading]; rfl)⟩
      | ok contents =>
        obtain rfl := Option.some.inj taken
        exact ⟨locked.reload.keep (by rw [reloading]; rfl), locked.token.keep (by rw [reloading]; rfl),
          locked.next.keep (by rw [reloading]; rfl)⟩
    next => cases taken
  | proceed thread => exact locked.proceed taken

end Locked

omit [DecidableEq κ] in
theorem locked_construct (config : Config) (now : Int) (contents : Bytes) :
    Locked (construct config now contents : State κ) :=
  ⟨.free _ fun _ => rfl, .free _ fun _ => rfl, .free _ fun _ => rfl⟩

theorem locked_run {now : Int} {contents : Bytes} {choices : List (Choice κ)}
    (reached : run (step config) (construct config now contents) choices = some s) : Locked s :=
  run_invariant (fun _ _ _ taken locked => locked.step taken) reached (locked_construct config now contents)

end BuildboxCommon.ReloadTokenAuthenticator
