import BuildboxCommon.ReloadTokenAuthenticator.GetMetadata
import Mathlib.Algebra.BigOperators.Group.Finset.Basic
import Mathlib.Algebra.Order.BigOperators.Group.Finset

set_option autoImplicit false

namespace BuildboxCommon.ReloadTokenAuthenticator

open ByteString Locks Transitions

def Call.remaining : Call → Nat
  | .idle => 0
  | .gettingTokenString _ => 1
  | .getting _ => 2
  | .leaving _ => 3
  | .stamped _ => 4
  | .settingNextRefreshTime _ _ => 5
  | .stamping _ _ => 6
  | .setting _ _ => 7
  | .loaded _ _ => 8
  | .reloading _ => 9
  | .due _ => 10
  | .readingNextRefreshTime _ => 11
  | .started _ => 12

variable {κ : Type} [DecidableEq κ] {config : Config} {s s' : State κ} {thread : κ}

theorem proceed_remaining (taken : step config (.proceed thread) s = some s') :
    ∃ call, s'.calls = Function.update s.calls thread call ∧ call.remaining < (s.calls thread).remaining := by
  cases at' : s.calls thread with
  | idle => simp [step, at'] at taken
  | reloading currentTime => simp [step, at'] at taken
  | started currentTime =>
    simp only [step, at', Option.map_eq_some_iff] at taken
    obtain ⟨lock, -, rfl⟩ := taken
    exact ⟨_, rfl, Nat.lt_succ_self 11⟩
  | readingNextRefreshTime currentTime =>
    simp only [step, at', Option.some.injEq] at taken
    subst taken
    refine ⟨_, rfl, ?_⟩
    split
    next => exact Nat.lt_succ_self 10
    next => exact Nat.lt_of_sub_pos (Nat.zero_lt_succ 8)
  | due currentTime =>
    simp only [step, at'] at taken
    split at taken
    next =>
      obtain rfl := Option.some.inj taken
      exact ⟨_, rfl, Nat.lt_succ_self 9⟩
    next =>
      obtain rfl := Option.some.inj taken
      exact ⟨_, rfl, Nat.lt_of_sub_pos (Nat.zero_lt_succ 7)⟩
  | loaded currentTime contents =>
    simp only [step, at', Option.map_eq_some_iff] at taken
    obtain ⟨lock, -, rfl⟩ := taken
    exact ⟨_, rfl, Nat.lt_succ_self 7⟩
  | setting currentTime contents =>
    simp only [step, at', Option.some.injEq] at taken
    subst taken
    exact ⟨_, rfl, Nat.lt_succ_self 6⟩
  | stamping currentTime contents =>
    simp only [step, at', Option.map_eq_some_iff] at taken
    obtain ⟨lock, -, rfl⟩ := taken
    exact ⟨_, rfl, Nat.lt_succ_self 5⟩
  | settingNextRefreshTime currentTime contents =>
    simp only [step, at', Option.some.injEq] at taken
    subst taken
    exact ⟨_, rfl, Nat.lt_succ_self 4⟩
  | stamped currentTime =>
    simp only [step, at', Option.some.injEq] at taken
    subst taken
    exact ⟨_, rfl, Nat.lt_succ_self 3⟩
  | leaving currentTime =>
    simp only [step, at', Option.some.injEq] at taken
    subst taken
    exact ⟨_, rfl, Nat.lt_succ_self 2⟩
  | getting refresh =>
    simp only [step, at', Option.map_eq_some_iff] at taken
    obtain ⟨lock, -, rfl⟩ := taken
    exact ⟨_, rfl, Nat.lt_succ_self 1⟩
  | gettingTokenString refresh =>
    simp only [step, at', Option.some.injEq] at taken
    subst taken
    exact ⟨_, rfl, Nat.lt_succ_self 0⟩

theorem getFileContents_remaining {result : Except Exn Bytes}
    (taken : step config (.getFileContents thread result) s = some s') :
    ∃ call, s'.calls = Function.update s.calls thread call ∧ call.remaining < (s.calls thread).remaining := by
  simp only [step] at taken
  split at taken
  next reloading =>
    rw [reloading]
    cases result with
    | error e =>
      obtain rfl := Option.some.inj taken
      exact ⟨_, rfl, Nat.zero_lt_succ 8⟩
    | ok contents =>
      obtain rfl := Option.some.inj taken
      exact ⟨_, rfl, Nat.lt_succ_self 8⟩
  next => cases taken

theorem tryLockFails_remaining (taken : step config (.tryLockFails thread) s = some s') :
    ∃ call, s'.calls = Function.update s.calls thread call ∧ call.remaining < (s.calls thread).remaining := by
  simp only [step] at taken
  split at taken
  next due =>
    obtain rfl := Option.some.inj taken
    rw [due]
    exact ⟨_, rfl, Nat.lt_of_sub_pos (Nat.zero_lt_succ 7)⟩
  next => cases taken

section Stuck

variable (locked : Locked s) (stuck : ∀ thread, step config (.proceed thread) s = none)

include locked stuck

theorem not_stamping {currentTime : Int} {contents : Bytes} : s.calls thread ≠ .stamping currentTime contents := by
  intro stamping
  have waits := stuck thread
  simp only [step, stamping, Option.map_eq_none_iff] at waits
  refine (locked.next.lock_ne_none_iff thread).mpr (fun other => ?_) waits
  have goes := stuck other
  cases at' : s.calls other with
  | readingNextRefreshTime currentTime => simp [step, at'] at goes
  | settingNextRefreshTime currentTime contents => simp [step, at'] at goes
  | _ => rfl

theorem token_released (other : κ) : (s.calls other).tokenHold = .released := by
  have goes := stuck other
  cases at' : s.calls other with
  | setting currentTime contents => simp [step, at'] at goes
  | stamping currentTime contents => exact absurd at' (not_stamping locked stuck)
  | settingNextRefreshTime currentTime contents => simp [step, at'] at goes
  | stamped currentTime => simp [step, at'] at goes
  | gettingTokenString refresh => simp [step, at'] at goes
  | _ => rfl

theorem idle_of_stuck (unread : ∀ thread result, step config (.getFileContents thread result) s = none) (thread : κ) :
    s.calls thread = .idle := by
  have goes := stuck thread
  cases at' : s.calls thread with
  | idle => rfl
  | started currentTime =>
    simp only [step, at', Option.map_eq_none_iff] at goes
    refine absurd goes ((locked.next.lockShared_ne_none_iff thread).mpr fun other writes => ?_)
    have other_goes := stuck other
    cases there : s.calls other with
    | settingNextRefreshTime currentTime contents => simp [step, there] at other_goes
    | _ => simp [there, Call.nextHold] at writes
  | readingNextRefreshTime currentTime => simp [step, at'] at goes
  | due currentTime =>
    simp only [step, at'] at goes
    split at goes <;> cases goes
  | reloading currentTime =>
    have reads := unread thread (.ok [])
    simp [step, at'] at reads
  | loaded currentTime contents =>
    simp only [step, at', Option.map_eq_none_iff] at goes
    exact absurd goes ((locked.token.lock_ne_none_iff thread).mpr (token_released locked stuck))
  | setting currentTime contents => simp [step, at'] at goes
  | stamping currentTime contents => exact absurd at' (not_stamping locked stuck)
  | settingNextRefreshTime currentTime contents => simp [step, at'] at goes
  | stamped currentTime => simp [step, at'] at goes
  | leaving currentTime => simp [step, at'] at goes
  | getting refresh =>
    simp only [step, at', Option.map_eq_none_iff] at goes
    refine absurd goes ((locked.token.lockShared_ne_none_iff thread).mpr fun other owns => ?_)
    rw [token_released locked stuck other] at owns
    cases owns
  | gettingTokenString refresh => simp [step, at'] at goes

end Stuck

def Choice.begins : Choice κ → Bool
  | .getMetadata _ => true
  | .tick _ | .proceed _ | .tryLockFails _ | .getFileContents _ _ => false

def Choice.continues : Choice κ → Bool
  | .proceed _ | .tryLockFails _ | .getFileContents _ _ => true
  | .tick _ | .getMetadata _ => false

def Choice.continuesCall (thread : κ) : Choice κ → Bool
  | .proceed other | .tryLockFails other | .getFileContents other _ => other = thread
  | .tick _ | .getMetadata _ => false

theorem remaining_step {other : κ}
    (moves : ∃ call, s'.calls = Function.update s.calls thread call ∧ call.remaining < (s.calls thread).remaining) :
    (if decide (thread = other) = true then 1 else 0) + (s'.calls other).remaining ≤ (s.calls other).remaining := by
  obtain ⟨call, calls, less⟩ := moves
  rw [calls]
  by_cases self : other = thread
  next =>
    subst self
    rw [Function.update_self, decide_eq_true rfl, if_pos rfl]
    omega
  next =>
    rw [Function.update_of_ne self, decide_eq_false fun same => self same.symm, if_neg Bool.false_ne_true]
    omega

theorem step_remaining {choice : Choice κ} (taken : step config choice s = some s') (none : choice.begins = false)
    (thread : κ) :
    (if choice.continuesCall thread then 1 else 0) + (s'.calls thread).remaining ≤ (s.calls thread).remaining := by
  cases choice with
  | tick elapsed =>
    obtain rfl := Option.some.inj taken
    exact (Nat.zero_add _).le
  | getMetadata thread => cases none
  | proceed other => exact remaining_step (proceed_remaining taken)
  | tryLockFails other => exact remaining_step (tryLockFails_remaining taken)
  | getFileContents other result => exact remaining_step (getFileContents_remaining taken)

theorem run_remaining {choices : List (Choice κ)} (taken : run (step config) s choices = some s')
    (none : ∀ choice ∈ choices, choice.begins = false) (thread : κ) :
    choices.countP (Choice.continuesCall thread) + (s'.calls thread).remaining ≤ (s.calls thread).remaining := by
  induction choices generalizing s with
  | nil =>
    obtain rfl := Option.some.inj taken
    exact (Nat.zero_add _).le
  | cons choice choices ih =>
    obtain ⟨between, first, rest⟩ := Option.bind_eq_some_iff.mp taken
    have here := step_remaining first (none choice List.mem_cons_self) thread
    have onwards := ih rest fun later member => none later (List.mem_cons_of_mem choice member)
    rw [List.countP_cons]
    omega

theorem Call.remaining_le (call : Call) : call.remaining ≤ if call = .idle then 0 else 12 := by
  cases call <;> simp [Call.remaining]

section Finite

variable [Fintype κ]

theorem countP_continues (choices : List (Choice κ)) :
    choices.countP Choice.continues ≤ ∑ thread, choices.countP (Choice.continuesCall thread) := by
  induction choices with
  | nil => exact Nat.zero_le _
  | cons choice choices ih =>
    have here : (if choice.continues then 1 else 0) ≤ ∑ thread, if choice.continuesCall thread then 1 else 0 := by
      split
      next continues =>
        obtain ⟨thread, mine⟩ : ∃ thread, choice.continuesCall thread = true := by
          cases choice <;> simp [Choice.continues, Choice.continuesCall] at continues ⊢
        have least := Finset.single_le_sum (f := fun thread => if choice.continuesCall thread then 1 else 0)
          (fun _ _ => Nat.zero_le _) (Finset.mem_univ thread)
        simpa only [mine, if_true] using least
      next => exact Nat.zero_le _
    simp only [List.countP_cons, Finset.sum_add_distrib]
    exact Nat.add_le_add ih here

omit [DecidableEq κ] in
theorem sum_remaining_le (s : State κ) :
    ∑ thread, (s.calls thread).remaining ≤ 12 * (Finset.univ.filter fun thread => s.calls thread ≠ .idle).card := by
  have each (thread : κ) : (s.calls thread).remaining ≤ if s.calls thread ≠ .idle then 12 else 0 := by
    rw [ite_not]
    exact Call.remaining_le _
  refine (Finset.sum_le_sum fun thread _ => each thread).trans ?_
  rw [← Finset.sum_filter, Finset.sum_const, Nat.nsmul_eq_mul, Nat.mul_comm]

theorem getMetadata_completes (config : Config) (now : Int) (contents : Bytes) (choices : List (Choice κ))
    (s s' : State κ)
    (reached : run (step config) (construct config now contents) choices = some s) (more : List (Choice κ))
    (taken : run (step config) s more = some s') (none : ∀ choice ∈ more, choice.begins = false) :
    (∀ thread, more.countP (Choice.continuesCall thread) ≤ if s.calls thread = .idle then 0 else 12) ∧
      more.countP Choice.continues ≤ 12 * (Finset.univ.filter fun thread => s.calls thread ≠ .idle).card ∧
      ((∀ choice, choice.continues → step config choice s' = Option.none) → ∀ thread, s'.calls thread = .idle) := by
  have bounded (thread : κ) : more.countP (Choice.continuesCall thread) ≤ (s.calls thread).remaining :=
    (Nat.le_add_right _ _).trans (run_remaining taken none thread)
  refine ⟨fun thread => (bounded thread).trans (Call.remaining_le _), ?_, fun stuck => ?_⟩
  next =>
    exact (countP_continues more).trans ((Finset.sum_le_sum fun thread _ => bounded thread).trans (sum_remaining_le s))
  next =>
    have locked := locked_run
      (by rw [run_append, reached]; exact taken : run (step config) _ (choices ++ more) = some s')
    exact idle_of_stuck locked (fun thread => stuck (.proceed thread) rfl) fun thread result => stuck
      (.getFileContents thread result) rfl

theorem getMetadata_completes_two :
    ∃ s s' : State Bool,
      run (step ⟨false, 0⟩) (construct ⟨false, 0⟩ 0 []) [.getMetadata false, .proceed false,
        .getMetadata true] = some s ∧
      run (step ⟨false, 0⟩) s ([.proceed false, .proceed false, .getFileContents false (.error (.runtimeError [])),
        .proceed true, .proceed true, .proceed true,
          .getFileContents true (.ok [97])] ++ List.replicate 8 (.proceed true)) =
          some s' ∧
      ∀ thread, s'.calls thread = .idle := by
  refine ⟨_, _, rfl, rfl, (getMetadata_completes
    ⟨false, 0⟩ 0 [] [.getMetadata false, .proceed false, .getMetadata true] _ _ rfl
    ([.proceed false, .proceed false, .getFileContents false (.error (.runtimeError [])), .proceed true, .proceed true,
      .proceed true, .getFileContents true (.ok [97])] ++ List.replicate 8 (.proceed true)) rfl
    (by simp [Choice.begins])).2.2 ?_⟩
  rintro (elapsed | thread | thread | thread | ⟨thread, result⟩) continues
  next => cases continues
  next => cases continues
  all_goals cases thread <;> rfl

end Finite

section Reading

variable {other : κ} {currentTime : Int}

def Call.ahead : Call → Nat
  | .started _ => 5
  | .readingNextRefreshTime _ => 4
  | .due _ => 3
  | .getting _ => 2
  | .gettingTokenString _ => 1
  | .idle | .reloading _ | .loaded _ _ | .setting _ _ | .stamping _ _ | .settingNextRefreshTime _ _ | .stamped _ |
    .leaving _ => 0

theorem Call.reloadHold_of_tokenHold {call : Call} (owns : call.tokenHold = .exclusive) :
    call.reloadHold = .exclusive := by
  cases call <;> first | rfl | cases owns

theorem Call.reloadHold_of_nextHold {call : Call} (owns : call.nextHold = .exclusive) :
    call.reloadHold = .exclusive := by
  cases call <;> first | rfl | cases owns

theorem proceed_of_reading (locked : Locked s) (reading : s.calls other = .reloading currentTime)
    (apart : thread ≠ other)
    (active : s.calls thread ≠ .idle) : ∃ s', step config (.proceed thread) s = some s' ∧
      s'.calls other = .reloading currentTime ∧ (s'.calls thread).ahead < (s.calls thread).ahead := by
  have owns : (s.calls other).reloadHold = .exclusive := by rw [reading]; rfl
  have released : (s.calls thread).reloadHold = .released := by
    by_contra holds
    exact apart (locked.reload.alone owns holds)
  have frame (call : Call) : Function.update s.calls thread call other = .reloading currentTime := by
    rw [Function.update_of_ne apart.symm, reading]
  -- Only the one that reads could hold the other locks alone, and does not yet.
  have alone (writer : κ) (holds : (s.calls writer).reloadHold = .exclusive) : writer = other :=
    locked.reload.alone owns (by rw [holds]; decide)
  cases at' : s.calls thread with
  | idle => exact absurd at' active
  | started startTime =>
    obtain ⟨lock, got⟩ := Option.ne_none_iff_exists'.mp
      ((locked.next.lockShared_ne_none_iff thread).mpr fun writer writes => by
      rw [alone writer (Call.reloadHold_of_nextHold writes), reading] at writes
      cases writes)
    refine ⟨_, by rw [step, at']; simp only [got]; rfl, frame _, ?_⟩
    simp [Call.ahead, State.moved]
  | readingNextRefreshTime startTime =>
    refine ⟨_, by rw [step, at'], frame _, ?_⟩
    simp only [State.moved, Function.update_self]
    split <;> simp [Call.ahead]
  | due startTime =>
    have taken : s.reloadLock.lock thread = none := by
      by_contra free
      have nobody := (locked.reload.lock_ne_none_iff thread).mp free other
      rw [owns] at nobody
      cases nobody
    refine ⟨_, by rw [step, at']; simp only [taken]; rfl, frame _, ?_⟩
    simp [Call.ahead, State.moved]
  | getting refresh =>
    obtain ⟨lock, got⟩ := Option.ne_none_iff_exists'.mp
      ((locked.token.lockShared_ne_none_iff thread).mpr fun writer writes => by
      rw [alone writer (Call.reloadHold_of_tokenHold writes), reading] at writes
      cases writes)
    refine ⟨_, by rw [step, at']; simp only [got]; rfl, frame _, ?_⟩
    simp [Call.ahead, State.moved]
  | gettingTokenString refresh =>
    refine ⟨_, by rw [step, at'], frame _, ?_⟩
    simp [Call.ahead, State.moved]
  | _ =>
    rw [at'] at released
    cases released

theorem run_of_reading (locked : Locked s) (reading : s.calls other = .reloading currentTime) (apart : thread ≠ other)
    {bound : Nat} (near : (s.calls thread).ahead ≤ bound) :
    ∃ count ≤ bound, ∃ s', run (step config) s (List.replicate count (.proceed thread)) = some s' ∧
      s'.calls thread = .idle ∧ s'.calls other = .reloading currentTime := by
  induction bound generalizing s with
  | zero =>
    refine ⟨0, le_rfl, s, rfl, ?_, reading⟩
    by_contra active
    obtain ⟨s', taken, -, less⟩ : ∃ s', step config (.proceed thread) s = some s' ∧ _ :=
      proceed_of_reading locked reading apart active
    omega
  | succ bound ih =>
    by_cases idle : s.calls thread = .idle
    next => exact ⟨0, Nat.zero_le _, s, rfl, idle, reading⟩
    next =>
      obtain ⟨between, taken, still, less⟩ := proceed_of_reading locked reading apart idle
      obtain ⟨count, low, s', rest, ends⟩ := ih (locked.step taken) still (by omega)
      exact ⟨count + 1, Nat.succ_le_succ low, s', Option.bind_eq_some_iff.mpr ⟨between, taken, rest⟩, ends⟩

theorem getMetadata_never_waits (config : Config) (now : Int) (contents : Bytes) (choices : List (Choice κ))
    (s : State κ)
    (reached : run (step config) (construct config now contents) choices = some s) (thread other : κ)
      (currentTime : Int)
    (reading : s.calls other = .reloading currentTime) (apart : thread ≠ other) :
    ∃ count ≤ 5, ∃ s', run (step config) s (List.replicate count (.proceed thread)) = some s' ∧
      s'.calls thread = .idle ∧ s'.calls other = .reloading currentTime :=
  run_of_reading (locked_run reached) reading apart (by cases s.calls thread <;> simp [Call.ahead])

theorem getMetadata_never_waits_two :
    ∃ s : State Bool,
      run (step ⟨false, 0⟩) (construct ⟨false, 0⟩ 0 [])
        [.getMetadata false, .proceed false, .proceed false, .proceed false, .getMetadata true] = some s ∧
      ∃ count ≤ 5, ∃ s', run (step ⟨false, 0⟩) s (List.replicate count (.proceed true)) = some s' ∧
        s'.calls true = .idle ∧ s'.calls false = .reloading 0 :=
  ⟨_, rfl, getMetadata_never_waits ⟨false, 0⟩ 0 []
    [.getMetadata false, .proceed false, .proceed false, .proceed false, .getMetadata true] _ rfl true false 0 rfl
      (by decide)⟩

end Reading

end BuildboxCommon.ReloadTokenAuthenticator
