import BuildboxCommon.ReloadTokenAuthenticator.GetMetadata

set_option autoImplicit false

namespace BuildboxCommon.ReloadTokenAuthenticator

open ByteString Locks Transitions

namespace Call

def pending : Call → Option Bytes
  | .loaded _ contents | .setting _ contents | .stamping _ contents | .settingNextRefreshTime _ contents =>
    some contents
  | .idle | .started _ | .readingNextRefreshTime _ | .due _ | .reloading _ | .stamped _ | .leaving _ | .getting _
  | .gettingTokenString _ => none

def written : Call → Option Bytes
  | .stamping _ contents | .settingNextRefreshTime _ contents => some contents
  | .idle | .started _ | .readingNextRefreshTime _ | .due _ | .reloading _ | .loaded _ _ | .setting _ _ | .stamped _
  | .leaving _ | .getting _ | .gettingTokenString _ => none

def startTime : Call → Option Int
  | .started currentTime | .readingNextRefreshTime currentTime | .due currentTime | .reloading currentTime
  | .loaded currentTime _ | .setting currentTime _ | .stamping currentTime _ | .settingNextRefreshTime currentTime _ =>
    some currentTime
  | .idle | .stamped _ | .leaving _ | .getting _ | .gettingTokenString _ => none

end Call

def Refresh.Assures (refreshDuration nextRefreshTime : Int) : Refresh → Prop
  | .skipped | .busy _ => True
  | .current currentTime => currentTime < nextRefreshTime
  | .reloaded currentTime => currentTime + refreshDuration ≤ nextRefreshTime

def Call.Assures (refreshDuration nextRefreshTime : Int) : Call → Prop
  | .stamped currentTime | .leaving currentTime => currentTime + refreshDuration ≤ nextRefreshTime
  | .getting refresh | .gettingTokenString refresh => refresh.Assures refreshDuration nextRefreshTime
  | .idle | .started _ | .readingNextRefreshTime _ | .due _ | .reloading _ | .loaded _ _ | .setting _ _ | .stamping _ _
  | .settingNextRefreshTime _ _ => True

theorem Refresh.Assures.mono {refreshDuration before after : Int} {refresh : Refresh}
    (assures : refresh.Assures refreshDuration before) (later : before ≤ after) :
    refresh.Assures refreshDuration after := by
  cases refresh with
  | skipped => trivial
  | busy currentTime => trivial
  | current currentTime => exact lt_of_lt_of_le assures later
  | reloaded currentTime => exact le_trans assures later

theorem Call.Assures.mono {refreshDuration before after : Int} {call : Call}
    (assures : call.Assures refreshDuration before)
    (later : before ≤ after) : call.Assures refreshDuration after := by
  cases call with
  | stamped currentTime => exact le_trans assures later
  | leaving currentTime => exact le_trans assures later
  | getting refresh => exact Refresh.Assures.mono assures later
  | gettingTokenString refresh => exact Refresh.Assures.mono assures later
  | _ => trivial

variable {κ : Type}

def Answer.IsToken (config : Config) (tokens : List (Bytes × Int)) (answer : Answer κ) (number : Nat) : Prop :=
  answer.lastLoad ≤ number ∧ ∃ nextRefreshTime, tokens[number]? = some (answer.authorization, nextRefreshTime) ∧
    answer.refresh.Assures config.refreshDuration nextRefreshTime

structure History (config : Config) (s : State κ) : Prop where
  last : ∃ earlier token, s.tokens = earlier ++ [(token, s.nextRefreshTime)] ∧
    ((∀ thread, (s.calls thread).written = none) → s.tokenString = token)
  written : ∀ thread contents, (s.calls thread).written = some contents → s.tokenString = bearer contents
  read : (∀ thread, (s.calls thread).pending = none) → s.loads.map bearer = s.tokens.map Prod.fst
  pending : ∀ thread contents, (s.calls thread).pending = some contents →
    s.loads.map bearer = s.tokens.map Prod.fst ++ [bearer contents]
  own : ∀ thread, s.lastLoad thread < s.loads.length ∧
    ((s.calls thread).pending = none → s.lastLoad thread < s.tokens.length)
  future : s.nextRefreshTime ≤ s.now + config.refreshDuration
  past : ∀ thread currentTime, (s.calls thread).startTime = some currentTime → currentTime ≤ s.now
  assured : ∀ thread, (s.calls thread).Assures config.refreshDuration s.nextRefreshTime
  answered : ∃ numbers : List Nat, numbers.Pairwise (· ≤ ·) ∧ (∀ number ∈ numbers, number < s.tokens.length) ∧
    List.Forall₂ (Answer.IsToken config s.tokens) s.answers numbers

namespace History

variable {config : Config} {s s' : State κ}

theorem relock (history : History config s) (reloadLock tokenStringLock nextRefreshTimeLock : Lock κ) :
    History config { s with
      reloadLock := reloadLock
      tokenStringLock := tokenStringLock
      nextRefreshTimeLock := nextRefreshTimeLock } :=
  ⟨history.last, history.written, history.read, history.pending, history.own, history.future, history.past,
    history.assured,
    history.answered⟩

variable [DecidableEq κ] {thread : κ}

theorem forall_update {p : Call → Prop} {calls : κ → Call} {call : Call} (rest : ∀ other, p (calls other))
    (here : p call) :
    ∀ other, p (Function.update calls thread call other) := by
  intro other
  by_cases self : other = thread
  next => rwa [self, Function.update_self]
  next =>
    rw [Function.update_of_ne self]
    exact rest other

theorem update_eq {α : Type} (f : Call → α) {calls : κ → Call} {call : Call} (same : f call = f (calls thread))
    (other : κ) :
    f (Function.update calls thread call other) = f (calls other) := by
  by_cases self : other = thread
  next => rw [self, Function.update_self, same]
  next => rw [Function.update_of_ne self]

theorem past_update (history : History config s) {call : Call}
    (past : ∀ currentTime, call.startTime = some currentTime → currentTime ≤ s.now) (other : κ) (currentTime : Int)
    (started : (Function.update s.calls thread call other).startTime = some currentTime) : currentTime ≤ s.now :=
  forall_update (p := fun call => ∀ currentTime, call.startTime = some currentTime →
    currentTime ≤ s.now) history.past past
    other currentTime started

theorem moved (history : History config s) (call : Call) (pending : call.pending = (s.calls thread).pending)
    (written : call.written = (s.calls thread).written)
      (past : ∀ currentTime, call.startTime = some currentTime → currentTime ≤ s.now)
    (assured : call.Assures config.refreshDuration s.nextRefreshTime) : History config (s.moved thread call) := by
  have sameWritten := update_eq Call.written written
  have samePending := update_eq Call.pending pending
  obtain ⟨earlier, token, tokens, current⟩ := history.last
  refine ⟨⟨earlier, token, tokens, fun none => current fun other => (sameWritten other).symm.trans (none other)⟩,
    fun other contents has => history.written other contents ((sameWritten other).symm.trans has),
    fun none => history.read fun other => (samePending other).symm.trans (none other),
    fun other contents has => history.pending other contents ((samePending other).symm.trans has),
    fun other => ⟨(history.own other).1, fun none => (history.own other).2 ((samePending other).symm.trans none)⟩,
    history.future, ?_, ?_, history.answered⟩
  next => exact history.past_update past
  next => exact forall_update history.assured assured

section Exclusive

variable {contents : Bytes} {currentTime : Int}

theorem pending_of_written {call : Call} (written : call.written = some contents) : call.pending = some contents := by
  cases call <;> first | exact written | cases written

theorem owns_of_pending {call : Call} (pending : call.pending = some contents) : call.reloadHold = .exclusive := by
  cases call <;> first | rfl | cases pending

theorem owns_of_written {call : Call} (written : call.written = some contents) : call.tokenHold = .exclusive := by
  cases call <;> first | rfl | cases written

-- No other thread has anything pending beside the one that reloads.
omit [DecidableEq κ] in
theorem eq_of_pending (locked : Locked s) (owns : (s.calls thread).reloadHold = .exclusive) {other : κ}
    (pending : (s.calls other).pending = some contents) : other = thread := by
  refine locked.reload.alone owns ?_
  rw [owns_of_pending pending]
  decide

theorem update_pending (locked : Locked s) (owns : (s.calls thread).reloadHold = .exclusive) {call : Call} {other : κ}
    (pending : (Function.update s.calls thread call other).pending = some contents) :
    other = thread ∧ call.pending = some contents := by
  by_cases self : other = thread
  next =>
    rw [self, Function.update_self] at pending
    exact ⟨self, pending⟩
  next =>
    rw [Function.update_of_ne self] at pending
    exact absurd (eq_of_pending locked owns pending) self

theorem update_written (locked : Locked s) (owns : (s.calls thread).reloadHold = .exclusive) {call : Call} {other : κ}
    (written : (Function.update s.calls thread call other).written = some contents) : call.written = some contents := by
  by_cases self : other = thread
  next => rwa [self, Function.update_self] at written
  next =>
    rw [Function.update_of_ne self] at written
    exact absurd (eq_of_pending locked owns (pending_of_written written)) self

theorem loaded (history : History config s) (locked : Locked s) (reloading : s.calls thread = .reloading currentTime)
    (contents : Bytes) : History config { s.moved thread (.loaded currentTime contents) with
      loads := s.loads ++ [contents]
      lastLoad := Function.update s.lastLoad thread s.loads.length } := by
  have owns : (s.calls thread).reloadHold = .exclusive := by rw [reloading]; rfl
  have none (other : κ) : (s.calls other).pending = none := by
    by_contra some
    obtain ⟨contents', pending⟩ := Option.ne_none_iff_exists'.mp some
    obtain rfl := eq_of_pending locked owns pending
    rw [reloading] at pending
    cases pending
  have sameWritten (other : κ) :
      (Function.update s.calls thread (.loaded currentTime contents) other).written = (s.calls other).written :=
    update_eq Call.written (by rw [reloading]; rfl) other
  obtain ⟨earlier, token, tokens, current⟩ := history.last
  refine ⟨⟨earlier, token, tokens, fun none => current fun other => (sameWritten other).symm.trans (none other)⟩,
    fun other contents has => history.written other contents ((sameWritten other).symm.trans has), fun nothing => ?_,
    fun other contents' has => ?_, fun other => ?_, history.future, ?_, ?_, history.answered⟩
  next =>
    have mine := nothing thread
    simp only [State.moved, Function.update_self] at mine
    cases mine
  next =>
    obtain ⟨-, has⟩ := update_pending locked owns has
    obtain rfl := Option.some.inj has
    rw [List.map_append, history.read none]
    rfl
  next =>
    rw [List.length_append, List.length_singleton]
    by_cases self : other = thread
    next =>
      subst self
      simp only [State.moved, Function.update_self]
      exact ⟨Nat.lt_succ_self _, fun nothing => by cases nothing⟩
    next =>
      simp only [State.moved, Function.update_of_ne self]
      exact ⟨Nat.lt_succ_of_lt (history.own other).1, (history.own other).2⟩
  next =>
    refine history.past_update fun started same => history.past thread started ?_
    rw [reloading]
    exact same
  next => exact forall_update history.assured trivial

theorem set (history : History config s) (locked : Locked s)
    (setting : s.calls thread = .setting currentTime contents) :
    History config { s.moved thread (.stamping currentTime contents) with tokenString := bearer contents } := by
  have owns : (s.calls thread).reloadHold = .exclusive := by rw [setting]; rfl
  have samePending (other : κ) :
      (Function.update s.calls thread (.stamping currentTime contents) other).pending = (s.calls other).pending :=
    update_eq Call.pending (by rw [setting]; rfl) other
  obtain ⟨earlier, token, tokens, -⟩ := history.last
  refine ⟨⟨earlier, token, tokens, fun none => ?_⟩, fun other contents' has => ?_,
    fun none => history.read fun other => (samePending other).symm.trans (none other),
    fun other contents has => history.pending other contents ((samePending other).symm.trans has),
    fun other => ⟨(history.own other).1, fun none => (history.own other).2 ((samePending other).symm.trans none)⟩,
    history.future, ?_, ?_, history.answered⟩
  next =>
    have mine := none thread
    simp only [State.moved, Function.update_self] at mine
    cases mine
  next =>
    obtain rfl := Option.some.inj (update_written locked owns has)
    rfl
  next =>
    refine history.past_update fun started same => history.past thread started ?_
    rw [setting]
    exact same
  next => exact forall_update history.assured trivial

theorem stamped (history : History config s) (locked : Locked s)
    (setting : s.calls thread = .settingNextRefreshTime currentTime contents) :
    History config { s.moved thread (.stamped currentTime) with
      nextRefreshTime := s.now + config.refreshDuration
      tokens := s.tokens ++ [(bearer contents, s.now + config.refreshDuration)] } := by
  have owns : (s.calls thread).reloadHold = .exclusive := by rw [setting]; rfl
  have string := history.written thread contents (by rw [setting]; rfl)
  have loads := history.pending thread contents (by rw [setting]; rfl)
  have before := history.past thread currentTime (by rw [setting]; rfl)
  refine ⟨⟨s.tokens, bearer contents, rfl, fun _ => string⟩, fun other contents' has => ?_, fun _ => ?_,
    fun other contents' has => ?_, fun other => ⟨(history.own other).1, fun _ => ?_⟩, le_rfl, ?_, ?_, ?_⟩
  next => cases update_written locked owns has
  next =>
    refine loads.trans ?_
    rw [List.map_append, List.map_singleton]
  next => cases (update_pending locked owns has).2
  next =>
    have lengths := congrArg List.length loads
    rw [List.length_map, List.length_append, List.length_map, List.length_singleton] at lengths
    rw [List.length_append, List.length_singleton, ← lengths]
    exact (history.own other).1
  next => exact history.past_update fun _ none => by cases none
  next =>
    refine forall_update (fun other => (history.assured other).mono history.future) ?_
    exact Int.add_le_add_right before config.refreshDuration
  next =>
    obtain ⟨numbers, sorted, inside, answered⟩ := history.answered
    refine ⟨numbers, sorted, fun number member => ?_, answered.imp fun answer number isToken => ?_⟩
    next =>
      rw [List.length_append]
      exact Nat.lt_add_right _ (inside number member)
    next =>
      obtain ⟨newer, nextRefreshTime, found, assures⟩ := isToken
      have low := (List.getElem?_eq_some_iff.mp found).1
      exact ⟨newer, nextRefreshTime, by rw [List.getElem?_append_left low, found], assures⟩

theorem answer (history : History config s) (locked : Locked s) {refresh : Refresh}
    (getting : s.calls thread = .gettingTokenString refresh) :
    History config { s.moved thread .idle with
      answers := s.answers ++ [⟨thread, refresh, s.lastLoad thread, s.tokenString⟩] } := by
  have shares : (s.calls thread).tokenHold = .shared := by rw [getting]; rfl
  have none (other : κ) : (s.calls other).written = none := by
    by_contra some
    obtain ⟨contents, written⟩ := Option.ne_none_iff_exists'.mp some
    have mine : thread = other := locked.token.alone (owns_of_written written) (by rw [shares]; decide)
    rw [← mine, getting] at written
    cases written
  have kept := @moved _ config s _ thread history .idle (by rw [getting]; rfl) (by rw [getting]; rfl)
    (fun _ none => by cases none) trivial
  refine ⟨kept.last, kept.written, kept.read, kept.pending, kept.own, kept.future, kept.past, kept.assured, ?_⟩
  obtain ⟨earlier, token, tokens, current⟩ := history.last
  obtain ⟨numbers, sorted, inside, answered⟩ := history.answered
  have length : s.tokens.length = earlier.length + 1 := by rw [tokens, List.length_append, List.length_singleton]
  refine ⟨numbers ++ [earlier.length], ?_, ?_, ?_⟩
  next =>
    rw [List.pairwise_append]
    refine ⟨sorted, List.pairwise_singleton _ _, fun number member last only => ?_⟩
    have low := inside number member
    rw [List.mem_singleton.mp only]
    omega
  next =>
    intro number member
    rcases List.mem_append.mp member with before | last
    next => exact inside number before
    next =>
      rw [List.mem_singleton.mp last]
      exact length.symm ▸ Nat.lt_succ_self _
  next =>
    refine List.rel_append answered (List.Forall₂.cons ?_ .nil)
    refine ⟨?_, s.nextRefreshTime, ?_, ?_⟩
    next =>
      have low := (history.own thread).2 (by rw [getting]; rfl)
      rw [length] at low
      exact Nat.le_of_lt_succ low
    next =>
      have string := current none
      have last : s.tokens[earlier.length]? = some (token, s.nextRefreshTime) := by
        rw [tokens, List.getElem?_concat_length]
      exact last.trans (congrArg (fun token => some (token, s.nextRefreshTime)) string.symm)
    next =>
      have mine := history.assured thread
      rwa [getting] at mine

end Exclusive

theorem proceed (history : History config s) (locked : Locked s)
    (taken : ReloadTokenAuthenticator.step config (.proceed thread) s = some s') : History config s' := by
  have past {call : Call} (same : call.startTime = (s.calls thread).startTime) (currentTime : Int)
      (started : call.startTime = some currentTime) : currentTime ≤ s.now :=
    history.past thread currentTime (same.symm.trans started)
  have assured := history.assured thread
  cases at' : s.calls thread with
  | idle => simp [ReloadTokenAuthenticator.step, at'] at taken
  | reloading currentTime => simp [ReloadTokenAuthenticator.step, at'] at taken
  | started currentTime =>
    simp only [ReloadTokenAuthenticator.step, at', Option.map_eq_some_iff] at taken
    obtain ⟨lock, -, rfl⟩ := taken
    exact (history.moved (.readingNextRefreshTime currentTime) (by rw [at']; rfl) (by rw [at']; rfl)
      (past (by rw [at']; rfl)) trivial).relock _ _ _
  | readingNextRefreshTime currentTime =>
    simp only [ReloadTokenAuthenticator.step, at', Option.some.injEq] at taken
    subst taken
    split
    next => exact (history.moved (.due currentTime) (by rw [at']; rfl) (by rw [at']; rfl)
      (past (by rw [at']; rfl)) trivial).relock _ _ _
    next later =>
      exact (history.moved (.getting (.current currentTime)) (by rw [at']; rfl) (by rw [at']; rfl)
        (fun _ none => by cases none) (not_le.mp later)).relock _ _ _
  | due currentTime =>
    simp only [ReloadTokenAuthenticator.step, at'] at taken
    split at taken
    next lock got =>
      obtain rfl := Option.some.inj taken
      exact (history.moved (.reloading currentTime) (by rw [at']; rfl) (by rw [at']; rfl)
        (past (by rw [at']; rfl)) trivial).relock _ _ _
    next =>
      obtain rfl := Option.some.inj taken
      exact history.moved (.getting (.busy currentTime)) (by rw [at']; rfl) (by rw [at']; rfl)
        (fun _ none => by cases none) trivial
  | loaded currentTime contents =>
    simp only [ReloadTokenAuthenticator.step, at', Option.map_eq_some_iff] at taken
    obtain ⟨lock, -, rfl⟩ := taken
    exact (history.moved (.setting currentTime contents) (by rw [at']; rfl) (by rw [at']; rfl)
      (past (by rw [at']; rfl)) trivial).relock _ _ _
  | setting currentTime contents =>
    simp only [ReloadTokenAuthenticator.step, at', Option.some.injEq] at taken
    subst taken
    exact history.set locked at'
  | stamping currentTime contents =>
    simp only [ReloadTokenAuthenticator.step, at', Option.map_eq_some_iff] at taken
    obtain ⟨lock, -, rfl⟩ := taken
    exact (history.moved (.settingNextRefreshTime currentTime contents) (by rw [at']; rfl) (by rw [at']; rfl)
      (past (by rw [at']; rfl)) trivial).relock _ _ _
  | settingNextRefreshTime currentTime contents =>
    simp only [ReloadTokenAuthenticator.step, at', Option.some.injEq] at taken
    subst taken
    exact (history.stamped locked at').relock _ _ _
  | stamped currentTime =>
    simp only [ReloadTokenAuthenticator.step, at', Option.some.injEq] at taken
    subst taken
    rw [at'] at assured
    exact (history.moved (.leaving currentTime) (by rw [at']; rfl) (by rw [at']; rfl)
      (fun _ none => by cases none) assured).relock _ _ _
  | leaving currentTime =>
    simp only [ReloadTokenAuthenticator.step, at', Option.some.injEq] at taken
    subst taken
    rw [at'] at assured
    exact (history.moved (.getting (.reloaded currentTime)) (by rw [at']; rfl) (by rw [at']; rfl)
      (fun _ none => by cases none) assured).relock _ _ _
  | getting refresh =>
    simp only [ReloadTokenAuthenticator.step, at', Option.map_eq_some_iff] at taken
    obtain ⟨lock, -, rfl⟩ := taken
    rw [at'] at assured
    exact (history.moved (.gettingTokenString refresh) (by rw [at']; rfl) (by rw [at']; rfl)
      (fun _ none => by cases none) assured).relock _ _ _
  | gettingTokenString refresh =>
    simp only [ReloadTokenAuthenticator.step, at', Option.some.injEq] at taken
    subst taken
    exact (history.answer locked at').relock _ _ _

theorem step {choice : Choice κ} (history : History config s) (locked : Locked s)
    (taken : ReloadTokenAuthenticator.step config choice s = some s') : History config s' := by
  cases choice with
  | tick elapsed =>
    obtain rfl := Option.some.inj taken
    have later : s.now ≤ s.now + elapsed := Int.le_add_of_nonneg_right (Int.natCast_nonneg elapsed)
    exact ⟨history.last, history.written, history.read, history.pending, history.own,
      history.future.trans (Int.add_le_add_right later _),
      fun thread currentTime started => (history.past thread currentTime started).trans later, history.assured,
      history.answered⟩
  | getMetadata thread =>
    simp only [ReloadTokenAuthenticator.step] at taken
    split at taken
    next idle =>
      obtain rfl := Option.some.inj taken
      split
      next =>
        exact history.moved (.getting .skipped) (by rw [idle]; rfl) (by rw [idle]; rfl) (fun _ none => by cases none) trivial
      next =>
        exact history.moved (.started s.now) (by rw [idle]; rfl) (by rw [idle]; rfl)
          (fun _ now => (Option.some.inj now).symm.le) trivial
    next => cases taken
  | tryLockFails thread =>
    simp only [ReloadTokenAuthenticator.step] at taken
    split at taken
    next due =>
      obtain rfl := Option.some.inj taken
      exact history.moved (.getting (.busy _)) (by rw [due]; rfl) (by rw [due]; rfl)
        (fun _ none => by cases none) trivial
    next => cases taken
  | getFileContents thread result =>
    simp only [ReloadTokenAuthenticator.step] at taken
    split at taken
    next reloading =>
      cases result with
      | error e =>
        obtain rfl := Option.some.inj taken
        exact (history.moved .idle (by rw [reloading]; rfl) (by rw [reloading]; rfl)
          (fun _ none => by cases none) trivial).relock _ _ _
      | ok contents =>
        obtain rfl := Option.some.inj taken
        exact history.loaded locked reloading contents
    next => cases taken
  | proceed thread => exact history.proceed locked taken

end History

theorem history_construct (config : Config) (now : Int) (contents : Bytes) :
    History config (construct config now contents : State κ) where
  last := ⟨[], bearer contents, rfl, fun _ => rfl⟩
  written := fun _ _ none => by cases none
  read := fun _ => rfl
  pending := fun _ _ none => by cases none
  own := fun _ => ⟨Nat.zero_lt_one, fun _ => Nat.zero_lt_one⟩
  future := le_rfl
  past := fun _ _ none => by cases none
  assured := fun _ => trivial
  answered := ⟨[], .nil, fun _ none => absurd none List.not_mem_nil, .nil⟩

theorem History.tokens_prefix {config : Config} {s : State κ} (history : History config s) :
    s.tokens.map Prod.fst <+: s.loads.map bearer := by
  by_cases none : ∀ thread, (s.calls thread).pending = none
  next => exact ⟨[], by rw [List.append_nil, history.read none]⟩
  next =>
    obtain ⟨thread, some⟩ := not_forall.mp none
    obtain ⟨contents, pending⟩ := Option.ne_none_iff_exists'.mp some
    exact ⟨[bearer contents], (history.pending thread contents pending).symm⟩

theorem History.load_of_isToken {config : Config} {s : State κ} (history : History config s) {answer : Answer κ}
    {number : Nat}
    (isToken : answer.IsToken config s.tokens number) :
    ∃ load, s.loads[number]? = some load ∧ answer.authorization = bearer load := by
  obtain ⟨rest, loads⟩ := history.tokens_prefix
  obtain ⟨-, nextRefreshTime, found, -⟩ := isToken
  have low := (List.getElem?_eq_some_iff.mp found).1
  have named : (s.loads.map bearer)[number]? = some answer.authorization := by
    rw [← loads, List.getElem?_append_left (by rwa [List.length_map]), List.getElem?_map, found]
    rfl
  rw [List.getElem?_map, Option.map_eq_some_iff] at named
  obtain ⟨load, read, same⟩ := named
  exact ⟨load, read, same.symm⟩

section Runs

variable [DecidableEq κ] {config : Config} {s : State κ} {now : Int} {contents : Bytes} {choices : List (Choice κ)}

theorem history_run (reached : run (step config) (construct config now contents) choices = some s) :
    History config s := by
  have each (choice : Choice κ) (s s' : State κ) (taken : step config choice s = some s')
      (both : Locked s ∧ History config s) : Locked s' ∧ History config s' :=
    ⟨both.1.step taken, both.2.step both.1 taken⟩
  exact (run_invariant each reached ⟨locked_construct config now contents, history_construct config now contents⟩).2

theorem getMetadata_in_order (config : Config) (now : Int) (contents : Bytes) (choices : List (Choice κ)) (s : State κ)
    (reached : run (step config) (construct config now contents) choices = some s) :
    ∃ numbers : List Nat, numbers.Pairwise (· ≤ ·) ∧ List.Forall₂ (fun (answer : Answer κ) number =>
      ∃ load, s.loads[number]? = some load ∧ answer.authorization = bearer load) s.answers numbers := by
  have history := history_run reached
  obtain ⟨numbers, sorted, -, answered⟩ := history.answered
  exact ⟨numbers, sorted, answered.imp fun _ _ isToken => history.load_of_isToken isToken⟩

def reloadChoices : List (Choice Bool) :=
  [.getMetadata false, .proceed false, .proceed false, .proceed false, .getMetadata true] ++
    List.replicate 5 (.proceed true) ++ [.getFileContents false (.ok [98])] ++ List.replicate 8 (.proceed false)

theorem getMetadata_in_order_reloaded :
    ∃ s : State Bool, run (step ⟨false, 0⟩) (construct ⟨false, 0⟩ 0 [97]) reloadChoices = some s ∧
      s.answers = [⟨true, .busy 0, 0, bearer [97]⟩, ⟨false, .reloaded 0, 1, bearer [98]⟩] ∧
      ∃ numbers : List Nat, numbers.Pairwise (· ≤ ·) ∧ List.Forall₂ (fun (answer : Answer Bool) number =>
        ∃ load, s.loads[number]? = some load ∧ answer.authorization = bearer load) s.answers numbers :=
  ⟨_, rfl, rfl, getMetadata_in_order ⟨false, 0⟩ 0 [97] reloadChoices _ rfl⟩

theorem getMetadata_fresh (config : Config) (now : Int) (contents : Bytes) (choices : List (Choice κ)) (s : State κ)
    (reached : run (step config) (construct config now contents) choices = some s) (answer : Answer κ)
    (given : answer ∈ s.answers) : ∃ number load nextRefreshTime,
      s.loads[number]? = some load ∧ answer.authorization = bearer load ∧ answer.lastLoad ≤ number ∧
        s.tokens[number]? = some (answer.authorization, nextRefreshTime) ∧
          answer.refresh.Assures config.refreshDuration nextRefreshTime := by
  have history := history_run reached
  obtain ⟨numbers, -, -, answered⟩ := history.answered
  obtain ⟨index, low, rfl⟩ := List.getElem_of_mem given
  have isToken := answered.get low (answered.length_eq ▸ low)
  obtain ⟨load, read, same⟩ := history.load_of_isToken isToken
  obtain ⟨newer, nextRefreshTime, found, assures⟩ := isToken
  exact ⟨_, load, nextRefreshTime, read, same, newer, found, assures⟩

theorem getMetadata_fresh_reloaded :
    ∃ s : State Bool, run (step ⟨false, 0⟩) (construct ⟨false, 0⟩ 0 [97]) reloadChoices = some s ∧
      ∃ number load nextRefreshTime, s.loads[number]? = some load ∧ bearer [98] = bearer load ∧ 1 ≤ number ∧
        s.tokens[number]? = some (bearer [98], nextRefreshTime) ∧ Refresh.Assures 0 nextRefreshTime (.reloaded 0) :=
  ⟨_, rfl, getMetadata_fresh ⟨false, 0⟩ 0 [97] reloadChoices _ rfl ⟨false, .reloaded 0, 1, bearer [98]⟩
    (List.mem_cons_of_mem _ List.mem_cons_self)⟩

end Runs

end BuildboxCommon.ReloadTokenAuthenticator
