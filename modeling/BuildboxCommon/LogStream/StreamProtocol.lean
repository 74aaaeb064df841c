import BuildboxCommon.LogStream.LogStreamWriter

set_option autoImplicit false

namespace BuildboxCommon.LogStreamWriter

open ByteString Effect

variable {α σ : Type}

def Event.onStream : Event → Bool
  | .wrote _ _ | .writesDone | .finished _ _ => true
  | .queried _ | .opened | .ended _ _ => false

def Event.sent : Event → Bool
  | .ended _ _ => false
  | .queried _ | .opened | .wrote _ _ | .writesDone | .finished _ _ => true

structure Closes (log : List Event) : Prop where
  finished : ∀ before after, log = before ++ .writesDone :: after →
    ∃ status committedSize, after.filter Event.onStream = [.finished status committedSize]
  silent : ∀ before answer after, log = before ++ .ended .commit answer :: after → ∀ event ∈ after, event.sent = false

section Retries

variable (invocation : EStateM Exn (LogStreamWriter σ) Status)

theorem issueRequest_zero : issueRequest invocation 0 = invocation >>= fun status => pure status.ok := by
  simp only [issueRequest, GrpcRetrier.issueRequest, bind_assoc, pure_bind]
  congr
  funext status
  cases ok : status.ok <;> cases again : GrpcRetrier.statusIsRetryable status <;> simp [ok]

theorem issueRequest_succ (retries : Nat) : issueRequest invocation (retries + 1) = invocation >>= fun status =>
    if status.ok || !GrpcRetrier.statusIsRetryable status then pure status.ok else issueRequest invocation retries := by
  rw [issueRequest, GrpcRetrier.issueRequest]
  simp only [bind_assoc, pure_bind]
  congr
  funext status
  split
  next => simp
  next => rfl

variable {invocation} {start sofar : LogStreamWriter σ → Prop}

theorem issueRequest_first (first : Runs start invocation (fun _ => sofar) sofar)
    (again : Runs sofar invocation (fun _ => sofar) sofar) (retries : Nat) :
    Runs start (issueRequest invocation retries) (fun _ => sofar) sofar := by
  induction retries generalizing start with
  | zero =>
    rw [issueRequest_zero]
    exact first.bind fun _ => .pure fun _ => id
  | succ retries ih =>
    rw [issueRequest_succ]
    exact first.bind fun _ => .ite (fun _ => .pure fun _ => id) fun _ => ih again

end Retries

section Kept

def Holds (kept : List Event → Bool → Prop) (w : LogStreamWriter σ) : Prop := kept w.log w.writeCommitted

def KeptBy (kept : List Event → Bool → Prop) (allowed : Event → Prop) : Prop :=
  ∀ log committed event, allowed event → kept log committed → kept (log ++ [event]) committed

variable {kept : List Event → Bool → Prop} {allowed : Event → Prop} (closed : KeptBy kept allowed)
  (stub : LogStreamStub σ)

include closed

theorem logged_keeps {event : α → Event} (known : ∀ a, allowed (event a)) (call : StateM σ α) :
    Runs (Holds kept) (logged event call) (fun _ => Holds kept) (Holds kept) :=
  logged_runs fun a w _ held => closed w.log w.writeCommitted (event a) (known a) held

theorem openStream_keeps (known : allowed .opened) {raised : LogStreamWriter σ → Prop} :
    Runs (Holds kept) (openStream stub) (fun _ => Holds kept) raised := by
  intro w held
  unfold openStream
  split_ifs
  next => exact held
  next => exact closed _ _ .opened known held

theorem putRequest_keeps (known : allowed .opened) {request : WriteRequest}
    (wrote : ∀ accepted, allowed (.wrote request accepted)) :
    Runs (Holds kept) (putRequest stub request) (fun _ => Holds kept) (Holds kept) :=
  (openStream_keeps closed stub known).bind fun _ => logged_keeps closed wrote _

omit closed in
theorem modify_keeps {change : LogStreamWriter σ → LogStreamWriter σ}
    (same : ∀ w, (change w).log = w.log ∧ (change w).writeCommitted = w.writeCommitted) :
    Runs (Holds kept) (modify change : EStateM Exn _ _) (fun _ => Holds kept) (Holds kept) :=
  .modify fun w held => by rwa [Holds, (same w).1, (same w).2]

theorem finish_keeps (known : ∀ status committedSize, allowed (.finished status committedSize)) :
    Runs (Holds kept) (finish stub) (fun _ => Holds kept) (Holds kept) :=
  (logged_keeps closed (fun answer : Status × Int => known answer.1 answer.2) _).bind fun _ =>
    (modify_keeps (by simp)).bind fun _ => .pure fun _ => id

section First

variable {start : LogStreamWriter σ → Prop}

omit closed in
theorem writeInvocation_first {request : WriteRequest}
    (first : Runs start (putRequest stub request) (fun _ => Holds kept) (Holds kept)) :
    Runs start (writeInvocation stub request) (fun _ => Holds kept) (Holds kept) :=
  first.bind fun _ => .ite (fun _ => .pure fun _ => id) fun _ => .pure fun _ => id

theorem commitInvocation_first (known : ∀ event, event.sent = true → allowed event) {request : WriteRequest}
    (first : Runs start (putRequest stub request) (fun _ => Holds kept) (Holds kept)) :
    Runs start (commitInvocation stub request) (fun _ => Holds kept) (Holds kept) := by
  refine first.bind fun accepted => .ite (fun _ => .pure fun _ => id) fun _ => ?_
  refine (logged_keeps closed (fun _ => known _ rfl) _).bind fun _ => ?_
  refine (finish_keeps closed stub fun _ _ => known _ rfl).bind fun status => .get fun w held => ?_
  exact .ite (fun _ => .pure fun s same => same ▸ held) fun _ => .pure fun s same => same ▸ held

theorem write_first (queried : ∀ status, allowed (.queried status)) (opened : allowed .opened)
    (wrote : ∀ request accepted, request.finishWrite = false → allowed (.wrote request accepted))
    (thrown : ∀ w, start w → w.writeCommitted = true → Holds kept w)
    (query : ∀ name, Runs start (logged .queried (stub.queryWriteStatus name)) (fun _ => Holds kept) (Holds kept))
    (put : ∀ request, Runs start (putRequest stub request) (fun _ => Holds kept) (Holds kept)) (data : Bytes) :
    Runs start (write stub data) (fun _ => Holds kept) (Holds kept) := by
  have kept' {request : WriteRequest} (data : request.finishWrite = false) :=
    putRequest_keeps closed stub opened fun accepted => wrote request accepted data
  have streamed {start : LogStreamWriter σ → Prop} (put : ∀ request, request.finishWrite = false →
      Runs start (putRequest stub request) (fun _ => Holds kept) (Holds kept)) :
      Runs start (writeToStream stub data) (fun _ => Holds kept) (Holds kept) := by
    refine .get fun w started => ?_
    have issued := issueRequest_first
      (writeInvocation_first stub (put ⟨w.resourceName, w.writeOffset, data, false⟩ rfl))
      (writeInvocation_first stub (kept' rfl)) w.grpcRetryLimit
    refine (issued.starting started).bind fun _ => .ite (fun _ => ?_) fun _ => .pure fun _ => id
    exact (modify_keeps (by simp)).bind fun _ => .pure fun _ => id
  refine .get fun w started => .ite
    (fun committed => .throw fun s same => same ▸ thrown w started committed) fun _ => ?_
  refine .ite (fun _ => (streamed fun request _ => put request).starting started) fun _ => ?_
  have asked : Runs start (queryStreamWriteStatus stub) (fun _ => Holds kept) (Holds kept) :=
    .get fun w started => (issueRequest_first (query w.resourceName) (logged_keeps closed queried _)
      w.grpcRetryLimit).starting started
  refine (asked.starting started).bind fun ready => (modify_keeps (by simp)).bind fun _ => ?_
  exact .ite (fun _ => streamed fun request => kept') fun _ => .pure fun _ => id

theorem commit_first (known : ∀ event, event.sent = true → allowed event)
    (either : ∀ log committed, kept log committed → kept log true)
    (thrown : ∀ w, start w → w.writeCommitted = true → Holds kept w)
    (put : ∀ request, Runs start (putRequest stub request) (fun _ => Holds kept) (Holds kept)) :
    Runs start (commit stub) (fun _ => Holds kept) (Holds kept) := by
  refine .get fun w started => .ite
    (fun committed => .throw fun s same => same ▸ thrown w started committed) fun _ => ?_
  have again := commitInvocation_first closed stub known
    (putRequest_keeps closed stub (known _ rfl) fun _ => known (.wrote ⟨w.resourceName, w.writeOffset, [], true⟩ _) rfl)
  have issued := issueRequest_first (commitInvocation_first closed stub known (put _)) again w.grpcRetryLimit
  refine (issued.starting started).bind fun _ => .ite (fun _ => ?_) fun _ => .pure fun _ => id
  exact (Runs.modify fun w held => either w.log w.writeCommitted held).bind fun _ => .pure fun _ => id

end First

end Kept

section Grown

variable {kept : List Event → Bool → Prop} (stub : LogStreamStub σ)

theorem perform_of_runs {start : LogStreamWriter σ → Prop} {call : Call}
    (last : ∀ answer log committed, kept log committed → kept (log ++ [.ended call answer]) committed)
    (runs : Runs start (bodyOf stub call) (fun _ => Holds kept) (Holds kept)) {w : LogStreamWriter σ}
      (started : start w) :
    Holds kept (perform stub w call) := by
  have run := runs w started
  unfold perform
  cases outcome : bodyOf stub call w with
  | ok answer after =>
    rw [outcome] at run
    exact last _ _ _ run
  | error e after =>
    rw [outcome] at run
    exact last _ _ _ run

theorem perform_first (closed : KeptBy kept fun _ => True)
    (either : ∀ log committed, kept log committed → kept log true) {start : LogStreamWriter σ → Prop}
    (thrown : ∀ w, start w → w.writeCommitted = true → Holds kept w)
    (query : ∀ name, Runs start (logged .queried (stub.queryWriteStatus name)) (fun _ => Holds kept) (Holds kept))
    (put : ∀ request, Runs start (putRequest stub request) (fun _ => Holds kept) (Holds kept)) (call : Call)
    {w : LogStreamWriter σ} (started : start w) : Holds kept (perform stub w call) := by
  have ended : Runs start (bodyOf stub call) (fun _ => Holds kept) (Holds kept) := by
    cases call with
    | write data =>
      exact write_first closed stub (fun _ => trivial) trivial (fun _ _ _ => trivial) thrown query put data
    | commit => exact commit_first closed stub (fun _ _ => trivial) either thrown put
  exact perform_of_runs stub (fun _ _ _ => closed _ _ _ trivial) ended started

theorem performAll_keeps (closed : KeptBy kept fun _ => True)
    (either : ∀ log committed, kept log committed → kept log true) (calls : List Call) {w : LogStreamWriter σ}
    (held : Holds kept w) : Holds kept (performAll stub w calls) := by
  induction calls generalizing w with
  | nil => exact held
  | cons call calls ih =>
    refine ih (perform_first stub closed either (fun _ held _ => held) (fun _ => ?_) (fun _ => ?_) call held)
    next => exact logged_keeps closed (fun _ => trivial) _
    next => exact putRequest_keeps closed stub trivial fun _ => trivial

def Sending (base log : List Event) (_ : Bool) : Prop :=
  ∃ more, log = base ++ more ∧ ∃ event ∈ more, event.sent = true

theorem Sending.closed (base : List Event) : KeptBy (Sending base) fun _ => True := by
  rintro log committed event - ⟨more, rfl, first, member, sent⟩
  exact ⟨more ++ [event], List.append_assoc _ _ _, first, List.mem_append_left _ member, sent⟩

theorem logged_sends {base : List Event} {event : α → Event} (sent : ∀ a, (event a).sent = true) (call : StateM σ α) :
    Runs (Holds fun log _ => base <+: log) (logged event call) (fun _ => Holds (Sending base))
      (Holds (Sending base)) := by
  refine logged_runs fun a w server => ?_
  rintro ⟨more, log⟩
  exact ⟨more ++ [event a], by rw [← log, List.append_assoc], event a, by simp, sent a⟩

theorem perform_sends {w : LogStreamWriter σ} (uncommitted : w.writeCommitted = false) (call : Call) :
    Sending w.log (perform stub w call).log (perform stub w call).writeCommitted := by
  have grows : KeptBy (fun log _ => w.log <+: log) fun _ => True :=
    fun log _ event _ grown => grown.trans (List.prefix_append _ _)
  have started : Holds (fun log _ => w.log <+: log) w := List.prefix_refl _
  have opened := @openStream_keeps σ _ _ grows stub trivial (Holds (Sending w.log))
  refine @perform_first σ (Sending w.log) stub (Sending.closed w.log) (fun _ _ => id) (fun s => s = w)
    (fun s same committed => ?_) (fun name => (logged_sends (fun _ => rfl) _).starting started)
    (fun request => (opened.starting started).bind fun _ => logged_sends (fun _ => rfl) _) call w rfl
  simp [same, uncommitted] at committed

def Quiet (event : Event) : Prop := event ≠ .writesDone ∧ ∀ answer, event ≠ .ended .commit answer

def Uncommitted (log : List Event) (committed : Bool) : Prop := committed = false ∧ ∀ event ∈ log, Quiet event

theorem Uncommitted.closed : KeptBy Uncommitted Quiet := by
  rintro log committed event quiet ⟨rfl, every⟩
  refine ⟨rfl, fun other member => ?_⟩
  rcases List.mem_append.mp member with old | new
  next => exact every other old
  next => exact List.mem_singleton.mp new ▸ quiet

theorem perform_write_uncommitted (data : Bytes) {w : LogStreamWriter σ} (held : Holds Uncommitted w) :
    Holds Uncommitted (perform stub w (.write data)) := by
  have queried (status : Status) : Quiet (.queried status) := ⟨nofun, nofun⟩
  have opened : Quiet .opened := ⟨nofun, nofun⟩
  have wrote (request : WriteRequest) (accepted : Bool) : Quiet (.wrote request accepted) := ⟨nofun, nofun⟩
  have ended := write_first Uncommitted.closed stub queried opened (fun request accepted _ => wrote request accepted)
    (fun _ held _ => held) (fun _ => logged_keeps Uncommitted.closed queried _)
    (fun request => putRequest_keeps Uncommitted.closed stub opened (wrote request)) data
  have last (answer : Except Exn Bool) : Quiet (.ended (.write data) answer) := ⟨nofun, nofun⟩
  exact @perform_of_runs σ Uncommitted stub _ (.write data)
    (fun _ _ _ => Uncommitted.closed _ _ _ (last _)) ended w held

theorem performAll_uncommitted {calls : List Call} (writes : .commit ∉ calls) {w : LogStreamWriter σ}
    (held : Holds Uncommitted w) : Holds Uncommitted (performAll stub w calls) := by
  induction calls generalizing w with
  | nil => exact held
  | cons call calls ih =>
    rw [List.mem_cons, not_or] at writes
    cases call with
    | write data => exact ih writes.2 (perform_write_uncommitted stub data held)
    | commit => exact absurd rfl writes.1

theorem performAll_committed (calls : List Call) {w : LogStreamWriter σ} (committed : w.writeCommitted = true) :
    ∃ ends, (performAll stub w calls).log = w.log ++ ends ∧ ∀ event ∈ ends, event.sent = false := by
  induction calls generalizing w with
  | nil => exact ⟨[], (List.append_nil _).symm, nofun⟩
  | cons call calls ih =>
    have read : (get : EStateM Exn (LogStreamWriter σ) _) w = .ok w w := rfl
    obtain ⟨what, thrown⟩ : ∃ what, perform stub w call = { w with log := w.log ++ [.ended call (.error what)] } := by
      cases call with
      | write data =>
        have run : write stub data w = .error _ w := (bind_ok _ read).trans (by rw [if_pos committed]; rfl)
        exact ⟨_, by rw [perform, bodyOf, run]⟩
      | commit =>
        have run : commit stub w = .error _ w := (bind_ok _ read).trans (by rw [if_pos committed]; rfl)
        exact ⟨_, by rw [perform, bodyOf, run]⟩
    obtain ⟨ends, log, silent⟩ := @ih (perform stub w call) (by rw [thrown]; exact committed)
    refine ⟨.ended call (.error what) :: ends, ?_, fun event member => ?_⟩
    next =>
      rw [performAll, List.foldl_cons, ← performAll, log, thrown]
      simp
    next =>
      rcases List.mem_cons.mp member with rfl | later
      next => rfl
      next => exact silent event later

end Grown

section FirstAttempt

variable (stub : LogStreamStub σ)

structure Answer where
  accepted : Bool
  status : Status
  committedSize : Int

def finalRequest (w : LogStreamWriter σ) : WriteRequest := ⟨w.resourceName, w.writeOffset, [], true⟩

def firstAnswer (w : LogStreamWriter σ) : Answer :=
  let server := if w.bytestreamWriter then w.server else (stub.openWriter w.server).2
  let put := stub.write (finalRequest w) server
  let finished := stub.finish (stub.writesDone put.2).2
  ⟨put.1, finished.1.1, finished.1.2⟩

def Retries (w : LogStreamWriter σ) : Prop :=
  (firstAnswer stub w).accepted = true ∧ (firstAnswer stub w).status.code = StatusCode.unavailable ∧
    0 < w.grpcRetryLimit

def Settles (w : LogStreamWriter σ) : Prop :=
  (firstAnswer stub w).accepted = true ∧ (firstAnswer stub w).status.ok = true ∧
    (firstAnswer stub w).committedSize = w.writeOffset

def opening (w : LogStreamWriter σ) : List Event := if w.bytestreamWriter then [] else [.opened]

structure Attempted (before : LogStreamWriter σ) (events : List Event) (after : LogStreamWriter σ) : Prop where
  log : after.log = before.log ++ opening before ++ events
  opened : after.bytestreamWriter = true
  uncommitted : after.writeCommitted = before.writeCommitted

theorem putRequest_attempted (w : LogStreamWriter σ) : ∃ after, putRequest stub (finalRequest w) w =
      .ok (firstAnswer stub w).accepted after ∧
        Attempted w [.wrote (finalRequest w) (firstAnswer stub w).accepted] after ∧
      after.server = (stub.write (finalRequest w)
        (if w.bytestreamWriter then w.server else (stub.openWriter w.server).2)).2 ∧
      after.writeOffset = w.writeOffset := by
  by_cases opened : w.bytestreamWriter = true
  next =>
    have first : openStream stub w = .ok () w := if_pos opened
    have answer : (firstAnswer stub w).accepted = (stub.write (finalRequest w) w.server).1 := by
      simp [firstAnswer, opened]
    rw [answer, if_pos opened]
    exact ⟨_, bind_ok _ first, ⟨by simp [opening, opened], opened, rfl⟩, rfl, rfl⟩
  next =>
    have first : openStream stub w = .ok () _ := if_neg opened
    have answer : (firstAnswer stub w).accepted = (stub.write (finalRequest w) (stub.openWriter w.server).2).1 := by
      simp [firstAnswer, opened]
    rw [answer, if_neg opened]
    exact ⟨_, bind_ok _ first, ⟨by simp [opening, opened], rfl, rfl⟩, rfl, rfl⟩

theorem commitInvocation_refused {w : LogStreamWriter σ} (refused : (firstAnswer stub w).accepted = false) :
    ∃ after, commitInvocation stub (finalRequest w) w = .ok brokenStream after ∧
      Attempted w [.wrote (finalRequest w) false] after := by
  obtain ⟨after, run, attempted, -⟩ := putRequest_attempted stub w
  rw [refused] at run attempted
  exact ⟨after, bind_ok _ run, attempted⟩

def commitStatus (w : LogStreamWriter σ) : Status :=
  if (firstAnswer stub w).status.ok ∧ (firstAnswer stub w).committedSize ≠ w.writeOffset then
    uncommittedData (firstAnswer stub w).committedSize w.writeOffset
  else (firstAnswer stub w).status

theorem commitInvocation_accepted {w : LogStreamWriter σ} (accepted : (firstAnswer stub w).accepted = true) :
    ∃ after, commitInvocation stub (finalRequest w) w = .ok (commitStatus stub w) after ∧
      Attempted w [.wrote (finalRequest w) true, .writesDone,
        .finished (firstAnswer stub w).status (firstAnswer stub w).committedSize] after := by
  obtain ⟨after, run, ⟨log, opened, uncommitted⟩, server, offset⟩ := putRequest_attempted stub w
  rw [accepted] at run log
  have status : commitStatus stub w = if (stub.finish (stub.writesDone after.server).2).1.1.ok ∧
      (stub.finish (stub.writesDone after.server).2).1.2 ≠ after.writeOffset then
        uncommittedData (stub.finish (stub.writesDone after.server).2).1.2 after.writeOffset
      else (stub.finish (stub.writesDone after.server).2).1.1 := by
    rw [server, offset]
    rfl
  have answer : (firstAnswer stub w).status = (stub.finish (stub.writesDone after.server).2).1.1 ∧
      (firstAnswer stub w).committedSize = (stub.finish (stub.writesDone after.server).2).1.2 := by
    rw [server]
    exact ⟨rfl, rfl⟩
  let done : LogStreamWriter σ :=
    { after with server := (stub.writesDone after.server).2, log := after.log ++ [.writesDone] }
  let answered : LogStreamWriter σ :=
    { done with
      server := (stub.finish done.server).2
      writeResponse := (stub.finish done.server).1.2
      log := done.log ++ [.finished (stub.finish done.server).1.1 (stub.finish done.server).1.2] }
  have closed : logged (fun _ => .writesDone) stub.writesDone after = .ok () done := rfl
  have finished : finish stub done = .ok (stub.finish done.server).1.1 answered := rfl
  have read : (get : EStateM Exn (LogStreamWriter σ) _) answered = .ok answered answered := rfl
  rw [status, answer.1, answer.2]
  refine ⟨answered, (bind_ok _ run).trans
    ((bind_ok _ closed).trans ((bind_ok _ finished).trans ((bind_ok _ read).trans ?_))),
    ⟨?_, opened, uncommitted⟩⟩
  next =>
    split_ifs
    next => rfl
    next => rfl
  next => simp [answered, done, log]

theorem issueRequest_stops {invocation : EStateM Exn (LogStreamWriter σ) Status} {w after : LogStreamWriter σ}
    {status : Status} (run : invocation w = .ok status after) {retries : Nat}
    (final : GrpcRetrier.statusIsRetryable status = true → retries = 0) :
    issueRequest invocation retries w = .ok status.ok after := by
  cases retries with
  | zero =>
    rw [issueRequest_zero, bind_ok _ run]
    rfl
  | succ retries =>
    have settled : GrpcRetrier.statusIsRetryable status = false := by
      cases again : GrpcRetrier.statusIsRetryable status
      next => rfl
      next => cases final again
    rw [issueRequest_succ, bind_ok _ run, settled]
    simp

theorem commit_stops {w after : LogStreamWriter σ} (uncommitted : w.writeCommitted = false) {status : Status}
    (run : commitInvocation stub (finalRequest w) w = .ok status after)
    (final : GrpcRetrier.statusIsRetryable status = true → w.grpcRetryLimit = 0) :
    commit stub w = .ok status.ok { after with writeCommitted := status.ok || after.writeCommitted } := by
  have issued := issueRequest_stops run final
  have read : (get : EStateM Exn (LogStreamWriter σ) _) w = .ok w w := rfl
  refine (bind_ok _ read).trans ?_
  rw [uncommitted]
  refine (bind_ok _ issued).trans ?_
  cases status.ok <;> rfl

end FirstAttempt

section Logs

variable {log base ends : List Event}

theorem Closes.of_append (unended : ∀ event ∈ base, ∀ answer, event ≠ .ended .commit answer)
    (silent : ∀ event ∈ ends, event.sent = false)
    (finished : ∀ before after, base = before ++ .writesDone :: after →
      ∃ status committedSize, after.filter Event.onStream =
        [.finished status committedSize]) : Closes (base ++ ends) := by
  have off : ends.filter Event.onStream = [] := List.filter_eq_nil_iff.mpr fun event member => by
    have quiet := silent event member
    cases event <;> simp_all [Event.sent, Event.onStream]
  constructor
  next =>
    intro before after split
    rcases List.append_eq_append_iff.mp split with ⟨more, rfl, rfl⟩ | ⟨more, rfl, same⟩
    next => exact absurd (silent .writesDone (by simp)) (by decide)
    next =>
      rcases more with _ | ⟨event, more⟩
      next =>
        rw [List.nil_append] at same
        exact absurd (silent .writesDone (by simp [← same])) (by decide)
      next =>
        obtain ⟨rfl, rfl⟩ := List.cons.inj same
        obtain ⟨status, committedSize, only⟩ := finished before more rfl
        exact ⟨status, committedSize, (List.filter_append more ends).trans (by rw [only, off, List.append_nil])⟩
  next =>
    intro before answer after split event member
    rcases List.append_eq_append_iff.mp split with ⟨more, rfl, rfl⟩ | ⟨more, rfl, same⟩
    next => exact silent event (by simp [member])
    next =>
      rcases more with _ | ⟨first, more⟩
      next =>
        rw [List.nil_append] at same
        exact silent event (by simp [← same, member])
      next =>
        obtain ⟨rfl, rfl⟩ := List.cons.inj same
        exact absurd rfl (unended _ (by simp) answer)

theorem not_closes_of_sent {before after : List Event} {answer : Except Exn Bool} {event : Event}
    (member : event ∈ after) (sent : event.sent = true) :
    ¬Closes (before ++ .ended .commit answer :: after) := fun closes =>
  absurd (closes.silent before answer after rfl event member) (by simp [sent])

theorem not_closes_of_wrote {before after : List Event} {status : Status} {committedSize : Int}
    {request : WriteRequest} {accepted : Bool} (member : .wrote request accepted ∈ after) :
    ¬Closes (before ++ .writesDone :: .finished status committedSize :: after) := by
  intro closes
  obtain ⟨status, committedSize, only⟩ := closes.finished before _ rfl
  rw [List.filter_cons_of_pos rfl] at only
  have none := (List.cons.inj only).2
  exact List.filter_eq_nil_iff.mp none _ member rfl

end Logs

section Main

variable (stub : LogStreamStub σ)

def Reopened (log : List Event) (_ : Bool) : Prop :=
  ∃ before status committedSize after, log = before ++ .writesDone :: .finished status committedSize :: after ∧
    ∃ request accepted, .wrote request accepted ∈ after

theorem Reopened.closed : KeptBy Reopened fun _ => True := by
  rintro log committed event - ⟨before, status, committedSize, after, rfl, request, accepted, member⟩
  exact ⟨before, status, committedSize, after ++ [event], by simp, request, accepted, List.mem_append_left _ member⟩

theorem Reopened.not_closes {log : List Event} {committed : Bool} (reopened : Reopened log committed) :
    ¬Closes log := by
  obtain ⟨before, status, committedSize, after, rfl, request, accepted, member⟩ := reopened
  exact not_closes_of_wrote member

theorem commit_retries {w : LogStreamWriter σ} (uncommitted : w.writeCommitted = false) (retries : Retries stub w) :
    Holds Reopened (perform stub w .commit) := by
  obtain ⟨accepted, unavailable, again⟩ := retries
  obtain ⟨retries, limit⟩ := Nat.exists_eq_add_one_of_ne_zero (Nat.ne_of_gt again)
  obtain ⟨between, run, attempted⟩ := commitInvocation_accepted stub accepted
  have failed : (firstAnswer stub w).status.ok = false := by
    simp [Status.ok, unavailable, StatusCode.unavailable, StatusCode.ok]
  have status : commitStatus stub w = (firstAnswer stub w).status := if_neg (by simp [failed])
  have put : Runs (fun s => s = between) (putRequest stub (finalRequest w)) (fun _ => Holds Reopened)
    (Holds Reopened) := by
    rintro s rfl
    have first : openStream stub s = .ok () s := if_pos attempted.opened
    have ended : putRequest stub (finalRequest w) s = .ok (stub.write (finalRequest w) s.server).1 _ := bind_ok _ first
    rw [ended]
    refine ⟨w.log ++ opening w ++ [.wrote (finalRequest w) true], (firstAnswer stub w).status,
      (firstAnswer stub w).committedSize, [.wrote (finalRequest w) (stub.write (finalRequest w) s.server).1], ?_,
      finalRequest w, _, List.mem_singleton_self _⟩
    simp [attempted.log]
  have invoked := commitInvocation_first Reopened.closed stub (fun _ _ => trivial) put
  have later := commitInvocation_first Reopened.closed stub (fun _ _ => trivial)
    (@putRequest_keeps σ _ _ Reopened.closed stub trivial (finalRequest w) fun _ => trivial)
  have committed : Runs (fun s => s = w) (commit stub) (fun _ => Holds Reopened) (Holds Reopened) := by
    refine .get fun s same => ?_
    subst same
    refine .ite (fun committed => absurd committed (by simp [uncommitted])) fun _ => ?_
    have issued : Runs (fun s' => s' = s) (issueRequest (commitInvocation stub (finalRequest s)) s.grpcRetryLimit)
        (fun _ => Holds Reopened) (Holds Reopened) := by
      rintro s' rfl
      rw [limit, issueRequest_succ, bind_ok _ run, status, if_neg]
      next => exact issueRequest_first invoked later retries between rfl
      next => simp [failed, GrpcRetrier.statusIsRetryable, unavailable]
    refine issued.bind fun _ => .ite (fun _ => ?_) fun _ => .pure fun _ => id
    have marked : Runs (Holds Reopened) (modify fun w => { w with writeCommitted := true } : EStateM Exn _ _)
        (fun _ => Holds Reopened) (Holds (σ := σ) Reopened) := .modify fun w held => held
    exact marked.bind fun _ => .pure fun _ => id
  exact @perform_of_runs σ Reopened stub _ .commit (fun _ _ _ => Reopened.closed _ _ _ trivial) committed w rfl

theorem commit_settles {w : LogStreamWriter σ} (uncommitted : w.writeCommitted = false) (once : ¬Retries stub w) :
    ∃ events succeeded, (perform stub w .commit).log = w.log ++ opening w ++ events ++
      [.ended .commit (.ok succeeded)] ∧
      (perform stub w .commit).writeCommitted = succeeded ∧ (succeeded = true ↔ Settles stub w) ∧
      ((∃ accepted, events = [.wrote (finalRequest w) accepted]) ∨ ∃ status committedSize,
        events = [.wrote (finalRequest w) true, .writesDone, .finished status committedSize]) := by
  cases accepted : (firstAnswer stub w).accepted with
  | false =>
    obtain ⟨after, run, attempted⟩ := commitInvocation_refused stub accepted
    have ended := commit_stops stub uncommitted run (by simp [GrpcRetrier.statusIsRetryable, brokenStream,
      StatusCode.internal, StatusCode.unavailable])
    refine ⟨[.wrote (finalRequest w) false], false, ?_, ?_, by simp [Settles, accepted], .inl ⟨_, rfl⟩⟩
    next => rw [perform, bodyOf, ended, ← attempted.log]; rfl
    next => 
      rw [perform, bodyOf, ended]
      exact attempted.uncommitted.trans uncommitted
  | true =>
    obtain ⟨after, run, attempted⟩ := commitInvocation_accepted stub accepted
    have ended := commit_stops stub uncommitted run fun again => by
      by_contra limited
      refine once ⟨accepted, ?_, Nat.pos_of_ne_zero limited⟩
      rw [GrpcRetrier.statusIsRetryable, decide_eq_true_iff, commitStatus] at again
      split_ifs at again
      next => cases again
      next => exact again
    refine ⟨_, (commitStatus stub w).ok, ?_, ?_, ?_,
      .inr ⟨(firstAnswer stub w).status, (firstAnswer stub w).committedSize, rfl⟩⟩
    next => rw [perform, bodyOf, ended, ← attempted.log]
    next =>
      rw [perform, bodyOf, ended]
      simp [attempted.uncommitted, uncommitted]
    next =>
      unfold commitStatus Settles
      split_ifs with mismatch
      next => exact ⟨nofun, fun settles => absurd settles.2.2 mismatch.2⟩
      next => 
        rw [not_and, not_not] at mismatch
        exact ⟨fun ok => ⟨accepted, ok, mismatch ok⟩, fun settles => settles.2.1⟩

theorem Holds.quiet {w : LogStreamWriter σ} (held : Holds Uncommitted w) :
    ∀ event ∈ w.log ++ opening w, Quiet event := by
  intro event member
  rcases List.mem_append.mp member with old | new
  next => exact held.2 event old
  next =>
    unfold opening at new
    split_ifs at new
    next => cases new
    next => exact List.mem_singleton.mp new ▸ ⟨nofun, nofun⟩

theorem closes_attempt {log ends events : List Event} {request : WriteRequest} (quiet : ∀ event ∈ log, Quiet event)
    (silent : ∀ event ∈ ends, event.sent = false)
    (shape : (∃ accepted, events = [.wrote request accepted]) ∨ ∃ status committedSize,
      events = [.wrote request true, .writesDone, .finished status committedSize]) : Closes
        (log ++ events ++ ends) := by
  rcases shape with ⟨accepted, rfl⟩ | ⟨status, committedSize, rfl⟩
  next =>
    have every : ∀ event ∈ log ++ [.wrote request accepted], Quiet event := fun event member => by
      rcases List.mem_append.mp member with old | new
      next => exact quiet event old
      next => exact List.mem_singleton.mp new ▸ ⟨nofun, nofun⟩
    refine .of_append (fun event member => (every event member).2) silent fun before after split => ?_
    exact absurd rfl (every .writesDone (by simp [split])).1
  next =>
    refine .of_append (fun event member answer => ?_) silent fun before after split => ?_
    next =>
      rcases List.mem_append.mp member with old | new
      next => exact (quiet event old).2 answer
      next =>
        rintro rfl
        simp at new
    next =>
      have first : .writesDone ∉ log ++ [.wrote request true] := fun member => by
        rcases List.mem_append.mp member with old | new
        next => exact (quiet _ old).1 rfl
        next => simp at new
      have whole : (log ++ [.wrote request true]) ++ .writesDone :: [.finished status committedSize] =
          before ++ .writesDone :: after := by rw [← split, List.append_assoc]; rfl
      obtain ⟨-, -, rfl⟩ := (List.append_cons_inj_of_notMem first (by simp)).mp whole
      exact ⟨status, committedSize, rfl⟩

theorem commit_closes_iff {w : LogStreamWriter σ} (held : Holds Uncommitted w) (after : List Call) :
    Closes (performAll stub (perform stub w .commit) after).log ↔
      ¬Retries stub w ∧ (after = [] ∨ Settles stub w) := by
  by_cases retries : Retries stub w
  next =>
    have reopened := performAll_keeps stub Reopened.closed (fun _ _ => id) after (commit_retries stub held.1 retries)
    exact ⟨fun closes => absurd closes (Reopened.not_closes reopened), fun closes => absurd retries closes.1⟩
  next =>
    obtain ⟨events, succeeded, log, committed, settles, shape⟩ := commit_settles stub held.1 retries
    have closes {ends : List Event} (silent : ∀ event ∈ ends, event.sent = false) :
        Closes ((perform stub w .commit).log ++ ends) := by
      rw [log, List.append_assoc]
      refine closes_attempt held.quiet (fun event member => ?_) shape
      rcases List.mem_cons.mp member with rfl | later
      next => rfl
      next => exact silent event later
    cases succeeded with
    | true =>
      obtain ⟨ends, whole, silent⟩ := performAll_committed stub after committed
      exact ⟨fun _ => ⟨retries, .inr (settles.mp rfl)⟩, fun _ => whole ▸ closes silent⟩
    | false =>
      cases after with
      | nil =>
        have ended := @closes [] nofun
        rw [List.append_nil] at ended
        exact ⟨fun _ => ⟨retries, .inl rfl⟩, fun _ => ended⟩
      | cons call rest =>
        have sending := performAll_keeps stub (Sending.closed _) (fun _ _ => id) rest
          (perform_sends stub committed call)
        refine ⟨fun closes => ?_, fun condition => ?_⟩
        next =>
          obtain ⟨more, whole, event, member, sent⟩ := sending
          rw [performAll, List.foldl_cons, ← performAll, whole, log, List.append_assoc] at closes
          exact absurd closes (not_closes_of_sent member sent)
        next =>
          rcases condition.2 with none | settled
          next => cases none
          next => cases settles.mpr settled

def ClosesWhen (w : LogStreamWriter σ) (calls : List Call) : Prop :=
  ∀ before after, calls = before ++ .commit :: after → .commit ∉ before →
    ¬Retries stub (performAll stub w before) ∧ (after = [] ∨ Settles stub (performAll stub w before))

theorem performAll_closes_iff (resourceName : Bytes) (grpcRetryLimit : Nat) (server : σ) (calls : List Call) :
    Closes (performAll stub (create resourceName grpcRetryLimit server) calls).log ↔
      ClosesWhen stub (create resourceName grpcRetryLimit server) calls := by
  have start : Holds Uncommitted (create resourceName grpcRetryLimit server) := ⟨rfl, nofun⟩
  generalize create resourceName grpcRetryLimit server = w at start ⊢
  have split {before after : List Call} (first : .commit ∉ before) : Closes (performAll stub w
      (before ++ .commit :: after)).log ↔ ¬Retries stub (performAll stub w before) ∧
        (after = [] ∨ Settles stub (performAll stub w before)) := by
    have closes := commit_closes_iff stub (performAll_uncommitted stub first start) after
    rwa [performAll, List.foldl_append, List.foldl_cons, ← performAll, ← performAll]
  constructor
  next =>
    rintro closes before after rfl first
    exact (split first).mp closes
  next =>
    intro condition
    by_cases committed : .commit ∈ calls
    next =>
      obtain ⟨before, after, rfl, first⟩ := List.eq_append_cons_of_mem committed
      exact (split first).mpr (condition before after rfl first)
    next =>
      have quiet := (performAll_uncommitted stub committed start).2
      rw [← List.append_nil (performAll stub w calls).log]
      refine .of_append (fun event member => (quiet event member).2) nofun fun before after split => ?_
      exact absurd rfl (quiet .writesDone (by simp [split])).1

def unavailableStub : LogStreamStub Unit where
  queryWriteStatus _ := pure ⟨StatusCode.ok, []⟩
  openWriter := pure ()
  write _ := pure true
  writesDone := pure ()
  finish := pure (⟨StatusCode.unavailable, []⟩, 0)

theorem commit_reopens_stream : ¬Closes (performAll unavailableStub (create (text "log") 1 ()) [.commit]).log := by
  let request : WriteRequest := ⟨text "log", 0, [], true⟩
  have log : (performAll unavailableStub (create (text "log") 1 ()) [.commit]).log = [.opened, .wrote request true] ++
      .writesDone :: .finished ⟨StatusCode.unavailable, []⟩ 0 :: [.wrote request true, .writesDone,
        .finished ⟨StatusCode.unavailable, []⟩ 0, .ended .commit (.ok false)] := rfl
  rw [log]
  exact not_closes_of_wrote (List.mem_cons_self ..)

end Main

end BuildboxCommon.LogStreamWriter
