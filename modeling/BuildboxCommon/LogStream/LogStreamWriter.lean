import BuildboxCommon.Client.GrpcRetrier

set_option autoImplicit false

namespace BuildboxCommon

open ByteString Effect

variable {α σ : Type}

def StatusCode.dataLoss : StatusCode := 15

structure LogStreamStub (σ : Type) where
  queryWriteStatus : Bytes → StateM σ Status
  openWriter : StateM σ Unit
  write : WriteRequest → StateM σ Bool
  writesDone : StateM σ Unit
  finish : StateM σ (Status × Int)

namespace LogStreamWriter

inductive Call where
  | write (data : Bytes)
  | commit
deriving DecidableEq

inductive Event where
  | queried (status : Status)
  | opened
  | wrote (request : WriteRequest) (accepted : Bool)
  | writesDone
  | finished (status : Status) (committedSize : Int)
  | ended (call : Call) (answer : Except Exn Bool)

end LogStreamWriter

structure LogStreamWriter (σ : Type) where
  server : σ
  resourceName : Bytes
  grpcRetryLimit : Nat
  bytestreamWriter : Bool
  writeResponse : Int
  writeOffset : Nat
  writeCommitted : Bool
  resourceReady : Bool
  log : List LogStreamWriter.Event

namespace LogStreamWriter

section Model

def create (resourceName : Bytes) (grpcRetryLimit : Nat) (server : σ) : LogStreamWriter σ where
  server := server
  resourceName := resourceName
  grpcRetryLimit := grpcRetryLimit
  bytestreamWriter := false
  writeResponse := 0
  writeOffset := 0
  writeCommitted := false
  resourceReady := false
  log := []

def logged (event : α → Event) (call : StateM σ α) : EStateM Exn (LogStreamWriter σ) α := fun w =>
  match call w.server with
  | (a, server) => .ok a { w with server := server, log := w.log ++ [event a] }

variable (stub : LogStreamStub σ)

def openStream : EStateM Exn (LogStreamWriter σ) Unit := fun w =>
  if w.bytestreamWriter then .ok () w
  else
    match stub.openWriter w.server with
    | ((), server) => .ok () { w with server := server, bytestreamWriter := true, log := w.log ++ [.opened] }

def putRequest (request : WriteRequest) : EStateM Exn (LogStreamWriter σ) Bool := do
  openStream stub
  logged (.wrote request) (stub.write request)

def finish : EStateM Exn (LogStreamWriter σ) Status := do
  let (status, committedSize) ← logged (fun answer => .finished answer.1 answer.2) stub.finish
  modify fun w => { w with writeResponse := committedSize }
  return status

def brokenStream : Status := ⟨StatusCode.internal, text "Upload failed: broken stream"⟩

-- The requests of a writer capture nothing that they change.
def issueRequest (invocation : EStateM Exn (LogStreamWriter σ) Status) (retryLimit : Nat) :
    EStateM Exn (LogStreamWriter σ) Bool := do
  let (completed, status, _) ← GrpcRetrier.issueRequest (fun captured => do
    let status ← invocation
    return (status, captured)) retryLimit ()
  return completed && status.ok

def queryStreamWriteStatus : EStateM Exn (LogStreamWriter σ) Bool := do
  let w ← get
  issueRequest (logged .queried (stub.queryWriteStatus w.resourceName)) w.grpcRetryLimit

def writeInvocation (request : WriteRequest) : EStateM Exn (LogStreamWriter σ) Status := do
  let accepted ← putRequest stub request
  if !accepted then return brokenStream else return ⟨StatusCode.ok, []⟩

def writeToStream (data : Bytes) : EStateM Exn (LogStreamWriter σ) Bool := do
  let w ← get
  let succeeded ← issueRequest (writeInvocation stub ⟨w.resourceName, w.writeOffset, data, false⟩) w.grpcRetryLimit
  if succeeded then
    modify fun w => { w with writeOffset := w.writeOffset + data.length }
    return true
  else return false

def write (data : Bytes) : EStateM Exn (LogStreamWriter σ) Bool := do
  let w ← get
  if w.writeCommitted then throw (.runtimeError (text "Attempted to `write()` after `commit()`."))
  else if w.resourceReady then writeToStream stub data
  else
    let ready ← queryStreamWriteStatus stub
    modify fun w => { w with resourceReady := ready }
    if ready then writeToStream stub data else return false

def uncommittedData (committedSize : Int) (bytesWritten : Nat) : Status :=
  ⟨StatusCode.dataLoss, text "Server reported uncommitted data: " ++ text (toString committedSize) ++ text " of " ++
    text (toString bytesWritten) ++ text " bytes"⟩

def commitInvocation (request : WriteRequest) : EStateM Exn (LogStreamWriter σ) Status := do
  let accepted ← putRequest stub request
  if !accepted then return brokenStream
  else
    logged (fun _ => .writesDone) stub.writesDone
    let status ← finish stub
    let w ← get
    if status.ok ∧ w.writeResponse ≠ w.writeOffset then return uncommittedData w.writeResponse w.writeOffset
    else return status

def commit : EStateM Exn (LogStreamWriter σ) Bool := do
  let w ← get
  if w.writeCommitted then
    throw (.runtimeError (text "Attempted to `commit()` an already commited write."))
  else
    let succeeded ← issueRequest (commitInvocation stub ⟨w.resourceName, w.writeOffset, [], true⟩) w.grpcRetryLimit
    if succeeded then
      modify fun w => { w with writeCommitted := true }
      return true
    else return false

def bodyOf : Call → EStateM Exn (LogStreamWriter σ) Bool
  | .write data => write stub data
  | .commit => commit stub

def perform (w : LogStreamWriter σ) (call : Call) : LogStreamWriter σ :=
  match bodyOf stub call w with
  | .ok answer after => { after with log := after.log ++ [.ended call (.ok answer)] }
  | .error e after => { after with log := after.log ++ [.ended call (.error e)] }

def performAll (w : LogStreamWriter σ) (calls : List Call) : LogStreamWriter σ := calls.foldl (perform stub) w

end Model

section Offsets

def Event.written : Event → Nat
  | .ended (.write data) (.ok true) => data.length
  | _ => 0

def written (log : List Event) : Nat := (log.map Event.written).sum

def Ready (log : List Event) : Prop := ∃ status, .queried status ∈ log ∧ status.ok = true

def Committed (log : List Event) : Prop :=
  ∃ earlier request status, ∃ committedSize : Int,
    log = earlier ++ [.wrote request true, .writesDone, .finished status committedSize] ∧ request.finishWrite = true ∧
      request.writeOffset = written earlier ∧ status.ok = true ∧ committedSize = written earlier

def Licit (log : List Event) : Event → Prop
  | .wrote request _ => request.writeOffset = written log ∧ (request.finishWrite = false → Ready log)
  | .ended .commit (.ok true) => Committed log
  | _ => True

def Proper (log : List Event) : Prop := ∀ before event after, log = before ++ event :: after → Licit before event

theorem Proper.snoc {log : List Event} {event : Event} (proper : Proper log) (licit : Licit log event) :
    Proper (log ++ [event]) := by
  intro before other after split
  rcases List.eq_nil_or_concat after with rfl | ⟨after, last, rfl⟩
  next =>
    obtain ⟨rfl, same⟩ := List.append_inj' split rfl
    exact List.singleton_injective same ▸ licit
  next =>
    rw [List.concat_eq_append, ← List.cons_append, ← List.append_assoc] at split
    exact proper before other after (List.append_inj' split rfl).1

@[simp] theorem written_snoc (log : List Event) (event : Event) : written (log ++ [event]) = written log +
  event.written := by
  simp [written]

-- What every program of a writer keeps. The data of a call count when it ends.
structure Sound (pending : Nat) (w : LogStreamWriter σ) : Prop where
  proper : Proper w.log
  offset : w.writeOffset = written w.log + pending
  ready : w.resourceReady = true → Ready w.log

theorem Ready.snoc {log : List Event} (ready : Ready log) (event : Event) : Ready (log ++ [event]) := by
  obtain ⟨status, member, ok⟩ := ready
  exact ⟨status, List.mem_append_left _ member, ok⟩

theorem Sound.answered {w : LogStreamWriter σ} (sound : Sound 0 w) (server : σ) {event : Event}
    (licit : Licit w.log event) (silent : event.written = 0) :
    Sound 0 { w with server := server, log := w.log ++ [event] } where
  proper := sound.proper.snoc licit
  offset := by rw [written_snoc, silent, sound.offset]
  ready known := (sound.ready known).snoc event

structure Requests (request : WriteRequest) (w : LogStreamWriter σ) : Prop where
  sound : Sound 0 w
  offset : request.writeOffset = w.writeOffset
  ready : request.finishWrite = false → w.resourceReady = true

theorem Requests.written {request : WriteRequest} {w : LogStreamWriter σ} (requests : Requests request w) :
    request.writeOffset = written w.log := requests.offset.trans requests.sound.offset

structure Sent (request : WriteRequest) (events : List Event) (w : LogStreamWriter σ) : Prop where
  requests : Requests request w
  last : ∃ earlier, w.log = earlier ++ events ∧ request.writeOffset = LogStreamWriter.written earlier

theorem Requests.sent {request : WriteRequest} {w : LogStreamWriter σ} (requests : Requests request w) :
    Sent request [] w := ⟨requests, w.log, (List.append_nil _).symm, requests.written⟩

theorem Sent.answered {request : WriteRequest} {events : List Event} {w : LogStreamWriter σ}
    (sent : Sent request events w) (server : σ) {event : Event} (licit : Licit w.log event)
      (silent : event.written = 0) :
    Sent request (events ++ [event]) { w with server := server, log := w.log ++ [event] } where
  requests := ⟨sent.requests.sound.answered server licit silent, sent.requests.offset, sent.requests.ready⟩
  last := by
    obtain ⟨earlier, log, offset⟩ := sent.last
    exact ⟨earlier, by rw [log, List.append_assoc], offset⟩

variable (stub : LogStreamStub σ)

theorem logged_runs {before : LogStreamWriter σ → Prop} {after : α → LogStreamWriter σ → Prop}
    {raised : LogStreamWriter σ → Prop} {event : α → Event} {call : StateM σ α}
    (correct : ∀ a w server, before w → after a { w with server := server, log := w.log ++ [event a] }) :
    Runs before (logged event call) after raised := fun w start => correct _ w _ start

theorem openStream_runs (request : WriteRequest) :
    Runs (Requests request) (openStream stub) (fun _ => Requests request) (Sound 0) := by
  intro w requests
  unfold openStream
  split_ifs
  next => exact requests
  next =>
    have opened := @Sound.answered σ w requests.sound (stub.openWriter w.server).2 .opened trivial rfl
    exact ⟨⟨opened.proper, opened.offset, opened.ready⟩, requests.offset, requests.ready⟩

theorem putRequest_runs (request : WriteRequest) : Runs (Requests request) (putRequest stub request)
    (fun accepted => Sent request [.wrote request accepted]) (Sound 0) := by
  refine (openStream_runs stub request).bind fun _ => logged_runs fun accepted w server requests => ?_
  exact requests.sent.answered server ⟨requests.written, fun data => requests.sound.ready (requests.ready data)⟩ rfl

theorem issueRequest_runs {going settled raised : LogStreamWriter σ → Prop}
    {invocation : EStateM Exn (LogStreamWriter σ) Status}
    (each : Runs going invocation (fun status w => if status.ok then settled w else going w) raised)
    (given : ∀ w, going w → raised w) (settles : ∀ w, settled w → raised w) (retryLimit : Nat) :
    Runs going (issueRequest invocation retryLimit) (fun succeeded w => if succeeded then settled w else raised w)
      raised := by
  have attempts := @GrpcRetrier.issueRequest_runs (LogStreamWriter σ) Unit (fun _ => going) (fun _ => settled) raised
    (fun captured => invocation >>= fun status => pure (status, captured))
    (fun _ => each.bind fun _ => .pure fun _ => id) (fun _ => given) retryLimit ()
  refine attempts.bind fun answer => .pure fun w ended => ?_
  cases ok : answer.2.1.ok with
  | false => simpa [ok] using ended
  | true =>
    rw [if_pos ok] at ended
    cases answer.1
    next => simpa using settles w ended
    next => simpa [ok] using ended

theorem queryStreamWriteStatus_runs : Runs (Sound 0) (queryStreamWriteStatus stub)
    (fun ready w => Sound 0 w ∧ (ready = true → Ready w.log)) (Sound 0) := by
  intro w sound
  have queried : Runs (Sound 0) (logged .queried (stub.queryWriteStatus w.resourceName))
      (fun status w => if status.ok then Sound 0 w ∧ Ready w.log else Sound 0 w) (Sound 0) := by
    refine logged_runs fun status w server sound => ?_
    have kept := @Sound.answered σ w sound server (.queried status) trivial rfl
    split_ifs with ok
    next => exact ⟨kept, status, by simp, ok⟩
    next => exact kept
  refine ((issueRequest_runs queried (fun _ => id) (fun _ => And.left) w.grpcRetryLimit).mono (fun _ => id)
    fun ready w ended => ?_) w sound
  cases ready
  next => exact ⟨ended, nofun⟩
  next => exact ⟨ended.1, fun _ => ended.2⟩

theorem writeToStream_runs (data : Bytes) : Runs (fun w => Sound 0 w ∧ w.resourceReady = true)
    (writeToStream stub data) (fun answer => Sound (Event.ended (.write data) (.ok answer)).written) (Sound 0) := by
  refine .get fun w start => ?_
  let request : WriteRequest := ⟨w.resourceName, w.writeOffset, data, false⟩
  have invoked : Runs (Requests request) (writeInvocation stub request)
      (fun status w => if status.ok then Requests request w else Requests request w) (Sound 0) := by
    refine (putRequest_runs stub request).bind fun accepted => .ite (fun _ => .pure ?_) fun _ => .pure ?_
    all_goals exact fun w sent => by simpa using sent.requests
  have issued := issueRequest_runs invoked (fun _ => Requests.sound) (fun _ => Requests.sound) w.grpcRetryLimit
  refine (issued.starting ⟨start.1, rfl, fun _ => start.2⟩).bind fun succeeded =>
    .ite (fun written => ?_) fun failed => ?_
  next =>
    refine (Runs.modify fun w ended => ?_).bind fun _ => .pure fun _ => id
    rw [if_pos written] at ended
    exact ⟨ended.sound.proper, congrArg (· + data.length) ended.sound.offset, ended.sound.ready⟩
  next =>
    exact .pure fun w ended => by
      rwa [if_neg failed] at ended

theorem write_runs (data : Bytes) : Runs (Sound 0) (write stub data)
    (fun answer => Sound (Event.ended (.write data) (.ok answer)).written) (Sound 0) := by
  refine .get fun w sound => .ite (fun _ => .throw fun s same => same ▸ sound) fun _ => .ite
    (fun ready => ?_) fun _ => ?_
  next => exact (writeToStream_runs stub data).starting ⟨sound, ready⟩
  next =>
    refine ((queryStreamWriteStatus_runs stub).starting sound).bind fun ready => ?_
    have stored : Runs (fun w : LogStreamWriter σ => Sound 0 w ∧ (ready = true → Ready w.log))
        (modify fun w => { w with resourceReady := ready } : EStateM Exn _ _)
          (fun _ w => Sound 0 w ∧ w.resourceReady = ready) (Sound 0) :=
      .modify fun w held => ⟨⟨held.1.proper, held.1.offset, held.2⟩, rfl⟩
    refine stored.bind fun _ => .ite (fun yes => ?_) fun _ => .pure fun w held => held.1
    exact (writeToStream_runs stub data).mono (fun w held => ⟨held.1, held.2.trans yes⟩) fun _ _ => id

theorem commitInvocation_runs (request : WriteRequest) (last : request.finishWrite = true) :
    Runs (Requests request) (commitInvocation stub request)
      (fun status w => if status.ok then Sound 0 w ∧ Committed w.log else Requests request w) (Sound 0) := by
  refine (putRequest_runs stub request).bind fun accepted => .ite (fun _ => .pure fun w sent => ?_) fun yes => ?_
  next => exact sent.requests
  next =>
    obtain rfl : accepted = true := by simpa using yes
    have closed : Runs (Sent request [.wrote request true]) (logged (fun _ => .writesDone) stub.writesDone)
        (fun _ => Sent request [.wrote request true, .writesDone]) (Sound 0) :=
      logged_runs fun _ w server sent => sent.answered server trivial rfl
    have finished : Runs (Sent request [.wrote request true, .writesDone]) (finish stub)
        (fun status w => Sent request [.wrote request true, .writesDone, .finished status w.writeResponse] w)
          (Sound 0) := by
      have answered : Runs (Sent request [.wrote request true, .writesDone])
          (logged (fun answer => .finished answer.1 answer.2) stub.finish)
          (fun answer => Sent request [.wrote request true, .writesDone, .finished answer.1 answer.2]) (Sound 0) :=
        logged_runs fun _ w server sent => sent.answered server trivial rfl
      refine answered.bind fun answer => (Runs.modify fun w sent => ?_).bind fun _ => .pure fun _ => id
      obtain ⟨⟨sound, offset, ready⟩, last⟩ := sent
      exact ⟨⟨⟨sound.proper, sound.offset, sound.ready⟩, offset, ready⟩, last⟩
    refine closed.bind fun _ => finished.bind fun status => .get fun w sent => .ite (fun mismatch => ?_) fun fits => ?_
    next => exact .pure fun s same => same ▸ sent.requests
    next =>
      refine .pure fun s same => ?_
      subst same
      split_ifs with ok
      next =>
        obtain ⟨earlier, log, offset⟩ := sent.last
        have whole : s.writeResponse = s.writeOffset := by simpa [ok] using fits
        rw [← sent.requests.offset, offset] at whole
        exact ⟨sent.requests.sound, earlier, request, status, _, log, last, offset, ok, whole⟩
      next => exact sent.requests

theorem commit_runs : Runs (Sound 0) (commit stub)
    (fun answer w => Sound 0 w ∧ (answer = true → Committed w.log)) (Sound 0) := by
  refine .get fun w sound => .ite (fun _ => .throw fun s same => same ▸ sound) fun _ => ?_
  have issued := issueRequest_runs (commitInvocation_runs stub ⟨w.resourceName, w.writeOffset, [], true⟩ rfl)
    (fun _ => Requests.sound) (fun _ => And.left) w.grpcRetryLimit
  refine (issued.starting ⟨sound, rfl, nofun⟩).bind fun succeeded => .ite (fun committed => ?_) fun failed => ?_
  next =>
    refine (Runs.modify fun w ended => ?_).bind fun _ => .pure fun _ => id
    rw [if_pos committed] at ended
    exact ⟨⟨ended.1.proper, ended.1.offset, ended.1.ready⟩, fun _ => ended.2⟩
  next =>
    exact .pure fun w ended => by
      rw [if_neg failed] at ended
      exact ⟨ended, nofun⟩

theorem perform_sound {w : LogStreamWriter σ} (sound : Sound 0 w) (call : Call) : Sound 0 (perform stub w call) := by
  have ended : Runs (Sound 0) (bodyOf stub call)
      (fun answer w => Sound (Event.ended call (.ok answer)).written w ∧ Licit w.log (.ended call (.ok answer)))
      (Sound 0) := by
    cases call with
    | write data => exact (write_runs stub data).mono (fun _ => id) fun _ _ sound => ⟨sound, trivial⟩
    | commit =>
      refine (commit_runs stub).mono (fun _ => id) fun answer w held => ⟨held.1, ?_⟩
      cases answer
      next => trivial
      next => exact held.2 rfl
  have run := ended w sound
  unfold perform
  cases outcome : bodyOf stub call w with
  | ok answer after =>
    rw [outcome] at run
    exact ⟨run.1.proper.snoc run.2, by rw [written_snoc, run.1.offset, Nat.add_zero],
      fun known => (run.1.ready known).snoc _⟩
  | error e after =>
    rw [outcome] at run
    refine ⟨run.proper.snoc ?_, ?_, fun known => (run.ready known).snoc _⟩
    next => cases call <;> trivial
    next =>
      have silent : (Event.ended call (.error e)).written = 0 := by cases call <;> rfl
      rw [written_snoc, run.offset, silent]

theorem performAll_sound (calls : List Call) {w : LogStreamWriter σ} (sound : Sound 0 w) :
    Sound 0 (performAll stub w calls) := by
  induction calls generalizing w with
  | nil => exact sound
  | cons call calls ih => exact ih (perform_sound stub sound call)

theorem create_sound (resourceName : Bytes) (grpcRetryLimit : Nat) (server : σ) :
    Sound 0 (create resourceName grpcRetryLimit server) where
  proper before event after split := by simp [create] at split
  offset := rfl
  ready := nofun

theorem performAll_proper (resourceName : Bytes) (grpcRetryLimit : Nat) (server : σ) (calls : List Call) :
    Proper (performAll stub (create resourceName grpcRetryLimit server) calls).log :=
  (performAll_sound stub calls (create_sound resourceName grpcRetryLimit server)).proper

end Offsets

end LogStreamWriter

end BuildboxCommon
