import BuildboxCommon.Client.Attempts
import BuildboxCommon.LogStream.StreamProtocol
import BuildboxCommon.Shared.Simulation

set_option autoImplicit false

namespace BuildboxCommon.ClientContexts

open ByteString Effect

variable {α τ σ : Type}

structure Contexts (τ : Type) where
  state : τ
  next : Nat
  started : List Nat

abbrev Issuing (τ α : Type) := EStateM Exn (Contexts τ) α

section Model

def makeContext : Issuing τ Nat := fun s => .ok s.next { s with next := s.next + 1 }

def inState (program : EStateM Exn τ α) : Issuing τ α := fun s =>
  match program s.state with
  | .ok a state => .ok a { s with state := state }
  | .error e state => .error e { s with state := state }

def startCall (context : Nat) (program : EStateM Exn τ α) : Issuing τ α := do
  modify fun s => { s with started := s.started ++ [context] }
  inState program

def issueRequest {γ : Type} (invocation : Nat → γ → Issuing τ (Status × γ)) : Nat → γ → Issuing τ (Bool × Status × γ)
  | retries, captured => do
    let context ← makeContext
    let (status, captured) ← invocation context captured
    if status.ok || !GrpcRetrier.statusIsRetryable status then return (true, status, captured)
    else
      match retries with
      | 0 => return (false, status, captured)
      | retries + 1 => issueRequest invocation retries captured

def issued (invocation : Nat → Issuing τ Status) (retryLimit : Nat) : Issuing τ Bool := do
  let (completed, status, _) ← issueRequest (fun context captured => do
    let status ← invocation context
    return (status, captured)) retryLimit ()
  return completed && status.ok

-- `d_clientContext` is made with the writer.
def clientContext : Nat := 0

def create (writer : LogStreamWriter σ) : Contexts (LogStreamWriter σ) := ⟨writer, clientContext + 1, []⟩

variable (stub : LogStreamStub σ)

def bytestreamWriter : Issuing (LogStreamWriter σ) Unit := do
  let s ← get
  if s.state.bytestreamWriter then return ()
  else startCall clientContext (LogStreamWriter.openStream stub)

def putRequest (request : WriteRequest) : Issuing (LogStreamWriter σ) Bool := do
  bytestreamWriter stub
  inState (LogStreamWriter.logged (.wrote request) (stub.write request))

-- The lambda leaves the context that it is handed alone.
def queryStreamWriteStatus : Issuing (LogStreamWriter σ) Bool := do
  let s ← get
  let context ← makeContext
  issued (fun _ => startCall context
    (LogStreamWriter.logged .queried (stub.queryWriteStatus s.state.resourceName))) s.state.grpcRetryLimit

def writeInvocation (request : WriteRequest) (_ : Nat) : Issuing (LogStreamWriter σ) Status := do
  let accepted ← putRequest stub request
  if !accepted then return LogStreamWriter.brokenStream else return ⟨StatusCode.ok, []⟩

def writeToStream (data : Bytes) : Issuing (LogStreamWriter σ) Bool := do
  let s ← get
  let succeeded ← issued (writeInvocation stub ⟨s.state.resourceName, s.state.writeOffset, data, false⟩)
    s.state.grpcRetryLimit
  if succeeded then
    inState (modify fun w => { w with writeOffset := w.writeOffset + data.length })
    return true
  else return false

def write (data : Bytes) : Issuing (LogStreamWriter σ) Bool := do
  let s ← get
  if s.state.writeCommitted then throw (.runtimeError (text "Attempted to `write()` after `commit()`."))
  else if s.state.resourceReady then writeToStream stub data
  else
    let ready ← queryStreamWriteStatus stub
    inState (modify fun w => { w with resourceReady := ready })
    if ready then writeToStream stub data else return false

def commitInvocation (request : WriteRequest) (_ : Nat) : Issuing (LogStreamWriter σ) Status := do
  let accepted ← putRequest stub request
  if !accepted then return LogStreamWriter.brokenStream
  else
    inState (LogStreamWriter.logged (fun _ => .writesDone) stub.writesDone)
    let status ← inState (LogStreamWriter.finish stub)
    let s ← get
    if status.ok ∧ s.state.writeResponse ≠ s.state.writeOffset then
      return LogStreamWriter.uncommittedData s.state.writeResponse s.state.writeOffset
    else return status

def commit : Issuing (LogStreamWriter σ) Bool := do
  let s ← get
  if s.state.writeCommitted then
    throw (.runtimeError (text "Attempted to `commit()` an already commited write."))
  else
    let succeeded ← issued (commitInvocation stub ⟨s.state.resourceName, s.state.writeOffset, [], true⟩)
      s.state.grpcRetryLimit
    if succeeded then
      inState (modify fun w => { w with writeCommitted := true })
      return true
    else return false

structure LogStream where
  name : Bytes
  writeResourceName : Bytes
deriving DecidableEq

abbrev LogStreamService (σ : Type) := Bytes → StateM σ (Status × LogStream)

def onServer (call : StateM σ α) : StateM (LogStreamWriter σ) α := fun w =>
  match call w.server with
  | (a, server) => (a, { w with server := server })

def createLogStream (parent : Bytes) (retryLimit : Nat) (logstreamClient : Option (LogStreamService σ)) :
    Issuing (LogStreamWriter σ) LogStream := do
  match logstreamClient with
  | none => throw (.invalidArgument (text "logstreamClient argument is nullptr"))
  | some createLogStream =>
    let context ← makeContext
    let (completed, status, createdLogStream) ← issueRequest (fun _ _ =>
      startCall context (calling (onServer (createLogStream parent)))) retryLimit ⟨[], []⟩
    if completed && status.ok then return createdLogStream else throw (.grpcError status)

inductive Call (σ : Type) where
  | write (data : Bytes)
  | commit
  | createLogStream (parent : Bytes) (retryLimit : Nat) (logstreamClient : Option (LogStreamService σ))

def perform (s : Contexts (LogStreamWriter σ)) : Call σ → Contexts (LogStreamWriter σ)
  | .write data => exitState (write stub data s)
  | .commit => exitState (commit stub s)
  | .createLogStream parent retryLimit logstreamClient =>
    exitState (createLogStream parent retryLimit logstreamClient s)

-- The owner of a writer goes on after an exception.
def performAll (s : Contexts (LogStreamWriter σ)) (calls : List (Call σ)) : Contexts (LogStreamWriter σ) :=
  calls.foldl (perform stub) s

end Model

section Forgetting

def Forgets (s : Contexts τ) (state : τ) : Prop := s.state = state

theorem inState_forgets (program : EStateM Exn τ α) : Simulates Forgets (inState program) program Eq := by
  rintro s _ rfl
  unfold inState
  cases program s.state with
  | ok a state => exact ⟨rfl, rfl⟩
  | error e state => exact ⟨rfl, rfl⟩

theorem startCall_forgets (context : Nat) (program : EStateM Exn τ α) :
    Simulates Forgets (startCall context program) program Eq :=
  fun s state same => inState_forgets program { s with started := s.started ++ [context] } state same

theorem makeContext_forgets {β : Type} {rest : Nat → Issuing τ α} {plain : EStateM Exn τ β} {returns : α → β → Prop}
    (each : ∀ context, Simulates Forgets (rest context) plain returns) :
    Simulates Forgets (makeContext >>= rest) plain returns :=
  fun s state same => each s.next { s with next := s.next + 1 } state same

theorem get_forgets {β : Type} {rest : Contexts τ → Issuing τ α} {plain : τ → EStateM Exn τ β} {returns : α → β → Prop}
    (each : ∀ s, Simulates Forgets (rest s) (plain s.state) returns) :
    Simulates Forgets (get >>= rest) (get >>= plain) returns :=
  .get fun s state same => by
    obtain rfl : s.state = state := same
    exact each s

theorem issueRequest_forgets {γ : Type} {invocation : Nat → γ → Issuing τ (Status × γ)}
    {plain : γ → EStateM Exn τ (Status × γ)}
    (each : ∀ context captured, Simulates Forgets (invocation context captured) (plain captured) Eq) (retries : Nat)
    (captured : γ) : Simulates Forgets (issueRequest invocation retries captured)
      (GrpcRetrier.issueRequest plain retries captured) Eq := by
  induction retries generalizing captured with
  | zero =>
    unfold issueRequest GrpcRetrier.issueRequest
    refine makeContext_forgets fun context => (each context captured).bind ?_
    rintro answer _ rfl
    exact .ite Iff.rfl (fun _ => .pure rfl) fun _ => .pure rfl
  | succ retries ih =>
    unfold issueRequest GrpcRetrier.issueRequest
    refine makeContext_forgets fun context => (each context captured).bind ?_
    rintro answer _ rfl
    exact .ite Iff.rfl (fun _ => .pure rfl) fun _ => ih _

theorem issued_forgets {invocation : Nat → Issuing (LogStreamWriter σ) Status}
    {plain : EStateM Exn (LogStreamWriter σ) Status} (each : ∀ context, Simulates Forgets (invocation context) plain Eq)
    (retryLimit : Nat) :
    Simulates Forgets (issued invocation retryLimit) (LogStreamWriter.issueRequest plain retryLimit) Eq := by
  have attempts (context : Nat) (captured : Unit) : Simulates Forgets
      (do let status ← invocation context; return (status, captured))
      (do let status ← plain; return (status, captured)) Eq :=
    (each context).bind fun status _ same => .pure (same ▸ rfl)
  exact (issueRequest_forgets attempts retryLimit ()).bind fun answer _ same => .pure (same ▸ rfl)

variable (stub : LogStreamStub σ)

theorem bytestreamWriter_forgets :
    Simulates Forgets (bytestreamWriter stub) (LogStreamWriter.openStream stub) Eq := by
  rintro s _ rfl
  by_cases opened : s.state.bytestreamWriter = true
  next =>
    have run : bytestreamWriter stub s = .ok () s := (get_bind _ s).trans (by rw [if_pos opened]; rfl)
    have plain : LogStreamWriter.openStream stub s.state = .ok () s.state := if_pos opened
    rw [run, plain]
    exact ⟨rfl, rfl⟩
  next =>
    have run : bytestreamWriter stub s = startCall clientContext (LogStreamWriter.openStream stub) s :=
      (get_bind _ s).trans (by rw [if_neg opened])
    rw [run]
    exact startCall_forgets clientContext _ s s.state rfl

theorem putRequest_forgets (request : WriteRequest) :
    Simulates Forgets (putRequest stub request) (LogStreamWriter.putRequest stub request) Eq :=
  (bytestreamWriter_forgets stub).bind fun _ _ _ => inState_forgets _

theorem queryStreamWriteStatus_forgets :
    Simulates Forgets (queryStreamWriteStatus stub) (LogStreamWriter.queryStreamWriteStatus stub) Eq :=
  get_forgets fun s => makeContext_forgets fun context =>
    issued_forgets (fun _ => startCall_forgets context _) s.state.grpcRetryLimit

theorem writeInvocation_forgets (request : WriteRequest) (context : Nat) :
    Simulates Forgets (writeInvocation stub request context) (LogStreamWriter.writeInvocation stub request) Eq := by
  refine (putRequest_forgets stub request).bind ?_
  rintro accepted _ rfl
  exact .ite Iff.rfl (fun _ => .pure rfl) fun _ => .pure rfl

theorem writeToStream_forgets (data : Bytes) :
    Simulates Forgets (writeToStream stub data) (LogStreamWriter.writeToStream stub data) Eq := by
  refine get_forgets fun s => (issued_forgets (writeInvocation_forgets stub _) s.state.grpcRetryLimit).bind ?_
  rintro succeeded _ rfl
  exact .ite Iff.rfl (fun _ => (inState_forgets _).bind fun _ _ _ => .pure rfl) fun _ => .pure rfl

theorem write_forgets (data : Bytes) :
    Simulates Forgets (write stub data) (LogStreamWriter.write stub data) Eq := by
  refine get_forgets fun s => .ite Iff.rfl (fun _ => .throw _) fun _ => ?_
  refine .ite Iff.rfl (fun _ => writeToStream_forgets stub data) fun _ => (queryStreamWriteStatus_forgets stub).bind ?_
  rintro ready _ rfl
  refine (inState_forgets _).bind fun _ _ _ => ?_
  exact .ite Iff.rfl (fun _ => writeToStream_forgets stub data) fun _ => .pure rfl

theorem commitInvocation_forgets (request : WriteRequest) (context : Nat) :
    Simulates Forgets (commitInvocation stub request context) (LogStreamWriter.commitInvocation stub request) Eq := by
  refine (putRequest_forgets stub request).bind ?_
  rintro accepted _ rfl
  refine .ite Iff.rfl (fun _ => .pure rfl) fun _ => (inState_forgets _).bind fun _ _ _ => (inState_forgets _).bind ?_
  rintro status _ rfl
  exact get_forgets fun s => .ite Iff.rfl (fun _ => .pure rfl) fun _ => .pure rfl

theorem commit_forgets : Simulates Forgets (commit stub) (LogStreamWriter.commit stub) Eq := by
  refine get_forgets fun s => .ite Iff.rfl (fun _ => .throw _) fun _ => ?_
  refine (issued_forgets (commitInvocation_forgets stub _) s.state.grpcRetryLimit).bind ?_
  rintro succeeded _ rfl
  exact .ite Iff.rfl (fun _ => (inState_forgets _).bind fun _ _ _ => .pure rfl) fun _ => .pure rfl

end Forgetting

section Lasting

def Lasting (kept : List Nat → Prop) : Prop := ∀ started context, kept started → kept (started ++ [context])

variable {kept : List Nat → Prop}

theorem inState_lasts (program : EStateM Exn τ α) :
    Keeps (fun s => kept s.started) (inState program) fun _ => True := by
  intro s held
  unfold inState
  cases program s.state with
  | ok a state => exact ⟨trivial, held⟩
  | error e state => exact held

theorem makeContext_lasts : Keeps (fun s : Contexts τ => kept s.started) makeContext fun _ => True :=
  fun _ held => ⟨trivial, held⟩

variable (lasting : Lasting kept)

include lasting

theorem startCall_lasts (context : Nat) (program : EStateM Exn τ α) :
    Keeps (fun s => kept s.started) (startCall context program) fun _ => True :=
  fun s held => inState_lasts program { s with started := s.started ++ [context] } (lasting _ _ held)

omit lasting in
theorem issueRequest_lasts {γ : Type} {invocation : Nat → γ → Issuing τ (Status × γ)}
    (each : ∀ context captured, Keeps (fun s => kept s.started) (invocation context captured) fun _ => True)
    (retries : Nat) (captured : γ) :
    Keeps (fun s => kept s.started) (issueRequest invocation retries captured) fun _ => True := by
  induction retries generalizing captured with
  | zero =>
    unfold issueRequest
    refine makeContext_lasts.andThen fun context => (each context captured).andThen fun answer => ?_
    exact .ite (fun _ => .pure trivial) fun _ => .pure trivial
  | succ retries ih =>
    unfold issueRequest
    refine makeContext_lasts.andThen fun context => (each context captured).andThen fun answer => ?_
    exact .ite (fun _ => .pure trivial) fun _ => ih _

omit lasting in
theorem issued_lasts {invocation : Nat → Issuing τ Status}
    (each : ∀ context, Keeps (fun s => kept s.started) (invocation context) fun _ => True) (retryLimit : Nat) :
    Keeps (fun s => kept s.started) (issued invocation retryLimit) fun _ => True :=
  (issueRequest_lasts (fun context _ => (each context).andThen fun _ => .pure trivial) retryLimit ()).andThen
    fun _ => .pure trivial

variable (stub : LogStreamStub σ)

theorem putRequest_lasts (request : WriteRequest) :
    Keeps (fun s => kept s.started) (putRequest stub request) fun _ => True := by
  have opened : Keeps (fun s => kept s.started) (bytestreamWriter stub) fun _ => True :=
    .get fun _ _ => .ite (fun _ => .pure trivial) fun _ => startCall_lasts lasting _ _
  exact opened.andThen fun _ => inState_lasts _

theorem writeToStream_lasts (data : Bytes) :
    Keeps (fun s => kept s.started) (writeToStream stub data) fun _ => True := by
  have invoked (request : WriteRequest) (context : Nat) :
      Keeps (fun s => kept s.started) (writeInvocation stub request context) fun _ => True :=
    (putRequest_lasts lasting stub request).andThen fun _ => .ite (fun _ => .pure trivial) fun _ => .pure trivial
  refine .get fun s _ => (issued_lasts (invoked _) _).andThen fun _ => ?_
  exact .ite (fun _ => (inState_lasts _).andThen fun _ => .pure trivial) fun _ => .pure trivial

theorem afterQuery_lasts (data : Bytes) (ready : Bool) : Keeps (fun s => kept s.started) (do
    inState (modify fun w : LogStreamWriter σ => { w with resourceReady := ready })
    if ready then writeToStream stub data else return false) fun _ => True :=
  (inState_lasts _).andThen fun _ => .ite (fun _ => writeToStream_lasts lasting stub data) fun _ => .pure trivial

theorem commit_lasts : Keeps (fun s => kept s.started) (commit stub) fun _ => True := by
  have invoked (request : WriteRequest) (context : Nat) :
      Keeps (fun s => kept s.started) (commitInvocation stub request context) fun _ => True := by
    refine (putRequest_lasts lasting stub request).andThen fun _ => .ite (fun _ => .pure trivial) fun _ => ?_
    refine (inState_lasts _).andThen fun _ => (inState_lasts _).andThen fun _ => .get fun _ _ => ?_
    exact .ite (fun _ => .pure trivial) fun _ => .pure trivial
  refine .get fun s _ => .ite (fun _ => .throw _) fun _ => (issued_lasts (invoked _) _).andThen fun _ => ?_
  exact .ite (fun _ => (inState_lasts _).andThen fun _ => .pure trivial) fun _ => .pure trivial

theorem perform_lasts (call : Call σ) {s : Contexts (LogStreamWriter σ)} (held : kept s.started) :
    kept (perform stub s call).started := by
  cases call with
  | write data =>
    have query : Keeps (fun s => kept s.started) (queryStreamWriteStatus stub) fun _ => True :=
      .get fun _ _ => makeContext_lasts.andThen fun _ => issued_lasts (fun _ => startCall_lasts lasting _ _) _
    have all : Keeps (fun s => kept s.started) (write stub data) fun _ => True := by
      refine .get fun _ _ => .ite (fun _ => .throw _) fun _ => .ite
        (fun _ => writeToStream_lasts lasting stub data) fun _ => ?_
      exact query.andThen fun ready => afterQuery_lasts lasting stub data ready
    exact all.exit held
  | commit => exact (commit_lasts lasting stub).exit held
  | createLogStream parent retryLimit logstreamClient =>
    have all : Keeps (fun s : Contexts (LogStreamWriter σ) => kept s.started)
        (createLogStream parent retryLimit logstreamClient) fun _ => True := by
      unfold createLogStream
      cases logstreamClient with
      | none => exact .throw _
      | some service =>
        refine makeContext_lasts.andThen fun _ => ?_
        refine (issueRequest_lasts (fun _ _ => startCall_lasts lasting _ _) retryLimit _).andThen fun _ => ?_
        exact .ite (fun _ => .pure trivial) fun _ => .throw _
    exact all.exit held

theorem performAll_lasts (calls : List (Call σ)) {s : Contexts (LogStreamWriter σ)} (held : kept s.started) :
    kept (performAll stub s calls).started := by
  induction calls generalizing s with
  | nil => exact held
  | cons call calls ih => exact ih (perform_lasts lasting stub call held)

end Lasting

section Fresh

structure Fresh (s : Contexts (LogStreamWriter σ)) : Prop where
  nodup : s.started.Nodup
  made : ∀ context ∈ s.started, context < s.next
  own : clientContext < s.next
  opened : clientContext ∈ s.started → s.state.bytestreamWriter = true

def Opened (w : LogStreamWriter σ) : Prop := w.bytestreamWriter = true

theorem create_fresh (writer : LogStreamWriter σ) : Fresh (create writer) where
  nodup := List.nodup_nil
  made := nofun
  own := Nat.lt_succ_self _
  opened := nofun

theorem Fresh.start {s : Contexts (LogStreamWriter σ)} (fresh : Fresh s) {context : Nat} {state : LogStreamWriter σ}
    (unused : context ∉ s.started) (known : context < s.next) (keeps : s.state.bytestreamWriter = true → Opened state)
    (own : context = clientContext → Opened state) :
    Fresh { s with state := state, started := s.started ++ [context] } where
  nodup := List.nodup_append.mpr ⟨fresh.nodup, List.nodup_singleton _, fun used before _ new =>
    List.mem_singleton.mp new ▸ fun same => unused (same ▸ before)⟩
  made := by
    intro used member
    rcases List.mem_append.mp member with before | new
    next => exact fresh.made used before
    next => exact List.mem_singleton.mp new ▸ known
  own := fresh.own
  opened := by
    intro member
    rcases List.mem_append.mp member with before | new
    next => exact keeps (fresh.opened before)
    next => exact own (List.mem_singleton.mp new).symm

theorem makeContext_fresh : Keeps (Fresh (σ := σ)) makeContext fun _ => True := fun _ fresh =>
  ⟨trivial, fresh.nodup, fun context member => (fresh.made context member).trans (Nat.lt_succ_self _),
    fresh.own.trans (Nat.lt_succ_self _), fresh.opened⟩

theorem inState_fresh {program : EStateM Exn (LogStreamWriter σ) α} (keeps : Keeps Opened program fun _ => True) :
    Keeps Fresh (inState program) fun _ => True := by
  intro s fresh
  have still := fun opened => keeps.exit (fresh.opened opened)
  unfold inState
  cases run : program s.state with
  | ok a state =>
    rw [run] at still
    exact ⟨trivial, fresh.nodup, fresh.made, fresh.own, still⟩
  | error e state =>
    rw [run] at still
    exact ⟨fresh.nodup, fresh.made, fresh.own, still⟩

theorem logged_opened (event : α → LogStreamWriter.Event) (call : StateM σ α) :
    Keeps Opened (LogStreamWriter.logged event call) fun _ => True := fun _ opened => ⟨trivial, opened⟩

theorem modify_opened {change : LogStreamWriter σ → LogStreamWriter σ}
    (same : ∀ w, (change w).bytestreamWriter = w.bytestreamWriter) :
    Keeps Opened (modify change : EStateM Exn (LogStreamWriter σ) PUnit) fun _ => True :=
  fun w opened => ⟨trivial, (same w).trans opened⟩

theorem issueRequest_fresh {γ : Type} {invocation : Nat → γ → Issuing (LogStreamWriter σ) (Status × γ)}
    (each : ∀ context captured, Keeps Fresh (invocation context captured) fun _ => True) (retries : Nat)
      (captured : γ) :
    Keeps Fresh (issueRequest invocation retries captured) fun _ => True := by
  induction retries generalizing captured with
  | zero =>
    unfold issueRequest
    refine makeContext_fresh.andThen fun context => (each context captured).andThen fun answer => ?_
    exact .ite (fun _ => .pure trivial) fun _ => .pure trivial
  | succ retries ih =>
    unfold issueRequest
    refine makeContext_fresh.andThen fun context => (each context captured).andThen fun answer => ?_
    exact .ite (fun _ => .pure trivial) fun _ => ih _

theorem issued_fresh {invocation : Nat → Issuing (LogStreamWriter σ) Status}
    (each : ∀ context, Keeps Fresh (invocation context) fun _ => True) (retryLimit : Nat) :
    Keeps Fresh (issued invocation retryLimit) fun _ => True :=
  (issueRequest_fresh (fun context _ => (each context).andThen fun _ => .pure trivial) retryLimit ()).andThen
    fun _ => .pure trivial

variable (stub : LogStreamStub σ)

theorem bytestreamWriter_fresh : Keeps Fresh (bytestreamWriter stub) fun _ => True := by
  intro s fresh
  by_cases opened : s.state.bytestreamWriter = true
  next =>
    have run : bytestreamWriter stub s = .ok () s := (get_bind _ s).trans (by rw [if_pos opened]; rfl)
    rw [run]
    exact ⟨trivial, fresh⟩
  next =>
    have run : bytestreamWriter stub s = startCall clientContext (LogStreamWriter.openStream stub) s :=
      (get_bind _ s).trans (by rw [if_neg opened])
    have plain : LogStreamWriter.openStream stub s.state = .ok () { s.state with
        server := (stub.openWriter s.state.server).2, bytestreamWriter := true, log := s.state.log ++ [.opened] } :=
      if_neg opened
    have started : startCall clientContext (LogStreamWriter.openStream stub) s = .ok () { s with
        state := { s.state with
          server := (stub.openWriter s.state.server).2, bytestreamWriter := true, log := s.state.log ++ [.opened] }
        started := s.started ++ [clientContext] } := by
      change inState (LogStreamWriter.openStream stub) { s with started := s.started ++ [clientContext] } = _
      simp only [inState, plain]
    rw [run, started]
    exact ⟨trivial, fresh.start (mt fresh.opened opened) fresh.own (fun _ => rfl) fun _ => rfl⟩

theorem putRequest_fresh (request : WriteRequest) : Keeps Fresh (putRequest stub request) fun _ => True :=
  (bytestreamWriter_fresh stub).andThen fun _ => inState_fresh (logged_opened _ _)

theorem writeToStream_fresh (data : Bytes) : Keeps Fresh (writeToStream stub data) fun _ => True := by
  have invoked (request : WriteRequest) (context : Nat) :
      Keeps Fresh (writeInvocation stub request context) fun _ => True :=
    (putRequest_fresh stub request).andThen fun _ => .ite (fun _ => .pure trivial) fun _ => .pure trivial
  refine .get fun s _ => (issued_fresh (invoked _) _).andThen fun _ => ?_
  exact .ite (fun _ => (inState_fresh (modify_opened (by simp))).andThen fun _ => .pure trivial) fun _ => .pure trivial

theorem afterQuery_fresh (data : Bytes) (ready : Bool) : Keeps Fresh (do
    inState (modify fun w : LogStreamWriter σ => { w with resourceReady := ready })
    if ready then writeToStream stub data else return false) fun _ => True :=
  (inState_fresh (modify_opened (by simp))).andThen fun _ =>
    .ite (fun _ => writeToStream_fresh stub data) fun _ => .pure trivial

theorem commit_fresh : Keeps Fresh (commit stub) fun _ => True := by
  have finished : Keeps Opened (LogStreamWriter.finish stub) fun _ => True :=
    (logged_opened _ _).andThen fun _ => (modify_opened (by simp)).andThen fun _ => .pure trivial
  have invoked (request : WriteRequest) (context : Nat) :
      Keeps Fresh (commitInvocation stub request context) fun _ => True := by
    refine (putRequest_fresh stub request).andThen fun _ => .ite (fun _ => .pure trivial) fun _ => ?_
    refine (inState_fresh (logged_opened _ _)).andThen fun _ =>
      (inState_fresh finished).andThen fun _ => .get fun _ _ => ?_
    exact .ite (fun _ => .pure trivial) fun _ => .pure trivial
  refine .get fun s _ => .ite (fun _ => .throw _) fun _ => (issued_fresh (invoked _) _).andThen fun _ => ?_
  exact .ite (fun _ => (inState_fresh (modify_opened (by simp))).andThen fun _ => .pure trivial) fun _ => .pure trivial

end Fresh

section Captured

variable {γ : Type} {context : Nat} {invocation : Nat → γ → Issuing (LogStreamWriter σ) (Status × γ)}
  {answer : γ → LogStreamWriter σ → (Status × γ) × LogStreamWriter σ} {s : Contexts (LogStreamWriter σ)} {captured : γ}

def Captures (context : Nat) (invocation : Nat → γ → Issuing (LogStreamWriter σ) (Status × γ))
    (answer : γ → LogStreamWriter σ → (Status × γ) × LogStreamWriter σ) : Prop :=
  ∀ own captured s, invocation own captured s =
    .ok (answer captured s.state).1 { s with state := (answer captured s.state).2, started := s.started ++ [context] }

def afterAttempt (context : Nat) (state : LogStreamWriter σ) (s : Contexts (LogStreamWriter σ)) :
    Contexts (LogStreamWriter σ) :=
  { state := state, next := s.next + 1, started := s.started ++ [context] }

theorem Fresh.attempted (fresh : Fresh s) {state : LogStreamWriter σ}
    (keeps : s.state.bytestreamWriter = true → Opened state) :
    Fresh (afterAttempt s.next state { s with next := s.next + 1 }) := by
  have made := (makeContext_fresh _ (makeContext_fresh s fresh).2).2
  have unused : s.next ∉ s.started := fun member => Nat.lt_irrefl _ (fresh.made _ member)
  exact made.start unused ((Nat.lt_succ_self _).trans (Nat.lt_succ_self _)) keeps
    fun own => absurd fresh.own (by simp [own])

theorem issueRequest_once (captures : Captures context invocation answer) {retries : Nat}
    (last : Client.Last retries (answer captured s.state).1.1) :
    ∃ completed, issueRequest invocation retries captured s =
      .ok (completed, (answer captured s.state).1) (afterAttempt context (answer captured s.state).2 s) := by
  have made : (makeContext : Issuing (LogStreamWriter σ) Nat) s = .ok s.next { s with next := s.next + 1 } := rfl
  have run := captures s.next captured { s with next := s.next + 1 }
  unfold issueRequest
  rw [bind_ok _ made, bind_ok _ run]
  rcases last with ok | final | rfl
  next => exact ⟨true, by simp [ok, afterAttempt]⟩
  next => exact ⟨true, by simp [final, afterAttempt]⟩
  next =>
    by_cases done : ((answer captured s.state).1.1.ok ||
      !GrpcRetrier.statusIsRetryable (answer captured s.state).1.1) = true
    next => exact ⟨true, by simp only [done, if_true, pure_apply, afterAttempt]⟩
    next => exact ⟨false, by simp only [done, afterAttempt]; rfl⟩

theorem issueRequest_again (captures : Captures context invocation answer) {retries : Nat}
    (again : ¬Client.Last (retries + 1) (answer captured s.state).1.1) :
    issueRequest invocation (retries + 1) captured s =
      issueRequest invocation retries (answer captured s.state).1.2
        (afterAttempt context (answer captured s.state).2 s) := by
  obtain ⟨failed, retryable, -⟩ := Client.not_last again
  have made : (makeContext : Issuing (LogStreamWriter σ) Nat) s = .ok s.next { s with next := s.next + 1 } := rfl
  have run := captures s.next captured { s with next := s.next + 1 }
  rw [issueRequest, bind_ok _ made, bind_ok _ run]
  simp only [failed, retryable, afterAttempt]
  rfl

theorem not_nodup_lasts : Lasting fun started => ¬started.Nodup := fun _ _ twice once =>
  twice (List.nodup_append.mp once).1

theorem twice_bind {β : Type} {program : Issuing (LogStreamWriter σ) α} {rest : α → Issuing (LogStreamWriter σ) β}
    (twice : ¬(exitState (program s)).started.Nodup)
    (later : ∀ a, Keeps (fun s => ¬s.started.Nodup) (rest a) fun _ => True) :
    ¬(exitState ((program >>= rest) s)).started.Nodup :=
  @Keeps.exit_bind Exn (Contexts (LogStreamWriter σ)) α β (fun s => ¬s.started.Nodup)
    (fun _ => True) program rest s twice
    later

theorem issueRequest_reuses (captures : Captures context invocation answer) (retries : Nat)
    (used : context ∈ s.started) :
    ¬(exitState (issueRequest invocation retries captured s)).started.Nodup := by
  have twice (state : LogStreamWriter σ) : ¬(afterAttempt context state s).started.Nodup := fun once =>
    (List.nodup_append.mp once).2.2 context used context (List.mem_singleton_self _) rfl
  by_cases last : Client.Last retries (answer captured s.state).1.1
  next =>
    obtain ⟨completed, run⟩ := issueRequest_once captures last
    rw [run]
    exact twice _
  next =>
    obtain ⟨retries, rfl⟩ := Nat.exists_eq_succ_of_ne_zero (Client.not_last last).2.2
    rw [Nat.succ_eq_add_one, issueRequest_again captures last]
    have keeps (own : Nat) (captured : γ) :
      Keeps (fun s => ¬s.started.Nodup) (invocation own captured) fun _ => True := by
      intro s held
      rw [captures]
      exact ⟨trivial, not_nodup_lasts _ _ held⟩
    have lasts : Keeps (fun s => ¬s.started.Nodup)
        (issueRequest invocation retries (answer captured s.state).1.2) fun _ => True :=
      @issueRequest_lasts _ (fun started => ¬started.Nodup) _ _ keeps _ _
    exact lasts.exit (twice _)

theorem issueRequest_retried (captures : Captures context invocation answer) {retries : Nat}
    (again : ¬Client.Last retries (answer captured s.state).1.1) :
    ¬(exitState (issueRequest invocation retries captured s)).started.Nodup := by
  obtain ⟨retries, rfl⟩ := Nat.exists_eq_succ_of_ne_zero (Client.not_last again).2.2
  rw [Nat.succ_eq_add_one, issueRequest_again captures again]
  exact issueRequest_reuses captures retries (List.mem_append_right _ (List.mem_singleton_self _))

end Captured

section Main

variable (stub : LogStreamStub σ)

def queryAnswer (w : LogStreamWriter σ) : Status := (stub.queryWriteStatus w.resourceName w.server).1

def Retried (s : Contexts (LogStreamWriter σ)) : Call σ → Prop
  | .write _ => s.state.writeCommitted = false ∧ s.state.resourceReady = false ∧
    ¬Client.Last s.state.grpcRetryLimit (queryAnswer stub s.state)
  | .commit => False
  | .createLogStream parent retryLimit logstreamClient =>
    ∃ service ∈ logstreamClient, ¬Client.Last retryLimit (service parent s.state.server).1.1

def queryInvocation (resourceName : Bytes) (context _ : Nat) (captured : Unit) :
    Issuing (LogStreamWriter σ) (Status × Unit) := do
  let status ← startCall context (LogStreamWriter.logged .queried (stub.queryWriteStatus resourceName))
  return (status, captured)

def queryOutcome (resourceName : Bytes) (captured : Unit) (w : LogStreamWriter σ) :
    (Status × Unit) × LogStreamWriter σ :=
  (((stub.queryWriteStatus resourceName w.server).1, captured),
    { w with server := (stub.queryWriteStatus resourceName w.server).2
             log := w.log ++ [.queried (stub.queryWriteStatus resourceName w.server).1] })

theorem queryInvocation_captures (resourceName : Bytes) (context : Nat) :
    Captures context (queryInvocation stub resourceName context) (queryOutcome stub resourceName) := fun _ _ _ => rfl

variable {stub} {s : Contexts (LogStreamWriter σ)}

theorem queryStreamWriteStatus_eq : queryStreamWriteStatus stub s =
    (issueRequest (queryInvocation stub s.state.resourceName s.next) s.state.grpcRetryLimit () >>= fun answer =>
      pure (answer.1 && answer.2.1.ok)) { s with next := s.next + 1 } := rfl

theorem queryStreamWriteStatus_fresh (fresh : Fresh s)
    (once : Client.Last s.state.grpcRetryLimit (queryAnswer stub s.state)) :
    ∃ ready s', queryStreamWriteStatus stub s = .ok ready s' ∧ Fresh s' := by
  have captures := queryInvocation_captures stub s.state.resourceName s.next
  obtain ⟨completed, run⟩ := @issueRequest_once _ _ _ _ _ { s with next := s.next + 1 } () captures _ once
  rw [queryStreamWriteStatus_eq, bind_ok _ run]
  exact ⟨_, _, rfl, fresh.attempted id⟩

theorem queryStreamWriteStatus_retried (again : ¬Client.Last s.state.grpcRetryLimit (queryAnswer stub s.state)) :
    ¬(exitState (queryStreamWriteStatus stub s)).started.Nodup := by
  have captures := queryInvocation_captures stub s.state.resourceName s.next
  have twice := @issueRequest_retried _ _ _ _ _ { s with next := s.next + 1 } () captures _ again
  rw [queryStreamWriteStatus_eq]
  exact twice_bind twice fun _ => .pure trivial

theorem write_fresh {data : Bytes} (fresh : Fresh s) (once : ¬Retried stub s (.write data)) :
    Fresh (exitState (write stub data s)) := by
  unfold write
  rw [get_bind]
  split_ifs with committed ready
  next => exact fresh
  next => exact (writeToStream_fresh stub data).exit fresh
  next =>
    have last : Client.Last s.state.grpcRetryLimit (queryAnswer stub s.state) := by
      by_contra again
      exact once ⟨by simpa using committed, by simpa using ready, again⟩
    obtain ⟨ready, s', run, fresh'⟩ := queryStreamWriteStatus_fresh fresh last
    rw [bind_ok _ run]
    exact (afterQuery_fresh stub data ready).exit fresh'

theorem write_retried {data : Bytes} (again : Retried stub s (.write data)) :
    ¬(exitState (write stub data s)).started.Nodup := by
  obtain ⟨committed, ready, again⟩ := again
  unfold write
  rw [get_bind]
  simp only [committed, ready, Bool.false_eq_true, if_false]
  exact twice_bind (queryStreamWriteStatus_retried again) (afterQuery_lasts not_nodup_lasts stub data)

section Create

variable {parent : Bytes} {retryLimit : Nat} {service : LogStreamService σ}

theorem create_captures (context : Nat) : Captures context
    (fun _ _ => startCall context (calling (onServer (service parent)))) fun _ => onServer (service parent) :=
  fun _ _ _ => rfl

theorem createLogStream_fresh (fresh : Fresh s) (once : Client.Last retryLimit (service parent s.state.server).1.1) :
    Fresh (exitState (createLogStream parent retryLimit (some service) s)) := by
  obtain ⟨completed, run⟩ := @issueRequest_once _ _ _ _ _ { s with next := s.next + 1 } ⟨[], []⟩
    (create_captures s.next) _ once
  have first : (makeContext : Issuing (LogStreamWriter σ) Nat) s = .ok s.next { s with next := s.next + 1 } := rfl
  unfold createLogStream
  simp only
  rw [bind_ok _ first, bind_ok _ run]
  split_ifs
  next => exact fresh.attempted id
  next => exact fresh.attempted id

theorem createLogStream_retried (again : ¬Client.Last retryLimit (service parent s.state.server).1.1) :
    ¬(exitState (createLogStream parent retryLimit (some service) s)).started.Nodup := by
  have twice := @issueRequest_retried _ _ _ _ _ { s with next := s.next + 1 } ⟨[], []⟩ (create_captures s.next) _ again
  have first : (makeContext : Issuing (LogStreamWriter σ) Nat) s = .ok s.next { s with next := s.next + 1 } := rfl
  unfold createLogStream
  simp only
  rw [bind_ok _ first]
  exact twice_bind twice fun _ => .ite (fun _ => .pure trivial) fun _ => .throw _

end Create

theorem perform_fresh {call : Call σ} (fresh : Fresh s) (once : ¬Retried stub s call) :
    Fresh (perform stub s call) := by
  cases call with
  | write data => exact write_fresh fresh once
  | commit => exact (commit_fresh stub).exit fresh
  | createLogStream parent retryLimit logstreamClient =>
    cases logstreamClient with
    | none => exact fresh
    | some service => exact createLogStream_fresh fresh (by_contra fun again => once ⟨service, rfl, again⟩)

theorem perform_retried {call : Call σ} (again : Retried stub s call) : ¬(perform stub s call).started.Nodup := by
  cases call with
  | write data => exact write_retried again
  | commit => exact again.elim
  | createLogStream parent retryLimit logstreamClient =>
    obtain ⟨service, given, again⟩ := again
    obtain rfl : logstreamClient = some service := given
    exact createLogStream_retried again

theorem performAll_nodup_iff (fresh : Fresh s) (calls : List (Call σ)) : (performAll stub s calls).started.Nodup ↔
    ∀ before call after, calls = before ++ call :: after → ¬Retried stub (performAll stub s before) call := by
  induction calls generalizing s with
  | nil => exact iff_of_true fresh.nodup (by simp)
  | cons call calls ih =>
    by_cases again : Retried stub s call
    next =>
      refine iff_of_false ?_ fun once => once [] call calls rfl again
      exact performAll_lasts not_nodup_lasts stub calls (perform_retried again)
    next =>
      refine (ih (perform_fresh fresh again)).trans ⟨fun later before other after split => ?_, fun all => ?_⟩
      next =>
        rcases List.cons_eq_append_iff.mp split with ⟨rfl, same⟩ | ⟨before, rfl, rest⟩
        next => exact (List.cons.inj same).1 ▸ again
        next => exact later before other after rest
      next =>
        rintro before other after rfl
        exact all (call :: before) other after rfl

theorem contexts_used_once_iff (resourceName : Bytes) (grpcRetryLimit : Nat) (server : σ) (calls : List (Call σ)) :
    let start := create (LogStreamWriter.create resourceName grpcRetryLimit server)
    (performAll stub start calls).started.Nodup ↔
      ∀ before call after, calls = before ++ call :: after → ¬Retried stub (performAll stub start before) call :=
  performAll_nodup_iff (create_fresh _) calls

def busyStub : LogStreamStub Nat where
  queryWriteStatus _ := fun asked => (⟨if asked = 0 then StatusCode.unavailable else StatusCode.ok, []⟩, asked + 1)
  openWriter := pure ()
  write _ := pure true
  writesDone := pure ()
  finish := pure (⟨StatusCode.ok, []⟩, 0)

theorem query_reuses_context :
    let after := performAll busyStub (create (LogStreamWriter.create (text "log") 1 0)) [.write (text "x")]
    after.started = [1, 1, 0] ∧ ¬after.started.Nodup := by
  have started : (performAll busyStub (create (LogStreamWriter.create (text "log") 1 0))
      [.write (text "x")]).started = [1, 1, 0] := rfl
  exact ⟨started, by rw [started]; decide⟩

end Main

end BuildboxCommon.ClientContexts
