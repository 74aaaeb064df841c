import BuildboxCommon.Posix
import BuildboxCommon.Protos
import BuildboxCommon.Shared.Effect

set_option autoImplicit false

namespace BuildboxCommon

open ByteString Effect

structure WriteRequest where
  resourceName : Bytes
  writeOffset : Nat
  data : Bytes
  finishWrite : Bool
deriving DecidableEq

structure ReadRequest where
  resourceName : Bytes
  readOffset : Nat
deriving DecidableEq

structure UpdatedBlob where
  digest : Digest
  status : Status
deriving DecidableEq

structure ReadBlob where
  digest : Digest
  data : Bytes
  status : Status
deriving DecidableEq

structure Stub (σ : Type) where
  findMissingBlobs : List Digest → StateM σ (Status × List Digest)
  batchUpdateBlobs : List (Digest × Bytes) → StateM σ (Status × List UpdatedBlob)
  batchReadBlobs : List Digest → StateM σ (Status × List ReadBlob)
  openWriter : StateM σ Unit
  write : WriteRequest → StateM σ Bool
  finishWrite : StateM σ (Status × Int)
  read : ReadRequest → StateM σ (List Bytes × Status)

structure Client (σ : Type) where
  stub : Stub σ
  hash : Bytes → Bytes
  instanceName : Bytes
  uuid : Bytes
  maxBatchTotalSizeBytes : UInt64
  grpcRetryLimit : Nat

inductive Exchange where
  | findMissingBlobs (asked : List Digest) (answer : Except Exn (List Digest))
  | batchUpdateBlobs (sent : List (Digest × Bytes)) (answer : Except Exn (List UpdatedBlob))
  | batchReadBlobs (asked : List Digest) (answer : Except Exn (List ReadBlob))
  | write (digest : Digest) (contents : Bytes) (answer : Except Exn Unit)
  | read (digest : Digest) (answer : Except Exn Bytes)

inductive Access (ι : Type) where
  | captured (output : Bytes) (fd : ι)
  | handed (output absolutePath : Bytes)
  | hashed (fd : ι)
  | sent (fd : ι)
  | written (path contents : Bytes) (mode : Nat) (answer : Except Exn Unit)
  | invoked (hash argument : Bytes) (file : Option Bytes)

structure Session (ι σ : Type) where
  server : σ
  exchanges : List Exchange
  accesses : List (Access ι)

variable {ι σ τ α : Type}

def recordAccess (access : Access ι) : EStateM Exn (Session ι σ) Unit :=
  modify fun s => { s with accesses := s.accesses ++ [access] }

def recorded (entry : Except Exn α → Exchange) (rpc : EStateM Exn σ α) : EStateM Exn (Session ι σ) α := fun s =>
  match rpc s.server with
  | .ok a server => .ok a { s with server := server, exchanges := s.exchanges ++ [entry (.ok a)] }
  | .error thrown server =>
    .error thrown { s with server := server, exchanges := s.exchanges ++ [entry (.error thrown)] }

theorem recorded_ok {entry : Except Exn α → Exchange} {rpc : EStateM Exn σ α} {a : α} {s : Session ι σ} {server : σ}
    (run : rpc s.server = .ok a server) :
    recorded entry rpc s = .ok a { s with server := server, exchanges := s.exchanges ++ [entry (.ok a)] } := by
  simp only [recorded, run]

theorem recorded_error {entry : Except Exn α → Exchange} {rpc : EStateM Exn σ α} {thrown : Exn} {s : Session ι σ}
    {server : σ} (run : rpc s.server = .error thrown server) :
    recorded entry rpc s =
      .error thrown { s with server := server, exchanges := s.exchanges ++ [entry (.error thrown)] } := by
  simp only [recorded, run]

def inSession (program : EStateM Exn σ α) : EStateM Exn (Session ι σ) α := fun s =>
  match program s.server with
  | .ok a server => .ok a { s with server := server }
  | .error thrown server => .error thrown { s with server := server }

theorem of_recorded_ok {entry : Except Exn α → Exchange} {rpc : EStateM Exn σ α} {a : α} {s s' : Session ι σ}
    (run : recorded entry rpc s = .ok a s') :
    ∃ server, s' = { s with server := server, exchanges := s.exchanges ++ [entry (.ok a)] } := by
  unfold recorded at run
  cases ended : rpc s.server with
  | ok b server =>
    rw [ended] at run
    cases run
    exact ⟨server, rfl⟩
  | error thrown server =>
    rw [ended] at run
    cases run

section Lifted

variable {before raised : σ → Prop} {after : α → σ → Prop}

theorem inSession_server {program : EStateM Exn σ α} (runs : Runs before program after raised) :
    Runs (fun s : Session ι σ => before s.server) (inSession program) (fun a s => after a s.server)
      fun s => raised s.server := by
  intro s start
  have ended := runs s.server start
  unfold inSession
  cases run : program s.server with
  | ok a server =>
    rw [run] at ended
    exact ended
  | error e server =>
    rw [run] at ended
    exact ended

theorem recorded_server (entry : Except Exn α → Exchange) {rpc : EStateM Exn σ α}
    (runs : Runs before rpc after raised) :
    Runs (fun s : Session ι σ => before s.server) (recorded entry rpc) (fun a s => after a s.server)
      fun s => raised s.server := by
  intro s start
  have ended := runs s.server start
  unfold recorded
  cases run : rpc s.server with
  | ok a server =>
    rw [run] at ended
    exact ended
  | error e server =>
    rw [run] at ended
    exact ended

theorem inSession_raises {kind : Exn → Prop} {program : EStateM Exn σ α} (raises : RaisesOnly kind program) :
    RaisesOnly kind (inSession program : EStateM Exn (Session ι σ) α) := by
  intro s e s' run
  unfold inSession at run
  cases ended : program s.server with
  | ok a server =>
    rw [ended] at run
    cases run
  | error thrown server =>
    rw [ended] at run
    cases run
    exact raises _ _ _ ended

end Lifted

structure Session.Extends (before : Session ι σ) (exchanges : List Exchange) (accesses : List (Access ι))
    (after : Session ι σ) : Prop where
  exchanges : after.exchanges = before.exchanges ++ exchanges
  accesses : after.accesses = before.accesses ++ accesses

theorem Session.Extends.refl (s : Session ι σ) : s.Extends [] [] s :=
  ⟨(List.append_nil _).symm, (List.append_nil _).symm⟩

theorem Session.Extends.trans {before between after : Session ι σ} {exchanges more : List Exchange}
    {accesses others : List (Access ι)} (first : before.Extends exchanges accesses between)
    (second : between.Extends more others after) : before.Extends (exchanges ++ more) (accesses ++ others) after :=
  ⟨by rw [second.exchanges, first.exchanges, List.append_assoc],
    by rw [second.accesses, first.accesses, List.append_assoc]⟩

namespace GrpcRetrier

-- The clients of this library add no code of their own to `d_retryableStatusCodes`.
def statusIsRetryable (status : Status) : Bool := status.code = StatusCode.unavailable

-- The invocation works on variables that it captured by reference. Delays are left out.
def issueRequest (invocation : τ → EStateM Exn σ (Status × τ)) : Nat → τ → EStateM Exn σ (Bool × Status × τ)
  | retries, captured => do
    let (status, captured) ← invocation captured
    if status.ok || !statusIsRetryable status then return (true, status, captured)
    else
      match retries with
      | 0 => return (false, status, captured)
      | retries + 1 => issueRequest invocation retries captured

theorem issueRequest_error {invocation : τ → EStateM Exn σ (Status × τ)} {captured : τ} {s s' : σ} {e : Exn}
    (fails : invocation captured s = .error e s') (retries : Nat) :
    issueRequest invocation retries captured s = .error e s' := by
  cases retries with
  | zero => exact bind_error _ fails
  | succ retries => exact bind_error _ fails

theorem issueRequest_keeps {good : τ → Prop} {invocation : τ → EStateM Exn σ (Status × τ)}
    (keeps : ∀ captured, Keeps (fun _ => True) (invocation captured) fun answer => answer.1.ok = true → good answer.2)
    (retries : Nat) (captured : τ) :
    Keeps (fun _ => True) (issueRequest invocation retries captured) fun answer =>
      answer.2.1.ok = true → good answer.2.2 := by
  induction retries generalizing captured with
  | zero =>
    unfold issueRequest
    exact (keeps captured).bind fun _ granted => .ite (fun _ => .pure granted) fun _ => .pure granted
  | succ retries ih =>
    unfold issueRequest
    exact (keeps captured).bind fun _ granted => .ite (fun _ => .pure granted) fun _ => ih _

theorem issueRequest_completed (invocation : τ → EStateM Exn σ (Status × τ)) (retries : Nat) (captured : τ) :
    Keeps (fun _ => True) (issueRequest invocation retries captured) fun answer =>
      answer.1 = false → answer.2.1.ok = false := by
  have again {status : Status} (other : ¬(status.ok || !statusIsRetryable status) = true) : status.ok = false := by
    rw [Bool.not_eq_true, Bool.or_eq_false_iff] at other
    exact other.1
  induction retries generalizing captured with
  | zero =>
    unfold issueRequest
    exact (Keeps.trivial _).bind fun _ _ => .ite (fun _ => .pure nofun) fun other => .pure fun _ => again other
  | succ retries ih =>
    unfold issueRequest
    exact (Keeps.trivial _).bind fun _ _ => .ite (fun _ => .pure nofun) fun _ => ih _

theorem issueRequest_runs {going settled : τ → σ → Prop} {raised : σ → Prop}
    {invocation : τ → EStateM Exn σ (Status × τ)}
    (each : ∀ captured, Effect.Runs (going captured) (invocation captured)
      (fun answer s => if answer.1.ok then settled answer.2 s else going answer.2 s) raised)
    (given : ∀ captured s, going captured s → raised s) (retries : Nat) (captured : τ) :
    Effect.Runs (going captured) (issueRequest invocation retries captured)
      (fun answer s => if answer.2.1.ok then settled answer.2.2 s else raised s) raised := by
  have stopped (answer : Status × τ) (completed : Bool) :
      Effect.Runs (fun s => if answer.1.ok then settled answer.2 s else going answer.2 s)
        (pure (completed, answer.1, answer.2) : EStateM Exn σ _)
        (fun answer s => if answer.2.1.ok then settled answer.2.2 s else raised s) raised := by
    refine .pure fun s ended => ?_
    simp only at ended ⊢
    split_ifs at ended ⊢
    next => exact ended
    next => exact given _ _ ended
  induction retries generalizing captured with
  | zero =>
    unfold issueRequest
    exact (each captured).bind fun answer => .ite (fun _ => stopped answer true) fun _ => stopped answer false
  | succ retries ih =>
    unfold issueRequest
    refine (each captured).bind fun answer => .ite (fun _ => stopped answer true) fun again => ?_
    refine (ih answer.2).mono (fun s ended => ?_) fun _ _ => id
    rw [Bool.not_eq_true, Bool.or_eq_false_iff] at again
    simpa [again.1] using ended

theorem issueRequest_raises {kind : Exn → Prop} {invocation : τ → EStateM Exn σ (Status × τ)}
    (raises : ∀ captured, RaisesOnly kind (invocation captured)) (retries : Nat) (captured : τ) :
    RaisesOnly kind (issueRequest invocation retries captured) := by
  induction retries generalizing captured with
  | zero =>
    unfold issueRequest
    exact (raises captured).bind fun _ => .ite (.pure _) (.pure _)
  | succ retries ih =>
    unfold issueRequest
    exact (raises captured).bind fun _ => .ite (.pure _) (ih _)

end GrpcRetrier

namespace Client

def bytestreamChunkSizeBytes : Nat := 1024 * 1024

def makeResourceName (client : Client σ) (digest : Digest) (isUpload : Bool) : Bytes :=
  (if client.instanceName ≠ [] then client.instanceName ++ text "/" else []) ++
    (if isUpload then text "uploads/" ++ client.uuid ++ text "/" else []) ++
    text "blobs/" ++ digest.hashOther ++ text "/" ++ text (toString digest.sizeBytes)

def issueRequestAndThrowOnErrors (client : Client σ) (invocation : τ → EStateM Exn σ (Status × τ)) (captured : τ) :
    EStateM Exn σ τ := do
  let (completed, status, captured) ← GrpcRetrier.issueRequest invocation client.grpcRetryLimit captured
  if !completed || !status.ok then throw (.grpcError status) else return captured

def unary (call : StateM σ (Status × α)) (_ : α) : EStateM Exn σ (Status × α) := calling call

theorem issueRequestAndThrowOnErrors_ok {client : Client σ} {invocation : τ → EStateM Exn σ (Status × τ)}
    {captured result : τ} {s s' : σ} {status : Status} (run : invocation captured s = .ok (status, result) s')
    (ok : status.ok = true) : client.issueRequestAndThrowOnErrors invocation captured s = .ok result s' := by
  have issued : GrpcRetrier.issueRequest invocation client.grpcRetryLimit captured s =
      .ok (true, status, result) s' := by
    unfold GrpcRetrier.issueRequest
    rw [bind_ok _ run]
    simp [ok]
  unfold issueRequestAndThrowOnErrors
  rw [bind_ok _ issued]
  simp [ok]

theorem issueRequestAndThrowOnErrors_error (client : Client σ) {invocation : τ → EStateM Exn σ (Status × τ)}
    {captured : τ} {s s' : σ} {e : Exn} (fails : invocation captured s = .error e s') :
    client.issueRequestAndThrowOnErrors invocation captured s = .error e s' :=
  bind_error _ (GrpcRetrier.issueRequest_error fails _)

theorem issueRequestAndThrowOnErrors_keeps (client : Client σ) {good : τ → Prop}
    {invocation : τ → EStateM Exn σ (Status × τ)}
    (keeps : ∀ captured, Keeps (fun _ => True) (invocation captured) fun answer => answer.1.ok = true → good answer.2)
    (captured : τ) :
    Keeps (fun _ => True) (client.issueRequestAndThrowOnErrors invocation captured) good := by
  unfold issueRequestAndThrowOnErrors
  refine (GrpcRetrier.issueRequest_keeps keeps _ captured).bind fun answer granted => ?_
  refine .ite (fun _ => .throw _) fun completed => .pure (granted ?_)
  rw [Bool.not_eq_true, Bool.or_eq_false_iff, Bool.not_eq_false'] at completed
  simpa using completed.2

theorem issueRequestAndThrowOnErrors_runs (client : Client σ) {going settled : τ → σ → Prop} {raised : σ → Prop}
    {invocation : τ → EStateM Exn σ (Status × τ)}
    (each : ∀ captured, Runs (going captured) (invocation captured)
      (fun answer s => if answer.1.ok then settled answer.2 s else going answer.2 s) raised)
    (given : ∀ captured s, going captured s → raised s) (settles : ∀ captured s, settled captured s → raised s)
    (captured : τ) :
    Runs (going captured) (client.issueRequestAndThrowOnErrors invocation captured) settled raised := by
  unfold issueRequestAndThrowOnErrors
  refine (GrpcRetrier.issueRequest_runs each given _ captured).bind fun answer => ?_
  refine .ite (fun _ => .throw fun s ended => ?_) fun completed => .pure fun s ended => ?_
  next =>
    split_ifs at ended
    next => exact settles _ _ ended
    next => exact ended
  next =>
    rw [Bool.not_eq_true, Bool.or_eq_false_iff, Bool.not_eq_false'] at completed
    have ok : answer.2.1.ok = true := by simpa using completed.2
    rwa [if_pos ok] at ended

theorem issueRequestAndThrowOnErrors_raises {kind : Exn → Prop} (client : Client σ)
    {invocation : τ → EStateM Exn σ (Status × τ)} (raises : ∀ captured, RaisesOnly kind (invocation captured))
    (status : ∀ status, status.ok = false → kind (.grpcError status)) (captured : τ) :
    RaisesOnly kind (client.issueRequestAndThrowOnErrors invocation captured) := by
  unfold issueRequestAndThrowOnErrors
  refine (GrpcRetrier.issueRequest_raises raises _ _).bind_returned
    (GrpcRetrier.issueRequest_completed invocation _ captured) fun answer completed => ?_
  dsimp only
  by_cases failed : (!answer.1 || !answer.2.1.ok) = true
  next =>
    rw [if_pos failed]
    rw [Bool.or_eq_true, Bool.not_eq_true', Bool.not_eq_true'] at failed
    exact .throw (status _ (failed.elim completed id))
  next =>
    rw [if_neg failed]
    exact .pure _

end Client

end BuildboxCommon
