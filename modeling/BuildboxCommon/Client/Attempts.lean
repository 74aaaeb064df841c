import BuildboxCommon.Client.GrpcRetrier

set_option autoImplicit false

namespace BuildboxCommon.Client

open Effect

variable {σ τ : Type}

def settled (ends : Nat → Except Exn Status) : Nat → Nat → Except Exn Unit
  | retries, attempt =>
    match ends attempt with
    | .error e => .error e
    | .ok status =>
      if status.ok then .ok ()
      else if !GrpcRetrier.statusIsRetryable status then .error (.grpcError status)
      else
        match retries with
        | 0 => .error (.grpcError status)
        | retries + 1 => settled ends retries (attempt + 1)

def throwUnlessOk (answer : Bool × Status × τ) : EStateM Exn σ τ :=
  if !answer.1 || !answer.2.1.ok then throw (.grpcError answer.2.1) else return answer.2.2

def Last (retries : Nat) (status : Status) : Prop :=
  status.ok = true ∨ GrpcRetrier.statusIsRetryable status = false ∨ retries = 0

theorem not_last {retries : Nat} {status : Status} (last : ¬Last retries status) :
    status.ok = false ∧ GrpcRetrier.statusIsRetryable status = true ∧ retries ≠ 0 := by
  simpa [Last] using last

section Steps

variable {ends : Nat → Except Exn Status} {invocation : τ → EStateM Exn σ (Status × τ)} {captured captured' : τ}
  {s s' : σ} {status : Status} {retries attempt : Nat}

theorem settled_error {e : Exn} (ended : ends attempt = .error e) : settled ends retries attempt = .error e := by
  unfold settled
  rw [ended]

theorem settled_last (ended : ends attempt = .ok status) (last : Last retries status) :
    settled ends retries attempt = if status.ok then .ok () else .error (.grpcError status) := by
  unfold settled
  rw [ended]
  rcases last with ok | final | rfl
  next => simp [ok]
  next => simp [final]
  next => simp

theorem settled_again (ended : ends attempt = .ok status) (failed : status.ok = false)
    (again : GrpcRetrier.statusIsRetryable status = true) :
    settled ends (retries + 1) attempt = settled ends retries (attempt + 1) := by
  rw [settled, ended]
  simp [failed, again]

theorem settled_grpcError (answers : ∀ attempt, ∃ status, ends attempt = .ok status) {retries attempt : Nat} {e : Exn}
    (error : settled ends retries attempt = .error e) : ∃ status, e = .grpcError status := by
  obtain ⟨status, ended⟩ := answers attempt
  by_cases last : Last retries status
  next =>
    rw [settled_last ended last] at error
    split at error
    next => cases error
    next => exact ⟨status, (Except.error.inj error).symm⟩
  next =>
    obtain ⟨failed, again, more⟩ := not_last last
    obtain ⟨retries, rfl⟩ := Nat.exists_eq_succ_of_ne_zero more
    rw [Nat.succ_eq_add_one, settled_again ended failed again] at error
    exact settled_grpcError answers error

theorem issueRequest_last (run : invocation captured s = .ok (status, captured') s') (last : Last retries status) :
    (GrpcRetrier.issueRequest invocation retries captured >>= throwUnlessOk) s =
      if status.ok then .ok captured' s' else .error (.grpcError status) s' := by
  unfold GrpcRetrier.issueRequest
  rw [bind_assoc, bind_ok _ run]
  rcases last with ok | final | rfl
  next => simp [ok, throwUnlessOk]
  next => cases ok : status.ok <;> simp [ok, final, throwUnlessOk]
  next =>
    cases ok : status.ok <;> cases again : GrpcRetrier.statusIsRetryable status <;> simp [ok, again, throwUnlessOk]

theorem issueRequest_again (run : invocation captured s = .ok (status, captured') s') (failed : status.ok = false)
    (again : GrpcRetrier.statusIsRetryable status = true) :
    (GrpcRetrier.issueRequest invocation (retries + 1) captured >>= throwUnlessOk) s =
      (GrpcRetrier.issueRequest invocation retries captured' >>= throwUnlessOk) s' := by
  rw [GrpcRetrier.issueRequest, bind_assoc, bind_ok _ run]
  simp [failed, again]

theorem issueRequest_extends {extending : σ → σ → Prop} (refl : ∀ s, extending s s)
    (trans : ∀ s between s', extending s between → extending between s' → extending s s')
    (each : ∀ captured s, extending s (exitState (invocation captured s))) (retries : Nat) (captured : τ) (s : σ) :
    extending (exitState (invocation captured s))
      (exitState ((GrpcRetrier.issueRequest invocation retries captured >>= throwUnlessOk) s)) := by
  cases run : invocation captured s with
  | error e s' =>
    rw [bind_error _ (GrpcRetrier.issueRequest_error run retries)]
    exact refl _
  | ok answer s' =>
    obtain ⟨status, captured'⟩ := answer
    by_cases last : Last retries status
    next =>
      rw [issueRequest_last run last]
      cases status.ok <;> exact refl _
    next =>
      obtain ⟨failed, again, more⟩ := not_last last
      obtain ⟨retries, rfl⟩ := Nat.exists_eq_succ_of_ne_zero more
      rw [Nat.succ_eq_add_one, issueRequest_again run failed again]
      exact trans _ _ _ (each captured' s') (issueRequest_extends refl trans each retries captured' s')

end Steps

structure Follows (limit : Nat) (invocation : τ → EStateM Exn σ (Status × τ)) (ends : Nat → Except Exn Status)
    (going : Nat → τ → σ → Prop) (finished : τ → σ → Prop) (kept : σ → Prop) : Prop where
  answers : ∀ attempt captured s status, going attempt captured s → ends attempt = .ok status →
    ∃ captured' s', invocation captured s = .ok (status, captured') s' ∧ kept s' ∧
      (status.ok = true → finished captured' s') ∧
      (status.ok = false → GrpcRetrier.statusIsRetryable status = true → attempt < limit →
        going (attempt + 1) captured' s')
  raises : ∀ attempt captured s e, going attempt captured s → ends attempt = .error e →
    ∃ s', invocation captured s = .error e s' ∧ kept s'

inductive Settles (outcome : Except Exn Unit) (finished : τ → σ → Prop) (kept : σ → Prop) :
    EStateM.Result Exn σ τ → Prop where
  | returned {captured : τ} {s : σ} (ok : outcome = .ok ()) (holds : kept s) (done : finished captured s) :
      Settles outcome finished kept (.ok captured s)
  | threw {e : Exn} {s : σ} (error : outcome = .error e) (holds : kept s) : Settles outcome finished kept (.error e s)

theorem Settles.kept {outcome : Except Exn Unit} {finished : τ → σ → Prop} {kept : σ → Prop}
    {result : EStateM.Result Exn σ τ} (settles : Settles outcome finished kept result) : kept (exitState result) := by
  cases settles with
  | returned _ holds => exact holds
  | threw _ holds => exact holds

theorem Settles.returns_iff {outcome : Except Exn Unit} {finished : Unit → σ → Prop} {kept : σ → Prop}
    {result : EStateM.Result Exn σ Unit} (settles : Settles outcome finished kept result) :
    (∃ s, result = .ok () s) ↔ outcome = .ok () := by
  cases settles with
  | returned ok => exact ⟨fun _ => ok, fun _ => ⟨_, rfl⟩⟩
  | threw error => simp [error]

section Follows

variable {limit : Nat} {invocation : τ → EStateM Exn σ (Status × τ)} {ends : Nat → Except Exn Status}
  {going : Nat → τ → σ → Prop} {finished : τ → σ → Prop} {kept : σ → Prop}

theorem Follows.issueRequest (follows : Follows limit invocation ends going finished kept) (retries attempt : Nat)
    (within : attempt + retries = limit) {captured : τ} {s : σ} (start : going attempt captured s) :
    Settles (settled ends retries attempt) finished kept
      ((GrpcRetrier.issueRequest invocation retries captured >>= throwUnlessOk) s) := by
  cases ended : ends attempt with
  | error e =>
    obtain ⟨s', run, holds⟩ := follows.raises _ _ _ _ start ended
    rw [bind_error _ (GrpcRetrier.issueRequest_error run retries)]
    exact .threw (settled_error ended) holds
  | ok status =>
    obtain ⟨captured', s', run, holds, done, further⟩ := follows.answers _ _ _ _ start ended
    by_cases last : Last retries status
    next =>
      rw [issueRequest_last run last, settled_last ended last]
      cases ok : status.ok with
      | true => exact .returned rfl holds (done ok)
      | false => exact .threw rfl holds
    next =>
      obtain ⟨failed, again, more⟩ := not_last last
      obtain ⟨retries, rfl⟩ := Nat.exists_eq_succ_of_ne_zero more
      rw [Nat.succ_eq_add_one, issueRequest_again run failed again, settled_again ended failed again]
      exact follows.issueRequest retries (attempt + 1) (by omega) (further failed again (by omega))

-- The induction over the attempts: the request is settled as its attempts end.
theorem Follows.settles {client : Client σ}
    (follows : Follows client.grpcRetryLimit invocation ends going finished kept) (captured : τ) (s : σ)
    (start : going 0 captured s) :
    Settles (settled ends client.grpcRetryLimit 0) finished kept
      (client.issueRequestAndThrowOnErrors invocation captured s) :=
  follows.issueRequest client.grpcRetryLimit 0 (Nat.zero_add _) start

end Follows

end BuildboxCommon.Client
