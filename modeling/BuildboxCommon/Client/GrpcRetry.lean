import BuildboxCommon.Client.GrpcRetrier

set_option autoImplicit false

namespace BuildboxCommon

open ByteString Effect

variable {σ : Type}

structure GrpcError where
  what : Bytes
  status : Status

namespace GrpcRetry

def intMax : Int := 2 ^ 31 - 1

inductive Thrown where
  | grpcError (error : GrpcError)
  | undefined

def retryAttemptsExceededErrorMessage (grpcInvocationName : Bytes) (grpcError : Status) (retryLimit : Int) : Bytes :=
  text "Retry limit (" ++ text (toString retryLimit) ++ text ") exceeded" ++
    (if grpcInvocationName ≠ [] then text " for \"" ++ grpcInvocationName ++ text "\"" else []) ++
    text ", last gRPC error was [" ++ text (toString grpcError.code) ++ text ": " ++ grpcError.message ++ text "]"

-- `static_cast<int>(grpcRetryDelay * pow(1.6, nAttempts))`, where it is defined. From 2 ^ 1024 on the power is
-- infinite, below that no rounding of the product decides whether it fits.
def timeDelay (grpcRetryDelay : Int) (nAttempts : Nat) : Option Int :=
  if 2 ^ 1024 * 5 ^ nAttempts ≤ 8 ^ nAttempts then none
  else
    let product := (grpcRetryDelay * 8 ^ nAttempts).tdiv (5 ^ nAttempts)
    if product < -2 ^ 31 ∨ intMax < product then none else some product

def retryFrom (grpcInvocation : StateM σ Status) (grpcInvocationName : Bytes) (grpcRetryLimit grpcRetryDelay : Int)
    (errorsToRetryOn : List StatusCode) (nAttempts : Int) : EStateM Thrown σ Unit := do
  let status ← calling grpcInvocation
  if status.ok then return ()
  else if status.code ∉ errorsToRetryOn then
    throw (.grpcError ⟨text (toString status.code) ++ text ": " ++ status.message, status⟩)
  else if nAttempts < grpcRetryLimit ∧ timeDelay grpcRetryDelay nAttempts.toNat = none then throw .undefined
  -- The loop goes on while `nAttempts < grpcRetryLimit + 1`.
  else if grpcRetryLimit = intMax then throw .undefined
  else if more : nAttempts + 1 < grpcRetryLimit + 1 then
    retryFrom grpcInvocation grpcInvocationName grpcRetryLimit grpcRetryDelay errorsToRetryOn (nAttempts + 1)
  else throw (.grpcError ⟨retryAttemptsExceededErrorMessage grpcInvocationName status grpcRetryLimit, status⟩)
termination_by (grpcRetryLimit - nAttempts).toNat

def retry (grpcInvocation : StateM σ Status) (grpcInvocationName : Bytes) (grpcRetryLimit grpcRetryDelay : Int)
    (errorsToRetryOn : List StatusCode) : EStateM Thrown σ Unit :=
  retryFrom grpcInvocation grpcInvocationName grpcRetryLimit grpcRetryDelay
    (StatusCode.unavailable :: errorsToRetryOn) 0

end GrpcRetry

namespace GrpcRetrier

structure Issued where
  completed : Bool
  status : Status
  retryAttempts : Nat

def issueRequestFrom (grpcInvocation : StateM σ Status) (retryLimit : Nat) (retryableStatusCodes : List StatusCode)
    (retryAttempts : Nat) : StateM σ Issued := do
  let status ← grpcInvocation
  if status.ok || status.code ∉ retryableStatusCodes then return ⟨true, status, retryAttempts⟩
  else if done : retryLimit ≤ retryAttempts then return ⟨false, status, retryAttempts⟩
  else issueRequestFrom grpcInvocation retryLimit retryableStatusCodes (retryAttempts + 1)
termination_by retryLimit - retryAttempts

def issueRequestRetryingOn (grpcInvocation : StateM σ Status) (retryLimit : Nat)
    (retryableStatusCodes : List StatusCode) : StateM σ Issued :=
  issueRequestFrom grpcInvocation retryLimit (StatusCode.unavailable :: retryableStatusCodes) 0

end GrpcRetrier

namespace GrpcRetry

abbrev Script := Nat → Status

def Script.invoke (script : Script) : StateM Nat Status := fun invoked => (script invoked, invoked + 1)

def Retryable (codes : List StatusCode) (status : Status) : Prop := status.ok = false ∧ status.code ∈ codes

instance (codes : List StatusCode) (status : Status) : Decidable (Retryable codes status) :=
  inferInstanceAs (Decidable (_ ∧ _))

inductive Stops (codes : List StatusCode) (script : Script) (limit : Nat) : Nat → Nat → Prop where
  | settled {attempt : Nat} (within : attempt ≤ limit) (final : ¬Retryable codes (script attempt)) :
    Stops codes script limit attempt attempt
  | exhausted (failed : Retryable codes (script limit)) : Stops codes script limit limit limit
  | again {attempt last : Nat} (below : attempt < limit) (failed : Retryable codes (script attempt))
    (later : Stops codes script limit (attempt + 1) last) : Stops codes script limit attempt last

section Stops

variable {codes : List StatusCode} {script : Script} {limit : Nat}

theorem stops_exists (attempt : Nat) (within : attempt ≤ limit) : ∃ last, Stops codes script limit attempt last := by
  by_cases failed : Retryable codes (script attempt)
  next =>
    rcases Nat.eq_or_lt_of_le within with rfl | below
    next => exact ⟨_, .exhausted failed⟩
    next =>
      obtain ⟨last, later⟩ := stops_exists (attempt + 1) below
      exact ⟨last, .again below failed later⟩
  next => exact ⟨attempt, .settled within failed⟩
termination_by limit - attempt

variable {attempt last : Nat}

theorem Stops.within (stops : Stops codes script limit attempt last) : attempt ≤ last ∧ last ≤ limit := by
  induction stops with
  | settled within => exact ⟨le_rfl, within⟩
  | exhausted => exact ⟨le_rfl, le_rfl⟩
  | again below _ _ ih => omega

theorem Stops.failed (stops : Stops codes script limit attempt last) {earlier : Nat} (low : attempt ≤ earlier)
    (high : earlier < last) : Retryable codes (script earlier) := by
  induction stops with
  | settled | exhausted => omega
  | again below failed later ih =>
    rcases Nat.eq_or_lt_of_le low with rfl | past
    next => exact failed
    next => exact ih past high

theorem Stops.final (stops : Stops codes script limit attempt last) (below : last < limit) :
    ¬Retryable codes (script last) := by
  induction stops with
  | settled _ final => exact final
  | exhausted => exact absurd below (Nat.lt_irrefl _)
  | again _ _ _ ih => exact ih below

theorem not_retryable {status : Status} : ¬Retryable codes status ↔ status.ok = true ∨ status.code ∉ codes := by
  unfold Retryable
  cases status.ok <;> simp

theorem issueRequestFrom_stops (stops : Stops codes script limit attempt last) :
    GrpcRetrier.issueRequestFrom script.invoke limit codes attempt attempt =
      (⟨!decide (Retryable codes (script last)), script last, last⟩, last + 1) := by
  induction stops with
  | @settled attempt within final =>
    rw [GrpcRetrier.issueRequestFrom]
    have stop : ((script attempt).ok || decide ((script attempt).code ∉ codes)) = true := by
      simpa using not_retryable.mp final
    simp only [bind, StateT.bind, Script.invoke, stop, if_true, decide_eq_false final, Bool.not_false]
    rfl
  | exhausted failed =>
    rw [GrpcRetrier.issueRequestFrom]
    simp only [bind, StateT.bind, Script.invoke, failed.1, failed.2, not_true, decide_false, Bool.or_self, if_false,
      le_refl, dif_pos, decide_eq_true failed, Bool.not_true, Bool.false_eq_true]
    rfl
  | again below failed later ih =>
    rw [GrpcRetrier.issueRequestFrom]
    simp only [bind, StateT.bind, Script.invoke, failed.1, failed.2, not_true, decide_false, Bool.or_self, if_false,
      Bool.false_eq_true, dif_neg (Nat.not_le.mpr below)]
    exact ih

theorem retryFrom_invoked (name : Bytes) (codes : List StatusCode) (limit delay attempts : Int) (attempt : Nat) :
    retryFrom script.invoke name limit delay codes attempts attempt =
      (if (script attempt).ok then pure ()
      else if (script attempt).code ∉ codes then throw (.grpcError
        ⟨text (toString (script attempt).code) ++ text ": " ++ (script attempt).message, script attempt⟩)
      else if attempts < limit ∧ timeDelay delay attempts.toNat = none then throw .undefined
      else if limit = intMax then throw .undefined
      else if attempts + 1 < limit + 1 then retryFrom script.invoke name limit delay codes (attempts + 1)
      else throw (.grpcError ⟨retryAttemptsExceededErrorMessage name (script attempt) limit, script attempt⟩) :
        EStateM Thrown Nat Unit) (attempt + 1) := by
  rw [retryFrom, bind_ok _ (show (calling script.invoke : EStateM Thrown Nat Status) attempt =
    .ok (script attempt) (attempt + 1) from rfl)]
  split_ifs <;> rfl

theorem retryFrom_stops (stops : Stops codes script limit attempt last)
    (fits : Retryable codes (script attempt) → (limit : Int) ≠ intMax) {delay : Int}
    (sleeps : ∀ earlier, attempt ≤ earlier → earlier < last → timeDelay delay earlier ≠ none) (name : Bytes) :
    ∃ what, retryFrom script.invoke name limit delay codes attempt attempt =
      if (script last).ok then .ok () (last + 1)
      else .error (.grpcError ⟨what, script last⟩) (last + 1) := by
  induction stops with
  | @settled attempt within final =>
    rw [retryFrom_invoked]
    rcases not_retryable.mp final with ok | code
    next => exact ⟨[], by rw [if_pos ok, if_pos ok]; rfl⟩
    next =>
      refine ⟨text (toString (script attempt).code) ++ text ": " ++ (script attempt).message, ?_⟩
      rw [if_pos code]
      split <;> rfl
  | exhausted failed =>
    refine ⟨retryAttemptsExceededErrorMessage name (script limit) limit, ?_⟩
    simp only [retryFrom_invoked, failed.1, failed.2, not_true, Bool.false_eq_true, if_false, fits failed, lt_irrefl,
      false_and]
    rfl
  | @again attempt last below failed later ih =>
    have sleep : timeDelay delay (attempt : Int).toNat ≠ none := sleeps attempt le_rfl later.within.1
    simp only [retryFrom_invoked, failed.1, failed.2, not_true, Bool.false_eq_true, if_false, fits failed, sleep,
      and_false]
    rw [if_pos (by omega)]
    exact_mod_cast ih (fun _ => fits failed) fun earlier low => sleeps earlier (Nat.le_of_succ_le low)

theorem retryFrom_undefined {attempt failing : Nat} (low : attempt ≤ failing) (below : failing < limit)
    (failed : ∀ earlier, attempt ≤ earlier → earlier ≤ failing → Retryable codes (script earlier)) {delay : Int}
    (none : timeDelay delay failing = none) (name : Bytes) :
    ∃ s, retryFrom script.invoke name limit delay codes attempt attempt = .error .undefined s := by
  have ⟨error, code⟩ := failed attempt le_rfl low
  rw [retryFrom_invoked, if_neg (by simp [error]), if_neg (not_not.mpr code)]
  by_cases sleep : timeDelay delay (attempt : Int).toNat = .none
  next => exact ⟨attempt + 1, by rw [if_pos ⟨by omega, sleep⟩]; rfl⟩
  next =>
    rw [if_neg (mt And.right sleep)]
    by_cases greatest : (limit : Int) = intMax
    next => exact ⟨attempt + 1, by rw [if_pos greatest]; rfl⟩
    next =>
      have later : attempt ≠ failing := fun same => sleep (same ▸ none)
      rw [if_neg greatest, if_pos (by omega)]
      exact_mod_cast retryFrom_undefined (Nat.lt_of_le_of_ne low later) below
        (fun earlier low => failed earlier (Nat.le_of_succ_le low)) none name
termination_by failing - attempt

example : timeDelay 1000 31 ≠ none ∧ timeDelay 1000 32 = none ∧ timeDelay 0 1510 ≠ none ∧ timeDelay 0 1511 = none := by
  decide +kernel

end Stops

theorem retry_overflow {script : Script} {errorsToRetryOn : List StatusCode}
    (failed : Retryable (StatusCode.unavailable :: errorsToRetryOn) (script 0)) (grpcInvocationName : Bytes)
    (grpcRetryDelay : Int) :
    retry script.invoke grpcInvocationName intMax grpcRetryDelay errorsToRetryOn 0 = .error .undefined 1 := by
  refine (retryFrom_invoked grpcInvocationName _ intMax grpcRetryDelay 0 0).trans ?_
  rw [if_neg (by simp [failed.1]), if_neg (not_not.mpr failed.2)]
  split
  next => rfl
  next =>
    rw [if_pos rfl]
    rfl

structure InRange (script : Script) (codes : List StatusCode) (limit : Nat) (delay : Int) : Prop where
  counter : (limit : Int) < intMax ∨ ¬Retryable codes (script 0)
  delays : ∀ attempt < limit, (∀ earlier ≤ attempt, Retryable codes (script earlier)) → timeDelay delay attempt ≠ none

structure Agrees (script : Script) (retryable : Status → Prop) (limit : Nat) (old : EStateM.Result Thrown Nat Unit)
    (new : GrpcRetrier.Issued × Nat) : Prop where
  invocations : exitState old = new.2
  bounded : new.2 ≤ limit + 1
  retried : ∀ attempt, attempt + 1 < new.2 → retryable (script attempt)
  stopped : new.2 ≤ limit → ¬retryable (script (new.2 - 1))
  returned : (∃ s, old = .ok () s) ↔ new.1.completed = true ∧ new.1.status.ok = true
  thrown : (∀ s, old ≠ .ok () s) → ∃ what s, old = .error (.grpcError ⟨what, new.1.status⟩) s
  reported : new.1.status = script (new.2 - 1)
  exceeded : new.1.completed = false ↔ ∀ attempt ≤ limit, retryable (script attempt)
  attempts : new.1.retryAttempts + 1 = new.2

theorem agrees_of_stops {script : Script} {codes : List StatusCode} {limit last : Nat}
    (stops : Stops codes script limit 0 last) {what : Bytes} : Agrees script (Retryable codes) limit
      (if (script last).ok then .ok () (last + 1) else .error (.grpcError ⟨what, script last⟩) (last + 1))
      (⟨!decide (Retryable codes (script last)), script last, last⟩, last + 1) where
  invocations := by split <;> rfl
  bounded := Nat.succ_le_succ stops.within.2
  retried attempt earlier := stops.failed (Nat.zero_le _) (Nat.lt_of_succ_lt_succ earlier)
  stopped below := stops.final below
  returned := by
    cases ok : (script last).ok <;> simp [Retryable, ok]
  thrown fails := by
    cases ok : (script last).ok with
    | true => exact absurd (if_pos ok) (fails _)
    | false => exact ⟨what, last + 1, rfl⟩
  reported := rfl
  exceeded := by
    have within := stops.within.2
    simp only [Bool.not_eq_false', decide_eq_true_iff]
    refine ⟨fun failed attempt low => ?_, fun all => all last within⟩
    have whole : limit ≤ last := Nat.le_of_not_lt fun below => stops.final below failed
    rcases Nat.eq_or_lt_of_le (low.trans whole) with rfl | earlier
    next => exact failed
    next => exact stops.failed (Nat.zero_le _) earlier
  attempts := rfl

theorem retry_agrees_iff (script : Script) (grpcInvocationName : Bytes) (errorsToRetryOn : List StatusCode)
    (limit : Fin (2 ^ 31)) (grpcRetryDelay : Int) :
    Agrees script (Retryable (StatusCode.unavailable :: errorsToRetryOn)) limit
        (retry script.invoke grpcInvocationName (limit : Nat) grpcRetryDelay errorsToRetryOn 0)
        (GrpcRetrier.issueRequestRetryingOn script.invoke limit errorsToRetryOn 0) ↔
      InRange script (StatusCode.unavailable :: errorsToRetryOn) limit grpcRetryDelay := by
  constructor
  next =>
    intro agrees
    have defined (s : Nat) :
        retry script.invoke grpcInvocationName
          (limit : Nat) grpcRetryDelay errorsToRetryOn 0 ≠ .error .undefined s := by
      intro left
      obtain ⟨what, s', thrown⟩ := agrees.thrown (by simp [left])
      simp [left] at thrown
    constructor
    next =>
      by_contra neither
      obtain ⟨high, failed⟩ := not_or.mp neither
      have greatest : ((limit : Nat) : Int) = intMax := by
        have bound := limit.isLt
        unfold intMax at high ⊢
        omega
      exact defined 1 (greatest ▸ retry_overflow (not_not.mp failed) grpcInvocationName grpcRetryDelay)
    next =>
      intro attempt below failed none
      obtain ⟨s, left⟩ := retryFrom_undefined (Nat.zero_le attempt) below (fun earlier _ => failed earlier) none
        grpcInvocationName
      exact defined s left
  next =>
    intro fits
    obtain ⟨last, stops⟩ := @stops_exists (StatusCode.unavailable :: errorsToRetryOn) script limit 0 (Nat.zero_le limit)
    have sleeps (earlier : Nat) (below : earlier < last) : timeDelay grpcRetryDelay earlier ≠ none :=
      fits.delays earlier (below.trans_le stops.within.2) fun attempt low =>
        stops.failed (Nat.zero_le attempt) (low.trans_lt below)
    obtain ⟨what, old⟩ := retryFrom_stops stops (fun failed => (fits.counter.resolve_right (not_not.mpr failed)).ne)
      (fun earlier _ => sleeps earlier) grpcInvocationName
    have new := issueRequestFrom_stops stops
    have agrees := @agrees_of_stops script _ _ _ stops what
    rw [← old, ← new] at agrees
    exact agrees

def onceUnavailable : Script
  | 0 => ⟨StatusCode.unavailable, []⟩
  | _ + 1 => ⟨StatusCode.ok, []⟩

theorem retry_greatest_limit : ¬Agrees onceUnavailable (Retryable [StatusCode.unavailable]) (2 ^ 31 - 1)
    (retry onceUnavailable.invoke [] intMax 1000 [] 0)
    (GrpcRetrier.issueRequestRetryingOn onceUnavailable.invoke (2 ^ 31 - 1) [] 0) := by
  intro agrees
  have overflow := @retry_overflow onceUnavailable [] ⟨rfl, by decide⟩ [] 1000
  obtain ⟨what, s, thrown⟩ := agrees.thrown (by simp [overflow])
  simp [overflow] at thrown

end GrpcRetry

section Clients

variable {grpcInvocation : StateM σ Status}

theorem calling_captured {τ : Type} {s s' : σ} {status : Status} (answered : grpcInvocation s = (status, s'))
    (captured : τ) :
    ((calling grpcInvocation : EStateM Exn σ Status) >>= fun status => pure (status, captured)) s =
      .ok (status, captured) s' :=
  bind_ok _ (by simp only [calling, answered])

-- What the clients of this library do with a request that captures nothing is the counted loop.
theorem issueRequest_counted (retries attempts : Nat) (s : σ) :
    (GrpcRetrier.issueRequest (fun captured : Unit => (calling grpcInvocation : EStateM Exn σ Status) >>= fun status =>
      pure (status, captured)) retries () s : EStateM.Result Exn σ (Bool × Status × Unit)) =
        let (issued, s') := GrpcRetrier.issueRequestFrom grpcInvocation (attempts + retries) [StatusCode.unavailable]
          attempts s
        .ok (issued.completed, issued.status, ()) s' := by
  have retryable (status : Status) :
      GrpcRetrier.statusIsRetryable status = decide (status.code ∈ [StatusCode.unavailable]) := by
    simp [GrpcRetrier.statusIsRetryable]
  induction retries generalizing attempts s with
  | zero =>
    rcases answered : grpcInvocation s with ⟨status, s'⟩
    rw [GrpcRetrier.issueRequest, bind_ok _ (calling_captured answered ()), GrpcRetrier.issueRequestFrom]
    simp only [bind, StateT.bind, answered, retryable, decide_not, Nat.add_zero, le_refl, dif_pos]
    split_ifs <;> rfl
  | succ retries ih =>
    rcases answered : grpcInvocation s with ⟨status, s'⟩
    rw [GrpcRetrier.issueRequest, bind_ok _ (calling_captured answered ()), GrpcRetrier.issueRequestFrom]
    simp only [bind, StateT.bind, answered, retryable, decide_not,
      dif_neg (show ¬attempts + (retries + 1) ≤ attempts by omega)]
    split_ifs
    next => rfl
    next =>
      rw [← Nat.succ_add_eq_add_succ]
      exact ih (attempts + 1) s'

end Clients

end BuildboxCommon
