import BuildboxCommon.Client.Download
import BuildboxCommon.Shared.Transitions
import BuildboxCommon.SystemUtils.WaitPid

set_option autoImplicit false

namespace BuildboxCommon.Runner

open ByteString SystemUtils Transitions

structure Config where
  inputPath : Bytes
  outputPath : Bytes
  url : Bytes
  skipCapture : Bool
  commandDigest : Digest
deriving DecidableEq

structure ExecutedActionMetadata where
  workerStartTimestamp : Option Timestamp
  workerCompletedTimestamp : Option Timestamp
  executionStartTimestamp : Option Timestamp
  executionCompletedTimestamp : Option Timestamp
deriving DecidableEq

structure ActionResult where
  exitCode : Int
  stdoutDigest : Option Digest
  stderrDigest : Option Digest
  executionMetadata : ExecutedActionMetadata
deriving DecidableEq

def ActionResult.unset : ActionResult := ⟨0, none, none, ⟨none, none, none, none⟩⟩

inductive Signal where
  | sigint
  | sigterm
deriving DecidableEq

def Signal.number : Signal → Nat
  | .sigint => 2
  | .sigterm => 15

def sigkill : Nat := 9

inductive Child where
  | unborn
  | running
  | zombie (ending : Ending)
  | reaped (ending : Ending)
deriving DecidableEq

namespace Child

def kill : Child → Child
  | .running => .zombie (.signaled sigkill)
  | child => child

def finish (ending : Ending) : Child → Option Child
  | .running => some (.zombie ending)
  | _ => none

-- `waitpid()` fails at any time, and reports how the child has ended only when it has.
def waitpid : Waited → Child → Option Child
  | .ended reported, .zombie ending => if reported = ending then some (.reaped ending) else none
  | .ended _, _ => none
  | .failed _, child | .unexpected _, child => some child

end Child

inductive Location where
  | reading
  | registering (signal : Signal)
  | initializing
  | fetching
  | checking
  | executing
  | testing
  | waiting
  | completing (exitCode : Int)
  | uploading (exitCode : Int)
  | killing
  | reaping
  | finishing
  | writing
  | leaving
  | exited (code : Int)
  | terminated
deriving DecidableEq

inductive Output where
  | absent
  | incomplete
  | written (result : ActionResult)
deriving DecidableEq

structure State where
  location : Location
  signalStatus : Nat
  child : Child
  workerStart : Timestamp
  result : ActionResult
  output : Output
  errorStatus : Option Status
deriving DecidableEq

def create (workerStart : Timestamp) : State := ⟨.reading, 0, .unborn, workerStart, .unset, .absent, none⟩

inductive Choice where
  | signal (signal : Signal)
  | childEnds (ending : Ending)
  | proceed (now : Timestamp)
  | throws (error : Exn)
  | waitpid (answer : Waited)
  | upload (stdoutDigest stderrDigest : Digest)
deriving DecidableEq

namespace State

def goTo (location : Location) (s : State) : State := { s with location := location }

def exit (code : Int) (s : State) : State := { s with location := .exited code }

def writeErrorStatusFile (config : Config) (status : Status) (s : State) : State :=
  if config.outputPath.isEmpty then s else { s with errorStatus := some status }

-- The handlers are in place for the signals that are registered, in this order.
def handleSignal (signal : Signal) (s : State) : Option State :=
  match s.location with
  | .exited _ | .terminated => none
  | .reading | .registering .sigint => some (s.goTo .terminated)
  | .registering .sigterm =>
    some (if signal = .sigint then { s with signalStatus := signal.number } else s.goTo .terminated)
  | _ => some { s with signalStatus := signal.number }

def executionCompleted (now : Timestamp) (s : State) : State :=
  { s with result.executionMetadata.executionCompletedTimestamp := some now }

def setExitCode (exitCode : Int) (s : State) : State :=
  { s with result.exitCode := exitCode, location := .finishing }

def proceed (config : Config) (now : Timestamp) (s : State) : Option State :=
  match s.location with
  | .reading => some (s.goTo (.registering .sigint))
  | .registering .sigint => some (s.goTo (.registering .sigterm))
  | .registering .sigterm => some (s.goTo .initializing)
  | .initializing => some (s.goTo .fetching)
  | .fetching => some (s.goTo .checking)
  | .checking => some (if s.signalStatus = 0 then s.goTo .executing else s.exit s.signalStatus)
  | .executing =>
    some { s with
      result.executionMetadata.executionStartTimestamp := some now, child := .running, location := .testing }
  | .testing => some (s.goTo (if s.signalStatus = 0 then .waiting else .killing))
  | .completing exitCode =>
    let s := s.executionCompleted now
    some (if config.skipCapture then s.setExitCode exitCode else s.goTo (.uploading exitCode))
  | .killing => some { s with child := s.child.kill, location := .reaping }
  | .finishing =>
    some { s with
      result.executionMetadata.workerCompletedTimestamp := some now
      result.executionMetadata.workerStartTimestamp := some s.workerStart
      location := .writing }
  | .writing =>
    some (if config.outputPath.isEmpty then s.goTo .leaving
      else { s with output := .written s.result, location := .leaving })
  | .leaving => some (s.exit s.signalStatus)
  | .waiting | .uploading _ | .reaping | .exited _ | .terminated => none

def executeThrew (config : Config) (error : Exn) (s : State) : State :=
  (s.writeErrorStatusFile config ⟨.internal, text "execute() threw: " ++ error.what⟩).exit 1

def fetchStatus : Exn → Status
  | .grpcError status => status
  | error => ⟨.internal, error.what⟩

def fetchFailed (config : Config) (error : Exn) (s : State) : State :=
  let status := fetchStatus error
  (s.writeErrorStatusFile config ⟨status.code, text "Error fetching Command with digest \"" ++
    config.commandDigest.toString ++ text "\" from \"" ++ config.url ++ text "\": " ++ status.message⟩).exit 1

-- The handlers around the other calls only catch `std::runtime_error`.
def catchRuntimeError (error : Exn) (handled s : State) : State :=
  if error.isRuntimeError then handled else s.goTo .terminated

def throws (config : Config) (error : Exn) (s : State) : Option State :=
  match s.location with
  | .reading =>
    some (catchRuntimeError error ((s.writeErrorStatusFile config ⟨.internal,
      text "Failed to read Action from [" ++ config.inputPath ++ text "]: " ++ error.what⟩).exit 1) s)
  | .registering _ => some (s.exit 1)
  | .initializing => some (catchRuntimeError error (s.exit 1) s)
  | .fetching => some (catchRuntimeError error (s.fetchFailed config error) s)
  | .executing | .uploading _ | .finishing => some (s.executeThrew config error)
  | .writing =>
    if config.outputPath.isEmpty then none
    else
      let s := { s with output := .incomplete }
      some (catchRuntimeError error (s.exit 1) s)
  | _ => none

def upload (stdoutDigest stderrDigest : Digest) (s : State) : Option State :=
  match s.location with
  | .uploading exitCode =>
    some ({ s with
      result.stdoutDigest := some stdoutDigest, result.stderrDigest := some stderrDigest }.setExitCode exitCode)
  | _ => none

def waitpid (config : Config) (answer : Waited) (s : State) : Option State :=
  match s.location with
  | .waiting =>
    (s.child.waitpid answer).map fun child =>
      let s := { s with child := child }
      match waitPidOrSignal answer with
      | .error error => s.executeThrew config error
      | .ok exitCode => s.goTo (if 0 ≤ exitCode then .completing exitCode else .testing)
  | .reaping =>
    (s.child.waitpid answer).map fun child =>
      let s := { s with child := child }
      match waitPid answer with
      | .error error => s.executeThrew config error
      | .ok none => s
      -- The exit code is dropped.
      | .ok (some _) => s.goTo .finishing
  | _ => none

def childEnds (ending : Ending) (s : State) : Option State :=
  (s.child.finish ending).map fun child => { s with child := child }

end State

def step (config : Config) : Choice → State → Option State
  | .signal signal => State.handleSignal signal
  | .childEnds ending => State.childEnds ending
  | .proceed now => State.proceed config now
  | .throws error => State.throws config error
  | .waitpid answer => State.waitpid config answer
  | .upload stdoutDigest stderrDigest => State.upload stdoutDigest stderrDigest

structure Truthful (child : Child) (output : Output) : Prop where
  stored : ∀ result, output = .written result → ∃ ending, child = .reaped ending ∧ result.exitCode = ending.exitCode
  killed : ∀ result, output = .written result → child = .reaped (.signaled sigkill) → result.exitCode ≠ 0

def Harmless (config : Config) : Choice → State → Prop
  | .proceed _, s => s.location = .killing → config.outputPath = [] ∨ s.child = .zombie (.exited 0)
  | .signal _, _ | .childEnds _, _ | .throws _, _ | .waitpid _, _ | .upload _ _, _ => True

instance decidableHarmless (config : Config) : (choice : Choice) → (s : State) → Decidable (Harmless config choice s)
  | .proceed _, s =>
    inferInstanceAs (Decidable (s.location = .killing → config.outputPath = [] ∨ s.child = .zombie (.exited 0)))
  | .signal _, _ | .childEnds _, _ | .throws _, _ | .waitpid _, _ | .upload _ _, _ => .isTrue trivial

def Tells (config : Config) (exitCode : Int) (ending : Ending) : Prop :=
  config.outputPath = [] ∨ exitCode = ending.exitCode

def Tracked (config : Config) (s : State) : Prop :=
  match s.location with
  | .reading | .registering _ | .initializing | .fetching | .checking | .executing =>
    s.output = .absent ∧ s.result.exitCode = 0
  | .testing | .waiting | .killing =>
    s.output = .absent ∧ s.result.exitCode = 0 ∧ (s.child = .running ∨ ∃ ending, s.child = .zombie ending)
  | .completing exitCode | .uploading exitCode =>
    s.output = .absent ∧ ∃ ending, s.child = .reaped ending ∧ exitCode = ending.exitCode
  | .reaping => s.output = .absent ∧ ∃ ending, s.child = .zombie ending ∧ Tells config s.result.exitCode ending
  | .finishing | .writing =>
    s.output = .absent ∧ ∃ ending, s.child = .reaped ending ∧ Tells config s.result.exitCode ending
  | .leaving | .exited _ | .terminated => Truthful s.child s.output

variable {config : Config} {choice : Choice} {s s' : State}

theorem Child.waitpid_ended {child child' : Child} {ending : Ending}
    (waited : child.waitpid (.ended ending) = some child') :
    child = .zombie ending ∧ child' = .reaped ending := by
  cases child with
  | zombie ended =>
    simp only [Child.waitpid, Option.ite_none_right_eq_some, Option.some.injEq] at waited
    exact ⟨by rw [waited.1], by rw [← waited.2, waited.1]⟩
  | _ => simp [Child.waitpid] at waited

theorem Child.waitpid_failed {child child' : Child} {errno : Nat}
    (waited : child.waitpid (.failed errno) = some child') :
    child' = child := by
  cases child <;> exact (Option.some.inj waited).symm

theorem Child.waitpid_killed {child child' : Child} {answer : Waited} {ending : Ending}
    (killed : child = .zombie ending ∨ child = .reaped ending) (waited : child.waitpid answer = some child') :
    child' = .zombie ending ∨ child' = .reaped ending := by
  cases answer with
  | failed errno => exact (Child.waitpid_failed waited) ▸ killed
  | ended reported =>
    obtain ⟨rfl, rfl⟩ := Child.waitpid_ended waited
    simpa using killed
  | unexpected status =>
    cases child <;> exact Option.some.inj waited ▸ killed

@[simp] theorem writeErrorStatusFile_output (status : Status) :
    (s.writeErrorStatusFile config status).output = s.output := by
  unfold State.writeErrorStatusFile
  split <;> rfl

@[simp] theorem writeErrorStatusFile_child (status : Status) :
    (s.writeErrorStatusFile config status).child = s.child := by
  unfold State.writeErrorStatusFile
  split <;> rfl

@[simp] theorem writeErrorStatusFile_result (status : Status) :
    (s.writeErrorStatusFile config status).result = s.result := by
  unfold State.writeErrorStatusFile
  split <;> rfl

theorem Truthful.of_stored {child : Child} {output : Output} (stored : ∀ result, output = .written result →
    ∃ ending, child = .reaped ending ∧ result.exitCode = ending.exitCode) : Truthful child output := by
  refine ⟨stored, ?_⟩
  intro result written killed
  obtain ⟨ending, reaped, code⟩ := stored result written
  rw [killed, Child.reaped.injEq] at reaped
  rw [code, ← reaped, Ne, Ending.exitCode_eq_zero]
  simp

theorem Truthful.of_unwritten {child : Child} {output : Output} (unwritten : ∀ result, output ≠ .written result) :
    Truthful child output :=
  .of_stored fun result written => absurd written (unwritten result)

@[simp] theorem truthful_absent (child : Child) : Truthful child .absent := .of_unwritten (by simp)

@[simp] theorem truthful_incomplete (child : Child) : Truthful child .incomplete := .of_unwritten (by simp)

theorem Truthful.childEnds {ending : Ending} {output : Output} (truthful : Truthful .running output) :
    Truthful (.zombie ending) output := by
  apply Truthful.of_unwritten
  intro result written
  obtain ⟨ending, running, -⟩ := truthful.stored result written
  contradiction

theorem create_tracked (config : Config) (workerStart : Timestamp) : Tracked config (create workerStart) :=
  ⟨rfl, rfl⟩

theorem Tracked.handleSignal {signal : Signal} (tracked : Tracked config s)
    (taken : s.handleSignal signal = some s') : Tracked config s' := by
  unfold State.handleSignal at taken
  unfold Tracked at tracked
  cases location : s.location with
  | exited code => simp [location] at taken
  | terminated => simp [location] at taken
  | reading =>
    simp only [location, Option.some.injEq] at taken tracked
    subst taken
    simp [Tracked, State.goTo, tracked]
  | registering registered =>
    simp only [location] at taken tracked
    cases registered with
    | sigint =>
      rw [← Option.some.inj taken]
      simp [Tracked, State.goTo, tracked]
    | sigterm =>
      rw [← Option.some.inj taken]
      split
      next => simpa [Tracked, location] using tracked
      next => simp [Tracked, State.goTo, tracked]
  | _ =>
    simp only [location, Option.some.injEq] at taken tracked
    subst taken
    simpa [Tracked, location] using tracked

theorem Tracked.childEnds {ending : Ending} (tracked : Tracked config s) (taken : s.childEnds ending = some s') :
    Tracked config s' := by
  obtain ⟨child, finished, rfl⟩ := Option.map_eq_some_iff.mp taken
  unfold Child.finish at finished
  split at finished
  next running =>
    obtain rfl := Option.some.inj finished
    unfold Tracked at tracked ⊢
    cases location : s.location <;> simp only [location, running] at tracked ⊢
    case leaving | exited | terminated => exact tracked.childEnds
    all_goals simp_all
  next => contradiction

theorem Tracked.executeThrew {error : Exn} (absent : s.output = .absent) :
    Tracked config (s.executeThrew config error) := by
  simp [Tracked, State.executeThrew, State.exit, absent]

theorem Tracked.proceed {now : Timestamp} (tracked : Tracked config s) (harmless : Harmless config (.proceed now) s)
    (taken : s.proceed config now = some s') : Tracked config s' := by
  unfold State.proceed at taken
  unfold Tracked at tracked
  cases location : s.location with
  | testing =>
    simp only [location, Option.some.injEq] at taken tracked
    subst taken
    split
    next => exact tracked
    next => exact tracked
  | completing exitCode =>
    simp only [location, Option.some.injEq] at taken tracked
    obtain ⟨absent, ending, reaped, code⟩ := tracked
    subst taken
    split
    next => exact ⟨absent, ending, reaped, .inr code⟩
    next => exact ⟨absent, ending, reaped, code⟩
  | killing =>
    simp only [location, Option.some.injEq] at taken tracked
    obtain ⟨absent, unset, alive⟩ := tracked
    subst taken
    rcases harmless location with nowhere | exited
    next =>
      have killed : ∃ ending, s.child.kill = .zombie ending := by
        rcases alive with running | ⟨ending, zombie⟩ <;> simp [Child.kill, *]
      obtain ⟨ending, killed⟩ := killed
      exact ⟨absent, ending, killed, .inl nowhere⟩
    next =>
      refine ⟨absent, .exited 0, ?_, .inr ?_⟩
      next => simp [Child.kill, exited]
      next => simp [unset, Ending.exitCode]
  | writing =>
    simp only [location, Option.some.injEq] at taken tracked
    obtain ⟨absent, ending, reaped, tells⟩ := tracked
    subst taken
    split
    next => simp [Tracked, State.goTo, absent]
    next somewhere =>
      have code := tells.resolve_left (by simpa using somewhere)
      exact .of_stored fun result written => ⟨ending, reaped, by rw [← Output.written.inj written, code]⟩
  | registering signal =>
    simp only [location] at taken tracked
    cases signal <;> exact Option.some.inj taken ▸ tracked
  | checking =>
    simp only [location, Option.some.injEq] at taken tracked
    subst taken
    split
    next => exact tracked
    next => simp [Tracked, State.exit, tracked]
  | executing =>
    simp only [location, Option.some.injEq] at taken tracked
    subst taken
    exact ⟨tracked.1, tracked.2, .inl rfl⟩
  | waiting | uploading | reaping | exited | terminated => simp [location] at taken
  | _ =>
    simp only [location, Option.some.injEq] at taken tracked
    exact taken ▸ tracked

theorem Tracked.throws {error : Exn} (tracked : Tracked config s) (taken : s.throws config error = some s') :
    Tracked config s' := by
  have caught {handled unhandled : State} (first : Tracked config handled)
    (second : Truthful unhandled.child unhandled.output) :
    Tracked config (State.catchRuntimeError error handled unhandled) := by
    unfold State.catchRuntimeError
    split
    next => exact first
    next => exact second
  unfold State.throws at taken
  unfold Tracked at tracked
  cases location : s.location with
  | reading | initializing | fetching =>
    simp only [location, Option.some.injEq] at taken tracked
    subst taken
    apply caught <;> simp [Tracked, State.exit, State.fetchFailed, tracked]
  | registering | executing | uploading | finishing =>
    simp only [location, Option.some.injEq] at taken tracked
    subst taken
    simp [Tracked, State.exit, State.executeThrew, tracked]
  | writing =>
    simp only [location, Option.ite_none_left_eq_some, Option.some.injEq] at taken
    obtain ⟨-, rfl⟩ := taken
    apply caught <;> simp [Tracked, State.exit]
  | _ => simp [location] at taken

theorem Tracked.waitpid {answer : Waited} (tracked : Tracked config s) (taken : s.waitpid config answer = some s') :
    Tracked config s' := by
  unfold State.waitpid at taken
  unfold Tracked at tracked
  cases location : s.location with
  | waiting =>
    simp only [location] at taken tracked
    obtain ⟨absent, unset, alive⟩ := tracked
    obtain ⟨child, waited, rfl⟩ := Option.map_eq_some_iff.mp taken
    split
    next => exact .executeThrew absent
    next exitCode returned =>
      obtain ⟨rfl, rfl⟩ | ⟨ending, rfl, rfl⟩ := waitPidOrSignal_cases returned
      next =>
        rw [Child.waitpid_failed waited, if_neg (by simp [eintr])]
        exact ⟨absent, unset, alive⟩
      next =>
        rw [if_pos ending.exitCode_nonneg]
        exact ⟨absent, ending, (Child.waitpid_ended waited).2, rfl⟩
  | reaping =>
    simp only [location] at taken tracked
    obtain ⟨absent, ending, zombie, tells⟩ := tracked
    obtain ⟨child, waited, rfl⟩ := Option.map_eq_some_iff.mp taken
    split
    next => exact .executeThrew absent
    next returned =>
      obtain ⟨rfl, -⟩ | ⟨ended, -, contra⟩ := waitPid_cases returned
      next =>
        rw [Child.waitpid_failed waited]
        exact ⟨absent, ending, zombie, tells⟩
      next => contradiction
    next exitCode returned =>
      obtain ⟨-, contra⟩ | ⟨ended, rfl, -⟩ := waitPid_cases returned
      next => contradiction
      next =>
        obtain ⟨same, reaped⟩ := Child.waitpid_ended waited
        rw [zombie, Child.zombie.injEq] at same
        exact ⟨absent, ending, same ▸ reaped, tells⟩
  | _ => simp [location] at taken

theorem Tracked.upload {stdoutDigest stderrDigest : Digest} (tracked : Tracked config s)
    (taken : s.upload stdoutDigest stderrDigest = some s') : Tracked config s' := by
  unfold State.upload at taken
  unfold Tracked at tracked
  split at taken
  next exitCode location =>
    rw [← Option.some.inj taken]
    simp only [location] at tracked
    obtain ⟨absent, ending, reaped, code⟩ := tracked
    exact ⟨absent, ending, reaped, .inr code⟩
  next => contradiction

theorem Tracked.step (tracked : Tracked config s) (harmless : Harmless config choice s)
    (taken : step config choice s = some s') : Tracked config s' := by
  cases choice with
  | signal signal => exact tracked.handleSignal taken
  | childEnds ending => exact tracked.childEnds taken
  | proceed now => exact tracked.proceed harmless taken
  | throws error => exact tracked.throws taken
  | waitpid answer => exact tracked.waitpid taken
  | upload stdoutDigest stderrDigest => exact tracked.upload taken

theorem Tracked.truthful (tracked : Tracked config s) : Truthful s.child s.output := by
  unfold Tracked at tracked
  cases location : s.location <;> simp only [location] at tracked
  case leaving | exited | terminated => exact tracked
  all_goals
    rw [tracked.1]
    exact truthful_absent _

def Location.afterKill : Location → Bool
  | .reaping | .finishing | .writing | .leaving | .exited _ | .terminated => true
  | _ => false

structure Doomed (s : State) : Prop where
  location : s.location.afterKill = true
  killed : ∃ ending, (s.child = .zombie ending ∨ s.child = .reaped ending) ∧ ending.exitCode ≠ 0
  unset : s.result.exitCode = 0
  stored : ∀ result, s.output = .written result → result.exitCode = 0

theorem Doomed.not_truthful {result : ActionResult} (doomed : Doomed s) (written : s.output = .written result) :
    ¬ Truthful s.child s.output := by
  intro truthful
  obtain ⟨ending, reaped, code⟩ := truthful.stored result written
  obtain ⟨killed, either, other⟩ := doomed.killed
  rw [reaped, Child.reaped.injEq] at either
  rw [doomed.stored result written, either.resolve_left (by simp)] at code
  exact other code.symm

theorem Doomed.moved (doomed : Doomed s) (location : s'.location.afterKill = true) (child : s'.child = s.child)
    (result : s'.result.exitCode = s.result.exitCode) (output : s'.output = s.output) : Doomed s' :=
  ⟨location, child ▸ doomed.killed, result.trans doomed.unset, output ▸ doomed.stored⟩

theorem Doomed.executeThrew {error : Exn} (doomed : Doomed s) : Doomed (s.executeThrew config error) := by
  apply doomed.moved <;> simp [State.executeThrew, State.exit, Location.afterKill]

theorem Doomed.handleSignal {signal : Signal} (doomed : Doomed s) (taken : s.handleSignal signal = some s') :
    Doomed s' := by
  have behind := doomed.location
  unfold State.handleSignal at taken
  cases location : s.location <;> simp_all only [Location.afterKill, Option.some.injEq, reduceCtorEq]
  all_goals
    subst taken
    apply doomed.moved <;> simp [Location.afterKill]

theorem Doomed.childEnds {ending : Ending} (doomed : Doomed s) (taken : s.childEnds ending = some s') : Doomed s' := by
  obtain ⟨child, finished, -⟩ := Option.map_eq_some_iff.mp taken
  obtain ⟨killed, zombie | reaped, -⟩ := doomed.killed
  next => simp [zombie, Child.finish] at finished
  next => simp [reaped, Child.finish] at finished

theorem Doomed.proceed {now : Timestamp} (doomed : Doomed s) (taken : s.proceed config now = some s') : Doomed s' := by
  have behind := doomed.location
  unfold State.proceed at taken
  cases location : s.location with
  | finishing =>
    simp only [location, Option.some.injEq] at taken
    subst taken
    apply doomed.moved <;> simp [Location.afterKill]
  | writing =>
    simp only [location, Option.some.injEq] at taken
    subst taken
    split
    next => apply doomed.moved <;> simp [Location.afterKill, State.goTo]
    next =>
      refine ⟨rfl, doomed.killed, doomed.unset, ?_⟩
      intro result written
      rw [← Output.written.inj written]
      exact doomed.unset
  | leaving =>
    simp only [location, Option.some.injEq] at taken
    subst taken
    apply doomed.moved <;> simp [Location.afterKill, State.exit]
  | reaping | exited | terminated => simp [location] at taken
  | _ => simp [location, Location.afterKill] at behind

theorem Doomed.throws {error : Exn} (doomed : Doomed s) (taken : s.throws config error = some s') : Doomed s' := by
  have behind := doomed.location
  unfold State.throws at taken
  cases location : s.location with
  | finishing =>
    simp only [location, Option.some.injEq] at taken
    exact taken ▸ doomed.executeThrew
  | writing =>
    simp only [location, Option.ite_none_left_eq_some, Option.some.injEq] at taken
    obtain ⟨-, rfl⟩ := taken
    unfold State.catchRuntimeError
    split <;> exact ⟨rfl, doomed.killed, doomed.unset, by simp [State.exit, State.goTo]⟩
  | reaping | leaving | exited | terminated => simp [location] at taken
  | _ => simp [location, Location.afterKill] at behind

theorem Doomed.waitpid {answer : Waited} (doomed : Doomed s) (taken : s.waitpid config answer = some s') :
    Doomed s' := by
  have behind := doomed.location
  unfold State.waitpid at taken
  cases location : s.location with
  | reaping =>
    simp only [location] at taken
    obtain ⟨child, waited, rfl⟩ := Option.map_eq_some_iff.mp taken
    obtain ⟨ending, killed, other⟩ := doomed.killed
    have still : Doomed { s with location := .reaping, child := child } :=
      ⟨rfl, ⟨ending, Child.waitpid_killed killed waited, other⟩, doomed.unset, doomed.stored⟩
    split
    next => exact still.executeThrew
    next => exact still
    next => apply still.moved <;> simp [Location.afterKill, State.goTo]
  | finishing | writing | leaving | exited | terminated => simp [location] at taken
  | _ => simp [location, Location.afterKill] at behind

theorem Doomed.step (doomed : Doomed s) (taken : step config choice s = some s') : Doomed s' := by
  cases choice with
  | signal signal => exact doomed.handleSignal taken
  | childEnds ending => exact doomed.childEnds taken
  | proceed now => exact doomed.proceed taken
  | throws error => exact doomed.throws taken
  | waitpid answer => exact doomed.waitpid taken
  | upload stdoutDigest stderrDigest =>
    have behind := doomed.location
    change s.upload stdoutDigest stderrDigest = some s' at taken
    unfold State.upload at taken
    split at taken
    next exitCode location => simp [location, Location.afterKill] at behind
    next => contradiction

theorem doomed_of_harmful (tracked : Tracked config s) (harmful : ¬ Harmless config choice s)
    (taken : step config choice s = some s') : Doomed s' := by
  cases choice with
  | proceed now =>
    simp only [Harmless, Classical.not_imp, not_or] at harmful
    obtain ⟨location, -, other⟩ := harmful
    simp only [Runner.step, State.proceed, location, Option.some.injEq] at taken
    simp only [Tracked, location] at tracked
    obtain ⟨absent, unset, alive⟩ := tracked
    subst taken
    refine ⟨rfl, ?_, unset, by simp [absent]⟩
    rcases alive with running | ⟨ending, zombie⟩
    next => exact ⟨.signaled sigkill, by simp [Child.kill, running], by simp [Ending.exitCode_eq_zero]⟩
    next =>
      refine ⟨ending, by simp [Child.kill, zombie], ?_⟩
      rw [Ne, Ending.exitCode_eq_zero]
      exact fun exited => other (exited ▸ zombie)
  | _ => exact absurd trivial harmful

theorem along_of_truthful {choices : List Choice} {result : ActionResult} (tracked : Tracked config s)
    (reached : run (step config) s choices = some s') (written : s'.output = .written result)
    (truthful : Truthful s'.child s'.output) : Along (step config) (Harmless config) s choices := by
  apply along_of_final (fun _ _ _ harmless taken held => held.step harmless taken)
    (fun _ _ _ harmful taken held => doomed_of_harmful held harmful taken)
    (fun _ _ _ taken held => held.step taken) reached tracked
  exact fun doomed => doomed.not_truthful written truthful

theorem stored_exitCode {workerStart : Timestamp} {choices : List Choice}
    (reached : run (step config) (create workerStart) choices = some s) :
    (Along (step config) (Harmless config) (create workerStart) choices → Truthful s.child s.output) ∧
      ∀ result, s.output = .written result → Truthful s.child s.output →
        Along (step config) (Harmless config) (create workerStart) choices := by
  constructor
  next =>
    intro along
    have tracked : Tracked config s :=
      run_along (fun _ _ _ harmless taken held => held.step harmless taken) along reached
        (create_tracked config workerStart)
    exact tracked.truthful
  next =>
    intro result written truthful
    exact along_of_truthful (create_tracked config workerStart) reached written truthful

section Samples

def sample : Config := ⟨text "action", text "result", text "http://cas", true, .unset⟩

def started : List Choice := List.replicate 8 (.proceed ⟨0, 0⟩)

def exitsWith (status : UInt8) : List Choice :=
  started ++ [.childEnds (.exited status), .waitpid (.ended (.exited status))] ++ List.replicate 4 (.proceed ⟨0, 0⟩)

def afterExit (status : UInt8) : State :=
  let result : ActionResult := ⟨status.toNat, none, none, ⟨some ⟨0, 0⟩, some ⟨0, 0⟩, some ⟨0, 0⟩, some ⟨0, 0⟩⟩⟩
  ⟨.exited 0, 0, .reaped (.exited status), ⟨0, 0⟩, result, .written result, none⟩

theorem stored_exitCode_three : Truthful (afterExit 3).child (afterExit 3).output := by
  have reached : run (step sample) (create ⟨0, 0⟩) (exitsWith 3) = some (afterExit 3) := by decide
  exact (stored_exitCode reached).1 (by decide)

def killedWhileRunning : List Choice :=
  started ++ [.signal .sigterm, .waitpid (.failed eintr), .proceed ⟨0, 0⟩, .proceed ⟨0, 0⟩,
    .waitpid (.ended (.signaled sigkill))] ++ List.replicate 3 (.proceed ⟨0, 0⟩)

def afterKilled : State :=
  let result : ActionResult := ⟨0, none, none, ⟨some ⟨0, 0⟩, some ⟨0, 0⟩, some ⟨0, 0⟩, none⟩⟩
  ⟨.exited 15, 15, .reaped (.signaled sigkill), ⟨0, 0⟩, result, .written result, none⟩

theorem killed_command_stored_as_success :
    run (step sample) (create ⟨0, 0⟩) killedWhileRunning = some afterKilled ∧
      ¬ Truthful afterKilled.child afterKilled.output := by
  refine ⟨by decide, ?_⟩
  intro truthful
  exact truthful.killed _ rfl rfl rfl

end Samples

end BuildboxCommon.Runner
