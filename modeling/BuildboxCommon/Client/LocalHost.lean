import BuildboxCommon.Client.DirectoryPaths

set_option autoImplicit false

namespace BuildboxCommon

open ByteString Effect FileUtils Posix

variable {α σ : Type}

inductive SystemCall where
  | mkstemp (path : Bytes)
  | fchmod (path : Bytes)
  | write (path : Bytes)
  | rename (source target : Bytes)
  | unlink (path : Bytes)
  | mkdir (path : Bytes)
  | symlink (path : Bytes)
deriving DecidableEq

def SystemCall.paths : SystemCall → List Bytes
  | .rename source target => [source, target]
  | .mkstemp path | .fchmod path | .write path | .unlink path | .mkdir path | .symlink path => [path]

structure Operation where
  call : SystemCall
  disk : Disk
  answer : Except Nat Unit

structure World (σ : Type) where
  environment : σ
  disk : Disk
  journal : List Operation

def isAlphanumeric (byte : UInt8) : Bool :=
  48 ≤ byte ∧ byte ≤ 57 ∨ 65 ≤ byte ∧ byte ≤ 90 ∨ 97 ≤ byte ∧ byte ≤ 122

abbrev TempSuffix := { suffix : Bytes // suffix.length = 6 ∧ ∀ byte ∈ suffix, isAlphanumeric byte }

-- What the code does not decide: which calls fail and how, where a write breaks off, and what `mkstemp` picks.
structure Environment (σ : Type) where
  refusal : SystemCall → StateM σ (Option Nat)
  interruption : Bytes → StateM σ (Option (Nat × Nat))
  suffix : Bytes → StateM σ TempSuffix
  stringCapacity : Nat

def outside (call : StateM σ α) : StateM (World σ) α := fun w =>
  match call w.environment with
  | (a, environment) => (a, { w with environment := environment })

def Steady (kept : World σ → Prop) : Prop := ∀ w environment, kept w → kept { w with environment := environment }

theorem outside_runs {kept : World σ → Prop} (steady : Steady kept) (call : StateM σ α) {returns : α → Prop}
    (correct : ∀ s, returns (call s).1) :
    Runs kept (calling (outside call) : EStateM Exn (World σ) α) (fun a w => returns a ∧ kept w) kept :=
  .calling fun w held => ⟨correct w.environment, steady w _ held⟩

def Stub.outside (stub : Stub σ) : Stub (World σ) where
  findMissingBlobs digests := BuildboxCommon.outside (stub.findMissingBlobs digests)
  batchUpdateBlobs blobs := BuildboxCommon.outside (stub.batchUpdateBlobs blobs)
  batchReadBlobs digests := BuildboxCommon.outside (stub.batchReadBlobs digests)
  openWriter := BuildboxCommon.outside stub.openWriter
  write request := BuildboxCommon.outside (stub.write request)
  finishWrite := BuildboxCommon.outside stub.finishWrite
  read request := BuildboxCommon.outside (stub.read request)

def Client.outside (client : Client σ) : Client (World σ) where
  stub := client.stub.outside
  hash := client.hash
  instanceName := client.instanceName
  uuid := client.uuid
  maxBatchTotalSizeBytes := client.maxBatchTotalSizeBytes
  grpcRetryLimit := client.grpcRetryLimit

namespace Environment

variable (environment : Environment σ)

def perform (call : SystemCall) (effect : Disk → Except Nat Disk) : StateM (World σ) (Except Nat Unit) := fun w =>
  match environment.refusal call w.environment with
  | (some errno, state) => (.error errno, ⟨state, w.disk, w.journal ++ [⟨call, w.disk, .error errno⟩]⟩)
  | (none, state) =>
    match effect w.disk with
    | .error errno => (.error errno, ⟨state, w.disk, w.journal ++ [⟨call, w.disk, .error errno⟩]⟩)
    | .ok disk => (.ok (), ⟨state, disk, w.journal ++ [⟨call, w.disk, .ok ()⟩]⟩)

def Picks (suffix : TempSuffix) : Prop := ∃ template state, (environment.suffix template state).1 = suffix

def mkstemp (template : Bytes) : StateM (World σ) (Except Nat Bytes) := do
  let suffix ← outside (environment.suffix template)
  let path := template.take (template.length - 6) ++ suffix.1
  match ← environment.perform (.mkstemp path) (·.mkstemp path) with
  | .error errno => return .error errno
  | .ok () => return .ok path

def overwrite (path data : Bytes) : StateM (World σ) (Except Nat Unit) := do
  match ← outside (environment.interruption path) with
  | none => environment.perform (.write path) (·.overwrite path data)
  | some (count, errno) =>
    match ← environment.perform (.write path) (·.overwrite path (data.take count)) with
    | .error errno => return .error errno
    | .ok () => return .error errno

def host : Host (World σ) where
  mkstemp := environment.mkstemp
  fchmod path mode := environment.perform (.fchmod path) fun disk => .ok (disk.fchmod path mode)
  overwrite := environment.overwrite
  rename source target := environment.perform (.rename source target) (·.rename source target)
  unlink path := environment.perform (.unlink path) (·.unlink path)
  mkdir path mode := environment.perform (.mkdir path) (·.mkdir path mode)
  symlink target path := environment.perform (.symlink path) (·.symlink target path)
  stringCapacity := environment.stringCapacity

inductive Performed (call : SystemCall) (effect : Disk → Except Nat Disk) (before : World σ) :
    Except Nat Unit × World σ → Prop where
  | refused (errno : Nat) (state : σ) :
    Performed call effect before
      (.error errno, ⟨state, before.disk, before.journal ++ [⟨call, before.disk, .error errno⟩]⟩)
  | done {disk : Disk} (state : σ) (run : effect before.disk = .ok disk) :
    Performed call effect before (.ok (), ⟨state, disk, before.journal ++ [⟨call, before.disk, .ok ()⟩]⟩)

theorem perform_performed (call : SystemCall) (effect : Disk → Except Nat Disk) (w : World σ) :
    Performed call effect w (environment.perform call effect w) := by
  unfold perform
  rcases environment.refusal call w.environment with ⟨_ | errno, state⟩
  next =>
    cases run : effect w.disk with
    | error errno => exact .refused errno state
    | ok disk => exact .done state run
  next => exact .refused errno state

end Environment

def Operation.Renames (operation : Operation) : Prop :=
  ∀ source target place, operation.call = .rename source target → operation.disk.locate source = .ok place →
    operation.disk.locate target ≠ .ok place

def Operation.SetsMode (operation : Operation) : Prop :=
  ∀ path, operation.call = .fchmod path → operation.answer = .ok ()

structure Operation.Confined (before : Disk) (target : Nat) (operation : Operation) : Prop where
  inside : ∀ path ∈ operation.call.paths, ∃ parent, operation.disk.EndsIn (· < before.next) path parent ∧
    (parent = target ∨ before.next ≤ parent)
  written : ∀ path, operation.call = .write path → ∃ file,
    operation.disk.Reaches (· < before.next) (operation.disk.start (cString path)) (steps (cString path)) file

theorem Environment.mkstemp_performed (environment : Environment σ) (template : Bytes) (w : World σ) :
    ∃ suffix state answer after, environment.Picks suffix ∧ let path := template.take (template.length - 6) ++ suffix.1
      Environment.Performed (.mkstemp path) (·.mkstemp path) { w with environment := state } (answer, after) ∧
        environment.mkstemp template w = (answer.map fun _ => path, after) := by
  rcases picked : environment.suffix template w.environment with ⟨suffix, state⟩
  let path := template.take (template.length - 6) ++ suffix.1
  have run : environment.mkstemp template w =
      match environment.perform (.mkstemp path) (·.mkstemp path) { w with environment := state } with
      | (.error errno, after) => (.error errno, after)
      | (.ok (), after) => (.ok path, after) := by
    simp only [Environment.mkstemp, bind, StateT.bind, outside, picked]
    rcases environment.perform (.mkstemp path) (·.mkstemp path) { w with environment := state } with
      ⟨_ | _, after⟩ <;> rfl
  have performed := environment.perform_performed (.mkstemp path) (·.mkstemp path) { w with environment := state }
  generalize environment.perform (.mkstemp path) (·.mkstemp path) { w with environment := state } =
    ended at performed run
  have picks : environment.Picks suffix := ⟨template, w.environment, by rw [picked]⟩
  refine ⟨suffix, state, ?_⟩
  rw [run]
  rcases ended with ⟨_ | _, after⟩
  next errno => exact ⟨.error errno, after, picks, performed, rfl⟩
  next => exact ⟨.ok (), after, picks, performed, rfl⟩

theorem Environment.overwrite_performed (environment : Environment σ) (path data : Bytes) (w : World σ) :
    ∃ state data' answer after, Environment.Performed (.write path) (·.overwrite path data')
        { w with environment := state } (answer, after) ∧
      (data' = data ∧ environment.overwrite path data w = (answer, after) ∨
        ∃ errno, environment.overwrite path data w = (.error errno, after)) := by
  rcases broken : environment.interruption path w.environment with ⟨_ | ⟨count, errno⟩, state⟩
  next =>
    have run : environment.overwrite path data w =
        environment.perform (.write path) (·.overwrite path data) { w with environment := state } := by
      simp only [Environment.overwrite, bind, StateT.bind, outside, broken]
    exact ⟨state, data, _, _, environment.perform_performed _ _ _, .inl ⟨rfl, run⟩⟩
  next =>
    have run : environment.overwrite path data w =
        match environment.perform (.write path) (·.overwrite path (data.take count))
          { w with environment := state } with
        | (.error errno, after) => (.error errno, after)
        | (.ok (), after) => (.error errno, after) := by
      simp only [Environment.overwrite, bind, StateT.bind, outside, broken]
      rcases environment.perform (.write path) (·.overwrite path (data.take count)) { w with environment := state } with
        ⟨_ | _, after⟩ <;> rfl
    have performed := environment.perform_performed (.write path) (·.overwrite path (data.take count))
      { w with environment := state }
    generalize environment.perform (.write path) (·.overwrite path (data.take count)) { w with environment := state } =
      ended at performed run
    rcases ended with ⟨_ | _, after⟩
    next refused => exact ⟨state, data.take count, _, after, performed, .inr ⟨refused, run⟩⟩
    next => exact ⟨state, data.take count, _, after, performed, .inr ⟨errno, run⟩⟩

def tempName (suffix : TempSuffix) : Name := ⟨text "buildbox" ++ suffix.1, by
  have plain (byte : UInt8) (known : isAlphanumeric byte = true) : byte ≠ slash ∧ byte ≠ nul := by
    constructor <;> rintro rfl <;> exact absurd known (by decide)
  have every : ∀ byte ∈ suffix.1, byte ≠ slash ∧ byte ≠ nul := fun byte member => plain byte (suffix.2.2 byte member)
  exact
    { nonempty := by simp [text]
      ne_dot := by simp [text, dot]
      ne_dotdot := by simp [text, dotdot]
      no_slash := fun member => (List.mem_append.mp member).elim (by decide) fun new => (every slash new).1 rfl
      nulFree := fun member => (List.mem_append.mp member).elim (by decide) fun new => (every nul new).2 rfl }⟩

theorem template_picked {directory : Bytes} (free : NulFree directory) (suffix : TempSuffix) :
    let template := cString directory ++ text "/" ++ cString (text "buildbox") ++ text "XXXXXX"
    template.take (template.length - 6) ++ suffix.1 = directory ++ slash :: (tempName suffix).1 := by
  have parts : cString directory ++ text "/" ++ cString (text "buildbox") ++ text "XXXXXX" =
      (directory ++ slash :: text "buildbox") ++ text "XXXXXX" := by
    have plain : cString (text "buildbox") = text "buildbox" := by decide
    have separator : text "/" = [slash] := rfl
    rw [cString_of_nulFree free, plain, separator]
    simp
  have length : (text "XXXXXX").length = 6 := by decide
  intro template
  have whole : template = (directory ++ slash :: text "buildbox") ++ text "XXXXXX" := parts
  rw [whole, List.length_append, length, Nat.add_sub_cancel, List.take_left]
  simp [tempName]

end BuildboxCommon
