import BuildboxCommon.Client.DigestAgreement
import BuildboxCommon.Client.UploadDirectory
import BuildboxCommon.StagedDirectory.CaptureAllOutputs
import BuildboxCommon.StagedDirectory.OpenInInputRoot

set_option autoImplicit false

namespace BuildboxCommon

open ByteString Client Effect FileUtils Posix StagedDirectory StagedDirectoryUtils

variable {ι σ : Type}

structure CaptureRequest where
  path : List Bytes
  bypassLocalCache : Bool
  nodeProperties : List Bytes
deriving DecidableEq

structure CapturedFile where
  path : Bytes
  digest : Digest
  status : Status
  isExecutable : Bool
  nodeProperties : NodeProperties
deriving DecidableEq

structure CapturedTree where
  path : Bytes
  treeDigest : Digest
  status : Status
deriving DecidableEq

structure LocalCasStub (σ : Type) where
  captureTree : CaptureRequest → StateM σ (Status × List CapturedTree)
  captureFiles : CaptureRequest → StateM σ (Status × List CapturedFile)

namespace Client

variable (client : Client σ) (localCas : LocalCasStub σ)

def captureTree (paths properties : List Bytes) (bypassLocalCache : Bool) : EStateM Exn σ (List CapturedTree) :=
  client.issueRequestAndThrowOnErrors (unary (localCas.captureTree ⟨paths, bypassLocalCache, properties⟩)) []

def captureFiles (paths properties : List Bytes) (bypassLocalCache : Bool) : EStateM Exn σ (List CapturedFile) :=
  client.issueRequestAndThrowOnErrors (unary (localCas.captureFiles ⟨paths, bypassLocalCache, properties⟩)) []

end Client

structure LocalCasStagedDirectory (fs : FileSystem ι) where
  dPath : Bytes
  stagedDirectoryFd : ι
  opened : fs.openat fs.currentDirectory dPath ⟨true, false⟩ = .ok stagedDirectoryFd

namespace LocalCasStagedDirectory

def isExecutablePath (fs : FileSystem ι) (path : Bytes) : Bool :=
  match fs.fstatat true fs.currentDirectory path with
  | .ok object => isExecutable object
  | .error _ => false

variable {fs : FileSystem ι} (client : Client σ) (localCas : LocalCasStub σ) (staged : LocalCasStagedDirectory fs)
  (command : Command)

def captureFile (relativePath : Bytes) : EStateM Exn σ OutputFile := do
  let inside ← liftExcept (fileInInputRoot fs staged.stagedDirectoryFd relativePath)
  if !inside then return ⟨[], .unset, false, none⟩
  else
    let absolutePath ← liftExcept (makePathAbsolute relativePath staged.dPath)
    match ← client.captureFiles localCas [absolutePath] command.outputNodeProperties false with
    | [] =>
      throw (.runtimeError (text "Error capturing \"" ++ absolutePath ++ text "\": server returned empty response"))
    | capturedFile :: _ =>
      if capturedFile.status.code ≠ StatusCode.ok then
        throw (.runtimeError (text "Error capturing \"" ++ absolutePath ++ text "\": " ++ capturedFile.status.message))
      else
        return ⟨relativePath, capturedFile.digest, isExecutablePath fs absolutePath, some capturedFile.nodeProperties⟩

-- The first response is taken unseen.
def captureDirectory (relativePath : Bytes) : EStateM Exn σ OutputDirectory := do
  let inside ← liftExcept (directoryInInputRoot fs staged.stagedDirectoryFd relativePath)
  if !inside then return ⟨[], .unset⟩
  else
    let absolutePath ← liftExcept (makePathAbsolute relativePath staged.dPath)
    match ← client.captureTree localCas [absolutePath] command.outputNodeProperties false with
    | [] => throw .undefined
    | capturedTree :: _ => return ⟨relativePath, capturedTree.treeDigest⟩

structure Response where
  path : Bytes
  digest : Digest
  status : Status

def fileResponse (captured : CapturedFile) : Response := ⟨captured.path, captured.digest, captured.status⟩

def treeResponse (captured : CapturedTree) : Response := ⟨captured.path, captured.treeDigest, captured.status⟩

def FileAnswered (relativePath : Bytes) (s : σ) (absolutePath : Bytes) (responses : List Response) : Prop :=
  fileInInputRoot fs staged.stagedDirectoryFd relativePath = .ok true ∧
    makePathAbsolute relativePath staged.dPath = .ok absolutePath ∧
    ∃ captured s', client.captureFiles localCas [absolutePath] command.outputNodeProperties false s = .ok captured s' ∧
      responses = captured.map fileResponse

def TreeAnswered (relativePath : Bytes) (s : σ) (absolutePath : Bytes) (responses : List Response) : Prop :=
  directoryInInputRoot fs staged.stagedDirectoryFd relativePath = .ok true ∧
    makePathAbsolute relativePath staged.dPath = .ok absolutePath ∧
    ∃ captured s', client.captureTree localCas [absolutePath] command.outputNodeProperties false s = .ok captured s' ∧
      responses = captured.map treeResponse

def fileOutcome (relativePath : Bytes) (s : σ) : EStateM.Result Exn σ (Bytes × Digest) :=
  match captureFile client localCas staged command relativePath s with
  | .ok outputFile s' => .ok (outputFile.path, outputFile.digest) s'
  | .error thrown s' => .error thrown s'

def directoryOutcome (relativePath : Bytes) (s : σ) : EStateM.Result Exn σ (Bytes × Digest) :=
  match captureDirectory client localCas staged command relativePath s with
  | .ok outputDirectory s' => .ok (outputDirectory.path, outputDirectory.treeDigest) s'
  | .error thrown s' => .error thrown s'

def Captured (absolutePath : Bytes) (digest : Digest) (responses : List Response) : Prop :=
  ∃ response ∈ responses, response.path = absolutePath ∧ response.status.ok = true ∧ response.digest = digest

structure Faithful (answered : Bytes → List Response → Prop)
    (outcome : EStateM.Result Exn σ (Bytes × Digest)) : Prop where
  recorded : ∀ path digest s', outcome = .ok (path, digest) s' → path ≠ [] →
    ∃ absolutePath responses, answered absolutePath responses ∧ Captured absolutePath digest responses
  refused : ∀ absolutePath responses, answered absolutePath responses →
    (∀ response ∈ responses, response.path = absolutePath → response.status.ok = false) →
      ∃ what s', outcome = .error (.runtimeError what) s'

section Outcomes

variable {client localCas staged command} {relativePath absolutePath : Bytes} {s : σ} {responses : List Response}

theorem fileOutcome_answered
    (answered : FileAnswered client localCas staged command relativePath s absolutePath responses) :
    ∃ s', match responses with
      | [] => ∃ what, fileOutcome client localCas staged command relativePath s = .error (.runtimeError what) s'
      | first :: _ =>
        if first.status.ok then
          fileOutcome client localCas staged command relativePath s = .ok (relativePath, first.digest) s'
        else ∃ what, fileOutcome client localCas staged command relativePath s = .error (.runtimeError what) s' := by
  obtain ⟨inside, made, captured, s', received, rfl⟩ := answered
  refine ⟨s', ?_⟩
  unfold fileOutcome captureFile
  simp only [inside, made, liftExcept_ok, pure_bind, Bool.not_true, Bool.false_eq_true, if_false]
  rw [bind_ok _ received]
  cases captured with
  | nil => exact ⟨_, rfl⟩
  | cons first rest =>
    simp only [List.map_cons, fileResponse, Status.ok]
    by_cases ok : first.status.code = StatusCode.ok
    next => simp [ok]
    next => simp [ok]

theorem directoryOutcome_answered
    (answered : TreeAnswered client localCas staged command relativePath s absolutePath responses) :
    ∃ s', directoryOutcome client localCas staged command relativePath s =
      match responses with
      | [] => .error .undefined s'
      | first :: _ => .ok (relativePath, first.digest) s' := by
  obtain ⟨inside, made, captured, s', received, rfl⟩ := answered
  refine ⟨s', ?_⟩
  unfold directoryOutcome captureDirectory
  simp only [inside, made, liftExcept_ok, pure_bind, Bool.not_true, Bool.false_eq_true, if_false]
  rw [bind_ok _ received]
  cases captured with
  | nil => rfl
  | cons first rest => rfl

section Asked

variable {α β : Type} {check : Except Exn Bool} {joined : Except Exn Bytes} {capture : Bytes → EStateM Exn σ α}

theorem asked_of_ok {use : Bytes → α → EStateM Exn σ β} {outside entry : β} {s' : σ}
    (run : (do
      let inside ← liftExcept check
      if !inside then return outside
      else
        let absolutePath ← liftExcept joined
        let captured ← capture absolutePath
        use absolutePath captured : EStateM Exn σ β) s = .ok entry s') (some : entry ≠ outside) :
    check = .ok true ∧ ∃ absolutePath captured between,
      joined = .ok absolutePath ∧ capture absolutePath s = .ok captured between := by
  obtain ⟨inside, _, lifted, rest⟩ := of_bind_ok run
  obtain ⟨checked, rfl⟩ := of_liftExcept_ok lifted
  cases inside with
  | false =>
    cases rest
    exact absurd rfl some
  | true =>
    simp only [Bool.not_true, Bool.false_eq_true, if_false] at rest
    obtain ⟨absolutePath, _, appended, capturing⟩ := of_bind_ok rest
    obtain ⟨made, rfl⟩ := of_liftExcept_ok appended
    obtain ⟨captured, between, received, -⟩ := of_bind_ok capturing
    exact ⟨checked, absolutePath, captured, between, made, received⟩

theorem answer_unique (all : Bytes → EStateM Exn σ (List α)) {response : α → Response} {other : Bytes}
    {others : List Response}
    (answered : joined = .ok absolutePath ∧
      ∃ captured s', all absolutePath s = .ok captured s' ∧ responses = captured.map response)
    (also : joined = .ok other ∧ ∃ captured s', all other s = .ok captured s' ∧ others = captured.map response) :
    other = absolutePath ∧ others = responses := by
  obtain ⟨made, captured, s', received, rfl⟩ := answered
  obtain ⟨made', captured', s'', received', rfl⟩ := also
  obtain rfl := Except.ok.inj (made.symm.trans made')
  obtain ⟨rfl, -⟩ := EStateM.Result.ok.inj (received.symm.trans received')
  exact ⟨rfl, rfl⟩

end Asked

theorem fileOutcome_asked {path : Bytes} {digest : Digest} {s' : σ}
    (recorded : fileOutcome client localCas staged command relativePath s = .ok (path, digest) s') (some : path ≠ []) :
    ∃ absolutePath responses, FileAnswered client localCas staged command relativePath s absolutePath responses := by
  unfold fileOutcome at recorded
  split at recorded
  next outputFile after run =>
    obtain ⟨rfl, rfl⟩ := Prod.mk.inj (EStateM.Result.ok.inj recorded).1
    obtain ⟨checked, absolutePath, captured, between, made, received⟩ :=
      asked_of_ok run fun outside => some (by rw [outside])
    exact ⟨absolutePath, _, checked, made, captured, between, received, rfl⟩
  next => cases recorded

theorem directoryOutcome_asked {path : Bytes} {digest : Digest} {s' : σ}
    (recorded : directoryOutcome client localCas staged command relativePath s = .ok (path, digest) s')
    (some : path ≠ []) :
    ∃ absolutePath responses, TreeAnswered client localCas staged command relativePath s absolutePath responses := by
  unfold directoryOutcome at recorded
  split at recorded
  next outputDirectory after run =>
    obtain ⟨rfl, rfl⟩ := Prod.mk.inj (EStateM.Result.ok.inj recorded).1
    obtain ⟨checked, absolutePath, captured, between, made, received⟩ :=
      asked_of_ok run fun outside => some (by rw [outside])
    exact ⟨absolutePath, _, checked, made, captured, between, received, rfl⟩
  next => cases recorded

theorem FileAnswered.unique {other : Bytes} {others : List Response}
    (answered : FileAnswered client localCas staged command relativePath s absolutePath responses)
    (also : FileAnswered client localCas staged command relativePath s other others) :
    other = absolutePath ∧ others = responses :=
  answer_unique (fun path => client.captureFiles localCas [path] command.outputNodeProperties false) answered.2 also.2

theorem TreeAnswered.unique {other : Bytes} {others : List Response}
    (answered : TreeAnswered client localCas staged command relativePath s absolutePath responses)
    (also : TreeAnswered client localCas staged command relativePath s other others) :
    other = absolutePath ∧ others = responses :=
  answer_unique (fun path => client.captureTree localCas [path] command.outputNodeProperties false) answered.2 also.2

theorem FileAnswered.named
    (answered : FileAnswered client localCas staged command relativePath s absolutePath responses) :
    relativePath ≠ [] := by
  rintro rfl
  have missing : fileInInputRoot fs staged.stagedDirectoryFd [] = .ok false := by
    simp [fileInInputRoot, openFileInInputRoot, openFile, FileSystem.openat, FileSystem.pathname]
  rw [answered.1] at missing
  cases missing

theorem refused_of_not_captured (none : ¬∃ digest, Captured absolutePath digest responses) :
    ∀ response ∈ responses, response.path = absolutePath → response.status.ok = false := by
  intro response member path
  rw [← Bool.not_eq_true]
  exact fun ok => none ⟨response.digest, response, member, path, ok, rfl⟩

theorem not_captured_of_refused
    (refused : ∀ response ∈ responses, response.path = absolutePath → response.status.ok = false) (digest : Digest) :
    ¬Captured absolutePath digest responses := by
  rintro ⟨response, member, path, ok, -⟩
  simp [refused response member path] at ok

end Outcomes

theorem captureFile_faithful_iff (relativePath : Bytes) (s : σ) :
    Faithful (FileAnswered client localCas staged command relativePath s)
      (fileOutcome client localCas staged command relativePath s) ↔
    ∀ absolutePath responses, FileAnswered client localCas staged command relativePath s absolutePath responses →
      ∀ first ∈ responses.head?, first.status.ok = true → Captured absolutePath first.digest responses := by
  constructor
  next =>
    intro faithful absolutePath responses answered first head ok
    obtain ⟨s', outcome⟩ := fileOutcome_answered answered
    cases responses with
    | nil => cases head
    | cons response rest =>
      obtain rfl := Option.some.inj head
      simp only [ok, if_true] at outcome
      obtain ⟨other, others, also, captured⟩ := faithful.recorded _ _ _ outcome answered.named
      obtain ⟨rfl, rfl⟩ := answered.unique also
      exact captured
  next =>
    intro first
    constructor
    next =>
      intro path digest s' recorded some
      obtain ⟨absolutePath, responses, answered⟩ := fileOutcome_asked recorded some
      refine ⟨absolutePath, responses, answered, ?_⟩
      obtain ⟨s'', outcome⟩ := fileOutcome_answered answered
      cases responses with
      | nil => 
        obtain ⟨what, raised⟩ := outcome
        simp [raised] at recorded
      | cons response rest =>
        by_cases ok : response.status.ok = true
        next =>
          simp only [ok, if_true, recorded] at outcome
          obtain ⟨⟨rfl, rfl⟩, rfl⟩ := by simpa using outcome
          exact first absolutePath _ answered response rfl ok
        next =>
          simp [ok, recorded] at outcome
    next =>
      intro absolutePath responses answered refused
      obtain ⟨s', outcome⟩ := fileOutcome_answered answered
      cases responses with
      | nil => 
        obtain ⟨what, raised⟩ := outcome
        exact ⟨what, s', raised⟩
      | cons response rest =>
        by_cases ok : response.status.ok = true
        next =>
          exact absurd (first absolutePath _ answered response rfl ok) (not_captured_of_refused refused _)
        next =>
          simp only [ok] at outcome
          obtain ⟨what, raised⟩ := outcome
          exact ⟨what, s', raised⟩

theorem captureDirectory_faithful_iff (relativePath : Bytes) (s : σ) :
    Faithful (TreeAnswered client localCas staged command relativePath s)
      (directoryOutcome client localCas staged command relativePath s) ↔
    ∀ absolutePath responses, TreeAnswered client localCas staged command relativePath s absolutePath responses →
      (∃ digest, Captured absolutePath digest responses) ∧
        (relativePath ≠ [] → ∀ first ∈ responses.head?, Captured absolutePath first.digest responses) := by
  constructor
  next =>
    intro faithful absolutePath responses answered
    obtain ⟨s', outcome⟩ := directoryOutcome_answered answered
    constructor
    next =>
      by_contra none
      obtain ⟨what, s'', raised⟩ := faithful.refused _ _ answered (refused_of_not_captured none)
      cases responses <;> simp [raised] at outcome
    next =>
      intro named first head
      cases responses with
      | nil => cases head
      | cons response rest =>
        obtain rfl := Option.some.inj head
        obtain ⟨other, others, also, captured⟩ := faithful.recorded _ _ _ outcome named
        obtain ⟨rfl, rfl⟩ := answered.unique also
        exact captured
  next =>
    intro accepted
    constructor
    next =>
      intro path digest s' recorded some
      obtain ⟨absolutePath, responses, answered⟩ := directoryOutcome_asked recorded some
      refine ⟨absolutePath, responses, answered, ?_⟩
      obtain ⟨s'', outcome⟩ := directoryOutcome_answered answered
      cases responses with
      | nil => simp [recorded] at outcome
      | cons response rest =>
        obtain ⟨⟨rfl, rfl⟩, rfl⟩ := by simpa [recorded] using outcome
        exact (accepted absolutePath _ answered).2 some response rfl
    next =>
      intro absolutePath responses answered refused
      obtain ⟨digest, captured⟩ := (accepted absolutePath responses answered).1
      exact absurd captured (not_captured_of_refused refused digest)

theorem capture_faithful_iff (relativePath : Bytes) (s : σ) :
    (Faithful (FileAnswered client localCas staged command relativePath s)
        (fileOutcome client localCas staged command relativePath s) ↔
      ∀ absolutePath responses, FileAnswered client localCas staged command relativePath s absolutePath responses →
        ∀ first ∈ responses.head?, first.status.ok = true → Captured absolutePath first.digest responses) ∧
    (Faithful (TreeAnswered client localCas staged command relativePath s)
        (directoryOutcome client localCas staged command relativePath s) ↔
      ∀ absolutePath responses, TreeAnswered client localCas staged command relativePath s absolutePath responses →
        (∃ digest, Captured absolutePath digest responses) ∧
          (relativePath ≠ [] → ∀ first ∈ responses.head?, Captured absolutePath first.digest responses)) :=
  ⟨captureFile_faithful_iff client localCas staged command relativePath s,
    captureDirectory_faithful_iff client localCas staged command relativePath s⟩

section Samples

def StatusCode.notFound : StatusCode := 5

def missingStub : LocalCasStub Unit where
  captureTree request := pure
    (⟨StatusCode.ok, []⟩, request.path.map fun path => ⟨path, .unset, ⟨StatusCode.notFound, []⟩⟩)
  captureFiles request := pure (⟨StatusCode.ok, []⟩,
    request.path.map fun path => ⟨path, .unset, ⟨StatusCode.notFound, []⟩, false, ⟨[], none, none⟩⟩)

def stagedRoot : LocalCasStagedDirectory fileInZero := ⟨text "/", 0, rfl⟩

theorem captureDirectory_records_missing :
    captureDirectory pickyClient missingStub stagedRoot buildInRoot (text "0") () = .ok ⟨text "0", .unset⟩ () ∧
      ¬Faithful (TreeAnswered pickyClient missingStub stagedRoot buildInRoot (text "0") ())
        (directoryOutcome pickyClient missingStub stagedRoot buildInRoot (text "0") ()) := by
  have run : captureDirectory pickyClient missingStub stagedRoot buildInRoot (text "0") () =
    .ok ⟨text "0", .unset⟩ () := rfl
  refine ⟨run, fun faithful => ?_⟩
  obtain ⟨absolutePath, responses, answered, response, member, -, ok, -⟩ :=
    faithful.recorded (text "0") .unset () (by simp only [directoryOutcome, run]) (by decide)
  obtain ⟨-, -, captured, s', received, rfl⟩ := answered
  cases received
  obtain rfl := List.mem_singleton.mp member
  cases ok

end Samples

end LocalCasStagedDirectory

end BuildboxCommon
