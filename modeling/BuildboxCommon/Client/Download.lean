import BuildboxCommon.Client.Upload

set_option autoImplicit false

namespace BuildboxCommon

open ByteString Effect FileUtils

variable {ι σ : Type}

structure Host (σ : Type) where
  mkstemp : Bytes → StateM σ (Except Nat Bytes)
  fchmod : Bytes → Nat → StateM σ (Except Nat Unit)
  overwrite : Bytes → Bytes → StateM σ (Except Nat Unit)
  rename : Bytes → Bytes → StateM σ (Except Nat Unit)
  unlink : Bytes → StateM σ (Except Nat Unit)
  mkdir : Bytes → Nat → StateM σ (Except Nat Unit)
  symlink : Bytes → Bytes → StateM σ (Except Nat Unit)
  stringCapacity : Nat

abbrev OutputMap := List (Bytes × Bytes × Bool)

namespace TemporaryFile

-- The name is all that its users read, and what `fchmod` returns is dropped.
def create (host : Host σ) (directory tempPrefix : Bytes) (mode : Nat) : EStateM Exn σ Bytes := do
  match ← calling (host.mkstemp (cString directory ++ text "/" ++ cString tempPrefix ++ text "XXXXXX")) with
  | .error errno => throw (.systemError errno (text "Error in mkstemp"))
  | .ok name =>
    if mode ≠ 0o600 then discard (calling (host.fchmod name mode))
    return normalizePath name

def remove (host : Host σ) (name : Bytes) : StateM σ Unit := discard (host.unlink name)

end TemporaryFile

namespace FileUtils

def dropSlashes (path : Bytes) : Bytes := (path.reverse.dropWhile (· == slash)).reverse

def dirname (path : Bytes) : Bytes :=
  let parent := ((dropSlashes path).reverse.dropWhile (· != slash)).reverse
  if dropSlashes path = [] then (if path = [] then text "." else text "/")
  else if parent = [] then text "."
  else if dropSlashes parent = [] then text "/"
  else dropSlashes parent

def fillFile (host : Host σ) (tempFilename path data : Bytes) : EStateM Exn σ Unit := do
  match ← calling (host.overwrite tempFilename data) with
  | .error errno =>
    throw (.systemError errno (text "Failed writing to temporary file \"" ++ tempFilename ++ text "\""))
  | .ok () =>
    match ← calling (host.rename tempFilename (cString path)) with
    | .error errno => throw (.systemError errno (text "Could not atomically rename temporary file \"" ++
      tempFilename ++ text "\" to \"" ++ path ++ text "\""))
    | .ok () => return ()

def replaceFile (host : Host σ) (path data : Bytes) (mode : Nat) : EStateM Exn σ Unit := do
  let tempFilename ← TemporaryFile.create host (dirname (cString path)) (text "buildbox") mode
  ensuring (TemporaryFile.remove host tempFilename) (fillFile host tempFilename path data)

def writeFileAtomically (host : Host σ) (path data : Bytes) (mode : Nat) : EStateM Exn (Session ι σ) Unit := fun s =>
  match replaceFile host path data mode s.server with
  | .ok () server =>
    .ok () { s with server := server, accesses := s.accesses ++ [.written path data mode (.ok ())] }
  | .error thrown server =>
    .error thrown { s with server := server, accesses := s.accesses ++ [.written path data mode (.error thrown)] }

theorem writeFileAtomically_server {host : Host σ} {path data : Bytes} {mode : Nat} {before raised : σ → Prop}
    {after : Unit → σ → Prop} (runs : Runs before (replaceFile host path data mode) after raised) :
    Runs (fun s : Session ι σ => before s.server) (writeFileAtomically host path data mode)
      (fun done s => after done s.server) fun s => raised s.server := by
  intro s start
  have ended := runs s.server start
  unfold writeFileAtomically
  cases run : replaceFile host path data mode s.server with
  | ok done server =>
    rw [run] at ended
    exact ended
  | error e server =>
    rw [run] at ended
    exact ended

theorem replaceFile_raises (host : Host σ) (path data : Bytes) (mode : Nat) :
    RaisesOnly (Exn.isRuntimeError ·) (replaceFile host path data mode) := by
  have created (directory tempPrefix : Bytes) :
      RaisesOnly (Exn.isRuntimeError ·) (TemporaryFile.create host directory tempPrefix mode) := by
    refine (RaisesOnly.calling _).bind fun answer => ?_
    cases answer with
    | error errno => exact .throw rfl
    | ok name =>
      simp only
      split
      next => exact (RaisesOnly.calling _).bind fun _ => .pure _
      next => exact .pure _
  refine (created _ _).bind fun tempFilename => .ensuring _ ((RaisesOnly.calling _).bind fun answer => ?_)
  cases answer with
  | error errno => exact .throw rfl
  | ok stored =>
    refine (RaisesOnly.calling _).bind fun answer => ?_
    cases answer with
    | error errno => exact .throw rfl
    | ok renamed => exact .pure _

end FileUtils

def Digest.toString (digest : Digest) : Bytes :=
  digest.hashOther ++ text "/" ++ text (ToString.toString digest.sizeBytes)

namespace Client

structure DownloadResult where
  digest : Digest
  status : Status
deriving DecidableEq

-- `reserve` is called with the size as a `size_t` before anything is read.
def Unreservable (host : Host σ) (digest : Digest) : Prop :=
  host.stringCapacity < (UInt64.ofInt digest.sizeBytes).toNat

instance (host : Host σ) (digest : Digest) : Decidable (Unreservable host digest) :=
  inferInstanceAs (Decidable (_ < _))

def readString (client : Client σ) (host : Host σ) (digest : Digest) (result : Bytes) :
    EStateM Exn σ (Status × Bytes) := do
  let (chunks, readStatus) ← calling (client.stub.read ⟨client.makeResourceName digest false, 0⟩)
  let downloadedData := chunks.flatten
  let downloadedDigest := makeDigest client.hash downloadedData
  if Unreservable host digest then throw .lengthError
  else if !readStatus.ok then return (readStatus, result)
  else if downloadedData.length ≠ digest.sizeBytes then
    throw (.runtimeError (text "Expected " ++ text (toString digest.sizeBytes) ++
      text " bytes, but downloaded blob was " ++ text (toString downloadedData.length) ++ text " bytes"))
  else if downloadedDigest.key ≠ digest.key then
    throw (.runtimeError (text "Expected blob with digest " ++ digest.toString ++
      text ", but downloaded blob has digest " ++ downloadedDigest.toString))
  else return (readStatus, downloadedData)

def fetchString (client : Client σ) (host : Host σ) (digest : Digest) : EStateM Exn (Session ι σ) Bytes :=
  recorded (.read digest) (client.issueRequestAndThrowOnErrors (client.readString host digest) [])

def filePermissions (isExecutable : Bool) : Nat := if isExecutable then 0o755 else 0o644

def writeBlob (host : Host σ) (outputs : OutputMap) (hash data : Bytes) : EStateM Exn (Session ι σ) PUnit :=
  forM (outputs.filter fun output => output.1 = hash) fun output =>
    writeFileAtomically host output.2.1 data (filePermissions output.2.2)

def takeResponse (client : Client σ) (writeBlobFunction : Bytes → Bytes → EStateM Exn (Session ι σ) PUnit)
    (response : ReadBlob) : EStateM Exn (Session ι σ) DownloadResult :=
  let downloadedDigest := makeDigest client.hash response.data
  if response.status.code ≠ StatusCode.ok then return ⟨response.digest, response.status⟩
  else if downloadedDigest.key ≠ response.digest.key then
    return ⟨response.digest, ⟨StatusCode.internal, text "Expected blob with digest " ++ response.digest.toString ++
      text ", but downloaded blob has digest " ++ downloadedDigest.toString⟩⟩
  else do
    writeBlobFunction response.digest.hashOther response.data
    return ⟨response.digest, response.status⟩

def batchDownload (client : Client σ) (digests : List Digest)
    (writeBlobFunction : Bytes → Bytes → EStateM Exn (Session ι σ) PUnit) :
    EStateM Exn (Session ι σ) (List DownloadResult) := do
  let responses ← recorded (.batchReadBlobs digests)
    (client.issueRequestAndThrowOnErrors (unary (client.stub.batchReadBlobs digests)) [])
  responses.mapM (client.takeResponse writeBlobFunction)

theorem readString_unreservable (client : Client σ) {host : Host σ} {digest : Digest}
    (unreservable : Unreservable host digest) (result : Bytes) (s : σ) :
    ∃ s', client.readString host digest result s = .error .lengthError s' := by
  unfold readString
  cases answer : client.stub.read ⟨client.makeResourceName digest false, 0⟩ s with
  | mk read s' =>
    have run : (calling (client.stub.read ⟨client.makeResourceName digest false, 0⟩) : EStateM Exn σ _) s =
      .ok read s' := by simp only [calling, answer]
    rw [bind_ok _ run]
    simp only [unreservable, if_true]
    exact ⟨s', rfl⟩

theorem readString_raises (client : Client σ) {host : Host σ} {digest : Digest} {kind : Exn → Prop}
    (reservable : ¬Unreservable host digest) (runtime : ∀ what, kind (.runtimeError what)) (result : Bytes) :
    RaisesOnly kind (client.readString host digest result) := by
  refine (RaisesOnly.calling _).bind fun read => ?_
  simp only [reservable, if_false]
  exact .ite (.pure _) (.ite (.throw (runtime _)) (.ite (.throw (runtime _)) (.pure _)))

theorem readString_keeps (client : Client σ) (host : Host σ) (digest : Digest) (result : Bytes) :
    Keeps (fun _ => True) (client.readString host digest result) fun answer =>
      answer.1.ok = true → (makeDigest client.hash answer.2).key = digest.key := by
  refine (Keeps.trivial _).bind fun read _ => ?_
  refine .ite (fun _ => .throw _) fun _ => .ite (fun failed => .pure fun ok => ?_) fun _ => ?_
  next =>
    rw [ok] at failed
    contradiction
  next => exact .ite (fun _ => .throw _) fun _ => .ite (fun _ => .throw _) fun same => .pure fun _ => not_not.mp same

end Client

end BuildboxCommon
