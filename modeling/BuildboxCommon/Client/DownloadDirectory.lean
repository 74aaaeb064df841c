import BuildboxCommon.Client.DownloadProgress
import BuildboxCommon.Client.ReplaceFile
import BuildboxCommon.Merklize.DirectoryTree

set_option autoImplicit false

namespace BuildboxCommon.Client

open ByteString Effect FileUtils Posix Ranges

variable {ι σ : Type}

section Model

variable (host : Host σ)

def fetchMessage {Message : Type} [Strings Message] (client : Client σ) (format : WireFormat Message)
    (digest : Digest) :
    EStateM Exn (Session ι σ) Message := do
  let bytes ← client.fetchString host digest
  if !format.parses bytes then throw (.runtimeError (text "Could not deserialize fetched message"))
  else return format.parseFromString bytes

def outputsOf (path : Bytes) (files : List FileNode) : OutputMap :=
  files.map fun file => (file.digest.hashOther, path ++ text "/" ++ file.name, file.isExecutable)

def makeDirectory (directoryPath : Bytes) : EStateM Exn (Session ι σ) Unit := do
  match ← inSession (calling (host.mkdir (cString directoryPath) 0o777)) with
  | .error errno => throw (.systemError errno (text "Error in mkdir for directory \"" ++ directoryPath ++ text "\""))
  | .ok () => return ()

def makeSymlink (path : Bytes) (node : SymlinkNode) : EStateM Exn (Session ι σ) Unit :=
  if node.target = [] ∨ node.name = [] then return ()
  else do
    let symlinkPath := path ++ text "/" ++ node.name
    match ← inSession (calling (host.symlink (cString node.target) (cString symlinkPath))) with
    | .error errno => throw (.systemError errno (text "Unable to create symlink: \"" ++ symlinkPath ++
        text "\" to target: \"" ++ node.target ++ text "\""))
    | .ok () => return ()

def downloadDirectoryWith (downloadCallback : List Digest → OutputMap → EStateM Exn (Session ι σ) Unit)
    (returnDirectoryCallback : Digest → EStateM Exn (Session ι σ) Directory) :
    Nat → Digest → Bytes → EStateM Exn (Session ι σ) Unit
  | 0, _, _ => throw .stackOverflow
  | stack + 1, digest, path => do
    let directory ← returnDirectoryCallback digest
    downloadCallback (directory.files.map FileNode.digest) (outputsOf path directory.files)
    forM directory.directories fun node => do
      makeDirectory host (path ++ text "/" ++ node.name)
      downloadDirectoryWith downloadCallback returnDirectoryCallback stack node.digest (path ++ text "/" ++ node.name)
    forM directory.symlinks (makeSymlink host path)

def downloadDirectory (client : Client σ) (sorting : SizeSort Digest fun d => d.sizeBytes)
    (format : WireFormat Directory) : Nat → Digest → Bytes → EStateM Exn (Session ι σ) Unit :=
  downloadDirectoryWith host (client.downloadBlobs host sorting) (client.fetchMessage host format)

end Model

section Raises

variable (client : Client σ) (host : Host σ)

def Shallow (e : Exn) : Prop := e ≠ .stackOverflow

theorem Shallow.of_isRuntimeError {e : Exn} (runtime : e.isRuntimeError = true) : Shallow e := by
  rintro rfl
  simp [Exn.isRuntimeError] at runtime

theorem recorded_shallow {α : Type} (entry : Except Exn α → Exchange) {rpc : EStateM Exn σ α}
    (raises : RaisesOnly Shallow rpc) : RaisesOnly Shallow (recorded entry rpc : EStateM Exn (Session ι σ) α) := by
  intro s e s' run
  unfold recorded at run
  cases ended : rpc s.server with
  | ok a server =>
    rw [ended] at run
    cases run
  | error thrown server =>
    rw [ended] at run
    cases run
    exact raises _ _ _ ended

theorem fetchString_shallow (digest : Digest) :
    RaisesOnly Shallow (client.fetchString host digest : EStateM Exn (Session ι σ) Bytes) := by
  refine recorded_shallow _ (client.issueRequestAndThrowOnErrors_raises (fun captured => ?_) (fun _ _ => nofun) [])
  exact (RaisesOnly.calling _).bind fun read =>
    .ite (.throw nofun) (.ite (.pure _) (.ite (.throw nofun) (.ite (.throw nofun) (.pure _))))

theorem fetchMessage_shallow {Message : Type} [Strings Message] (format : WireFormat Message) (digest : Digest) :
    RaisesOnly Shallow (client.fetchMessage host format digest : EStateM Exn (Session ι σ) Message) :=
  (fetchString_shallow client host digest).bind fun _ => .ite (.throw nofun) (.pure _)

theorem writeBlob_shallow (outputs : OutputMap) (hash data : Bytes) :
    RaisesOnly Shallow (writeBlob host outputs hash data : EStateM Exn (Session ι σ) PUnit) := by
  refine .forM fun output _ s e s' run => ?_
  unfold writeFileAtomically at run
  cases ended : replaceFile host output.2.1 data (filePermissions output.2.2) s.server with
  | ok done server =>
    rw [ended] at run
    cases run
  | error thrown server =>
    rw [ended] at run
    cases run
    exact .of_isRuntimeError (replaceFile_raises _ _ _ _ _ _ _ ended)

theorem downloadBlobs_shallow (sorting : SizeSort Digest fun d => d.sizeBytes) (digests : List Digest)
    (outputs : OutputMap) :
    RaisesOnly Shallow (client.downloadBlobs host sorting digests outputs : EStateM Exn (Session ι σ) Unit) := by
  have taken (response : ReadBlob) :
      RaisesOnly Shallow (client.takeResponse (writeBlob host outputs) response : EStateM Exn (Session ι σ) _) :=
    .ite (.pure _) (.ite (.pure _) ((writeBlob_shallow host outputs _ _).bind fun _ => .pure _))
  have batched (asked : List Digest) : RaisesOnly Shallow
      (client.batchDownload asked (writeBlob host outputs) : EStateM Exn (Session ι σ) (List DownloadResult)) := by
    refine (recorded_shallow _ fun s e s' run => ?_).bind fun responses => .mapM fun response _ => taken response
    exact .of_isRuntimeError (unary_raises client _ _ s e s' run)
  refine RaisesOnly.bind ?_ fun _ => .pure _
  refine (RaisesOnly.foldlM (fun results range _ => ?_) []).bind fun results => .foldlM
    (fun results digest _ => ?_) results
  next => exact .catching ((batched _).bind fun _ => .pure _) fun e => .throw nofun
  next =>
    refine .catching ((fetchString_shallow client host digest).bind fun data => ?_) fun e => ?_
    next => exact (writeBlob_shallow host outputs _ data).bind fun _ => .pure _
    next => cases e <;> exact .throw nofun

theorem makeDirectory_shallow (directoryPath : Bytes) :
    RaisesOnly Shallow (makeDirectory host directoryPath : EStateM Exn (Session ι σ) Unit) := by
  refine (inSession_raises (.calling _)).bind fun answer => ?_
  cases answer with
  | error errno => exact .throw nofun
  | ok done => exact .pure _

theorem makeSymlink_shallow (path : Bytes) (node : SymlinkNode) :
    RaisesOnly Shallow (makeSymlink host path node : EStateM Exn (Session ι σ) Unit) := by
  refine .ite (.pure _) ((inSession_raises (.calling _)).bind fun answer => ?_)
  cases answer with
  | error errno => exact .throw nofun
  | ok done => exact .pure _

theorem downloadDirectory_shallow (sorting : SizeSort Digest fun d => d.sizeBytes) (format : WireFormat Directory)
    {find : Digest → Option Directory}
    (fetched : ∀ digest, Keeps (fun _ => True)
      (client.fetchMessage host format digest : EStateM Exn (Session ι σ) Directory) (find digest = some ·))
    {stack : Nat} {digest : Digest} (deep : ∀ root, find digest = some root → Deep find stack root) (path : Bytes) :
    RaisesOnly Shallow
      (client.downloadDirectory host sorting format (stack + 1) digest path : EStateM Exn (Session ι σ) Unit) := by
  induction stack generalizing digest path with
  | zero =>
    exact (fetchMessage_shallow client host format digest).bind_returned (fetched digest) fun directory found =>
      (deep directory found).elim
  | succ stack ih =>
    refine (fetchMessage_shallow client host format digest).bind_returned (fetched digest) fun directory found => ?_
    refine (downloadBlobs_shallow client host sorting _ _).bind fun _ => ?_
    refine (RaisesOnly.forM fun node member => ?_).bind fun _ => .forM fun node _ => makeSymlink_shallow host path node
    exact (makeDirectory_shallow host _).bind fun _ => ih (deep directory found node member) _

end Raises

end BuildboxCommon.Client
