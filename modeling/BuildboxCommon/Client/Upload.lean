import BuildboxCommon.Client.GrpcRetrier

set_option autoImplicit false

namespace BuildboxCommon

open ByteString Effect Posix

variable {ι σ : Type}

namespace FileUtils

def getFileContents (fs : FileSystem ι) (path : Bytes) : EStateM Exn (Session ι σ) Bytes := do
  match fs.openat fs.currentDirectory path ⟨false, false⟩ with
  | .error _ => throw (.runtimeError (text "Failed to open file \"" ++ path ++ text "\""))
  | .ok fd =>
    recordAccess (.sent fd)
    match fs.read fd with
    | .error _ => throw (.runtimeError (text "Failed to read file \"" ++ path ++ text "\""))
    | .ok contents => return contents

theorem getFileContents_ok {fs : FileSystem ι} {path contents : Bytes} {fd : ι}
    (opened : fs.openat fs.currentDirectory path ⟨false, false⟩ = .ok fd) (readable : fs.read fd = .ok contents)
    (s : Session ι σ) :
    getFileContents fs path s = .ok contents { s with accesses := s.accesses ++ [.sent fd] } := by
  simp only [getFileContents, opened]
  rw [bind_ok _ (rfl : recordAccess (.sent fd) s = .ok _ _)]
  simp only [readable]
  rfl

end FileUtils

namespace Client

section Write

def writeChunks (client : Client σ) (resourceName : Bytes) (offset : Nat) (data : Bytes) : EStateM Exn σ Unit := do
  let chunk := data.take bytestreamChunkSizeBytes
  let rest := data.drop bytestreamChunkSizeBytes
  let written ← calling (client.stub.write ⟨resourceName, offset, chunk, rest = []⟩)
  if _more : written = true ∧ rest ≠ [] then writeChunks client resourceName (offset + chunk.length) rest
  else return ()
termination_by data.length
decreasing_by
  have left := List.length_pos_of_ne_nil _more.2
  rw [List.length_drop] at left ⊢
  simp only [bytestreamChunkSizeBytes] at left ⊢
  omega

theorem writeChunks_last {client : Client σ} {data : Bytes} (short : data.length ≤ bytestreamChunkSizeBytes)
    (resourceName : Bytes) (offset : Nat) : client.writeChunks resourceName offset data =
      (do let _ ← calling (client.stub.write ⟨resourceName, offset, data, true⟩)) := by
  have rest : data.drop bytestreamChunkSizeBytes = [] := List.drop_eq_nil_of_le short
  rw [writeChunks]
  simp [rest, List.take_of_length_le short]

def writeFileChunks (client : Client σ) (resourceName : Bytes) (digest : Digest) (offset : Nat) (unread : Bytes) :
    EStateM Exn σ Bytes := do
  let buffer := unread.take bytestreamChunkSizeBytes
  let rest := unread.drop bytestreamChunkSizeBytes
  if _ended : offset + buffer.length < digest.sizeBytes ∧ buffer = [] then
    throw (.runtimeError (text "Upload of " ++ digest.hashOther ++ text " failed: unexpected end of file"))
  else
    let lastChunk := ¬(offset + buffer.length < digest.sizeBytes)
    let written ← calling (client.stub.write ⟨resourceName, offset, buffer, lastChunk⟩)
    if _more : written = true ∧ offset + buffer.length < digest.sizeBytes then
      writeFileChunks client resourceName digest (offset + buffer.length) rest
    else return rest
termination_by unread.length
decreasing_by
  have left := List.length_pos_of_ne_nil fun empty : buffer = [] => _ended ⟨_more.2, empty⟩
  rw [List.length_take] at left
  rw [List.length_drop]
  omega

theorem writeFileChunks_last {client : Client σ} {digest : Digest} {unread : Bytes}
    (short : unread.length ≤ bytestreamChunkSizeBytes) (size : digest.sizeBytes = unread.length)
      (resourceName : Bytes) :
    client.writeFileChunks resourceName digest 0 unread =
      (do
        let _ ← calling (client.stub.write ⟨resourceName, 0, unread, true⟩)
        return []) := by
  have rest : unread.drop bytestreamChunkSizeBytes = [] := List.drop_eq_nil_of_le short
  rw [writeFileChunks]
  simp [rest, List.take_of_length_le short, size]

def finishWrite (client : Client σ) (digest : Digest) : EStateM Exn σ Status := do
  let (status, committedSize) ← calling client.stub.finishWrite
  if status.ok ∧ committedSize ≠ digest.sizeBytes then
    throw (.runtimeError (text "Expected to upload " ++ text (toString digest.sizeBytes) ++ text " bytes for " ++
      digest.hashOther ++ text ", but server reports " ++ text (toString committedSize) ++ text " bytes committed"))
  else return status

def writeString (client : Client σ) (data : Bytes) (digest : Digest) : EStateM Exn σ Unit :=
  client.issueRequestAndThrowOnErrors (fun captured => do
    calling client.stub.openWriter
    writeChunks client (client.makeResourceName digest true) 0 data
    let status ← finishWrite client digest
    return (status, captured)) ()

-- The descriptor is rewound before the first attempt only, so a retry reads on where the last one stopped.
def writeDescriptor (client : Client σ) (contents : Bytes) (digest : Digest) : EStateM Exn σ Unit := do
  let _ ← client.issueRequestAndThrowOnErrors (fun unread => do
    calling client.stub.openWriter
    let unread ← writeFileChunks client (client.makeResourceName digest true) digest 0 unread
    let status ← finishWrite client digest
    return (status, unread)) contents

def uploadString (client : Client σ) (data : Bytes) (digest : Digest) : EStateM Exn (Session ι σ) Unit :=
  if data.length ≠ digest.sizeBytes then
    throw (.logicError (text "Digest length of " ++ text (toString digest.sizeBytes) ++ text " bytes for " ++
      digest.hashOther ++ text " does not match string length of " ++ text (toString data.length) ++ text " bytes"))
  else recorded (.write digest data) (client.writeString data digest)

def uploadDescriptor (client : Client σ) (fs : FileSystem ι) (fd : ι) (digest : Digest) :
    EStateM Exn (Session ι σ) Unit := do
  recordAccess (.sent fd)
  match fs.read fd with
  | .ok contents => recorded (.write digest contents) (client.writeDescriptor contents digest)
  | .error errno =>
    recorded (.write digest []) (do
      calling client.stub.openWriter
      throw (.systemError errno (text "Error in read on descriptor")))

end Write

structure UploadRequest where
  digest : Digest
  data : Bytes
  path : Bytes
deriving DecidableEq

structure UploadResult where
  digest : Digest
  status : Status
deriving DecidableEq

def uploadRequest (client : Client σ) (fs : FileSystem ι) (request : UploadRequest) :
    EStateM Exn (Session ι σ) Unit :=
  if request.path = [] then client.uploadString request.data request.digest
  else
    match fs.openat fs.currentDirectory request.path ⟨false, false⟩ with
    | .error errno =>
      throw (.systemError errno (text "Error in open for file \"" ++ request.path ++ text "\""))
    | .ok fd => client.uploadDescriptor fs fd request.digest

def blobOf (fs : FileSystem ι) (request : UploadRequest) : EStateM Exn (Session ι σ) (Digest × Bytes) := do
  let data ← if request.path = [] then pure request.data else FileUtils.getFileContents fs request.path
  return (request.digest, data)

def notUpdated (response : UpdatedBlob) : Option UploadResult :=
  if response.status.code ≠ StatusCode.ok then some ⟨response.digest, response.status⟩ else none

def batchUpload (client : Client σ) (fs : FileSystem ι) (requests : List UploadRequest) :
    EStateM Exn (Session ι σ) (List UploadResult) := do
  let blobs ← requests.mapM (blobOf fs)
  let responses ← recorded (.batchUpdateBlobs blobs)
    (client.issueRequestAndThrowOnErrors (unary (client.stub.batchUpdateBlobs blobs)) [])
  return responses.filterMap notUpdated

section Raises

theorem writeChunks_raises (client : Client σ) (kind : Exn → Prop) (resourceName : Bytes) (offset : Nat)
    (data : Bytes) : RaisesOnly kind (writeChunks client resourceName offset data) := by
  induction offset, data using writeChunks.induct with
  | case1 offset data chunk rest ih =>
    rw [writeChunks]
    refine (RaisesOnly.calling _).bind fun written => ?_
    split
    next more => exact ih written more
    next => exact .pure _

theorem writeFileChunks_raises (client : Client σ) (resourceName : Bytes) (digest : Digest) (offset : Nat)
    (unread : Bytes) :
    RaisesOnly (Exn.isRuntimeError ·) (writeFileChunks client resourceName digest offset unread) := by
  induction offset, unread using writeFileChunks.induct digest with
  | case1 offset unread buffer ended =>
    rw [writeFileChunks, dif_pos ended]
    exact .throw rfl
  | case2 offset unread buffer rest ended ih =>
    rw [writeFileChunks, dif_neg ended]
    refine (RaisesOnly.calling _).bind fun written => ?_
    split
    next more => exact ih written more
    next => exact .pure _

theorem finishWrite_raises (client : Client σ) (digest : Digest) :
    RaisesOnly (Exn.isRuntimeError ·) (finishWrite client digest) :=
  (RaisesOnly.calling _).bind fun _ => .ite (.throw rfl) (.pure _)

theorem writeString_raises (client : Client σ) (data : Bytes) (digest : Digest) :
    RaisesOnly (Exn.isRuntimeError ·) (client.writeString data digest) := by
  refine issueRequestAndThrowOnErrors_raises client (fun captured => ?_) (fun _ _ => rfl) ()
  refine (RaisesOnly.calling _).bind fun _ => (writeChunks_raises client _ _ 0 data).bind fun _ => ?_
  exact (finishWrite_raises client digest).bind fun _ => .pure _

theorem writeDescriptor_raises (client : Client σ) (contents : Bytes) (digest : Digest) :
    RaisesOnly (Exn.isRuntimeError ·) (client.writeDescriptor contents digest) := by
  refine RaisesOnly.bind ?_ fun _ => .pure _
  refine issueRequestAndThrowOnErrors_raises client (fun unread => ?_) (fun _ _ => rfl) contents
  refine (RaisesOnly.calling _).bind fun _ => (writeFileChunks_raises client _ digest 0 unread).bind fun _ => ?_
  exact (finishWrite_raises client digest).bind fun _ => .pure _

theorem unary_raises {α : Type} (client : Client σ) (call : StateM σ (Status × α)) (captured : α) :
    RaisesOnly (Exn.isRuntimeError ·) (client.issueRequestAndThrowOnErrors (unary call) captured) :=
  issueRequestAndThrowOnErrors_raises client (fun _ => .calling _) (fun _ _ => rfl) captured

end Raises

end Client

end BuildboxCommon
