import BuildboxCommon.Client.DownloadBlobs
import BuildboxCommon.DigestGenerator

set_option autoImplicit false

namespace BuildboxCommon

open ByteString Effect Ranges

variable {ι σ : Type}

structure LocalFiles (σ : Type) where
  named : σ → Bytes → Option Nat
  stored : σ → Nat → Bytes
  openTruncated : Bytes → StateM σ (Except Nat Nat)
  write : Nat → Bytes → StateM σ (Int × Nat)
  overwrite : Bytes → Bytes → StateM σ (Except Nat Unit)
  opened : ∀ path s fd, (openTruncated path s).1 = .ok fd →
    named (openTruncated path s).2 path = some fd ∧ stored (openTruncated path s).2 fd = []
  appended : ∀ fd data s, (write fd data s).1.1 = data.length →
    named (write fd data s).2 = named s ∧ stored (write fd data s).2 fd = stored s fd ++ data
  overwritten : ∀ path data s, (overwrite path data s).1 = .ok () →
    ∃ fd, named (overwrite path data s).2 path = some fd ∧ stored (overwrite path data s).2 fd = data

namespace LocalFiles

def file (files : LocalFiles σ) (s : σ) (path : Bytes) : Option Bytes :=
  (files.named s (cString path)).map (files.stored s)

def stSize (files : LocalFiles σ) (fd : Nat) : StateM σ Nat := fun s => ((files.stored s fd).length, s)

end LocalFiles

namespace Client

structure Transfer where
  bytesDownloaded : Nat
  digestContext : DigestContext

def receive (files : LocalFiles σ) (fd : Nat) (transfer : Transfer) (data : Bytes) : EStateM Exn σ Transfer := do
  let (written, errno) ← calling (files.write fd data)
  if written ≠ data.length then
    throw (.systemError errno (text "Error in write to descriptor " ++ text (toString fd)))
  else do
    let digestContext ← liftExcept (transfer.digestContext.update data)
    return ⟨transfer.bytesDownloaded + data.length, digestContext⟩

def readFile (client : Client σ) (files : LocalFiles σ) (fd : Nat) (digest : Digest) (transfer : Transfer) :
    EStateM Exn σ (Status × Transfer) := do
  let (chunks, readStatus) ← calling
    (client.stub.read ⟨client.makeResourceName digest false, transfer.bytesDownloaded⟩)
  let transfer ← chunks.foldlM (receive files fd) transfer
  if !readStatus.ok then return (readStatus, transfer)
  else do
    let stSize ← calling (files.stSize fd)
    if stSize ≠ digest.sizeBytes then
      throw (.runtimeError (text "Expected " ++ text (toString digest.sizeBytes) ++
        text " bytes, but downloaded blob was " ++ text (toString stSize) ++ text " bytes"))
    else do
      let (downloadedDigest, digestContext) ←
        liftExcept (transfer.digestContext.finalizeDigest (makeDigest client.hash))
      if downloadedDigest.key ≠ digest.key then
        throw (.runtimeError (text "Expected blob with digest " ++ digest.toString ++
          text ", but downloaded blob has digest " ++ downloadedDigest.toString))
      else return (readStatus, { transfer with digestContext := digestContext })

def download (client : Client σ) (files : LocalFiles σ) (fd : Nat) (digest : Digest) : EStateM Exn σ Unit := do
  let _ ← client.issueRequestAndThrowOnErrors (client.readFile files fd digest) ⟨0, DigestContext.create⟩
  return ()

def handOver (files : LocalFiles σ) (tempDirectory : Option Bytes)
    (writeBlobFunction : Bytes → Bytes → EStateM Exn (Session ι σ) PUnit) (hash data : Bytes) :
    EStateM Exn (Session ι σ) PUnit :=
  match tempDirectory with
  | none => writeBlobFunction hash data
  | some directory => do
    let path := directory ++ text "/" ++ hash
    match ← inSession (calling (files.overwrite (cString path) data)) with
    | .error errno => throw (.systemError errno (text "Client::batchDownload: Failed to write file \"" ++ path ++
        text "\""))
    | .ok () => writeBlobFunction hash path

def downloadOneToFile (client : Client σ) (files : LocalFiles σ) (tempDirectory : Bytes)
    (writeBlobFunction : Bytes → Bytes → EStateM Exn (Session ι σ) PUnit) (throwOnError : Bool)
    (downloadResults : List DownloadResult) (digest : Digest) : EStateM Exn (Session ι σ) (List DownloadResult) :=
  catching Exn.isRuntimeError (do
    let path := tempDirectory ++ text "/" ++ digest.hashOther
    match ← inSession (calling (files.openTruncated (cString path))) with
    | .error errno => throw (.systemError errno (text "Client::downloadBlobs: Failed to create file \"" ++ path ++
        text "\""))
    | .ok fd => do
      inSession (client.download files fd digest)
      writeBlobFunction digest.hashOther path
      return downloadResults ++ [⟨digest, ⟨StatusCode.ok, []⟩⟩]) fun e =>
      match e with
      | .grpcError status =>
        if throwOnError then throw (.runtimeError (text "Failed to download string: " ++ status.message))
        else return downloadResults ++ [⟨digest, status⟩]
      | e =>
        if throwOnError then throw (.runtimeError e.what)
        else return downloadResults ++ [⟨digest, ⟨StatusCode.internal, []⟩⟩]

def downloadBlobsTo (client : Client σ) (host : Host σ) (files : LocalFiles σ)
    (sorting : SizeSort Digest fun d => d.sizeBytes) (digests : List Digest)
    (writeBlobFunction : Bytes → Bytes → EStateM Exn (Session ι σ) PUnit) (tempDirectory : Option Bytes)
    (throwOnError : Bool) : EStateM Exn (Session ι σ) (List DownloadResult) := do
  let requestList := sorting.sort digests
  let batches := makeBatches client.maxBatchTotalSizeBytes requestList
  let downloadResults ← batches.foldlM
    (client.downloadBatch (handOver files tempDirectory writeBlobFunction) throwOnError requestList) []
  (requestList.drop (batchesEnd batches)).foldlM (match tempDirectory with
    | none => client.downloadOne host writeBlobFunction throwOnError
    | some directory => client.downloadOneToFile files directory writeBlobFunction throwOnError) downloadResults

def noted (files : LocalFiles σ) (writeBlob : Bytes → Bytes → EStateM Exn σ PUnit) (hash argument : Bytes) :
    EStateM Exn (Session ι σ) PUnit := do
  modify fun s => { s with accesses := s.accesses ++ [.invoked hash argument (files.file s.server argument)] }
  inSession (writeBlob hash argument)

def Verified (hash : Bytes → Bytes) (tempDirectory : Option Bytes) : Access ι → Prop
  | .invoked blobHash argument file =>
    match tempDirectory with
    | none => hash argument = blobHash
    | some _ => ∃ data, file = some data ∧ hash data = blobHash
  | _ => True

def Remote (stub : Stub σ) (files : LocalFiles σ) : Prop :=
  ∀ request s, files.named (stub.read request s).2 = files.named s ∧
    files.stored (stub.read request s).2 = files.stored s

section Steps

variable {α : Type} {kept : List (Access ι) → Prop}

theorem inSession_runs {before raised : σ → Prop} {after : α → σ → Prop} {program : EStateM Exn σ α}
    (runs : Runs before program after raised) :
    Runs (fun s : Session ι σ => before s.server ∧ kept s.accesses) (inSession program)
      (fun a s => after a s.server ∧ kept s.accesses) fun s => kept s.accesses := by
  intro s start
  have ended := runs s.server start.1
  unfold inSession
  cases run : program s.server with
  | ok a server =>
    rw [run] at ended
    exact ⟨ended, start.2⟩
  | error e server => exact start.2

theorem recorded_runs (entry : Except Exn α → Exchange) (rpc : EStateM Exn σ α) {returns : α → Prop}
    (keeps : Keeps (fun _ => True) rpc returns) :
    Runs (fun s : Session ι σ => kept s.accesses) (recorded entry rpc) (fun a s => returns a ∧ kept s.accesses)
      fun s => kept s.accesses := by
  intro s start
  have returned := keeps s.server trivial
  unfold recorded
  cases run : rpc s.server with
  | ok a server =>
    rw [run] at returned
    exact ⟨returned.1, start⟩
  | error e server => exact start

theorem fetchString_runs (client : Client σ) (host : Host σ) (digest : Digest) :
    Runs (fun s : Session ι σ => kept s.accesses) (client.fetchString host digest)
      (fun data s => (makeDigest client.hash data).key = digest.key ∧ kept s.accesses) fun s => kept s.accesses :=
  recorded_runs _ _ (client.issueRequestAndThrowOnErrors_keeps (client.readString_keeps host digest) [])

variable (files : LocalFiles σ) (fd : Nat) (named : Bytes → Option Nat)

def Receiving (transfer : Transfer) (s : σ) : Prop :=
  files.named s = named ∧ files.stored s fd = transfer.digestContext.consumed

def Downloaded (hash : Bytes → Bytes) (digest : Digest) (s : σ) : Prop :=
  files.named s = named ∧ (makeDigest hash (files.stored s fd)).key = digest.key

theorem receive_runs (transfer : Transfer) (data : Bytes) :
    Runs (Receiving files fd named transfer) (receive files fd transfer data) (Receiving files fd named)
      fun _ => True := by
  have appended : Runs (Receiving files fd named transfer)
      (calling (files.write fd data) : EStateM Exn σ (Int × Nat)) (fun written s => written.1 = data.length →
        files.named s = named ∧ files.stored s fd = transfer.digestContext.consumed ++ data) fun _ => True := by
    refine .calling fun s start all => ?_
    obtain ⟨same, grown⟩ := files.appended fd data s all
    exact ⟨same.trans start.1, grown.trans (by rw [start.2])⟩
  refine appended.bind fun written => .ite (fun _ => .throw fun _ _ => trivial) fun all => ?_
  rw [ne_eq, not_not] at all
  have updated : Runs (fun s => written.1 = data.length → files.named s = named ∧
      files.stored s fd = transfer.digestContext.consumed ++ data)
      (liftExcept (transfer.digestContext.update data) : EStateM Exn σ DigestContext)
      (fun digestContext s => files.named s = named ∧ files.stored s fd = digestContext.consumed) fun _ => True := by
    refine .liftExcept (fun digestContext update s start => ?_) fun _ _ => trivial
    unfold DigestContext.update at update
    split_ifs at update
    cases update
    exact start all
  exact updated.bind fun digestContext => .pure fun _ => id

theorem readFile_runs (client : Client σ) (digest : Digest) (remote : Remote client.stub files)
    (transfer : Transfer) :
    Runs (Receiving files fd named transfer) (client.readFile files fd digest transfer)
      (fun answer s => if answer.1.ok then Downloaded files fd named client.hash digest s
        else Receiving files fd named answer.2 s) fun _ => True := by
  have read : Runs (Receiving files fd named transfer)
      (calling (client.stub.read ⟨client.makeResourceName digest false, transfer.bytesDownloaded⟩) : EStateM Exn σ _)
      (fun _ => Receiving files fd named transfer) fun _ => True := by
    refine .calling fun s start => ?_
    obtain ⟨same, unchanged⟩ := remote ⟨client.makeResourceName digest false, transfer.bytesDownloaded⟩ s
    exact ⟨same.trans start.1, (congrFun unchanged fd).trans start.2⟩
  refine read.bind fun answer => ?_
  have received := Runs.foldlM (fun transfer data (_ : data ∈ answer.1) => receive_runs files fd named transfer data)
    transfer
  refine received.bind fun transfer => .ite (fun failed => .pure fun s start => ?_) fun ok => ?_
  next =>
    rw [Bool.not_eq_true'] at failed
    simpa [failed] using start
  next =>
    have ok : answer.2.ok = true := by simpa using ok
    have looked : Runs (Receiving files fd named transfer) (calling (files.stSize fd) : EStateM Exn σ Nat)
        (fun _ => Receiving files fd named transfer) fun _ => True := .calling fun _ => id
    refine looked.bind fun stSize => .ite (fun _ => .throw fun _ _ => trivial) fun _ => ?_
    have finalized : Runs (Receiving files fd named transfer)
        (liftExcept (transfer.digestContext.finalizeDigest (makeDigest client.hash)) : EStateM Exn σ _)
        (fun answer s => files.named s = named ∧ (makeDigest client.hash (files.stored s fd)).key = answer.1.key)
        fun _ => True := by
      refine .liftExcept (fun answer finished s start => ?_) fun _ _ => trivial
      unfold DigestContext.finalizeDigest at finished
      split_ifs at finished
      cases finished
      exact ⟨start.1, by simp [start.2, makeDigest, Digest.key, transfer.digestContext.counted]⟩
    refine finalized.bind fun finished => .ite (fun _ => .throw fun _ _ => trivial) fun same => .pure fun s start => ?_
    rw [ne_eq, not_not] at same
    rw [if_pos ok]
    exact ⟨start.1, start.2.trans same⟩

theorem download_runs (client : Client σ) (digest : Digest) (remote : Remote client.stub files) :
    Runs (fun s => files.named s = named ∧ files.stored s fd = []) (client.download files fd digest)
      (fun _ => Downloaded files fd named client.hash digest) fun _ => True := by
  have issued := @issueRequestAndThrowOnErrors_runs σ Transfer client (Receiving files fd named)
    (fun _ => Downloaded files fd named client.hash digest) (fun _ => True) _
    (readFile_runs files fd named client digest remote) (fun _ _ _ => trivial) (fun _ _ _ => trivial)
    ⟨0, DigestContext.create⟩
  exact issued.bind fun _ => .pure fun _ => id

end Steps

section Runs

def Added (good : Access ι → Prop) (before accesses : List (Access ι)) : Prop :=
  ∃ more, accesses = before ++ more ∧ ∀ access ∈ more, good access

theorem Added.snoc {good : Access ι → Prop} {before accesses : List (Access ι)} (added : Added good before accesses)
    {access : Access ι} (correct : good access) : Added good before (accesses ++ [access]) := by
  obtain ⟨more, rfl, others⟩ := added
  refine ⟨more ++ [access], List.append_assoc _ _ _, fun entry member => ?_⟩
  rcases List.mem_append.mp member with old | new
  next => exact others entry old
  next => exact List.mem_singleton.mp new ▸ correct

variable (client : Client σ) (host : Host σ) (files : LocalFiles σ)
  (writeBlob : Bytes → Bytes → EStateM Exn σ PUnit) (tempDirectory : Option Bytes) (start : List (Access ι))

def Sound (s : Session ι σ) : Prop := Added (Verified client.hash tempDirectory) start s.accesses

theorem noted_runs (hash argument : Bytes) {before : Session ι σ → Prop}
    (sound : ∀ s, before s → Sound client tempDirectory start s ∧
      Verified (ι := ι) client.hash tempDirectory (.invoked hash argument (files.file s.server argument))) :
    Runs before (noted files writeBlob hash argument) (fun _ => Sound client tempDirectory start)
      (Sound client tempDirectory start) := by
  have recorded : Runs before (modify fun s => { s with
      accesses := s.accesses ++ [.invoked hash argument (files.file s.server argument)] } :
        EStateM Exn (Session ι σ) Unit)
      (fun _ => Sound client tempDirectory start) (Sound client tempDirectory start) :=
    fun s held => (sound s held).1.snoc (sound s held).2
  refine recorded.bind fun _ => ?_
  have anything : Runs (fun _ : σ => True) (writeBlob hash argument) (fun _ _ => True) fun _ => True := by
    intro s _
    cases writeBlob hash argument s <;> trivial
  exact (inSession_runs anything).mono (fun _ held => ⟨trivial, held⟩) fun _ _ => And.right

theorem handOver_runs (data : Bytes) {hash : Bytes} (correct : client.hash data = hash) :
    Runs (Sound client tempDirectory start) (handOver files tempDirectory (noted files writeBlob) hash data)
      (fun _ => Sound client tempDirectory start) (Sound client tempDirectory start) := by
  unfold handOver
  cases tempDirectory with
  | none => exact noted_runs client files writeBlob none start hash data fun s held => ⟨held, correct⟩
  | some directory =>
    have written : Runs (fun _ => True)
        (calling (files.overwrite (cString (directory ++ text "/" ++ hash)) data) : EStateM Exn σ (Except Nat Unit))
        (fun answer s => answer = .ok () → files.file s (directory ++ text "/" ++ hash) = some data)
        fun _ => True := by
      refine .calling fun s _ stored => ?_
      obtain ⟨fd, named, contents⟩ := files.overwritten _ data s stored
      rw [LocalFiles.file, named, Option.map_some, contents]
    refine Runs.bind ((inSession_runs written).mono (fun _ held => ⟨trivial, held⟩) fun _ _ => id) fun answer => ?_
    cases answer with
    | error errno => exact .throw fun _ held => held.2
    | ok stored => exact noted_runs client files writeBlob _ start hash _ fun s held =>
        ⟨held.2, data, held.1 rfl, correct⟩

theorem takeResponse_runs (response : ReadBlob) :
    Runs (Sound client tempDirectory start)
      (client.takeResponse (handOver files tempDirectory (noted files writeBlob)) response)
      (fun _ => Sound client tempDirectory start) (Sound client tempDirectory start) := by
  unfold takeResponse
  refine .ite (fun _ => .pure fun _ => id) fun _ => .ite (fun _ => .pure fun _ => id) fun same => ?_
  rw [ne_eq, not_not] at same
  exact (handOver_runs client files writeBlob tempDirectory start response.data (congrArg Prod.fst same)).bind
    fun _ => .pure fun _ => id

theorem downloadBatch_runs (throwOnError : Bool) (requestList : List Digest) (downloadResults : List DownloadResult)
    (batchRange : Nat × Nat) :
    Runs (Sound client tempDirectory start)
      (client.downloadBatch (handOver files tempDirectory (noted files writeBlob)) throwOnError requestList
        downloadResults batchRange)
      (fun _ => Sound client tempDirectory start) (Sound client tempDirectory start) := by
  unfold downloadBatch batchDownload
  refine Runs.catching ?_ fun e => .ite (fun _ => .throw fun _ => id) fun _ => .pure fun _ => id
  have answered : Runs (Sound client tempDirectory start) (recorded (.batchReadBlobs (slice requestList batchRange))
      (client.issueRequestAndThrowOnErrors (unary (client.stub.batchReadBlobs (slice requestList batchRange))) []))
      (fun _ => Sound client tempDirectory start) (Sound client tempDirectory start) :=
    (recorded_runs _ _ (Keeps.trivial _)).mono (fun _ => id) fun _ _ => And.right
  refine (answered.bind fun responses => ?_).bind fun _ => .pure fun _ => id
  exact .mapM fun response _ => takeResponse_runs client files writeBlob tempDirectory start response

theorem handled_runs {handler : Exn → EStateM Exn (Session ι σ) (List DownloadResult)}
    (either : ∀ e, (∃ what, handler e = throw (.runtimeError what)) ∨ ∃ results, handler e = pure results) (e : Exn) :
    Runs (Sound client tempDirectory start) (handler e) (fun _ => Sound client tempDirectory start)
      (Sound client tempDirectory start) := by
  rcases either e with ⟨what, thrown⟩ | ⟨results, returned⟩
  next => exact thrown ▸ .throw fun _ => id
  next => exact returned ▸ .pure fun _ => id

theorem downloadOne_runs (throwOnError : Bool) (downloadResults : List DownloadResult) (digest : Digest) :
    Runs (Sound client none start)
      (client.downloadOne host (noted files writeBlob) throwOnError downloadResults digest)
      (fun _ => Sound client none start) (Sound client none start) := by
  unfold downloadOne
  refine Runs.catching ?_ (handled_runs client none start fun e => ?_)
  next =>
    refine (fetchString_runs client host digest).bind fun data => ?_
    exact (noted_runs client files writeBlob none start digest.hashOther data
      fun s held => ⟨held.2, show client.hash data = digest.hashOther from congrArg Prod.fst held.1⟩).bind fun _ =>
        .pure fun _ => id
  next => cases e <;> cases throwOnError <;> first | exact .inl ⟨_, rfl⟩ | exact .inr ⟨_, rfl⟩

theorem downloadOneToFile_runs (directory : Bytes) (throwOnError : Bool) (downloadResults : List DownloadResult)
    (digest : Digest) (remote : Remote client.stub files) :
    Runs (Sound client (some directory) start)
      (client.downloadOneToFile files directory (noted files writeBlob) throwOnError downloadResults digest)
      (fun _ => Sound client (some directory) start) (Sound client (some directory) start) := by
  unfold downloadOneToFile
  refine Runs.catching ?_ (handled_runs client (some directory) start fun e => ?_)
  next =>
    have opened : Runs (fun _ => True)
        (calling (files.openTruncated (cString (directory ++ text "/" ++ digest.hashOther))) :
          EStateM Exn σ (Except Nat Nat))
        (fun answer s => ∀ fd, answer = .ok fd →
          files.named s (cString (directory ++ text "/" ++ digest.hashOther)) = some fd ∧ files.stored s fd = [])
        fun _ => True := .calling fun s _ fd opened => files.opened _ s fd opened
    refine Runs.bind ((inSession_runs opened).mono (fun _ held => ⟨trivial, held⟩) fun _ _ => id) fun answer => ?_
    cases answer with
    | error errno => exact .throw fun _ held => held.2
    | ok fd =>
      intro s held
      obtain ⟨named, empty⟩ := held.1 fd rfl
      have downloaded := @inSession_runs ι σ Unit (Added (Verified client.hash (some directory)) start) _ _ _ _
        (download_runs files fd (files.named s.server) client digest remote)
      refine (downloaded.bind fun _ => ?_) s ⟨⟨rfl, empty⟩, held.2⟩
      refine (noted_runs client files writeBlob (some directory) start digest.hashOther _ fun s' held' =>
        ⟨held'.2, files.stored s'.server fd, ?_, congrArg Prod.fst held'.1.2⟩).bind fun _ => .pure fun _ => id
      rw [LocalFiles.file, held'.1.1, named, Option.map_some]
  next => cases e <;> cases throwOnError <;> first | exact .inl ⟨_, rfl⟩ | exact .inr ⟨_, rfl⟩

theorem downloadBlobsTo_runs (sorting : SizeSort Digest fun d => d.sizeBytes) (digests : List Digest)
    (throwOnError : Bool) (remote : Remote client.stub files) :
    Runs (Sound client tempDirectory start)
      (client.downloadBlobsTo host files sorting digests (noted files writeBlob) tempDirectory throwOnError)
      (fun _ => Sound client tempDirectory start) (Sound client tempDirectory start) := by
  unfold downloadBlobsTo
  have batched := Runs.foldlM (fun downloadResults batchRange (_ : batchRange ∈ makeBatches
    client.maxBatchTotalSizeBytes (sorting.sort digests)) => downloadBatch_runs client files writeBlob tempDirectory
      start throwOnError (sorting.sort digests) downloadResults batchRange) []
  refine batched.bind fun downloadResults => ?_
  cases tempDirectory with
  | none =>
    exact .foldlM (fun downloadResults digest _ =>
      downloadOne_runs client host files writeBlob start throwOnError downloadResults digest) downloadResults
  | some directory =>
    exact .foldlM (fun downloadResults digest _ =>
      downloadOneToFile_runs client files writeBlob start directory throwOnError downloadResults digest remote)
        downloadResults

end Runs

structure DownloadsVerified (ι : Type) (client : Client σ) (host : Host σ) (files : LocalFiles σ)
    (sorting : SizeSort Digest fun d => d.sizeBytes) : Prop where
  invoked : ∀ digests writeBlob tempDirectory throwOnError, ∀ s : Session ι σ,
    Added (Verified client.hash tempDirectory) s.accesses (exitState (client.downloadBlobsTo host files sorting digests
      (noted files writeBlob) tempDirectory throwOnError s)).accesses
  fetched : ∀ digest data, ∀ s s' : Session ι σ, client.fetchString host digest s = .ok data s' →
    client.hash data = digest.hashOther ∧ data.length = digest.sizeBytes
  downloaded : ∀ digest fd s s', files.stored s fd = [] → client.download files fd digest s = .ok () s' →
    client.hash (files.stored s' fd) = digest.hashOther ∧ (files.stored s' fd).length = digest.sizeBytes

theorem downloads_verified (ι : Type) (client : Client σ) (host : Host σ) (files : LocalFiles σ)
    (sorting : SizeSort Digest fun d => d.sizeBytes) (remote : Remote client.stub files) :
    DownloadsVerified ι client host files sorting := by
  refine ⟨fun digests writeBlob tempDirectory throwOnError s => ?_, fun digest data s s' run => ?_,
    fun digest fd s s' empty run => ?_⟩
  next =>
    have ended := downloadBlobsTo_runs client host files writeBlob tempDirectory s.accesses sorting digests
      throwOnError remote s ⟨[], (List.append_nil _).symm, by simp⟩
    cases run : client.downloadBlobsTo host files sorting digests (noted files writeBlob) tempDirectory throwOnError
      s with
    | ok results s' =>
      rw [run] at ended
      exact ended
    | error e s' =>
      rw [run] at ended
      exact ended
  next =>
    have ended := @fetchString_runs ι σ (fun _ => True) client host digest s trivial
    rw [run] at ended
    exact Prod.mk.inj ended.1
  next =>
    have ended := download_runs files fd (files.named s) client digest remote s ⟨rfl, empty⟩
    rw [run] at ended
    exact Prod.mk.inj ended.2

structure SampleDisk where
  names : Bytes → Option Nat
  stored : Nat → Bytes
  next : Nat

def SampleDisk.create (path data : Bytes) (disk : SampleDisk) : Nat × SampleDisk :=
  let fd := (disk.names path).getD disk.next
  (fd, ⟨Function.update disk.names path (some fd), Function.update disk.stored fd data, disk.next + 1⟩)

def sampleFiles : LocalFiles SampleDisk where
  named disk := disk.names
  stored disk := disk.stored
  openTruncated path disk := (.ok (disk.create path []).1, (disk.create path []).2)
  write fd data disk :=
    ((data.length, 0), { disk with stored := Function.update disk.stored fd (disk.stored fd ++ data) })
  overwrite path data disk := (.ok (), (disk.create path data).2)
  opened path disk fd opened := by
    cases opened
    simp [SampleDisk.create]
  appended fd data disk _ := by simp
  overwritten path data disk _ := by simp [SampleDisk.create]

def blobStub : Stub SampleDisk where
  findMissingBlobs _ := pure (⟨StatusCode.ok, []⟩, [])
  batchUpdateBlobs _ := pure (⟨StatusCode.internal, []⟩, [])
  batchReadBlobs asked := pure (⟨StatusCode.ok, []⟩, asked.map fun digest =>
    ⟨digest, text "a", ⟨StatusCode.ok, []⟩⟩)
  openWriter := pure ()
  write _ := pure false
  finishWrite := pure (⟨StatusCode.internal, []⟩, 0)
  read request := pure ([(text "a").drop request.readOffset], ⟨StatusCode.ok, []⟩)

def blobClient : Client SampleDisk where
  stub := blobStub
  hash data := hashToHex (sampleLibrary .sha256 data)
  instanceName := []
  uuid := text "uuid"
  maxBatchTotalSizeBytes := 1024
  grpcRetryLimit := 1

def diskHost : Host SampleDisk where
  mkstemp name := pure (.ok name)
  fchmod _ _ := pure (.ok ())
  overwrite path data := sampleFiles.overwrite path data
  rename _ _ := pure (.ok ())
  unlink _ := pure (.ok ())
  mkdir _ _ := pure (.ok ())
  symlink _ _ := pure (.ok ())
  stringCapacity := 2 ^ 63 - 1

theorem downloads_verified_blob : DownloadsVerified Bool blobClient diskHost sampleFiles (SizeSort.stable _ _) :=
  downloads_verified Bool blobClient diskHost sampleFiles (SizeSort.stable _ _) fun _ _ => ⟨rfl, rfl⟩

end Client

end BuildboxCommon
