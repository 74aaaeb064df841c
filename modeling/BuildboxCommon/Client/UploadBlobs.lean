import BuildboxCommon.Client.MakeBatches
import BuildboxCommon.Client.Upload
import Mathlib.Data.List.Sort

set_option autoImplicit false

namespace BuildboxCommon

open ByteString Effect Posix Ranges

variable {ι σ : Type}

-- `std::sort` with a comparison of sizes: elements of one size may come out in any order.
structure SizeSort (β : Type) (size : β → Int) where
  sort : List β → List β
  perm : ∀ xs, (sort xs).Perm xs
  sorted : ∀ xs, (sort xs).Pairwise fun a b => size a ≤ size b

def SizeSort.stable (β : Type) (size : β → Int) : SizeSort β size where
  sort xs := xs.insertionSort fun a b => size a ≤ size b
  perm xs := List.perm_insertionSort _ xs
  sorted xs :=
    have : Std.Total fun a b => size a ≤ size b := ⟨fun a b => le_total (size a) (size b)⟩
    have : IsTrans β fun a b => size a ≤ size b := ⟨fun _ _ _ => le_trans⟩
    List.pairwise_insertionSort _ xs

namespace Client

def failedStatus (thrown : Exn) : Status := ⟨StatusCode.internal, thrown.what⟩

def uploadBatch (client : Client σ) (fs : FileSystem ι) (throwOnError : Bool) (requestList : List UploadRequest)
    (results : List UploadResult) (batchRange : Nat × Nat) : EStateM Exn (Session ι σ) (List UploadResult) :=
  catching Exn.isRuntimeError (do
    let digestsNotUploaded ← client.batchUpload fs (slice requestList batchRange)
    return results ++ digestsNotUploaded) fun e =>
      if throwOnError then throw (.runtimeError e.what)
      else return results ++ (slice requestList batchRange).map fun request => ⟨request.digest, failedStatus e⟩

def uploadOne (client : Client σ) (fs : FileSystem ι) (throwOnError : Bool) (results : List UploadResult)
    (request : UploadRequest) : EStateM Exn (Session ι σ) (List UploadResult) :=
  catching Exn.isRuntimeError (do
    client.uploadRequest fs request
    return results) fun e =>
      match e with
      | .grpcError status =>
        if throwOnError then throw (.runtimeError (text "Failed to upload blob: " ++ status.message))
        else return results ++ [⟨request.digest, status⟩]
      | e =>
        if throwOnError then throw (.runtimeError e.what)
        else return results ++ [⟨request.digest, failedStatus e⟩]

def uploadBlobs (client : Client σ) (fs : FileSystem ι) (sorting : SizeSort UploadRequest fun r => r.digest.sizeBytes)
    (requests : List UploadRequest) (throwOnError : Bool) : EStateM Exn (Session ι σ) (List UploadResult) := do
  let requestList := sorting.sort requests
  let batches := makeBatches client.maxBatchTotalSizeBytes (requestList.map UploadRequest.digest)
  let results ← batches.foldlM (client.uploadBatch fs throwOnError requestList) []
  (requestList.drop (batchesEnd batches)).foldlM (client.uploadOne fs throwOnError) results

end Client

namespace Exchange

open Client

def sent : Exchange → List (Digest × Bytes)
  | .batchUpdateBlobs blobs _ => blobs
  | .write digest contents _ => [(digest, contents)]
  | .findMissingBlobs _ _ | .batchReadBlobs _ _ | .read _ _ => []

def errorStatus : Exn → Status
  | .grpcError status => status
  | e => failedStatus e

def outcomes : Exchange → List (Digest × Option Status)
  | .batchUpdateBlobs blobs (.error e) => blobs.map fun blob => (blob.1, some (failedStatus e))
  | .batchUpdateBlobs _ (.ok responses) => responses.map fun response =>
    (response.digest, if response.status.code ≠ StatusCode.ok then some response.status else none)
  | .write digest _ (.error e) => [(digest, some (errorStatus e))]
  | .write digest _ (.ok ()) => [(digest, none)]
  | .findMissingBlobs _ _ | .batchReadBlobs _ _ | .read _ _ => []

end Exchange

namespace Client

def failureOf (outcome : Digest × Option Status) : Option UploadResult :=
  outcome.2.map fun status => ⟨outcome.1, status⟩

def failures (exchanges : List Exchange) : List UploadResult :=
  (exchanges.flatMap Exchange.outcomes).filterMap failureOf

def contentsOf (fs : FileSystem ι) (request : UploadRequest) : Option Bytes :=
  if request.path = [] then some request.data
  else
    match fs.openat fs.currentDirectory request.path ⟨false, false⟩ with
    | .error _ => none
    | .ok fd => (fs.read fd).toOption

def Uploadable (fs : FileSystem ι) (request : UploadRequest) : Prop :=
  ∃ contents, contentsOf fs request = some contents ∧ contents.length = request.digest.sizeBytes

def Readable (fs : FileSystem ι) (request : UploadRequest) : Prop := ∃ contents, contentsOf fs request = some contents

theorem Uploadable.readable {fs : FileSystem ι} {request : UploadRequest} (uploadable : Uploadable fs request) :
    Readable fs request :=
  uploadable.imp fun _ found => found.1

def blobToSend (fs : FileSystem ι) (request : UploadRequest) : Digest × Bytes :=
  (request.digest, (contentsOf fs request).getD [])

def Sends (program : List UploadResult → EStateM Exn (Session ι σ) (List UploadResult))
    (blobs : List (Digest × Bytes)) : Prop :=
  ∀ results s, ∃ exchanges s', program results s = .ok (results ++ failures exchanges) s' ∧
    s'.exchanges = s.exchanges ++ exchanges ∧ exchanges.flatMap Exchange.sent = blobs

theorem failures_append (first second : List Exchange) :
    failures (first ++ second) = failures first ++ failures second := by
  simp [failures]

theorem Sends.andThen {first second : List UploadResult → EStateM Exn (Session ι σ) (List UploadResult)}
    {blobs others : List (Digest × Bytes)} (left : Sends first blobs) (right : Sends second others) :
    Sends (fun results => first results >>= second) (blobs ++ others) := by
  intro results s
  obtain ⟨exchanges, between, run, logged, sent⟩ := left results s
  obtain ⟨more, s', run', logged', sent'⟩ := right (results ++ failures exchanges) between
  refine ⟨exchanges ++ more, s', ?_, ?_, ?_⟩
  next => exact (bind_ok second run).trans (by rw [run', failures_append, List.append_assoc])
  next => rw [logged', logged, List.append_assoc]
  next => rw [List.flatMap_append, sent, sent']

theorem Sends.foldlM {β : Type} {xs : List β}
    {step : List UploadResult → β → EStateM Exn (Session ι σ) (List UploadResult)}
    {blobs : β → List (Digest × Bytes)} (each : ∀ x ∈ xs, Sends (fun results => step results x) (blobs x)) :
    Sends (fun results => xs.foldlM step results) (xs.flatMap blobs) := by
  induction xs with
  | nil => exact fun results s => ⟨[], s, by simp [failures], by simp, rfl⟩
  | cons x xs ih =>
    have later := ih fun y member => each y (by simp [member])
    exact (each x (by simp)).andThen later

theorem recorded_ends {α : Type} (entry : Except Exn α → Exchange) {rpc : EStateM Exn σ α}
    (raises : RaisesOnly (Exn.isRuntimeError ·) rpc) (s : Session ι σ) :
    ∃ s', (∃ a, recorded entry rpc s = .ok a s' ∧ s'.exchanges = s.exchanges ++ [entry (.ok a)]) ∨
      ∃ e, recorded entry rpc s = .error e s' ∧ e.isRuntimeError = true ∧
        s'.exchanges = s.exchanges ++ [entry (.error e)] := by
  unfold recorded
  cases ended : rpc s.server with
  | ok a server => exact ⟨_, .inl ⟨a, rfl, rfl⟩⟩
  | error e server => exact ⟨_, .inr ⟨e, rfl, raises _ _ _ ended, rfl⟩⟩

variable {client : Client σ} {fs : FileSystem ι}

theorem contentsOf_file {request : UploadRequest} {contents : Bytes} (elsewhere : ¬request.path = [])
    (found : contentsOf fs request = some contents) :
    ∃ fd, fs.openat fs.currentDirectory request.path ⟨false, false⟩ = .ok fd ∧ fs.read fd = .ok contents := by
  rw [contentsOf, if_neg elsewhere] at found
  cases opened : fs.openat fs.currentDirectory request.path ⟨false, false⟩ with
  | error errno => simp [opened] at found
  | ok fd =>
    cases readable : fs.read fd with
    | error errno => simp [opened, readable, Except.toOption] at found
    | ok data =>
      simp only [opened, readable, Except.toOption, Option.some.injEq] at found
      exact ⟨fd, rfl, readable.trans (congrArg _ found)⟩

theorem blobOf_ok {request : UploadRequest} (readable : Readable fs request) (s : Session ι σ) :
    ∃ s', blobOf fs request s = .ok (blobToSend fs request) s' ∧ s'.exchanges = s.exchanges := by
  obtain ⟨contents, found⟩ := readable
  unfold blobOf blobToSend
  rw [found]
  by_cases inline : request.path = []
  next =>
    rw [contentsOf, if_pos inline] at found
    obtain rfl := Option.some.inj found
    rw [if_pos inline]
    exact ⟨s, rfl, rfl⟩
  next =>
    obtain ⟨fd, opened, read⟩ := contentsOf_file inline found
    rw [if_neg inline]
    exact ⟨_, bind_ok _ (FileUtils.getFileContents_ok opened read s), rfl⟩

theorem mapM_blobOf_ok {requests : List UploadRequest} (readable : ∀ request ∈ requests, Readable fs request)
    (s : Session ι σ) : ∃ s', requests.mapM (blobOf fs) s = .ok (requests.map (blobToSend fs)) s' ∧
      s'.exchanges = s.exchanges := by
  induction requests generalizing s with
  | nil => exact ⟨s, by simp, rfl⟩
  | cons request requests ih =>
    obtain ⟨between, first, same⟩ := blobOf_ok (readable request (by simp)) s
    obtain ⟨s', others, unchanged⟩ := ih (fun other member => readable other (by simp [member])) between
    refine ⟨s', ?_, unchanged.trans same⟩
    rw [List.mapM_cons, bind_ok _ first, bind_ok _ others]
    rfl

theorem failures_updated (blobs : List (Digest × Bytes)) (responses : List UpdatedBlob) :
    failures [.batchUpdateBlobs blobs (.ok responses)] = responses.filterMap notUpdated := by
  rw [failures, List.flatMap_singleton, Exchange.outcomes, List.filterMap_map]
  congr 1
  funext response
  simp only [notUpdated, failureOf, Function.comp_apply]
  split <;> rfl

theorem uploadBatch_sends {requestList : List UploadRequest} (batchRange : Nat × Nat)
    (readable : ∀ request ∈ requestList, Readable fs request) :
    Sends (fun results => client.uploadBatch fs false requestList results batchRange)
      ((slice requestList batchRange).map (blobToSend fs)) := by
  intro results s
  have within : ∀ request ∈ slice requestList batchRange, Readable fs request := fun request member =>
    readable request (List.mem_of_mem_drop (List.mem_of_mem_take member))
  obtain ⟨between, blobs, unchanged⟩ := mapM_blobOf_ok within s
  obtain ⟨s', ended⟩ := recorded_ends (.batchUpdateBlobs ((slice requestList batchRange).map (blobToSend fs)))
    (unary_raises client (client.stub.batchUpdateBlobs _) []) between
  rcases ended with ⟨responses, run, logged⟩ | ⟨e, run, runtime, logged⟩
  next =>
    have uploaded : client.batchUpload fs (slice requestList batchRange) s =
        .ok (responses.filterMap notUpdated) s' := by
      rw [batchUpload, bind_ok _ blobs, bind_ok _ run]
      rfl
    have returned : client.uploadBatch fs false requestList results batchRange s =
        .ok (results ++ responses.filterMap notUpdated) s' := catching_ok _ _ (bind_ok _ uploaded)
    refine ⟨[_], s', returned.trans ?_, unchanged ▸ logged, by simp [Exchange.sent]⟩
    rw [failures_updated]
  next =>
    have failed : client.batchUpload fs (slice requestList batchRange) s = .error e s' := by
      rw [batchUpload, bind_ok _ blobs, bind_error _ run]
    refine ⟨[_], s', (catching_error _ (bind_error _ failed) runtime).trans ?_, unchanged ▸ logged,
      by simp [Exchange.sent]⟩
    simp [failures, Exchange.outcomes, List.filterMap_map, Function.comp_def, failureOf, blobToSend]

theorem uploadOne_failed {request : UploadRequest} {e : Exn} {s s' : Session ι σ}
    (failed : client.uploadRequest fs request s = .error e s') (runtime : e.isRuntimeError = true)
    (results : List UploadResult) : client.uploadOne fs false results request s =
      .ok (results ++ [⟨request.digest, Exchange.errorStatus e⟩]) s' := by
  refine (catching_error _ (bind_error _ failed) runtime).trans ?_
  cases e <;> rfl

theorem uploadRequest_ends {request : UploadRequest} (uploadable : Uploadable fs request) (s : Session ι σ) :
    ∃ s' contents, blobToSend fs request = (request.digest, contents) ∧
      ((client.uploadRequest fs request s = .ok () s' ∧
        s'.exchanges = s.exchanges ++ [.write request.digest contents (.ok ())]) ∨
      ∃ e, client.uploadRequest fs request s = .error e s' ∧ e.isRuntimeError = true ∧
        s'.exchanges = s.exchanges ++ [.write request.digest contents (.error e)]) := by
  obtain ⟨contents, found, size⟩ := uploadable
  have blob : blobToSend fs request = (request.digest, contents) := by rw [blobToSend, found, Option.getD_some]
  by_cases inline : request.path = []
  next =>
    rw [contentsOf, if_pos inline] at found
    obtain rfl := Option.some.inj found
    have run : client.uploadRequest fs request s =
        recorded (.write request.digest request.data) (client.writeString request.data request.digest) s := by
      rw [uploadRequest, if_pos inline, uploadString, if_neg (not_not.mpr size)]
    obtain ⟨s', ended⟩ := recorded_ends (.write request.digest request.data)
      (client.writeString_raises request.data request.digest) s
    exact ⟨s', _, blob, ended.imp (fun ⟨_, ended, logged⟩ => ⟨run.trans ended, logged⟩)
      fun ⟨e, ended, runtime, logged⟩ => ⟨e, run.trans ended, runtime, logged⟩⟩
  next =>
    obtain ⟨fd, opened, read⟩ := contentsOf_file inline found
    have run : client.uploadRequest fs request s =
        recorded (.write request.digest contents) (client.writeDescriptor contents request.digest)
          { s with accesses := s.accesses ++ [.sent fd] } := by
      simp only [uploadRequest, inline, if_false, opened, uploadDescriptor]
      rw [bind_ok _ (rfl : recordAccess (.sent fd) s = .ok _ _)]
      simp only [read]
    obtain ⟨s', ended⟩ := recorded_ends (.write request.digest contents)
      (client.writeDescriptor_raises contents request.digest) { s with accesses := s.accesses ++ [.sent fd] }
    exact ⟨s', _, blob, ended.imp (fun ⟨_, ended, logged⟩ => ⟨run.trans ended, logged⟩)
      fun ⟨e, ended, runtime, logged⟩ => ⟨e, run.trans ended, runtime, logged⟩⟩

theorem uploadOne_sends {request : UploadRequest} (uploadable : Uploadable fs request) :
    Sends (fun results => client.uploadOne fs false results request) [blobToSend fs request] := by
  intro results s
  obtain ⟨s', contents, blob, ended⟩ := @uploadRequest_ends ι σ client fs request uploadable s
  rcases ended with ⟨run, logged⟩ | ⟨e, run, runtime, logged⟩
  next =>
    have returned : client.uploadOne fs false results request s = .ok results s' :=
      catching_ok _ _ (bind_ok _ run)
    refine ⟨[_], s', returned.trans ?_, logged, by simp [Exchange.sent, blob]⟩
    simp [failures, Exchange.outcomes, failureOf]
  next =>
    refine ⟨[_], s', (uploadOne_failed run runtime results).trans ?_, logged, by simp [Exchange.sent, blob]⟩
    simp [failures, Exchange.outcomes, failureOf]

variable (client) (sorting : SizeSort UploadRequest fun r => r.digest.sizeBytes)

theorem uploadBlobs_sends {requests : List UploadRequest} (readable : ∀ request ∈ requests, Readable fs request)
    (streamable : ∀ request ∈ (sorting.sort requests).drop (batchesEnd (makeBatches client.maxBatchTotalSizeBytes
      ((sorting.sort requests).map UploadRequest.digest))), Uploadable fs request) (s : Session ι σ) :
    ∃ exchanges s', client.uploadBlobs fs sorting requests false s = .ok (failures exchanges) s' ∧
      s'.exchanges = s.exchanges ++ exchanges ∧
      exchanges.flatMap Exchange.sent = (sorting.sort requests).map (blobToSend fs) := by
  have sorted : ∀ request ∈ sorting.sort requests, Readable fs request :=
    fun request member => readable request ((sorting.perm requests).mem_iff.mp member)
  have contiguous := makeBatches_contiguous client.maxBatchTotalSizeBytes
    ((sorting.sort requests).map UploadRequest.digest)
  generalize planned : makeBatches client.maxBatchTotalSizeBytes
    ((sorting.sort requests).map UploadRequest.digest) = batches at contiguous streamable
  have batched := Sends.foldlM fun batchRange (_ : batchRange ∈ batches) =>
    @uploadBatch_sends ι σ client fs _ batchRange sorted
  have streamed := Sends.foldlM fun request
      (member : request ∈ (sorting.sort requests).drop (batchesEnd batches)) =>
    @uploadOne_sends ι σ client fs request (streamable request member)
  obtain ⟨exchanges, s', run, logged, sent⟩ := batched.andThen streamed [] s
  refine ⟨exchanges, s', ?_, logged, sent.trans ?_⟩
  next =>
    rw [uploadBlobs, planned]
    exact run
  next =>
    have whole := contiguous.flatMap_slice (sorting.sort requests)
    rw [List.drop_zero] at whole
    rw [← List.map_flatMap, ← List.map_eq_flatMap, ← List.map_append, whole]

def asked : Exchange → List Digest
  | .findMissingBlobs asked (.ok _) => asked
  | _ => []

def reported : Exchange → List Digest
  | .findMissingBlobs _ (.ok missing) => missing
  | _ => []

section Inline

variable {inv : Session ι σ → Prop}
  (kept : ∀ s server exchange, asked exchange = [] → reported exchange = [] → inv s →
    inv { s with server := server, exchanges := s.exchanges ++ [exchange] })

include kept

theorem recorded_invariant {α : Type} {entry : Except Exn α → Exchange} (uploads : ∀ answer, asked (entry answer) = [])
    (nothing : ∀ answer, reported (entry answer) = []) (rpc : EStateM Exn σ α) :
    Runs inv (recorded entry rpc : EStateM Exn (Session ι σ) α) (fun _ => inv) inv := by
  intro s start
  unfold recorded
  cases rpc s.server with
  | ok a server => exact kept s server _ (uploads _) (nothing _) start
  | error e server => exact kept s server _ (uploads _) (nothing _) start

theorem uploadString_runs (data : Bytes) (digest : Digest) :
    Runs inv (client.uploadString data digest) (fun _ => inv) inv :=
  .ite (fun _ => .throw fun _ => id) fun _ => recorded_invariant kept (fun _ => rfl) (fun _ => rfl) _

theorem uploadRequest_runs {request : UploadRequest} (inline : request.path = []) :
    Runs inv (client.uploadRequest fs request) (fun _ => inv) inv := by
  rw [uploadRequest, if_pos inline]
  exact uploadString_runs client kept _ _

theorem batchUpload_runs {requests : List UploadRequest} (inline : ∀ request ∈ requests, request.path = []) :
    Runs inv (client.batchUpload fs requests) (fun _ => inv) inv := by
  have blobs : Runs inv (requests.mapM (blobOf fs)) (fun _ => inv) inv := by
    refine .mapM fun request member => ?_
    rw [blobOf, if_pos (inline request member)]
    exact .pure fun _ => id
  refine blobs.bind fun blobs => ?_
  exact (recorded_invariant kept (fun _ => rfl) (fun _ => rfl) _).bind fun _ => .pure fun _ => id

theorem uploadBlobs_runs {requests : List UploadRequest} (inline : ∀ request ∈ requests, request.path = [])
    (throwOnError : Bool) : Runs inv (client.uploadBlobs fs sorting requests throwOnError) (fun _ => inv) inv := by
  have sorted : ∀ request ∈ sorting.sort requests, request.path = [] :=
    fun request member => inline request ((sorting.perm requests).mem_iff.mp member)
  have batch (results : List UploadResult) (range : Nat × Nat) :
      Runs inv (client.uploadBatch fs throwOnError (sorting.sort requests) results range) (fun _ => inv) inv := by
    refine .catching ?_ fun e => .ite (fun _ => .throw fun _ => id) fun _ => .pure fun _ => id
    refine (batchUpload_runs client kept fun request member => ?_).bind fun _ => .pure fun _ => id
    exact sorted request (List.mem_of_mem_drop (List.mem_of_mem_take member))
  have one (results : List UploadResult) {request : UploadRequest} (member : request ∈ sorting.sort requests) :
      Runs inv (client.uploadOne fs throwOnError results request) (fun _ => inv) inv := by
    refine .catching ((uploadRequest_runs client kept (sorted request member)).bind fun _ => .pure fun _ => id)
      fun e => ?_
    cases e <;> exact .ite (fun _ => .throw fun _ => id) fun _ => .pure fun _ => id
  exact Runs.bind (.foldlM (fun results range _ => batch results range) [])
    (.foldlM fun results request member => one results (List.mem_of_mem_drop member))

omit kept in
theorem uploadOne_ok {request : UploadRequest} {throwOnError : Bool} {before results : List UploadResult}
    {s s' : Session ι σ} (inline : request.path = [])
    (run : client.uploadOne fs throwOnError before request s = .ok results s') : Uploadable fs request := by
  refine ⟨request.data, if_pos inline, ?_⟩
  by_contra size
  rw [uploadOne, catching, uploadRequest, if_pos inline, uploadString, if_pos size] at run
  cases run

omit kept in
theorem uploadBlobs_inline {requests : List UploadRequest} (inline : ∀ request ∈ requests, request.path = [])
    {results : List UploadResult} {s s' : Session ι σ}
    (run : client.uploadBlobs fs sorting requests false s = .ok results s') :
    ∃ exchanges, s'.exchanges = s.exchanges ++ exchanges ∧ exchanges.flatMap asked = [] ∧
      exchanges.flatMap reported = [] ∧
      ((exchanges.flatMap Exchange.sent).map Prod.fst).Perm (requests.map UploadRequest.digest) := by
  have streamable : ∀ request ∈ (sorting.sort requests).drop (batchesEnd (makeBatches client.maxBatchTotalSizeBytes
      ((sorting.sort requests).map UploadRequest.digest))), Uploadable fs request := by
    intro request member
    obtain ⟨batched, between, -, streamed⟩ := of_bind_ok run
    obtain ⟨before, s₀, after, s₁, one⟩ := of_foldlM_ok streamed request member
    exact client.uploadOne_ok (inline request ((sorting.perm requests).mem_iff.mp (List.mem_of_mem_drop member))) one
  obtain ⟨exchanges, ended, sends, logged, sent⟩ := uploadBlobs_sends client sorting
    (fun request member => ⟨request.data, if_pos (inline request member)⟩) streamable s
  rw [sends] at run
  cases run
  have uploads := @uploadBlobs_runs ι σ client fs sorting (fun s' => ∃ exchanges,
    s'.exchanges = s.exchanges ++ exchanges ∧ exchanges.flatMap asked = [] ∧ exchanges.flatMap reported = [])
    (fun s' server exchange unasked unreported ⟨exchanges, logged, quiet, nothing⟩ =>
      ⟨exchanges ++ [exchange], by simp [logged], by simp [quiet, unasked], by simp [nothing, unreported]⟩)
    requests inline false s ⟨[], by simp, rfl, rfl⟩
  rw [sends] at uploads
  obtain ⟨others, logged', quiet, nothing⟩ := uploads
  obtain rfl := List.append_cancel_left (logged.symm.trans logged')
  refine ⟨exchanges, logged, quiet, nothing, ?_⟩
  rw [sent, List.map_map]
  exact (sorting.perm requests).map _

end Inline

def pickyStub : Stub Unit where
  findMissingBlobs asked := pure (⟨StatusCode.ok, []⟩, asked)
  batchUpdateBlobs blobs := pure (⟨StatusCode.ok, []⟩, blobs.mapIdx fun i blob =>
    ⟨blob.1, ⟨if i % 2 = 0 then StatusCode.ok else StatusCode.internal, []⟩⟩)
  batchReadBlobs _ := pure (⟨StatusCode.internal, []⟩, [])
  openWriter := pure ()
  write _ := pure true
  finishWrite := pure (⟨StatusCode.internal, []⟩, 0)
  read _ := pure ([], ⟨StatusCode.internal, []⟩)

def pickyClient : Client Unit where
  stub := pickyStub
  hash := id
  instanceName := []
  uuid := text "uuid"
  maxBatchTotalSizeBytes := 1024
  grpcRetryLimit := 1

end Client

end BuildboxCommon
