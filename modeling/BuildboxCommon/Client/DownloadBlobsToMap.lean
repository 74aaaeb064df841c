import BuildboxCommon.Client.DownloadToFile

set_option autoImplicit false

namespace BuildboxCommon

open ByteString Effect Ranges

variable {ι σ τ α : Type}

def aside (call : StateM σ α) : StateM (σ × τ) α := fun s => ((call s.1).1, (call s.1).2, s.2)

def Stub.aside (stub : Stub σ) : Stub (σ × τ) where
  findMissingBlobs digests := BuildboxCommon.aside (stub.findMissingBlobs digests)
  batchUpdateBlobs blobs := BuildboxCommon.aside (stub.batchUpdateBlobs blobs)
  batchReadBlobs digests := BuildboxCommon.aside (stub.batchReadBlobs digests)
  openWriter := BuildboxCommon.aside stub.openWriter
  write request := BuildboxCommon.aside (stub.write request)
  finishWrite := BuildboxCommon.aside stub.finishWrite
  read request := BuildboxCommon.aside (stub.read request)

def Client.aside (client : Client σ) : Client (σ × τ) where
  stub := client.stub.aside
  hash := client.hash
  instanceName := client.instanceName
  uuid := client.uuid
  maxBatchTotalSizeBytes := client.maxBatchTotalSizeBytes
  grpcRetryLimit := client.grpcRetryLimit

def Host.aside (host : Host σ) : Host (σ × τ) where
  mkstemp name := BuildboxCommon.aside (host.mkstemp name)
  fchmod path mode := BuildboxCommon.aside (host.fchmod path mode)
  overwrite path data := BuildboxCommon.aside (host.overwrite path data)
  rename source target := BuildboxCommon.aside (host.rename source target)
  unlink path := BuildboxCommon.aside (host.unlink path)
  mkdir path mode := BuildboxCommon.aside (host.mkdir path mode)
  symlink target path := BuildboxCommon.aside (host.symlink target path)
  stringCapacity := host.stringCapacity

def LocalFiles.aside (files : LocalFiles σ) : LocalFiles (σ × τ) where
  named s := files.named s.1
  stored s := files.stored s.1
  openTruncated path := BuildboxCommon.aside (files.openTruncated path)
  write fd data := BuildboxCommon.aside (files.write fd data)
  overwrite path data := BuildboxCommon.aside (files.overwrite path data)
  opened path s := files.opened path s.1
  appended fd data s := files.appended fd data s.1
  overwritten path data s := files.overwritten path data s.1

abbrev DownloadBlobsResult := UnorderedMap (id : Bytes → Bytes) (Status × Bytes)

namespace Client

def emplaceBlob (hash data : Bytes) : EStateM Exn (Session ι (σ × DownloadBlobsResult)) PUnit :=
  modify fun s => { s with server := (s.server.1, s.server.2.emplace hash (⟨StatusCode.ok, []⟩, data)) }

def emplaceFailure (downloadedData : DownloadBlobsResult) (entry : DownloadResult) : DownloadBlobsResult :=
  if entry.status.code ≠ StatusCode.ok then downloadedData.emplace entry.digest.hashOther (entry.status, [])
  else downloadedData

def downloadBlobsToMap (client : Client σ) (host : Host σ) (files : LocalFiles σ)
    (sorting : SizeSort Digest fun d => d.sizeBytes) (digests : List Digest) (tempDirectory : Option Bytes) :
    EStateM Exn (Session ι σ) DownloadBlobsResult := fun s =>
  match client.aside.downloadBlobsTo host.aside files.aside sorting digests emplaceBlob tempDirectory false
    ⟨(s.server, .empty), s.exchanges, s.accesses⟩ with
  | .ok downloadResults s' =>
    .ok (downloadResults.foldl emplaceFailure s'.server.2) ⟨s'.server.1, s'.exchanges, s'.accesses⟩
  | .error thrown s' => .error thrown ⟨s'.server.1, s'.exchanges, s'.accesses⟩

end Client

def Exchange.asked : Exchange → List Digest
  | .batchReadBlobs asked _ => asked
  | .read digest _ => [digest]
  | _ => []

def Exchange.blobs (hash : Bytes → Bytes) : Exchange → List (Bytes × Bytes)
  | .batchReadBlobs _ (.ok responses) => (responses.filter (·.valid hash)).map fun response =>
    (response.digest.hashOther, response.data)
  | .read digest (.ok data) => [(digest.hashOther, data)]
  | _ => []

theorem Exchange.received_blobs (hash : Bytes → Bytes) (exchange : Exchange) :
    exchange.received hash = (exchange.blobs hash).map Prod.snd := by
  cases exchange with
  | batchReadBlobs asked answer => cases answer <;> simp [received, blobs]
  | read digest answer => cases answer <;> rfl
  | findMissingBlobs | batchUpdateBlobs | write => rfl

namespace Client

def emplaceBlobs (downloadedData : DownloadBlobsResult) (blobs : List (Bytes × Bytes)) : DownloadBlobsResult :=
  blobs.foldl (fun map blob => map.emplace blob.1 (⟨StatusCode.ok, []⟩, blob.2)) downloadedData

structure Told (hash : Bytes → Bytes) (digests : List Digest) (exchanges : List Exchange)
    (added : List DownloadResult) : Prop where
  asked : exchanges.flatMap Exchange.asked = digests
  brought : ∀ blob ∈ exchanges.flatMap (Exchange.blobs hash), ∃ digest ∈ digests,
    digest.hashOther = blob.1 ∧ (makeDigest hash blob.2).key = digest.key
  listed : ∀ result ∈ added, result.digest ∈ digests
  settled : ∀ digest ∈ digests, (∃ blob ∈ exchanges.flatMap (Exchange.blobs hash), blob.1 = digest.hashOther) ∨
    ∃ result ∈ added, result.digest = digest ∧ result.status.code ≠ StatusCode.ok

theorem Told.nil (hash : Bytes → Bytes) : Told hash [] [] [] :=
  ⟨rfl, by simp, by simp, by simp⟩

theorem Told.append {hash : Bytes → Bytes} {digests others : List Digest} {exchanges more : List Exchange}
    {added further : List DownloadResult} (first : Told hash digests exchanges added)
    (second : Told hash others more further) :
    Told hash (digests ++ others) (exchanges ++ more) (added ++ further) := by
  constructor
  case asked => rw [List.flatMap_append, first.asked, second.asked]
  case brought =>
    intro blob member
    rw [List.flatMap_append, List.mem_append] at member
    rcases member with member | member
    next =>
      obtain ⟨digest, listed, same⟩ := first.brought blob member
      exact ⟨digest, List.mem_append_left _ listed, same⟩
    next =>
      obtain ⟨digest, listed, same⟩ := second.brought blob member
      exact ⟨digest, List.mem_append_right _ listed, same⟩
  case listed =>
    intro result member
    rw [List.mem_append] at member ⊢
    exact member.imp (first.listed result) (second.listed result)
  case settled =>
    intro digest member
    simp only [List.flatMap_append, List.mem_append, or_and_right, exists_or]
    rcases List.mem_append.mp member with member | member
    next => exact (first.settled digest member).imp .inl .inl
    next => exact (second.settled digest member).imp .inr .inr

def Tells (hash : Bytes → Bytes) (digests : List Digest) (broken : Prop) (results : List DownloadResult)
    (program : EStateM Exn (Session ι (σ × DownloadBlobsResult)) (List DownloadResult)) : Prop :=
  ∀ s, ∃ exchanges, s.Extends exchanges [] (exitState (program s)) ∧
    match program s with
    | .ok all s' => ¬broken ∧ ∃ added, all = results ++ added ∧ Told hash digests exchanges added ∧
      s'.server.2 = emplaceBlobs s.server.2 (exchanges.flatMap (Exchange.blobs hash))
    | .error _ _ => broken

section Tells

variable {hash : Bytes → Bytes} {results : List DownloadResult}

theorem Tells.bind {digests others : List Digest} {broken later : Prop}
    {program : EStateM Exn (Session ι (σ × DownloadBlobsResult)) (List DownloadResult)}
    {rest : List DownloadResult → EStateM Exn (Session ι (σ × DownloadBlobsResult)) (List DownloadResult)}
    (first : Tells hash digests broken results program) (second : ∀ all, Tells hash others later all (rest all)) :
    Tells hash (digests ++ others) (broken ∨ later) results (program >>= rest) := by
  intro s
  obtain ⟨exchanges, extends', ended⟩ := first s
  cases run : program s with
  | error e between =>
    rw [run] at extends' ended
    rw [bind_error _ run]
    exact ⟨exchanges, extends', .inl ended⟩
  | ok all between =>
    rw [run] at extends' ended
    obtain ⟨sound, added, rfl, told, stored⟩ := ended
    obtain ⟨more, continued, ended⟩ := second (results ++ added) between
    rw [bind_ok _ run]
    refine ⟨exchanges ++ more, extends'.trans continued, ?_⟩
    cases run' : rest (results ++ added) between with
    | error e s' =>
      rw [run'] at ended
      exact .inr ended
    | ok all s' =>
      rw [run'] at ended
      obtain ⟨fine, further, rfl, told', stored'⟩ := ended
      refine ⟨not_or.mpr ⟨sound, fine⟩, added ++ further, by simp, told.append told', ?_⟩
      rw [stored', stored, List.flatMap_append, emplaceBlobs, emplaceBlobs, emplaceBlobs, List.foldl_append]

theorem Tells.foldlM {β : Type} {asked : β → List Digest} {broken : β → Prop} {xs : List β}
    {step : List DownloadResult → β → EStateM Exn (Session ι (σ × DownloadBlobsResult)) (List DownloadResult)}
    (each : ∀ x ∈ xs, ∀ results, Tells hash (asked x) (broken x) results (step results x)) :
    Tells hash (xs.flatMap asked) (∃ x ∈ xs, broken x) results (xs.foldlM step results) := by
  induction xs generalizing results with
  | nil => exact fun s => ⟨[], .refl s, by simp, [], by simp, Told.nil hash, rfl⟩
  | cons x xs ih =>
    have later (all : List DownloadResult) := @ih all fun y member => each y (by simp [member])
    have both := (each x (by simp) results).bind later
    rw [List.foldlM_cons, List.flatMap_cons]
    simpa only [List.exists_mem_cons_iff] using both

end Tells

section Steps

variable (client : Client σ)

def withBlobs (hash : Bytes → Bytes) (responses : List ReadBlob) (s : Session ι (σ × DownloadBlobsResult)) :
    Session ι (σ × DownloadBlobsResult) :=
  { s with server := (s.server.1, emplaceBlobs s.server.2 ((responses.filter (·.valid hash)).map fun response =>
    (response.digest.hashOther, response.data))) }

theorem takeResponse_run (response : ReadBlob) (s : Session ι (σ × DownloadBlobsResult)) :
    ∃ result, client.aside.takeResponse emplaceBlob response s = .ok result (withBlobs client.hash [response] s) ∧
      result.digest = response.digest ∧ (response.valid client.hash = false → result.status.code ≠ StatusCode.ok) := by
  have sameHash : (client.aside : Client (σ × DownloadBlobsResult)).hash = client.hash := rfl
  unfold takeResponse
  simp only [sameHash]
  split_ifs with failed differs
  next =>
    have invalid : response.valid client.hash = false := by simp [ReadBlob.valid, failed]
    have same : withBlobs client.hash [response] s = s := by simp [withBlobs, invalid, emplaceBlobs]
    rw [same]
    exact ⟨_, rfl, rfl, fun _ => failed⟩
  next =>
    have invalid : response.valid client.hash = false := by simp [ReadBlob.valid, differs]
    have same : withBlobs client.hash [response] s = s := by simp [withBlobs, invalid, emplaceBlobs]
    have bad : StatusCode.internal ≠ StatusCode.ok := by decide
    rw [same]
    exact ⟨_, rfl, rfl, fun _ => bad⟩
  next =>
    rw [not_not] at failed differs
    have valid : response.valid client.hash = true := by simp [ReadBlob.valid, failed, differs]
    have run : emplaceBlob response.digest.hashOther response.data s =
        .ok PUnit.unit (withBlobs client.hash [response] s) := by
      simp [withBlobs, valid, emplaceBlobs]
      rfl
    rw [bind_ok _ run]
    exact ⟨⟨response.digest, response.status⟩, rfl, rfl, by simp [valid]⟩

theorem takeResponses_run (responses : List ReadBlob) (s : Session ι (σ × DownloadBlobsResult)) :
    ∃ results,
      responses.mapM (client.aside.takeResponse emplaceBlob) s = .ok results (withBlobs client.hash responses s) ∧
      results.map DownloadResult.digest = responses.map ReadBlob.digest ∧
      ∀ response ∈ responses, response.valid client.hash = false →
        ∃ result ∈ results, result.digest = response.digest ∧ result.status.code ≠ StatusCode.ok := by
  induction responses generalizing s with
  | nil => exact ⟨[], rfl, rfl, by simp⟩
  | cons response responses ih =>
    obtain ⟨result, run, same, bad⟩ := takeResponse_run client response s
    obtain ⟨results, rest, digests, others⟩ := ih (withBlobs client.hash [response] s)
    refine ⟨result :: results, ?_, by simp [same, digests], ?_⟩
    next =>
      have stored : withBlobs client.hash responses (withBlobs client.hash [response] s) =
          withBlobs client.hash (response :: responses) s := by
        cases valid : response.valid client.hash <;> simp [withBlobs, emplaceBlobs, valid]
      rw [List.mapM_cons, bind_ok _ run, bind_ok _ rest, stored]
      rfl
    next =>
      intro other member invalid
      rcases List.mem_cons.mp member with rfl | member
      next => exact ⟨result, by simp, same, bad invalid⟩
      next =>
        obtain ⟨found, listed, rest⟩ := others other member invalid
        exact ⟨found, by simp [listed], rest⟩

def AnswersEach (asked : List Digest) (responses : List ReadBlob) : Prop :=
  ∀ digest, digest ∈ responses.map ReadBlob.digest ↔ digest ∈ asked

def Complete (stub : Stub σ) : Prop := ∀ asked s, (stub.batchReadBlobs asked s).1.1.ok = true →
  AnswersEach asked (stub.batchReadBlobs asked s).1.2

variable {client}

theorem told_responses {hash : Bytes → Bytes} {asked : List Digest} {responses : List ReadBlob}
    {added : List DownloadResult} (answered : AnswersEach asked responses)
    (digests : added.map DownloadResult.digest = responses.map ReadBlob.digest)
    (failures : ∀ response ∈ responses, response.valid hash = false →
      ∃ result ∈ added, result.digest = response.digest ∧ result.status.code ≠ StatusCode.ok) :
    Told hash asked [.batchReadBlobs asked (.ok responses)] added := by
  constructor
  case asked => simp [Exchange.asked]
  case brought =>
    intro blob member
    simp only [List.flatMap_singleton, Exchange.blobs, List.mem_map, List.mem_filter] at member
    obtain ⟨response, ⟨listed, valid⟩, rfl⟩ := member
    have correct : response.status.code = StatusCode.ok ∧
        (makeDigest hash response.data).key = response.digest.key := by
      simpa [ReadBlob.valid] using valid
    exact ⟨response.digest, (answered _).mp (List.mem_map_of_mem listed), rfl, correct.2⟩
  case listed =>
    intro result member
    rw [← answered result.digest, ← digests]
    exact List.mem_map_of_mem member
  case settled =>
    intro digest member
    obtain ⟨response, listed, rfl⟩ := List.mem_map.mp ((answered digest).mpr member)
    cases valid : response.valid hash with
    | true =>
      refine .inl ⟨(response.digest.hashOther, response.data), ?_, rfl⟩
      simp only [List.flatMap_singleton, Exchange.blobs]
      exact List.mem_map_of_mem (List.mem_filter.mpr ⟨listed, valid⟩)
    | false => exact .inr (failures response listed valid)

theorem told_failed {hash : Bytes → Bytes} {asked : List Digest} {exchange : Exchange} {status : Status}
    (request : exchange.asked = asked) (none : exchange.blobs hash = []) (bad : status.code ≠ StatusCode.ok) :
    Told hash asked [exchange] (asked.map fun digest => ⟨digest, status⟩) := by
  constructor
  case asked => simpa using request
  case brought => simp [none]
  case listed => simp
  case settled => exact fun digest member => .inr ⟨⟨digest, status⟩, List.mem_map_of_mem member, rfl, bad⟩

theorem batchReadBlobs_aside (complete : Complete client.stub) (asked : List Digest) (map : DownloadBlobsResult) :
    Runs (fun s : σ × DownloadBlobsResult => s.2 = map)
      (client.aside.issueRequestAndThrowOnErrors (unary (client.aside.stub.batchReadBlobs asked)) [])
      (fun responses s => AnswersEach asked responses ∧ s.2 = map) fun s => s.2 = map := by
  refine @issueRequestAndThrowOnErrors_runs (σ × DownloadBlobsResult) _ client.aside (fun _ s => s.2 = map)
    (fun responses s => AnswersEach asked responses ∧ s.2 = map) (fun s => s.2 = map) _
    (fun captured => .calling fun s held => ?_) (fun _ _ => id) (fun _ _ => And.right) []
  split_ifs with ok
  next => exact ⟨complete asked s.1 ok, held⟩
  next => exact held

theorem fetchString_aside (host : Host σ) (digest : Digest) (map : DownloadBlobsResult) :
    Runs (fun s : σ × DownloadBlobsResult => s.2 = map)
      (client.aside.issueRequestAndThrowOnErrors (client.aside.readString host.aside digest) [])
      (fun data s => (makeDigest client.hash data).key = digest.key ∧ s.2 = map) fun s => s.2 = map := by
  refine @issueRequestAndThrowOnErrors_runs (σ × DownloadBlobsResult) _ client.aside (fun _ s => s.2 = map)
    (fun data s => (makeDigest client.hash data).key = digest.key ∧ s.2 = map) (fun s => s.2 = map) _
    (fun captured => ?_) (fun _ _ => id) (fun _ _ => And.right) []
  have answered (request : ReadRequest) : Runs (fun s : σ × DownloadBlobsResult => s.2 = map)
      (calling (client.aside.stub.read request) : EStateM Exn (σ × DownloadBlobsResult) _) (fun _ s => s.2 = map)
      fun s => s.2 = map := .calling fun _ held => held
  refine (answered _).bind fun read => .ite (fun _ => .throw fun _ => id) fun _ =>
    .ite (fun failed => .pure fun s held => ?_) fun fine => .ite (fun _ => .throw fun _ => id) fun _ =>
    .ite (fun _ => .throw fun _ => id) fun same => .pure fun s held => ?_
  next => rwa [if_neg (by simpa using failed)]
  next =>
    rw [if_pos (by simpa using fine)]
    exact ⟨not_not.mp same, held⟩

theorem downloadBatch_tells (complete : Complete client.stub) (requestList : List Digest)
    (results : List DownloadResult) (batchRange : Nat × Nat) :
    Tells client.hash (slice requestList batchRange) False results
      (client.aside.downloadBatch emplaceBlob false requestList results batchRange :
        EStateM Exn (Session ι (σ × DownloadBlobsResult)) (List DownloadResult)) := by
  intro s
  generalize shape : slice requestList batchRange = asked
  have answered := batchReadBlobs_aside complete asked s.server.2 s.server rfl
  have raised := unary_raises (client.aside : Client (σ × DownloadBlobsResult))
    (client.aside.stub.batchReadBlobs asked) []
  cases run : client.aside.issueRequestAndThrowOnErrors
    (unary (client.aside.stub.batchReadBlobs asked)) [] s.server with
  | ok responses server =>
    rw [run] at answered
    have answer := @recorded_ok ι _ _ (.batchReadBlobs asked) _ _ s _ run
    obtain ⟨added, taken, digests, failures⟩ := takeResponses_run client responses
      { s with server := server, exchanges := s.exchanges ++ [.batchReadBlobs asked (.ok responses)] }
    have whole : client.aside.downloadBatch emplaceBlob false requestList results batchRange s = .ok (results ++ added)
        (withBlobs client.hash responses
          { s with server := server, exchanges := s.exchanges ++ [.batchReadBlobs asked (.ok responses)] }) := by
      unfold downloadBatch batchDownload
      rw [shape]
      apply catching_ok
      rw [bind_ok _ ((bind_ok _ answer).trans taken)]
      rfl
    rw [whole]
    refine ⟨[.batchReadBlobs asked (.ok responses)], ⟨rfl, (List.append_nil _).symm⟩, not_false, added, rfl,
      told_responses answered.1 digests failures, ?_⟩
    simp only [withBlobs, answered.2, List.flatMap_singleton, Exchange.blobs]
  | error e server =>
    rw [run] at answered
    have runtime : e.isRuntimeError = true := raised _ _ _ run
    have answer := @recorded_error ι _ _ (.batchReadBlobs asked) _ _ s _ run
    have whole : client.aside.downloadBatch emplaceBlob false requestList results batchRange s =
        .ok (results ++ asked.map fun digest => ⟨digest, ⟨StatusCode.internal, []⟩⟩)
          { s with server := server, exchanges := s.exchanges ++ [.batchReadBlobs asked (.error e)] } := by
      unfold downloadBatch batchDownload
      rw [shape]
      apply catching_error _ (bind_error _ (bind_error _ answer)) runtime
    rw [whole]
    refine ⟨[.batchReadBlobs asked (.error e)], ⟨rfl, (List.append_nil _).symm⟩, not_false, _, rfl,
      told_failed rfl rfl (by decide), ?_⟩
    exact answered

theorem fetchString_failure (host : Host σ) {digest : Digest} (reservable : ¬Unreservable host digest) :
    RaisesOnly (fun e => e.isRuntimeError = true ∧ ∀ status, e = .grpcError status → status.code ≠ StatusCode.ok)
      (client.issueRequestAndThrowOnErrors (client.readString host digest) []) := by
  refine client.issueRequestAndThrowOnErrors_raises (client.readString_raises reservable fun _ => ⟨rfl, nofun⟩)
    (fun status failed => ⟨rfl, fun other same => ?_⟩) []
  cases same
  simpa [Status.ok] using failed

theorem told_read {hash : Bytes → Bytes} {digest : Digest} {data : Bytes}
    (correct : (makeDigest hash data).key = digest.key) :
    Told hash [digest] [.read digest (.ok data)] [⟨digest, ⟨StatusCode.ok, []⟩⟩] := by
  constructor
  case asked => rfl
  case brought =>
    intro blob member
    obtain rfl := List.mem_singleton.mp member
    exact ⟨digest, List.mem_singleton_self _, rfl, correct⟩
  case listed => simp
  case settled =>
    intro other member
    rw [List.mem_singleton.mp member]
    exact .inl ⟨_, List.mem_singleton_self _, rfl⟩

theorem downloadOne_tells (host : Host σ) (results : List DownloadResult) (digest : Digest) :
    Tells client.hash [digest] (Unreservable host digest) results
      (client.aside.downloadOne host.aside emplaceBlob false results digest :
        EStateM Exn (Session ι (σ × DownloadBlobsResult)) (List DownloadResult)) := by
  intro s
  have answered := @fetchString_aside _ client host digest s.server.2 s.server rfl
  by_cases unreservable : Unreservable host digest
  next =>
    obtain ⟨server, failed⟩ := @readString_unreservable (σ × DownloadBlobsResult) client.aside host.aside digest
      unreservable [] s.server
    have answer := @recorded_error ι _ _ (.read digest) _ _ s _ (client.aside.issueRequestAndThrowOnErrors_error failed)
    have whole : client.aside.downloadOne host.aside emplaceBlob false results digest s = .error .lengthError
        { s with server := server, exchanges := s.exchanges ++ [.read digest (.error .lengthError)] } := by
      unfold downloadOne fetchString
      simp only [Effect.catching, bind_error _ answer]
      rfl
    rw [whole]
    exact ⟨[.read digest (.error .lengthError)], ⟨rfl, (List.append_nil _).symm⟩, unreservable⟩
  next =>
    have raised := @fetchString_failure _ (client.aside : Client (σ × DownloadBlobsResult)) host.aside digest
      unreservable
    cases run : client.aside.issueRequestAndThrowOnErrors (client.aside.readString host.aside digest) [] s.server with
    | ok data server =>
      rw [run] at answered
      have answer := @recorded_ok ι _ _ (.read digest) _ _ s _ run
      have whole : client.aside.downloadOne host.aside emplaceBlob false results digest s =
          .ok (results ++ [⟨digest, ⟨StatusCode.ok, []⟩⟩])
            { s with
              server := (server.1, server.2.emplace digest.hashOther (⟨StatusCode.ok, []⟩, data))
              exchanges := s.exchanges ++ [.read digest (.ok data)] } := by
        unfold downloadOne fetchString
        apply catching_ok
        rw [bind_ok _ answer]
        rfl
      rw [whole]
      refine ⟨[.read digest (.ok data)], ⟨rfl, (List.append_nil _).symm⟩, unreservable, _, rfl,
        told_read answered.1, ?_⟩
      rw [← answered.2]
      rfl
    | error e server =>
      rw [run] at answered
      obtain ⟨runtime, bad⟩ := raised _ _ _ run
      have answer := @recorded_error ι _ _ (.read digest) _ _ s _ run
      have whole : ∃ status : Status, status.code ≠ StatusCode.ok ∧
          client.aside.downloadOne host.aside emplaceBlob false results digest s = .ok (results ++ [⟨digest, status⟩])
            { s with server := server, exchanges := s.exchanges ++ [.read digest (.error e)] } := by
        unfold downloadOne fetchString
        rw [catching_error _ (bind_error _ answer) runtime]
        cases e with
        | grpcError status => exact ⟨status, bad status rfl, rfl⟩
        | _ => exact ⟨⟨StatusCode.internal, []⟩, by decide, rfl⟩
      obtain ⟨status, failed, whole⟩ := whole
      rw [whole]
      exact ⟨[.read digest (.error e)], ⟨rfl, (List.append_nil _).symm⟩, unreservable, [⟨digest, status⟩], rfl,
        told_failed rfl rfl failed, answered⟩

end Steps

section Main

variable (client : Client σ) (host : Host σ) (files : LocalFiles σ) (sorting : SizeSort Digest fun d => d.sizeBytes)

theorem downloadBlobsTo_tells (complete : Complete client.stub) (digests : List Digest) :
    Tells client.hash (sorting.sort digests) (∃ digest ∈ streamed client sorting digests, Unreservable host digest) []
      (client.aside.downloadBlobsTo host.aside files.aside sorting digests emplaceBlob none false :
        EStateM Exn (Session ι (σ × DownloadBlobsResult)) (List DownloadResult)) := by
  have batched := @Tells.foldlM ι σ client.hash [] _ _ _ _ _ fun batchRange
    (_ : batchRange ∈ makeBatches client.maxBatchTotalSizeBytes (sorting.sort digests)) results =>
      @downloadBatch_tells ι σ client complete (sorting.sort digests) results batchRange
  have others (all : List DownloadResult) := @Tells.foldlM ι σ client.hash all _ _ _ _ _ fun digest
    (_ : digest ∈ streamed client sorting digests) results => @downloadOne_tells ι σ client host results digest
  have whole := (makeBatches_contiguous client.maxBatchTotalSizeBytes (sorting.sort digests)).flatMap_slice
    (sorting.sort digests)
  have both := batched.bind others
  have singles : (streamed client sorting digests).flatMap (fun digest => [digest]) =
      (sorting.sort digests).drop (batchesEnd (makeBatches client.maxBatchTotalSizeBytes (sorting.sort digests))) := by
    simp [streamed]
  rw [singles, whole, List.drop_zero] at both
  simp only [and_false, exists_false, false_or] at both
  exact both

structure Reported (hash : Bytes → Bytes) (digests : List Digest) (exchanges : List Exchange)
    (downloadedData : DownloadBlobsResult) : Prop where
  asked : (exchanges.flatMap Exchange.asked).Perm digests
  keys : ∀ key, (∃ entry, downloadedData.find key = some entry) ↔ ∃ digest ∈ digests, digest.hashOther = key
  received : ∀ digest ∈ digests, Received hash exchanges digest → ∃ status contents,
    downloadedData.find digest.hashOther = some (status, contents) ∧ status.code = StatusCode.ok ∧
      contents ∈ exchanges.flatMap (Exchange.received hash) ∧ (makeDigest hash contents).key = digest.key
  failed : ∀ digest ∈ digests, ¬Received hash exchanges digest → ∃ status,
    downloadedData.find digest.hashOther = some (status, []) ∧ status.code ≠ StatusCode.ok

theorem find_foldl_emplaceFailure (downloadResults : List DownloadResult) (blobs : List (Bytes × Bytes)) (key : Bytes) :
    (downloadResults.foldl emplaceFailure (emplaceBlobs .empty blobs)).find key =
      ((blobs.find? fun blob => blob.1 = key).map fun blob => (⟨StatusCode.ok, []⟩, blob.2)).or
        (((downloadResults.filter fun result => result.status.code ≠ StatusCode.ok).find? fun result =>
          result.digest.hashOther = key).map fun result => (result.status, [])) := by
  have filtered (map : DownloadBlobsResult) : downloadResults.foldl emplaceFailure map =
      (downloadResults.filter fun result => result.status.code ≠ StatusCode.ok).foldl
        (fun map result => map.emplace result.digest.hashOther (result.status, [])) map := by
    rw [List.foldl_filter]
    congr 1
    funext map result
    simp only [emplaceFailure, decide_eq_true_eq]
  rw [filtered, emplaceBlobs, UnorderedMap.find_foldl_emplace, UnorderedMap.find_foldl_emplace, UnorderedMap.find_empty,
    Option.none_or]
  rfl

section Reported

variable {hash : Bytes → Bytes} {sorted digests : List Digest} {exchanges : List Exchange}
  {downloadResults : List DownloadResult} (told : Told hash sorted exchanges downloadResults)
  (distinct : ∀ digest ∈ sorted, ∀ other ∈ sorted, digest.hashOther = other.hashOther → digest = other)

include told distinct

theorem received_of_blob {digest : Digest} {blob : Bytes × Bytes} (listed : digest ∈ sorted)
    (member : blob ∈ exchanges.flatMap (Exchange.blobs hash)) (same : blob.1 = digest.hashOther) :
    blob.2 ∈ exchanges.flatMap (Exchange.received hash) ∧ (makeDigest hash blob.2).key = digest.key := by
  obtain ⟨other, known, hashed, correct⟩ := told.brought blob member
  obtain rfl := distinct other known digest listed (hashed.trans same)
  obtain ⟨exchange, made, brought⟩ := List.mem_flatMap.mp member
  refine ⟨List.mem_flatMap.mpr ⟨exchange, made, ?_⟩, correct⟩
  rw [Exchange.received_blobs]
  exact List.mem_map_of_mem brought

omit distinct in
theorem blob_of_received {digest : Digest} (received : Received hash exchanges digest) :
    ∃ blob ∈ exchanges.flatMap (Exchange.blobs hash), blob.1 = digest.hashOther := by
  obtain ⟨contents, member, correct⟩ := received
  obtain ⟨exchange, made, brought⟩ := List.mem_flatMap.mp member
  rw [Exchange.received_blobs] at brought
  obtain ⟨blob, inside, rfl⟩ := List.mem_map.mp brought
  have stored : blob ∈ exchanges.flatMap (Exchange.blobs hash) := List.mem_flatMap.mpr ⟨exchange, made, inside⟩
  obtain ⟨other, -, hashed, key⟩ := told.brought blob stored
  exact ⟨blob, stored, hashed.symm.trans (congrArg Prod.fst (key.symm.trans correct))⟩

theorem reported_of_told (perm : sorted.Perm digests) : Reported hash digests exchanges
    (downloadResults.foldl emplaceFailure (emplaceBlobs .empty (exchanges.flatMap (Exchange.blobs hash)))) := by
  constructor
  case asked => rwa [told.asked]
  case keys =>
    intro key
    rw [find_foldl_emplaceFailure]
    constructor
    next =>
      rintro ⟨entry, found⟩
      rcases Option.or_eq_some_iff.mp found with found | ⟨-, found⟩
      next =>
        obtain ⟨blob, first, -⟩ := Option.map_eq_some_iff.mp found
        obtain ⟨digest, listed, same, -⟩ := told.brought blob (List.mem_of_find?_eq_some first)
        exact ⟨digest, perm.subset listed, same.trans (by simpa using List.find?_some first)⟩
      next =>
        obtain ⟨result, first, -⟩ := Option.map_eq_some_iff.mp found
        have listed := told.listed result (List.mem_filter.mp (List.mem_of_find?_eq_some first)).1
        exact ⟨result.digest, perm.subset listed, by simpa using List.find?_some first⟩
    next =>
      rintro ⟨digest, listed, rfl⟩
      rw [← Option.isSome_iff_exists, Option.isSome_or, Option.isSome_map, Option.isSome_map, Bool.or_eq_true,
        List.find?_isSome, List.find?_isSome]
      rcases told.settled digest (perm.symm.subset listed) with ⟨blob, member, same⟩ | ⟨result, member, rfl, bad⟩
      next => exact .inl ⟨blob, member, by simpa using same⟩
      next => exact .inr ⟨result, List.mem_filter.mpr ⟨member, by simpa using bad⟩, by simp⟩
  case received =>
    intro digest listed received
    have known := perm.symm.subset listed
    rw [find_foldl_emplaceFailure]
    cases first : (exchanges.flatMap (Exchange.blobs hash)).find? fun blob => blob.1 = digest.hashOther with
    | none =>
      obtain ⟨blob, member, same⟩ := blob_of_received told received
      exact absurd same (by simpa using List.find?_eq_none.mp first blob member)
    | some blob =>
      have same : blob.1 = digest.hashOther := by simpa using List.find?_some first
      exact ⟨⟨StatusCode.ok, []⟩, blob.2, rfl, rfl,
        received_of_blob told distinct known (List.mem_of_find?_eq_some first) same⟩
  case failed =>
    intro digest listed missing
    have known := perm.symm.subset listed
    have none (blob : Bytes × Bytes) (member : blob ∈ exchanges.flatMap (Exchange.blobs hash)) :
        blob.1 ≠ digest.hashOther := fun same => missing ⟨blob.2, received_of_blob told distinct known member same⟩
    rw [find_foldl_emplaceFailure, List.find?_eq_none.mpr (by simpa using none)]
    rcases told.settled digest known with ⟨blob, member, same⟩ | ⟨result, member, rfl, bad⟩
    next => exact absurd same (none blob member)
    next =>
      cases first : (downloadResults.filter fun result => result.status.code ≠ StatusCode.ok).find? fun other =>
        other.digest.hashOther = result.digest.hashOther with
      | none => exact absurd (List.find?_eq_none.mp first result (by simpa using ⟨member, bad⟩)) (by simp)
      | some other => exact ⟨other.status, rfl, by simpa using (List.mem_filter.mp (List.mem_of_find?_eq_some first)).2⟩

end Reported

def Delivered (hash : Bytes → Bytes) (digests : List Digest) (exchanges : List Exchange) :
    EStateM.Result Exn (Session ι σ) DownloadBlobsResult → Prop
  | .ok downloadedData _ => Reported hash digests exchanges downloadedData
  | .error _ _ => False

theorem downloadBlobsToMap_ends (complete : Complete client.stub) {digests : List Digest}
    (distinct : ∀ digest ∈ digests, ∀ other ∈ digests, digest.hashOther = other.hashOther → digest = other)
    (s : Session ι σ) :
    ∃ exchanges, s.Extends exchanges [] (exitState (client.downloadBlobsToMap host files sorting digests none s)) ∧
      match client.downloadBlobsToMap host files sorting digests none s with
      | .ok downloadedData _ => (¬∃ digest ∈ streamed client sorting digests, Unreservable host digest) ∧
        Reported client.hash digests exchanges downloadedData
      | .error _ _ => ∃ digest ∈ streamed client sorting digests, Unreservable host digest := by
  have perm := sorting.perm digests
  obtain ⟨exchanges, continued, ended⟩ := downloadBlobsTo_tells client host files sorting complete digests
    (⟨(s.server, .empty), s.exchanges, s.accesses⟩ : Session ι (σ × DownloadBlobsResult))
  refine ⟨exchanges, ?_⟩
  unfold downloadBlobsToMap
  cases run : client.aside.downloadBlobsTo host.aside files.aside sorting digests emplaceBlob none false
    (⟨(s.server, .empty), s.exchanges, s.accesses⟩ : Session ι (σ × DownloadBlobsResult)) with
  | error e s' =>
    rw [run] at continued ended
    exact ⟨⟨continued.1, continued.2⟩, ended⟩
  | ok downloadResults s' =>
    rw [run] at continued ended
    obtain ⟨reservable, added, rfl, told, stored⟩ := ended
    refine ⟨⟨continued.1, continued.2⟩, reservable, ?_⟩
    rw [stored]
    exact reported_of_told told (fun digest listed other known =>
      distinct digest (perm.subset listed) other (perm.subset known)) perm

theorem downloadBlobsToMap_reports_iff (complete : Complete client.stub) (digests : List Digest)
    (distinct : ∀ digest ∈ digests, ∀ other ∈ digests, digest.hashOther = other.hashOther → digest = other)
    (s : Session ι σ) :
    ∃ exchanges, s.Extends exchanges [] (exitState (client.downloadBlobsToMap host files sorting digests none s)) ∧
      (Delivered client.hash digests exchanges (client.downloadBlobsToMap host files sorting digests none s) ↔
        ¬∃ digest ∈ streamed client sorting digests, Unreservable host digest) := by
  obtain ⟨exchanges, continued, ended⟩ := downloadBlobsToMap_ends client host files sorting complete distinct s
  refine ⟨exchanges, continued, ?_⟩
  cases run : client.downloadBlobsToMap host files sorting digests none s with
  | error e s' =>
    rw [run] at ended
    exact iff_of_false id (not_not.mpr ended)
  | ok downloadedData s' =>
    rw [run] at ended
    exact iff_of_true ended.2 ended.1

end Main

def closedFiles : LocalFiles Unit where
  named _ _ := none
  stored _ _ := []
  openTruncated _ := pure (.error 13)
  write _ _ := pure (-1, 9)
  overwrite _ _ := pure (.error 13)
  opened _ _ _ := nofun
  appended _ data _ written := by
    have negative : (-1 : Int) = data.length := written
    omega
  overwritten _ _ _ := nofun

def narrowHost : Host Unit := { writableHost with stringCapacity := 2 ^ 62 - 1 }

theorem emptyStub_complete : Complete emptyStub := by
  rintro asked ⟨⟩ - digest
  change digest ∈ List.map ReadBlob.digest (asked.map _) ↔ _
  simp

theorem missingBlob_distinct : ∀ digest ∈ [missingBlob, missingBlob], ∀ other ∈ [missingBlob, missingBlob],
    digest.hashOther = other.hashOther → digest = other := by
  simp

theorem downloadBlobsToMap_reports_iff_missing : ∃ exchanges,
    Session.Extends ⟨(), [], []⟩ exchanges ([] : List (Access Bool)) (exitState (emptyServerClient.downloadBlobsToMap
      narrowHost closedFiles (SizeSort.stable _ _) [missingBlob, missingBlob] none ⟨(), [], []⟩)) ∧
    (Delivered id [missingBlob, missingBlob] exchanges (emptyServerClient.downloadBlobsToMap narrowHost closedFiles
        (SizeSort.stable _ _) [missingBlob, missingBlob] none (⟨(), [], []⟩ : Session Bool Unit)) ↔
      ¬∃ digest ∈ streamed emptyServerClient (SizeSort.stable _ _) [missingBlob, missingBlob],
        Unreservable narrowHost digest) :=
  downloadBlobsToMap_reports_iff emptyServerClient narrowHost closedFiles (SizeSort.stable _ _) emptyStub_complete
    [missingBlob, missingBlob] missingBlob_distinct ⟨(), [], []⟩

def largeBlob : Digest := ⟨text "large", 2 ^ 63 - 1, []⟩

theorem makeBatches_largeBlob : makeBatches 1024 [missingBlob, largeBlob] = [(0, 1)] := by
  rw [makeBatches, batchesFrom, if_neg (by decide)]
  have first : fillBatch (1024 - sizeofEstimatedTopLevelGrpcContainer) 0 [missingBlob, largeBlob] = 1 := by decide
  simp only [first, List.drop_succ_cons, List.drop_zero, Nat.zero_add]
  rw [batchesFrom, if_pos (by decide)]

theorem largeBlob_streamed :
    ∃ digest ∈ streamed emptyServerClient (SizeSort.stable _ _) [missingBlob, largeBlob],
      Unreservable narrowHost digest := by
  have sorted : (SizeSort.stable Digest fun d => d.sizeBytes).sort [missingBlob, largeBlob] =
      [missingBlob, largeBlob] :=
    by decide
  refine ⟨largeBlob, ?_, by decide⟩
  unfold streamed
  rw [sorted]
  change largeBlob ∈ [missingBlob, largeBlob].drop (batchesEnd (makeBatches 1024 [missingBlob, largeBlob]))
  rw [makeBatches_largeBlob]
  exact List.mem_singleton_self _

-- The size of the second blob keeps the failure of the first from being reported.
theorem downloadBlobsToMap_large_blob : Complete emptyServerClient.stub ∧ ¬∃ exchanges,
    Session.Extends ⟨(), [], []⟩ exchanges ([] : List (Access Bool)) (exitState (emptyServerClient.downloadBlobsToMap
      narrowHost closedFiles (SizeSort.stable _ _) [missingBlob, largeBlob] none ⟨(), [], []⟩)) ∧
    Delivered id [missingBlob, largeBlob] exchanges (emptyServerClient.downloadBlobsToMap narrowHost closedFiles
      (SizeSort.stable _ _) [missingBlob, largeBlob] none (⟨(), [], []⟩ : Session Bool Unit)) := by
  refine ⟨emptyStub_complete, ?_⟩
  rintro ⟨_, -, delivered⟩
  have distinct : ∀ digest ∈ [missingBlob, largeBlob], ∀ other ∈ [missingBlob, largeBlob],
      digest.hashOther = other.hashOther → digest = other := by decide
  obtain ⟨_, -, ended⟩ := downloadBlobsToMap_ends emptyServerClient narrowHost closedFiles (SizeSort.stable _ _)
    emptyStub_complete distinct (⟨(), [], []⟩ : Session Bool Unit)
  revert delivered ended
  cases emptyServerClient.downloadBlobsToMap narrowHost closedFiles (SizeSort.stable _ _) [missingBlob, largeBlob] none
    (⟨(), [], []⟩ : Session Bool Unit) with
  | ok downloadedData s' => exact fun _ ended => ended.1 largeBlob_streamed
  | error e s' => exact fun delivered _ => delivered

end Client

end BuildboxCommon
