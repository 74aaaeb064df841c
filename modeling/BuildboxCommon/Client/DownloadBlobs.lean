import BuildboxCommon.Client.Download
import BuildboxCommon.Client.UploadBlobs

set_option autoImplicit false

namespace BuildboxCommon

open ByteString Effect FileUtils Ranges

variable {ι σ : Type}

namespace Client

def downloadBatch (client : Client σ) (writeBlobFunction : Bytes → Bytes → EStateM Exn (Session ι σ) PUnit)
    (throwOnError : Bool) (requestList : List Digest) (downloadResults : List DownloadResult)
    (batchRange : Nat × Nat) : EStateM Exn (Session ι σ) (List DownloadResult) :=
  catching Exn.isRuntimeError (do
    let batchResults ← client.batchDownload (slice requestList batchRange) writeBlobFunction
    return downloadResults ++ batchResults) fun e =>
      if throwOnError then throw (.runtimeError e.what)
      else return downloadResults ++ (slice requestList batchRange).map fun digest =>
        ⟨digest, ⟨StatusCode.internal, []⟩⟩

def downloadOne (client : Client σ) (host : Host σ)
    (writeBlobFunction : Bytes → Bytes → EStateM Exn (Session ι σ) PUnit) (throwOnError : Bool)
    (downloadResults : List DownloadResult) (digest : Digest) : EStateM Exn (Session ι σ) (List DownloadResult) :=
  catching Exn.isRuntimeError (do
    let data ← client.fetchString host digest
    writeBlobFunction digest.hashOther data
    return downloadResults ++ [⟨digest, ⟨StatusCode.ok, []⟩⟩]) fun e =>
      match e with
      | .grpcError status =>
        if throwOnError then throw (.runtimeError (text "Failed to download string: " ++ status.message))
        else return downloadResults ++ [⟨digest, status⟩]
      | e =>
        if throwOnError then throw (.runtimeError e.what)
        else return downloadResults ++ [⟨digest, ⟨StatusCode.internal, []⟩⟩]

def downloadBlobsToCallback (client : Client σ) (host : Host σ) (sorting : SizeSort Digest fun d => d.sizeBytes)
    (digests : List Digest) (writeBlobFunction : Bytes → Bytes → EStateM Exn (Session ι σ) PUnit)
    (throwOnError : Bool) : EStateM Exn (Session ι σ) (List DownloadResult) := do
  let requestList := sorting.sort digests
  let batches := makeBatches client.maxBatchTotalSizeBytes requestList
  let downloadResults ← batches.foldlM (client.downloadBatch writeBlobFunction throwOnError requestList) []
  (requestList.drop (batchesEnd batches)).foldlM (client.downloadOne host writeBlobFunction throwOnError)
    downloadResults

def downloadBlobs (client : Client σ) (host : Host σ) (sorting : SizeSort Digest fun d => d.sizeBytes)
    (digests : List Digest) (outputs : OutputMap) : EStateM Exn (Session ι σ) Unit := do
  let _ ← client.downloadBlobsToCallback host sorting digests (writeBlob host outputs) true
  return ()

end Client

def ReadBlob.valid (hash : Bytes → Bytes) (response : ReadBlob) : Bool :=
  response.status.code = StatusCode.ok ∧ (makeDigest hash response.data).key = response.digest.key

namespace Exchange

def thrown : Exchange → Option Exn
  | .findMissingBlobs _ (.error e) | .batchUpdateBlobs _ (.error e) | .batchReadBlobs _ (.error e)
  | .write _ _ (.error e) | .read _ (.error e) => some e
  | _ => none

def received (hash : Bytes → Bytes) : Exchange → List Bytes
  | .batchReadBlobs _ (.ok responses) => (responses.filter (·.valid hash)).map ReadBlob.data
  | .read _ (.ok data) => [data]
  | _ => []

end Exchange

def Access.thrown : Access ι → Option Exn
  | .written _ _ _ (.error e) => some e
  | _ => none

namespace Client

def Failed (exchanges : List Exchange) (accesses : List (Access ι)) : Prop :=
  ∃ e ∈ exchanges.filterMap Exchange.thrown ++ accesses.filterMap Access.thrown, e.isRuntimeError = true

def deliveries (hash : Bytes → Bytes) (outputs : OutputMap) (data : Bytes) : List (Access ι) :=
  (outputs.filter fun output => output.1 = hash data).map fun output =>
    .written output.2.1 data (filePermissions output.2.2) (.ok ())

theorem failed_append (exchanges more : List Exchange) (accesses others : List (Access ι)) :
    Failed (exchanges ++ more) (accesses ++ others) ↔ Failed exchanges accesses ∨ Failed more others := by
  simp only [Failed, List.filterMap_append, List.mem_append]
  grind

theorem not_failed_nil : ¬Failed ([] : List Exchange) ([] : List (Access ι)) := by simp [Failed]

def Ends {α : Type} (program : EStateM Exn (Session ι σ) α) (broken : Prop)
    (good : α → List Exchange → List (Access ι) → Prop) : Prop :=
  ∀ s, ∃ exchanges accesses, s.Extends exchanges accesses (exitState (program s)) ∧
    match program s with
    | .ok a _ => ¬broken ∧ ¬Failed exchanges accesses ∧ good a exchanges accesses
    | .error e _ => if e.isRuntimeError then Failed exchanges accesses else broken ∧ ¬Failed exchanges accesses

section Ends

variable {α β : Type} {broken later : Prop} {good : α → List Exchange → List (Access ι) → Prop}
  {after : α → β → List Exchange → List (Access ι) → Prop} {whole : β → List Exchange → List (Access ι) → Prop}

theorem Ends.pure (a : α) :
    Ends (pure a : EStateM Exn (Session ι σ) α) False fun b exchanges accesses =>
      b = a ∧ exchanges = [] ∧ accesses = [] :=
  fun s => ⟨[], [], .refl s, not_false, not_failed_nil, rfl, rfl, rfl⟩

theorem Ends.bind {program : EStateM Exn (Session ι σ) α} {rest : α → EStateM Exn (Session ι σ) β}
    (first : Ends program broken good) (second : ∀ a, Ends (rest a) later (after a))
    (combine : ∀ a b exchanges accesses more others, good a exchanges accesses → after a b more others →
      whole b (exchanges ++ more) (accesses ++ others)) :
    Ends (program >>= rest) (broken ∨ later) whole := by
  intro s
  obtain ⟨exchanges, accesses, extends', ended⟩ := first s
  cases run : program s with
  | error e between =>
    rw [bind_error rest run]
    rw [run] at extends' ended
    refine ⟨exchanges, accesses, extends', ?_⟩
    simp only at ended ⊢
    split
    next runtime => simpa [runtime] using ended
    next other =>
      simp only [other, Bool.false_eq_true, if_false] at ended
      exact ⟨.inl ended.1, ended.2⟩
  | ok a between =>
    rw [run] at extends' ended
    obtain ⟨unbroken, clean, correct⟩ := ended
    obtain ⟨more, others, continued, ended⟩ := second a between
    rw [bind_ok rest run]
    refine ⟨exchanges ++ more, accesses ++ others, extends'.trans continued, ?_⟩
    cases run' : rest a between with
    | ok b s' =>
      rw [run'] at ended
      obtain ⟨fine, clean', correct'⟩ := ended
      exact ⟨not_or.mpr ⟨unbroken, fine⟩, by rw [failed_append]; exact not_or.mpr ⟨clean, clean'⟩,
        combine _ _ _ _ _ _ correct correct'⟩
    | error e s' =>
      rw [run'] at ended
      simp only [failed_append] at ended ⊢
      split
      next runtime =>
        rw [if_pos runtime] at ended
        exact .inr ended
      next other =>
        rw [if_neg other] at ended
        exact ⟨.inr ended.1, not_or.mpr ⟨clean, ended.2⟩⟩

theorem Ends.mono {weaker : α → List Exchange → List (Access ι) → Prop} {other : Prop}
    {program : EStateM Exn (Session ι σ) α} (ends : Ends program broken good) (same : broken ↔ other)
    (implied : ∀ a exchanges accesses, good a exchanges accesses → weaker a exchanges accesses) :
    Ends program other weaker := by
  intro s
  obtain ⟨exchanges, accesses, extends', ended⟩ := ends s
  refine ⟨exchanges, accesses, extends', ?_⟩
  cases run : program s with
  | ok a s' =>
    rw [run] at ended
    exact ⟨mt same.mpr ended.1, ended.2.1, implied _ _ _ ended.2.2⟩
  | error e s' =>
    rw [run] at ended
    simpa only [same] using ended

theorem Ends.returning {adds : List Exchange → List (Access ι) → Prop} {program : EStateM Exn (Session ι σ) α}
    (ends : Ends program broken fun _ => adds) (result : α → β) :
    Ends (program >>= fun a => Pure.pure (result a)) broken fun _ => adds := by
  refine (ends.bind (fun a => Ends.pure (result a)) fun _ _ _ _ _ _ first ended => ?_).mono (by simp)
    fun _ _ _ => id
  rw [ended.2.1, ended.2.2, List.append_nil, List.append_nil]
  exact first

theorem Ends.recorded {returns : α → Prop} (entry : Except Exn α → Exchange) {rpc : EStateM Exn σ α}
    (raises : RaisesOnly (Exn.isRuntimeError ·) rpc) (keeps : Keeps (fun _ => True) rpc returns)
    (known : ∀ answer, (entry answer).thrown = match answer with | .ok _ => none | .error e => some e) :
    Ends (recorded entry rpc : EStateM Exn (Session ι σ) α) False fun a exchanges accesses =>
      returns a ∧ exchanges = [entry (.ok a)] ∧ accesses = [] := by
  intro s
  have returned := keeps s.server trivial
  unfold BuildboxCommon.recorded
  cases run : rpc s.server with
  | ok a server =>
    rw [run] at returned
    exact ⟨[entry (.ok a)], [], ⟨rfl, (List.append_nil _).symm⟩, not_false, by simp [Failed, known], returned.1,
      rfl, rfl⟩
  | error e server =>
    have runtime : e.isRuntimeError = true := raises _ _ _ run
    refine ⟨[entry (.error e)], [], ⟨rfl, (List.append_nil _).symm⟩, ?_⟩
    simp [runtime, Failed, known]

theorem Ends.catching {program : EStateM Exn (Session ι σ) α} {handler : Exn → EStateM Exn (Session ι σ) α}
    (ends : Ends program broken good) (rethrows : ∀ e, ∃ what, handler e = throw (.runtimeError what)) :
    Ends (catching Exn.isRuntimeError program handler) broken good := by
  intro s
  obtain ⟨exchanges, accesses, extends', ended⟩ := ends s
  unfold Effect.catching
  cases run : program s with
  | ok a s' =>
    rw [run] at extends' ended
    exact ⟨exchanges, accesses, extends', ended⟩
  | error e s' =>
    rw [run] at extends' ended
    refine ⟨exchanges, accesses, ?_⟩
    simp only at ended ⊢
    split
    next runtime =>
      obtain ⟨what, thrown⟩ := rethrows e
      rw [if_pos runtime] at ended
      rw [thrown, throw_apply]
      exact ⟨extends', ended⟩
    next other =>
      refine ⟨extends', ?_⟩
      simpa only [other] using ended

theorem Ends.foldlM {adds : List Exchange → List (Access ι)} {xs : List β} {condition : β → Prop}
    {step : α → β → EStateM Exn (Session ι σ) α} (nothing : adds [] = [])
    (additive : ∀ exchanges more, adds (exchanges ++ more) = adds exchanges ++ adds more)
    (each : ∀ x ∈ xs, ∀ a, Ends (step a x) (condition x) fun _ exchanges accesses => accesses = adds exchanges)
    (a : α) :
    Ends (xs.foldlM step a) (∃ x ∈ xs, condition x) fun _ exchanges accesses => accesses = adds exchanges := by
  induction xs generalizing a with
  | nil =>
    refine (Ends.pure a).mono (by simp) fun _ _ _ ended => ?_
    rw [ended.2.1, ended.2.2, nothing]
  | cons x xs ih =>
    have later := fun b => ih (fun y member => each y (by simp [member])) b
    rw [List.foldlM_cons]
    refine ((each x (by simp) a).bind later fun _ _ _ _ _ _ first second => ?_).mono (by simp) fun _ _ _ => id
    rw [first, second, additive]

end Ends

section Steps

variable (client : Client σ) (host : Host σ) (outputs : OutputMap)

theorem writeFileAtomically_ends (path data : Bytes) (mode : Nat) :
    Ends (writeFileAtomically host path data mode : EStateM Exn (Session ι σ) Unit) False fun _ exchanges accesses =>
      exchanges = [] ∧ accesses = [.written path data mode (.ok ())] := by
  intro s
  unfold writeFileAtomically
  cases run : replaceFile host path data mode s.server with
  | ok done server =>
    exact ⟨[], [_], ⟨(List.append_nil _).symm, rfl⟩, not_false, by simp [Failed, Access.thrown], rfl, rfl⟩
  | error e server =>
    have runtime : e.isRuntimeError = true := replaceFile_raises host path data mode _ _ _ run
    refine ⟨[], [_], ⟨(List.append_nil _).symm, rfl⟩, ?_⟩
    simp [runtime, Failed, Access.thrown]

theorem writeBlob_ends (hash data : Bytes) :
    Ends (writeBlob host outputs hash data : EStateM Exn (Session ι σ) PUnit) False fun _ exchanges accesses =>
      exchanges = [] ∧ accesses = (outputs.filter fun output => output.1 = hash).map fun output =>
        .written output.2.1 data (filePermissions output.2.2) (.ok ()) := by
  unfold writeBlob
  induction outputs.filter fun output => output.1 = hash with
  | nil => exact (Ends.pure PUnit.unit).mono Iff.rfl fun _ _ _ ended => ended.2
  | cons output found ih =>
    rw [List.forM_cons]
    refine ((writeFileAtomically_ends host _ data _).bind (fun _ => ih)
      fun _ _ _ _ _ _ first second => ?_).mono (or_self_iff) fun _ _ _ => id
    rw [first.1, first.2, second.1, second.2]
    exact ⟨rfl, rfl⟩

theorem takeResponse_ends (response : ReadBlob) :
    Ends (client.takeResponse (writeBlob host outputs) response : EStateM Exn (Session ι σ) DownloadResult) False
      fun _ exchanges accesses => exchanges = [] ∧
        accesses = (([response].filter (·.valid client.hash)).map ReadBlob.data).flatMap
          (deliveries client.hash outputs) := by
  unfold takeResponse
  simp only
  split_ifs with failed differs
  next =>
    refine (Ends.pure _).mono Iff.rfl fun _ _ _ ended => ⟨ended.2.1, ended.2.2.trans ?_⟩
    simp [ReadBlob.valid, failed]
  next =>
    refine (Ends.pure _).mono Iff.rfl fun _ _ _ ended => ⟨ended.2.1, ended.2.2.trans ?_⟩
    simp [ReadBlob.valid, differs]
  next =>
    rw [not_not] at failed differs
    have valid : response.valid client.hash = true := by simp [ReadBlob.valid, failed, differs]
    have hash : client.hash response.data = response.digest.hashOther := congrArg Prod.fst differs
    refine ((writeBlob_ends host outputs response.digest.hashOther response.data).returning _).mono Iff.rfl
      fun _ _ _ written => ⟨written.1, written.2.trans ?_⟩
    simp [valid, deliveries, hash]

theorem takeResponses_ends (responses : List ReadBlob) :
    Ends (responses.mapM (client.takeResponse (writeBlob host outputs)) :
      EStateM Exn (Session ι σ) (List DownloadResult)) False fun _ exchanges accesses => exchanges = [] ∧
        accesses = ((responses.filter (·.valid client.hash)).map ReadBlob.data).flatMap
          (deliveries client.hash outputs) := by
  induction responses with
  | nil =>
    rw [List.mapM_nil]
    exact (Ends.pure []).mono Iff.rfl fun _ _ _ ended => ended.2
  | cons response responses ih =>
    rw [List.mapM_cons]
    refine ((takeResponse_ends client host outputs response).bind (fun result => ih.returning (result :: ·))
      fun _ _ _ _ _ _ first second => ?_).mono (by simp) fun _ _ _ => id
    rw [first.1, first.2, second.1, second.2]
    refine ⟨rfl, ?_⟩
    rw [← List.flatMap_append, ← List.map_append, ← List.filter_append, List.singleton_append]

def Exchange.delivered (hash : Bytes → Bytes) (outputs : OutputMap) (exchange : Exchange) : List (Access ι) :=
  (exchange.received hash).flatMap (deliveries hash outputs)

theorem batchDownload_ends (digests : List Digest) :
    Ends (client.batchDownload digests (writeBlob host outputs) : EStateM Exn (Session ι σ) (List DownloadResult))
      False fun _ exchanges accesses => accesses = exchanges.flatMap (Exchange.delivered client.hash outputs) := by
  have answered := @Ends.recorded ι σ _ (fun _ => True) (.batchReadBlobs digests) _
    (unary_raises client (client.stub.batchReadBlobs digests) []) (Keeps.trivial _) fun answer => by
      cases answer <;> rfl
  refine (answered.bind (takeResponses_ends client host outputs) fun _ _ _ _ _ _ read taken => ?_).mono
    or_self_iff fun _ _ _ => id
  rw [read.2.1, read.2.2, taken.1, taken.2]
  simp [Exchange.delivered, Exchange.received]

theorem downloadBatch_ends (requestList : List Digest) (downloadResults : List DownloadResult)
    (batchRange : Nat × Nat) :
    Ends (client.downloadBatch (writeBlob host outputs) true requestList downloadResults batchRange :
      EStateM Exn (Session ι σ) (List DownloadResult)) False
      fun _ exchanges accesses => accesses = exchanges.flatMap (Exchange.delivered client.hash outputs) :=
  ((batchDownload_ends client host outputs _).returning (downloadResults ++ ·)).catching fun e => ⟨e.what, rfl⟩

theorem fetchString_ends (digest : Digest) :
    Ends (client.fetchString host digest : EStateM Exn (Session ι σ) Bytes) (Unreservable host digest)
      fun data exchanges accesses => (makeDigest client.hash data).key = digest.key ∧
        exchanges = [.read digest (.ok data)] ∧ accesses = [] := by
  by_cases unreservable : Unreservable host digest
  next =>
    intro s
    obtain ⟨server, failed⟩ := client.readString_unreservable unreservable [] s.server
    unfold fetchString
    rw [recorded_error (client.issueRequestAndThrowOnErrors_error failed)]
    refine ⟨[.read digest (.error .lengthError)], [], ⟨rfl, (List.append_nil _).symm⟩, ?_⟩
    simp [unreservable, Failed, Exchange.thrown, Exn.isRuntimeError]
  next =>
    refine (Ends.recorded (.read digest) ?_ ?_ fun answer => by cases answer <;> rfl).mono (by simp [unreservable])
      fun _ _ _ => id
    next =>
      exact client.issueRequestAndThrowOnErrors_raises (client.readString_raises unreservable fun _ => rfl)
        (fun _ _ => rfl) []
    next => exact client.issueRequestAndThrowOnErrors_keeps (client.readString_keeps host digest) []

theorem downloadOne_ends (downloadResults : List DownloadResult) (digest : Digest) :
    Ends (client.downloadOne host (writeBlob host outputs) true downloadResults digest :
      EStateM Exn (Session ι σ) (List DownloadResult)) (Unreservable host digest)
      fun _ exchanges accesses => accesses = exchanges.flatMap (Exchange.delivered client.hash outputs) := by
  refine Ends.catching ?_ fun e => by cases e <;> exact ⟨_, rfl⟩
  have stored := fun data => @Ends.returning ι σ _ _ _ _ _ (writeBlob_ends host outputs digest.hashOther data)
    fun _ => downloadResults ++ [(⟨digest, ⟨StatusCode.ok, []⟩⟩ : DownloadResult)]
  refine ((fetchString_ends client host digest).bind stored fun _ _ _ _ _ _ read written => ?_).mono (by simp)
    fun _ _ _ => id
  have hash : client.hash _ = digest.hashOther := congrArg Prod.fst read.1
  rw [read.2.1, read.2.2, written.1, written.2, ← hash]
  simp [Exchange.delivered, Exchange.received, deliveries]

end Steps

section Main

variable (client : Client σ) (host : Host σ) (sorting : SizeSort Digest fun d => d.sizeBytes)

def streamed (digests : List Digest) : List Digest :=
  (sorting.sort digests).drop (batchesEnd (makeBatches client.maxBatchTotalSizeBytes (sorting.sort digests)))

theorem downloadBlobs_ends (digests : List Digest) (outputs : OutputMap) :
    Ends (client.downloadBlobs host sorting digests outputs : EStateM Exn (Session ι σ) Unit)
      (∃ digest ∈ streamed client sorting digests, Unreservable host digest)
      fun _ exchanges accesses => accesses = exchanges.flatMap (Exchange.delivered client.hash outputs) := by
  have additive := fun exchanges more : List Exchange =>
    @List.flatMap_append _ (Access ι) exchanges more (Exchange.delivered client.hash outputs)
  have batched := Ends.foldlM rfl additive (fun batchRange (_ : batchRange ∈ makeBatches
    client.maxBatchTotalSizeBytes (sorting.sort digests)) downloadResults =>
      downloadBatch_ends client host outputs (sorting.sort digests) downloadResults batchRange) []
  have others := fun downloadResults => Ends.foldlM rfl additive (fun digest
    (_ : digest ∈ streamed client sorting digests) downloadResults =>
      downloadOne_ends client host outputs downloadResults digest) downloadResults
  refine ((batched.bind others fun _ _ _ _ _ _ first second => ?_).returning fun _ => ()).mono (by simp)
    fun _ _ _ => id
  rw [first, second, additive]

def Completed (hash : Bytes → Bytes) (digests : List Digest) (outputs : OutputMap) (accesses : List (Access ι)) :
    EStateM.Result Exn (Session ι σ) Unit → Prop
  | .ok _ _ => ∀ digest ∈ digests, ∀ output ∈ outputs, output.1 = digest.hashOther →
    ∃ contents, (makeDigest hash contents).key = digest.key ∧
      .written output.2.1 contents (filePermissions output.2.2) (.ok ()) ∈ accesses
  | .error e _ => e.isRuntimeError = true

def Received (hash : Bytes → Bytes) (exchanges : List Exchange) (digest : Digest) : Prop :=
  ∃ contents ∈ exchanges.flatMap (Exchange.received hash), (makeDigest hash contents).key = digest.key

theorem written_iff {hash : Bytes → Bytes} {outputs : OutputMap} {exchanges : List Exchange} {path contents : Bytes}
    {mode : Nat} : Access.written path contents mode (.ok ()) ∈
        (exchanges.flatMap (Exchange.delivered hash outputs) : List (Access ι)) ↔
      contents ∈ exchanges.flatMap (Exchange.received hash) ∧
        ∃ output ∈ outputs, output.1 = hash contents ∧ output.2.1 = path ∧ filePermissions output.2.2 = mode := by
  simp only [Exchange.delivered, deliveries, List.mem_flatMap, List.mem_map, List.mem_filter]
  constructor
  next =>
    rintro ⟨exchange, member, data, received, output, ⟨listed, same⟩, written⟩
    obtain ⟨rfl, rfl, rfl, -⟩ := Access.written.inj written
    exact ⟨⟨exchange, member, received⟩, output, listed, by simpa using same, rfl, rfl⟩
  next =>
    rintro ⟨⟨exchange, member, received⟩, output, listed, same, rfl, rfl⟩
    exact ⟨exchange, member, contents, received, output, ⟨listed, by simpa using same⟩, rfl⟩

theorem downloadBlobs_completed_iff (digests : List Digest) (outputs : OutputMap) (s : Session ι σ) :
    ∃ exchanges accesses, s.Extends exchanges accesses
        (exitState (client.downloadBlobs host sorting digests outputs s)) ∧
      (Completed client.hash digests outputs accesses (client.downloadBlobs host sorting digests outputs s) ↔
        Failed exchanges accesses ∨
          (¬∃ digest ∈ streamed client sorting digests, Unreservable host digest) ∧
            ∀ digest ∈ digests, (∃ output ∈ outputs, output.1 = digest.hashOther) →
              Received client.hash exchanges digest) := by
  obtain ⟨exchanges, accesses, continued, ended⟩ := downloadBlobs_ends client host sorting digests outputs s
  refine ⟨exchanges, accesses, continued, ?_⟩
  cases run : client.downloadBlobs host sorting digests outputs s with
  | error e s' =>
    rw [run] at ended
    simp only [Completed] at ended ⊢
    split_ifs at ended with runtime
    next => simp only [runtime, ended, true_or]
    next => simp [runtime, ended]
  | ok done s' =>
    rw [run] at ended
    obtain ⟨reservable, clean, written⟩ := ended
    subst written
    simp only [Completed, written_iff, clean, reservable, not_false_eq_true, true_and, false_or]
    constructor
    next =>
      rintro completed digest requested ⟨output, listed, same⟩
      obtain ⟨contents, correct, received, -⟩ := completed digest requested output listed same
      exact ⟨contents, received, correct⟩
    next =>
      intro answered digest requested output listed same
      obtain ⟨contents, received, correct⟩ := answered digest requested ⟨output, listed, same⟩
      exact ⟨contents, correct, received, output, listed, same.trans (congrArg Prod.fst correct).symm, rfl, rfl⟩

end Main

def emptyStub : Stub Unit where
  findMissingBlobs asked := pure (⟨StatusCode.ok, []⟩, asked)
  batchUpdateBlobs _ := pure (⟨StatusCode.internal, []⟩, [])
  batchReadBlobs asked := pure (⟨StatusCode.ok, []⟩, asked.map fun digest =>
    ⟨digest, [], ⟨5, text "Digest not found in CAS."⟩⟩)
  openWriter := pure ()
  write _ := pure false
  finishWrite := pure (⟨StatusCode.internal, []⟩, 0)
  read _ := pure ([], ⟨5, text "Digest not found in CAS."⟩)

def emptyServerClient : Client Unit where
  stub := emptyStub
  hash := id
  instanceName := []
  uuid := text "uuid"
  maxBatchTotalSizeBytes := 1024
  grpcRetryLimit := 1

def writableHost : Host Unit where
  mkstemp name := pure (.ok name)
  fchmod _ _ := pure (.ok ())
  overwrite _ _ := pure (.ok ())
  rename _ _ := pure (.ok ())
  unlink _ := pure (.ok ())
  mkdir _ _ := pure (.ok ())
  symlink _ _ := pure (.ok ())
  stringCapacity := 2 ^ 63 - 1

def missingBlob : Digest := makeDigest id (text "missing-blob")

theorem makeBatches_missingBlob : makeBatches 1024 [missingBlob] = [(0, 1)] := by
  rw [makeBatches, batchesFrom, if_neg (by decide)]
  have all : fillBatch (1024 - sizeofEstimatedTopLevelGrpcContainer) 0 [missingBlob] = 1 := by decide
  simp only [all, List.drop_succ_cons, List.drop_zero, batchesFrom, Nat.zero_add]

def wantedOutput : OutputMap := [(text "missing-blob", text "out", false)]

theorem missingBlob_run : emptyServerClient.downloadBlobs writableHost (SizeSort.stable _ _) [missingBlob] wantedOutput
    (⟨(), [], []⟩ : Session Bool Unit) = .ok () ⟨(), [.batchReadBlobs [missingBlob]
      (.ok [⟨missingBlob, [], ⟨5, text "Digest not found in CAS."⟩⟩])], []⟩ := by
  have sorted : (SizeSort.stable Digest fun d => d.sizeBytes).sort [missingBlob] = [missingBlob] :=
    List.perm_singleton.mp ((SizeSort.stable _ _).perm _)
  unfold downloadBlobs downloadBlobsToCallback
  simp only [sorted, emptyServerClient, makeBatches_missingBlob]
  rfl

theorem downloadBlobs_missing_blob : ∃ exchanges, Session.Extends ⟨(), [], []⟩ exchanges ([] : List (Access Bool))
      (exitState (emptyServerClient.downloadBlobs writableHost (SizeSort.stable _ _) [missingBlob] wantedOutput
        ⟨(), [], []⟩)) ∧
    ¬Completed id [missingBlob] wantedOutput ([] : List (Access Bool))
      (emptyServerClient.downloadBlobs writableHost (SizeSort.stable _ _) [missingBlob] wantedOutput ⟨(), [], []⟩) := by
  rw [missingBlob_run]
  refine ⟨_, ⟨rfl, rfl⟩, fun completed => ?_⟩
  obtain ⟨contents, -, written⟩ := completed missingBlob (by simp) _ (List.mem_singleton_self _) rfl
  simp at written

end Client

end BuildboxCommon
