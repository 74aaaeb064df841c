import BuildboxCommon.Client.DownloadToFile

set_option autoImplicit false

namespace BuildboxCommon

open ByteString Effect

variable {ι σ : Type}

namespace Client

-- `d_digestGenerator` is never given a digest function.
def withDefaultGenerator (client : Client σ) (library : HashLibrary) : Client σ :=
  { client with hash := fun data => hashToHex (library DigestGenerator.byDefault data) }

def uploadMessage {Message : Type} (client : Client σ) (library : HashLibrary) (digestFunctionValue : DigestFunction)
    (codec : Encoding Message) (message : Message) : EStateM Exn (Session ι σ) Digest := do
  let str := codec.serializeAsString message
  let digest ← liftExcept (CASHash.hash library digestFunctionValue str)
  client.uploadString str digest
  return digest

inductive Sent (library : HashLibrary) (digestFunctionValue : DigestFunction) (data : Bytes) (digest : Digest) : Prop
  | hashed (computed : CASHash.hash library digestFunctionValue data = .ok digest)
  | uploaded {Message ι σ : Type} (client : Client σ) (codec : Encoding Message) (message : Message)
      (serialized : codec.serializeAsString message = data) (s s' : Session ι σ)
      (returned : client.uploadMessage library digestFunctionValue codec message s = .ok digest s')

structure Serves (stub : Stub σ) (resourceName : Bytes) (digest : Digest) (data : Bytes) (s : σ) : Prop where
  read : ∃ chunks status, (stub.read ⟨resourceName, 0⟩ s).1 = (chunks, status) ∧ status.ok = true ∧
    chunks.flatten = data
  batchRead : ∃ status message, (stub.batchReadBlobs [digest] s).1 =
    (status, [⟨digest, data, ⟨StatusCode.ok, message⟩⟩]) ∧ status.ok = true

structure Accepted (client : Client σ) (host : Host σ) (files : LocalFiles σ) (fd : Nat) (digest : Digest)
    (data : Bytes) (s : Session ι σ) : Prop where
  fetched : ∃ s', client.fetchString host digest s = .ok data s'
  downloaded : ∃ s', client.download files fd digest s.server = .ok () s' ∧ files.stored s' fd = data
  batched : ∃ message s', client.batchDownload [digest] (noted files fun _ _ => pure ()) s =
      .ok [⟨digest, ⟨StatusCode.ok, message⟩⟩] s' ∧
    ∃ file, s'.accesses = s.accesses ++ [.invoked digest.hashOther data file]

theorem sent_iff {library : HashLibrary} {digestFunctionValue : DigestFunction} {data : Bytes} {digest : Digest} :
    Sent library digestFunctionValue data digest ↔ digest = finish library digestFunctionValue data := by
  constructor
  next =>
    intro sent
    cases sent with
    | hashed computed =>
      rw [CASHash.hash, DigestGenerator.hash_eq] at computed
      exact (Except.ok.inj computed).symm
    | uploaded client codec message serialized s s' returned =>
      unfold uploadMessage at returned
      simp only [serialized, CASHash.hash, DigestGenerator.hash_eq, liftExcept_ok, pure_bind] at returned
      cases run : client.uploadString data (finish library digestFunctionValue data) s with
      | ok done between =>
        rw [bind_ok _ run] at returned
        cases returned
        rfl
      | error e between =>
        rw [bind_error _ run] at returned
        cases returned
  next =>
    rintro rfl
    exact .hashed (DigestGenerator.hash_eq _ _ _)

def digits : DigestFunction → Nat
  | .blake3zcc => 0
  | other => 2 * other.size

theorem length_finish {library : HashLibrary}
    (sizes : ∀ digestFunction data, (library digestFunction data).length = digestFunction.size)
    (digestFunction : DigestFunction) (data : Bytes) :
    (finish library digestFunction data).hashOther.length = digits digestFunction := by
  have hexadecimal := (length_hashToHex (library digestFunction data)).trans (by rw [sizes])
  cases digestFunction with
  | blake3zcc => rfl
  | _ => exact hexadecimal

theorem sha256_of_key {library : HashLibrary}
    (sizes : ∀ digestFunction data, (library digestFunction data).length = digestFunction.size)
    {digestFunctionValue : DigestFunction} {data : Bytes}
    (same : (finish library .sha256 data).key = (finish library digestFunctionValue data).key) :
    digestFunctionValue = .sha256 := by
  have lengths := congrArg List.length (congrArg Prod.fst same)
  simp only [Digest.key, length_finish sizes] at lengths
  cases digestFunctionValue with
  | sha256 => rfl
  | _ => cases lengths

section Accepting

variable {client : Client σ} {host : Host σ} {files : LocalFiles σ} {fd : Nat} {digest : Digest} {data : Bytes}

theorem fetchString_ok {s : Session ι σ}
    (served : Serves client.stub (client.makeResourceName digest false) digest data s.server)
    (reservable : ¬Unreservable host digest) (same : (makeDigest client.hash data).key = digest.key) :
    ∃ s', client.fetchString host digest s = .ok data s' := by
  obtain ⟨chunks, status, answer, ok, rfl⟩ := served.read
  have size : (chunks.flatten.length : Int) = digest.sizeBytes := congrArg Prod.snd same
  have run : client.readString host digest [] s.server = .ok (status, chunks.flatten)
      (client.stub.read ⟨client.makeResourceName digest false, 0⟩ s.server).2 := by
    unfold readString
    rw [bind_ok _ (show calling (client.stub.read ⟨client.makeResourceName digest false, 0⟩) s.server =
      .ok (chunks, status) _ by rw [← answer]; rfl)]
    simp only [reservable, ok, size, same, if_false, Bool.not_true, Bool.false_eq_true, ne_eq, not_true_eq_false]
    rfl
  unfold fetchString recorded
  rw [issueRequestAndThrowOnErrors_ok run ok]
  exact ⟨_, rfl⟩

def Writable (files : LocalFiles σ) (fd : Nat) : Prop := ∀ data s, (files.write fd data s).1.1 = data.length

theorem receive_ok (writable : Writable files fd) (chunks : List Bytes) {transfer : Transfer}
    (unfinished : transfer.digestContext.finalized = false) (s : σ) :
    ∃ transfer' s', chunks.foldlM (receive files fd) transfer s = .ok transfer' s' ∧
      transfer'.digestContext.finalized = false ∧
      transfer'.digestContext.consumed = transfer.digestContext.consumed ++ chunks.flatten ∧
      files.stored s' fd = files.stored s fd ++ chunks.flatten ∧
      transfer'.bytesDownloaded = transfer.bytesDownloaded + chunks.flatten.length ∧
      ∀ view : σ → Nat, (∀ data s, view (files.write fd data s).2 = view s) → view s' = view s := by
  induction chunks generalizing transfer s with
  | nil => exact ⟨transfer, s, rfl, unfinished, by simp, by simp, rfl, fun _ _ => rfl⟩
  | cons chunk chunks ih =>
    have all := writable chunk s
    obtain ⟨-, appended⟩ := files.appended fd chunk s all
    have updated : transfer.digestContext.update chunk = .ok ⟨transfer.digestContext.consumed ++ chunk,
        transfer.digestContext.dataSize + chunk.length, false,
        by rw [transfer.digestContext.counted, List.length_append]⟩ := by
      unfold DigestContext.update
      simp [unfinished]
    have taken : ∃ next, receive files fd transfer chunk s = .ok next (files.write fd chunk s).2 ∧
        next.digestContext.finalized = false ∧
        next.digestContext.consumed = transfer.digestContext.consumed ++ chunk ∧
        next.bytesDownloaded = transfer.bytesDownloaded + chunk.length := by
      refine ⟨⟨transfer.bytesDownloaded + chunk.length, ⟨transfer.digestContext.consumed ++ chunk,
        transfer.digestContext.dataSize + chunk.length, false,
        by rw [transfer.digestContext.counted, List.length_append]⟩⟩, ?_, rfl, rfl, rfl⟩
      unfold receive
      rw [bind_ok _ (show calling (files.write fd chunk) s = .ok _ _ from rfl)]
      simp only [all, updated, ne_eq, not_true_eq_false, if_false, liftExcept_ok]
      rfl
    obtain ⟨next, run, open', consumed, count⟩ := taken
    obtain ⟨transfer', s', rest, finished, whole, stored, total, unseen⟩ := ih open' (files.write fd chunk s).2
    refine ⟨transfer', s', ?_, finished, by simp [whole, consumed], by simp [stored, appended], ?_, ?_⟩
    next => rw [List.foldlM_cons, bind_ok _ run, rest]
    next => rw [total, count, List.flatten_cons, List.length_append, Nat.add_assoc]
    next => exact fun view keeps => (unseen view keeps).trans (keeps chunk s)

theorem download_ok {s : σ} (served : Serves client.stub (client.makeResourceName digest false) digest data s)
    (remote : Remote client.stub files) (writable : Writable files fd) (empty : files.stored s fd = [])
    (same : (makeDigest client.hash data).key = digest.key) :
    ∃ s', client.download files fd digest s = .ok () s' ∧ files.stored s' fd = data := by
  obtain ⟨chunks, status, answer, ok, rfl⟩ := served.read
  obtain ⟨-, unchanged⟩ := remote ⟨client.makeResourceName digest false, 0⟩ s
  obtain ⟨transfer, s', received, unfinished, consumed, stored, -, -⟩ := @receive_ok σ files fd writable chunks
    ⟨0, DigestContext.create⟩ rfl (client.stub.read ⟨client.makeResourceName digest false, 0⟩ s).2
  rw [unchanged, empty, List.nil_append] at stored
  rw [show DigestContext.create.consumed = [] from rfl, List.nil_append] at consumed
  have size : (chunks.flatten.length : Int) = digest.sizeBytes := congrArg Prod.snd same
  have finalized : transfer.digestContext.finalizeDigest (makeDigest client.hash) =
      .ok (makeDigest client.hash chunks.flatten, { transfer.digestContext with finalized := true }) := by
    unfold DigestContext.finalizeDigest
    simp [unfinished, consumed, transfer.digestContext.counted, makeDigest]
  have run : ∃ result, client.readFile files fd digest ⟨0, DigestContext.create⟩ s = .ok (status, result) s' := by
    refine ⟨{ transfer with digestContext := { transfer.digestContext with finalized := true } }, ?_⟩
    unfold readFile
    rw [bind_ok _ (show calling (client.stub.read ⟨client.makeResourceName digest false, 0⟩) s =
      .ok (chunks, status) _ by rw [← answer]; rfl)]
    simp only
    rw [bind_ok _ received]
    simp only [ok, Bool.not_true, Bool.false_eq_true, if_false]
    rw [bind_ok _ (show calling (files.stSize fd) s' = .ok _ _ from rfl)]
    simp only [stored, size, finalized, same, ne_eq, not_true_eq_false, if_false, liftExcept_ok, pure_bind]
    rfl
  obtain ⟨result, run⟩ := run
  unfold download
  rw [bind_ok _ (issueRequestAndThrowOnErrors_ok run ok)]
  exact ⟨s', rfl, stored⟩

theorem batchDownload_ok {s : Session ι σ}
    (served : Serves client.stub (client.makeResourceName digest false) digest data s.server)
    (same : (makeDigest client.hash data).key = digest.key) :
    ∃ message s', client.batchDownload [digest] (noted files fun _ _ => pure ()) s =
        .ok [⟨digest, ⟨StatusCode.ok, message⟩⟩] s' ∧
      ∃ file, s'.accesses = s.accesses ++ [.invoked digest.hashOther data file] := by
  obtain ⟨status, message, answer, ok⟩ := served.batchRead
  have run : unary (client.stub.batchReadBlobs [digest]) [] s.server =
      .ok (status, [⟨digest, data, ⟨StatusCode.ok, message⟩⟩]) (client.stub.batchReadBlobs [digest] s.server).2 := by
    rw [← answer]
    rfl
  have answered : recorded (.batchReadBlobs [digest])
      (client.issueRequestAndThrowOnErrors (unary (client.stub.batchReadBlobs [digest])) []) s =
      .ok [⟨digest, data, ⟨StatusCode.ok, message⟩⟩]
        { s with
          server := (client.stub.batchReadBlobs [digest] s.server).2
          exchanges := s.exchanges ++
            [.batchReadBlobs [digest] (.ok [⟨digest, data, ⟨StatusCode.ok, message⟩⟩])] } := by
    unfold recorded
    rw [issueRequestAndThrowOnErrors_ok run ok]
  have taken (s : Session ι σ) :
      client.takeResponse (noted files fun _ _ => pure ()) ⟨digest, data, ⟨StatusCode.ok, message⟩⟩ s =
        .ok ⟨digest, ⟨StatusCode.ok, message⟩⟩
          { s with accesses := s.accesses ++ [.invoked digest.hashOther data (files.file s.server data)] } := by
    unfold takeResponse
    simp only [same, ne_eq, not_true_eq_false, if_false]
    rfl
  have downloaded : ∃ s', client.batchDownload [digest] (noted files fun _ _ => pure ()) s =
      .ok [⟨digest, ⟨StatusCode.ok, message⟩⟩] s' ∧
        ∃ file, s'.accesses = s.accesses ++ [.invoked digest.hashOther data file] := by
    unfold batchDownload
    rw [bind_ok _ answered, List.mapM_cons, bind_ok _ (taken _)]
    exact ⟨_, rfl, _, rfl⟩
  exact ⟨message, downloaded⟩

end Accepting

theorem accepted_iff {library : HashLibrary}
    (sizes : ∀ digestFunction data, (library digestFunction data).length = digestFunction.size)
    (client : Client σ) (host : Host σ) (files : LocalFiles σ) (fd : Nat) {digestFunctionValue : DigestFunction}
    {data : Bytes} {digest : Digest} (sent : Sent library digestFunctionValue data digest) (s : Session ι σ)
    (served : Serves client.stub (client.makeResourceName digest false) digest data s.server)
    (reservable : ¬Unreservable host digest) (remote : Remote client.stub files) (writable : Writable files fd)
    (empty : files.stored s.server fd = []) :
    Accepted (client.withDefaultGenerator library) host files fd digest data s ↔ digestFunctionValue = .sha256 := by
  obtain rfl := sent_iff.mp sent
  constructor
  next =>
    intro accepted
    obtain ⟨s', run⟩ := accepted.fetched
    have ended := @fetchString_runs ι σ (fun _ => True) (client.withDefaultGenerator library) host
      (finish library digestFunctionValue data) s trivial
    rw [run] at ended
    exact sha256_of_key sizes ended.1
  next =>
    rintro rfl
    have same : (makeDigest (client.withDefaultGenerator library).hash data).key =
      (finish library .sha256 data).key := rfl
    exact ⟨fetchString_ok served reservable same, download_ok served remote writable empty same,
      batchDownload_ok served same⟩

section Samples

def greeting : Bytes := text "hello"

def greetingLibrary (digestFunction : DigestFunction) (data : Bytes) : Bytes :=
  if data = greeting then
    match digestFunction with
    | .md5 => [93, 65, 64, 42, 188, 75, 42, 118, 185, 113, 157, 145, 16, 23, 197, 146]
    | .sha256 => [44, 242, 77, 186, 95, 176, 163, 14, 38, 232, 59, 42, 197, 185, 226, 158,
        27, 22, 30, 92, 31, 167, 66, 94, 115, 4, 51, 98, 147, 139, 152, 36]
    | other => List.replicate other.size 0
  else List.replicate digestFunction.size 0

theorem length_greetingLibrary (digestFunction : DigestFunction) (data : Bytes) :
    (greetingLibrary digestFunction data).length = digestFunction.size := by
  unfold greetingLibrary
  split
  next =>
    cases digestFunction with
    | md5 | sha256 => rfl
    | _ => exact List.length_replicate
  next => exact List.length_replicate

def greetingStub : Stub SampleDisk :=
  { blobStub with
    batchReadBlobs := fun asked => pure (⟨StatusCode.ok, []⟩, asked.map fun digest =>
      ⟨digest, greeting, ⟨StatusCode.ok, []⟩⟩)
    read := fun _ => pure ([text "hel", text "lo"], ⟨StatusCode.ok, []⟩) }

def greetingClient : Client SampleDisk := { blobClient with stub := greetingStub }

def sampleStart : Session Bool SampleDisk := ⟨⟨fun _ => none, fun _ => [], 0⟩, [], []⟩

theorem greeting_served (resourceName : Bytes) (digest : Digest) :
    Serves greetingStub resourceName digest greeting sampleStart.server :=
  ⟨⟨[text "hel", text "lo"], ⟨StatusCode.ok, []⟩, rfl, rfl, rfl⟩, ⟨StatusCode.ok, []⟩, [], rfl, rfl⟩

theorem accepted_iff_greeting :
    Accepted (greetingClient.withDefaultGenerator greetingLibrary) diskHost sampleFiles 0
      (finish greetingLibrary .sha256 greeting) greeting sampleStart :=
  (accepted_iff length_greetingLibrary greetingClient diskHost sampleFiles 0
    (.hashed (DigestGenerator.hash_eq _ .sha256 _)) sampleStart (greeting_served _ _) (by decide)
    (fun _ _ => ⟨rfl, rfl⟩) (fun _ _ => rfl) rfl).mpr rfl

theorem md5_not_accepted :
    Sent greetingLibrary .md5 greeting (finish greetingLibrary .md5 greeting) ∧
      Serves greetingStub (greetingClient.makeResourceName (finish greetingLibrary .md5 greeting) false)
        (finish greetingLibrary .md5 greeting) greeting sampleStart.server ∧
      ¬Accepted (greetingClient.withDefaultGenerator greetingLibrary) diskHost sampleFiles 0
        (finish greetingLibrary .md5 greeting) greeting sampleStart := by
  refine ⟨.hashed (DigestGenerator.hash_eq _ _ _), greeting_served _ _, fun accepted => ?_⟩
  obtain ⟨s', run⟩ := accepted.fetched
  have ended := @fetchString_runs Bool SampleDisk (fun _ => True) (greetingClient.withDefaultGenerator
    greetingLibrary) diskHost (finish greetingLibrary .md5 greeting) sampleStart trivial
  rw [run] at ended
  cases sha256_of_key length_greetingLibrary ended.1

end Samples

end Client

end BuildboxCommon
