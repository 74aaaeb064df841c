import BuildboxCommon.Client.Attempts
import BuildboxCommon.Client.DigestAgreement

set_option autoImplicit false

namespace BuildboxCommon.Client

open ByteString Effect

variable {ι σ : Type}

structure ReadScript (content : Bytes) where
  chunks (attempt offset : Nat) : List Bytes
  status (attempt : Nat) : Status
  honoured : ∀ attempt offset, (chunks attempt offset).flatten <+: content.drop offset
  ends : ∀ attempt, (status attempt).code = StatusCode.unavailable ∨
    (status attempt).ok = true ∧ ∀ offset, (chunks attempt offset).flatten = content.drop offset

structure Plays (stub : Stub σ) (files : LocalFiles σ) (fd : Nat) {content : Bytes} (script : ReadScript content)
    (resourceName : Bytes) (attempt : σ → Nat) : Prop where
  read : ∀ offset s, (stub.read ⟨resourceName, offset⟩ s).1 =
    (script.chunks (attempt s) offset, script.status (attempt s))
  advances : ∀ offset s, attempt (stub.read ⟨resourceName, offset⟩ s).2 = attempt s + 1
  remote : Remote stub files
  writable : Writable files fd
  elsewhere : ∀ data s, attempt (files.write fd data s).2 = attempt s

inductive SameDownload (client : Client σ) (host : Host σ) (files : LocalFiles σ) (fd : Nat) (digest : Digest)
    (content : Bytes) (s : Session ι σ) : Prop where
  | succeeded {s' : Session ι σ} {server : σ} (fetched : client.fetchString host digest s = .ok content s')
      (downloaded : client.download files fd digest s.server = .ok () server)
      (stored : files.stored server fd = content)
  | failed {status : Status} {s' : Session ι σ} {server : σ}
      (fetch : client.fetchString host digest s = .error (.grpcError status) s')
      (download : client.download files fd digest s.server = .error (.grpcError status) server)

section Attempts

variable {client : Client σ} {host : Host σ} {files : LocalFiles σ} {fd : Nat} {digest : Digest} {content : Bytes}
  {script : ReadScript content} {attempt : σ → Nat}

def ReadScript.answer (script : ReadScript content) (attempt : Nat) : Except Exn Status := .ok (script.status attempt)

theorem ReadScript.whole (script : ReadScript content) {attempt : Nat} (ok : (script.status attempt).ok = true)
    (offset : Nat) : (script.chunks attempt offset).flatten = content.drop offset := by
  rcases script.ends attempt with unavailable | ⟨-, whole⟩
  next => simp [Status.ok, unavailable, StatusCode.unavailable, StatusCode.ok] at ok
  next => exact whole offset

variable (plays : Plays client.stub files fd script (client.makeResourceName digest false) attempt)
  (same : (makeDigest client.hash content).key = digest.key)

include plays same

theorem readString_follows (reservable : ¬Unreservable host digest) :
    Follows client.grpcRetryLimit (client.readString host digest) script.answer (fun k _ s => attempt s = k)
      (fun result _ => result = content) fun _ => True where
  raises := fun _ _ _ _ _ raised => by cases raised
  answers := by
    rintro k captured s status rfl ended
    obtain rfl := (Except.ok.inj ended).symm
    have size : (content.length : Int) = digest.sizeBytes := congrArg Prod.snd same
    have called : (calling (client.stub.read ⟨client.makeResourceName digest false, 0⟩) : EStateM Exn σ _) s =
        .ok (script.chunks (attempt s) 0, script.status (attempt s))
          (client.stub.read ⟨client.makeResourceName digest false, 0⟩ s).2 := by
      rw [← plays.read 0 s]
      rfl
    have advanced := plays.advances 0 s
    unfold readString
    rw [bind_ok _ called]
    simp only [reservable, if_false]
    cases ok : (script.status (attempt s)).ok with
    | false => exact ⟨captured, _, rfl, trivial, by simp, fun _ _ _ => advanced⟩
    | true =>
      have whole : (script.chunks (attempt s) 0).flatten = content := script.whole ok 0
      refine ⟨content, (client.stub.read ⟨client.makeResourceName digest false, 0⟩ s).2, ?_, trivial, fun _ => rfl,
        by simp⟩
      simp [whole, size, same]

-- What was received so far is in the file and in the hash, and is asked for no more.
theorem readFile_follows :
    Follows client.grpcRetryLimit (client.readFile files fd digest) script.answer
      (fun k transfer s => attempt s = k ∧ transfer.bytesDownloaded ≤ content.length ∧
        transfer.digestContext.finalized = false ∧
        transfer.digestContext.consumed = content.take transfer.bytesDownloaded ∧
        files.stored s fd = content.take transfer.bytesDownloaded)
      (fun _ s => files.stored s fd = content) fun _ => True where
  raises := fun _ _ _ _ _ raised => by cases raised
  answers := by
    rintro k transfer s status ⟨rfl, within, unfinished, consumed, stored⟩ ended
    obtain rfl := (Except.ok.inj ended).symm
    have size : (content.length : Int) = digest.sizeBytes := congrArg Prod.snd same
    have read := plays.read transfer.bytesDownloaded s
    have advanced := plays.advances transfer.bytesDownloaded s
    obtain ⟨-, unchanged⟩ := plays.remote ⟨client.makeResourceName digest false, transfer.bytesDownloaded⟩ s
    have called : (calling (client.stub.read ⟨client.makeResourceName digest false, transfer.bytesDownloaded⟩) :
        EStateM Exn σ _) s = .ok (script.chunks (attempt s) transfer.bytesDownloaded, script.status (attempt s))
          (client.stub.read ⟨client.makeResourceName digest false, transfer.bytesDownloaded⟩ s).2 := by
      rw [← read]
      rfl
    obtain ⟨received, s', run, unfinished', consumed', stored', total, unseen⟩ :=
      receive_ok plays.writable (script.chunks (attempt s) transfer.bytesDownloaded) unfinished
        (client.stub.read ⟨client.makeResourceName digest false, transfer.bytesDownloaded⟩ s).2
    have honoured := script.honoured (attempt s) transfer.bytesDownloaded
    have reached : received.bytesDownloaded ≤ content.length := by
      have short := honoured.length_le
      rw [List.length_drop] at short
      omega
    have upTo : content.take transfer.bytesDownloaded ++
        (script.chunks (attempt s) transfer.bytesDownloaded).flatten = content.take received.bytesDownloaded := by
      rw [total, List.take_add, ← List.prefix_iff_eq_take.mp honoured]
    rw [consumed, upTo] at consumed'
    rw [unchanged, stored, upTo] at stored'
    unfold readFile
    rw [bind_ok _ called]
    simp only
    rw [bind_ok _ run]
    cases ok : (script.status (attempt s)).ok with
    | false =>
      refine ⟨received, s', rfl, trivial, by simp, fun _ _ _ => ?_⟩
      exact ⟨(unseen attempt plays.elsewhere).trans advanced, reached, unfinished', consumed', stored'⟩
    | true =>
      have whole : content.take received.bytesDownloaded = content := by
        rw [← upTo, script.whole ok, List.take_append_drop]
      rw [whole] at consumed' stored'
      have finalized : received.digestContext.finalizeDigest (makeDigest client.hash) =
          .ok (makeDigest client.hash content, { received.digestContext with finalized := true }) := by
        unfold DigestContext.finalizeDigest
        simp [unfinished', consumed', received.digestContext.counted, makeDigest]
      refine ⟨{ received with digestContext := { received.digestContext with finalized := true } }, s', ?_, trivial,
        fun _ => stored', by simp⟩
      simp only [Bool.not_true, Bool.false_eq_true, if_false]
      rw [bind_ok _ (show calling (files.stSize fd) s' = .ok _ _ from rfl)]
      simp only [stored', size, finalized, same, ne_eq, not_true_eq_false, if_false, liftExcept_ok, pure_bind]
      rfl

end Attempts

theorem download_fetchString_agree {client : Client σ} {host : Host σ} {files : LocalFiles σ} {fd : Nat}
    {digest : Digest} {content : Bytes} {script : ReadScript content} {attempt : σ → Nat}
    (plays : Plays client.stub files fd script (client.makeResourceName digest false) attempt)
    (same : (makeDigest client.hash content).key = digest.key) (reservable : ¬Unreservable host digest)
    {s : Session ι σ} (start : attempt s.server = 0) (empty : files.stored s.server fd = []) :
    SameDownload client host files fd digest content s := by
  have fetching := (readString_follows plays same reservable).settles [] s.server start
  have downloading := (readFile_follows plays same).settles ⟨0, DigestContext.create⟩ s.server
    ⟨start, Nat.zero_le _, rfl, rfl, by simpa using empty⟩
  have fetched : client.fetchString host digest s = recorded (.read digest)
    (client.issueRequestAndThrowOnErrors (client.readString host digest) []) s := rfl
  unfold recorded at fetched
  generalize client.issueRequestAndThrowOnErrors (client.readString host digest) [] s.server = fetch at *
  generalize downloads : client.issueRequestAndThrowOnErrors (client.readFile files fd digest)
    ⟨0, DigestContext.create⟩ s.server = download at *
  cases fetching with
  | returned ok _ done =>
    cases downloading with
    | returned ok' _ stored =>
      subst done
      exact .succeeded fetched (by unfold Client.download; rw [bind_ok _ downloads]; rfl) stored
    | threw error => cases ok.symm.trans error
  | threw error =>
    cases downloading with
    | returned ok => cases ok.symm.trans error
    | threw error' =>
      obtain rfl := Except.error.inj (error.symm.trans error')
      obtain ⟨status, rfl⟩ := settled_grpcError (fun k => ⟨script.status k, rfl⟩) error
      exact .failed fetched (bind_error _ downloads)

section Sample

structure ReadWorld where
  attempts : Nat
  file : Bytes

def readWorldFiles : LocalFiles ReadWorld where
  named _ _ := some 0
  stored world _ := world.file
  openTruncated _ world := (.ok 0, { world with file := [] })
  write _ data world := ((data.length, 0), { world with file := world.file ++ data })
  overwrite _ data world := (.ok (), { world with file := data })
  opened _ _ _ opened := ⟨congrArg some (Except.ok.inj opened), rfl⟩
  appended _ _ _ _ := ⟨rfl, rfl⟩
  overwritten _ _ _ _ := ⟨0, rfl, rfl⟩

def cutOnce : ReadScript (text "abc") where
  chunks attempt offset :=
    if attempt = 0 then [((text "abc").drop offset).take 2] else [(text "abc").drop offset]
  status attempt := ⟨if attempt = 0 then StatusCode.unavailable else StatusCode.ok, []⟩
  honoured attempt offset := by
    split
    next => simpa using List.take_prefix 2 _
    next => simp
  ends attempt := by
    by_cases first : attempt = 0
    next => simp [first]
    next => simp [first, Status.ok]

def cutOnceClient : Client ReadWorld where
  stub :=
    { findMissingBlobs := fun _ => pure (⟨StatusCode.ok, []⟩, [])
      batchUpdateBlobs := fun _ => pure (⟨StatusCode.internal, []⟩, [])
      batchReadBlobs := fun _ => pure (⟨StatusCode.internal, []⟩, [])
      openWriter := pure ()
      write := fun _ => pure false
      finishWrite := pure (⟨StatusCode.internal, []⟩, 0)
      read := fun request world => ((cutOnce.chunks world.attempts request.readOffset, cutOnce.status world.attempts),
        { world with attempts := world.attempts + 1 }) }
  hash data := hashToHex (sampleLibrary .sha256 data)
  instanceName := []
  uuid := text "uuid"
  maxBatchTotalSizeBytes := 1024
  grpcRetryLimit := 1

def readWorldHost : Host ReadWorld where
  mkstemp name := pure (.ok name)
  fchmod _ _ := pure (.ok ())
  overwrite _ _ := pure (.ok ())
  rename _ _ := pure (.ok ())
  unlink _ := pure (.ok ())
  mkdir _ _ := pure (.ok ())
  symlink _ _ := pure (.ok ())
  stringCapacity := 2 ^ 63 - 1

theorem download_fetchString_agree_cutOnce :
    SameDownload cutOnceClient readWorldHost readWorldFiles 0 (makeDigest cutOnceClient.hash (text "abc")) (text "abc")
      (⟨⟨0, []⟩, [], []⟩ : Session Bool ReadWorld) := by
  have plays : Plays cutOnceClient.stub readWorldFiles 0 cutOnce
      (cutOnceClient.makeResourceName (makeDigest cutOnceClient.hash (text "abc")) false) ReadWorld.attempts :=
    ⟨fun _ _ => rfl, fun _ _ => rfl, fun _ _ => ⟨rfl, rfl⟩, fun _ _ => rfl, fun _ _ => rfl⟩
  exact download_fetchString_agree plays rfl (by decide) rfl rfl

end Sample

end BuildboxCommon.Client
