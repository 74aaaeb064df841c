import BuildboxCommon.Client.DownloadDirectory
import BuildboxCommon.Client.PlacedTree

set_option autoImplicit false

namespace BuildboxCommon.Client

open ByteString Effect FileUtils Posix

variable {α ι σ : Type}

structure Stores (client : Client σ) (storage : Storage) : Prop where
  read : ∀ digest s, (client.stub.read ⟨client.makeResourceName digest false, 0⟩ s).1.2.ok = true →
    storage.blobs digest.key = some (client.stub.read ⟨client.makeResourceName digest false, 0⟩ s).1.1.flatten
  genuine : ∀ asked s, (client.stub.batchReadBlobs asked s).1.1.ok = true →
    ∀ response ∈ (client.stub.batchReadBlobs asked s).1.2, response.status.code = StatusCode.ok →
      storage.blobs response.digest.key = some response.data
  complete : ∀ asked s, (client.stub.batchReadBlobs asked s).1.1.ok = true →
    ∀ digest ∈ asked, ∀ data, storage.blobs digest.key = some data →
      ∃ response ∈ (client.stub.batchReadBlobs asked s).1.2,
        response.status.code = StatusCode.ok ∧ response.digest.key = digest.key

def Available (hash : Bytes → Bytes) (storage : Storage) (digest : Digest) : Prop :=
  ∃ data, storage.blobs digest.key = some data ∧ (makeDigest hash data).key = digest.key

section Served

variable {client : Client σ} {storage : Storage} {kept : World σ → Prop} (steady : Steady kept)
  (stores : Stores client storage) (host : Host (World σ))

include steady stores

theorem readString_served (digest : Digest) (result : Bytes) :
    Runs kept (client.outside.readString host digest result)
      (fun answer w => if answer.1.ok then storage.blobs digest.key = some answer.2 ∧ kept w else kept w) kept := by
  have answered := @outside_runs _ _ _ steady (client.stub.read ⟨client.makeResourceName digest false, 0⟩)
    (fun read => read.2.ok = true → storage.blobs digest.key = some read.1.flatten) (stores.read digest)
  refine answered.bind fun read => .of_and fun genuine => ?_
  refine .ite (fun _ => .throw fun _ => id) fun _ => .ite (fun failed => .pure fun w held => ?_) fun ok => ?_
  next =>
    rw [Bool.not_eq_true'] at failed
    simpa [failed] using held
  next =>
    refine .ite (fun _ => .throw fun _ => id) fun _ => .ite
      (fun _ => .throw fun _ => id) fun _ => .pure fun w held => ?_
    rw [Bool.not_eq_true', Bool.not_eq_false] at ok
    simp only [ok, if_true]
    exact ⟨genuine ok, held⟩

theorem fetchString_served (digest : Digest) :
    Runs (fun s : Session ι (World σ) => kept s.server) (client.outside.fetchString host digest)
      (fun data s => storage.blobs digest.key = some data ∧ kept s.server) fun s => kept s.server :=
  recorded_server _ (@issueRequestAndThrowOnErrors_runs (World σ) _ client.outside (fun _ => kept)
    (fun data w => storage.blobs digest.key = some data ∧ kept w) kept _
    (readString_served steady stores host digest) (fun _ _ => id) (fun _ _ => And.right) [])

theorem fetchMessage_served (digest : Digest) :
    Runs (fun s : Session ι (World σ) => kept s.server) (client.outside.fetchMessage host storage.format digest)
      (fun directory s => storage.directory digest = some directory ∧ kept s.server) fun s => kept s.server := by
  refine (fetchString_served steady stores host digest).bind fun bytes => .of_and fun known => ?_
  refine .ite (fun _ => .throw fun _ => id) fun parses => .pure fun s held => ⟨?_, held⟩
  rw [Bool.not_eq_true', Bool.not_eq_false] at parses
  simp only [Storage.directory, known, Option.bind_some, parses, if_true]

omit steady in
theorem answers_of_stores {digests : List Digest} (wanted : ∀ digest ∈ digests, Available client.hash storage digest)
    (s : σ) (ok : (client.stub.batchReadBlobs digests s).1.1.ok = true) :
    Answers client.hash storage.Has digests (client.stub.batchReadBlobs digests s).1.2 := by
  constructor
  next =>
    intro response member valid
    have ⟨fine, _⟩ : response.status.code = StatusCode.ok ∧
      (makeDigest client.hash response.data).key = response.digest.key := by simpa [ReadBlob.valid] using valid
    exact ⟨response.digest.sizeBytes, stores.genuine digests s ok response member fine⟩
  next =>
    intro digest asked
    obtain ⟨data, known, correct⟩ := wanted digest asked
    obtain ⟨response, member, fine, same⟩ := stores.complete digests s ok digest asked data known
    have brought := stores.genuine digests s ok response member fine
    rw [same, known, Option.some.injEq] at brought
    refine ⟨response, member, ?_, congrArg Prod.fst same⟩
    simp [ReadBlob.valid, fine, same, ← brought, correct]

theorem batchReadBlobs_served {digests : List Digest}
    (wanted : ∀ digest ∈ digests, Available client.hash storage digest) :
    Runs (fun s : Session ι (World σ) => kept s.server)
      (recorded (.batchReadBlobs digests)
        (client.outside.issueRequestAndThrowOnErrors (unary (client.outside.stub.batchReadBlobs digests)) []))
      (fun responses s => Answers client.hash storage.Has digests responses ∧ kept s.server)
      fun s => kept s.server := by
  refine recorded_server _ (@issueRequestAndThrowOnErrors_runs (World σ) _ client.outside (fun _ => kept)
    (fun responses w => Answers client.hash storage.Has digests responses ∧ kept w) kept _ (fun captured => ?_)
    (fun _ _ => id) (fun _ _ => And.right) [])
  refine (@outside_runs _ _ _ steady (client.stub.batchReadBlobs digests) (fun answer => answer.1.ok = true →
    Answers client.hash storage.Has digests answer.2) (answers_of_stores stores wanted)).mono (fun _ => id)
      fun answer w held => ?_
  split_ifs with ok
  next => exact ⟨held.1 ok, held.2⟩
  next => exact held.2

end Served

end BuildboxCommon.Client
