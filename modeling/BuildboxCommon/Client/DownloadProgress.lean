import BuildboxCommon.Client.DownloadBlobs

set_option autoImplicit false

namespace BuildboxCommon.Client

open ByteString Effect Ranges

variable {ι σ : Type}

structure Answers (hash : Bytes → Bytes) (genuine : Bytes → Bytes → Prop) (digests : List Digest)
    (responses : List ReadBlob) : Prop where
  genuine : ∀ response ∈ responses, response.valid hash = true → genuine response.digest.hashOther response.data
  complete : ∀ digest ∈ digests, ∃ response ∈ responses,
    response.valid hash = true ∧ response.digest.hashOther = digest.hashOther

structure Delivering (client : Client σ) (host : Host σ)
    (writeBlobFunction : Bytes → Bytes → EStateM Exn (Session ι σ) PUnit) (wanted : Digest → Prop)
    (genuine : Bytes → Bytes → Prop) (inv : List Bytes → Session ι σ → Prop) (raised : Session ι σ → Prop) : Prop where
  given : ∀ hashes s, inv hashes s → raised s
  fewer : ∀ hashes others s, others ⊆ hashes → inv hashes s → inv others s
  asked : ∀ digests hashes, (∀ digest ∈ digests, wanted digest) →
    Runs (inv hashes) (recorded (.batchReadBlobs digests)
        (client.issueRequestAndThrowOnErrors (unary (client.stub.batchReadBlobs digests)) []))
      (fun responses s => Answers client.hash genuine digests responses ∧ inv hashes s) raised
  fetched : ∀ digest hashes, Runs (inv hashes) (client.fetchString host digest)
    (fun data s => genuine digest.hashOther data ∧ inv hashes s) raised
  written : ∀ hash data hashes, genuine hash data →
    Runs (inv hashes) (writeBlobFunction hash data) (fun _ => inv (hashes ++ [hash])) raised

namespace Delivering

variable {client : Client σ} {host : Host σ} {writeBlobFunction : Bytes → Bytes → EStateM Exn (Session ι σ) PUnit}
  {wanted : Digest → Prop} {genuine : Bytes → Bytes → Prop} {inv : List Bytes → Session ι σ → Prop}
  {raised : Session ι σ → Prop}
  (delivering : Delivering client host writeBlobFunction wanted genuine inv raised)

include delivering

theorem takeResponse_runs {response : ReadBlob}
    (known : response.valid client.hash = true → genuine response.digest.hashOther response.data)
      (hashes : List Bytes) :
    Runs (inv hashes) (client.takeResponse writeBlobFunction response)
      (fun _ => inv (hashes ++ if response.valid client.hash then [response.digest.hashOther] else [])) raised := by
  unfold takeResponse
  by_cases valid : response.valid client.hash = true
  next =>
    have ⟨ok, same⟩ : response.status.code = StatusCode.ok ∧
        (makeDigest client.hash response.data).key = response.digest.key := by simpa [ReadBlob.valid] using valid
    simp only [ok, same, ne_eq, not_true_eq_false, if_false, valid, if_true]
    exact (delivering.written _ _ hashes (known valid)).bind fun _ => .pure fun _ => id
  next =>
    simp only [valid, Bool.false_eq_true, if_false, List.append_nil]
    refine .ite (fun _ => .pure fun _ => id) fun ok => .ite (fun _ => .pure fun _ => id) fun same => ?_
    exact absurd (by simpa [ReadBlob.valid] using ⟨not_not.mp ok, not_not.mp same⟩) valid

theorem batchDownload_runs {digests : List Digest} (requested : ∀ digest ∈ digests, wanted digest)
    (hashes : List Bytes) :
    Runs (inv hashes) (client.batchDownload digests writeBlobFunction)
      (fun _ => inv (hashes ++ digests.map Digest.hashOther)) raised := by
  unfold batchDownload
  refine (delivering.asked digests hashes requested).bind fun responses => .of_and fun answers => ?_
  refine (Runs.mapM_progress (fun response member hashes =>
    delivering.takeResponse_runs (answers.genuine response member) hashes) hashes).mono (fun _ => id) fun _ s held => ?_
  refine delivering.fewer _ _ s (fun hash member => ?_) held
  rw [List.mem_append] at member ⊢
  refine member.imp_right fun asked => ?_
  obtain ⟨digest, listed, rfl⟩ := List.mem_map.mp asked
  obtain ⟨response, brought, valid, same⟩ := answers.complete digest listed
  exact List.mem_flatMap.mpr ⟨response, brought, by simp [valid, same]⟩

theorem downloadBatch_runs {requestList : List Digest} (requested : ∀ digest ∈ requestList, wanted digest)
    (downloadResults : List DownloadResult) (batchRange : Nat × Nat) (hashes : List Bytes) :
    Runs (inv hashes) (client.downloadBatch writeBlobFunction true requestList downloadResults batchRange)
      (fun _ => inv (hashes ++ (slice requestList batchRange).map Digest.hashOther)) raised := by
  have inside : ∀ digest ∈ slice requestList batchRange, wanted digest := fun digest member =>
    requested digest (List.mem_of_mem_drop (List.mem_of_mem_take member))
  exact .catching ((delivering.batchDownload_runs inside hashes).bind fun _ => .pure fun _ => id)
    fun e => .throw fun _ => id

theorem downloadOne_runs (downloadResults : List DownloadResult) (digest : Digest) (hashes : List Bytes) :
    Runs (inv hashes) (client.downloadOne host writeBlobFunction true downloadResults digest)
      (fun _ => inv (hashes ++ [digest.hashOther])) raised := by
  refine .catching ((delivering.fetched digest hashes).bind fun data => .of_and fun known => ?_) fun e => ?_
  next => exact (delivering.written _ data hashes known).bind fun _ => .pure fun _ => id
  next => cases e <;> exact .throw fun _ => id

theorem downloadBlobsToCallback_runs (sorting : SizeSort Digest fun d => d.sizeBytes) {digests : List Digest}
    (requested : ∀ digest ∈ digests, wanted digest) :
    Runs (inv []) (client.downloadBlobsToCallback host sorting digests writeBlobFunction true)
      (fun _ => inv (digests.map Digest.hashOther)) raised := by
  have sorted : ∀ digest ∈ sorting.sort digests, wanted digest := fun digest member =>
    requested digest ((sorting.perm digests).mem_iff.mp member)
  have whole := (makeBatches_contiguous client.maxBatchTotalSizeBytes (sorting.sort digests)).flatMap_slice
    (sorting.sort digests)
  unfold downloadBlobsToCallback
  refine (Runs.foldlM_progress (fun downloadResults batchRange _ =>
    delivering.downloadBatch_runs sorted downloadResults batchRange) [] []).bind fun downloadResults => ?_
  refine (Runs.foldlM_progress (fun downloadResults digest _ =>
    delivering.downloadOne_runs downloadResults digest) downloadResults _).mono (fun _ => id) fun _ s held => ?_
  refine delivering.fewer _ _ s (fun hash member => ?_) held
  obtain ⟨digest, listed, rfl⟩ := List.mem_map.mp member
  have streamed := (sorting.perm digests).mem_iff.mpr listed
  rw [← List.drop_zero (l := sorting.sort digests), ← whole, List.mem_append, List.mem_flatMap] at streamed
  rw [List.nil_append, List.mem_append, List.mem_flatMap, List.mem_flatMap]
  refine streamed.imp (fun ⟨range, batch, member⟩ => ⟨range, batch, List.mem_map_of_mem member⟩) fun late => ?_
  exact ⟨digest, late, List.mem_singleton_self _⟩

end Delivering

end BuildboxCommon.Client
