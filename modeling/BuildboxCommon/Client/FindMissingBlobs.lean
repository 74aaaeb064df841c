import BuildboxCommon.Client.UploadDirectory

set_option autoImplicit false

namespace BuildboxCommon.Client

open ByteString Effect

variable {ι σ : Type}

section Cuts

def totalSize (byteSizeLong : Digest → Nat) (digests : List Digest) : Nat := (digests.map byteSizeLong).sum

variable {byteSizeLong : Digest → Nat}

@[simp] theorem totalSize_nil : totalSize byteSizeLong [] = 0 := rfl

@[simp] theorem totalSize_cons (digest : Digest) (digests : List Digest) :
    totalSize byteSizeLong (digest :: digests) = byteSizeLong digest + totalSize byteSizeLong digests := by
  simp [totalSize]

@[simp] theorem totalSize_append (digests more : List Digest) :
    totalSize byteSizeLong (digests ++ more) = totalSize byteSizeLong digests + totalSize byteSizeLong more := by
  simp [totalSize]

theorem totalSize_replicate (n : Nat) (digest : Digest) :
    totalSize byteSizeLong (List.replicate n digest) = n * byteSizeLong digest := by
  rw [totalSize, List.map_replicate, List.sum_replicate_nat]

inductive Cut (byteSizeLong : Digest → Nat) : List Digest → List Digest → Prop where
  | here {run rest : List Digest} {digest : Digest}
      (fits : totalSize byteSizeLong run ≤ bytestreamChunkSizeBytes)
      (full : bytestreamChunkSizeBytes < totalSize byteSizeLong run + byteSizeLong digest) :
      Cut byteSizeLong (run ++ digest :: rest) (digest :: rest)
  | later {run rest cut : List Digest} {digest : Digest}
      (fits : totalSize byteSizeLong run ≤ bytestreamChunkSizeBytes)
      (full : bytestreamChunkSizeBytes < totalSize byteSizeLong run + byteSizeLong digest)
      (again : Cut byteSizeLong rest cut) : Cut byteSizeLong (run ++ digest :: rest) cut

def CutsFit (byteSizeLong : Digest → Nat) (digests : List Digest) : Prop :=
  ∀ digest run rest, Cut byteSizeLong digests (digest :: (run ++ rest)) →
    totalSize byteSizeLong run ≤ bytestreamChunkSizeBytes →
      byteSizeLong digest + totalSize byteSizeLong run ≤ bytestreamChunkSizeBytes

theorem Cut.overfull {digests cut : List Digest} (cuts : Cut byteSizeLong digests cut) :
    bytestreamChunkSizeBytes < totalSize byteSizeLong digests := by
  cases cuts with
  | here _ full | later _ full =>
    rw [totalSize_append, totalSize_cons]
    omega

theorem cutsFit_of_room {digests : List Digest} (room : totalSize byteSizeLong digests ≤ bytestreamChunkSizeBytes) :
    CutsFit byteSizeLong digests :=
  fun _ _ _ cut _ => absurd cut.overfull (Nat.not_lt.mpr room)

theorem firstCut_unique {run rest run' rest' : List Digest} {digest digest' : Digest}
    (same : run ++ digest :: rest = run' ++ digest' :: rest')
    (fits : totalSize byteSizeLong run ≤ bytestreamChunkSizeBytes)
    (full : bytestreamChunkSizeBytes < totalSize byteSizeLong run + byteSizeLong digest)
    (fits' : totalSize byteSizeLong run' ≤ bytestreamChunkSizeBytes)
    (full' : bytestreamChunkSizeBytes < totalSize byteSizeLong run' + byteSizeLong digest') :
    digest = digest' ∧ rest = rest' := by
  rcases List.append_eq_append_iff.mp same with ⟨more, rfl, tail⟩ | ⟨more, rfl, tail⟩
  next =>
    cases more with
    | nil => simpa using tail
    | cons first more =>
      obtain ⟨rfl, -⟩ := List.cons.inj tail
      rw [totalSize_append, totalSize_cons] at fits'
      omega
  next =>
    cases more with
    | nil => simpa [eq_comm] using tail
    | cons first more =>
      obtain ⟨rfl, -⟩ := List.cons.inj tail
      rw [totalSize_append, totalSize_cons] at fits
      omega

theorem cut_iff {run rest cut : List Digest} {digest : Digest}
    (fits : totalSize byteSizeLong run ≤ bytestreamChunkSizeBytes)
    (full : bytestreamChunkSizeBytes < totalSize byteSizeLong run + byteSizeLong digest) :
    Cut byteSizeLong (run ++ digest :: rest) cut ↔ cut = digest :: rest ∨ Cut byteSizeLong rest cut := by
  constructor
  next =>
    intro cuts
    generalize whole : run ++ digest :: rest = digests at cuts
    cases cuts with
    | here fits' full' =>
      obtain ⟨rfl, rfl⟩ := firstCut_unique whole fits full fits' full'
      exact .inl rfl
    | later fits' full' again =>
      obtain ⟨rfl, rfl⟩ := firstCut_unique whole fits full fits' full'
      exact .inr again
  next =>
    rintro (rfl | again)
    next => exact .here fits full
    next => exact .later fits full again

end Cuts

section Requests

variable {byteSizeLong : Digest → Nat}

-- `opened` is what the request was opened with and `run` what was counted since then.
theorem requestsToIssue_within_iff (opened run digests : List Digest)
    (fits : totalSize byteSizeLong run ≤ bytestreamChunkSizeBytes) :
    (∀ request ∈ requestsToIssue byteSizeLong (totalSize byteSizeLong run) (opened ++ run) digests,
        totalSize byteSizeLong request ≤ bytestreamChunkSizeBytes) ↔
      (∀ counted rest, run ++ digests = counted ++ rest →
        totalSize byteSizeLong counted ≤ bytestreamChunkSizeBytes →
          totalSize byteSizeLong (opened ++ counted) ≤ bytestreamChunkSizeBytes) ∧
        CutsFit byteSizeLong (run ++ digests) := by
  induction digests generalizing opened run with
  | nil =>
    simp only [requestsToIssue, List.mem_singleton, forall_eq, List.append_nil]
    constructor
    next =>
      refine fun within => ⟨fun counted rest whole _ => ?_, cutsFit_of_room fits⟩
      subst whole
      simp only [totalSize_append] at within ⊢
      omega
    next => exact fun within => within.1 run [] (List.append_nil _).symm fits
  | cons digest digests ih =>
    unfold requestsToIssue
    split
    next full =>
      have opens := ih [digest] [] (Nat.zero_le _)
      simp only [List.append_nil, List.nil_append, totalSize_nil, List.singleton_append, totalSize_cons] at opens
      rw [List.forall_mem_cons, opens]
      constructor
      next =>
        rintro ⟨within, ahead, later⟩
        refine ⟨fun counted rest whole small => ?_, fun first more rest cut small => ?_⟩
        next =>
          rcases List.append_eq_append_iff.mp whole with ⟨more, rfl, tail⟩ | ⟨more, rfl, tail⟩
          next =>
            cases more with
            | nil => simpa using within
            | cons first more =>
              obtain ⟨rfl, -⟩ := List.cons.inj tail
              rw [totalSize_append, totalSize_cons] at small
              omega
          next =>
            simp only [totalSize_append] at within ⊢
            omega
        next =>
          rcases (cut_iff fits full).mp cut with same | cut
          next =>
            obtain ⟨rfl, rfl⟩ := List.cons.inj same
            exact ahead more rest rfl small
          next => exact later first more rest cut small
      next =>
        rintro ⟨whole, cuts⟩
        refine ⟨whole run _ rfl fits, fun counted rest same small => ?_, fun first more rest cut small => ?_⟩
        next => exact cuts digest counted rest (same ▸ .here fits full) small
        next => exact cuts first more rest (.later fits full cut) small
    next room =>
      have next := ih opened (run ++ [digest]) (by simp; omega)
      simpa [Nat.add_comm, Nat.add_left_comm] using next

theorem requestsToIssue_within {digests : List Digest} :
    (∀ request ∈ requestsToIssue byteSizeLong 0 [] digests,
      totalSize byteSizeLong request ≤ bytestreamChunkSizeBytes) ↔ CutsFit byteSizeLong digests := by
  refine (requestsToIssue_within_iff [] [] digests (Nat.zero_le _)).trans ?_
  exact and_iff_right fun counted rest _ small => by simpa using small

end Requests

section Answers

variable {client : Client σ} {byteSizeLong : Digest → Nat}

inductive ServerAnswers (stub : Stub σ) : List (List Digest) → σ → List (List Digest) → σ → Prop where
  | nil {server : σ} : ServerAnswers stub [] server [] server
  | cons {request missing : List Digest} {requests answers : List (List Digest)} {status : Status}
      {before between after : σ} (answered : stub.findMissingBlobs request before = ((status, missing), between))
      (ok : status.ok = true) (others : ServerAnswers stub requests between answers after) :
      ServerAnswers stub (request :: requests) before (missing :: answers) after

def answeredRequest (request missing : List Digest) : Exchange := .findMissingBlobs request (.ok missing)

theorem ServerAnswers.length_eq {stub : Stub σ} {requests answers : List (List Digest)} {before after : σ}
    (answered : ServerAnswers stub requests before answers after) : requests.length = answers.length := by
  induction answered with
  | nil => rfl
  | cons _ _ _ ih => rw [List.length_cons, List.length_cons, ih]

theorem map_asked_answeredRequest {requests answers : List (List Digest)} (paired : requests.length = answers.length) :
    (List.zipWith answeredRequest requests answers).map asked = requests := by
  induction requests generalizing answers with
  | nil => rfl
  | cons request requests ih =>
    obtain ⟨missing, answers, rfl⟩ := List.exists_cons_of_length_eq_add_one paired.symm
    rw [List.zipWith_cons_cons, List.map_cons, ih (Nat.succ.inj paired)]
    rfl

structure AnsweredInOrder (client : Client σ) (byteSizeLong : Digest → Nat) (digests : List Digest) (s : Session ι σ)
    (requests answers : List (List Digest)) (server : σ) : Prop where
  answered : ServerAnswers client.stub requests s.server answers server
  run : client.findMissingBlobs byteSizeLong digests s = .ok answers.flatten
    { s with server := server, exchanges := s.exchanges ++ List.zipWith answeredRequest requests answers }

def Batched (client : Client σ) (byteSizeLong : Digest → Nat) (digests : List Digest) (s : Session ι σ) : Prop :=
  ∃ requests answers server, AnsweredInOrder client byteSizeLong digests s requests answers server ∧
    requests.flatten = digests ∧
    ∀ request ∈ requests, totalSize byteSizeLong request ≤ bytestreamChunkSizeBytes

theorem issueRequest_answered {request missing : List Digest} {status : Status} {before after : σ}
    (answered : client.stub.findMissingBlobs request before = ((status, missing), after)) (ok : status.ok = true) :
    client.issueRequestAndThrowOnErrors (unary (client.stub.findMissingBlobs request)) [] before =
      .ok missing after := by
  have called : unary (client.stub.findMissingBlobs request) [] before = .ok (status, missing) after := by
    simp only [unary, calling, answered]
  exact issueRequestAndThrowOnErrors_ok called ok

variable (allOk : ∀ asked server, (client.stub.findMissingBlobs asked server).1.1.ok = true)

include allOk in
theorem findMissingBlobs_answered (byteSizeLong : Digest → Nat) (digests : List Digest) (s : Session ι σ) :
    ∃ answers server, AnsweredInOrder client byteSizeLong digests s (requestsToIssue byteSizeLong 0 [] digests)
      answers server := by
  have issues (requests : List (List Digest)) (found : List Digest) (s : Session ι σ) :
      ∃ answers server, ServerAnswers client.stub requests s.server answers server ∧
        (requests.foldlM (fun missingBlobs request => do
          let missing ← recorded (.findMissingBlobs request)
            (client.issueRequestAndThrowOnErrors (unary (client.stub.findMissingBlobs request)) [])
          return missingBlobs ++ missing) found : EStateM Exn (Session ι σ) (List Digest)) s =
            .ok (found ++ answers.flatten) { s with
              server := server, exchanges := s.exchanges ++ List.zipWith answeredRequest requests answers } := by
    induction requests generalizing found s with
    | nil => exact ⟨[], s.server, .nil, by simp⟩
    | cons request requests ih =>
      rcases answered : client.stub.findMissingBlobs request s.server with ⟨⟨status, missing⟩, between⟩
      have ok : status.ok = true := by simpa [answered] using allOk request s.server
      obtain ⟨answers, server, others, rest⟩ := ih (found ++ missing) { s with
        server := between, exchanges := s.exchanges ++ [answeredRequest request missing] }
      refine ⟨missing :: answers, server, .cons answered ok others, ?_⟩
      have first : (recorded (.findMissingBlobs request)
          (client.issueRequestAndThrowOnErrors (unary (client.stub.findMissingBlobs request)) []) :
            EStateM Exn (Session ι σ) (List Digest)) s =
          .ok missing { s with
            server := between, exchanges := s.exchanges ++ [answeredRequest request missing] } := by
        unfold recorded
        rw [issueRequest_answered answered ok]
        rfl
      rw [List.foldlM_cons, bind_assoc, bind_ok _ first, pure_bind, rest]
      simp
  obtain ⟨answers, server, answered, run⟩ := issues (requestsToIssue byteSizeLong 0 [] digests) [] s
  exact ⟨answers, server, answered, run⟩

theorem AnsweredInOrder.requests_unique {digests : List Digest} {s : Session ι σ}
    {requests answers requests' answers' : List (List Digest)} {server server' : σ}
    (found : AnsweredInOrder client byteSizeLong digests s requests answers server)
    (found' : AnsweredInOrder client byteSizeLong digests s requests' answers' server') : requests = requests' := by
  have same := found.run.symm.trans found'.run
  have exchanges := List.append_cancel_left (congrArg Session.exchanges (EStateM.Result.ok.inj same).2)
  rw [← map_asked_answeredRequest found.answered.length_eq, exchanges,
    map_asked_answeredRequest found'.answered.length_eq]

include allOk in
theorem batched_iff (byteSizeLong : Digest → Nat) (digests : List Digest) (s : Session ι σ) :
    Batched client byteSizeLong digests s ↔ CutsFit byteSizeLong digests := by
  obtain ⟨answers, server, found⟩ := findMissingBlobs_answered allOk byteSizeLong digests s
  refine Iff.trans ?_ requestsToIssue_within
  constructor
  next =>
    rintro ⟨requests, answers', server', found', -, within⟩
    exact found'.requests_unique found ▸ within
  next => exact fun within => ⟨_, answers, server, found, flatten_requestsToIssue _ _ _ _, within⟩

end Answers

section Sample

def varintSize (value : Nat) : Nat := value.log2 / 7 + 1

def bytesFieldSize (value : Bytes) : Nat := if value = [] then 0 else 1 + varintSize value.length + value.length

def int64FieldSize (value : Int) : Nat := if value = 0 then 0 else 1 + varintSize (value % 2 ^ 64).toNat

-- The wire format of a digest: each field that is not empty has a tag of one byte.
def digestByteSizeLong (digest : Digest) : Nat :=
  bytesFieldSize digest.hashOther + int64FieldSize digest.sizeBytes + bytesFieldSize digest.hashBlake3zcc

def oneByte : Digest := ⟨List.replicate 64 97, 1, []⟩

theorem oneByte_size : digestByteSizeLong oneByte = 68 := by decide

theorem first_request_fits :
    totalSize digestByteSizeLong (List.replicate 15420 oneByte) ≤ bytestreamChunkSizeBytes := by
  rw [totalSize_replicate, oneByte_size]
  decide

theorem first_request_full : bytestreamChunkSizeBytes <
    totalSize digestByteSizeLong (List.replicate 15420 oneByte) + digestByteSizeLong oneByte := by
  rw [totalSize_replicate, oneByte_size]
  decide

theorem cut_oneByte (rest : List Digest) :
    Cut digestByteSizeLong (List.replicate 15420 oneByte ++ oneByte :: rest) (oneByte :: rest) :=
  .here first_request_fits first_request_full

theorem cutsFit_oneByte : CutsFit digestByteSizeLong (List.replicate 15420 oneByte ++ [oneByte]) := by
  intro digest run rest cut small
  rcases (cut_iff first_request_fits first_request_full).mp cut with only | later
  next =>
    obtain ⟨rfl, none⟩ := List.cons.inj only
    obtain ⟨rfl, -⟩ := List.append_eq_nil_iff.mp none
    rw [totalSize_nil, oneByte_size]
    decide
  next => exact absurd later.overfull (Nat.not_lt_zero _)

theorem batched_iff_oneByte :
    Cut digestByteSizeLong (List.replicate 15420 oneByte ++ [oneByte]) [oneByte] ∧
      Batched pickyClient digestByteSizeLong (List.replicate 15420 oneByte ++ [oneByte])
        (⟨(), [], []⟩ : Session Bool Unit) :=
  ⟨cut_oneByte [], (batched_iff (fun _ _ => rfl) digestByteSizeLong _ _).mpr cutsFit_oneByte⟩

-- The first of the 15421 digests of the second request is not counted.
theorem second_request_too_large :
    (∀ digest ∈ List.replicate 30841 oneByte, digestByteSizeLong digest ≤ bytestreamChunkSizeBytes) ∧
    (∀ asked server, (pickyClient.stub.findMissingBlobs asked server).1.1.ok = true) ∧
    ¬Batched pickyClient digestByteSizeLong (List.replicate 30841 oneByte) (⟨(), [], []⟩ : Session Bool Unit) := by
  have split : List.replicate 30841 oneByte =
      List.replicate 15420 oneByte ++ oneByte :: List.replicate 15420 oneByte := by
    rw [← List.replicate_succ, List.replicate_append_replicate]
  have allOk (asked : List Digest) (server : Unit) :
      (pickyClient.stub.findMissingBlobs asked server).1.1.ok = true := rfl
  refine ⟨fun digest member => ?_, allOk, ?_⟩
  next =>
    rw [List.eq_of_mem_replicate member, oneByte_size]
    decide
  next =>
    rintro ⟨requests, answers, server, found, -, within⟩
    obtain ⟨answers', server', found'⟩ := findMissingBlobs_answered allOk digestByteSizeLong
      (List.replicate 30841 oneByte) ⟨(), [], []⟩
    rw [found.requests_unique found'] at within
    have cut : Cut digestByteSizeLong (List.replicate 30841 oneByte)
        (oneByte :: (List.replicate 15420 oneByte ++ [])) := by
      rw [split, List.append_nil]
      exact cut_oneByte _
    have second := requestsToIssue_within.mp within _ _ _ cut first_request_fits
    have full := first_request_full
    omega

end Sample

end BuildboxCommon.Client
