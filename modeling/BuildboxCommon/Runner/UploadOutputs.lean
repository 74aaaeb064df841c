import BuildboxCommon.Client.UploadBlobs
import BuildboxCommon.DigestGenerator

set_option autoImplicit false

namespace BuildboxCommon

open ByteString Effect Posix Ranges Client

variable {ι σ : Type}

def Exn.isException : Exn → Bool
  | .stackOverflow | .undefined => false
  | _ => true

namespace DigestGenerator

def hashBufferSizeBytes : Nat := 1024 * 64

def processFile (context : DigestContext) (unread : Bytes) : Except Exn DigestContext :=
  if _ended : unread = [] then .ok context
  else do
    let context ← context.update (unread.take hashBufferSizeBytes)
    processFile context (unread.drop hashBufferSizeBytes)
termination_by unread.length
decreasing_by
  have left := List.length_pos_of_ne_nil _ended
  rw [List.length_drop, hashBufferSizeBytes]
  omega

theorem processFile_eq {context : DigestContext} (open' : context.finalized = false) (unread : Bytes) :
    processFile context unread = context.update unread := by
  induction context, unread using processFile.induct with
  | case1 context =>
    rw [processFile, dif_pos rfl]
    cases context
    simp_all [DigestContext.update]
  | case2 context unread ended ih =>
    rw [processFile, dif_neg ended]
    obtain ⟨updated, update, still⟩ : ∃ updated, context.update (unread.take hashBufferSizeBytes) = .ok updated ∧
        updated.finalized = false := ⟨_, if_neg (by simp [open']), rfl⟩
    have whole := context.update_append (unread.take hashBufferSizeBytes) (unread.drop hashBufferSizeBytes)
    rw [List.take_append_drop, update] at whole
    rw [update]
    exact (ih updated still).trans whole

end DigestGenerator

def CASHash.hashFile (library : HashLibrary) (digestFunctionValue : DigestFunction) (fs : FileSystem ι) (path : Bytes) :
    Except Exn Digest :=
  match fs.openat fs.currentDirectory path ⟨false, false⟩ with
  | .error errno => .error (.systemError errno (text "Error opening file \"" ++ path ++ text "\""))
  | .ok fd =>
    match fs.read fd with
    | .error errno => .error (.systemError errno (text "Error in read on file descriptor"))
    | .ok contents => do
      let context ← DigestGenerator.processFile DigestContext.create contents
      let (digest, _) ← context.finalizeDigest (finish library digestFunctionValue)
      return digest

def HoldsContents (fs : FileSystem ι) (path contents : Bytes) : Prop :=
  ∃ fd, fs.openat fs.currentDirectory path ⟨false, false⟩ = .ok fd ∧ fs.read fd = .ok contents

theorem CASHash.hashFile_eq {fs : FileSystem ι} {path contents : Bytes} (contains : HoldsContents fs path contents)
    (library : HashLibrary) (digestFunctionValue : DigestFunction) :
    hashFile library digestFunctionValue fs path = .ok (finish library digestFunctionValue contents) := by
  obtain ⟨fd, opened, readable⟩ := contains
  simp only [hashFile, opened, readable]
  rw [DigestGenerator.processFile_eq rfl]
  exact DigestGenerator.hash_eq library digestFunctionValue contents

theorem finish_ne_unset {library : HashLibrary} (sized : ∀ f data, (library f data).length = f.size)
    (digestFunction : DigestFunction) (data : Bytes) : finish library digestFunction data ≠ Digest.unset := by
  intro same
  cases digestFunction with
  | blake3zcc =>
    have hashed := congrArg List.length (congrArg Digest.hashBlake3zcc same)
    simp [finish, sized, DigestFunction.size, Digest.unset] at hashed
  | _ =>
    have hashed := congrArg List.length (congrArg Digest.hashOther same)
    simp [finish, length_hashToHex, sized, DigestFunction.size, Digest.unset] at hashed

namespace Client

section Covered

def Covered (start : Session ι σ) (digests : List Digest) (s : Session ι σ) : Prop :=
  ∃ exchanges, s.exchanges = start.exchanges ++ exchanges ∧
    ∀ outcome ∈ exchanges.flatMap Exchange.outcomes, outcome.2 ≠ none → outcome.1 ∈ digests

variable {start s s' : Session ι σ} {digests others : List Digest}

theorem Covered.unchanged (covered : Covered start digests s) (subset : digests ⊆ others)
    (same : s'.exchanges = s.exchanges) : Covered start others s' := by
  obtain ⟨exchanges, logged, known⟩ := covered
  exact ⟨exchanges, same.trans logged, fun outcome member failed => subset (known outcome member failed)⟩

theorem Covered.extend {exchange : Exchange} (covered : Covered start digests s) (subset : digests ⊆ others)
    (logged : s'.exchanges = s.exchanges ++ [exchange])
    (known : ∀ outcome ∈ exchange.outcomes, outcome.2 ≠ none → outcome.1 ∈ others) : Covered start others s' := by
  obtain ⟨exchanges, before, earlier⟩ := covered
  refine ⟨exchanges ++ [exchange], by rw [logged, before, List.append_assoc], fun outcome member failed => ?_⟩
  rw [List.flatMap_append, List.flatMap_singleton, List.mem_append] at member
  rcases member with member | member
  next => exact subset (earlier outcome member failed)
  next => exact known outcome member failed

variable (client : Client σ) (fs : FileSystem ι)

theorem blobOf_keeps (request : UploadRequest) (exchanges : List Exchange) :
    Keeps (fun s : Session ι σ => s.exchanges = exchanges) (blobOf fs request) fun blob => blob.1 = request.digest := by
  have contents : Keeps (fun s : Session ι σ => s.exchanges = exchanges)
      (FileUtils.getFileContents fs request.path) fun _ => True := by
    intro s same
    unfold FileUtils.getFileContents
    cases fs.openat fs.currentDirectory request.path ⟨false, false⟩ with
    | error errno => exact same
    | ok fd =>
      simp only []
      rw [bind_ok _ (rfl : recordAccess (.sent fd) s = .ok _ _)]
      cases fs.read fd with
      | error errno => exact same
      | ok contents => exact ⟨trivial, same⟩
  exact .ite (fun _ => .pure rfl) fun _ => contents.bind fun _ _ => .pure rfl

theorem batchUpload_covers (requests : List UploadRequest) :
    Runs (Covered start digests) (client.batchUpload fs requests)
      (fun failed => Covered start (digests ++ failed.map UploadResult.digest))
      (Covered start (digests ++ requests.map UploadRequest.digest)) := by
  intro s covered
  have reading := Keeps.mapM (fun request (_ : request ∈ requests) =>
    @blobOf_keeps ι σ fs request s.exchanges) s rfl
  unfold batchUpload
  cases read : requests.mapM (blobOf fs) s with
  | error e between =>
    rw [read] at reading
    rw [bind_error _ read]
    exact covered.unchanged (List.subset_append_left _ _) reading
  | ok blobs between =>
    rw [read] at reading
    rw [bind_ok _ read]
    obtain ⟨s', ended⟩ := recorded_ends (.batchUpdateBlobs blobs)
      (unary_raises client (client.stub.batchUpdateBlobs blobs) []) between
    rcases ended with ⟨responses, run, logged⟩ | ⟨e, run, -, logged⟩
    next =>
      rw [bind_ok _ run]
      refine covered.extend (List.subset_append_left _ _) (logged.trans (by rw [reading.2])) ?_
      intro outcome member failed
      obtain ⟨response, answered, rfl⟩ := List.mem_map.mp member
      simp only [ne_eq, ite_eq_right_iff, reduceCtorEq, imp_false, not_not] at failed
      refine List.mem_append_right _ (List.mem_map.mpr ⟨⟨response.digest, response.status⟩, ?_, rfl⟩)
      exact List.mem_filterMap.mpr ⟨response, answered, if_pos failed⟩
    next =>
      rw [bind_error _ run]
      refine covered.extend (List.subset_append_left _ _) (logged.trans (by rw [reading.2])) ?_
      intro outcome member _
      obtain ⟨blob, sent, rfl⟩ := List.mem_map.mp member
      rw [← reading.1]
      exact List.mem_append_right _ (List.mem_map.mpr ⟨blob, sent, rfl⟩)

theorem uploadBatch_covers (requestList : List UploadRequest) (results : List UploadResult) (batchRange : Nat × Nat) :
    Runs (Covered start (results.map UploadResult.digest))
      (client.uploadBatch fs false requestList results batchRange)
      (fun results => Covered start (results.map UploadResult.digest)) fun _ => True := by
  refine Runs.relax (.catching ((batchUpload_covers client fs _).bind fun failed => .pure fun s covered => ?_)
    fun e => ?_) fun _ _ => trivial
  next =>
    rw [List.map_append]
    exact covered
  next =>
    refine .ite (fun throws => absurd throws (by simp)) fun _ => .pure fun s covered => ?_
    rw [List.map_append, List.map_map]
    exact covered

theorem write_covers (digest : Digest) (contents : Bytes) {rpc : EStateM Exn σ Unit}
    (raises : RaisesOnly (Exn.isRuntimeError ·) rpc) :
    Runs (Covered start digests) (recorded (.write digest contents) rpc) (fun _ => Covered start digests)
      (Covered start (digests ++ [digest])) := by
  intro s covered
  obtain ⟨s', ⟨a, run, logged⟩ | ⟨e, run, -, logged⟩⟩ := recorded_ends (.write digest contents) raises s
  next =>
    rw [run]
    exact covered.extend (List.Subset.refl _) logged (by simp [Exchange.outcomes])
  next =>
    rw [run]
    exact covered.extend (List.subset_append_left _ _) logged (by simp [Exchange.outcomes])

theorem uploadRequest_covers (request : UploadRequest) :
    Runs (Covered start digests) (client.uploadRequest fs request) (fun _ => Covered start digests)
      (Covered start (digests ++ [request.digest])) := by
  have unsent (s : Session ι σ) (covered : Covered start digests s) : Covered start (digests ++ [request.digest]) s :=
    covered.unchanged (List.subset_append_left _ _) rfl
  refine .ite (fun _ => .ite (fun _ => .throw unsent) fun _ => write_covers _ _ (writeString_raises _ _ _)) fun _ => ?_
  cases fs.openat fs.currentDirectory request.path ⟨false, false⟩ with
  | error errno => exact .throw unsent
  | ok fd =>
    have hashed : Runs (Covered start digests) (recordAccess (.sent fd) : EStateM Exn (Session ι σ) Unit)
        (fun _ => Covered start digests) (Covered start (digests ++ [request.digest])) :=
      .modify fun s covered => covered.unchanged (List.Subset.refl _) rfl
    refine hashed.bind fun _ => ?_
    cases fs.read fd with
    | ok contents => exact write_covers _ _ (writeDescriptor_raises _ _ _)
    | error errno => exact write_covers _ _ ((RaisesOnly.calling _).bind fun _ => .throw rfl)

theorem uploadOne_covers (results : List UploadResult) (request : UploadRequest) :
    Runs (Covered start (results.map UploadResult.digest)) (client.uploadOne fs false results request)
      (fun results => Covered start (results.map UploadResult.digest)) fun _ => True := by
  refine Runs.relax (.catching ((uploadRequest_covers client fs request).bind fun _ => .pure fun _ => id) fun e => ?_)
    fun _ _ => trivial
  have reported (status : Status) (s : Session ι σ)
      (covered : Covered start (results.map UploadResult.digest ++ [request.digest]) s) :
      Covered start ((results ++ [UploadResult.mk request.digest status]).map UploadResult.digest) s := by
    rw [List.map_append]
    exact covered
  cases e <;> exact .ite (fun throws => absurd throws (by simp)) fun _ => .pure (reported _)

theorem uploadBlobs_covers (sorting : SizeSort UploadRequest fun r => r.digest.sizeBytes)
    {requests : List UploadRequest} {failed : List UploadResult}
    (run : client.uploadBlobs fs sorting requests false s = .ok failed s') :
    Covered s (failed.map UploadResult.digest) s' := by
  have runs : Runs (Covered s []) (client.uploadBlobs fs sorting requests false)
      (fun results => Covered s (results.map UploadResult.digest)) fun _ => True :=
    Runs.bind (.foldlM (fun results range _ => uploadBatch_covers client fs _ results range) [])
      (.foldlM fun results request _ => uploadOne_covers client fs results request)
  have nothing : Covered s [] s := ⟨[], by simp, by simp⟩
  have covered := runs s nothing
  rwa [run] at covered

end Covered

def UploadRequest.fromPath (digest : Digest) (path : Bytes) : UploadRequest := ⟨digest, [], path⟩

end Client

namespace Runner

def clearFailed (digests : Digest × Digest) (blob : UploadResult) : Digest × Digest :=
  if blob.digest.equal digests.1 then (Digest.unset, digests.2) else (digests.1, Digest.unset)

section UploadOutputs

variable (library : HashLibrary) (digestFunctionValue : DigestFunction) (casClient : Client σ)
  (sorting : SizeSort UploadRequest fun r => r.digest.sizeBytes)

-- The files may change between the two.
variable (hashing uploading : FileSystem ι)

def uploadOutputs (stdoutFile stderrFile : Bytes) : EStateM Exn (Session ι σ) (Digest × Digest) := do
  let stdoutDigest ← liftExcept (CASHash.hashFile library digestFunctionValue hashing stdoutFile)
  let stderrDigest ← liftExcept (CASHash.hashFile library digestFunctionValue hashing stderrFile)
  let uploadRequests := [.fromPath stdoutDigest stdoutFile, .fromPath stderrDigest stderrFile]
  let failedBlobs ← catching Exn.isException (do
    let failedBlobs ← casClient.uploadBlobs uploading sorting uploadRequests false
    return some failedBlobs) fun _ => return none
  match failedBlobs with
  | none => return (Digest.unset, Digest.unset)
  | some failedBlobs => return failedBlobs.foldl clearFailed (stdoutDigest, stderrDigest)

variable {library digestFunctionValue casClient sorting hashing uploading}

variable {stdoutFile stderrFile stdoutContents stderrContents : Bytes}

theorem uploadOutputs_eq (stdoutContains : HoldsContents hashing stdoutFile stdoutContents)
    (stderrContains : HoldsContents hashing stderrFile stderrContents) (s : Session ι σ) :
    uploadOutputs library digestFunctionValue casClient sorting hashing uploading stdoutFile stderrFile s =
      match casClient.uploadBlobs uploading sorting
        [.fromPath (finish library digestFunctionValue stdoutContents) stdoutFile,
          .fromPath (finish library digestFunctionValue stderrContents) stderrFile] false s with
      | .ok failed s' => .ok (failed.foldl clearFailed (finish library digestFunctionValue stdoutContents,
          finish library digestFunctionValue stderrContents)) s'
      | .error e s' => if e.isException then .ok (Digest.unset, Digest.unset) s' else .error e s' := by
  unfold uploadOutputs
  rw [CASHash.hashFile_eq stdoutContains, CASHash.hashFile_eq stderrContains]
  simp only [liftExcept_ok, pure_bind]
  cases ended : casClient.uploadBlobs uploading sorting
      [.fromPath (finish library digestFunctionValue stdoutContents) stdoutFile,
        .fromPath (finish library digestFunctionValue stderrContents) stderrFile] false s with
  | ok failed s' =>
    have listed := bind_ok (fun failed => (pure (some failed) : EStateM Exn (Session ι σ) _)) ended
    exact bind_ok _ (catching_ok _ _ listed)
  | error e s' =>
    have thrown := bind_error (fun failed => (pure (some failed) : EStateM Exn (Session ι σ) _)) ended
    by_cases known : e.isException = true
    next =>
      simp only [known, if_true]
      have caught := catching_error (fun _ => pure none) thrown known
      exact bind_ok _ caught
    next =>
      simp only [known, if_false, Bool.false_eq_true]
      refine bind_error _ ?_
      simp only [catching, thrown, known, if_false, Bool.false_eq_true]

end UploadOutputs

section Attribution

abbrev Uploaded (ι σ : Type) := EStateM.Result Exn (Session ι σ) (List UploadResult)

def Threw : Uploaded ι σ → Prop
  | .ok _ _ => False
  | .error _ _ => True

def Reported (digest : Digest) (uploaded : Uploaded ι σ) : Prop :=
  match uploaded with
  | .ok failed _ => ∃ blob ∈ failed, blob.digest.equal digest = true
  | .error _ _ => False

def Answered (exchanges : List Exchange) (digest : Digest) : Prop :=
  ∃ outcome ∈ exchanges.flatMap Exchange.outcomes, outcome.1.equal digest = true

def Accepted (exchanges : List Exchange) (digest : Digest) : Prop :=
  ∃ outcome ∈ exchanges.flatMap Exchange.outcomes, outcome.1.equal digest = true ∧ outcome.2 = none

def Honest (uploaded : Uploaded ι σ) (exchanges : List Exchange) (digest returned : Digest) : Prop :=
  (returned = digest ∧ ¬Reported digest uploaded ∧ Accepted exchanges digest) ∨
    (returned = Digest.unset ∧ (Reported digest uploaded ∨ Threw uploaded))

def comparedWith (stdoutDigest : Digest) (earlier : List UploadResult) : Digest :=
  if ∃ blob ∈ earlier, blob.digest.equal stdoutDigest = true then Digest.unset else stdoutDigest

def LeftToStderr (stdoutDigest : Digest) (failed : List UploadResult) : Prop :=
  ∃ earlier blob later, failed = earlier ++ blob :: later ∧
    ¬blob.digest.equal (comparedWith stdoutDigest earlier) = true

def ToldApart (uploaded : Uploaded ι σ) (exchanges : List Exchange) (stdoutDigest stderrDigest : Digest) : Prop :=
  match uploaded with
  | .ok failed _ =>
    (∀ digest ∈ [stdoutDigest, stderrDigest], Reported digest uploaded ∨ Answered exchanges digest) ∧
      (Reported stderrDigest uploaded ↔ LeftToStderr stdoutDigest failed)
  | .error _ _ => True

theorem leftToStderr_append (stdoutDigest : Digest) (failed : List UploadResult) (blob : UploadResult) :
    LeftToStderr stdoutDigest (failed ++ [blob]) ↔
      LeftToStderr stdoutDigest failed ∨ ¬blob.digest.equal (comparedWith stdoutDigest failed) = true := by
  constructor
  next =>
    rintro ⟨earlier, other, later, split, differs⟩
    rcases List.eq_nil_or_concat later with rfl | ⟨rest, last, rfl⟩
    next =>
      obtain ⟨rfl, same⟩ := List.append_inj' split rfl
      obtain rfl := List.singleton_inj.mp same
      exact .inr differs
    next =>
      rw [List.concat_eq_append, ← List.cons_append, ← List.append_assoc] at split
      exact .inl ⟨earlier, other, rest, (List.append_inj' split rfl).1, differs⟩
  next =>
    rintro (⟨earlier, other, later, rfl, differs⟩ | differs)
    next => exact ⟨earlier, other, later ++ [blob], by simp, differs⟩
    next => exact ⟨failed, blob, [], rfl, differs⟩

theorem comparedWith_append (stdoutDigest : Digest) (failed : List UploadResult) (blob : UploadResult) :
    comparedWith stdoutDigest (failed ++ [blob]) =
      if blob.digest.equal (comparedWith stdoutDigest failed) then Digest.unset
      else comparedWith stdoutDigest failed := by
  unfold comparedWith
  by_cases earlier : ∃ blob ∈ failed, blob.digest.equal stdoutDigest = true
  next =>
    have still : ∃ other ∈ failed ++ [blob], other.digest.equal stdoutDigest = true :=
      earlier.imp fun other found => ⟨List.mem_append_left _ found.1, found.2⟩
    rw [if_pos earlier, if_pos still, ite_self]
  next =>
    have now : (∃ other ∈ failed ++ [blob], other.digest.equal stdoutDigest = true) ↔
        blob.digest.equal stdoutDigest = true := by
      simp only [List.mem_append, List.mem_singleton, or_and_right, exists_or, earlier, false_or, exists_eq_left]
    rw [if_neg earlier]
    simp only [now]

open Classical in
theorem foldl_clearFailed (stdoutDigest stderrDigest : Digest) (failed : List UploadResult) :
    failed.foldl clearFailed (stdoutDigest, stderrDigest) =
      (comparedWith stdoutDigest failed, if LeftToStderr stdoutDigest failed then Digest.unset else stderrDigest) := by
  induction failed using List.reverseRecOn with
  | nil => simp [comparedWith, LeftToStderr]
  | append_singleton failed blob ih =>
    rw [List.foldl_append, ih, List.foldl_cons, List.foldl_nil, clearFailed, comparedWith_append]
    simp only [leftToStderr_append]
    by_cases same : blob.digest.equal (comparedWith stdoutDigest failed) = true
    next => simp only [same, if_true, not_true_eq_false, or_false]
    next => simp only [same, if_false, not_false_eq_true, or_true, if_true, Bool.false_eq_true]

section Honest

variable {failed : List UploadResult} {s s' : Session ι σ} {exchanges : List Exchange}

theorem accepted_of_silent (covered : Covered s (failed.map UploadResult.digest) s')
    (logged : s'.exchanges = s.exchanges ++ exchanges) {digest : Digest}
    (silent : ¬Reported digest (.ok failed s' : Uploaded ι σ)) :
    Accepted exchanges digest ↔ Answered exchanges digest := by
  constructor
  next => exact fun ⟨outcome, member, same, _⟩ => ⟨outcome, member, same⟩
  next =>
    rintro ⟨outcome, member, same⟩
    refine ⟨outcome, member, same, by_contra fun failure => silent ?_⟩
    obtain ⟨others, logged', reported⟩ := covered
    obtain rfl := List.append_cancel_left (logged.symm.trans logged')
    obtain ⟨blob, listed, digests⟩ := List.mem_map.mp (reported outcome member failure)
    exact ⟨blob, listed, digests ▸ same⟩

theorem honest_iff (covered : Covered s (failed.map UploadResult.digest) s')
    (logged : s'.exchanges = s.exchanges ++ exchanges) {digest : Digest} (set : digest ≠ Digest.unset)
    (cleared : Prop) [Decidable cleared] :
    Honest (.ok failed s' : Uploaded ι σ) exchanges digest (if cleared then Digest.unset else digest) ↔
      (Reported digest (.ok failed s' : Uploaded ι σ) ∨ Answered exchanges digest) ∧
        (Reported digest (.ok failed s' : Uploaded ι σ) ↔ cleared) := by
  have same := @accepted_of_silent ι σ failed s s' exchanges covered logged digest
  unfold Honest
  by_cases reported : Reported digest (.ok failed s' : Uploaded ι σ) <;> by_cases clear : cleared <;>
    simp [reported, clear, set, set.symm, Threw, same]

theorem uploadOutputs_honest_iff {library : HashLibrary} (sized : ∀ f data, (library f data).length = f.size)
    {digestFunctionValue : DigestFunction} {casClient : Client σ}
    {sorting : SizeSort UploadRequest fun r => r.digest.sizeBytes} {hashing uploading : FileSystem ι}
    {stdoutFile stderrFile stdoutContents stderrContents : Bytes}
    (stdoutContains : HoldsContents hashing stdoutFile stdoutContents)
    (stderrContains : HoldsContents hashing stderrFile stderrContents) {stdoutDigest stderrDigest : Digest}
    (stdoutHash : finish library digestFunctionValue stdoutContents = stdoutDigest)
    (stderrHash : finish library digestFunctionValue stderrContents = stderrDigest) {uploaded : Uploaded ι σ}
    (ended : casClient.uploadBlobs uploading sorting
      [.fromPath stdoutDigest stdoutFile, .fromPath stderrDigest stderrFile] false s = uploaded)
    {returned : Digest × Digest}
    (run : uploadOutputs library digestFunctionValue casClient sorting hashing uploading stdoutFile stderrFile s =
      .ok returned s')
    (logged : s'.exchanges = s.exchanges ++ exchanges) :
    Honest uploaded exchanges stdoutDigest returned.1 ∧ Honest uploaded exchanges stderrDigest returned.2 ↔
      ToldApart uploaded exchanges stdoutDigest stderrDigest := by
  have stdoutSet : stdoutDigest ≠ Digest.unset := stdoutHash ▸ finish_ne_unset sized _ _
  have stderrSet : stderrDigest ≠ Digest.unset := stderrHash ▸ finish_ne_unset sized _ _
  rw [uploadOutputs_eq stdoutContains stderrContains, stdoutHash, stderrHash, ended] at run
  cases uploaded with
  | error e s'' =>
    simp only at run
    split at run
    next =>
      cases run
      exact iff_of_true ⟨.inr ⟨rfl, .inr trivial⟩, .inr ⟨rfl, .inr trivial⟩⟩ trivial
    next => cases run
  | ok failed s'' =>
    cases run
    classical
    have covered := casClient.uploadBlobs_covers uploading sorting ended
    rw [foldl_clearFailed]
    have stdoutIff := honest_iff covered logged stdoutSet (∃ blob ∈ failed, blob.digest.equal stdoutDigest = true)
    have stderrIff := honest_iff covered logged stderrSet (LeftToStderr stdoutDigest failed)
    refine (and_congr stdoutIff stderrIff).trans ?_
    simp only [ToldApart, List.forall_mem_cons, List.not_mem_nil, false_implies, implies_true, and_true]
    exact ⟨fun ⟨first, second⟩ => ⟨⟨first.1, second.1⟩, second.2⟩,
      fun ⟨both, attributed⟩ => ⟨⟨both.1, .rfl⟩, both.2, attributed⟩⟩

end Honest

end Attribution

section Samples

def sizedLibrary : HashLibrary := fun digestFunction data =>
  if digestFunction = .sha256 ∧ data = text "a" then sampleLibrary .sha256 (text "a")
  else List.replicate digestFunction.size 0

theorem sizedLibrary_sized (digestFunction : DigestFunction) (data : Bytes) :
    (sizedLibrary digestFunction data).length = digestFunction.size := by
  unfold sizedLibrary
  split
  next known =>
    rw [known.1]
    decide
  next => exact List.length_replicate

def equalOutputs : FileSystem Bool where
  root := false
  currentDirectory := false
  object fd := if fd then .regular (text "a") 0o644 0
    else .directory false [(text "out", true), (text "err", true)] 0o755 0
  denied _ := none
  symlinkLimit := 40
  named := by
    intro directory parent entries permissions mtime found entry member
    cases directory with
    | true => simp at found
    | false =>
      obtain ⟨-, rfl, -⟩ := FileObject.directory.inj found
      simp only [List.mem_cons, List.not_mem_nil, or_false] at member
      rcases member with rfl | rfl <;> exact ⟨by decide, by decide, by decide, by decide, by decide⟩

def dedupStub : Stub Unit :=
  { pickyStub with
    batchUpdateBlobs := fun blobs => pure (⟨StatusCode.ok, []⟩,
      (blobs.map Prod.fst).dedup.map fun digest => ⟨digest, ⟨StatusCode.internal, []⟩⟩) }

def dedupClient : Client Unit := { pickyClient with stub := dedupStub }

def digestA : Digest := finish sizedLibrary .sha256 (text "a")

def dedupUploads : Uploaded Bool Unit := dedupClient.uploadBlobs equalOutputs (SizeSort.stable _ _)
  [.fromPath digestA (text "out"), .fromPath digestA (text "err")] false ⟨(), [], []⟩

theorem dedupUploads_eq : ∃ blobs accesses, dedupUploads =
    .ok [⟨digestA, ⟨StatusCode.internal, []⟩⟩]
      ⟨(), [.batchUpdateBlobs blobs (.ok [⟨digestA, ⟨StatusCode.internal, []⟩⟩])], accesses⟩ := by
  have sorted : (SizeSort.stable UploadRequest fun r => r.digest.sizeBytes).sort
      [.fromPath digestA (text "out"), .fromPath digestA (text "err")] =
      [.fromPath digestA (text "out"), .fromPath digestA (text "err")] := by decide
  have batches : makeBatches dedupClient.maxBatchTotalSizeBytes [digestA, digestA] = [(0, 2)] := by
    rw [makeBatches, batchesFrom, if_neg (by decide)]
    have all : fillBatch (dedupClient.maxBatchTotalSizeBytes - sizeofEstimatedTopLevelGrpcContainer) 0
      [digestA, digestA] = 2 := by decide
    simp only [all, List.drop_succ_cons, List.drop_zero, batchesFrom, Nat.zero_add]
  unfold dedupUploads Client.uploadBlobs
  have digests : [UploadRequest.fromPath digestA (text "out"),
    .fromPath digestA (text "err")].map UploadRequest.digest =
    [digestA, digestA] := rfl
  simp only [sorted, digests, batches]
  exact ⟨_, _, rfl⟩

theorem equalOutputs_contains : HoldsContents equalOutputs (text "out") (text "a") ∧
    HoldsContents equalOutputs (text "err") (text "a") :=
  ⟨⟨true, rfl, rfl⟩, ⟨true, rfl, rfl⟩⟩

theorem dedup_run : ∃ blobs accesses, dedupUploads =
      .ok [⟨digestA, ⟨StatusCode.internal, []⟩⟩]
        ⟨(), [.batchUpdateBlobs blobs (.ok [⟨digestA, ⟨StatusCode.internal, []⟩⟩])], accesses⟩ ∧
    uploadOutputs sizedLibrary .sha256 dedupClient (SizeSort.stable _ _) equalOutputs equalOutputs
      (text "out") (text "err") ⟨(), [], []⟩ = .ok (Digest.unset, digestA)
        ⟨(), [.batchUpdateBlobs blobs (.ok [⟨digestA, ⟨StatusCode.internal, []⟩⟩])], accesses⟩ := by
  obtain ⟨blobs, accesses, ended⟩ := dedupUploads_eq
  refine ⟨blobs, accesses, ended, ?_⟩
  rw [uploadOutputs_eq equalOutputs_contains.1 equalOutputs_contains.2]
  unfold dedupUploads digestA at ended
  rw [ended]
  have loop : [UploadResult.mk digestA ⟨StatusCode.internal, []⟩].foldl clearFailed (digestA, digestA) =
    (Digest.unset, digestA) := by decide
  exact congrArg (fun digests => EStateM.Result.ok digests _) loop

theorem uploadOutputs_honest_iff_equal : ∃ s' : Session Bool Unit,
    (Honest dedupUploads s'.exchanges digestA Digest.unset ∧ Honest dedupUploads s'.exchanges digestA digestA ↔
      ToldApart dedupUploads s'.exchanges digestA digestA) := by
  obtain ⟨blobs, accesses, -, run⟩ := dedup_run
  exact ⟨_, uploadOutputs_honest_iff sizedLibrary_sized equalOutputs_contains.1 equalOutputs_contains.2
    rfl rfl rfl run (List.nil_append _).symm⟩

theorem refused_stderr_kept : ∃ s', uploadOutputs sizedLibrary .sha256 dedupClient (SizeSort.stable _ _) equalOutputs
      equalOutputs (text "out") (text "err") ⟨(), [], []⟩ = .ok (Digest.unset, digestA) s' ∧
    Reported digestA dedupUploads ∧ ¬Accepted s'.exchanges digestA ∧
    ¬(Honest dedupUploads s'.exchanges digestA Digest.unset ∧
      Honest dedupUploads s'.exchanges digestA digestA) := by
  obtain ⟨blobs, accesses, ended, run⟩ := dedup_run
  have reported : Reported digestA dedupUploads := by
    rw [ended]
    exact ⟨_, List.mem_singleton.mpr rfl, by decide⟩
  have set : digestA ≠ Digest.unset := finish_ne_unset sizedLibrary_sized _ _
  refine ⟨_, run, reported, ?_, fun honest => ?_⟩
  next => simp [Accepted, Exchange.outcomes, StatusCode.internal, StatusCode.ok]
  next =>
    rcases honest.2 with ⟨-, silent, -⟩ | ⟨unset, -⟩
    next => exact silent reported
    next => exact set unset

end Samples

end Runner

end BuildboxCommon
