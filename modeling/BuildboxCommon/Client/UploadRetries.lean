import BuildboxCommon.Client.UploadAttempts

set_option autoImplicit false

namespace BuildboxCommon.Client

open ByteString Effect

section Log

def Logged (good : Nat → List WriteRequest → Prop) : WriteLog → Prop
  | [] => True
  | sent :: older => good older.length sent ∧ Logged good older

theorem Logged.of_suffix {good : Nat → List WriteRequest → Prop} {sent : List WriteRequest} {older log : WriteLog}
    (logged : Logged good log) (suffix : sent :: older <:+ log) : good older.length sent := by
  induction log with
  | nil => exact absurd (List.suffix_nil.mp suffix) (List.cons_ne_nil _ _)
  | cons newest others ih =>
    rcases List.suffix_cons_iff.mp suffix with same | earlier
    next =>
      obtain ⟨rfl, rfl⟩ := List.cons.inj same
      exact logged.1
    next => exact ih logged.2 earlier

structure Chunking (content : Bytes) (chunks : List Bytes) : Prop where
  whole : chunks.flatten = content
  nonempty : chunks ≠ []
  small : ∀ chunk ∈ chunks, chunk.length ≤ bytestreamChunkSizeBytes
  filled : content ≠ [] → ∀ chunk ∈ chunks, chunk ≠ []

def AsChunked (resourceName content : Bytes) (attempt : WriteAttempt) (sent : List WriteRequest) : Prop :=
  ∃ chunks, Chunking content chunks ∧ sent = untilRefused attempt.accepts 0 (requests resourceName true 0 chunks)

variable {resourceName content : Bytes} {attempt : WriteAttempt} {sent : List WriteRequest}

theorem cut_chunking (sizes : Nat → Nat) (first : Nat) (content : Bytes) :
    Chunking content (cut sizes first content) := by
  refine ⟨?_, List.cons_ne_nil _ _, fun chunk member => ?_, fun more chunk member => ?_⟩
  next => rw [cut, List.flatten_cons, pieces_flatten, bytesRead_append]
  next =>
    rcases List.mem_cons.mp member with rfl | later
    next => exact bytesRead_length_le _ _
    next => exact (mem_pieces later).2
  next =>
    rw [cut_eq_pieces more] at member
    exact (mem_pieces member).1

theorem untilRefused_requests_data (accepts : Nat → Bool) (first : Nat) (whole : Bool) (offset : Nat)
    (chunks : List Bytes) :
    (untilRefused accepts first (requests resourceName whole offset chunks)).map WriteRequest.data =
      untilRefused accepts first chunks := by
  rw [untilRefused_map, requests_data]

theorem AsChunked.part (chunked : AsChunked resourceName content attempt sent) :
    (sent.map WriteRequest.data).flatten <+: content := by
  obtain ⟨chunks, chunking, rfl⟩ := chunked
  rw [untilRefused_requests_data, ← chunking.whole]
  exact (untilRefused_initial _ _ _).flatten

theorem AsChunked.all (chunked : AsChunked resourceName content attempt sent)
    (accepted : ¬Refused attempt.accepts 0 sent.length) : (sent.map WriteRequest.data).flatten = content := by
  obtain ⟨chunks, chunking, rfl⟩ := chunked
  rw [untilRefused_eq_self_of_accepted accepted, requests_data, chunking.whole]

theorem sentBy_data (whole : Bool) (unread : Bytes) :
    ((sentBy resourceName whole attempt unread).map WriteRequest.data).flatten = (carried attempt unread).flatten := by
  unfold sentBy
  rw [untilRefused_requests_data, reading_carried]

theorem sentBy_whole (content : Bytes) :
    AsChunked resourceName content attempt (sentBy resourceName true attempt content) :=
  ⟨_, cut_chunking attempt.reads 0 content, rfl⟩

end Log

section Rereads

variable {resourceName content unread : Bytes} {attempt : WriteAttempt}

def Rereads (content : Bytes) (attempt : WriteAttempt) (unread : Bytes) : Prop :=
  Refused attempt.accepts 0 (pieces attempt.reads 0 unread).length ∧ (carried attempt unread).flatten <+: content

theorem untilRefused_requests_append {accepts : Nat → Bool} {first : Nat} {chunks : List Bytes}
    (refused : Refused accepts first chunks.length) (offset : Nat) {others : List Bytes} (more : others ≠ []) :
    untilRefused accepts first (requests resourceName false offset chunks) =
      untilRefused accepts first
        (requests resourceName true offset (untilRefused accepts first chunks ++ others)) := by
  induction chunks generalizing first offset with
  | nil => exact absurd refused (not_refused_zero _ _)
  | cons chunk chunks ih =>
    rw [List.length_cons, refused_succ] at refused
    cases accepted : accepts first with
    | false => simp [requests, untilRefused, accepted, more]
    | true =>
      rw [accepted] at refused
      have later := ih (refused.resolve_left Bool.noConfusion) (offset + chunk.length)
      simpa [requests, untilRefused, accepted, more] using later

theorem Rereads.asChunked (rereads : Rereads content attempt unread) (part : unread.length < content.length) :
    AsChunked resourceName content attempt (sentBy resourceName false attempt unread) := by
  obtain ⟨refused, same⟩ := rereads
  have within : carried attempt unread <+: pieces attempt.reads 0 unread := untilRefused_initial _ _ _
  have short : (carried attempt unread).flatten.length ≤ unread.length := by
    have length := within.flatten.length_le
    rwa [pieces_flatten] at length
  have others : pieces (fun _ => bytestreamChunkSizeBytes) 0
      (content.drop (carried attempt unread).flatten.length) ≠ [] := by
    rw [Ne, pieces_eq_nil, List.drop_eq_nil_iff]
    omega
  refine ⟨carried attempt unread ++ _, ⟨?_, List.append_ne_nil_of_right_ne_nil _ others, fun chunk member => ?_,
    fun _ chunk member => ?_⟩, untilRefused_requests_append refused 0 others⟩
  next => rw [List.flatten_append, pieces_flatten, List.prefix_iff_eq_append.mp same]
  next =>
    rcases List.mem_append.mp member with carried | later
    next => exact (mem_pieces (within.subset carried)).2
    next => exact (mem_pieces later).2
  next =>
    rcases List.mem_append.mp member with carried | later
    next => exact (mem_pieces (within.subset carried)).1
    next => exact (mem_pieces later).1

theorem AsChunked.rereads (chunked : AsChunked resourceName content attempt (sentBy resourceName false attempt unread))
    (part : unread.length < content.length) : Rereads content attempt unread := by
  refine ⟨?_, by simpa [sentBy_data] using chunked.part⟩
  by_contra accepted
  have every : carried attempt unread = pieces attempt.reads 0 unread := untilRefused_eq_self accepted
  have count : (sentBy resourceName false attempt unread).length = (pieces attempt.reads 0 unread).length := by
    rw [← every, carried, ← List.length_map (f := WriteRequest.data)]
    exact congrArg List.length (untilRefused_requests_data _ _ _ _ _)
  have all := chunked.all (count ▸ accepted)
  rw [sentBy_data, every, pieces_flatten] at all
  rw [all] at part
  exact Nat.lt_irrefl _ part

end Rereads

section Runs

variable {ι : Type} {client : Client WriteLog} {script : Nat → WriteAttempt} {digest : Digest} {content : Bytes}

def Retried (attempt : WriteAttempt) : Prop :=
  attempt.finish.1.ok = false ∧ GrpcRetrier.statusIsRetryable attempt.finish.1 = true

def left (script : Nat → WriteAttempt) (content : Bytes) : Nat → Bytes
  | 0 => content
  | attempt + 1 =>
    (left script content attempt).drop (carried (script attempt) (left script content attempt)).flatten.length

def RetriesHarmless (limit : Nat) (script : Nat → WriteAttempt) (content : Bytes) : Prop :=
  content = [] ∨ ∀ attempt, 0 < attempt → attempt ≤ limit → (∀ earlier < attempt, Retried (script earlier)) →
    Rereads content (script attempt) (left script content attempt)

def Committed (script : Nat → WriteAttempt) : WriteLog → Bytes → Prop
  | [], _ => False
  | sent :: older, data =>
    ¬Refused (script older.length).accepts 0 sent.length ∧ (sent.map WriteRequest.data).flatten = data

def stringResult (client : Client WriteLog) (script : Nat → WriteAttempt) (content : Bytes) (digest : Digest) :
    EStateM.Result Exn (Session ι WriteLog) Unit :=
  (client.scripted script).uploadString content digest ⟨[], [], []⟩

def fileResult (client : Client WriteLog) (script : Nat → WriteAttempt) (content : Bytes) (digest : Digest) :
    EStateM.Result Exn WriteLog Unit :=
  (client.scripted script).writeDescriptorReads (readSizes script) content digest []

structure SameUploads (ι : Type) (client : Client WriteLog) (script : Nat → WriteAttempt) (content : Bytes)
    (digest : Digest) : Prop where
  string : Logged (fun attempt => AsChunked (client.makeResourceName digest true) content (script attempt))
    (exitState (stringResult client script content digest : EStateM.Result Exn (Session ι _) _)).server
  file : Logged (fun attempt => AsChunked (client.makeResourceName digest true) content (script attempt))
    (exitState (fileResult client script content digest))
  succeed : (∃ log, fileResult client script content digest = .ok () log) ↔
    ∃ s, (stringResult client script content digest : EStateM.Result Exn (Session ι _) _) = .ok () s
  stringCommits : ∀ data,
    Committed script (exitState (stringResult client script content digest : EStateM.Result Exn (Session ι _) _)).server
      data → data = content
  fileCommits : ∀ data, Committed script (exitState (fileResult client script content digest)) data → data = content

theorem Committed.eq_content {resourceName data : Bytes} {log : WriteLog} (committed : Committed script log data)
    (logged : Logged (fun attempt => AsChunked resourceName content (script attempt)) log) : data = content := by
  cases log with
  | nil => exact committed.elim
  | cons sent older => exact committed.2.symm.trans (logged.1.all committed.1)

theorem attemptEnds_ok {attempt : WriteAttempt} {status : Status} (ended : attemptEnds digest attempt = .ok status) :
    status = attempt.finish.1 := by
  unfold attemptEnds at ended
  split at ended
  next => cases ended
  next => exact (Except.ok.inj ended).symm

theorem follows_of_sent {τ : Type} {limit : Nat} {invocation : τ → EStateM Exn WriteLog (Status × τ)}
    {going : Nat → τ → Prop} {good : Nat → List WriteRequest → Prop} {sent : Nat → τ → List WriteRequest}
    {next : Nat → τ → τ}
    (runs : ∀ captured log, going log.length captured → invocation captured log =
      (do
        let status ← liftExcept (attemptEnds digest (script log.length))
        return (status, next log.length captured) : EStateM Exn WriteLog (Status × τ))
        (sent log.length captured :: log))
    (sends : ∀ attempt captured, going attempt captured → good attempt (sent attempt captured))
    (further : ∀ attempt captured, going attempt captured → Retried (script attempt) → attempt < limit →
      going (attempt + 1) (next attempt captured)) :
    Follows limit invocation (fun attempt => attemptEnds digest (script attempt))
      (fun attempt captured log => log.length = attempt ∧ Logged good log ∧ going attempt captured) (fun _ _ => True)
      (Logged good) where
  answers := by
    rintro attempt captured log status ⟨rfl, logged, start⟩ ended
    have run := runs captured log start
    rw [ended, liftExcept_ok, pure_bind] at run
    have logged' : Logged good (sent log.length captured :: log) := ⟨sends _ _ start, logged⟩
    refine ⟨_, _, run, logged', fun _ => trivial, fun failed again below => ⟨rfl, logged', ?_⟩⟩
    rw [attemptEnds_ok ended] at failed again
    exact further _ _ start ⟨failed, again⟩ below
  raises := by
    rintro attempt captured log e ⟨rfl, logged, start⟩ ended
    have run := runs captured log start
    rw [ended] at run
    exact ⟨_, run, sends _ _ start, logged⟩

abbrev SendsChunked (client : Client WriteLog) (script : Nat → WriteAttempt) (digest : Digest) (content : Bytes)
    (attempt : Nat) (sent : List WriteRequest) : Prop :=
  AsChunked (client.makeResourceName digest true) content (script attempt) sent

abbrev uploadSettles (client : Client WriteLog) (script : Nat → WriteAttempt) (digest : Digest) : Except Exn Unit :=
  settled (fun attempt => attemptEnds digest (script attempt)) client.grpcRetryLimit 0

theorem writeString_settles :
    Settles (uploadSettles client script digest) (fun _ _ => True) (Logged (SendsChunked client script digest content))
      ((client.scripted script).writeString content digest []) := by
  have follows := @follows_of_sent script digest Unit client.grpcRetryLimit _ (fun _ _ => True)
    (SendsChunked client script digest content)
    (fun attempt _ => untilRefused (script attempt).accepts 0 (requests (client.makeResourceName digest true) true 0
      (cut (fun _ => bytestreamChunkSizeBytes) 0 content)))
    (fun _ captured => captured)
    (fun captured log _ => @attempt_closed client script digest _ _ _ _ _ _
      (@writeChunks_playing client script _ [] log 0 content) fun _ => captured)
    (fun _ _ _ => ⟨_, cut_chunking _ _ _, rfl⟩) fun _ _ _ _ _ => trivial
  exact @Follows.settles _ _ _ _ _ _ _ (client.scripted script) follows () [] ⟨rfl, trivial, trivial⟩

theorem left_suffix (attempt : Nat) : left script content attempt <:+ content := by
  induction attempt with
  | zero => exact List.suffix_rfl
  | succ attempt ih => exact (List.drop_suffix _ _).trans ih

theorem left_lt (some : content ≠ []) {attempt : Nat} (later : 0 < attempt) :
    (left script content attempt).length < content.length := by
  induction attempt, later using Nat.le_induction with
  | base =>
    have first : (carried (script 0) content).flatten.length ≠ 0 := by
      have chunk : 0 < (bytesRead ((script 0).reads 0) content).length :=
        List.length_pos_of_ne_nil (bytesRead_eq_nil.not.mpr some)
      rw [carried, pieces_cons some, untilRefused, List.flatten_cons, List.length_append]
      omega
    have length := List.length_pos_of_ne_nil some
    rw [left, left, List.length_drop]
    omega
  | succ attempt _ ih =>
    refine Nat.lt_of_le_of_lt ?_ ih
    rw [left, List.length_drop]
    omega

def SoundAttempt (script : Nat → WriteAttempt) (content : Bytes) (attempt : Nat) : Prop :=
  left script content attempt = content ∨ (left script content attempt).length < content.length ∧
    Rereads content (script attempt) (left script content attempt)

theorem RetriesHarmless.sound {limit attempt : Nat} (harmless : RetriesHarmless limit script content)
    (within : attempt ≤ limit) (retried : ∀ earlier < attempt, Retried (script earlier)) :
    SoundAttempt script content attempt := by
  by_cases empty : content = []
  next =>
    subst empty
    exact .inl (List.suffix_nil.mp (left_suffix attempt))
  next =>
    rcases Nat.eq_zero_or_pos attempt with rfl | later
    next => exact .inl rfl
    next => exact .inr ⟨left_lt empty later, (harmless.resolve_left empty) attempt later within retried⟩

def startsWhole (content unread : Bytes) : Bool := unread.length = content.length

theorem sentBy_sends {resourceName : Bytes} {attempt : Nat} (sound : SoundAttempt script content attempt) :
    AsChunked resourceName content (script attempt) (sentBy resourceName
      (startsWhole content (left script content attempt)) (script attempt) (left script content attempt)) := by
  rcases sound with whole | ⟨part, rereads⟩
  next =>
    rw [whole, show startsWhole content content = true from decide_eq_true rfl]
    exact sentBy_whole content
  next =>
    rw [show startsWhole content _ = false from decide_eq_false (Nat.ne_of_lt part)]
    exact rereads.asChunked part

variable (size : digest.sizeBytes = content.length)

include size in
theorem attemptDescriptor_exit (attempt : Nat) (log : WriteLog) (same : log.length = attempt) :
    exitState ((client.scripted script).attemptDescriptor (readSizes script) digest (left script content attempt) log) =
      sentBy (client.makeResourceName digest true) (startsWhole content (left script content attempt)) (script attempt)
        (left script content attempt) :: log := by
  subst same
  exact (attemptDescriptor_playing log _ (startsWhole content _) size (left_suffix _).length_le
    decide_eq_true_iff).2

include size in
theorem attemptDescriptor_sound {attempt : Nat} (sound : SoundAttempt script content attempt) {log : WriteLog}
    (same : log.length = attempt) :
    (client.scripted script).attemptDescriptor (readSizes script) digest (left script content attempt) log =
      (do
        let status ← liftExcept (attemptEnds digest (script attempt))
        return (status, left script content (attempt + 1)) : EStateM Exn WriteLog (Status × Bytes))
        (sentBy (client.makeResourceName digest true) (startsWhole content (left script content attempt))
          (script attempt) (left script content attempt) :: log) := by
  subst same
  apply (attemptDescriptor_playing log _ (startsWhole content _) size (left_suffix _).length_le decide_eq_true_iff).1
  rcases sound with whole | ⟨part, refused, -⟩
  next => exact .inl (decide_eq_true (congrArg List.length whole))
  next =>
    right
    rwa [show startsWhole content _ = false from decide_eq_false (Nat.ne_of_lt part)]

include size in
theorem writeDescriptor_settles (harmless : RetriesHarmless client.grpcRetryLimit script content) :
    Settles (uploadSettles client script digest) (fun _ _ => True) (Logged (SendsChunked client script digest content))
      ((client.scripted script).issueRequestAndThrowOnErrors
        ((client.scripted script).attemptDescriptor (readSizes script) digest) content []) := by
  have follows := @follows_of_sent script digest Bytes client.grpcRetryLimit
    ((client.scripted script).attemptDescriptor (readSizes script) digest)
    (fun attempt unread => unread = left script content attempt ∧ attempt ≤ client.grpcRetryLimit ∧
      ∀ earlier < attempt, Retried (script earlier))
    (SendsChunked client script digest content)
    (fun attempt unread => sentBy (client.makeResourceName digest true) (startsWhole content unread) (script attempt)
      unread)
    (fun attempt unread => unread.drop (carried (script attempt) unread).flatten.length) ?_ ?_ ?_
  next =>
    exact @Follows.settles _ _ _ _ _ _ _ (client.scripted script) follows content []
      ⟨rfl, trivial, rfl, Nat.zero_le _, fun _ early => absurd early (Nat.not_lt_zero _)⟩
  next =>
    rintro unread log ⟨rfl, within, retried⟩
    exact attemptDescriptor_sound size (harmless.sound within retried) rfl
  next =>
    rintro attempt unread ⟨rfl, within, retried⟩
    exact sentBy_sends (harmless.sound within retried)
  next =>
    rintro attempt unread ⟨rfl, within, retried⟩ again below
    refine ⟨rfl, below, fun earlier early => ?_⟩
    rcases Nat.lt_succ_iff_lt_or_eq.mp early with before | rfl
    next => exact retried earlier before
    next => exact again

include size in
theorem writeDescriptor_reaches (attempt : Nat) (within : attempt ≤ client.grpcRetryLimit)
    (retried : ∀ earlier < attempt, Retried (script earlier))
    (sound : ∀ earlier < attempt, SoundAttempt script content earlier) :
    ∃ log : WriteLog, log.length = attempt ∧ (client.scripted script).issueRequestAndThrowOnErrors
        ((client.scripted script).attemptDescriptor (readSizes script) digest) content [] =
      (GrpcRetrier.issueRequest ((client.scripted script).attemptDescriptor (readSizes script) digest)
        (client.grpcRetryLimit - attempt) (left script content attempt) >>= throwUnlessOk) log := by
  induction attempt with
  | zero => exact ⟨[], rfl, rfl⟩
  | succ attempt ih =>
    obtain ⟨log, same, run⟩ := ih (by omega) (fun earlier early => retried earlier (by omega))
      fun earlier early => sound earlier (by omega)
    obtain ⟨failed, again⟩ := retried attempt (Nat.lt_succ_self _)
    have ends : attemptEnds digest (script attempt) = .ok (script attempt).finish.1 := by
      unfold attemptEnds
      rw [if_neg (by simp [failed])]
      rfl
    have ran := @attemptDescriptor_sound client _ _ _ size _ (sound attempt (Nat.lt_succ_self _)) _ same
    rw [ends, liftExcept_ok, pure_bind] at ran
    have stepped := @issueRequest_again _ _ _ _ _ _ _ _ (client.grpcRetryLimit - (attempt + 1)) ran failed again
    rw [show client.grpcRetryLimit - (attempt + 1) + 1 = client.grpcRetryLimit - attempt by omega] at stepped
    exact ⟨_, congrArg (· + 1) same, run.trans stepped⟩

theorem writeFileReads_older (resourceName : Bytes) (older : WriteLog) (offset : Nat) (unread : Bytes) :
    Keeps (fun log => ∃ current, log = current :: older)
      ((client.scripted script).writeFileReads (readSizes script) resourceName digest offset unread) fun _ => True := by
  induction length : unread.length using Nat.strong_induction_on generalizing offset unread with
  | _ n ih =>
  subst length
  rw [writeFileReads]
  have read : Keeps (fun log => ∃ current, log = current :: older)
      (calling (readSizes script) : EStateM Exn WriteLog Nat) fun _ => True := fun _ held => ⟨trivial, held⟩
  refine read.andThen fun size => ?_
  simp only
  split
  next ended => exact .throw _
  next ended =>
    have written (request : WriteRequest) : Keeps (fun log => ∃ current, log = current :: older)
        (calling ((client.scripted script).stub.write request) : EStateM Exn WriteLog Bool) fun _ => True := by
      rintro log ⟨current, rfl⟩
      exact ⟨trivial, _, rfl⟩
    refine (written _).andThen fun accepted => ?_
    split
    next more => exact ih _ (drop_bytesRead_lt fun empty => ended ⟨more.2, empty⟩) _ _ rfl
    next => exact .pure trivial

theorem attemptDescriptor_older (unread : Bytes) (log : WriteLog) :
    log <:+ exitState ((client.scripted script).attemptDescriptor (readSizes script) digest unread log) := by
  have finished : Keeps (fun after => ∃ current, after = current :: log)
      (finishWrite (client.scripted script) digest) fun _ => True := by
    rintro _ ⟨current, rfl⟩
    rw [finishWrite_playing]
    cases attemptEnds digest (script log.length) with
    | ok status => exact ⟨trivial, current, rfl⟩
    | error e => exact ⟨current, rfl⟩
  have kept : Keeps (fun after => ∃ current, after = current :: log) (do
      let unread ← (client.scripted script).writeFileReads (readSizes script)
        ((client.scripted script).makeResourceName digest true) digest 0 unread
      let status ← finishWrite (client.scripted script) digest
      return (status, unread)) fun _ => True :=
    (writeFileReads_older _ log 0 unread).andThen fun _ => finished.andThen fun _ => .pure trivial
  obtain ⟨current, after⟩ := kept.exit ⟨[], rfl⟩
  unfold attemptDescriptor
  rw [bind_ok _ (openWriter_playing log), after]
  exact List.suffix_cons _ _

include size in
theorem sound_of_logged (logged : Logged (SendsChunked client script digest content)
      (exitState ((client.scripted script).issueRequestAndThrowOnErrors
        ((client.scripted script).attemptDescriptor (readSizes script) digest) content [])))
    (attempt : Nat) (within : attempt ≤ client.grpcRetryLimit)
    (retried : ∀ earlier < attempt, Retried (script earlier)) : SoundAttempt script content attempt := by
  induction attempt using Nat.strong_induction_on with
  | _ attempt ih =>
    obtain ⟨log, same, run⟩ := writeDescriptor_reaches size attempt within retried fun earlier early =>
      ih earlier early (by omega) fun other before => retried other (by omega)
    have kept := issueRequest_extends (fun log => List.suffix_rfl) (fun _ _ _ => List.IsSuffix.trans)
      (@attemptDescriptor_older client script digest) (client.grpcRetryLimit - attempt) (left script content attempt)
      log
    rw [attemptDescriptor_exit size attempt log same, ← run] at kept
    have sent := logged.of_suffix kept
    rw [same] at sent
    rcases Nat.eq_or_lt_of_le (@left_suffix script content attempt).length_le with whole | part
    next => exact .inl ((left_suffix attempt).eq_of_length whole)
    next =>
      rw [show startsWhole content _ = false from decide_eq_false (Nat.ne_of_lt part)] at sent
      exact .inr ⟨part, AsChunked.rereads sent part⟩

include size in
theorem stringResult_settles :
    Settles (uploadSettles client script digest) (fun _ _ => True)
      (fun s : Session ι WriteLog => Logged (SendsChunked client script digest content) s.server)
      (stringResult client script content digest) := by
  have settles := @writeString_settles client script digest content
  have fits : ¬(content.length : Int) ≠ digest.sizeBytes := not_not.mpr size.symm
  unfold stringResult uploadString
  rw [if_neg fits]
  unfold recorded
  cases run : (client.scripted script).writeString content digest [] with
  | ok done log =>
    rw [run] at settles
    cases settles with
    | returned ok holds => simpa [run] using .returned ok holds trivial
  | error e log =>
    rw [run] at settles
    cases settles with
    | threw error holds => simpa [run] using .threw error holds

theorem fileResult_exit :
    exitState (fileResult client script content digest) =
      exitState ((client.scripted script).issueRequestAndThrowOnErrors
        ((client.scripted script).attemptDescriptor (readSizes script) digest) content []) := by
  unfold fileResult writeDescriptorReads
  cases run : (client.scripted script).issueRequestAndThrowOnErrors
      ((client.scripted script).attemptDescriptor (readSizes script) digest) content [] with
  | ok unread log => rw [bind_ok _ run]; rfl
  | error e log => rw [bind_error _ run]; rfl

include size in
theorem fileResult_settles (harmless : RetriesHarmless client.grpcRetryLimit script content) :
    Settles (uploadSettles client script digest) (fun _ _ => True) (Logged (SendsChunked client script digest content))
      (fileResult client script content digest) := by
  have settles := writeDescriptor_settles size harmless
  unfold fileResult writeDescriptorReads
  cases run : (client.scripted script).issueRequestAndThrowOnErrors
      ((client.scripted script).attemptDescriptor (readSizes script) digest) content [] with
  | ok unread log =>
    rw [run] at settles
    rw [bind_ok _ run]
    cases settles with
    | returned ok holds => exact .returned ok holds trivial
  | error e log =>
    rw [run] at settles
    rw [bind_error _ run]
    cases settles with
    | threw error holds => exact .threw error holds

theorem sameUploads_iff (ι : Type) (client : Client WriteLog) (script : Nat → WriteAttempt) {content : Bytes}
    {digest : Digest} (size : digest.sizeBytes = content.length) :
    SameUploads ι client script content digest ↔ RetriesHarmless client.grpcRetryLimit script content := by
  constructor
  next =>
    intro same
    by_cases empty : content = []
    next => exact .inl empty
    next =>
      refine .inr fun attempt later within retried => ?_
      have sound := sound_of_logged size (fileResult_exit ▸ same.file) attempt within retried
      rcases sound with whole | ⟨-, rereads⟩
      next => exact absurd (congrArg List.length whole) (Nat.ne_of_lt (left_lt empty later))
      next => exact rereads
  next =>
    intro harmless
    have string := @stringResult_settles ι client script digest content size
    have file := fileResult_settles size harmless
    refine ⟨string.kept, file.kept, ?_, fun _ committed => committed.eq_content string.kept,
      fun _ committed => committed.eq_content file.kept⟩
    rw [string.returns_iff, file.returns_iff]

end Runs

section Sample

def logClient : Client WriteLog where
  stub :=
    { findMissingBlobs := fun _ => pure (⟨StatusCode.ok, []⟩, [])
      batchUpdateBlobs := fun _ => pure (⟨StatusCode.internal, []⟩, [])
      batchReadBlobs := fun _ => pure (⟨StatusCode.internal, []⟩, [])
      openWriter := pure ()
      write := fun _ => pure false
      finishWrite := pure (⟨StatusCode.internal, []⟩, 0)
      read := fun _ => pure ([], ⟨StatusCode.internal, []⟩) }
  hash := id
  instanceName := []
  uuid := text "uuid"
  maxBatchTotalSizeBytes := 1024
  grpcRetryLimit := 1

def acceptsAfter (failures attempt : Nat) : WriteAttempt where
  accepts _ := true
  reads _ := bytestreamChunkSizeBytes
  finish := if attempt < failures then (⟨StatusCode.unavailable, []⟩, 0) else (⟨StatusCode.ok, []⟩, 2)

theorem sameUploads_iff_first :
    SameUploads Bool logClient (acceptsAfter 0) (text "ab") (makeDigest id (text "ab")) :=
  (sameUploads_iff Bool logClient (acceptsAfter 0) rfl).mpr
    (.inr fun _ later _ retried => absurd (retried 0 later).1 (by decide))

-- The second attempt finds the file at its end.
theorem second_attempt_reads_nothing :
    (makeDigest id (text "ab")).sizeBytes = (text "ab").length ∧
      ¬SameUploads Bool logClient (acceptsAfter 1) (text "ab") (makeDigest id (text "ab")) := by
  refine ⟨rfl, fun same => ?_⟩
  have retried (earlier : Nat) (early : earlier < 1) : Retried (acceptsAfter 1 earlier) := by
    unfold Retried acceptsAfter
    rw [if_pos early]
    decide
  have logged := same.file
  rw [fileResult_exit] at logged
  rcases sound_of_logged rfl logged 1 (Nat.le_refl 1) retried with whole | ⟨-, ⟨_, _, _, refused⟩, -⟩
  next => exact absurd (congrArg List.length whole) (Nat.ne_of_lt (left_lt (by decide) Nat.one_pos))
  next => cases refused

end Sample

end BuildboxCommon.Client
