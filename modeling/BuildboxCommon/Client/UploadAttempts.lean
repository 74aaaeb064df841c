import BuildboxCommon.Client.Attempts
import BuildboxCommon.Client.Upload

set_option autoImplicit false

namespace BuildboxCommon.Client

open ByteString Effect

variable {σ : Type}

section Reads

-- `read` of a file returns at least a byte unless the file has ended, and maybe less than it is asked for.
def bytesRead (size : Nat) (unread : Bytes) : Bytes := unread.take (min bytestreamChunkSizeBytes (max 1 size))

theorem bytesRead_eq_nil {size : Nat} {unread : Bytes} : bytesRead size unread = [] ↔ unread = [] := by
  unfold bytesRead
  rw [List.take_eq_nil_iff]
  simp [bytestreamChunkSizeBytes]

theorem bytesRead_length_le (size : Nat) (unread : Bytes) :
    (bytesRead size unread).length ≤ bytestreamChunkSizeBytes := by
  unfold bytesRead
  rw [List.length_take]
  omega

theorem bytesRead_append (size : Nat) (unread : Bytes) :
    bytesRead size unread ++ unread.drop (bytesRead size unread).length = unread :=
  List.prefix_iff_eq_append.mp (List.take_prefix _ _)

theorem bytesRead_chunk (unread : Bytes) :
    bytesRead bytestreamChunkSizeBytes unread = unread.take bytestreamChunkSizeBytes := rfl

theorem drop_bytesRead_chunk (unread : Bytes) :
    unread.drop (unread.take bytestreamChunkSizeBytes).length = unread.drop bytestreamChunkSizeBytes := by
  rw [List.length_take]
  rcases Nat.le_total bytestreamChunkSizeBytes unread.length with full | short
  next => rw [Nat.min_eq_left full]
  next => rw [Nat.min_eq_right short, List.drop_length, List.drop_eq_nil_of_le short]

theorem drop_bytesRead_lt {size : Nat} {unread : Bytes} (more : bytesRead size unread ≠ []) :
    (unread.drop (bytesRead size unread).length).length < unread.length := by
  have length := congrArg List.length (bytesRead_append size unread)
  have some := List.length_pos_of_ne_nil more
  rw [List.length_append] at length
  omega

def pieces (sizes : Nat → Nat) (first : Nat) (unread : Bytes) : List Bytes :=
  if more : unread = [] then []
  else bytesRead (sizes first) unread ::
    pieces sizes (first + 1) (unread.drop (bytesRead (sizes first) unread).length)
termination_by unread.length
decreasing_by exact drop_bytesRead_lt (bytesRead_eq_nil.not.mpr more)

@[simp] theorem pieces_nil (sizes : Nat → Nat) (first : Nat) : pieces sizes first [] = [] := by
  rw [pieces, dif_pos rfl]

theorem pieces_cons {sizes : Nat → Nat} {first : Nat} {unread : Bytes} (more : unread ≠ []) :
    pieces sizes first unread = bytesRead (sizes first) unread ::
      pieces sizes (first + 1) (unread.drop (bytesRead (sizes first) unread).length) := by
  rw [pieces, dif_neg more]

theorem pieces_eq_nil {sizes : Nat → Nat} {first : Nat} {unread : Bytes} :
    pieces sizes first unread = [] ↔ unread = [] := by
  by_cases more : unread = []
  next => simp [more]
  next => simp [pieces_cons more, more]

def cut (sizes : Nat → Nat) (first : Nat) (unread : Bytes) : List Bytes :=
  bytesRead (sizes first) unread :: pieces sizes (first + 1) (unread.drop (bytesRead (sizes first) unread).length)

theorem cut_eq_pieces {sizes : Nat → Nat} {first : Nat} {unread : Bytes} (more : unread ≠ []) :
    cut sizes first unread = pieces sizes first unread := (pieces_cons more).symm

theorem pieces_flatten (sizes : Nat → Nat) (first : Nat) (unread : Bytes) :
    (pieces sizes first unread).flatten = unread := by
  induction first, unread using pieces.induct sizes with
  | case1 first => simp
  | case2 first unread more ih => rw [pieces_cons more, List.flatten_cons, ih, bytesRead_append]

theorem mem_pieces {sizes : Nat → Nat} {first : Nat} {unread chunk : Bytes}
    (member : chunk ∈ pieces sizes first unread) : chunk ≠ [] ∧ chunk.length ≤ bytestreamChunkSizeBytes := by
  induction first, unread using pieces.induct sizes with
  | case1 first => simp at member
  | case2 first unread more ih =>
    rw [pieces_cons more, List.mem_cons] at member
    rcases member with rfl | later
    next => exact ⟨bytesRead_eq_nil.not.mpr more, bytesRead_length_le _ _⟩
    next => exact ih later

end Reads

section Requests

variable {α : Type}

def untilRefused (accepts : Nat → Bool) : Nat → List α → List α
  | _, [] => []
  | first, a :: others => a :: if accepts first then untilRefused accepts (first + 1) others else []

def Refused (accepts : Nat → Bool) (first count : Nat) : Prop :=
  ∃ write, first ≤ write ∧ write < first + count ∧ accepts write = false

theorem not_refused_zero (accepts : Nat → Bool) (first : Nat) : ¬Refused accepts first 0 := by
  rintro ⟨write, low, high, -⟩
  omega

theorem refused_succ {accepts : Nat → Bool} {first count : Nat} :
    Refused accepts first (count + 1) ↔ accepts first = false ∨ Refused accepts (first + 1) count := by
  constructor
  next =>
    rintro ⟨write, low, high, refused⟩
    rcases Nat.eq_or_lt_of_le low with rfl | later
    next => exact .inl refused
    next => exact .inr ⟨write, later, by omega, refused⟩
  next =>
    rintro (refused | ⟨write, low, high, refused⟩)
    next => exact ⟨first, le_rfl, by omega, refused⟩
    next => exact ⟨write, by omega, by omega, refused⟩

theorem untilRefused_initial (accepts : Nat → Bool) (first : Nat) (l : List α) :
    untilRefused accepts first l <+: l := by
  induction l generalizing first with
  | nil => exact List.prefix_rfl
  | cons a others ih =>
    unfold untilRefused
    cases accepts first with
    | true => simpa using ih (first + 1)
    | false => simp

theorem untilRefused_eq_self {accepts : Nat → Bool} {first : Nat} {l : List α}
    (accepted : ¬Refused accepts first l.length) : untilRefused accepts first l = l := by
  induction l generalizing first with
  | nil => rfl
  | cons a others ih =>
    rw [List.length_cons, refused_succ, not_or, Bool.not_eq_false] at accepted
    simp [untilRefused, accepted.1, ih accepted.2]

theorem untilRefused_eq_self_of_accepted {accepts : Nat → Bool} {first : Nat} {l : List α}
    (accepted : ¬Refused accepts first (untilRefused accepts first l).length) : untilRefused accepts first l = l := by
  induction l generalizing first with
  | nil => rfl
  | cons a others ih =>
    unfold untilRefused at accepted ⊢
    rw [List.length_cons, refused_succ, not_or, Bool.not_eq_false] at accepted
    simp only [accepted.1, if_true] at accepted ⊢
    rw [ih accepted.2]

def requests (resourceName : Bytes) (whole : Bool) : Nat → List Bytes → List WriteRequest
  | _, [] => []
  | offset, chunk :: chunks =>
    ⟨resourceName, offset, chunk, whole && chunks.isEmpty⟩ ::
      requests resourceName whole (offset + chunk.length) chunks

variable {resourceName : Bytes} {whole : Bool}

theorem requests_data (offset : Nat) (chunks : List Bytes) :
    (requests resourceName whole offset chunks).map WriteRequest.data = chunks := by
  induction chunks generalizing offset with
  | nil => rfl
  | cons chunk chunks ih => rw [requests, List.map_cons, ih]

theorem untilRefused_map {β : Type} (f : α → β) (accepts : Nat → Bool) (first : Nat) (l : List α) :
    (untilRefused accepts first l).map f = untilRefused accepts first (l.map f) := by
  induction l generalizing first with
  | nil => rfl
  | cons a others ih =>
    cases accepted : accepts first <;> simp [untilRefused, accepted, ih]

end Requests

section Model

def writeFileReads (client : Client σ) (sizes : StateM σ Nat) (resourceName : Bytes) (digest : Digest) (offset : Nat)
    (unread : Bytes) : EStateM Exn σ Bytes := do
  let size ← calling sizes
  let buffer := bytesRead size unread
  let rest := unread.drop buffer.length
  if _ended : offset + buffer.length < digest.sizeBytes ∧ buffer = [] then
    throw (.runtimeError (text "Upload of " ++ digest.hashOther ++ text " failed: unexpected end of file"))
  else
    let lastChunk := ¬(offset + buffer.length < digest.sizeBytes)
    let written ← calling (client.stub.write ⟨resourceName, offset, buffer, lastChunk⟩)
    if _more : written = true ∧ offset + buffer.length < digest.sizeBytes then
      writeFileReads client sizes resourceName digest (offset + buffer.length) rest
    else return rest
termination_by unread.length
decreasing_by exact drop_bytesRead_lt fun empty => _ended ⟨_more.2, empty⟩

def attemptDescriptor (client : Client σ) (sizes : StateM σ Nat) (digest : Digest) (unread : Bytes) :
    EStateM Exn σ (Status × Bytes) := do
  calling client.stub.openWriter
  let unread ← writeFileReads client sizes (client.makeResourceName digest true) digest 0 unread
  let status ← finishWrite client digest
  return (status, unread)

def writeDescriptorReads (client : Client σ) (sizes : StateM σ Nat) (contents : Bytes) (digest : Digest) :
    EStateM Exn σ Unit := do
  let _ ← client.issueRequestAndThrowOnErrors (client.attemptDescriptor sizes digest) contents
  return ()

theorem writeFileReads_chunks (client : Client σ) (resourceName : Bytes) (digest : Digest) (offset : Nat)
    (unread : Bytes) :
    writeFileReads client (pure bytestreamChunkSizeBytes) resourceName digest offset unread =
      writeFileChunks client resourceName digest offset unread := by
  have full (rest : Nat → EStateM Exn σ Bytes) :
      (calling (pure bytestreamChunkSizeBytes) >>= rest) = rest bytestreamChunkSizeBytes := rfl
  induction offset, unread using writeFileChunks.induct digest with
  | case1 offset unread buffer ended =>
    rw [writeFileReads, writeFileChunks, dif_pos ended]
    exact dif_pos ended
  | case2 offset unread buffer rest ended ih =>
    rw [writeFileReads, writeFileChunks, dif_neg ended, full]
    refine (dif_neg ended).trans (bind_congr fun written => ?_)
    simp only [bytesRead_chunk, drop_bytesRead_chunk]
    split
    next more => exact ih written more
    next => rfl

theorem writeDescriptorReads_chunks (client : Client σ) (contents : Bytes) (digest : Digest) :
    client.writeDescriptorReads (pure bytestreamChunkSizeBytes) contents digest =
      client.writeDescriptor contents digest := by
  unfold writeDescriptorReads writeDescriptor attemptDescriptor
  simp only [writeFileReads_chunks]

structure WriteAttempt where
  accepts : Nat → Bool
  reads : Nat → Nat
  finish : Status × Int

abbrev WriteLog := List (List WriteRequest)

def playing (script : Nat → WriteAttempt) (stub : Stub WriteLog) : Stub WriteLog :=
  { stub with
    openWriter := fun log => ((), [] :: log)
    write := fun request log =>
      ((script (log.length - 1)).accepts (log.headD []).length, (log.headD [] ++ [request]) :: log.tail)
    finishWrite := fun log => ((script (log.length - 1)).finish, log) }

def readSizes (script : Nat → WriteAttempt) : StateM WriteLog Nat := fun log =>
  ((script (log.length - 1)).reads (log.headD []).length, log)

def scripted (client : Client WriteLog) (script : Nat → WriteAttempt) : Client WriteLog :=
  { client with stub := playing script client.stub }

end Model

section Attempt

variable {client : Client WriteLog} {script : Nat → WriteAttempt} {digest : Digest} {resourceName : Bytes}

def reading (whole : Bool) (sizes : Nat → Nat) (first : Nat) (unread : Bytes) : List Bytes :=
  if whole then cut sizes first unread else pieces sizes first unread

theorem reading_of_unread {whole : Bool} {sizes : Nat → Nat} {first : Nat} {unread : Bytes}
    (more : whole = true → unread ≠ []) : reading whole sizes first unread = pieces sizes first unread := by
  unfold reading
  cases whole with
  | true => exact cut_eq_pieces (more rfl)
  | false => rfl

theorem reading_cons {whole : Bool} {sizes : Nat → Nat} {first : Nat} {unread : Bytes}
    (some : whole = true ∨ unread ≠ []) :
    reading whole sizes first unread = bytesRead (sizes first) unread ::
      pieces sizes (first + 1) (unread.drop (bytesRead (sizes first) unread).length) := by
  rcases some with rfl | more
  next => rfl
  next => rw [reading_of_unread fun _ => more, pieces_cons more]

inductive Wrote (accepts : Nat → Bool) (whole : Bool) (first : Nat) (chunks : List Bytes) (unread : Bytes)
    (log : WriteLog) : EStateM.Result Exn WriteLog Bytes → Prop where
  | sent (done : whole = true ∨ Refused accepts first chunks.length) :
      Wrote accepts whole first chunks unread log
        (.ok (unread.drop (untilRefused accepts first chunks).flatten.length) log)
  | ended (e : Exn) (part : whole = false) (accepted : ¬Refused accepts first chunks.length) :
      Wrote accepts whole first chunks unread log (.error e log)

section Wrote

variable {accepts : Nat → Bool} {whole : Bool} {first : Nat} {chunk : Bytes} {chunks : List Bytes} {unread : Bytes}
  {log : WriteLog}

theorem Wrote.nothing : Wrote accepts true first [] unread log (.ok unread log) := by
  have sent : Wrote accepts true first [] unread log _ := .sent (.inl rfl)
  simpa [untilRefused] using sent

theorem Wrote.refused (refused : accepts first = false) :
    Wrote accepts whole first (chunk :: chunks) unread log (.ok (unread.drop chunk.length) log) := by
  have sent : Wrote accepts whole first (chunk :: chunks) unread log _ :=
    .sent (.inr (refused_succ.mpr (.inl refused)))
  simpa [untilRefused, refused] using sent

theorem Wrote.cons {result : EStateM.Result Exn WriteLog Bytes} (accepted : accepts first = true)
    (others : Wrote accepts whole (first + 1) chunks (unread.drop chunk.length) log result) :
    Wrote accepts whole first (chunk :: chunks) unread log result := by
  cases others with
  | sent done =>
    have sent : Wrote accepts whole first (chunk :: chunks) unread log _ :=
      .sent (done.imp_right fun refused => refused_succ.mpr (.inr refused))
    simpa [untilRefused, accepted] using sent
  | ended e part all =>
    refine .ended e part ?_
    rw [List.length_cons, refused_succ, accepted]
    simpa using all

end Wrote

theorem openWriter_playing (log : WriteLog) : calling (client.scripted script).stub.openWriter log =
    (.ok () ([] :: log) : EStateM.Result Exn _ _) := rfl

theorem write_playing (current : List WriteRequest) (older : WriteLog) (request : WriteRequest) :
    calling ((client.scripted script).stub.write request) (current :: older) =
      (.ok ((script older.length).accepts current.length) ((current ++ [request]) :: older) :
        EStateM.Result Exn _ _) := rfl

section Reading

variable {whole : Bool} {offset total : Nat} {unread : Bytes}

theorem ended_iff (size : Nat) (within : offset + unread.length ≤ total)
    (all : whole = true ↔ offset + unread.length = total) :
    (offset + (bytesRead size unread).length < total ∧ bytesRead size unread = []) ↔ whole = false ∧ unread = [] := by
  rw [← Bool.not_eq_true, all, bytesRead_eq_nil]
  constructor
  next =>
    rintro ⟨early, rfl⟩
    rw [bytesRead_eq_nil.mpr rfl] at early
    exact ⟨early.ne, rfl⟩
  next =>
    rintro ⟨part, rfl⟩
    rw [bytesRead_eq_nil.mpr rfl]
    exact ⟨lt_of_le_of_ne within part, rfl⟩

theorem last_eq (sizes : Nat → Nat) (first : Nat) {buffer rest : Bytes}
    (split : buffer.length + rest.length = unread.length)
    (within : offset + unread.length ≤ total) (all : whole = true ↔ offset + unread.length = total) :
    decide (¬(offset + buffer.length : Int) < total) = (whole && (pieces sizes first rest).isEmpty) := by
  have tail : (pieces sizes first rest).isEmpty = true ↔ rest.length = 0 := by
    rw [List.isEmpty_iff, pieces_eq_nil, List.length_eq_zero_iff]
  rw [Bool.eq_iff_iff, decide_eq_true_iff, Bool.and_eq_true, all, tail]
  omega

end Reading

theorem writeFileReads_playing (current : List WriteRequest) (older : WriteLog) (whole : Bool) (offset total : Nat)
    (unread : Bytes) (size : digest.sizeBytes = total) (within : offset + unread.length ≤ total)
    (all : whole = true ↔ offset + unread.length = total) :
    Wrote (script older.length).accepts whole current.length
      (reading whole (script older.length).reads current.length unread) unread
      ((current ++ untilRefused (script older.length).accepts current.length
        (requests resourceName whole offset
          (reading whole (script older.length).reads current.length unread))) :: older)
      ((client.scripted script).writeFileReads (readSizes script) resourceName digest offset unread
        (current :: older)) := by
  induction length : unread.length using Nat.strong_induction_on generalizing current offset unread with
  | _ n ih =>
  subst length
  have read : calling (readSizes script) (current :: older) =
    (.ok ((script older.length).reads current.length) (current :: older) : EStateM.Result Exn _ _) := rfl
  rw [writeFileReads, bind_ok _ read]
  simp only
  have split := congrArg List.length (bytesRead_append ((script older.length).reads current.length) unread)
  rw [List.length_append] at split
  by_cases ended : offset + (bytesRead ((script older.length).reads current.length) unread).length < digest.sizeBytes ∧
      bytesRead ((script older.length).reads current.length) unread = []
  next =>
    rw [dif_pos ended]
    rw [size] at ended
    obtain ⟨rfl, rfl⟩ := (ended_iff _ within all).mp (by exact_mod_cast ended)
    simpa [reading, requests, untilRefused] using .ended _ rfl (not_refused_zero _ _)
  next =>
    rw [dif_neg ended]
    have some : whole = true ∨ unread ≠ [] := by
      rw [size] at ended
      have goes := (ended_iff _ within all).not.mp (by exact_mod_cast ended)
      rwa [not_and_or, Bool.not_eq_false] at goes
    rw [reading_cons some]
    generalize buffered : bytesRead ((script older.length).reads current.length) unread = buffer at *
    generalize left : unread.drop buffer.length = rest at *
    have flag := last_eq (script older.length).reads (current.length + 1) split within all
    rw [← size] at flag
    rw [flag, bind_ok _ (write_playing _ _ _)]
    cases accepted : (script older.length).accepts current.length with
    | false =>
      rw [dif_neg (by simp), ← left]
      simpa [requests, untilRefused, accepted] using Wrote.refused accepted
    | true =>
      by_cases more : (offset + buffer.length : Int) < digest.sizeBytes
      next =>
        rw [dif_pos ⟨rfl, more⟩]
        have shorter : rest.length < unread.length := by
          have some := List.length_pos_of_ne_nil fun empty => ended ⟨more, empty⟩
          omega
        have next := ih rest.length shorter (current ++ [⟨resourceName, offset, buffer, whole && (pieces
          (script older.length).reads (current.length + 1) rest).isEmpty⟩]) (offset + buffer.length) rest
          (by omega) (by rw [all]; omega) rfl
        have same : reading whole (script older.length).reads (current.length + 1) rest =
            pieces (script older.length).reads (current.length + 1) rest := by
          refine reading_of_unread fun complete empty => ?_
          have reached := all.mp complete
          rw [empty, List.length_nil] at split
          omega
        rw [List.length_append, List.length_singleton, same] at next
        refine .cons accepted ?_
        rw [left]
        simpa [requests, untilRefused, accepted] using next
      next =>
        rw [dif_neg fun further => more further.2]
        have done : rest = [] := List.length_eq_zero_iff.mp (by omega)
        have complete : whole = true := by
          rw [all]
          rw [done, List.length_nil] at split
          omega
        subst complete
        refine .cons accepted ?_
        rw [left]
        simpa [requests, untilRefused, accepted, done] using Wrote.nothing

theorem writeChunks_playing (current : List WriteRequest) (older : WriteLog) (offset : Nat) (data : Bytes) :
    (client.scripted script).writeChunks resourceName offset data (current :: older) =
      .ok () ((current ++ untilRefused (script older.length).accepts current.length
        (requests resourceName true offset
          (cut (fun _ => bytestreamChunkSizeBytes) current.length data))) :: older) := by
  induction offset, data using writeChunks.induct generalizing current with
  | case1 offset data chunk rest ih =>
    have chunks : cut (fun _ => bytestreamChunkSizeBytes) current.length data =
        chunk :: pieces (fun _ => bytestreamChunkSizeBytes) (current.length + 1) rest := by
      unfold cut
      rw [bytesRead_chunk, drop_bytesRead_chunk]
    have flag : decide (rest = []) =
        (true && (pieces (fun _ => bytestreamChunkSizeBytes) (current.length + 1) rest).isEmpty) := by
      rw [Bool.eq_iff_iff, decide_eq_true_iff, Bool.true_and, List.isEmpty_iff, pieces_eq_nil]
    rw [writeChunks, bind_ok _ (write_playing _ _ _), chunks, flag]
    rw [requests, untilRefused]
    cases accepted : (script older.length).accepts current.length with
    | false =>
      rw [dif_neg (by simp), if_neg (by simp)]
      rfl
    | true =>
      by_cases more : rest = []
      next =>
        rw [dif_neg fun further => further.2 more, more, pieces_nil]
        rfl
      next =>
        rw [dif_pos ⟨rfl, more⟩]
        refine (ih true ⟨rfl, more⟩ _).trans ?_
        rw [cut_eq_pieces more, List.length_append, List.length_singleton, List.append_assoc]
        rfl

def attemptEnds (digest : Digest) (attempt : WriteAttempt) : Except Exn Status :=
  if attempt.finish.1.ok ∧ attempt.finish.2 ≠ digest.sizeBytes then
    throw (.runtimeError (text "Expected to upload " ++ text (toString digest.sizeBytes) ++ text " bytes for " ++
      digest.hashOther ++ text ", but server reports " ++ text (toString attempt.finish.2) ++
      text " bytes committed"))
  else return attempt.finish.1

theorem finishWrite_playing (sent : List WriteRequest) (older : WriteLog) :
    finishWrite (client.scripted script) digest (sent :: older) =
      (liftExcept (attemptEnds digest (script older.length)) : EStateM Exn WriteLog Status) (sent :: older) := by
  have finished : calling (client.scripted script).stub.finishWrite (sent :: older) =
    (.ok (script older.length).finish (sent :: older) : EStateM.Result Exn _ _) := rfl
  unfold finishWrite attemptEnds
  rw [bind_ok _ finished]
  cases (script older.length).finish with
  | mk status committedSize =>
    simp only
    split <;> rfl

theorem attempt_closed {α β : Type} {body : EStateM Exn WriteLog α} {a : α} {sent : List WriteRequest} {log : WriteLog}
    (ran : body ([] :: log) = .ok a (sent :: log)) (result : α → β) :
    (do
      calling (client.scripted script).stub.openWriter
      let a ← body
      let status ← finishWrite (client.scripted script) digest
      return (status, result a) : EStateM Exn WriteLog (Status × β)) log =
    (do
      let status ← liftExcept (attemptEnds digest (script log.length))
      return (status, result a) : EStateM Exn WriteLog (Status × β)) (sent :: log) := by
  rw [bind_ok _ (openWriter_playing log), bind_ok _ ran]
  cases ended : attemptEnds digest (script log.length) with
  | ok status =>
    rw [bind_ok _ ((finishWrite_playing sent log).trans (by rw [ended]; rfl))]
    rfl
  | error e =>
    rw [bind_error _ ((finishWrite_playing sent log).trans (by rw [ended]; rfl))]
    rfl

def carried (attempt : WriteAttempt) (unread : Bytes) : List Bytes :=
  untilRefused attempt.accepts 0 (pieces attempt.reads 0 unread)

theorem reading_carried (whole : Bool) (attempt : WriteAttempt) (unread : Bytes) :
    (untilRefused attempt.accepts 0 (reading whole attempt.reads 0 unread)).flatten =
      (carried attempt unread).flatten := by
  by_cases more : unread = []
  next =>
    subst more
    have empty : bytesRead (attempt.reads 0) [] = [] := bytesRead_eq_nil.mpr rfl
    cases whole <;> cases accepted : attempt.accepts 0 <;> simp [reading, cut, carried, untilRefused, empty, accepted]
  next => rw [reading_of_unread fun _ => more, carried]

def sentBy (resourceName : Bytes) (whole : Bool) (attempt : WriteAttempt) (unread : Bytes) : List WriteRequest :=
  untilRefused attempt.accepts 0 (requests resourceName whole 0 (reading whole attempt.reads 0 unread))

theorem attemptDescriptor_playing (log : WriteLog) (unread : Bytes) (whole : Bool) {total : Nat}
    (size : digest.sizeBytes = total) (within : unread.length ≤ total) (all : whole = true ↔ unread.length = total) :
    (whole = true ∨ Refused (script log.length).accepts 0 (reading whole (script log.length).reads 0 unread).length →
      (client.scripted script).attemptDescriptor (readSizes script) digest unread log =
        (do
          let status ← liftExcept (attemptEnds digest (script log.length))
          return (status, unread.drop (carried (script log.length) unread).flatten.length) :
            EStateM Exn WriteLog (Status × Bytes))
          (sentBy ((client.scripted script).makeResourceName digest true) whole (script log.length) unread :: log)) ∧
    exitState ((client.scripted script).attemptDescriptor (readSizes script) digest unread log) =
      sentBy ((client.scripted script).makeResourceName digest true) whole (script log.length) unread :: log := by
  have wrote := @writeFileReads_playing client script digest ((client.scripted script).makeResourceName digest true)
    [] log whole 0 total unread size (by omega) (by rw [all]; omega)
  rw [List.nil_append] at wrote
  cases ran : (client.scripted script).writeFileReads (readSizes script)
      ((client.scripted script).makeResourceName digest true) digest 0 unread ([] :: log) with
  | ok left after =>
    rw [ran] at wrote
    cases wrote with
    | sent done =>
      have closed := @attempt_closed client script digest _ _ _ _ _ _ ran id
      rw [List.length_nil, reading_carried] at closed
      refine ⟨fun _ => closed, ?_⟩
      rw [show (client.scripted script).attemptDescriptor (readSizes script) digest unread log = _ from closed]
      cases attemptEnds digest (script log.length) <;> rfl
  | error e after =>
    rw [ran] at wrote
    cases wrote with
    | ended _ part accepted =>
      refine ⟨fun done => ?_, ?_⟩
      next =>
        rcases done with complete | refused
        next => exact absurd (part.symm.trans complete) Bool.false_ne_true
        next => exact absurd refused accepted
      next =>
        unfold attemptDescriptor
        rw [bind_ok _ (openWriter_playing log), bind_error _ ran]
        rfl

end Attempt

end BuildboxCommon.Client
