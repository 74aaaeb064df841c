import BuildboxCommon.Client.UploadBlobs
import BuildboxCommon.Merklize.MakeNestedDirectory

set_option autoImplicit false

namespace BuildboxCommon

open ByteString Effect FileUtils LexicalPath PathResolution Posix

variable {ι σ : Type}

namespace Client

section Model

-- `byteSizeLong` is the size of a serialised digest. A digest that starts a request is not counted in it.
def requestsToIssue (byteSizeLong : Digest → Nat) : Nat → List Digest → List Digest → List (List Digest)
  | _, request, [] => [request]
  | batchSize, request, digest :: digests =>
    if batchSize + byteSizeLong digest > bytestreamChunkSizeBytes then
      request :: requestsToIssue byteSizeLong 0 [digest] digests
    else requestsToIssue byteSizeLong (batchSize + byteSizeLong digest) (request ++ [digest]) digests

def findMissingBlobs (client : Client σ) (byteSizeLong : Digest → Nat) (digests : List Digest) :
    EStateM Exn (Session ι σ) (List Digest) :=
  (requestsToIssue byteSizeLong 0 [] digests).foldlM (fun missingBlobs request => do
    let missing ← recorded (.findMissingBlobs request)
      (client.issueRequestAndThrowOnErrors (unary (client.stub.findMissingBlobs request)) [])
    return missingBlobs ++ missing) []

def missingDigests (client : Client σ) (byteSizeLong : Digest → Nat) (order : IterationOrder Digest.key Bytes)
    (directoryMap : DigestStringMap) : EStateM Exn (Session ι σ) DigestStringMap := do
  let missingBlobs ← client.findMissingBlobs byteSizeLong ((order.visit directoryMap).map Prod.fst)
  missingBlobs.foldlM (fun missingFiles digest =>
    match directoryMap.find digest with
    | none => throw .outOfRange
    | some blob => return missingFiles.assign digest blob) UnorderedMap.empty

structure Surroundings (ι : Type) where
  fs : FileSystem ι
  hash : Bytes → Bytes
  directories : WireFormat Directory
  trees : Encoding Tree
  byteSizeLong : Digest → Nat
  order : IterationOrder Digest.key Bytes
  sorting : SizeSort UploadRequest fun request => request.digest.sizeBytes
  stack : Nat

variable (client : Client σ) (around : Surroundings ι)

-- A path of a file is told from a serialised directory by whether it can be parsed as one.
def uploadRequestOf (entry : Digest × Bytes) : EStateM Exn (Session ι σ) UploadRequest :=
  if around.directories.parses entry.2 then return ⟨entry.1, entry.2, []⟩
  else do
    let fileContents ← getFileContents around.fs (cString entry.2)
    return ⟨entry.1, fileContents, []⟩

def missingEntries (path : Bytes) : EStateM Exn (Session ι σ) (NestedDirectory × Digest × DigestStringMap) := do
  let (nestedDir, directoryMap) ← makeNestedDirectory around.fs around.hash [] false around.stack
    around.fs.currentDirectory [] (cString path) UnorderedMap.empty
  let (directoryDigest, directoryMap) := nestedDir.toDigest around.hash around.directories directoryMap
  let missing ← client.missingDigests around.byteSizeLong around.order directoryMap
  return (nestedDir, directoryDigest, missing)

def directoryUploads (path : Bytes) : EStateM Exn (Session ι σ) (NestedDirectory × Digest × List UploadRequest) := do
  let (nestedDir, directoryDigest, missing) ← client.missingEntries around path
  let uploadRequests ← (around.order.visit missing).mapM (uploadRequestOf around)
  return (nestedDir, directoryDigest, uploadRequests)

def uploadDirectory (path : Bytes) : EStateM Exn (Session ι σ) (Digest × Tree × List UploadResult) := do
  let (nestedDir, directoryDigest, uploadRequests) ← client.directoryUploads around path
  let tree := nestedDir.toTree around.hash around.directories
  let results ← client.uploadBlobs around.fs around.sorting uploadRequests false
  return (directoryDigest, tree, results)

end Model

theorem flatten_requestsToIssue (byteSizeLong : Digest → Nat) (batchSize : Nat) (request digests : List Digest) :
    (requestsToIssue byteSizeLong batchSize request digests).flatten = request ++ digests := by
  induction digests generalizing batchSize request with
  | nil => simp [requestsToIssue]
  | cons digest digests ih =>
    unfold requestsToIssue
    split
    next => simp [ih]
    next => simp [ih]

section Missing

variable {client : Client σ} {byteSizeLong : Digest → Nat}

structure Queried (queried missing : List Digest) (s s' : Session ι σ) : Prop where
  session : ∃ server exchanges, s' = { s with server := server, exchanges := s.exchanges ++ exchanges } ∧
    exchanges.flatMap asked = queried ∧ exchanges.flatMap reported = missing ∧ exchanges.flatMap Exchange.sent = []

theorem findMissingBlobs_ok {digests missing : List Digest} {s s' : Session ι σ}
    (run : client.findMissingBlobs byteSizeLong digests s = .ok missing s') : Queried digests missing s s' := by
  have queries (requests : List (List Digest)) (before : List Digest) (s : Session ι σ)
      (run : (requests.foldlM (fun missingBlobs request => do
        let missing ← recorded (.findMissingBlobs request)
          (client.issueRequestAndThrowOnErrors (unary (client.stub.findMissingBlobs request)) [])
        return missingBlobs ++ missing) before : EStateM Exn (Session ι σ) (List Digest)) s = .ok missing s') :
      ∃ more, missing = before ++ more ∧ Queried requests.flatten more s s' := by
    induction requests generalizing before s with
    | nil =>
      cases run
      exact ⟨[], (List.append_nil _).symm, ⟨s'.server, [], by simp, rfl, rfl, rfl⟩⟩
    | cons request requests ih =>
      rw [List.foldlM_cons] at run
      obtain ⟨first, between, one, rest⟩ := of_bind_ok run
      obtain ⟨found, between', answered, returned⟩ := of_bind_ok one
      cases returned
      obtain ⟨server, rfl⟩ := of_recorded_ok answered
      obtain ⟨more, rfl, ⟨server', exchanges, rfl, all, every, unsent⟩⟩ := ih _ _ rest
      refine ⟨found ++ more, List.append_assoc _ _ _, ⟨server', .findMissingBlobs request (.ok found) :: exchanges, ?_⟩⟩
      simp [asked, reported, Exchange.sent, all, every, unsent]
  obtain ⟨more, rfl, queried⟩ := queries _ [] s run
  rwa [flatten_requestsToIssue, List.nil_append] at queried

theorem assignMissing_ok {directoryMap map start : DigestStringMap} {missing : List Digest} {s s' : Session ι σ}
    (run : (missing.foldlM (fun missingFiles digest =>
      match directoryMap.find digest with
      | none => throw .outOfRange
      | some blob => return missingFiles.assign digest blob) start : EStateM Exn (Session ι σ) DigestStringMap) s =
        .ok map s') :
    s' = s ∧ (∀ digest ∈ missing, ∃ blob, directoryMap.find digest = some blob) ∧
      ∀ digest, map.find digest =
        if digest.key ∈ missing.map Digest.key then directoryMap.find digest else start.find digest := by
  induction missing generalizing start s with
  | nil =>
    cases run
    exact ⟨rfl, by simp, by simp⟩
  | cons digest missing ih =>
    rw [List.foldlM_cons] at run
    obtain ⟨next, between, one, rest⟩ := of_bind_ok run
    cases found : directoryMap.find digest with
    | none =>
      rw [found] at one
      cases one
    | some blob =>
      rw [found] at one
      cases one
      obtain ⟨same, others, finds⟩ := ih rest
      refine ⟨same, by simpa [found] using others, fun probe => ?_⟩
      rw [finds, UnorderedMap.find_assign]
      simp only [List.map_cons, List.mem_cons]
      by_cases listed : probe.key ∈ missing.map Digest.key
      next => rw [if_pos listed, if_pos (.inr listed)]
      by_cases key : probe.key = digest.key
      next => rw [if_neg listed, if_pos key, if_pos (.inl key), UnorderedMap.find_congr directoryMap key, found]
      next => rw [if_neg listed, if_neg key, if_neg (not_or_intro key listed)]

end Missing

section Entries

variable {client : Client σ} {around : Surroundings ι} {path : Bytes}

def entityPath (path : Bytes) (reading : Reading ι) : Bytes :=
  cString path ++ slash :: [slash].intercalate reading.names

def directoryMap (around : Surroundings ι) (dirfd : ι) (path : Bytes) (nd : NestedDirectory) : DigestStringMap :=
  (nd.toDigest around.hash around.directories (assignAll around.fs around.hash (cString path ++ text "/")
    (readingOrder around.fs around.stack dirfd) .empty)).2

structure FoundMissing (around : Surroundings ι) (path : Bytes) (s s' : Session ι σ) (nd : NestedDirectory)
    (root : Digest) (missing : DigestStringMap) (dirfd : ι) (exchanges : List Exchange) : Prop where
  opened : around.fs.openat around.fs.currentDirectory (cString path) ⟨true, false⟩ = .ok dirfd
  captured : Captured around.fs around.hash [] dirfd nd
  all : ∀ reading, reading ∈ readingOrder around.fs around.stack dirfd ↔ reading.Below around.fs dirfd
  granted : ∀ reading ∈ readingOrder around.fs around.stack dirfd, around.fs.granted reading.fd = .ok reading.fd
  root : root = NestedDirectory.digestOf around.hash around.directories
    (nd.message around.hash around.directories)
  queried : exchanges.flatMap asked = (around.order.visit (directoryMap around dirfd path nd)).map Prod.fst
  known : ∀ digest ∈ exchanges.flatMap reported, ∃ blob, (directoryMap around dirfd path nd).find digest = some blob
  missing : ∀ digest blob, missing.find digest = some blob ↔
    digest.key ∈ (exchanges.flatMap reported).map Digest.key ∧
      (directoryMap around dirfd path nd).find digest = some blob
  unsent : exchanges.flatMap Exchange.sent = []
  session : ∃ server, s' = { s.hashing (readingOrder around.fs around.stack dirfd) with
    server := server, exchanges := s.exchanges ++ exchanges }

theorem openat_of_makeNestedDirectory {fs : FileSystem ι} {hash : Bytes → Bytes} {captureProperties : List Bytes}
    {followSymlinks : Bool} {stack : Nat} {basedirfd : ι} {pathPrefix path : Bytes} {before : DigestStringMap}
    {result : NestedDirectory × DigestStringMap} {s s' : Session ι σ}
    (run : makeNestedDirectory fs hash captureProperties followSymlinks stack basedirfd pathPrefix path before s =
      .ok result s') : ∃ dirfd, fs.openat basedirfd path ⟨true, false⟩ = .ok dirfd := by
  cases stack with
  | zero => cases run
  | succ stack =>
    unfold makeNestedDirectory at run
    cases opened : fs.openat basedirfd path ⟨true, false⟩ with
    | ok dirfd => exact ⟨dirfd, rfl⟩
    | error errno =>
      rw [opened] at run
      cases run

theorem missingEntries_ok {nd : NestedDirectory} {root : Digest} {missing : DigestStringMap} {s s' : Session ι σ}
    (run : client.missingEntries around path s = .ok (nd, root, missing) s') :
    ∃ dirfd exchanges, FoundMissing around path s s' nd root missing dirfd exchanges := by
  obtain ⟨⟨nested, fileMap⟩, between, made, rest⟩ := of_bind_ok run
  obtain ⟨dirfd, opened⟩ := openat_of_makeNestedDirectory made
  have captures := @makeNestedDirectory_captures ι σ around.fs around.hash [] dirfd around.stack
    around.fs.currentDirectory [] (cString path)
      (fun other found => Except.ok.inj (found.symm.trans opened)) .empty s s rfl
  rw [made] at captures
  obtain ⟨captured, all, granted, fileMap_eq, rfl⟩ := captures
  rw [List.nil_append] at fileMap_eq
  obtain ⟨missing', between', queried, returned⟩ := of_bind_ok rest
  obtain ⟨digests, between'', answered, assigned⟩ := of_bind_ok queried
  cases returned
  obtain ⟨rfl, known, finds⟩ := assignMissing_ok assigned
  obtain ⟨server, exchanges, rfl, asked', reported', unsent⟩ := (findMissingBlobs_ok answered).session
  have same : (nd.toDigest around.hash around.directories fileMap).2 =
      directoryMap around dirfd path nd := by rw [directoryMap, ← fileMap_eq]
  rw [same] at known finds asked'
  refine ⟨dirfd, exchanges, opened, captured, all, granted, ?_, asked', reported' ▸ known, fun digest blob => ?_,
    unsent, server, rfl⟩
  next => rw [NestedDirectory.toDigest_eq]
  next =>
    rw [finds, reported']
    split_ifs with listed <;> simp [listed]

def LastReading (around : Surroundings ι) (dirfd : ι) (reading : Reading ι) : Prop :=
  ∃ before after, readingOrder around.fs around.stack dirfd = before ++ reading :: after ∧
    ∀ later ∈ after, (later.digest around.fs around.hash).key ≠ (reading.digest around.fs around.hash).key

def IsMessage (around : Surroundings ι) (nd : NestedDirectory) (digest : Digest) : Prop :=
  ∃ message ∈ nd.messages around.hash around.directories,
    (NestedDirectory.digestOf around.hash around.directories message).key = digest.key

-- Where a directory and a file have one digest, the directory is what the map keeps.
theorem directoryMap_find (dirfd : ι) (nd : NestedDirectory) {digest : Digest} {blob : Bytes}
    (found : (directoryMap around dirfd path nd).find digest = some blob) :
    (∃ message ∈ nd.messages around.hash around.directories, (NestedDirectory.digestOf around.hash
      around.directories message).key = digest.key ∧ around.directories.serializeAsString message = blob) ∨
    ∃ reading, LastReading around dirfd reading ∧ ¬IsMessage around nd (reading.digest around.fs around.hash) ∧
      (reading.digest around.fs around.hash).key = digest.key ∧ entityPath path reading = blob := by
  rw [directoryMap, NestedDirectory.toDigest_eq] at found
  rcases (UnorderedMap.find_foldl_assign _ _ _ _ _ _).mp found with ⟨before, message, after, split, same, -, equal⟩ |
    ⟨none, file⟩
  next => exact .inl ⟨message, by simp [split], same, equal⟩
  rcases (UnorderedMap.find_foldl_assign _ _ _ _ _ _).mp file with ⟨before, reading, after, split, same, last, equal⟩ |
    ⟨-, nothing⟩
  next =>
    refine .inr ⟨reading, ⟨before, after, split, fun later member => ?_⟩, ?_, same, ?_⟩
    next => exact fun equal => last later member (equal.trans same)
    next => exact fun ⟨message, member, equal⟩ => none message member (equal.trans same)
    next =>
      rw [← equal]
      simp [entityPath, text, slash]
  next => cases nothing

theorem directoryMap_keys (dirfd : ι) (nd : NestedDirectory) (digest : Digest) :
    (∃ blob, (directoryMap around dirfd path nd).find digest = some blob) ↔ IsMessage around nd digest ∨
      ∃ reading ∈ readingOrder around.fs around.stack dirfd,
        (reading.digest around.fs around.hash).key = digest.key := by
  rw [directoryMap, NestedDirectory.toDigest_eq]
  refine (UnorderedMap.exists_find_foldl_assign _ _ _ _ _).trans (or_congr .rfl ?_)
  refine (UnorderedMap.exists_find_foldl_assign _ _ _ _ _).trans ?_
  simp

section Requests

variable {nd : NestedDirectory} {root : Digest} {missing : DigestStringMap} {s s' : Session ι σ} {dirfd : ι}
  {exchanges : List Exchange} (asked : FoundMissing around path s s' nd root missing dirfd exchanges)

include asked

theorem FoundMissing.openat_entityPath {reading : Reading ι}
    (member : reading ∈ readingOrder around.fs around.stack dirfd) :
    around.fs.openat around.fs.currentDirectory (cString (entityPath path reading)) ⟨false, false⟩ =
      .ok reading.fd := by
  obtain ⟨named, proper, descent, contents, readable⟩ := (asked.all reading).mp member
  have free : NulFree (entityPath path reading) := by
    refine nulFree_append.mpr ⟨cString_nulFree path, ?_⟩
    rw [NulFree, List.mem_cons, not_or]
    exact ⟨by decide, FileSystem.nulFree_intercalate proper⟩
  have reached : around.fs.pathname true around.fs.currentDirectory (entityPath path reading) = .ok reading.fd :=
    FileSystem.pathname_below (cString_nulFree path) (FileSystem.openat_ok asked.opened).reached proper named descent
      (not_link_of_read readable)
  rw [cString_of_nulFree free]
  unfold FileSystem.openat
  rw [show (!(⟨false, false⟩ : OpenFlags).noFollow) = true from rfl, reached]
  cases object : around.fs.object reading.fd with
  | regular _ _ _ => simpa [object] using asked.granted reading member
  | directory _ _ _ _ => simp [FileSystem.read, object] at readable
  | symlink _ => simp [FileSystem.read, object] at readable

def contentsFor (around : Surroundings ι) (blob : Bytes) : Option Bytes :=
  if around.directories.parses blob then some blob
  else
    match around.fs.openat around.fs.currentDirectory (cString blob) ⟨false, false⟩ with
    | .ok fd => (around.fs.read fd).toOption
    | .error _ => none

theorem FoundMissing.contentsFor_entityPath {reading : Reading ι}
    (member : reading ∈ readingOrder around.fs around.stack dirfd)
    (path' : around.directories.parses (entityPath path reading) = false) :
    ∃ contents, around.fs.read reading.fd = .ok contents ∧
      contentsFor around (entityPath path reading) = some contents := by
  obtain ⟨contents, readable⟩ := ((asked.all reading).mp member).readable
  refine ⟨contents, readable, ?_⟩
  rw [contentsFor, if_neg (by simp [path']), asked.openat_entityPath member]
  simp [readable, Except.toOption]

theorem FoundMissing.entry_cases {entry : Digest × Bytes} (listed : entry ∈ around.order.visit missing) :
    (∃ message ∈ nd.messages around.hash around.directories, (NestedDirectory.digestOf around.hash
      around.directories message).key = entry.1.key ∧
        around.directories.serializeAsString message = entry.2) ∨
    ∃ reading, LastReading around dirfd reading ∧ ¬IsMessage around nd (reading.digest around.fs around.hash) ∧
      (reading.digest around.fs around.hash).key = entry.1.key ∧ entityPath path reading = entry.2 := by
  have stored := (UnorderedMap.find_eq_some missing entry.1 entry.2).mpr
    ⟨entry.1, rfl, (around.order.perm missing).mem_iff.mp listed⟩
  exact directoryMap_find dirfd nd ((asked.missing entry.1 entry.2).mp stored).2

def PathsToldApart (around : Surroundings ι) (path : Bytes) (dirfd : ι) (nd : NestedDirectory)
    (reported : List Digest) : Prop :=
  ∀ reading, LastReading around dirfd reading → ¬IsMessage around nd (reading.digest around.fs around.hash) →
    (reading.digest around.fs around.hash).key ∈ reported.map Digest.key →
    around.directories.parses (entityPath path reading) = true →
    (makeDigest around.hash (entityPath path reading)).key = (reading.digest around.fs around.hash).key

theorem FoundMissing.visit_file {reading : Reading ι} (last : LastReading around dirfd reading)
    (file : ¬IsMessage around nd (reading.digest around.fs around.hash))
    (wanted : (reading.digest around.fs around.hash).key ∈ (exchanges.flatMap reported).map Digest.key) :
    ∃ digest : Digest, digest.key = (reading.digest around.fs around.hash).key ∧
      (digest, entityPath path reading) ∈ around.order.visit missing := by
  have found : (directoryMap around dirfd path nd).find (reading.digest around.fs around.hash) =
      some (entityPath path reading) := by
    obtain ⟨before, after, split, later⟩ := last
    rw [directoryMap, NestedDirectory.toDigest_eq]
    refine (UnorderedMap.find_foldl_assign _ _ _ _ _ _).mpr (.inr ⟨fun message member same => ?_, ?_⟩)
    next => exact file ⟨message, member, same⟩
    refine (UnorderedMap.find_foldl_assign _ _ _ _ _ _).mpr (.inl ⟨before, reading, after, split, rfl, later, ?_⟩)
    simp [entityPath, text, slash]
  obtain ⟨digest, same, stored⟩ := (UnorderedMap.find_eq_some _ _ _).mp ((asked.missing _ _).mpr ⟨wanted, found⟩)
  exact ⟨digest, same, (around.order.perm missing).mem_iff.mpr stored⟩

def DirectoriesParse (around : Surroundings ι) (path : Bytes) (dirfd : ι) (nd : NestedDirectory)
    (reported : List Digest) : Prop :=
  ∀ message ∈ nd.messages around.hash around.directories,
    (NestedDirectory.digestOf around.hash around.directories message).key ∈ reported.map Digest.key →
    (directoryMap around dirfd path nd).find (NestedDirectory.digestOf around.hash around.directories message) =
      some (around.directories.serializeAsString message) →
    utf8 message = true ∨ ∃ fd contents, around.fs.openat around.fs.currentDirectory
      (cString (around.directories.serializeAsString message)) ⟨false, false⟩ = .ok fd ∧
      around.fs.read fd = .ok contents ∧ (makeDigest around.hash contents).key =
        (NestedDirectory.digestOf around.hash around.directories message).key

def FaithfulEntry (around : Surroundings ι) (entry : Digest × Bytes) : Prop :=
  ∃ contents, contentsFor around entry.2 = some contents ∧ (makeDigest around.hash contents).key = entry.1.key

theorem FoundMissing.pathsToldApart (faithful : ∀ entry ∈ around.order.visit missing, FaithfulEntry around entry) :
    PathsToldApart around path dirfd nd (exchanges.flatMap reported) := by
  intro reading last file wanted mistaken
  obtain ⟨digest, same, listed⟩ := asked.visit_file last file wanted
  obtain ⟨contents, read, held⟩ := faithful _ listed
  simp only [contentsFor, if_pos mistaken, Option.some.injEq] at read
  subst read
  exact held.trans same

theorem FoundMissing.directoriesParse (faithful : ∀ entry ∈ around.order.visit missing, FaithfulEntry around entry) :
    DirectoriesParse around path dirfd nd (exchanges.flatMap reported) := by
  intro message member wanted stored
  obtain ⟨digest, same, listed⟩ := (UnorderedMap.find_eq_some _ _ _).mp ((asked.missing _ _).mpr ⟨wanted, stored⟩)
  obtain ⟨contents, read, held⟩ := faithful _ ((around.order.perm missing).mem_iff.mpr listed)
  have parses := around.directories.parses_serialize message
  cases valid : utf8 message with
  | true => exact .inl rfl
  | false =>
    rw [contentsFor, if_neg (by simp [parses, valid])] at read
    cases opened : around.fs.openat around.fs.currentDirectory (cString (around.directories.serializeAsString message))
        ⟨false, false⟩ with
    | error _ => simp [opened] at read
    | ok fd =>
      rw [opened] at read
      cases readable : around.fs.read fd with
      | error _ => simp [readable, Except.toOption] at read
      | ok other =>
        obtain rfl : other = contents := by simpa [readable, Except.toOption] using read
        exact .inr ⟨fd, other, rfl, readable, held.trans same⟩

theorem FoundMissing.faithful_iff : (∀ entry ∈ around.order.visit missing, FaithfulEntry around entry) ↔
    PathsToldApart around path dirfd nd (exchanges.flatMap reported) ∧
      DirectoriesParse around path dirfd nd (exchanges.flatMap reported) := by
  constructor
  next => exact fun faithful => ⟨asked.pathsToldApart faithful, asked.directoriesParse faithful⟩
  next =>
    rintro ⟨apart, parse⟩ entry listed
    have stored := (UnorderedMap.find_eq_some missing entry.1 entry.2).mpr
      ⟨entry.1, rfl, (around.order.perm missing).mem_iff.mp listed⟩
    obtain ⟨wanted, found⟩ := (asked.missing entry.1 entry.2).mp stored
    rcases asked.entry_cases listed with ⟨message, member, same, serialised⟩ | ⟨reading, last, file, same, path'⟩
    next =>
      have parses := around.directories.parses_serialize message
      rw [FaithfulEntry, ← serialised, ← same, contentsFor, parses]
      cases valid : utf8 message with
      | true => exact ⟨_, rfl, rfl⟩
      | false =>
        rw [← UnorderedMap.find_congr _ same, ← serialised] at found
        rcases parse message member (same ▸ wanted) found with impossible | ⟨fd, contents, opened, readable, held⟩
        next => exact absurd (impossible.symm.trans valid) (by decide)
        next => exact ⟨contents, by simp [opened, readable, Except.toOption], held⟩
    rw [FaithfulEntry, ← path', ← same]
    cases parsed : around.directories.parses (entityPath path reading) with
    | true => exact ⟨_, if_pos parsed, apart reading last file (same ▸ wanted) parsed⟩
    | false =>
      obtain ⟨before, after, split, -⟩ := last
      obtain ⟨contents, readable, read⟩ := asked.contentsFor_entityPath (by simp [split]) parsed
      refine ⟨contents, read, ?_⟩
      rw [Reading.digest, readable]
      rfl

end Requests

theorem uploadRequestOf_ok_iff (entry : Digest × Bytes) (request : UploadRequest) (s : Session ι σ) :
    (∃ s', uploadRequestOf around entry s = .ok request s') ↔
      ∃ contents, contentsFor around entry.2 = some contents ∧ ⟨entry.1, contents, []⟩ = request := by
  unfold uploadRequestOf contentsFor
  by_cases parsed : around.directories.parses entry.2
  next => simp [parsed]
  rw [if_neg parsed, if_neg parsed]
  cases opened : around.fs.openat around.fs.currentDirectory (cString entry.2) ⟨false, false⟩ with
  | error errno =>
    obtain ⟨what, fails⟩ : ∃ what, getFileContents around.fs (cString entry.2) s = .error what s := by
      simp only [getFileContents, opened]
      exact ⟨_, throw_apply _ _⟩
    simp [bind_error _ fails]
  | ok fd =>
    cases readable : around.fs.read fd with
    | error errno =>
      obtain ⟨what, fails⟩ : ∃ what, getFileContents around.fs (cString entry.2) s =
          .error what { s with accesses := s.accesses ++ [.sent fd] } := by
        simp only [getFileContents, opened]
        rw [bind_ok _ (rfl : recordAccess (.sent fd) s = .ok _ _)]
        simp only [readable]
        exact ⟨_, throw_apply _ _⟩
      simp [bind_error _ fails, readable, Except.toOption]
    | ok contents => simp [bind_ok _ (getFileContents_ok opened readable s), readable, Except.toOption]

theorem directoryUploads_ok_iff {nd : NestedDirectory} {root : Digest} {missing : DigestStringMap} {s s' : Session ι σ}
    (run : client.missingEntries around path s = .ok (nd, root, missing) s') (requests : List UploadRequest) :
    (∃ ended, client.directoryUploads around path s = .ok (nd, root, requests) ended) ↔
      List.Forall₂ (fun entry request => ∃ contents, contentsFor around entry.2 = some contents ∧
        ⟨entry.1, contents, []⟩ = request) (around.order.visit missing) requests := by
  rw [← mapM_ok_iff (fun entry _ request s => uploadRequestOf_ok_iff entry request s) requests s', directoryUploads,
    bind_ok _ run]
  constructor
  next =>
    rintro ⟨ended, finished⟩
    obtain ⟨others, between, built, returned⟩ := of_bind_ok finished
    cases returned
    exact ⟨_, built⟩
  next => exact fun ⟨ended, built⟩ => ⟨ended, bind_ok _ built⟩

theorem digests_of_built {entries : List (Digest × Bytes)} {requests : List UploadRequest}
    (built : List.Forall₂ (fun entry request => ∃ contents, contentsFor around entry.2 = some contents ∧
      ⟨entry.1, contents, []⟩ = request) entries requests) :
    requests.map UploadRequest.digest = entries.map Prod.fst ∧ ∀ request ∈ requests, request.path = [] := by
  induction built with
  | nil => simp
  | cons first rest ih =>
    obtain ⟨contents, -, rfl⟩ := first
    obtain ⟨digests, inline⟩ := ih
    exact ⟨congrArg _ digests, List.forall_mem_cons.mpr ⟨rfl, inline⟩⟩

theorem uploadRequestOf_keeps {inv : Session ι σ → Prop} {entry : Digest × Bytes}
    (sends : ∀ fd, around.directories.parses entry.2 = false →
      around.fs.openat around.fs.currentDirectory (cString entry.2) ⟨false, false⟩ = .ok fd →
        Keeps inv (recordAccess (.sent fd)) fun _ => True) :
    Keeps inv (uploadRequestOf around entry) fun request => request.path = [] := by
  unfold uploadRequestOf getFileContents
  refine .ite (fun _ => .pure rfl) fun unparsed => ?_
  cases opened : around.fs.openat around.fs.currentDirectory (cString entry.2) ⟨false, false⟩ with
  | error errno =>
    have fails (e : Exn) : Keeps inv (throw e : EStateM Exn (Session ι σ) Bytes) fun _ => False := .throw e
    exact (fails _).bind fun _ impossible => impossible.elim
  | ok fd =>
    have sent := sends fd (by simpa using unparsed) opened
    refine .andThen (sent.andThen fun _ => ?_) fun _ => .pure rfl
    cases around.fs.read fd with
    | error errno => exact .throw _
    | ok contents => exact .pure trivial

theorem faithful_requests_iff {entries : List (Digest × Bytes)} :
    (∃ requests : List UploadRequest, List.Forall₂ (fun entry request => ∃ contents,
      contentsFor around entry.2 = some contents ∧ ⟨entry.1, contents, []⟩ = request) entries requests ∧
        ∀ request ∈ requests, (makeDigest around.hash request.data).key = request.digest.key) ↔
      ∀ entry ∈ entries, FaithfulEntry around entry := by
  induction entries with
  | nil => simp
  | cons entry entries ih =>
    rw [List.forall_mem_cons, ← ih]
    constructor
    next =>
      rintro ⟨requests, built, faithful⟩
      cases built with
      | cons first rest =>
        obtain ⟨contents, read, rfl⟩ := first
        obtain ⟨here, others⟩ := List.forall_mem_cons.mp faithful
        exact ⟨⟨contents, read, here⟩, _, rest, others⟩
    next =>
      rintro ⟨⟨contents, read, held⟩, requests, built, faithful⟩
      exact ⟨_, .cons ⟨contents, read, rfl⟩ built, List.forall_mem_cons.mpr ⟨held, faithful⟩⟩

theorem requests_faithful_iff {nd : NestedDirectory} {root : Digest} {missing : DigestStringMap} {s s' : Session ι σ}
    (run : client.missingEntries around path s = .ok (nd, root, missing) s') :
    ∃ dirfd exchanges, FoundMissing around path s s' nd root missing dirfd exchanges ∧
      ((∃ requests ended, client.directoryUploads around path s = .ok (nd, root, requests) ended ∧
        ∀ request ∈ requests, (makeDigest around.hash request.data).key = request.digest.key) ↔
        PathsToldApart around path dirfd nd (exchanges.flatMap reported) ∧
          DirectoriesParse around path dirfd nd (exchanges.flatMap reported)) := by
  obtain ⟨dirfd, exchanges, asked⟩ := missingEntries_ok run
  refine ⟨dirfd, exchanges, asked, ?_⟩
  rw [← asked.faithful_iff, ← faithful_requests_iff]
  simp only [← directoryUploads_ok_iff run, exists_and_right]

structure DirectoryUploaded (around : Surroundings ι) (dirfd : ι) (path : Bytes) (nd : NestedDirectory)
    (exchanges : List Exchange) : Prop where
  asked : exchanges.flatMap asked = (around.order.visit (directoryMap around dirfd path nd)).map Prod.fst
  known : ∀ digest ∈ exchanges.flatMap reported, ∃ blob, (directoryMap around dirfd path nd).find digest = some blob
  sent : ∀ key, key ∈ (exchanges.flatMap Exchange.sent).map (fun blob => blob.1.key) ↔
    key ∈ (exchanges.flatMap reported).map Digest.key

theorem FoundMissing.keys {nd : NestedDirectory} {root : Digest} {missing : DigestStringMap} {s s' : Session ι σ}
    {dirfd : ι} {exchanges : List Exchange} (found : FoundMissing around path s s' nd root missing dirfd exchanges)
    (key : Bytes × Int) : key ∈ (around.order.visit missing).map (fun entry => entry.1.key) ↔
      key ∈ (exchanges.flatMap reported).map Digest.key := by
  rw [List.mem_map, List.mem_map]
  constructor
  next =>
    rintro ⟨entry, listed, rfl⟩
    have stored := (UnorderedMap.find_eq_some missing entry.1 entry.2).mpr
      ⟨entry.1, rfl, (around.order.perm missing).mem_iff.mp listed⟩
    exact List.mem_map.mp ((found.missing entry.1 entry.2).mp stored).1
  next =>
    rintro ⟨digest, listed, rfl⟩
    obtain ⟨blob, known⟩ := found.known digest listed
    obtain ⟨stored, same, member⟩ := (UnorderedMap.find_eq_some missing digest blob).mp
      ((found.missing digest blob).mpr ⟨List.mem_map_of_mem listed, known⟩)
    exact ⟨(stored, blob), (around.order.perm missing).mem_iff.mpr member, same⟩

theorem uploadDirectory_ok {root : Digest} {tree : Tree} {results : List UploadResult} {s s' : Session ι σ}
    (run : client.uploadDirectory around path s = .ok (root, tree, results) s') :
    ∃ dirfd nd exchanges, around.fs.openat around.fs.currentDirectory (cString path) ⟨true, false⟩ = .ok dirfd ∧
      Captured around.fs around.hash [] dirfd nd ∧
      (∀ reading, reading ∈ readingOrder around.fs around.stack dirfd ↔ reading.Below around.fs dirfd) ∧
      tree = nd.toTree around.hash around.directories ∧
      s'.exchanges = s.exchanges ++ exchanges ∧ DirectoryUploaded around dirfd path nd exchanges := by
  obtain ⟨⟨nd, directoryDigest, requests⟩, between, built, rest⟩ := of_bind_ok run
  obtain ⟨⟨nested, directoryDigest', missing⟩, found, asking, requested⟩ := of_bind_ok built
  obtain ⟨dirfd, queries, missed⟩ := missingEntries_ok asking
  obtain ⟨requests', ended, built', returned⟩ := of_bind_ok requested
  cases returned
  have entries := (directoryUploads_ok_iff asking requests).mp ⟨_, built⟩
  obtain ⟨results', last, sending, returned⟩ := of_bind_ok rest
  cases returned
  obtain ⟨digests, inline⟩ := digests_of_built entries
  obtain ⟨others, logged, unasked, unreported, sent⟩ := client.uploadBlobs_inline _ inline sending
  obtain ⟨server, rfl⟩ := missed.session
  have reads : Keeps (fun s' : Session ι σ => s'.exchanges = s.exchanges ++ queries)
      ((around.order.visit missing).mapM (uploadRequestOf around)) fun requests =>
        requests.map UploadRequest.path = (around.order.visit missing).map fun _ => [] :=
    .mapM fun entry _ => uploadRequestOf_keeps fun _ _ _ _ same => ⟨trivial, same⟩
  have kept := reads { s.hashing (readingOrder around.fs around.stack dirfd) with
    server := server, exchanges := s.exchanges ++ queries } rfl
  rw [built'] at kept
  refine ⟨dirfd, nd, queries ++ others, missed.opened, missed.captured, missed.all, rfl, ?_, ?_, ?_, fun key => ?_⟩
  next => rw [logged, kept.2, List.append_assoc]
  next => simp [unasked, missed.queried]
  next => simpa [unreported] using missed.known
  next =>
    have keys := missed.keys key
    have perm := (sent.map Digest.key).mem_iff (a := key)
    rw [digests] at perm
    simp only [List.map_map, Function.comp_def] at perm
    rw [List.flatMap_append, missed.unsent, List.nil_append, perm, keys, List.flatMap_append, unreported,
      List.append_nil]

section Samples

instance neZeroThree : NeZero 3 := ⟨by decide⟩

def fileInZero : FileSystem (Fin 3) where
  root := 0
  currentDirectory := 0
  object
    | 0 => .directory 0 [(text "0", 1)] 0o755 0
    | 1 => .directory 0 [(text "0a", 2)] 0o755 0
    | 2 => .regular (text "x") 0o644 0
  denied _ := none
  symlinkLimit := 40
  named := by
    intro directory parent entries permissions mtime found entry member
    match directory with
    | 0 | 1 =>
      obtain ⟨-, rfl, -⟩ := FileObject.directory.inj found
      obtain rfl := List.mem_singleton.mp member
      exact ⟨by decide, by decide, by decide, by decide, by decide⟩
    | 2 => cases found

def fileDigest : Digest := ⟨hexDigest 0x2d711642b726b04401627ca9fbac32f5c8530fb1903cc4db02258717921a4881, 1, []⟩

def zeroDirectory : Directory := ⟨[⟨text "0a", fileDigest, false, none⟩], [], [], none⟩

def zeroBytes : Bytes := [10, 74, 10, 2] ++ text "0a" ++ [18, 68, 10, 64] ++ fileDigest.hashOther ++ [16, 1]

def zeroTree : Tree := ⟨zeroDirectory, []⟩

def zeroTreeBytes : Bytes := [10, 76] ++ zeroBytes

def unknownVarints : Bytes → Bool
  | [] => true
  | [_] => false
  | tag :: value :: fields => tag % 8 = 0 && 48 ≤ tag && tag < 128 && value < 128 && unknownVarints fields

noncomputable def zeroSurroundings : Surroundings (Fin 3) where
  fs := fileInZero
  hash := patch [(text "x", fileDigest.hashOther),
    (zeroBytes, hexDigest 0xf16c8fbd12ff3620d404457a579c845537794d23398aa5a0a2afa286f6d36902),
    (zeroTreeBytes, hexDigest 0x66f36cd392aaf946a46ee5a92d488681779068450551f0d993a58e89dcbd3c92),
    (text "0/0a", hexDigest 0xcb21c51be7a6b6df573623aef9e8e3e4c2be1617ac22cf7033bf73b40fbad95c)] id
  directories := .ofSamples [(zeroDirectory, zeroBytes)] [] unknownVarints (by decide) (by decide) (by decide +kernel)
    (by simp)
  trees := (Codec.ofSamples [(zeroTree, zeroTreeBytes)] (by decide) (by decide)).toEncoding
  byteSizeLong digest := digest.hashOther.length + 4
  order := .asStored
  sorting := .stable _ _
  stack := 100

theorem requests_faithful_iff_fileInZero : ∃ nd root missing s',
    pickyClient.missingEntries zeroSurroundings (text "0") ⟨(), [], []⟩ = .ok (nd, root, missing) s' ∧
      ∃ dirfd exchanges, FoundMissing zeroSurroundings (text "0") ⟨(), [], []⟩ s' nd root missing dirfd exchanges ∧
        ((∃ requests ended,
          pickyClient.directoryUploads zeroSurroundings (text "0") ⟨(), [], []⟩ = .ok (nd, root, requests) ended ∧
          ∀ request ∈ requests, (makeDigest zeroSurroundings.hash request.data).key = request.digest.key) ↔
          PathsToldApart zeroSurroundings (text "0") dirfd nd (exchanges.flatMap reported) ∧
            DirectoriesParse zeroSurroundings (text "0") dirfd nd (exchanges.flatMap reported)) :=
  ⟨_, _, _, _, rfl, requests_faithful_iff rfl⟩

-- The path `0/0a` is two varints: the field six is 47, then it is 97.
theorem path_read_as_directory : ∃ nd root requests ended,
    pickyClient.directoryUploads zeroSurroundings (text "0") ⟨(), [], []⟩ = .ok (nd, root, requests) ended ∧
      ¬∀ request ∈ requests, (makeDigest zeroSurroundings.hash request.data).key = request.digest.key := by
  refine ⟨_, _, _, _, rfl, ?_⟩
  decide

end Samples

end Entries

end Client

end BuildboxCommon
