import BuildboxCommon.Client.UploadDirectory
import BuildboxCommon.StagedDirectory.CaptureAllOutputs
import BuildboxCommon.StagedDirectory.OpenInInputRoot

set_option autoImplicit false

namespace BuildboxCommon

open ByteString Client Effect FileUtils LexicalPath OrderedEntries PathResolution Posix StagedDirectory
  StagedDirectoryUtils

variable {ι σ : Type}

structure FallbackStagedDirectory (fs : FileSystem ι) where
  dPath : Bytes
  stageDirectoryFd : ι
  normalised : normalizePath dPath = dPath
  opened : fs.openat fs.currentDirectory dPath ⟨true, false⟩ = .ok stageDirectoryFd

namespace FallbackStagedDirectory

section Model

variable {fs : FileSystem ι} (staged : FallbackStagedDirectory fs)

def openFile (relativePath : Bytes) : Except Exn ι := openFileInInputRoot fs staged.stageDirectoryFd relativePath

def captureFileWith (hash : Bytes → Bytes) (relativePath : Bytes)
    (uploadFileFunction : ι → Digest → EStateM Exn (Session ι σ) Unit) (captureMtime : Bool) :
    EStateM Exn (Session ι σ) OutputFile :=
  match staged.openFile relativePath with
  | .error (.systemError errno what) =>
    if errno = enoent ∨ errno = enotdir then return ⟨[], .unset, false, none⟩ else throw (.systemError errno what)
  | .error thrown => throw thrown
  | .ok fd => do
    recordAccess (.captured relativePath fd)
    recordAccess (.hashed fd)
    match fs.read fd with
    | .error errno => throw (.systemError errno (text "Error in read on file descriptor"))
    | .ok contents =>
      let digest := makeDigest hash contents
      uploadFileFunction fd digest
      return ⟨relativePath, digest, isExecutable (fs.object fd),
        if captureMtime then some ⟨[], some (makeTimestamp (getFileMtime (fs.object fd))), none⟩ else none⟩

def captureDirectoryWith (relativePath : Bytes)
    (uploadDirectoryFunction : Bytes → EStateM Exn (Session ι σ) Digest) :
    EStateM Exn (Session ι σ) OutputDirectory := do
  let inside ← liftExcept (directoryInInputRoot fs staged.stageDirectoryFd relativePath)
  if !inside then return ⟨[], .unset⟩
  else
    let absolutePath ← liftExcept (makePathAbsolute relativePath staged.dPath)
    recordAccess (.handed relativePath absolutePath)
    let treeDigest ← uploadDirectoryFunction absolutePath
    return ⟨relativePath, treeDigest⟩

end Model

section Members

variable (client : Client σ) (around : Surroundings ι) (staged : FallbackStagedDirectory around.fs)

def uploadDirectory (path : Bytes) : EStateM Exn (Session ι σ) Digest := do
  let (_, tree, _) ← client.uploadDirectory around path
  let str := around.trees.serializeAsString tree
  let treeDigest := makeDigest around.hash str
  client.uploadString str treeDigest
  return treeDigest

def captureFile (command : Command) (relativePath : Bytes) : EStateM Exn (Session ι σ) OutputFile :=
  staged.captureFileWith around.hash relativePath (client.uploadDescriptor around.fs)
    (text "mtime" ∈ command.outputNodeProperties)

def captureDirectory (relativePath : Bytes) : EStateM Exn (Session ι σ) OutputDirectory :=
  staged.captureDirectoryWith relativePath (uploadDirectory client around)

def captureAllOutputs (command : Command) : EStateM Exn (Capturing (Session ι σ)) Unit :=
  StagedDirectory.captureAllOutputs staged.dPath (fun _ => around.fs.lstat) command
    (staged.captureFile client around command) (staged.captureDirectory client around)

end Members

section Holding

variable {client : Client σ} {around : Surroundings ι} {staged : FallbackStagedDirectory around.fs}

def blobsOf (around : Surroundings ι) (tree : Tree) : List Digest :=
  (tree.root :: tree.children).flatMap fun directory =>
    makeDigest around.hash (around.directories.serializeAsString directory) :: directory.files.map FileNode.digest

def acknowledged (exchange : Exchange) : List Digest :=
  (exchange.outcomes.filter fun outcome => outcome.2 = none).map Prod.fst

def keysOf (what : Exchange → List Digest) (exchanges : List Exchange) : List (Bytes × Int) :=
  (exchanges.flatMap what).map Digest.key

def Held (exchanges : List Exchange) (digest : Digest) : Prop :=
  digest.key ∈ keysOf asked exchanges ∧ digest.key ∉ keysOf reported exchanges ∨
    digest.key ∈ keysOf acknowledged exchanges

def AllAcknowledged (exchanges : List Exchange) : Prop :=
  ∀ blob ∈ exchanges.flatMap Exchange.sent, blob.1.key ∈ keysOf acknowledged exchanges

theorem mem_files_iff {nd : NestedDirectory} (ordered : NestedDirectory.Ordered nd) (hash : Bytes → Bytes)
    (codec : Encoding Directory) (digest : Digest) :
    (∃ directory ∈ nd.messages hash codec, digest ∈ directory.files.map FileNode.digest) ↔ HasFile nd digest := by
  constructor
  next =>
    rintro ⟨directory, member, listed⟩
    induction nd using NestedDirectory.induction with
    | step files symlinks subdirs ih =>
      rcases (NestedDirectory.mem_messages hash codec).mp member with rfl | ⟨entry, within, deeper⟩
      next =>
        simp only [NestedDirectory.message, List.map_map, List.mem_map] at listed
        obtain ⟨entry, stored, rfl⟩ := listed
        exact .here ((mem_iff_get ordered.files entry.1 entry.2).mp stored)
      next =>
        have found := (mem_iff_get ordered.subdirs entry.1 entry.2).mp within
        exact .inside found (ih entry within (ordered.subdir within) deeper)
  next =>
    intro has
    induction has with
    | @here nd name file found =>
      refine ⟨nd.message hash codec, NestedDirectory.message_mem hash codec nd, ?_⟩
      obtain ⟨files, symlinks, subdirs⟩ := nd
      simp only [NestedDirectory.message, List.map_map, List.mem_map]
      exact ⟨(name, file), mem_of_get found, rfl⟩
    | @inside nd sub name digest found deeper ih =>
      obtain ⟨directory, member, listed⟩ := ih (ordered.of_get found)
      exact ⟨directory, (NestedDirectory.mem_messages hash codec).mpr (.inr ⟨_, mem_of_get found, member⟩), listed⟩

theorem mem_tree_iff (hash : Bytes → Bytes) (codec : Encoding Directory) (nd : NestedDirectory)
    (directory : Directory) :
    directory ∈ (nd.toTree hash codec).root :: (nd.toTree hash codec).children ↔
      directory ∈ nd.messages hash codec := by
  rw [NestedDirectory.toTree_eq, List.mem_cons, NestedDirectory.mem_messages, NestedDirectory.mem_subdirMessages]

theorem key_mem_blobsOf {nd : NestedDirectory} {dirfd : ι} {path : Bytes}
    (captured : Captured around.fs around.hash [] dirfd nd)
    (all : ∀ reading, reading ∈ readingOrder around.fs around.stack dirfd ↔ reading.Below around.fs dirfd)
    (digest : Digest) :
    digest.key ∈ (blobsOf around (nd.toTree around.hash around.directories)).map Digest.key ↔
      ∃ blob, (directoryMap around dirfd path nd).find digest = some blob := by
  have ordered : NestedDirectory.Ordered nd := by
    cases captured
    assumption
  simp only [directoryMap_keys, blobsOf, List.mem_map, List.mem_flatMap, mem_tree_iff]
  constructor
  next =>
    rintro ⟨blob, ⟨directory, member, listed⟩, same⟩
    rcases List.mem_cons.mp listed with rfl | file
    next => exact .inl ⟨directory, member, same⟩
    next =>
      have has := (mem_files_iff ordered around.hash around.directories blob).mp ⟨directory, member, file⟩
      obtain ⟨reading, lower, rfl⟩ := (hasFile_iff captured blob).mp has
      exact .inr ⟨reading, (all reading).mpr lower, same⟩
  next =>
    rintro (⟨directory, member, same⟩ | ⟨reading, member, same⟩)
    next => exact ⟨_, ⟨directory, member, List.mem_cons_self⟩, same⟩
    next =>
      have has := (hasFile_iff captured _).mpr ⟨reading, (all reading).mp member, rfl⟩
      obtain ⟨directory, within, listed⟩ := (mem_files_iff ordered around.hash around.directories _).mpr has
      exact ⟨_, ⟨directory, within, List.mem_cons_of_mem _ listed⟩, same⟩

theorem uploadString_ok {data : Bytes} {digest : Digest} {s s' : Session ι σ}
    (run : client.uploadString data digest s = .ok () s') :
    s'.exchanges = s.exchanges ++ [.write digest data (.ok ())] := by
  unfold uploadString at run
  split_ifs at run
  next => cases run
  next =>
    obtain ⟨server, rfl⟩ := of_recorded_ok run
    rfl

theorem held_iff {nd : NestedDirectory} {dirfd : ι} {path : Bytes} {exchanges : List Exchange}
    (captured : Captured around.fs around.hash [] dirfd nd)
    (all : ∀ reading, reading ∈ readingOrder around.fs around.stack dirfd ↔ reading.Below around.fs dirfd)
    (uploaded : DirectoryUploaded around dirfd path nd exchanges) (treeDigest : Digest) (str : Bytes) :
    (∀ digest ∈ treeDigest :: blobsOf around (nd.toTree around.hash around.directories),
      Held (exchanges ++ [.write treeDigest str (.ok ())]) digest) ↔
        AllAcknowledged (exchanges ++ [.write treeDigest str (.ok ())]) := by
  have tree : treeDigest.key ∈ keysOf acknowledged (exchanges ++ [.write treeDigest str (.ok ())]) := by
    simp [keysOf, acknowledged, Exchange.outcomes]
  have asks : keysOf asked (exchanges ++ [.write treeDigest str (.ok ())]) = keysOf asked exchanges := by
    simp [keysOf, asked]
  have reports : keysOf reported (exchanges ++ [.write treeDigest str (.ok ())]) = keysOf reported exchanges := by
    simp [keysOf, reported]
  constructor
  next =>
    intro held blob member
    rw [List.flatMap_append, List.mem_append] at member
    rcases member with before | last
    next =>
      have wanted := (uploaded.sent _).mp (List.mem_map_of_mem before)
      obtain ⟨digest, missing, same⟩ := List.mem_map.mp wanted
      obtain ⟨needed, listed, same'⟩ :=
        List.mem_map.mp ((key_mem_blobsOf captured all digest).mpr (uploaded.known _ missing))
      rcases held needed (List.mem_cons_of_mem _ listed) with ⟨-, present⟩ | taken
      next =>
        rw [reports, same', same] at present
        exact absurd wanted present
      next => rwa [same', same] at taken
    next =>
      obtain rfl : blob = (treeDigest, str) := by simpa [Exchange.sent] using last
      exact tree
  next =>
    intro taken digest member
    rcases List.mem_cons.mp member with rfl | needed
    next => exact .inr tree
    by_cases wanted : digest.key ∈ keysOf reported exchanges
    next =>
      obtain ⟨blob, sent, same⟩ := List.mem_map.mp ((uploaded.sent _).mpr wanted)
      refine .inr (same ▸ taken blob ?_)
      rw [List.flatMap_append]
      exact List.mem_append_left _ sent
    next =>
      refine .inl ⟨?_, reports ▸ wanted⟩
      obtain ⟨blob, found⟩ := (key_mem_blobsOf captured all digest).mp (List.mem_map_of_mem needed)
      obtain ⟨stored, same, listed⟩ := (UnorderedMap.find_eq_some _ _ _).mp found
      rw [asks, keysOf, uploaded.asked, List.map_map]
      exact List.mem_map.mpr ⟨(stored, blob), (around.order.perm _).mem_iff.mpr listed, same⟩

theorem captureDirectory_held_iff {relativePath : Bytes} {outputDirectory : OutputDirectory} {s s' : Session ι σ}
    (run : staged.captureDirectory client around relativePath s = .ok outputDirectory s')
    (returned : outputDirectory.path ≠ []) :
    ∃ absolutePath dirfd nd exchanges, makePathAbsolute relativePath staged.dPath = .ok absolutePath ∧
      around.fs.openat around.fs.currentDirectory (cString absolutePath) ⟨true, false⟩ = .ok dirfd ∧
      Captured around.fs around.hash [] dirfd nd ∧
      outputDirectory.treeDigest = makeDigest around.hash (around.trees.serializeAsString
        (nd.toTree around.hash around.directories)) ∧
      s'.exchanges = s.exchanges ++ exchanges ∧
      ((∀ digest ∈ outputDirectory.treeDigest :: blobsOf around (nd.toTree around.hash around.directories),
        Held exchanges digest) ↔ AllAcknowledged exchanges) := by
  obtain ⟨inside, between, checked, rest⟩ := of_bind_ok run
  cases inside with
  | false =>
    cases rest
    exact absurd rfl returned
  | true =>
    obtain ⟨absolutePath, between', absolute, rest⟩ := of_bind_ok rest
    obtain ⟨_, between'', handed, rest⟩ := of_bind_ok rest
    obtain ⟨treeDigest, ended, uploading, finished⟩ := of_bind_ok rest
    cases finished
    obtain ⟨⟨root, tree, results⟩, halfway, directory, rest⟩ := of_bind_ok uploading
    obtain ⟨_, ended', treeUp, finished⟩ := of_bind_ok rest
    cases finished
    obtain ⟨dirfd, nd, exchanges, opened, captured, all, rfl, logged, uploaded⟩ := uploadDirectory_ok directory
    cases handed
    obtain ⟨computed, rfl⟩ := of_liftExcept_ok absolute
    obtain ⟨-, rfl⟩ := of_liftExcept_ok checked
    have whole := uploadString_ok treeUp
    rw [logged, List.append_assoc] at whole
    exact ⟨absolutePath, dirfd, nd, _, computed, opened, captured, rfl, whole, held_iff captured all uploaded _ _⟩

section Samples

def batchRefusingStub : Stub Unit :=
  { pickyStub with
    findMissingBlobs := fun asked => pure (⟨StatusCode.ok, []⟩, asked.filter fun digest => digest.sizeBytes = 1)
    batchUpdateBlobs := fun blobs => pure (⟨StatusCode.ok, []⟩, blobs.map fun blob =>
      ⟨blob.1, ⟨StatusCode.internal, []⟩⟩)
    finishWrite := pure (⟨StatusCode.ok, []⟩, 78) }

def batchRefusingClient : Client Unit := { pickyClient with stub := batchRefusingStub }

noncomputable def stagedZero : FallbackStagedDirectory zeroSurroundings.fs where
  dPath := text "/0"
  stageDirectoryFd := (1 : Fin 3)
  normalised := by decide
  opened := by decide

theorem uploadBlobs_refused (s : Session (Fin 3) Unit) :
    batchRefusingClient.uploadBlobs zeroSurroundings.fs zeroSurroundings.sorting [⟨fileDigest, text "x", []⟩] false s =
      .ok [⟨fileDigest, ⟨StatusCode.internal, []⟩⟩] { s with exchanges := s.exchanges ++
        [.batchUpdateBlobs [(fileDigest, text "x")] (.ok [⟨fileDigest, ⟨StatusCode.internal, []⟩⟩])] } := by
  have sorted : zeroSurroundings.sorting.sort [⟨fileDigest, text "x", []⟩] = [⟨fileDigest, text "x", []⟩] :=
    rfl
  have batches : makeBatches batchRefusingClient.maxBatchTotalSizeBytes [fileDigest] = [(0, 1)] := by
    have rest : [fileDigest].drop (fillBatch (1024 - sizeofEstimatedTopLevelGrpcContainer) 0 [fileDigest]) = [] := by
      decide
    have limit : batchRefusingClient.maxBatchTotalSizeBytes = 1024 := rfl
    rw [limit, makeBatches, batchesFrom, if_neg (by decide)]
    simp only [rest, batchesFrom]
    decide
  rw [uploadBlobs, sorted]
  simp only [List.map_cons, List.map_nil, batches]
  rfl

theorem uploadString_zeroTree {digest : Digest} (size : digest.sizeBytes = 78) (s : Session (Fin 3) Unit) :
    batchRefusingClient.uploadString zeroTreeBytes digest s =
      .ok () { s with exchanges := s.exchanges ++ [.write digest zeroTreeBytes (.ok ())] } := by
  have length : zeroTreeBytes.length = 78 := by decide
  have written (resourceName : Bytes) := @writeChunks_last Unit batchRefusingClient zeroTreeBytes
    (by rw [length]; decide) resourceName 0
  have streamed : batchRefusingClient.writeString zeroTreeBytes digest s.server = .ok () s.server := by
    obtain ⟨hashOther, sizeBytes, hashBlake3zcc⟩ := digest
    cases size
    rw [writeString]
    simp only [written]
    rfl
  rw [uploadString, if_neg (by simp [length, size]), recorded, streamed]

theorem captureDirectory_refused : ∃ s', stagedZero.captureDirectory batchRefusingClient zeroSurroundings dot
    ⟨(), [], []⟩ = .ok ⟨dot, makeDigest zeroSurroundings.hash zeroTreeBytes⟩ s' ∧
      s'.exchanges = [.findMissingBlobs [fileDigest, makeDigest zeroSurroundings.hash zeroBytes] (.ok [fileDigest]),
        .batchUpdateBlobs [(fileDigest, text "x")] (.ok [⟨fileDigest, ⟨StatusCode.internal, []⟩⟩]),
        .write (makeDigest zeroSurroundings.hash zeroTreeBytes) zeroTreeBytes (.ok ())] := by
  obtain ⟨root, between, built, asks⟩ : ∃ root between,
    batchRefusingClient.directoryUploads zeroSurroundings (text "/0")
      ⟨(), [], [.handed dot (text "/0")]⟩ =
        .ok (⟨[(text "0a", ⟨fileDigest, false, none⟩)], [], []⟩, root, [⟨fileDigest, text "x", []⟩]) between ∧
      between.exchanges = [.findMissingBlobs [fileDigest, makeDigest zeroSurroundings.hash zeroBytes]
        (.ok [fileDigest])] := ⟨_, _, rfl, rfl⟩
  have directory : batchRefusingClient.uploadDirectory zeroSurroundings (text "/0") _ = .ok (root, zeroTree, _) _ :=
    (bind_ok _ built).trans (bind_ok _ (uploadBlobs_refused between))
  have size : (makeDigest zeroSurroundings.hash zeroTreeBytes).sizeBytes = 78 := by decide
  have uploaded : uploadDirectory batchRefusingClient zeroSurroundings (text "/0") _ =
      .ok (makeDigest zeroSurroundings.hash zeroTreeBytes) _ :=
    (bind_ok _ directory).trans (bind_ok _ (uploadString_zeroTree size _))
  have started : stagedZero.captureDirectory batchRefusingClient zeroSurroundings dot ⟨(), [], []⟩ =
      (uploadDirectory batchRefusingClient zeroSurroundings (text "/0") >>= fun treeDigest =>
        pure ⟨dot, treeDigest⟩) ⟨(), [], [.handed dot (text "/0")]⟩ := rfl
  exact ⟨_, started.trans (bind_ok _ uploaded), by simp [asks]⟩

theorem captureDirectory_held_iff_refused : ∃ s', stagedZero.captureDirectory batchRefusingClient zeroSurroundings dot
    ⟨(), [], []⟩ = .ok ⟨dot, makeDigest zeroSurroundings.hash zeroTreeBytes⟩ s' ∧ ∃ absolutePath dirfd nd exchanges,
    makePathAbsolute dot stagedZero.dPath = .ok absolutePath ∧
      zeroSurroundings.fs.openat zeroSurroundings.fs.currentDirectory (cString absolutePath) ⟨true, false⟩ = .ok dirfd ∧
      Captured zeroSurroundings.fs zeroSurroundings.hash [] dirfd nd ∧
      makeDigest zeroSurroundings.hash zeroTreeBytes = makeDigest zeroSurroundings.hash
        (zeroSurroundings.trees.serializeAsString
          (nd.toTree zeroSurroundings.hash zeroSurroundings.directories)) ∧
      s'.exchanges = (⟨(), [], []⟩ : Session (Fin 3) Unit).exchanges ++ exchanges ∧
      ((∀ digest ∈ makeDigest zeroSurroundings.hash zeroTreeBytes :: blobsOf zeroSurroundings
        (nd.toTree zeroSurroundings.hash zeroSurroundings.directories), Held exchanges digest) ↔
          AllAcknowledged exchanges) := by
  obtain ⟨s', run, -⟩ := captureDirectory_refused
  exact ⟨s', run, captureDirectory_held_iff run (by decide)⟩

theorem refused_directory_returned : ∃ outputDirectory s',
    stagedZero.captureDirectory batchRefusingClient zeroSurroundings dot ⟨(), [], []⟩ = .ok outputDirectory s' ∧
      outputDirectory.path ≠ [] ∧ outputDirectory.treeDigest = makeDigest zeroSurroundings.hash zeroTreeBytes ∧
      ∃ digest ∈ blobsOf zeroSurroundings zeroTree, ¬Held s'.exchanges digest := by
  obtain ⟨s', run, exchanges⟩ := captureDirectory_refused
  refine ⟨_, s', run, by decide, rfl, fileDigest, by decide, ?_⟩
  rw [exchanges, Held]
  decide

end Samples

end Holding

end FallbackStagedDirectory

end BuildboxCommon
