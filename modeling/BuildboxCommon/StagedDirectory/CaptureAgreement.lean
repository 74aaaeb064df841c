import BuildboxCommon.Client.Upload
import BuildboxCommon.StagedDirectory.Confinement
import BuildboxCommon.StagedDirectory.LocalCasStagedDirectory

set_option autoImplicit false

namespace BuildboxCommon.CaptureAgreement

open ByteString Client Effect FileUtils LexicalPath PathResolution Posix StagedDirectory StagedDirectoryUtils

variable {ι σ τ : Type}

def outcome (result : EStateM.Result Exn σ OutputFile) : Option (Bytes × Digest × Bool) :=
  match result with
  | .ok outputFile _ => some (outputFile.path, outputFile.digest, outputFile.isExecutable)
  | .error _ _ => none

def Uploads (client : Client σ) (around : Surroundings ι) : Prop :=
  ∀ fd contents, around.fs.read fd = .ok contents → ∀ s : Session ι σ,
    ∃ s', client.uploadDescriptor around.fs fd (makeDigest around.hash contents) s = .ok () s'

def CapturesRegular (localCas : LocalCasStub τ) (around : Surroundings ι) : Prop :=
  ∀ path properties fd contents, around.fs.pathname true around.fs.currentDirectory path = .ok fd →
    around.fs.read fd = .ok contents → ∀ s, ∃ status first rest s',
      localCas.captureFiles ⟨[path], false, properties⟩ s = ((status, first :: rest), s') ∧ status.ok = true ∧
        first.status.ok = true ∧ first.digest = makeDigest around.hash contents

section Fallback

variable {around : Surroundings ι} {path : Bytes} {command : Command} {client : Client σ}
  {staged : FallbackStagedDirectory around.fs} {fd : ι} {s : Session ι σ}

theorem fallback_regular {contents : Bytes} (uploads : Uploads client around)
    (opened : openFileInInputRoot around.fs staged.stageDirectoryFd path = .ok fd)
    (regular : around.fs.read fd = .ok contents) :
    outcome (staged.captureFile client around command path s) =
      some (path, makeDigest around.hash contents, isExecutable (around.fs.object fd)) := by
  have found : staged.openFile path = .ok fd := opened
  obtain ⟨s', uploaded⟩ := uploads fd contents regular
    { s with accesses := s.accesses ++ [.captured path fd] ++ [.hashed fd] }
  unfold FallbackStagedDirectory.captureFile FallbackStagedDirectory.captureFileWith
  simp only [found, regular]
  rw [bind_ok _ (rfl : recordAccess (.captured path fd) s = .ok _ _),
    bind_ok _ (rfl : recordAccess (.hashed fd) _ = .ok _ _),
    bind_ok _ uploaded]
  rfl

theorem fallback_directory {errno : Nat}
    (opened : openFileInInputRoot around.fs staged.stageDirectoryFd path = .ok fd)
    (directory : around.fs.read fd = .error errno) :
    outcome (staged.captureFile client around command path s) = none := by
  have found : staged.openFile path = .ok fd := opened
  unfold FallbackStagedDirectory.captureFile FallbackStagedDirectory.captureFileWith
  simp only [found, directory]
  rw [bind_ok _ (rfl : recordAccess (.captured path fd) s = .ok _ _),
    bind_ok _ (rfl : recordAccess (.hashed fd) _ = .ok _ _)]
  rfl

theorem fallback_failed {errno : Nat} {what : Bytes}
    (failed : openFileInInputRoot around.fs staged.stageDirectoryFd path = .error (.systemError errno what)) :
    outcome (staged.captureFile client around command path s) =
      if errno = enoent ∨ errno = enotdir then some ([], .unset, false) else none := by
  have none : staged.openFile path = .error (.systemError errno what) := failed
  unfold FallbackStagedDirectory.captureFile FallbackStagedDirectory.captureFileWith
  simp only [none]
  split <;> rfl

end Fallback

section LocalCas

variable {around : Surroundings ι} {path absolutePath : Bytes} {command : Command} {client : Client τ}
    {localCas : LocalCasStub τ}
  {staged : LocalCasStagedDirectory around.fs} {fd : ι} {s : τ}

theorem localCas_outside {errno : Nat} {what : Bytes}
    (failed : openFileInInputRoot around.fs staged.stagedDirectoryFd path = .error (.systemError errno what)) :
    outcome (staged.captureFile client localCas command path s) = some ([], .unset, false) := by
  have outside : fileInInputRoot around.fs staged.stagedDirectoryFd path = .ok false := by
    simp only [fileInInputRoot, failed]
  unfold LocalCasStagedDirectory.captureFile
  rw [outside]
  rfl

theorem localCas_answered {captured : List CapturedFile} {s' : τ}
    (opened : openFileInInputRoot around.fs staged.stagedDirectoryFd path = .ok fd)
    (made : makePathAbsolute path staged.dPath = .ok absolutePath)
    (received : client.captureFiles localCas [absolutePath] command.outputNodeProperties false s = .ok captured s') :
    outcome (staged.captureFile client localCas command path s) =
      match captured with
      | [] => none
      | first :: _ =>
        if first.status.ok then
          some (path, first.digest, LocalCasStagedDirectory.isExecutablePath around.fs absolutePath)
        else none := by
  have inside : fileInInputRoot around.fs staged.stagedDirectoryFd path = .ok true := by
    simp only [fileInInputRoot, opened]
  unfold LocalCasStagedDirectory.captureFile
  simp only [inside, made, liftExcept_ok, pure_bind, Bool.not_true, Bool.false_eq_true, if_false]
  rw [bind_ok _ received]
  cases captured with
  | nil => rfl
  | cons first rest =>
    simp only [Status.ok]
    by_cases ok : first.status.code = StatusCode.ok <;> simp [ok, outcome]

theorem localCas_unanswered {thrown : Exn} {s' : τ}
    (opened : openFileInInputRoot around.fs staged.stagedDirectoryFd path = .ok fd)
    (made : makePathAbsolute path staged.dPath = .ok absolutePath)
    (failed : client.captureFiles localCas [absolutePath] command.outputNodeProperties false s = .error thrown s') :
    outcome (staged.captureFile client localCas command path s) = none := by
  have inside : fileInInputRoot around.fs staged.stagedDirectoryFd path = .ok true := by
    simp only [fileInInputRoot, opened]
  unfold LocalCasStagedDirectory.captureFile
  simp only [inside, made, liftExcept_ok, pure_bind, Bool.not_true, Bool.false_eq_true, if_false]
  rw [bind_error _ failed]
  rfl

theorem localCas_regular {contents : Bytes} (captures : CapturesRegular localCas around)
    (opened : openFileInInputRoot around.fs staged.stagedDirectoryFd path = .ok fd)
    (made : makePathAbsolute path staged.dPath = .ok absolutePath)
    (reached : around.fs.pathname true around.fs.currentDirectory absolutePath = .ok fd)
    (regular : around.fs.read fd = .ok contents) :
    outcome (staged.captureFile client localCas command path s) =
      some (path, makeDigest around.hash contents, isExecutable (around.fs.object fd)) := by
  obtain ⟨status, first, rest, s', answer, ok, taken, digest⟩ :=
    captures absolutePath command.outputNodeProperties fd contents reached regular s
  have run : unary (localCas.captureFiles ⟨[absolutePath], false, command.outputNodeProperties⟩) [] s =
      .ok (status, first :: rest) s' := by
    simp only [unary, calling, answer]
  rw [localCas_answered opened made (issueRequestAndThrowOnErrors_ok run ok)]
  simp only [taken, if_true, digest, LocalCasStagedDirectory.isExecutablePath, FileSystem.fstatat, reached]

def Refuses (client : Client τ) (localCas : LocalCasStub τ) (absolutePath : Bytes) (command : Command) (s : τ) : Prop :=
  ∀ captured s', client.captureFiles localCas [absolutePath] command.outputNodeProperties false s = .ok captured s' →
    ∀ first ∈ captured.head?, first.status.ok = false

theorem localCas_none_iff (opened : openFileInInputRoot around.fs staged.stagedDirectoryFd path = .ok fd)
    (made : makePathAbsolute path staged.dPath = .ok absolutePath) :
    outcome (staged.captureFile client localCas command path s) = none ↔
      Refuses client localCas absolutePath command s := by
  unfold Refuses
  cases received : client.captureFiles localCas [absolutePath] command.outputNodeProperties false s with
  | error thrown s' => simp [localCas_unanswered opened made received]
  | ok captured s' =>
    rw [localCas_answered opened made received]
    cases captured with
    | nil => simp
    | cons first rest => cases ok : first.status.ok <;> simp [ok]

end LocalCas

def LeadsTo (fs : FileSystem ι) (rootDirFd : ι) (path : Bytes) (fd : ι) : Prop :=
  ∃ names, Downward path names ∧ fs.graph.Descent rootDirFd names fd

section Agreement

variable {around : Surroundings ι} {name workingDirectory path : Bytes} {command : Command} {client : Client σ}
  {localClient : Client τ} {localCas : LocalCasStub τ} {fallback : FallbackStagedDirectory around.fs}
  {staged : LocalCasStagedDirectory around.fs}

theorem stagedDirectoryFd_eq (same : staged.dPath = fallback.dPath) :
    staged.stagedDirectoryFd = fallback.stageDirectoryFd := by
  have opened := staged.opened
  rw [same, fallback.opened] at opened
  exact (Except.ok.inj opened).symm

theorem captureFile_agree_iff (granted : ∀ object, around.fs.denied object = none) (uploads : Uploads client around)
    (captures : CapturesRegular localCas around) (same : staged.dPath = fallback.dPath)
    (absolute : fallback.dPath.head? = some slash) (started : getWorkingDirectory command = .ok workingDirectory)
    (returned : pathInInputRoot name workingDirectory = .ok path) (s : Session ι σ) (s' : τ) :
    outcome (fallback.captureFile client around command path s) =
      outcome (staged.captureFile localClient localCas command path s') ↔
    ∀ fd, LeadsTo around.fs fallback.stageDirectoryFd path fd → ¬around.fs.graph.IsLink fd ∧
      (around.fs.graph.IsDirectory fd → ∀ absolutePath, makePathAbsolute path fallback.dPath = .ok absolutePath →
        Refuses localClient localCas absolutePath command s') := by
  obtain ⟨names, downward⟩ := pathInInputRoot_downward started returned
  have root := stagedDirectoryFd_eq same
  obtain ⟨absolutePath, made⟩ := makePathAbsolute_total absolute path
  have leads {fd other : ι} (descent : around.fs.graph.Descent fallback.stageDirectoryFd names fd)
      (led : LeadsTo around.fs fallback.stageDirectoryFd path other) : other = fd := by
    obtain ⟨others, also, below⟩ := led
    obtain rfl := downward.unique also
    exact descent.unique below
  rcases openFileInInputRoot_cases downward fallback.stageDirectory granted with
    ⟨fd, descent, plain, opened⟩ | ⟨fd, what, descent, link, failed⟩ | ⟨errno, what, failed, missing, nothing⟩
  next =>
    have opened' : openFileInInputRoot around.fs staged.stagedDirectoryFd path = .ok fd := by rw [root, opened]
    have made' : makePathAbsolute path staged.dPath = .ok absolutePath := by rw [same, made]
    cases kind : around.fs.object fd with
    | regular contents permissions mtime =>
      have regular : around.fs.read fd = .ok contents := by simp only [FileSystem.read, kind]
      have reached := fallback.pathname_absolutePath downward made descent plain
      rw [fallback_regular uploads opened regular, localCas_regular captures opened' made' reached regular]
      simp only [true_iff]
      intro other led
      obtain rfl := leads descent led
      exact ⟨plain, fun directory => by simp [FileSystem.isDirectory_iff, kind] at directory⟩
    | directory parent entries permissions mtime =>
      have directory : around.fs.read fd = .error eisdir := by simp only [FileSystem.read, kind]
      rw [fallback_directory opened directory, eq_comm, localCas_none_iff opened' made']
      constructor
      next =>
        intro refuses other led
        obtain rfl := leads descent led
        exact ⟨plain, fun _ absolutePath also => Except.ok.inj (made.symm.trans also) ▸ refuses⟩
      next =>
        intro agree
        have isDirectory := (FileSystem.isDirectory_iff fd).mpr ⟨_, _, _, _, kind⟩
        exact (agree fd ⟨names, downward, descent⟩).2 isDirectory absolutePath made
    | symlink target => exact absurd ((FileSystem.isLink_iff fd).mpr ⟨target, kind⟩) plain
  next =>
    have failed' : openFileInInputRoot around.fs staged.stagedDirectoryFd path = .error (.systemError eloop what) := by
      rw [root, failed]
    rw [fallback_failed failed, localCas_outside failed', if_neg (by decide)]
    simp only [reduceCtorEq, false_iff]
    exact fun agree => (agree fd ⟨names, downward, descent⟩).1 link
  next =>
    have failed' : openFileInInputRoot around.fs staged.stagedDirectoryFd path = .error (.systemError errno what) := by
      rw [root, failed]
    have missing' : errno = enoent ∨ errno = enotdir := missing
    rw [fallback_failed failed, localCas_outside failed', if_pos missing']
    simp only [true_iff]
    rintro fd ⟨others, also, below⟩
    obtain rfl := downward.unique also
    exact absurd below (nothing fd)

section Samples

def linkInRoot : FileSystem (Fin 3) where
  root := 0
  currentDirectory := 0
  object
    | 0 => .directory 0 [(text "file", 1), (text "link", 2)] 0o755 0
    | 1 => .regular (text "x") 0o644 0
    | 2 => .symlink (text "file")
  denied _ := none
  symlinkLimit := 40
  named := by
    intro directory parent entries permissions mtime found entry member
    match directory with
    | 0 =>
      obtain ⟨-, rfl, -⟩ := FileObject.directory.inj found
      simp only [List.mem_cons, List.not_mem_nil, or_false] at member
      rcases member with rfl | rfl <;> exact ⟨by decide, by decide, by decide, by decide, by decide⟩
    | 1 | 2 => cases found

noncomputable def linkSurroundings : Surroundings (Fin 3) := { zeroSurroundings with fs := linkInRoot }

def byteClient : Client Unit :=
  { pickyClient with stub := { pickyStub with finishWrite := pure (⟨StatusCode.ok, []⟩, 1) } }

def fileStub : LocalCasStub Unit where
  captureTree request := pure
    (⟨StatusCode.ok, []⟩, request.path.map fun path => ⟨path, fileDigest, ⟨StatusCode.ok, []⟩⟩)
  captureFiles request := pure (⟨StatusCode.ok, []⟩,
    request.path.map fun path => ⟨path, fileDigest, ⟨StatusCode.ok, []⟩, false, ⟨[], none, none⟩⟩)

noncomputable def fallbackRoot : FallbackStagedDirectory linkSurroundings.fs where
  dPath := text "/"
  stageDirectoryFd := (0 : Fin 3)
  normalised := by decide
  opened := by decide

noncomputable def localCasRoot : LocalCasStagedDirectory linkSurroundings.fs := ⟨text "/", (0 : Fin 3), rfl⟩

theorem read_linkInRoot {fd : Fin 3} {contents : Bytes} (regular : linkInRoot.read fd = .ok contents) :
    contents = text "x" := by
  match fd with
  | 0 | 2 => cases regular
  | 1 => exact (Except.ok.inj regular).symm

theorem byteClient_uploads : Uploads byteClient linkSurroundings := by
  intro fd contents regular s
  obtain rfl := read_linkInRoot regular
  have streamed : byteClient.writeDescriptor (text "x") fileDigest s.server = .ok () s.server := by
    have written := @writeFileChunks_last Unit byteClient fileDigest (text "x") (by decide) rfl
    have attempt : (do
        calling byteClient.stub.openWriter
        let unread ← writeFileChunks byteClient (byteClient.makeResourceName fileDigest true) fileDigest 0 (text "x")
        let status ← finishWrite byteClient fileDigest
        return (status, unread)) s.server = .ok (⟨StatusCode.ok, []⟩, []) s.server := by
      rw [written]
      rfl
    exact bind_ok _ (issueRequestAndThrowOnErrors_ok attempt rfl)
  unfold uploadDescriptor
  rw [bind_ok _ (rfl : recordAccess (.sent fd) s = .ok _ _)]
  simp only [regular, recorded]
  have hashed : makeDigest linkSurroundings.hash (text "x") = fileDigest := rfl
  simp [hashed, streamed]

theorem fileStub_captures : CapturesRegular fileStub linkSurroundings := by
  intro path properties fd contents _ regular s
  obtain rfl := read_linkInRoot regular
  exact ⟨_, _, _, _, rfl, rfl, rfl, rfl⟩

theorem captureFile_agree_file :
    outcome (fallbackRoot.captureFile byteClient linkSurroundings buildInRoot (text "file") ⟨(), [], []⟩) =
      outcome (localCasRoot.captureFile pickyClient fileStub buildInRoot (text "file") ()) := by
  have returned : pathInInputRoot (text "file") [] = .ok (text "file") := rfl
  refine (captureFile_agree_iff (fun _ => rfl) byteClient_uploads fileStub_captures rfl rfl rfl
    returned ⟨(), [], []⟩ ()).mpr ?_
  rintro fd ⟨names, downward, descent⟩
  have file : Downward (text "file") [text "file"] := ⟨by decide, rfl⟩
  obtain rfl := downward.unique file
  cases descent with
  | inside entered below =>
    cases below
    obtain rfl : fd = (1 : Fin 3) := (Except.ok.inj entered).symm
    constructor
    next =>
      intro link
      obtain ⟨target, kind⟩ := (FileSystem.isLink_iff _).mp link
      cases kind
    next =>
      intro directory
      obtain ⟨_, _, _, _, kind⟩ := (FileSystem.isDirectory_iff _).mp directory
      cases kind

theorem captureFile_link_disagrees : (∀ object, linkSurroundings.fs.denied object = none) ∧
    Uploads byteClient linkSurroundings ∧ CapturesRegular fileStub linkSurroundings ∧
    localCasRoot.dPath = fallbackRoot.dPath ∧ getWorkingDirectory buildInRoot = .ok [] ∧
    pathInInputRoot (text "link") [] = .ok (text "link") ∧
    outcome (fallbackRoot.captureFile byteClient linkSurroundings buildInRoot (text "link") ⟨(), [], []⟩) = none ∧
    outcome (localCasRoot.captureFile pickyClient fileStub buildInRoot (text "link") ()) = some ([], .unset, false) :=
  ⟨fun _ => rfl, byteClient_uploads, fileStub_captures, rfl, rfl, rfl, rfl, rfl⟩

end Samples

end Agreement

end BuildboxCommon.CaptureAgreement
