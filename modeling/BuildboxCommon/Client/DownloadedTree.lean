import BuildboxCommon.Client.FilledDirectory
import BuildboxCommon.Merklize.ToDigest

set_option autoImplicit false

namespace BuildboxCommon.Client

open ByteString Effect FileUtils Posix

variable {ι σ : Type}

structure Admitted (hash : Bytes → Bytes) (storage : Storage) (directory : Directory) : Prop where
  names : ∀ name ∈ directory.names, IsName name
  targets : ∀ node ∈ directory.symlinks, node.target ≠ []
  files : ∀ node ∈ directory.files, Available hash storage node.digest

section Names

variable {hash : Bytes → Bytes} {storage : Storage} {directory : Directory}
  (admitted : Admitted hash storage directory)

include admitted

theorem Admitted.file {node : FileNode} (member : node ∈ directory.files) : IsName node.name :=
  admitted.names _ (List.mem_append_left _ (List.mem_append_left _ (List.mem_map_of_mem member)))

theorem Admitted.symlink {node : SymlinkNode} (member : node ∈ directory.symlinks) : IsName node.name :=
  admitted.names _ (List.mem_append_left _ (List.mem_append_right _ (List.mem_map_of_mem member)))

theorem Admitted.subdirectory {node : DirectoryNode} (member : node ∈ directory.directories) : IsName node.name :=
  admitted.names _ (List.mem_append_right _ (List.mem_map_of_mem member))

end Names

def FillsTree (storage : Storage) (before start : Disk) (target here : Nat) (digest : Digest)
    (program : EStateM Exn (Session ι (World σ)) Unit) : Prop :=
  ∀ journal, Runs
    (fun s => Stage before target start here s.server ∧ s.server.disk = start ∧ journal <+: s.server.journal) program
    (fun _ s => ∃ root, storage.directory digest = some root ∧
      Filled storage before start target here journal root.nodes s.server)
    fun s => Stage before target start here s.server

section Entries

variable {storage : Storage} {before start : Disk} {target here : Nat} {normalized : Prop} {journal : List Operation}
  {path : Bytes} {nodes : List (Bytes × Node)}

theorem Filled.create {w w' : World σ} (filled : Filled storage before start target here journal nodes w)
    (level : Level before target normalized start path here) (new : NewObject) {name : Name} {listed : Node}
    (absent : w.disk.find here name.1 = none) (stage : Stage before target start here w')
    (grown : w.journal <+: w'.journal)
    (unchanged : ∀ other < w.disk.next, w'.disk.files.object other = (w.disk.create here name new).files.object other)
    (depicts : storage.Depicts (ModesSet w'.journal) listed (w'.disk.files.object w.disk.next))
    (below : Clean w'.journal → ∀ digest child, listed = .dir digest → storage.directory digest = some child →
      storage.Placed (ModesSet w'.journal) start.next w'.disk w.disk.next child.nodes) :
    Filled storage before start target here journal (nodes ++ [(name.1, listed)]) w' := by
  have denotes := level.now filled.stage.within
  have created := Disk.Within.create denotes.directory denotes.used name new
  refine ⟨stage, filled.grown.trans grown, fun clean => ?_⟩
  have placed := (filled.placed (clean.earlier grown)).mono (fun moded => ModesSet.earlier moded grown) le_rfl
  refine placed.put (stage.within.isDirectory level.denotes.directory) filled.stage.within.next (fun probe => ?_)
    (fun other late used => ?_) depicts (fun old member => ?_) (below clean)
  next =>
    rw [Disk.find_congr (unchanged here denotes.used), Disk.find_create denotes.directory denotes.used]
  next => rw [unchanged other used, created.others other used (level.apart late)]
  next =>
    obtain ⟨found, entry, -⟩ := placed.complete member
    simp [absent] at entry

theorem Filled.subdirectory {w w' : World σ} (filled : Filled storage before start target here journal nodes w)
    (level : Level before target normalized start path here) {name : Name} {permissions : Fin 0o10000} {digest : Digest}
    {root : Directory} (absent : w.disk.find here name.1 = none) (outer : Stage before target start here w')
    (known : storage.directory digest = some root)
    (inner : Filled storage before (w.disk.create here name (.directory permissions)) target w.disk.next w.journal
      root.nodes w') : Filled storage before start target here journal (nodes ++ [(name.1, .dir digest)]) w' := by
  have denotes := level.now filled.stage.within
  have child := level.child filled.stage.within name permissions
  have within := Disk.Within.create denotes.directory denotes.used name (.directory permissions)
  refine filled.create level (.directory permissions) absent outer inner.grown (fun other used => ?_) ?_
    fun clean other child same found => ?_
  next => exact inner.stage.within.others other (used.trans_le within.next) (Nat.ne_of_lt used)
  next =>
    obtain ⟨parent, entries, permissions, mtime, kind⟩ :=
      (FileSystem.isDirectory_iff _).mp (inner.stage.within.isDirectory child.denotes.directory)
    rw [kind]
    trivial
  next =>
    obtain rfl := Node.dir.inj same
    rw [known, Option.some.injEq] at found
    exact found ▸ (inner.placed clean).mono id (filled.stage.within.trans within).next

variable (environment : Environment σ) (level : Level before target normalized start path here)

include level

theorem symlink_fills {node : SymlinkNode} (proper : IsName node.name) (some : node.target ≠ []) :
    Runs (fun s : Session ι (World σ) => Filled storage before start target here journal nodes s.server)
      (makeSymlink environment.host path node)
      (fun _ s => Filled storage before start target here journal (nodes ++ [node.listed]) s.server)
      fun s => Stage before target start here s.server := by
  intro s filled
  have denotes := level.now filled.stage.within
  refine (makeSymlink_runs environment level node proper some s.server.disk s.server.journal).mono (fun _ => id)
    (fun _ s' made => ?_) s ⟨filled.stage, rfl, List.prefix_refl _⟩
  obtain ⟨absent, disk, stage, grown⟩ := made
  refine filled.create level _ absent stage grown (fun other _ => by rw [disk]) ?_
    fun _ _ _ (other : Node.symlink node.target = .dir _) => nomatch other
  rw [disk, Disk.object_create denotes.directory denotes.used]
  rfl

theorem subdirectory_fills {node : DirectoryNode} (proper : IsName node.name)
    {recurse : EStateM Exn (Session ι (World σ)) Unit}
    (fills : ∀ created sub, Level before target normalized created (path ++ slash :: node.name) sub →
      FillsTree storage before created target sub node.digest recurse) :
    Runs (fun s : Session ι (World σ) => Filled storage before start target here journal nodes s.server)
      (do
        makeDirectory environment.host (path ++ text "/" ++ node.name)
        recurse)
      (fun _ s => Filled storage before start target here journal (nodes ++ [node.listed]) s.server)
      fun s => Stage before target start here s.server := by
  intro s filled
  have child := level.child filled.stage.within ⟨node.name, proper⟩ (s.server.disk.masked 0o777)
  refine ((makeDirectory_runs environment level ⟨node.name, proper⟩ s.server.disk s.server.journal).bind fun _ => ?_) s
    ⟨filled.stage, rfl, List.prefix_refl _⟩
  intro s' made
  obtain ⟨absent, disk, stage, grown⟩ := made
  have outer {w : World σ} (inner : Stage before target
      (s.server.disk.create here ⟨node.name, proper⟩ (.directory (s.server.disk.masked 0o777))) s.server.disk.next w) :=
    inner.outer (level.created filled.stage.within ⟨node.name, proper⟩ (.directory (s.server.disk.masked 0o777)))
      filled.stage.within.next level.denotes.used
  refine (((fills _ _ child s.server.journal).relax fun _ => outer).mono (fun _ => id) fun _ s'' done => ?_) s'
    ⟨⟨disk ▸ .refl _ _, stage.confined⟩, disk, grown⟩
  obtain ⟨root, known, inner⟩ := done
  exact filled.subdirectory level absent (outer inner.stage) known inner

end Entries

section Run

variable {client : Client σ} {storage : Storage} (stores : Stores client storage) (environment : Environment σ)
  (sorting : SizeSort Digest fun d => d.sizeBytes) {before : Disk} {target : Nat}
  {normalized : Prop}

include stores

theorem downloadDirectory_fills (stack : Nat) {digest : Digest}
    (admitted : ∀ root, storage.directory digest = some root → ∀ directory,
      Contains storage.directory root directory → Admitted client.hash storage directory)
    (holds : ∀ root, storage.directory digest = some root → ∀ directory,
      Contains storage.directory root directory → directory.files ≠ [] → normalized)
    {start : Disk} {here : Nat} {path : Bytes} (level : Level before target normalized start path here) :
    FillsTree storage before start target here digest (client.outside.downloadDirectory environment.host sorting
      storage.format stack digest path : EStateM Exn (Session ι (World σ)) Unit) := by
  induction stack generalizing digest start here path with
  | zero => exact fun journal => .throw fun _ => And.left
  | succ stack ih =>
    intro journal
    have steady : Steady fun w : World σ => Stage before target start here w ∧ w.disk = start ∧ journal <+: w.journal :=
      fun w environment ⟨stage, disk, grown⟩ => ⟨⟨stage.within, stage.confined⟩, disk, grown⟩
    refine ((fetchMessage_served steady stores environment.host digest).relax fun _ => And.left).bind fun root =>
      .of_and fun known => ?_
    have good := admitted root known root (.self root)
    have empty (s : Session ι (World σ)) (held : Stage before target start here s.server ∧ s.server.disk = start ∧
        journal <+: s.server.journal) : Filled storage before start target here journal [] s.server := by
      obtain ⟨stage, disk, grown⟩ := held
      obtain ⟨parent, permissions, mtime, kind⟩ := level.empty
      refine ⟨stage, grown, fun _ => .nil (disk ▸ level.denotes.directory) fun name => ?_⟩
      rw [disk, Disk.find_directory kind, List.find?_nil, Option.map_none]
    have files := @downloadFiles_runs ι σ storage before start target here normalized journal path environment level
      client stores sorting root.files (holds root known root (.self root)) (fun _ => good.file) good.files
    refine (files.mono empty fun _ _ => id).bind fun _ => ?_
    have directories (node : DirectoryNode) (member : node ∈ root.directories) (nodes : List (Bytes × Node)) :=
      @subdirectory_fills ι σ storage before start target here normalized journal path nodes environment level node
        (good.subdirectory member) (client.outside.downloadDirectory environment.host sorting storage.format stack
          node.digest (path ++ text "/" ++ node.name)) fun created sub child =>
            ih (fun other found directory deeper => admitted root known directory (.inside member found deeper))
              (fun other found directory deeper => holds root known directory (.inside member found deeper))
              ((path_append path node.name).symm ▸ child)
    have symlinks (node : SymlinkNode) (member : node ∈ root.symlinks) (nodes : List (Bytes × Node)) :=
      @symlink_fills ι σ storage before start target here normalized journal path nodes environment level node
        (good.symlink member) (good.targets node member)
    refine (Runs.forM_progress directories _).bind fun _ => ?_
    refine (Runs.forM_progress symlinks _).mono (fun _ => id) fun _ s filled => ⟨root, known, ?_⟩
    rw [← List.map_eq_flatMap, ← List.map_eq_flatMap] at filled
    exact filled

theorem fetchMessage_keeps (digest : Digest) : Keeps (fun _ => True)
    (client.outside.fetchMessage environment.host storage.format digest : EStateM Exn (Session ι (World σ)) Directory)
    (storage.directory digest = some ·) := by
  have steady : Steady fun _ : World σ => True := fun _ _ _ => trivial
  exact fetchMessage_served steady stores environment.host digest

omit stores

def HasFiles (storage : Storage) (root : Directory) : Prop :=
  ∃ directory, Contains storage.directory root directory ∧ directory.files ≠ []

structure Receives (disk : Disk) (normalized : Prop) (path : Bytes) (target : Nat) : Prop where
  free : NulFree path
  reached : disk.files.pathname true disk.files.currentDirectory path = .ok target
  normal : normalized → disk.files.pathname true disk.files.currentDirectory (normalizePath path) = .ok target
  empty : ∃ parent permissions mtime, disk.files.object target = .directory parent [] permissions mtime

theorem Receives.level {path : Bytes} (receives : Receives before normalized path target) :
    Level before target normalized before path target := by
  obtain ⟨parent, permissions, mtime, empty⟩ := receives.empty
  have directory := (FileSystem.isDirectory_iff target).mpr ⟨_, _, _, _, empty⟩
  exact ⟨.of_pathname receives.free receives.reached receives.normal directory, ⟨_, _, _, empty⟩, .inl rfl, le_rfl⟩

include stores

theorem downloadDirectory_runs (stack : Nat) {digest : Digest} {root : Directory}
    (known : storage.directory digest = some root)
    (admitted : ∀ directory, Contains storage.directory root directory → Admitted client.hash storage directory)
    {path : Bytes} (receives : Receives before (HasFiles storage root) path target) :
    Runs (fun s : Session ι (World σ) => s.server.disk = before ∧ s.server.journal = [])
      (client.outside.downloadDirectory environment.host sorting storage.format stack digest path)
      (fun _ s => Filled storage before before target target [] root.nodes s.server)
      fun s => Stage before target before target s.server := by
  have only {other : Directory} (found : storage.directory digest = some other) : other = root :=
    Option.some.inj (found.symm.trans known)
  have fills := @downloadDirectory_fills ι σ client storage stores environment sorting before target
    (HasFiles storage root) stack digest (fun other found => (only found).symm ▸ admitted)
    (fun other found directory contained listed => ⟨directory, only found ▸ contained, listed⟩) before target path
    receives.level []
  refine fills.mono (fun s start => ⟨⟨start.1 ▸ .refl _ _, by simp [start.2]⟩, start.1, List.nil_prefix⟩) fun _ s => ?_
  rintro ⟨other, found, filled⟩
  exact only found ▸ filled

theorem downloadDirectory_confined {stack depth : Nat} {digest : Digest} {root : Directory}
    (known : storage.directory digest = some root)
    (admitted : ∀ directory, Contains storage.directory root directory → Admitted client.hash storage directory)
    (deep : Deep storage.directory depth root) (enough : depth < stack) {path : Bytes} {s : Session ι (World σ)}
    (fresh : s.server.journal = []) (receives : Receives s.server.disk (HasFiles storage root) path target) :
    let result := client.outside.downloadDirectory environment.host sorting storage.format stack digest path s
    (∀ operation ∈ (exitState result).server.journal, operation.Confined s.server.disk target) ∧
      (Clean (exitState result).server.journal →
        (∃ directory, Contains storage.directory root directory ∧ Clashes directory) →
          ∃ e s', result = .error e s' ∧ e ≠ .stackOverflow) := by
  intro result
  have ended := @downloadDirectory_runs ι σ client storage stores environment sorting _ target stack digest root known
    admitted path receives s ⟨rfl, fresh⟩
  obtain ⟨stack, rfl⟩ := Nat.exists_eq_add_one_of_ne_zero (Nat.ne_of_gt (Nat.zero_lt_of_lt enough))
  have shallow := @downloadDirectory_shallow ι _ client.outside environment.host sorting storage.format
    storage.directory
    (fetchMessage_keeps stores environment) stack digest (fun other found => ?_) path
  next =>
    cases run : result with
    | ok done s' =>
      rw [show client.outside.downloadDirectory environment.host sorting storage.format (stack + 1) digest path s =
        .ok done s' from run] at ended
      refine ⟨ended.stage.confined, fun clean => ?_⟩
      rintro ⟨directory, contained, clashes⟩
      obtain ⟨sub, placed⟩ := (ended.placed clean).contains contained
      exact absurd clashes placed.not_clashes
    | error e s' =>
      rw [show client.outside.downloadDirectory environment.host sorting storage.format (stack + 1) digest path s =
        .error e s' from run] at ended
      exact ⟨ended.confined, fun _ _ => ⟨e, s', rfl, shallow s e s' run⟩⟩
  next =>
    obtain rfl := Option.some.inj (known.symm.trans found)
    exact deep.mono (Nat.le_of_lt_succ enough)

end Run

section Samples

open NestedDirectory

def detourObject : Nat → FileObject Nat
  | 0 => .directory 0 [(text "link", 1), (text "out", 2), (text "elsewhere", 3)] 0o755 0
  | 1 => .symlink (text "/elsewhere/sub")
  | 2 => .directory 0 [] 0o755 0
  | 3 => .directory 0 [(text "sub", 4), (text "out", 5)] 0o755 0
  | 4 => .directory 3 [] 0o755 0
  | 5 => .directory 3 [] 0o755 0
  | _ => .symlink dot

theorem detourObject_entries {directory parent : Nat} {entries : List (Bytes × Nat)} {permissions : Fin 0o10000}
    {mtime : Int} (kind : detourObject directory = .directory parent entries permissions mtime) :
    parent < 6 ∧ ∀ entry ∈ entries, IsName entry.1 ∧ entry.2 < 6 := by
  unfold detourObject at kind
  split at kind <;> cases kind <;> decide

def detourDisk : Disk where
  files :=
    { root := 0
      currentDirectory := 0
      object := detourObject
      denied := fun _ => none
      symlinkLimit := 40
      named := fun _ _ _ _ _ kind entry member => ((detourObject_entries kind).2 entry member).1 }
  umask := 0o022
  next := 6
  bounded := fun _ _ _ _ _ kind =>
    ⟨(detourObject_entries kind).1, fun entry member => ((detourObject_entries kind).2 entry member).2⟩
  root_used := by decide
  current_used := by decide

def wireData : List (Bytes × Bytes) := (xHash, text "x") :: hashedMessages.map fun sample => (sample.2, sample.1.wire)

def wireBlob (name : Bytes) : Option Bytes :=
  (wireData.find? fun blob => text "blobs/" ++ blob.1 ++ text "/" ++ text (toString blob.2.length) = name).map Prod.snd

noncomputable def wireStorage : Storage where
  format := wireFormat
  blobs key := wireBlob (text "blobs/" ++ key.1 ++ text "/" ++ text (toString key.2))

def readAnswer : Option Bytes → List Bytes × Status
  | some data => ([data], ⟨StatusCode.ok, []⟩)
  | none => ([], ⟨5, text "Digest not found in CAS."⟩)

def wireStub : Stub Unit :=
  { emptyStub with
    batchReadBlobs := fun asked => pure (⟨StatusCode.ok, []⟩, asked.filterMap fun digest =>
      (wireBlob (text "blobs/" ++ digest.hashOther ++ text "/" ++ text (toString digest.sizeBytes))).map
        fun data => ⟨digest, data, ⟨StatusCode.ok, []⟩⟩)
    read := fun request => pure (readAnswer (wireBlob request.resourceName)) }

def wireClient : Client Unit := { emptyServerClient with stub := wireStub, hash := wireHash }

theorem wire_stores : Stores wireClient wireStorage where
  read digest s served := by
    have name : wireClient.makeResourceName digest false =
        text "blobs/" ++ digest.hashOther ++ text "/" ++ text (toString digest.sizeBytes) := by
      simp [Client.makeResourceName, wireClient, emptyServerClient]
    rw [name] at served ⊢
    change (readAnswer (wireStorage.blobs digest.key)).2.ok = true at served
    change wireStorage.blobs digest.key = some (readAnswer (wireStorage.blobs digest.key)).1.flatten
    cases found : wireStorage.blobs digest.key with
    | none =>
      rw [found] at served
      cases served
    | some data => simp [readAnswer]
  genuine asked s _ response member _ := by
    obtain ⟨digest, -, found⟩ := List.mem_filterMap.mp member
    obtain ⟨data, known, rfl⟩ := Option.map_eq_some_iff.mp found
    exact known
  complete asked s _ digest member data found :=
    ⟨⟨digest, data, ⟨StatusCode.ok, []⟩⟩, List.mem_filterMap.mpr ⟨digest, member, congrArg (Option.map _) found⟩,
      rfl, rfl⟩

def calmEnvironment : Environment Unit where
  refusal _ := pure none
  interruption _ := pure none
  suffix _ := pure ⟨text "AAAAAA", rfl, fun byte member => by
    have same : byte = 65 := List.eq_of_mem_replicate (show byte ∈ List.replicate 6 65 from member)
    rw [same]
    rfl⟩
  stringCapacity := 2 ^ 63 - 1

def detourSession : Session Bool (World Unit) := ⟨⟨(), detourDisk, []⟩, [], []⟩

noncomputable def downloaded (root : Directory) (path : Bytes) : EStateM.Result Exn (Session Bool (World Unit)) Unit :=
  wireClient.outside.downloadDirectory calmEnvironment.host (SizeSort.stable _ _) wireStorage.format 4
    (digestOf wireHash wireStorage.format root) path detourSession

def singleFile : Directory := ⟨[runFile], [], [], none⟩

def linkOutwards : Directory := ⟨[], [], [outwards], none⟩

def fileAndLinkClash : Directory := ⟨[xNode (text "l")], [], [outwards], none⟩

def clashBelow : Directory :=
  ⟨[runFile],
    [nodeOf "a" 0x2b04f4e6c386107827e9ad9d04e61cf3dfcdece486258945e94f4abf9a01d30c 17,
      nodeOf "b" 0xaa007bf3e2becf2a5ea404590eeda4bd757c1dd98c7b4227b8d18ce90f692026 92], [], none⟩

-- What the samples need of the storage, in one evaluation of the hashes.
theorem wire_holds : wireStorage.blobs (xHash, 1) = some (text "x") ∧ wireHash (text "x") = xHash ∧
    wireStorage.directory (digestOf wireHash wireStorage.format singleFile) = some singleFile ∧
    wireStorage.directory (digestOf wireHash wireStorage.format clashBelow) = some clashBelow ∧
    clashBelow.directories.map (fun node => wireStorage.directory node.digest) =
      [linkOutwards, fileAndLinkClash].map some := by decide +kernel

theorem stored_x : ∃ data, wireStorage.blobs (xHash, 1) = some data ∧ ⟨xHash, 1, []⟩ = makeDigest wireHash data := by
  obtain ⟨stored, hashed, -⟩ := wire_holds
  refine ⟨text "x", stored, ?_⟩
  rw [makeDigest, hashed]
  rfl

theorem wire_admitted {directories : List Directory} (listed : ∀ directory ∈ directories,
      (∀ name ∈ directory.names, IsName name) ∧ (∀ node ∈ directory.symlinks, node.target ≠ []) ∧
        ∀ node ∈ directory.files,
          node.digest = ⟨xHash, 1, []⟩) {directory : Directory} (member : directory ∈ directories) :
    Admitted wireHash wireStorage directory := by
  obtain ⟨names, targets, files⟩ := listed directory member
  refine ⟨names, targets, fun node among => ?_⟩
  rw [files node among]
  obtain ⟨data, stored, addressed⟩ := stored_x
  exact ⟨data, stored, addressed ▸ rfl⟩

theorem clean_of_places {journal : List Operation} (apart : ∀ operation ∈ journal,
    (operation.call.paths.map fun path => (operation.disk.locate path).toOption).Nodup) : Clean journal := by
  intro operation member source target place same located other
  have distinct := apart operation member
  rw [same] at distinct
  simp [SystemCall.paths, located, other] at distinct

theorem clashBelow_children {node : DirectoryNode} (member : node ∈ clashBelow.directories) :
    wireStorage.directory node.digest ∈ [linkOutwards, fileAndLinkClash].map some := by
  obtain ⟨-, -, -, -, children⟩ := wire_holds
  exact children ▸ List.mem_map_of_mem member

theorem clashBelow_closed : ∀ parent ∈ [clashBelow, linkOutwards, fileAndLinkClash], ∀ node ∈ parent.directories,
    wireStorage.directory node.digest ∈ [clashBelow, linkOutwards, fileAndLinkClash].map some := by
  intro parent among node member
  simp only [List.mem_cons, List.not_mem_nil, or_false] at among
  rcases among with rfl | rfl | rfl
  · exact List.mem_cons_of_mem _ (clashBelow_children member)
  · cases member
  · cases member

theorem clashBelow_admitted (directory : Directory) (contained : Contains wireStorage.directory clashBelow directory) :
    Admitted wireHash wireStorage directory :=
  wire_admitted (by decide) (contained.among clashBelow_closed (by simp))

theorem clashBelow_deep : Deep wireStorage.directory 2 clashBelow := by
  refine @Deep.above _ _ [linkOutwards, fileAndLinkClash] _ (fun _ => clashBelow_children) fun child member => ?_
  simp only [List.mem_cons, List.not_mem_nil, or_false] at member
  rcases member with rfl | rfl <;> exact nofun

theorem clashBelow_clashes : ∃ directory, Contains wireStorage.directory clashBelow directory ∧ Clashes directory := by
  obtain ⟨-, -, -, -, children⟩ := wire_holds
  have found : wireStorage.directory
    (nodeOf "b" 0xaa007bf3e2becf2a5ea404590eeda4bd757c1dd98c7b4227b8d18ce90f692026 92).digest =
    some fileAndLinkClash := (List.cons.inj (List.cons.inj children).2).1
  refine ⟨fileAndLinkClash, .inside (by decide) found (.self _), text "l", .file ⟨xHash, 1, []⟩ false,
    .symlink (text "/elsewhere"), by decide, by decide, by decide⟩

def detour : Bytes := text "link/../out"

theorem downloaded_journals :
    (∃ operation ∈ (exitState (downloaded clashBelow (text "elsewhere/out"))).server.journal,
      operation.call = .symlink (text "elsewhere/out/a/l")) ∧
    (∀ operation ∈ (exitState (downloaded clashBelow (text "elsewhere/out"))).server.journal,
      (operation.call.paths.map fun path => (operation.disk.locate path).toOption).Nodup) ∧
    (exitState (downloaded singleFile detour)).server.journal.map (fun operation =>
        operation.call.paths.map fun path => (path, (operation.disk.locate path).toOption.map Prod.fst)) =
      [[(text "link/../out/buildboxAAAAAA", some 5)], [(text "link/../out/buildboxAAAAAA", some 5)],
        [(text "out/buildboxAAAAAA", some 2)],
        [(text "out/buildboxAAAAAA", some 2), (text "link/../out/f", some 5)], [(text "out/buildboxAAAAAA", some 2)]] ∧
    detourDisk.files.pathname true detourDisk.files.currentDirectory detour = .ok 5 := by
  decide +kernel

theorem receives_elsewhere (root : Directory) :
    Receives detourDisk (HasFiles wireStorage root) (text "elsewhere/out") 5 :=
  ⟨by decide, by decide, fun _ => by decide, ⟨3, 0o755, 0, rfl⟩⟩

theorem downloadDirectory_confined_clash :
    (∃ operation ∈ (exitState (downloaded clashBelow (text "elsewhere/out"))).server.journal,
      operation.call = .symlink (text "elsewhere/out/a/l")) ∧
    (∀ operation ∈ (exitState (downloaded clashBelow (text "elsewhere/out"))).server.journal,
      operation.Confined detourDisk 5) ∧
    ∃ e s', downloaded clashBelow (text "elsewhere/out") = .error e s' ∧ e ≠ .stackOverflow := by
  obtain ⟨-, -, -, known, -⟩ := wire_holds
  obtain ⟨planted, places, -⟩ := downloaded_journals
  unfold downloaded at planted places ⊢
  obtain ⟨confined, refused⟩ := @downloadDirectory_confined Bool Unit wireClient wireStorage wire_stores calmEnvironment
    (SizeSort.stable _ _) 5 4 2 _ clashBelow known clashBelow_admitted clashBelow_deep (by decide)
      (text "elsewhere/out")
    detourSession rfl (receives_elsewhere clashBelow)
  exact ⟨planted, confined, refused (clean_of_places places) clashBelow_clashes⟩

theorem singleFile_admitted (directory : Directory) (contained : Contains wireStorage.directory singleFile directory) :
    Admitted wireHash wireStorage directory :=
  @wire_admitted [singleFile] (by decide) _ (contained.among (by decide) (by simp))

theorem downloadDirectory_detour : Stores wireClient wireStorage ∧
    wireStorage.directory (digestOf wireHash wireStorage.format singleFile) = some singleFile ∧
    (∀ directory, Contains wireStorage.directory singleFile directory → Admitted wireHash wireStorage directory) ∧
    detourDisk.files.pathname true detourDisk.files.currentDirectory detour = .ok 5 ∧
    detourDisk.files.object 5 = .directory 3 [] 0o755 0 ∧
    ∃ operation ∈ (exitState (downloaded singleFile detour)).server.journal, ¬operation.Confined detourDisk 5 := by
  obtain ⟨-, -, known, -⟩ := wire_holds
  obtain ⟨-, -, journal, denotes⟩ := downloaded_journals
  refine ⟨wire_stores, known, singleFile_admitted, denotes, rfl, ?_⟩
  have listed : [(text "out/buildboxAAAAAA", some 2)] ∈ (exitState (downloaded singleFile detour)).server.journal.map
      fun operation => operation.call.paths.map fun path =>
        (path, (operation.disk.locate path).toOption.map Prod.fst) := by
    rw [journal]
    simp
  obtain ⟨operation, member, paths⟩ := List.mem_map.mp listed
  refine ⟨operation, member, fun confined => ?_⟩
  obtain ⟨path, written, place⟩ := List.mem_map.mp (paths ▸ List.mem_singleton_self _)
  obtain ⟨parent, ⟨⟨name, located⟩, -⟩, inside⟩ := confined.inside path written
  rw [located] at place
  obtain rfl : parent = 2 := by simpa [Except.toOption] using congrArg Prod.snd place
  exact absurd inside (by decide)

end Samples

end BuildboxCommon.Client
