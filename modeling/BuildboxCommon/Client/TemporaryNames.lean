import BuildboxCommon.Client.DownloadedTree

set_option autoImplicit false

namespace BuildboxCommon.Client

open ByteString Effect FileUtils Posix

variable {ι σ : Type}

def Unpicked (environment : Environment σ) (storage : Storage) (root : Directory) : Prop :=
  ∀ suffix, environment.Picks suffix → ∀ directory, Contains storage.directory root directory →
    ∀ node ∈ directory.files, (tempName suffix).1 ≠ node.name

theorem clean_steady : Steady fun w : World σ => Clean w.journal := fun _ _ => id

theorem clean_performed {call : SystemCall} {effect : Disk → Except Nat Disk} {w : World σ}
    {ended : Except Nat Unit × World σ} (performed : Environment.Performed call effect w ended)
    (clean : Clean w.journal) (renames : Operation.Renames ⟨call, w.disk, ended.1⟩) : Clean ended.2.journal := by
  have every : Clean (w.journal ++ [⟨call, w.disk, ended.1⟩]) := by
    intro operation member
    rcases List.mem_append.mp member with old | new
    next => exact clean operation old
    next => exact List.mem_singleton.mp new ▸ renames
  cases performed with
  | refused errno state => exact every
  | done state run => exact every

theorem renames_of_names {source target : Bytes} {tmp name : Name} (disk : Disk) (answer : Except Nat Unit)
    (left : (steps (cString source)).getLast? = some (.down tmp.1))
    (right : (steps (cString target)).getLast? = some (.down name.1)) (differ : tmp.1 ≠ name.1) :
    Operation.Renames ⟨.rename source target, disk, answer⟩ := by
  rintro source target ⟨here, place⟩ same located other
  obtain ⟨rfl, rfl⟩ := SystemCall.rename.inj same
  rw [Disk.locate_last located, Option.some.injEq] at left
  rw [Disk.locate_last other, Option.some.injEq] at right
  exact differ (LexicalPath.Step.down.inj (left.symm.trans right))

theorem last_normalized {directory : Bytes} (free : NulFree directory) (present : directory ≠ []) (name : Name) :
    (steps (cString (normalizePath (directory ++ slash :: name.1)))).getLast? = some (.down name.1) := by
  rw [normalizePath_eq_render, normalForm_child free present, NormalPath.cString_render, NormalPath.steps_render_child,
    ← List.append_assoc, List.getLast?_concat]

theorem last_child {path : Bytes} (free : NulFree path) (name : Name) :
    (steps (cString (path ++ slash :: name.1))).getLast? = some (.down name.1) := by
  rw [cString_of_nulFree (nulFree_child free name), steps_child, List.getLast?_concat]

theorem nulFree_dirname {path : Bytes} (free : NulFree path) (present : path ≠ []) (name : Name) :
    NulFree (dirname (path ++ slash :: name.1)) := by
  obtain ⟨-, count, parts⟩ := dirname_child present name
  rw [parts] at free
  exact (nulFree_append.mp free).1

section Runs

variable (environment : Environment σ)

theorem perform_clean {call : SystemCall} (effect : Disk → Except Nat Disk)
    (renames : ∀ disk answer, Operation.Renames ⟨call, disk, answer⟩) :
    Runs (fun w => Clean w.journal) (calling (environment.perform call effect) : EStateM Exn (World σ) _)
      (fun _ w => Clean w.journal) fun w => Clean w.journal :=
  .calling fun w clean => clean_performed (environment.perform_performed call effect w) clean (renames w.disk _)

theorem mkstemp_clean {directory : Bytes} (free : NulFree directory) :
    Runs (fun w => Clean w.journal)
      (calling (environment.mkstemp (cString directory ++ text "/" ++ cString (text "buildbox") ++ text "XXXXXX")) :
        EStateM Exn (World σ) _)
      (fun answer w => match answer with
        | .ok raw => ∃ suffix, environment.Picks suffix ∧ raw = directory ++ slash :: (tempName suffix).1 ∧
          Clean w.journal
        | .error _ => Clean w.journal)
      fun w => Clean w.journal := by
  refine .calling fun w clean => ?_
  obtain ⟨suffix, state, answer, after, picks, performed, run⟩ := environment.mkstemp_performed
    (cString directory ++ text "/" ++ cString (text "buildbox") ++ text "XXXXXX") w
  rw [template_picked free suffix] at performed run
  rw [run]
  have kept : Clean after.journal := clean_performed performed clean nofun
  cases answer with
  | error errno => exact kept
  | ok done => exact ⟨suffix, picks, rfl, kept⟩

theorem create_clean {directory : Bytes} (free : NulFree directory) (mode : Nat) :
    Runs (fun w => Clean w.journal) (TemporaryFile.create environment.host directory (text "buildbox") mode)
      (fun temp w => ∃ suffix, environment.Picks suffix ∧
        temp = normalizePath (directory ++ slash :: (tempName suffix).1) ∧
        Clean w.journal) fun w => Clean w.journal := by
  unfold TemporaryFile.create
  refine (mkstemp_clean environment free).bind fun answer => ?_
  cases answer with
  | error errno => exact .throw fun _ => id
  | ok raw =>
    refine .of_exists fun suffix => .of_and fun picks => .of_and fun same => ?_
    subst same
    have changed : Runs (fun w => Clean w.journal)
        (calling (environment.host.fchmod (directory ++ slash :: (tempName suffix).1) mode) : EStateM Exn (World σ) _)
        (fun _ w => Clean w.journal) fun w => Clean w.journal :=
      perform_clean environment
        (fun disk => .ok (disk.fchmod (directory ++ slash :: (tempName suffix).1) mode)) fun _ _ => nofun
    refine .ite (fun _ => changed.discard.bind fun _ => ?_) fun _ => ?_
    next => exact .pure fun w clean => ⟨suffix, picks, rfl, clean⟩
    next => exact .pure fun w clean => ⟨suffix, picks, rfl, clean⟩

theorem replaceFile_clean {path : Bytes} (free : NulFree path) (present : path ≠ []) (name : Name)
    (unpicked : ∀ suffix, environment.Picks suffix → (tempName suffix).1 ≠ name.1) (data : Bytes) (mode : Nat) :
    Runs (fun w => Clean w.journal) (replaceFile environment.host (path ++ slash :: name.1) data mode)
      (fun _ w => Clean w.journal) fun w => Clean w.journal := by
  have above := (dirname_child present name).1
  have beside := nulFree_dirname free present name
  unfold replaceFile
  rw [cString_of_nulFree (nulFree_child free name)]
  refine (create_clean environment beside mode).bind fun temp => .of_exists fun suffix => .of_and fun picks =>
    .of_and fun same => ?_
  subst same
  generalize source : normalizePath (dirname (path ++ slash :: name.1) ++ slash :: (tempName suffix).1) = temp
  have last := source ▸ last_normalized beside above (tempName suffix)
  have removed (w : World σ) (clean : Clean w.journal) :
    Clean (TemporaryFile.remove environment.host temp w).2.journal :=
    clean_performed (environment.perform_performed (.unlink temp) (·.unlink temp) w) clean nofun
  refine Runs.ensuring ?_ (fun _ => removed) removed
  unfold fillFile
  have overwritten : Runs (fun w => Clean w.journal)
      (calling (environment.overwrite temp data) : EStateM Exn (World σ) _) (fun _ w => Clean w.journal)
      fun w => Clean w.journal := by
    refine .calling fun w clean => ?_
    obtain ⟨state, data', answer, after, performed, run⟩ := environment.overwrite_performed temp data w
    have kept : Clean after.journal := clean_performed performed clean nofun
    rcases run with ⟨-, run⟩ | ⟨errno, run⟩
    next => rwa [run]
    next => rwa [run]
  refine overwritten.bind fun answer => ?_
  cases answer with
  | error errno => exact .throw fun _ => id
  | ok done =>
    have target := last_child free name
    rw [← cString_cString] at target
    have renamed : Runs (fun w => Clean w.journal)
        (calling (environment.host.rename temp (cString (path ++ slash :: name.1))) : EStateM Exn (World σ) _)
        (fun _ w => Clean w.journal) fun w => Clean w.journal :=
      perform_clean environment (·.rename temp (cString (path ++ slash :: name.1))) fun disk answer =>
        renames_of_names disk answer last target (unpicked suffix picks)
    refine renamed.bind fun answer => ?_
    cases answer with
    | error errno => exact .throw fun _ => id
    | ok done => exact .pure fun _ => id

end Runs

section Tree

variable {client : Client σ} {storage : Storage} (stores : Stores client storage) (environment : Environment σ)

theorem writeBlob_clean {path : Bytes} (free : NulFree path) (present : path ≠ []) {files : List FileNode}
    (proper : ∀ file ∈ files, IsName file.name)
    (unpicked : ∀ suffix, environment.Picks suffix → ∀ file ∈ files, (tempName suffix).1 ≠ file.name)
    (hash data : Bytes) :
    Runs (fun s : Session ι (World σ) => Clean s.server.journal)
      (writeBlob environment.host (outputsOf path files) hash data)
      (fun _ s => Clean s.server.journal) fun s => Clean s.server.journal := by
  refine .forM_keeps fun output member => ?_
  obtain ⟨listed, -⟩ := List.mem_filter.mp member
  obtain ⟨file, given, rfl⟩ := List.mem_map.mp listed
  simp only [path_append]
  exact writeFileAtomically_server (replaceFile_clean environment free present ⟨file.name, proper file given⟩
    (fun suffix picks => unpicked suffix picks file given) data _)

theorem makeDirectory_clean (directoryPath : Bytes) :
    Runs (fun s : Session ι (World σ) => Clean s.server.journal) (makeDirectory environment.host directoryPath)
      (fun _ s => Clean s.server.journal) fun s => Clean s.server.journal := by
  have made : Runs (fun w => Clean w.journal)
      (calling (environment.host.mkdir (cString directoryPath) 0o777) : EStateM Exn (World σ) _)
      (fun _ w => Clean w.journal) fun w => Clean w.journal :=
    perform_clean environment (·.mkdir (cString directoryPath) 0o777) fun _ _ => nofun
  refine (inSession_server made).bind fun answer => ?_
  cases answer with
  | error errno => exact .throw fun _ => id
  | ok done => exact .pure fun _ => id

theorem makeSymlink_clean (path : Bytes) (node : SymlinkNode) :
    Runs (fun s : Session ι (World σ) => Clean s.server.journal) (makeSymlink environment.host path node)
      (fun _ s => Clean s.server.journal) fun s => Clean s.server.journal := by
  refine .ite (fun _ => .pure fun _ => id) fun _ => ?_
  have made : Runs (fun w => Clean w.journal)
      (calling (environment.host.symlink (cString node.target) (cString (path ++ text "/" ++ node.name))) :
        EStateM Exn (World σ) _) (fun _ w => Clean w.journal) fun w => Clean w.journal :=
    perform_clean environment
      (·.symlink (cString node.target) (cString (path ++ text "/" ++ node.name))) fun _ _ => nofun
  refine (inSession_server made).bind fun answer => ?_
  cases answer with
  | error errno => exact .throw fun _ => id
  | ok done => exact .pure fun _ => id

include stores

theorem downloadFiles_clean (sorting : SizeSort Digest fun d => d.sizeBytes) {path : Bytes} (free : NulFree path)
    (present : path ≠ []) {files : List FileNode} (proper : ∀ file ∈ files, IsName file.name)
    (available : ∀ file ∈ files, Available client.hash storage file.digest)
    (unpicked : ∀ suffix, environment.Picks suffix → ∀ file ∈ files, (tempName suffix).1 ≠ file.name) :
    Runs (fun s : Session ι (World σ) => Clean s.server.journal)
      (client.outside.downloadBlobs environment.host sorting (files.map FileNode.digest) (outputsOf path files))
      (fun _ s => Clean s.server.journal) fun s => Clean s.server.journal := by
  have delivering : @Delivering ι _ client.outside environment.host (writeBlob environment.host (outputsOf path files))
      (Available client.hash storage) storage.Has (fun _ s => Clean s.server.journal) fun s => Clean s.server.journal :=
    { given := fun _ _ => id
      fewer := fun _ _ _ _ => id
      asked := fun _ _ wanted => batchReadBlobs_served clean_steady stores wanted
      fetched := fun digest _ => (fetchString_served clean_steady stores environment.host digest).mono (fun _ => id)
        fun _ _ held => ⟨⟨digest.sizeBytes, held.1⟩, held.2⟩
      written := fun hash data _ _ => writeBlob_clean environment free present proper unpicked hash data }
  have requested : ∀ digest ∈ files.map FileNode.digest, Available client.hash storage digest := fun digest member => by
    obtain ⟨file, listed, rfl⟩ := List.mem_map.mp member
    exact available file listed
  exact (delivering.downloadBlobsToCallback_runs sorting requested).bind fun _ => .pure fun _ => id

theorem downloadDirectory_clean (sorting : SizeSort Digest fun d => d.sizeBytes) (stack : Nat) {digest : Digest}
    (admitted : ∀ root, storage.directory digest = some root → ∀ directory,
      Contains storage.directory root directory → Admitted client.hash storage directory)
    (unpicked : ∀ root, storage.directory digest = some root → Unpicked environment storage root)
    {path : Bytes} (free : NulFree path) (present : path ≠ []) :
    Runs (fun s : Session ι (World σ) => Clean s.server.journal)
      (client.outside.downloadDirectory environment.host sorting storage.format stack digest path)
      (fun _ s => Clean s.server.journal) fun s => Clean s.server.journal := by
  induction stack generalizing digest path with
  | zero => exact .throw fun _ => id
  | succ stack ih =>
    refine (fetchMessage_served clean_steady stores environment.host digest).bind fun root => .of_and fun known => ?_
    have good := admitted root known root (.self root)
    have apart := fun suffix picks => unpicked root known suffix picks root (.self root)
    refine (downloadFiles_clean stores environment sorting free present (fun _ => good.file) good.files apart).bind
      fun _ => ?_
    have below (node : DirectoryNode) (member : node ∈ root.directories) :
        Runs (fun s : Session ι (World σ) => Clean s.server.journal)
          (do
            makeDirectory environment.host (path ++ text "/" ++ node.name)
            client.outside.downloadDirectory environment.host sorting storage.format stack node.digest
              (path ++ text "/" ++ node.name))
          (fun _ s => Clean s.server.journal) fun s => Clean s.server.journal := by
      refine (makeDirectory_clean environment _).bind fun _ => ?_
      rw [path_append]
      exact ih (fun other found directory deeper => admitted root known directory (.inside member found deeper))
        (fun other found suffix picks directory deeper => unpicked root known suffix picks directory
          (.inside member found deeper))
        (nulFree_child free ⟨node.name, good.subdirectory member⟩) (by simp)
    exact (Runs.forM_keeps below).bind fun _ => .forM_keeps fun node _ => makeSymlink_clean environment path node

end Tree

end BuildboxCommon.Client
