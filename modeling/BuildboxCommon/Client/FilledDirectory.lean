import BuildboxCommon.Client.ServedBlobs

set_option autoImplicit false

namespace BuildboxCommon.Client

open ByteString Effect FileUtils Posix

variable {ι σ : Type}

structure Filled (storage : Storage) (before start : Disk) (target here : Nat) (journal : List Operation)
    (nodes : List (Bytes × Node)) (w : World σ) : Prop where
  stage : Stage before target start here w
  grown : journal <+: w.journal
  placed : Clean w.journal → storage.Placed (ModesSet w.journal) start.next w.disk here nodes

def Writing (storage : Storage) (before start : Disk) (target here : Nat) (journal : List Operation)
    (files : List FileNode) (known : List (Bytes × Node)) (w : World σ) : Prop :=
  ∃ nodes, Filled storage before start target here journal nodes w ∧
    (∀ entry ∈ nodes, entry ∈ files.map FileNode.listed) ∧ ∀ entry ∈ known, entry ∈ nodes

theorem path_append (path name : Bytes) : path ++ text "/" ++ name = path ++ slash :: name := by
  rw [List.append_assoc]
  rfl

section Steady

variable {storage : Storage} {before start : Disk} {target here : Nat} {journal : List Operation}
  {nodes : List (Bytes × Node)} {files : List FileNode} {known : List (Bytes × Node)}

theorem Filled.steady : Steady (Filled (σ := σ) storage before start target here journal nodes) :=
  fun _ _ filled => ⟨⟨filled.stage.within, filled.stage.confined⟩, filled.grown, filled.placed⟩

theorem Writing.steady : Steady (Writing (σ := σ) storage before start target here journal files known) :=
  fun w environment ⟨nodes, filled, rest⟩ => ⟨nodes, Filled.steady w environment filled, rest⟩

theorem Filled.congr {others : List (Bytes × Node)} {w : World σ}
    (filled : Filled storage before start target here journal nodes w)
    (same : ∀ entry, entry ∈ nodes ↔ entry ∈ others) : Filled storage before start target here journal others w :=
  ⟨filled.stage, filled.grown, fun clean => (filled.placed clean).congr same⟩

end Steady

section Files

variable {storage : Storage} {before start : Disk} {target here : Nat} {normalized : Prop} {journal : List Operation}
  {path : Bytes} (environment : Environment σ) (level : Level before target normalized start path here)

include level

-- Only files are written yet, so that one takes the place of another one at most.
theorem writeFile_runs (holds : normalized) {file : FileNode} (proper : IsName file.name) {data : Bytes}
    (has : storage.Has file.digest.hashOther data) {nodes : List (Bytes × Node)}
    (plain : ∀ entry ∈ nodes, entry.2.entry.kind = .file) :
    Runs (fun s : Session ι (World σ) => Filled storage before start target here journal nodes s.server)
      (writeFileAtomically environment.host (path ++ text "/" ++ file.name) data (filePermissions file.isExecutable))
      (fun _ s => Filled storage before start target here journal (nodes ++ [file.listed]) s.server)
      fun s => Stage before target start here s.server := by
  intro s filled
  rw [path_append]
  have written := replaceFile_runs environment level ⟨file.name, proper⟩ holds data (filePermissions file.isExecutable)
    s.server.disk s.server.journal
  refine (writeFileAtomically_server written).mono (fun s => id) (fun _ s' done => ?_) s
    ⟨filled.stage, rfl, List.prefix_refl _⟩
  obtain ⟨stage, grown, there⟩ := done
  refine ⟨stage, filled.grown.trans grown, fun clean => ?_⟩
  have placed := (filled.placed (clean.earlier grown)).mono (fun moded => ModesSet.earlier moded grown) le_rfl
  obtain ⟨permissions, moded, within, ⟨node, late, entry, object⟩, others⟩ := there clean
  refine placed.put (within.isDirectory placed.directory) (filled.stage.within.next.trans late) (fun probe => ?_)
    (fun other new used => within.others other used (level.apart new)) ?_ (fun old member => ?_) nofun
  next =>
    split_ifs with same
    next => exact same ▸ entry
    next => exact others probe same
  next =>
    rw [object]
    exact ⟨has, moded⟩
  next => exact ⟨plain _ member, rfl⟩

theorem writeBlob_runs {files : List FileNode} (holds : files ≠ [] → normalized)
    (proper : ∀ file ∈ files, IsName file.name) {hash data : Bytes} (has : storage.Has hash data)
    (known : List (Bytes × Node)) :
    Runs (fun s : Session ι (World σ) => Writing storage before start target here journal files known s.server)
      (writeBlob environment.host (outputsOf path files) hash data)
      (fun _ s => Writing storage before start target here journal files
        (known ++ (files.filter fun file => file.digest.hashOther = hash).map FileNode.listed) s.server)
      fun s => Stage before target start here s.server := by
  have chosen : (outputsOf path files).filter (fun output => output.1 = hash) =
      (files.filter fun file => file.digest.hashOther = hash).map fun file =>
        (file.digest.hashOther, path ++ text "/" ++ file.name, file.isExecutable) := by
    rw [outputsOf, List.filter_map]
    rfl
  have each (file : FileNode) (member : file ∈ files.filter fun file => file.digest.hashOther = hash)
      (known : List (Bytes × Node)) :
      Runs (fun s : Session ι (World σ) => Writing storage before start target here journal files known s.server)
        (writeFileAtomically environment.host (path ++ text "/" ++ file.name) data (filePermissions file.isExecutable))
        (fun _ s => Writing storage before start target here journal files (known ++ [file.listed]) s.server)
        fun s => Stage before target start here s.server := by
    rintro s ⟨nodes, filled, listed, every⟩
    obtain ⟨member, same⟩ := List.mem_filter.mp member
    have plain : ∀ entry ∈ nodes, entry.2.entry.kind = .file := fun entry old => by
      obtain ⟨other, -, rfl⟩ := List.mem_map.mp (listed entry old)
      rfl
    have hash' : file.digest.hashOther = hash := by simpa using same
    refine (writeFile_runs environment level (holds (List.ne_nil_of_mem member)) (proper file member)
      (hash' ▸ has) plain).mono (fun _ => id)
      (fun _ s' filled => ⟨_, filled, fun entry old => ?_, fun entry old => ?_⟩) s filled
    next =>
      rcases List.mem_append.mp old with old | new
      next => exact listed entry old
      next => exact List.mem_singleton.mp new ▸ List.mem_map_of_mem member
    next => exact List.mem_append.mpr ((List.mem_append.mp old).imp_left (every entry))
  unfold writeBlob
  rw [chosen, List.forM_map, List.map_eq_flatMap]
  exact Runs.forM_progress each known

def knownFiles (files : List FileNode) (hashes : List Bytes) : List (Bytes × Node) :=
  (files.filter fun file => file.digest.hashOther ∈ hashes).map FileNode.listed

omit level in
theorem mem_knownFiles {files : List FileNode} {hashes : List Bytes} {entry : Bytes × Node} :
    entry ∈ knownFiles files hashes ↔ ∃ file ∈ files, file.digest.hashOther ∈ hashes ∧ file.listed = entry := by
  simp only [knownFiles, List.mem_map, List.mem_filter, decide_eq_true_iff, and_assoc]

theorem files_delivering (ι : Type) {client : Client σ} (stores : Stores client storage) {files : List FileNode}
    (holds : files ≠ [] → normalized) (proper : ∀ file ∈ files, IsName file.name) :
    @Delivering ι _ client.outside environment.host (writeBlob environment.host (outputsOf path files))
      (Available client.hash storage) storage.Has
      (fun hashes s => Writing storage before start target here journal files (knownFiles files hashes) s.server)
      fun s => Stage before target start here s.server where
  given _ _ := fun ⟨_, filled, _⟩ => filled.stage
  fewer hashes others s subset := by
    rintro ⟨nodes, filled, listed, every⟩
    refine ⟨nodes, filled, listed, fun entry member => every entry ?_⟩
    obtain ⟨file, member, handed, same⟩ := mem_knownFiles.mp member
    exact mem_knownFiles.mpr ⟨file, member, subset handed, same⟩
  asked _ _ wanted := (batchReadBlobs_served Writing.steady stores wanted).relax fun _ ⟨_, filled, _⟩ => filled.stage
  fetched digest _ := ((fetchString_served Writing.steady stores environment.host digest).mono (fun _ => id)
    fun _ _ held => ⟨⟨digest.sizeBytes, held.1⟩, held.2⟩).relax fun _ ⟨_, filled, _⟩ => filled.stage
  written hash data hashes has := by
    refine (writeBlob_runs environment level holds proper has (knownFiles files hashes)).mono
      (fun _ => id) fun _ s => ?_
    rintro ⟨nodes, filled, listed, every⟩
    refine ⟨nodes, filled, listed, fun entry member => every entry ?_⟩
    obtain ⟨file, member, handed, same⟩ := mem_knownFiles.mp member
    rw [List.mem_append]
    refine (List.mem_append.mp handed).imp (fun old => mem_knownFiles.mpr ⟨file, member, old, same⟩) fun new => ?_
    exact List.mem_map.mpr ⟨file, List.mem_filter.mpr ⟨member, decide_eq_true (List.mem_singleton.mp new)⟩, same⟩

theorem downloadFiles_runs {client : Client σ} (stores : Stores client storage)
    (sorting : SizeSort Digest fun d => d.sizeBytes) {files : List FileNode} (holds : files ≠ [] → normalized)
    (proper : ∀ file ∈ files, IsName file.name)
      (available : ∀ file ∈ files, Available client.hash storage file.digest) :
    Runs (fun s : Session ι (World σ) => Filled storage before start target here journal [] s.server)
      (client.outside.downloadBlobs environment.host sorting (files.map FileNode.digest) (outputsOf path files))
      (fun _ s => Filled storage before start target here journal (files.map FileNode.listed) s.server)
      fun s => Stage before target start here s.server := by
  have requested : ∀ digest ∈ files.map FileNode.digest, Available client.hash storage digest := fun digest member => by
    obtain ⟨file, listed, rfl⟩ := List.mem_map.mp member
    exact available file listed
  have delivering := @files_delivering σ storage before start target here normalized journal path environment level ι client
    stores files holds proper
  have downloaded := delivering.downloadBlobsToCallback_runs sorting requested
  refine (downloaded.mono (fun s filled => ⟨[], filled, by simp, by simp [knownFiles]⟩) fun _ s ended => ?_).bind
    fun _ => .pure fun _ => id
  obtain ⟨nodes, filled, listed, every⟩ := ended
  refine filled.congr fun entry => ⟨listed entry, fun member => every entry ?_⟩
  obtain ⟨file, given, rfl⟩ := List.mem_map.mp member
  exact mem_knownFiles.mpr ⟨file, given, List.mem_map_of_mem (List.mem_map_of_mem given), rfl⟩

theorem createNew_runs (name : Name) {call : SystemCall} (paths : call.paths = [path ++ slash :: name.1])
    (unwritten : ∀ file, call ≠ .write file) {effect : Disk → Except Nat Disk} {new : Disk → NewObject}
    (creates : ∀ disk after, effect disk = .ok after → disk.createNew (path ++ slash :: name.1) (new disk) = .ok after)
    (base : Disk) (journal : List Operation) :
    Runs (fun w => Stage before target start here w ∧ w.disk = base ∧ journal <+: w.journal)
      (calling (environment.perform call effect) : EStateM Exn (World σ) _)
      (fun answer w => match answer with
        | .ok () => base.find here name.1 = none ∧ w.disk = base.create here name (new base) ∧
          Stage before target start here w ∧ journal <+: w.journal
        | .error _ => Stage before target start here w)
      (Stage before target start here) := by
  refine .calling fun w => ?_
  rintro ⟨stage, rfl, grown⟩
  have denotes := level.now stage.within
  obtain ⟨located, ends⟩ := denotes.endsIn name
  have performed := environment.perform_performed call effect w
  generalize environment.perform call effect w = ended at performed ⊢
  obtain ⟨answer, after⟩ := ended
  have moved := stage.performed performed (level.confined (by simpa [paths] using ends) unwritten) fun disk run => by
    obtain ⟨-, rfl⟩ := Disk.createNew_ok located (creates _ _ run)
    exact stage.within.trans (.create denotes.directory denotes.used _ _)
  cases performed with
  | refused errno state => exact moved.1
  | done state run =>
    obtain ⟨absent, rfl⟩ := Disk.createNew_ok located (creates _ _ run)
    exact ⟨absent, rfl, moved.1, grown.trans moved.2⟩

theorem makeDirectory_runs (name : Name) (base : Disk) (journal : List Operation) :
    Runs (fun s : Session ι (World σ) => Stage before target start here s.server ∧ s.server.disk = base ∧
        journal <+: s.server.journal)
      (makeDirectory environment.host (path ++ text "/" ++ name.1))
      (fun _ s => base.find here name.1 = none ∧
        s.server.disk = base.create here name (.directory (base.masked 0o777)) ∧
        Stage before target start here s.server ∧ journal <+: s.server.journal)
      fun s => Stage before target start here s.server := by
  rw [path_append]
  unfold makeDirectory
  rw [cString_of_nulFree (nulFree_child level.denotes.free name)]
  have created := @createNew_runs σ before start target here normalized path environment level name
    (.mkdir (path ++ slash :: name.1)) rfl nofun (·.mkdir (path ++ slash :: name.1) 0o777)
    (fun disk => .directory (disk.masked 0o777)) (fun _ _ => id) base journal
  refine (inSession_server created).bind fun answer => ?_
  cases answer with
  | error errno => exact .throw fun _ => id
  | ok done => exact .pure fun _ => id

theorem makeSymlink_runs (node : SymlinkNode) (proper : IsName node.name) (target' : node.target ≠ []) (base : Disk)
    (journal : List Operation) :
    Runs (fun s : Session ι (World σ) => Stage before target start here s.server ∧ s.server.disk = base ∧
        journal <+: s.server.journal)
      (makeSymlink environment.host path node)
      (fun _ s => base.find here node.name = none ∧
        s.server.disk = base.create here ⟨node.name, proper⟩ (.symlink (cString node.target)) ∧
        Stage before target start here s.server ∧ journal <+: s.server.journal)
      fun s => Stage before target start here s.server := by
  have whole : cString (path ++ slash :: node.name) = path ++ slash :: node.name :=
    cString_of_nulFree (nulFree_child level.denotes.free ⟨node.name, proper⟩)
  unfold makeSymlink
  rw [if_neg (not_or.mpr ⟨target', proper.nonempty⟩)]
  simp only [path_append, whole]
  have created := @createNew_runs σ before start target here normalized path environment level ⟨node.name, proper⟩
    (.symlink (path ++ slash :: node.name)) rfl nofun (·.symlink (cString node.target) (path ++ slash :: node.name))
    (fun _ => .symlink (cString node.target)) (fun disk after run => ?_) base journal
  next =>
    refine (inSession_server created).bind fun answer => ?_
    cases answer with
    | error errno => exact .throw fun _ => id
    | ok done => exact .pure fun _ => id
  next =>
    unfold Disk.symlink at run
    split at run
    next => cases run
    next => rwa [cString_cString] at run

end Files

end BuildboxCommon.Client
