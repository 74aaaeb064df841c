import BuildboxCommon.Client.LocalHost

set_option autoImplicit false

namespace BuildboxCommon

open ByteString Effect FileUtils Posix

variable {σ : Type}

structure Level (before : Disk) (target : Nat) (normalized : Prop) (start : Disk) (path : Bytes) (here : Nat) :
    Prop where
  denotes : start.Denotes (· < before.next) normalized path here
  empty : ∃ parent permissions mtime, start.files.object here = .directory parent [] permissions mtime
  inside : here = target ∨ before.next ≤ here
  later : before.next ≤ start.next

structure Stage (before : Disk) (target : Nat) (start : Disk) (here : Nat) (w : World σ) : Prop where
  within : Disk.Within here start w.disk
  confined : ∀ operation ∈ w.journal, operation.Confined before target

def Clean (journal : List Operation) : Prop := ∀ operation ∈ journal, operation.Renames

theorem Clean.earlier {journal more : List Operation} (clean : Clean more) (grown : journal <+: more) : Clean journal :=
  fun operation member => clean operation (grown.subset member)

def ModesSet (journal : List Operation) : Prop := ∀ operation ∈ journal, operation.SetsMode

theorem ModesSet.earlier {journal more : List Operation} (moded : ModesSet more) (grown : journal <+: more) :
    ModesSet journal :=
  fun operation member => moded operation (grown.subset member)

structure Made (base : Disk) (here : Nat) (name : Name) (contents : Bytes) (permissions : Fin 0o10000) (disk : Disk) :
    Prop where
  within : Disk.Within here base disk
  next : base.next < disk.next
  file : disk.files.object base.next = .regular contents permissions 0
  find : ∀ probe, disk.find here probe = if probe = name.1 then some base.next else base.find here probe
  absent : base.find here name.1 = none

structure Written (base : Disk) (here : Nat) (name : Name) (contents : Bytes) (permissions : Fin 0o10000)
    (disk : Disk) : Prop where
  within : Disk.Within here base disk
  file : ∃ node, base.next ≤ node ∧ disk.find here name.1 = some node ∧
    disk.files.object node = .regular contents permissions 0
  others : ∀ probe, probe ≠ name.1 → disk.find here probe = base.find here probe

section Files

variable {base disk : Disk} {here : Nat} {name : Name} {contents : Bytes} {permissions : Fin 0o10000}

theorem Made.create (directory : base.files.graph.IsDirectory here) (used : here < base.next)
    (absent : base.find here name.1 = none) :
    Made base here name contents permissions (base.create here name (.regular contents permissions)) :=
  ⟨.create directory used _ _, by rw [Disk.next_create directory used]; exact Nat.lt_succ_self _,
    Disk.object_create directory used _ _, Disk.find_create directory used _ _, absent⟩

theorem Made.store (made : Made base here name contents permissions disk) (used : here < base.next) (data : Bytes)
    (mode : Fin 0o10000) : Made base here name data mode
      (disk.store base.next (.regular data mode 0) (disk.fits_regular _ _ _)) where
  within := made.within.store_new used le_rfl _
  next := made.next
  file := by rw [Disk.object_store, Function.update_self]
  find probe := by
    rw [← made.find probe]
    exact Disk.find_congr (by rw [Disk.object_store, Function.update_of_ne (Nat.ne_of_lt used)]) probe
  absent := made.absent

theorem Made.renamed (made : Made base here name contents permissions disk)
    (directory : base.files.graph.IsDirectory here) (used : here < base.next) (other : Name) :
    Written base here other contents permissions ((disk.detach here name).attach here other base.next) := by
  have open' := made.within.isDirectory directory
  have detached := Disk.Within.detach disk open' name
  obtain ⟨parent, entries, permissions', mtime, kind⟩ := (FileSystem.isDirectory_iff here).mp open'
  obtain ⟨entries', kind'⟩ := detached.directory _ _ _ _ kind
  have fits : base.next < (disk.detach here name).next := made.next.trans_le detached.next
  have find := Disk.find_attach kind' other fits
  have attached := Disk.Within.attach (disk.detach here name) (detached.isDirectory open') other fits
  refine ⟨(made.within.trans detached).trans attached, ⟨base.next, le_rfl, by rw [find, if_pos rfl], ?_⟩, ?_⟩
  next =>
    have unchanged := (detached.trans attached).others base.next made.next (Nat.ne_of_gt used)
    exact unchanged.trans made.file
  next =>
    intro probe distinct
    rw [find, if_neg distinct, Disk.find_detach kind, made.find]
    by_cases same : probe = name.1
    next => rw [if_pos same, same, made.absent]
    next => rw [if_neg same, if_neg same]

end Files

section Runs

variable {before start : Disk} {target here : Nat} {normalized : Prop} {path : Bytes}

theorem Level.now (level : Level before target normalized start path here) {disk : Disk}
    (within : Disk.Within here start disk) :
    disk.Denotes (· < before.next) normalized path here := by
  obtain ⟨parent, permissions, mtime, empty⟩ := level.empty
  exact level.denotes.kept within empty

theorem Level.apart (level : Level before target normalized start path here) {other : Nat}
    (late : start.next ≤ other) : other ≠ here := by
  have used := level.denotes.used
  omega

theorem Level.confined (level : Level before target normalized start path here) {operation : Operation}
    (inside : ∀ path ∈ operation.call.paths, operation.disk.EndsIn (· < before.next) path here)
    (unwritten : ∀ path, operation.call ≠ .write path) : operation.Confined before target :=
  ⟨fun path member => ⟨here, inside path member, level.inside⟩, fun path same => absurd same (unwritten path)⟩

theorem Level.created (level : Level before target normalized start path here) {disk : Disk}
    (within : Disk.Within here start disk) (name : Name) (new : NewObject) :
    Disk.Within here start (disk.create here name new) :=
  within.trans (.create (level.now within).directory (level.now within).used name new)

theorem Level.child (level : Level before target normalized start path here) {disk : Disk}
    (within : Disk.Within here start disk) (name : Name) (permissions : Fin 0o10000) :
    Level before target normalized (disk.create here name (.directory permissions))
      (path ++ slash :: name.1) disk.next := by
  have denotes := level.now within
  have created := level.created within name (.directory permissions)
  have object := Disk.object_create denotes.directory denotes.used name (.directory permissions)
  refine ⟨(level.now created).child ?_ ?_, ⟨here, permissions, 0, object⟩, .inr (level.later.trans within.next),
    level.later.trans created.next⟩
  next => rw [Disk.find_create denotes.directory denotes.used, if_pos rfl]
  next => exact (FileSystem.isDirectory_iff _).mpr ⟨_, _, _, _, object⟩

theorem Stage.outer {created : Disk} {sub : Nat} {w : World σ} (stage : Stage before target created sub w)
    (within : Disk.Within here start created) (new : start.next ≤ sub) (used : here < start.next) :
    Stage before target start here w :=
  ⟨within.inside new used stage.within, stage.confined⟩

theorem Stage.performed {call : SystemCall} {effect : Disk → Except Nat Disk} {w after : World σ}
    {answer : Except Nat Unit} (stage : Stage before target start here w)
    (performed : Environment.Performed call effect w (answer, after))
    (confined : Operation.Confined before target ⟨call, w.disk, answer⟩)
    (within : ∀ disk, effect w.disk = .ok disk → Disk.Within here start disk) :
    Stage before target start here after ∧ w.journal <+: after.journal := by
  have every : ∀ operation ∈ w.journal ++ [⟨call, w.disk, answer⟩], operation.Confined before target := by
    intro operation member
    rcases List.mem_append.mp member with old | new
    next => exact stage.confined operation old
    next => exact List.mem_singleton.mp new ▸ confined
  cases performed with
  | refused errno state => exact ⟨⟨stage.within, every⟩, List.prefix_append _ _⟩
  | done state run => exact ⟨⟨within _ run, every⟩, List.prefix_append _ _⟩

structure Temporary (before start : Disk) (target here : Nat) (base : Disk) (journal : List Operation) (tmp : Name)
    (contents : Bytes) (permissions : Fin 0o10000) (w : World σ) : Prop where
  based : Disk.Within here start base
  made : Made base here tmp contents permissions w.disk
  stage : Stage before target start here w
  grown : journal <+: w.journal

variable {base : Disk} {journal : List Operation} {tmp : Name} {contents : Bytes} {permissions : Fin 0o10000}

theorem Made.pathname {disk : Disk} (made : Made base here tmp contents permissions disk) {file : Bytes}
    (located : disk.locate file = .ok (here, tmp)) (ends : disk.EndsIn (· < before.next) file here) :
    disk.Reaches (· < before.next) (disk.start (cString file)) (steps (cString file)) base.next ∧
      disk.files.pathname true disk.files.currentDirectory file = .ok base.next := by
  refine ends.file located (by rw [made.find, if_pos rfl]) ?_
  rw [FileSystem.isLink_iff]
  rintro ⟨target, link⟩
  simp [made.file] at link

variable (environment : Environment σ) (level : Level before target normalized start path here) (name : Name)

include level

theorem Temporary.stored {w after : World σ}
    (temporary : Temporary before start target here base journal tmp contents permissions w) {data : Bytes}
    {mode : Fin 0o10000} {fits : w.disk.Fits (.regular data mode 0)}
    (disk : after.disk = w.disk.store base.next (.regular data mode 0) fits)
    (confined : ∀ operation ∈ after.journal, operation.Confined before target) (grown : w.journal <+: after.journal) :
    Temporary before start target here base journal tmp data mode after := by
  have later := temporary.based.next
  have used := level.denotes.used
  exact ⟨temporary.based, disk ▸ temporary.made.store (used.trans_le later) data mode,
    ⟨disk ▸ temporary.stage.within.store_new used later _, confined⟩, temporary.grown.trans grown⟩

theorem mkstemp_runs (template : Bytes) (picked : ∀ suffix : TempSuffix, template.take (template.length - 6) ++
      suffix.1 = dirname (path ++ slash :: name.1) ++ slash :: (tempName suffix).1) :
    Runs (fun w => Stage before target start here w ∧ w.disk = base ∧ journal <+: w.journal)
      (calling (environment.mkstemp template) : EStateM Exn (World σ) _)
      (fun answer w => match answer with
        | .ok raw => ∃ tmp : Name, raw = dirname (path ++ slash :: name.1) ++ slash :: tmp.1 ∧
          Temporary before start target here base journal tmp [] 0o600 w
        | .error _ => Stage before target start here w)
      (Stage before target start here) := by
  refine .calling fun w => ?_
  rintro ⟨stage, rfl, grown⟩
  obtain ⟨suffix, state, answer, after, -, performed, run⟩ := environment.mkstemp_performed template w
  rw [picked suffix] at performed run
  have denotes := (level.now stage.within).above name
  obtain ⟨located, ends⟩ := denotes.endsIn (tempName suffix)
  have between : Stage before target start here { w with environment := state } := ⟨stage.within, stage.confined⟩
  have moved := between.performed performed (level.confined (by simpa [SystemCall.paths] using ends) (by simp))
    fun disk created => by
      obtain ⟨-, rfl⟩ := Disk.createNew_ok located created
      exact stage.within.trans (.create denotes.directory denotes.used _ _)
  rw [run]
  cases performed with
  | refused errno state => exact moved.1
  | done state created =>
    obtain ⟨absent, rfl⟩ := Disk.createNew_ok located created
    exact ⟨tempName suffix, rfl, stage.within, .create denotes.directory denotes.used absent, moved.1,
      grown.trans moved.2⟩

theorem fchmod_runs (mode : Nat) :
    Runs (Temporary before start target here base journal tmp contents permissions)
      (calling (environment.host.fchmod (dirname (path ++ slash :: name.1) ++ slash :: tmp.1) mode) :
        EStateM Exn (World σ) _)
      (fun _ w => ∃ permissions, (ModesSet w.journal → permissions = Fin.ofNat _ mode) ∧
        Temporary before start target here base journal tmp contents permissions w)
      (Stage before target start here) := by
  refine .calling fun w temporary => ?_
  have denotes := (level.now temporary.stage.within).above name
  obtain ⟨located, ends⟩ := denotes.endsIn tmp
  generalize dirname (path ++ slash :: name.1) ++ slash :: tmp.1 = file at located ends ⊢
  have changed := Disk.fchmod_file (temporary.made.pathname located ends).2 temporary.made.file mode
  have performed := environment.perform_performed (.fchmod file) (fun disk => .ok (disk.fchmod file mode)) w
  rw [show environment.host.fchmod file mode w =
    environment.perform (.fchmod file) (fun disk => .ok (disk.fchmod file mode)) w from rfl]
  generalize environment.perform (.fchmod file) (fun disk => .ok (disk.fchmod file mode)) w = ended at performed ⊢
  obtain ⟨answer, after⟩ := ended
  have moved := temporary.stage.performed performed (level.confined (by simpa [SystemCall.paths] using ends) (by simp))
    fun disk run => by
      obtain rfl := Except.ok.inj run
      rw [changed]
      exact temporary.stage.within.store_new level.denotes.used temporary.based.next _
  cases performed with
  | refused errno state =>
    refine ⟨permissions, fun moded => ?_, temporary.based, temporary.made, moved.1, temporary.grown.trans moved.2⟩
    have refused := moded _ (List.mem_append_right _ (List.mem_singleton_self _)) file rfl
    cases refused
  | done state run =>
    obtain rfl := Except.ok.inj run
    exact ⟨Fin.ofNat _ mode, fun _ => rfl, temporary.stored level changed moved.1.confined moved.2⟩

theorem create_runs (mode : Nat) (base : Disk) (journal : List Operation) :
    Runs (fun w => Stage before target start here w ∧ w.disk = base ∧ journal <+: w.journal)
      (TemporaryFile.create environment.host (dirname (path ++ slash :: name.1)) (text "buildbox") mode)
      (fun temp w => ∃ (tmp : Name) (permissions : Fin 0o10000) (later : List Operation),
        temp = normalizePath (dirname (path ++ slash :: name.1) ++ slash :: tmp.1) ∧ journal <+: later ∧
        (ModesSet later → permissions = Fin.ofNat _ mode) ∧
        Temporary before start target here base later tmp [] permissions w)
      (Stage before target start here) := by
  unfold TemporaryFile.create
  refine (mkstemp_runs environment level name _ (template_picked (level.denotes.above name).free)).bind fun answer => ?_
  cases answer with
  | error errno => exact .throw fun w => id
  | ok raw =>
    refine .of_exists fun tmp => .of_and fun same => ?_
    subst same
    have now {permissions : Fin 0o10000} {w : World σ}
        (temporary : Temporary before start target here base journal tmp [] permissions w) :
        Temporary before start target here base w.journal tmp [] permissions w :=
      ⟨temporary.based, temporary.made, temporary.stage, List.prefix_refl _⟩
    refine .ite (fun _ => ?_) fun same => ?_
    next =>
      refine (fchmod_runs environment level name mode).discard.bind fun _ => .pure fun w changed => ?_
      obtain ⟨permissions, moded, temporary⟩ := changed
      exact ⟨tmp, permissions, w.journal, rfl, temporary.grown, moded, now temporary⟩
    next =>
      rw [not_not] at same
      exact .pure fun w temporary => ⟨tmp, _, w.journal, rfl, temporary.grown, fun _ => same ▸ rfl, now temporary⟩

variable (holds : normalized)

include holds

theorem overwrite_runs (data : Bytes) :
    Runs (Temporary before start target here base journal tmp contents permissions)
      (calling (environment.overwrite (normalizePath (dirname (path ++ slash :: name.1) ++ slash :: tmp.1)) data) :
        EStateM Exn (World σ) _)
      (fun answer w => match answer with
        | .ok () => Temporary before start target here base journal tmp data permissions w
        | .error _ => Stage before target start here w)
      (Stage before target start here) := by
  refine .calling fun w temporary => ?_
  obtain ⟨located, ends⟩ := ((level.now temporary.stage.within).above name).normal_endsIn holds tmp
  obtain ⟨reaches, reached⟩ := temporary.made.pathname located ends
  have granted := temporary.made.within.granted base.next le_rfl temporary.made.next
  have confined (answer : Except Nat Unit) : Operation.Confined before target
      ⟨.write (normalizePath (dirname (path ++ slash :: name.1) ++ slash :: tmp.1)), w.disk, answer⟩ := by
    refine ⟨fun file member => ⟨here, ?_, level.inside⟩, fun file same => ⟨base.next, ?_⟩⟩
    next => exact List.mem_singleton.mp member ▸ ends
    next => exact SystemCall.write.inj same ▸ reaches
  obtain ⟨state, data', answer, after, performed, run⟩ := environment.overwrite_performed
    (normalizePath (dirname (path ++ slash :: name.1) ++ slash :: tmp.1)) data w
  have stored := Disk.overwrite_file reached temporary.made.file granted data'
  have between : Stage before target start here { w with environment := state } :=
    ⟨temporary.stage.within, temporary.stage.confined⟩
  have moved := between.performed performed (confined answer) fun disk changed => by
    rw [stored] at changed
    exact Except.ok.inj changed ▸ temporary.stage.within.store_new level.denotes.used temporary.based.next _
  rcases run with ⟨rfl, run⟩ | ⟨errno, run⟩
  next =>
    rw [run]
    cases performed with
    | refused errno state => exact moved.1
    | done state changed =>
      rw [stored] at changed
      exact temporary.stored level (Except.ok.inj changed).symm moved.1.confined moved.2
  next =>
    rw [run]
    exact moved.1

structure Placing (before start : Disk) (target here : Nat) (base : Disk) (journal : List Operation) (tmp name : Name)
    (contents : Bytes) (permissions : Fin 0o10000) (w : World σ) : Prop where
  stage : Stage before target start here w
  grown : journal <+: w.journal
  gone : Clean w.journal → w.disk.find here tmp.1 = none
  written : Clean w.journal → Written base here name contents permissions w.disk

theorem rename_runs :
    Runs (Temporary before start target here base journal tmp contents permissions)
      (calling (environment.host.rename (normalizePath (dirname (path ++ slash :: name.1) ++ slash :: tmp.1))
        (cString (path ++ slash :: name.1))) : EStateM Exn (World σ) _)
      (fun answer w => match answer with
        | .ok () => Placing before start target here base journal tmp name contents permissions w
        | .error _ => Stage before target start here w)
      (Stage before target start here) := by
  refine .calling fun w temporary => ?_
  rw [cString_of_nulFree (nulFree_child level.denotes.free name)]
  have denotes := level.now temporary.stage.within
  obtain ⟨located, ends⟩ := (denotes.above name).normal_endsIn holds tmp
  obtain ⟨located', ends'⟩ := denotes.endsIn name
  have base' := level.now temporary.based
  generalize normalizePath (dirname (path ++ slash :: name.1) ++ slash :: tmp.1) = source at located ends ⊢
  generalize path ++ slash :: name.1 = goal at located' ends' ⊢
  have confined (answer : Except Nat Unit) : Operation.Confined before target ⟨.rename source goal, w.disk, answer⟩ :=
    level.confined (by simpa [SystemCall.paths] using ⟨ends, ends'⟩) (by simp)
  have performed := environment.perform_performed (.rename source goal) (·.rename source goal) w
  rw [show environment.host.rename source goal w = environment.perform (.rename source goal) (·.rename source goal) w
    from rfl]
  generalize environment.perform (.rename source goal) (·.rename source goal) w = ended at performed ⊢
  obtain ⟨answer, after⟩ := ended
  have moved := temporary.stage.performed performed (confined answer) fun disk run => by
    obtain ⟨node, found, ⟨-, rfl⟩ | ⟨-, rfl⟩⟩ := Disk.rename_ok located located' run
    next => exact temporary.stage.within
    next =>
      have detached := Disk.Within.detach w.disk denotes.directory tmp
      exact (temporary.stage.within.trans detached).trans
        (.attach _ (detached.isDirectory denotes.directory) _ ((Disk.find_used found).trans_le detached.next))
  cases performed with
  | refused errno state => exact moved.1
  | done state run =>
    obtain ⟨node, found, outcome⟩ := Disk.rename_ok located located' run
    rw [temporary.made.find, if_pos rfl, Option.some.injEq] at found
    subst found
    have distinct (clean : Clean (w.journal ++ [⟨.rename source goal, w.disk, .ok ()⟩])) : name.1 ≠ tmp.1 := fun same =>
      clean _ (List.mem_append_right _ (List.mem_singleton_self _)) source goal (here, tmp) rfl located
        (by rw [located', Subtype.ext same])
    rcases outcome with ⟨same, rfl⟩ | ⟨-, rfl⟩
    next =>
      -- The temporary file was made under the very name of the file.
      have never (clean : Clean (w.journal ++ [⟨.rename source goal, w.disk, .ok ()⟩])) : False := by
        rw [temporary.made.find, if_neg (distinct clean)] at same
        exact Nat.lt_irrefl _ (Disk.find_used same)
      exact ⟨moved.1, temporary.grown.trans moved.2, fun clean => (never clean).elim, fun clean => (never clean).elim⟩
    next =>
      have written := temporary.made.renamed base'.directory base'.used name
      refine ⟨moved.1, temporary.grown.trans moved.2, fun clean => ?_, fun _ => written⟩
      exact (written.others tmp.1 (distinct clean).symm).trans temporary.made.absent

theorem removed {w : World σ} (stage : Stage before target start here w) (tmp : Name) :
    let after := (TemporaryFile.remove environment.host
      (normalizePath (dirname (path ++ slash :: name.1) ++ slash :: tmp.1)) w).2
    Stage before target start here after ∧ w.journal <+: after.journal ∧
      (w.disk.find here tmp.1 = none → after.disk = w.disk) := by
  have denotes := level.now stage.within
  obtain ⟨located, ends⟩ := (denotes.above name).normal_endsIn holds tmp
  generalize normalizePath (dirname (path ++ slash :: name.1) ++ slash :: tmp.1) = file at located ends ⊢
  have performed := environment.perform_performed (.unlink file) (·.unlink file) w
  rw [show (TemporaryFile.remove environment.host file w).2 =
    (environment.perform (.unlink file) (·.unlink file) w).2 from rfl]
  generalize environment.perform (.unlink file) (·.unlink file) w = ended at performed ⊢
  obtain ⟨answer, after⟩ := ended
  obtain ⟨kept, grown⟩ := stage.performed performed
    (level.confined (by simpa [SystemCall.paths] using ends) (by simp)) fun disk run => by
      obtain ⟨-, rfl⟩ := Disk.unlink_ok located run
      exact stage.within.trans (.detach _ denotes.directory _)
  refine ⟨kept, grown, fun gone => ?_⟩
  cases performed with
  | refused errno state => rfl
  | done state run =>
    obtain ⟨⟨node, found⟩, -⟩ := Disk.unlink_ok located run
    simp [gone] at found

theorem fillFile_runs (data : Bytes) :
    Runs (Temporary before start target here base journal tmp contents permissions)
      (fillFile environment.host (normalizePath (dirname (path ++ slash :: name.1) ++ slash :: tmp.1))
        (path ++ slash :: name.1) data)
      (fun _ => Placing before start target here base journal tmp name data permissions)
      (Stage before target start here) := by
  refine (overwrite_runs environment level name holds data).bind fun answer => ?_
  cases answer with
  | error errno => exact .throw fun _ => id
  | ok done =>
    refine (rename_runs environment level name holds).bind fun answer => ?_
    cases answer with
    | error errno => exact .throw fun _ => id
    | ok done => exact .pure fun _ => id

theorem replaceFile_runs (data : Bytes) (mode : Nat) (base : Disk) (journal : List Operation) :
    Runs (fun w => Stage before target start here w ∧ w.disk = base ∧ journal <+: w.journal)
      (replaceFile environment.host (path ++ slash :: name.1) data mode)
      (fun _ w => Stage before target start here w ∧ journal <+: w.journal ∧
        (Clean w.journal → ∃ permissions, (ModesSet w.journal → permissions = Fin.ofNat _ mode) ∧
          Written base here name data permissions w.disk))
      (Stage before target start here) := by
  unfold replaceFile
  rw [cString_of_nulFree (nulFree_child level.denotes.free name)]
  refine (create_runs environment level name mode base journal).bind fun temp => .of_exists fun tmp =>
    .of_exists fun permissions => .of_exists fun later => .of_and fun same => .of_and fun grown =>
      .of_and fun moded => ?_
  subst same
  refine (fillFile_runs environment level name holds data).ensuring (fun _ w placing => ?_) fun w stage => ?_
  next =>
    obtain ⟨kept, removed, unchanged⟩ := removed environment level name holds placing.stage tmp
    refine ⟨kept, (grown.trans placing.grown).trans removed, fun clean => ⟨permissions, fun set => ?_, ?_⟩⟩
    next => exact moded (set.earlier (placing.grown.trans removed))
    next =>
      have before' := clean.earlier removed
      rw [unchanged (placing.gone before')]
      exact placing.written before'
  next => exact (removed environment level name holds stage tmp).1

end Runs

end BuildboxCommon
