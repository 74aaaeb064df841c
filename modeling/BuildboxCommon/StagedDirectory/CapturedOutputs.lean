import BuildboxCommon.StagedDirectory.CaptureAllOutputs
import Mathlib.Data.List.Forall2

set_option autoImplicit false

namespace BuildboxCommon.StagedDirectory

open ByteString Effect FileUtils LexicalPath Posix

variable {σ : Type}

def location (workingDirectory name : Bytes) : Bytes := normalizePath (workingDirectory ++ name)

def declaredOutputs (command : Command) : List Bytes :=
  if command.outputPaths ≠ [] then command.outputPaths else command.outputFiles ++ command.outputDirectories

structure ValidOutputs (command : Command) (workingDirectory : Bytes) : Prop where
  started : getWorkingDirectory command = .ok workingDirectory
  within : ∀ name ∈ declaredOutputs command, (pathInInputRoot name workingDirectory).isOk = true

def kindOf (stMode : Nat) : Option OutputKind :=
  if sIsDir stMode then some .directory else if sIsReg stMode then some .file else none

def CapturesFile (still : σ → Prop) (existing : OutputKind → Bytes → Bool) (captureFileFunction : CaptureFileCallback σ)
    (path : Bytes) : Prop :=
  ∀ s, still s → ∃ outputFile s', captureFileFunction path s = .ok outputFile s' ∧ still s' ∧
    (outputFile.path ≠ [] ↔ existing .file path = true)

def CapturesDirectory (still : σ → Prop) (existing : OutputKind → Bytes → Bool)
    (captureDirectoryFunction : CaptureDirectoryCallback σ) (path : Bytes) : Prop :=
  ∀ s, still s → ∃ outputDirectory s', captureDirectoryFunction path s = .ok outputDirectory s' ∧ still s' ∧
    (outputDirectory.path ≠ [] ↔ existing .directory path = true)

structure CapturesExisting (still : σ → Prop) (existing : OutputKind → Bytes → Bool)
    (captureFileFunction : CaptureFileCallback σ) (captureDirectoryFunction : CaptureDirectoryCallback σ)
    (command : Command) (workingDirectory : Bytes) : Prop where
  file : ∀ name ∈ activeOutputs command .file,
    CapturesFile still existing captureFileFunction (location workingDirectory name)
  directory : ∀ name ∈ activeOutputs command .directory,
    CapturesDirectory still existing captureDirectoryFunction (location workingDirectory name)

structure Examined (still : σ → Prop) (existing : OutputKind → Bytes → Bool) (dPath : Bytes)
    (lstat : σ → Bytes → Except Nat Nat) (status : Bytes → Except Nat Nat) (command : Command)
    (workingDirectory : Bytes) : Prop where
  answers : ∀ name ∈ command.outputPaths, ∀ s, still s → ∀ absolutePath,
    makePathAbsolute (location workingDirectory name) dPath = .ok absolutePath →
      lstat s (cString absolutePath) = status (location workingDirectory name)
  existing_iff : ∀ name ∈ command.outputPaths, ∀ kind, existing kind (location workingDirectory name) = true ↔
    (status (location workingDirectory name)).toOption.bind kindOf = some kind

def Admitted : Except Nat Nat → Prop
  | .ok stMode => kindOf stMode ≠ none
  | .error errno => errno = enoent

instance : (status : Except Nat Nat) → Decidable (Admitted status)
  | .ok stMode => inferInstanceAs (Decidable (kindOf stMode ≠ none))
  | .error errno => inferInstanceAs (Decidable (errno = enoent))

section Recording

variable {still : σ → Prop} {existing : OutputKind → Bytes → Bool} {captureFileFunction : CaptureFileCallback σ}
  {captureDirectoryFunction : CaptureDirectoryCallback σ} {workingDirectory : Bytes}

def existingOutputs (existing : OutputKind → Bytes → Bool) (command : Command) (workingDirectory : Bytes)
    (kind : OutputKind) : List Bytes :=
  (activeOutputs command kind).filter fun name => existing kind (location workingDirectory name)

def FileRecorded (still : σ → Prop) (captureFileFunction : CaptureFileCallback σ) (workingDirectory name : Bytes)
    (entry : OutputFile) : Prop :=
  ∃ s outputFile s', still s ∧ captureFileFunction (location workingDirectory name) s = .ok outputFile s' ∧
    entry = { outputFile with path := name }

def DirectoryRecorded (still : σ → Prop) (captureDirectoryFunction : CaptureDirectoryCallback σ)
    (workingDirectory name : Bytes) (entry : OutputDirectory) : Prop :=
  ∃ s outputDirectory s', still s ∧
    captureDirectoryFunction (location workingDirectory name) s = .ok outputDirectory s' ∧
    entry = { outputDirectory with path := name }

def Added (still : σ → Prop) (captureFileFunction : CaptureFileCallback σ)
    (captureDirectoryFunction : CaptureDirectoryCallback σ) (workingDirectory : Bytes)
    (names : OutputKind → List Bytes) (before after : ActionResult) : Prop :=
  ∃ files directories,
    after = ⟨before.outputFiles ++ files, before.outputDirectories ++ directories⟩ ∧
    List.Forall₂ (FileRecorded still captureFileFunction workingDirectory) (names .file) files ∧
    List.Forall₂ (DirectoryRecorded still captureDirectoryFunction workingDirectory) (names .directory) directories

theorem Added.nothing (result : ActionResult) :
    Added still captureFileFunction captureDirectoryFunction workingDirectory (fun _ => []) result result :=
  ⟨[], [], by simp, .nil, .nil⟩

theorem recorded_paths {Entry : Type} {recorded : Bytes → Entry → Prop} {path : Entry → Bytes}
    (renamed : ∀ name entry, recorded name entry → path entry = name) {names : List Bytes} {entries : List Entry}
    (all : List.Forall₂ recorded names entries) : entries.map path = names := by
  induction all with
  | nil => rfl
  | cons first _ ih => rw [List.map_cons, renamed _ _ first, ih]

theorem Added.names_eq {names others : OutputKind → List Bytes} {before after : ActionResult}
    (added : Added still captureFileFunction captureDirectoryFunction workingDirectory names before after)
    (also : Added still captureFileFunction captureDirectoryFunction workingDirectory others before after) :
    names = others := by
  obtain ⟨files, directories, rfl, filesNamed, directoriesNamed⟩ := added
  obtain ⟨files', directories', same, filesNamed', directoriesNamed'⟩ := also
  simp only [ActionResult.mk.injEq, List.append_cancel_left_eq] at same
  obtain ⟨rfl, rfl⟩ := same
  have file (name : Bytes) (entry : OutputFile)
      (recorded : FileRecorded still captureFileFunction workingDirectory name entry) : entry.path = name := by
    obtain ⟨_, _, _, _, _, rfl⟩ := recorded
    rfl
  have directory (name : Bytes) (entry : OutputDirectory)
      (recorded : DirectoryRecorded still captureDirectoryFunction workingDirectory name entry) :
        entry.path = name := by
    obtain ⟨_, _, _, _, _, rfl⟩ := recorded
    rfl
  funext kind
  cases kind with
  | file => rw [← recorded_paths file filesNamed, recorded_paths file filesNamed']
  | directory => rw [← recorded_paths directory directoriesNamed, recorded_paths directory directoriesNamed']

def namesOf (done : List (OutputKind × Bytes)) (kind : OutputKind) : List Bytes :=
  done.filterMap fun output => if output.1 = kind then some output.2 else none

theorem namesOf_append (done more : List (OutputKind × Bytes)) (kind : OutputKind) :
    namesOf (done ++ more) kind = namesOf done kind ++ namesOf more kind := List.filterMap_append

-- An entry that is given an empty name is dropped.
def adds (existing : OutputKind → Bytes → Bool) (workingDirectory : Bytes) (kind : OutputKind) (name : Bytes) :
    List (OutputKind × Bytes) :=
  if existing kind (location workingDirectory name) ∧ name ≠ [] then [(kind, name)] else []

theorem adds_nothing {kind : OutputKind} {name : Bytes}
    (missing : ¬existing kind (location workingDirectory name) = true) :
    adds existing workingDirectory kind name = [] := if_neg fun holds => missing holds.1

theorem cString_location (name : Bytes) : cString (location workingDirectory name) = location workingDirectory name :=
  cString_of_nulFree (normalizePath_nulFree _)

def captureAndAddToResult {Entry : Type} (path : Entry → Bytes) (renamed : Entry → Entry)
    (add : Entry → ActionResult → ActionResult) (capture : EStateM Exn σ Entry) : EStateM Exn (Capturing σ) Unit := do
  let entry ← onWorld do
    let entry ← capture
    return if path entry ≠ [] then renamed entry else entry
  if path entry ≠ [] then modify fun s => { s with result := add entry s.result }

theorem captureAndAddToResult_run {Entry : Type} {path : Entry → Bytes} {renamed : Entry → Entry}
    {add : Entry → ActionResult → ActionResult} {capture : EStateM Exn σ Entry} {name : Bytes}
    (named : ∀ entry, path (renamed entry) = name) {s : Capturing σ} {entry : Entry} {world : σ}
    (returned : capture s.world = .ok entry world) :
    captureAndAddToResult path renamed add capture s = .ok ⟨⟩
      (if path entry ≠ [] ∧ name ≠ [] then ⟨world, add (renamed entry) s.result⟩ else { s with world := world }) := by
  have captured : (onWorld do
      let entry ← capture
      return if path entry ≠ [] then renamed entry else entry) s =
        .ok (if path entry ≠ [] then renamed entry else entry) { s with world := world } := by
    simp only [onWorld, bind_ok _ returned]
    rfl
  unfold captureAndAddToResult
  rw [bind_ok _ captured]
  by_cases found : path entry ≠ []
  next =>
    rw [if_pos found, named]
    by_cases kept : name ≠ []
    next =>
      rw [if_pos kept, if_pos ⟨found, kept⟩]
      rfl
    next =>
      rw [if_neg kept, if_neg fun both => kept both.2]
      rfl
  next =>
    rw [if_neg found, if_neg found, if_neg fun both => found both.1]
    rfl

theorem captureFileAndAddToResult_run {name : Bytes} {s : Capturing σ} {outputFile : OutputFile} {world : σ}
    (returned : captureFileFunction (location workingDirectory name) s.world = .ok outputFile world) :
    captureFileAndAddToResult captureFileFunction name (location workingDirectory name) s =
      .ok ⟨⟩ (if outputFile.path ≠ [] ∧ name ≠ [] then
        ⟨world, { s.result with outputFiles := s.result.outputFiles ++ [{ outputFile with path := name }] }⟩
      else { s with world := world }) := by
  rw [← cString_location] at returned
  exact @captureAndAddToResult_run σ OutputFile OutputFile.path (fun entry => { entry with path := name })
    (fun entry result => { result with outputFiles := result.outputFiles ++ [entry] }) _ name
      (fun _ => rfl) s _ _ returned

theorem captureDirectoryAndAddToResult_run {name : Bytes} {s : Capturing σ} {outputDirectory : OutputDirectory}
    {world : σ}
    (returned : captureDirectoryFunction (location workingDirectory name) s.world = .ok outputDirectory world) :
    captureDirectoryAndAddToResult captureDirectoryFunction name (location workingDirectory name) s =
      .ok ⟨⟩ (if outputDirectory.path ≠ [] ∧ name ≠ [] then
        ⟨world, { s.result with
          outputDirectories := s.result.outputDirectories ++ [{ outputDirectory with path := name }] }⟩
      else { s with world := world }) := by
  rw [← cString_location] at returned
  exact @captureAndAddToResult_run σ OutputDirectory OutputDirectory.path (fun entry => { entry with path := name })
    (fun entry result => { result with outputDirectories := result.outputDirectories ++ [entry] }) _ name (fun _ => rfl)
    s _ _ returned

def Recording (still : σ → Prop) (captureFileFunction : CaptureFileCallback σ)
    (captureDirectoryFunction : CaptureDirectoryCallback σ) (workingDirectory : Bytes) (before : ActionResult)
    (done : List (OutputKind × Bytes)) (s : Capturing σ) : Prop :=
  still s.world ∧
    Added still captureFileFunction captureDirectoryFunction workingDirectory (namesOf done) before s.result

variable {before : ActionResult}

theorem captureFileAndAddToResult_adds {name : Bytes}
    (captures : CapturesFile still existing captureFileFunction (location workingDirectory name))
      (done : List (OutputKind × Bytes)) :
    Runs (Recording still captureFileFunction captureDirectoryFunction workingDirectory before done)
      (captureFileAndAddToResult captureFileFunction name (location workingDirectory name))
      (fun _ => Recording still captureFileFunction captureDirectoryFunction workingDirectory before
        (done ++ adds existing workingDirectory .file name)) fun _ => False := by
  rintro ⟨world, result⟩ ⟨start, files, directories, rfl, filesNamed, directoriesNamed⟩
  obtain ⟨outputFile, world', returned, after, found⟩ := captures world start
  rw [captureFileAndAddToResult_run returned]
  unfold adds
  by_cases kept : outputFile.path ≠ [] ∧ name ≠ []
  next =>
    rw [if_pos kept, if_pos ⟨found.mp kept.1, kept.2⟩]
    refine ⟨after, files ++ [{ outputFile with path := name }], directories, by simp, ?_, ?_⟩
    next =>
      rw [namesOf_append]
      exact List.rel_append filesNamed (.cons ⟨world, outputFile, world', start, returned, rfl⟩ .nil)
    next =>
      rw [namesOf_append]
      simpa [namesOf] using directoriesNamed
  next =>
    rw [if_neg kept, if_neg fun holds => kept ⟨found.mpr holds.1, holds.2⟩, List.append_nil]
    exact ⟨after, files, directories, rfl, filesNamed, directoriesNamed⟩

theorem captureDirectoryAndAddToResult_adds {name : Bytes}
    (captures : CapturesDirectory still existing captureDirectoryFunction (location workingDirectory name))
      (done : List (OutputKind × Bytes)) :
    Runs (Recording still captureFileFunction captureDirectoryFunction workingDirectory before done)
      (captureDirectoryAndAddToResult captureDirectoryFunction name (location workingDirectory name))
      (fun _ => Recording still captureFileFunction captureDirectoryFunction workingDirectory before
        (done ++ adds existing workingDirectory .directory name)) fun _ => False := by
  rintro ⟨world, result⟩ ⟨start, files, directories, rfl, filesNamed, directoriesNamed⟩
  obtain ⟨outputDirectory, world', returned, after, found⟩ := captures world start
  rw [captureDirectoryAndAddToResult_run returned]
  unfold adds
  by_cases kept : outputDirectory.path ≠ [] ∧ name ≠ []
  next =>
    rw [if_pos kept, if_pos ⟨found.mp kept.1, kept.2⟩]
    refine ⟨after, files, directories ++ [{ outputDirectory with path := name }], by simp, ?_, ?_⟩
    next =>
      rw [namesOf_append]
      simpa [namesOf] using filesNamed
    next =>
      rw [namesOf_append]
      exact List.rel_append directoriesNamed (.cons ⟨world, outputDirectory, world', start, returned, rfl⟩ .nil)
  next =>
    rw [if_neg kept, if_neg fun holds => kept ⟨found.mpr holds.1, holds.2⟩, List.append_nil]
    exact ⟨after, files, directories, rfl, filesNamed, directoriesNamed⟩

section OutputPath

variable {dPath name : Bytes} {lstat : σ → Bytes → Except Nat Nat} {status : Bytes → Except Nat Nat} {command : Command}
  (absolute : dPath.head? = some slash)
  (examined : Examined still existing dPath lstat status command workingDirectory) (member : name ∈ command.outputPaths)

include absolute examined member

theorem captureOutputPath_adds
    (captures : CapturesExisting still existing captureFileFunction captureDirectoryFunction command workingDirectory)
    (within : pathInInputRoot name workingDirectory = .ok (location workingDirectory name))
    (admitted : Admitted (status (location workingDirectory name))) (done : List (OutputKind × Bytes)) :
    Runs (Recording still captureFileFunction captureDirectoryFunction workingDirectory before done)
      (captureOutputPath dPath lstat captureFileFunction captureDirectoryFunction workingDirectory name)
      (fun _ => Recording still captureFileFunction captureDirectoryFunction workingDirectory before
        (done ++ (adds existing workingDirectory .file name ++ adds existing workingDirectory .directory name)))
      fun _ => False := by
  obtain ⟨absolutePath, made⟩ := makePathAbsolute_total absolute (location workingDirectory name)
  unfold captureOutputPath
  rw [within, liftExcept_ok, pure_bind, made, liftExcept_ok, pure_bind]
  refine Runs.get fun s recording => ?_
  have answer := examined.answers name member s.world recording.1 absolutePath made
  have existing_iff := examined.existing_iff name member
  have active (kind : OutputKind) : name ∈ activeOutputs command kind := by
    unfold activeOutputs
    rwa [if_pos (List.ne_nil_of_mem member)]
  cases found : status (location workingDirectory name) with
  | error errno =>
    rw [found] at admitted answer
    have stat : getStatMode (lstat s.world) absolutePath = .ok none := by
      simp [getStatMode, answer, show errno = enoent from admitted]
    have nothing (kind : OutputKind) : adds existing workingDirectory kind name = [] :=
      adds_nothing (by simp [existing_iff, found, Except.toOption])
    rw [stat, liftExcept_ok, pure_bind, nothing, nothing, List.append_nil, List.append_nil]
    exact .pure fun s' same => same ▸ recording
  | ok stMode =>
    rw [found] at admitted answer
    have stat : getStatMode (lstat s.world) absolutePath = .ok (some stMode) := by
      simp [getStatMode, answer]
    obtain ⟨kind, known⟩ := Option.ne_none_iff_exists'.mp admitted
    have other (other : OutputKind) (different : other ≠ kind) : adds existing workingDirectory other name = [] :=
      adds_nothing (by simp [existing_iff, found, known, different.symm, Except.toOption])
    rw [stat, liftExcept_ok, pure_bind]
    unfold kindOf at known
    split_ifs at known with directory regular
    next =>
      obtain rfl := Option.some.inj known
      simp only [directory, if_true]
      rw [other .file (by simp), List.nil_append]
      exact (captureDirectoryAndAddToResult_adds (captures.directory name (active .directory)) done).starting recording
    next =>
      obtain rfl := Option.some.inj known
      simp only [directory, regular, if_true]
      rw [other .directory (by simp), List.append_nil]
      exact (captureFileAndAddToResult_adds (captures.file name (active .file)) done).starting recording

theorem captureOutputPath_fails
    (within : pathInInputRoot name workingDirectory = .ok (location workingDirectory name))
    (refused : ¬Admitted (status (location workingDirectory name))) {s s' : Capturing σ} (start : still s.world) :
    captureOutputPath dPath lstat captureFileFunction captureDirectoryFunction workingDirectory name s ≠ .ok ⟨⟩ s' := by
  obtain ⟨absolutePath, made⟩ := makePathAbsolute_total absolute (location workingDirectory name)
  unfold captureOutputPath
  rw [within, liftExcept_ok, pure_bind, made, liftExcept_ok, pure_bind, get_bind, getStatMode,
    examined.answers name member s.world start absolutePath made]
  cases found : status (location workingDirectory name) with
  | error errno =>
    rw [found] at refused
    have other : errno ≠ enoent := refused
    simp only [other, if_false, liftExcept_error]
    rw [bind_error _ (throw_apply _ _)]
    simp
  | ok stMode =>
    rw [found] at refused
    have special : kindOf stMode = none := not_not.mp refused
    rw [liftExcept_ok, pure_bind]
    unfold kindOf at special
    split_ifs at special with directory regular
    simp [directory, regular]

end OutputPath

end Recording

section Outputs

variable {still : σ → Prop} {existing : OutputKind → Bytes → Bool} {captureFileFunction : CaptureFileCallback σ}
  {captureDirectoryFunction : CaptureDirectoryCallback σ} {workingDirectory dPath : Bytes}
  {lstat : σ → Bytes → Except Nat Nat} {status : Bytes → Except Nat Nat} {command : Command}

def Complete (still : σ → Prop) (dPath : Bytes) (lstat : σ → Bytes → Except Nat Nat) (command : Command)
    (captureFileFunction : CaptureFileCallback σ) (captureDirectoryFunction : CaptureDirectoryCallback σ)
    (existing : OutputKind → Bytes → Bool) (workingDirectory : Bytes) (world : σ) (result : ActionResult) : Prop :=
  ∃ s', captureAllOutputs dPath lstat command captureFileFunction captureDirectoryFunction ⟨world, result⟩ = .ok ⟨⟩ s' ∧
    Added still captureFileFunction captureDirectoryFunction workingDirectory
      (existingOutputs existing command workingDirectory) result s'.result

structure Capturable (existing : OutputKind → Bytes → Bool) (status : Bytes → Except Nat Nat) (command : Command)
    (workingDirectory : Bytes) : Prop where
  named : ∀ kind, [] ∉ existingOutputs existing command workingDirectory kind
  admitted : ∀ name ∈ command.outputPaths, Admitted (status (location workingDirectory name))

theorem ValidOutputs.path (valid : ValidOutputs command workingDirectory) {name : Bytes}
    (declared : name ∈ declaredOutputs command) :
    pathInInputRoot name workingDirectory = .ok (location workingDirectory name) := by
  have within := valid.within name declared
  cases returned : pathInInputRoot name workingDirectory with
  | error thrown => simp [returned, Except.isOk, Except.toBool] at within
  | ok path => rw [pathInInputRoot_eq returned, location]

def recordedOutputs (existing : OutputKind → Bytes → Bool) (command : Command) (workingDirectory : Bytes) :
    List (OutputKind × Bytes) :=
  if command.outputPaths ≠ [] then
    command.outputPaths.flatMap fun name =>
      adds existing workingDirectory .file name ++ adds existing workingDirectory .directory name
  else
    command.outputFiles.flatMap (adds existing workingDirectory .file) ++
      command.outputDirectories.flatMap (adds existing workingDirectory .directory)

theorem namesOf_flatMap (names : List Bytes) (gains : Bytes → List (OutputKind × Bytes)) (kind : OutputKind) :
    namesOf (names.flatMap gains) kind = names.flatMap fun name => namesOf (gains name) kind := List.filterMap_flatMap

theorem namesOf_adds (other kind : OutputKind) (name : Bytes) :
    namesOf (adds existing workingDirectory other name) kind =
      if other = kind ∧ existing kind (location workingDirectory name) ∧ name ≠ [] then [name] else [] := by
  unfold adds
  by_cases same : other = kind
  next =>
    subst same
    split_ifs with kept <;> simp_all [namesOf]
  next => split_ifs <;> simp_all [namesOf]

theorem flatMap_if_eq_filter (kept : Bytes → Bool) (names : List Bytes) :
    (names.flatMap fun name => if kept name then [name] else []) = names.filter kept := by
  induction names with
  | nil => rfl
  | cons name names ih =>
    rw [List.flatMap_cons, List.filter_cons, ih]
    split <;> simp

theorem namesOf_recorded (kind : OutputKind) :
    namesOf (recordedOutputs existing command workingDirectory) kind =
      (existingOutputs existing command workingDirectory kind).filter (· ≠ []) := by
  have kept (names : List Bytes) :
      (names.flatMap fun name =>
        if existing kind (location workingDirectory name) ∧ name ≠ [] then [name] else []) =
        (names.filter fun name => existing kind (location workingDirectory name)).filter (· ≠ []) := by
    rw [List.filter_filter, ← flatMap_if_eq_filter]
    simp [and_comm]
  unfold recordedOutputs existingOutputs activeOutputs
  split
  next =>
    rw [namesOf_flatMap, ← kept]
    cases kind <;> simp [namesOf_append, namesOf_adds]
  next =>
    have none (names : List Bytes) : names.flatMap (fun _ => ([] : List Bytes)) = [] := by simp
    rw [namesOf_append, namesOf_flatMap, namesOf_flatMap, ← kept]
    cases kind <;> simp [namesOf_adds, none]

section Runs

variable
  (captures : CapturesExisting still existing captureFileFunction captureDirectoryFunction command workingDirectory)
  (absolute : dPath.head? = some slash)
  (examined : command.outputPaths ≠ [] → Examined still existing dPath lstat status command workingDirectory)
  (valid : ValidOutputs command workingDirectory)

include captures absolute examined valid

theorem captureAllOutputs_records {before : ActionResult}
    (admitted : ∀ name ∈ command.outputPaths, Admitted (status (location workingDirectory name))) :
    Runs (Recording still captureFileFunction captureDirectoryFunction workingDirectory before [])
      (captureAllOutputs dPath lstat command captureFileFunction captureDirectoryFunction)
      (fun _ => Recording still captureFileFunction captureDirectoryFunction workingDirectory before
        (recordedOutputs existing command workingDirectory)) fun _ => False := by
  unfold captureAllOutputs recordedOutputs
  rw [valid.started, liftExcept_ok, pure_bind]
  split
  next paths =>
    have present : command.outputPaths ≠ [] := List.ne_nil_of_length_pos paths
    rw [if_pos present]
    have declared : declaredOutputs command = command.outputPaths := if_pos present
    refine Runs.forM_progress (fun name member done => ?_) []
    have within := valid.path (declared ▸ member)
    exact captureOutputPath_adds absolute (examined present) member captures within (admitted name member) done
  next none =>
    have paths : command.outputPaths = [] := by simpa using none
    have declared : declaredOutputs command = command.outputFiles ++ command.outputDirectories := by
      simp [declaredOutputs, paths]
    rw [if_neg (by simp [paths])]
    have files : ∀ name ∈ command.outputFiles, ∀ done,
        Runs (Recording still captureFileFunction captureDirectoryFunction workingDirectory before done)
          (liftExcept (pathInInputRoot name workingDirectory) >>= captureFileAndAddToResult captureFileFunction name)
          (fun _ => Recording still captureFileFunction captureDirectoryFunction workingDirectory before
            (done ++ adds existing workingDirectory .file name)) fun _ => False := by
      intro name member done
      rw [valid.path (by simp [declared, member]), liftExcept_ok, pure_bind]
      exact captureFileAndAddToResult_adds (captures.file name (by simpa [activeOutputs, paths] using member)) done
    refine (Runs.forM_progress files []).bind fun _ => Runs.forM_progress (fun name member done => ?_) _
    rw [valid.path (by simp [declared, member]), liftExcept_ok, pure_bind]
    exact captureDirectoryAndAddToResult_adds
      (captures.directory name (by simpa [activeOutputs, paths] using member)) done

theorem admitted_of_returned {s s' : Capturing σ} (start : still s.world)
    (run : captureAllOutputs dPath lstat command captureFileFunction captureDirectoryFunction s = .ok ⟨⟩ s') :
    ∀ name ∈ command.outputPaths, Admitted (status (location workingDirectory name)) := by
  intro name member
  have present : command.outputPaths ≠ [] := List.ne_nil_of_mem member
  have declared : declaredOutputs command = command.outputPaths := if_pos present
  unfold captureAllOutputs at run
  rw [valid.started, liftExcept_ok, pure_bind, if_pos (List.length_pos_iff.mpr present)] at run
  have each : ∀ name ∈ command.outputPaths, Admitted (status (location workingDirectory name)) →
      Runs (fun s : Capturing σ => still s.world)
        (captureOutputPath dPath lstat captureFileFunction captureDirectoryFunction workingDirectory name)
        (fun _ s => still s.world) fun _ => False := by
    intro name member admitted s held
    have recording : Recording still captureFileFunction captureDirectoryFunction workingDirectory s.result [] s :=
      ⟨held, .nothing s.result⟩
    have within := valid.path (declared ▸ member)
    have adds :=
      (captureOutputPath_adds absolute (examined present) member captures within admitted []).starting recording
    exact adds.mono (fun _ => id) (fun _ _ recording => recording.1) s rfl
  refine of_forM_ok each (fun name member refused s s' held => ?_) start run name member
  exact captureOutputPath_fails absolute (examined present) member (valid.path (declared ▸ member)) refused held

theorem captureAllOutputs_complete_iff {world : σ} (start : still world) (result : ActionResult) :
    Complete still dPath lstat command captureFileFunction captureDirectoryFunction existing workingDirectory world
      result ↔ Capturable existing status command workingDirectory := by
  constructor
  next =>
    rintro ⟨s', run, added⟩
    have admitted := admitted_of_returned captures absolute examined valid (by exact start) run
    refine ⟨fun kind unnamed => ?_, admitted⟩
    have recorded :=
      captureAllOutputs_records captures absolute examined valid admitted ⟨world, result⟩ ⟨start, .nothing result⟩
    rw [run] at recorded
    have names := congrFun (added.names_eq recorded.2) kind
    rw [names, namesOf_recorded] at unnamed
    simp at unnamed
  next =>
    rintro ⟨named, admitted⟩
    have recorded :=
      captureAllOutputs_records captures absolute examined valid admitted ⟨world, result⟩ ⟨start, .nothing result⟩
    cases run : captureAllOutputs dPath lstat command captureFileFunction captureDirectoryFunction ⟨world, result⟩ with
    | error thrown s' => simp [run] at recorded
    | ok _ s' =>
      rw [run] at recorded
      refine ⟨s', run, ?_⟩
      have names : namesOf (recordedOutputs existing command workingDirectory) =
          existingOutputs existing command workingDirectory := by
        funext kind
        rw [namesOf_recorded, List.filter_eq_self]
        intro name member
        have : name ≠ [] := fun unnamed => named kind (unnamed ▸ member)
        simpa using this
      exact names ▸ recorded.2

end Runs

end Outputs

section Samples

def compileInSrc : Command := ⟨text "src", [], [], [text "a.o", text "b.o"], []⟩

def compiled (kind : OutputKind) (path : Bytes) : Bool := kind = .file ∧ path = text "src/a.o"

def captureCompiled : CaptureFileCallback Unit := fun path =>
  pure ⟨if path = text "src/a.o" then path else [], ⟨text "a", 1, []⟩, false, none⟩

def compiledStatus (path : Bytes) : Except Nat Nat :=
  if path = text "src/a.o" then .ok 0o100644 else .error enoent

def compiledLstat (_ : Unit) (absolutePath : Bytes) : Except Nat Nat := compiledStatus (absolutePath.drop 7)

theorem captureAllOutputs_complete_compiled :
    Complete (fun _ => True) (text "/stage") compiledLstat compileInSrc captureCompiled noCapturedDirectory compiled
      (text "src/") () ⟨[], []⟩ := by
  have captures : CapturesExisting (fun _ => True) compiled captureCompiled noCapturedDirectory compileInSrc
    (text "src/") := by
    constructor
    next =>
      intro name member s _
      exact ⟨_, s, rfl, trivial, by revert name; decide⟩
    next =>
      intro name member s _
      exact ⟨_, s, rfl, trivial, by revert name; decide⟩
  have examined : Examined (fun _ => True) compiled (text "/stage") compiledLstat compiledStatus compileInSrc
      (text "src/") := by
    constructor
    next =>
      have answers : ∀ name ∈ compileInSrc.outputPaths,
          (makePathAbsolute (location (text "src/") name) (text "/stage")).toOption.map (compiledLstat () ∘ cString) =
            some (compiledStatus (location (text "src/") name)) := by decide
      intro name member s _ absolutePath made
      have answer := answers name member
      rw [made] at answer
      exact Option.some.inj answer
    next =>
      intro name member kind
      revert name
      cases kind <;> decide
  have valid : ValidOutputs compileInSrc (text "src/") := ⟨by decide, by decide⟩
  exact (captureAllOutputs_complete_iff captures (by decide) (fun _ => examined) valid trivial ⟨[], []⟩).mpr
    ⟨fun kind => by cases kind <;> decide, by decide⟩

def wholeWorkingDirectory : Command := ⟨text "src", [], [[]], [], []⟩

def onlyDirectories (kind : OutputKind) (_ : Bytes) : Bool := kind = .directory

def captureAnyDirectory : CaptureDirectoryCallback Unit := fun path => pure ⟨path, ⟨text "d", 1, []⟩⟩

theorem captureAllOutputs_drops_unnamed :
    CapturesExisting (fun _ => True) onlyDirectories noCapturedFile captureAnyDirectory wholeWorkingDirectory
      (text "src/") ∧
      ValidOutputs wholeWorkingDirectory (text "src/") ∧
      ¬Complete (fun _ => True) (text "/stage") (fun _ _ => .error enoent) wholeWorkingDirectory noCapturedFile
        captureAnyDirectory onlyDirectories (text "src/") () ⟨[], []⟩ := by
  refine ⟨⟨by simp [activeOutputs, wholeWorkingDirectory], ?_⟩, ⟨by decide, by decide⟩, ?_⟩
  next =>
    intro name member s _
    exact ⟨_, s, rfl, trivial, by revert name; decide⟩
  next =>
    rintro ⟨s', run, files, directories, same, -, recorded⟩
    have returned : captureAllOutputs (text "/stage") (fun _ _ => .error enoent) wholeWorkingDirectory noCapturedFile
        captureAnyDirectory ⟨(), ⟨[], []⟩⟩ = .ok ⟨⟩ ⟨(), ⟨[], []⟩⟩ := by rfl
    rw [returned] at run
    cases run
    have unnamed : existingOutputs onlyDirectories wholeWorkingDirectory (text "src/") .directory = [[]] := by decide
    rw [unnamed, (List.append_cancel_left_eq _ _ _).mp (congrArg ActionResult.outputDirectories same).symm] at recorded
    cases recorded

end Samples

end BuildboxCommon.StagedDirectory
