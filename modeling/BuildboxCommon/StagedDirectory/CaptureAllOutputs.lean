import BuildboxCommon.FileUtils.MakePathAbsolute
import BuildboxCommon.Posix
import BuildboxCommon.Protos
import BuildboxCommon.Shared.Effect

set_option autoImplicit false

namespace BuildboxCommon.StagedDirectory

open ByteString Effect FileUtils LexicalPath Posix

variable {σ : Type}

-- The caller's `ActionResult` keeps what was added to it even if an exception follows.
structure Capturing (σ : Type) where
  world : σ
  result : ActionResult

def onWorld {α : Type} (program : EStateM Exn σ α) : EStateM Exn (Capturing σ) α := fun s =>
  match program s.world with
  | .ok a world => .ok a { s with world := world }
  | .error thrown world => .error thrown { s with world := world }

abbrev CaptureFileCallback (σ : Type) := Bytes → EStateM Exn σ OutputFile
abbrev CaptureDirectoryCallback (σ : Type) := Bytes → EStateM Exn σ OutputDirectory

def getWorkingDirectory (command : Command) : Except Exn Bytes :=
  if command.workingDirectory = [] then .ok []
  else
    let workingDirectory := normalizePath command.workingDirectory ++ [slash]
    if workingDirectory.head? = some slash then
      .error (.invalidArgument
        (text "`working_directory` path in `Command` must be relative. It is \"" ++
          workingDirectory ++ text "\""))
    else if workingDirectory.take 3 = dotdot ++ [slash] then
      .error (.invalidArgument
        (text "The `working_directory` path in `Command` is outside of input root \"" ++
          workingDirectory ++ text "\""))
    else .ok workingDirectory

def assertNoInvalidSlashes (path : Bytes) : Except Exn Unit :=
  if path ≠ [] ∧ (path.head? = some slash ∨ path.getLast? = some slash) then
    .error (.invalidArgument
      (text "Output path in `Command` has leading or trailing slashes: \"" ++ path ++ text "\""))
  else .ok ()

def assertPathInsideInputRoot (pathFromRoot : Bytes) : Except Exn Unit :=
  if pathFromRoot = dotdot ∨ pathFromRoot.take 3 = dotdot ++ [slash] then
    .error (.invalidArgument
      (text "Output path in `Command` is outside of the input root: \"" ++ pathFromRoot ++ text "\""))
  else .ok ()

def pathInInputRoot (name workingDirectory : Bytes) : Except Exn Bytes := do
  assertNoInvalidSlashes name
  let res := normalizePath (workingDirectory ++ name)
  assertPathInsideInputRoot res
  return res

def getStatMode (lstat : Bytes → Except Nat Nat) (path : Bytes) : Except Exn (Option Nat) :=
  match lstat (cString path) with
  | .ok stMode => .ok (some stMode)
  | .error errno =>
    if errno = enoent then .ok none
    else .error (.systemError errno (text "Error opening \"" ++ path ++ text "\""))

def captureFile (name pathInInputRoot : Bytes) (captureFileFunction : CaptureFileCallback σ) :
    EStateM Exn σ OutputFile := do
  let outputFile ← captureFileFunction (cString pathInInputRoot)
  return if outputFile.path ≠ [] then { outputFile with path := name } else outputFile

def captureDirectory (name pathInInputRoot : Bytes)
    (captureDirectoryFunction : CaptureDirectoryCallback σ) : EStateM Exn σ OutputDirectory := do
  let outputDirectory ← captureDirectoryFunction (cString pathInInputRoot)
  return if outputDirectory.path ≠ [] then { outputDirectory with path := name } else outputDirectory

def captureFileAndAddToResult (captureFileFunction : CaptureFileCallback σ)
    (name pathInInputRoot : Bytes) : EStateM Exn (Capturing σ) Unit := do
  let outputFile ← onWorld (captureFile name pathInInputRoot captureFileFunction)
  if outputFile.path ≠ [] then
    modify fun s => { s with
      result := { s.result with outputFiles := s.result.outputFiles ++ [outputFile] } }

def captureDirectoryAndAddToResult (captureDirectoryFunction : CaptureDirectoryCallback σ)
    (name pathInInputRoot : Bytes) : EStateM Exn (Capturing σ) Unit := do
  let outputDirectory ← onWorld (captureDirectory name pathInInputRoot captureDirectoryFunction)
  if outputDirectory.path ≠ [] then
    modify fun s => { s with
      result := { s.result with outputDirectories := s.result.outputDirectories ++ [outputDirectory] } }

def captureOutputPath (dPath : Bytes) (lstat : σ → Bytes → Except Nat Nat)
    (captureFileFunction : CaptureFileCallback σ)
    (captureDirectoryFunction : CaptureDirectoryCallback σ) (workingDirectory outputPath : Bytes) :
    EStateM Exn (Capturing σ) Unit := do
  let relativePath ← liftExcept (pathInInputRoot outputPath workingDirectory)
  let absolutePath ← liftExcept (makePathAbsolute relativePath dPath)
  let s ← get
  match ← liftExcept (getStatMode (lstat s.world) absolutePath) with
  | none => pure ()
  | some stMode =>
    if sIsDir stMode then
      captureDirectoryAndAddToResult captureDirectoryFunction outputPath relativePath
    else if sIsReg stMode then
      captureFileAndAddToResult captureFileFunction outputPath relativePath
    else
      throw (.invalidArgument (text "Output path \"" ++ relativePath ++
        text "\" is not a file or directory: st_mode == " ++ text (toString stMode)))

def captureAllOutputs (dPath : Bytes) (lstat : σ → Bytes → Except Nat Nat) (command : Command)
    (captureFileFunction : CaptureFileCallback σ)
    (captureDirectoryFunction : CaptureDirectoryCallback σ) : EStateM Exn (Capturing σ) Unit := do
  let workingDirectory ← liftExcept (getWorkingDirectory command)
  if command.outputPaths.length > 0 then
    forM command.outputPaths
      (captureOutputPath dPath lstat captureFileFunction captureDirectoryFunction workingDirectory)
  else
    forM command.outputFiles fun outputFile => do
      let path ← liftExcept (pathInInputRoot outputFile workingDirectory)
      captureFileAndAddToResult captureFileFunction outputFile path
    forM command.outputDirectories fun outputDirectory => do
      let path ← liftExcept (pathInInputRoot outputDirectory workingDirectory)
      captureDirectoryAndAddToResult captureDirectoryFunction outputDirectory path

inductive OutputKind where
  | file
  | directory
deriving DecidableEq

structure Call where
  kind : OutputKind
  path : Bytes
deriving DecidableEq

-- `output_paths` supersedes the other two fields and may declare either kind of output.
def activeOutputs (command : Command) (kind : OutputKind) : List Bytes :=
  if command.outputPaths ≠ [] then command.outputPaths
  else match kind with
    | .file => command.outputFiles
    | .directory => command.outputDirectories

def fromWorkingDirectory (workingDirectory name : Bytes) : Bytes :=
  if workingDirectory = [] then name else workingDirectory ++ slash :: name

structure Admissible (command : Command) (call : Call) : Prop where
  declared : ∃ name ∈ activeOutputs command call.kind,
    call.path = normalizePath (fromWorkingDirectory command.workingDirectory name)
  normalised : normalizePath call.path = call.path
  relative : isGlobal call.path = false
  ne_dotdot : call.path ≠ dotdot
  not_above : ¬dotdot ++ [slash] <+: call.path

structure NulFreeCommand (command : Command) : Prop where
  workingDirectory : NulFree command.workingDirectory
  outputFiles : ∀ name ∈ command.outputFiles, NulFree name
  outputDirectories : ∀ name ∈ command.outputDirectories, NulFree name
  outputPaths : ∀ name ∈ command.outputPaths, NulFree name

def IsInvalidArgument (thrown : Exn) : Prop := ∃ what, thrown = .invalidArgument what

def InvalidSlashes (name : Bytes) : Prop :=
  name.head? = some slash ∨ name.getLast? = some slash

def WorkingDirectoryOutside (workingDirectory : Bytes) : Prop :=
  isGlobal workingDirectory = true ∨ Leaves (steps workingDirectory)

def OutputOutside (workingDirectory name : Bytes) : Prop :=
  InvalidSlashes name ∨ Leaves (steps (fromWorkingDirectory workingDirectory name))

theorem take_three_iff (path : Bytes) :
    path.take 3 = dotdot ++ [slash] ↔ dotdot ++ [slash] <+: path := by
  rw [List.prefix_iff_eq_take]
  exact eq_comm

theorem leaves_steps_iff {path : Bytes} (free : NulFree path) (relative : isGlobal path = false) :
    Leaves (steps path) ↔ 0 < (normalForm path).ups := by
  have displaced := displacement_normalForm (show isGlobal (cString path) = false by rwa [cString_of_nulFree free])
  rw [leaves_iff, ← cString_of_nulFree free, ← displaced, cString_of_nulFree free]
  rfl

theorem slash_appended_leads_iff (n : NormalPath) :
    (n.render ++ [slash]).take 3 = dotdot ++ [slash] ↔ 0 < n.ups := by
  rw [take_three_iff, List.prefix_concat_iff, ← leadsUp_iff]
  simp [eq_comm]

theorem head_slash_iff (path : Bytes) : path.head? = some slash ↔ isGlobal path = true := by
  simp [isGlobal]

theorem getWorkingDirectory_error {command : Command} (free : NulFree command.workingDirectory)
    (outside : WorkingDirectoryOutside command.workingDirectory) :
    ∃ thrown, getWorkingDirectory command = .error thrown ∧ IsInvalidArgument thrown := by
  have present : command.workingDirectory ≠ [] := by
    intro empty
    rw [WorkingDirectoryOutside, empty, leaves_iff] at outside
    revert outside
    decide
  have absolute : (normalizePath command.workingDirectory ++ [slash]).head? = some slash ↔
      isGlobal command.workingDirectory = true := by
    rw [head_slash_iff, normalizePath_eq_render, isGlobal_join, normalForm_absolute,
      cString_of_nulFree free]
  by_cases global : isGlobal command.workingDirectory = true
  next =>
    rw [getWorkingDirectory, if_neg present]
    dsimp only
    rw [if_pos (absolute.mpr global)]
    exact ⟨_, rfl, _, rfl⟩
  next =>
    have leaves := outside.resolve_left global
    rw [leaves_steps_iff free (by simpa using global), ← slash_appended_leads_iff,
      ← normalizePath_eq_render] at leaves
    rw [getWorkingDirectory, if_neg present]
    dsimp only
    rw [if_neg (mt absolute.mp global), if_pos leaves]
    exact ⟨_, rfl, _, rfl⟩

def workingDirectoryPrefix (workingDirectory : Bytes) : Bytes :=
  if workingDirectory = [] then [] else normalizePath workingDirectory ++ [slash]

theorem getWorkingDirectory_ok {command : Command} (free : NulFree command.workingDirectory)
    (inside : ¬WorkingDirectoryOutside command.workingDirectory) :
    getWorkingDirectory command = .ok (workingDirectoryPrefix command.workingDirectory) := by
  rw [WorkingDirectoryOutside, not_or, Bool.not_eq_true] at inside
  obtain ⟨relative, stays⟩ := inside
  rw [leaves_steps_iff free relative, ← slash_appended_leads_iff, ← normalizePath_eq_render] at stays
  have absolute : ¬(normalizePath command.workingDirectory ++ [slash]).head? = some slash := by
    rw [head_slash_iff, normalizePath_eq_render, isGlobal_join, normalForm_absolute,
      cString_of_nulFree free, relative]
    simp
  simp only [getWorkingDirectory, workingDirectoryPrefix, absolute, stays, if_false]
  split <;> rfl

theorem fromWorkingDirectory_nulFree {workingDirectory name : Bytes} (free : NulFree workingDirectory)
    (named : NulFree name) : NulFree (fromWorkingDirectory workingDirectory name) := by
  unfold fromWorkingDirectory
  split
  next => exact named
  next =>
    rw [← List.singleton_append, nulFree_append, nulFree_append]
    exact ⟨free, by decide, named⟩

theorem normalForm_prefixed {workingDirectory name : Bytes} (free : NulFree workingDirectory)
    (relative : isGlobal workingDirectory = false) (named : NulFree name) :
    normalForm (workingDirectoryPrefix workingDirectory ++ name) =
      normalForm (fromWorkingDirectory workingDirectory name) := by
  unfold workingDirectoryPrefix fromWorkingDirectory
  split
  next => rfl
  next present =>
    rw [List.append_assoc, List.singleton_append]
    exact normalForm_join relative present free named

theorem fromWorkingDirectory_relative {workingDirectory name : Bytes}
    (relative : isGlobal workingDirectory = false) (slashes : ¬InvalidSlashes name) :
    isGlobal (fromWorkingDirectory workingDirectory name) = false := by
  unfold fromWorkingDirectory
  split
  next =>
    rw [InvalidSlashes, not_or, head_slash_iff] at slashes
    simpa using slashes.1
  next present =>
    obtain ⟨byte, bytes, rfl⟩ := List.exists_cons_of_ne_nil present
    exact relative

section PathInInputRoot

variable {workingDirectory name : Bytes} (free : NulFree workingDirectory)
  (inside : ¬WorkingDirectoryOutside workingDirectory) (named : NulFree name)

include free inside named

theorem assertPathInsideInputRoot_iff (slashes : ¬InvalidSlashes name) :
    (normalizePath (workingDirectoryPrefix workingDirectory ++ name) = dotdot ∨
      (normalizePath (workingDirectoryPrefix workingDirectory ++ name)).take 3 = dotdot ++ [slash]) ↔
      Leaves (steps (fromWorkingDirectory workingDirectory name)) := by
  have relative : isGlobal workingDirectory = false := by
    rw [WorkingDirectoryOutside, not_or, Bool.not_eq_true] at inside
    exact inside.1
  rw [leaves_steps_iff (fromWorkingDirectory_nulFree free named)
    (fromWorkingDirectory_relative relative slashes), take_three_iff, normalizePath_eq_render,
    normalForm_prefixed free relative named, leadsUp_iff]

theorem pathInInputRoot_error (outside : OutputOutside workingDirectory name) :
    ∃ thrown, pathInInputRoot name (workingDirectoryPrefix workingDirectory) = .error thrown ∧
      IsInvalidArgument thrown := by
  by_cases slashes : InvalidSlashes name
  next =>
    have present : name ≠ [] := by
      rintro rfl
      revert slashes
      simp [InvalidSlashes]
    have checked : name ≠ [] ∧ (name.head? = some slash ∨ name.getLast? = some slash) := ⟨present, slashes⟩
    rw [pathInInputRoot, assertNoInvalidSlashes, if_pos checked]
    exact ⟨_, rfl, _, rfl⟩
  next =>
    have leaves := outside.resolve_left slashes
    rw [← assertPathInsideInputRoot_iff free inside named slashes] at leaves
    have checked : ¬(name ≠ [] ∧ (name.head? = some slash ∨ name.getLast? = some slash)) :=
      fun holds => slashes holds.2
    rw [pathInInputRoot, assertNoInvalidSlashes, if_neg checked]
    simp only [bind, Except.bind, assertPathInsideInputRoot, leaves, if_true]
    exact ⟨_, rfl, _, rfl⟩

theorem pathInInputRoot_ok (within : ¬OutputOutside workingDirectory name) :
    pathInInputRoot name (workingDirectoryPrefix workingDirectory) =
      .ok (normalizePath (fromWorkingDirectory workingDirectory name)) := by
  rw [OutputOutside, not_or] at within
  obtain ⟨slashes, stays⟩ := within
  rw [← assertPathInsideInputRoot_iff free inside named slashes] at stays
  have checked : ¬(name ≠ [] ∧ (name.head? = some slash ∨ name.getLast? = some slash)) :=
    fun holds => slashes holds.2
  have relative : isGlobal workingDirectory = false := by
    rw [WorkingDirectoryOutside, not_or, Bool.not_eq_true] at inside
    exact inside.1
  rw [pathInInputRoot, assertNoInvalidSlashes, if_neg checked]
  simp only [bind, Except.bind, assertPathInsideInputRoot, stays, if_false, pure, Except.pure]
  rw [normalizePath_eq_render, normalForm_prefixed free relative named, ← normalizePath_eq_render]

end PathInInputRoot

theorem normalizePath_nulFree (path : Bytes) : NulFree (normalizePath path) := by
  rw [normalizePath_eq_render, ← NormalPath.cString_render]
  exact cString_nulFree _

theorem admissible_of_active {command : Command} {kind : OutputKind} {name : Bytes}
    (free : NulFree command.workingDirectory)
    (inside : ¬WorkingDirectoryOutside command.workingDirectory)
    (active : name ∈ activeOutputs command kind) (named : NulFree name)
    (within : ¬OutputOutside command.workingDirectory name) :
    Admissible command ⟨kind, normalizePath (fromWorkingDirectory command.workingDirectory name)⟩ := by
  rw [WorkingDirectoryOutside, not_or, Bool.not_eq_true] at inside
  rw [OutputOutside, not_or] at within
  obtain ⟨slashes, stays⟩ := within
  have relative := fromWorkingDirectory_relative inside.1 slashes
  have whole := fromWorkingDirectory_nulFree free named
  rw [leaves_steps_iff whole relative, ← leadsUp_iff, ← normalizePath_eq_render, not_or] at stays
  exact
    { declared := ⟨name, active, rfl⟩
      normalised := normalizePath_normalizePath _
      relative := by
        rw [normalizePath_eq_render, NormalPath.isGlobal_render, normalForm_absolute,
          cString_of_nulFree whole, relative]
      ne_dotdot := stays.1
      not_above := stays.2 }

theorem active_nulFree {command : Command} {kind : OutputKind} {name : Bytes}
    (free : NulFreeCommand command) (active : name ∈ activeOutputs command kind) : NulFree name := by
  unfold activeOutputs at active
  split_ifs at active with paths
  next => exact free.outputPaths name active
  next =>
    cases kind with
    | file => exact free.outputFiles name active
    | directory => exact free.outputDirectories name active

theorem pathInInputRoot_admissible {command : Command} {kind : OutputKind} {name path : Bytes}
    (free : NulFreeCommand command)
    (inside : ¬WorkingDirectoryOutside command.workingDirectory)
    (active : name ∈ activeOutputs command kind)
    (returned : pathInInputRoot name (workingDirectoryPrefix command.workingDirectory) = .ok path) :
    Admissible command ⟨kind, path⟩ := by
  have named := active_nulFree free active
  by_cases outside : OutputOutside command.workingDirectory name
  next =>
    obtain ⟨thrown, raised, -⟩ := pathInInputRoot_error free.workingDirectory inside named outside
    rw [raised] at returned
    contradiction
  next =>
    rw [pathInInputRoot_ok free.workingDirectory inside named outside] at returned
    cases returned
    exact admissible_of_active free.workingDirectory inside active named outside

def Reached (command : Command) (call : Call) : Prop :=
  ∃ name ∈ activeOutputs command call.kind, ∃ workingDirectory, getWorkingDirectory command = .ok workingDirectory ∧
    pathInInputRoot name workingDirectory = .ok call.path

theorem pathInInputRoot_eq {name workingDirectory path : Bytes}
    (returned : pathInInputRoot name workingDirectory = .ok path) :
    path = normalizePath (workingDirectory ++ name) := by
  unfold pathInInputRoot at returned
  cases slashes : assertNoInvalidSlashes name with
  | error thrown => simp [slashes, bind, Except.bind] at returned
  | ok _ =>
    cases inside : assertPathInsideInputRoot (normalizePath (workingDirectory ++ name)) with
    | error thrown => simp [slashes, inside, bind, Except.bind] at returned
    | ok _ =>
      simp only [slashes, inside, bind, Except.bind, pure, Except.pure] at returned
      exact (Except.ok.inj returned).symm

theorem Reached.nulFree {command : Command} {call : Call} (reached : Reached command call) : NulFree call.path := by
  obtain ⟨name, -, workingDirectory, -, returned⟩ := reached
  exact pathInInputRoot_eq returned ▸ normalizePath_nulFree _

theorem Reached.admissible {command : Command} {call : Call} (free : NulFreeCommand command)
    (reached : Reached command call) : Admissible command call := by
  obtain ⟨name, active, workingDirectory, started, returned⟩ := reached
  by_cases outside : WorkingDirectoryOutside command.workingDirectory
  next =>
    obtain ⟨thrown, raised, -⟩ := getWorkingDirectory_error free.workingDirectory outside
    rw [raised] at started
    cases started
  next =>
    rw [getWorkingDirectory_ok free.workingDirectory outside] at started
    obtain rfl := Except.ok.inj started
    exact pathInInputRoot_admissible free outside active returned

section Confinement

variable {inv : σ → Prop} {command : Command} {captureFileFunction : CaptureFileCallback σ}
  {captureDirectoryFunction : CaptureDirectoryCallback σ}

theorem onWorld_keeps {α : Type} {program : EStateM Exn σ α} {returns : α → Prop}
    (keeps : Keeps inv program returns) :
    Keeps (fun s : Capturing σ => inv s.world) (onWorld program) returns := by
  intro s start
  have kept := keeps s.world start
  unfold onWorld
  cases run : program s.world with
  | ok a world =>
    rw [run] at kept
    exact kept
  | error thrown world =>
    rw [run] at kept
    exact kept

theorem captureFileAndAddToResult_keeps {name path : Bytes} (reached : Reached command ⟨.file, path⟩)
    (keeps : Keeps inv (captureFileFunction path) fun _ => True) :
    Keeps (fun s : Capturing σ => inv s.world)
      (captureFileAndAddToResult captureFileFunction name path) fun _ => True := by
  have called : Keeps inv (captureFile name path captureFileFunction) fun _ => True := by
    unfold captureFile
    rw [cString_of_nulFree reached.nulFree]
    exact keeps.bind fun _ _ => .pure trivial
  refine (onWorld_keeps called).bind fun outputFile _ => ?_
  split
  next => exact fun s start => ⟨trivial, start⟩
  next => exact .pure trivial

theorem captureDirectoryAndAddToResult_keeps {name path : Bytes}
    (reached : Reached command ⟨.directory, path⟩)
    (keeps : Keeps inv (captureDirectoryFunction path) fun _ => True) :
    Keeps (fun s : Capturing σ => inv s.world)
      (captureDirectoryAndAddToResult captureDirectoryFunction name path) fun _ => True := by
  have called : Keeps inv (captureDirectory name path captureDirectoryFunction) fun _ => True := by
    unfold captureDirectory
    rw [cString_of_nulFree reached.nulFree]
    exact keeps.bind fun _ _ => .pure trivial
  refine (onWorld_keeps called).bind fun outputDirectory _ => ?_
  split
  next => exact fun s start => ⟨trivial, start⟩
  next => exact .pure trivial

theorem captureAllOutputs_keeps (inv : σ → Prop) (dPath : Bytes) (lstat : σ → Bytes → Except Nat Nat)
    (files : ∀ path, Reached command ⟨.file, path⟩ → Keeps inv (captureFileFunction path) fun _ => True)
    (directories : ∀ path, Reached command ⟨.directory, path⟩ →
      Keeps inv (captureDirectoryFunction path) fun _ => True) :
    Keeps (fun s : Capturing σ => inv s.world)
      (captureAllOutputs dPath lstat command captureFileFunction captureDirectoryFunction)
      fun _ => True := by
  unfold captureAllOutputs
  cases started : getWorkingDirectory command with
  | error thrown =>
    rw [liftExcept_error]
    exact fun _ start => start
  | ok workingDirectory =>
    rw [liftExcept_ok, pure_bind]
    have reached (name : Bytes) :
        Keeps (fun s : Capturing σ => inv s.world) (liftExcept (pathInInputRoot name workingDirectory))
          fun path => ∀ kind, name ∈ activeOutputs command kind → Reached command ⟨kind, path⟩ :=
      .liftExcept fun path returned kind active => ⟨name, active, workingDirectory, started, returned⟩
    split
    next paths =>
      have active (kind : OutputKind) : activeOutputs command kind = command.outputPaths :=
        if_pos (List.ne_nil_of_length_pos paths)
      refine Keeps.forM fun outputPath member => ?_
      have declared (kind : OutputKind) : outputPath ∈ activeOutputs command kind := active kind ▸ member
      refine (reached outputPath).bind fun relativePath correct => ?_
      refine Keeps.andThen (.liftExcept fun _ _ => trivial) fun absolutePath => ?_
      refine Keeps.andThen (fun s start => ⟨trivial, start⟩) fun s => ?_
      refine Keeps.andThen (.liftExcept fun _ _ => trivial) fun stMode => ?_
      split
      next => exact .pure trivial
      next stMode =>
        split_ifs
        next =>
          have path := correct .directory (declared .directory)
          exact captureDirectoryAndAddToResult_keeps path (directories relativePath path)
        next =>
          have path := correct .file (declared .file)
          exact captureFileAndAddToResult_keeps path (files relativePath path)
        next => exact .throw _
    next none =>
      have paths : command.outputPaths = [] := by simpa using none
      refine Keeps.andThen ?_ fun _ => ?_
      next =>
        refine Keeps.forM fun outputFile member => ?_
        have declared : outputFile ∈ activeOutputs command .file := by simpa [activeOutputs, paths] using member
        refine (reached outputFile).bind fun path correct => ?_
        exact captureFileAndAddToResult_keeps (correct .file declared) (files path (correct .file declared))
      next =>
        refine Keeps.forM fun outputDirectory member => ?_
        have declared : outputDirectory ∈ activeOutputs command .directory := by
          simpa [activeOutputs, paths] using member
        refine (reached outputDirectory).bind fun path correct => ?_
        exact captureDirectoryAndAddToResult_keeps (correct .directory declared)
          (directories path (correct .directory declared))

end Confinement

section Rejection

variable {command : Command} {captureFileFunction : CaptureFileCallback σ}
  {captureDirectoryFunction : CaptureDirectoryCallback σ}

theorem onWorld_returns {α : Type} {program : EStateM Exn σ α} (returns : Returns program) :
    Returns (onWorld program) := by
  intro s
  obtain ⟨a, world, run⟩ := returns s.world
  exact ⟨a, { s with world := world }, by simp only [onWorld, run]⟩

theorem captureFileAndAddToResult_returns (name path : Bytes)
    (returns : ∀ path, Returns (captureFileFunction path)) :
    Returns (captureFileAndAddToResult captureFileFunction name path) := by
  have called : Returns (captureFile name path captureFileFunction) := by
    intro s
    obtain ⟨outputFile, s', run⟩ := returns (cString path) s
    exact ⟨_, s', bind_ok _ run⟩
  intro s
  obtain ⟨outputFile, s', run⟩ := onWorld_returns called s
  unfold captureFileAndAddToResult
  rw [bind_ok _ run]
  split <;> exact ⟨_, _, rfl⟩

theorem captureDirectoryAndAddToResult_returns (name path : Bytes)
    (returns : ∀ path, Returns (captureDirectoryFunction path)) :
    Returns (captureDirectoryAndAddToResult captureDirectoryFunction name path) := by
  have called : Returns (captureDirectory name path captureDirectoryFunction) := by
    intro s
    obtain ⟨outputDirectory, s', run⟩ := returns (cString path) s
    exact ⟨_, s', bind_ok _ run⟩
  intro s
  obtain ⟨outputDirectory, s', run⟩ := onWorld_returns called s
  unfold captureDirectoryAndAddToResult
  rw [bind_ok _ run]
  split <;> exact ⟨_, _, rfl⟩

def Rejected (command : Command) : Prop :=
  WorkingDirectoryOutside command.workingDirectory ∨
    ∃ name ∈ command.outputFiles ++ command.outputDirectories,
      OutputOutside command.workingDirectory name

theorem captureAllOutputs_raises (dPath : Bytes) (lstat : σ → Bytes → Except Nat Nat)
    (free : NulFreeCommand command) (deprecated : command.outputPaths = [])
    (files : ∀ path, Returns (captureFileFunction path))
    (directories : ∀ path, Returns (captureDirectoryFunction path)) :
    RaisesIff IsInvalidArgument (Rejected command)
      (captureAllOutputs dPath lstat command captureFileFunction captureDirectoryFunction) := by
  have checks (name : Bytes) (named : NulFree name)
      (inside : ¬WorkingDirectoryOutside command.workingDirectory) :
      RaisesIff IsInvalidArgument (OutputOutside command.workingDirectory name)
        (liftExcept (pathInInputRoot name (workingDirectoryPrefix command.workingDirectory)) :
          EStateM Exn (Capturing σ) Bytes) :=
    .liftExcept (pathInInputRoot_error free.workingDirectory inside named)
      fun within => ⟨_, pathInInputRoot_ok free.workingDirectory inside named within⟩
  unfold captureAllOutputs Rejected
  have value : Keeps (fun _ => True)
      (liftExcept (getWorkingDirectory command) : EStateM Exn (Capturing σ) Bytes)
      (· = workingDirectoryPrefix command.workingDirectory) := by
    refine .liftExcept fun workingDirectory returned => ?_
    by_cases outside : WorkingDirectoryOutside command.workingDirectory
    next =>
      obtain ⟨thrown, raised, -⟩ := getWorkingDirectory_error free.workingDirectory outside
      rw [raised] at returned
      contradiction
    next =>
      rw [getWorkingDirectory_ok free.workingDirectory outside] at returned
      exact (Except.ok.inj returned).symm
  refine RaisesIff.bind (.liftExcept (getWorkingDirectory_error free.workingDirectory) ?_) value ?_
  next => exact fun inside => ⟨_, getWorkingDirectory_ok free.workingDirectory inside⟩
  rintro inside _ rfl
  rw [deprecated, if_neg (by simp)]
  have either : ((∃ name ∈ command.outputFiles, OutputOutside command.workingDirectory name) ∨
      ∃ name ∈ command.outputDirectories, OutputOutside command.workingDirectory name) ↔
      ∃ name ∈ command.outputFiles ++ command.outputDirectories,
        OutputOutside command.workingDirectory name := by
    simp only [List.mem_append, or_and_right, exists_or]
  refine RaisesIff.congr either (RaisesIff.bind ?_ (Keeps.trivial _) fun _ _ _ => ?_)
  next =>
    refine RaisesIff.forM fun name member => ?_
    exact RaisesIff.congr (by simp) ((checks name (free.outputFiles name member) inside).bind
      (Keeps.trivial _) fun _ path _ => (captureFileAndAddToResult_returns name path files).raisesIff)
  next =>
    refine RaisesIff.forM fun name member => ?_
    exact RaisesIff.congr (by simp) ((checks name (free.outputDirectories name member) inside).bind
      (Keeps.trivial _) fun _ path _ =>
        (captureDirectoryAndAddToResult_returns name path directories).raisesIff)

end Rejection

def spied {α : Type} (kind : OutputKind) (callback : Bytes → EStateM Exn σ α) (path : Bytes) :
    EStateM Exn (σ × List Call) α := fun (s, calls) =>
  match callback path s with
  | .ok a s' => .ok a (s', calls ++ [⟨kind, path⟩])
  | .error thrown s' => .error thrown (s', calls ++ [⟨kind, path⟩])

theorem spied_keeps {α : Type} {command : Command} {kind : OutputKind} {path : Bytes}
    (callback : Bytes → EStateM Exn σ α) (admissible : Admissible command ⟨kind, path⟩) :
    Keeps (fun s : σ × List Call => ∀ call ∈ s.2, Admissible command call)
      (spied kind callback path) fun _ => True := by
  rintro ⟨s, calls⟩ start
  have extended : ∀ call ∈ calls ++ [⟨kind, path⟩], Admissible command call := by
    intro call member
    rcases List.mem_append.mp member with old | new
    next => exact start call old
    next => exact List.mem_singleton.mp new ▸ admissible
  dsimp only [spied]
  cases callback path s with
  | ok a s' => exact ⟨trivial, extended⟩
  | error thrown s' => exact extended

def callsOf (dPath : Bytes) (lstat : σ → Bytes → Except Nat Nat) (command : Command)
    (captureFileFunction : CaptureFileCallback σ)
    (captureDirectoryFunction : CaptureDirectoryCallback σ) (world : σ) (result : ActionResult) :
    List Call :=
  (exitState (captureAllOutputs dPath (fun s => lstat s.1) command (spied .file captureFileFunction)
    (spied .directory captureDirectoryFunction) ⟨(world, []), result⟩)).world.2

theorem captureAllOutputs_correct (dPath : Bytes) (lstat : σ → Bytes → Except Nat Nat)
    (command : Command) (free : NulFreeCommand command)
    (captureFileFunction : CaptureFileCallback σ)
    (captureDirectoryFunction : CaptureDirectoryCallback σ) :
    (∀ world result, ∀ call ∈ callsOf dPath lstat command captureFileFunction
      captureDirectoryFunction world result, Admissible command call) ∧
    (command.outputPaths = [] → (∀ path, Returns (captureFileFunction path)) →
      (∀ path, Returns (captureDirectoryFunction path)) →
      RaisesIff IsInvalidArgument (Rejected command)
        (captureAllOutputs dPath lstat command captureFileFunction captureDirectoryFunction)) := by
  constructor
  next =>
    intro world result
    have keeps := captureAllOutputs_keeps (fun s : σ × List Call => ∀ call ∈ s.2, Admissible command call)
      dPath (fun s => lstat s.1)
      (fun _ reached => spied_keeps captureFileFunction (reached.admissible free))
      (fun _ reached => spied_keeps captureDirectoryFunction (reached.admissible free))
    exact keeps.exit (by simp)
  next => exact fun deprecated => captureAllOutputs_raises dPath lstat free deprecated

def noCapturedFile : CaptureFileCallback Unit := fun _ => pure ⟨[], .unset, false, none⟩
def noCapturedDirectory : CaptureDirectoryCallback Unit := fun _ => pure ⟨[], .unset⟩

def buildInSrc : Command where
  workingDirectory := text "src"
  outputFiles := [text "a.o", text "../b.o"]
  outputDirectories := [text "../../out"]
  outputPaths := []
  outputNodeProperties := []

theorem captureAllOutputs_correct_src :
    (∀ world result, ∀ call ∈ callsOf (text "/stage") (fun _ _ => .error enoent) buildInSrc noCapturedFile
      noCapturedDirectory world result, Admissible buildInSrc call) ∧
    RaisesIff IsInvalidArgument (Rejected buildInSrc)
      (captureAllOutputs (text "/stage") (fun _ _ => .error enoent) buildInSrc noCapturedFile
        noCapturedDirectory) := by
  have free : NulFreeCommand buildInSrc := ⟨by decide, by decide, by decide, by decide⟩
  have correct := captureAllOutputs_correct (text "/stage") (fun _ _ => .error enoent) buildInSrc free
    noCapturedFile noCapturedDirectory
  exact ⟨correct.1, correct.2 rfl (fun _ s => ⟨_, s, rfl⟩) fun _ s => ⟨_, s, rfl⟩⟩

def buildInRoot : Command where
  workingDirectory := []
  outputFiles := [text "a"]
  outputDirectories := []
  outputPaths := []
  outputNodeProperties := []

-- With an empty `working_directory` no slash is put in front of the name.
theorem captureAllOutputs_unprefixed :
    ¬∀ command, NulFreeCommand command → ∀ result,
      ∀ call ∈ callsOf (text "/stage") (fun _ _ => .error enoent) command noCapturedFile
        noCapturedDirectory () result,
      ∃ name ∈ activeOutputs command call.kind,
        call.path = normalizePath (command.workingDirectory ++ slash :: name) := by
  intro prefixed
  have free : NulFreeCommand buildInRoot := ⟨by decide, by decide, by decide, by decide⟩
  have called := prefixed buildInRoot free ⟨[], []⟩ ⟨.file, text "a"⟩ (by decide)
  revert called
  decide

end BuildboxCommon.StagedDirectory
