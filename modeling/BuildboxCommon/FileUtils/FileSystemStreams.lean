import BuildboxCommon.FileUtils.DeleteRecursively
import BuildboxCommon.FileUtils.DirectoryStreams
import BuildboxCommon.Shared.Simulation

set_option autoImplicit false

namespace BuildboxCommon.DirectoryStreams

open ByteString Effect FileUtils LexicalPath Posix DeleteRecursively

structure Descriptors where
  sweep : Sweep
  node : Nat → Nat

def Descriptors.opening (s : Descriptors) (fd node : Nat) : Descriptors :=
  { s with node := Function.update s.node fd node }

def kindOf : FileObject Nat → Bool
  | .directory _ _ _ _ => true
  | .regular _ _ _ | .symlink _ => false

def fileSystem (readdir : Readdir) : System Descriptors where
  opendir := fun fd path s =>
    match s.sweep.disk.files.openat s.sweep.disk.files.currentDirectory path ⟨true, false⟩ with
    | .error errno => (.error errno, s)
    | .ok node => (.ok ⟨readdir node, 0⟩, s.opening fd node)
  dirfd := fun _ s => (.ok (), s)
  fstatat := fun fd name s => ((s.sweep.disk.files.fstatat false (s.node fd) name).map kindOf, s)
  openat := fun parent fd name s =>
    let calls := s.sweep.calls ++ [(.openat (s.node parent) name, s.sweep.disk)]
    let s' := { s with sweep := { s.sweep with calls := calls } }
    match s.sweep.disk.files.openat (s.node parent) name ⟨true, false⟩ with
    | .error errno => (.error errno, s')
    | .ok node => (.ok (), s'.opening fd node)
  fdopendir := fun fd s => (.ok ⟨readdir (s.node fd), 0⟩, s)
  close := fun _ s => (.ok (), s)
  closedir := fun _ s => (.ok (), s)

def onNodes (func : FileUtils.DirectoryTraversalFn) : DirectoryTraversalFn Descriptors := fun path fd s =>
  match func path (fd.map s.node) s.sweep with
  | .ok a sweep => .ok a { s with sweep := sweep }
  | .error e sweep => .error e { s with sweep := sweep }

structure Agree (live : List (Nat × Nat)) (s : Sweep) (w : World Descriptors) : Prop where
  sweep : w.system.sweep = s
  node : ∀ pair ∈ live, pair.1 < w.opened ∧ w.system.node pair.1 = pair.2

def listing : Option Bytes × List Bytes → List Bytes
  | (none, _) => []
  | (some entry, names) => entry :: BuildboxCommon.DirentWrapper.skipDots names

structure Matches (live : List (Nat × Nat)) (dir : BuildboxCommon.DirentWrapper) (other : DirentWrapper) : Prop where
  fd : (other.fd, dir.fd) ∈ live
  pfd : Option.Rel (fun n node => (n, node) ∈ live) other.pfd dir.pfd
  path : other.path = dir.path
  errno : other.stream.errno = 0
  entries : dir.entries = listing (other.entry, other.stream.names)

namespace Agree

variable {live : List (Nat × Nat)} {s : Sweep} {w : World Descriptors}

theorem record (agree : Agree live s w) (log : List Event) : Agree live s { w with log := log } :=
  ⟨agree.sweep, agree.node⟩

theorem close (readdir : Readdir) {pair : Nat × Nat} (agree : Agree (pair :: live) s w) (dir : DirentWrapper) :
    Agree live s (dir.close (fileSystem readdir) w).2 :=
  ⟨agree.sweep, fun other member => agree.node other (List.mem_cons_of_mem _ member)⟩

theorem opening (agree : Agree live s w) (sweep : Sweep) (node : Nat) (log : List Event) :
    Agree ((w.opened, node) :: live) sweep
      ⟨({ w.system with sweep := sweep } : Descriptors).opening w.opened node, w.opened + 1, log⟩ := by
  refine ⟨rfl, fun pair member => ?_⟩
  rcases List.mem_cons.mp member with rfl | member
  next => exact ⟨Nat.lt_succ_self _, Function.update_self _ _ _⟩
  next =>
    obtain ⟨old, same⟩ := agree.node pair member
    exact ⟨Nat.lt_succ_of_lt old, (Function.update_of_ne (Nat.ne_of_lt old) _ _).trans same⟩

end Agree

theorem skipDots_cons (name : Bytes) (names : List Bytes) : BuildboxCommon.DirentWrapper.skipDots (name :: names) =
    if isDots name then BuildboxCommon.DirentWrapper.skipDots names
    else name :: BuildboxCommon.DirentWrapper.skipDots names := by
  unfold BuildboxCommon.DirentWrapper.skipDots isDots
  by_cases isDot : name = dot <;> by_cases isDotdot : name = dotdot <;> simp [isDot, isDotdot]

section Simulation

variable {live : List (Nat × Nat)} {α β γ : Type} {returns : α → γ → Prop}

theorem silently {program : EStateM Exn Sweep α} {quiet : EStateM Exn (World Descriptors) β}
    {rest : β → EStateM Exn (World Descriptors) γ}
    (ends : ∀ w, ∃ b log, quiet w = .ok b { w with log := log } ∧ Simulates (Agree live) program (rest b) returns) :
    Simulates (Agree live) program (quiet >>= rest) returns := by
  intro s w agree
  obtain ⟨b, log, run, simulates⟩ := ends w
  rw [bind_ok rest run]
  exact simulates s _ (agree.record log)

theorem recording {program : EStateM Exn Sweep α} {rest : PUnit → EStateM Exn (World Descriptors) γ} (event : Event)
    (simulates : Simulates (Agree live) program (rest ⟨⟩) returns) :
    Simulates (Agree live) program (record event >>= rest) returns :=
  silently fun _ => ⟨_, _, rfl, simulates⟩

theorem readEntry_eq (path : Bytes) (fd : Nat) (names : List Bytes) (w : World Descriptors) :
    ∃ entry rest log, readEntry path fd 0 names w = .ok (entry, rest) { w with log := log } ∧
      BuildboxCommon.DirentWrapper.skipDots names = listing (entry, rest) := by
  induction names generalizing w with
  | nil => exact ⟨none, [], _, rfl, rfl⟩
  | cons name names ih =>
    have recorded : record (.read fd (.ok (some name))) w =
        .ok ⟨⟩ { w with log := w.log ++ [.read fd (.ok (some name))] } := rfl
    rw [readEntry, bind_ok _ recorded, skipDots_cons]
    split
    next =>
      obtain ⟨entry, rest, log, run, same⟩ := ih { w with log := w.log ++ [.read fd (.ok (some name))] }
      exact ⟨entry, rest, log, run, same⟩
    next => exact ⟨some name, names, _, rfl, rfl⟩

theorem remainingEntries_simulates {body : Bytes → EStateM Exn Sweep PUnit} {dir : DirentWrapper}
    {body' : Bytes → EStateM Exn (World Descriptors) PUnit} (errno : dir.stream.errno = 0)
    (each : ∀ entry, Simulates (Agree live) (body entry) (body' entry) fun _ _ => True) (names : List Bytes) :
    Simulates (Agree live) (forM (BuildboxCommon.DirentWrapper.skipDots names) body) (dir.remainingEntries body' names)
      fun _ _ => True := by
  induction names with
  | nil =>
    rw [DirentWrapper.remainingEntries, errno]
    exact silently fun _ => ⟨_, _, rfl, .pure trivial⟩
  | cons name names ih =>
    rw [DirentWrapper.remainingEntries, skipDots_cons]
    refine recording _ ?_
    split
    next => exact ih
    next =>
      rw [List.forM_cons]
      exact (each name).bind fun _ _ _ => ih

theorem whileEntry_simulates {body : Bytes → EStateM Exn Sweep PUnit} {dir : BuildboxCommon.DirentWrapper}
    {other : DirentWrapper}
    {body' : Bytes → EStateM Exn (World Descriptors) PUnit} (alike : Matches live dir other)
    (each : ∀ entry, Simulates (Agree live) (body entry) (body' entry) fun _ _ => True) :
    Simulates (Agree live) (forM dir.entries body) (other.whileEntry body') fun _ _ => True := by
  rw [alike.entries, DirentWrapper.whileEntry]
  cases other.entry with
  | none => exact .pure trivial
  | some entry =>
    rw [listing, List.forM_cons]
    exact (each entry).bind fun _ _ _ => remainingEntries_simulates alike.errno each _

theorem onNodes_simulates (func : FileUtils.DirectoryTraversalFn) (path : Bytes) {fd fd' : Option Nat}
    (same : Option.Rel (fun n node => (n, node) ∈ live) fd fd') :
    Simulates (Agree live) (func path fd') (onSystem (onNodes func path fd)) fun _ _ => True := by
  intro s w agree
  have nodes : fd.map w.system.node = fd' := by
    cases same with
    | none => rfl
    | some member => exact congrArg some (agree.node _ member).2
  unfold onSystem onNodes
  rw [nodes, agree.sweep]
  cases func path fd' s with
  | ok a sweep => exact ⟨trivial, rfl, agree.node⟩
  | error e sweep => exact ⟨rfl, rfl, agree.node⟩

theorem apply_simulates (func : FileUtils.DirectoryTraversalFn) (path : Bytes) {fd fd' : Option Nat}
    (same : Option.Rel (fun n node => (n, node) ∈ live) fd fd') :
    Simulates (Agree live) (func path fd') (apply (onNodes func) path fd) fun _ _ => True := by
  have applied := onNodes_simulates func path same
  cases fd with
  | none => exact silently fun w => ⟨⟨⟩, w.log, rfl, applied⟩
  | some n => exact silently fun w => ⟨⟨⟩, w.log ++ [.used n], rfl, applied⟩

variable (readdir : Readdir)

theorem currentEntryIsDirectory_simulates {dir : BuildboxCommon.DirentWrapper} {other : DirentWrapper}
    (alike : Matches live dir other) (entry : Bytes) :
    Simulates (Agree live) (dir.currentEntryIsDirectory entry)
      (other.currentEntryIsDirectory (fileSystem readdir) entry) Eq := by
  refine recording _ fun s w agree => ?_
  have looked : inSystem ((fileSystem readdir).fstatat other.fd entry) w =
      .ok ((s.disk.files.fstatat false dir.fd entry).map kindOf) w := by
    simp only [inSystem, fileSystem, agree.sweep, (agree.node _ alike.fd).2]
  rw [bind_ok _ looked]
  unfold BuildboxCommon.DirentWrapper.currentEntryIsDirectory
  cases s.disk.files.fstatat false dir.fd entry with
  | error errno => exact ⟨rfl, agree⟩
  | ok object =>
    cases object with
    | directory => exact ⟨rfl, agree⟩
    | regular => exact ⟨rfl, agree⟩
    | symlink => exact ⟨rfl, agree⟩

def Constructs (live : List (Nat × Nat)) : EStateM.Result Exn Sweep BuildboxCommon.DirentWrapper →
    EStateM.Result Exn (World Descriptors) DirentWrapper → Prop
  | .ok dir s, .ok other w => Agree ((other.fd, dir.fd) :: live) s w ∧ Matches ((other.fd, dir.fd) :: live) dir other
  | .error e s, .error e' w => e = e' ∧ Agree live s w
  | .ok _ _, .error _ _ | .error _ _, .ok _ _ => False

theorem next_constructs {node fd : Nat} {pfd parent : Option Nat} {path : Bytes} {names : List Bytes} {s : Sweep}
    {w : World Descriptors} (read : names = readdir node) (agree : Agree ((fd, node) :: live) s w)
      (above : Option.Rel (fun n m => (n, m) ∈ (fd, node) :: live) pfd parent) :
    Constructs live (.ok ⟨node, parent, path, BuildboxCommon.DirentWrapper.skipDots (readdir node)⟩ s)
      (DirentWrapper.next ⟨fd, pfd, path, none, ⟨names, 0⟩⟩ w) := by
  subst read
  obtain ⟨entry, rest, log, run, same⟩ := readEntry_eq path fd (readdir node) w
  rw [DirentWrapper.next, bind_ok _ run]
  exact ⟨agree.record log, List.mem_cons_self, above, rfl, rfl, same⟩

theorem openDir_constructs (path : Bytes) {s : Sweep} {w : World Descriptors} (agree : Agree live s w) :
    Constructs live (BuildboxCommon.DirentWrapper.openDir readdir (cString path) s)
      (DirentWrapper.openDir (fileSystem readdir) (cString path) w) := by
  rw [DirentWrapper.openDir, get_bind, cString_cString]
  unfold BuildboxCommon.DirentWrapper.openDir
  cases found : s.disk.files.openat s.disk.files.currentDirectory (cString path) ⟨true, false⟩ with
  | error errno =>
    have failed : inSystem ((fileSystem readdir).opendir w.opened (cString path)) w = .ok (.error errno) w := by
      simp only [inSystem, fileSystem, agree.sweep, found]
    rw [bind_ok _ failed]
    exact ⟨rfl, agree⟩
  | ok node =>
    have opened : inSystem ((fileSystem readdir).opendir w.opened (cString path)) w =
        .ok (.ok ⟨readdir node, 0⟩) { w with system := w.system.opening w.opened node } := by
      simp only [inSystem, fileSystem, agree.sweep, found]
    rw [bind_ok _ opened]
    have constructed := agree.opening s node (w.log ++ [.opened w.opened] ++ [.asked w.opened (.ok ())])
    rw [← agree.sweep] at constructed ⊢
    exact next_constructs readdir rfl constructed .none

theorem nextDir_constructs {dir : BuildboxCommon.DirentWrapper} {other : DirentWrapper} (alike : Matches live dir other)
    (entry : Bytes) {s : Sweep} {w : World Descriptors} (agree : Agree live s w) :
    Constructs live (dir.nextDir readdir entry s) (other.nextDir (fileSystem readdir) entry w) := by
  have node := (agree.node _ alike.fd).2
  rw [DirentWrapper.nextDir, get_bind, bind_ok _ (show record (.used other.fd) w = .ok ⟨⟩ _ from rfl)]
  unfold BuildboxCommon.DirentWrapper.nextDir
  cases found : s.disk.files.openat dir.fd entry ⟨true, false⟩ with
  | error errno =>
    have failed : inSystem ((fileSystem readdir).openat other.fd w.opened entry)
      { w with log := w.log ++ [.used other.fd] } =
        .ok (.error errno) ⟨{ w.system with sweep := { s with calls := s.calls ++ [(.openat dir.fd entry, s.disk)] } },
          w.opened, w.log ++ [.used other.fd]⟩ := by
      simp only [inSystem, fileSystem, agree.sweep, node, found]
    rw [bind_ok _ failed]
    exact ⟨rfl, rfl, agree.node⟩
  | ok next =>
    have opened : inSystem ((fileSystem readdir).openat other.fd w.opened entry)
      { w with log := w.log ++ [.used other.fd] } =
        .ok (.ok ()) ⟨({ w.system with sweep := { s with calls := s.calls ++ [(.openat dir.fd entry, s.disk)] } } :
          Descriptors).opening w.opened next, w.opened, w.log ++ [.used other.fd]⟩ := by
      simp only [inSystem, fileSystem, agree.sweep, node, found]
    rw [bind_ok _ opened]
    have constructed := agree.opening { s with calls := s.calls ++ [(.openat dir.fd entry, s.disk)] } next
      (w.log ++ [.used other.fd] ++ [.opened w.opened] ++ [.used w.opened])
    have stream : readdir (Function.update w.system.node w.opened next w.opened) = readdir next := by
      rw [Function.update_self]
    have above : Option.Rel (fun n m => (n, m) ∈ (w.opened, next) :: live) (some other.fd) (some dir.fd) :=
      .some (List.mem_cons_of_mem _ alike.fd)
    have path : other.currentEntryPath entry = dir.currentEntryPath entry := by
      rw [DirentWrapper.currentEntryPath, BuildboxCommon.DirentWrapper.currentEntryPath, alike.path]
    rw [path]
    exact next_constructs readdir stream constructed above

theorem block_simulates {first : EStateM Exn Sweep BuildboxCommon.DirentWrapper}
    {first' : EStateM Exn (World Descriptors) DirentWrapper}
      {body : BuildboxCommon.DirentWrapper → EStateM Exn Sweep PUnit}
    {body' : DirentWrapper → EStateM Exn (World Descriptors) PUnit}
    (constructs : ∀ s w, Agree live s w → Constructs live (first s) (first' w))
    (inner : ∀ (dir : BuildboxCommon.DirentWrapper) (other : DirentWrapper),
      Matches ((other.fd, dir.fd) :: live) dir other →
      Simulates (Agree ((other.fd, dir.fd) :: live)) (body dir) (body' other) fun _ _ => True) :
    Simulates (Agree live) (first >>= body)
      (first' >>= fun other => ensuring (other.close (fileSystem readdir)) (body' other))
      fun _ _ => True := by
  intro s w agree
  have constructed := constructs s w agree
  cases run : first s with
  | ok dir between =>
    cases run' : first' w with
    | ok other between' =>
      rw [run, run'] at constructed
      obtain ⟨opened, alike⟩ := constructed
      rw [bind_ok body run, bind_ok _ run']
      unfold ensuring
      cases ran : body dir between with
      | ok a s' =>
        obtain ⟨b, w', ran', -, agree'⟩ := (inner dir other alike).of_ok opened ran
        rw [ran']
        exact ⟨trivial, agree'.close readdir other⟩
      | error e s' =>
        obtain ⟨w', ran', agree'⟩ := (inner dir other alike).of_error opened ran
        rw [ran']
        exact ⟨rfl, agree'.close readdir other⟩
    | error e between' =>
      rw [run, run'] at constructed
      exact constructed.elim
  | error e between =>
    cases run' : first' w with
    | ok other between' =>
      rw [run, run'] at constructed
      exact constructed.elim
    | error e' between' =>
      rw [run, run'] at constructed
      rw [bind_error body run, bind_error _ run']
      exact constructed

theorem applyToEntry_simulates {dir : BuildboxCommon.DirentWrapper} {other : DirentWrapper}
    (alike : Matches live dir other)
    (fileFunc : Option FileUtils.DirectoryTraversalFn)
      {recurse : BuildboxCommon.DirentWrapper → EStateM Exn Sweep PUnit}
    {recurse' : DirentWrapper → EStateM Exn (World Descriptors) PUnit}
    (recurses : ∀ (inner : BuildboxCommon.DirentWrapper) (inner' : DirentWrapper),
      Matches ((inner'.fd, inner.fd) :: live) inner inner' →
        Simulates (Agree ((inner'.fd, inner.fd) :: live)) (recurse inner) (recurse' inner') fun _ _ => True)
          (entry : Bytes) :
    Simulates (Agree live) (FileUtils.applyToEntry readdir fileFunc recurse dir entry)
      (applyToEntry (fileSystem readdir) (fileFunc.map onNodes) recurse' other entry) fun _ _ => True := by
  refine (currentEntryIsDirectory_simulates readdir alike entry).bind fun isDirectory _ same => ?_
  subst same
  cases isDirectory with
  | true => exact block_simulates readdir (fun _ _ => nextDir_constructs readdir alike entry) recurses
  | false =>
    cases fileFunc with
    | some fileFunc => exact apply_simulates fileFunc entry (.some alike.fd)
    | none => exact .pure trivial

theorem fileDescriptorTraverseAndApply_simulates (dirFunc fileFunc : Option FileUtils.DirectoryTraversalFn)
    (passParentFd : Bool) (stack : Nat) (applyToRoot : Bool) {dir : BuildboxCommon.DirentWrapper}
      {other : DirentWrapper}
    (alike : Matches live dir other) : Simulates (Agree live)
      (FileUtils.fileDescriptorTraverseAndApply readdir dirFunc fileFunc passParentFd stack dir applyToRoot)
      (fileDescriptorTraverseAndApply (fileSystem readdir) (dirFunc.map onNodes)
        (fileFunc.map onNodes) passParentFd stack
        other applyToRoot) fun _ _ => True := by
  induction stack generalizing live dir other applyToRoot with
  | zero => exact .throw _
  | succ stack ih =>
    have each := applyToEntry_simulates readdir alike fileFunc fun _ _ => ih true
    refine (whileEntry_simulates alike each).bind fun _ _ _ => ?_
    cases applyToRoot with
    | false => exact .pure trivial
    | true =>
      cases dirFunc with
      | none => exact .pure trivial
      | some dirFunc =>
        rw [← alike.path]
        cases passParentFd with
        | true => exact apply_simulates dirFunc other.path alike.pfd
        | false => exact apply_simulates dirFunc other.path (.some alike.fd)

def traverseEntries (dirFunc fileFunc : Option FileUtils.DirectoryTraversalFn) (passParentFd : Bool) (stack : Nat)
    (path : Bytes)
    (applyToRoot : Bool) : EStateM Exn Sweep PUnit := do
  let root ← BuildboxCommon.DirentWrapper.openDir readdir (cString path)
  FileUtils.fileDescriptorTraverseAndApply readdir dirFunc fileFunc passParentFd stack root applyToRoot

theorem traverse_simulates (dirFunc fileFunc : Option FileUtils.DirectoryTraversalFn) (passParentFd : Bool)
    (stack : Nat)
    (path : Bytes) (applyToRoot : Bool) : Simulates (Agree live)
      (traverseEntries readdir dirFunc fileFunc passParentFd stack path applyToRoot)
      (traverse (fileSystem readdir) (dirFunc.map onNodes) (fileFunc.map onNodes) passParentFd stack path applyToRoot)
      fun _ _ => True :=
  block_simulates readdir (fun _ _ => openDir_constructs readdir path) fun _ _ =>
    fileDescriptorTraverseAndApply_simulates readdir dirFunc fileFunc passParentFd stack applyToRoot

theorem agree_start (start : Descriptors) : Agree [] start.sweep ⟨start, 0, []⟩ := ⟨rfl, nofun⟩

theorem traverse_refines (dirFunc fileFunc : Option FileUtils.DirectoryTraversalFn) (passParentFd : Bool) (stack : Nat)
    (path : Bytes) (applyToRoot : Bool) (start : Descriptors) :
    match traverseEntries readdir dirFunc fileFunc passParentFd stack path applyToRoot start.sweep,
      traverse (fileSystem readdir) (dirFunc.map onNodes) (fileFunc.map onNodes) passParentFd stack path applyToRoot
        ⟨start, 0, []⟩ with
    | .ok _ s, .ok _ w => w.system.sweep = s
    | .error e s, .error e' w => e' = e ∧ w.system.sweep = s
    | .ok _ _, .error _ _ | .error _ _, .ok _ _ => False := by
  have simulates := @traverse_simulates [] readdir dirFunc fileFunc passParentFd stack path applyToRoot
  cases run : traverseEntries readdir dirFunc fileFunc passParentFd stack path applyToRoot start.sweep with
  | ok a s =>
    obtain ⟨b, w, run', -, agree⟩ := simulates.of_ok (agree_start start) run
    rw [run']
    exact agree.sweep
  | error e s =>
    obtain ⟨w, run', agree⟩ := simulates.of_error (agree_start start) run
    rw [run']
    exact ⟨rfl, agree.sweep⟩

end Simulation

section Clearing

variable {readdir : Readdir} {disk : Disk} {root : Nat} {path : Bytes}

def clearDirectory (readdir : Readdir) (stack : Nat) (path : Bytes) : EStateM Exn (World Descriptors) PUnit :=
  traverse (fileSystem readdir) (some (onNodes rmdirFunc)) (some (onNodes unlinkFunc)) true stack path false

theorem clearDirectory_closes (deletable : Deletable readdir disk root)
    (reached : disk.files.pathname true disk.files.currentDirectory path = .ok root) (node : Nat → Nat) :
    ∃ enough, ∀ stack, enough ≤ stack → ∃ w, clearDirectory readdir stack path ⟨⟨⟨disk, []⟩, node⟩, 0, []⟩ = .ok ⟨⟩ w ∧
      Progress disk root (cString path) (fun node _ => disk.files.graph.Beneath root [] node) w.system.sweep ∧
        ∀ fd, phaseIn w.log fd = some (if fd < w.opened then .closed else .absent) := by
  obtain ⟨enough, shallow⟩ := deletable.shallow
  refine ⟨enough + 1, fun stack more => ?_⟩
  obtain ⟨stack, rfl⟩ : ∃ less, stack = less + 1 := ⟨stack - 1, by omega⟩
  obtain ⟨cleared, progress, clears, -⟩ := deleteRecursively_empties deletable reached (shallow (stack + 1) (by omega))
  have simulates := @traverse_simulates [] readdir (some rmdirFunc) (some unlinkFunc) true (stack + 1) path false
  obtain ⟨_, w, run, -, agree⟩ := simulates.of_ok (agree_start ⟨⟨disk, []⟩, node⟩) clears
  have tidy := traverse_tidy (fileSystem readdir) (some (onNodes rmdirFunc)) (some (onNodes unlinkFunc)) true
    (stack + 1) path
    false _ (.create ⟨⟨disk, []⟩, node⟩)
  simp only [Option.map_some] at run
  rw [run] at tidy
  refine ⟨w, run, agree.sweep ▸ progress, fun fd => ?_⟩
  simpa using tidy.settled fd

theorem clearDirectory_closes_tree : ∃ enough, ∀ stack, enough ≤ stack → ∃ w,
    clearDirectory treeListing stack (text "/d/") ⟨⟨⟨treeDisk, []⟩, fun _ => 0⟩, 0, []⟩ = .ok ⟨⟩ w ∧
      Progress treeDisk 1 (cString (text "/d/")) (fun node _ => treeDisk.files.graph.Beneath 1 [] node) w.system.sweep ∧
        ∀ fd, phaseIn w.log fd = some (if fd < w.opened then .closed else .absent) :=
  clearDirectory_closes treeDisk_deletable (by decide +kernel) fun _ => 0

end Clearing

end BuildboxCommon.DirectoryStreams
