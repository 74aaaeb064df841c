import BuildboxCommon.FileUtils.NormalizePath
import BuildboxCommon.Exceptions
import BuildboxCommon.Shared.Effect
import BuildboxCommon.Shared.Transitions

set_option autoImplicit false

namespace BuildboxCommon.DirectoryStreams

open ByteString Effect FileUtils

variable {σ : Type}

structure Stream where
  names : List Bytes
  errno : Nat

structure System (σ : Type) where
  opendir : Nat → Bytes → StateM σ (Except Nat Stream)
  dirfd : Nat → StateM σ (Except Nat Unit)
  fstatat : Nat → Bytes → StateM σ (Except Nat Bool)
  openat : Nat → Nat → Bytes → StateM σ (Except Nat Unit)
  fdopendir : Nat → StateM σ (Except Nat Stream)
  close : Nat → StateM σ (Except Nat Unit)
  closedir : Nat → StateM σ (Except Nat Unit)

inductive Event where
  | opened (fd : Nat)
  | asked (fd : Nat) (answer : Except Nat Unit)
  | read (fd : Nat) (answer : Except Nat (Option Bytes))
  | used (fd : Nat)
  | closed (fd : Nat)

structure World (σ : Type) where
  system : σ
  opened : Nat
  log : List Event

section Model

def record (event : Event) : EStateM Exn (World σ) PUnit := modify fun w => { w with log := w.log ++ [event] }

def inSystem {α : Type} (call : StateM σ α) : EStateM Exn (World σ) α := fun w =>
  match call w.system with
  | (a, system) => .ok a { w with system := system }

def opening : EStateM Exn (World σ) Nat := fun w =>
  .ok w.opened { w with opened := w.opened + 1, log := w.log ++ [.opened w.opened] }

structure DirentWrapper where
  fd : Nat
  pfd : Option Nat
  path : Bytes
  entry : Option Bytes
  stream : Stream

def isDots (name : Bytes) : Bool := name = dot || name = dotdot

def readEntry (path : Bytes) (fd errno : Nat) : List Bytes → EStateM Exn (World σ) (Option Bytes × List Bytes)
  | [] =>
    if errno ≠ 0 then do
      record (.read fd (.error errno))
      throw (.systemError errno (text "Error reading from directory \"" ++ path ++ text "\""))
    else do
      record (.read fd (.ok none))
      return (none, [])
  | name :: names => do
    record (.read fd (.ok (some name)))
    if isDots name then readEntry path fd errno names else return (some name, names)

namespace DirentWrapper

def next (dir : DirentWrapper) : EStateM Exn (World σ) DirentWrapper := do
  let (entry, names) ← readEntry dir.path dir.fd dir.stream.errno dir.stream.names
  return { dir with entry := entry, stream := { dir.stream with names := names } }

variable (system : System σ)

def openDir (path : Bytes) : EStateM Exn (World σ) DirentWrapper := do
  let w ← get
  match ← inSystem (system.opendir w.opened (cString path)) with
  | .error errno => throw (.systemError errno (text "Error opening directory \"" ++ path ++ text "\""))
  | .ok stream =>
    let fd ← opening
    let answer ← inSystem (system.dirfd fd)
    record (.asked fd answer)
    match answer with
    | .error errno =>
      throw (.systemError errno (text "Error opening directory file descriptor at path \"" ++ path ++ text "\""))
    | .ok () => next ⟨fd, none, path, none, stream⟩

-- The constructor for a descriptor. `errno` is read after `close`.
def ofDescriptor (fd pfd : Nat) (path : Bytes) : EStateM Exn (World σ) DirentWrapper := do
  record (.used fd)
  match ← inSystem (system.fdopendir fd) with
  | .error errno =>
    let closed ← inSystem (system.close fd)
    record (.closed fd)
    let errno := match closed with
      | .error errno => errno
      | .ok () => errno
    throw (.systemError errno (text "Error opening directory from file descriptor at path \"" ++ path ++ text "\""))
  | .ok stream => next ⟨fd, some pfd, path, none, stream⟩

def close (dir : DirentWrapper) : StateM (World σ) Unit := fun w =>
  ((), { w with system := (system.closedir dir.fd w.system).2, log := w.log ++ [.closed dir.fd] })

def currentEntryIsDirectory (dir : DirentWrapper) (entry : Bytes) : EStateM Exn (World σ) Bool := do
  record (.used dir.fd)
  match ← inSystem (system.fstatat dir.fd entry) with
  | .error errno => throw (.systemError errno (text "Unable to stat entity \"" ++ entry ++ text "\""))
  | .ok isDirectory => return isDirectory

def currentEntryPath (dir : DirentWrapper) (entry : Bytes) : Bytes := dir.path ++ text "/" ++ entry

def nextDir (dir : DirentWrapper) (entry : Bytes) : EStateM Exn (World σ) DirentWrapper := do
  let w ← get
  record (.used dir.fd)
  match ← inSystem (system.openat dir.fd w.opened entry) with
  | .error _ => throw (.runtimeError (text "Error getting dir from non-directory"))
  | .ok () =>
    let fd ← opening
    ofDescriptor system fd dir.fd (dir.currentEntryPath entry)

def remainingEntries (dir : DirentWrapper) (body : Bytes → EStateM Exn (World σ) PUnit) :
    List Bytes → EStateM Exn (World σ) PUnit
  | [] => do
    let _ ← readEntry dir.path dir.fd dir.stream.errno []
    return ()
  | name :: names => do
    record (.read dir.fd (.ok (some name)))
    if isDots name then remainingEntries dir body names
    else
      body name
      remainingEntries dir body names

def whileEntry (dir : DirentWrapper) (body : Bytes → EStateM Exn (World σ) PUnit) : EStateM Exn (World σ) PUnit :=
  match dir.entry with
  | none => pure ()
  | some entry => do
    body entry
    remainingEntries dir body dir.stream.names

end DirentWrapper

abbrev DirectoryTraversalFn (σ : Type) := Bytes → Option Nat → EStateM Exn σ PUnit

variable (system : System σ)

def onSystem (program : EStateM Exn σ PUnit) : EStateM Exn (World σ) PUnit := fun w =>
  match program w.system with
  | .ok a s => .ok a { w with system := s }
  | .error e s => .error e { w with system := s }

def apply (func : DirectoryTraversalFn σ) (path : Bytes) (fd : Option Nat) : EStateM Exn (World σ) PUnit := do
  forM fd.toList fun fd => record (.used fd)
  onSystem (func path fd)

-- What the `while` loop does with one entry. `nextDir` is destroyed at the end of its block.
def applyToEntry (fileFunc : Option (DirectoryTraversalFn σ)) (recurse : DirentWrapper → EStateM Exn (World σ) PUnit)
    (dir : DirentWrapper) (entry : Bytes) : EStateM Exn (World σ) PUnit := do
  match ← dir.currentEntryIsDirectory system entry with
  | true =>
    let nextDir ← dir.nextDir system entry
    ensuring (nextDir.close system) (recurse nextDir)
  | false =>
    match fileFunc with
    | some fileFunc => apply fileFunc entry (some dir.fd)
    | none => pure ()

def fileDescriptorTraverseAndApply (dirFunc fileFunc : Option (DirectoryTraversalFn σ)) (passParentFd : Bool) :
    Nat → DirentWrapper → Bool → EStateM Exn (World σ) PUnit
  | 0, _, _ => throw .stackOverflow
  | stack + 1, dir, applyToRoot => do
    dir.whileEntry (applyToEntry system fileFunc
      (fileDescriptorTraverseAndApply dirFunc fileFunc passParentFd stack · true) dir)
    match applyToRoot, dirFunc with
    | true, some dirFunc => apply dirFunc dir.path (if passParentFd then dir.pfd else some dir.fd)
    | true, none | false, _ => pure ()

def traverse (dirFunc fileFunc : Option (DirectoryTraversalFn σ)) (passParentFd : Bool) (stack : Nat) (path : Bytes)
    (applyToRoot : Bool) : EStateM Exn (World σ) PUnit := do
  let root ← DirentWrapper.openDir system (cString path)
  ensuring (root.close system)
    (fileDescriptorTraverseAndApply system dirFunc fileFunc passParentFd stack root applyToRoot)

end Model

-- The loop of the source: `next`, and then the condition again.
theorem DirentWrapper.remainingEntries_eq (dir : DirentWrapper) (body : Bytes → EStateM Exn (World σ) PUnit)
    (names : List Bytes) :
    dir.remainingEntries body names =
      DirentWrapper.next { dir with stream := { dir.stream with names := names } } >>=
        fun next => next.whileEntry body := by
  have reading : ∀ names, dir.remainingEntries body names =
    readEntry dir.path dir.fd dir.stream.errno names >>= fun found =>
      match found.1 with
      | none => pure ()
      | some entry => body entry >>= fun _ => dir.remainingEntries body found.2 := by
    intro names
    induction names with
    | nil =>
      simp only [remainingEntries, readEntry]
      split
      next => rfl
      next => simp
    | cons name names ih =>
      simp only [remainingEntries, readEntry, bind_assoc]
      congr 1
      funext _
      split
      next => exact ih
      next => simp
  rw [reading, next]
  simp only [bind_assoc, pure_bind]
  congr 1
  funext found
  obtain ⟨entry, rest⟩ := found
  cases entry with
  | none => rfl
  | some entry =>
    simp only [whileEntry]
    congr 1
    funext _
    have same : ∀ names,
        remainingEntries { dir with entry := some entry, stream := { dir.stream with names := rest } } body names =
          dir.remainingEntries body names := by
      intro names
      induction names with
      | nil => rfl
      | cons name names ih => simp only [remainingEntries, ih]
    exact (same rest).symm

section Protocol

inductive Phase where
  | absent
  | fresh
  | ready
  | closed
  | lost
deriving DecidableEq

def Event.fd : Event → Nat
  | .opened fd | .asked fd _ | .read fd _ | .used fd | .closed fd => fd

def Event.moves : Event → Phase → Option Phase
  | .opened _, .absent => some .fresh
  | .asked _ (.ok ()), .fresh => some .fresh
  | .asked _ (.error _), .fresh => some .lost
  | .read _ (.ok (some name)), .fresh => some (if isDots name then .fresh else .ready)
  | .read _ (.ok none), .fresh => some .ready
  | .read _ (.error _), .fresh => some .lost
  | .read _ _, .ready => some .ready
  | .used _, .fresh => some .fresh
  | .used _, .ready => some .ready
  | .closed _, .fresh | .closed _, .ready => some .closed
  | _, _ => none

def Event.step (fd : Nat) (event : Event) (phase : Phase) : Option Phase :=
  if event.fd = fd then event.moves phase else some phase

def phaseIn (log : List Event) (fd : Nat) : Option Phase :=
  Transitions.run (fun event : Event => event.step fd) .absent log

theorem phaseIn_snoc (log : List Event) (event : Event) (fd : Nat) :
    phaseIn (log ++ [event]) fd = (phaseIn log fd).bind (event.step fd) := by
  unfold phaseIn
  rw [Transitions.run_append]
  congr 1
  funext phase
  cases taken : event.step fd phase <;> simp [Transitions.run, taken]

theorem phaseIn_snoc_other (event : Event) {log : List Event} {fd : Nat} (differs : event.fd ≠ fd) :
    phaseIn (log ++ [event]) fd = phaseIn log fd := by
  rw [phaseIn_snoc]
  cases phaseIn log fd <;> simp [Event.step, differs]

theorem phaseIn_snoc_same (event : Event) {log : List Event} {phase : Phase}
    (before : phaseIn log event.fd = some phase) :
    phaseIn (log ++ [event]) event.fd = event.moves phase := by
  rw [phaseIn_snoc, before]
  simp [Event.step]

structure Holding (live : List Nat) (lost : Option Nat) (w : World σ) : Prop where
  once : live.Nodup
  kept : ∀ fd, lost = some fd → fd ∉ live ∧ fd < w.opened
  below : ∀ fd ∈ live, fd < w.opened
  ready : ∀ fd ∈ live, phaseIn w.log fd = some .ready
  left : ∀ fd, lost = some fd → phaseIn w.log fd = some .lost
  absent : ∀ fd, w.opened ≤ fd → phaseIn w.log fd = some .absent
  closed : ∀ fd, fd < w.opened → fd ∉ live → lost ≠ some fd → phaseIn w.log fd = some .closed

structure Wrapping (live : List Nat) (fresh : Nat) (w : World σ) : Prop where
  once : live.Nodup
  newest : w.opened = fresh + 1
  below : ∀ fd ∈ live, fd < fresh
  current : phaseIn w.log fresh = some .fresh
  ready : ∀ fd ∈ live, phaseIn w.log fd = some .ready
  absent : ∀ fd, w.opened ≤ fd → phaseIn w.log fd = some .absent
  closed : ∀ fd, fd < fresh → fd ∉ live → phaseIn w.log fd = some .closed

namespace Holding

variable {live : List Nat} {lost : Option Nat} {w : World σ}

theorem create (s : σ) : Holding [] none (⟨s, 0, []⟩ : World σ) where
  once := List.nodup_nil
  kept := nofun
  below := nofun
  ready := nofun
  left := nofun
  absent := fun _ _ => rfl
  closed := fun _ impossible => absurd impossible (Nat.not_lt_zero _)

theorem settled (holding : Holding [] lost w) (fd : Nat) :
    phaseIn w.log fd = some (if fd < w.opened then if lost = some fd then .lost else .closed else .absent) := by
  split
  next old =>
    split
    next there => exact holding.left fd there
    next other => exact holding.closed fd old List.not_mem_nil other
  next new => exact holding.absent fd (Nat.le_of_not_lt new)

theorem inSystem (holding : Holding live lost w) (system : σ) : Holding live lost { w with system := system } :=
  ⟨holding.once, holding.kept, holding.below, holding.ready, holding.left, holding.absent, holding.closed⟩

theorem record (holding : Holding live lost w) {event : Event} (member : event.fd ∈ live)
    (stays : event.moves .ready = some .ready) : Holding live lost { w with log := w.log ++ [event] } := by
  have same : ∀ fd, phaseIn (w.log ++ [event]) fd = phaseIn w.log fd := by
    intro fd
    by_cases here : event.fd = fd
    next =>
      subst here
      rw [phaseIn_snoc_same event (holding.ready _ member), holding.ready _ member, stays]
    next => exact phaseIn_snoc_other event here
  exact ⟨holding.once, holding.kept, holding.below, fun fd there => (same fd).trans (holding.ready fd there),
    fun fd there => (same fd).trans (holding.left fd there), fun fd there => (same fd).trans (holding.absent fd there),
    fun fd old gone other => (same fd).trans (holding.closed fd old gone other)⟩

theorem opening (holding : Holding live none w) :
    Wrapping live w.opened { w with opened := w.opened + 1, log := w.log ++ [.opened w.opened] } where
  once := holding.once
  newest := rfl
  below := holding.below
  current := phaseIn_snoc_same (.opened w.opened) (holding.absent w.opened (Nat.le_refl _))
  ready := by
    intro fd member
    rw [phaseIn_snoc_other (.opened w.opened) (Nat.ne_of_gt (holding.below fd member))]
    exact holding.ready fd member
  absent := by
    intro fd new
    rw [phaseIn_snoc_other (.opened w.opened) (Nat.ne_of_lt new)]
    exact holding.absent fd (Nat.le_of_succ_le new)
  closed := by
    intro fd old gone
    rw [phaseIn_snoc_other (.opened w.opened) (Nat.ne_of_gt old)]
    exact holding.closed fd old gone nofun

theorem close {fd : Nat} (holding : Holding (fd :: live) lost w) :
    Holding live lost { w with log := w.log ++ [.closed fd] } := by
  obtain ⟨apart, once⟩ := List.nodup_cons.mp holding.once
  have gone : phaseIn (w.log ++ [.closed fd]) fd = some .closed :=
    phaseIn_snoc_same (.closed fd) (holding.ready fd List.mem_cons_self)
  have others : ∀ other, fd ≠ other → phaseIn (w.log ++ [.closed fd]) other = phaseIn w.log other :=
    fun _ => phaseIn_snoc_other (.closed fd)
  refine ⟨once, ?_, ?_, ?_, ?_, ?_, ?_⟩
  next =>
    intro other there
    obtain ⟨outside, old⟩ := holding.kept other there
    exact ⟨fun member => outside (List.mem_cons_of_mem _ member), old⟩
  next => exact fun other member => holding.below other (List.mem_cons_of_mem _ member)
  next =>
    intro other member
    rw [others other fun same => apart (same ▸ member)]
    exact holding.ready other (List.mem_cons_of_mem _ member)
  next =>
    intro other there
    rw [others other fun same => (holding.kept other there).1 (same ▸ List.mem_cons_self)]
    exact holding.left other there
  next =>
    intro other new
    rw [others other (Nat.ne_of_lt (Nat.lt_of_lt_of_le (holding.below fd List.mem_cons_self) new))]
    exact holding.absent other new
  next =>
    intro other old outside differs
    by_cases same : fd = other
    next =>
      subst same
      exact gone
    next =>
      rw [others other same]
      exact holding.closed other old
        (fun member => (List.mem_cons.mp member).elim (fun h => same h.symm) outside) differs

end Holding

namespace Wrapping

variable {live : List Nat} {fresh : Nat} {w : World σ}

theorem inSystem (wrapping : Wrapping live fresh w) (system : σ) : Wrapping live fresh { w with system := system } :=
  ⟨wrapping.once, wrapping.newest, wrapping.below, wrapping.current, wrapping.ready, wrapping.absent, wrapping.closed⟩

theorem apart (wrapping : Wrapping live fresh w) : fresh ∉ live := fun member =>
  Nat.lt_irrefl fresh (wrapping.below fresh member)

theorem others (wrapping : Wrapping live fresh w) (event : Event) (here : event.fd = fresh) {fd : Nat}
    (differs : fd ≠ fresh) :
    phaseIn (w.log ++ [event]) fd = phaseIn w.log fd ∧ (fd < w.opened → fd < fresh) := by
  refine ⟨phaseIn_snoc_other event fun same => differs (same.symm.trans here), fun old => ?_⟩
  have := wrapping.newest
  omega

theorem record (wrapping : Wrapping live fresh w) {event : Event} (here : event.fd = fresh)
    (stays : event.moves .fresh = some .fresh) : Wrapping live fresh { w with log := w.log ++ [event] } := by
  subst here
  have := wrapping.newest
  refine ⟨wrapping.once, wrapping.newest, wrapping.below, (phaseIn_snoc_same event wrapping.current).trans stays,
    ?_, ?_, ?_⟩
  next =>
    intro fd member
    rw [(wrapping.others event rfl (Nat.ne_of_lt (wrapping.below fd member))).1]
    exact wrapping.ready fd member
  next =>
    intro fd new
    rw [(wrapping.others event rfl (by simp only at new; omega)).1]
    exact wrapping.absent fd new
  next =>
    intro fd old gone
    rw [(wrapping.others event rfl (Nat.ne_of_lt old)).1]
    exact wrapping.closed fd old gone

theorem wrapped (wrapping : Wrapping live fresh w) {event : Event} (here : event.fd = fresh)
    (moves : event.moves .fresh = some .ready) : Holding (fresh :: live) none { w with log := w.log ++ [event] } := by
  subst here
  have newest := wrapping.newest
  refine ⟨List.nodup_cons.mpr ⟨wrapping.apart, wrapping.once⟩, nofun, ?_, ?_, nofun, ?_, ?_⟩
  next =>
    intro fd member
    rcases List.mem_cons.mp member with rfl | member
    next => simp [newest]
    next =>
      have := wrapping.below fd member
      simp only
      omega
  next =>
    intro fd member
    rcases List.mem_cons.mp member with rfl | member
    next => exact (phaseIn_snoc_same event wrapping.current).trans moves
    next =>
      rw [(wrapping.others event rfl (Nat.ne_of_lt (wrapping.below fd member))).1]
      exact wrapping.ready fd member
  next =>
    intro fd new
    rw [(wrapping.others event rfl (by simp only at new; omega)).1]
    exact wrapping.absent fd new
  next =>
    intro fd old outside _
    obtain ⟨differs, gone⟩ := not_or.mp (mt List.mem_cons.mpr outside)
    obtain ⟨same, older⟩ := wrapping.others event rfl differs
    rw [same]
    exact wrapping.closed fd (older old) gone

theorem given (wrapping : Wrapping live fresh w) {event : Event} (here : event.fd = fresh) {lost : Option Nat}
    (moves : lost = some fresh ∧ event.moves .fresh = some .lost ∨ lost = none ∧ event.moves .fresh = some .closed) :
    Holding live lost { w with log := w.log ++ [event] } := by
  subst here
  have newest := wrapping.newest
  have only : ∀ fd, lost = some fd → fd = event.fd := by
    rintro fd there
    rcases moves with ⟨same, -⟩ | ⟨none', -⟩
    next => exact Option.some.inj (there.symm.trans same)
    next => simp [none'] at there
  refine ⟨wrapping.once, ?_, ?_, ?_, ?_, ?_, ?_⟩
  next =>
    intro fd there
    obtain rfl := only fd there
    exact ⟨wrapping.apart, by simp [newest]⟩
  next =>
    intro fd member
    have := wrapping.below fd member
    simp only
    omega
  next =>
    intro fd member
    rw [(wrapping.others event rfl (Nat.ne_of_lt (wrapping.below fd member))).1]
    exact wrapping.ready fd member
  next =>
    intro fd there
    obtain rfl := only fd there
    rcases moves with ⟨-, moves⟩ | ⟨none', -⟩
    next => exact (phaseIn_snoc_same event wrapping.current).trans moves
    next => simp [none'] at there
  next =>
    intro fd new
    rw [(wrapping.others event rfl (by simp only at new; omega)).1]
    exact wrapping.absent fd new
  next =>
    intro fd old gone outside
    by_cases same : fd = event.fd
    next =>
      subst same
      rcases moves with ⟨same, -⟩ | ⟨-, moves⟩
      next => exact absurd same outside
      next => exact (phaseIn_snoc_same event wrapping.current).trans moves
    next =>
      obtain ⟨kept, older⟩ := wrapping.others event rfl same
      rw [kept]
      exact wrapping.closed fd (older old) gone

end Wrapping

end Protocol

section Runs

variable {live : List Nat} {fd : Nat}

abbrev Raised (live : List Nat) (w : World σ) : Prop := ∃ lost, Holding live lost w

abbrev Tidy {α : Type} (live : List Nat) (program : EStateM Exn (World σ) α) : Prop :=
  Runs (Holding live none) program (fun _ => Holding live none) (Raised live)

theorem record_tidy {event : Event} (member : event.fd ∈ live) (stays : event.moves .ready = some .ready) :
    Tidy (σ := σ) live (record event) := .modify fun _ holding => holding.record member stays

theorem inSystem_tidy {α : Type} (call : StateM σ α) : Tidy live (inSystem call) := fun w holding =>
  holding.inSystem (call w.system).2

theorem inSystem_wrapping {α : Type} {raised : World σ → Prop} (call : StateM σ α) :
    Runs (Wrapping live fd) (inSystem call) (fun _ => Wrapping live fd) raised := fun w wrapping =>
  wrapping.inSystem (call w.system).2

theorem throw_tidy {α : Type} {after : α → World σ → Prop} (e : Exn) :
    Runs (Holding live none) (throw e : EStateM Exn (World σ) α) after (Raised live) :=
  .throw fun _ holding => ⟨none, holding⟩

section Recording

variable (event : Event) {raised : World σ → Prop}

theorem record_wrapping (here : event.fd = fd) (stays : event.moves .fresh = some .fresh) :
    Runs (Wrapping live fd) (record event) (fun _ => Wrapping live fd) raised :=
  .modify fun _ wrapping => wrapping.record here stays

theorem record_wraps (here : event.fd = fd) (moves : event.moves .fresh = some .ready) :
    Runs (Wrapping live fd) (record event) (fun _ => Holding (fd :: live) none) raised :=
  .modify fun _ wrapping => wrapping.wrapped here moves

theorem record_closes (here : event.fd = fd) (moves : event.moves .fresh = some .closed) :
    Runs (Wrapping live fd) (record event) (fun _ => Holding live none) raised :=
  .modify fun _ wrapping => wrapping.given here (.inr ⟨rfl, moves⟩)

theorem record_loses {α : Type} {after : α → World σ → Prop} (here : event.fd = fd)
    (moves : event.moves .fresh = some .lost)
    (e : Exn) : Runs (Wrapping live fd) (record event >>= fun _ => (throw e : EStateM Exn (World σ) α)) after
      (Raised live) := by
  have failed : Runs (Wrapping live fd) (record event) (fun _ => Holding live (some fd)) (Raised (σ := σ) live) :=
    .modify fun _ wrapping => wrapping.given here (.inl ⟨rfl, moves⟩)
  exact failed.bind fun _ => .throw fun _ holding => ⟨_, holding⟩

end Recording

theorem readEntry_tidy (path : Bytes) (errno : Nat) (member : fd ∈ live) (names : List Bytes) :
    Tidy (σ := σ) live (readEntry path fd errno names) := by
  induction names with
  | nil =>
    refine .ite (fun _ => ?_) fun _ => ?_
    next => exact (record_tidy member rfl).bind fun _ => throw_tidy _
    next => exact (record_tidy member rfl).bind fun _ => .pure fun _ => id
  | cons name names ih =>
    refine (record_tidy member rfl).bind fun _ => .ite (fun _ => ih) fun _ => ?_
    exact .pure fun _ => id

-- The first read, by the constructor: the wrapper has the descriptor once an entry or the end was read.
theorem readEntry_wraps (path : Bytes) (errno : Nat) (names : List Bytes) :
    Runs (Wrapping live fd) (readEntry path fd errno names : EStateM Exn (World σ) _)
      (fun _ => Holding (fd :: live) none) (Raised live) := by
  induction names with
  | nil =>
    refine .ite (fun _ => ?_) fun _ => ?_
    next => exact record_loses (.read fd (.error errno)) rfl rfl _
    next => exact (record_wraps (.read fd (.ok none)) rfl rfl).bind fun _ => .pure fun _ => id
  | cons name names ih =>
    by_cases skipped : isDots name = true
    next =>
      have stays : (Event.read fd (.ok (some name))).moves .fresh = some .fresh := by simp [Event.moves, skipped]
      simp only [readEntry, skipped, if_true]
      exact (record_wrapping _ rfl stays).bind fun _ => ih
    next =>
      have moves : (Event.read fd (.ok (some name))).moves .fresh = some .ready := by simp [Event.moves, skipped]
      simp only [readEntry, skipped, Bool.false_eq_true, if_false]
      exact (record_wraps _ rfl moves).bind fun _ => .pure fun _ => id

namespace DirentWrapper

variable (system : System σ) {dir : DirentWrapper}

def Constructed (pfd : Option Nat) (live : List Nat) (dir : DirentWrapper) (w : World σ) : Prop :=
  dir.pfd = pfd ∧ Holding (dir.fd :: live) none w

theorem next_wraps (dir : DirentWrapper) : Runs (Wrapping live dir.fd) (dir.next : EStateM Exn (World σ) _)
    (Constructed dir.pfd live) (Raised live) :=
  (readEntry_wraps dir.path dir.stream.errno dir.stream.names).bind fun _ => .pure fun _ holding => ⟨rfl, holding⟩

theorem opening_wraps {raised : World σ → Prop} {rest : Nat → EStateM Exn (World σ) DirentWrapper}
    {after : DirentWrapper → World σ → Prop} (wraps : ∀ fd, Runs (Wrapping live fd) (rest fd) after raised) :
    Runs (Holding live none) (opening >>= rest) after raised := by
  intro w holding
  rw [bind_ok rest (show opening w = .ok _ _ from rfl)]
  exact wraps w.opened _ holding.opening

theorem ofDescriptor_wraps (pfd : Nat) (path : Bytes) :
    Runs (Wrapping live fd) (ofDescriptor system fd pfd path) (Constructed (some pfd) live) (Raised live) := by
  refine (record_wrapping (.used fd) rfl rfl).bind fun _ => (inSystem_wrapping _).bind fun answer => ?_
  cases answer with
  | error errno =>
    exact (inSystem_wrapping _).bind fun _ => (record_closes (.closed fd) rfl rfl).bind fun _ => throw_tidy _
  | ok stream => exact next_wraps ⟨fd, some pfd, path, none, stream⟩

theorem openDir_wraps (path : Bytes) :
    Runs (Holding live none) (openDir system path) (Constructed none live) (Raised live) := by
  refine .get fun w holding => .starting ?_ holding
  refine (inSystem_tidy _).bind fun answer => ?_
  cases answer with
  | error errno => exact throw_tidy _
  | ok stream =>
    refine opening_wraps fun fd => (inSystem_wrapping _).bind fun answer => ?_
    cases answer with
    | error errno => exact record_loses (.asked fd (.error errno)) rfl rfl _
    | ok => exact (record_wrapping (.asked fd (.ok ())) rfl rfl).bind fun _ => next_wraps ⟨fd, none, path, none, stream⟩

theorem nextDir_wraps (member : dir.fd ∈ live) (entry : Bytes) :
    Runs (Holding live none) (dir.nextDir system entry) (Constructed (some dir.fd) live) (Raised live) := by
  refine .get fun w holding => .starting ?_ holding
  refine (record_tidy member rfl).bind fun _ => (inSystem_tidy _).bind fun answer => ?_
  cases answer with
  | error errno => exact throw_tidy _
  | ok => exact opening_wraps fun fd => ofDescriptor_wraps system dir.fd (dir.currentEntryPath entry)

theorem currentEntryIsDirectory_tidy (member : dir.fd ∈ live) (entry : Bytes) :
    Tidy live (dir.currentEntryIsDirectory system entry) := by
  refine (record_tidy member rfl).bind fun _ => (inSystem_tidy _).bind fun answer => ?_
  cases answer with
  | error errno => exact throw_tidy _
  | ok isDirectory => exact .pure fun _ => id

theorem close_tidy {body : EStateM Exn (World σ) PUnit} (tidy : Tidy (dir.fd :: live) body) :
    Runs (Holding (dir.fd :: live) none) (ensuring (dir.close system) body) (fun _ => Holding live none)
      (Raised live) := by
  refine tidy.ensuring ?_ ?_
  next => exact fun _ _ holding => (holding.inSystem _).close
  next => exact fun _ ⟨lost, holding⟩ => ⟨lost, (holding.inSystem _).close⟩

theorem remainingEntries_tidy (member : dir.fd ∈ live) {body : Bytes → EStateM Exn (World σ) PUnit}
    (each : ∀ entry, Tidy live (body entry)) (names : List Bytes) : Tidy live (dir.remainingEntries body names) := by
  induction names with
  | nil => exact (readEntry_tidy dir.path dir.stream.errno member []).bind fun _ => .pure fun _ => id
  | cons name names ih =>
    refine (record_tidy member rfl).bind fun _ => .ite (fun _ => ih) fun _ => ?_
    exact (each name).bind fun _ => ih

theorem whileEntry_tidy (member : dir.fd ∈ live) {body : Bytes → EStateM Exn (World σ) PUnit}
    (each : ∀ entry, Tidy live (body entry)) : Tidy live (dir.whileEntry body) := by
  unfold whileEntry
  cases dir.entry with
  | none => exact .pure fun _ => id
  | some entry => exact (each entry).bind fun _ => remainingEntries_tidy member each _

end DirentWrapper

variable (system : System σ) {dir : DirentWrapper} (dirFunc fileFunc : Option (DirectoryTraversalFn σ))

theorem apply_tidy (func : DirectoryTraversalFn σ) (path : Bytes) {fd : Option Nat} (members : ∀ n ∈ fd, n ∈ live) :
    Tidy live (apply func path fd) := by
  have used : Tidy (σ := σ) live (forM fd.toList fun n => record (.used n)) :=
    .forM_keeps fun n member => record_tidy (members n (Option.mem_toList.mp member)) rfl
  refine used.bind fun _ => fun w holding => ?_
  unfold onSystem
  cases func path fd w.system with
  | ok _ s => exact holding.inSystem s
  | error e s => exact ⟨none, holding.inSystem s⟩

theorem applyToEntry_tidy {recurse : DirentWrapper → EStateM Exn (World σ) PUnit} (member : dir.fd ∈ live)
    (recurses : ∀ next : DirentWrapper, next.pfd = some dir.fd → Tidy (next.fd :: live) (recurse next))
      (entry : Bytes) :
    Tidy live (applyToEntry system fileFunc recurse dir entry) := by
  refine (dir.currentEntryIsDirectory_tidy system member entry).bind fun isDirectory => ?_
  cases isDirectory with
  | true =>
    refine (dir.nextDir_wraps system member entry).bind fun next => ?_
    exact .of_and fun parent => next.close_tidy system (recurses next parent)
  | false =>
    cases fileFunc with
    | some fileFunc => exact apply_tidy fileFunc entry fun n same => Option.mem_some.mp same ▸ member
    | none => exact .pure fun _ => id

-- By induction on the stack, with the wrappers of all directories above.
theorem fileDescriptorTraverseAndApply_tidy (passParentFd : Bool) (stack : Nat) (applyToRoot : Bool)
    (member : dir.fd ∈ live)
    (parent : ∀ n ∈ dir.pfd, n ∈ live) :
    Tidy live (fileDescriptorTraverseAndApply system dirFunc fileFunc passParentFd stack dir applyToRoot) := by
  induction stack generalizing live dir applyToRoot with
  | zero => exact throw_tidy _
  | succ stack ih =>
    have recurses : ∀ next : DirentWrapper, next.pfd = some dir.fd → Tidy (next.fd :: live)
        (fileDescriptorTraverseAndApply system dirFunc fileFunc passParentFd stack next true) := by
      intro next above
      refine ih true List.mem_cons_self fun n same => ?_
      rw [above, Option.mem_some] at same
      exact List.mem_cons_of_mem _ (same ▸ member)
    refine (dir.whileEntry_tidy member (applyToEntry_tidy system fileFunc member recurses)).bind fun _ => ?_
    cases applyToRoot with
    | false => exact .pure fun _ => id
    | true =>
      cases dirFunc with
      | none => exact .pure fun _ => id
      | some dirFunc =>
        refine apply_tidy dirFunc dir.path fun n same => ?_
        cases passParentFd with
        | true => exact parent n same
        | false => exact Option.mem_some.mp same ▸ member

theorem traverse_tidy (passParentFd : Bool) (stack : Nat) (path : Bytes) (applyToRoot : Bool) :
    Tidy [] (traverse system dirFunc fileFunc passParentFd stack path applyToRoot) := by
  refine (DirentWrapper.openDir_wraps system (cString path)).bind fun root => .of_and fun orphan => ?_
  refine root.close_tidy system
    (fileDescriptorTraverseAndApply_tidy system dirFunc fileFunc passParentFd stack applyToRoot
    List.mem_cons_self fun n same => ?_)
  simp [orphan] at same

theorem traverse_closes (passParentFd : Bool) (stack : Nat) (path : Bytes) (applyToRoot : Bool) (s : σ) :
    match traverse system dirFunc fileFunc passParentFd stack path applyToRoot ⟨s, 0, []⟩ with
    | .ok () w => ∀ fd, phaseIn w.log fd = some (if fd < w.opened then .closed else .absent)
    | .error _ w => ∃ lost : Option Nat, ∀ fd, phaseIn w.log fd =
        some (if fd < w.opened then if lost = some fd then .lost else .closed else .absent) := by
  have ended := traverse_tidy system dirFunc fileFunc passParentFd stack path applyToRoot ⟨s, 0, []⟩ (.create s)
  cases run : traverse system dirFunc fileFunc passParentFd stack path applyToRoot ⟨s, 0, []⟩ with
  | ok a w =>
    rw [run] at ended
    simpa using ended.settled
  | error e w =>
    rw [run] at ended
    obtain ⟨lost, holding⟩ := ended
    exact ⟨lost, holding.settled⟩

end Runs

def unreadable : System Unit where
  opendir := fun _ _ => pure (.ok ⟨[], 5⟩)
  dirfd := fun _ => pure (.ok ())
  fstatat := fun _ _ => pure (.ok false)
  openat := fun _ _ _ => pure (.ok ())
  fdopendir := fun _ => pure (.ok ⟨[], 5⟩)
  close := fun _ => pure (.ok ())
  closedir := fun _ => pure (.ok ())

example : (match traverse unreadable none none false 1 (text "/") true ⟨(), 0, []⟩ with
    | .ok () _ => none
    | .error _ w => phaseIn w.log 0) = some .lost := by decide

end BuildboxCommon.DirectoryStreams
