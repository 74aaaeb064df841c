import BuildboxCommon.Client.LocalHost
import BuildboxCommon.FileUtils.CopyFile
import BuildboxCommon.Posix.Agreement
import BuildboxCommon.Shared.Transitions

set_option autoImplicit false

namespace BuildboxCommon.WriteFileAtomically

open ByteString FileUtils LexicalPath PathResolution Posix Posix.Disk Transitions

-- `write` at an offset of an open file. What lies between the end and the offset is filled with zeros.
def writeAt (disk : Disk) (stream offset : Nat) (data : Bytes) : Disk :=
  match disk.files.object stream with
  | .regular contents permissions mtime =>
    disk.store stream (.regular (contents.take offset ++ List.replicate (offset - contents.length) nul ++ data ++
      contents.drop (offset + data.length)) permissions mtime) (disk.fits_regular _ _ _)
  | .directory _ _ _ _ | .symlink _ => disk

structure Arguments (κ : Type) where
  path : Bytes
  data : κ → Bytes
  mode : κ → Nat
  intermediateDirectory : κ → Bytes
  tempPrefix : κ → Bytes

structure TemporaryFile where
  place : Nat × Name
  fd : Nat
  name : Bytes
deriving DecidableEq

inductive Call where
  | beginning
  | created (temp : TemporaryFile)
  | opening (temp : TemporaryFile)
  | writing (temp : TemporaryFile) (stream written : Nat)
  | replacing (temp : TemporaryFile)
  | removing (temp : TemporaryFile) (outcome : Except Nat Unit)
  | finished (outcome : Except Nat Unit)
deriving DecidableEq

structure State (κ : Type) where
  disk : Disk
  calls : κ → Call
  handed : List (Nat × Name)
  renamed : List κ

structure Choice (κ : Type) where
  thread : κ
  refusal : Option CopyFile.Errno
  suffix : TempSuffix
  count : Nat
  junk : Bytes

variable {κ : Type}

namespace Arguments

variable (arguments : Arguments κ) (thread : κ)

def temporaryDirectory : Bytes :=
  if arguments.intermediateDirectory thread ≠ [] then arguments.intermediateDirectory thread
  else dirname (cString arguments.path)

def tempFile (suffix : TempSuffix) : Bytes :=
  let template := cString (arguments.temporaryDirectory thread) ++ text "/" ++ cString (arguments.tempPrefix thread) ++
    text "XXXXXX"
  template.take (template.length - 6) ++ suffix.1

end Arguments

def begin (disk : Disk) : State κ := ⟨disk, fun _ => .beginning, [], []⟩

variable [DecidableEq κ]

def State.moved (s : State κ) (thread : κ) (disk : Disk) (call : Call) : State κ :=
  { s with disk := disk, calls := Function.update s.calls thread call }

-- Up to the next system call of one of the threads. `mkstemp` never makes a file at the same place twice.
def step (arguments : Arguments κ) (choice : Choice κ) (s : State κ) : Option (State κ) :=
  let thread := choice.thread
  match s.calls thread with
  | .beginning =>
    let name := arguments.tempFile thread choice.suffix
    match choice.refusal with
    | some errno => some (s.moved thread s.disk (.finished (.error errno)))
    | none =>
      match s.disk.locate name, s.disk.mkstemp name with
      | .ok place, .ok disk =>
        if place ∈ s.handed then none
        else some { s.moved thread disk (.created ⟨place, s.disk.next, normalizePath name⟩) with
          handed := place :: s.handed }
      | .error errno, _ | .ok _, .error errno => some (s.moved thread s.disk (.finished (.error errno)))
  | .created temp =>
    let disk := match choice.refusal with
      | some _ => s.disk
      | none => if arguments.mode thread ≠ 0o600 then setMode s.disk temp.fd (arguments.mode thread) else s.disk
    some (s.moved thread disk (.opening temp))
  | .opening temp =>
    match choice.refusal with
    | some errno => some (s.moved thread s.disk (.removing temp (.error errno)))
    | none =>
      match s.disk.openTruncated temp.name 0o666 with
      | .error errno => some (s.moved thread s.disk (.removing temp (.error errno)))
      | .ok (disk, stream) => some (s.moved thread disk (.writing temp stream 0))
  | .writing temp stream written =>
    match choice.refusal with
    | some errno => some (s.moved thread (writeAt s.disk stream written choice.junk) (.removing temp (.error errno)))
    | none =>
      if written < (arguments.data thread).length then
        let chunk := ((arguments.data thread).drop written).take (choice.count + 1)
        some (s.moved thread (writeAt s.disk stream written chunk) (.writing temp stream (written + chunk.length)))
      else some (s.moved thread s.disk (.replacing temp))
  | .replacing temp =>
    match choice.refusal with
    | some errno => some (s.moved thread s.disk (.removing temp (.error errno)))
    | none =>
      match s.disk.rename temp.name (cString arguments.path) with
      | .error errno => some (s.moved thread s.disk (.removing temp (.error errno)))
      | .ok disk => some { s.moved thread disk (.removing temp (.ok ())) with renamed := s.renamed ++ [thread] }
  | .removing temp outcome =>
    match s.disk.unlink temp.name with
    | .error _ => some (s.moved thread s.disk (.finished outcome))
    | .ok disk => some (s.moved thread disk (.finished outcome))
  | .finished _ => none

inductive Seen where
  | file (contents : Bytes)
  | directory
deriving DecidableEq

def Seen.of : FileObject Nat → Option Seen
  | .regular contents _ _ => some (.file contents)
  | .directory _ _ _ _ => some .directory
  | .symlink _ => none

def view (path : Bytes) (disk : Disk) : Option Seen :=
  match disk.files.pathname true disk.files.currentDirectory path with
  | .error _ => none
  | .ok node => Seen.of (disk.files.object node)

def clear (arguments : Arguments κ) (choice : Choice κ) (s : State κ) : Bool :=
  let name := arguments.tempFile choice.thread choice.suffix
  match s.calls choice.thread, choice.refusal, s.disk.locate name, s.disk.mkstemp name with
  | .beginning, none, .ok place, .ok made =>
    let target := (s.disk.locate arguments.path).toOption
    ((without target s.disk).locate (normalizePath name)).toOption = some place ∧
      ((without target s.disk).locate arguments.path).toOption = target ∧
        (made.files.pathname true made.files.currentDirectory arguments.path).toOption ≠ some s.disk.next
  | _, _, _, _ => true

omit [DecidableEq κ] in
theorem view_congr {path : Bytes} {before after : Disk}
    (paths : ∀ node, after.files.pathname true after.files.currentDirectory path = .ok node ↔
      before.files.pathname true before.files.currentDirectory path = .ok node)
    (objects : ∀ node, before.files.pathname true before.files.currentDirectory path = .ok node →
      Seen.of (after.files.object node) = Seen.of (before.files.object node)) : view path after = view path before := by
  unfold view
  cases reached : before.files.pathname true before.files.currentDirectory path with
  | ok node =>
    rw [(paths node).mpr reached]
    exact objects node reached
  | error errno =>
    cases reached' : after.files.pathname true after.files.currentDirectory path with
    | ok node =>
      rw [(paths node).mp reached'] at reached
      cases reached
    | error errno' => rfl

theorem view_file {path contents : Bytes} {disk : Disk} {node : Nat} {permissions : Fin 0o10000} {mtime : Int}
    (reached : disk.files.pathname true disk.files.currentDirectory path = .ok node)
    (object : disk.files.object node = .regular contents permissions mtime) :
    view path disk = some (.file contents) := by
  simp only [view, reached, object, Seen.of]

theorem seen_of_outline {first second : FileObject Nat} (same : second.outline = first.outline)
    (contents : ∀ contents permissions mtime, first = .regular contents permissions mtime →
      second = .regular contents permissions mtime) : Seen.of second = Seen.of first := by
  cases first with
  | regular data permissions mtime => rw [contents data permissions mtime rfl]
  | directory | symlink => cases second <;> simp_all [FileObject.outline, Seen.of]

namespace Call

def temp : Call → Option TemporaryFile
  | .created temp | .opening temp | .writing temp _ _ | .replacing temp | .removing temp _ => some temp
  | .beginning | .finished _ => none

def live : Call → Option TemporaryFile
  | .created temp | .opening temp | .writing temp _ _ | .replacing temp | .removing temp (.error _) => some temp
  | .beginning | .removing _ (.ok _) | .finished _ => none

def renamed : Call → Bool
  | .removing _ (.ok _) | .finished (.ok _) => true
  | .beginning | .created _ | .opening _ | .writing _ _ _ | .replacing _ | .removing _ (.error _) | .finished
    (.error _) => false

def Filled (data : Bytes) (disk : Disk) : Call → Prop
  | .writing temp stream written => stream = temp.fd ∧ written ≤ data.length ∧
      ∃ permissions mtime, disk.files.object temp.fd = .regular (data.take written) permissions mtime
  | .replacing temp => ∃ permissions mtime, disk.files.object temp.fd = .regular data permissions mtime
  | .removing temp (.ok _) => disk.find temp.place.1 temp.place.2.1 = none
  | .beginning | .created _ | .opening _ | .removing _ (.error _) | .finished _ => True

theorem temp_of_live {call : Call} {temp : TemporaryFile} (live : call.live = some temp) : call.temp = some temp := by
  cases call with
  | removing other outcome => cases outcome <;> simp_all [Call.live, Call.temp]
  | _ => simp_all [Call.live, Call.temp]

theorem not_renamed_of_live {call : Call} {temp : TemporaryFile} (live : call.live = some temp) :
    call.renamed = false := by
  cases call with
  | removing other outcome => cases outcome <;> simp_all [Call.live, Call.renamed]
  | _ => simp_all [Call.live, Call.renamed]

end Call

theorem toOption_eq_some {α : Type} {result : Except Nat α} {value : α} :
    result.toOption = some value ↔ result = .ok value := by
  cases result <;> simp [Except.toOption]

def Arguments.target (arguments : Arguments κ) (initial : Disk) : Option (Nat × Name) :=
  (initial.locate arguments.path).toOption

structure Placed (arguments : Arguments κ) (initial : Disk) (s : State κ) (temp : TemporaryFile) : Prop where
  handed : temp.place ∈ s.handed
  new : initial.next ≤ temp.fd
  used : temp.fd < s.disk.next
  located : (without (arguments.target initial) s.disk).locate temp.name = .ok temp.place

structure There (arguments : Arguments κ) (disk : Disk) (temp : TemporaryFile) : Prop where
  found : disk.find temp.place.1 temp.place.2.1 = some temp.fd
  file : ∃ contents permissions mtime, disk.files.object temp.fd = .regular contents permissions mtime
  unseen : disk.files.pathname true disk.files.currentDirectory arguments.path ≠ .ok temp.fd

structure Picked (arguments : Arguments κ) (initial : Disk) (place : Nat × Name) : Prop where
  known : place.1 < initial.next
  absent : initial.find place.1 place.2.1 = none
  apart : arguments.target initial ≠ some place

structure Replaced (arguments : Arguments κ) (initial : Disk) (s : State κ) (thread : κ) (node : Nat) : Prop where
  found : ∀ place, arguments.target initial = some place → s.disk.find place.1 place.2.1 = some node
  file : ∃ permissions mtime, s.disk.files.object node = .regular (arguments.data thread) permissions mtime
  used : node < s.disk.next
  others : ∀ other temp, (s.calls other).live = some temp → temp.fd ≠ node

-- What holds between the steps. Some files are settled, no call writes to them.
structure Invariant (arguments : Arguments κ) (initial : Disk) (settled : Nat → Bytes → Prop) (s : State κ) : Prop where
  alike : Alike initial s.disk
  unwritten : ∀ node contents, settled node contents → node < s.disk.next ∧
    (∀ thread temp, (s.calls thread).live = some temp → temp.fd ≠ node) ∧
      ∃ permissions mtime, s.disk.files.object node = .regular contents permissions mtime
  leaves : ∀ node, initial.next ≤ node → node < s.disk.next → (s.disk.files.object node).outline = .leaf
  picked : ∀ place ∈ s.handed, Picked arguments initial place
  placed : ∀ thread temp, (s.calls thread).temp = some temp → Placed arguments initial s temp
  there : ∀ thread temp, (s.calls thread).live = some temp → There arguments s.disk temp
  filled : ∀ thread, (s.calls thread).Filled (arguments.data thread) s.disk
  distinct : ∀ first second temp other, (s.calls first).temp = some temp → (s.calls second).temp = some other →
    first ≠ second → temp.place ≠ other.place ∧ temp.fd ≠ other.fd
  rest : ∀ here < initial.next, ∀ probe,
    (∀ thread temp, (s.calls thread).live = some temp → ¬(here = temp.place.1 ∧ probe = temp.place.2.1)) →
      (s.renamed ≠ [] → ¬At (arguments.target initial) here probe) → s.disk.find here probe = initial.find here probe
  lost : arguments.target initial = none → s.renamed = [] ∧ ∀ place, s.disk.locate arguments.path ≠ .ok place
  aimed : ∀ place, arguments.target initial = some place → s.handed ≠ [] →
    (without (some place) s.disk).locate arguments.path = .ok place
  begun : s.renamed ≠ [] → s.handed ≠ []
  unused : s.handed = [] → s.disk = initial
  seen : match s.renamed.getLast? with
    | none => view arguments.path s.disk = view arguments.path initial
    | some thread => ∃ node, Replaced arguments initial s thread node
  outcome : ∀ thread, thread ∈ s.renamed ↔ (s.calls thread).renamed = true

section Steps

variable {arguments : Arguments κ} {initial disk : Disk} {s : State κ} {thread : κ} {temp : TemporaryFile} {call : Call}
  {settled : Nat → Bytes → Prop}

@[simp] theorem calls_moved (other : κ) :
    (s.moved thread disk call).calls other = if other = thread then call else s.calls other := by
  simp [State.moved, Function.update_apply]

omit [DecidableEq κ] in
theorem Call.Filled.mono {data : Bytes} (filled : call.Filled data s.disk)
    (files : ∀ file, call.temp = some file → ∀ contents permissions mtime,
      s.disk.files.object file.fd = .regular contents permissions mtime →
        disk.files.object file.fd = .regular contents permissions mtime)
    (names : ∀ file, call.temp = some file → s.disk.find file.place.1 file.place.2.1 = none →
      disk.find file.place.1 file.place.2.1 = none) : call.Filled data disk := by
  cases call with
  | writing file stream written =>
    obtain ⟨same, within, permissions, mtime, object⟩ := filled
    exact ⟨same, within, permissions, mtime, files file rfl _ _ _ object⟩
  | replacing file =>
    obtain ⟨permissions, mtime, object⟩ := filled
    exact ⟨permissions, mtime, files file rfl _ _ _ object⟩
  | removing file outcome =>
    cases outcome with
    | error errno => trivial
    | ok done => exact names file rfl filled
  | beginning | created | opening | finished => trivial

omit [DecidableEq κ]

theorem target_held (arguments : Arguments κ) (initial : Disk) : Held (arguments.target initial) initial :=
  fun _ _ same => locate_directory (toOption_eq_some.mp same)

theorem view_touched {path : Bytes} (touched : Touched temp.place temp.fd s.disk disk)
    (unseen : s.disk.files.pathname true s.disk.files.currentDirectory path ≠ .ok temp.fd) :
    view path disk = view path s.disk := by
  have apart {node : Nat} (reached : s.disk.files.pathname true s.disk.files.currentDirectory path = .ok node) :
      node ≠ temp.fd := fun same => unseen (same ▸ reached)
  refine view_congr (fun node =>
    ⟨touched.pathname_back, fun reached => touched.agrees.pathname reached (apart reached)⟩) ?_
  intro node reached
  have used := CopyFile.used_of_pathname reached
  exact seen_of_outline (touched.alike.outline node used) (touched.others node used (apart reached))

namespace Invariant

variable (inv : Invariant arguments initial settled s)

include inv

theorem held : Held (arguments.target initial) s.disk := inv.alike.held (target_held arguments initial)

theorem located (has : (s.calls thread).temp = some temp) : s.disk.locate temp.name = .ok temp.place :=
  (without_agrees inv.held).locate (inv.placed thread temp has).located

theorem pathname (live : (s.calls thread).live = some temp) :
    s.disk.files.pathname true s.disk.files.currentDirectory temp.name = .ok temp.fd := by
  have there := inv.there thread temp live
  obtain ⟨contents, permissions, mtime, object⟩ := there.file
  exact pathname_of_locate (inv.located (Call.temp_of_live live)) there.found object

theorem aimed_now {place : Nat × Name} (aimed : arguments.target initial = some place) (some : s.handed ≠ []) :
    s.disk.locate arguments.path = .ok place :=
  (without_agrees (aimed ▸ inv.held)).locate (inv.aimed place aimed some)

theorem target_eq : (s.disk.locate arguments.path).toOption = arguments.target initial := by
  by_cases none : s.handed = []
  next => rw [inv.unused none, Arguments.target]
  next =>
    cases aimed : arguments.target initial with
    | some place => rw [inv.aimed_now aimed none]; rfl
    | none =>
      cases located : s.disk.locate arguments.path with
      | ok place => exact absurd located ((inv.lost aimed).2 place)
      | error errno => rfl

end Invariant

end Steps

end BuildboxCommon.WriteFileAtomically
