import BuildboxCommon.FileUtils.CopyFile
import BuildboxCommon.Merklize.MakeNestedDirectory
import BuildboxCommon.TimeUtils

set_option autoImplicit false

namespace BuildboxCommon

open ByteString PathResolution Posix TimeUtils

namespace Posix

namespace FileObject

variable {ι : Type}

def mtime : FileObject ι → Int
  | .regular _ _ mtime | .directory _ _ _ mtime => mtime
  | .symlink _ => 0

def withMtime (mtime : Int) : FileObject ι → FileObject ι
  | .regular contents permissions _ => .regular contents permissions mtime
  | .directory parent entries permissions _ => .directory parent entries permissions mtime
  | .symlink target => .symlink target

@[simp] theorem shape_withMtime (mtime : Int) (object : FileObject ι) : (object.withMtime mtime).shape =
  object.shape := by
  cases object <;> rfl

theorem mtime_withMtime (mtime : Int) {object : FileObject ι} (plain : ∀ target, object ≠ .symlink target) :
    (object.withMtime mtime).mtime = mtime := by
  cases object with
  | regular | directory => rfl
  | symlink target => exact absurd rfl (plain target)

end FileObject

theorem Disk.fits_withMtime (disk : Disk) (node : Nat) (mtime : Int) :
    disk.Fits ((disk.files.object node).withMtime mtime) := by
  cases kind : disk.files.object node with
  | regular | symlink => trivial
  | directory =>
    have fits := Disk.fits_entries kind fun _ member => .inl member
    exact fits

end Posix

namespace FileUtils.FileMtime

inductive File where
  | path (path : Bytes)
  | fd (fd : Int)

structure TimedDisk where
  disk : Disk
  atime : Nat → Int
  opened : Int → Option Nat

structure Failures where
  stat : Option Nat
  utimens : Option Nat

structure Stat where
  stAtim : Timespec
  stMtim : Timespec

namespace TimedDisk

variable (state : TimedDisk) (failures : Failures)

def find : File → Except Nat Nat
  | .path path => state.disk.files.pathname true state.disk.files.currentDirectory path
  | .fd fd =>
    match state.opened fd with
    | none => .error CopyFile.ebadf
    | some node => .ok node

def stat (file : File) : Except Nat Stat :=
  match state.find file, failures.stat with
  | .error errno, _ | .ok _, some errno => .error errno
  | .ok node, none => .ok ⟨.ofInstant (state.atime node), .ofInstant (state.disk.files.object node).mtime⟩

def touch (node : Nat) (atime mtime : Timespec) : TimedDisk :=
  { state with
    disk := state.disk.store node _ (state.disk.fits_withMtime node mtime.instant)
    atime := Function.update state.atime node atime.instant }

-- `utimensat` and `futimens`. `UTIME_NOW` and `UTIME_OMIT` are left out, both are above a second.
def utimens (file : File) (atime mtime : Timespec) : Except Nat TimedDisk :=
  match state.find file with
  | .error errno => .error errno
  | .ok node =>
    if atime.Valid ∧ mtime.Valid then
      match failures.utimens with
      | some errno => .error errno
      | none => .ok (state.touch node atime mtime)
    else .error einval

def getFileStat (file : File) : Except Exn Stat :=
  match state.stat failures file with
  | .ok statResult => .ok statResult
  | .error errno =>
    .error (.systemError errno
      (match file with
      | .path path => text "Failed to get file stats at \"" ++ cString path ++ text "\""
      | .fd fd => text "Failed to get file stats for file descriptor " ++ text (toString fd)))

def getMtimeTimepoint (result : Stat) : Except Exn TimePoint :=
  TimePoint.ofParts result.stMtim.tvSec result.stMtim.tvNsec

def getFileMtime (file : File) : Except Exn TimePoint :=
  match state.getFileStat failures file with
  | .error e => .error e
  | .ok statResult => getMtimeTimepoint statResult

def setFileMtime (file : File) (timepoint : TimePoint) : Except Exn TimedDisk :=
  let newMtime := makeTimespec timepoint
  match state.getFileStat failures file with
  | .error e => .error e
  | .ok statResult =>
    match state.utimens failures file statResult.stAtim newMtime with
    | .ok after => .ok after
    | .error errno =>
      .error (.systemError errno
        (match file with
        | .path path => text "Failed to set file \"" ++ cString path ++ text "\" mtime"
        | .fd _ => text "Failed to set file mtime"))

end TimedDisk

open TimedDisk

structure Faithful (util : TimeUtil) (t : TimePoint) : Prop where
  valid : (makeTimespec t).Valid
  timespec : (makeTimespec t).instant = t.truncate.count
  timestamp : (TimeUtils.makeTimestamp util t).instant = t.truncate.count
  parsed : TimeUtils.parseTimestamp (TimeUtils.makeTimestamp util t) = .ok t.truncate
  kept : ∀ (state : TimedDisk) (file : File) (node : Nat), state.find file = .ok node →
    ¬state.disk.files.graph.IsLink node → ∃ after, state.setFileMtime ⟨none, none⟩ file t = .ok after ∧
      ∀ again, state.find again = .ok node → after.getFileMtime ⟨none, none⟩ again = .ok t.truncate

section Touch

variable (state : TimedDisk) (node : Nat) (atime mtime : Timespec)

theorem graph_touch : (state.touch node atime mtime).disk.files.graph = state.disk.files.graph := by
  have shape (other : Nat) : ((state.touch node atime mtime).disk.files.object other).shape =
      (state.disk.files.object other).shape := by
    simp only [touch, Disk.object_store]
    by_cases same : other = node
    next => rw [same, Function.update_self, FileObject.shape_withMtime]
    next => rw [Function.update_of_ne same]
  simp only [FileSystem.graph, shape]
  rfl

theorem find_touch (file : File) : (state.touch node atime mtime).find file = state.find file := by
  cases file with
  | path path =>
    simp only [find, FileSystem.pathname, graph_touch]
    rfl
  | fd fd => rfl

theorem mtime_touch (plain : ¬state.disk.files.graph.IsLink node) :
    ((state.touch node atime mtime).disk.files.object node).mtime = mtime.instant := by
  simp only [touch, Disk.object_store, Function.update_self]
  exact FileObject.mtime_withMtime _ fun target link => plain ((FileSystem.isLink_iff node).mpr ⟨target, link⟩)

end Touch

variable {state : TimedDisk} {file : File} {node : Nat}

theorem getFileStat_found (found : state.find file = .ok node) : state.getFileStat ⟨none, none⟩ file =
    .ok ⟨.ofInstant (state.atime node), .ofInstant (state.disk.files.object node).mtime⟩ := by
  simp only [getFileStat, stat, found]

theorem setFileMtime_full (found : state.find file = .ok node) {t : TimePoint} (full : ¬t.Fractional) :
    state.setFileMtime ⟨none, none⟩ file t =
      .ok (state.touch node (.ofInstant (state.atime node)) (makeTimespec t)) := by
  have old := Timespec.valid_ofInstant (state.atime node)
  have new := (valid_makeTimespec_iff t).mpr full
  simp only [setFileMtime, getFileStat_found found, utimens, found, old, new, and_self, if_true]

theorem getFileMtime_found (found : state.find file = .ok node) {t : TimePoint}
    (mtime : (state.disk.files.object node).mtime = t.truncate.count)
    (start : -2 ^ 63 ≤ t.truncate.count / 1000000000 * 1000000000) :
    state.getFileMtime ⟨none, none⟩ file = .ok t.truncate := by
  have valid := Timespec.valid_ofInstant t.truncate.count
  simp only [TimedDisk.getFileMtime, getFileStat_found found, getMtimeTimepoint, mtime]
  exact (TimePoint.ofParts_ok_iff valid.1 valid.2 (Timespec.instant_ofInstant _)).mpr start

theorem setFileMtime_faithful_iff (util : TimeUtil) (t : TimePoint) : Faithful util t ↔ ¬t.Fractional := by
  constructor
  next => exact fun faithful => (valid_makeTimespec_iff t).mp faithful.valid
  next =>
    intro full
    have start := TimePoint.seconds_range full
    refine ⟨(valid_makeTimespec_iff t).mpr full, instant_makeTimespec t, instant_makeTimestamp util t,
      (parseTimestamp_makeTimestamp_iff util t).mpr start, fun state file node found plain => ?_⟩
    refine ⟨_, setFileMtime_full found full, fun again reached => ?_⟩
    refine getFileMtime_found ((find_touch _ _ _ _ again).trans reached) ?_ start
    exact (mtime_touch _ _ _ _ plain).trans (instant_makeTimespec t)

theorem setFileMtime_unfaithful : makeTimespec ⟨-500000000, by decide⟩ = ⟨0, -500000000⟩ ∧
    ¬Faithful .normalized ⟨-500000000, by decide⟩ := by
  have negative : makeTimespec ⟨-500000000, by decide⟩ = ⟨0, -500000000⟩ := by decide
  exact ⟨negative, fun faithful => absurd faithful.valid (by rw [negative]; decide)⟩

end FileUtils.FileMtime

end BuildboxCommon
