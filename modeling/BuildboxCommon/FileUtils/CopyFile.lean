import BuildboxCommon.FileUtils.CreateDirectory
import BuildboxCommon.Posix.OpenTruncated

set_option autoImplicit false

namespace BuildboxCommon

open ByteString FileUtils LexicalPath PathResolution Posix

namespace FileUtils

namespace CopyFile

def ebadf : Nat := 9
def bufsize : Nat := 65536

abbrev Errno := { errno : Nat // errno ≠ 0 }

structure Failures where
  stat : Option Errno
  openSource : Option Errno
  openDestination : Option Errno
  read : Nat → Except Errno Nat
  write : Nat → Option Nat
  fchmod : Option Errno
  closeSource : Option Errno
  closeDestination : Option Errno

structure Copy where
  err : Nat
  src : Option Nat
  dest : Option Nat
  disk : Disk

end CopyFile

open CopyFile

def readAt (disk : Disk) (src offset count : Nat) : Except Nat Bytes :=
  match disk.files.object src with
  | .regular contents _ _ => .ok ((contents.drop offset).take count)
  | .directory _ _ _ _ => .error eisdir
  | .symlink _ => .error einval

def append (disk : Disk) (dest : Nat) (data : Bytes) : Disk :=
  match disk.files.object dest with
  | .regular contents permissions mtime =>
    disk.store dest (.regular (contents ++ data) permissions mtime) (disk.fits_regular _ _ _)
  | .directory _ _ _ _ | .symlink _ => disk

theorem fits_mode (disk : Disk) (contents : Bytes) (mode : Nat) (mtime : Int) :
    disk.Fits (.regular contents (Fin.ofNat _ mode) mtime) :=
  disk.fits_regular _ _ _

def setMode (disk : Disk) (dest mode : Nat) : Disk :=
  match disk.files.object dest with
  | .regular contents _ mtime =>
    disk.store dest (.regular contents (Fin.ofNat _ mode) mtime) (fits_mode disk contents mode mtime)
  | .directory _ _ _ _ | .symlink _ => disk

def openFiles (failures : Failures) (source : Nat) (destPath : Bytes) (disk : Disk) : Copy :=
  let (err, src) := match failures.openSource with
    | some errno => (errno.1, none)
    | none => (0, some source)
  match failures.openDestination with
  | some errno => ⟨errno, src, none, disk⟩
  | none =>
    match disk.openTruncated destPath 0o644 with
    | .error errno => ⟨errno, src, none, disk⟩
    | .ok (disk, dest) => ⟨err, src, some dest, disk⟩

def wrsize (failures : Failures) (turn length : Nat) : Nat :=
  match failures.write turn with
  | none => length
  | some count => min count length

-- The `while` loop, with the value that `err` has after the check for `rdsize == -1`.
def copyLoop (failures : Failures) (src dest : Nat) : Nat → Nat → Nat → Disk → Option (Nat × Disk)
  | 0, _, _, _ => none
  | fuel + 1, turn, offset, disk =>
    match failures.read turn with
    | .error errno => some (errno, disk)
    | .ok count =>
      match readAt disk src offset (min (count + 1) bufsize) with
      | .error errno => some (errno, disk)
      | .ok buf =>
        if buf = [] then some (0, disk)
        else
          let disk := append disk dest (buf.take (wrsize failures turn buf.length))
          if wrsize failures turn buf.length ≠ buf.length then some (eio, disk)
          else copyLoop failures src dest fuel (turn + 1) (offset + buf.length) disk

def failing (failure : Option Errno) (err : Nat) : Nat :=
  match failure with
  | none => err
  | some errno => errno

def transfer (failures : Failures) (mode fuel : Nat) (copy : Copy) : Option Copy :=
  match copy.err, copy.src, copy.dest with
  | 0, some src, some dest =>
    match copyLoop failures src dest fuel 0 0 copy.disk with
    | none => none
    | some (err, disk) =>
      match failures.fchmod with
      | none => some { copy with err := err, disk := setMode disk dest mode }
      | some errno => some { copy with err := errno, disk := disk }
  | _, _, _ => some copy

def closing (failure : Option Errno) (descriptor : Option Nat) (err : Nat) : Nat :=
  if descriptor = none then ebadf else failing failure err

def finish (failures : Failures) (destPath : Bytes) (copy : Copy) : Except Nat Unit × Disk :=
  let err := closing failures.closeDestination copy.dest (closing failures.closeSource copy.src copy.err)
  if err ≠ 0 then
    match copy.disk.unlink destPath with
    | .error errno => (.error errno, copy.disk)
    | .ok disk => (.error err, disk)
  else (.ok (), copy.disk)

def copyFile (failures : Failures) (fuel : Nat) (srcPath destPath : Bytes) (disk : Disk) :
    Option (Except Nat Unit × Disk) :=
  match failures.stat with
  | some errno => some (.error errno, disk)
  | none =>
    match disk.files.pathname true disk.files.currentDirectory srcPath with
    | .error errno => some (.error errno, disk)
    | .ok source =>
      match transfer failures (disk.files.object source).stMode fuel (openFiles failures source destPath disk) with
      | none => none
      | some copy => some (finish failures destPath copy)

namespace CopyFile

open Disk

variable {disk after between : Disk} {failures : Failures} {src dest fuel turn offset mode err : Nat}
  {contents : Bytes} {permissions modes : Fin 0o10000} {mtime time : Int}

theorem setMode_file (file : disk.files.object dest = .regular contents permissions mtime) (mode : Nat) :
    Rewritten dest disk (setMode disk dest mode) ∧
      (setMode disk dest mode).files.object dest = .regular contents (Fin.ofNat _ mode) mtime := by
  simp only [setMode, file]
  exact ⟨.store file _ _ _, by rw [object_store, Function.update_self]⟩

def content : FileObject Nat → Option Bytes
  | .regular contents _ _ => some contents
  | .directory _ _ _ _ | .symlink _ => none

def Copied (srcPath destPath : Bytes) (before after : Disk) : Prop := ∃ source contents permissions mtime,
  before.files.pathname true before.files.currentDirectory srcPath = .ok source ∧
    before.files.object source = .regular contents permissions mtime ∧
    (∃ dest mtime, after.files.pathname true after.files.currentDirectory destPath = .ok dest ∧
      after.files.object dest = .regular contents permissions mtime) ∧
    after.files.pathname true after.files.currentDirectory srcPath = .ok source ∧
      ∃ mtime, after.files.object source = .regular contents permissions mtime

def Unharmed (srcPath : Bytes) (before after : Disk) : Prop := ∀ source,
  before.files.pathname true before.files.currentDirectory srcPath = .ok source →
    after.files.pathname true after.files.currentDirectory srcPath = .ok source ∧
      content (after.files.object source) = content (before.files.object source)

def Faithful (srcPath destPath : Bytes) (disk : Disk) : Prop := ∀ failures, ∃ fuel outcome after,
  copyFile failures fuel srcPath destPath disk = some (outcome, after) ∧
    (outcome = .ok () → Copied srcPath destPath disk after) ∧
      ((∃ errno, outcome = .error errno) → Unharmed srcPath disk after)

def Clobbers (srcPath destPath : Bytes) (disk : Disk) : Prop := ∃ file contents permissions mtime,
  disk.files.pathname true disk.files.currentDirectory srcPath = .ok file ∧
    disk.files.pathname true disk.files.currentDirectory destPath = .ok file ∧
      disk.files.object file = .regular contents permissions mtime ∧ contents ≠ []

inductive Transferred (destPath : Bytes) (disk : Disk) (source : Nat) (mode : Nat) (copy : Copy) : Prop where
  | unopened (closed : copy.dest = none) (same : copy.disk = disk)
  | opened {dest : Nat} {between : Disk} (opened : disk.openTruncated destPath 0o644 = .ok (between, dest))
    (descriptor : copy.dest = some dest) (rewritten : Rewritten dest between copy.disk)
    (kept : source = dest → ∃ permissions mtime, copy.disk.files.object dest = .regular [] permissions mtime)
    (copied : copy.err = 0 → ∃ contents permissions mtime time,
      between.files.object source = .regular contents permissions mtime ∧
        copy.disk.files.object dest = .regular contents (Fin.ofNat _ mode) time)

section Files

variable {source : Nat} {srcPath destPath : Bytes}

theorem content_directory (directory : disk.files.graph.IsDirectory source) :
    content (disk.files.object source) = none := by
  obtain ⟨parent, entries, permissions, mtime, kind⟩ := (FileSystem.isDirectory_iff source).mp directory
  rw [kind, content]

theorem content_same {before : Disk} (same : after.files.object source = before.files.object source ∨
    before.files.graph.IsDirectory source ∧ after.files.graph.IsDirectory source) :
    content (after.files.object source) = content (before.files.object source) := by
  obtain same | ⟨first, second⟩ := same
  next => rw [same]
  next => rw [content_directory first, content_directory second]

theorem used_of_pathname (reached : disk.files.pathname true disk.files.currentDirectory srcPath = .ok source) :
    source < disk.next := by
  obtain ⟨-, links, walk, -⟩ := pathname_iff.mp reached
  exact (walk.known disk.root_used (fun _ _ _ => enter_used) (disk.start_used _)).1

theorem empty_of_same (apart : ¬Clobbers srcPath destPath disk)
    (reached : disk.files.pathname true disk.files.currentDirectory srcPath = .ok source)
    (opened : disk.openTruncated destPath mode = .ok (between, source)) :
    ∃ permissions mtime, disk.files.object source = .regular [] permissions mtime := by
  have used := used_of_pathname reached
  obtain ⟨there, rewritten, -⟩ | ⟨-, -, -, -, fresh, -⟩ := openTruncated_cases opened
  next =>
    obtain ⟨contents, permissions, mtime, file⟩ := rewritten.was
    by_cases empty : contents = []
    next => exact ⟨permissions, mtime, empty ▸ file⟩
    next => exact absurd ⟨source, contents, permissions, mtime, reached, there, file, empty⟩ apart
  next => omega

theorem ofNat_stMode (contents : Bytes) (permissions : Fin 0o10000) (mtime : Int) :
    Fin.ofNat 0o10000 (FileObject.regular contents permissions mtime : FileObject Nat).stMode = permissions := by
  apply Fin.ext
  simp only [FileObject.stMode, Fin.ofNat]
  omega

theorem Transferred.content {copy : Copy} (apart : ¬Clobbers srcPath destPath disk)
    (reached : disk.files.pathname true disk.files.currentDirectory srcPath = .ok source)
    (transferred : Transferred destPath disk source mode copy) :
    CopyFile.content (copy.disk.files.object source) = CopyFile.content (disk.files.object source) := by
  cases transferred with
  | unopened _ same => rw [same]
  | @opened dest between opened _ rewritten kept _ =>
    by_cases same : source = dest
    next =>
      subst same
      obtain ⟨permissions, mtime, empty⟩ := empty_of_same apart reached opened
      obtain ⟨modes, time, left⟩ := kept rfl
      rw [empty, left, CopyFile.content, CopyFile.content]
    next =>
      rw [rewritten.others source same]
      exact content_same ((openTruncated_opened opened).others source (used_of_pathname reached) same)

theorem Transferred.preserves {copy : Copy} (transferred : Transferred destPath disk source mode copy) :
    Preserves disk copy.disk := by
  cases transferred with
  | unopened _ same => exact same ▸ .refl disk
  | opened opened _ rewritten => exact (openTruncated_opened opened).preserves.trans rewritten.preserves

theorem Transferred.copied {copy : Copy} (apart : ¬Clobbers srcPath destPath disk)
    (reached : disk.files.pathname true disk.files.currentDirectory srcPath = .ok source)
    (transferred : Transferred destPath disk source (disk.files.object source).stMode copy) (opened : copy.dest ≠ none)
    (fine : copy.err = 0) : Copied srcPath destPath disk copy.disk := by
  have still := transferred.preserves.pathname reached
  cases transferred with
  | unopened closed => exact absurd closed opened
  | @opened dest between opened _ rewritten kept copied =>
    have known := openTruncated_opened opened
    have there := rewritten.preserves.pathname known.reached
    obtain ⟨contents, permissions, mtime, time, file, written⟩ := copied fine
    by_cases same : source = dest
    next =>
      subst same
      obtain ⟨modes, mtime', empty⟩ := empty_of_same apart reached opened
      obtain ⟨_, _, left⟩ := kept rfl
      obtain ⟨rfl, -⟩ := FileObject.regular.inj (left.symm.trans written)
      rw [empty, ofNat_stMode] at written
      exact ⟨source, [], modes, mtime', reached, empty, ⟨source, time, there, written⟩, still, time, written⟩
    next =>
      obtain same' | ⟨-, directory⟩ := known.others source (used_of_pathname reached) same
      next =>
        have before := same'.symm.trans file
        rw [before, ofNat_stMode] at written
        exact ⟨source, contents, permissions, mtime, reached, before, ⟨dest, time, there, written⟩, still,
          mtime, (rewritten.others source same).trans file⟩
      next =>
        have unreadable := content_directory directory
        rw [file] at unreadable
        cases unreadable

end Files

end CopyFile

end FileUtils

end BuildboxCommon
