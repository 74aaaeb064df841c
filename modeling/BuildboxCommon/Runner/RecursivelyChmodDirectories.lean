import BuildboxCommon.FileUtils.DeleteRecursively

set_option autoImplicit false

namespace BuildboxCommon

open ByteString Effect FileUtils LexicalPath PathResolution Posix Posix.Disk DeleteRecursively

namespace Posix.Disk

theorem fits_mode {disk : Disk} {node parent : Nat} {entries : List (Bytes × Nat)} {permissions : Fin 0o10000}
    {mtime : Int}
    (kind : disk.files.object node = .directory parent entries permissions mtime) (mode : Fin 0o10000) :
    disk.Fits (.directory parent entries mode mtime) := by
  have fits := fits_entries kind fun _ => Or.inl
  exact fits

theorem next_le (disk : Disk) : disk.next ≤ disk.next := le_rfl

-- `fchmod` on a directory. From then on opening it may fail, or fail no more.
def chmodDirectory (disk : Disk) (fd : Nat) (mode : Fin 0o10000) (denied : Option Nat) : Disk :=
  match kind : disk.files.object fd with
  | .directory parent entries _ mtime =>
    disk.install fd (.directory parent entries mode mtime) (fits_mode kind mode) denied disk.next disk.next_le
  | .regular _ _ _ | .symlink _ => disk

theorem chmodDirectory_eq {disk : Disk} {fd parent : Nat} {entries : List (Bytes × Nat)} {permissions : Fin 0o10000}
    {mtime : Int}
    (kind : disk.files.object fd = .directory parent entries permissions mtime) (mode : Fin 0o10000)
      (denied : Option Nat) :
    disk.chmodDirectory fd mode denied =
      disk.install fd (.directory parent entries mode mtime) (fits_mode kind mode) denied disk.next le_rfl := by
  unfold chmodDirectory
  split
  next found =>
    obtain ⟨rfl, rfl, rfl, rfl⟩ := FileObject.directory.inj (kind.symm.trans found)
    rfl
  next found => simp [kind] at found
  next found => simp [kind] at found

end Posix.Disk

namespace Runner

structure Chmod where
  mode : Fin 0o10000
  refused : Nat → Option Nat
  denied : Nat → Option Nat

structure Chmodded (chmod : Chmod) (done : Nat → Prop) (before after : Disk) : Prop where
  currentDirectory : after.files.currentDirectory = before.files.currentDirectory
  symlinkLimit : after.files.symlinkLimit = before.files.symlinkLimit
  umask : after.umask = before.umask
  next : after.next = before.next
  graph : after.files.graph = before.files.graph
  changed : ∀ node parent entries permissions mtime,
    before.files.object node = .directory parent entries permissions mtime →
    done node → chmod.refused node = none →
      after.files.object node = .directory parent entries chmod.mode mtime ∧ after.files.denied node = chmod.denied node
  kept : ∀ node, ¬(done node ∧ chmod.refused node = none ∧ before.files.graph.IsDirectory node) →
    after.files.object node = before.files.object node ∧ after.files.denied node = before.files.denied node

namespace Chmodded

variable {chmod : Chmod} {done others : Nat → Prop} {before after : Disk} {here : Nat} {name : Bytes}

theorem refl (chmod : Chmod) (disk : Disk) : Chmodded chmod (fun _ => False) disk disk :=
  ⟨rfl, rfl, rfl, rfl, rfl, fun _ _ _ _ _ _ => False.elim, fun _ _ => ⟨rfl, rfl⟩⟩

theorem congr (chmodded : Chmodded chmod done before after) (same : ∀ node, done node ↔ others node) :
    Chmodded chmod others before after := by
  obtain rfl : done = others := funext fun node => propext (same node)
  exact chmodded

theorem isDirectory (chmodded : Chmodded chmod done before after) :
    after.files.graph.IsDirectory here ↔ before.files.graph.IsDirectory here := by
  rw [chmodded.graph]

theorem entries_kept (chmodded : Chmodded chmod done before after) {parent : Nat} {entries : List (Bytes × Nat)}
    {permissions : Fin 0o10000} {mtime : Int}
      (kind : before.files.object here = .directory parent entries permissions mtime) :
    ∃ mode, after.files.object here = .directory parent entries mode mtime := by
  by_cases reached : done here ∧ chmod.refused here = none ∧ before.files.graph.IsDirectory here
  next => exact ⟨_, (chmodded.changed here _ _ _ _ kind reached.1 reached.2.1).1⟩
  next => exact ⟨permissions, (chmodded.kept here reached).1.trans kind⟩

theorem chmodDirectory (chmodded : Chmodded chmod done before after) (directory : before.files.graph.IsDirectory here)
    (granted : chmod.refused here = none) : Chmodded chmod (fun node => done node ∨ node = here) before
      (after.chmodDirectory here chmod.mode (chmod.denied here)) := by
  obtain ⟨parent, entries, permissions, mtime, kind⟩ :=
    (FileSystem.isDirectory_iff here).mp (chmodded.isDirectory.mpr directory)
  rw [chmodDirectory_eq kind]
  have object : (after.install here (.directory parent entries chmod.mode mtime) (fits_mode kind chmod.mode)
    (chmod.denied here)
      after.next le_rfl).files.object =
        Function.update after.files.object here (.directory parent entries chmod.mode mtime) := rfl
  have denied : (after.install here (.directory parent entries chmod.mode mtime) (fits_mode kind chmod.mode)
    (chmod.denied here)
      after.next le_rfl).files.denied = Function.update after.files.denied here (chmod.denied here) := rfl
  refine ⟨chmodded.currentDirectory, chmodded.symlinkLimit, chmodded.umask, chmodded.next, ?_, ?_, ?_⟩
  next =>
    rw [← chmodded.graph]
    refine congrArg (PathResolution.Graph.mk after.files.root) (funext fun node => ?_)
    rw [object]
    by_cases same : node = here
    next => rw [same, Function.update_self, kind]; rfl
    next => rw [Function.update_of_ne same]
  next =>
    intro node parent' entries' permissions' mtime' found reached allowed
    rw [object, denied]
    by_cases same : node = here
    next =>
      subst same
      obtain ⟨mode, now⟩ := chmodded.entries_kept found
      obtain ⟨rfl, rfl, -, rfl⟩ := FileObject.directory.inj (kind.symm.trans now)
      rw [Function.update_self, Function.update_self]
      exact ⟨rfl, rfl⟩
    next =>
      rw [Function.update_of_ne same, Function.update_of_ne same]
      exact chmodded.changed node _ _ _ _ found (reached.resolve_right same) allowed
  next =>
    intro node other
    have same : node ≠ here := fun same => other ⟨.inr same, same ▸ granted, same ▸ directory⟩
    rw [object, denied, Function.update_of_ne same, Function.update_of_ne same]
    exact chmodded.kept node fun changed => other ⟨.inl changed.1, changed.2⟩

end Chmodded

section Traversal

variable {readdir : Readdir} {disk : Disk} {root here node : Nat} {chmod : Chmod} {done : Nat → Prop} {s : Sweep}
  {place : List Bytes} {entry dirPath : Bytes} {recurse : DirentWrapper → EStateM Exn Sweep Unit} {dir : DirentWrapper}
  {stack : Nat}

end Traversal

end Runner

end BuildboxCommon
