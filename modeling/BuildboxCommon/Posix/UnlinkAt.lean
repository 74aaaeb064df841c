import BuildboxCommon.Client.DirectoryPaths
import BuildboxCommon.Merklize.MakeNestedDirectory
import BuildboxCommon.Posix.Preserved

set_option autoImplicit false

namespace BuildboxCommon.Posix

open ByteString FileUtils LexicalPath PathResolution

def ebusy : Nat := 16
def enotempty : Nat := 39

namespace Disk

theorem isName_of_last {path name : Bytes} (last : (steps (cString path)).getLast? = some (.down name)) : IsName name :=
  isName_of_step (cString_nulFree path) (List.mem_of_getLast? last)

def locateAt (disk : Disk) (fd : Nat) (path : Bytes) : Except Nat (Nat × Name) :=
  let path := cString path
  match last : (steps path).getLast? with
  | some (.down name) =>
    match disk.files.graph.resolve true disk.files.symlinkLimit (if isGlobal path then disk.files.root else fd)
      (steps path).dropLast with
    | .error fault => .error (errnoOf fault)
    | .ok directory =>
      match disk.files.object directory with
      | .directory _ _ _ _ => .ok (directory, ⟨name, isName_of_last last⟩)
      | .regular _ _ _ | .symlink _ => .error enotdir
  | some .stay | some .up | none => .error (if path = [] then enoent else einval)

def unlinkat (disk : Disk) (fd : Nat) (path : Bytes) : Except Nat Disk :=
  match disk.locateAt fd path with
  | .error errno => .error errno
  | .ok (directory, name) =>
    match disk.find directory name.1 with
    | none => .error enoent
    | some node =>
      match disk.files.object node with
      | .directory _ _ _ _ => .error eisdir
      | .regular _ _ _ | .symlink _ => .ok (disk.detach directory name)

-- `unlinkat` with `AT_REMOVEDIR`. Slashes at the end are ignored.
def rmdirat (disk : Disk) (fd : Nat) (path : Bytes) : Except Nat Disk :=
  let path := cString path
  match (steps (dropSlashes path)).getLast? with
  | some (.down _) =>
    match disk.locateAt fd (dropSlashes path) with
    | .error errno => .error errno
    | .ok (directory, name) =>
      match disk.find directory name.1 with
      | none => .error enoent
      | some node =>
        match disk.files.object node with
        | .directory _ [] _ _ => .ok (disk.detach directory name)
        | .directory _ (_ :: _) _ _ => .error enotempty
        | .regular _ _ _ | .symlink _ => .error enotdir
  | some .up => .error enotempty
  | some .stay | none => .error (if path = [] then enoent else if dropSlashes path = [] then ebusy else einval)

structure Swept (gone : Nat → Bytes → Prop) (before after : Disk) : Prop where
  root : after.files.root = before.files.root
  currentDirectory : after.files.currentDirectory = before.files.currentDirectory
  symlinkLimit : after.files.symlinkLimit = before.files.symlinkLimit
  denied : after.files.denied = before.files.denied
  umask : after.umask = before.umask
  next : after.next = before.next
  others : ∀ node, ¬before.files.graph.IsDirectory node → after.files.object node = before.files.object node
  directories : ∀ node parent entries permissions mtime,
    before.files.object node = .directory parent entries permissions mtime →
      ∃ left, after.files.object node = .directory parent left permissions mtime
  kept : ∀ node name, ¬gone node name → after.find node name = before.find node name
  lost : ∀ node name, gone node name → after.find node name = none

variable {disk before between after : Disk} {gone others : Nat → Bytes → Prop} {here node : Nat} {name : Name}

namespace Swept

theorem refl (disk : Disk) : Swept (fun _ _ => False) disk disk where
  root := rfl
  currentDirectory := rfl
  symlinkLimit := rfl
  denied := rfl
  umask := rfl
  next := rfl
  others _ _ := rfl
  directories _ _ entries _ _ kind := ⟨entries, kind⟩
  kept _ _ _ := rfl
  lost _ _ := False.elim

theorem isDirectory (swept : Swept gone before after) :
    after.files.graph.IsDirectory node ↔ before.files.graph.IsDirectory node := by
  constructor
  next =>
    intro directory
    by_contra plain
    obtain ⟨parent, entries, permissions, mtime, kind⟩ := (FileSystem.isDirectory_iff node).mp directory
    rw [swept.others node plain] at kind
    exact plain ((FileSystem.isDirectory_iff node).mpr ⟨_, _, _, _, kind⟩)
  next =>
    intro directory
    obtain ⟨parent, entries, permissions, mtime, kind⟩ := (FileSystem.isDirectory_iff node).mp directory
    obtain ⟨left, kind⟩ := swept.directories _ _ _ _ _ kind
    exact (FileSystem.isDirectory_iff node).mpr ⟨_, _, _, _, kind⟩

theorem trans (first : Swept gone before between) (second : Swept others between after) :
    Swept (fun node name => gone node name ∨ others node name) before after where
  root := second.root.trans first.root
  currentDirectory := second.currentDirectory.trans first.currentDirectory
  symlinkLimit := second.symlinkLimit.trans first.symlinkLimit
  denied := second.denied.trans first.denied
  umask := second.umask.trans first.umask
  next := second.next.trans first.next
  others node plain := (second.others node (mt first.isDirectory.mp plain)).trans (first.others node plain)
  directories node parent entries permissions mtime kind := by
    obtain ⟨left, kind⟩ := first.directories _ _ _ _ _ kind
    exact second.directories _ _ _ _ _ kind
  kept node name there := by
    rw [not_or] at there
    rw [second.kept node name there.2, first.kept node name there.1]
  lost node name away := by
    by_cases later : others node name
    next => exact second.lost node name later
    next => rw [second.kept node name later, first.lost node name (away.resolve_right later)]

theorem mono (swept : Swept gone before after) (more : ∀ node name, gone node name → others node name)
    (absent : ∀ node name, others node name → gone node name ∨ before.find node name = none) :
    Swept others before after where
  root := swept.root
  currentDirectory := swept.currentDirectory
  symlinkLimit := swept.symlinkLimit
  denied := swept.denied
  umask := swept.umask
  next := swept.next
  others := swept.others
  directories := swept.directories
  kept node name there := swept.kept node name (mt (more node name) there)
  lost node name away := by
    by_cases early : gone node name
    next => exact swept.lost node name early
    next => rw [swept.kept node name early, (absent node name away).resolve_left early]

theorem detach (directory : disk.files.graph.IsDirectory here) (name : Name) :
    Swept (fun node probe => node = here ∧ probe = name.1) disk (disk.detach here name) := by
  have detached := Detached.of_detach directory name
  obtain ⟨parent, entries, permissions, mtime, kind⟩ := (FileSystem.isDirectory_iff here).mp directory
  have shape := detach_eq kind name
  refine ⟨detached.root, detached.currentDirectory, detached.symlinkLimit, ?_, by rw [shape]; rfl, detached.next,
    fun node plain => detached.others node fun same => plain (same ▸ directory), ?_, ?_, ?_⟩
  next =>
    rw [shape]
    exact Function.update_eq_self _ _
  next =>
    intro node parent' entries' permissions' mtime' found
    by_cases same : node = here
    next =>
      subst same
      obtain ⟨rfl, rfl, rfl, rfl⟩ := FileObject.directory.inj (kind.symm.trans found)
      exact ⟨_, by rw [shape, object_store, Function.update_self]⟩
    next => exact ⟨entries', (detached.others node same).trans found⟩
  next =>
    intro node probe there
    simp only [find, detached.enter, Step.down.injEq, if_neg there]
  next =>
    rintro node probe ⟨rfl, rfl⟩
    simp [find, detached.enter, Except.toOption]

theorem find (swept : Swept gone before after) {probe : Bytes} (there : ¬gone here probe)
    (found : before.find here probe = some node) : after.find here probe = some node := by
  rw [swept.kept here probe there, found]

theorem empty (swept : Swept gone before after) (directory : before.files.graph.IsDirectory node)
    (all : ∀ probe, gone node probe) : ∃ parent permissions mtime,
      after.files.object node = .directory parent [] permissions mtime := by
  obtain ⟨parent, entries, permissions, mtime, kind⟩ :=
    (FileSystem.isDirectory_iff node).mp (swept.isDirectory.mpr directory)
  refine ⟨parent, permissions, mtime, ?_⟩
  cases entries with
  | nil => exact kind
  | cons entry entries =>
    have lost := swept.lost node entry.1 (all entry.1)
    rw [find_directory kind] at lost
    simp at lost

end Swept

theorem locateAt_name (directory : disk.files.graph.IsDirectory here) (name : Name) :
    disk.locateAt here name.1 = .ok (here, name) := by
  obtain ⟨parent, entries, permissions, mtime, kind⟩ := (FileSystem.isDirectory_iff here).mp directory
  have single := FileSystem.steps_of_isName name.2
  have whole := cString_of_nulFree name.2.nulFree
  have last : (steps (cString name.1)).getLast? = some (.down name.1) := by rw [whole, single]; rfl
  unfold locateAt
  simp only
  split
  next other found =>
    obtain rfl := Step.down.inj (Option.some.inj (found.symm.trans last))
    simp only [whole, single, FileSystem.isName_relative name.2, Bool.false_eq_true, if_false, List.dropLast_singleton,
      Graph.resolve_nil, kind]
  next stay => simp [last] at stay
  next up => simp [last] at up
  next nothing => simp [last] at nothing

theorem unlinkat_name (found : disk.find here name.1 = some node) (plain : ¬disk.files.graph.IsDirectory node) :
    disk.unlinkat here name.1 = .ok (disk.detach here name) := by
  have directory := Graph.isDirectory_of_enter (find_eq_some.mp found)
  simp only [unlinkat, locateAt_name directory, found]
  split
  next kind => exact absurd ((FileSystem.isDirectory_iff node).mpr ⟨_, _, _, _, kind⟩) plain
  next => rfl
  next => rfl

theorem dropSlashes_name (proper : IsName name.1) : dropSlashes name.1 = name.1 := dropSlashes_ending [] proper

theorem rmdirat_name {parent : Nat} {permissions : Fin 0o10000} {mtime : Int}
    (found : disk.find here name.1 = some node)
    (empty : disk.files.object node = .directory parent [] permissions mtime) :
    disk.rmdirat here name.1 = .ok (disk.detach here name) := by
  have directory := Graph.isDirectory_of_enter (find_eq_some.mp found)
  have last : (steps (dropSlashes (cString name.1))).getLast? = some (.down name.1) := by
    rw [cString_of_nulFree name.2.nulFree, dropSlashes_name name.2, FileSystem.steps_of_isName name.2]
    rfl
  simp only [rmdirat, last]
  simp only [cString_of_nulFree name.2.nulFree, dropSlashes_name name.2, locateAt_name directory, found, empty]

theorem nulFree_dropSlashes (path : Bytes) : NulFree (dropSlashes (cString path)) := by
  obtain ⟨count, parts⟩ := dropSlashes_append (cString path)
  have whole := cString_nulFree path
  rw [parts] at whole
  exact (nulFree_append.mp whole).1

theorem rmdirat_iff {path : Bytes} : disk.rmdirat disk.files.currentDirectory path = .ok after ↔
    ∃ here name node parent permissions mtime, disk.locate (dropSlashes (cString path)) = .ok (here, name) ∧
      disk.find here name.1 = some node ∧ disk.files.object node = .directory parent [] permissions mtime ∧
        after = disk.detach here name := by
  have located (path : Bytes) : disk.locateAt disk.files.currentDirectory path = disk.locate path := rfl
  unfold rmdirat
  simp only [located]
  constructor
  next =>
    intro removed
    split at removed
    next =>
      split at removed
      next => cases removed
      next here name located =>
        split at removed
        next => cases removed
        next node found =>
          split at removed
          next parent permissions mtime kind =>
            exact ⟨here, name, node, parent, permissions, mtime, located, found, kind, (Except.ok.inj removed).symm⟩
          next => cases removed
          next => cases removed
          next => cases removed
    next => cases removed
    next => cases removed
    next => cases removed
  next =>
    rintro ⟨here, name, node, parent, permissions, mtime, located, found, kind, rfl⟩
    have last := locate_last located
    rw [cString_of_nulFree (nulFree_dropSlashes path)] at last
    simp only [last, located, found, kind]

namespace Swept

variable {path : Bytes}

theorem enter (swept : Swept gone before after) {step : Step Bytes} {next : Nat}
    (entered : after.files.graph.enter here step = .ok next) : before.files.graph.enter here step = .ok next := by
  cases step with
  | down probe =>
    have found := find_eq_some.mpr entered
    by_cases away : gone here probe
    next =>
      rw [swept.lost here probe away] at found
      cases found
    next =>
      rw [swept.kept here probe away] at found
      exact find_eq_some.mp found
  | stay | up =>
    have directory := swept.isDirectory.mp (Graph.isDirectory_of_enter entered)
    obtain ⟨parent, entries, permissions, mtime, kind⟩ := (FileSystem.isDirectory_iff here).mp directory
    obtain ⟨left, kind'⟩ := swept.directories _ _ _ _ _ kind
    simpa [Graph.enter, FileSystem.graph, kind, kind', FileObject.shape] using entered

theorem links (swept : Swept gone before after) (target : Pathname Bytes) :
    after.files.graph.object node = .symlink target ↔ before.files.graph.object node = .symlink target := by
  by_cases directory : before.files.graph.IsDirectory node
  next =>
    obtain ⟨parent, entries, kind⟩ := directory
    obtain ⟨parent', left, kind'⟩ := swept.isDirectory.mpr ⟨parent, entries, kind⟩
    simp [kind, kind']
  next => simp only [FileSystem.graph, swept.others node directory]

theorem reaches (swept : Swept gone before after) {old : Nat → Prop} {start : Nat} {steps : List (Step Bytes)}
    (reaches : after.Reaches old start steps here) : before.Reaches old start steps here := by
  obtain ⟨links, walk, bound, followed⟩ := reaches
  refine ⟨links, ?_, swept.symlinkLimit ▸ bound, followed⟩
  exact @Graph.Walk.preserved _ _ _ _ _ (fun _ => True) swept.root.symm trivial
    (fun _ _ _ _ entered => ⟨trivial, swept.enter entered⟩)
      (fun _ _ target => (swept.links target).symm) _ _ _ _ trivial walk

theorem named (swept : Swept gone before after) {root : Nat}
    (reached : before.files.pathname true before.files.currentDirectory path = .ok root)
    (located : after.locate (dropSlashes (cString path)) = .ok (here, name))
      (found : after.find here name.1 = some node)
    (directory : after.files.graph.IsDirectory node) : node = root := by
  have whole := cString_of_nulFree (nulFree_dropSlashes path)
  have last := locate_last located
  have above := (locate_ok located).1.down (find_eq_some.mp found) directory.not_link
  rw [List.dropLast_append_getLast? _ last, whole] at above
  rw [whole] at last
  have present : dropSlashes (cString path) ≠ [] := by
    intro empty
    rw [empty] at last
    cases last
  obtain ⟨count, parts⟩ := dropSlashes_append (cString path)
  generalize dropSlashes (cString path) = kept at parts above present
  have start : before.start (kept ++ List.replicate count slash) = after.start kept := by
    rw [Disk.start, Disk.start, swept.root, swept.currentDirectory, isGlobal_append present]
  obtain ⟨-, whole⟩ := pathname_iff.mp reached
  rw [parts, start, steps_slashes] at whole
  exact Except.ok.inj ((swept.reaches above).resolve.symm.trans whole.unstay.resolve)

end Swept

end Disk

end BuildboxCommon.Posix
