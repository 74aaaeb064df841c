import BuildboxCommon.FileUtils.CreateDirectory
import BuildboxCommon.Posix.UnlinkAt
import BuildboxCommon.Shared.DirectoryTree

set_option autoImplicit false

namespace BuildboxCommon

open ByteString Effect FileUtils LexicalPath PathResolution Posix Posix.Disk

namespace FileUtils

def pathBasename (path : Bytes) : Bytes :=
  let basename := cString path
  if basename = [] ∨ basename.length = 1 then []
  else
    let basename := if basename.getLast? = some slash then basename.dropLast else basename
    if basename.contains slash then basename.rtakeWhile (· ≠ slash) else []

end FileUtils

namespace DeleteRecursively

inductive SystemCall where
  | openat (fd : Nat) (name : Bytes)
  | unlinkat (fd : Option Nat) (path : Bytes) (removeDirectory : Bool)

structure Sweep where
  disk : Disk
  calls : List (SystemCall × Disk)

-- The order in which `readdir` returns the names in a directory, with `.` and `..` anywhere.
abbrev Readdir := Nat → List Bytes

end DeleteRecursively

open DeleteRecursively

structure DirentWrapper where
  fd : Nat
  pfd : Option Nat
  path : Bytes
  entries : List Bytes

namespace DirentWrapper

def skipDots (names : List Bytes) : List Bytes := names.filter fun name => name ≠ dot ∧ name ≠ dotdot

def openDir (readdir : Readdir) (path : Bytes) : EStateM Exn Sweep DirentWrapper := fun s =>
  match s.disk.files.openat s.disk.files.currentDirectory path ⟨true, false⟩ with
  | .error errno => .error (.systemError errno (text "Error opening directory \"" ++ path ++ text "\"")) s
  | .ok fd => .ok ⟨fd, none, path, skipDots (readdir fd)⟩ s

def currentEntryIsDirectory (dir : DirentWrapper) (entry : Bytes) : EStateM Exn Sweep Bool := fun s =>
  match s.disk.files.fstatat false dir.fd entry with
  | .error errno => .error (.systemError errno (text "Unable to stat entity \"" ++ entry ++ text "\"")) s
  | .ok (.directory _ _ _ _) => .ok true s
  | .ok (.regular _ _ _) | .ok (.symlink _) => .ok false s

def currentEntryPath (dir : DirentWrapper) (entry : Bytes) : Bytes := dir.path ++ text "/" ++ entry

def nextDir (readdir : Readdir) (dir : DirentWrapper) (entry : Bytes) : EStateM Exn Sweep DirentWrapper := fun s =>
  let s' := { s with calls := s.calls ++ [(.openat dir.fd entry, s.disk)] }
  match s.disk.files.openat dir.fd entry ⟨true, false⟩ with
  | .error _ => .error (.runtimeError (text "Error getting dir from non-directory")) s'
  | .ok nextFd => .ok ⟨nextFd, some dir.fd, dir.currentEntryPath entry, skipDots (readdir nextFd)⟩ s'

end DirentWrapper

namespace FileUtils

abbrev DirectoryTraversalFn := Bytes → Option Nat → EStateM Exn Sweep Unit

def applyToEntry (readdir : Readdir) (fileFunc : Option DirectoryTraversalFn)
    (recurse : DirentWrapper → EStateM Exn Sweep Unit) (dir : DirentWrapper) (entry : Bytes) :
    EStateM Exn Sweep Unit := do
  match ← dir.currentEntryIsDirectory entry with
  | true => recurse (← dir.nextDir readdir entry)
  | false =>
    match fileFunc with
    | some fileFunc => fileFunc entry (some dir.fd)
    | none => pure ()

def fileDescriptorTraverseAndApply (readdir : Readdir) (dirFunc fileFunc : Option DirectoryTraversalFn)
    (passParentFd : Bool) : Nat → DirentWrapper → Bool → EStateM Exn Sweep Unit
  | 0, _, _ => throw .stackOverflow
  | stack + 1, dir, applyToRoot => do
    forM dir.entries (applyToEntry readdir fileFunc
      (fileDescriptorTraverseAndApply readdir dirFunc fileFunc passParentFd stack · true) dir)
    match applyToRoot, dirFunc with
    | true, some dirFunc => dirFunc dir.path (if passParentFd then dir.pfd else some dir.fd)
    | true, none | false, _ => pure ()

def unlinkat (fd : Option Nat) (path : Bytes) (removeDirectory : Bool) (what : Bytes) :
    EStateM Exn Sweep Unit := fun s =>
  let calls := s.calls ++ [(.unlinkat fd path removeDirectory, s.disk)]
  let fd := fd.getD s.disk.files.currentDirectory
  match if removeDirectory then s.disk.rmdirat fd path else s.disk.unlinkat fd path with
  | .error errno => .error (.systemError errno what) { s with calls := calls }
  | .ok disk => .ok () ⟨disk, calls⟩

def rmdirFunc : DirectoryTraversalFn := fun dirPath fd =>
  let what := text "Error removing directory \"" ++ cString dirPath ++ text "\""
  match fd with
  | some fd =>
    let dirBasename := pathBasename dirPath
    if dirBasename = [] then pure () else unlinkat (some fd) dirBasename true what
  | none => unlinkat none (cString dirPath) true what

def unlinkFunc : DirectoryTraversalFn := fun filePath fd =>
  unlinkat fd filePath false (text "Error removing file \"" ++ filePath ++ text "\"")

def deleteRecursively (readdir : Readdir) (stack : Nat) (path : Bytes) (deleteRootDirectory : Bool) :
    EStateM Exn Sweep Unit := do
  let root ← DirentWrapper.openDir readdir (cString path)
  fileDescriptorTraverseAndApply readdir (some rmdirFunc) (some unlinkFunc) true stack root deleteRootDirectory

def deleteDirectory (readdir : Readdir) (stack : Nat) (path : Bytes) : EStateM Exn Sweep Unit :=
  deleteRecursively readdir stack path true

def clearDirectory (readdir : Readdir) (stack : Nat) (path : Bytes) : EStateM Exn Sweep Unit :=
  deleteRecursively readdir stack path false

end FileUtils

namespace DeleteRecursively

variable {readdir : Readdir} {disk : Disk} {root : Nat} {path : Bytes}

def InOrder (disk : Disk) (root : Nat) (path : Bytes) : SystemCall × Disk → Prop
  | (.openat fd name, now) =>
    disk.files.graph.Beneath root [] fd ∧ ∃ node, now.find fd name = some node ∧ now.files.graph.IsDirectory node
  | (.unlinkat (some fd) name false, now) =>
    disk.files.graph.Beneath root [] fd ∧ ∃ node, now.find fd name = some node ∧ ¬now.files.graph.IsDirectory node
  | (.unlinkat (some fd) name true, now) =>
    disk.files.graph.Beneath root [] fd ∧ ∃ node parent permissions mtime, now.find fd name = some node ∧
      now.files.object node = .directory parent [] permissions mtime
  | (.unlinkat none other removeDirectory, now) =>
    other = path ∧ removeDirectory = true ∧ ∃ parent permissions mtime,
      now.files.object root = .directory parent [] permissions mtime

structure Progress (disk : Disk) (root : Nat) (path : Bytes) (gone : Nat → Bytes → Prop) (s : Sweep) : Prop where
  swept : disk.Swept gone s.disk
  inOrder : ∀ call ∈ s.calls, InOrder disk root path call

structure Deletable (readdir : Readdir) (disk : Disk) (root : Nat) : Prop where
  tree : disk.files.graph.IsTree root
  granted : ∀ node, disk.files.graph.Beneath root [] node → disk.files.denied node = none
  once : ∀ node, disk.files.graph.Beneath root [] node → (readdir node).Nodup
  listed : ∀ node, disk.files.graph.Beneath root [] node → ∀ name,
    name ∈ DirentWrapper.skipDots (readdir node) ↔ ∃ next, disk.find node name = some next

def Removed (disk : Disk) (root : Nat) (place : List Bytes) (here : Nat) (entry : Bytes) (node : Nat)
    (name : Bytes) : Prop :=
  node = here ∧ name = entry ∨ disk.files.graph.Beneath root (place ++ [entry]) node

def Untouched (disk : Disk) (root : Nat) (place : List Bytes) (gone : Nat → Bytes → Prop) : Prop :=
  ∀ node, disk.files.graph.Beneath root place node → ∀ name, ¬gone node name

theorem pathBasename_entry {dirPath entry : Bytes} (free : NulFree dirPath) (proper : IsName entry) :
    pathBasename (dirPath ++ text "/" ++ entry) = entry := by
  have whole : cString (dirPath ++ text "/" ++ entry) = dirPath ++ text "/" ++ entry :=
    cString_of_nulFree (nulFree_append.mpr ⟨nulFree_append.mpr ⟨free, by decide⟩, proper.nulFree⟩)
  rw [show text "/" = [slash] from rfl] at whole ⊢
  have present := List.length_pos_of_ne_nil proper.nonempty
  have long : ¬(dirPath ++ [slash] ++ entry = [] ∨ (dirPath ++ [slash] ++ entry).length = 1) := by
    simp only [List.append_eq_nil_iff, List.length_append, List.length_singleton, proper.nonempty, and_false, false_or]
    omega
  have last : (dirPath ++ [slash] ++ entry).getLast? ≠ some slash := by
    rw [List.getLast?_append_of_ne_nil _ proper.nonempty]
    exact fun same => proper.no_slash (List.mem_of_getLast? same)
  have contained : (dirPath ++ [slash] ++ entry).contains slash = true := by simp
  simp only [pathBasename, whole, long, last, contained, if_false, if_true]
  rw [List.rtakeWhile, List.reverse_append, List.takeWhile_append_of_pos]
  next => simp
  next =>
    intro byte member
    simpa using fun same : byte = slash => proper.no_slash (same ▸ List.mem_reverse.mp member)

namespace Progress

variable {gone : Nat → Bytes → Prop} {s : Sweep}

theorem record (progress : Progress disk root path gone s) (call : SystemCall)
    (inOrder : InOrder disk root path (call, s.disk)) :
    Progress disk root path gone { s with calls := s.calls ++ [(call, s.disk)] } := by
  refine ⟨progress.swept, fun other member => ?_⟩
  rcases List.mem_append.mp member with early | last
  next => exact progress.inOrder other early
  next =>
    obtain rfl := List.mem_singleton.mp last
    exact inOrder

theorem mono (progress : Progress disk root path gone s) {others : Nat → Bytes → Prop}
    (more : ∀ node name, gone node name → others node name)
    (absent : ∀ node name, others node name → gone node name ∨ disk.find node name = none) :
    Progress disk root path others s :=
  ⟨progress.swept.mono more absent, progress.inOrder⟩

theorem detach (progress : Progress disk root path gone s) (call : SystemCall)
    (inOrder : InOrder disk root path (call, s.disk))
    {here : Nat} (directory : disk.files.graph.IsDirectory here) (name : Name) :
    Progress disk root path (fun node probe => gone node probe ∨ node = here ∧ probe = name.1)
      ⟨s.disk.detach here name, s.calls ++ [(call, s.disk)]⟩ :=
  ⟨progress.swept.trans (.detach (progress.swept.isDirectory.mpr directory) name),
    (progress.record call inOrder).inOrder⟩

end Progress

section Entry

variable {gone : Nat → Bytes → Prop} {s : Sweep} {here node : Nat} {place : List Bytes} {entry : Bytes}
  {recurse : DirentWrapper → EStateM Exn Sweep Unit} {dir : DirentWrapper}

def Recurses (readdir : Readdir) (disk : Disk) (root : Nat) (path : Bytes)
    (recurse : DirentWrapper → EStateM Exn Sweep Unit)
    (place : List Bytes) (here : Nat) (dirPath : Bytes) : Prop := ∀ entry node gone s,
  disk.find here entry = some node → disk.files.graph.IsDirectory node → Progress disk root path gone s →
    ¬gone here entry → Untouched disk root (place ++ [entry]) gone →
      ∃ s',
        recurse ⟨node, some here, dirPath ++ text "/" ++ entry, DirentWrapper.skipDots (readdir node)⟩ s = .ok () s' ∧
        Progress disk root path (fun node name => gone node name ∨ Removed disk root place here entry node name) s'

theorem beneath_of_directory (descent : disk.files.graph.Descent root place here)
    (directory : disk.files.graph.IsDirectory here) : disk.files.graph.Beneath root [] here := by
  refine ⟨place, by simpa using descent, directory⟩

theorem currentEntryIsDirectory_eq (swept : disk.Swept gone s.disk) (found : disk.find dir.fd entry = some node)
    (there : ¬gone dir.fd entry) :
    (disk.files.graph.IsDirectory node ∧ dir.currentEntryIsDirectory entry s = .ok true s) ∨
      ¬disk.files.graph.IsDirectory node ∧ dir.currentEntryIsDirectory entry s = .ok false s := by
  have entered := find_eq_some.mp (swept.find there found)
  rw [← swept.isDirectory, FileSystem.isDirectory_iff]
  unfold DirentWrapper.currentEntryIsDirectory
  rw [fstatat_of_enter entered]
  cases kind : s.disk.files.object node with
  | directory parent entries permissions mtime => exact .inl ⟨⟨_, _, _, _, rfl⟩, rfl⟩
  | regular | symlink => exact .inr ⟨by simp, rfl⟩

theorem applyToEntry_removes (deletable : Deletable readdir disk root) (progress : Progress disk root path gone s)
    (descent : disk.files.graph.Descent root place dir.fd) (found : disk.find dir.fd entry = some node)
    (there : ¬gone dir.fd entry) (untouched : Untouched disk root (place ++ [entry]) gone)
    (recurses : Recurses readdir disk root path recurse place dir.fd dir.path) :
    ∃ s', applyToEntry readdir (some unlinkFunc) recurse dir entry s = .ok () s' ∧
      Progress disk root path (fun node name => gone node name ∨
        Removed disk root place dir.fd entry node name) s' := by
  have entered := find_eq_some.mp found
  have directory := Graph.isDirectory_of_enter entered
  have beneath := beneath_of_directory descent directory
  have now := progress.swept.find there found
  have below := descent.snoc entered
  unfold applyToEntry
  obtain ⟨inner, looked⟩ | ⟨plain, looked⟩ := currentEntryIsDirectory_eq progress.swept found there
  next =>
    rw [bind_ok _ looked]
    have kind := progress.swept.isDirectory.mpr inner
    have recorded := progress.record (.openat dir.fd entry) ⟨beneath, node, now, kind⟩
    have granted : s.disk.files.granted node = .ok node := by
      rw [FileSystem.granted, progress.swept.denied, deletable.granted node (beneath_of_directory below inner)]
    have opened : dir.nextDir readdir entry s = .ok ⟨node, some dir.fd, dir.path ++ text "/" ++ entry,
        DirentWrapper.skipDots (readdir node)⟩ { s with calls := s.calls ++ [(.openat dir.fd entry, s.disk)] } := by
      simp only [DirentWrapper.nextDir,
        openat_entered ⟨true, false⟩ (find_eq_some.mp now) kind.not_link granted fun _ => kind,
        DirentWrapper.currentEntryPath]
    simp only
    rw [bind_ok _ opened]
    exact recurses entry node gone _ found inner recorded there untouched
  next =>
    rw [bind_ok _ looked]
    have kind := mt progress.swept.isDirectory.mp plain
    have proper := isName_of_enter entered
    have removed := @unlinkat_name _ _ _ ⟨entry, proper⟩ now kind
    have detached := progress.detach (.unlinkat (some dir.fd) entry false) ⟨beneath, node, now, kind⟩ directory
      ⟨entry, proper⟩
    refine ⟨_, by simp only [unlinkFunc, FileUtils.unlinkat, Option.getD_some, Bool.false_eq_true, if_false, removed],
      detached.mono ?_ ?_⟩
    next => exact fun other name => Or.imp_right .inl
    next =>
      rintro other name (early | same | ⟨rest, deeper, directory'⟩)
      next => exact .inl (.inl early)
      next => exact .inl (.inr same)
      next =>
        obtain ⟨between, above, beyond⟩ := deeper.split
        obtain rfl := below.unique above
        cases beyond with
        | here => exact absurd directory' plain
        | inside entered' => exact absurd (Graph.isDirectory_of_enter entered') plain

theorem forM_removes (deletable : Deletable readdir disk root) (descent : disk.files.graph.Descent root place dir.fd)
    (recurses : Recurses readdir disk root path recurse place dir.fd dir.path) {entries : List Bytes}
      (once : entries.Nodup)
    (there : ∀ entry ∈ entries, ∃ node, disk.find dir.fd entry = some node) (progress : Progress disk root path gone s)
    (left : ∀ entry ∈ entries, ¬gone dir.fd entry ∧ Untouched disk root (place ++ [entry]) gone) :
    ∃ s', forM entries (applyToEntry readdir (some unlinkFunc) recurse dir) s = .ok () s' ∧
      Progress disk root path (fun node name => gone node name ∨
        ∃ entry ∈ entries, Removed disk root place dir.fd entry node name) s' := by
  induction entries generalizing gone s with
  | nil => exact ⟨s, rfl, progress.mono (fun _ _ => .inl) fun _ _ more => .inl (by simpa using more)⟩
  | cons entry entries ih =>
    obtain ⟨fresh, later⟩ := List.nodup_cons.mp once
    obtain ⟨node, found⟩ := there entry List.mem_cons_self
    obtain ⟨present, untouched⟩ := left entry List.mem_cons_self
    obtain ⟨between, first, moved⟩ := applyToEntry_removes deletable progress descent found present untouched recurses
    obtain ⟨s', rest, progress'⟩ := ih later (fun other member => there other (List.mem_cons_of_mem _ member)) moved (by
      intro other member
      have differs : entry ≠ other := fun same => fresh (same ▸ member)
      obtain ⟨present, untouched⟩ := left other (List.mem_cons_of_mem _ member)
      refine ⟨?_, fun node beneath name => ?_⟩
      next =>
        rintro (early | ⟨-, rfl⟩ | inside)
        next => exact present early
        next => exact differs rfl
        next => exact deletable.tree.not_beneath descent inside
      next =>
        rintro (early | ⟨rfl, -⟩ | inside)
        next => exact untouched node beneath name early
        next => exact deletable.tree.not_beneath descent beneath
        next => exact deletable.tree.apart differs inside beneath)
    refine ⟨s', ?_, progress'.mono ?_ ?_⟩
    next => rw [List.forM_cons, bind_ok _ first, rest]
    next =>
      rintro other name ((early | removed) | ⟨entry', member, removed⟩)
      next => exact .inl early
      next => exact .inr ⟨entry, List.mem_cons_self, removed⟩
      next => exact .inr ⟨entry', List.mem_cons_of_mem _ member, removed⟩
    next =>
      rintro other name (early | ⟨entry', member, removed⟩)
      next => exact .inl (.inl (.inl early))
      next =>
        rcases List.mem_cons.mp member with rfl | member
        next => exact .inl (.inl (.inr removed))
        next => exact .inl (.inr ⟨entry', member, removed⟩)

theorem forM_empties (deletable : Deletable readdir disk root) (descent : disk.files.graph.Descent root place dir.fd)
    (directory : disk.files.graph.IsDirectory dir.fd)
    (recurses : Recurses readdir disk root path recurse place dir.fd dir.path)
      (progress : Progress disk root path gone s)
    (untouched : Untouched disk root place gone) (entries : dir.entries = DirentWrapper.skipDots (readdir dir.fd)) :
    ∃ s', forM dir.entries (applyToEntry readdir (some unlinkFunc) recurse dir) s = .ok () s' ∧
      Progress disk root path (fun node name => gone node name ∨ disk.files.graph.Beneath root place node) s' := by
  have beneath := beneath_of_directory descent directory
  have listed := deletable.listed dir.fd beneath
  rw [entries]
  obtain ⟨s', run, progress'⟩ := forM_removes deletable descent recurses ((deletable.once dir.fd beneath).filter _)
    (fun entry => (listed entry).mp) progress fun entry _ => ⟨untouched _ (Graph.beneath_here descent directory) entry,
      fun node below => untouched node below.above⟩
  refine ⟨s', run, progress'.mono ?_ ?_⟩
  next =>
    rintro node name (early | ⟨entry, -, ⟨rfl, -⟩ | below⟩)
    next => exact .inl early
    next => exact .inr (Graph.beneath_here descent directory)
    next => exact .inr below.above
  next =>
    rintro node name (early | below)
    next => exact .inl (.inl early)
    next =>
      obtain rfl | ⟨entry, next, entered, -, deeper⟩ := below.cases descent
      next =>
        cases found : disk.find dir.fd name with
        | none => exact .inr rfl
        | some next => exact .inl (.inr ⟨name, (listed name).mpr ⟨next, found⟩, .inl ⟨rfl, rfl⟩⟩)
      next => exact .inl (.inr ⟨entry, (listed entry).mpr ⟨next, find_eq_some.mpr entered⟩, .inr deeper⟩)

end Entry

section Traversal

variable {here : Nat} {place : List Bytes} {dirPath : Bytes} {stack : Nat}

abbrev deleting (readdir : Readdir) : Nat → DirentWrapper → Bool → EStateM Exn Sweep Unit :=
  fileDescriptorTraverseAndApply readdir (some rmdirFunc) (some unlinkFunc) true

def Shallow (disk : Disk) (root : Nat) (place : List Bytes) (stack : Nat) : Prop := ∀ rest node,
  disk.files.graph.Descent root (place ++ rest) node → disk.files.graph.IsDirectory node → rest.length < stack

-- By induction on the stack: a directory below another one is emptied and then removed through its parent.
theorem deleting_recurses (deletable : Deletable readdir disk root) (descent : disk.files.graph.Descent root place here)
    (shallow : Shallow disk root place (stack + 1)) (free : NulFree dirPath) :
    Recurses readdir disk root path (deleting readdir stack · true) place here dirPath := by
  induction stack generalizing place here dirPath with
  | zero =>
    intro entry node gone s found directory
    have deep := shallow [entry] node (descent.snoc (find_eq_some.mp found)) directory
    simp at deep
  | succ stack ih =>
    intro entry node gone s found directory progress there untouched
    have entered := find_eq_some.mp found
    have proper := isName_of_enter entered
    have below := descent.snoc entered
    have free' : NulFree (dirPath ++ text "/" ++ entry) :=
      nulFree_append.mpr ⟨nulFree_append.mpr ⟨free, by decide⟩, proper.nulFree⟩
    have recurses := @ih node (place ++ [entry]) (dirPath ++ text "/" ++ entry) below (fun rest other deeper kind => by
      have bound := shallow (entry :: rest) other (by simpa using deeper) kind
      rw [List.length_cons] at bound
      omega) free'
    obtain ⟨emptied, run, progress'⟩ := @forM_empties readdir disk root path gone s (place ++ [entry]) _
      ⟨node, some here, dirPath ++ text "/" ++ entry, DirentWrapper.skipDots (readdir node)⟩ deletable below directory
      recurses progress untouched rfl
    have above := Graph.isDirectory_of_enter entered
    have inner := Graph.beneath_here below directory
    have now : emptied.disk.find here entry = some node :=
      progress'.swept.find (not_or.mpr ⟨there, deletable.tree.not_beneath descent⟩) found
    obtain ⟨parent, permissions, mtime, empty⟩ := progress'.swept.empty directory fun _ => .inr inner
    have removed := @rmdirat_name _ _ _ ⟨entry, proper⟩ _ _ _ now empty
    have basename := pathBasename_entry free proper
    have detached := progress'.detach (.unlinkat (some here) entry true)
      ⟨beneath_of_directory descent above, node, parent, permissions, mtime, now, empty⟩ above ⟨entry, proper⟩
    refine ⟨_, ?_, detached.mono ?_ ?_⟩
    next =>
      simp only [deleting, fileDescriptorTraverseAndApply]
      rw [bind_ok _ run]
      simp only [if_true, rmdirFunc, basename, proper.nonempty, if_false, FileUtils.unlinkat, Option.getD_some, removed]
    next => exact fun other name => by unfold Removed; tauto
    next => exact fun other name => by unfold Removed; tauto

theorem Deletable.openDir_eq (deletable : Deletable readdir disk root)
    (reached : disk.files.pathname true disk.files.currentDirectory path = .ok root) :
    DirentWrapper.openDir readdir (cString path) ⟨disk, []⟩ =
      .ok ⟨root, none, cString path, DirentWrapper.skipDots (readdir root)⟩ ⟨disk, []⟩ := by
  have directory := deletable.tree.directory
  obtain ⟨parent, entries, permissions, mtime, kind⟩ := (FileSystem.isDirectory_iff root).mp directory
  have again : disk.files.pathname true disk.files.currentDirectory (cString path) = .ok root := by
    rwa [FileSystem.pathname, cString_cString]
  have granted := deletable.granted root (beneath_of_directory (.here root) directory)
  simp only [DirentWrapper.openDir, FileSystem.openat, Bool.not_false, again, kind, FileSystem.granted, granted]

theorem Deletable.shallow (deletable : Deletable readdir disk root) :
    ∃ enough, ∀ stack, enough ≤ stack → Shallow disk root [] stack := by
  obtain ⟨height, bound⟩ := deletable.tree.finite
  refine ⟨height + 1, fun stack enough rest node descent directory => ?_⟩
  have within := bound rest node (by simpa using descent) directory
  omega

theorem deleteRecursively_empties (deletable : Deletable readdir disk root)
    (reached : disk.files.pathname true disk.files.currentDirectory path = .ok root)
    (shallow : Shallow disk root [] (stack + 1)) : ∃ cleared,
      Progress disk root (cString path) (fun node _ => disk.files.graph.Beneath root [] node) cleared ∧
        clearDirectory readdir (stack + 1) path ⟨disk, []⟩ = .ok () cleared ∧
          deleteDirectory readdir (stack + 1) path ⟨disk, []⟩ = rmdirFunc (cString path) none cleared := by
  have directory := deletable.tree.directory
  have descent : disk.files.graph.Descent root [] root := .here root
  have begin : Progress disk root (cString path) (fun _ _ => False) ⟨disk, []⟩ := ⟨.refl disk, by simp⟩
  have recurses := @deleting_recurses readdir disk root (cString path) root []
    (cString path) stack deletable descent shallow
    (cString_nulFree path)
  obtain ⟨cleared, run, progress⟩ := @forM_empties readdir disk root (cString path) _ _ [] _
    ⟨root, none, cString path, DirentWrapper.skipDots (readdir root)⟩ deletable descent directory recurses begin
    (fun _ _ _ => id) rfl
  have opened := deletable.openDir_eq reached
  refine ⟨cleared, progress.mono (fun _ _ gone => gone.resolve_left id) fun _ _ below => .inl (.inr below), ?_, ?_⟩
  next =>
    rw [clearDirectory, deleteRecursively, bind_ok _ opened, fileDescriptorTraverseAndApply, bind_ok _ run]
    rfl
  next =>
    rw [deleteDirectory, deleteRecursively, bind_ok _ opened, fileDescriptorTraverseAndApply, bind_ok _ run]
    rfl

def Named (disk : Disk) (path : Bytes) (root here : Nat) (name : Name) : Prop :=
  disk.locate (dropSlashes (cString path)) = .ok (here, name) ∧ disk.find here name.1 = some root

theorem deleteDirectory_removes (deletable : Deletable readdir disk root)
    (reached : disk.files.pathname true disk.files.currentDirectory path = .ok root) :
    ∃ enough, ∀ stack, enough ≤ stack → ∃ cleared,
      Progress disk root (cString path) (fun node _ => disk.files.graph.Beneath root [] node) cleared ∧
        clearDirectory readdir stack path ⟨disk, []⟩ = .ok () cleared ∧
          (∀ here name, Named cleared.disk path root here name → ∃ after,
            deleteDirectory readdir stack path ⟨disk, []⟩ = .ok () after ∧
              Progress disk root (cString path) (fun node probe => disk.files.graph.Beneath root [] node ∨
                node = here ∧ probe = name.1) after) ∧
            ((∀ here name, ¬Named cleared.disk path root here name) → ∃ errno what after,
              deleteDirectory readdir stack path ⟨disk, []⟩ = .error (.systemError errno what) after ∧
                Progress disk root (cString path) (fun node _ => disk.files.graph.Beneath root [] node) after) := by
  obtain ⟨height, bound⟩ := deletable.tree.finite
  refine ⟨height + 1, fun stack enough => ?_⟩
  obtain ⟨stack, rfl⟩ : ∃ less, stack = less + 1 := ⟨stack - 1, by omega⟩
  have shallow : Shallow disk root [] (stack + 1) := by
    intro rest node descent directory
    have within := bound rest node (by simpa using descent) directory
    omega
  obtain ⟨cleared, progress, clears, deletes⟩ := deleteRecursively_empties deletable reached shallow
  have beneath := beneath_of_directory (.here root) deletable.tree.directory
  obtain ⟨parent, permissions, mtime, empty⟩ := progress.swept.empty deletable.tree.directory fun _ => beneath
  have inOrder : InOrder disk root (cString path) (.unlinkat none (cString path) true, cleared.disk) :=
    ⟨rfl, rfl, parent, permissions, mtime, empty⟩
  have start : (none : Option Nat).getD cleared.disk.files.currentDirectory = cleared.disk.files.currentDirectory := rfl
  refine ⟨cleared, progress, clears, ?_, ?_⟩
  next =>
    rintro here name ⟨located, found⟩
    have removed := rmdirat_iff.mpr
      ⟨here, name, root, parent, permissions, mtime, cString_cString path ▸ located, found,
      empty, rfl⟩
    have above := progress.swept.isDirectory.mp (locate_ok located).2
    refine ⟨_, ?_, progress.detach _ inOrder above name⟩
    simp only [deletes, rmdirFunc, FileUtils.unlinkat, cString_cString, if_true, start, removed]
  next =>
    intro unnamed
    cases removed : cleared.disk.rmdirat cleared.disk.files.currentDirectory (cString path) with
    | error errno =>
      refine ⟨errno, text "Error removing directory \"" ++ cString path ++ text "\"", _, ?_, progress.record _ inOrder⟩
      simp only [deletes, rmdirFunc, FileUtils.unlinkat, cString_cString, if_true, start, removed]
    | ok after =>
      obtain ⟨here, name, node, parent, permissions, mtime, located, found, kind, -⟩ := rmdirat_iff.mp removed
      rw [cString_cString] at located
      have directory := (FileSystem.isDirectory_iff node).mpr ⟨_, _, _, _, kind⟩
      obtain rfl := progress.swept.named reached located found directory
      exact absurd ⟨located, found⟩ (unnamed here name)

end Traversal

section Samples

def treeObject : Nat → FileObject Nat
  | 0 => .directory 0 [(text "d", 1), (text "l", 2), (text "o", 3)] 0o755 0
  | 1 => .directory 0 [(text "f", 4), (text "s", 5), (text "i", 6), (text "u", 7)] 0o755 0
  | 2 => .symlink (text "d")
  | 3 => .directory 0 [(text "k", 8)] 0o755 0
  | 5 => .directory 1 [(text "g", 9), (text "n", 10)] 0o755 0
  | 6 => .symlink (text "s")
  | 7 => .symlink (text "/o")
  | 10 => .symlink (text "nowhere")
  | _ => .regular (text "x") 0o644 0

theorem treeObject_entries {directory parent : Nat} {entries : List (Bytes × Nat)} {permissions : Fin 0o10000}
    {mtime : Int} (kind : treeObject directory = .directory parent entries permissions mtime) :
    parent < 11 ∧ ∀ entry ∈ entries, IsName entry.1 ∧ entry.2 < 11 := by
  unfold treeObject at kind
  split at kind <;> cases kind <;> decide

def treeDisk : Disk where
  files :=
    { root := 0
      currentDirectory := 0
      object := treeObject
      denied := fun _ => none
      symlinkLimit := 40
      named := fun _ _ _ _ _ kind entry member => ((treeObject_entries kind).2 entry member).1 }
  umask := 0o022
  next := 11
  bounded := fun _ _ _ _ _ kind =>
    ⟨(treeObject_entries kind).1, fun entry member => ((treeObject_entries kind).2 entry member).2⟩
  root_used := by decide
  current_used := by decide

def treeListing : Readdir
  | 1 => [text "u", dotdot, text "f", text "s", dot, text "i"]
  | 5 => [dot, text "n", text "g", dotdot]
  | _ => [dot, dotdot]

theorem treeDisk_descent {names : List Bytes} {node : Nat} (descent : treeDisk.files.graph.Descent 1 names node) :
    (names, node) ∈ [([], 1), ([text "f"], 4), ([text "s"], 5), ([text "i"], 6), ([text "u"], 7),
      ([text "s", text "g"], 9), ([text "s", text "n"], 10)] := by
  have leaf {here target : Nat} {names : List Bytes} (plain : here ∈ [4, 6, 7, 9, 10])
      (descent : treeDisk.files.graph.Descent here names target) : names = [] ∧ target = here := by
    refine descent.of_leaf ?_
    rintro ⟨parent, entries, kind⟩
    simp only [List.mem_cons, List.not_mem_nil, or_false] at plain
    rcases plain with rfl | rfl | rfl | rfl | rfl <;> cases kind
  have here : treeDisk.files.graph.object 1 =
    .directory 0 [(text "f", 4), (text "s", 5), (text "i", 6), (text "u", 7)] := rfl
  have below : treeDisk.files.graph.object 5 = .directory 1 [(text "g", 9), (text "n", 10)] := rfl
  cases descent with
  | here => decide
  | inside entered descent =>
    have listed := Graph.enter_down_listed here entered
    simp only [List.mem_cons, Prod.mk.injEq, List.not_mem_nil, or_false] at listed
    rcases listed with ⟨rfl, rfl⟩ | ⟨rfl, rfl⟩ | ⟨rfl, rfl⟩ | ⟨rfl, rfl⟩
    next =>
      obtain ⟨rfl, rfl⟩ := leaf (by simp) descent
      decide
    next =>
      cases descent with
      | here => decide
      | inside entered descent =>
        have listed := Graph.enter_down_listed below entered
        simp only [List.mem_cons, Prod.mk.injEq, List.not_mem_nil, or_false] at listed
        rcases listed with ⟨rfl, rfl⟩ | ⟨rfl, rfl⟩ <;>
        next =>
          obtain ⟨rfl, rfl⟩ := leaf (by simp) descent
          decide
    next =>
      obtain ⟨rfl, rfl⟩ := leaf (by simp) descent
      decide
    next =>
      obtain ⟨rfl, rfl⟩ := leaf (by simp) descent
      decide

theorem treeDisk_directory {names : List Bytes} {node : Nat} (descent : treeDisk.files.graph.Descent 1 names node)
    (directory : treeDisk.files.graph.IsDirectory node) : names = [] ∧ node = 1 ∨ names = [text "s"] ∧ node = 5 := by
  obtain ⟨parent, entries, kind⟩ := directory
  have listed := treeDisk_descent descent
  simp only [List.mem_cons, Prod.mk.injEq, List.not_mem_nil, or_false] at listed
  rcases listed with root | ⟨-, rfl⟩ | sub | ⟨-, rfl⟩ | ⟨-, rfl⟩ | ⟨-, rfl⟩ | ⟨-, rfl⟩
  next => exact .inl root
  next => cases kind
  next => exact .inr sub
  all_goals cases kind

theorem treeDisk_beneath {node : Nat} (beneath : treeDisk.files.graph.Beneath 1 [] node) : node = 1 ∨ node = 5 := by
  obtain ⟨rest, descent, directory⟩ := beneath
  exact (treeDisk_directory descent directory).imp And.right And.right

theorem treeDisk_deletable : Deletable treeListing treeDisk 1 where
  tree :=
    { directory := ⟨_, _, rfl⟩
      finite := ⟨1, fun names node descent directory => by
        rcases treeDisk_directory descent directory with ⟨rfl, -⟩ | ⟨rfl, -⟩ <;> decide⟩
      once := fun names others node first second directory => by
        rcases treeDisk_directory first directory with ⟨rfl, rfl⟩ | ⟨rfl, rfl⟩ <;>
          rcases treeDisk_directory second directory with ⟨rfl, same⟩ | ⟨rfl, same⟩ <;> first | rfl | cases same }
  granted node _ := rfl
  once node beneath := by
    rcases treeDisk_beneath beneath with rfl | rfl <;> decide
  listed node beneath name := by
    have entries (here : Nat) (parent : Nat) (entries : List (Bytes × Nat)) (permissions : Fin 0o10000)
        (kind : treeDisk.files.object here = .directory parent entries permissions 0) :
        (∃ next, treeDisk.find here name = some next) ↔ name ∈ entries.map Prod.fst := by
      rw [Disk.find_directory kind, ← Option.isSome_iff_exists, Option.isSome_map, List.find?_isSome, List.mem_map]
      simp only [decide_eq_true_eq]
    rcases treeDisk_beneath beneath with rfl | rfl
    next =>
      have names : DirentWrapper.skipDots (treeListing 1) = [text "u", text "f", text "s", text "i"] := by decide
      rw [entries 1 0 _ 0o755 rfl, names]
      simp only [List.map_cons, List.map_nil, List.mem_cons, List.not_mem_nil, or_false]
      tauto
    next =>
      have names : DirentWrapper.skipDots (treeListing 5) = [text "n", text "g"] := by decide
      rw [entries 5 1 _ 0o755 rfl, names]
      simp only [List.map_cons, List.map_nil, List.mem_cons, List.not_mem_nil, or_false]
      tauto

theorem treeDisk_named {gone : Nat → Bytes → Prop} {cleared : Disk} (swept : treeDisk.Swept gone cleared)
    (kept : ¬gone 0 (text "d")) : Named cleared (text "/d/") 1 0 ⟨text "d", by constructor <;> decide⟩ := by
  have directory : cleared.files.graph.IsDirectory 0 := swept.isDirectory.mpr ⟨_, _, rfl⟩
  have start : cleared.start (cString (text "/d")) = 0 := swept.root
  have reaches : cleared.Reaches (fun _ => True) (cleared.start (cString (text "/d"))) [.stay] 0 := by
    rw [start]
    exact Reaches.stay ⟨[], .here 0, Nat.zero_le _, fun _ _ => trivial⟩ directory
  have path : dropSlashes (cString (text "/d/")) = text "/d" := by decide
  refine ⟨?_, (swept.kept 0 (text "d") kept).trans rfl⟩
  rw [path]
  exact locate_of_reaches (by decide) reaches directory

theorem deleteDirectory_removes_tree : ∃ enough, ∀ stack, enough ≤ stack → ∃ cleared after,
    clearDirectory treeListing stack (text "/d/") ⟨treeDisk, []⟩ = .ok () cleared ∧
      Progress treeDisk 1 (text "/d/") (fun node _ => treeDisk.files.graph.Beneath 1 [] node) cleared ∧
      deleteDirectory treeListing stack (text "/d/") ⟨treeDisk, []⟩ = .ok () after ∧
      Progress treeDisk 1 (text "/d/") (fun node probe => treeDisk.files.graph.Beneath 1 [] node ∨
        node = 0 ∧ probe = text "d") after := by
  obtain ⟨enough, removes⟩ := @deleteDirectory_removes _ _ _ (text "/d/") treeDisk_deletable (by decide +kernel)
  refine ⟨enough, fun stack more => ?_⟩
  obtain ⟨cleared, progress, clears, deletes, -⟩ := removes stack more
  obtain ⟨after, deleted, removed⟩ := deletes 0 _ (treeDisk_named progress.swept fun beneath => by
    rcases treeDisk_beneath beneath with same | same <;> cases same)
  exact ⟨cleared, after, clears, progress, deleted, removed⟩

def linkDisk : Disk :=
  (CreateDirectory.bareDisk.create 0 ⟨text "d", by constructor <;> decide⟩ (.directory 0o755)).create 0
    ⟨text "l", by constructor <;> decide⟩ (.symlink (text "d"))

theorem linkDisk_deletable : Deletable (fun _ => [dot, dotdot]) linkDisk 1 := by
  have empty : linkDisk.files.graph.object 1 = .directory 0 [] := rfl
  have alone {node : Nat} (beneath : linkDisk.files.graph.Beneath 1 [] node) : node = 1 := by
    obtain ⟨rest, descent, -⟩ := beneath
    exact (descent.of_empty empty).2
  refine ⟨Graph.isTree_of_empty empty, fun node beneath => ?_, fun _ _ => by decide, fun node beneath name => ?_⟩
  next => exact alone beneath ▸ rfl
  next =>
    obtain rfl := alone beneath
    have nothing : linkDisk.find 1 name = none := rfl
    have none : DirentWrapper.skipDots [dot, dotdot] = [] := by decide
    simp [nothing, none]

theorem deleteDirectory_link : Deletable (fun _ => [dot, dotdot]) linkDisk 1 ∧
    linkDisk.files.pathname true linkDisk.files.currentDirectory (text "/l") = .ok 1 ∧
      ∀ stack after, deleteDirectory (fun _ => [dot, dotdot]) stack (text "/l") ⟨linkDisk, []⟩ ≠ .ok () after := by
  refine ⟨linkDisk_deletable, by rfl, fun stack after => ?_⟩
  cases stack with
  | zero => nofun
  | succ stack => nofun

end Samples

end DeleteRecursively

end BuildboxCommon
