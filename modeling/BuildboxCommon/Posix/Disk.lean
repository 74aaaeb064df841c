import BuildboxCommon.Posix

set_option autoImplicit false

namespace BuildboxCommon.Posix

open ByteString FileUtils LexicalPath PathResolution

def eexist : Nat := 17
def einval : Nat := 22

abbrev Name := { name : Bytes // IsName name }

inductive NewObject where
  | regular (contents : Bytes) (permissions : Fin 0o10000)
  | directory (permissions : Fin 0o10000)
  | symlink (target : Bytes)

def NewObject.object (parent : Nat) : NewObject → FileObject Nat
  | .regular contents permissions => .regular contents permissions 0
  | .directory permissions => .directory parent [] permissions 0
  | .symlink target => .symlink target

-- A file system that changes. The inodes from `next` on are free.
structure Disk where
  files : FileSystem Nat
  umask : Nat
  next : Nat
  bounded : ∀ directory parent entries permissions mtime,
    files.object directory = .directory parent entries permissions mtime →
      parent < next ∧ ∀ entry ∈ entries, entry.2 < next
  root_used : files.root < next
  current_used : files.currentDirectory < next

namespace Disk

variable (disk : Disk)

def Fits : FileObject Nat → Prop
  | .directory parent entries _ _ => parent < disk.next ∧ ∀ entry ∈ entries, IsName entry.1 ∧ entry.2 < disk.next
  | .regular _ _ _ | .symlink _ => True

theorem fits_regular (contents : Bytes) (permissions : Fin 0o10000) (mtime : Int) :
    disk.Fits (.regular contents permissions mtime) := trivial

variable {disk} in
theorem fits_update {node directory parent : Nat} {object : FileObject Nat} (fits : disk.Fits object)
    {entries : List (Bytes × Nat)} {permissions : Fin 0o10000} {mtime : Int}
    (kind : Function.update disk.files.object node object directory = .directory parent entries permissions mtime) :
    disk.Fits (.directory parent entries permissions mtime) := by
  by_cases same : directory = node
  next =>
    rw [same, Function.update_self] at kind
    exact kind ▸ fits
  next =>
    rw [Function.update_of_ne same] at kind
    obtain ⟨above, below⟩ := disk.bounded _ _ _ _ _ kind
    exact ⟨above, fun entry member => ⟨disk.files.named _ _ _ _ _ kind entry member, below entry member⟩⟩

def install (node : Nat) (object : FileObject Nat) (fits : disk.Fits object) (denied : Option Nat) (next : Nat)
    (grows : disk.next ≤ next) : Disk where
  files :=
    { disk.files with
      object := Function.update disk.files.object node object
      denied := Function.update disk.files.denied node denied
      named := fun _ _ _ _ _ kind entry member => ((fits_update fits kind).2 entry member).1 }
  umask := disk.umask
  next := next
  bounded := fun _ _ _ _ _ kind =>
    have bounded := fits_update fits kind
    ⟨bounded.1.trans_le grows, fun entry member => (bounded.2 entry member).2.trans_le grows⟩
  root_used := disk.root_used.trans_le grows
  current_used := disk.current_used.trans_le grows

def store (node : Nat) (object : FileObject Nat) (fits : disk.Fits object) : Disk :=
  disk.install node object fits (disk.files.denied node) disk.next le_rfl

def allocate (object : FileObject Nat) (fits : disk.Fits object) : Disk :=
  disk.install disk.next object fits none (disk.next + 1) (Nat.le_succ _)

variable {disk} in
theorem fits_entries {directory parent : Nat} {entries others : List (Bytes × Nat)} {permissions : Fin 0o10000}
    {mtime : Int} (kind : disk.files.object directory = .directory parent entries permissions mtime)
    (known : ∀ entry ∈ others, entry ∈ entries ∨ IsName entry.1 ∧ entry.2 < disk.next) :
    disk.Fits (.directory parent others permissions mtime) := by
  obtain ⟨above, below⟩ := disk.bounded _ _ _ _ _ kind
  refine ⟨above, fun entry member => ?_⟩
  rcases known entry member with old | new
  next => exact ⟨disk.files.named _ _ _ _ _ kind entry old, below entry old⟩
  next => exact new

variable {disk} in
theorem fits_attach {directory parent node : Nat} {entries : List (Bytes × Nat)} {permissions : Fin 0o10000}
    {mtime : Int} (kind : disk.files.object directory = .directory parent entries permissions mtime) (name : Name)
    (used : node < disk.next) : disk.Fits (.directory parent ((name.1, node) :: entries.filter fun entry =>
      entry.1 ≠ name.1) permissions mtime) := by
  refine fits_entries kind fun entry member => ?_
  rcases List.mem_cons.mp member with rfl | old
  next => exact .inr ⟨name.2, used⟩
  next => exact .inl (List.mem_of_mem_filter old)

variable {disk} in
theorem fits_detach {directory parent : Nat} {entries : List (Bytes × Nat)} {permissions : Fin 0o10000} {mtime : Int}
    (kind : disk.files.object directory = .directory parent entries permissions mtime) (name : Name) :
    disk.Fits (.directory parent (entries.filter fun entry => entry.1 ≠ name.1) permissions mtime) :=
  fits_entries kind fun _ member => .inl (List.mem_of_mem_filter member)

def attach (directory : Nat) (name : Name) (node : Nat) : Disk :=
  match kind : disk.files.object directory with
  | .directory _ _ _ _ => if used : node < disk.next then disk.store directory _ (fits_attach kind name used) else disk
  | .regular _ _ _ | .symlink _ => disk

def detach (directory : Nat) (name : Name) : Disk :=
  match kind : disk.files.object directory with
  | .directory _ _ _ _ => disk.store directory _ (fits_detach kind name)
  | .regular _ _ _ | .symlink _ => disk

def create (directory : Nat) (name : Name) (new : NewObject) : Disk :=
  if used : directory < disk.next then
    (disk.allocate (new.object directory) (by
      cases new with
      | directory permissions => exact ⟨used, by simp⟩
      | regular | symlink => trivial)).attach directory name disk.next
  else disk

def start (path : Bytes) : Nat := if isGlobal path then disk.files.root else disk.files.currentDirectory

-- The directory that a path ends in, and the name there. Other paths are left out.
def locate (path : Bytes) : Except Nat (Nat × Name) :=
  let path := cString path
  match last : (steps path).getLast? with
  | some (.down name) =>
    match disk.files.graph.resolve true disk.files.symlinkLimit (disk.start path) (steps path).dropLast with
    | .error fault => .error (errnoOf fault)
    | .ok directory =>
      match disk.files.object directory with
      | .directory _ _ _ _ => .ok (directory, ⟨name, isName_of_step (cString_nulFree _) (List.mem_of_getLast? last)⟩)
      | .regular _ _ _ | .symlink _ => .error enotdir
  | some .stay | some .up | none => .error (if path = [] then enoent else einval)

def find (directory : Nat) (name : Bytes) : Option Nat := (disk.files.graph.enter directory (.down name)).toOption

def createNew (path : Bytes) (new : NewObject) : Except Nat Disk :=
  match disk.locate path with
  | .error errno => .error errno
  | .ok (directory, name) =>
    match disk.find directory name.1 with
    | some _ => .error eexist
    | none => .ok (disk.create directory name new)

def masked (mode : Nat) : Fin 0o10000 := Fin.ofNat _ (mode - (mode &&& disk.umask))

def mkstemp (path : Bytes) : Except Nat Disk := disk.createNew path (.regular [] 0o600)

def mkdir (path : Bytes) (mode : Nat) : Except Nat Disk := disk.createNew path (.directory (disk.masked mode))

def symlink (target path : Bytes) : Except Nat Disk :=
  if cString target = [] then .error enoent else disk.createNew path (.symlink (cString target))

def fchmod (path : Bytes) (mode : Nat) : Disk :=
  match disk.files.pathname true disk.files.currentDirectory path with
  | .error _ => disk
  | .ok node =>
    match disk.files.object node with
    | .regular contents _ mtime =>
      disk.store node (.regular contents (Fin.ofNat _ mode) mtime) (disk.fits_regular _ _ _)
    | .directory _ _ _ _ | .symlink _ => disk

-- `O_WRONLY | O_CREAT | O_TRUNC` and what is then written. A dangling link is left out.
def overwrite (path data : Bytes) : Except Nat Disk :=
  match disk.files.pathname true disk.files.currentDirectory path with
  | .error errno =>
    if errno = enoent then disk.createNew path (.regular data (disk.masked 0o666)) else .error errno
  | .ok node =>
    match disk.files.object node with
    | .regular _ permissions mtime =>
      match disk.files.denied node with
      | some errno => .error errno
      | none => .ok (disk.store node (.regular data permissions mtime) (disk.fits_regular _ _ _))
    | .directory _ _ _ _ => .error eisdir
    | .symlink _ => .error eloop

def replaces (node : Nat) : Option Nat → Bool
  | none => true
  | some other =>
    match disk.files.object other with
    | .directory _ _ _ _ => false
    | .regular _ _ _ | .symlink _ => node ≠ other

-- Of a file or a link. Two names of one file stay as they are.
def rename (source target : Bytes) : Except Nat Disk :=
  match disk.locate source, disk.locate target with
  | .error errno, _ | .ok _, .error errno => .error errno
  | .ok (oldDirectory, oldName), .ok (newDirectory, newName) =>
    match disk.find oldDirectory oldName.1 with
    | none => .error enoent
    | some node =>
      if disk.find newDirectory newName.1 = some node then .ok disk
      else if disk.replaces node (disk.find newDirectory newName.1) then
        .ok ((disk.detach oldDirectory oldName).attach newDirectory newName node)
      else .error eisdir

def unlink (path : Bytes) : Except Nat Disk :=
  match disk.locate path with
  | .error errno => .error errno
  | .ok (directory, name) =>
    match disk.find directory name.1 with
    | none => .error enoent
    | some node =>
      match disk.files.object node with
      | .directory _ _ _ _ => .error eisdir
      | .regular _ _ _ | .symlink _ => .ok (disk.detach directory name)

@[simp] theorem object_store {node : Nat} {object : FileObject Nat} (fits : disk.Fits object) :
    (disk.store node object fits).files.object = Function.update disk.files.object node object := rfl

@[simp] theorem object_allocate {object : FileObject Nat} (fits : disk.Fits object) :
    (disk.allocate object fits).files.object = Function.update disk.files.object disk.next object := rfl

variable {disk}

theorem find_eq_some {here node : Nat} {name : Bytes} :
    disk.find here name = some node ↔ disk.files.graph.enter here (.down name) = .ok node := by
  unfold find
  cases disk.files.graph.enter here (.down name) <;> simp [Except.toOption]

theorem find_directory {here parent : Nat} {entries : List (Bytes × Nat)} {permissions : Fin 0o10000} {mtime : Int}
    (kind : disk.files.object here = .directory parent entries permissions mtime) (name : Bytes) :
    disk.find here name = (entries.find? fun entry => entry.1 = name).map Prod.snd := by
  simp only [find, Graph.enter, FileSystem.graph, kind, FileObject.shape]
  cases entries.find? fun entry => entry.1 = name <;> rfl

theorem find_used {here node : Nat} {name : Bytes} (found : disk.find here name = some node) : node < disk.next := by
  obtain ⟨parent, entries, directory⟩ := Graph.isDirectory_of_enter (find_eq_some.mp found)
  obtain ⟨parent, entries, permissions, mtime, kind⟩ := (FileSystem.isDirectory_iff here).mp ⟨_, _, directory⟩
  rw [find_directory kind, Option.map_eq_some_iff] at found
  obtain ⟨entry, member, rfl⟩ := found
  exact (disk.bounded _ _ _ _ _ kind).2 entry (List.mem_of_find?_eq_some member)

theorem find?_filter_ne (name probe : Bytes) (entries : List (Bytes × Nat)) :
    (entries.filter fun entry => entry.1 ≠ name).find? (fun entry => entry.1 = probe) =
      if probe = name then none else entries.find? fun entry => entry.1 = probe := by
  induction entries with
  | nil => simp
  | cons entry entries ih =>
    by_cases removed : entry.1 = name
    next =>
      by_cases same : probe = name
      next => simp [same]
      next => simpa [removed, same, Ne.symm same] using ih
    next =>
      by_cases same : entry.1 = probe
      next => simp [same, show probe ≠ name from same ▸ removed]
      next => simpa [removed, same] using ih

section Entries

variable {here parent : Nat} {entries : List (Bytes × Nat)} {permissions : Fin 0o10000} {mtime : Int}
  (kind : disk.files.object here = .directory parent entries permissions mtime)

include kind

theorem attach_eq (name : Name) {node : Nat} (used : node < disk.next) :
    disk.attach here name node = disk.store here _ (fits_attach kind name used) := by
  unfold attach
  split
  next parent' entries' permissions' mtime' found =>
    obtain ⟨rfl, rfl, rfl, rfl⟩ := FileObject.directory.inj (kind.symm.trans found)
    rw [dif_pos used]
  next found => simp [kind] at found
  next found => simp [kind] at found

theorem detach_eq (name : Name) : disk.detach here name = disk.store here _ (fits_detach kind name) := by
  unfold detach
  split
  next parent' entries' permissions' mtime' found =>
    obtain ⟨rfl, rfl, rfl, rfl⟩ := FileObject.directory.inj (kind.symm.trans found)
    rfl
  next found => simp [kind] at found
  next found => simp [kind] at found

theorem find_attach (name : Name) {node : Nat} (used : node < disk.next) (probe : Bytes) :
    (disk.attach here name node).find here probe = if probe = name.1 then some node else disk.find here probe := by
  rw [attach_eq kind name used, find_directory (by rw [object_store, Function.update_self]), find_directory kind,
    List.find?_cons, find?_filter_ne]
  by_cases same : probe = name.1
  next => simp [same]
  next => simp [same, Ne.symm same]

theorem find_detach (name : Name) (probe : Bytes) :
    (disk.detach here name).find here probe = if probe = name.1 then none else disk.find here probe := by
  rw [detach_eq kind name, find_directory (by rw [object_store, Function.update_self]), find_directory kind,
    find?_filter_ne]
  by_cases same : probe = name.1
  next => simp [same]
  next => simp [same]

end Entries

structure Within (here : Nat) (before after : Disk) : Prop where
  next : before.next ≤ after.next
  root : after.files.root = before.files.root
  currentDirectory : after.files.currentDirectory = before.files.currentDirectory
  symlinkLimit : after.files.symlinkLimit = before.files.symlinkLimit
  others : ∀ node < before.next, node ≠ here → after.files.object node = before.files.object node
  denied : ∀ node < before.next, after.files.denied node = before.files.denied node
  granted : ∀ node, before.next ≤ node → node < after.next → after.files.denied node = none
  directory : ∀ parent entries permissions mtime,
    before.files.object here = .directory parent entries permissions mtime →
    ∃ entries, after.files.object here = .directory parent entries permissions mtime

namespace Within

variable {here : Nat} {before between after : Disk}

theorem refl (here : Nat) (disk : Disk) : Within here disk disk :=
  ⟨le_rfl, rfl, rfl, rfl, fun _ _ _ => rfl, fun _ _ => rfl, fun _ low high => absurd high (Nat.not_lt.mpr low),
    fun _ entries _ _ kind => ⟨entries, kind⟩⟩

theorem trans (first : Within here before between) (second : Within here between after) : Within here before after where
  next := first.next.trans second.next
  root := second.root.trans first.root
  currentDirectory := second.currentDirectory.trans first.currentDirectory
  symlinkLimit := second.symlinkLimit.trans first.symlinkLimit
  others node used differs :=
    (second.others node (used.trans_le first.next) differs).trans (first.others node used differs)
  denied node used := (second.denied node (used.trans_le first.next)).trans (first.denied node used)
  granted node low high := by
    by_cases old : node < between.next
    next => exact (second.denied node old).trans (first.granted node low old)
    next => exact second.granted node (Nat.not_lt.mp old) high
  directory parent entries permissions mtime kind := by
    obtain ⟨entries, kind⟩ := first.directory _ _ _ _ kind
    exact second.directory _ _ _ _ kind

theorem inside (first : Within here before between) {fresh : Nat} (new : before.next ≤ fresh)
    (used : here < before.next)
    (second : Within fresh between after) : Within here before after where
  next := first.next.trans second.next
  root := second.root.trans first.root
  currentDirectory := second.currentDirectory.trans first.currentDirectory
  symlinkLimit := second.symlinkLimit.trans first.symlinkLimit
  others node old differs :=
    (second.others node (old.trans_le first.next) (by omega)).trans (first.others node old differs)
  denied node old := (second.denied node (old.trans_le first.next)).trans (first.denied node old)
  granted node low high := by
    by_cases old : node < between.next
    next => exact (second.denied node old).trans (first.granted node low old)
    next => exact second.granted node (Nat.not_lt.mp old) high
  directory parent entries permissions mtime kind := by
    obtain ⟨entries, kind⟩ := first.directory _ _ _ _ kind
    exact ⟨entries, (second.others here (used.trans_le first.next) (by omega)).trans kind⟩

theorem store_here {disk : Disk} {parent : Nat} {entries others : List (Bytes × Nat)} {permissions : Fin 0o10000}
    {mtime : Int}
    (kind : disk.files.object here = .directory parent entries permissions mtime)
    (fits : disk.Fits (.directory parent others permissions mtime)) :
    Within here disk (disk.store here (.directory parent others permissions mtime) fits) where
  next := le_rfl
  root := rfl
  currentDirectory := rfl
  symlinkLimit := rfl
  others node _ differs := by rw [object_store, Function.update_of_ne differs]
  denied node _ := by
    by_cases same : node = here <;> simp [store, install, same]
  granted _ low high := absurd high (Nat.not_lt.mpr low)
  directory _ _ _ _ found := by
    obtain ⟨rfl, rfl, rfl, rfl⟩ := FileObject.directory.inj (kind.symm.trans found)
    exact ⟨others, by rw [object_store, Function.update_self]⟩

theorem attach (disk : Disk) (directory : disk.files.graph.IsDirectory here) (name : Name) {node : Nat}
    (used : node < disk.next) : Within here disk (disk.attach here name node) := by
  obtain ⟨parent, entries, permissions, mtime, kind⟩ := (FileSystem.isDirectory_iff here).mp directory
  exact attach_eq kind name used ▸ store_here kind _

theorem detach (disk : Disk) (directory : disk.files.graph.IsDirectory here) (name : Name) :
    Within here disk (disk.detach here name) := by
  obtain ⟨parent, entries, permissions, mtime, kind⟩ := (FileSystem.isDirectory_iff here).mp directory
  exact detach_eq kind name ▸ store_here kind _

theorem allocate (disk : Disk) (used : here < disk.next) {object : FileObject Nat} (fits : disk.Fits object) :
    Within here disk (disk.allocate object fits) where
  next := Nat.le_succ _
  root := rfl
  currentDirectory := rfl
  symlinkLimit := rfl
  others node old _ := by rw [object_allocate, Function.update_of_ne (Nat.ne_of_lt old)]
  denied node old := Function.update_of_ne (Nat.ne_of_lt old) _ _
  granted node low high := by
    obtain rfl : node = disk.next := Nat.le_antisymm (Nat.lt_succ_iff.mp high) low
    exact Function.update_self _ _ _
  directory _ entries _ _ kind := ⟨entries, by rw [object_allocate, Function.update_of_ne (Nat.ne_of_lt used), kind]⟩

theorem isDirectory (within : Within here before after) (directory : before.files.graph.IsDirectory here) :
    after.files.graph.IsDirectory here := by
  obtain ⟨parent, entries, permissions, mtime, kind⟩ := (FileSystem.isDirectory_iff here).mp directory
  obtain ⟨entries, kind⟩ := within.directory _ _ _ _ kind
  exact (FileSystem.isDirectory_iff here).mpr ⟨_, _, _, _, kind⟩

theorem store_new (within : Within here before after) (used : here < before.next) {node : Nat}
    (new : before.next ≤ node) {object : FileObject Nat} (fits : after.Fits object) :
    Within here before (after.store node object fits) where
  next := within.next
  root := within.root
  currentDirectory := within.currentDirectory
  symlinkLimit := within.symlinkLimit
  others other old differs := by
    rw [object_store, Function.update_of_ne (by omega), within.others other old differs]
  denied other old := (Function.update_of_ne (by omega) _ _).trans (within.denied other old)
  granted other low high := by
    by_cases same : other = node
    next =>
      subst same
      exact (Function.update_self _ _ _).trans (within.granted _ low high)
    next => exact (Function.update_of_ne same _ _).trans (within.granted other low high)
  directory _ _ _ _ kind := by
    obtain ⟨entries, kind⟩ := within.directory _ _ _ _ kind
    exact ⟨entries, by rw [object_store, Function.update_of_ne (by omega), kind]⟩

end Within

theorem find_congr {first second : Disk} {here : Nat} (same : first.files.object here = second.files.object here)
    (name : Bytes) : first.find here name = second.find here name := by
  simp only [find, Graph.enter, FileSystem.graph, same]

section Create

variable {here : Nat} (directory : disk.files.graph.IsDirectory here) (used : here < disk.next) (name : Name)
  (new : NewObject)

include directory used

omit directory in
theorem create_eq : ∃ fits, disk.create here name new =
    (disk.allocate (new.object here) fits).attach here name disk.next := ⟨_, dif_pos used⟩

theorem Within.create : Within here disk (disk.create here name new) := by
  obtain ⟨fits, created⟩ := create_eq used name new
  have allocated := Within.allocate disk used fits
  rw [created]
  exact allocated.trans (.attach _ (allocated.isDirectory directory) name (Nat.lt_succ_self _))

theorem find_create (probe : Bytes) :
    (disk.create here name new).find here probe = if probe = name.1 then some disk.next else disk.find here probe := by
  obtain ⟨fits, created⟩ := create_eq used name new
  have allocated := (Within.allocate disk used fits).isDirectory directory
  obtain ⟨parent, entries, permissions, mtime, kind⟩ := (FileSystem.isDirectory_iff here).mp allocated
  rw [created, find_attach kind name (Nat.lt_succ_self _)]
  have same : (disk.allocate (new.object here) fits).files.object here = disk.files.object here := by
    rw [object_allocate, Function.update_of_ne (Nat.ne_of_lt used)]
  rw [find_congr same]

theorem object_create : (disk.create here name new).files.object disk.next = new.object here := by
  obtain ⟨fits, created⟩ := create_eq used name new
  have allocated := (Within.allocate disk used fits).isDirectory directory
  obtain ⟨parent, entries, permissions, mtime, kind⟩ := (FileSystem.isDirectory_iff here).mp allocated
  rw [created, attach_eq kind name (Nat.lt_succ_self _), object_store, Function.update_of_ne (Nat.ne_of_gt used),
    object_allocate, Function.update_self]

theorem next_create : (disk.create here name new).next = disk.next + 1 := by
  obtain ⟨fits, created⟩ := create_eq used name new
  have allocated := (Within.allocate disk used fits).isDirectory directory
  obtain ⟨parent, entries, permissions, mtime, kind⟩ := (FileSystem.isDirectory_iff here).mp allocated
  rw [created, attach_eq kind name (Nat.lt_succ_self _)]
  rfl

end Create

section Effects

variable {path : Bytes} {here : Nat} {name : Name} {after : Disk} (located : disk.locate path = .ok (here, name))

include located

theorem createNew_ok {new : NewObject} (run : disk.createNew path new = .ok after) :
    disk.find here name.1 = none ∧ after = disk.create here name new := by
  simp only [createNew, located] at run
  split at run
  next => cases run
  next absent => exact ⟨absent, (Except.ok.inj run).symm⟩

theorem unlink_ok (run : disk.unlink path = .ok after) :
    (∃ node, disk.find here name.1 = some node) ∧ after = disk.detach here name := by
  simp only [unlink, located] at run
  split at run
  next => cases run
  next node found =>
    split at run
    next => cases run
    next => exact ⟨⟨node, found⟩, (Except.ok.inj run).symm⟩
    next => exact ⟨⟨node, found⟩, (Except.ok.inj run).symm⟩

theorem rename_ok {target : Bytes} {there : Nat} {new : Name} (other : disk.locate target = .ok (there, new))
    (run : disk.rename path target = .ok after) : ∃ node, disk.find here name.1 = some node ∧
      (disk.find there new.1 = some node ∧ after = disk ∨
        disk.find there new.1 ≠ some node ∧ after = (disk.detach here name).attach there new node) := by
  simp only [rename, located, other] at run
  split at run
  next => cases run
  next node found =>
    refine ⟨node, found, ?_⟩
    split_ifs at run with same
    next => exact .inl ⟨same, (Except.ok.inj run).symm⟩
    next => exact .inr ⟨same, (Except.ok.inj run).symm⟩

end Effects

section Files

variable {path : Bytes} {node : Nat} {contents : Bytes} {permissions : Fin 0o10000} {mtime : Int}
  (reached : disk.files.pathname true disk.files.currentDirectory path = .ok node)
  (file : disk.files.object node = .regular contents permissions mtime)

include reached file

theorem fchmod_file (mode : Nat) :
    disk.fchmod path mode = disk.store node (.regular contents (Fin.ofNat _ mode) mtime) (disk.fits_regular _ _ _) := by
  simp only [fchmod, reached, file]

theorem overwrite_file (granted : disk.files.denied node = none) (data : Bytes) :
    disk.overwrite path data = .ok (disk.store node (.regular data permissions mtime) (disk.fits_regular _ _ _)) := by
  simp only [overwrite, reached, file, granted]

end Files

end Disk

end BuildboxCommon.Posix
