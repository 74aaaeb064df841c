import BuildboxCommon.FileUtils.CreateDirectoriesInPath

set_option autoImplicit false

namespace BuildboxCommon.Posix.Disk

open ByteString FileUtils LexicalPath PathResolution

structure Preserves (before after : Disk) : Prop where
  root : after.files.root = before.files.root
  currentDirectory : after.files.currentDirectory = before.files.currentDirectory
  symlinkLimit : after.files.symlinkLimit = before.files.symlinkLimit
  next : before.next ≤ after.next
  entered : ∀ node < before.next, ∀ step found, before.files.graph.enter node step = .ok found →
    after.files.graph.enter node step = .ok found
  links : ∀ node < before.next, ∀ target,
    after.files.graph.object node = .symlink target ↔ before.files.graph.object node = .symlink target

structure Rewritten (node : Nat) (before after : Disk) : Prop where
  root : after.files.root = before.files.root
  currentDirectory : after.files.currentDirectory = before.files.currentDirectory
  symlinkLimit : after.files.symlinkLimit = before.files.symlinkLimit
  next : after.next = before.next
  others : ∀ other, other ≠ node → after.files.object other = before.files.object other
  was : ∃ contents permissions mtime, before.files.object node = .regular contents permissions mtime
  became : ∃ contents permissions mtime, after.files.object node = .regular contents permissions mtime

theorem pathname_iff {disk : Disk} {path : Bytes} {node : Nat} :
    disk.files.pathname true disk.files.currentDirectory path = .ok node ↔
      cString path ≠ [] ∧ disk.Reaches (fun _ => True) (disk.start (cString path)) (steps (cString path)) node := by
  constructor
  next =>
    intro reached
    have same : disk.files.pathname true disk.files.currentDirectory (cString path) = .ok node := by
      rwa [FileSystem.pathname, cString_cString]
    obtain ⟨present, links, walk, bound, -⟩ := reaches_of_pathname (cString_nulFree path) same
    exact ⟨present, links, walk, bound, fun _ _ => trivial⟩
  next =>
    rintro ⟨present, reaches⟩
    have resolved := reaches.resolve
    rw [start] at resolved
    simp only [FileSystem.pathname, present, if_false, resolved]

theorem locate_directory {disk : Disk} {path : Bytes} {here : Nat} {name : Name}
    (located : disk.locate path = .ok (here, name)) :
    disk.files.graph.IsDirectory here ∧ here < disk.next := by
  obtain ⟨⟨links, walk, -⟩, directory⟩ := locate_ok located
  exact ⟨directory, (walk.known disk.root_used (fun _ _ _ => enter_used) (disk.start_used _)).1⟩

structure Detached (here : Nat) (name : Name) (before after : Disk) : Prop where
  root : after.files.root = before.files.root
  currentDirectory : after.files.currentDirectory = before.files.currentDirectory
  symlinkLimit : after.files.symlinkLimit = before.files.symlinkLimit
  next : after.next = before.next
  others : ∀ node, node ≠ here → after.files.object node = before.files.object node
  enter : ∀ node step, after.files.graph.enter node step =
    if node = here ∧ step = .down name.1 then .error .notFound else before.files.graph.enter node step
  links : ∀ node target,
    after.files.graph.object node = .symlink target ↔ before.files.graph.object node = .symlink target

theorem Detached.of_detach {disk : Disk} {here : Nat} (directory : disk.files.graph.IsDirectory here) (name : Name) :
    Detached here name disk (disk.detach here name) := by
  obtain ⟨parent, entries, permissions, mtime, kind⟩ := (FileSystem.isDirectory_iff here).mp directory
  rw [detach_eq kind name]
  refine ⟨rfl, rfl, rfl, rfl, fun node differs => ?_, fun node step => ?_, fun node target => ?_⟩
  next => rw [object_store, Function.update_of_ne differs]
  next =>
    by_cases same : node = here
    next =>
      subst same
      simp only [Graph.enter, FileSystem.graph, object_store, Function.update_self, kind, FileObject.shape, true_and]
      cases step with
      | stay | up => simp
      | down probe =>
        simp only [find?_filter_ne, Step.down.injEq]
        by_cases gone : probe = name.1 <;> simp [gone]
    next => simp only [Graph.enter, FileSystem.graph, object_store, Function.update_of_ne same, same, false_and,
      if_false]
  next =>
    by_cases same : node = here
    next => simp [FileSystem.graph, same, kind, FileObject.shape]
    next => simp only [FileSystem.graph, object_store, Function.update_of_ne same]

namespace Preserves

variable {before between after : Disk} {here node : Nat} {path : Bytes} {name : Name}

theorem refl (disk : Disk) : Preserves disk disk :=
  ⟨rfl, rfl, rfl, le_rfl, fun _ _ _ _ entered => entered, fun _ _ _ => .rfl⟩

theorem trans (first : Preserves before between) (second : Preserves between after) : Preserves before after where
  root := second.root.trans first.root
  currentDirectory := second.currentDirectory.trans first.currentDirectory
  symlinkLimit := second.symlinkLimit.trans first.symlinkLimit
  next := first.next.trans second.next
  entered node used step found entered :=
    second.entered node (used.trans_le first.next) step found (first.entered node used step found entered)
  links node used target := (second.links node (used.trans_le first.next) target).trans (first.links node used target)

theorem of_graph (root : after.files.root = before.files.root)
    (currentDirectory : after.files.currentDirectory = before.files.currentDirectory)
    (symlinkLimit : after.files.symlinkLimit = before.files.symlinkLimit) (next : before.next ≤ after.next)
    (graph : after.files.graph = before.files.graph) : Preserves before after :=
  ⟨root, currentDirectory, symlinkLimit, next, fun _ _ _ _ entered => graph ▸ entered, fun _ _ _ => by rw [graph]⟩

theorem start_eq (preserves : Preserves before after) (path : Bytes) : after.start path = before.start path := by
  rw [start, start, preserves.root, preserves.currentDirectory]

theorem walk (preserves : Preserves before after) {start found : Nat} {steps : List (Step Bytes)} {links : List Nat}
    (used : start < before.next) (walk : before.files.graph.Walk start steps links found) :
    after.files.graph.Walk start steps links found :=
  walk.preserved preserves.root before.root_used
    (fun _ _ _ known entered => ⟨enter_used known entered, preserves.entered _ known _ _ entered⟩)
    (fun node known => preserves.links node known) used

theorem isDirectory (preserves : Preserves before after) (used : node < before.next)
    (directory : before.files.graph.IsDirectory node) : after.files.graph.IsDirectory node :=
  Graph.isDirectory_of_enter (preserves.entered node used _ _ (Graph.enter_stay directory))

theorem find (preserves : Preserves before after) (used : here < before.next) {probe : Bytes}
    (found : before.find here probe = some node) : after.find here probe = some node :=
  find_eq_some.mpr (preserves.entered here used _ _ (find_eq_some.mp found))

theorem pathname (preserves : Preserves before after)
    (reached : before.files.pathname true before.files.currentDirectory path = .ok node) :
    after.files.pathname true after.files.currentDirectory path = .ok node := by
  obtain ⟨present, links, walk, bound, -⟩ := pathname_iff.mp reached
  refine pathname_iff.mpr ⟨present, links, ?_, preserves.symlinkLimit ▸ bound, fun _ _ => trivial⟩
  rw [preserves.start_eq]
  exact preserves.walk (before.start_used _) walk

theorem locate (preserves : Preserves before after) (located : before.locate path = .ok (here, name)) :
    after.locate path = .ok (here, name) := by
  obtain ⟨⟨links, walk, bound, -⟩, directory⟩ := locate_ok located
  have last := locate_last located
  have used := (walk.known before.root_used (fun _ _ _ => enter_used) (before.start_used _)).1
  have reaches : after.Reaches (fun _ => True) (after.start (cString path)) (steps (cString path)).dropLast here := by
    rw [preserves.start_eq]
    exact ⟨links, preserves.walk (before.start_used _) walk, preserves.symlinkLimit ▸ bound, fun _ _ => trivial⟩
  exact locate_of_reaches (List.dropLast_append_getLast? _ last).symm reaches (preserves.isDirectory used directory)

theorem detach (preserves : Preserves before after) (directory : before.files.graph.IsDirectory here)
    (used : here < before.next) (name : Name) : Preserves (before.detach here name) (after.detach here name) := by
  have kept := preserves.isDirectory used directory
  have first := Detached.of_detach directory name
  have second := Detached.of_detach kept name
  refine ⟨second.root.trans (preserves.root.trans first.root.symm), second.currentDirectory.trans
    (preserves.currentDirectory.trans first.currentDirectory.symm), second.symlinkLimit.trans
    (preserves.symlinkLimit.trans first.symlinkLimit.symm),
      by rw [first.next, second.next]; exact preserves.next, ?_, ?_⟩
  next =>
    intro node known step found entered
    rw [first.enter] at entered
    rw [second.enter]
    split_ifs at entered ⊢
    exact preserves.entered node (first.next ▸ known) step found entered
  next =>
    intro node known target
    rw [first.links, second.links]
    exact preserves.links node (first.next ▸ known) target

end Preserves

theorem Vacant.preserves {disk : Disk} {here : Nat} {name : Name} (vacant : disk.Vacant here name) (new : NewObject) :
    Preserves disk (disk.create here name new) :=
  ⟨(vacant.within new).root, (vacant.within new).currentDirectory, (vacant.within new).symlinkLimit,
    (vacant.within new).next, fun _ used _ _ entered => (vacant.answers new used entered).2,
    fun _ used target => vacant.links new used target⟩

namespace Rewritten

variable {before between after : Disk} {node : Nat}

theorem refl {disk : Disk} {contents : Bytes} {permissions : Fin 0o10000} {mtime : Int}
    (file : disk.files.object node = .regular contents permissions mtime) : Rewritten node disk disk :=
  ⟨rfl, rfl, rfl, rfl, fun _ _ => rfl, ⟨_, _, _, file⟩, ⟨_, _, _, file⟩⟩

theorem trans (first : Rewritten node before between) (second : Rewritten node between after) :
    Rewritten node before after :=
  ⟨second.root.trans first.root, second.currentDirectory.trans first.currentDirectory,
    second.symlinkLimit.trans first.symlinkLimit, second.next.trans first.next,
    fun other differs => (second.others other differs).trans (first.others other differs), first.was, second.became⟩

theorem symm (rewritten : Rewritten node before after) : Rewritten node after before :=
  ⟨rewritten.root.symm, rewritten.currentDirectory.symm, rewritten.symlinkLimit.symm, rewritten.next.symm,
    fun other differs => (rewritten.others other differs).symm, rewritten.became, rewritten.was⟩

theorem store {disk : Disk} {contents : Bytes} {permissions : Fin 0o10000} {mtime : Int}
    (file : disk.files.object node = .regular contents permissions mtime) (data : Bytes) (modes : Fin 0o10000)
      (time : Int) :
    Rewritten node disk (disk.store node (.regular data modes time) (disk.fits_regular _ _ _)) :=
  ⟨rfl, rfl, rfl, rfl, fun other differs => by rw [object_store, Function.update_of_ne differs], ⟨_, _, _, file⟩,
    ⟨data, modes, time, by rw [object_store, Function.update_self]⟩⟩

theorem graph (rewritten : Rewritten node before after) : after.files.graph = before.files.graph := by
  have shape (other : Nat) : (after.files.object other).shape = (before.files.object other).shape := by
    by_cases same : other = node
    next =>
      obtain ⟨contents, permissions, mtime, was⟩ := rewritten.was
      obtain ⟨data, modes, time, became⟩ := rewritten.became
      rw [same, was, became, FileObject.shape, FileObject.shape]
    next => rw [rewritten.others other same]
  simp only [FileSystem.graph, rewritten.root, shape]

theorem preserves (rewritten : Rewritten node before after) : Preserves before after :=
  .of_graph rewritten.root rewritten.currentDirectory rewritten.symlinkLimit rewritten.next.ge rewritten.graph

end Rewritten

end BuildboxCommon.Posix.Disk
