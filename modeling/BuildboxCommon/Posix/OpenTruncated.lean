import BuildboxCommon.Posix.Preserved
import BuildboxCommon.Shared.PathVacancy

set_option autoImplicit false

namespace BuildboxCommon.Posix.Disk

open ByteString FileUtils LexicalPath PathResolution

def vacantPlace (disk : Disk) (path : Bytes) : Except Nat (Nat × Name) :=
  let path := cString path
  match (steps path).getLast? with
  | some (.down _) =>
    match disk.files.graph.vacancy disk.files.symlinkLimit (disk.start path) (steps path) with
    | .error fault => .error (errnoOf fault)
    | .ok (here, name) => if proper : IsName name then .ok (here, ⟨name, proper⟩) else .error enoent
  | some .stay | some .up | none => .error eisdir

def openTruncated (disk : Disk) (path : Bytes) (mode : Nat) : Except Nat (Disk × Nat) :=
  match disk.files.pathname true disk.files.currentDirectory path with
  | .ok node =>
    match disk.files.object node with
    | .regular _ permissions mtime =>
      .ok (disk.store node (.regular [] permissions mtime) (disk.fits_regular _ _ _), node)
    | .directory _ _ _ _ => .error eisdir
    | .symlink _ => .error eloop
  | .error errno =>
    if errno = enoent then
      match disk.vacantPlace path with
      | .error errno => .error errno
      | .ok (here, name) => .ok (disk.create here name (.regular [] (disk.masked mode)), disk.next)
    else .error errno

variable {disk after : Disk} {path : Bytes} {here node mode : Nat} {name : Name}

structure Vacated (disk : Disk) (path : Bytes) (here : Nat) (name : Name) : Prop where
  vacant : disk.Vacant here name
  above : ∃ place, disk.locate path = .ok place
  leads : ∀ contents permissions, (disk.create here name (.regular contents permissions)).files.pathname true
    (disk.create here name (.regular contents permissions)).files.currentDirectory path = .ok disk.next

theorem vacantPlace_ok (placed : disk.vacantPlace path = .ok (here, name)) : Vacated disk path here name := by
  unfold vacantPlace at placed
  simp only at placed
  split at placed
  next last down =>
    split at placed
    next => cases placed
    next place other vacant =>
      split_ifs at placed with proper
      obtain ⟨rfl, rfl⟩ := Prod.mk.inj (Except.ok.inj placed)
      obtain ⟨links, missing, bound⟩ := Graph.missing_of_vacancy vacant
      have used : place < disk.next :=
        missing.known (· < disk.next) disk.root_used (fun _ _ _ => enter_used) (disk.start_used _)
      have vacant : disk.Vacant place ⟨other, proper⟩ := by
        refine ⟨Graph.isDirectory_of_missing missing.absent, used, ?_⟩
        simp [find, missing.absent, Except.toOption]
      have whole := List.dropLast_append_getLast? _ down
      have present : cString path ≠ [] := by
        intro empty
        rw [empty] at down
        cases down
      refine ⟨vacant, ?_, fun contents permissions => ?_⟩
      next =>
        obtain ⟨some, middle, walk, few, directory⟩ := missing.above whole.symm
        have proper := isName_of_step (cString_nulFree path) (List.mem_of_getLast? down)
        exact ⟨_, @locate_of_reaches disk (fun _ => True) path _ middle ⟨last, proper⟩ whole.symm
          ⟨some, walk, few.trans bound, fun _ _ => trivial⟩ directory⟩
      next =>
        have preserves := vacant.preserves (.regular contents permissions)
        have object := object_create vacant.directory vacant.used ⟨other, proper⟩ (.regular contents permissions)
        have entered := find_create vacant.directory vacant.used ⟨other, proper⟩ (.regular contents permissions) other
        rw [if_pos rfl, find_eq_some] at entered
        have walk := missing.created (· < disk.next) preserves.root disk.root_used
          (fun node step next known entered =>
            ⟨enter_used known entered, preserves.entered node known step next entered⟩)
          (fun node known => preserves.links node known) (disk.start_used _) entered (by
            rw [FileSystem.isLink_iff]
            rintro ⟨target, link⟩
            rw [object] at link
            cases link)
        refine pathname_iff.mpr ⟨present, links, ?_, preserves.symlinkLimit ▸ bound, fun _ _ => trivial⟩
        rwa [preserves.start_eq]
  next => cases placed
  next => cases placed
  next => cases placed

theorem openTruncated_cases (opened : disk.openTruncated path mode = .ok (after, node)) :
    (disk.files.pathname true disk.files.currentDirectory path = .ok node ∧ Rewritten node disk after ∧
        ∃ permissions mtime, after.files.object node = .regular [] permissions mtime) ∨
      ∃ here name permissions, Vacated disk path here name ∧ node = disk.next ∧
        after = disk.create here name (.regular [] permissions) := by
  unfold openTruncated at opened
  split at opened
  next found reached =>
    split at opened
    next contents permissions mtime file =>
      obtain ⟨rfl, rfl⟩ := Prod.mk.inj (Except.ok.inj opened)
      refine .inl ⟨reached, .store file _ _ _, permissions, mtime, ?_⟩
      rw [object_store, Function.update_self]
    next => cases opened
    next => cases opened
  next errno failed =>
    split_ifs at opened
    split at opened
    next => cases opened
    next here name placed =>
      obtain ⟨rfl, rfl⟩ := Prod.mk.inj (Except.ok.inj opened)
      exact .inr ⟨here, name, _, vacantPlace_ok placed, rfl, rfl⟩

structure Opened (disk : Disk) (path : Bytes) (after : Disk) (node : Nat) : Prop where
  preserves : Preserves disk after
  reached : after.files.pathname true after.files.currentDirectory path = .ok node
  empty : ∃ permissions mtime, after.files.object node = .regular [] permissions mtime
  others : ∀ other < disk.next, other ≠ node → after.files.object other = disk.files.object other ∨
    disk.files.graph.IsDirectory other ∧ after.files.graph.IsDirectory other
  same : node < disk.next → disk.files.pathname true disk.files.currentDirectory path = .ok node

theorem openTruncated_opened (opened : disk.openTruncated path mode = .ok (after, node)) :
    Opened disk path after node := by
  obtain ⟨reached, rewritten, empty⟩ | ⟨here, name, permissions, ⟨vacant, -, leads⟩, rfl, rfl⟩ :=
    openTruncated_cases opened
  next =>
    exact ⟨rewritten.preserves, rewritten.preserves.pathname reached, empty,
      fun other _ differs => .inl (rewritten.others other differs), fun _ => reached⟩
  next =>
    have object := object_create vacant.directory vacant.used name (.regular [] permissions)
    refine ⟨vacant.preserves _, leads _ _, ⟨permissions, 0, object⟩, ?_, fun used => absurd used (lt_irrefl _)⟩
    intro other used differs
    by_cases same : other = here
    next =>
      subst same
      exact .inr ⟨vacant.directory, (vacant.within _).isDirectory vacant.directory⟩
    next => exact .inl ((vacant.within _).others other used same)

theorem unlink_iff : disk.unlink path = .ok after ↔ ∃ here name node, disk.locate path = .ok (here, name) ∧
    disk.find here name.1 = some node ∧ ¬disk.files.graph.IsDirectory node ∧ after = disk.detach here name := by
  constructor
  next =>
    intro removed
    cases located : disk.locate path with
    | error errno => simp [unlink, located] at removed
    | ok place =>
      obtain ⟨here, name⟩ := place
      obtain ⟨⟨node, found⟩, rfl⟩ := unlink_ok located removed
      refine ⟨here, name, node, rfl, found, ?_, rfl⟩
      rw [FileSystem.isDirectory_iff]
      rintro ⟨parent, entries, permissions, mtime, kind⟩
      simp [unlink, located, found, kind] at removed
  next =>
    rintro ⟨here, name, node, located, found, plain, rfl⟩
    simp only [unlink, located, found]
    split
    next kind => exact absurd ((FileSystem.isDirectory_iff _).mpr ⟨_, _, _, _, kind⟩) plain
    next => rfl
    next => rfl

theorem Preserves.unlink {between : Disk} (preserves : Preserves disk between) {old : Nat}
    (located : disk.locate path = .ok (here, name)) (found : disk.find here name.1 = some old)
    (removed : between.unlink path = .ok after) :
    ∃ unlinked, disk.unlink path = .ok unlinked ∧ Preserves unlinked after := by
  obtain ⟨directory, used⟩ := locate_directory located
  obtain ⟨there, other, new, located', found', plain, rfl⟩ := unlink_iff.mp removed
  obtain ⟨rfl, rfl⟩ := Prod.mk.inj (Except.ok.inj ((preserves.locate located).symm.trans located'))
  obtain rfl := Option.some.inj ((preserves.find used found).symm.trans found')
  exact ⟨_, unlink_iff.mpr ⟨here, name, old, located, found,
    fun kind => plain (preserves.isDirectory (find_used found) kind), rfl⟩, preserves.detach directory used name⟩

end BuildboxCommon.Posix.Disk
