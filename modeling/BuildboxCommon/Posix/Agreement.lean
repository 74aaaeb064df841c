import BuildboxCommon.Posix.Preserved

set_option autoImplicit false

namespace BuildboxCommon.Posix

open ByteString FileUtils LexicalPath PathResolution

def FileObject.outline : FileObject Nat → Object Nat Bytes
  | .regular _ _ _ => .leaf
  | .directory parent _ _ _ => .directory parent []
  | .symlink target => .symlink ⟨isGlobal target, steps target⟩

namespace Disk

structure Alike (before after : Disk) : Prop where
  root : after.files.root = before.files.root
  currentDirectory : after.files.currentDirectory = before.files.currentDirectory
  symlinkLimit : after.files.symlinkLimit = before.files.symlinkLimit
  next : before.next ≤ after.next
  outline : ∀ node < before.next, (after.files.object node).outline = (before.files.object node).outline

structure Agrees (bound : Nat) (file : Nat → Prop) (before after : Disk) : Prop where
  root : after.files.root = before.files.root
  currentDirectory : after.files.currentDirectory = before.files.currentDirectory
  symlinkLimit : after.files.symlinkLimit = before.files.symlinkLimit
  started : before.files.root < bound ∧ before.files.currentDirectory < bound
  files : ∀ node, file node → before.files.graph.object node = .leaf
  entered : ∀ node < bound, ∀ step found, before.files.graph.enter node step = .ok found → ¬file found →
    found < bound ∧ after.files.graph.enter node step = .ok found
  links : ∀ node < bound, ∀ target,
    after.files.graph.object node = .symlink target ↔ before.files.graph.object node = .symlink target

variable {disk before between after : Disk} {here node : Nat} {name : Name} {path : Bytes} {bound : Nat}
    {file : Nat → Prop}

section Outline

variable {first second : Disk} (same : (second.files.object node).outline = (first.files.object node).outline)

include same

theorem isDirectory_of_outline : second.files.graph.IsDirectory node ↔ first.files.graph.IsDirectory node := by
  rw [FileSystem.isDirectory_iff, FileSystem.isDirectory_iff]
  cases left : first.files.object node <;> cases right : second.files.object node <;>
    simp_all [FileObject.outline]

theorem link_of_outline (target : Pathname Bytes) :
    second.files.graph.object node = .symlink target ↔ first.files.graph.object node = .symlink target := by
  cases left : first.files.object node <;> cases right : second.files.object node <;>
    simp_all [FileObject.outline, FileSystem.graph, FileObject.shape]

theorem enter_of_outline {step : Step Bytes} {found : Nat} (entered : first.files.graph.enter node step = .ok found)
    (names : ∀ probe, step = .down probe → second.find node probe = some found) :
    second.files.graph.enter node step = .ok found := by
  cases step with
  | down probe => exact find_eq_some.mp (names probe rfl)
  | stay | up =>
    cases left : first.files.object node <;> cases right : second.files.object node <;>
      simp_all [FileObject.outline, Graph.enter, FileSystem.graph, FileObject.shape]

end Outline

namespace Alike

theorem refl (disk : Disk) : Alike disk disk := ⟨rfl, rfl, rfl, le_rfl, fun _ _ => rfl⟩

theorem trans (first : Alike before between) (second : Alike between after) : Alike before after :=
  ⟨second.root.trans first.root, second.currentDirectory.trans first.currentDirectory,
    second.symlinkLimit.trans first.symlinkLimit, first.next.trans second.next,
    fun node used => (second.outline node (used.trans_le first.next)).trans (first.outline node used)⟩

theorem symm (alike : Alike before after) (next : after.next ≤ before.next) : Alike after before :=
  ⟨alike.root.symm, alike.currentDirectory.symm, alike.symlinkLimit.symm, next,
    fun node used => (alike.outline node (used.trans_le next)).symm⟩

theorem of_within (within : Within here before after) (directory : before.files.graph.IsDirectory here) :
    Alike before after := by
  refine ⟨within.root, within.currentDirectory, within.symlinkLimit, within.next, fun node used => ?_⟩
  by_cases same : node = here
  next =>
    obtain ⟨parent, entries, permissions, mtime, kind⟩ := (FileSystem.isDirectory_iff here).mp directory
    obtain ⟨left, kind'⟩ := within.directory _ _ _ _ kind
    rw [same, kind, kind', FileObject.outline, FileObject.outline]
  next => rw [within.others node used same]

theorem of_rewritten (rewritten : Rewritten node before after) : Alike before after := by
  refine ⟨rewritten.root, rewritten.currentDirectory, rewritten.symlinkLimit, rewritten.next.ge, fun other _ => ?_⟩
  by_cases same : other = node
  next =>
    obtain ⟨contents, permissions, mtime, was⟩ := rewritten.was
    obtain ⟨contents', permissions', mtime', became⟩ := rewritten.became
    rw [same, was, became, FileObject.outline, FileObject.outline]
  next => rw [rewritten.others other same]

theorem agrees (alike : Alike before after) (files : ∀ node, file node → before.files.graph.object node = .leaf)
    (finds : ∀ node < before.next, ∀ probe found, before.find node probe = some found → ¬file found →
      after.find node probe = some found) : Agrees before.next file before after :=
  ⟨alike.root, alike.currentDirectory, alike.symlinkLimit, ⟨before.root_used, before.current_used⟩, files,
    fun node used _ _ entered plain =>
      ⟨enter_used used entered, enter_of_outline (alike.outline node used) entered fun _ same =>
      finds node used _ _ (find_eq_some.mpr (same ▸ entered)) plain⟩,
    fun node used => link_of_outline (alike.outline node used)⟩

theorem agrees_back (alike : Alike before after) (files : ∀ node, file node → after.files.graph.object node = .leaf)
    (finds : ∀ node < before.next, ∀ probe found, after.find node probe = some found → ¬file found →
      before.find node probe = some found) : Agrees before.next file after before := by
  refine ⟨alike.root.symm, alike.currentDirectory.symm, alike.symlinkLimit.symm, ?_, files, ?_, ?_⟩
  next => exact ⟨alike.root ▸ before.root_used, alike.currentDirectory ▸ before.current_used⟩
  next =>
    intro node used step found entered plain
    have back := enter_of_outline (alike.outline node used).symm entered fun probe same =>
      finds node used probe found (find_eq_some.mpr (same ▸ entered)) plain
    exact ⟨enter_used used back, back⟩
  next => exact fun node used => link_of_outline (alike.outline node used).symm

end Alike

namespace Agrees

theorem start_eq (agrees : Agrees bound file before after) (path : Bytes) : after.start path = before.start path := by
  rw [start, start, agrees.root, agrees.currentDirectory]

theorem start_known (agrees : Agrees bound file before after) (path : Bytes) : before.start path < bound := by
  unfold start
  split
  next => exact agrees.started.1
  next => exact agrees.started.2

theorem reaches (agrees : Agrees bound file before after) {steps : List (Step Bytes)} {found : Nat}
    (reaches : before.Reaches (fun _ => True) (before.start path) steps found) (plain : ¬file found) :
    after.Reaches (fun _ => True) (after.start path) steps found ∧ found < bound := by
  obtain ⟨links, walk, few, -⟩ := reaches
  obtain ⟨walk, known⟩ := walk.around agrees.root agrees.started.1 agrees.files
    (fun here step next known entered plain => agrees.entered here known step next entered plain)
    (fun node known => agrees.links node known) (agrees.start_known path) plain
  refine ⟨⟨links, ?_, agrees.symlinkLimit ▸ few, fun _ _ => trivial⟩, known⟩
  rwa [agrees.start_eq]

theorem pathname (agrees : Agrees bound file before after) {found : Nat}
    (reached : before.files.pathname true before.files.currentDirectory path = .ok found) (plain : ¬file found) :
    after.files.pathname true after.files.currentDirectory path = .ok found := by
  obtain ⟨present, reaches⟩ := pathname_iff.mp reached
  exact pathname_iff.mpr ⟨present, (agrees.reaches reaches plain).1⟩

theorem locate (agrees : Agrees bound file before after) (located : before.locate path = .ok (here, name)) :
    after.locate path = .ok (here, name) := by
  obtain ⟨reaches, directory⟩ := locate_ok located
  have last := locate_last located
  have plain : ¬file here := by
    intro leaf
    obtain ⟨parent, entries, kind⟩ := directory
    rw [agrees.files here leaf] at kind
    cases kind
  obtain ⟨reaches, known⟩ := agrees.reaches reaches plain
  obtain ⟨-, kept⟩ := agrees.entered here known .stay here (Graph.enter_stay directory) plain
  exact locate_of_reaches (List.dropLast_append_getLast? _ last).symm reaches (Graph.isDirectory_of_enter kept)

end Agrees

section Names

variable (directory : disk.files.graph.IsDirectory here) (name)

include directory

theorem find_detached (other : Nat) (probe : Bytes) : (disk.detach here name).find other probe =
    if other = here ∧ probe = name.1 then none else disk.find other probe := by
  obtain ⟨parent, entries, permissions, mtime, kind⟩ := (FileSystem.isDirectory_iff here).mp directory
  by_cases same : other = here
  next =>
    subst same
    simp [find_detach kind]
  next =>
    rw [if_neg fun ⟨alike, _⟩ => same alike]
    exact find_congr ((Detached.of_detach directory name).others other same) probe

theorem find_attached (used : node < disk.next) (other : Nat) (probe : Bytes) :
    (disk.attach here name node).find other probe =
    if other = here ∧ probe = name.1 then some node else disk.find other probe := by
  obtain ⟨parent, entries, permissions, mtime, kind⟩ := (FileSystem.isDirectory_iff here).mp directory
  by_cases same : other = here
  next =>
    subst same
    simp [find_attach kind name used]
  next =>
    rw [if_neg fun ⟨alike, _⟩ => same alike, attach_eq kind name used]
    exact find_congr (by rw [object_store, Function.update_of_ne same]) probe

theorem find_created (known : here < disk.next) (new : NewObject) (other : Nat) (used : other < disk.next)
    (probe : Bytes) :
    (disk.create here name new).find other probe =
      if other = here ∧ probe = name.1 then some disk.next else disk.find other probe := by
  by_cases same : other = here
  next =>
    subst same
    simp [find_create directory used]
  next =>
    rw [if_neg fun ⟨alike, _⟩ => same alike]
    exact find_congr ((Within.create directory known name new).others other used same) probe

end Names

def without (place : Option (Nat × Name)) (disk : Disk) : Disk :=
  match place with
  | some (here, name) => disk.detach here name
  | none => disk

section Without

variable {place : Option (Nat × Name)}

def Held (place : Option (Nat × Name)) (disk : Disk) : Prop :=
  ∀ here name, place = some (here, name) → disk.files.graph.IsDirectory here ∧ here < disk.next

theorem next_without (held : Held place disk) : (without place disk).next = disk.next := by
  cases place with
  | none => rfl
  | some place => exact (Detached.of_detach (held place.1 place.2 rfl).1 place.2).next

theorem Alike.without (held : Held place disk) : Alike disk (without place disk) := by
  cases place with
  | none => exact .refl disk
  | some place => exact .of_within (.detach disk (held place.1 place.2 rfl).1 place.2) (held place.1 place.2 rfl).1

def At (place : Option (Nat × Name)) (here : Nat) (probe : Bytes) : Prop :=
  ∃ name : Name, place = some (here, name) ∧ name.1 = probe

theorem place_ext_iff {first second : Nat × Name} : first = second ↔ first.1 = second.1 ∧ first.2.1 = second.2.1 := by
  rw [Prod.ext_iff, Subtype.ext_iff]

theorem at_some_iff {target : Nat × Name} {probe : Bytes} :
    At (some target) here probe ↔ here = target.1 ∧ probe = target.2.1 := by
  constructor
  next =>
    rintro ⟨name, same, rfl⟩
    obtain rfl := Option.some.inj same
    exact ⟨rfl, rfl⟩
  next =>
    rintro ⟨rfl, rfl⟩
    exact ⟨target.2, rfl, rfl⟩

theorem At.place_eq {own : Nat × Name} (there : At place own.1 own.2.1) : place = some own := by
  obtain ⟨name, same, named⟩ := there
  rw [same, Subtype.ext named]

theorem find_without_at (held : Held place disk) {probe : Bytes} (there : At place here probe) :
    (without place disk).find here probe = none := by
  obtain ⟨name, rfl, rfl⟩ := there
  rw [without, find_detached name (held here name rfl).1, if_pos ⟨rfl, rfl⟩]

theorem find_without (held : Held place disk) {probe : Bytes} (other : ¬At place here probe) :
    (without place disk).find here probe = disk.find here probe := by
  cases place with
  | none => rfl
  | some place =>
    rw [without, find_detached place.2 (held place.1 place.2 rfl).1, if_neg (mt at_some_iff.mpr other)]

theorem leaf_without (held : Held place disk) (leaf : disk.files.graph.object node = .leaf) :
    (without place disk).files.graph.object node = .leaf := by
  cases place with
  | none => exact leaf
  | some place =>
    have directory := (held place.1 place.2 rfl).1
    have differs : node ≠ place.1 := by
      rintro rfl
      obtain ⟨parent, entries, kind⟩ := directory
      rw [leaf] at kind
      cases kind
    have same := (Detached.of_detach directory place.2).others node differs
    simp only [FileSystem.graph] at leaf ⊢
    rw [without, same, leaf]

theorem Alike.held (alike : Alike before after) (held : Held place before) : Held place after := by
  intro here name same
  obtain ⟨directory, used⟩ := held here name same
  exact ⟨(isDirectory_of_outline (alike.outline here used)).mpr directory, used.trans_le alike.next⟩

theorem Alike.agrees_without (alike : Alike before after) (held : Held place before)
    (files : ∀ node, file node → before.files.graph.object node = .leaf)
    (finds : ∀ node < before.next, ∀ probe found, ¬At place node probe → before.find node probe = some found →
      ¬file found → after.find node probe = some found) :
    Agrees before.next file (Disk.without place before) (Disk.without place after) := by
  have first := Alike.without held
  have second := Alike.without (alike.held held)
  have whole : Alike (Disk.without place before) (Disk.without place after) :=
    (first.symm (next_without held).le).trans (alike.trans second)
  rw [← next_without held]
  refine whole.agrees (fun node leaf => leaf_without held (files node leaf)) fun node used probe found there plain => ?_
  rw [next_without held] at used
  by_cases entry : At place node probe
  next =>
    rw [find_without_at held entry] at there
    cases there
  next =>
    rw [find_without held entry] at there
    rw [find_without (alike.held held) entry]
    exact finds node used probe found entry there plain

theorem without_agrees (held : Held place disk) : Agrees disk.next (fun _ => False) (without place disk) disk := by
  have agrees := @Alike.agrees _ _ (fun _ => False) ((Alike.without held).symm (next_without held).le)
    (fun _ => False.elim)
    fun node _ probe found there _ => by
      by_cases entry : At place node probe
      next =>
        rw [find_without_at held entry] at there
        cases there
      next => rwa [find_without held entry] at there
  rwa [next_without held] at agrees

end Without

theorem leaf_of_regular {contents : Bytes} {permissions : Fin 0o10000} {mtime : Int}
    (object : disk.files.object node = .regular contents permissions mtime) : disk.files.graph.object node = .leaf := by
  simp only [FileSystem.graph, object, FileObject.shape]

theorem locate_congr {other : Bytes} (same : cString other = cString path)
    (located : disk.locate path = .ok (here, name)) :
    disk.locate other = .ok (here, name) := by
  obtain ⟨reaches, directory⟩ := locate_ok located
  have last := locate_last located
  rw [← same] at reaches last
  exact locate_of_reaches (List.dropLast_append_getLast? _ last).symm reaches directory

theorem pathname_of_locate {contents : Bytes} {permissions : Fin 0o10000} {mtime : Int}
    (located : disk.locate path = .ok (here, name)) (found : disk.find here name.1 = some node)
    (object : disk.files.object node = .regular contents permissions mtime) :
    disk.files.pathname true disk.files.currentDirectory path = .ok node := by
  have ends : disk.EndsIn (fun _ => True) path here := ⟨⟨name, located⟩, (locate_ok located).1⟩
  refine (ends.file located found ?_).2
  rintro ⟨target, link⟩
  rw [leaf_of_regular object] at link
  cases link

structure Touched (own : Nat × Name) (file : Nat) (before after : Disk) : Prop where
  alike : Alike before after
  next : after.next = before.next
  leaf : before.files.graph.object file = .leaf
  others : ∀ node < before.next, node ≠ file → ∀ contents permissions mtime,
    before.files.object node = .regular contents permissions mtime →
      after.files.object node = .regular contents permissions mtime
  finds : ∀ node probe, ¬(node = own.1 ∧ probe = own.2.1) → after.find node probe = before.find node probe
  leads : before.find own.1 own.2.1 = some file
  back : ∀ found, after.find own.1 own.2.1 = some found → found = file

namespace Touched

variable {own : Nat × Name} {leaf : Nat} {contents : Bytes} {permissions : Fin 0o10000} {mtime : Int} {found : Nat}

theorem of_rewritten (rewritten : Rewritten leaf before after) (leads : before.find own.1 own.2.1 = some leaf) :
    Touched own leaf before after := by
  obtain ⟨contents, permissions, mtime, was⟩ := rewritten.was
  have same (node : Nat) (probe : Bytes) : after.find node probe = before.find node probe := by
    simp only [find, rewritten.graph]
  refine ⟨.of_rewritten rewritten, rewritten.next, leaf_of_regular was,
    fun node _ differs contents permissions mtime object => (rewritten.others node differs).trans object,
    fun node probe _ => same node probe, leads, fun found entered => ?_⟩
  rw [same, leads] at entered
  exact (Option.some.inj entered).symm

theorem of_detach (object : disk.files.object leaf = .regular contents permissions mtime)
    (leads : disk.find here name.1 = some leaf) : Touched (here, name) leaf disk (disk.detach here name) := by
  have directory := Graph.isDirectory_of_enter (find_eq_some.mp leads)
  have detached := Detached.of_detach directory name
  refine ⟨.of_within (.detach disk directory name) directory, detached.next, leaf_of_regular object,
    fun node _ _ contents permissions mtime kind => ?_, fun node probe other => ?_, leads, fun found entered => ?_⟩
  next =>
    refine (detached.others node ?_).trans kind
    rintro rfl
    obtain ⟨parent, entries, permissions, mtime, same⟩ := (FileSystem.isDirectory_iff _).mp directory
    rw [kind] at same
    cases same
  next => rw [find_detached name directory, if_neg other]
  next =>
    rw [find_detached name directory, if_pos ⟨rfl, rfl⟩] at entered
    cases entered

variable (touched : Touched own leaf before after)

include touched

theorem find_back {probe : Bytes} (entered : after.find here probe = some found) :
    before.find here probe = some found := by
  by_cases same : here = own.1 ∧ probe = own.2.1
  next =>
    obtain ⟨rfl, rfl⟩ := same
    rw [touched.back found entered, touched.leads]
  next => rwa [← touched.finds here probe same]

theorem find (differs : found ≠ leaf) {probe : Bytes} (entered : before.find here probe = some found) :
    after.find here probe = some found := by
  rw [touched.finds here probe, entered]
  rintro ⟨rfl, rfl⟩
  rw [touched.leads] at entered
  exact differs (Option.some.inj entered).symm

theorem agrees : Agrees before.next (· = leaf) before after :=
  touched.alike.agrees (fun _ same => same ▸ touched.leaf) fun _ _ _ _ entered plain => touched.find plain entered

theorem agrees_back : Agrees before.next (fun _ => False) after before :=
  touched.alike.agrees_back (fun _ => False.elim) fun _ _ _ _ entered _ => touched.find_back entered

theorem pathname_back (reached : after.files.pathname true after.files.currentDirectory path = .ok found) :
    before.files.pathname true before.files.currentDirectory path = .ok found :=
  touched.agrees_back.pathname reached id

theorem locate_without {place : Option (Nat × Name)} (held : Held place before)
    (located : (without place before).locate path = .ok (here, name)) :
    (without place after).locate path = .ok (here, name) :=
  (@Alike.agrees_without _ _ (· = leaf) _ touched.alike held (fun _ same => same ▸ touched.leaf)
    fun _ _ _ _ _ entered plain => touched.find plain entered).locate located

end Touched

theorem Within.regular (within : Within here before after) (directory : before.files.graph.IsDirectory here)
    (used : node < before.next) {contents : Bytes} {permissions : Fin 0o10000} {mtime : Int}
    (object : before.files.object node = .regular contents permissions mtime) :
    after.files.object node = .regular contents permissions mtime := by
  refine (within.others node used ?_).trans object
  rintro rfl
  obtain ⟨parent, entries, permissions, mtime, kind⟩ := (FileSystem.isDirectory_iff _).mp directory
  rw [object] at kind
  cases kind

structure Renamed (own target : Nat × Name) (file : Nat) (before after : Disk) : Prop where
  alike : Alike before after
  next : after.next = before.next
  files : ∀ node < before.next, ∀ contents permissions mtime,
    before.files.object node = .regular contents permissions mtime →
      after.files.object node = .regular contents permissions mtime
  finds : ∀ node probe, after.find node probe =
    if node = target.1 ∧ probe = target.2.1 then some file
    else if node = own.1 ∧ probe = own.2.1 then none
    else before.find node probe

theorem Renamed.of_rename {source : Bytes} {own target : Nat × Name} (located : before.locate source = .ok own)
    (located' : before.locate path = .ok target) (leads : before.find own.1 own.2.1 = some node)
    (differs : before.find target.1 target.2.1 ≠ some node) (run : before.rename source path = .ok after) :
    Renamed own target node before after := by
  obtain ⟨here, name⟩ := own
  obtain ⟨there, other⟩ := target
  obtain ⟨found, entered, ⟨same, -⟩ | ⟨-, rfl⟩⟩ := rename_ok located located' run
  next =>
    rw [entered] at leads
    exact absurd (same.trans leads) differs
  next =>
    obtain rfl := Option.some.inj (leads.symm.trans entered)
    obtain ⟨directory, -⟩ := locate_directory located
    obtain ⟨directory', used'⟩ := locate_directory located'
    have detached := Detached.of_detach directory name
    have first := Within.detach before directory name
    have between := (isDirectory_of_outline ((Alike.of_within first directory).outline there used')).mpr directory'
    have used : node < (before.detach here name).next := detached.next ▸ find_used leads
    have second := Within.attach _ between other used
    have next : ((before.detach here name).attach there other node).next = before.next := by
      obtain ⟨parent, entries, permissions, mtime, kind⟩ := (FileSystem.isDirectory_iff there).mp between
      rw [attach_eq kind other used]
      exact detached.next
    refine ⟨(Alike.of_within first directory).trans (.of_within second between), next, ?_, fun node probe => ?_⟩
    next =>
      intro node old contents permissions mtime object
      exact second.regular between (old.trans_le first.next) (first.regular directory old object)
    next => rw [find_attached other between used, find_detached name directory]

theorem Renamed.locate_without {own target : Nat × Name} (renamed : Renamed own target node before after)
    (leads : before.find own.1 own.2.1 = some node) (leaf : before.files.graph.object node = .leaf)
    (held : Held (some target) before) {place : Nat × Name}
      (located : (without (some target) before).locate path = .ok place) :
    (without (some target) after).locate path = .ok place := by
  refine (@Alike.agrees_without _ _ (· = node) _ renamed.alike held (fun _ same => same ▸ leaf) ?_).locate located
  intro here used probe found other entered plain
  rw [renamed.finds, if_neg (mt at_some_iff.mpr other), if_neg]
  next => exact entered
  next =>
    rintro ⟨rfl, rfl⟩
    exact plain (Option.some.inj (entered.symm.trans leads))

namespace Vacant

variable (vacant : disk.Vacant here name) (contents : Bytes) (permissions : Fin 0o10000)

include vacant

theorem alike : Alike disk (disk.create here name (.regular contents permissions)) :=
  .of_within (vacant.within _) vacant.directory

theorem agrees_back : Agrees disk.next (· = disk.next)
    (disk.create here name (.regular contents permissions)) disk := by
  refine (vacant.alike contents permissions).agrees_back ?_ fun node used probe found entered plain => ?_
  next =>
    rintro node rfl
    exact leaf_of_regular (object_create vacant.directory vacant.used _ _)
  next =>
    rw [find_created name vacant.directory vacant.used _ _ used] at entered
    split_ifs at entered
    next => exact absurd (Option.some.inj entered).symm plain
    next => exact entered

theorem locate_without {place : Option (Nat × Name)} (held : Held place disk) {there : Nat} {other : Name}
    (located : (without place disk).locate path = .ok (there, other)) :
    (without place (disk.create here name (.regular contents permissions))).locate path = .ok (there, other) := by
  have agrees := @Alike.agrees_without _ _ (fun _ => False) _ (vacant.alike contents permissions) held
    (fun _ => False.elim)
    fun node used probe found _ entered _ => (vacant.preserves _).find used entered
  exact agrees.locate located

theorem find_elsewhere {place : Nat × Name} (differs : place ≠ (here, name)) (used : place.1 < disk.next) :
    (disk.create here name (.regular contents permissions)).find place.1 place.2.1 = disk.find place.1 place.2.1 := by
  rw [find_created name vacant.directory vacant.used _ place.1 used, if_neg (mt place_ext_iff.mpr differs)]

end Vacant

end Disk

end BuildboxCommon.Posix
