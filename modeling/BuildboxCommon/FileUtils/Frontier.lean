import BuildboxCommon.Client.DirectoryPaths

set_option autoImplicit false

namespace BuildboxCommon

open ByteString FileUtils LexicalPath PathResolution Posix

namespace FileUtils.NormalPath

def ancestor (n : NormalPath) (depth : Nat) : NormalPath :=
  { n with
    names := n.names.take depth
    proper := fun name member => n.proper name (List.mem_of_mem_take member) }

variable {n : NormalPath} {depth : Nat} {name : Bytes}

theorem isName_of_get (there : n.names[depth]? = some name) : IsName name := n.proper name (List.mem_of_getElem? there)

theorem ancestor_succ (there : n.names[depth]? = some name) :
    n.ancestor (depth + 1) = (n.ancestor depth).child ⟨name, isName_of_get there⟩ := by
  simp [ancestor, child, List.take_add_one, there]

theorem ancestor_all (whole : n.names.length ≤ depth) : n.ancestor depth = n := by
  simp [ancestor, List.take_of_length_le whole]

theorem ancestor_steps {above : Nat} (within : above ≤ depth) : (n.ancestor depth).displacement.steps =
    (n.ancestor above).displacement.steps ++ ((n.names.drop above).take (depth - above)).map .down := by
  have parts := List.take_add (l := n.names) (i := above) (j := depth - above)
  rw [Nat.add_sub_cancel' within] at parts
  simp [ancestor, displacement, Displacement.steps, parts]

theorem below_steps {above : Nat} (there : n.names[above]? = some name) (within : above < depth) :
    ∃ rest, ((n.names.drop above).take (depth - above)).map Step.down = .down name :: rest := by
  obtain ⟨more, rfl⟩ := Nat.exists_eq_add_of_lt within
  obtain ⟨inside, rfl⟩ := List.getElem?_eq_some_iff.mp there
  refine ⟨((n.names.drop (above + 1)).take more).map .down, ?_⟩
  rw [List.drop_eq_getElem_cons inside, show above + more + 1 - above = more + 1 by omega, List.take_succ_cons,
    List.map_cons]

theorem render_child (present : n.segments ≠ []) (name : Name) :
    (n.child name).render = n.render ++ slash :: name.1 := by
  have below : (n.child name).segments = n.segments ++ [name.1] := by simp [segments, child]
  have joined : (n.child name).render = n.render ++ slash :: [slash].intercalate [name.1] :=
    render_below rfl present (List.cons_ne_nil _ _) below
  simpa using joined

end FileUtils.NormalPath

namespace Posix.Disk

variable {disk : Disk} {n : NormalPath} {here : Nat}

def makeDirectory (disk : Disk) (path : Bytes) (mode : Nat) : Except Nat Disk :=
  match (steps (cString path)).getLast? with
  | some (.down _) => disk.mkdir path mode
  | _ =>
    match disk.files.pathname true disk.files.currentDirectory path with
    | .error errno => .error errno
    | .ok _ => .error eexist

theorem start_ancestor (n : NormalPath) (depth : Nat) : disk.start (n.ancestor depth).render = disk.start n.render := by
  rw [start, start, NormalPath.isGlobal_render, NormalPath.isGlobal_render]
  rfl

structure Leads (disk : Disk) (n : NormalPath) (here : Nat) : Prop where
  reaches : disk.Reaches (fun _ => True) (disk.start n.render) n.displacement.steps here
  directory : disk.files.graph.IsDirectory here

namespace Leads

theorem used (leads : disk.Leads n here) : here < disk.next := by
  obtain ⟨links, walk, -⟩ := leads.reaches
  exact (walk.known disk.root_used (fun _ _ _ => enter_used) (disk.start_used n.render)).1

theorem stays (leads : disk.Leads n here) (count : Nat) :
    disk.Reaches (fun _ => True) (disk.start n.render) (List.replicate count .stay ++ n.displacement.steps) here := by
  induction count with
  | zero => exact leads.reaches
  | succ count ih => exact ih.stay leads.directory

theorem pathname (leads : disk.Leads n here) :
    disk.files.pathname true disk.files.currentDirectory n.render = .ok here := by
  obtain ⟨count, parts⟩ := n.steps_render
  have resolved := (leads.stays count).resolve
  rw [← parts, start] at resolved
  simp only [FileSystem.pathname, n.cString_render, render_nonempty n, if_false, resolved]

theorem of_pathname (reached : disk.files.pathname true disk.files.currentDirectory n.render = .ok here)
    (directory : disk.files.graph.IsDirectory here) : disk.Leads n here := by
  obtain ⟨-, links, walk, bound, -⟩ := reaches_of_pathname (n.cString_render ▸ cString_nulFree _) reached
  obtain ⟨count, parts⟩ := n.steps_render
  rw [parts] at walk
  exact ⟨Reaches.of_stays ⟨links, walk, bound, fun _ _ => trivial⟩, directory⟩

end Leads

structure Vacant (disk : Disk) (here : Nat) (name : Name) : Prop where
  directory : disk.files.graph.IsDirectory here
  used : here < disk.next
  absent : disk.find here name.1 = none

namespace Vacant

variable {name : Name} (vacant : disk.Vacant here name) (new : NewObject)

include vacant

theorem within : Within here disk (disk.create here name new) :=
  Within.create vacant.directory vacant.used name new

theorem answers {node found : Nat} {step : Step Bytes} (used : node < disk.next)
    (entered : disk.files.graph.enter node step = .ok found) :
    found < disk.next ∧ (disk.create here name new).files.graph.enter node step = .ok found := by
  refine ⟨enter_used used entered, ?_⟩
  by_cases same : node = here
  next =>
    subst same
    obtain ⟨parent, entries, permissions, mtime, kind⟩ := (FileSystem.isDirectory_iff node).mp vacant.directory
    obtain ⟨others, after⟩ := (vacant.within new).directory _ _ _ _ kind
    cases step with
    | stay | up => simpa [Graph.enter, FileSystem.graph, kind, after, FileObject.shape] using entered
    | down probe =>
      have before := find_eq_some.mpr entered
      apply find_eq_some.mp
      rw [find_create vacant.directory vacant.used, if_neg, before]
      rintro rfl
      simp [vacant.absent] at before
  next =>
    rw [← entered]
    simp only [Graph.enter, FileSystem.graph, (vacant.within new).others node used same]

theorem links {node : Nat} (used : node < disk.next) (target : Pathname Bytes) :
    (disk.create here name new).files.graph.object node = .symlink target ↔
      disk.files.graph.object node = .symlink target := by
  by_cases same : node = here
  next =>
    subst same
    obtain ⟨parent, entries, permissions, mtime, kind⟩ := (FileSystem.isDirectory_iff node).mp vacant.directory
    obtain ⟨others, after⟩ := (vacant.within new).directory _ _ _ _ kind
    simp [FileSystem.graph, kind, after, FileObject.shape]
  next => simp only [FileSystem.graph, (vacant.within new).others node used same]

theorem isDirectory {node : Nat} (used : node < disk.next) (directory : disk.files.graph.IsDirectory node) :
    (disk.create here name new).files.graph.IsDirectory node := by
  by_cases same : node = here
  next => exact same ▸ (vacant.within new).isDirectory vacant.directory
  next =>
    obtain ⟨parent, entries, kind⟩ := directory
    exact ⟨parent, entries, by rw [← kind]; simp only [FileSystem.graph, (vacant.within new).others node used same]⟩

theorem leads {node : Nat} (leads : disk.Leads n node) : (disk.create here name new).Leads n node := by
  obtain ⟨links, walk, bound, -⟩ := id leads.reaches
  refine ⟨?_, vacant.isDirectory new leads.used leads.directory⟩
  rw [(vacant.within new).start_eq]
  refine ⟨links, ?_, (vacant.within new).symlinkLimit ▸ bound, fun _ _ => trivial⟩
  exact walk.preserved (vacant.within new).root disk.root_used (fun _ _ _ => vacant.answers new)
    (fun _ => vacant.links new) (disk.start_used _)

theorem find_other {node : Nat} (used : node < disk.next) {probe : Bytes} (absent : disk.find node probe = none)
    (other : ¬(node = here ∧ probe = name.1)) : (disk.create here name new).find node probe = none := by
  by_cases same : node = here
  next =>
    subst same
    rw [find_create vacant.directory vacant.used, if_neg fun alike => other ⟨rfl, alike⟩, absent]
  next => rw [find_congr ((vacant.within new).others node used same), absent]

end Vacant

structure Frontier (disk : Disk) (n : NormalPath) (depth here : Nat) : Prop where
  within : depth ≤ n.names.length
  reached : disk.files.pathname true disk.files.currentDirectory (n.ancestor depth).render = .ok here
  directory : disk.files.graph.IsDirectory here
  absent : ∀ name, n.names[depth]? = some name → disk.find here name = none

namespace Frontier

variable {depth : Nat}

theorem leads (frontier : disk.Frontier n depth here) : disk.Leads (n.ancestor depth) here :=
  .of_pathname frontier.reached frontier.directory

theorem vacant (frontier : disk.Frontier n depth here) {name : Bytes} (there : n.names[depth]? = some name) :
    disk.Vacant here ⟨name, NormalPath.isName_of_get there⟩ :=
  ⟨frontier.directory, frontier.leads.used, frontier.absent name there⟩

theorem of_leads (leads : disk.Leads n here) : disk.Frontier n n.names.length here :=
  ⟨le_rfl, (NormalPath.ancestor_all le_rfl).symm ▸ leads.pathname, leads.directory, fun name there => by simp at there⟩

theorem above (frontier : disk.Frontier n depth here) {upper : Nat} {name : Bytes} (higher : upper < depth)
    (there : n.names[upper]? = some name) :
    ∃ middle node, disk.Leads (n.ancestor upper) middle ∧ disk.find middle name = some node := by
  obtain ⟨links, walk, bound, -⟩ := frontier.leads.reaches
  obtain ⟨rest, below⟩ := NormalPath.below_steps there higher
  rw [NormalPath.ancestor_steps higher.le, below, start_ancestor] at walk
  obtain ⟨middle, first, second, rfl, before, after⟩ := walk.split rfl
  have counted : first.length ≤ disk.files.symlinkLimit := by
    rw [List.length_append] at bound
    omega
  have entered : ∃ node, disk.files.graph.enter middle (.down name) = .ok node := by
    cases after with
    | plain entered | link entered => exact ⟨_, entered⟩
  obtain ⟨node, entered⟩ := entered
  refine ⟨middle, node, ⟨⟨first, ?_, counted, fun _ _ => trivial⟩, Graph.isDirectory_of_enter entered⟩,
    find_eq_some.mpr entered⟩
  rwa [start_ancestor]

theorem leads_above (frontier : disk.Frontier n depth here) {upper : Nat} (higher : upper ≤ depth) :
    ∃ middle, disk.Leads (n.ancestor upper) middle := by
  rcases higher.lt_or_eq with higher | rfl
  next =>
    have inside : upper < n.names.length := higher.trans_le frontier.within
    obtain ⟨middle, -, leads, -⟩ := frontier.above higher (List.getElem?_eq_getElem inside)
    exact ⟨middle, leads⟩
  next => exact ⟨here, frontier.leads⟩

theorem deeper (frontier : disk.Frontier n depth here) {name : Bytes} (there : n.names[depth]? = some name)
    (permissions : Fin 0o10000) :
    (disk.create here ⟨name, NormalPath.isName_of_get there⟩ (.directory permissions)).Frontier n (depth + 1)
      disk.next := by
  have vacant := frontier.vacant there
  have within := vacant.within (.directory permissions)
  have object := object_create vacant.directory vacant.used ⟨name, NormalPath.isName_of_get there⟩
    (.directory permissions)
  have empty := (FileSystem.isDirectory_iff disk.next).mpr ⟨_, _, _, _, object⟩
  have entered := find_create vacant.directory vacant.used ⟨name, NormalPath.isName_of_get there⟩
    (.directory permissions) name
  rw [if_pos rfl, find_eq_some] at entered
  have reaches := (vacant.leads (.directory permissions) frontier.leads).reaches.down entered empty.not_link
  have leads : (disk.create here ⟨name, NormalPath.isName_of_get there⟩ (.directory permissions)).Leads
      (n.ancestor (depth + 1)) disk.next := by
    rw [start_ancestor, ← start_ancestor n (depth + 1)] at reaches
    rw [NormalPath.ancestor_succ there] at reaches ⊢
    rw [← NormalPath.displacement_child _ ⟨name, NormalPath.isName_of_get there⟩] at reaches
    exact ⟨reaches, empty⟩
  refine ⟨(List.getElem?_eq_some_iff.mp there).1, leads.pathname, empty, fun probe _ => ?_⟩
  rw [find_directory object]
  rfl

end Frontier

-- What somebody else puts into a directory only leads further.
theorem Vacant.frontier {there : Nat} {name : Name} (vacant : disk.Vacant there name) (permissions : Fin 0o10000)
    {depth : Nat} (frontier : disk.Frontier n depth here) : ∃ further found, depth ≤ further ∧
      (disk.create there name (.directory permissions)).Frontier n further found := by
  by_cases same : here = there ∧ n.names[depth]? = some name.1
  next =>
    obtain ⟨rfl, below⟩ := same
    exact ⟨depth + 1, disk.next, Nat.le_succ depth, frontier.deeper below permissions⟩
  next =>
    have leads := vacant.leads (.directory permissions) frontier.leads
    refine ⟨depth, here, le_rfl, frontier.within, leads.pathname, leads.directory, fun probe below => ?_⟩
    apply vacant.find_other _ frontier.leads.used (frontier.absent probe below)
    rintro ⟨rfl, rfl⟩
    exact same ⟨rfl, below⟩

theorem Leads.rooted (leads : disk.Leads n here) : disk.Reaches (fun _ => True) (disk.start n.render)
    ((if n.absolute then [.stay] else []) ++ n.displacement.steps) here := by
  split
  next => exact leads.stays 1
  next => exact leads.reaches

theorem steps_child_render (n : NormalPath) (name : Name) : steps (cString (n.child name).render) =
    ((if n.absolute then [.stay] else []) ++ n.displacement.steps) ++ [.down name.1] := by
  rw [NormalPath.cString_render, n.steps_render_child, List.append_assoc]

theorem start_child (n : NormalPath) (name : Name) :
    disk.start (cString (n.child name).render) = disk.start n.render := by
  rw [NormalPath.cString_render, start, start, NormalPath.isGlobal_render, NormalPath.isGlobal_render]
  rfl

theorem Leads.locate (leads : disk.Leads n here) (name : Name) :
    disk.locate (n.child name).render = .ok (here, name) := by
  apply locate_of_reaches (steps_child_render n name) _ leads.directory
  next => exact fun _ => True
  next =>
    rw [start_child]
    exact leads.rooted

theorem find_eq_none {name : Bytes} (directory : disk.files.graph.IsDirectory here)
    (absent : disk.find here name = none) :
    disk.files.graph.enter here (.down name) = .error .notFound := by
  obtain ⟨parent, entries, permissions, mtime, kind⟩ := (FileSystem.isDirectory_iff here).mp directory
  rw [find_directory kind, Option.map_eq_none_iff] at absent
  simp only [Graph.enter, FileSystem.graph, kind, FileObject.shape, absent]

theorem locate_missing {path : Bytes} {steps : List (Step Bytes)} {name : Bytes}
    (split : FileUtils.steps (cString path) = steps ++ [.down name])
    (missing : disk.files.graph.resolve true disk.files.symlinkLimit (disk.start (cString path)) steps =
      .error .notFound) :
    disk.locate path = .error enoent := by
  unfold locate
  simp only
  split
  next => simp only [split, List.dropLast_concat, missing, errnoOf]
  next stay => simp [split] at stay
  next up => simp [split] at up
  next nothing => simp [split] at nothing

theorem makeDirectory_child (n : NormalPath) (name : Name) (mode : Nat) :
    disk.makeDirectory (n.child name).render mode = disk.mkdir (n.child name).render mode := by
  unfold makeDirectory
  rw [steps_child_render, List.getLast?_concat]

theorem last_of_ancestor_zero (n : NormalPath) (name : Bytes) :
    (steps (cString (n.ancestor 0).render)).getLast? ≠ some (.down name) := by
  intro last
  obtain ⟨count, parts⟩ := (n.ancestor 0).steps_render
  have member := List.mem_of_getLast? last
  rw [NormalPath.cString_render, parts] at member
  simp [NormalPath.ancestor, NormalPath.displacement, Displacement.steps] at member

namespace Frontier

variable {depth level : Nat} (mode : Nat)

theorem makeDirectory_there (frontier : disk.Frontier n depth here) (within : level ≤ depth) :
    disk.makeDirectory (n.ancestor level).render mode = .error eexist := by
  cases level with
  | zero =>
    obtain ⟨middle, leads⟩ := frontier.leads_above within
    unfold makeDirectory
    split
    next name last => exact absurd last (last_of_ancestor_zero n name)
    next => rw [leads.pathname]
  | succ level =>
    have inside : level < n.names.length := by
      have := frontier.within
      omega
    have there := List.getElem?_eq_getElem inside
    obtain ⟨middle, node, leads, found⟩ := frontier.above within there
    rw [NormalPath.ancestor_succ there, makeDirectory_child, mkdir, createNew, leads.locate]
    simp only [found]

theorem makeDirectory_next (frontier : disk.Frontier n depth here) {name : Bytes}
    (there : n.names[depth]? = some name) :
    disk.makeDirectory (n.ancestor (depth + 1)).render mode =
      .ok (disk.create here ⟨name, NormalPath.isName_of_get there⟩ (.directory (disk.masked mode))) := by
  rw [NormalPath.ancestor_succ there, makeDirectory_child, mkdir, createNew, frontier.leads.locate]
  simp only [frontier.absent name there]

theorem lost (frontier : disk.Frontier n depth here) {name : Bytes} (there : n.names[depth]? = some name)
    (rest : List (Step Bytes)) :
    disk.files.graph.resolve true disk.files.symlinkLimit (disk.start (n.ancestor depth).render)
      ((if n.absolute then [.stay] else []) ++ (n.ancestor depth).displacement.steps ++ .down name :: rest) =
        .error .notFound := by
  obtain ⟨left, onwards⟩ := Graph.resolve_append frontier.leads.rooted.resolve
  have absent := find_eq_none frontier.directory (frontier.absent _ there)
  exact (onwards true (.down name :: rest) (List.cons_ne_nil _ _)).trans (Graph.resolve_fault left rest absent)

theorem pathname_next (frontier : disk.Frontier n depth here) {name : Bytes} (there : n.names[depth]? = some name) :
    disk.files.pathname true disk.files.currentDirectory (n.ancestor (depth + 1)).render = .error enoent := by
  have split := steps_child_render (n.ancestor depth) ⟨name, NormalPath.isName_of_get there⟩
  have begin := @start_child disk (n.ancestor depth) ⟨name, NormalPath.isName_of_get there⟩
  have missing := frontier.lost there []
  rw [← NormalPath.ancestor_succ there, NormalPath.cString_render] at split begin
  rw [← begin, start] at missing
  have present := render_nonempty (n.ancestor (depth + 1))
  simp only [FileSystem.pathname, NormalPath.cString_render, present, if_false, split]
  rw [show (n.ancestor depth).absolute = n.absolute from rfl]
  simp only [missing, errnoOf]

theorem makeDirectory_missing (frontier : disk.Frontier n depth here) (further : depth < level)
    (within : level < n.names.length) : disk.makeDirectory (n.ancestor (level + 1)).render mode = .error enoent := by
  have there := List.getElem?_eq_getElem within
  have above := List.getElem?_eq_getElem (further.trans within)
  have missing : disk.files.graph.resolve true disk.files.symlinkLimit (disk.start (n.ancestor level).render)
      ((if n.absolute then [.stay] else []) ++ (n.ancestor level).displacement.steps) = .error .notFound := by
    obtain ⟨rest, below⟩ := NormalPath.below_steps above further
    rw [NormalPath.ancestor_steps further.le, below, ← List.append_assoc, start_ancestor, ← start_ancestor n depth]
    exact frontier.lost above rest
  rw [NormalPath.ancestor_succ there, makeDirectory_child, mkdir, createNew,
    locate_missing (steps_child_render _ ⟨_, NormalPath.isName_of_get there⟩) (@start_child disk _ _ ▸ missing)]

end Frontier

end Posix.Disk

end BuildboxCommon
