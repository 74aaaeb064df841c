import BuildboxCommon.Client.Download
import BuildboxCommon.FileUtils.MakePathAbsolute
import BuildboxCommon.Posix.Disk

set_option autoImplicit false

namespace BuildboxCommon

open ByteString FileUtils LexicalPath PathResolution Posix

namespace FileUtils

def NormalPath.child (n : NormalPath) (name : Name) : NormalPath :=
  { n with
    names := n.names ++ [name.1]
    proper := fun other member => by
      rcases List.mem_append.mp member with old | new
      next => exact n.proper other old
      next => exact List.mem_singleton.mp new ▸ name.2 }

theorem NormalPath.displacement_child (n : NormalPath) (name : Name) :
    (n.child name).displacement.steps = n.displacement.steps ++ [.down name.1] := by
  simp [child, displacement, Displacement.steps]

theorem NormalPath.steps_render_child (n : NormalPath) (name : Name) : steps (n.child name).render =
    (if n.absolute then [.stay] else []) ++ (n.displacement.steps ++ [.down name.1]) := by
  have some : (n.child name).segments ≠ [] := by simp [segments, child]
  have same : (n.child name).absolute = n.absolute := rfl
  rw [steps, render, splitOn_joinSegments _ _ some fun _ member => no_slash member, ← displacement_child,
    ← map_classify_segments, same]
  cases n.absolute <;> simp

theorem NormalPath.steps_render (n : NormalPath) :
    ∃ count, steps n.render = List.replicate count .stay ++ n.displacement.steps := by
  by_cases empty : n.segments = []
  next =>
    have still : n.displacement.steps = [] := by rw [← map_classify_segments, empty, List.map_nil]
    rw [still, render, empty]
    cases n.absolute with
    | true => exact ⟨2, by decide⟩
    | false => exact ⟨1, by decide⟩
  next =>
    rw [steps, render, splitOn_joinSegments _ _ empty fun _ member => no_slash member, ← map_classify_segments]
    cases n.absolute with
    | true => exact ⟨1, by simp⟩
    | false => exact ⟨0, by simp⟩

theorem nulFree_child {path : Bytes} (free : NulFree path) (name : Name) : NulFree (path ++ slash :: name.1) := by
  rw [← List.singleton_append, nulFree_append, nulFree_append]
  exact ⟨free, by decide, name.2.nulFree⟩

theorem steps_child (path : Bytes) (name : Name) : steps (path ++ slash :: name.1) = steps path ++ [.down name.1] := by
  rw [steps_join, FileSystem.steps_of_isName name.2]

theorem normalForm_child {path : Bytes} (free : NulFree path) (present : path ≠ []) (name : Name) :
    normalForm (path ++ slash :: name.1) = (normalForm path).child name := by
  have whole := nulFree_child free name
  apply eq_of_displacement
  next =>
    have same : ((normalForm path).child name).absolute = (normalForm path).absolute := rfl
    rw [same, normalForm_absolute, normalForm_absolute, cString_of_nulFree whole, cString_of_nulFree free,
      isGlobal_append present]
  next =>
    have below : ((normalForm path).child name).displacement =
      (normalForm path).displacement.extend (.down name.1) := rfl
    rw [below, normalForm_displacement whole, normalForm_displacement free, isGlobal_append present, steps_child]
    split
    next => simp [walk_append, Displacement.extend, Step.apply]
    next => rw [displacement_snoc]

theorem dropSlashes_append (path : Bytes) : ∃ count, path = dropSlashes path ++ List.replicate count slash := by
  refine ⟨(path.reverse.takeWhile (· == slash)).length, ?_⟩
  have slashes : path.reverse.takeWhile (· == slash) =
      List.replicate (path.reverse.takeWhile (· == slash)).length slash :=
    List.eq_replicate_of_mem fun byte member => by simpa using List.mem_takeWhile_imp member
  have parts := congrArg List.reverse (List.takeWhile_append_dropWhile (p := (· == slash)) (l := path.reverse))
  rw [List.reverse_append, List.reverse_reverse, slashes, List.reverse_replicate] at parts
  exact parts.symm

theorem dropSlashes_ending (path : Bytes) {name : Bytes} (proper : IsName name) :
    dropSlashes (path ++ name) = path ++ name := by
  obtain ⟨start, last, shape⟩ := List.eq_nil_or_concat name |>.resolve_left proper.nonempty
  have plain : last ≠ slash := fun same => proper.no_slash (by simp [shape, same])
  rw [dropSlashes, shape]
  simp [plain]

theorem dropSlashes_child (path : Bytes) (name : Name) :
    dropSlashes (path ++ slash :: name.1) = path ++ slash :: name.1 := by
  simpa using dropSlashes_ending (path ++ [slash]) name.2

theorem dirname_child {path : Bytes} (present : path ≠ []) (name : Name) :
    dirname (path ++ slash :: name.1) ≠ [] ∧
      ∃ count, path = dirname (path ++ slash :: name.1) ++ List.replicate count slash := by
  have above : ((path ++ slash :: name.1).reverse.dropWhile (· != slash)).reverse = path ++ [slash] := by
    have alike : (fun byte : UInt8 => byte != slash) = fun byte => decide (byte ≠ slash) := by
      funext byte
      by_cases same : byte = slash <;> simp [same]
    rw [alike]
    exact rdropWhile_slash path name.2.no_slash
  have same : dropSlashes (path ++ [slash]) = dropSlashes path := by simp [dropSlashes]
  obtain ⟨count, parts⟩ := dropSlashes_append path
  simp only [dirname, dropSlashes_child, above, same, List.append_eq_nil_iff, reduceCtorEq, and_false, if_false]
  split
  next nothing =>
    rw [nothing, List.nil_append] at parts
    cases count with
    | zero => exact absurd parts present
    | succ count => exact ⟨by decide, count, parts⟩
  next some => exact ⟨some, count, parts⟩

theorem steps_slashes (path : Bytes) (count : Nat) :
    steps (path ++ List.replicate count slash) = steps path ++ List.replicate count .stay := by
  induction count with
  | zero => simp
  | succ count ih =>
    rw [List.replicate_succ', ← List.append_assoc, steps_join, ih, List.replicate_succ', List.append_assoc]
    rfl

theorem normalForm_slashes {path : Bytes} (free : NulFree path) (present : path ≠ []) (count : Nat) :
    (normalForm (path ++ List.replicate count slash)).displacement = (normalForm path).displacement := by
  have whole : NulFree (path ++ List.replicate count slash) :=
    nulFree_append.mpr ⟨free, fun member => absurd (List.eq_of_mem_replicate member) (by decide)⟩
  have walked (directory : List Bytes) : walk directory (List.replicate count .stay) = directory := by
    induction count with
    | zero => rfl
    | succ count ih => exact ih (nulFree_append.mpr ⟨free, fun member =>
        absurd (List.eq_of_mem_replicate member) (by decide)⟩)
  have moved (d : Displacement Bytes) : (List.replicate count .stay).foldl Displacement.extend d = d := by
    clear whole walked
    induction count with
    | zero => rfl
    | succ count ih => exact ih
  rw [normalForm_displacement whole, normalForm_displacement free, isGlobal_append present, steps_slashes, walk_append,
    walked, displacement_append, moved]

end FileUtils

namespace Posix.Disk

variable {disk : Disk} {old : Nat → Prop}

def Reaches (disk : Disk) (old : Nat → Prop) (start : Nat) (steps : List (Step Bytes)) (here : Nat) : Prop :=
  ∃ links, disk.files.graph.Walk start steps links here ∧ links.length ≤ disk.files.symlinkLimit ∧
    ∀ link ∈ links, old link

theorem Reaches.resolve {start here : Nat} {steps : List (Step Bytes)} (reaches : disk.Reaches old start steps here) :
    disk.files.graph.resolve true disk.files.symlinkLimit start steps = .ok here := by
  obtain ⟨links, walk, bound, -⟩ := reaches
  exact walk.resolve bound

theorem Reaches.down {start here next : Nat} {steps : List (Step Bytes)} {name : Bytes}
    (reaches : disk.Reaches old start steps here) (entered : disk.files.graph.enter here (.down name) = .ok next)
    (plain : ¬disk.files.graph.IsLink next) : disk.Reaches old start (steps ++ [.down name]) next := by
  obtain ⟨links, walk, bound, before⟩ := reaches
  have further := walk.append (.plain entered plain (.here next))
  rw [List.append_nil] at further
  exact ⟨links, further, bound, before⟩

theorem Reaches.stay {start here : Nat} {steps : List (Step Bytes)} (reaches : disk.Reaches old start steps here)
    (directory : disk.files.graph.IsDirectory here) : disk.Reaches old start (.stay :: steps) here := by
  obtain ⟨links, walk, bound, before⟩ := reaches
  have begin : disk.files.graph.IsDirectory start := by
    cases walk with
    | here => exact directory
    | plain entered | link entered => exact Graph.isDirectory_of_enter entered
  exact ⟨links, .plain (Graph.enter_stay begin) begin.not_link walk, bound, before⟩

theorem Reaches.unstay {start here : Nat} {steps : List (Step Bytes)} {count : Nat}
    (reaches : disk.Reaches old start (steps ++ List.replicate count .stay) here) :
    disk.Reaches old start steps here := by
  obtain ⟨links, walk, bound, before⟩ := reaches
  obtain ⟨middle, first, second, rfl, above, below⟩ := walk.split rfl
  obtain ⟨rfl, rfl⟩ := below.stays
  rw [List.append_nil] at bound before
  exact ⟨first, above, bound, before⟩

theorem locate_of_reaches {path : Bytes} {steps : List (Step Bytes)} {here : Nat} {name : Name}
    (split : FileUtils.steps (cString path) = steps ++ [.down name.1])
    (reaches : disk.Reaches old (disk.start (cString path)) steps here)
    (directory : disk.files.graph.IsDirectory here) : disk.locate path = .ok (here, name) := by
  obtain ⟨parent, entries, permissions, mtime, kind⟩ := (FileSystem.isDirectory_iff here).mp directory
  unfold locate
  simp only
  split
  next other last =>
    have same : other = name.1 := by simpa [split] using last.symm
    subst same
    simp only [split, List.dropLast_concat, reaches.resolve, kind]
  next stay => simp [split] at stay
  next up => simp [split] at up
  next nothing => simp [split] at nothing

theorem enter_used {here next : Nat} {step : Step Bytes} (used : here < disk.next)
    (entered : disk.files.graph.enter here step = .ok next) : next < disk.next := by
  obtain ⟨parent, entries, directory⟩ := Graph.isDirectory_of_enter entered
  obtain ⟨parent, entries, permissions, mtime, kind⟩ := (FileSystem.isDirectory_iff here).mp ⟨_, _, directory⟩
  cases step with
  | stay =>
    rw [Graph.enter_stay ⟨_, _, directory⟩] at entered
    exact Except.ok.inj entered ▸ used
  | up =>
    simp only [Graph.enter, FileSystem.graph, kind, FileObject.shape] at entered
    exact Except.ok.inj entered ▸ (disk.bounded _ _ _ _ _ kind).1
  | down name => exact find_used (find_eq_some.mpr entered)

theorem start_used (path : Bytes) : disk.start path < disk.next := by
  unfold start
  split
  next => exact disk.root_used
  next => exact disk.current_used

theorem Reaches.of_stays {start here : Nat} {steps : List (Step Bytes)} {count : Nat}
    (reaches : disk.Reaches old start (List.replicate count .stay ++ steps) here) :
    disk.Reaches old start steps here := by
  obtain ⟨links, walk, bound, before⟩ := reaches
  obtain ⟨middle, first, second, rfl, above, below⟩ := walk.split rfl
  obtain ⟨rfl, rfl⟩ := above.stays
  exact ⟨second, below, bound, before⟩

theorem reaches_of_pathname {path : Bytes} {here : Nat} (free : NulFree path)
    (reached : disk.files.pathname true disk.files.currentDirectory path = .ok here) :
    path ≠ [] ∧ disk.Reaches (· < disk.next) (disk.start path) (steps path) here := by
  unfold FileSystem.pathname at reached
  rw [cString_of_nulFree free] at reached
  have present : path ≠ [] := by
    rintro rfl
    simp at reached
  rw [if_neg present] at reached
  cases resolved : disk.files.graph.resolve true disk.files.symlinkLimit (disk.start path) (steps path) with
  | error fault =>
    rw [start] at resolved
    simp [resolved] at reached
  | ok found =>
    obtain ⟨links, walk, bound⟩ := Graph.resolve_iff_walk.mp resolved
    rw [start] at resolved
    simp only [resolved, Except.ok.injEq] at reached
    have known := walk.known disk.root_used (fun _ _ _ => enter_used) (disk.start_used path)
    exact ⟨present, links, reached ▸ walk, bound, known.2⟩

structure Denotes (disk : Disk) (old : Nat → Prop) (normalized : Prop) (path : Bytes) (here : Nat) : Prop where
  free : NulFree path
  present : path ≠ []
  directory : disk.files.graph.IsDirectory here
  used : here < disk.next
  reaches : disk.Reaches old (disk.start path) (steps path) here
  normal : normalized → disk.Reaches old (disk.start path) (normalForm path).displacement.steps here

structure EndsIn (disk : Disk) (old : Nat → Prop) (path : Bytes) (here : Nat) : Prop where
  located : ∃ name, disk.locate path = .ok (here, name)
  reaches : disk.Reaches old (disk.start (cString path)) (steps (cString path)).dropLast here

theorem EndsIn.of_reaches {path : Bytes} {steps : List (Step Bytes)} {here : Nat} {name : Name}
    (split : FileUtils.steps (cString path) = steps ++ [.down name.1])
    (reaches : disk.Reaches old (disk.start (cString path)) steps here)
    (directory : disk.files.graph.IsDirectory here) :
    disk.locate path = .ok (here, name) ∧ disk.EndsIn old path here := by
  have located := locate_of_reaches split reaches directory
  exact ⟨located, ⟨name, located⟩, by rwa [split, List.dropLast_concat]⟩

theorem locate_last {path : Bytes} {here : Nat} {name : Name} (located : disk.locate path = .ok (here, name)) :
    (steps (cString path)).getLast? = some (.down name.1) := by
  unfold locate at located
  simp only at located
  split at located
  next other last =>
    rw [last]
    split at located
    next => cases located
    next directory resolved =>
      split at located
      next => rw [← (Prod.mk.inj (Except.ok.inj located)).2]
      next => cases located
      next => cases located
  next => cases located
  next => cases located
  next => cases located

theorem EndsIn.file {path : Bytes} {here node : Nat} {name : Name} (ends : disk.EndsIn old path here)
    (located : disk.locate path = .ok (here, name)) (found : disk.find here name.1 = some node)
    (plain : ¬disk.files.graph.IsLink node) :
    disk.Reaches old (disk.start (cString path)) (steps (cString path)) node ∧
      disk.files.pathname true disk.files.currentDirectory path = .ok node := by
  have last := locate_last located
  have split := List.dropLast_append_getLast? _ last
  have reaches := ends.reaches.down (find_eq_some.mp found) plain
  rw [split] at reaches
  have present : cString path ≠ [] := by
    intro empty
    rw [empty] at last
    cases last
  refine ⟨reaches, ?_⟩
  have resolved := reaches.resolve
  rw [start] at resolved
  simp only [FileSystem.pathname, present, if_false, resolved]

theorem Denotes.of_pathname {normalized : Prop} {path : Bytes} {here : Nat} (free : NulFree path)
    (reached : disk.files.pathname true disk.files.currentDirectory path = .ok here)
    (normal : normalized → disk.files.pathname true disk.files.currentDirectory (normalizePath path) = .ok here)
    (directory : disk.files.graph.IsDirectory here) : disk.Denotes (· < disk.next) normalized path here := by
  obtain ⟨present, reaches⟩ := reaches_of_pathname free reached
  obtain ⟨links, walk, -⟩ := id reaches
  have used := (walk.known disk.root_used (fun _ _ _ => enter_used) (disk.start_used path)).1
  refine ⟨free, present, directory, used, reaches, fun holds => ?_⟩
  have again := normal holds
  rw [normalizePath_eq_render] at again
  obtain ⟨-, walks⟩ := reaches_of_pathname ((normalForm path).cString_render ▸ cString_nulFree _) again
  obtain ⟨count, parts⟩ := (normalForm path).steps_render
  have same : disk.start (normalForm path).render = disk.start path := by
    rw [start, start, NormalPath.isGlobal_render, normalForm_absolute, cString_of_nulFree free]
  rw [parts, same] at walks
  exact walks.of_stays

namespace Denotes

variable {normalized : Prop} {path : Bytes} {here : Nat}

theorem pathname (denotes : disk.Denotes old normalized path here) :
    disk.files.pathname true disk.files.currentDirectory path = .ok here := by
  have resolved := denotes.reaches.resolve
  rw [start] at resolved
  simp only [FileSystem.pathname, cString_of_nulFree denotes.free, denotes.present, if_false, resolved]

theorem endsIn (denotes : disk.Denotes old normalized path here) (name : Name) :
    disk.locate (path ++ slash :: name.1) = .ok (here, name) ∧ disk.EndsIn old (path ++ slash :: name.1) here := by
  have whole := cString_of_nulFree (nulFree_child denotes.free name)
  refine EndsIn.of_reaches (whole ▸ steps_child path name) ?_ denotes.directory
  rw [whole, start, isGlobal_append denotes.present]
  exact denotes.reaches

theorem normal_endsIn (denotes : disk.Denotes old normalized path here) (holds : normalized) (name : Name) :
    disk.locate (normalizePath (path ++ slash :: name.1)) = .ok (here, name) ∧
      disk.EndsIn old (normalizePath (path ++ slash :: name.1)) here := by
  rw [normalizePath_eq_render, normalForm_child denotes.free denotes.present]
  have split := (normalForm path).steps_render_child name
  rw [← List.append_assoc] at split
  have whole := ((normalForm path).child name).cString_render
  have same : disk.start ((normalForm path).child name).render = disk.start path := by
    have absolute : ((normalForm path).child name).absolute = (normalForm path).absolute := rfl
    rw [start, start, NormalPath.isGlobal_render, absolute, normalForm_absolute, cString_of_nulFree denotes.free]
  refine EndsIn.of_reaches (whole ▸ split) ?_ denotes.directory
  rw [whole, same]
  split
  next => exact (denotes.normal holds).stay denotes.directory
  next => exact denotes.normal holds

theorem above (denotes : disk.Denotes old normalized path here) (name : Name) :
    disk.Denotes old normalized (dirname (path ++ slash :: name.1)) here := by
  obtain ⟨present, count, parts⟩ := dirname_child denotes.present name
  generalize dirname (path ++ slash :: name.1) = directory at present parts ⊢
  subst parts
  have free := (nulFree_append.mp denotes.free).1
  have same : disk.start (directory ++ List.replicate count slash) = disk.start directory := by
    rw [start, start, isGlobal_append present]
  have reaches := denotes.reaches
  have normal := denotes.normal
  rw [same] at reaches normal
  rw [steps_slashes] at reaches
  rw [normalForm_slashes free present] at normal
  exact ⟨free, present, denotes.directory, denotes.used, reaches.unstay, normal⟩

theorem child (denotes : disk.Denotes old normalized path here) {name : Name} {next : Nat}
    (found : disk.find here name.1 = some next) (directory : disk.files.graph.IsDirectory next) :
    disk.Denotes old normalized (path ++ slash :: name.1) next := by
  have entered := find_eq_some.mp found
  have same : disk.start (path ++ slash :: name.1) = disk.start path := by
    rw [start, start, isGlobal_append denotes.present]
  refine ⟨nulFree_child denotes.free name, by simp, directory, find_used found, ?_, fun holds => ?_⟩
  next =>
    rw [same, steps_child]
    exact denotes.reaches.down entered directory.not_link
  next =>
    rw [same, normalForm_child denotes.free denotes.present, NormalPath.displacement_child]
    exact (denotes.normal holds).down entered directory.not_link

end Denotes

section Within

variable {after : Disk} {here parent : Nat} {permissions : Fin 0o10000} {mtime : Int}
  (within : Within here disk after) (empty : disk.files.object here = .directory parent [] permissions mtime)

include within empty

-- From an empty directory there is no way on, so its entries may change.
theorem Within.answers {node next : Nat} {step : Step Bytes} (used : node < disk.next)
    (entered : disk.files.graph.enter node step = .ok next) :
    next < disk.next ∧ after.files.graph.enter node step = .ok next := by
  refine ⟨enter_used used entered, ?_⟩
  by_cases same : node = here
  next =>
    subst same
    obtain ⟨entries, kind⟩ := within.directory _ _ _ _ empty
    cases step with
    | stay | up => simpa [Graph.enter, FileSystem.graph, empty, kind, FileObject.shape] using entered
    | down name => simp [Graph.enter, FileSystem.graph, empty, FileObject.shape] at entered
  next =>
    rw [← entered]
    simp only [Graph.enter, FileSystem.graph, within.others node used same]

theorem Within.links {node : Nat} (used : node < disk.next) (target : Pathname Bytes) :
    after.files.graph.object node = .symlink target ↔ disk.files.graph.object node = .symlink target := by
  by_cases same : node = here
  next =>
    subst same
    obtain ⟨entries, kind⟩ := within.directory _ _ _ _ empty
    simp [FileSystem.graph, empty, kind, FileObject.shape]
  next => simp only [FileSystem.graph, within.others node used same]

omit empty in
theorem Within.start_eq (path : Bytes) : after.start path = disk.start path := by
  rw [start, start, within.root, within.currentDirectory]

theorem Reaches.kept {path : Bytes} {found : Nat} {steps : List (Step Bytes)}
    (reaches : disk.Reaches old (disk.start path) steps found) : after.Reaches old (after.start path) steps found := by
  obtain ⟨links, walk, bound, before⟩ := reaches
  rw [within.start_eq]
  refine ⟨links, ?_, within.symlinkLimit ▸ bound, before⟩
  exact walk.preserved within.root disk.root_used (fun _ _ _ => within.answers empty)
    (fun _ => within.links empty) (disk.start_used path)

theorem Denotes.kept {normalized : Prop} {path : Bytes} (denotes : disk.Denotes old normalized path here) :
    after.Denotes old normalized path here :=
  ⟨denotes.free, denotes.present, within.isDirectory denotes.directory, denotes.used.trans_le within.next,
    denotes.reaches.kept within empty, fun holds => (denotes.normal holds).kept within empty⟩

end Within

end Posix.Disk

end BuildboxCommon
