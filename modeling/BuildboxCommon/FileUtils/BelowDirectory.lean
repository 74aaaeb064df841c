import BuildboxCommon.FileUtils.CreateDirectoriesInPath

set_option autoImplicit false

namespace BuildboxCommon

open ByteString FileUtils LexicalPath PathResolution Posix

namespace FileUtils.NormalPath

structure Below (n m : NormalPath) (names : List Bytes) : Prop where
  absolute : m.absolute = n.absolute
  ups : m.ups = n.ups
  names : m.names = n.names ++ names

namespace Below

variable {n m : NormalPath} {names : List Bytes}

theorem ancestor (below : n.Below m names) (depth : Nat) :
    n.Below (m.ancestor (n.names.length + depth)) (names.take depth) :=
  ⟨below.absolute, below.ups, by simp [NormalPath.ancestor, below.names, List.take_append]⟩

theorem ancestor_eq (below : n.Below m names) {depth : Nat} (within : depth ≤ n.names.length) :
    m.ancestor depth = n.ancestor depth := by
  refine @eq_of_displacement (m.ancestor depth) (n.ancestor depth) below.absolute ?_
  simp only [NormalPath.ancestor, displacement, below.ups, below.names, List.take_append_of_le_length within]

theorem steps (below : n.Below m names) : m.displacement.steps = n.displacement.steps ++ names.map .down := by
  simp [displacement, Displacement.steps, below.ups, below.names]

end Below

end FileUtils.NormalPath

namespace Posix.Disk

variable {disk : Disk} {n m : NormalPath} {root here : Nat} {names : List Bytes}

theorem start_below (below : n.Below m names) : disk.start m.render = disk.start n.render := by
  rw [start, start, NormalPath.isGlobal_render, NormalPath.isGlobal_render, below.absolute]

theorem descent_used {start node : Nat} (used : start < disk.next)
    (descent : disk.files.graph.Descent start names node) :
    node < disk.next := by
  induction descent with
  | here => exact used
  | inside entered _ ih => exact ih (find_used (find_eq_some.mpr entered))

def Plain (disk : Disk) (root : Nat) (names : List Bytes) : Prop :=
  ∀ some, some <+: names → ∀ node, disk.files.graph.Descent root some node → disk.files.graph.IsDirectory node

namespace Plain

variable {name : Bytes} {next : Nat}

theorem isDirectory (plain : disk.Plain root names) : disk.files.graph.IsDirectory root :=
  plain [] List.nil_prefix root (.here root)

theorem inside (plain : disk.Plain root (name :: names))
    (entered : disk.files.graph.enter root (.down name) = .ok next) :
    disk.Plain next names :=
  fun _ within node descent => plain _ (List.cons_prefix_cons.mpr ⟨rfl, within⟩) node (.inside entered descent)

theorem descent {links : List Nat} (plain : disk.Plain root names)
    (walk : disk.files.graph.Walk root (names.map .down) links here) : disk.files.graph.Descent root names here := by
  induction names generalizing root with
  | nil =>
    cases walk with
    | here => exact .here _
  | cons name names ih =>
    cases walk with
    | plain entered _ onwards => exact .inside entered (ih (plain.inside entered) onwards)
    | link entered link => exact absurd ⟨_, link⟩ (plain.inside entered).isDirectory.not_link

theorem furthest (plain : disk.Plain root names) : ∃ depth ≤ names.length, ∃ here,
    disk.files.graph.Descent root (names.take depth) here ∧ ∀ name, names[depth]? = some name →
      disk.find here name = none := by
  induction names generalizing root with
  | nil => exact ⟨0, le_rfl, _, .here _, nofun⟩
  | cons name names ih =>
    cases found : disk.find root name with
    | none => exact ⟨0, Nat.zero_le _, _, .here _, fun other there => by simp_all⟩
    | some next =>
      have entered := find_eq_some.mp found
      obtain ⟨depth, within, here, descent, absent⟩ := ih (plain.inside entered)
      exact ⟨depth + 1, Nat.succ_le_succ within, here, .inside entered descent, absent⟩

end Plain

theorem Leads.below (leads : disk.Leads n root) (below : n.Below m names)
    (descent : disk.files.graph.Descent root names here) (directory : disk.files.graph.IsDirectory here) :
    disk.Leads m here := by
  obtain ⟨links, walk, bound, before⟩ := leads.reaches
  refine ⟨⟨links, ?_, bound, before⟩, directory⟩
  have further := walk.append (descent.walk directory.not_link)
  rwa [List.append_nil, ← below.steps, ← start_below below] at further

theorem Leads.descent (leads : disk.Leads n root) (below : n.Below m names) (plain : disk.Plain root names)
    (also : disk.Leads m here) : disk.files.graph.Descent root names here := by
  obtain ⟨links, walk, bound, -⟩ := also.reaches
  obtain ⟨middle, first, second, rfl, above, beneath⟩ := walk.split below.steps
  have counted : first.length ≤ disk.files.symlinkLimit := by
    rw [List.length_append] at bound
    omega
  rw [start_below below] at above
  obtain rfl : root = middle := Except.ok.inj (leads.reaches.resolve.symm.trans (above.resolve counted))
  exact plain.descent beneath

theorem frontier_of_plain (leads : disk.Leads n root) (below : n.Below m names) (plain : disk.Plain root names) :
    ∃ depth here, disk.Frontier m depth here := by
  obtain ⟨depth, within, here, descent, absent⟩ := plain.furthest
  have directory := plain _ (List.take_prefix depth names) here descent
  refine ⟨n.names.length + depth, here, ?_, (leads.below (below.ancestor depth) descent directory).pathname,
    directory, ?_⟩
  next =>
    rw [below.names, List.length_append]
    omega
  next =>
    intro name there
    rw [below.names, List.getElem?_append_right (Nat.le_add_right _ _), Nat.add_sub_cancel_left] at there
    exact absent name there

theorem Frontier.inside (leads : disk.Leads n root) (below : n.Below m names) (plain : disk.Plain root names)
    {depth : Nat} (frontier : disk.Frontier m depth here) :
    ∃ level, depth = n.names.length + level ∧ disk.files.graph.Descent root (names.take level) here := by
  by_cases above : depth < n.names.length
  next =>
    have there := List.getElem?_eq_getElem above
    obtain ⟨middle, node, upper, found⟩ := (Frontier.of_leads leads).above above there
    have same := frontier.leads
    rw [below.ancestor_eq above.le] at same
    obtain rfl := CreateDirectory.leads_unique same upper
    have absent := frontier.absent n.names[depth] (by rw [below.names, List.getElem?_append_left above, there])
    rw [absent] at found
    cases found
  next =>
    obtain ⟨level, rfl⟩ := Nat.exists_eq_add_of_le (Nat.not_lt.mp above)
    have shorter : disk.Plain root (names.take level) :=
      fun some within => plain some (within.trans (List.take_prefix level names))
    exact ⟨level, rfl, leads.descent (below.ancestor level) shorter frontier.leads⟩

section Create

variable {name : Name} (vacant : disk.Vacant here name) {start node : Nat} (used : start < disk.next)

include vacant used

theorem Vacant.descent (new : NewObject) (descent : disk.files.graph.Descent start names node) :
    (disk.create here name new).files.graph.Descent start names node := by
  induction descent with
  | here => exact .here _
  | inside entered _ ih =>
    obtain ⟨known, again⟩ := vacant.answers new used entered
    exact .inside again (ih known)

theorem Vacant.descent_cases {permissions : Fin 0o10000}
    (descent : (disk.create here name (.directory permissions)).files.graph.Descent start names node) :
    disk.files.graph.Descent start names node ∨ node = disk.next := by
  induction descent with
  | here => exact .inl (.here _)
  | inside entered below ih =>
    rcases vacant.found (find_eq_some.mpr entered) with old | rfl
    next =>
      rcases ih (find_used old) with before | fresh
      next => exact .inl (.inside (find_eq_some.mp old) before)
      next => exact .inr fresh
    next =>
      cases below with
      | here => exact .inr rfl
      | inside entered =>
        have kind := object_create vacant.directory vacant.used name (.directory permissions)
        have empty := find_eq_some.mpr entered
        rw [find_directory kind] at empty
        cases empty

theorem Plain.create {permissions : Fin 0o10000} (plain : disk.Plain start names) :
    (disk.create here name (.directory permissions)).Plain start names := by
  intro some within node descent
  rcases vacant.descent_cases used descent with before | rfl
  next => exact vacant.isDirectory _ (descent_used used before) (plain some within node before)
  next =>
    have kind := object_create vacant.directory vacant.used name (.directory permissions)
    exact (FileSystem.isDirectory_iff _).mpr ⟨_, _, _, _, kind⟩

end Create

inductive Planted (root : Nat) (before : Disk) : Disk → Prop where
  | same : Planted root before before
  | next {disk : Disk} {names : List Bytes} {here : Nat} {name : Name} (earlier : Planted root before disk)
    (descent : disk.files.graph.Descent root names here) (vacant : disk.Vacant here name)
    (permissions : Fin 0o10000) : Planted root before (disk.create here name (.directory permissions))

theorem Planted.trans {before between after : Disk} (first : Planted root before between)
    (second : Planted root between after) : Planted root before after := by
  induction second with
  | same => exact first
  | next _ descent vacant permissions ih => exact .next ih descent vacant permissions

theorem Planted.invariant {before after : Disk} {held : Disk → Prop} (planted : Planted root before after)
    (keeps : ∀ disk names here name permissions, held disk → disk.files.graph.Descent root names here →
      disk.Vacant here name → held (disk.create here name (.directory permissions)))
    (start : held before) : held after := by
  induction planted with
  | same => exact start
  | next _ descent vacant permissions ih => exact keeps _ _ _ _ permissions ih descent vacant

theorem Planted.descent {before after : Disk} (planted : Planted root before after) (used : root < before.next)
    (descent : before.files.graph.Descent root names here) : after.files.graph.Descent root names here := by
  have held : root < after.next ∧ after.files.graph.Descent root names here := by
    refine @Planted.invariant root before after
      (fun disk => root < disk.next ∧ disk.files.graph.Descent root names here) planted ?_ ⟨used, descent⟩
    rintro disk - there name permissions ⟨used, descent⟩ - vacant
    exact ⟨used.trans_le (vacant.within _).next, vacant.descent used _ descent⟩
  exact held.2

theorem plain_of_descent (descent : disk.files.graph.Descent root names here)
    (directory : disk.files.graph.IsDirectory here) : disk.Plain root names := by
  rintro some ⟨rest, rfl⟩ node above
  obtain ⟨between, first, second⟩ := descent.split
  obtain rfl := first.unique above
  cases second with
  | here => exact directory
  | inside entered => exact Graph.isDirectory_of_enter entered

end Posix.Disk

namespace CreateDirectory

open Posix.Disk

variable {n m : NormalPath} {root : Nat} {names : List Bytes} {before after : Disk}

theorem Grows.planted (grows : Grows m before after) (leads : before.Leads n root) (below : n.Below m names)
    (plain : before.Plain root names) : Planted root before after := by
  induction grows with
  | same => exact .same
  | next frontier there permissions _ ih =>
    obtain ⟨level, -, descent⟩ := Frontier.inside leads below plain frontier
    have vacant := frontier.vacant there
    exact (Planted.same.next descent vacant permissions).trans
      (ih (vacant.leads _ leads) (Plain.create vacant leads.used plain))

structure Site (n : NormalPath) (root : Nat) (ways : List (List Bytes)) (volume : Volume) : Prop where
  leads : volume.disk.Leads n root
  kept : volume.removed root = false
  plain : ∀ way ∈ ways, volume.disk.Plain root way

variable {ways : List (List Bytes)} {way : List Bytes} {volume final : Volume} {path : Bytes} {mode fuel : Nat}
  {outcome : Except Nat Unit}

theorem Site.planted (site : Site n root ways volume) (planted : Planted root volume.disk final.disk)
    (removed : final.removed = volume.removed) : Site n root ways final := by
  have held : final.disk.Leads n root ∧ ∀ way ∈ ways, final.disk.Plain root way := by
    refine @Planted.invariant root volume.disk final.disk
      (fun disk => disk.Leads n root ∧ ∀ way ∈ ways, disk.Plain root way) planted ?_ ⟨site.leads, site.plain⟩
    rintro disk names here name permissions ⟨leads, plain⟩ - vacant
    exact ⟨vacant.leads _ leads, fun way member => Plain.create vacant leads.used (plain way member)⟩
  exact ⟨held.1, removed ▸ site.kept, held.2⟩

theorem kept_of_descent {start here : Nat} (kept : volume.removed start = false)
    (descent : volume.disk.files.graph.Descent start names here) : volume.removed here = false := by
  induction descent with
  | here => exact kept
  | inside entered _ ih => exact ih (volume.named _ _ _ (find_eq_some.mpr entered))

theorem Site.not_astray (site : Site n root ways volume) (below : n.Below m names) : ¬Astray m volume := by
  rintro ⟨-, level_ground, gone⟩
  rw [start_below below] at gone
  rw [below.ups] at level_ground
  have begin := leads_start volume level_ground
  by_cases empty : n.names = []
  next =>
    rw [NormalPath.ancestor_all (by simp [empty])] at begin
    rw [leads_unique site.leads begin, site.kept] at gone
    cases gone
  next =>
    have some := List.length_pos_of_ne_nil empty
    obtain ⟨middle, node, upper, found⟩ := (Frontier.of_leads site.leads).above some (List.getElem?_eq_getElem some)
    rw [leads_unique begin upper, volume.empty _ gone] at found
    cases found

theorem Site.terminates (site : Site n root ways volume) (below : n.Below (normalForm path) names)
    (enough : (normalForm path).names.length < fuel) :
    ∃ result, createDirectory mode fuel path volume = some result := by
  rw [createDirectory, ← ancestor_whole]
  exact terminates_of_kept le_rfl (site.not_astray below) enough

structure Extended (root : Nat) (ways : List (List Bytes)) (volume : Volume) (outcome : Except Nat Unit)
    (final : Volume) :
    Prop where
  planted : Planted root volume.disk final.disk
  removed : final.removed = volume.removed
  made : outcome = .ok () → ∀ way ∈ ways, ∃ node, final.disk.files.graph.Descent root way node
  returns : (∀ call, volume.refusals call = none) → outcome = .ok () ∧ ∀ call, final.refusals call = none

theorem Extended.trans {between : Volume} {more : List (List Bytes)}
    (first : Extended root ways volume (.ok ()) between)
    (used : root < between.disk.next) (second : Extended root more between outcome final) :
    Extended root (ways ++ more) volume outcome final where
  planted := first.planted.trans second.planted
  removed := second.removed.trans first.removed
  made returned way member := by
    rcases List.mem_append.mp member with earlier | later
    next =>
      obtain ⟨node, descent⟩ := first.made rfl way earlier
      exact ⟨node, second.planted.descent used descent⟩
    next => exact second.made returned way later
  returns granted := second.returns (first.returns granted).2

theorem Extended.stopped {errno : Nat} (more : List (List Bytes))
    (first : Extended root ways volume (.error errno) final) :
    Extended root more volume (.error errno) final :=
  ⟨first.planted, first.removed, nofun, fun granted => absurd (first.returns granted).1 nofun⟩

theorem Site.extended (site : Site n root ways volume) (member : way ∈ ways) (below : n.Below (normalForm path) way)
    (run : createDirectory mode fuel path volume = some (outcome, final)) :
    Extended root [way] volume outcome final := by
  have plain := site.plain way member
  obtain ⟨depth, here, frontier⟩ := frontier_of_plain site.leads below plain
  obtain ⟨level, -, descent⟩ := Frontier.inside site.leads below plain frontier
  have created := created_of_run (free_of_frontier frontier) run
  rw [createDirectory, ← ancestor_whole] at run
  have reported := createDirectoriesInPath_reported le_rfl run
  have planted := reported.grows.planted site.leads below plain
  have later := site.planted planted reported.removed
  refine ⟨planted, reported.removed, fun returned other same => ?_, fun granted => ?_⟩
  next =>
    obtain rfl := List.mem_singleton.mp same
    obtain ⟨node, reached, directory⟩ := (created returned).directories _ le_rfl
    rw [NormalPath.ancestor_all le_rfl] at reached
    exact ⟨node, later.leads.descent below (later.plain _ member) (.of_pathname reached directory)⟩
  next =>
    obtain ⟨returned, quiet, -⟩ :=
      createDirectoriesInPath_returns frontier (kept_of_descent site.kept descent) granted le_rfl run
    exact ⟨returned, quiet⟩

end CreateDirectory

end BuildboxCommon
