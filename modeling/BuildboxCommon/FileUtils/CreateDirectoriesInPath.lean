import BuildboxCommon.FileUtils.CreateDirectory

set_option autoImplicit false

namespace BuildboxCommon

open ByteString FileUtils LexicalPath PathResolution Posix

namespace Posix

-- What `mkdir` may fail with by itself: not with what the names in the directories decide.
abbrev Refusal := { errno : Nat // errno ≠ eexist ∧ errno ≠ enoent }

structure Volume where
  disk : Disk
  removed : Nat → Bool
  refusals : Nat → Option Refusal
  root : disk.files.graph.IsDirectory disk.files.root
  current : disk.files.graph.IsDirectory disk.files.currentDirectory
  parents : ∀ node < disk.next, ∀ parent entries permissions mtime,
    disk.files.object node = .directory parent entries permissions mtime → disk.files.graph.IsDirectory parent
  held : ∀ node, removed node = true → node < disk.next
  empty : ∀ node, removed node = true → ∀ name, disk.find node name = none
  named : ∀ node name found, disk.find node name = some found → removed found = false

namespace Disk

variable {disk after : Disk} {n : NormalPath} {here mode : Nat} {path : Bytes}

theorem locate_ok {name : Name} (located : disk.locate path = .ok (here, name)) :
    disk.Reaches (fun _ => True) (disk.start (cString path)) (steps (cString path)).dropLast here ∧
      disk.files.graph.IsDirectory here := by
  unfold locate at located
  simp only at located
  split at located
  next other last =>
    split at located
    next => cases located
    next directory resolved =>
      split at located
      next kind =>
        obtain ⟨rfl, -⟩ := Prod.mk.inj (Except.ok.inj located)
        obtain ⟨links, walk, bound⟩ := Graph.resolve_iff_walk.mp resolved
        exact ⟨⟨links, walk, bound, fun _ _ => trivial⟩, (FileSystem.isDirectory_iff _).mpr ⟨_, _, _, _, kind⟩⟩
      next => cases located
      next => cases located
  next => cases located
  next => cases located
  next => cases located

theorem locate_vacant {name : Name} (located : disk.locate path = .ok (here, name))
    (absent : disk.find here name.1 = none) : disk.Vacant here name := by
  obtain ⟨⟨links, walk, -⟩, directory⟩ := locate_ok located
  exact ⟨directory, (walk.known disk.root_used (fun _ _ _ => enter_used) (disk.start_used _)).1, absent⟩

theorem locate_ne_eexist (disk : Disk) (path : Bytes) : disk.locate path ≠ .error eexist := by
  unfold locate
  simp only
  split
  next =>
    split
    next fault _ => cases fault <;> simp [errnoOf, enoent, enotdir, eloop, eexist]
    next =>
      split
      next => simp
      next => simp [enotdir, eexist]
      next => simp [enotdir, eexist]
  next =>
    split_ifs <;> simp [enoent, einval, eexist]
  next =>
    split_ifs <;> simp [enoent, einval, eexist]
  next =>
    split_ifs <;> simp [enoent, einval, eexist]

theorem Leads.of_located {name other : Name} (located : disk.locate (n.child name).render = .ok (here, other)) :
    other = name ∧ disk.Leads n here := by
  have split := steps_child_render n name
  have last := locate_last located
  obtain ⟨reaches, directory⟩ := locate_ok located
  rw [split, List.getLast?_concat] at last
  rw [split, List.dropLast_concat, start_child] at reaches
  refine ⟨Subtype.ext (Step.down.inj (Option.some.inj last)).symm, ?_, directory⟩
  cases absolute : n.absolute with
  | true =>
    rw [absolute, if_pos rfl] at reaches
    exact @Reaches.of_stays _ _ _ _ _ 1 reaches
  | false => simpa [absolute] using reaches

theorem makeDirectory_ok (made : disk.makeDirectory path mode = .ok after) :
    ∃ here name, disk.locate path = .ok (here, name) ∧ disk.Vacant here name ∧
      after = disk.create here name (.directory (disk.masked mode)) := by
  unfold makeDirectory at made
  split at made
  next =>
    cases located : disk.locate path with
    | error errno => simp [mkdir, createNew, located] at made
    | ok place =>
      obtain ⟨here, name⟩ := place
      obtain ⟨absent, rfl⟩ := createNew_ok located made
      exact ⟨here, name, rfl, locate_vacant located absent, rfl⟩
  next =>
    split at made
    next => cases made
    next => cases made

theorem Vacant.parents {name : Name} (vacant : disk.Vacant here name) (new : NewObject)
    (parents : ∀ node < disk.next, ∀ parent entries permissions mtime,
      disk.files.object node = .directory parent entries permissions mtime → disk.files.graph.IsDirectory parent) :
    ∀ node < (disk.create here name new).next, ∀ parent entries permissions mtime,
      (disk.create here name new).files.object node = .directory parent entries permissions mtime →
        (disk.create here name new).files.graph.IsDirectory parent := by
  intro node used parent entries permissions mtime kind
  rw [next_create vacant.directory vacant.used] at used
  rcases Nat.lt_succ_iff_lt_or_eq.mp used with old | rfl
  next =>
    by_cases same : node = here
    next =>
      subst same
      obtain ⟨above, others, modes, time, before⟩ := (FileSystem.isDirectory_iff node).mp vacant.directory
      obtain ⟨more, between⟩ := (vacant.within new).directory _ _ _ _ before
      obtain ⟨rfl, -⟩ := FileObject.directory.inj (kind.symm.trans between)
      exact vacant.isDirectory new (disk.bounded _ _ _ _ _ before).1 (parents node old _ _ _ _ before)
    next =>
      rw [(vacant.within new).others node old same] at kind
      exact vacant.isDirectory new (disk.bounded _ _ _ _ _ kind).1 (parents node old _ _ _ _ kind)
  next =>
    rw [object_create vacant.directory vacant.used] at kind
    cases new with
    | directory =>
      obtain ⟨rfl, -⟩ := FileObject.directory.inj kind
      exact vacant.isDirectory _ vacant.used vacant.directory
    | regular | symlink => cases kind

theorem Vacant.found {name : Name} {permissions : Fin 0o10000} (vacant : disk.Vacant here name) {node found : Nat}
    {probe : Bytes} (entered : (disk.create here name (.directory permissions)).find node probe = some found) :
    disk.find node probe = some found ∨ found = disk.next := by
  by_cases old : node < disk.next
  next =>
    by_cases same : node = here
    next =>
      subst same
      rw [find_create vacant.directory vacant.used] at entered
      split_ifs at entered
      next => exact .inr (Option.some.inj entered).symm
      next => exact .inl entered
    next =>
      rw [find_congr ((vacant.within _).others node old same)] at entered
      exact .inl entered
  next =>
    by_cases fresh : node = disk.next
    next =>
      rw [fresh, find_directory (object_create vacant.directory vacant.used name (.directory permissions))] at entered
      cases entered
    next =>
      have same : (disk.create here name (.directory permissions)).files.object node = disk.files.object node := by
        obtain ⟨fits, created⟩ := create_eq vacant.used name (.directory permissions)
        have allocated := (Within.allocate disk vacant.used fits).isDirectory vacant.directory
        obtain ⟨parent, entries, modes, mtime, kind⟩ := (FileSystem.isDirectory_iff here).mp allocated
        have used := vacant.used
        rw [created, attach_eq kind name (Nat.lt_succ_self _), object_store, Function.update_of_ne (by omega),
          object_allocate, Function.update_of_ne fresh]
      rw [find_congr same] at entered
      exact .inl entered

end Disk

namespace Volume

variable {mode : Nat} {path : Bytes} {volume : Volume} {after : Disk}

def lost (volume : Volume) (path : Bytes) : Bool :=
  match volume.disk.locate path with
  | .ok (here, _) => volume.removed here
  | .error _ => false

def answered (volume : Volume) : Volume := { volume with refusals := fun call => volume.refusals (call + 1) }

theorem lost_locate {here : Nat} {name : Name} (located : volume.disk.locate path = .ok (here, name)) :
    volume.lost path = volume.removed here := by
  simp only [lost, located]

def grown (volume : Volume) (found : volume.lost path = false)
    (made : volume.disk.makeDirectory path mode = .ok after) :
    Volume where
  disk := after
  removed := volume.removed
  refusals := volume.refusals
  root := by
    obtain ⟨here, name, -, vacant, rfl⟩ := Disk.makeDirectory_ok made
    rw [(vacant.within _).root]
    exact vacant.isDirectory _ volume.disk.root_used volume.root
  current := by
    obtain ⟨here, name, -, vacant, rfl⟩ := Disk.makeDirectory_ok made
    rw [(vacant.within _).currentDirectory]
    exact vacant.isDirectory _ volume.disk.current_used volume.current
  parents := by
    obtain ⟨here, name, -, vacant, rfl⟩ := Disk.makeDirectory_ok made
    exact vacant.parents _ volume.parents
  held := by
    obtain ⟨here, name, -, vacant, rfl⟩ := Disk.makeDirectory_ok made
    exact fun node gone => (volume.held node gone).trans_le (vacant.within _).next
  empty := by
    obtain ⟨here, name, located, vacant, rfl⟩ := Disk.makeDirectory_ok made
    intro node gone probe
    apply vacant.find_other _ (volume.held node gone) (volume.empty node gone probe)
    rintro ⟨rfl, -⟩
    rw [lost_locate located, gone] at found
    contradiction
  named := by
    obtain ⟨here, name, -, vacant, rfl⟩ := Disk.makeDirectory_ok made
    intro node probe next entered
    rcases vacant.found entered with old | rfl
    next => exact volume.named node probe next old
    next => exact Bool.eq_false_iff.mpr fun gone => (volume.held _ gone).false

-- `mkdir()`. Nothing can be put into a directory that was removed.
def mkdir (mode : Nat) (path : Bytes) (volume : Volume) : Except Nat Unit × Volume :=
  match volume.refusals 0 with
  | some refusal => (.error refusal, volume.answered)
  | none =>
    if found : volume.lost path = false then
      match made : volume.disk.makeDirectory path mode with
      | .error errno => (.error errno, volume.answered)
      | .ok _ => (.ok (), volume.answered.grown found made)
    else (.error enoent, volume.answered)

end Volume

end Posix

namespace FileUtils

-- An error is the `errno` of a `std::system_error`; without fuel there is no end.
def createDirectoriesInPath (mode : Nat) : Nat → Bytes → Volume → Option (Except Nat Unit × Volume)
  | 0, _, _ => none
  | fuel + 1, path, volume =>
    match volume.mkdir mode path with
    | (.ok (), volume) => some (.ok (), volume)
    | (.error errno, volume) =>
      if errno = eexist then some (.ok (), volume)
      else if errno ≠ enoent then some (.error errno, volume)
      else
        match createDirectoriesInPath mode fuel (CreateDirectory.parentPath path) volume with
        | none => none
        | some (.error errno, volume) => some (.error errno, volume)
        | some (.ok (), volume) => some (volume.mkdir mode path)

def createDirectory (mode fuel : Nat) (path : Bytes) (volume : Volume) : Option (Except Nat Unit × Volume) :=
  createDirectoriesInPath mode fuel (normalizePath path) volume

end FileUtils

namespace Posix

def Disk.Present (disk : Disk) (path : Bytes) : Prop :=
  ∃ here name, disk.locate path = .ok (here, name) ∧ disk.find here name.1 ≠ none

namespace Volume

variable {mode : Nat} {path : Bytes} {volume after : Volume} {disk : Disk} {outcome : Except Nat Unit} {n : NormalPath}

structure Turn (mode : Nat) (path : Bytes) (volume : Volume) (outcome : Except Nat Unit) (after : Volume) : Prop where
  removed : after.removed = volume.removed
  refusals : after.refusals = fun call => volume.refusals (call + 1)
  made : outcome = .ok () → volume.lost path = false ∧ volume.disk.makeDirectory path mode = .ok after.disk
  unmade : ∀ errno, outcome = .error errno → after.disk = volume.disk ∧
    ((∃ refusal, volume.refusals 0 = some refusal ∧ errno = refusal) ∨
      volume.refusals 0 = none ∧ (volume.lost path = true ∧ errno = enoent ∨
        volume.lost path = false ∧ volume.disk.makeDirectory path mode = .error errno))

theorem mkdir_turn (mode : Nat) (path : Bytes) (volume : Volume) :
    Turn mode path volume (volume.mkdir mode path).1 (volume.mkdir mode path).2 := by
  unfold mkdir
  split
  next refusal refused =>
    refine ⟨rfl, rfl, nofun, fun errno thrown => ⟨rfl, .inl ⟨refusal, refused, ?_⟩⟩⟩
    exact (Except.error.inj thrown).symm
  next granted =>
    split_ifs with found
    next =>
      split
      next errno failed =>
        refine ⟨rfl, rfl, nofun, fun other thrown => ⟨rfl, .inr ⟨granted, .inr ⟨found, ?_⟩⟩⟩⟩
        rw [failed, Except.error.inj thrown]
      next disk made => exact ⟨rfl, rfl, fun _ => ⟨found, made⟩, nofun⟩
    next =>
      refine ⟨rfl, rfl, nofun, fun other thrown => ⟨rfl, .inr ⟨granted, .inl ⟨by simpa using found, ?_⟩⟩⟩⟩
      exact (Except.error.inj thrown).symm

theorem mkdir_lost (granted : volume.refusals 0 = none) (gone : volume.lost path = true) :
    volume.mkdir mode path = (.error enoent, volume.answered) := by
  simp [mkdir, granted, gone]

theorem mkdir_error {errno : Nat} (granted : volume.refusals 0 = none) (found : volume.lost path = false)
    (failed : volume.disk.makeDirectory path mode = .error errno) :
    volume.mkdir mode path = (.error errno, volume.answered) := by
  unfold mkdir
  rw [granted]
  simp only [found, dif_pos]
  split
  next other failed' => rw [← Except.error.inj (failed.symm.trans failed')]
  next disk made => simp [failed] at made

theorem climb (volume : Volume) (ups : Nat) {here : Nat} (directory : volume.disk.files.graph.IsDirectory here)
    (used : here < volume.disk.next) : ∃ there, volume.disk.files.graph.Walk here (List.replicate ups .up) [] there ∧
      volume.disk.files.graph.IsDirectory there := by
  induction ups generalizing here with
  | zero => exact ⟨here, .here here, directory⟩
  | succ ups ih =>
    obtain ⟨parent, entries, permissions, mtime, kind⟩ := (FileSystem.isDirectory_iff here).mp directory
    have above := volume.parents here used _ _ _ _ kind
    obtain ⟨there, walk, top⟩ := ih above (volume.disk.bounded _ _ _ _ _ kind).1
    refine ⟨there, .plain ?_ above.not_link walk, top⟩
    simp [Graph.enter, FileSystem.graph, kind, FileObject.shape]

theorem leads_base (volume : Volume) (n : NormalPath) : ∃ here, volume.disk.Leads (n.ancestor 0) here := by
  have begin : volume.disk.files.graph.IsDirectory (volume.disk.start (n.ancestor 0).render) := by
    unfold Disk.start
    split
    next => exact volume.root
    next => exact volume.current
  obtain ⟨there, walk, directory⟩ := volume.climb n.ups begin (Disk.start_used _)
  refine ⟨there, ⟨[], ?_, Nat.zero_le _, nofun⟩, directory⟩
  simpa [NormalPath.ancestor, NormalPath.displacement, Displacement.steps] using walk

end Volume

end Posix

namespace CreateDirectory

inductive Grows (n : NormalPath) : Disk → Disk → Prop where
  | same (disk : Disk) : Grows n disk disk
  | next {disk after : Disk} {depth here : Nat} {name : Bytes} (frontier : disk.Frontier n depth here)
    (there : n.names[depth]? = some name) (permissions : Fin 0o10000)
    (rest : Grows n (disk.create here ⟨name, NormalPath.isName_of_get there⟩ (.directory permissions)) after) :
    Grows n disk after

theorem Grows.trans {n : NormalPath} {before between after : Disk} (first : Grows n before between)
    (second : Grows n between after) : Grows n before after := by
  induction first with
  | same => exact second
  | next frontier there permissions _ ih => exact .next frontier there permissions (ih second)

variable {n : NormalPath} {name : Name} {disk after : Disk} {level mode : Nat}

theorem makeDirectory_grows (within : level ≤ n.names.length)
    (made : disk.makeDirectory (n.ancestor level).render mode = .ok after) :
    Grows n disk after ∧ ∃ here, after.Leads (n.ancestor level) here := by
  obtain ⟨here, name, located, vacant, rfl⟩ := Disk.makeDirectory_ok made
  cases level with
  | zero => exact absurd (Disk.locate_last located) (Disk.last_of_ancestor_zero n _)
  | succ depth =>
    have there := List.getElem?_eq_getElem (Nat.lt_of_succ_le within)
    rw [NormalPath.ancestor_succ there] at located
    obtain ⟨rfl, leads⟩ := Disk.Leads.of_located located
    have frontier : disk.Frontier n depth here :=
      ⟨Nat.le_of_succ_le within, leads.pathname, leads.directory, fun name same => by
        obtain rfl := Option.some.inj (there.symm.trans same)
        exact vacant.absent⟩
    exact ⟨.next frontier there _ (.same _), _, (frontier.deeper there _).leads⟩

theorem present_of_eexist {name : Name} (failed : disk.makeDirectory (n.child name).render mode = .error eexist) :
    disk.Present (n.child name).render := by
  rw [Disk.makeDirectory_child, Disk.mkdir, Disk.createNew] at failed
  split at failed
  next errno located =>
    obtain rfl := Except.error.inj failed
    exact absurd located (disk.locate_ne_eexist _)
  next here name located =>
    split at failed
    next node found => exact ⟨here, name, located, by simp [found]⟩
    next => cases failed

theorem parentPath_top (empty : n.segments = []) (name : Name) :
    parentPath (n.child name).render = if n.absolute then [] else (n.child name).render := by
  have alone : (n.child name).segments = [name.1] := by
    have before : n.names = [] ∧ n.ups = 0 := by simpa [NormalPath.segments, and_comm] using empty
    simp [NormalPath.segments, NormalPath.child, before]
  have plain := name.2.no_slash
  rw [NormalPath.render, alone, show (n.child name).absolute = n.absolute from rfl]
  cases n.absolute with
  | true =>
    have shape : joinSegments true [name.1] = [] ++ slash :: name.1 := by simp [joinSegments_cons]
    rw [shape, parentPath_slash _ plain, if_pos rfl]
  | false =>
    have shape : joinSegments false [name.1] = name.1 := by simp [joinSegments_cons]
    rw [shape, parentPath, if_neg (by simpa using plain)]
    simp

theorem makeDirectory_top {here : Nat} (leads : disk.Leads (n.ancestor 0) here) :
    disk.makeDirectory (n.ancestor 0).render mode = .error eexist := by
  have whole : (n.ancestor 0).ancestor 0 = n.ancestor 0 := NormalPath.ancestor_all (by simp [NormalPath.ancestor])
  have frontier : disk.Frontier (n.ancestor 0) 0 here :=
    ⟨Nat.zero_le _, whole.symm ▸ leads.pathname, leads.directory,
      fun name there => by simp [NormalPath.ancestor] at there⟩
  exact whole ▸ frontier.makeDirectory_there mode le_rfl

section Calls

variable {volume between final : Volume} {outcome : Except Nat Unit} {fuel errno : Nat}

theorem lost_nameless {path : Bytes} (volume : Volume)
    (nameless : ∀ name, (steps (cString path)).getLast? ≠ some (.down name)) : volume.lost path = false := by
  unfold Volume.lost
  split
  next here name located => exact absurd (Disk.locate_last located) (nameless _)
  next => rfl

theorem lost_top (volume : Volume) (n : NormalPath) : volume.lost (n.ancestor 0).render = false :=
  lost_nameless volume fun name => Disk.last_of_ancestor_zero n name

theorem mkdir_top (turn : volume.Turn mode (n.ancestor 0).render (.error errno) between) : errno ≠ enoent := by
  obtain ⟨here, leads⟩ := volume.leads_base n
  obtain ⟨-, ⟨refusal, -, rfl⟩ | ⟨-, ⟨gone, -⟩ | ⟨-, failed⟩⟩⟩ := turn.unmade errno rfl
  next => exact refusal.2.2
  next => simp [lost_top] at gone
  next =>
    rw [makeDirectory_top leads] at failed
    exact Except.error.inj failed ▸ by decide

theorem mkdir_nothing (turn : volume.Turn mode [] outcome between) :
    ∃ errno, outcome = .error errno ∧ errno ≠ eexist := by
  have nowhere : volume.disk.makeDirectory [] mode = .error enoent := by
    simp [Disk.makeDirectory, cString, steps, classify, FileSystem.pathname]
  cases outcome with
  | ok =>
    have made := (turn.made rfl).2
    rw [nowhere] at made
    cases made
  | error errno =>
    refine ⟨errno, rfl, ?_⟩
    obtain ⟨-, ⟨refusal, -, rfl⟩ | ⟨-, ⟨-, rfl⟩ | ⟨-, failed⟩⟩⟩ := turn.unmade errno rfl
    next => exact refusal.2.1
    next => decide
    next =>
      rw [nowhere] at failed
      exact Except.error.inj failed ▸ by decide

structure Reported (n : NormalPath) (level : Nat) (volume : Volume) (outcome : Except Nat Unit)
    (after : Volume) : Prop where
  removed : after.removed = volume.removed
  grows : Grows n volume.disk after.disk
  settled : outcome = .ok () → (∃ here, after.disk.Leads (n.ancestor level) here) ∨
    after.disk = volume.disk ∧ volume.refusals 0 = none ∧ volume.disk.Present (n.ancestor level).render

theorem createDirectoriesInPath_cases {path : Bytes}
    (run : createDirectoriesInPath mode (fuel + 1) path volume = some (outcome, final)) :
    ∃ answer between, volume.Turn mode path answer between ∧
      ((answer = .ok () ∨ answer = .error eexist) ∧ outcome = .ok () ∧ final = between ∨
        (∃ errno, errno ≠ eexist ∧ errno ≠ enoent ∧ answer = .error errno ∧ outcome = .error errno ∧ final = between) ∨
        answer = .error enoent ∧ ∃ above further,
          createDirectoriesInPath mode fuel (parentPath path) between = some (above, further) ∧
            ((∃ errno, above = .error errno ∧ outcome = .error errno ∧ final = further) ∨
              above = .ok () ∧ further.Turn mode path outcome final)) := by
  have turn := Volume.mkdir_turn mode path volume
  rw [createDirectoriesInPath] at run
  cases shape : volume.mkdir mode path with
  | mk answer between =>
    simp only [shape] at run turn
    refine ⟨answer, between, turn, ?_⟩
    cases answer with
    | ok =>
      obtain ⟨rfl, rfl⟩ := Prod.mk.inj (Option.some.inj run)
      exact .inl ⟨.inl rfl, rfl, rfl⟩
    | error errno =>
      simp only at run
      split_ifs at run with there missing
      next =>
        obtain ⟨rfl, rfl⟩ := Prod.mk.inj (Option.some.inj run)
        exact .inl ⟨.inr (congrArg _ there), rfl, rfl⟩
      next =>
        obtain ⟨rfl, rfl⟩ := Prod.mk.inj (Option.some.inj run)
        exact .inr (.inl ⟨errno, there, missing, rfl, rfl, rfl⟩)
      next =>
        obtain rfl : errno = enoent := not_not.mp missing
        refine .inr (.inr ⟨rfl, ?_⟩)
        split at run
        next => cases run
        next other further above =>
          obtain ⟨rfl, rfl⟩ := Prod.mk.inj (Option.some.inj run)
          exact ⟨_, further, above, .inl ⟨other, rfl, rfl, rfl⟩⟩
        next further above =>
          refine ⟨_, further, above, .inr ⟨rfl, ?_⟩⟩
          have again := Volume.mkdir_turn mode path further
          rwa [Option.some.inj run] at again

theorem createDirectoriesInPath_nothing (run : createDirectoriesInPath mode fuel [] volume = some (outcome, final)) :
    final.disk = volume.disk ∧ final.removed = volume.removed ∧ ∃ errno, outcome = .error errno := by
  induction fuel generalizing volume outcome final with
  | zero => cases run
  | succ fuel ih =>
    obtain ⟨answer, between, turn, others⟩ := createDirectoriesInPath_cases run
    obtain ⟨errno, rfl, distinct⟩ := mkdir_nothing turn
    have unmade := (turn.unmade errno rfl).1
    obtain ⟨made | there, -⟩ | ⟨other, -, -, -, rfl, rfl⟩ | ⟨-, above, further, run, rest⟩ := others
    next => cases made
    next => exact absurd (Except.error.inj there) distinct
    next => exact ⟨unmade, turn.removed, other, rfl⟩
    next =>
      obtain ⟨same, removed, other, rfl⟩ := ih run
      obtain ⟨other', -, rfl, rfl⟩ | ⟨made, -⟩ := rest
      next => exact ⟨same.trans unmade, removed.trans turn.removed, other', rfl⟩
      next => cases made

theorem Reported.failed {level : Nat} (removed : final.removed = volume.removed) (same : final.disk = volume.disk) :
    Reported n level volume (.error errno) final :=
  ⟨removed, same ▸ .same _, nofun⟩

theorem Reported.of_turn {level : Nat} (within : level ≤ n.names.length)
    (turn : volume.Turn mode (n.ancestor level).render outcome final) : Reported n level volume outcome final := by
  cases outcome with
  | ok =>
    obtain ⟨grows, leads⟩ := makeDirectory_grows within (turn.made rfl).2
    exact ⟨turn.removed, grows, fun _ => .inl leads⟩
  | error errno => exact .failed turn.removed (turn.unmade errno rfl).1

theorem Reported.of_eexist {level : Nat} (within : level ≤ n.names.length)
    (turn : volume.Turn mode (n.ancestor level).render (.error eexist) final) :
    Reported n level volume (.ok ()) final := by
  obtain ⟨same, ⟨refusal, -, thrown⟩ | ⟨granted, ⟨-, thrown⟩ | ⟨-, failed⟩⟩⟩ := turn.unmade _ rfl
  next => exact absurd thrown.symm refusal.2.1
  next => cases thrown
  next =>
    refine ⟨turn.removed, same ▸ .same _, fun _ => ?_⟩
    cases level with
    | zero =>
      rw [same]
      exact .inl (volume.leads_base n)
    | succ depth =>
      rw [NormalPath.ancestor_succ (List.getElem?_eq_getElem (Nat.lt_of_succ_le within))] at failed ⊢
      exact .inr ⟨same, granted, present_of_eexist failed⟩

theorem createDirectoriesInPath_reported {level : Nat} (within : level ≤ n.names.length)
    (run : createDirectoriesInPath mode fuel (n.ancestor level).render volume = some (outcome, final)) :
    Reported n level volume outcome final := by
  induction fuel generalizing level volume outcome final with
  | zero => cases run
  | succ fuel ih =>
    obtain ⟨answer, between, turn, others⟩ := createDirectoriesInPath_cases run
    obtain ⟨rfl | rfl, rfl, rfl⟩ | ⟨errno, -, -, rfl, rfl, rfl⟩ | ⟨rfl, above, further, run, rest⟩ := others
    next => exact .of_turn within turn
    next => exact .of_eexist within turn
    next => exact .of_turn within turn
    next =>
      have unmade := (turn.unmade _ rfl).1
      -- The parent of a path without a slash is the path itself, the parent of what is in the root is no path at all.
      have parent : Grows n between.disk further.disk ∧ further.removed = between.removed := by
        cases level with
        | zero => exact absurd rfl (mkdir_top turn)
        | succ depth =>
          have inside := List.getElem?_eq_getElem (Nat.lt_of_succ_le within)
          rw [NormalPath.ancestor_succ inside] at run
          by_cases empty : (n.ancestor depth).segments = []
          next =>
            rw [parentPath_top empty] at run
            split_ifs at run
            next =>
              obtain ⟨same, removed, -⟩ := createDirectoriesInPath_nothing run
              exact ⟨same ▸ .same _, removed⟩
            next =>
              rw [← NormalPath.ancestor_succ inside] at run
              have reported := ih within run
              exact ⟨reported.grows, reported.removed⟩
          next =>
            rw [parentPath_child empty] at run
            have reported := ih (Nat.le_of_succ_le within) run
            exact ⟨reported.grows, reported.removed⟩
      obtain ⟨grows, removed⟩ := parent
      rw [unmade] at grows
      obtain ⟨errno, -, rfl, rfl⟩ | ⟨-, second⟩ := rest
      next => exact ⟨removed.trans turn.removed, grows, nofun⟩
      next =>
        have reported := Reported.of_turn within second
        refine ⟨?_, grows.trans reported.grows, fun returned => ?_⟩
        next => rw [reported.removed, removed, turn.removed]
        next =>
          subst returned
          exact .inl (makeDirectory_grows within (second.made rfl).2).2

structure Undisturbed (volume : Volume) : Prop where
  kept : ∀ node, volume.removed node = false
  granted : ∀ call, volume.refusals call = none

theorem Undisturbed.turn {path : Bytes} (undisturbed : Undisturbed volume)
    (turn : volume.Turn mode path outcome final) :
    Undisturbed final ∧ volume.disk.makeDirectory path mode = outcome.map fun _ => final.disk := by
  refine ⟨⟨fun node => turn.removed ▸ undisturbed.kept node, fun call => ?_⟩, ?_⟩
  next =>
    rw [turn.refusals]
    exact undisturbed.granted (call + 1)
  next =>
    cases outcome with
    | ok => exact (turn.made rfl).2
    | error errno =>
      obtain ⟨-, ⟨refusal, refused, -⟩ | ⟨-, ⟨lost, -⟩ | ⟨-, failed⟩⟩⟩ := turn.unmade _ rfl
      next => simp [undisturbed.granted] at refused
      next =>
        unfold Volume.lost at lost
        split at lost
        next => simp [undisturbed.kept] at lost
        next => cases lost
      next => exact failed

def Goes (mode : Nat) (s s' : Disk × Call) : Prop := s.2.step mode s.1 = some s'

def back (below : List Bytes) : Except Nat Unit → Call
  | .ok () => .second below
  | .error errno => .thrown errno

theorem createDirectoriesInPath_steps {path : Bytes} (undisturbed : Undisturbed volume)
    (run : createDirectoriesInPath mode fuel path volume = some (outcome, final)) (below : List Bytes) :
    Undisturbed final ∧ Relation.ReflTransGen (Goes mode) (volume.disk, .first path below)
      (final.disk, back below outcome) := by
  induction fuel generalizing path volume outcome final below with
  | zero => cases run
  | succ fuel ih =>
    obtain ⟨answer, between, turn, others⟩ := createDirectoriesInPath_cases run
    obtain ⟨later, made⟩ := undisturbed.turn turn
    obtain ⟨rfl | rfl, rfl, rfl⟩ | ⟨errno, there, missing, rfl, rfl, rfl⟩ | ⟨rfl, above, further, run, rest⟩ := others
    next => exact ⟨later, .single (by simp [Goes, Call.step, made, Except.map, back])⟩
    next =>
      rw [(turn.unmade _ rfl).1]
      exact ⟨later, .single (by simp [Goes, Call.step, made, Except.map, back])⟩
    next =>
      rw [(turn.unmade _ rfl).1]
      exact ⟨later, .single (by simp [Goes, Call.step, made, Except.map, there, missing, back])⟩
    next =>
      obtain ⟨calm, upwards⟩ := ih later run (path :: below)
      have first : Goes mode (volume.disk, .first path below)
        (between.disk, .first (parentPath path) (path :: below)) := by
        have different : enoent ≠ eexist := by decide
        simp [Goes, Call.step, made, Except.map, different, (turn.unmade _ rfl).1]
      have parent := upwards.head first
      obtain ⟨errno, rfl, rfl, rfl⟩ | ⟨rfl, second⟩ := rest
      next => exact ⟨calm, parent⟩
      next =>
        obtain ⟨last, made⟩ := calm.turn second
        refine ⟨last, parent.tail ?_⟩
        cases outcome with
        | ok => simp [Goes, Call.step, made, Except.map, back]
        | error errno => simp [Goes, Call.step, made, Except.map, back, (second.unmade _ rfl).1]

theorem createDirectoriesInPath_some {path : Bytes}
    (parent : (volume.mkdir mode path).1 = .error enoent →
      ∃ result, createDirectoriesInPath mode fuel (parentPath path) (volume.mkdir mode path).2 = some result) :
    ∃ result, createDirectoriesInPath mode (fuel + 1) path volume = some result := by
  rw [createDirectoriesInPath]
  cases shape : volume.mkdir mode path with
  | mk answer between =>
    simp only [shape] at parent ⊢
    cases answer with
    | ok => exact ⟨_, rfl⟩
    | error errno =>
      simp only
      split_ifs with there missing
      next => exact ⟨_, rfl⟩
      next => exact ⟨_, rfl⟩
      next =>
        obtain ⟨⟨above, further⟩, run⟩ := parent (congrArg _ (not_not.mp missing))
        rw [run]
        cases above with
        | ok => exact ⟨_, rfl⟩
        | error => exact ⟨_, rfl⟩

theorem terminates_of_refused (mode : Nat) {call : Nat} (refused : volume.refusals call ≠ none) (path : Bytes) :
    ∃ result, createDirectoriesInPath mode (call + 1) path volume = some result := by
  induction call generalizing volume path with
  | zero =>
    refine createDirectoriesInPath_some fun missing => ?_
    obtain ⟨refusal, denied⟩ := Option.ne_none_iff_exists'.mp refused
    simp only [Volume.mkdir, denied] at missing
    exact absurd (Except.error.inj missing) refusal.2.2
  | succ call ih =>
    refine createDirectoriesInPath_some fun _ => ih ?_ _
    rwa [(Volume.mkdir_turn mode path volume).refusals]

theorem leads_start (volume : Volume) (level_ground : n.ups = 0) :
    volume.disk.Leads (n.ancestor 0) (volume.disk.start n.render) := by
  refine ⟨⟨[], ?_, Nat.zero_le _, nofun⟩, ?_⟩
  next =>
    rw [Disk.start_ancestor]
    simpa [NormalPath.ancestor, NormalPath.displacement, Displacement.steps, level_ground] using .here _
  next =>
    unfold Disk.start
    split
    next => exact volume.root
    next => exact volume.current

theorem lost_child {here : Nat} (leads : volume.disk.Leads n here) (name : Name) :
    volume.lost (n.child name).render = volume.removed here :=
  Volume.lost_locate (leads.locate name)

theorem names_of_empty {depth : Nat} (empty : (n.ancestor depth).segments = []) (inside : depth < n.names.length) :
    depth = 0 ∧ n.ups = 0 := by
  have count := congrArg List.length empty
  simp only [NormalPath.segments, NormalPath.ancestor, List.length_append, List.length_replicate, List.length_take,
    List.length_nil] at count
  omega

theorem mkdir_first {here : Nat} (leads : volume.disk.Leads n here) (kept : volume.removed here = false) (name : Name)
    (turn : volume.Turn mode (n.child name).render (.error enoent) between) : False := by
  obtain ⟨-, ⟨refusal, -, missing⟩ | ⟨-, ⟨gone, -⟩ | ⟨-, failed⟩⟩⟩ := turn.unmade _ rfl
  next => exact refusal.2.2 missing.symm
  next => simp [lost_child leads, kept] at gone
  next =>
    rw [Disk.makeDirectory_child, Disk.mkdir, Disk.createNew, leads.locate] at failed
    cases found : volume.disk.find here name.1 with
    | none => simp [found] at failed
    | some node => simp [found, eexist, enoent] at failed

def Astray (n : NormalPath) (volume : Volume) : Prop :=
  n.names ≠ [] ∧ n.ups = 0 ∧ volume.removed (volume.disk.start n.render) = true

theorem terminates_of_kept {level : Nat} (within : level ≤ n.names.length) (kept : ¬Astray n volume)
    (enough : level < fuel) :
    ∃ result, createDirectoriesInPath mode fuel (n.ancestor level).render volume = some result := by
  obtain ⟨fuel, rfl⟩ := Nat.exists_eq_succ_of_ne_zero (Nat.ne_zero_of_lt enough)
  induction level generalizing volume fuel with
  | zero =>
    refine createDirectoriesInPath_some fun missing => ?_
    have turn := Volume.mkdir_turn mode (n.ancestor 0).render volume
    rw [missing] at turn
    exact absurd rfl (mkdir_top turn)
  | succ depth ih =>
    have inside := List.getElem?_eq_getElem (Nat.lt_of_succ_le within)
    rw [NormalPath.ancestor_succ inside]
    refine createDirectoriesInPath_some fun missing => ?_
    have turn := Volume.mkdir_turn mode ((n.ancestor depth).child ⟨_, NormalPath.isName_of_get inside⟩).render volume
    rw [missing] at turn
    by_cases empty : (n.ancestor depth).segments = []
    next =>
      obtain ⟨rfl, level_ground⟩ := names_of_empty empty (Nat.lt_of_succ_le within)
      have there : volume.removed (volume.disk.start n.render) = false := by
        rw [← Bool.not_eq_true]
        exact fun gone => kept ⟨List.ne_nil_of_length_pos within, level_ground, gone⟩
      exact (mkdir_first (leads_start volume level_ground) there _ turn).elim
    next =>
      obtain ⟨fuel, rfl⟩ := Nat.exists_eq_succ_of_ne_zero (show fuel ≠ 0 by omega)
      rw [parentPath_child empty]
      apply ih (Nat.le_of_succ_le within)
      next => rwa [Astray, (turn.unmade _ rfl).1, turn.removed]
      next => omega

section Unobstructed

variable {depth level here : Nat}

theorem leads_unique {there : Nat} (leads : disk.Leads n here) (also : disk.Leads n there) : there = here :=
  Except.ok.inj (also.pathname.symm.trans leads.pathname)

theorem Frontier.not_lost (frontier : volume.disk.Frontier n depth here) (kept : volume.removed here = false)
    (within : level ≤ depth + 1) (inside : level ≤ n.names.length) : volume.lost (n.ancestor level).render = false := by
  cases level with
  | zero => exact lost_top volume n
  | succ upper =>
    have there := List.getElem?_eq_getElem (Nat.lt_of_succ_le inside)
    rw [NormalPath.ancestor_succ there]
    rcases Nat.lt_or_eq_of_le (Nat.le_of_succ_le_succ within) with higher | rfl
    next =>
      obtain ⟨middle, node, leads, found⟩ := frontier.above higher there
      rw [lost_child leads, ← Bool.not_eq_true]
      intro gone
      simp [volume.empty middle gone] at found
    next => rw [lost_child frontier.leads, kept]

theorem Frontier.turn (frontier : volume.disk.Frontier n depth here) (kept : volume.removed here = false)
    (granted : ∀ call, volume.refusals call = none) (inside : level ≤ n.names.length)
    (turn : volume.Turn mode (n.ancestor level).render outcome final) :
    level ≤ depth ∧ outcome = .error eexist ∨
      (level = depth + 1 ∧ outcome = .ok () ∧ ∃ found, final.disk.Frontier n level found ∧
        final.removed found = false) ∨
      depth + 1 < level ∧ outcome = .error enoent := by
  rcases Nat.lt_trichotomy level (depth + 1) with above | rfl | beyond
  next =>
    have made := frontier.makeDirectory_there mode (Nat.le_of_lt_succ above)
    have found := Frontier.not_lost frontier kept above.le inside
    refine .inl ⟨Nat.le_of_lt_succ above, ?_⟩
    cases outcome with
    | ok =>
      have created := (turn.made rfl).2
      simp [made] at created
    | error errno =>
      obtain ⟨-, ⟨refusal, refused, -⟩ | ⟨-, ⟨lost, -⟩ | ⟨-, failed⟩⟩⟩ := turn.unmade _ rfl
      next => simp [granted] at refused
      next => simp [found] at lost
      next => rw [← Except.error.inj (made.symm.trans failed)]
  next =>
    have there := List.getElem?_eq_getElem (Nat.lt_of_succ_le inside)
    have made := frontier.makeDirectory_next mode there
    have found := Frontier.not_lost frontier kept le_rfl inside
    refine .inr (.inl ⟨rfl, ?_⟩)
    cases outcome with
    | ok =>
      refine ⟨rfl, volume.disk.next, ?_, ?_⟩
      next =>
        rw [← Except.ok.inj (made.symm.trans (turn.made rfl).2)]
        exact frontier.deeper there _
      next =>
        rw [turn.removed, ← Bool.not_eq_true]
        exact fun gone => (volume.held _ gone).false
    | error errno =>
      obtain ⟨-, ⟨refusal, refused, -⟩ | ⟨-, ⟨lost, -⟩ | ⟨-, failed⟩⟩⟩ := turn.unmade _ rfl
      next => simp [granted] at refused
      next => simp [found] at lost
      next => simp [made] at failed
  next =>
    obtain ⟨upper, rfl⟩ := Nat.exists_eq_succ_of_ne_zero (Nat.ne_zero_of_lt beyond)
    have missing := frontier.makeDirectory_missing mode (Nat.lt_of_succ_lt_succ beyond) inside
    refine .inr (.inr ⟨beyond, ?_⟩)
    cases outcome with
    | ok =>
      have created := (turn.made rfl).2
      simp [missing] at created
    | error errno =>
      obtain ⟨-, ⟨refusal, refused, -⟩ | ⟨-, ⟨-, rfl⟩ | ⟨-, failed⟩⟩⟩ := turn.unmade _ rfl
      next => simp [granted] at refused
      next => rfl
      next => rw [← Except.error.inj (missing.symm.trans failed)]

theorem createDirectoriesInPath_returns (frontier : volume.disk.Frontier n depth here)
    (kept : volume.removed here = false)
    (granted : ∀ call, volume.refusals call = none) (inside : level ≤ n.names.length)
    (run : createDirectoriesInPath mode fuel (n.ancestor level).render volume = some (outcome, final)) :
    outcome = .ok () ∧ (∀ call, final.refusals call = none) ∧
      ∃ found, final.disk.Frontier n (max depth level) found ∧ final.removed found = false := by
  induction fuel generalizing volume level outcome final with
  | zero => cases run
  | succ fuel ih =>
    obtain ⟨answer, between, turn, others⟩ := createDirectoriesInPath_cases run
    have quiet : ∀ call, between.refusals call = none := by simp [turn.refusals, granted]
    obtain ⟨above, rfl⟩ | ⟨rfl, rfl, found, deeper, fresh⟩ | ⟨beyond, rfl⟩ :=
      Frontier.turn frontier kept granted inside turn
    next =>
      have same := (turn.unmade _ rfl).1
      obtain ⟨-, rfl, rfl⟩ | ⟨errno, there, -, failed, -⟩ | ⟨missing, -⟩ := others
      next =>
        refine ⟨rfl, quiet, here, ?_, turn.removed ▸ kept⟩
        rwa [Nat.max_eq_left above, same]
      next => exact absurd (Except.error.inj failed).symm there
      next => cases missing
    next =>
      obtain ⟨-, rfl, rfl⟩ | ⟨errno, -, -, failed, -⟩ | ⟨missing, -⟩ := others
      next =>
        refine ⟨rfl, quiet, found, ?_, fresh⟩
        rwa [Nat.max_eq_right (Nat.le_succ depth)]
      next => cases failed
      next => cases missing
    next =>
      have same := (turn.unmade _ rfl).1
      obtain ⟨made | there, -⟩ | ⟨errno, -, missing, failed, -⟩ | ⟨-, outcome', further, run, rest⟩ := others
      next => cases made
      next => cases there
      next => exact absurd (Except.error.inj failed).symm missing
      next =>
        obtain ⟨upper, rfl⟩ := Nat.exists_eq_succ_of_ne_zero (Nat.ne_zero_of_lt beyond)
        have higher : depth < upper := Nat.lt_of_succ_lt_succ beyond
        rw [Nat.succ_eq_add_one, parentPath_ancestor (Nat.zero_lt_of_lt higher) inside] at run
        obtain ⟨rfl, calm, found, deeper, fresh⟩ :=
          ih (same ▸ frontier) (turn.removed ▸ kept) quiet (Nat.le_of_succ_le inside) run
        rw [Nat.max_eq_right higher.le] at deeper
        obtain ⟨errno, failed, -⟩ | ⟨-, second⟩ := rest
        next => cases failed
        next =>
          obtain ⟨above, -⟩ | ⟨-, rfl, last, deepest, newest⟩ | ⟨below, -⟩ :=
            Frontier.turn deeper fresh calm inside second
          next => omega
          next =>
            refine ⟨rfl, ?_, last, ?_, newest⟩
            next => simp [second.refusals, calm]
            next => rwa [Nat.max_eq_right (higher.le.trans (Nat.le_succ upper))]
          next => omega

end Unobstructed

def Drifting (n : NormalPath) (path : Bytes) : Prop :=
  path = [] ∨ ∃ depth < n.names.length, path = (n.ancestor (depth + 1)).render

theorem Drifting.parent {path : Bytes} (level_ground : n.ups = 0) (drifting : Drifting n path) :
    Drifting n (parentPath path) := by
  obtain rfl | ⟨depth, inside, rfl⟩ := drifting
  next => exact .inl rfl
  next =>
    have there := List.getElem?_eq_getElem inside
    rw [NormalPath.ancestor_succ there]
    by_cases empty : (n.ancestor depth).segments = []
    next =>
      rw [parentPath_top empty]
      split
      next => exact .inl rfl
      next => exact .inr ⟨depth, inside, by rw [NormalPath.ancestor_succ there]⟩
    next =>
      rw [parentPath_child empty]
      cases depth with
      | zero => simp [NormalPath.segments, NormalPath.ancestor, level_ground] at empty
      | succ depth => exact .inr ⟨depth, Nat.lt_of_succ_lt inside, rfl⟩

theorem Drifting.mkdir {path : Bytes} (astray : Astray n volume) (granted : volume.refusals 0 = none)
    (drifting : Drifting n path) : volume.mkdir mode path = (.error enoent, volume.answered) := by
  obtain ⟨-, level_ground, gone⟩ := astray
  obtain rfl | ⟨depth, inside, rfl⟩ := drifting
  next =>
    apply Volume.mkdir_error granted
    next => exact lost_nameless volume fun name => by simp [cString, steps, classify]
    next => simp [Disk.makeDirectory, cString, steps, classify, FileSystem.pathname]
  next =>
    have leads := leads_start volume level_ground
    cases lost : volume.lost (n.ancestor (depth + 1)).render with
    | true => exact Volume.mkdir_lost granted lost
    | false =>
      apply Volume.mkdir_error granted lost
      have frontier : volume.disk.Frontier n 0 (volume.disk.start n.render) :=
        ⟨Nat.zero_le _, leads.pathname, leads.directory, fun name _ => volume.empty _ gone name⟩
      cases depth with
      | zero =>
        rw [NormalPath.ancestor_succ (List.getElem?_eq_getElem inside), lost_child leads, gone] at lost
        cases lost
      | succ depth => exact frontier.makeDirectory_missing mode (Nat.succ_pos depth) inside

theorem diverges {path : Bytes} (fuel : Nat) (astray : Astray n volume) (granted : ∀ call, volume.refusals call = none)
    (drifting : Drifting n path) : createDirectoriesInPath mode fuel path volume = none := by
  induction fuel generalizing volume path with
  | zero => rfl
  | succ fuel ih =>
    have different : enoent ≠ eexist := by decide
    have above : createDirectoriesInPath mode fuel (parentPath path) volume.answered = none :=
      ih astray (fun call => granted (call + 1)) (drifting.parent astray.2.1)
    simp only [createDirectoriesInPath, drifting.mkdir astray (granted 0), different, if_false, ne_eq,
      not_true_eq_false,
      above]

end Calls

structure Created (path : Bytes) (before after : Volume) : Prop where
  directories : ∀ depth ≤ (normalForm path).names.length, ∃ node,
    after.disk.files.pathname true after.disk.files.currentDirectory ((normalForm path).ancestor depth).render =
      .ok node ∧
      after.disk.files.graph.IsDirectory node
  grows : Grows (normalForm path) before.disk after.disk
  removed : after.removed = before.removed

def Fulfilled (mode : Nat) (path : Bytes) (volume : Volume) : Prop := ∃ fuel outcome after,
  FileUtils.createDirectory mode fuel path volume = some (outcome, after) ∧
    (outcome = .ok () → Created path volume after)

def Occupied (path : Bytes) (volume : Volume) : Prop :=
  volume.refusals 0 = none ∧ volume.disk.Present (normalizePath path) ∧
    ¬∃ node, volume.disk.files.pathname true volume.disk.files.currentDirectory (normalizePath path) = .ok node ∧
      volume.disk.files.graph.IsDirectory node

def Adrift (path : Bytes) (volume : Volume) : Prop :=
  Astray (normalForm path) volume ∧ ∀ call, volume.refusals call = none

section Whole

variable {path : Bytes} {volume final : Volume}

theorem ancestor_whole (path : Bytes) :
    ((normalForm path).ancestor (normalForm path).names.length).render = normalizePath path := by
  rw [NormalPath.ancestor_all le_rfl, normalizePath_eq_render]

theorem Created.of_leads {here : Nat} (leads : final.disk.Leads (normalForm path) here)
    (grows : Grows (normalForm path) volume.disk final.disk) (removed : final.removed = volume.removed) :
    Created path volume final := by
  have whole := NormalPath.ancestor_all (le_refl (normalForm path).names.length)
  have frontier : final.disk.Frontier (normalForm path) (normalForm path).names.length here :=
    ⟨le_rfl, whole.symm ▸ leads.pathname, leads.directory, fun name there => by simp at there⟩
  exact ⟨fun depth within => exists_of_frontier frontier within, grows, removed⟩

theorem created_of_run {outcome : Except Nat Unit} {fuel : Nat} (free : ¬Occupied path volume)
    (run : createDirectory mode fuel path volume = some (outcome, final)) (returned : outcome = .ok ()) :
    Created path volume final := by
  rw [createDirectory, ← ancestor_whole] at run
  obtain ⟨removed, grows, settled⟩ := createDirectoriesInPath_reported le_rfl run
  rw [NormalPath.ancestor_all le_rfl, ← normalizePath_eq_render] at settled
  obtain ⟨here, leads⟩ | ⟨same, granted, present⟩ := settled returned
  next => exact .of_leads leads grows removed
  next =>
    obtain ⟨node, reached, directory⟩ := not_not.mp fun missing => free ⟨granted, present, missing⟩
    rw [normalizePath_eq_render, ← same] at reached
    rw [← same] at directory
    exact .of_leads (.of_pathname reached directory) grows removed

theorem fulfilled_of_terminates (free : ¬Occupied path volume)
    (run : ∃ fuel result, createDirectory mode fuel path volume = some result) : Fulfilled mode path volume := by
  obtain ⟨fuel, ⟨outcome, final⟩, run⟩ := run
  exact ⟨fuel, outcome, final, run, created_of_run free run⟩

theorem terminates_of_not_adrift (kept : ¬Adrift path volume) :
    ∃ fuel result, createDirectory mode fuel path volume = some result := by
  by_cases granted : ∀ call, volume.refusals call = none
  next =>
    have run := @terminates_of_kept _ mode volume _ _ le_rfl (fun astray => kept ⟨astray, granted⟩) (Nat.lt_succ_self _)
    rw [ancestor_whole] at run
    exact ⟨_, run⟩
  next =>
    obtain ⟨call, refused⟩ := not_forall.mp granted
    exact ⟨_, terminates_of_refused mode refused _⟩

theorem makeDirectory_present {disk : Disk} (present : disk.Present path) :
    disk.makeDirectory path mode = .error eexist := by
  obtain ⟨here, name, located, found⟩ := present
  obtain ⟨node, found⟩ := Option.ne_none_iff_exists'.mp found
  simp only [Disk.makeDirectory, Disk.locate_last located, Disk.mkdir, Disk.createNew, located, found]

theorem mkdir_present (granted : volume.refusals 0 = none) (present : volume.disk.Present path) :
    volume.mkdir mode path = (.error eexist, volume.answered) := by
  apply Volume.mkdir_error granted _ (makeDirectory_present present)
  obtain ⟨here, name, located, found⟩ := present
  rw [Volume.lost_locate located, ← Bool.not_eq_true]
  exact fun gone => found (volume.empty here gone name.1)

theorem free_of_frontier {depth here : Nat} (frontier : volume.disk.Frontier (normalForm path) depth here) :
    ¬Occupied path volume := by
  rintro ⟨-, present, missing⟩
  have failed : volume.disk.makeDirectory (normalizePath path) 0 = .error eexist := makeDirectory_present present
  rw [← ancestor_whole] at failed missing
  obtain ⟨above, -⟩ | ⟨-, made, -, -, -, made'⟩ | ⟨-, failed'⟩ := makeDirectory_cases 0 frontier le_rfl
  next => exact missing (exists_of_frontier frontier above)
  next =>
    rw [failed] at made'
    cases made'
  next =>
    rw [failed] at failed'
    cases failed'

theorem not_fulfilled_of_occupied (occupied : Occupied path volume) : ¬Fulfilled mode path volume := by
  rintro ⟨fuel, outcome, final, run, created⟩
  obtain ⟨granted, present, missing⟩ := occupied
  cases fuel with
  | zero => cases run
  | succ fuel =>
    rw [createDirectory, createDirectoriesInPath, mkdir_present granted present] at run
    obtain ⟨rfl, rfl⟩ := Prod.mk.inj (Option.some.inj run)
    obtain ⟨node, reached, directory⟩ := (created rfl).directories _ le_rfl
    rw [ancestor_whole] at reached
    exact missing ⟨node, reached, directory⟩

theorem not_fulfilled_of_adrift (adrift : Adrift path volume) : ¬Fulfilled mode path volume := by
  rintro ⟨fuel, outcome, final, run, -⟩
  obtain ⟨astray, granted⟩ := adrift
  have count := List.length_pos_of_ne_nil astray.1
  have drifting : Drifting (normalForm path) (normalizePath path) :=
    .inr ⟨_, Nat.sub_lt count Nat.one_pos, by rw [Nat.sub_add_cancel count, ancestor_whole]⟩
  rw [createDirectory, diverges fuel astray granted drifting] at run
  cases run

theorem createDirectory_fulfilled_iff (mode : Nat) (path : Bytes) (volume : Volume) :
    Fulfilled mode path volume ↔ ¬Occupied path volume ∧ ¬Adrift path volume := by
  constructor
  next =>
    exact fun fulfilled => ⟨fun occupied => not_fulfilled_of_occupied occupied fulfilled,
      fun adrift => not_fulfilled_of_adrift adrift fulfilled⟩
  next => exact fun ⟨free, kept⟩ => fulfilled_of_terminates free (terminates_of_not_adrift kept)

end Whole

section Samples

theorem bareDisk_isDirectory (node : Nat) : bareDisk.files.graph.IsDirectory node := ⟨0, [], rfl⟩

def sampleName : Name := ⟨text "f", by constructor <;> decide⟩

theorem bareDisk_vacant : bareDisk.Vacant 0 sampleName := ⟨bareDisk_isDirectory 0, by decide, rfl⟩

def fileVolume : Volume where
  disk := bareDisk.create 0 sampleName (.regular [] 0o644)
  removed := fun _ => false
  refusals := fun _ => none
  root := bareDisk_vacant.isDirectory _ (by decide) (bareDisk_isDirectory 0)
  current := bareDisk_vacant.isDirectory _ (by decide) (bareDisk_isDirectory 0)
  parents := bareDisk_vacant.parents _ fun _ _ _ _ _ _ _ => bareDisk_isDirectory _
  held := nofun
  empty := nofun
  named := fun _ _ _ _ => rfl

def orphanVolume : Volume where
  disk :=
    { bareDisk with
      files := { bareDisk.files with currentDirectory := 1 }
      next := 2
      bounded := fun _ _ _ _ _ kind => by
        obtain ⟨rfl, rfl, rfl, rfl⟩ := FileObject.directory.inj kind
        simp
      root_used := by decide
      current_used := by decide }
  removed := fun node => node = 1
  refusals := fun _ => none
  root := ⟨0, [], rfl⟩
  current := ⟨0, [], rfl⟩
  parents := fun _ _ _ _ _ _ _ => ⟨0, [], rfl⟩
  held := fun node gone => by
    obtain rfl : node = 1 := by simpa using gone
    decide
  empty := fun _ _ _ => rfl
  named := nofun

theorem createDirectory_unfulfilled :
    ¬Fulfilled 0o777 (text "/f") fileVolume ∧ ¬Fulfilled 0o777 (text "x") orphanVolume := by
  refine ⟨not_fulfilled_of_occupied ⟨rfl, ⟨0, sampleName, by rfl, by decide⟩, ?_⟩,
    not_fulfilled_of_adrift ⟨?_, fun _ => rfl⟩⟩
  next =>
    rintro ⟨node, reached, directory⟩
    obtain rfl : (1 : Nat) = node := Except.ok.inj (Eq.trans (by rfl) reached)
    obtain ⟨parent, entries, permissions, mtime, kind⟩ := (FileSystem.isDirectory_iff _).mp directory
    cases kind
  next => exact ⟨by decide, by decide, by decide⟩

end Samples

end CreateDirectory

end BuildboxCommon
