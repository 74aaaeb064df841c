import BuildboxCommon.FileUtils.Frontier
import BuildboxCommon.Shared.Transitions

set_option autoImplicit false

namespace BuildboxCommon.CreateDirectory

open ByteString FileUtils LexicalPath Posix Transitions

def parentPath (path : Bytes) : Bytes :=
  if path.contains slash then (path.rdropWhile (· ≠ slash)).dropLast else path

inductive Call where
  -- About to call `createDirectoriesInPath`. The paths below wait for their second `mkdir`, the innermost call first.
  | first (path : Bytes) (below : List Bytes)
  | second (below : List Bytes)
  | thrown (errno : Nat)
deriving DecidableEq

namespace Call

def createDirectory (path : Bytes) : Call := .first (normalizePath path) []

def returned : Call → Bool
  | .second [] => true
  | _ => false

def threw : Call → Bool
  | .thrown _ => true
  | _ => false

def step (mode : Nat) (disk : Disk) : Call → Option (Disk × Call)
  | .first path below =>
    match disk.makeDirectory path mode with
    | .ok disk => some (disk, .second below)
    | .error errno =>
      if errno = eexist then some (disk, .second below)
      else if errno ≠ enoent then some (disk, .thrown errno)
      else some (disk, .first (parentPath path) (path :: below))
  | .second (path :: below) =>
    match disk.makeDirectory path mode with
    | .ok disk => some (disk, .second below)
    | .error errno => some (disk, .thrown errno)
  | .second [] | .thrown _ => none

def clear (disk : Disk) : Call → Bool
  | .second (path :: _) => (disk.files.pathname true disk.files.currentDirectory path).toOption.isNone
  | .first _ _ | .second [] | .thrown _ => true

end Call

structure State (κ : Type) where
  disk : Disk
  calls : κ → Call

section Threads

variable {κ : Type} [DecidableEq κ]

def create (disk : Disk) (path : κ → Bytes) : State κ := ⟨disk, fun thread => .createDirectory (path thread)⟩

def step (mode : κ → Nat) (thread : κ) (s : State κ) : Option (State κ) :=
  ((s.calls thread).step (mode thread) s.disk).map fun (disk, call) => ⟨disk, Function.update s.calls thread call⟩

end Threads

def waiting (n : NormalPath) (level : Nat) : List Bytes :=
  (List.range' (level + 1) (n.names.length - level)).map fun depth => (n.ancestor depth).render

def Placed (n : NormalPath) (depth : Nat) : Call → Prop
  | .first path below => ∃ level, (level = 0 → n.names = []) ∧ level ≤ n.names.length ∧
      path = (n.ancestor level).render ∧ below = waiting n level
  | .second below => ∃ level, level ≤ depth ∧ below = waiting n level
  | .thrown errno => errno = eexist

variable {disk after : Disk} {n : NormalPath} {depth level here mode : Nat} {call call' : Call}

theorem waiting_all (whole : n.names.length ≤ level) : waiting n level = [] := by
  simp [waiting, Nat.sub_eq_zero_of_le whole]

theorem waiting_cons (inside : level < n.names.length) :
    waiting n level = (n.ancestor (level + 1)).render :: waiting n (level + 1) := by
  have count : n.names.length - level = n.names.length - (level + 1) + 1 := by omega
  rw [waiting, count, List.range'_succ, List.map_cons]
  rfl

theorem waiting_length (n : NormalPath) (level : Nat) : (waiting n level).length = n.names.length - level := by
  simp [waiting]

theorem parentPath_slash (first : Bytes) {last : Bytes} (plain : slash ∉ last) :
    parentPath (first ++ slash :: last) = first := by
  rw [parentPath, rdropWhile_slash _ plain]
  simp

theorem parentPath_child (present : n.segments ≠ []) (name : Name) : parentPath (n.child name).render = n.render := by
  rw [NormalPath.render_child present, parentPath_slash _ name.2.no_slash]

theorem parentPath_ancestor (positive : 0 < level) (inside : level < n.names.length) :
    parentPath (n.ancestor (level + 1)).render = (n.ancestor level).render := by
  have present : (n.ancestor level).segments ≠ [] := by
    intro empty
    have count := congrArg List.length empty
    simp only [NormalPath.segments, NormalPath.ancestor, List.length_append, List.length_take, List.length_nil] at count
    omega
  rw [NormalPath.ancestor_succ (List.getElem?_eq_getElem inside), parentPath_child present]

theorem createDirectory_placed (path : Bytes) (depth : Nat) :
    Placed (normalForm path) depth (.createDirectory path) := by
  refine ⟨(normalForm path).names.length, List.length_eq_zero_iff.mp, le_rfl, ?_, (waiting_all le_rfl).symm⟩
  rw [NormalPath.ancestor_all le_rfl, normalizePath_eq_render]

theorem Placed.mono {further : Nat} (placed : Placed n depth call) (more : depth ≤ further) :
    Placed n further call := by
  cases call with
  | first path below => exact placed
  | second below =>
    obtain ⟨level, reached, below⟩ := placed
    exact ⟨level, reached.trans more, below⟩
  | thrown errno => exact placed

def Grown (disk after : Disk) : Prop :=
  after = disk ∨ ∃ there name permissions, disk.Vacant there name ∧
    after = disk.create there name (.directory permissions)

theorem makeDirectory_cases (mode : Nat) (frontier : disk.Frontier n depth here) (within : level ≤ n.names.length) :
    level ≤ depth ∧ disk.makeDirectory (n.ancestor level).render mode = .error eexist ∨
    (level = depth + 1 ∧ ∃ after found, Grown disk after ∧ after.Frontier n level found ∧
      disk.makeDirectory (n.ancestor level).render mode = .ok after) ∨
    depth + 1 < level ∧ disk.makeDirectory (n.ancestor level).render mode = .error enoent := by
  rcases Nat.lt_trichotomy level (depth + 1) with above | rfl | beyond
  next => exact .inl ⟨Nat.le_of_lt_succ above, frontier.makeDirectory_there mode (Nat.le_of_lt_succ above)⟩
  next =>
    have there := List.getElem?_eq_getElem (Nat.lt_of_succ_le within)
    have grown : Grown disk _ := .inr ⟨_, _, disk.masked mode, frontier.vacant there, rfl⟩
    exact .inr (.inl ⟨rfl, _, _, grown, frontier.deeper there _, frontier.makeDirectory_next mode there⟩)
  next =>
    obtain ⟨upper, rfl⟩ := Nat.exists_eq_succ_of_ne_zero (Nat.ne_zero_of_lt beyond)
    exact .inr (.inr ⟨beyond, frontier.makeDirectory_missing mode (Nat.lt_of_succ_lt_succ beyond) within⟩)

def Located (disk : Disk) (n : NormalPath) (call : Call) : Prop :=
  ∃ depth here, disk.Frontier n depth here ∧ Placed n depth call

theorem Located.grown (located : Located disk n call) (grown : Grown disk after) : Located after n call := by
  obtain ⟨depth, here, frontier, placed⟩ := located
  rcases grown with rfl | ⟨there, name, permissions, vacant, rfl⟩
  next => exact ⟨depth, here, frontier, placed⟩
  next =>
    obtain ⟨further, found, more, onwards⟩ := vacant.frontier permissions frontier
    exact ⟨further, found, onwards, placed.mono more⟩

def Call.budget (n : NormalPath) : Call → Nat
  | .first _ below => 2 * n.names.length + 1 - below.length
  | .second below => below.length
  | .thrown _ => 0

theorem exists_of_frontier (frontier : disk.Frontier n depth here) (within : level ≤ depth) :
    ∃ node, disk.files.pathname true disk.files.currentDirectory (n.ancestor level).render = .ok node ∧
      disk.files.graph.IsDirectory node := by
  obtain ⟨node, leads⟩ := frontier.leads_above within
  exact ⟨node, leads.pathname, leads.directory⟩

structure Turn (n : NormalPath) (disk : Disk) (call : Call) (after : Disk) (call' : Call) : Prop where
  grown : Grown disk after
  located : Located after n call'
  threw : call'.threw = !call.clear disk
  budget : call'.budget n < call.budget n

theorem step_first (frontier : disk.Frontier n depth here) (based : level = 0 → n.names = [])
    (within : level ≤ n.names.length)
    (taken : (Call.first (n.ancestor level).render (waiting n level)).step mode disk = some (after, call')) :
    Turn n disk (.first (n.ancestor level).render (waiting n level)) after call' := by
  have spent : (Call.second (waiting n level)).budget n <
    (Call.first (n.ancestor level).render (waiting n level)).budget n := by
    simp only [Call.budget, waiting_length]
    omega
  simp only [Call.step] at taken
  obtain ⟨above, made⟩ | ⟨rfl, made, found, grown, deeper, created⟩ | ⟨beyond, missing⟩ :=
    makeDirectory_cases mode frontier within
  next =>
    simp only [made, if_true, Option.some.injEq, Prod.mk.injEq] at taken
    obtain ⟨rfl, rfl⟩ := taken
    exact ⟨.inl rfl, ⟨depth, here, frontier, level, above, rfl⟩, rfl, spent⟩
  next =>
    simp only [created, Option.some.injEq, Prod.mk.injEq] at taken
    obtain ⟨rfl, rfl⟩ := taken
    exact ⟨grown, ⟨depth + 1, found, deeper, depth + 1, le_rfl, rfl⟩, rfl, spent⟩
  next =>
    obtain ⟨upper, rfl⟩ := Nat.exists_eq_succ_of_ne_zero (Nat.ne_zero_of_lt beyond)
    have positive : 0 < upper := by omega
    have parent := parentPath_ancestor positive within
    have below := waiting_cons (Nat.lt_of_succ_le within)
    have distinct : enoent ≠ eexist := by decide
    simp only [missing, distinct, if_false, ne_eq, not_true_eq_false, Option.some.injEq, Prod.mk.injEq,
      Nat.succ_eq_add_one, parent, ← below] at taken
    obtain ⟨rfl, rfl⟩ := taken
    refine ⟨.inl rfl, ⟨depth, here, frontier, upper, by omega, by omega, rfl, rfl⟩, rfl, ?_⟩
    simp only [Call.budget, waiting_length]
    omega

theorem step_second (frontier : disk.Frontier n depth here) (within : level ≤ depth) (inside : level < n.names.length)
    (taken : (Call.second (waiting n level)).step mode disk = some (after, call')) :
    Turn n disk (.second (waiting n level)) after call' := by
  rw [waiting_cons inside] at taken ⊢
  simp only [Call.step] at taken
  obtain ⟨above, made⟩ | ⟨same, made, found, grown, deeper, created⟩ | ⟨beyond, -⟩ :=
    makeDirectory_cases mode frontier (Nat.succ_le_of_lt inside)
  next =>
    simp only [made, Option.some.injEq, Prod.mk.injEq] at taken
    obtain ⟨rfl, rfl⟩ := taken
    obtain ⟨node, reached, -⟩ := exists_of_frontier frontier above
    refine ⟨.inl rfl, ⟨depth, here, frontier, rfl⟩, ?_, by simp [Call.budget]⟩
    simp [Call.threw, Call.clear, reached, Except.toOption]
  next =>
    simp only [created, Option.some.injEq, Prod.mk.injEq] at taken
    obtain ⟨rfl, rfl⟩ := taken
    obtain rfl : level = depth := Nat.succ_injective same
    have absent := frontier.pathname_next (List.getElem?_eq_getElem inside)
    refine ⟨grown, ⟨level + 1, found, deeper, level + 1, le_rfl, rfl⟩, ?_, by simp [Call.budget]⟩
    simp [Call.threw, Call.clear, absent, Except.toOption]
  next => omega

theorem step_turn (located : Located disk n call) (taken : call.step mode disk = some (after, call')) :
    Turn n disk call after call' := by
  obtain ⟨depth, here, frontier, placed⟩ := located
  cases call with
  | first path below =>
    obtain ⟨level, based, within, rfl, rfl⟩ := placed
    exact step_first frontier based within taken
  | second below =>
    obtain ⟨level, within, rfl⟩ := placed
    by_cases inside : level < n.names.length
    next => exact step_second frontier within inside taken
    next =>
      rw [waiting_all (Nat.not_lt.mp inside)] at taken
      contradiction
  | thrown errno => contradiction

theorem step_isSome (mode : Nat) (disk : Disk) (unreturned : call.returned = false) (unthrown : call.threw = false) :
    (call.step mode disk).isSome = true := by
  unfold Call.step
  split
  next =>
    split
    next => rfl
    next =>
      split_ifs <;> rfl
  next =>
    split <;> rfl
  next => contradiction
  next => contradiction

theorem Located.exists (located : Located disk n call) (returned : call.returned = true) :
    ∃ node, disk.files.pathname true disk.files.currentDirectory n.render = .ok node ∧
      disk.files.graph.IsDirectory node := by
  obtain ⟨depth, here, frontier, placed⟩ := located
  cases call with
  | second below =>
    cases below with
    | nil =>
      obtain ⟨level, within, below⟩ := placed
      have whole : n.names.length ≤ level := by
        have count := congrArg List.length below
        rw [waiting_length, List.length_nil] at count
        omega
      obtain ⟨node, reached, directory⟩ := exists_of_frontier frontier within
      rw [NormalPath.ancestor_all whole] at reached
      exact ⟨node, reached, directory⟩
    | cons => contradiction
  | first | thrown => contradiction

section Runs

variable {κ : Type} [DecidableEq κ] {modes : κ → Nat} {paths : κ → Bytes} {thread : κ} {s s' : State κ}

def Consistent (paths : κ → Bytes) (s : State κ) : Prop :=
  ∀ thread, Located s.disk (normalForm (paths thread)) (s.calls thread)

def Clear (thread : κ) (s : State κ) : Prop := (s.calls thread).clear s.disk = true

instance decidableClear (thread : κ) (s : State κ) : Decidable (Clear thread s) :=
  inferInstanceAs (Decidable (_ = true))

def Unobstructed (disk : Disk) (path : Bytes) : Prop := ∃ depth here, disk.Frontier (normalForm path) depth here

structure Sound (modes : κ → Nat) (paths : κ → Bytes) (s : State κ) : Prop where
  unthrown : ∀ thread, (s.calls thread).threw = false
  onwards : ∀ thread, (s.calls thread).returned = true ∨ (step modes thread s).isSome = true
  created : ∀ thread, (s.calls thread).returned = true →
    ∃ node, s.disk.files.pathname true s.disk.files.currentDirectory (normalizePath (paths thread)) = .ok node ∧
      s.disk.files.graph.IsDirectory node

omit [DecidableEq κ] in
theorem create_consistent {disk : Disk} (unobstructed : ∀ thread, Unobstructed disk (paths thread)) :
    Consistent paths (create disk paths) := by
  intro thread
  obtain ⟨depth, here, frontier⟩ := unobstructed thread
  exact ⟨depth, here, frontier, createDirectory_placed _ _⟩

theorem step_cases (taken : step modes thread s = some s') : ∃ after call,
    (s.calls thread).step (modes thread) s.disk = some (after, call) ∧
      s' = ⟨after, Function.update s.calls thread call⟩ := by
  obtain ⟨⟨after, call⟩, moved, rfl⟩ := Option.map_eq_some_iff.mp taken
  exact ⟨after, call, moved, rfl⟩

theorem Consistent.turn (consistent : Consistent paths s) (taken : step modes thread s = some s') :
    Turn (normalForm (paths thread)) s.disk (s.calls thread) s'.disk (s'.calls thread) ∧
      ∀ other ≠ thread, s'.calls other = s.calls other := by
  obtain ⟨after, call, moved, rfl⟩ := step_cases taken
  have turn := step_turn (consistent thread) moved
  refine ⟨?_, fun other differs => Function.update_of_ne differs _ _⟩
  simpa only [Function.update_self] using turn

theorem Consistent.step (consistent : Consistent paths s) (taken : CreateDirectory.step modes thread s = some s') :
    Consistent paths s' := by
  obtain ⟨turn, others⟩ := consistent.turn taken
  intro other
  by_cases same : other = thread
  next => exact same ▸ turn.located
  next =>
    rw [others other same]
    exact (consistent other).grown turn.grown

theorem Consistent.sound (consistent : Consistent paths s) (unthrown : ∀ thread, (s.calls thread).threw = false) :
    Sound modes paths s := by
  refine ⟨unthrown, fun thread => ?_, fun thread returned => ?_⟩
  next =>
    cases returned : (s.calls thread).returned with
    | true => exact .inl rfl
    | false =>
      right
      rw [CreateDirectory.step, Option.isSome_map]
      exact step_isSome _ _ returned (unthrown thread)
  next =>
    rw [normalizePath_eq_render]
    exact (consistent thread).exists returned

theorem threw_step (other : κ) (threw : (s.calls other).threw = true) (taken : step modes thread s = some s') :
    (s'.calls other).threw = true := by
  obtain ⟨after, call, moved, rfl⟩ := step_cases taken
  by_cases same : other = thread
  next =>
    subst same
    cases state : s.calls other with
    | thrown errno => simp [state, Call.step] at moved
    | first | second => simp [state, Call.threw] at threw
  next => simpa only [Function.update_of_ne same] using threw

theorem Consistent.unthrown_step (consistent : Consistent paths s) (unthrown : ∀ other, (s.calls other).threw = false)
    (clear : Clear thread s) (taken : CreateDirectory.step modes thread s = some s') (other : κ) :
    (s'.calls other).threw = false := by
  obtain ⟨turn, others⟩ := consistent.turn taken
  by_cases same : other = thread
  next =>
    have threw := turn.threw
    rw [clear] at threw
    exact same ▸ threw
  next => rw [others other same, unthrown other]

theorem along_of_unthrown {choices : List κ} (consistent : Consistent paths s)
    (reached : run (step modes) s choices = some s') (unthrown : ∀ thread, (s'.calls thread).threw = false) :
    Along (step modes) Clear s choices := by
  have dooms (thread : κ) (s s' : State κ) (obstructed : ¬Clear thread s) (taken : step modes thread s = some s')
      (held : Consistent paths s) : ∃ thread, (s'.calls thread).threw = true := by
    have threw := (held.turn taken).1.threw
    rw [Bool.not_eq_true _ |>.mp obstructed] at threw
    exact ⟨thread, threw⟩
  have stays (thread : κ) (s s' : State κ) (taken : step modes thread s = some s')
      (held : ∃ thread, (s.calls thread).threw = true) : ∃ thread, (s'.calls thread).threw = true := by
    obtain ⟨other, threw⟩ := held
    exact ⟨other, threw_step other threw taken⟩
  apply along_of_final (fun _ _ _ _ taken held => held.step taken) dooms stays reached consistent
  rintro ⟨thread, threw⟩
  rw [unthrown thread] at threw
  contradiction

theorem count_budget {choices : List κ} (thread : κ) (consistent : Consistent paths s)
    (reached : run (step modes) s choices = some s') :
    choices.count thread + (s'.calls thread).budget (normalForm (paths thread)) ≤
      (s.calls thread).budget (normalForm (paths thread)) := by
  induction choices generalizing s with
  | nil =>
    obtain rfl := Option.some.inj reached
    simp
  | cons choice choices ih =>
    obtain ⟨between, taken, rest⟩ := Option.bind_eq_some_iff.mp reached
    obtain ⟨turn, others⟩ := consistent.turn taken
    have later := ih (consistent.step taken) rest
    by_cases same : thread = choice
    next =>
      subst same
      have paid := turn.budget
      rw [List.count_cons_self]
      omega
    next =>
      rw [List.count_cons_of_ne (Ne.symm same)]
      rwa [others thread same] at later

theorem createDirectory_concurrent {disk : Disk} (modes : κ → Nat)
    (unobstructed : ∀ thread, Unobstructed disk (paths thread)) {choices : List κ}
    (reached : run (step modes) (create disk paths) choices = some s) :
    (Along (step modes) Clear (create disk paths) choices ↔ Sound modes paths s) ∧
      ∀ thread, choices.count thread ≤ 2 * (normalForm (paths thread)).names.length + 1 := by
  have begin := create_consistent unobstructed
  have consistent : Consistent paths s := run_invariant (fun _ _ _ taken held => held.step taken) reached begin
  refine ⟨⟨fun along => ?_, fun sound => along_of_unthrown begin reached sound.unthrown⟩, fun thread => ?_⟩
  next =>
    have each (thread : κ) (t t' : State κ) (clear : Clear thread t) (taken : step modes thread t = some t')
        (held : Consistent paths t ∧ ∀ other, (t.calls other).threw = false) :
        Consistent paths t' ∧ ∀ other, (t'.calls other).threw = false :=
      ⟨held.1.step taken, held.1.unthrown_step held.2 clear taken⟩
    exact consistent.sound (run_along each along reached ⟨begin, fun _ => rfl⟩).2
  next =>
    have paid := count_budget thread begin reached
    have initial : ((create disk paths).calls thread).budget (normalForm (paths thread)) =
        2 * (normalForm (paths thread)).names.length + 1 := rfl
    omega

end Runs

section Samples

def bareDisk : Disk where
  files :=
    { root := 0
      currentDirectory := 0
      object := fun _ => .directory 0 [] 0o755 0
      denied := fun _ => none
      symlinkLimit := 40
      named := fun _ _ _ _ _ kind entry member => by
        obtain ⟨rfl, rfl, rfl, rfl⟩ := FileObject.directory.inj kind
        cases member }
  umask := 0o022
  next := 1
  bounded := fun _ _ _ _ _ kind => by
    obtain ⟨rfl, rfl, rfl, rfl⟩ := FileObject.directory.inj kind
    simp
  root_used := by decide
  current_used := by decide

theorem bareDisk_unobstructed : Unobstructed bareDisk (text "/a/b") := by
  refine ⟨0, 0, by decide, by decide, ⟨0, [], rfl⟩, fun name _ => rfl⟩

def oneAfterTheOther : List Bool := [false, false, false, true]

theorem createDirectory_concurrent_ab : ∃ s, run (step fun _ => 0o777) (create bareDisk fun _ => text "/a/b")
    oneAfterTheOther = some s ∧ Sound (fun _ => 0o777) (fun _ => text "/a/b") s := by
  obtain ⟨s, reached⟩ : ∃ s,
    run (step fun _ => 0o777) (create bareDisk fun _ => text "/a/b") oneAfterTheOther = some s :=
    Option.isSome_iff_exists.mp (by decide)
  have along : Along (step fun _ => 0o777) Clear (create bareDisk fun _ => text "/a/b") oneAfterTheOther := by decide
  exact ⟨s, reached, (createDirectory_concurrent (fun _ => 0o777) (fun _ => bareDisk_unobstructed) reached).1.mp along⟩

def inTurns : List Bool := [false, true, false, true, false, true]

theorem second_mkdir_throws : Unobstructed bareDisk (text "/a/b") ∧
    (run (step fun _ => 0o777) (create bareDisk fun _ => text "/a/b") inTurns).map
      (fun s => (s.calls false, s.calls true)) =
      some (.second [], .thrown eexist) :=
  ⟨bareDisk_unobstructed, by decide⟩

end Samples

end BuildboxCommon.CreateDirectory
