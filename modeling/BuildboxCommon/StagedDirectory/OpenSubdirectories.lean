import BuildboxCommon.StagedDirectory.OpenInInputRoot

set_option autoImplicit false

namespace BuildboxCommon.StagedDirectoryUtils

open ByteString FileUtils LexicalPath PathResolution Posix

def subdirectories : Bytes → Bytes → List Bytes
  | component, [] => [component]
  | component, next :: rest =>
    if next = slash ∧ component ≠ [] then component :: subdirectories [] rest
    else subdirectories (component ++ [next]) rest

def withoutTrailingSlash (path : Bytes) : Bytes := if path.getLast? = some slash then path.dropLast else path

def components (path : Bytes) : List Bytes := subdirectories [] (withoutTrailingSlash path)

theorem subdirectories_grow (component bytes : Bytes) :
    ∃ other ∈ subdirectories component bytes, component <+: other := by
  induction bytes generalizing component with
  | nil => exact ⟨component, by simp [subdirectories], List.prefix_rfl⟩
  | cons next rest ih =>
    rw [subdirectories]
    split
    next => exact ⟨component, by simp, List.prefix_rfl⟩
    next =>
      obtain ⟨other, member, start⟩ := ih (component ++ [next])
      exact ⟨other, member, (List.prefix_append component [next]).trans start⟩

theorem subdirectories_segments {component : Bytes} (plain : slash ∉ component) (bytes : Bytes) :
    subdirectories component bytes = (component ++ bytes).splitOn slash ∨
      [] ∈ (component ++ bytes).splitOn slash ∧ ∃ other ∈ subdirectories component bytes, isGlobal other = true := by
  induction bytes generalizing component with
  | nil => exact .inl (by rw [subdirectories, List.append_nil, List.splitOn_eq_singleton plain])
  | cons next rest ih =>
    by_cases ends : next = slash
    next =>
      subst ends
      rw [List.splitOn_append_cons_self_of_not_mem plain]
      by_cases empty : component = []
      next =>
        obtain ⟨other, member, tail, start⟩ := subdirectories_grow [slash] rest
        refine .inr ⟨by simp [empty], other, ?_, ?_⟩
        next => simpa [subdirectories, empty] using member
        next => rw [← start]; rfl
      next =>
        rw [subdirectories, if_pos ⟨rfl, empty⟩]
        rcases ih (List.not_mem_nil : slash ∉ ([] : Bytes)) with same | ⟨idle, other, member, global⟩
        next => exact .inl (by rw [same, List.nil_append])
        next => exact .inr ⟨List.mem_cons_of_mem _ idle, other, List.mem_cons_of_mem _ member, global⟩
    next =>
      have longer : slash ∉ component ++ [next] := by
        simpa [plain] using fun same : slash = next => ends same.symm
      have other : ¬(next = slash ∧ component ≠ []) := fun both => ends both.1
      rw [subdirectories, if_neg other]
      simpa using ih longer

section Walk

variable {ι : Type} (fs : FileSystem ι)

def openComponents (path : Bytes) : ι → List Bytes → Except Exn ι
  | currentDirFd, [] => .ok currentDirFd
  | currentDirFd, component :: rest =>
    if component = [] then .error .undefined
    else
      match openSubdirectory fs path currentDirFd component with
      | .error thrown => .error thrown
      | .ok subdirFd => openComponents path subdirFd rest

theorem openSubdirectories_eq (path : Bytes) (currentDirFd : ι) (component bytes : Bytes) :
    openSubdirectories fs path currentDirFd component bytes =
      openComponents fs path currentDirFd (subdirectories component bytes) := by
  induction bytes generalizing currentDirFd component with
  | nil =>
    cases component with
    | nil => rfl
    | cons byte component =>
      rw [openSubdirectories, subdirectories, openComponents, if_neg (List.cons_ne_nil byte component)]
      cases openSubdirectory fs path currentDirFd (byte :: component) <;> rfl
  | cons next rest ih =>
    rw [openSubdirectories, subdirectories]
    split
    next ends =>
      rw [openComponents, if_neg ends.2]
      cases openSubdirectory fs path currentDirFd component with
      | error thrown => rfl
      | ok subdirFd => exact ih subdirFd []
    next => exact ih currentDirFd (component ++ [next])

theorem openDirectoryInInputRoot_eq {path : Bytes} (present : path ≠ []) (rootDirFd : ι) :
    openDirectoryInInputRoot fs rootDirFd path = openComponents fs path rootDirFd (components path) := by
  rw [openDirectoryInInputRoot, if_neg present, openSubdirectories_eq]
  rfl

end Walk

def enteredNames (path : Bytes) : List Bytes := (path.splitOn slash).filter fun segment => segment ≠ [] ∧ segment ≠ dot

structure WalksInside {ι : Type} (fs : FileSystem ι) (rootDirFd : ι) (path : Bytes) : Prop where
  defined : openDirectoryInInputRoot fs rootDirFd path ≠ .error .undefined
  below : ∀ fd, openDirectoryInInputRoot fs rootDirFd path = .ok fd →
    fs.graph.Descent rootDirFd (enteredNames path) fd ∧ fs.graph.IsDirectory fd

def SingleSlashes (path : Bytes) : Prop := [] ∉ (path.splitOn slash).dropLast

def StartsWithNul (component : Bytes) : Prop := component.head? = some nul

section Harmless

variable {ι : Type} {fs : FileSystem ι} {path : Bytes}

theorem openSubdirectory_defined (path : Bytes) (currentDirFd : ι) (component : Bytes) :
    openSubdirectory fs path currentDirFd component ≠ .error .undefined := by
  unfold openSubdirectory
  cases fs.openat currentDirFd component ⟨true, true⟩ <;> simp

theorem openSubdirectory_nul (path : Bytes) (currentDirFd : ι) {component : Bytes} (starts : StartsWithNul component)
    (fd : ι) :
    openSubdirectory fs path currentDirFd component ≠ .ok fd := by
  have empty : cString component = [] := by
    cases component with
    | nil => rfl
    | cons byte bytes =>
      obtain rfl : byte = nul := Option.some.inj starts
      rfl
  have failed : fs.openat currentDirFd component ⟨true, true⟩ = .error enoent := by
    simp only [FileSystem.openat, FileSystem.pathname, empty, if_true]
  simp [openSubdirectory, failed]

-- A component that begins with a NUL byte does not open, and no later one is looked for.
theorem openComponents_nul {parts : List Bytes} {component : Bytes} (member : component ∈ parts)
    (starts : StartsWithNul component) (present : [] ∉ parts.dropLast) (currentDirFd : ι) :
    openComponents fs path currentDirFd parts ≠ .error .undefined ∧
      ∀ fd, openComponents fs path currentDirFd parts ≠ .ok fd := by
  induction parts generalizing currentDirFd with
  | nil => simp at member
  | cons part parts ih =>
    have nonempty : part ≠ [] := by
      rintro rfl
      cases parts with
      | nil =>
        obtain rfl := List.mem_singleton.mp member
        cases starts
      | cons => simp at present
    rw [openComponents, if_neg nonempty]
    cases opened : openSubdirectory fs path currentDirFd part with
    | error thrown =>
      have defined := @openSubdirectory_defined ι fs path currentDirFd part
      rw [opened] at defined
      exact ⟨defined, by simp⟩
    | ok subdirFd =>
      rcases List.mem_cons.mp member with rfl | later
      next => exact absurd opened (openSubdirectory_nul path currentDirFd starts subdirFd)
      next =>
        apply ih later
        cases parts with
        | nil => simp
        | cons => exact fun idle => present (List.mem_cons_of_mem _ idle)

theorem openComponents_defined {parts : List Bytes} (present : [] ∉ parts) (currentDirFd : ι) :
    openComponents fs path currentDirFd parts ≠ .error .undefined := by
  induction parts generalizing currentDirFd with
  | nil => simp [openComponents]
  | cons part parts ih =>
    rw [List.mem_cons, not_or] at present
    rw [openComponents, if_neg (Ne.symm present.1)]
    cases opened : openSubdirectory fs path currentDirFd part with
    | error thrown =>
      have defined := @openSubdirectory_defined ι fs path currentDirFd part
      rwa [opened] at defined
    | ok subdirFd => exact ih present.2 subdirFd

theorem openComponents_below {parts : List Bytes} (proper : ∀ part ∈ parts, part = dot ∨ IsName part)
    {currentDirFd fd : ι} (some : parts ≠ []) (opened : openComponents fs path currentDirFd parts = .ok fd) :
    fs.graph.Descent currentDirFd (parts.filter fun part => part ≠ [] ∧ part ≠ dot) fd ∧ fs.graph.IsDirectory fd := by
  induction parts generalizing currentDirFd with
  | nil => contradiction
  | cons part parts ih =>
    have first := proper part (by simp)
    have nonempty : part ≠ [] := by
      rcases first with rfl | name
      next => decide
      next => exact name.nonempty
    rw [openComponents, if_neg nonempty] at opened
    cases sub : openSubdirectory fs path currentDirFd part with
    | error thrown => simp [sub] at opened
    | ok subdirFd =>
      simp only [sub] at opened
      have later (directory : fs.graph.IsDirectory subdirFd) :
          fs.graph.Descent subdirFd (parts.filter fun part => part ≠ [] ∧ part ≠ dot) fd ∧ fs.graph.IsDirectory fd := by
        cases parts with
        | nil =>
          obtain rfl := Except.ok.inj opened
          exact ⟨.here _, directory⟩
        | cons next others => exact ih (fun part member => proper part (List.mem_cons_of_mem _ member)) (by simp) opened
      rcases first with rfl | name
      next =>
        obtain ⟨rfl, directory⟩ := openSubdirectory_dot sub
        simpa using later directory
      next =>
        obtain ⟨entered, directory⟩ := openSubdirectory_ok name sub
        obtain ⟨descent, found⟩ := later directory
        refine ⟨?_, found⟩
        rw [List.filter_cons_of_pos (by simp [nonempty, name.ne_dot])]
        exact .inside entered descent

theorem subdirectories_ends (component bytes : Bytes) : [] ∉ (subdirectories component bytes).dropLast := by
  induction bytes generalizing component with
  | nil => simp [subdirectories]
  | cons next rest ih =>
    rw [subdirectories]
    split
    next ends =>
      obtain ⟨other, member, -⟩ := subdirectories_grow [] rest
      rw [List.dropLast_cons_of_ne_nil (List.ne_nil_of_mem member), List.mem_cons, not_or]
      exact ⟨Ne.symm ends.2, ih []⟩
    next => exact ih _

theorem last_segment {path : Bytes} {segments : List Bytes} {last : Bytes} (present : path ≠ [])
    (trailing : path.getLast? ≠ some slash) (split : path.splitOn slash = segments ++ [last]) : last ≠ [] := by
  rintro rfl
  have whole : [slash].intercalate (path.splitOn slash) = path := List.intercalate_splitOn slash
  rw [split] at whole
  by_cases alone : segments = []
  next =>
    rw [alone, List.nil_append, List.intercalate_singleton] at whole
    exact present whole.symm
  next =>
    rw [intercalate_append slash alone (List.cons_ne_nil [] []), List.intercalate_singleton] at whole
    exact trailing (by rw [← whole]; simp)

theorem withoutTrailingSlash_segments {path : Bytes} (present : path ≠ []) :
    enteredNames (withoutTrailingSlash path) = enteredNames path ∧
      ([] ∈ (withoutTrailingSlash path).splitOn slash ↔ ¬SingleSlashes path) := by
  unfold withoutTrailingSlash
  by_cases trailing : path.getLast? = some slash
  next =>
    obtain ⟨start, rfl⟩ := List.getLast?_eq_some_iff.mp trailing
    have split := List.splitOn_append_cons_self (a := slash) start []
    rw [if_pos trailing, List.dropLast_concat, enteredNames, enteredNames, SingleSlashes, split]
    simp
  next =>
    rw [if_neg trailing, SingleSlashes, not_not]
    refine ⟨rfl, ?_⟩
    have split := List.dropLast_append_getLast (List.splitOn_ne_nil slash path)
    have last := last_segment present trailing split.symm
    conv_lhs => rw [← split]
    rw [List.mem_append, List.mem_singleton]
    exact or_iff_left (Ne.symm last)

theorem segments_withoutTrailingSlash (path : Bytes) :
    (withoutTrailingSlash path).splitOn slash ⊆ path.splitOn slash := by
  unfold withoutTrailingSlash
  split
  next trailing =>
    obtain ⟨start, rfl⟩ := List.getLast?_eq_some_iff.mp trailing
    rw [List.dropLast_concat, List.splitOn_append_cons_self]
    exact List.subset_append_left _ _
  next => exact List.Subset.refl _

theorem withoutTrailingSlash_subset {path : Bytes} : withoutTrailingSlash path ⊆ path := by
  unfold withoutTrailingSlash
  split
  next => exact List.dropLast_subset path
  next => exact List.Subset.refl path

theorem proper_segments {path : Bytes} (free : NulFree path) (forward : dotdot ∉ path.splitOn slash)
    (single : [] ∉ path.splitOn slash) : ∀ segment ∈ path.splitOn slash, segment = dot ∨ IsName segment := by
  intro segment member
  by_cases here : segment = dot
  next => exact .inl here
  next =>
    obtain ⟨plain, inside⟩ := mem_splitOn member
    exact .inr ⟨fun empty => single (empty ▸ member), here, fun up => forward (up ▸ member), plain,
      fun present => free (inside present)⟩

theorem components_single {path : Bytes} (present : path ≠ []) (single : SingleSlashes path) :
    components path = (withoutTrailingSlash path).splitOn slash := by
  rcases subdirectories_segments (List.not_mem_nil : slash ∉ ([] : Bytes)) (withoutTrailingSlash path) with same |
    ⟨idle, -⟩
  next => exact same
  next => exact absurd single ((withoutTrailingSlash_segments present).2.mp idle)

theorem walksInside_single (present : path ≠ []) (forward : dotdot ∉ path.splitOn slash) (free : NulFree path)
    (single : SingleSlashes path) (rootDirFd : ι) : WalksInside fs rootDirFd path := by
  obtain ⟨names, idle⟩ := withoutTrailingSlash_segments present
  have none := idle.not.mpr (not_not.mpr single)
  have proper := proper_segments (fun member => free (withoutTrailingSlash_subset member))
    (fun member => forward (segments_withoutTrailingSlash path member)) none
  constructor
  next =>
    rw [openDirectoryInInputRoot_eq fs present, components_single present single]
    exact openComponents_defined none rootDirFd
  next =>
    intro fd opened
    rw [openDirectoryInInputRoot_eq fs present, components_single present single] at opened
    rw [← names]
    exact openComponents_below proper (List.splitOn_ne_nil _ _) opened

theorem walksInside_nul (present : path ≠ []) {component : Bytes} (member : component ∈ components path)
    (starts : StartsWithNul component) (rootDirFd : ι) : WalksInside fs rootDirFd path := by
  obtain ⟨defined, fails⟩ := @openComponents_nul ι fs path _ _ member starts (subdirectories_ends _ _) rootDirFd
  rw [← openDirectoryInInputRoot_eq fs present] at defined fails
  exact ⟨defined, fun fd opened => absurd opened (fails fd)⟩

end Harmless

section Tree

def lexicalTree (names : List Bytes) : FileSystem (List Bytes) where
  root := []
  currentDirectory := []
  object directory := .directory directory.dropLast
    ((names.filter fun name => IsName name).map fun name => (name, directory ++ [name])) 0o755 0
  denied _ := none
  symlinkLimit := 40
  named := by
    intro directory parent entries permissions mtime kind entry member
    obtain ⟨-, rfl, -, -⟩ := FileObject.directory.inj kind
    obtain ⟨name, listed, rfl⟩ := List.mem_map.mp member
    simpa using (List.mem_filter.mp listed).2

variable {names : List Bytes}

theorem lexicalTree_directory (directory : List Bytes) : (lexicalTree names).graph.IsDirectory directory := ⟨_, _, rfl⟩

theorem find_child {name : Bytes} (member : name ∈ names) (directory : List Bytes) :
    (names.map fun name => (name, directory ++ [name])).find? (fun entry => entry.1 = name) =
      some (name, directory ++ [name]) := by
  induction names with
  | nil => simp at member
  | cons first names ih =>
    by_cases same : first = name
    next => simp [same]
    next =>
      have later : name ∈ names := (List.mem_cons.mp member).resolve_left (Ne.symm same)
      simpa [same] using ih later

theorem lexicalTree_enter {step : Step Bytes} (directory : List Bytes)
    (known : ∀ name, step = .down name → name ∈ names ∧ IsName name) :
    (lexicalTree names).graph.enter directory step = .ok (step.apply directory) := by
  cases step with
  | stay | up => rfl
  | down name =>
    obtain ⟨member, proper⟩ := known name rfl
    have listed : name ∈ names.filter fun name => IsName name := List.mem_filter.mpr ⟨member, by simpa using proper⟩
    have found := find_child listed directory
    simp only [Graph.enter, FileSystem.graph, lexicalTree, FileObject.shape, found]
    rfl

theorem lexicalTree_descent {directory target others : List Bytes}
    (descent : (lexicalTree names).graph.Descent directory others target) :
    target = directory ++ others ∧ ∀ name ∈ others, IsName name := by
  induction descent with
  | here => simp
  | @inside here next target name others entered _ ih =>
    obtain ⟨below, proper⟩ := ih
    simp only [Graph.enter, FileSystem.graph, lexicalTree, FileObject.shape] at entered
    split at entered
    next => cases entered
    next entry found =>
      obtain rfl := Except.ok.inj entered
      obtain ⟨name', listed, rfl⟩ := List.mem_map.mp (List.mem_of_find?_eq_some found)
      obtain rfl : name' = name := by simpa using List.find?_some found
      have isName : IsName name' := by simpa using (List.mem_filter.mp listed).2
      exact ⟨by simpa using below, by simpa using ⟨isName, proper⟩⟩

theorem lexicalTree_resolve {steps : List (Step Bytes)}
    (known : ∀ name, .down name ∈ steps → name ∈ names ∧ IsName name)
    (follow : Bool) (limit : Nat) (directory : List Bytes) :
    (lexicalTree names).graph.resolve follow limit directory steps = .ok (walk directory steps) := by
  induction steps generalizing directory with
  | nil => simp
  | cons step steps ih =>
    have entered := lexicalTree_enter directory fun name same => known name (same ▸ List.mem_cons_self)
    rw [Graph.resolve_plain limit steps entered (lexicalTree_directory _).not_link, walk_cons]
    exact ih (fun name member => known name (List.mem_cons_of_mem _ member)) _

theorem lexicalTree_open {component : Bytes} (present : cString component ≠ [])
    (known : ∀ name, .down name ∈ steps (cString component) → name ∈ names) (path : Bytes) (directory : List Bytes) :
    openSubdirectory (lexicalTree names) path directory component = .ok (resolve directory (cString component)) := by
  have resolved := lexicalTree_resolve (fun name member =>
    ⟨known name member, isName_of_step (cString_nulFree component) member⟩) false 40
      (if isGlobal (cString component) then [] else directory)
  have opened : (lexicalTree names).openat directory component ⟨true, true⟩ =
    .ok (resolve directory (cString component)) := by
    have root : (lexicalTree names).root = [] := rfl
    have limit : (lexicalTree names).symlinkLimit = 40 := rfl
    simp only [FileSystem.openat, FileSystem.pathname, present, if_false, Bool.not_true, root, limit, resolved]
    rfl
  rw [openSubdirectory, opened]

def descend (directory : List Bytes) (parts : List Bytes) : List Bytes :=
  parts.foldl (fun directory part => resolve directory (cString part)) directory

-- Every component opens; one that begins with a slash starts at the root again.
theorem lexicalTree_components {parts : List Bytes} (present : ∀ part ∈ parts, cString part ≠ [])
    (known : ∀ part ∈ parts, ∀ name, .down name ∈ steps (cString part) → name ∈ names) (path : Bytes)
    (rest : List Bytes) (directory : List Bytes) : openComponents (lexicalTree names) path directory (parts ++ rest) =
      openComponents (lexicalTree names) path (descend directory parts) rest := by
  induction parts generalizing directory with
  | nil => rfl
  | cons part parts ih =>
    have first := present part List.mem_cons_self
    have nonempty : part ≠ [] := by
      rintro rfl
      exact first rfl
    rw [List.cons_append, openComponents, if_neg nonempty, lexicalTree_open first (known part List.mem_cons_self)]
    exact ih (fun part member => present part (List.mem_cons_of_mem _ member))
      (fun part member => known part (List.mem_cons_of_mem _ member)) _

def stepCount (parts : List Bytes) : Nat := (parts.map fun part => (steps (cString part)).length).sum

theorem descend_length (directory parts : List Bytes) :
    (descend directory parts).length ≤ directory.length + stepCount parts := by
  induction parts generalizing directory with
  | nil => simp [descend, stepCount]
  | cons part parts ih =>
    have rest := ih (resolve directory (cString part))
    have one := walk_length (if isGlobal (cString part) then [] else directory) (steps (cString part))
    have start : (if isGlobal (cString part) then [] else directory).length ≤ directory.length := by split <;> simp
    have first : (resolve directory (cString part)).length ≤ directory.length + (steps (cString part)).length := by
      rw [resolve]
      omega
    simp only [descend, stepCount, List.foldl_cons, List.map_cons, List.sum_cons] at rest ⊢
    omega

theorem descend_global {parts : List Bytes} (directory : List Bytes) {part : Bytes} (member : part ∈ parts)
    (global : isGlobal part = true) : (descend directory parts).length ≤ stepCount parts := by
  obtain ⟨before, after, rfl⟩ := List.append_of_mem member
  have restart : descend directory (before ++ part :: after) = descend (walk [] (steps (cString part))) after := by
    rw [descend, List.foldl_append, List.foldl_cons, resolve, isGlobal_cString, if_pos global]
    rfl
  have count : stepCount (before ++ part :: after) =
      stepCount before + ((steps (cString part)).length + stepCount after) := by simp [stepCount]
  have rest := descend_length (walk [] (steps (cString part))) after
  have first := walk_length [] (steps (cString part))
  rw [List.length_nil] at first
  rw [restart, count]
  omega

end Tree

section Reached

variable {path : Bytes}

def namesOf (path : Bytes) : List Bytes :=
  text "d" :: (components path).flatMap fun part => (cString part).splitOn slash

def deepDirectory (path : Bytes) : List Bytes := List.replicate (stepCount (components path) + 1) (text "d")

theorem namesOf_known {part : Bytes} (member : part ∈ components path) (name : Bytes)
    (entered : .down name ∈ steps (cString part)) : name ∈ namesOf path := by
  obtain ⟨segment, inside, classified⟩ := List.mem_map.mp entered
  obtain ⟨rfl, -⟩ := classify_eq_down classified
  exact List.mem_cons_of_mem _ (List.mem_flatMap.mpr ⟨part, member, inside⟩)

theorem cString_present {part : Bytes} (nonempty : part ≠ []) (starts : ¬StartsWithNul part) : cString part ≠ [] := by
  obtain ⟨byte, bytes, rfl⟩ := List.exists_cons_of_ne_nil nonempty
  have other : byte ≠ nul := fun same => starts (by simp [StartsWithNul, same])
  simp [cString, other]

theorem nul_segment (present : ¬NulFree path) : ∃ segment ∈ enteredNames path, nul ∈ segment := by
  by_contra none
  apply present
  have whole := joinSegments_nulFree false (path.splitOn slash) fun segment member inside => none
    ⟨segment, List.mem_filter.mpr ⟨member, decide_eq_true ⟨?_, ?_⟩⟩, inside⟩
  next =>
    obtain ⟨first, others, split⟩ := List.exists_cons_of_ne_nil (List.splitOn_ne_nil slash path)
    rw [split, joinSegments_cons, ← split] at whole
    simpa using whole
  all_goals
    rintro rfl
    revert inside
    decide

theorem not_walksInside (present : path ≠ []) (opens : ∀ component ∈ components path, ¬StartsWithNul component)
    (bad : ¬(NulFree path ∧ SingleSlashes path)) :
    ¬WalksInside (lexicalTree (namesOf path)) (deepDirectory path) path := by
  intro inside
  obtain ⟨defined, below⟩ := inside
  rw [openDirectoryInInputRoot_eq _ present] at defined below
  have opened {parts : List Bytes} (within : parts ⊆ components path) (some : [] ∉ parts) (rest : List Bytes) :=
    lexicalTree_components (fun part member => cString_present (fun empty => some (empty ▸ member))
      (opens part (within member)))
      (fun part member => namesOf_known (within member)) path rest (deepDirectory path)
  by_cases ends : [] ∈ components path
  next =>
    have split := List.dropLast_append_getLast (List.ne_nil_of_mem ends)
    have last : (components path).getLast (List.ne_nil_of_mem ends) = [] := by
      rw [← split, List.mem_append, List.mem_singleton] at ends
      exact (ends.resolve_left (subdirectories_ends _ _)).symm
    apply defined
    rw [← split, last, opened (List.dropLast_subset _) (subdirectories_ends _ _), openComponents, if_pos rfl]
  next =>
    have whole := opened (List.Subset.refl _) ends []
    rw [List.append_nil, openComponents] at whole
    obtain ⟨target, proper⟩ := lexicalTree_descent (below _ whole).1
    by_cases free : NulFree path
    next =>
      have idle := (withoutTrailingSlash_segments present).2.mpr fun single => bad ⟨free, single⟩
      rcases subdirectories_segments List.not_mem_nil (withoutTrailingSlash path) with same | ⟨-, part, member, global⟩
      next =>
        apply ends
        rw [components, same]
        exact idle
      next =>
        have short := descend_global (deepDirectory path) member global
        have long := congrArg List.length target
        have deep : (deepDirectory path).length = stepCount (components path) + 1 := List.length_replicate
        rw [List.length_append] at long
        simp only [components] at *
        omega
    next =>
      obtain ⟨segment, member, nulInside⟩ := nul_segment free
      exact (proper segment member).nulFree nulInside

end Reached

theorem openDirectoryInInputRoot_walksInside_iff {path : Bytes} (present : path ≠ [])
    (forward : dotdot ∉ path.splitOn slash) :
    (∀ (ι : Type) (fs : FileSystem ι) (rootDirFd : ι), WalksInside fs rootDirFd path) ↔
      (∃ component ∈ components path, StartsWithNul component) ∨ (NulFree path ∧ SingleSlashes path) := by
  constructor
  next =>
    intro always
    by_contra neither
    rw [not_or, not_exists] at neither
    exact not_walksInside present (fun component member starts => neither.1 component ⟨member, starts⟩) neither.2
      (always _ _ _)
  next =>
    rintro (⟨component, member, starts⟩ | ⟨free, single⟩) ι fs rootDirFd
    next => exact walksInside_nul present member starts rootDirFd
    next => exact walksInside_single present forward free single rootDirFd

section Sample

def besideStage : FileSystem (Fin 4) where
  root := 0
  currentDirectory := 0
  object
    | 0 => .directory 0 [(text "stage", 1), (text "b", 3)] 0o755 0
    | 1 => .directory 0 [(text "a", 2)] 0o755 0
    | 2 => .directory 1 [] 0o755 0
    | 3 => .directory 0 [] 0o755 0
  denied _ := none
  symlinkLimit := 40
  named := by
    intro directory parent entries permissions mtime kind
    match directory with
    | 0 | 1 | 2 | 3 =>
      obtain ⟨-, rfl, -, -⟩ := FileObject.directory.inj kind
      decide

theorem openDirectoryInInputRoot_walksInside_here : WalksInside besideStage (1 : Fin 4) (text "./a/") :=
  (openDirectoryInInputRoot_walksInside_iff (by decide) (by decide)).mpr
    (.inr ⟨by decide, show [] ∉ ((text "./a/").splitOn slash).dropLast by decide⟩) _ besideStage (1 : Fin 4)

theorem doubled_slash_escapes :
    openDirectoryInInputRoot besideStage (1 : Fin 4) (text "a//b") = .ok (3 : Fin 4) ∧
      ¬WalksInside besideStage (1 : Fin 4) (text "a//b") ∧
      openDirectoryInInputRoot besideStage (1 : Fin 4) (text "a//") = .error .undefined := by
  refine ⟨rfl, fun inside => ?_, rfl⟩
  obtain ⟨descent, -⟩ := inside.below (3 : Fin 4) rfl
  have names : enteredNames (text "a//b") = [text "a", text "b"] := by decide
  rw [names] at descent
  cases descent with
  | inside entered below =>
    obtain rfl := Except.ok.inj entered
    cases below with
    | inside missing => cases missing

end Sample

end BuildboxCommon.StagedDirectoryUtils
