import BuildboxCommon.Exceptions
import BuildboxCommon.Posix
import Mathlib.Data.List.DropRight

set_option autoImplicit false

namespace BuildboxCommon.StagedDirectoryUtils

open ByteString FileUtils LexicalPath PathResolution Posix

section Model

variable {ι : Type} (fs : FileSystem ι)

def openSubdirectory (path : Bytes) (currentDirFd : ι) (subdirPath : Bytes) : Except Exn ι :=
  match fs.openat currentDirFd subdirPath ⟨true, true⟩ with
  | .ok subdirFd => .ok subdirFd
  | .error errno =>
    .error (.systemError errno (text "Error opening subdirectory " ++ subdirPath ++ text " in path \"" ++
      path ++ text "\""))

-- The search for the next separator starts at the second byte of a component; where there is no
-- byte left for a component it starts behind the end.
def openSubdirectories (path : Bytes) : ι → Bytes → Bytes → Except Exn ι
  | _, [], [] => .error .undefined
  | currentDirFd, byte :: component, [] => openSubdirectory fs path currentDirFd (byte :: component)
  | currentDirFd, component, next :: rest =>
    if next = slash ∧ component ≠ [] then
      match openSubdirectory fs path currentDirFd component with
      | .error thrown => .error thrown
      | .ok subdirFd => openSubdirectories path subdirFd [] rest
    else openSubdirectories path currentDirFd (component ++ [next]) rest

def openDirectoryInInputRoot (rootDirFd : ι) (path : Bytes) : Except Exn ι :=
  if path = [] then .error .undefined
  else
    openSubdirectories fs path rootDirFd []
      (if path.getLast? = some slash then path.dropLast else path)

def openFile (relativePath : Bytes) (directoryFd : ι) (filename : Bytes) : Except Exn ι :=
  match fs.openat directoryFd filename ⟨false, true⟩ with
  | .ok fileFd => .ok fileFd
  | .error errno => .error (.systemError errno (text "Error opening \"" ++ relativePath ++ text "\""))

def openFileInInputRoot (rootDirFd : ι) (relativePath : Bytes) : Except Exn ι :=
  let openBase : Except Exn ι :=
    if slash ∈ relativePath then
      openDirectoryInInputRoot fs rootDirFd (relativePath.rdropWhile (· ≠ slash)).dropLast
    else .ok rootDirFd
  match openBase with
  | .error thrown => .error thrown
  | .ok directoryFd => openFile fs relativePath directoryFd (relativePath.rtakeWhile (· ≠ slash))

def fileInInputRoot (rootDirFd : ι) (path : Bytes) : Except Exn Bool :=
  match openFileInInputRoot fs rootDirFd path with
  | .ok _ => .ok true
  | .error (.systemError _ _) => .ok false
  | .error thrown => .error thrown

def directoryInInputRoot (rootDirFd : ι) (path : Bytes) : Except Exn Bool :=
  if path = [] then .ok true
  else
    match openDirectoryInInputRoot fs rootDirFd path with
    | .ok _ => .ok true
    | .error (.systemError _ _) => .ok false
    | .error thrown => .error thrown

end Model

variable {ι : Type} {fs : FileSystem ι}

theorem openSubdirectory_ok {path : Bytes} {currentDirFd subdirFd : ι} {name : Bytes} (proper : IsName name)
    (opened : openSubdirectory fs path currentDirFd name = .ok subdirFd) :
    fs.graph.enter currentDirFd (.down name) = .ok subdirFd ∧ fs.graph.IsDirectory subdirFd := by
  unfold openSubdirectory at opened
  cases found : fs.openat currentDirFd name ⟨true, true⟩ with
  | error errno => simp [found] at opened
  | ok fd =>
    rw [found] at opened
    obtain rfl := Except.ok.inj opened
    have correct := FileSystem.openat_ok found
    exact ⟨FileSystem.pathname_name proper correct.reached, correct.directory rfl⟩

theorem openSubdirectories_append (path : Bytes) (currentDirFd : ι) (component : Bytes) {bytes : Bytes}
    (rest : Bytes) (plain : slash ∉ bytes) :
    openSubdirectories fs path currentDirFd component (bytes ++ rest) =
      openSubdirectories fs path currentDirFd (component ++ bytes) rest := by
  induction bytes generalizing component with
  | nil => simp
  | cons byte bytes ih =>
    rw [List.mem_cons, not_or] at plain
    have other : ¬(byte = slash ∧ component ≠ []) := fun ends => plain.1 ends.1.symm
    rw [List.cons_append, openSubdirectories, if_neg other, ih _ plain.2, List.append_assoc, List.singleton_append]

theorem openSubdirectories_last (path : Bytes) (currentDirFd : ι) {name : Bytes} (proper : IsName name) :
    openSubdirectories fs path currentDirFd [] name = openSubdirectory fs path currentDirFd name := by
  have scanned := @openSubdirectories_append ι fs path currentDirFd [] name [] proper.no_slash
  rw [List.append_nil, List.nil_append] at scanned
  obtain ⟨byte, bytes, rfl⟩ := List.exists_cons_of_ne_nil proper.nonempty
  exact scanned

theorem openSubdirectories_next (path : Bytes) (currentDirFd : ι) {name : Bytes} (rest : Bytes)
    (proper : IsName name) : openSubdirectories fs path currentDirFd [] (name ++ slash :: rest) =
      match openSubdirectory fs path currentDirFd name with
      | .error thrown => .error thrown
      | .ok subdirFd => openSubdirectories fs path subdirFd [] rest := by
  rw [openSubdirectories_append path currentDirFd [] (slash :: rest) proper.no_slash, List.nil_append,
    openSubdirectories, if_pos ⟨rfl, proper.nonempty⟩]

theorem openSubdirectories_ok {path : Bytes} {currentDirFd fd : ι} {name : Bytes} {names : List Bytes}
    (proper : ∀ component ∈ name :: names, IsName component)
    (opened : openSubdirectories fs path currentDirFd [] ([slash].intercalate (name :: names)) = .ok fd) :
    fs.graph.Descent currentDirFd (name :: names) fd ∧ fs.graph.IsDirectory fd := by
  have first := proper name (by simp)
  induction names generalizing name currentDirFd with
  | nil =>
    rw [List.intercalate_singleton, openSubdirectories_last path currentDirFd first] at opened
    obtain ⟨entered, directory⟩ := openSubdirectory_ok first opened
    exact ⟨.inside entered (.here fd), directory⟩
  | cons next names ih =>
    rw [List.intercalate_cons_cons, List.append_assoc, List.singleton_append,
      openSubdirectories_next path currentDirFd _ first] at opened
    cases below : openSubdirectory fs path currentDirFd name with
    | error thrown => simp [below] at opened
    | ok subdirFd =>
      rw [below] at opened
      have later : ∀ component ∈ next :: names, IsName component :=
        fun component member => proper component (by simp [member])
      obtain ⟨descent, directory⟩ := ih later opened (later next (by simp))
      exact ⟨.inside (openSubdirectory_ok first below).1 descent, directory⟩

structure Downward (path : Bytes) (names : List Bytes) : Prop where
  proper : ∀ name ∈ names, IsName name
  shape : path = joinSegments false names

theorem Downward.nil {path : Bytes} (downward : Downward path []) : path = dot := downward.shape

theorem Downward.cons {path name : Bytes} {names : List Bytes} (downward : Downward path (name :: names)) :
    path = [slash].intercalate (name :: names) := by
  simpa [joinSegments_cons] using downward.shape

theorem Downward.relative {path : Bytes} {names : List Bytes} (downward : Downward path names) :
    isGlobal path = false := by
  rw [downward.shape]
  exact joinSegments_head false _ fun segment member =>
    ⟨(downward.proper segment member).no_slash, (downward.proper segment member).nonempty⟩

theorem Downward.no_trailing_slash {path : Bytes} {names : List Bytes} (downward : Downward path names) :
    path.getLast? ≠ some slash := by
  cases names with
  | nil =>
    rw [downward.nil]
    decide
  | cons name names =>
    intro trailing
    have idle := nil_mem_pathSegments trailing
    rw [pathSegments, downward.relative, downward.cons, if_neg (by simp),
      List.splitOn_intercalate slash (fun segment member => (downward.proper segment member).no_slash)
        (by simp)] at idle
    exact (downward.proper [] idle).nonempty rfl

theorem Downward.nulFree {path : Bytes} {names : List Bytes} (downward : Downward path names) : NulFree path := by
  rw [downward.shape]
  exact joinSegments_nulFree false names fun segment member => (downward.proper segment member).nulFree

theorem Downward.walk {path : Bytes} {names : List Bytes} (downward : Downward path names) (directory : List Bytes) :
    walk directory (steps path) = directory ++ names := by
  cases names with
  | nil =>
    rw [downward.nil, List.append_nil]
    rfl
  | cons name names =>
    rw [downward.cons, FileSystem.steps_intercalate downward.proper (by simp), walk_down]

theorem Downward.unique {path : Bytes} {names others : List Bytes} (downward : Downward path names)
    (also : Downward path others) : others = names := by
  have walked := downward.walk []
  rwa [also.walk [], List.nil_append, List.nil_append] at walked

theorem pathname_dot {dirFd : ι} (directory : fs.graph.IsDirectory dirFd) (follow : Bool) :
    fs.pathname follow dirFd dot = .ok dirFd := by
  have here : fs.graph.resolve follow fs.symlinkLimit dirFd [.stay] = .ok dirFd := by
    rw [Graph.resolve_plain _ _ (Graph.enter_stay directory) directory.not_link, Graph.resolve_nil]
  have parsed : cString dot = dot ∧ ¬dot = [] ∧ isGlobal dot = false ∧ steps dot = [.stay] := by decide
  simp only [FileSystem.pathname, parsed, if_false, Bool.false_eq_true, here]

theorem openFile_ok {relativePath : Bytes} {directoryFd fd : ι} {filename : Bytes}
    (opened : openFile fs relativePath directoryFd filename = .ok fd) :
    FileSystem.Opened fs directoryFd filename ⟨false, true⟩ fd := by
  unfold openFile at opened
  cases found : fs.openat directoryFd filename ⟨false, true⟩ with
  | error errno => simp [found] at opened
  | ok other =>
    rw [found] at opened
    obtain rfl := Except.ok.inj opened
    exact FileSystem.openat_ok found

section Shapes

variable {path name first : Bytes} {names : List Bytes}

theorem openFileInInputRoot_dot (downward : Downward path []) (rootDirFd : ι) :
    openFileInInputRoot fs rootDirFd path = openFile fs dot rootDirFd dot := by
  have shape : slash ∉ dot ∧ dot.rtakeWhile (· ≠ slash) = dot := by decide
  rw [downward.nil, openFileInInputRoot]
  simp only [shape, if_neg, not_false_eq_true]

theorem openFileInInputRoot_name (downward : Downward path ([] ++ [name])) (rootDirFd : ι) :
    openFileInInputRoot fs rootDirFd path = openFile fs path rootDirFd name := by
  have proper := downward.proper name (by simp)
  have shape : path = name := by simpa using downward.cons
  rw [shape, openFileInInputRoot, if_neg proper.no_slash, rtakeWhile_plain proper.no_slash]

theorem openDirectoryInInputRoot_names (downward : Downward path (first :: names)) (rootDirFd : ι) :
    openDirectoryInInputRoot fs rootDirFd path =
      openSubdirectories fs path rootDirFd [] ([slash].intercalate (first :: names)) := by
  have present : path ≠ [] := by
    rw [downward.cons]
    cases names <;> simp [List.intercalate_cons_cons, (downward.proper first (by simp)).nonempty]
  rw [openDirectoryInInputRoot, if_neg present, if_neg downward.no_trailing_slash, ← downward.cons]

theorem openFileInInputRoot_snoc (downward : Downward path (first :: names ++ [name])) (rootDirFd : ι) :
    ∃ base, Downward base (first :: names) ∧ openFileInInputRoot fs rootDirFd path =
      match openDirectoryInInputRoot fs rootDirFd base with
      | .error thrown => .error thrown
      | .ok directoryFd => openFile fs path directoryFd name := by
  have proper := downward.proper name (by simp)
  have shape : path = [slash].intercalate (first :: names) ++ slash :: name := by
    rw [downward.cons]
    simpa using intercalate_append slash (by simp : first :: names ≠ []) (by simp : [name] ≠ [])
  have inside : slash ∈ path := by simp [shape]
  refine ⟨[slash].intercalate (first :: names), ⟨fun component member => downward.proper component ?_, ?_⟩, ?_⟩
  next => exact List.mem_append_left [name] member
  next => simp [joinSegments_cons]
  next =>
    rw [openFileInInputRoot, if_pos inside, shape, rtakeWhile_slash _ proper.no_slash,
      rdropWhile_slash _ proper.no_slash, List.dropLast_concat]

end Shapes

theorem openSubdirectory_dot {path : Bytes} {currentDirFd fd : ι}
    (opened : openSubdirectory fs path currentDirFd dot = .ok fd) :
    fd = currentDirFd ∧ fs.graph.IsDirectory fd := by
  unfold openSubdirectory at opened
  cases found : fs.openat currentDirFd dot ⟨true, true⟩ with
  | error errno => simp [found] at opened
  | ok other =>
    rw [found] at opened
    obtain rfl := Except.ok.inj opened
    have correct := FileSystem.openat_ok found
    have reached := correct.reached
    have parsed : cString dot = dot ∧ ¬dot = [] ∧ isGlobal dot = false ∧ steps dot = [.stay] := by decide
    simp only [FileSystem.pathname, parsed, if_false, Bool.false_eq_true, Bool.not_true, Graph.resolve_one] at reached
    cases entered : fs.graph.enter currentDirFd .stay with
    | error fault => simp [entered] at reached
    | ok here =>
      have directory := Graph.isDirectory_of_enter entered
      rw [Graph.enter_stay directory] at entered
      obtain rfl := Except.ok.inj entered
      rw [Graph.enter_stay directory] at reached
      exact ⟨(Except.ok.inj reached).symm, correct.directory rfl⟩

variable {rootDirFd fd : ι} {path : Bytes} {names : List Bytes} (downward : Downward path names)
  (root : fs.graph.IsDirectory rootDirFd)

include downward root

theorem openDirectoryInInputRoot_ok (opened : openDirectoryInInputRoot fs rootDirFd path = .ok fd) :
    fs.graph.Descent rootDirFd names fd ∧ fs.graph.IsDirectory fd := by
  cases names with
  | nil =>
    rw [downward.nil] at opened
    obtain ⟨rfl, directory⟩ := openSubdirectory_dot opened
    exact ⟨.here _, directory⟩
  | cons name names =>
    rw [openDirectoryInInputRoot_names downward] at opened
    exact openSubdirectories_ok downward.proper opened

theorem openFileInInputRoot_ok (opened : openFileInInputRoot fs rootDirFd path = .ok fd) :
    fs.graph.Descent rootDirFd names fd ∧ ¬fs.graph.IsLink fd := by
  cases names using List.reverseRecOn with
  | nil =>
    rw [openFileInInputRoot_dot downward] at opened
    have found := openFile_ok opened
    have reached := found.reached
    rw [pathname_dot root] at reached
    obtain rfl := Except.ok.inj reached
    exact ⟨.here _, found.not_link⟩
  | append_singleton names name =>
    have proper := downward.proper name (by simp)
    cases names with
    | nil =>
      rw [openFileInInputRoot_name downward] at opened
      have found := openFile_ok opened
      exact ⟨.inside (FileSystem.pathname_name proper found.reached) (.here fd), found.not_link⟩
    | cons first names =>
      obtain ⟨base, below, split⟩ := @openFileInInputRoot_snoc ι fs path name first names downward rootDirFd
      rw [split] at opened
      cases there : openDirectoryInInputRoot fs rootDirFd base with
      | error thrown => simp [there] at opened
      | ok directoryFd =>
        rw [there] at opened
        obtain ⟨descent, -⟩ := openDirectoryInInputRoot_ok below root there
        have found := openFile_ok opened
        exact ⟨descent.snoc (FileSystem.pathname_name proper found.reached), found.not_link⟩

theorem directoryInInputRoot_true (inside : directoryInInputRoot fs rootDirFd path = .ok true) :
    ∃ fd, fs.graph.Descent rootDirFd names fd ∧ fs.graph.IsDirectory fd := by
  unfold directoryInInputRoot at inside
  split_ifs at inside with none
  next =>
    cases names with
    | nil => exact ⟨rootDirFd, .here _, root⟩
    | cons name names =>
      have shape := downward.cons
      rw [none] at shape
      cases names <;> simp [List.intercalate_cons_cons, (downward.proper name (by simp)).nonempty] at shape
  next =>
    cases opened : openDirectoryInInputRoot fs rootDirFd path with
    | ok fd => exact ⟨fd, openDirectoryInInputRoot_ok downward root opened⟩
    | error thrown =>
      rw [opened] at inside
      cases thrown <;> simp at inside

omit downward root

section Exactly

def Missing (errno : Nat) : Prop := errno = enoent ∨ errno = enotdir

theorem pathname_name_eq {dirFd : ι} {name : Bytes} (proper : IsName name) :
    fs.pathname false dirFd name = (fs.graph.enter dirFd (.down name)).mapError errnoOf := by
  simp only [FileSystem.pathname, cString_of_nulFree proper.nulFree, proper.nonempty, if_false,
    FileSystem.isName_relative proper, Bool.false_eq_true, FileSystem.steps_of_isName proper, Graph.resolve_one]
  cases fs.graph.enter dirFd (.down name) <;> rfl

theorem missing_of_enter {dirFd : ι} {name : Bytes} {fault : Fault}
    (entered : fs.graph.enter dirFd (.down name) = .error fault) : Missing (errnoOf fault) := by
  unfold Graph.enter at entered
  cases fault with
  | notFound => exact .inl rfl
  | notDirectory => exact .inr rfl
  | loop => grind

variable (granted : ∀ object, fs.denied object = none)

include granted

theorem openat_name {dirFd : ι} {name : Bytes} (proper : IsName name) (directory : Bool) :
    fs.openat dirFd name ⟨directory, true⟩ = match fs.graph.enter dirFd (.down name) with
      | .error fault => .error (errnoOf fault)
      | .ok found =>
        match fs.object found with
        | .symlink _ => .error (if directory then enotdir else eloop)
        | .regular _ _ _ => if directory then .error enotdir else .ok found
        | .directory _ _ _ _ => .ok found := by
  have grants (object : ι) : fs.granted object = .ok object := by simp [FileSystem.granted, granted]
  simp only [FileSystem.openat, Bool.not_true, pathname_name_eq proper, grants]
  cases fs.graph.enter dirFd (.down name) <;> rfl

theorem openSubdirectory_cases (path : Bytes) (currentDirFd : ι) {name : Bytes} (proper : IsName name) :
    (∃ fd, fs.graph.enter currentDirFd (.down name) = .ok fd ∧ fs.graph.IsDirectory fd ∧
      openSubdirectory fs path currentDirFd name = .ok fd) ∨
    ∃ errno what, openSubdirectory fs path currentDirFd name = .error (.systemError errno what) ∧ Missing errno ∧
      ∀ fd, fs.graph.enter currentDirFd (.down name) = .ok fd → ¬fs.graph.IsDirectory fd := by
  simp only [openSubdirectory, openat_name granted proper]
  cases entered : fs.graph.enter currentDirFd (.down name) with
  | error fault => exact .inr ⟨_, _, rfl, missing_of_enter entered, by simp⟩
  | ok found =>
    cases kind : fs.object found with
    | directory parent entries permissions mtime =>
      exact .inl ⟨found, rfl, (FileSystem.isDirectory_iff found).mpr ⟨_, _, _, _, kind⟩, by simp [kind]⟩
    | regular | symlink =>
      refine .inr ⟨enotdir, _, by simp only [kind, if_true]; rfl, .inr rfl, ?_⟩
      intro fd same
      obtain rfl := Except.ok.inj same
      simp [FileSystem.isDirectory_iff, kind]

theorem openSubdirectories_cases (path : Bytes) {currentDirFd : ι} {name : Bytes} {names : List Bytes}
    (proper : ∀ component ∈ name :: names, IsName component) :
    (∃ fd, fs.graph.Descent currentDirFd (name :: names) fd ∧ fs.graph.IsDirectory fd ∧
      openSubdirectories fs path currentDirFd [] ([slash].intercalate (name :: names)) = .ok fd) ∨
    ∃ errno what, openSubdirectories fs path currentDirFd [] ([slash].intercalate (name :: names)) =
      .error (.systemError errno what) ∧ Missing errno ∧
      ∀ fd, fs.graph.Descent currentDirFd (name :: names) fd → ¬fs.graph.IsDirectory fd := by
  have first := proper name (by simp)
  induction names generalizing name currentDirFd with
  | nil =>
    rw [List.intercalate_singleton, openSubdirectories_last path currentDirFd first]
    rcases openSubdirectory_cases granted path currentDirFd first with
      ⟨fd, entered, directory, opened⟩ | ⟨errno, what, failed, missing, none⟩
    next => exact .inl ⟨fd, .inside entered (.here fd), directory, opened⟩
    next =>
      refine .inr ⟨errno, what, failed, missing, fun fd descent => ?_⟩
      cases descent with
      | inside entered below =>
        cases below
        exact none fd entered
  | cons next names ih =>
    have later : ∀ component ∈ next :: names, IsName component :=
      fun component member => proper component (by simp [member])
    rw [List.intercalate_cons_cons, List.append_assoc, List.singleton_append,
      openSubdirectories_next path currentDirFd _ first]
    rcases openSubdirectory_cases granted path currentDirFd first with
      ⟨subdirFd, entered, directory, opened⟩ | ⟨errno, what, failed, missing, none⟩
    next =>
      rw [opened]
      rcases @ih subdirFd next later (later next (by simp)) with
        ⟨fd, descent, isDirectory, below⟩ | ⟨errno, what, failed, missing, none⟩
      next => exact .inl ⟨fd, .inside entered descent, isDirectory, below⟩
      next =>
        refine .inr ⟨errno, what, failed, missing, fun fd descent => ?_⟩
        cases descent with
        | inside entered' below =>
          rw [entered] at entered'
          exact none fd (Except.ok.inj entered' ▸ below)
    next =>
      rw [failed]
      refine .inr ⟨errno, what, rfl, missing, fun fd descent => ?_⟩
      cases descent with
      | inside entered below =>
        cases below with
        | inside deeper _ => exact absurd (Graph.isDirectory_of_enter deeper) (none _ entered)

theorem openFile_cases (relativePath : Bytes) (directoryFd : ι) {name : Bytes} (proper : IsName name) :
    (∃ fd, fs.graph.enter directoryFd (.down name) = .ok fd ∧ ¬fs.graph.IsLink fd ∧
      openFile fs relativePath directoryFd name = .ok fd) ∨
    (∃ fd what, fs.graph.enter directoryFd (.down name) = .ok fd ∧ fs.graph.IsLink fd ∧
      openFile fs relativePath directoryFd name = .error (.systemError eloop what)) ∨
    ∃ errno what, openFile fs relativePath directoryFd name = .error (.systemError errno what) ∧ Missing errno ∧
      ∀ fd, fs.graph.enter directoryFd (.down name) ≠ .ok fd := by
  simp only [openFile, openat_name granted proper]
  cases entered : fs.graph.enter directoryFd (.down name) with
  | error fault => exact .inr (.inr ⟨_, _, rfl, missing_of_enter entered, by simp⟩)
  | ok found =>
    cases kind : fs.object found with
    | regular | directory => exact .inl ⟨found, rfl, by simp [FileSystem.isLink_iff, kind], by simp [kind]⟩
    | symlink target =>
      exact .inr (.inl ⟨found, _, rfl, (FileSystem.isLink_iff found).mpr ⟨target, kind⟩, by simp only [kind]; rfl⟩)

include downward root

theorem openFileInInputRoot_cases :
    (∃ fd, fs.graph.Descent rootDirFd names fd ∧ ¬fs.graph.IsLink fd ∧
      openFileInInputRoot fs rootDirFd path = .ok fd) ∨
    (∃ fd what, fs.graph.Descent rootDirFd names fd ∧ fs.graph.IsLink fd ∧
      openFileInInputRoot fs rootDirFd path = .error (.systemError eloop what)) ∨
    ∃ errno what, openFileInInputRoot fs rootDirFd path = .error (.systemError errno what) ∧ Missing errno ∧
      ∀ fd, ¬fs.graph.Descent rootDirFd names fd := by
  cases names using List.reverseRecOn with
  | nil =>
    have plain := root.not_link
    obtain ⟨parent, entries, permissions, mtime, kind⟩ := (FileSystem.isDirectory_iff rootDirFd).mp root
    refine .inl ⟨rootDirFd, .here rootDirFd, plain, ?_⟩
    rw [openFileInInputRoot_dot downward, openFile]
    simp only [FileSystem.openat, pathname_dot root, kind, FileSystem.granted, granted]
  | append_singleton names name =>
    have proper := downward.proper name (by simp)
    cases names with
    | nil =>
      rw [openFileInInputRoot_name downward]
      rcases openFile_cases granted path rootDirFd proper with
        ⟨fd, entered, plain, opened⟩ | ⟨fd, what, entered, link, failed⟩ | ⟨errno, what, failed, missing, none⟩
      next => exact .inl ⟨fd, .inside entered (.here fd), plain, opened⟩
      next => exact .inr (.inl ⟨fd, what, .inside entered (.here fd), link, failed⟩)
      next =>
        refine .inr (.inr ⟨errno, what, failed, missing, fun fd descent => ?_⟩)
        cases descent with
        | inside entered below => exact none _ entered
    | cons first names =>
      obtain ⟨base, below, split⟩ := @openFileInInputRoot_snoc ι fs path name first names downward rootDirFd
      rw [split, openDirectoryInInputRoot_names below]
      rcases openSubdirectories_cases granted base below.proper with
        ⟨directoryFd, descent, -, opened⟩ | ⟨errno, what, failed, missing, none⟩
      next =>
        rw [opened]
        have last {fd : ι} (whole : fs.graph.Descent rootDirFd (first :: names ++ [name]) fd) :
            fs.graph.enter directoryFd (.down name) = .ok fd := by
          obtain ⟨between, above, beneath⟩ := whole.split
          obtain rfl := descent.unique above
          cases beneath with
          | inside entered there =>
            cases there
            exact entered
        rcases openFile_cases granted path directoryFd proper with
          ⟨fd, entered, plain, found⟩ | ⟨fd, what, entered, link, failed⟩ | ⟨errno, what, failed, missing, none⟩
        next => exact .inl ⟨fd, descent.snoc entered, plain, found⟩
        next => exact .inr (.inl ⟨fd, what, descent.snoc entered, link, failed⟩)
        next => exact .inr (.inr ⟨errno, what, failed, missing, fun fd whole => none fd (last whole)⟩)
      next =>
        rw [failed]
        refine .inr (.inr ⟨errno, what, rfl, missing, fun fd whole => ?_⟩)
        obtain ⟨between, above, beneath⟩ := whole.split
        cases beneath with
        | inside entered _ => exact none between above (Graph.isDirectory_of_enter entered)

end Exactly

end BuildboxCommon.StagedDirectoryUtils
