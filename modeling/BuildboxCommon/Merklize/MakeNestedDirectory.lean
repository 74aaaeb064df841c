import BuildboxCommon.Client.GrpcRetrier
import BuildboxCommon.Merklize.ToTree

set_option autoImplicit false

namespace BuildboxCommon

open ByteString Effect FileUtils LexicalPath OrderedEntries PathResolution Posix

variable {ι σ : Type}

namespace FileUtils

def isExecutable (object : FileObject ι) : Bool := object.stMode &&& 0o100 ≠ 0

def getFileMtime : FileObject ι → Int
  | .regular _ _ mtime | .directory _ _ _ mtime => mtime / 1000 * 1000
  | .symlink _ => 0

end FileUtils

-- With the digest function of the default build.
def File.load (fs : FileSystem ι) (hash : Bytes → Bytes) (captureProperties : List Bytes) (dirfd : ι) (path : Bytes) :
    EStateM Exn (Session ι σ) File :=
  match fs.openat dirfd path ⟨false, false⟩ with
  | .error errno => throw (.systemError errno (text "Failed to open path \"" ++ path ++ text "\""))
  | .ok fd => do
    recordAccess (.hashed fd)
    match fs.read fd with
    | .error errno => throw (.systemError errno (text "Error in read on file descriptor"))
    | .ok contents =>
      return ⟨makeDigest hash contents, isExecutable (fs.object fd),
        if text "mtime" ∈ captureProperties then some (getFileMtime (fs.object fd)) else none⟩

section Model

variable (fs : FileSystem ι) (hash : Bytes → Bytes) (captureProperties : List Bytes) (followSymlinks : Bool)

def captureEntry
    (recurse : ι → Bytes → Bytes → DigestStringMap → EStateM Exn (Session ι σ) (NestedDirectory × DigestStringMap))
    (dirfd : ι) (newPrefix : Bytes) (captured : NestedDirectory × DigestStringMap) (entityName : Bytes) :
    EStateM Exn (Session ι σ) (NestedDirectory × DigestStringMap) :=
  match fs.fstatat followSymlinks dirfd entityName with
  | .error _ => return captured
  | .ok (.directory _ _ _ _) => do
    let (subdir, fileMap) ← recurse dirfd newPrefix entityName captured.2
    return (captured.1.inSubdir (fun _ => subdir) entityName, fileMap)
  | .ok (.regular _ _ _) => do
    let file ← File.load fs hash captureProperties dirfd entityName
    return (captured.1.setFile file entityName, captured.2.assign file.digest (newPrefix ++ entityName))
  | .ok (.symlink target) => return (captured.1.setSymlink target entityName, captured.2)

def makeNestedDirectory :
    Nat → ι → Bytes → Bytes → DigestStringMap → EStateM Exn (Session ι σ) (NestedDirectory × DigestStringMap)
  | 0, _, _, _, _ => throw .stackOverflow
  | stack + 1, basedirfd, pathPrefix, path, fileMap =>
    match fs.openat basedirfd path ⟨true, false⟩ with
    | .error errno => throw (.systemError errno (text "Failed to open path \"" ++ path ++ text "\""))
    | .ok dirfd =>
      match fs.object dirfd with
      | .directory _ entries _ _ =>
        (entries.map Prod.fst).foldlM (captureEntry fs hash captureProperties followSymlinks
          (makeNestedDirectory stack) dirfd (pathPrefix ++ path ++ text "/")) (NestedDirectory.empty, fileMap)
      | .regular _ _ _ | .symlink _ =>
        throw (.systemError enotdir (text "Failed to open path \"" ++ path ++ text "\""))

end Model

structure Reading (ι : Type) where
  names : List Bytes
  fd : ι

section Spec

variable (fs : FileSystem ι) (hash : Bytes → Bytes) (captureProperties : List Bytes)

def fileAt (fd : ι) : Option File :=
  match fs.read fd with
  | .ok contents => some ⟨makeDigest hash contents, isExecutable (fs.object fd),
      if text "mtime" ∈ captureProperties then some (getFileMtime (fs.object fd)) else none⟩
  | .error _ => none

inductive Captured : ι → NestedDirectory → Prop where
  | mk {dirfd : ι} {nd : NestedDirectory} (directory : fs.graph.IsDirectory dirfd)
    (ordered : NestedDirectory.Ordered nd)
    (files : ∀ name file, get name nd.files = some file ↔
      ∃ fd, fs.graph.enter dirfd (.down name) = .ok fd ∧ fileAt fs hash captureProperties fd = some file)
    (symlinks : ∀ name target, get name nd.symlinks = some target ↔
      ∃ fd, fs.graph.enter dirfd (.down name) = .ok fd ∧ fs.object fd = .symlink target)
    (subdirs : ∀ name, (∃ sub, get name nd.subdirs = some sub) ↔
      ∃ fd, fs.graph.enter dirfd (.down name) = .ok fd ∧ fs.graph.IsDirectory fd)
    (below : ∀ name sub fd, get name nd.subdirs = some sub → fs.graph.enter dirfd (.down name) = .ok fd →
      Captured fd sub) : Captured dirfd nd

inductive HasFile : NestedDirectory → Digest → Prop where
  | here {nd : NestedDirectory} {name : Bytes} {file : File} (found : get name nd.files = some file) :
    HasFile nd file.digest
  | inside {nd sub : NestedDirectory} {name : Bytes} {digest : Digest} (found : get name nd.subdirs = some sub)
    (deeper : HasFile sub digest) : HasFile nd digest

def Reading.digest (reading : Reading ι) : Digest := makeDigest hash ((fs.read reading.fd).toOption.getD [])

structure Reading.Below (dirfd : ι) (reading : Reading ι) : Prop where
  named : reading.names ≠ []
  proper : ∀ name ∈ reading.names, IsName name
  descent : fs.graph.Descent dirfd reading.names reading.fd
  readable : ∃ contents, fs.read reading.fd = .ok contents

def readAt (inner : ι → List (Reading ι)) (dirfd : ι) (name : Bytes) : List (Reading ι) :=
  match fs.graph.enter dirfd (.down name) with
  | .error _ => []
  | .ok fd =>
    match fs.object fd with
    | .regular _ _ _ => [⟨[name], fd⟩]
    | .directory _ _ _ _ => (inner fd).map fun reading => ⟨name :: reading.names, reading.fd⟩
    | .symlink _ => []

def readingOrder : Nat → ι → List (Reading ι)
  | 0, _ => []
  | stack + 1, dirfd =>
    match fs.object dirfd with
    | .directory _ entries _ _ => (entries.map Prod.fst).flatMap (readAt fs (readingOrder stack) dirfd)
    | .regular _ _ _ | .symlink _ => []

def assignAll (newPrefix : Bytes) (readings : List (Reading ι)) (fileMap : DigestStringMap) : DigestStringMap :=
  readings.foldl (fun map reading => map.assign (reading.digest fs hash)
    (newPrefix ++ [slash].intercalate reading.names)) fileMap

end Spec

section Names

variable {fs : FileSystem ι} {dirfd fd : ι} {name : Bytes}

theorem fileAt_isSome {hash : Bytes → Bytes} {captureProperties : List Bytes} :
    (∃ file, fileAt fs hash captureProperties fd = some file) ↔ ∃ contents, fs.read fd = .ok contents := by
  unfold fileAt
  cases fs.read fd <;> simp

theorem digest_of_fileAt {hash : Bytes → Bytes} {captureProperties : List Bytes} {file : File}
    (regular : fileAt fs hash captureProperties fd = some file) (names : List Bytes) :
    Reading.digest fs hash ⟨names, fd⟩ = file.digest := by
  obtain ⟨contents, readable⟩ := fileAt_isSome.mp ⟨file, regular⟩
  simp only [fileAt, readable, Option.some.injEq] at regular
  simp [← regular, Reading.digest, readable, Except.toOption]

theorem not_directory_of_read {contents : Bytes} (readable : fs.read fd = .ok contents) : ¬fs.graph.IsDirectory fd := by
  rw [FileSystem.isDirectory_iff]
  rintro ⟨parent, entries, permissions, mtime, found⟩
  simp [FileSystem.read, found] at readable

theorem not_link_of_read {contents : Bytes} (readable : fs.read fd = .ok contents) : ¬fs.graph.IsLink fd := by
  rw [FileSystem.isLink_iff]
  rintro ⟨target, found⟩
  simp [FileSystem.read, found] at readable

theorem isName_of_enter (entered : fs.graph.enter dirfd (.down name) = .ok fd) : IsName name := by
  unfold Graph.enter at entered
  cases kind : fs.object dirfd with
  | regular contents permissions mtime => simp [FileSystem.graph, kind, FileObject.shape] at entered
  | symlink target => simp [FileSystem.graph, kind, FileObject.shape] at entered
  | directory parent entries permissions mtime =>
    simp only [FileSystem.graph, kind, FileObject.shape] at entered
    cases found : entries.find? fun entry => entry.1 = name with
    | none => simp [found] at entered
    | some entry =>
      have same : entry.1 = name := by simpa using List.find?_some found
      exact same ▸ fs.named dirfd parent entries permissions mtime kind entry (List.mem_of_find?_eq_some found)

theorem pathname_of_enter (entered : fs.graph.enter dirfd (.down name) = .ok fd) (follow : Bool)
    (plain : follow = true → ¬fs.graph.IsLink fd) : fs.pathname follow dirfd name = .ok fd := by
  have proper := isName_of_enter entered
  have resolved : fs.graph.resolve follow fs.symlinkLimit dirfd [.down name] = .ok fd := by
    cases follow with
    | false => rw [Graph.resolve_one, entered]
    | true => rw [Graph.resolve_plain _ _ entered (plain rfl), Graph.resolve_nil]
  simp only [FileSystem.pathname, cString_of_nulFree proper.nulFree, proper.nonempty, if_false,
    FileSystem.isName_relative proper,
    Bool.false_eq_true, FileSystem.steps_of_isName proper, resolved]

theorem fstatat_of_enter (entered : fs.graph.enter dirfd (.down name) = .ok fd) :
    fs.fstatat false dirfd name = .ok (fs.object fd) := by
  rw [FileSystem.fstatat, pathname_of_enter entered false (by simp)]

theorem openat_of_enter {flags : OpenFlags} {opened : ι} (entered : fs.graph.enter dirfd (.down name) = .ok fd)
    (plain : ¬fs.graph.IsLink fd) (run : fs.openat dirfd name flags = .ok opened) : opened = fd := by
  have reached := (FileSystem.openat_ok run).reached
  rw [pathname_of_enter entered _ fun _ => plain] at reached
  exact (Except.ok.inj reached).symm

theorem openat_entered (flags : OpenFlags) (entered : fs.graph.enter dirfd (.down name) = .ok fd)
    (plain : ¬fs.graph.IsLink fd) (granted : fs.granted fd = .ok fd)
    (directory : flags.directory = true → fs.graph.IsDirectory fd) : fs.openat dirfd name flags = .ok fd := by
  unfold FileSystem.openat
  rw [pathname_of_enter entered _ fun _ => plain]
  cases object : fs.object fd with
  | directory parent entries permissions mtime => simpa only [object] using granted
  | symlink target => exact absurd ((FileSystem.isLink_iff fd).mpr ⟨target, object⟩) plain
  | regular contents permissions mtime =>
    have unwanted : flags.directory ≠ true := fun wanted => by
      simpa [FileSystem.isDirectory_iff, object] using directory wanted
    simpa only [object, if_neg unwanted] using granted

theorem enter_of_mem {parent : ι} {entries : List (Bytes × ι)} {permissions : Fin 0o10000} {mtime : Int}
    (object : fs.object dirfd = .directory parent entries permissions mtime) :
    name ∈ entries.map Prod.fst ↔ ∃ fd, fs.graph.enter dirfd (.down name) = .ok fd := by
  simp only [Graph.enter, FileSystem.graph, object, FileObject.shape, List.mem_map]
  cases found : entries.find? fun entry => entry.1 = name with
  | none =>
    rw [List.find?_eq_none] at found
    constructor
    next =>
      rintro ⟨entry, member, same⟩
      exact absurd (by simpa using same) (found entry member)
    next =>
      rintro ⟨fd, impossible⟩
      cases impossible
  | some entry =>
    have same : entry.1 = name := by simpa using List.find?_some found
    exact ⟨fun _ => ⟨entry.2, rfl⟩, fun _ => ⟨entry, List.mem_of_find?_eq_some found, same⟩⟩

theorem Reading.Below.inside {fs : FileSystem ι} {dirfd fd : ι} {name : Bytes} {inner : Reading ι}
    (lower : inner.Below fs fd) (entered : fs.graph.enter dirfd (.down name) = .ok fd) :
    Reading.Below fs dirfd ⟨name :: inner.names, inner.fd⟩ := by
  refine ⟨by simp, fun component listed => ?_, .inside entered lower.descent, lower.readable⟩
  rcases List.mem_cons.mp listed with rfl | later
  next => exact isName_of_enter entered
  next => exact lower.proper component later

end Names

section Scan

variable {β : Type}

def Shows (names : List Bytes) (lookup : Bytes → Option β) (truth : Bytes → β → Prop) : Prop :=
  ∀ name value, lookup name = some value ↔ name ∈ names ∧ truth name value

theorem Shows.skip {names : List Bytes} {lookup : Bytes → Option β} {truth : Bytes → β → Prop} {name : Bytes}
    (shows' : Shows names lookup truth) (never : ∀ value, ¬truth name value) :
    Shows (names ++ [name]) lookup truth := by
  intro probe value
  rw [shows' probe value, List.mem_append, List.mem_singleton]
  constructor
  next => exact fun ⟨member, holds⟩ => ⟨.inl member, holds⟩
  next =>
    rintro ⟨member | rfl, holds⟩
    next => exact ⟨member, holds⟩
    next => exact absurd holds (never value)

theorem Shows.set {names : List Bytes} {lookup changed : Bytes → Option β} {truth : Bytes → β → Prop} {name : Bytes}
    {value : β} (shows' : Shows names lookup truth) (only : ∀ other, truth name other ↔ other = value)
    (stored : changed name = some value) (others : ∀ probe, probe ≠ name → changed probe = lookup probe) :
    Shows (names ++ [name]) changed truth := by
  intro probe other
  rw [List.mem_append, List.mem_singleton]
  by_cases same : probe = name
  next =>
    subst same
    rw [stored, only, Option.some.injEq]
    exact ⟨fun same => ⟨.inr rfl, same.symm⟩, fun both => both.2.symm⟩
  next => rw [others probe same, shows' probe other, or_iff_left same]

variable (fs : FileSystem ι) (hash : Bytes → Bytes) (captureProperties : List Bytes) (dirfd : ι)

structure Scanned (names : List Bytes) (nd : NestedDirectory) : Prop where
  ordered : NestedDirectory.Ordered nd
  files : Shows names (get · nd.files) fun name file =>
    ∃ fd, fs.graph.enter dirfd (.down name) = .ok fd ∧ fileAt fs hash captureProperties fd = some file
  symlinks : Shows names (get · nd.symlinks) fun name target =>
    ∃ fd, fs.graph.enter dirfd (.down name) = .ok fd ∧ fs.object fd = .symlink target
  subdirs : Shows names (fun name => (get name nd.subdirs).map fun _ => ()) fun name _ =>
    ∃ fd, fs.graph.enter dirfd (.down name) = .ok fd ∧ fs.graph.IsDirectory fd
  below : ∀ name sub fd, get name nd.subdirs = some sub → fs.graph.enter dirfd (.down name) = .ok fd →
    Captured fs hash captureProperties fd sub

def Reads (names : List Bytes) (readings : List (Reading ι)) : Prop :=
  ∀ reading, reading ∈ readings ↔ reading.Below fs dirfd ∧ ∃ name ∈ names, reading.names.head? = some name

variable {fs hash captureProperties dirfd}

theorem Scanned.nil : Scanned fs hash captureProperties dirfd [] .empty := by
  refine ⟨.empty, ?_, ?_, ?_, ?_⟩ <;> simp [Shows, NestedDirectory.empty, NestedDirectory.files,
    NestedDirectory.symlinks, NestedDirectory.subdirs]

theorem Reads.nil : Reads fs dirfd [] [] := by simp [Reads]

variable {names : List Bytes} {nd : NestedDirectory} {readings : List (Reading ι)} {name : Bytes} {fd : ι}
  (entered : fs.graph.enter dirfd (.down name) = .ok fd)

include entered

theorem Scanned.setFile (scanned : Scanned fs hash captureProperties dirfd names nd) {file : File}
    (regular : fileAt fs hash captureProperties fd = some file) :
    Scanned fs hash captureProperties dirfd (names ++ [name]) (nd.setFile file name) := by
  obtain ⟨contents, readable⟩ := fileAt_isSome.mp ⟨file, regular⟩
  refine ⟨scanned.ordered.setFile file name, ?_, ?_, ?_, scanned.below⟩
  next =>
    have stored := get_alter name (fun _ => file) scanned.ordered.files
    refine scanned.files.set (fun other => ?_) ((stored name).trans (if_pos rfl)) fun probe differs =>
      (stored probe).trans (if_neg differs)
    simp [entered, regular, eq_comm]
  next =>
    refine scanned.symlinks.skip fun target => ?_
    rintro ⟨other, same, link⟩
    rw [entered] at same
    cases same
    exact not_link_of_read readable ((FileSystem.isLink_iff fd).mpr ⟨target, link⟩)
  next =>
    refine scanned.subdirs.skip fun _ => ?_
    rintro ⟨other, same, directory⟩
    rw [entered] at same
    cases same
    exact not_directory_of_read readable directory

theorem Scanned.setSymlink (scanned : Scanned fs hash captureProperties dirfd names nd) {target : Bytes}
    (link : fs.object fd = .symlink target) :
    Scanned fs hash captureProperties dirfd (names ++ [name]) (nd.setSymlink target name) := by
  refine ⟨scanned.ordered.setSymlink target name, ?_, ?_, ?_, scanned.below⟩
  next =>
    refine scanned.files.skip fun file => ?_
    rintro ⟨other, same, regular⟩
    rw [entered] at same
    cases same
    simp [fileAt, FileSystem.read, link] at regular
  next =>
    have stored := get_alter name (fun _ => target) scanned.ordered.symlinks
    refine scanned.symlinks.set (fun other => ?_) ((stored name).trans (if_pos rfl)) fun probe differs =>
      (stored probe).trans (if_neg differs)
    simp [entered, link, eq_comm]
  next =>
    refine scanned.subdirs.skip fun _ => ?_
    rintro ⟨other, same, directory⟩
    rw [entered] at same
    cases same
    exact directory.not_link ((FileSystem.isLink_iff fd).mpr ⟨target, link⟩)

theorem Scanned.setSubdir (scanned : Scanned fs hash captureProperties dirfd names nd) {sub : NestedDirectory}
    (directory : fs.graph.IsDirectory fd) (captured : Captured fs hash captureProperties fd sub) :
    Scanned fs hash captureProperties dirfd (names ++ [name]) (nd.inSubdir (fun _ => sub) name) := by
  have own : NestedDirectory.Ordered sub := by
    cases captured
    assumption
  have stored := get_alter name (fun _ : Option NestedDirectory => sub) scanned.ordered.subdirs
  refine ⟨scanned.ordered.inSubdir (fun _ _ => own) name, ?_, ?_, ?_, fun probe other fd' found entered' => ?_⟩
  next =>
    refine scanned.files.skip fun file => ?_
    rintro ⟨other, same, regular⟩
    rw [entered] at same
    cases same
    obtain ⟨contents, readable⟩ := fileAt_isSome.mp ⟨file, regular⟩
    exact not_directory_of_read readable directory
  next =>
    refine scanned.symlinks.skip fun target => ?_
    rintro ⟨other, same, link⟩
    rw [entered] at same
    cases same
    exact directory.not_link ((FileSystem.isLink_iff fd).mpr ⟨target, link⟩)
  next =>
    refine scanned.subdirs.set (fun _ => ?_) (congrArg (Option.map _) ((stored name).trans (if_pos rfl)))
      fun probe differs => congrArg (Option.map _) ((stored probe).trans (if_neg differs))
    simp [entered, directory]
  next =>
    have changed : get probe (alter name (fun _ => sub) nd.subdirs) = some other := found
    rw [stored] at changed
    split_ifs at changed with same
    next =>
      obtain rfl := Option.some.inj changed
      rw [same, entered] at entered'
      exact Except.ok.inj entered' ▸ captured
    next => exact scanned.below probe other fd' changed entered'

theorem below_cases {reading : Reading ι} (lower : reading.Below fs dirfd) (first : reading.names.head? = some name) :
    reading = ⟨[name], fd⟩ ∨ ∃ inner : Reading ι, inner.Below fs fd ∧ reading = ⟨name :: inner.names, inner.fd⟩ := by
  obtain ⟨names, target⟩ := reading
  obtain ⟨named, proper, descent, readable⟩ := lower
  cases descent with
  | here => exact absurd rfl named
  | @inside _ next _ other rest step deeper =>
    rw [List.head?_cons, Option.some.injEq] at first
    subst first
    rw [entered] at step
    obtain rfl := Except.ok.inj step
    cases rest with
    | nil =>
      cases deeper
      exact .inl rfl
    | cons second rest =>
      refine .inr ⟨⟨second :: rest, target⟩, ⟨by simp, fun component member => ?_, deeper, readable⟩, rfl⟩
      exact proper component (by simp [member])

theorem below_regular {contents : Bytes} (readable : fs.read fd = .ok contents) (reading : Reading ι) :
    reading ∈ [(⟨[name], fd⟩ : Reading ι)] ↔ reading.Below fs dirfd ∧ reading.names.head? = some name := by
  rw [List.mem_singleton]
  constructor
  next =>
    rintro rfl
    exact ⟨⟨by simp, by simpa using isName_of_enter entered, .inside entered (.here fd), contents, readable⟩, rfl⟩
  next =>
    rintro ⟨lower, first⟩
    rcases below_cases entered lower first with same | ⟨inner, inside, -⟩
    next => exact same
    next =>
      obtain ⟨names, target⟩ := inner
      cases inside.descent with
      | here => exact absurd rfl inside.named
      | inside step _ => exact absurd (Graph.isDirectory_of_enter step) (not_directory_of_read readable)

theorem below_directory (directory : fs.graph.IsDirectory fd) {more : List (Reading ι)}
    (all : ∀ inner, inner ∈ more ↔ inner.Below fs fd) (reading : Reading ι) :
    reading ∈ more.map (fun inner => ⟨name :: inner.names, inner.fd⟩) ↔
      reading.Below fs dirfd ∧ reading.names.head? = some name := by
  rw [List.mem_map]
  constructor
  next =>
    rintro ⟨inner, member, rfl⟩
    exact ⟨((all inner).mp member).inside entered, rfl⟩
  next =>
    rintro ⟨lower, first⟩
    rcases below_cases entered lower first with same | ⟨inner, inside, rfl⟩
    next =>
      obtain ⟨contents, readable⟩ := lower.readable
      rw [same] at readable
      exact absurd directory (not_directory_of_read readable)
    next => exact ⟨inner, (all inner).mpr inside, rfl⟩

theorem below_link {target : Bytes} (link : fs.object fd = .symlink target) (reading : Reading ι) :
    reading ∈ ([] : List (Reading ι)) ↔ reading.Below fs dirfd ∧ reading.names.head? = some name := by
  have linked := (FileSystem.isLink_iff fd).mpr ⟨target, link⟩
  constructor
  next => simp
  next =>
    rintro ⟨lower, first⟩
    obtain ⟨contents, readable⟩ := lower.readable
    rcases below_cases entered lower first with rfl | ⟨inner, inside, -⟩
    next => exact absurd linked (not_link_of_read readable)
    next =>
      obtain ⟨contents, readable⟩ := inside.readable
      exact absurd linked (inside.descent.not_link (not_link_of_read readable))

omit entered in
theorem Reads.snoc (reads : Reads fs dirfd names readings) {more : List (Reading ι)}
    (correct : ∀ reading, reading ∈ more ↔ reading.Below fs dirfd ∧ reading.names.head? = some name) :
    Reads fs dirfd (names ++ [name]) (readings ++ more) := by
  intro reading
  rw [List.mem_append, reads reading, correct reading]
  constructor
  next =>
    rintro (⟨lower, other, member, first⟩ | ⟨lower, first⟩)
    next => exact ⟨lower, other, List.mem_append_left _ member, first⟩
    next => exact ⟨lower, name, by simp, first⟩
  next =>
    rintro ⟨lower, other, member, first⟩
    rcases List.mem_append.mp member with old | new
    next => exact .inl ⟨lower, other, old, first⟩
    next => exact .inr ⟨lower, List.mem_singleton.mp new ▸ first⟩

end Scan

section Run

variable (fs : FileSystem ι) (hash : Bytes → Bytes) (captureProperties : List Bytes)

def Session.hashing (s : Session ι σ) (readings : List (Reading ι)) : Session ι σ :=
  { s with accesses := s.accesses ++ readings.map fun reading => .hashed reading.fd }

theorem Session.hashing_append (s : Session ι σ) (readings more : List (Reading ι)) :
    (s.hashing readings).hashing more = s.hashing (readings ++ more) := by
  simp [Session.hashing]

theorem Session.hashing_nil (s : Session ι σ) : s.hashing [] = s := by simp [Session.hashing]

structure CapturedRun (dirfd : ι) (newPrefix : Bytes) (readings : List (Reading ι)) (before : DigestStringMap)
    (start : Session ι σ) (result : NestedDirectory × DigestStringMap) (s : Session ι σ) : Prop where
  captured : Captured fs hash captureProperties dirfd result.1
  all : ∀ reading, reading ∈ readings ↔ reading.Below fs dirfd
  granted : ∀ reading ∈ readings, fs.granted reading.fd = .ok reading.fd
  fileMap : result.2 = assignAll fs hash newPrefix readings before
  session : s = start.hashing readings

def Stopped (dirfd : ι) (start s : Session ι σ) : Prop :=
  ∃ readings : List (Reading ι), (∀ reading ∈ readings, reading.Below fs dirfd) ∧ s = start.hashing readings

def CapturesFrom (dirfd : ι) (newPrefix : Bytes) (readings : List (Reading ι))
    (program : DigestStringMap → EStateM Exn (Session ι σ) (NestedDirectory × DigestStringMap)) : Prop :=
  ∀ before start, Runs (· = start) (program before)
    (CapturedRun fs hash captureProperties dirfd newPrefix readings before start) (Stopped fs dirfd start)

structure Visited (dirfd : ι) (newPrefix : Bytes) (inner : ι → List (Reading ι)) (before : DigestStringMap)
    (start : Session ι σ) (names : List Bytes) (result : NestedDirectory × DigestStringMap) (s : Session ι σ) :
    Prop where
  scanned : Scanned fs hash captureProperties dirfd names result.1
  reads : Reads fs dirfd names (names.flatMap (readAt fs inner dirfd))
  granted : ∀ reading ∈ names.flatMap (readAt fs inner dirfd), fs.granted reading.fd = .ok reading.fd
  fileMap : result.2 = assignAll fs hash newPrefix (names.flatMap (readAt fs inner dirfd)) before
  session : s = start.hashing (names.flatMap (readAt fs inner dirfd))

variable {fs hash captureProperties} {dirfd : ι} {newPrefix : Bytes} {inner : ι → List (Reading ι)}
  {before : DigestStringMap} {start : Session ι σ} {names : List Bytes} {result : NestedDirectory × DigestStringMap}

theorem Visited.stopped {s : Session ι σ}
    (visited : Visited fs hash captureProperties dirfd newPrefix inner before start names result s)
    {more : List (Reading ι)} (below : ∀ reading ∈ more, reading.Below fs dirfd) :
    Stopped fs dirfd start (s.hashing more) := by
  refine ⟨names.flatMap (readAt fs inner dirfd) ++ more, fun reading member => ?_, by
    rw [visited.session, Session.hashing_append]⟩
  rcases List.mem_append.mp member with old | new
  next => exact ((visited.reads reading).mp old).1
  next => exact below reading new

theorem assignAll_append (readings more : List (Reading ι)) (fileMap : DigestStringMap) :
    assignAll fs hash newPrefix (readings ++ more) fileMap =
      assignAll fs hash newPrefix more (assignAll fs hash newPrefix readings fileMap) :=
  List.foldl_append

theorem assignAll_inside {name : Bytes} {readings : List (Reading ι)} (named : ∀ reading ∈ readings, reading.names ≠ [])
    (fileMap : DigestStringMap) :
    assignAll fs hash newPrefix (readings.map fun inner => ⟨name :: inner.names, inner.fd⟩) fileMap =
      assignAll fs hash (newPrefix ++ name ++ text "/") readings fileMap := by
  induction readings generalizing fileMap with
  | nil => rfl
  | cons reading readings ih =>
    have later := ih fun other member => named other (by simp [member])
    obtain ⟨first, others, shape⟩ := List.exists_cons_of_ne_nil (named reading (by simp))
    have path : newPrefix ++ [slash].intercalate (name :: reading.names) =
        newPrefix ++ name ++ text "/" ++ [slash].intercalate reading.names := by
      have separator : text "/" = [slash] := rfl
      rw [shape, List.intercalate_cons_cons, separator]
      simp
    simp only [assignAll, List.map_cons, List.foldl_cons] at later ⊢
    rw [← later, path]
    rfl

theorem load_runs {name : Bytes} {fd : ι} (entered : fs.graph.enter dirfd (.down name) = .ok fd) {contents : Bytes}
    (readable : fs.read fd = .ok contents) (s₀ : Session ι σ) :
    Runs (· = s₀) (File.load fs hash captureProperties dirfd name)
      (fun file s => fileAt fs hash captureProperties fd = some file ∧ fs.granted fd = .ok fd ∧
        s = s₀.hashing [⟨[name], fd⟩])
      (fun s => s = s₀ ∨ s = s₀.hashing [⟨[name], fd⟩]) := by
  unfold File.load
  cases opened : fs.openat dirfd name ⟨false, false⟩ with
  | error errno => exact .throw fun _ => .inl
  | ok other =>
    obtain rfl := openat_of_enter entered (not_link_of_read readable) opened
    rintro s rfl
    simp only [readable]
    rw [bind_ok _ (rfl : recordAccess (.hashed other) s = .ok _ _)]
    exact ⟨by simp only [fileAt, readable], FileSystem.openat_granted opened, rfl⟩

theorem Visited.snoc {name : Bytes} {s : Session ι σ}
    (visited : Visited fs hash captureProperties dirfd newPrefix inner before start names result s)
    {more : List (Reading ι)} (here : readAt fs inner dirfd name = more)
    (correct : ∀ reading, reading ∈ more ↔ reading.Below fs dirfd ∧ reading.names.head? = some name)
    (granted : ∀ reading ∈ more, fs.granted reading.fd = .ok reading.fd) {after : NestedDirectory × DigestStringMap}
    (scanned : Scanned fs hash captureProperties dirfd (names ++ [name]) after.1)
    (assigned : after.2 = assignAll fs hash newPrefix more result.2) :
    Visited fs hash captureProperties dirfd newPrefix inner before start (names ++ [name]) after (s.hashing more) := by
  have all : (names ++ [name]).flatMap (readAt fs inner dirfd) = names.flatMap (readAt fs inner dirfd) ++ more := by
    rw [List.flatMap_append, List.flatMap_singleton, here]
  refine ⟨scanned, all ▸ visited.reads.snoc correct, ?_, ?_, ?_⟩
  next =>
    rw [all]
    intro reading member
    rcases List.mem_append.mp member with old | new
    next => exact visited.granted reading old
    next => exact granted reading new
  next => rw [assigned, all, assignAll_append, visited.fileMap]
  next => rw [all, visited.session, Session.hashing_append]

section Entry

variable {recurse : ι → Bytes → Bytes → DigestStringMap → EStateM Exn (Session ι σ) (NestedDirectory × DigestStringMap)}
  {name : Bytes} {fd : ι} (entered : fs.graph.enter dirfd (.down name) = .ok fd) {s : Session ι σ}
  (visited : Visited fs hash captureProperties dirfd newPrefix inner before start names result s)

include entered visited

theorem captureLink_visits {target : Bytes} (object : fs.object fd = .symlink target) :
    Visited fs hash captureProperties dirfd newPrefix inner before start (names ++ [name])
      (result.1.setSymlink target name, result.2) s := by
  have here : readAt fs inner dirfd name = [] := by simp only [readAt, entered, object]
  rw [← Session.hashing_nil s]
  exact visited.snoc here (below_link entered object) (fun _ member => absurd member List.not_mem_nil)
    (visited.scanned.setSymlink entered object) rfl

theorem captureFile_runs {contents : Bytes} {permissions : Fin 0o10000} {mtime : Int}
    (object : fs.object fd = .regular contents permissions mtime) :
    Runs (· = s) (File.load fs hash captureProperties dirfd name >>= fun file =>
        pure (result.1.setFile file name, result.2.assign file.digest (newPrefix ++ name)))
      (Visited fs hash captureProperties dirfd newPrefix inner before start (names ++ [name]))
        (Stopped fs dirfd start) := by
  have here : readAt fs inner dirfd name = [⟨[name], fd⟩] := by simp only [readAt, entered, object]
  have readable : fs.read fd = .ok contents := by simp only [FileSystem.read, object]
  have correct := below_regular entered readable
  refine ((load_runs entered readable s).relax fun s' left => ?_).bind fun file => .pure fun s' loaded => ?_
  next =>
    rcases left with rfl | rfl
    next =>
      rw [← Session.hashing_nil s']
      exact visited.stopped fun _ member => absurd member List.not_mem_nil
    next => exact visited.stopped fun reading member => ((correct reading).mp member).1
  next =>
    obtain ⟨regular, granted, rfl⟩ := loaded
    have digest : Reading.digest fs hash ⟨[name], fd⟩ = file.digest := digest_of_fileAt regular _
    refine visited.snoc here correct (by simpa using granted) (visited.scanned.setFile entered regular) ?_
    simp [assignAll, digest]

theorem captureSubdirectory_runs (directory : fs.graph.IsDirectory fd)
    (captures : CapturesFrom fs hash captureProperties fd (newPrefix ++ name ++ text "/") (inner fd)
      (recurse dirfd newPrefix name)) :
    Runs (· = s) (recurse dirfd newPrefix name result.2 >>= fun sub =>
        pure (result.1.inSubdir (fun _ => sub.1) name, sub.2))
      (Visited fs hash captureProperties dirfd newPrefix inner before start (names ++ [name]))
        (Stopped fs dirfd start) := by
  obtain ⟨parent, entries, permissions, mtime, object⟩ := (FileSystem.isDirectory_iff fd).mp directory
  have here : readAt fs inner dirfd name = (inner fd).map fun reading => ⟨name :: reading.names, reading.fd⟩ := by
    simp only [readAt, entered, object]
  have deeper (readings : List (Reading ι)) : s.hashing readings =
      s.hashing (readings.map fun reading => ⟨name :: reading.names, reading.fd⟩) := by
    simp [Session.hashing, Function.comp_def]
  refine ((captures result.2 s).relax fun s' left => ?_).bind fun sub => .pure fun s' run => ?_
  next =>
    obtain ⟨more, lower, rfl⟩ := left
    rw [deeper]
    refine visited.stopped fun reading member => ?_
    obtain ⟨inner, listed, rfl⟩ := List.mem_map.mp member
    exact (lower inner listed).inside entered
  next =>
    obtain ⟨captured, below, granted, fileMap, rfl⟩ := run
    rw [deeper]
    refine visited.snoc here (below_directory entered directory below) (fun reading member => ?_)
      (visited.scanned.setSubdir entered directory captured) ?_
    next =>
      obtain ⟨inner, listed, rfl⟩ := List.mem_map.mp member
      exact granted inner listed
    next => rw [assignAll_inside fun reading member => ((below reading).mp member).named, ← fileMap]

end Entry

theorem captureEntry_runs
    {recurse : ι → Bytes → Bytes → DigestStringMap → EStateM Exn (Session ι σ) (NestedDirectory × DigestStringMap)}
    {name : Bytes} {fd : ι} (entered : fs.graph.enter dirfd (.down name) = .ok fd)
    (captures : fs.graph.IsDirectory fd → CapturesFrom fs hash captureProperties fd (newPrefix ++ name ++ text "/")
      (inner fd) (recurse dirfd newPrefix name)) :
    Runs (Visited fs hash captureProperties dirfd newPrefix inner before start names result)
      (captureEntry fs hash captureProperties false recurse dirfd newPrefix result name)
      (Visited fs hash captureProperties dirfd newPrefix inner before start (names ++ [name]))
        (Stopped fs dirfd start) := by
  intro s visited
  unfold captureEntry
  rw [fstatat_of_enter entered]
  cases object : fs.object fd with
  | symlink target => exact captureLink_visits entered visited object
  | regular contents permissions mtime => exact captureFile_runs entered visited object s rfl
  | directory parent entries permissions mtime =>
    have directory := (FileSystem.isDirectory_iff fd).mpr ⟨parent, entries, permissions, mtime, object⟩
    exact captureSubdirectory_runs entered visited directory (captures directory) s rfl

theorem captureEntries_runs
    {recurse : ι → Bytes → Bytes → DigestStringMap → EStateM Exn (Session ι σ) (NestedDirectory × DigestStringMap)}
    {rest : List Bytes} (listed : ∀ name ∈ rest, ∃ fd, fs.graph.enter dirfd (.down name) = .ok fd)
    (captures : ∀ name fd, fs.graph.enter dirfd (.down name) = .ok fd → fs.graph.IsDirectory fd →
      CapturesFrom fs hash captureProperties fd (newPrefix ++ name ++ text "/") (inner fd)
        (recurse dirfd newPrefix name)) :
    Runs (Visited fs hash captureProperties dirfd newPrefix inner before start names result)
      (rest.foldlM (captureEntry fs hash captureProperties false recurse dirfd newPrefix) result)
      (Visited fs hash captureProperties dirfd newPrefix inner before start (names ++ rest))
        (Stopped fs dirfd start) := by
  induction rest generalizing names result with
  | nil => exact .pure fun s visited => by rwa [List.append_nil]
  | cons name rest ih =>
    obtain ⟨fd, entered⟩ := listed name (by simp)
    rw [List.foldlM_cons]
    refine (captureEntry_runs entered (captures name fd entered)).bind fun result => ?_
    have later := @ih (names ++ [name]) result fun other member => listed other (by simp [member])
    rwa [List.append_assoc, List.singleton_append] at later

theorem Scanned.captured (directory : fs.graph.IsDirectory dirfd)
    (all : ∀ name, name ∈ names ↔ ∃ fd, fs.graph.enter dirfd (.down name) = .ok fd) {nd : NestedDirectory}
    (scanned : Scanned fs hash captureProperties dirfd names nd) : Captured fs hash captureProperties dirfd nd := by
  refine ⟨directory, scanned.ordered, fun name file => ?_, fun name target => ?_, fun name => ?_, scanned.below⟩
  next =>
    rw [scanned.files name file, and_iff_right_iff_imp, all]
    exact fun ⟨fd, entered, _⟩ => ⟨fd, entered⟩
  next =>
    rw [scanned.symlinks name target, and_iff_right_iff_imp, all]
    exact fun ⟨fd, entered, _⟩ => ⟨fd, entered⟩
  next =>
    have shown := scanned.subdirs name ()
    rw [Option.map_eq_some_iff, and_iff_right_of_imp fun ⟨fd, entered, _⟩ => (all name).mpr ⟨fd, entered⟩] at shown
    simpa using shown

theorem makeNestedDirectory_captures (stack : Nat) (basedirfd : ι) (pathPrefix path : Bytes)
    (opens : ∀ opened, fs.openat basedirfd path ⟨true, false⟩ = .ok opened → opened = dirfd) :
    CapturesFrom fs hash captureProperties dirfd (pathPrefix ++ path ++ text "/") (readingOrder fs stack dirfd)
      (@makeNestedDirectory ι σ fs hash captureProperties false stack basedirfd pathPrefix path) := by
  induction stack generalizing basedirfd pathPrefix path dirfd with
  | zero =>
    rintro before start s rfl
    exact ⟨[], by simp, s.hashing_nil.symm⟩
  | succ stack ih =>
    intro before start
    unfold makeNestedDirectory
    have nothing (e : Exn) : Runs (· = start) (throw e : EStateM Exn (Session ι σ) (NestedDirectory × DigestStringMap))
        (CapturedRun fs hash captureProperties dirfd (pathPrefix ++ path ++ text "/")
          (readingOrder fs (stack + 1) dirfd) before start) (Stopped fs dirfd start) :=
      .throw fun s same => ⟨[], by simp, same.trans start.hashing_nil.symm⟩
    cases run : fs.openat basedirfd path ⟨true, false⟩ with
    | error errno => exact nothing _
    | ok opened =>
      obtain rfl := opens opened run
      cases object : fs.object opened with
      | regular contents permissions mtime => simpa only [object] using nothing _
      | symlink target => simpa only [object] using nothing _
      | directory parent entries permissions mtime =>
        simp only [object]
        have directory := (FileSystem.isDirectory_iff opened).mpr ⟨parent, entries, permissions, mtime, object⟩
        have deeper (name : Bytes) (fd : ι) (entered : fs.graph.enter opened (.down name) = .ok fd)
            (below : fs.graph.IsDirectory fd) : CapturesFrom fs hash captureProperties fd
              (pathPrefix ++ path ++ text "/" ++ name ++ text "/") (readingOrder fs stack fd)
              (@makeNestedDirectory ι σ fs hash captureProperties false stack opened (pathPrefix ++ path ++ text "/")
                name) :=
          ih opened _ name fun other found => openat_of_enter entered below.not_link found
        have order : readingOrder fs (stack + 1) opened =
            (entries.map Prod.fst).flatMap (readAt fs (readingOrder fs stack) opened) := by
          simp only [readingOrder, object]
        have visits := @captureEntries_runs ι σ fs hash captureProperties opened (pathPrefix ++ path ++ text "/")
          (readingOrder fs stack) before start [] (.empty, before) _ (entries.map Prod.fst)
          (fun name member => (enter_of_mem object).mp member) deeper
        refine visits.mono (fun s same =>
          ⟨.nil, .nil, by simp, rfl, same.trans start.hashing_nil.symm⟩) fun result s => ?_
        rw [List.nil_append, order]
        rintro ⟨scanned, reads, granted, fileMap, session⟩
        refine ⟨scanned.captured directory fun name => enter_of_mem object, fun reading => ?_, granted,
          fileMap, session⟩
        rw [reads reading, and_iff_left_iff_imp]
        intro lower
        obtain ⟨names, target⟩ := reading
        cases lower.descent with
        | here => exact absurd rfl lower.named
        | @inside _ next _ name rest step deeper => exact ⟨name, (enter_of_mem object).mpr ⟨next, step⟩, rfl⟩

def Openable (fs : FileSystem ι) : Nat → ι → Prop
  | 0, _ => False
  | depth + 1, dirfd => fs.graph.IsDirectory dirfd ∧ ∀ name fd, fs.graph.enter dirfd (.down name) = .ok fd →
      ¬fs.graph.IsLink fd → fs.granted fd = .ok fd ∧ (fs.graph.IsDirectory fd → Openable fs depth fd)

theorem makeNestedDirectory_returns {depth stack : Nat} (openable : Openable fs depth dirfd) (enough : depth ≤ stack)
    {basedirfd : ι} (pathPrefix : Bytes) {path : Bytes} (opened : fs.openat basedirfd path ⟨true, false⟩ = .ok dirfd)
    (fileMap : DigestStringMap) :
    Returns (@makeNestedDirectory ι σ fs hash captureProperties false stack basedirfd pathPrefix path fileMap) := by
  induction depth generalizing stack dirfd basedirfd pathPrefix path fileMap with
  | zero => exact openable.elim
  | succ depth ih =>
    obtain ⟨stack, rfl⟩ := Nat.exists_eq_add_of_le' (Nat.le_of_add_left_le enough)
    obtain ⟨directory, each⟩ := openable
    obtain ⟨parent, entries, permissions, mtime, object⟩ := (FileSystem.isDirectory_iff dirfd).mp directory
    unfold makeNestedDirectory
    simp only [opened, object]
    refine .foldlM (fun captured name member => ?_) _
    obtain ⟨fd, entered⟩ := (enter_of_mem object).mp member
    have below := each name fd entered
    unfold captureEntry
    rw [fstatat_of_enter entered]
    cases kind : fs.object fd with
    | symlink target => exact .pure _
    | regular contents permissions mtime =>
      have plain : ¬fs.graph.IsLink fd := by simp [FileSystem.isLink_iff, kind]
      have load := openat_entered ⟨false, false⟩ entered plain (below plain).1 nofun
      refine Returns.bind ?_ fun file => .pure _
      simp only [File.load, load, FileSystem.read, kind]
      exact fun s => ⟨_, _, rfl⟩
    | directory parent entries permissions mtime =>
      have directory := (FileSystem.isDirectory_iff fd).mpr ⟨_, _, _, _, kind⟩
      obtain ⟨granted, deeper⟩ := below directory.not_link
      have load := openat_entered ⟨true, false⟩ entered directory.not_link granted fun _ => directory
      exact (ih (deeper directory) (Nat.le_of_succ_le_succ enough) _ load _).bind fun sub => .pure _

end Run

theorem hasFile_iff {fs : FileSystem ι} {hash : Bytes → Bytes} {captureProperties : List Bytes} {dirfd : ι}
    {nd : NestedDirectory} (captured : Captured fs hash captureProperties dirfd nd) (digest : Digest) :
    HasFile nd digest ↔ ∃ reading : Reading ι, reading.Below fs dirfd ∧ reading.digest fs hash = digest := by
  constructor
  next =>
    intro has
    induction has generalizing dirfd with
    | @here nd name file found =>
      obtain ⟨-, -, files, -, -, -⟩ := captured
      obtain ⟨fd, entered, regular⟩ := (files name file).mp found
      exact ⟨⟨[name], fd⟩, ⟨by simp, by simpa using isName_of_enter entered, .inside entered (.here fd),
        fileAt_isSome.mp ⟨file, regular⟩⟩, digest_of_fileAt regular _⟩
    | @inside nd sub name digest found deeper ih =>
      obtain ⟨-, -, -, -, subdirs, below⟩ := captured
      obtain ⟨fd, entered, -⟩ := (subdirs name).mp ⟨sub, found⟩
      obtain ⟨inner, lower, same⟩ := ih (below name sub fd found entered)
      exact ⟨⟨name :: inner.names, inner.fd⟩, lower.inside entered, same⟩
  next =>
    rintro ⟨⟨names, target⟩, lower, same⟩
    induction names generalizing dirfd nd with
    | nil => exact absurd rfl lower.named
    | cons name rest ih =>
      obtain ⟨-, -, files, -, subdirs, below⟩ := captured
      obtain ⟨-, proper, descent, readable⟩ := lower
      cases descent with
      | @inside _ fd _ _ _ entered deeper =>
        cases rest with
        | nil =>
          cases deeper
          obtain ⟨file, regular⟩ := fileAt_isSome.mpr readable
          rw [← same, digest_of_fileAt regular]
          exact .here ((files name file).mpr ⟨target, entered, regular⟩)
        | cons second rest =>
          have directory : fs.graph.IsDirectory fd := by
            cases deeper with
            | inside step _ => exact Graph.isDirectory_of_enter step
          obtain ⟨sub, found⟩ := (subdirs name).mpr ⟨fd, entered, directory⟩
          refine .inside found (ih (below name sub fd found entered) ⟨by simp, fun component listed => ?_, deeper,
            readable⟩ same)
          exact proper component (by simp [listed])

end BuildboxCommon
