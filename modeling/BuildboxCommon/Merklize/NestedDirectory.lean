import BuildboxCommon.FileUtils.NormalizePath
import BuildboxCommon.Protos
import BuildboxCommon.Shared.OrderedEntries
import BuildboxCommon.Shared.UnorderedMap

set_option autoImplicit false

namespace BuildboxCommon

open ByteString FileUtils OrderedEntries

-- `mtime` counts nanoseconds since the epoch.
structure File where
  digest : Digest
  executable : Bool
  mtime : Option Int
deriving DecidableEq

def makeTimestamp (mtime : Int) : Timestamp :=
  let usec := mtime.tdiv 1000
  ⟨usec / 1000000, usec % 1000000 * 1000⟩

def File.toFilenode (file : File) (name : Bytes) : FileNode where
  name := name
  digest := file.digest
  isExecutable := file.executable
  nodeProperties := file.mtime.map fun mtime => ⟨[], some (makeTimestamp mtime), none⟩

abbrev DigestStringMap := UnorderedMap Digest.key Bytes

inductive NestedDirectory where
  | mk (files : List (Bytes × File)) (symlinks : List (Bytes × Bytes))
    (subdirs : List (Bytes × NestedDirectory))

namespace NestedDirectory

def files : NestedDirectory → List (Bytes × File)
  | ⟨files, _, _⟩ => files

def symlinks : NestedDirectory → List (Bytes × Bytes)
  | ⟨_, symlinks, _⟩ => symlinks

def subdirs : NestedDirectory → List (Bytes × NestedDirectory)
  | ⟨_, _, subdirs⟩ => subdirs

def empty : NestedDirectory := ⟨[], [], []⟩

def setFile (file : File) (name : Bytes) (nd : NestedDirectory) : NestedDirectory :=
  ⟨alter name (fun _ => file) nd.files, nd.symlinks, nd.subdirs⟩

def setSymlink (target name : Bytes) (nd : NestedDirectory) : NestedDirectory :=
  ⟨nd.files, alter name (fun _ => target) nd.symlinks, nd.subdirs⟩

-- `(*d_subdirs)[subdirKey]` creates an empty subdirectory where there is none.
def inSubdir (change : NestedDirectory → NestedDirectory) (subdirKey : Bytes) (nd : NestedDirectory) :
    NestedDirectory :=
  ⟨nd.files, nd.symlinks, alter subdirKey (fun old => change (old.getD empty)) nd.subdirs⟩

-- `add` and `addSymlink` descend alike: an empty segment stays in the same directory.
def place (leaf : Bytes → NestedDirectory → NestedDirectory) :
    List Bytes → NestedDirectory → NestedDirectory
  | [], nd => nd
  | [name], nd => leaf name nd
  | subdirKey :: next :: rest, nd =>
    if subdirKey = [] then place leaf (next :: rest) nd
    else inSubdir (place leaf (next :: rest)) subdirKey nd

def add (file : File) (relativePath : Bytes) (nd : NestedDirectory) : NestedDirectory :=
  place (setFile file) ((cString relativePath).splitOn slash) nd

def addSymlink (target relativePath : Bytes) (nd : NestedDirectory) : NestedDirectory :=
  place (setSymlink target) ((cString relativePath).splitOn slash) nd

-- Unlike its siblings it ignores a remaining path of a single slash.
def placeDirectory : List Bytes → NestedDirectory → NestedDirectory
  | [], nd => nd
  | [name], nd => inSubdir id name nd
  | subdirKey :: next :: rest, nd =>
    if subdirKey = [] ∧ next = [] ∧ rest = [] then nd
    else if subdirKey = [] then placeDirectory (next :: rest) nd
    else inSubdir (placeDirectory (next :: rest)) subdirKey nd

def addDirectory (directory : Bytes) (nd : NestedDirectory) : NestedDirectory :=
  placeDirectory ((cString directory).splitOn slash) nd

def symlinkNode (entry : Bytes × Bytes) : SymlinkNode := ⟨entry.1, entry.2, none⟩

section ToDigest

variable (hash : Bytes → Bytes) (codec : Encoding Directory)

mutual

def toDigest : NestedDirectory → DigestStringMap → Digest × DigestStringMap
  | ⟨files, symlinks, subdirs⟩, digestMap =>
    let (directories, digestMap) := subdirNodes subdirs digestMap
    let directoryMessage : Directory :=
      ⟨files.map fun entry => entry.2.toFilenode entry.1, directories, symlinks.map symlinkNode, none⟩
    let blob := codec.serializeAsString directoryMessage
    let digest := makeDigest hash blob
    (digest, digestMap.assign digest blob)

def subdirNodes : List (Bytes × NestedDirectory) → DigestStringMap → List DirectoryNode × DigestStringMap
  | [], digestMap => ([], digestMap)
  | (name, subdir) :: rest, digestMap =>
    let (subdirDigest, digestMap) := toDigest subdir digestMap
    let (directories, digestMap) := subdirNodes rest digestMap
    (⟨name, subdirDigest⟩ :: directories, digestMap)

end

end ToDigest

theorem induction {motive : NestedDirectory → Prop}
    (step : ∀ files symlinks subdirs, (∀ entry ∈ subdirs, motive entry.2) → motive ⟨files, symlinks, subdirs⟩)
    (nd : NestedDirectory) : motive nd :=
  @NestedDirectory.rec motive (fun subdirs => ∀ entry ∈ subdirs, motive entry.2)
    (fun entry => motive entry.2) (fun files symlinks subdirs => step files symlinks subdirs)
    (by simp)
    (fun first rest ihFirst ihRest entry member => by
      rcases List.mem_cons.mp member with rfl | later
      next => exact ihFirst
      next => exact ihRest entry later)
    (fun _ _ ih => ih) nd

inductive Ordered : NestedDirectory → Prop where
  | mk {files : List (Bytes × File)} {symlinks : List (Bytes × Bytes)}
    {subdirs : List (Bytes × NestedDirectory)} (files_sorted : Sorted files)
    (symlinks_sorted : Sorted symlinks) (subdirs_sorted : Sorted subdirs)
    (subdirs_ordered : ∀ entry ∈ subdirs, Ordered entry.2) : Ordered ⟨files, symlinks, subdirs⟩

namespace Ordered

variable {nd : NestedDirectory}

theorem files (ordered : Ordered nd) : Sorted nd.files := by
  cases ordered
  assumption

theorem symlinks (ordered : Ordered nd) : Sorted nd.symlinks := by
  cases ordered
  assumption

theorem subdirs (ordered : Ordered nd) : Sorted nd.subdirs := by
  cases ordered
  assumption

theorem subdir (ordered : Ordered nd) {entry : Bytes × NestedDirectory} (member : entry ∈ nd.subdirs) :
    Ordered entry.2 := by
  cases ordered with
  | mk _ _ _ all => exact all entry member

theorem of_get (ordered : Ordered nd) {name : Bytes} {sub : NestedDirectory}
    (found : get name nd.subdirs = some sub) : Ordered sub :=
  ordered.subdir (mem_of_get found)

theorem empty : Ordered NestedDirectory.empty := ⟨sorted_nil, sorted_nil, sorted_nil, by simp⟩

theorem setFile (ordered : Ordered nd) (file : File) (name : Bytes) : Ordered (nd.setFile file name) :=
  ⟨sorted_alter _ ordered.files, ordered.symlinks, ordered.subdirs, fun _ member => ordered.subdir member⟩

theorem setSymlink (ordered : Ordered nd) (target name : Bytes) : Ordered (nd.setSymlink target name) :=
  ⟨ordered.files, sorted_alter _ ordered.symlinks, ordered.subdirs, fun _ member => ordered.subdir member⟩

theorem getD {old : Option NestedDirectory} (all : ∀ value, old = some value → Ordered value) :
    Ordered (old.getD NestedDirectory.empty) := by
  cases old with
  | none => exact empty
  | some value => exact all value rfl

theorem inSubdir (ordered : Ordered nd) {change : NestedDirectory → NestedDirectory}
    (keeps : ∀ sub, Ordered sub → Ordered (change sub)) (name : Bytes) : Ordered (nd.inSubdir change name) :=
  ⟨ordered.files, ordered.symlinks, sorted_alter _ ordered.subdirs,
    forall_alter (fun _ member => ordered.subdir member) fun _ all => keeps _ (getD all)⟩

theorem place (ordered : Ordered nd) {leaf : Bytes → NestedDirectory → NestedDirectory}
    (keeps : ∀ name sub, Ordered sub → Ordered (leaf name sub)) (segments : List Bytes) :
    Ordered (nd.place leaf segments) := by
  induction segments generalizing nd with
  | nil => exact ordered
  | cons segment segments ih =>
    cases segments with
    | nil => exact keeps segment nd ordered
    | cons next rest =>
      unfold NestedDirectory.place
      split
      next => exact ih ordered
      next => exact ordered.inSubdir (fun sub sorted => ih sorted) segment

theorem placeDirectory (ordered : Ordered nd) (segments : List Bytes) :
    Ordered (nd.placeDirectory segments) := by
  induction segments generalizing nd with
  | nil => exact ordered
  | cons segment segments ih =>
    cases segments with
    | nil => exact ordered.inSubdir (fun _ sorted => sorted) segment
    | cons next rest =>
      unfold NestedDirectory.placeDirectory
      split
      next => exact ordered
      next =>
        split
        next => exact ih ordered
        next => exact ordered.inSubdir (fun sub sorted => ih sorted) segment

end Ordered

end NestedDirectory

end BuildboxCommon
