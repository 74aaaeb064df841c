import BuildboxCommon.Merklize.NestedDirectory

set_option autoImplicit false

namespace BuildboxCommon

open ByteString FileUtils OrderedEntries

inductive Kind where
  | file
  | symlink
  | directory
deriving DecidableEq

inductive Entry where
  | file (file : File)
  | symlink (target : Bytes)
  | directory
deriving DecidableEq

def Entry.kind : Entry → Kind
  | .file _ => .file
  | .symlink _ => .symlink
  | .directory => .directory

abbrev Listing := List Bytes → Entry → Prop

def StrictlyBelow (target path : List Bytes) : Prop := path ≠ [] ∧ path <+: target ∧ path ≠ target

-- An entry of another kind at the same path stays.
def Overlay (old : Listing) (target : List Bytes) (new : Entry) : Listing := fun path entry =>
  path = target ∧ entry = new ∨ entry = .directory ∧ StrictlyBelow target path ∨
    old path entry ∧ ¬(path = target ∧ entry.kind = new.kind)

namespace NestedDirectory

def Here (nd : NestedDirectory) (name : Bytes) : Entry → Prop
  | .file file => get name nd.files = some file
  | .symlink target => get name nd.symlinks = some target
  | .directory => ∃ sub, get name nd.subdirs = some sub

def Holds : NestedDirectory → Listing
  | _, [], _ => False
  | nd, [name], entry => nd.Here name entry
  | nd, name :: next :: path, entry => ∃ sub, get name nd.subdirs = some sub ∧ Holds sub (next :: path) entry

def put : Entry → List Bytes → NestedDirectory → NestedDirectory
  | .file file => place (setFile file)
  | .symlink target => place (setSymlink target)
  | .directory => placeDirectory

@[simp] theorem holds_nil (nd : NestedDirectory) (entry : Entry) : ¬nd.Holds [] entry := by
  simp [Holds]

theorem holds_empty (path : List Bytes) (entry : Entry) : ¬empty.Holds path entry := by
  cases path with
  | nil => simp
  | cons name path =>
    cases path with
    | nil => cases entry <;> simp [Holds, Here, empty, files, symlinks, subdirs]
    | cons next path => simp [Holds, empty, subdirs]

theorem holds_functional {nd : NestedDirectory} {path : List Bytes} {first second : Entry}
    (left : nd.Holds path first) (right : nd.Holds path second) (kind : first.kind = second.kind) :
    first = second := by
  induction path generalizing nd with
  | nil => exact absurd left (holds_nil nd first)
  | cons name path ih =>
    cases path with
    | nil =>
      cases first <;> cases second <;> simp [Entry.kind] at kind
      next file file' =>
        obtain rfl : file = file' := Option.some.inj (left.symm.trans right)
        rfl
      next target target' =>
        obtain rfl : target = target' := Option.some.inj (left.symm.trans right)
        rfl
      next => rfl
    | cons next path =>
      obtain ⟨sub, found, left⟩ := left
      obtain ⟨other, same, right⟩ := right
      obtain rfl : sub = other := Option.some.inj (found.symm.trans same)
      exact ih left right

theorem holds_getD (nd : NestedDirectory) (name next : Bytes) (path : List Bytes) (entry : Entry) :
    ((get name nd.subdirs).getD empty).Holds (next :: path) entry ↔ nd.Holds (name :: next :: path) entry := by
  cases found : get name nd.subdirs with
  | none => simp [Holds, found, holds_empty]
  | some sub => simp [Holds, found]

section InSubdir

variable {nd : NestedDirectory} (ordered : Ordered nd) (change : NestedDirectory → NestedDirectory)
  (name : Bytes)

include ordered

theorem get_inSubdir (probe : Bytes) : get probe (nd.inSubdir change name).subdirs =
    if probe = name then some (change ((get name nd.subdirs).getD empty)) else get probe nd.subdirs :=
  (get_alter name _ ordered.subdirs probe).trans (by congr)

theorem here_inSubdir (probe : Bytes) (entry : Entry) :
    (nd.inSubdir change name).Here probe entry ↔
      nd.Here probe entry ∨ probe = name ∧ entry = .directory := by
  cases entry with
  | file file => simp [Here, inSubdir, files]
  | symlink target => simp [Here, inSubdir, symlinks]
  | directory =>
    simp only [Here, get_inSubdir ordered]
    split_ifs with same <;> simp [same]

theorem holds_inSubdir_self (next : Bytes) (path : List Bytes) (entry : Entry) :
    (nd.inSubdir change name).Holds (name :: next :: path) entry ↔
      (change ((get name nd.subdirs).getD empty)).Holds (next :: path) entry := by
  simp [Holds, get_inSubdir ordered]

theorem holds_inSubdir_other {other : Bytes} (differs : other ≠ name) (next : Bytes) (path : List Bytes)
    (entry : Entry) : (nd.inSubdir change name).Holds (other :: next :: path) entry ↔
      nd.Holds (other :: next :: path) entry := by
  simp [Holds, get_inSubdir ordered, differs]

end InSubdir

theorem overlay_cons (nd : NestedDirectory) (name next first : Bytes) (rest path : List Bytes)
    (new entry : Entry) :
    Overlay nd.Holds (name :: next :: rest) new (name :: first :: path) entry ↔
      Overlay ((get name nd.subdirs).getD empty).Holds (next :: rest) new (first :: path) entry := by
  simp [Overlay, StrictlyBelow, holds_getD]

theorem holds_inSubdir (nd : NestedDirectory) (ordered : Ordered nd)
    (change : NestedDirectory → NestedDirectory) (name next : Bytes) (rest : List Bytes) (new : Entry)
    (changed : ∀ first path entry, (change ((get name nd.subdirs).getD empty)).Holds (first :: path) entry ↔
      Overlay ((get name nd.subdirs).getD empty).Holds (next :: rest) new (first :: path) entry)
    (path : List Bytes) (entry : Entry) :
    (nd.inSubdir change name).Holds path entry ↔
      Overlay nd.Holds (name :: next :: rest) new path entry := by
  match path with
  | [] => simp [Overlay, StrictlyBelow]
  | [first] =>
    have here := here_inSubdir ordered change name first entry
    simp only [Holds, here, Overlay, StrictlyBelow]
    simp
    tauto
  | first :: second :: path =>
    by_cases same : first = name
    next =>
      subst same
      rw [holds_inSubdir_self ordered, changed, overlay_cons]
    next =>
      rw [holds_inSubdir_other ordered change name same]
      simp [Overlay, StrictlyBelow, same]

theorem holds_place {leaf : Bytes → NestedDirectory → NestedDirectory} {new : Entry}
    (leaf_holds : ∀ name nd, Ordered nd → ∀ path entry,
      (leaf name nd).Holds path entry ↔ Overlay nd.Holds [name] new path entry)
    {segments : List Bytes} (present : segments ≠ []) (inner : ∀ segment ∈ segments.dropLast, segment ≠ [])
    {nd : NestedDirectory} (ordered : Ordered nd) (path : List Bytes) (entry : Entry) :
    (nd.place leaf segments).Holds path entry ↔ Overlay nd.Holds segments new path entry := by
  induction segments generalizing nd path entry with
  | nil => contradiction
  | cons name segments ih =>
    cases segments with
    | nil => exact leaf_holds name nd ordered path entry
    | cons next rest =>
      have named : name ≠ [] := inner name (by simp)
      rw [place, if_neg named]
      refine holds_inSubdir nd ordered _ name next rest new (fun first path entry => ?_) path entry
      refine ih (by simp) (fun segment member => inner segment ?_) ?_ (first :: path) entry
      next => simp [member]
      next => exact Ordered.getD fun sub found => ordered.of_get found

theorem overlay_one (nd : NestedDirectory) (name : Bytes) (new : Entry) (path : List Bytes) (entry : Entry) :
    Overlay nd.Holds [name] new path entry ↔ path = [name] ∧ entry = new ∨
      nd.Holds path entry ∧ ¬(path = [name] ∧ entry.kind = new.kind) := by
  have nothing : ¬StrictlyBelow [name] path := by
    rintro ⟨nonempty, within, differs⟩
    rcases List.prefix_cons_iff.mp within with none | ⟨rest, shape, inside⟩
    next => exact nonempty none
    next => exact differs (by rw [shape, List.prefix_nil.mp inside])
  simp [Overlay, nothing]

theorem setFile_holds (file : File) (name : Bytes) (nd : NestedDirectory) (ordered : Ordered nd)
    (path : List Bytes) (entry : Entry) :
    (nd.setFile file name).Holds path entry ↔ Overlay nd.Holds [name] (.file file) path entry := by
  rw [overlay_one]
  match path with
  | [] => simp
  | [first] =>
    cases entry with
    | file stored =>
      have found := get_alter name (fun _ => file) ordered.files first
      by_cases same : first = name
      next =>
        rw [if_pos same] at found
        simp only [Holds, Here, setFile, files] at found ⊢
        rw [found]
        simp [same, Entry.kind, eq_comm]
      next =>
        rw [if_neg same] at found
        simp only [Holds, Here, setFile, files] at found ⊢
        rw [found]
        simp [same]
    | symlink target => simp [Holds, Here, setFile, symlinks, Entry.kind]
    | directory => simp [Holds, Here, setFile, subdirs, Entry.kind]
  | first :: second :: path => simp [Holds, setFile, subdirs]

theorem setSymlink_holds (target name : Bytes) (nd : NestedDirectory) (ordered : Ordered nd)
    (path : List Bytes) (entry : Entry) :
    (nd.setSymlink target name).Holds path entry ↔
      Overlay nd.Holds [name] (.symlink target) path entry := by
  rw [overlay_one]
  match path with
  | [] => simp
  | [first] =>
    cases entry with
    | symlink stored =>
      have found := get_alter name (fun _ => target) ordered.symlinks first
      by_cases same : first = name
      next =>
        rw [if_pos same] at found
        simp only [Holds, Here, setSymlink, symlinks] at found ⊢
        rw [found]
        simp [same, Entry.kind, eq_comm]
      next =>
        rw [if_neg same] at found
        simp only [Holds, Here, setSymlink, symlinks] at found ⊢
        rw [found]
        simp [same]
    | file file => simp [Holds, Here, setSymlink, files, Entry.kind]
    | directory => simp [Holds, Here, setSymlink, subdirs, Entry.kind]
  | first :: second :: path => simp [Holds, setSymlink, subdirs]

theorem inSubdir_holds (name : Bytes) (nd : NestedDirectory) (ordered : Ordered nd) (path : List Bytes)
    (entry : Entry) :
    (nd.inSubdir id name).Holds path entry ↔ Overlay nd.Holds [name] .directory path entry := by
  rw [overlay_one]
  match path with
  | [] => simp
  | [first] =>
    have here := here_inSubdir ordered id name first entry
    simp only [Holds, here]
    by_cases same : first = name
    next => cases entry <;> simp [same, Entry.kind]
    next => simp [same]
  | first :: second :: path =>
    by_cases same : first = name
    next =>
      subst same
      rw [holds_inSubdir_self ordered, id, holds_getD]
      simp
    next =>
      rw [holds_inSubdir_other ordered id name same]
      simp

-- The test for a lone slash only matters for paths with empty segments.
theorem placeDirectory_eq {segments : List Bytes} (inner : ∀ segment ∈ segments.dropLast, segment ≠ [])
    (nd : NestedDirectory) : nd.placeDirectory segments = nd.place (inSubdir id) segments := by
  induction segments generalizing nd with
  | nil => rfl
  | cons name segments ih =>
    cases segments with
    | nil => rfl
    | cons next rest =>
      have named : name ≠ [] := inner name (by simp)
      have below := ih fun segment member => inner segment (by simp [member])
      have same : placeDirectory (next :: rest) = place (inSubdir id) (next :: rest) := funext below
      rw [placeDirectory, place, if_neg (by simp [named]), if_neg named, if_neg named, same]

structure Placeable (segments : List Bytes) : Prop where
  present : segments ≠ []
  inner : ∀ segment ∈ segments.dropLast, segment ≠ []

theorem holds_put {segments : List Bytes} (placeable : Placeable segments) (new : Entry)
    {nd : NestedDirectory} (ordered : Ordered nd) (path : List Bytes) (entry : Entry) :
    (nd.put new segments).Holds path entry ↔ Overlay nd.Holds segments new path entry := by
  cases new with
  | file file => exact holds_place (setFile_holds file) placeable.present placeable.inner ordered path entry
  | symlink target =>
    exact holds_place (setSymlink_holds target) placeable.present placeable.inner ordered path entry
  | directory =>
    rw [put, placeDirectory_eq placeable.inner]
    exact holds_place inSubdir_holds placeable.present placeable.inner ordered path entry

theorem Ordered.put {nd : NestedDirectory} (ordered : Ordered nd) (new : Entry) (segments : List Bytes) :
    Ordered (nd.put new segments) := by
  cases new with
  | file file => exact ordered.place (fun name _ sorted => sorted.setFile file name) segments
  | symlink target => exact ordered.place (fun name _ sorted => sorted.setSymlink target name) segments
  | directory => exact ordered.placeDirectory segments

theorem ext_of_holds {first second : NestedDirectory} (left : Ordered first) (right : Ordered second)
    (same : ∀ path entry, first.Holds path entry ↔ second.Holds path entry) : first = second := by
  induction first using NestedDirectory.induction generalizing second with
  | step files symlinks subdirs ih =>
    obtain ⟨files', symlinks', subdirs'⟩ := second
    have sameFiles : files = files' :=
      sorted_ext left.files right.files fun name => Option.ext fun file => same [name] (.file file)
    have sameSymlinks : symlinks = symlinks' :=
      sorted_ext left.symlinks right.symlinks fun name => Option.ext fun target => same [name] (.symlink target)
    have sameSubdirs : subdirs = subdirs' := by
      refine sorted_ext left.subdirs right.subdirs fun name => ?_
      have both : (∃ sub, get name subdirs = some sub) ↔ ∃ sub, get name subdirs' = some sub :=
        same [name] .directory
      cases found : get name subdirs with
      | none =>
        cases other : get name subdirs' with
        | none => rfl
        | some sub => simp [found, other] at both
      | some sub =>
        obtain ⟨sub', other⟩ := both.mp ⟨sub, found⟩
        have below : sub = sub' := by
          refine ih (name, sub) (mem_of_get found) (left.of_get found) (right.of_get other) ?_
          intro path entry
          cases path with
          | nil => simp
          | cons next path =>
            have deeper := same (name :: next :: path) entry
            simpa [Holds, NestedDirectory.subdirs, found, other] using deeper
        rw [other, below]
    rw [sameFiles, sameSymlinks, sameSubdirs]

end NestedDirectory

end BuildboxCommon
