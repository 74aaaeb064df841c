import BuildboxCommon.StagedDirectory.OpenInInputRoot

set_option autoImplicit false

namespace BuildboxCommon.StagedDirectoryUtils

open ByteString FileUtils LexicalPath PathResolution Posix

variable {ι : Type} {fs : FileSystem ι} {rootDirFd : ι} {path : Bytes} {names : List Bytes}

def IsRegular (fs : FileSystem ι) (object : ι) : Prop :=
  ∃ contents permissions mtime, fs.object object = .regular contents permissions mtime

theorem isRegular_iff (object : ι) :
    IsRegular fs object ↔ ¬fs.graph.IsDirectory object ∧ ¬fs.graph.IsLink object := by
  rw [FileSystem.isDirectory_iff, FileSystem.isLink_iff, IsRegular]
  cases fs.object object <;> simp

theorem downward_of_normalized (normalized : normalizePath path = path) (relative : isGlobal path = false)
    (inside : ¬(path = dotdot ∨ dotdot ++ [slash] <+: path)) : Downward path (normalForm path).names := by
  rw [normalizePath_eq_render] at normalized
  have flat : (normalForm path).ups = 0 := by
    have climbs := leadsUp_iff (normalForm path)
    rw [normalized] at climbs
    have none := climbs.not.mp inside
    omega
  have absolute : (normalForm path).absolute = false := by
    rw [normalForm_absolute, isGlobal_cString, relative]
  refine ⟨(normalForm path).proper, ?_⟩
  conv_lhs => rw [← normalized]
  rw [NormalPath.render, absolute, NormalPath.segments, flat]
  rfl

section Kinds

variable (downward : Downward path names) (root : fs.graph.IsDirectory rootDirFd)
  (granted : ∀ object, fs.denied object = none)

include downward root granted

theorem openDirectoryInInputRoot_cases :
    (∃ fd, fs.graph.Descent rootDirFd names fd ∧ fs.graph.IsDirectory fd ∧
      openDirectoryInInputRoot fs rootDirFd path = .ok fd) ∨
    ∃ errno what, openDirectoryInInputRoot fs rootDirFd path = .error (.systemError errno what) ∧
      ∀ fd, fs.graph.Descent rootDirFd names fd → ¬fs.graph.IsDirectory fd := by
  cases names with
  | nil =>
    have here : openDirectoryInInputRoot fs rootDirFd dot = openSubdirectory fs dot rootDirFd dot := rfl
    obtain ⟨parent, entries, permissions, mtime, kind⟩ := (FileSystem.isDirectory_iff rootDirFd).mp root
    refine .inl ⟨rootDirFd, .here rootDirFd, root, ?_⟩
    rw [downward.nil, here, openSubdirectory]
    simp only [FileSystem.openat, pathname_dot root, kind, FileSystem.granted, granted]
  | cons name names =>
    rw [openDirectoryInInputRoot_names downward]
    rcases openSubdirectories_cases granted path downward.proper with opened | ⟨errno, what, failed, -, none⟩
    next => exact .inl opened
    next => exact .inr ⟨errno, what, failed, none⟩

theorem directoryInInputRoot_iff : directoryInInputRoot fs rootDirFd path = .ok true ↔
    ∃ fd, fs.graph.Descent rootDirFd names fd ∧ fs.graph.IsDirectory fd := by
  constructor
  next => exact directoryInInputRoot_true downward root
  next =>
    rintro ⟨fd, descent, directory⟩
    unfold directoryInInputRoot
    rcases openDirectoryInInputRoot_cases downward root granted with ⟨found, -, -, opened⟩ | ⟨errno, what, -, none⟩
    next =>
      rw [opened]
      exact ite_self _
    next => exact absurd directory (none fd descent)

-- Whatever opens counts as a file, so a directory does too.
theorem fileInInputRoot_iff : fileInInputRoot fs rootDirFd path = .ok true ↔
    ∃ fd, fs.graph.Descent rootDirFd names fd ∧ (IsRegular fs fd ∨ fs.graph.IsDirectory fd) := by
  have kinds (fd : ι) : IsRegular fs fd ∨ fs.graph.IsDirectory fd ↔ ¬fs.graph.IsLink fd := by
    have apart : fs.graph.IsDirectory fd → ¬fs.graph.IsLink fd := fun directory => directory.not_link
    rw [isRegular_iff]
    tauto
  simp only [kinds]
  unfold fileInInputRoot
  rcases openFileInInputRoot_cases downward root granted with
    ⟨fd, descent, plain, opened⟩ | ⟨fd, what, descent, link, failed⟩ | ⟨errno, what, failed, -, none⟩
  next =>
    rw [opened]
    exact ⟨fun _ => ⟨fd, descent, plain⟩, fun _ => rfl⟩
  next =>
    rw [failed]
    constructor
    next => simp
    next =>
      rintro ⟨other, also, plain⟩
      exact absurd (descent.unique also ▸ link) plain
  next =>
    rw [failed]
    constructor
    next => simp
    next =>
      rintro ⟨other, also, -⟩
      exact absurd also (none other)

end Kinds

structure ToldApart (fs : FileSystem ι) (rootDirFd : ι) (path : Bytes) (names : List Bytes) : Prop where
  file : fileInInputRoot fs rootDirFd path = .ok true ↔ ∃ fd, fs.graph.Descent rootDirFd names fd ∧ IsRegular fs fd
  directory : directoryInInputRoot fs rootDirFd path = .ok true ↔
    ∃ fd, fs.graph.Descent rootDirFd names fd ∧ fs.graph.IsDirectory fd
  never_both : ¬(fileInInputRoot fs rootDirFd path = .ok true ∧ directoryInInputRoot fs rootDirFd path = .ok true)

theorem inInputRoot_toldApart_iff (root : fs.graph.IsDirectory rootDirFd) (granted : ∀ object, fs.denied object = none)
    (normalized : normalizePath path = path) (relative : isGlobal path = false)
    (inside : ¬(path = dotdot ∨ dotdot ++ [slash] <+: path)) :
    ToldApart fs rootDirFd path (normalForm path).names ↔
      ¬∃ fd, fs.graph.Descent rootDirFd (normalForm path).names fd ∧ fs.graph.IsDirectory fd := by
  have downward := downward_of_normalized normalized relative inside
  have file := fileInInputRoot_iff downward root granted
  have directory := directoryInInputRoot_iff downward root granted
  constructor
  next =>
    rintro apart ⟨fd, descent, kind⟩
    exact apart.never_both ⟨file.mpr ⟨fd, descent, .inr kind⟩, directory.mpr ⟨fd, descent, kind⟩⟩
  next =>
    intro elsewhere
    refine ⟨file.trans ?_, directory, fun both => elsewhere (directory.mp both.2)⟩
    constructor
    next =>
      rintro ⟨fd, descent, regular | kind⟩
      next => exact ⟨fd, descent, regular⟩
      next => exact absurd ⟨fd, descent, kind⟩ elsewhere
    next =>
      rintro ⟨fd, descent, regular⟩
      exact ⟨fd, descent, .inl regular⟩

section Sample

local instance neZeroObjects : NeZero 3 := ⟨by decide⟩

def fileInSub : FileSystem (Fin 3) where
  root := 0
  currentDirectory := 0
  object
    | 0 => .directory 0 [(text "sub", 1)] 0o755 0
    | 1 => .directory 0 [(text "file", 2)] 0o755 0
    | 2 => .regular (text "Some data...") 0o644 0
  denied _ := none
  symlinkLimit := 40
  named := by
    intro directory parent entries permissions mtime kind entry member
    match directory with
    | 0 | 1 =>
      obtain ⟨-, rfl, -⟩ := FileObject.directory.inj kind
      obtain rfl := List.mem_singleton.mp member
      exact ⟨by decide, by decide, by decide, by decide, by decide⟩
    | 2 => cases kind

theorem fileInSub_root : fileInSub.graph.IsDirectory (0 : Fin 3) := ⟨_, _, rfl⟩

theorem inInputRoot_toldApart_file : ToldApart fileInSub (0 : Fin 3) (text "sub/file") [text "sub", text "file"] := by
  refine (inInputRoot_toldApart_iff fileInSub_root (fun _ => rfl) (by decide) (by decide) (by decide)).mpr ?_
  rintro ⟨fd, descent, directory⟩
  have file : fileInSub.graph.Descent (0 : Fin 3) [text "sub", text "file"] (2 : Fin 3) :=
    .inside rfl (.inside rfl (.here 2))
  obtain rfl := file.unique descent
  obtain ⟨parent, entries, kind⟩ := directory
  cases kind

theorem directory_is_a_file : fileInInputRoot fileInSub (0 : Fin 3) (text "sub") = .ok true ∧
    directoryInInputRoot fileInSub (0 : Fin 3) (text "sub") = .ok true ∧
    ¬ToldApart fileInSub (0 : Fin 3) (text "sub") [text "sub"] :=
  ⟨rfl, rfl, fun apart => apart.never_both ⟨rfl, rfl⟩⟩

end Sample

end BuildboxCommon.StagedDirectoryUtils
