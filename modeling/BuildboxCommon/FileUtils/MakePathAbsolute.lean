import BuildboxCommon.Exceptions
import BuildboxCommon.FileUtils.PathPrefix

set_option autoImplicit false

namespace BuildboxCommon.FileUtils

open ByteString LexicalPath

def makePathAbsolute (path cwd : Bytes) : Except Exn Bytes :=
  if cwd = [] ∨ cwd.head? ≠ some slash then
    .error (.runtimeError (text "cwd must be an absolute path: [" ++ cwd ++ text "]"))
  else
    let fullPath := if path.head? ≠ some slash then cwd ++ slash :: path else path
    let normalizedPath := normalizePath fullPath
    if path.getLast? = some slash ∧ normalizedPath.getLast? ≠ some slash then
      .ok (normalizedPath ++ [slash])
    else .ok normalizedPath

theorem makePathAbsolute_total {dPath : Bytes} (absolute : dPath.head? = some slash) (path : Bytes) :
    ∃ absolutePath, makePathAbsolute path dPath = .ok absolutePath := by
  have present : ¬(dPath = [] ∨ dPath.head? ≠ some slash) := by
    rintro (rfl | other)
    next => simp at absolute
    next => exact other absolute
  unfold makePathAbsolute
  rw [if_neg present]
  dsimp only
  split_ifs <;> exact ⟨_, rfl⟩

theorem displacement_normalForm {path : Bytes} (relative : isGlobal (cString path) = false) :
    (normalForm path).displacement = displacement (steps (cString path)) := by
  simp [normalForm, relative, NormalPath.displacement]

theorem normalForm_displacement {path : Bytes} (free : NulFree path) : (normalForm path).displacement =
    if isGlobal path then ⟨0, walk [] (steps path)⟩ else displacement (steps path) := by
  unfold normalForm
  simp only [cString_of_nulFree free]
  split <;> rfl

theorem isGlobal_append {path : Bytes} (present : path ≠ []) (rest : Bytes) :
    isGlobal (path ++ rest) = isGlobal path := by
  obtain ⟨byte, bytes, rfl⟩ := List.exists_cons_of_ne_nil present
  rfl

theorem eq_of_displacement {n m : NormalPath} (absolute : n.absolute = m.absolute)
    (displaced : n.displacement = m.displacement) : n = m := by
  rcases n with ⟨_, _, _, _, _⟩
  rcases m with ⟨_, _, _, _, _⟩
  simp_all [NormalPath.displacement]

theorem normalForm_join {first second : Bytes} (relative : isGlobal first = false)
    (present : first ≠ []) (free : NulFree first) (rest : NulFree second) :
    normalForm (normalizePath first ++ slash :: second) = normalForm (first ++ slash :: second) := by
  have joined {start : Bytes} (free : NulFree start) :
      cString (start ++ slash :: second) = start ++ slash :: second := by
    apply cString_of_nulFree
    rw [← List.singleton_append, nulFree_append, nulFree_append]
    exact ⟨free, by decide, rest⟩
  have normalised : NulFree (normalizePath first) := by
    rw [normalizePath_eq_render, ← NormalPath.cString_render]
    exact cString_nulFree _
  have before : isGlobal (first ++ slash :: second) = false := by
    obtain ⟨byte, bytes, rfl⟩ := List.exists_cons_of_ne_nil present
    exact relative
  have after : isGlobal (normalizePath first ++ slash :: second) = false := by
    rw [normalizePath_eq_render, isGlobal_join, normalForm_absolute, cString_of_nulFree free, relative]
  apply eq_of_displacement
  next => rw [normalForm_absolute, normalForm_absolute, joined free, joined normalised, before, after]
  next =>
    rw [← joined normalised] at after
    rw [← joined free] at before
    rw [displacement_normalForm after, displacement_normalForm before, joined free, joined normalised,
      steps_join, steps_join, displacement_append, displacement_append, normalizePath_eq_render,
      NormalPath.displacement_render, displacement_normalForm (by rwa [cString_of_nulFree free]),
      cString_of_nulFree free]

end BuildboxCommon.FileUtils
