import BuildboxCommon.FileUtils.JoinPathSegments
import BuildboxCommon.FileUtils.MakePathAbsolute

set_option autoImplicit false

namespace BuildboxCommon.FileUtils

open ByteString LexicalPath

namespace NormalPath

def join (b w : NormalPath) : NormalPath where
  absolute := b.absolute
  ups := if b.absolute then 0 else (b.displacement.comp w.displacement).ups
  names := (b.displacement.comp w.displacement).names
  proper := fun name member => by
    rcases List.mem_append.mp member with above | below
    next => exact b.proper name (List.mem_of_mem_take above)
    next => exact w.proper name below
  anchored := fun absolute => by simp [absolute]

theorem displacement_join (b w : NormalPath) : (b.join w).displacement =
    if b.absolute then ⟨0, w.displacement.act b.names⟩ else b.displacement.comp w.displacement := by
  cases absolute : b.absolute <;> simp [join, displacement, Displacement.comp, Displacement.act, absolute]

theorem displacement_absolute {n : NormalPath} (absolute : n.absolute = true) : n.displacement = ⟨0, n.names⟩ := by
  rw [displacement, n.anchored absolute]

end NormalPath

theorem cString_slash {path : Bytes} (free : NulFree path) (rest : Bytes) :
    cString (path ++ slash :: rest) = path ++ slash :: cString rest :=
  cString_append_of_nulFree free _

theorem normalForm_cString (path : Bytes) : normalForm (cString path) = normalForm path := by
  simp [normalForm]

-- The second path counts as relative here, so its steps must be those of its normalised form.
theorem normalForm_slash {path rest : Bytes} (free : NulFree path) (present : path ≠ [])
    (faithful : displacement (steps (cString rest)) = (normalForm rest).displacement) :
    normalForm (path ++ slash :: rest) = (normalForm path).join (normalForm rest) := by
  have global : isGlobal (path ++ slash :: cString rest) = isGlobal path := isGlobal_append present _
  have whole : NulFree (path ++ slash :: cString rest) := by
    rw [← cString_slash free]
    exact cString_nulFree _
  rw [← normalForm_cString (path ++ slash :: rest), cString_slash free]
  apply eq_of_displacement
  next => rw [normalForm_absolute, cString_of_nulFree whole, global, NormalPath.join, normalForm_absolute,
    cString_of_nulFree free]
  next =>
    have same : (normalForm path).absolute = isGlobal path := by rw [normalForm_absolute, cString_of_nulFree free]
    have first := normalForm_displacement free
    rw [normalForm_displacement whole, global, steps_join, NormalPath.displacement_join, same, ← faithful]
    split at first
    next absolute =>
      have names : (normalForm path).names = walk [] (steps path) := congrArg Displacement.names first
      rw [if_pos absolute, if_pos absolute, walk_append, names, walk_eq_act _ (steps (cString rest))]
    next relative =>
      rw [if_neg relative, if_neg relative, displacement_append, Displacement.foldl_extend, first]

theorem faithful_render (w : NormalPath) :
    displacement (steps (cString w.render)) = (normalForm w.render).displacement := by
  rw [NormalPath.cString_render, NormalPath.displacement_render, normalForm_render]

theorem normalForm_join_render {path : Bytes} (free : NulFree path) (present : path ≠ []) (w : NormalPath) :
    normalForm (path ++ slash :: w.render) = (normalForm path).join w := by
  rw [normalForm_slash free present (faithful_render w), normalForm_render]

theorem render_nulFree (n : NormalPath) : NulFree n.render := n.cString_render ▸ cString_nulFree _

theorem escapes_join (b : NormalPath) {w : NormalPath} (flat : w.ups = 0) :
    escapes (b.join w).render b.render w.render = .ok false := by
  have tame := (leadsUp_iff w).not.mpr (by omega)
  rw [not_or] at tame
  have segments : (b.join w).segments = b.segments ++ w.names := by
    have shape : (b.join w).displacement = ⟨b.ups, b.names ++ w.names⟩ := by
      rw [NormalPath.displacement_join]
      cases absolute : b.absolute with
      | true => simp [NormalPath.displacement, Displacement.act, flat, b.anchored absolute]
      | false => simp [NormalPath.displacement, Displacement.comp, flat]
    rw [NormalPath.displacement, Displacement.mk.injEq] at shape
    rw [NormalPath.segments, shape.1, shape.2, ← List.append_assoc]
    rfl
  rw [escapes_eq_false (render_nonempty b)]
  by_cases central : b.render = [slash] ∨ b.render = dot
  next => exact .inr (.inl ⟨central, tame⟩)
  next =>
    rw [not_or] at central
    by_cases none : w.names = []
    next =>
      rw [none, List.append_nil] at segments
      exact .inl (by rw [NormalPath.render, NormalPath.render, segments]; rfl)
    next => exact .inr (.inr ⟨central, _, render_below rfl (segments_present central.1 central.2) none segments⟩)

theorem joinPathSegmentsNoEscape_join {basedir within : Bytes} {force : Bool} (present : basedir ≠ [])
    (flat : (normalForm within).ups = 0) (relative : force = true ∨ (normalForm within).absolute = false) :
    joinPathSegmentsNoEscape basedir within force = .ok ((normalForm basedir).join (normalForm within)).render := by
  have placed : joined (normalForm basedir) (normalForm within) force =
    (normalForm basedir).join (normalForm within) := by
    have apart : ¬(!force && (normalForm within).absolute) = true := by
      rcases relative with forced | relative
      next => simp [forced]
      next => simp [relative]
    rw [joined, if_neg apart, normalForm_join_render (render_nulFree _) (render_nonempty _), normalForm_render]
  rw [joinPathSegmentsNoEscape_ok, placed]
  exact ⟨present, rfl, escapes_join _ flat⟩

def StaysBelow (path : Bytes) : Prop := ¬Leaves (steps (cString path))

theorem faithful_of_staysBelow {path : Bytes} (stays : StaysBelow path) :
    displacement (steps (cString path)) = (normalForm path).displacement := by
  have flat : (displacement (steps (cString path))).ups = 0 := by
    rw [StaysBelow, leaves_iff] at stays
    omega
  have shape := normalForm_displacement (cString_nulFree path)
  rw [normalForm_cString] at shape
  rw [shape]
  split
  next =>
    rw [walk_eq_act]
    rcases named : displacement (steps (cString path)) with ⟨ups, names⟩
    rw [named] at flat
    obtain rfl : ups = 0 := flat
    simp [Displacement.act]
  next => rfl

theorem joinPathSegmentsNoEscape_admits {basedir within : Bytes} {force : Bool} (present : basedir ≠ [])
    (flat : ¬(normalizePath within = dotdot ∨ dotdot ++ [slash] <+: normalizePath within))
    (relative : force = true ∨ isGlobal within = false) :
    joinPathSegmentsNoEscape basedir within force =
        .ok (normalizePath (normalizePath basedir ++ slash :: normalizePath within)) ∧
      (NulFree basedir → isGlobal within = false ∨ StaysBelow within →
        normalizePath (normalizePath basedir ++ slash :: normalizePath within) =
          normalizePath (basedir ++ slash :: within)) := by
  have global : (normalForm within).absolute = isGlobal within := by rw [normalForm_absolute, isGlobal_cString]
  have tame : (normalForm within).ups = 0 := by
    rw [normalizePath_eq_render, leadsUp_iff] at flat
    omega
  have returned := normalForm_join_render (render_nulFree (normalForm basedir)) (render_nonempty _) (normalForm within)
  rw [normalForm_render] at returned
  rw [normalizePath_eq_render (normalizePath basedir ++ _), normalizePath_eq_render basedir,
    normalizePath_eq_render within, returned]
  constructor
  next => exact joinPathSegmentsNoEscape_join present tame (by rwa [global])
  next =>
    intro free below
    have faithful : displacement (steps (cString within)) = (normalForm within).displacement := by
      rcases below with relative | stays
      next => exact (displacement_normalForm (by rwa [isGlobal_cString])).symm
      next => exact faithful_of_staysBelow stays
    rw [normalizePath_eq_render, normalForm_slash free present faithful]

theorem joinPathSegmentsNoEscape_admits_climbing :
    joinPathSegmentsNoEscape (text "../..") (text "a/../b/") false = .ok (text "../../b") ∧
      normalizePath (text "../.." ++ slash :: text "a/../b/") = text "../../b" := by
  obtain ⟨returned, same⟩ := @joinPathSegmentsNoEscape_admits (text "../..") (text "a/../b/") false
    (by decide) (by decide) (by decide)
  have joined : normalizePath (text "../.." ++ slash :: text "a/../b/") = text "../../b" := by decide
  rw [same (by decide) (.inl (by decide)), joined] at returned
  exact ⟨returned, joined⟩

theorem joinPathSegmentsNoEscape_normalizes_first :
    (normalizePath (text "/../b") = text "/b" ∧
      joinPathSegmentsNoEscape (text "/a") (text "/../b") true = .ok (text "/a/b") ∧
      normalizePath (text "/a" ++ slash :: text "/../b") = text "/b") ∧
    (normalizePath (text "c") = text "c" ∧
      joinPathSegmentsNoEscape (text "a" ++ nul :: text "b") (text "c") false = .ok (text "a/c") ∧
      normalizePath ((text "a" ++ nul :: text "b") ++ slash :: text "c") = text "a") := by
  decide

end BuildboxCommon.FileUtils
