import BuildboxCommon.Exceptions
import BuildboxCommon.FileUtils.PathPrefix

set_option autoImplicit false

namespace BuildboxCommon.FileUtils

open ByteString LexicalPath

def joinPathSegments (firstSegment secondSegment : Bytes) (forceSecondSegmentRelative : Bool) :
    Except Exn Bytes :=
  if firstSegment = [] ∨ secondSegment = [] then
    .error (.runtimeError (text "Both path segments must be non-empty. firstSegment=[" ++
      firstSegment ++ text "], secondSegment=[" ++ secondSegment ++ text "]"))
  else
    let firstSegmentNormalized := normalizePath firstSegment
    let secondSegmentNormalized := normalizePath secondSegment
    if !forceSecondSegmentRelative && isGlobal secondSegmentNormalized then
      .ok secondSegmentNormalized
    else
      .ok (normalizePath (firstSegmentNormalized ++ slash :: secondSegmentNormalized))

-- `path.find(base) == 0` and `path.substr(0, base.size()) == base` both say that `base` is a prefix.
def escapes (joinedPath normalizedBaseDir normalizedPathWithinBaseDir : Bytes) : Except Exn Bool :=
  if joinedPath = normalizedBaseDir then .ok false
  else if normalizedBaseDir = [slash] ∨ normalizedBaseDir = [] ∨ normalizedBaseDir = dot then
    .ok (!(normalizedPathWithinBaseDir ≠ dotdot ∧
      !(dotdot ++ [slash]).isPrefixOf normalizedPathWithinBaseDir))
  else if normalizedBaseDir.isPrefixOf joinedPath then
    if joinedPath.length ≥ normalizedBaseDir.length then
      match joinedPath[normalizedBaseDir.length]? with
      | none => .error .outOfRange
      | some byte => .ok (byte ≠ slash)
    else .ok true
  else .ok true

def joinPathSegmentsNoEscape (basedir pathWithinBasedir : Bytes)
    (forceRelativePathWithinBaseDir : Bool) : Except Exn Bytes := do
  let normalizedBaseDir := normalizePath basedir
  let normalizedPathWithinBaseDir := normalizePath pathWithinBasedir
  let joinedPath ←
    joinPathSegments basedir normalizedPathWithinBaseDir forceRelativePathWithinBaseDir
  if ← escapes joinedPath normalizedBaseDir normalizedPathWithinBaseDir then
    throw (.runtimeError (text "Detected escaping path while joining basedir=[" ++ basedir ++
      text "] and pathWithinBasedir=[" ++ pathWithinBasedir ++
      text "]. Resulting escaping path=[" ++ joinedPath ++ text "]."))
  return joinedPath

theorem escapes_eq_false {joined base within : Bytes} (present : base ≠ []) :
    escapes joined base within = .ok false ↔ joined = base ∨
      ((base = [slash] ∨ base = dot) ∧ within ≠ dotdot ∧ ¬ dotdot ++ [slash] <+: within) ∨
      ((base ≠ [slash] ∧ base ≠ dot) ∧ ∃ rest, joined = base ++ slash :: rest) := by
  unfold escapes
  by_cases same : joined = base
  next => simp [same]
  by_cases central : base = [slash] ∨ base = dot
  next =>
    have outer : base = [slash] ∨ base = [] ∨ base = dot := by tauto
    have inner : ¬(base ≠ [slash] ∧ base ≠ dot) := by tauto
    rw [if_neg same, if_pos outer]
    simp [same, central, inner, Bool.eq_false_iff]
  next =>
    have outer : ¬(base = [slash] ∨ base = [] ∨ base = dot) := by tauto
    have inner : base ≠ [slash] ∧ base ≠ dot := by tauto
    rw [if_neg same, if_neg outer]
    by_cases start : base <+: joined
    next =>
      obtain ⟨rest, rfl⟩ := start
      cases rest with
      | nil => simp at same
      | cons byte rest => simp [inner, same]
    next =>
      have never : ∀ rest, joined ≠ base ++ slash :: rest :=
        fun rest shape => start ⟨_, shape.symm⟩
      simp [start, central, never, same]

def joined (b w : NormalPath) (force : Bool) : NormalPath :=
  if !force && w.absolute then w else normalForm (b.render ++ slash :: w.render)

theorem joinPathSegmentsNoEscape_ok {basedir within result : Bytes} {force : Bool} :
    joinPathSegmentsNoEscape basedir within force = .ok result ↔
      basedir ≠ [] ∧ result = (joined (normalForm basedir) (normalForm within) force).render ∧
        escapes result (normalForm basedir).render (normalForm within).render = .ok false := by
  simp only [joinPathSegmentsNoEscape, joinPathSegments, normalizePath_eq_render, normalForm_render]
  by_cases empty : basedir = []
  next => simp [empty, bind, Except.bind]
  have joinedPath : (if !force && isGlobal (normalForm within).render then
        (Except.ok (normalForm within).render : Except Exn Bytes)
      else .ok (normalForm ((normalForm basedir).render ++ slash :: (normalForm within).render)).render) =
      .ok (joined (normalForm basedir) (normalForm within) force).render := by
    rw [NormalPath.isGlobal_render, joined]
    split <;> rfl
  simp only [empty, render_nonempty, or_self, if_false, joinedPath]
  generalize joined (normalForm basedir) (normalForm within) force = j
  cases decided : escapes j.render (normalForm basedir).render (normalForm within).render with
  | error thrown =>
    simp only [bind, Except.bind, decided, reduceCtorEq, false_iff]
    rintro ⟨-, rfl, decides⟩
    simp_all
  | ok flag =>
    cases flag with
    | true =>
      simp only [bind, Except.bind, decided, if_true, throw, throwThe, MonadExceptOf.throw,
        reduceCtorEq, false_iff]
      rintro ⟨-, rfl, decides⟩
      simp_all
    | false =>
      constructor
      next =>
        intro returned
        obtain rfl : j.render = result := by simpa [bind, Except.bind, decided, pure, Except.pure] using returned
        exact ⟨empty, rfl, decided⟩
      next =>
        rintro ⟨-, rfl, -⟩
        simp [bind, Except.bind, decided, pure, Except.pure]

def StaysInside (basedir pathWithinBasedir : Bytes) (force : Bool) : Prop :=
  ∀ cwd result, (∀ name ∈ cwd, IsName name) →
    joinPathSegmentsNoEscape basedir pathWithinBasedir force = .ok result →
      resolve cwd (normalizePath basedir) <+: resolve cwd result

-- The branch for `.` trusts any path that does not start with `..`, an absolute one included.
def AbsoluteBelowDot (basedir pathWithinBasedir : Bytes) (force : Bool) : Prop :=
  basedir ≠ [] ∧ normalizePath basedir = dot ∧ force = false ∧
    isGlobal (normalizePath pathWithinBasedir) = true

def UpBelowUps (basedir pathWithinBasedir : Bytes) : Prop :=
  (∀ segment ∈ pathSegments (normalizePath basedir), segment = dotdot) ∧
    (normalizePath pathWithinBasedir = dotdot ∨
      dotdot ++ [slash] <+: normalizePath pathWithinBasedir)

theorem locate_prefix_of_flat (b w : NormalPath) (flat : w.ups = 0) (cwd : List Bytes) :
    b.locate cwd <+: (normalForm (b.render ++ slash :: w.render)).locate cwd := by
  rw [locate_join]
  simp [NormalPath.displacement, Displacement.act, flat]

theorem names_of_segments {b : NormalPath} (unlike : b.render ≠ [slash]) (ne_dot : b.render ≠ dot)
    (named : ¬ ∀ segment ∈ pathSegments b.render, segment = dotdot) : b.names ≠ [] := by
  intro none
  have present := segments_present unlike ne_dot
  rw [pathSegments_render, if_neg present] at named
  apply named
  intro segment member
  rw [NormalPath.segments, none, List.append_nil] at member
  exact List.eq_of_mem_replicate member

theorem staysInside_of {basedir within : Bytes} {force : Bool}
    (global : ¬AbsoluteBelowDot basedir within force) (ups : ¬UpBelowUps basedir within) :
    StaysInside basedir within force := by
  intro cwd result _ returned
  obtain ⟨present, rfl, admitted⟩ := joinPathSegmentsNoEscape_ok.mp returned
  simp only [AbsoluteBelowDot, UpBelowUps, normalizePath_eq_render, NormalPath.isGlobal_render] at global ups
  rw [normalizePath_eq_render, NormalPath.resolve_render, NormalPath.resolve_render]
  generalize normalForm basedir = b at *
  generalize normalForm within = w at *
  rw [leadsUp_iff] at ups
  rcases (escapes_eq_false (render_nonempty b)).mp admitted with
    same | ⟨root | here, tame⟩ | ⟨⟨unlike, ne_dot⟩, rest, start⟩
  next =>
    have unchanged := render_injective same
    exact unchanged.symm ▸ List.prefix_rfl
  next =>
    obtain rfl := eq_rootPath root
    exact List.nil_prefix
  next =>
    have flat : w.ups = 0 := by
      by_contra climbs
      have leads := (leadsUp_iff w).mpr (Nat.pos_of_ne_zero climbs)
      exact leads.elim tame.1 tame.2
    have relative : ¬(!force && w.absolute) = true := by
      simp_all
    rw [joined, if_neg relative]
    exact locate_prefix_of_flat b w flat cwd
  next =>
    by_cases named : b.names = []
    next =>
      have all : ∀ segment ∈ pathSegments b.render, segment = dotdot := by
        by_contra some
        exact names_of_segments unlike ne_dot some named
      have flat : w.ups = 0 := by
        by_contra climbs
        exact ups ⟨all, Nat.pos_of_ne_zero climbs⟩
      by_cases absolute : (!force && w.absolute) = true
      next =>
        -- An absolute path does not start with a base made of `..` segments only.
        rw [joined, if_pos absolute] at start
        have same : b.absolute = true := by
          rw [← isGlobal_join b rest, ← start, NormalPath.isGlobal_render]
          simp_all
        have empty : b.segments = [] := by simp [NormalPath.segments, named, b.anchored same]
        rw [NormalPath.render, empty, same] at unlike
        contradiction
      next =>
        rw [joined, if_neg absolute]
        exact locate_prefix_of_flat b w flat cwd
    next => exact locate_prefix named start cwd

def stranger (names : List Bytes) : Bytes := names.headD [] ++ text "x"

theorem stranger_not_prefix (names : List Bytes) : ¬[stranger names] <+: names := by
  rintro ⟨rest, shape⟩
  cases names with
  | nil => simp at shape
  | cons name names =>
    have longer := congrArg List.length (List.cons.inj shape).1
    simp [stranger, text] at longer

theorem stranger_isName {names : List Bytes} (proper : ∀ name ∈ names, IsName name) :
    IsName (stranger names) := by
  cases names with
  | nil => exact ⟨by decide, by decide, by decide, by decide, by decide⟩
  | cons name names =>
    obtain ⟨nonempty, -, -, no_slash, free⟩ := proper name (by simp)
    have ends (other : Bytes) (last : other.getLast? ≠ some 120) : name ++ text "x" ≠ other := by
      intro same
      apply last
      rw [← same]
      simp [text]
    refine ⟨by simp [stranger, text], ends _ (by decide), ends _ (by decide), ?_, ?_⟩
    next => simpa [stranger, no_slash] using (show slash ∉ text "x" by decide)
    next => exact nulFree_append.mpr ⟨free, by decide⟩

theorem escapes_below_dot {basedir within : Bytes} {force : Bool}
    (global : AbsoluteBelowDot basedir within force) : ¬StaysInside basedir within force := by
  intro inside
  obtain ⟨present, here, rfl, absolute⟩ := global
  rw [normalizePath_eq_render] at here absolute
  rw [NormalPath.isGlobal_render] at absolute
  have returned : joinPathSegmentsNoEscape basedir within false = .ok (normalForm within).render := by
    have tame := leadsUp_iff (normalForm within)
    rw [(normalForm within).anchored absolute] at tame
    rw [joinPathSegmentsNoEscape_ok]
    refine ⟨present, by rw [joined, absolute]; rfl, ?_⟩
    rw [escapes_eq_false (render_nonempty _)]
    exact .inr (.inl ⟨.inr here, by tauto, by tauto⟩)
  have below := inside [stranger (normalForm within).names] _
    (by simpa using stranger_isName (normalForm within).proper) returned
  rw [normalizePath_eq_render, NormalPath.resolve_render, NormalPath.resolve_render,
    eq_herePath here, NormalPath.locate, NormalPath.locate, absolute] at below
  exact stranger_not_prefix _ (by simpa [herePath, climb, NormalPath.displacement, Displacement.act] using below)

theorem ups_of_segments {b : NormalPath} (all : ∀ segment ∈ pathSegments b.render, segment = dotdot) :
    b.absolute = false ∧ 0 < b.ups ∧ b.names = [] := by
  rw [pathSegments_render] at all
  by_cases empty : b.segments = []
  next =>
    rw [if_pos empty] at all
    cases absolute : b.absolute <;> simp [absolute] at all <;> contradiction
  next =>
    rw [if_neg empty] at all
    have none : b.names = [] := by
      apply List.eq_nil_iff_forall_not_mem.mpr
      intro name member
      exact (b.proper name member).ne_dotdot (all name (List.mem_append_right _ member))
    have climbs : 0 < b.ups := by
      rw [NormalPath.segments, none, List.append_nil, List.replicate_eq_nil_iff] at empty
      omega
    refine ⟨?_, climbs, none⟩
    rw [← Bool.not_eq_true]
    exact fun absolute => climbs.ne' (b.anchored absolute)

theorem render_join_ups {b w : NormalPath} (relative : b.absolute = false) (climbs : 0 < b.ups)
    (bare : b.names = []) (leads : 0 < w.ups) (other : w.absolute = false) :
    (normalForm (b.render ++ slash :: w.render)).render = b.render ++ slash :: w.render := by
  let k : NormalPath := ⟨false, b.ups + w.ups, w.names, w.proper, by simp⟩
  have shape : k.segments = b.segments ++ w.segments := by
    simp [k, NormalPath.segments, bare, ← List.replicate_append_replicate]
  have first : b.segments ≠ [] := by simp [NormalPath.segments, climbs.ne']
  have second : w.segments ≠ [] := by simp [NormalPath.segments, leads.ne']
  have rendered : w.render = [slash].intercalate w.segments := by
    obtain ⟨segment, segments, shape⟩ := List.exists_cons_of_ne_nil second
    rw [NormalPath.render, other, shape, joinSegments_cons]
    rfl
  rw [rendered, ← render_below relative.symm first second shape, normalForm_render]

theorem escapes_below_ups {basedir within : Bytes} {force : Bool}
    (ups : UpBelowUps basedir within) : ¬StaysInside basedir within force := by
  intro inside
  obtain ⟨all, leads⟩ := ups
  rw [normalizePath_eq_render, leadsUp_iff] at leads
  rw [normalizePath_eq_render] at all
  obtain ⟨relative, climbs, bare⟩ := ups_of_segments all
  have other : (normalForm within).absolute = false := by
    rw [← Bool.not_eq_true]
    exact fun absolute => leads.ne' ((normalForm within).anchored absolute)
  have present : basedir ≠ [] := by
    rintro rfl
    exact absurd climbs (by decide)
  have concatenated := render_join_ups relative climbs bare leads other
  have returned : joinPathSegmentsNoEscape basedir within force =
      .ok ((normalForm basedir).render ++ slash :: (normalForm within).render) := by
    rw [joinPathSegmentsNoEscape_ok]
    refine ⟨present, ?_, ?_⟩
    next => rw [joined, other, Bool.and_false, if_neg (by simp), concatenated]
    next =>
      rw [escapes_eq_false (render_nonempty _)]
      refine .inr (.inr ⟨⟨fun root => ?_, fun here => ?_⟩, _, rfl⟩)
      next => rw [eq_rootPath root] at relative; contradiction
      next => rw [eq_herePath here] at climbs; contradiction
  have below := inside (List.replicate ((normalForm basedir).ups + 1) (stranger (normalForm within).names)) _
    (fun name member => List.eq_of_mem_replicate member ▸ stranger_isName (normalForm within).proper) returned
  rw [normalizePath_eq_render, ← concatenated, NormalPath.resolve_render, NormalPath.resolve_render,
    locate_join] at below
  have base : (normalForm basedir).locate
      (List.replicate ((normalForm basedir).ups + 1) (stranger (normalForm within).names)) =
      [stranger (normalForm within).names] := by
    simp [NormalPath.locate, relative, NormalPath.displacement, Displacement.act, bare, List.rdrop]
  have gone (name : Bytes) : [name].rdrop (normalForm within).ups = [] := by
    simp [List.rdrop]
    omega
  rw [base, Displacement.act, NormalPath.displacement, gone, List.nil_append] at below
  exact stranger_not_prefix _ below

theorem joinPathSegmentsNoEscape_inside_iff (basedir pathWithinBasedir : Bytes) (force : Bool) :
    StaysInside basedir pathWithinBasedir force ↔
      ¬AbsoluteBelowDot basedir pathWithinBasedir force ∧ ¬UpBelowUps basedir pathWithinBasedir := by
  constructor
  next =>
    intro inside
    exact ⟨fun global => escapes_below_dot global inside, fun ups => escapes_below_ups ups inside⟩
  next => exact fun ⟨global, ups⟩ => staysInside_of global ups

theorem joinPathSegmentsNoEscape_escapes :
    ¬∀ basedir pathWithinBasedir force, StaysInside basedir pathWithinBasedir force := by
  intro inside
  have below := inside (text ".") (text "/etc") false [text "home"] (text "/etc")
    (by simpa using ⟨by decide, by decide, by decide, by decide, by decide⟩) (by decide)
  revert below
  decide

end BuildboxCommon.FileUtils
