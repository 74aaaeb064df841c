import BuildboxCommon.Shared.Bytes
import BuildboxCommon.Shared.LexicalPath

set_option autoImplicit false

namespace BuildboxCommon.FileUtils

open ByteString LexicalPath

def slash : UInt8 := 47
def dot : Bytes := text "."
def dotdot : Bytes := text ".."

-- The vector of segments keeps its back at the end of the list.
def pushSegment (global : Bool) (segments : List Bytes) (segment : Bytes) : List Bytes :=
  if segment = dotdot ∧ segments ≠ [] ∧ segments.getLast? ≠ some dotdot then segments.dropLast
  else if global ∧ segment = dotdot ∧ segments = [] then segments
  else if segment ≠ dot ∧ segment ≠ [] then segments ++ [segment]
  else segments

def joinSegments (global : Bool) (segments : List Bytes) : Bytes :=
  let result := if global then [slash] else []
  if segments ≠ [] then (result ++ segments.flatMap fun segment => segment ++ [slash]).dropLast
  else if !global then dot
  else result

def isGlobal (path : Bytes) : Bool := path.head? == some slash

-- The `strchr` loop stops before a trailing empty segment, which no branch would push anyway.
def normalizePath (path : Bytes) : Bytes :=
  let path := cString path
  let global := isGlobal path
  joinSegments global ((path.splitOn slash).foldl (pushSegment global) [])

def classify (segment : Bytes) : Step Bytes :=
  if segment = [] ∨ segment = dot then .stay
  else if segment = dotdot then .up
  else .down segment

def steps (path : Bytes) : List (Step Bytes) := (path.splitOn slash).map classify

def resolve (cwd : List Bytes) (path : Bytes) : List Bytes :=
  walk (if isGlobal path then [] else cwd) (steps path)

structure IsName (name : Bytes) : Prop where
  nonempty : name ≠ []
  ne_dot : name ≠ dot
  ne_dotdot : name ≠ dotdot
  no_slash : slash ∉ name
  nulFree : NulFree name

instance (name : Bytes) : Decidable (IsName name) :=
  decidable_of_iff (name ≠ [] ∧ name ≠ dot ∧ name ≠ dotdot ∧ slash ∉ name ∧ nul ∉ name)
    ⟨fun ⟨nonempty, ne_dot, ne_dotdot, no_slash, nulFree⟩ => ⟨nonempty, ne_dot, ne_dotdot, no_slash, nulFree⟩,
      fun proper => ⟨proper.nonempty, proper.ne_dot, proper.ne_dotdot, proper.no_slash, proper.nulFree⟩⟩

theorem IsName.classify {name : Bytes} (proper : IsName name) : classify name = .down name := by
  simp [FileUtils.classify, proper.nonempty, proper.ne_dot, proper.ne_dotdot]

@[simp] theorem classify_dotdot : classify dotdot = .up := by decide
@[simp] theorem classify_dot : classify dot = .stay := by decide
@[simp] theorem classify_nil : classify [] = .stay := by decide

theorem classify_eq_down {segment name : Bytes} (entered : classify segment = .down name) :
    segment = name ∧ name ≠ [] ∧ name ≠ dot ∧ name ≠ dotdot := by
  unfold classify at entered
  split_ifs at entered with skipped up
  cases entered
  exact ⟨rfl, fun h => skipped (.inl h), fun h => skipped (.inr h), up⟩

theorem isName_of_step {path name : Bytes} (free : NulFree path) (entered : .down name ∈ steps path) :
    IsName name := by
  obtain ⟨segment, member, entered⟩ := List.mem_map.mp entered
  obtain ⟨rfl, nonempty, ne_dot, ne_dotdot⟩ := classify_eq_down entered
  obtain ⟨no_slash, within⟩ := mem_splitOn member
  exact ⟨nonempty, ne_dot, ne_dotdot, no_slash, fun present => free (within present)⟩

structure NormalPath where
  absolute : Bool
  ups : Nat
  names : List Bytes
  proper : ∀ name ∈ names, IsName name
  anchored : absolute = true → ups = 0

namespace NormalPath

def segments (n : NormalPath) : List Bytes := List.replicate n.ups dotdot ++ n.names

def render (n : NormalPath) : Bytes := joinSegments n.absolute n.segments

def displacement (n : NormalPath) : Displacement Bytes := ⟨n.ups, n.names⟩

def locate (n : NormalPath) (cwd : List Bytes) : List Bytes :=
  n.displacement.act (if n.absolute then [] else cwd)

theorem map_classify_names (n : NormalPath) : n.names.map classify = n.names.map .down :=
  List.map_congr_left fun name member => (n.proper name member).classify

theorem map_classify_segments (n : NormalPath) : n.segments.map classify = n.displacement.steps := by
  simp [segments, displacement, Displacement.steps, map_classify_names]

theorem no_slash {n : NormalPath} {segment : Bytes} (member : segment ∈ n.segments) :
    slash ∉ segment := by
  rcases List.mem_append.mp member with up | name
  next => exact (List.eq_of_mem_replicate up) ▸ by decide
  next => exact (n.proper _ name).no_slash

theorem segment_nulFree {n : NormalPath} {segment : Bytes} (member : segment ∈ n.segments) :
    NulFree segment := by
  rcases List.mem_append.mp member with up | name
  next => exact (List.eq_of_mem_replicate up) ▸ by decide
  next => exact (n.proper _ name).nulFree

theorem segment_nonempty {n : NormalPath} {segment : Bytes} (member : segment ∈ n.segments) :
    segment ≠ [] := by
  rcases List.mem_append.mp member with up | name
  next => exact (List.eq_of_mem_replicate up) ▸ by decide
  next => exact (n.proper _ name).nonempty

end NormalPath

theorem joinSegments_cons (global : Bool) (segment : Bytes) (segments : List Bytes) :
    joinSegments global (segment :: segments) =
      (if global then [slash] else []) ++ [slash].intercalate (segment :: segments) := by
  have joined (segment : Bytes) (segments : List Bytes) :
      ((segment :: segments).flatMap fun segment => segment ++ [slash]) =
        [slash].intercalate (segment :: segments) ++ [slash] := by
    induction segments generalizing segment with
    | nil => simp
    | cons next segments ih =>
      rw [List.flatMap_cons, ih next]
      simp [List.intercalate_cons_cons]
  simp only [joinSegments, joined, ne_eq, reduceCtorEq, not_false_eq_true, if_true]
  rw [← List.append_assoc, List.dropLast_concat]

theorem joinSegments_head (global : Bool) (segments : List Bytes)
    (plain : ∀ segment ∈ segments, slash ∉ segment ∧ segment ≠ []) :
    isGlobal (joinSegments global segments) = global := by
  cases segments with
  | nil => cases global <;> rfl
  | cons segment segments =>
    rw [joinSegments_cons]
    cases global with
    | true => rfl
    | false =>
      obtain ⟨no_slash, nonempty⟩ := plain segment (by simp)
      cases segment with
      | nil => contradiction
      | cons byte bytes =>
        have differs : byte ≠ slash := fun same => no_slash (by simp [same])
        cases segments <;> simp [isGlobal, List.intercalate_cons_cons, differs]

theorem splitOn_joinSegments (global : Bool) (segments : List Bytes) (present : segments ≠ [])
    (plain : ∀ segment ∈ segments, slash ∉ segment) :
    (joinSegments global segments).splitOn slash = if global then [] :: segments else segments := by
  obtain ⟨segment, segments, rfl⟩ := List.exists_cons_of_ne_nil present
  rw [joinSegments_cons]
  cases global with
  | false => simpa using List.splitOn_intercalate slash plain present
  | true =>
    have rest := List.splitOn_intercalate slash plain present
    simpa [List.splitOn_cons_eq_if_modifyHead] using rest

theorem joinSegments_nulFree (global : Bool) (segments : List Bytes)
    (free : ∀ segment ∈ segments, NulFree segment) : NulFree (joinSegments global segments) := by
  cases segments with
  | nil => cases global <;> decide
  | cons segment segments =>
    rw [joinSegments_cons, nulFree_append]
    refine ⟨by cases global <;> decide, ?_⟩
    induction segments generalizing segment with
    | nil => simpa using free segment (by simp)
    | cons next segments ih =>
      rw [List.intercalate_cons_cons, nulFree_append, nulFree_append]
      refine ⟨⟨free segment (by simp), by decide⟩, ih next fun other member => free other ?_⟩
      exact List.mem_cons_of_mem _ member

namespace NormalPath

theorem plain (n : NormalPath) : ∀ segment ∈ n.segments, slash ∉ segment ∧ segment ≠ [] :=
  fun _ member => ⟨no_slash member, segment_nonempty member⟩

@[simp] theorem isGlobal_render (n : NormalPath) : isGlobal n.render = n.absolute :=
  joinSegments_head n.absolute n.segments n.plain

@[simp] theorem cString_render (n : NormalPath) : cString n.render = n.render :=
  cString_of_nulFree (joinSegments_nulFree _ _ fun _ member => segment_nulFree member)

theorem displacement_render (n : NormalPath) :
    LexicalPath.displacement (steps n.render) = n.displacement := by
  have skip (steps : List (Step Bytes)) :
      LexicalPath.displacement (.stay :: steps) = LexicalPath.displacement steps := rfl
  by_cases empty : n.segments = []
  next =>
    have none : n.displacement = ⟨0, []⟩ := by simpa [segments, displacement] using empty
    rw [none, render, empty]
    cases n.absolute <;> rfl
  next =>
    rw [steps, render, splitOn_joinSegments _ _ empty fun _ member => no_slash member]
    cases n.absolute with
    | false => simp [map_classify_segments, displacement_steps]
    | true => simp [map_classify_segments, skip, displacement_steps]

theorem resolve_render (n : NormalPath) (cwd : List Bytes) : resolve cwd n.render = n.locate cwd := by
  rw [resolve, isGlobal_render, walk_eq_act, displacement_render, locate]

end NormalPath

def normalForm (path : Bytes) : NormalPath :=
  let path := cString path
  if global : isGlobal path then
    { absolute := true
      ups := 0
      names := walk [] (steps path)
      proper := fun name member =>
        isName_of_step (cString_nulFree _) (by simpa using mem_walk member)
      anchored := fun _ => rfl }
  else
    { absolute := false
      ups := (displacement (steps path)).ups
      names := (displacement (steps path)).names
      proper := fun name member => isName_of_step (cString_nulFree _) (mem_displacement member)
      anchored := by simp }

theorem pushSegment_global (segments : List Bytes) (segment : Bytes) (plain : dotdot ∉ segments) :
    pushSegment true segments segment = (classify segment).apply segments := by
  have last : segments.getLast? ≠ some dotdot :=
    fun same => plain (List.mem_of_getLast? same)
  by_cases up : segment = dotdot
  next =>
    subst up
    by_cases empty : segments = [] <;> simp [pushSegment, empty, last, Step.apply]
  next =>
    by_cases skipped : segment = [] ∨ segment = dot
    next => rcases skipped with rfl | rfl <;> simp [pushSegment, Step.apply] <;> simp_all
    next => simp_all [pushSegment, classify, Step.apply]

theorem classify_ne_down_dotdot (segments : List Bytes) : .down dotdot ∉ segments.map classify := by
  intro member
  obtain ⟨segment, -, entered⟩ := List.mem_map.mp member
  exact (classify_eq_down entered).2.2.2 rfl

theorem fold_pushSegment_global (segments : List Bytes) :
    segments.foldl (pushSegment true) [] = walk [] (segments.map classify) := by
  induction segments using List.reverseRecOn with
  | nil => rfl
  | append_singleton segments segment ih =>
    rw [List.map_append, walk_append, ← ih, List.foldl_append, ih]
    apply pushSegment_global
    intro member
    exact classify_ne_down_dotdot segments (by simpa using mem_walk member)

def relativeSegments (d : Displacement Bytes) : List Bytes := List.replicate d.ups dotdot ++ d.names

theorem pushSegment_relative (d : Displacement Bytes) (segment : Bytes) (plain : dotdot ∉ d.names) :
    pushSegment false (relativeSegments d) segment = relativeSegments (d.extend (classify segment)) := by
  rcases d with ⟨ups, names⟩
  by_cases skipped : segment = [] ∨ segment = dot
  next =>
    rcases skipped with rfl | rfl <;> simp [pushSegment, Displacement.extend] <;> simp [dot, dotdot, text]
  next =>
    by_cases up : segment = dotdot
    next =>
      subst up
      cases names using List.reverseRecOn with
      | nil =>
        -- Only leading `..` segments so far: the pop is disabled and one more is pushed.
        have last (ne : List.replicate ups dotdot ≠ []) :
            (List.replicate ups dotdot).getLast? = some dotdot := by
          cases ups <;> simp_all [List.getLast?_replicate]
        simp only [pushSegment, relativeSegments, Displacement.extend, classify_dotdot,
          List.append_nil, List.replicate_succ']
        by_cases none : ups = 0
        next => subst none; decide
        next => simp [last, none]; decide
      | append_singleton names name =>
        have last : name ≠ dotdot := fun same => plain (by simp [same])
        obtain ⟨first, others, shape⟩ :=
          List.exists_cons_of_ne_nil (show names ++ [name] ≠ [] by simp)
        simp only [pushSegment, relativeSegments, Displacement.extend, classify_dotdot, shape]
        rw [← shape, ← List.append_assoc]
        simp [last]
    next =>
      simp only [not_or] at skipped
      simp [pushSegment, relativeSegments, classify, Displacement.extend, skipped, up]

theorem fold_pushSegment_relative (segments : List Bytes) :
    segments.foldl (pushSegment false) [] =
      relativeSegments (displacement (segments.map classify)) := by
  induction segments using List.reverseRecOn with
  | nil => rfl
  | append_singleton segments segment ih =>
    rw [List.foldl_append, ih, List.map_append, List.map_singleton, displacement_snoc]
    apply pushSegment_relative
    exact fun member => classify_ne_down_dotdot segments (mem_displacement member)

theorem normalizePath_eq_render (path : Bytes) : normalizePath path = (normalForm path).render := by
  by_cases global : isGlobal (cString path)
  next =>
    simp only [normalizePath, normalForm, global, dite_true, NormalPath.render, NormalPath.segments,
      fold_pushSegment_global]
    rfl
  next =>
    rw [Bool.not_eq_true] at global
    simp only [normalizePath, normalForm, global, NormalPath.render, fold_pushSegment_relative]
    rfl

theorem normalForm_absolute (path : Bytes) :
    (normalForm path).absolute = isGlobal (cString path) := by
  by_cases global : isGlobal (cString path) <;> simp [normalForm, global]

theorem resolve_cString (cwd : List Bytes) (path : Bytes) :
    resolve cwd (cString path) = (normalForm path).locate cwd := by
  unfold normalForm NormalPath.locate resolve
  split
  next global => simp [global, NormalPath.displacement, Displacement.act]
  next relative => simp [relative, NormalPath.displacement, walk_eq_act]

theorem normalForm_render (n : NormalPath) : normalForm n.render = n := by
  have shape := n.displacement_render
  rcases n with ⟨absolute, ups, names, proper, anchored⟩
  cases absolute with
  | false => simp [normalForm, shape, NormalPath.displacement]
  | true =>
    obtain rfl := anchored rfl
    simp [normalForm, walk_eq_act, shape, NormalPath.displacement, Displacement.act]

theorem render_injective : Function.Injective NormalPath.render :=
  Function.LeftInverse.injective normalForm_render

theorem normalForm_normalizePath (path : Bytes) : normalForm (normalizePath path) = normalForm path := by
  rw [normalizePath_eq_render, normalForm_render]

theorem normalizePath_normalizePath (path : Bytes) :
    normalizePath (normalizePath path) = normalizePath path := by
  rw [normalizePath_eq_render, normalForm_normalizePath, ← normalizePath_eq_render]

theorem resolve_normalizePath (cwd : List Bytes) (path : Bytes) :
    resolve cwd (normalizePath path) = resolve cwd (cString path) := by
  rw [normalizePath_eq_render, NormalPath.resolve_render, resolve_cString]

def pathSegments (path : Bytes) : List Bytes :=
  (if isGlobal path then path.tail else path).splitOn slash

theorem pathSegments_render (n : NormalPath) :
    pathSegments n.render =
      if n.segments = [] then (if n.absolute then [[]] else [dot]) else n.segments := by
  rw [pathSegments, NormalPath.isGlobal_render]
  by_cases empty : n.segments = []
  next =>
    rw [if_pos empty, NormalPath.render, empty]
    cases n.absolute <;> rfl
  next =>
    rw [if_neg empty, NormalPath.render]
    obtain ⟨segment, segments, shape⟩ := List.exists_cons_of_ne_nil empty
    have split := List.splitOn_intercalate slash (fun _ member => (n.plain _ member).1) empty
    rw [shape] at split ⊢
    rw [joinSegments_cons]
    cases n.absolute <;> simpa using split

theorem nil_mem_pathSegments {path : Bytes} (trailing : path.getLast? = some slash) :
    [] ∈ pathSegments path := by
  have split (start : Bytes) : [] ∈ (start ++ [slash]).splitOn slash := by
    rw [List.splitOn_append_cons_self]
    simp
  obtain ⟨start, rfl⟩ := List.getLast?_eq_some_iff.mp trailing
  unfold pathSegments
  split
  next =>
    cases start with
    | nil => simp
    | cons byte start => exact split start
  next => exact split start

structure NormalizedFrom (path result : Bytes) : Prop where
  nonempty : result ≠ []
  global_iff : result.head? = some slash ↔ path.head? = some slash
  no_idle_segment : result = dot ∨ result = [slash] ∨
    ∀ segment ∈ pathSegments result, segment ≠ [] ∧ segment ≠ dot
  no_trailing_slash : result.getLast? = some slash → result = [slash]
  dotdot_leads : ∃ ups names, pathSegments result = List.replicate ups dotdot ++ names ∧
    dotdot ∉ names ∧ (result.head? = some slash → ups = 0)
  idempotent : normalizePath result = result
  same_location : ∀ cwd, resolve cwd path = resolve cwd result

theorem render_idle_segments (n : NormalPath) : n.render = dot ∨ n.render = [slash] ∨
    ∀ segment ∈ pathSegments n.render, segment ≠ [] ∧ segment ≠ dot := by
  by_cases empty : n.segments = []
  next =>
    rw [NormalPath.render, empty]
    cases n.absolute <;> decide
  next =>
    refine .inr (.inr fun segment member => ?_)
    rw [pathSegments_render, if_neg empty] at member
    refine ⟨n.segment_nonempty member, ?_⟩
    rcases List.mem_append.mp member with up | name
    next => exact (List.eq_of_mem_replicate up) ▸ by decide
    next => exact (n.proper _ name).ne_dot

theorem render_nonempty (n : NormalPath) : n.render ≠ [] := by
  intro none
  have idle := render_idle_segments n
  rw [none] at idle
  revert idle
  decide

theorem render_dotdot_leads (n : NormalPath) : ∃ ups names,
    pathSegments n.render = List.replicate ups dotdot ++ names ∧ dotdot ∉ names ∧
      (n.absolute = true → ups = 0) := by
  rw [pathSegments_render]
  by_cases empty : n.segments = []
  next =>
    rw [if_pos empty]
    refine ⟨0, _, rfl, ?_, fun _ => rfl⟩
    cases n.absolute <;> decide
  next =>
    rw [if_neg empty]
    exact ⟨n.ups, n.names, rfl, fun member => (n.proper _ member).ne_dotdot rfl, n.anchored⟩

theorem normalizePath_correct (path : Bytes) (free : NulFree path) :
    NormalizedFrom path (normalizePath path) := by
  have global : (normalizePath path).head? = some slash ↔ (normalForm path).absolute = true := by
    rw [normalizePath_eq_render, ← NormalPath.isGlobal_render, isGlobal, beq_iff_eq]
  have idle := render_idle_segments (normalForm path)
  rw [← normalizePath_eq_render] at idle
  exact
    { nonempty := by
        rw [normalizePath_eq_render]
        exact render_nonempty _
      global_iff := by
        rw [global, normalForm_absolute, cString_of_nulFree free, isGlobal, beq_iff_eq]
      no_idle_segment := idle
      no_trailing_slash := fun trailing => by
        rcases idle with rest | root | plain
        next => rw [rest] at trailing; exact absurd trailing (by decide)
        next => exact root
        next => exact absurd rfl (plain [] (nil_mem_pathSegments trailing)).1
      dotdot_leads := by
        rw [global, normalizePath_eq_render]
        exact render_dotdot_leads _
      idempotent := normalizePath_normalizePath path
      same_location := fun cwd => by
        rw [resolve_normalizePath, cString_of_nulFree free] }

theorem normalizePath_correct_mixed :
    NormalizedFrom (text "../a/./b//../..") (normalizePath (text "../a/./b//../..")) :=
  normalizePath_correct _ (by decide)

example : normalizePath (text "../a/./b//../../c") = text "../c" := by decide

end BuildboxCommon.FileUtils
