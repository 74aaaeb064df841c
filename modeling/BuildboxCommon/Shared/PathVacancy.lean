import BuildboxCommon.Shared.PathResolution

set_option autoImplicit false

namespace PathResolution.Graph

open LexicalPath

variable {ι α : Type} [DecidableEq α] (graph : Graph ι α)

def advanceVacancy (again : ι → List (Step α) → Except Fault (ι × α)) : ι → List (Step α) → Except Fault (ι × α)
  | _, [] => .error .notFound
  | here, step :: rest =>
    match graph.enter here step with
    | .error fault =>
      match fault, step, rest with
      | .notFound, .down name, [] => .ok (here, name)
      | _, _, _ => .error fault
    | .ok next =>
      match graph.object next with
      | .symlink target => again (if target.absolute then graph.root else here) (target.steps ++ rest)
      | .directory _ _ | .leaf => advanceVacancy again next rest

def vacancy : Nat → ι → List (Step α) → Except Fault (ι × α)
  | 0 => graph.advanceVacancy fun _ _ => .error .loop
  | limit + 1 => graph.advanceVacancy (vacancy limit)

inductive Missing : ι → List (Step α) → List ι → ι → α → Prop where
  | here {here : ι} {name : α} (absent : graph.enter here (.down name) = .error .notFound) :
    Missing here [.down name] [] here name
  | plain {here next place : ι} {name : α} {step : Step α} {rest : List (Step α)} {links : List ι}
    (entered : graph.enter here step = .ok next) (plain : ¬graph.IsLink next)
      (onwards : Missing next rest links place name) :
    Missing here (step :: rest) links place name
  | link {here next place : ι} {name : α} {step : Step α} {rest : List (Step α)} {links : List ι} {target : Pathname α}
    (entered : graph.enter here step = .ok next) (link : graph.object next = .symlink target)
    (onwards : Missing (if target.absolute then graph.root else here) (target.steps ++ rest) links place name) :
    Missing here (step :: rest) (next :: links) place name

variable {graph}

theorem isDirectory_of_missing {here : ι} {name : α} (absent : graph.enter here (.down name) = .error .notFound) :
    graph.IsDirectory here := by
  unfold enter at absent
  cases kind : graph.object here with
  | directory parent entries => exact ⟨parent, entries, kind⟩
  | symlink | leaf => simp [kind] at absent

theorem Missing.of_advance {again : ι → List (Step α) → Except Fault (ι × α)} {limit : Nat} {place : ι} {name : α}
    (links : ∀ start rest, again start rest = .ok (place, name) →
      ∃ links, graph.Missing start rest links place name ∧ links.length < limit)
    {here : ι} {steps : List (Step α)} (reached : graph.advanceVacancy again here steps = .ok (place, name)) :
    ∃ links, graph.Missing here steps links place name ∧ links.length ≤ limit := by
  induction steps generalizing here with
  | nil => cases reached
  | cons step rest ih =>
    rw [advanceVacancy] at reached
    cases entered : graph.enter here step with
    | error fault =>
      simp only [entered] at reached
      split at reached
      next =>
        obtain ⟨rfl, rfl⟩ := Prod.mk.inj (Except.ok.inj reached)
        exact ⟨[], .here entered, Nat.zero_le _⟩
      next => cases reached
    | ok next =>
      rw [entered] at reached
      cases kind : graph.object next with
      | symlink target =>
        simp only [kind] at reached
        obtain ⟨more, walk, bound⟩ := links _ _ reached
        exact ⟨next :: more, .link entered kind walk, bound⟩
      | directory | leaf =>
        have plain : ¬graph.IsLink next := fun ⟨target, linked⟩ => by simp [kind] at linked
        simp only [kind] at reached
        obtain ⟨more, walk, bound⟩ := ih reached
        exact ⟨more, .plain entered plain walk, bound⟩

theorem missing_of_vacancy {limit : Nat} {here place : ι} {name : α} {steps : List (Step α)}
    (vacant : graph.vacancy limit here steps = .ok (place, name)) :
    ∃ links, graph.Missing here steps links place name ∧ links.length ≤ limit := by
  induction limit generalizing here steps with
  | zero => exact Missing.of_advance (fun start rest again => by cases again) vacant
  | succ limit ih =>
    refine Missing.of_advance (fun start rest again => ?_) vacant
    obtain ⟨links, walk, bound⟩ := ih again
    exact ⟨links, walk, Nat.lt_succ_of_le bound⟩

namespace Missing

variable {here place : ι} {name : α} {steps : List (Step α)} {links : List ι}

theorem absent (missing : graph.Missing here steps links place name) :
    graph.enter place (.down name) = .error .notFound := by
  induction missing with
  | here absent => exact absent
  | plain _ _ _ ih => exact ih
  | link _ _ _ ih => exact ih

theorem known (known : ι → Prop) (rooted : known graph.root)
    (closed : ∀ here step next, known here → graph.enter here step = .ok next → known next)
    (missing : graph.Missing here steps links place name) (start : known here) : known place := by
  induction missing with
  | here => exact start
  | plain entered _ _ ih => exact ih (closed _ _ _ start entered)
  | link _ _ _ ih =>
    apply ih
    split
    next => exact rooted
    next => exact start

theorem above {first : List (Step α)} {last : Step α} (missing : graph.Missing here steps links place name)
    (parts : steps = first ++ [last]) :
    ∃ some middle, graph.Walk here first some middle ∧ some.length ≤ links.length ∧ graph.IsDirectory middle := by
  induction missing generalizing first with
  | here absent =>
    obtain rfl : first = [] := by
      cases first with
      | nil => rfl
      | cons => simp at parts
    exact ⟨[], _, .here _, le_rfl, isDirectory_of_missing absent⟩
  | @plain here _ _ _ _ _ _ entered plain onwards ih =>
    cases first with
    | nil => exact ⟨[], here, .here here, Nat.zero_le _, isDirectory_of_enter entered⟩
    | cons step first =>
      obtain ⟨rfl, rest⟩ := List.cons.inj parts
      obtain ⟨some, middle, walk, bound, directory⟩ := ih rest
      exact ⟨some, middle, .plain entered plain walk, bound, directory⟩
  | @link here _ _ _ _ _ _ target entered link onwards ih =>
    cases first with
    | nil => exact ⟨[], here, .here here, Nat.zero_le _, isDirectory_of_enter entered⟩
    | cons step first =>
      obtain ⟨rfl, rfl⟩ := List.cons.inj parts
      obtain ⟨some, middle, walk, bound, directory⟩ := ih (List.append_assoc _ _ _).symm
      exact ⟨_ :: some, middle, .link entered link walk, Nat.succ_le_succ bound, directory⟩

theorem created {other : Graph ι α} {fresh : ι} (known : ι → Prop) (root : other.root = graph.root)
    (rooted : known graph.root)
    (answers : ∀ here step next, known here → graph.enter here step = .ok next →
      known next ∧ other.enter here step = .ok next)
    (kinds : ∀ here, known here → ∀ target, other.object here = .symlink target ↔ graph.object here = .symlink target)
    (missing : graph.Missing here steps links place name) (start : known here)
    (entered : other.enter place (.down name) = .ok fresh) (plain : ¬other.IsLink fresh) :
    other.Walk here steps links fresh := by
  induction missing with
  | here => exact .plain entered plain (.here fresh)
  | plain inside unlinked _ ih =>
    obtain ⟨inner, same⟩ := answers _ _ _ start inside
    refine .plain same ?_ (ih inner entered)
    rintro ⟨target, link⟩
    exact unlinked ⟨target, (kinds _ inner target).mp link⟩
  | @link here _ _ _ _ _ _ target inside link _ ih =>
    obtain ⟨inner, same⟩ := answers _ _ _ start inside
    refine .link same ((kinds _ inner target).mpr link) (root ▸ ih ?_ entered)
    split
    next => exact rooted
    next => exact start

end Missing

end PathResolution.Graph
