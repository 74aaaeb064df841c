import BuildboxCommon.Shared.LexicalPath

set_option autoImplicit false

namespace PathResolution

open LexicalPath

structure Pathname (α : Type) where
  absolute : Bool
  steps : List (Step α)

inductive Object (ι α : Type) where
  | directory (parent : ι) (entries : List (α × ι))
  | symlink (target : Pathname α)
  | leaf

structure Graph (ι α : Type) where
  root : ι
  object : ι → Object ι α

inductive Fault where
  | notFound
  | notDirectory
  | loop
deriving DecidableEq

namespace Graph

variable {ι α : Type} [DecidableEq α] (graph : Graph ι α)

def enter (here : ι) (step : Step α) : Except Fault ι :=
  match graph.object here with
  | .directory parent entries =>
    match step with
    | .stay => .ok here
    | .up => .ok parent
    | .down name =>
      match entries.find? fun entry => entry.1 = name with
      | none => .error .notFound
      | some entry => .ok entry.2
  | .symlink _ | .leaf => .error .notDirectory

-- `again` resolves what a link stands for, one link further.
def advance (follow : Bool) (again : ι → List (Step α) → Except Fault ι) :
    ι → List (Step α) → Except Fault ι
  | here, [] => .ok here
  | here, step :: rest =>
    match graph.enter here step with
    | .error fault => .error fault
    | .ok next =>
      match graph.object next with
      | .symlink target =>
        if rest.isEmpty && !follow then .ok next
        else again (if target.absolute then graph.root else here) (target.steps ++ rest)
      | .directory _ _ | .leaf => advance follow again next rest

def resolve (follow : Bool) : Nat → ι → List (Step α) → Except Fault ι
  | 0 => graph.advance follow fun _ _ => .error .loop
  | limit + 1 => graph.advance follow (resolve follow limit)

def IsLink (object : ι) : Prop := ∃ target, graph.object object = .symlink target

def IsDirectory (object : ι) : Prop := ∃ parent entries, graph.object object = .directory parent entries

inductive Descent : ι → List α → ι → Prop where
  | here (here : ι) : Descent here [] here
  | inside {here next target : ι} {name : α} {names : List α}
    (entered : graph.enter here (.down name) = .ok next) (below : Descent next names target) :
    Descent here (name :: names) target

variable {graph}

theorem isDirectory_of_enter {here next : ι} {step : Step α} (entered : graph.enter here step = .ok next) :
    graph.IsDirectory here := by
  unfold enter at entered
  cases kind : graph.object here with
  | directory parent entries => exact ⟨parent, entries, kind⟩
  | symlink | leaf => simp [kind] at entered

omit [DecidableEq α] in
theorem IsDirectory.not_link {object : ι} (directory : graph.IsDirectory object) : ¬graph.IsLink object := by
  rintro ⟨target, link⟩
  obtain ⟨parent, entries, kind⟩ := directory
  simp [kind] at link

theorem enter_down_listed {here parent next : ι} {entries : List (α × ι)} {name : α}
    (directory : graph.object here = .directory parent entries) (entered : graph.enter here (.down name) = .ok next) :
    (name, next) ∈ entries := by
  simp only [enter, directory] at entered
  cases found : entries.find? fun entry => entry.1 = name with
  | none => simp [found] at entered
  | some entry =>
    have same : entry.1 = name := by simpa using List.find?_some found
    obtain rfl : entry.2 = next := by simpa [found] using entered
    exact same ▸ List.mem_of_find?_eq_some found

theorem enter_stay {here : ι} (directory : graph.IsDirectory here) : graph.enter here .stay = .ok here := by
  obtain ⟨parent, entries, kind⟩ := directory
  simp [enter, kind]

theorem Descent.of_leaf {here target : ι} {names : List α} (leaf : ¬graph.IsDirectory here)
    (descent : graph.Descent here names target) : names = [] ∧ target = here := by
  cases descent with
  | here => exact ⟨rfl, rfl⟩
  | inside entered below => exact absurd (isDirectory_of_enter entered) leaf

theorem Descent.append {first second third : ι} {names others : List α}
    (above : graph.Descent first names second) (below : graph.Descent second others third) :
    graph.Descent first (names ++ others) third := by
  induction above with
  | here => exact below
  | inside entered _ ih => exact .inside entered (ih below)

theorem Descent.snoc {first second third : ι} {names : List α} {name : α}
    (above : graph.Descent first names second) (entered : graph.enter second (.down name) = .ok third) :
    graph.Descent first (names ++ [name]) third :=
  above.append (.inside entered (.here third))

theorem Descent.split {here target : ι} {names others : List α}
    (descent : graph.Descent here (names ++ others) target) :
    ∃ between, graph.Descent here names between ∧ graph.Descent between others target := by
  induction names generalizing here with
  | nil => exact ⟨here, .here here, descent⟩
  | cons name names ih =>
    cases descent with
    | inside entered below =>
      obtain ⟨between, above, beneath⟩ := ih below
      exact ⟨between, .inside entered above, beneath⟩

theorem Descent.unique {here target other : ι} {names : List α} (descent : graph.Descent here names target)
    (also : graph.Descent here names other) : other = target := by
  induction descent with
  | here =>
    cases also
    rfl
  | inside entered _ ih =>
    cases also with
    | inside entered' below =>
      rw [entered] at entered'
      exact ih (Except.ok.inj entered' ▸ below)

theorem Descent.not_link {here target : ι} {names : List α} (descent : graph.Descent here names target)
    (plain : ¬graph.IsLink target) : ¬graph.IsLink here := by
  cases descent with
  | here => exact plain
  | inside entered _ => exact (isDirectory_of_enter entered).not_link

section Resolve

variable {follow : Bool} {again : ι → List (Step α) → Except Fault ι} {here next : ι} {step : Step α}

theorem advance_plain (rest : List (Step α)) (entered : graph.enter here step = .ok next)
    (plain : ¬graph.IsLink next) :
    graph.advance follow again here (step :: rest) = graph.advance follow again next rest := by
  rw [advance, entered]
  cases kind : graph.object next with
  | symlink target => exact absurd ⟨target, kind⟩ plain
  | directory | leaf => simp only [kind]

theorem resolve_plain (limit : Nat) (rest : List (Step α)) (entered : graph.enter here step = .ok next)
    (plain : ¬graph.IsLink next) :
    graph.resolve follow limit here (step :: rest) = graph.resolve follow limit next rest := by
  cases limit <;> exact advance_plain rest entered plain

theorem resolve_fault {fault : Fault} (limit : Nat) (rest : List (Step α))
    (entered : graph.enter here step = .error fault) :
    graph.resolve follow limit here (step :: rest) = .error fault := by
  cases limit <;> simp only [resolve, advance, entered]

@[simp] theorem resolve_nil (limit : Nat) : graph.resolve follow limit here [] = .ok here := by
  cases limit <;> rfl

theorem resolve_one (limit : Nat) : graph.resolve false limit here [step] = graph.enter here step := by
  have one (again : ι → List (Step α) → Except Fault ι) :
      graph.advance false again here [step] = graph.enter here step := by
    rw [advance]
    cases entered : graph.enter here step with
    | error fault => rfl
    | ok next => cases kind : graph.object next <;> simp [kind, advance]
  cases limit <;> exact one _

theorem resolve_descent {target : ι} {names : List α} (descent : graph.Descent here names target)
    (plain : ¬graph.IsLink target) (limit : Nat) :
    graph.resolve follow limit here (names.map .down) = .ok target := by
  induction descent with
  | here => simp
  | inside entered below ih =>
    rw [List.map_cons, resolve_plain limit _ entered (below.not_link plain)]
    exact ih plain

theorem advance_append {limit : Nat} {again : Bool → ι → List (Step α) → Except Fault ι}
    (links : ∀ start first, again true start first = .ok here → ∃ left, ∀ follow rest, rest ≠ [] →
      again follow start (first ++ rest) = graph.resolve follow left here rest)
    (unfolds : ∀ follow, graph.resolve follow limit = graph.advance follow (again follow))
    {start : ι} {first : List (Step α)} (reached : graph.resolve true limit start first = .ok here) :
    ∃ left, ∀ follow rest, rest ≠ [] →
      graph.resolve follow limit start (first ++ rest) = graph.resolve follow left here rest := by
  induction first generalizing start with
  | nil =>
    rw [resolve_nil] at reached
    cases reached
    exact ⟨limit, fun _ _ _ => rfl⟩
  | cons step first ih =>
    rw [unfolds, advance] at reached
    cases entered : graph.enter start step with
    | error fault => simp [entered] at reached
    | ok next =>
      rw [entered] at reached
      cases kind : graph.object next with
      | symlink target =>
        simp only [kind, Bool.not_true, Bool.and_false, Bool.false_eq_true, if_false] at reached
        obtain ⟨left, continued⟩ := links _ _ reached
        refine ⟨left, fun follow rest present => ?_⟩
        rw [← continued follow rest present, List.cons_append, unfolds, advance, entered]
        simp [kind, present]
      | directory | leaf =>
        have plain : ¬graph.IsLink next := fun ⟨target, link⟩ => by simp [kind] at link
        simp only [kind, ← unfolds] at reached
        obtain ⟨left, continued⟩ := ih reached
        refine ⟨left, fun follow rest present => ?_⟩
        rw [List.cons_append, resolve_plain limit _ entered plain, continued follow rest present]

theorem resolve_append {limit : Nat} {start : ι} {first : List (Step α)}
    (reached : graph.resolve true limit start first = .ok here) :
    ∃ left, ∀ follow rest, rest ≠ [] →
      graph.resolve follow limit start (first ++ rest) = graph.resolve follow left here rest := by
  induction limit generalizing start first with
  | zero =>
    let none (_ : Bool) (_ : ι) (_ : List (Step α)) : Except Fault ι := .error .loop
    exact @advance_append ι α _ graph here 0 none (fun _ _ raised => by cases raised) (fun _ => rfl) _ _ reached
  | succ limit ih => exact advance_append (fun _ _ reached => ih reached) (fun _ => rfl) reached

end Resolve

section Walk

variable (graph)

inductive Walk : ι → List (Step α) → List ι → ι → Prop where
  | here (here : ι) : Walk here [] [] here
  | plain {here next found : ι} {step : Step α} {rest : List (Step α)} {links : List ι}
    (entered : graph.enter here step = .ok next) (plain : ¬graph.IsLink next) (onwards : Walk next rest links found) :
    Walk here (step :: rest) links found
  | link {here next found : ι} {step : Step α} {rest : List (Step α)} {links : List ι} {target : Pathname α}
    (entered : graph.enter here step = .ok next) (link : graph.object next = .symlink target)
    (onwards : Walk (if target.absolute then graph.root else here) (target.steps ++ rest) links found) :
    Walk here (step :: rest) (next :: links) found

variable {graph}

theorem Walk.of_advance {again : ι → List (Step α) → Except Fault ι} {limit : Nat} {found : ι}
    (links : ∀ start rest, again start rest = .ok found →
      ∃ links, graph.Walk start rest links found ∧ links.length < limit)
    {here : ι} {steps : List (Step α)} (reached : graph.advance true again here steps = .ok found) :
    ∃ links, graph.Walk here steps links found ∧ links.length ≤ limit := by
  induction steps generalizing here with
  | nil =>
    cases reached
    exact ⟨[], .here _, Nat.zero_le _⟩
  | cons step rest ih =>
    rw [advance] at reached
    cases entered : graph.enter here step with
    | error fault => simp [entered] at reached
    | ok next =>
      rw [entered] at reached
      cases kind : graph.object next with
      | symlink target =>
        simp only [kind, Bool.not_true, Bool.and_false, Bool.false_eq_true, if_false] at reached
        obtain ⟨more, walk, bound⟩ := links _ _ reached
        exact ⟨next :: more, .link entered kind walk, bound⟩
      | directory | leaf =>
        have plain : ¬graph.IsLink next := fun ⟨target, linked⟩ => by simp [kind] at linked
        simp only [kind] at reached
        obtain ⟨more, walk, bound⟩ := ih reached
        exact ⟨more, .plain entered plain walk, bound⟩

theorem Walk.resolve {here found : ι} {steps : List (Step α)} {links : List ι}
    (walk : graph.Walk here steps links found)
    {limit : Nat} (bound : links.length ≤ limit) : graph.resolve true limit here steps = .ok found := by
  induction walk generalizing limit with
  | here => exact resolve_nil limit
  | plain entered plain _ ih => rw [resolve_plain limit _ entered plain, ih bound]
  | link entered link _ ih =>
    cases limit with
    | zero => simp at bound
    | succ limit =>
      have later := ih (Nat.le_of_succ_le_succ bound)
      simp only [Graph.resolve, advance, entered, link, Bool.not_true, Bool.and_false, Bool.false_eq_true, if_false]
      exact later

theorem resolve_iff_walk {limit : Nat} {here found : ι} {steps : List (Step α)} :
    graph.resolve true limit here steps = .ok found ↔
      ∃ links, graph.Walk here steps links found ∧ links.length ≤ limit := by
  constructor
  next =>
    intro reached
    induction limit generalizing here steps with
    | zero => exact Walk.of_advance (fun start rest again => by cases again) reached
    | succ limit ih =>
      refine Walk.of_advance (fun start rest again => ?_) reached
      obtain ⟨links, walk, bound⟩ := ih again
      exact ⟨links, walk, Nat.lt_succ_of_le bound⟩
  next => exact fun ⟨links, walk, bound⟩ => walk.resolve bound

theorem Walk.append {first second third : ι} {steps others : List (Step α)} {links more : List ι}
    (above : graph.Walk first steps links second) (below : graph.Walk second others more third) :
    graph.Walk first (steps ++ others) (links ++ more) third := by
  induction above with
  | here => exact below
  | plain entered plain _ ih => exact .plain entered plain (ih below)
  | link entered link _ ih => exact .link entered link (by simpa using ih below)

theorem Walk.split {start found : ι} {whole : List (Step α)} {links : List ι}
    (walk : graph.Walk start whole links found)
    {steps others : List (Step α)} (parts : whole = steps ++ others) :
    ∃ middle first second, links = first ++ second ∧ graph.Walk start steps first middle ∧
      graph.Walk middle others second found := by
  induction walk generalizing steps with
  | here here =>
    obtain ⟨rfl, rfl⟩ := List.append_eq_nil_iff.mp parts.symm
    exact ⟨here, [], [], rfl, .here here, .here here⟩
  | plain entered plain onwards ih =>
    cases steps with
    | nil =>
      subst parts
      exact ⟨_, [], _, rfl, .here _, .plain entered plain onwards⟩
    | cons step steps =>
      obtain ⟨rfl, rest⟩ := List.cons.inj parts
      obtain ⟨middle, first, second, rfl, before, after⟩ := ih rest
      exact ⟨middle, first, second, rfl, .plain entered plain before, after⟩
  | link entered link onwards ih =>
    cases steps with
    | nil =>
      subst parts
      exact ⟨_, [], _, rfl, .here _, .link entered link onwards⟩
    | cons step steps =>
      obtain ⟨rfl, rfl⟩ := List.cons.inj parts
      obtain ⟨middle, first, second, rfl, before, after⟩ := ih (List.append_assoc _ _ _).symm
      exact ⟨middle, _ :: first, second, rfl, .link entered link before, after⟩

theorem Walk.stays {here found : ι} {count : Nat} {links : List ι}
    (walk : graph.Walk here (List.replicate count .stay) links found) : links = [] ∧ found = here := by
  have unmoved {next : ι} (entered : graph.enter here .stay = .ok next) : next = here := by
    obtain ⟨parent, entries, kind⟩ := isDirectory_of_enter entered
    simpa [enter, kind, eq_comm] using entered
  induction count generalizing links with
  | zero =>
    cases walk
    exact ⟨rfl, rfl⟩
  | succ count ih =>
    cases walk with
    | plain entered _ onwards =>
      obtain rfl := unmoved entered
      exact ih onwards
    | link entered link _ =>
      have directory := isDirectory_of_enter entered
      obtain rfl := unmoved entered
      exact absurd ⟨_, link⟩ directory.not_link

theorem Walk.known {known : ι → Prop} (rooted : known graph.root)
    (closed : ∀ here step next, known here → graph.enter here step = .ok next → known next) {here found : ι}
    {steps : List (Step α)} {links : List ι} (walk : graph.Walk here steps links found) (start : known here) :
    known found ∧ ∀ link ∈ links, known link := by
  induction walk with
  | here here => exact ⟨start, by simp⟩
  | plain entered _ _ ih => exact ih (closed _ _ _ start entered)
  | @link here _ _ _ _ _ target entered _ _ ih =>
    have onwards : known (if target.absolute then graph.root else here) := by
      split
      next => exact rooted
      next => exact start
    refine ⟨(ih onwards).1, fun link member => ?_⟩
    rcases List.mem_cons.mp member with rfl | later
    next => exact closed _ _ _ start entered
    next => exact (ih onwards).2 link later

theorem Walk.around {other : Graph ι α} {known leaf : ι → Prop} (root : other.root = graph.root)
    (rooted : known graph.root) (leaves : ∀ node, leaf node → graph.object node = .leaf)
    (answers : ∀ here step next, known here → graph.enter here step = .ok next → ¬leaf next →
      known next ∧ other.enter here step = .ok next)
    (kinds : ∀ node, known node → ∀ target, other.object node = .symlink target ↔ graph.object node = .symlink target)
    {here found : ι} {steps : List (Step α)} {links : List ι} (start : known here)
    (walk : graph.Walk here steps links found) (plain : ¬leaf found) :
    other.Walk here steps links found ∧ known found := by
  have stuck {node next : ι} {step : Step α} (ends : leaf node) (entered : graph.enter node step = .ok next) :
    False := by
    obtain ⟨parent, entries, kind⟩ := isDirectory_of_enter entered
    rw [leaves node ends] at kind
    cases kind
  induction walk with
  | here here => exact ⟨.here here, start⟩
  | plain entered open' onwards ih =>
    have further : ¬leaf _ := fun ends => by
      cases onwards with
      | here => exact plain ends
      | plain entered | link entered => exact stuck ends entered
    obtain ⟨inside, same⟩ := answers _ _ _ start entered further
    obtain ⟨rest, reached⟩ := ih inside plain
    exact ⟨.plain same (fun ⟨target, linked⟩ => open' ⟨target, (kinds _ inside target).mp linked⟩) rest, reached⟩
  | @link here next _ _ _ _ target entered link _ ih =>
    have further : ¬leaf next := fun ends => by
      rw [leaves next ends] at link
      cases link
    obtain ⟨inside, same⟩ := answers _ _ _ start entered further
    have onwards : known (if target.absolute then graph.root else here) := by
      split
      next => exact rooted
      next => exact start
    obtain ⟨rest, reached⟩ := ih onwards plain
    exact ⟨.link same ((kinds _ inside target).mpr link) (root ▸ rest), reached⟩

theorem Walk.preserved {other : Graph ι α} {known : ι → Prop} (root : other.root = graph.root)
    (rooted : known graph.root)
    (answers : ∀ here step next, known here → graph.enter here step = .ok next →
      known next ∧ other.enter here step = .ok next)
    (kinds : ∀ node, known node → ∀ target, other.object node = .symlink target ↔ graph.object node = .symlink target)
    {here found : ι} {steps : List (Step α)} {links : List ι} (start : known here)
    (walk : graph.Walk here steps links found) : other.Walk here steps links found := by
  have leaves (node : ι) (none : False) : graph.object node = .leaf := none.elim
  exact (walk.around root rooted leaves
    (fun here step next inside entered _ => answers here step next inside entered) kinds
    start id).1

theorem Descent.walk {here target : ι} {names : List α} (descent : graph.Descent here names target)
    (plain : ¬graph.IsLink target) : graph.Walk here (names.map .down) [] target := by
  induction descent with
  | here here => exact .here here
  | inside entered below ih => exact .plain entered (below.not_link plain) (ih plain)

end Walk

end Graph

end PathResolution
