import BuildboxCommon.CommandLine.StoredValues

set_option autoImplicit false

namespace BuildboxCommon.CommandLine

open ByteString CommandLineTypes Effect

variable {δ : Type}

def remaining (s : CommandLine δ) : List (ArgumentSpec δ) := positionals (s.spec.drop s.idxLastPositionalFound)

theorem nextPositionalSpec_eq {specs rest : List (ArgumentSpec δ)} {idx : Nat} (here : specs.drop idx = rest) :
    (nextPositionalSpec idx rest).2 = (positionals rest).head? ∧
      positionals (specs.drop (nextPositionalSpec idx rest).1) = (positionals rest).tail := by
  induction rest generalizing idx with
  | nil => simp [nextPositionalSpec, here, positionals]
  | cons spec rest ih =>
    have behind : specs.drop (idx + 1) = rest := by rw [← List.drop_drop, here, List.drop_one, List.tail_cons]
    unfold nextPositionalSpec
    by_cases bare : spec.name = []
    next => simp [bare, behind, positionals, ArgumentSpec.isPositional]
    next =>
      have skipped : positionals (spec :: rest) = positionals rest := by
        simp [positionals, ArgumentSpec.isPositional, bare]
      rw [if_neg bare, skipped]
      exact ih behind

theorem findNextPositionalSpec_ok (s : CommandLine δ) :
    ∃ idx, findNextPositionalSpec s = .ok (remaining s).head? { s with idxLastPositionalFound := idx } ∧
      positionals (s.spec.drop idx) = (remaining s).tail := by
  have here : s.spec.drop s.idxLastPositionalFound = s.spec.drop s.idxLastPositionalFound := rfl
  obtain ⟨found, behind⟩ := nextPositionalSpec_eq here
  refine ⟨_, ?_, behind⟩
  rw [remaining, ← found]
  rfl

variable [Zero δ] (stod : Bytes → Except Exn δ)

def boundPositionals : List Bytes → CommandLine δ → List (ArgumentSpec δ × Bytes)
  | [], _ => []
  | positional :: args, s =>
    match findNextPositionalSpec s with
    | .ok (some spec) s' =>
      match buildArgumentValue stod positional spec s' with
      | .ok (some _) s' => (spec, positional) :: boundPositionals args s'
      | _ => []
    | .ok none s' => boundPositionals args s'
    | .error _ _ => []

structure Placed (start : CommandLine δ) (done : List (ArgumentSpec δ × Bytes)) (s : CommandLine δ) : Prop where
  spec : s.spec = start.spec
  sorted : OrderedEntries.Sorted s.parsedArgs
  stored : ∀ name dataType,
    (OrderedEntries.get name s.parsedArgs).map (fun stored => scalar stored.argumentValue dataType) =
      (OrderedEntries.get name start.parsedArgs).map fun stored => scalar stored.argumentValue dataType
  bound : ∀ dataType address, scalar (s.bound address) dataType = assigned start.bound done ⟨dataType, some address⟩

theorem boundPositionals_nil {s : CommandLine δ} (nothing : remaining s = []) (args : List Bytes) :
    boundPositionals stod args s = [] := by
  induction args generalizing s with
  | nil => rfl
  | cons positional args ih =>
    obtain ⟨idx, found, behind⟩ := findNextPositionalSpec_ok s
    rw [nothing] at found behind
    unfold boundPositionals
    rw [found]
    exact ih behind

section Placed

variable {stod} {start : CommandLine δ} {done : List (ArgumentSpec δ × Bytes)}

omit [Zero δ] in
theorem placed_start (sorted : OrderedEntries.Sorted start.parsedArgs) : Placed start [] start :=
  ⟨rfl, sorted, fun _ _ => rfl, fun _ _ => rfl⟩

omit [Zero δ] in
theorem Placed.built {s s' : CommandLine δ} {entry : ArgumentSpec δ × Bytes} {value : ArgumentValue δ}
    (placed : Placed start done s) (built : Built s entry value s') : Placed start (done ++ [entry]) s' where
  spec := built.spec.trans placed.spec
  sorted := built.sorted placed.sorted
  stored := fun name dataType => (built.stored placed.sorted name dataType).trans (placed.stored name dataType)
  bound := by
    intro dataType address
    rw [assigned_append, built.bound, placed.bound]

theorem bindPositionals_invariant {inv : List (ArgumentSpec δ × Bytes) → CommandLine δ → Prop}
    (moved : ∀ done s idx out, inv done s → inv done { s with idxLastPositionalFound := idx, out := out })
    (built : ∀ done spec positional, spec.name = [] → Runs (inv done) (buildArgumentValue stod positional spec)
      (fun result s => ∀ value, result = some value → inv (done ++ [(spec, positional)]) s) fun _ => True)
    {args : List Bytes} {s s' : CommandLine δ} (bound : bindPositionals stod args s = .ok true s')
      (start : inv done s) :
    boundPositionals stod args s = (remaining s).zip args ∧ inv (done ++ (remaining s).zip args) s' := by
  induction args generalizing s done with
  | nil =>
    cases bound
    simpa [boundPositionals] using start
  | cons positional args ih =>
    obtain ⟨idx, found, behind⟩ := findNextPositionalSpec_ok s
    unfold bindPositionals at bound
    rw [bind_ok _ found] at bound
    cases left : remaining s with
    | nil =>
      rw [left] at behind bound
      obtain ⟨_, warned, printed, bound⟩ := of_bind_ok bound
      cases printed
      have onwards := (ih bound (moved done s idx _ start)).2
      have nothing : positionals (s.spec.drop idx) = [] := behind
      rw [remaining, nothing, List.zip_nil_left] at onwards
      rw [boundPositionals_nil stod left, List.zip_nil_left]
      exact ⟨rfl, onwards⟩
    | cons spec later =>
      have bare : spec.name = [] := by
        have listed : spec ∈ remaining s := left ▸ List.mem_cons_self
        simpa [ArgumentSpec.isPositional] using (List.mem_filter.mp listed).2
      rw [left] at found behind bound
      obtain ⟨result, s'', run, bound⟩ := of_bind_ok bound
      have recorded := buildArgumentValue_built stod positional spec { s with idxLastPositionalFound := idx } _ rfl
      have kept := built done spec positional bare _ (moved done s idx s.out start)
      rw [run] at recorded kept
      cases result with
      | none => cases bound
      | some value =>
        have after := recorded value rfl
        have still : remaining s'' = later := by rw [remaining, after.spec, after.idx]; exact behind
        obtain ⟨entries, onwards⟩ := ih bound (kept value rfl)
        rw [still] at entries onwards
        rw [List.append_assoc, List.singleton_append] at onwards
        refine ⟨?_, onwards⟩
        unfold boundPositionals
        simp only [found, List.head?_cons, run, entries, List.zip_cons_cons]

theorem bindPositionals_ok {args : List Bytes} {s s' : CommandLine δ}
    (bound : bindPositionals stod args s = .ok true s')
    (placed : Placed start done s) :
    boundPositionals stod args s = (remaining s).zip args ∧ Placed start (done ++ (remaining s).zip args) s' := by
  refine bindPositionals_invariant (fun done s idx out placed => ?_)
    (fun done spec positional _ s placed => ?_) bound placed
  next => exact ⟨placed.spec, placed.sorted, placed.stored, placed.bound⟩
  next =>
    have recorded := buildArgumentValue_built stod positional spec s s rfl
    cases run : buildArgumentValue stod positional spec s with
    | error e s' => trivial
    | ok result s' =>
      rw [run] at recorded
      exact fun value same => placed.built (recorded value same)

end Placed

section Zip

variable {α β : Type}

theorem zip_prefixes (as : List α) (bs : List β) :
    (as.zip bs).map Prod.fst <+: as ∧ (as.zip bs).map Prod.snd <+: bs := by
  induction as generalizing bs with
  | nil => simp
  | cons a as ih =>
    cases bs with
    | nil => simp
    | cons b bs => simpa [List.cons_prefix_cons] using ih bs

theorem drop_length_zip (as : List α) (bs : List β) : as.drop (as.zip bs).length = as.drop bs.length := by
  rw [List.length_zip]
  rcases le_total as.length bs.length with short | long
  next => rw [min_eq_left short, List.drop_length, List.drop_eq_nil_of_le short]
  next => rw [min_eq_right long]

end Zip

section Parser

variable (specs : List (ArgumentSpec δ)) (bound : Nat → ArgumentValue δ) (argv : List Bytes)

def bindings : List (ArgumentSpec δ × Bytes) :=
  match parseOptions stod argv.tail { create specs bound with processName := argv.headD [] } with
  | .ok (_, args) s =>
    match applyDefaultValues s.spec s with
    | .ok _ s => boundPositionals stod args s
    | .error _ _ => []
  | .error _ _ => []

structure RequiredSatisfied (s : CommandLine δ) : Prop where
  named : ∀ spec ∈ specs, spec.isRequired → spec.name ≠ [] → (OrderedEntries.get spec.name s.parsedArgs).isSome
  ordered : (bindings stod specs bound argv).map Prod.fst <+: positionals specs
  tokens : (bindings stod specs bound argv).map Prod.snd <:+: argv.tail
  positional : ∀ spec ∈ (positionals specs).drop (bindings stod specs bound argv).length, ¬spec.isRequired

variable {stod specs bound argv}

inductive Passes (stod : Bytes → Except Exn δ) (specs : List (ArgumentSpec δ)) (bound : Nat → ArgumentValue δ)
    (argv : List Bytes) (s : CommandLine δ) : Prop where
  | help (only : HelpOnly specs argv.tail) (mirrors : Mirrors specs bound (given specs argv.tail) s)
  | all (options defaults : CommandLine δ) (more : ¬HelpOnly specs argv.tail)
      (mirrors : Mirrors specs bound (given specs argv.tail) options) (valid : validateRequiredArgs options = none)
      (defaulted : Defaulted options specs defaults)
      (bindings : bindings stod specs bound argv = boundPositionals stod (positionalTokens specs argv.tail) defaults)
      (positionals : bindPositionals stod (positionalTokens specs argv.tail) defaults = .ok true s)

theorem Defaulted.placed {options defaults s : CommandLine δ} {done : List (ArgumentSpec δ × Bytes)} {args : List Bytes}
    (defaulted : Defaulted options specs defaults) (mirrors : Mirrors specs bound done options)
    (ran : bindPositionals stod args defaults = .ok true s) :
    boundPositionals stod args defaults = (positionals specs).zip args ∧
      Placed defaults ((positionals specs).zip args) s := by
  have all : remaining defaults = positionals specs := by
    rw [remaining, defaulted.spec, defaulted.idx, mirrors.spec, mirrors.idx, List.drop_zero]
  have placed := bindPositionals_ok ran (placed_start defaulted.sorted)
  rwa [all, List.nil_append] at placed

inductive Phases (stod : Bytes → Except Exn δ) (specs : List (ArgumentSpec δ)) (bound : Nat → ArgumentValue δ)
    (argv : List Bytes) (s : CommandLine δ) : Prop where
  | help (left : List Bytes)
      (options : parseOptions stod argv.tail { create specs bound with processName := argv.headD [] } =
        .ok (true, left) s)
      (only : s.parsedArgs.length = 1 ∧ (OrderedEntries.get (text "help") s.parsedArgs).isSome)
  | all (left : List Bytes) (given defaults : CommandLine δ)
      (options : parseOptions stod argv.tail { create specs bound with processName := argv.headD [] } =
        .ok (true, left) given)
      (more : ¬(given.parsedArgs.length = 1 ∧ (OrderedEntries.get (text "help") given.parsedArgs).isSome))
      (valid : validateRequiredArgs given = none) (applied : applyDefaultValues given.spec given = .ok true defaults)
      (positionals : bindPositionals stod left defaults = .ok true s)

theorem parse_phases {s : CommandLine δ} (parsed : parse stod argv (create specs bound) = .ok true s) :
    Phases stod specs bound argv s := by
  unfold parse at parsed
  cases argv with
  | nil => cases parsed
  | cons processName args =>
    let named : CommandLine δ := { create specs bound with processName := processName }
    have renamed : (modify fun s : CommandLine δ => { s with processName := processName } : Parsing δ PUnit)
        (create specs bound) = .ok ⟨⟩ named := rfl
    simp only at parsed
    rw [bind_ok _ renamed] at parsed
    obtain ⟨⟨result, left⟩, options, ended, parsed⟩ := of_bind_ok parsed
    rw [get_bind] at parsed
    simp only at parsed
    cases result with
    | false => cases parsed
    | true =>
      simp only [Bool.not_true, Bool.false_eq_true, if_false] at parsed
      split_ifs at parsed with only
      next =>
        cases parsed
        exact .help left ended only
      next =>
        cases valid : validateRequiredArgs options with
        | some errorMsg =>
          rw [valid] at parsed
          cases parsed
        | none =>
          rw [valid] at parsed
          obtain ⟨applied, defaults, run, parsed⟩ := of_bind_ok parsed
          cases applied with
          | false => cases parsed
          | true =>
            simp only [if_true] at parsed
            unfold parsePositionals at parsed
            rw [get_bind] at parsed
            split_ifs at parsed with few
            next => cases parsed
            next => exact .all left options defaults ended only valid run parsed

theorem parse_passes {s : CommandLine δ} (parsed : parse stod argv (create specs bound) = .ok true s) :
    Passes stod specs bound argv s := by
  have mirrored := parseOptions_mirrors stod argv.tail _ (create_mirrors specs bound (argv.headD []))
  rcases parse_phases parsed with ⟨left, ended, only⟩ |
    ⟨left, options, defaults, ended, more, valid, applied, positionals⟩
  next =>
    rw [ended] at mirrored
    have mirrors := (mirrored rfl).1
    exact .help (mirrors.helpOnly_iff.mp only) mirrors
  next =>
    rw [ended] at mirrored
    obtain ⟨mirrors, rfl⟩ := mirrored rfl
    have defaulted := applyDefaultValues_defaulted options.spec [] options (defaulted_start mirrors.sorted)
    rw [applied, List.nil_append, mirrors.spec] at defaulted
    refine .all options defaults (mt mirrors.helpOnly_iff.mpr more) mirrors valid (defaulted rfl) ?_ positionals
    simp only [bindings, ended, applied]

omit [Zero δ] in
theorem validateRequiredArgs_none {s : CommandLine δ} (valid : validateRequiredArgs s = none) :
    ∀ spec ∈ s.spec, spec.isRequired → spec.name ≠ [] → (OrderedEntries.get spec.name s.parsedArgs).isSome := by
  intro spec member required named
  unfold validateRequiredArgs at valid
  simp only [ite_eq_left_iff, reduceCtorEq, imp_false, not_not] at valid
  have present := List.filter_eq_nil_iff.mp valid spec member
  simpa [named, required, Option.isSome_iff_ne_none] using present

theorem parse_requiredSatisfied_iff {s : CommandLine δ} (parsed : parse stod argv (create specs bound) = .ok true s)
    (more : ¬HelpOnly specs argv.tail) : RequiredSatisfied stod specs bound argv s ↔
      ∀ spec ∈ (positionals specs).drop (positionalTokens specs argv.tail).length, spec.isOptional := by
  rcases parse_passes parsed with ⟨only, -⟩ | ⟨options, defaults, -, mirrors, valid, defaulted, bindings, bound⟩
  next => exact absurd only more
  obtain ⟨dealt, placed⟩ := defaulted.placed mirrors bound
  rw [dealt] at bindings
  have named : ∀ spec ∈ specs, spec.isRequired → spec.name ≠ [] →
      (OrderedEntries.get spec.name s.parsedArgs).isSome := by
    intro spec member required filled
    have found := validateRequiredArgs_none valid spec (mirrors.spec ▸ member) required filled
    obtain ⟨stored, found⟩ := Option.isSome_iff_exists.mp found
    have kept := placed.stored spec.name .unknown
    rw [defaulted.kept _ _ found] at kept
    exact Option.isSome_map.symm.trans (congrArg Option.isSome kept)
  have left := drop_length_zip (positionals specs) (positionalTokens specs argv.tail)
  constructor
  next =>
    intro satisfied spec member
    have optional := satisfied.positional
    rw [bindings, left] at optional
    simpa [ArgumentSpec.isRequired] using optional spec member
  next =>
    intro optional
    refine ⟨named, ?_, ?_, ?_⟩
    next =>
      rw [bindings]
      exact (zip_prefixes _ _).1
    next =>
      rw [bindings]
      exact (zip_prefixes _ _).2.isInfix.trans (scan_sound argv.tail).2.isInfix
    next =>
      rw [bindings, left]
      intro spec member
      simpa [ArgumentSpec.isRequired] using optional spec member

end Parser

section Samples

def optionalSpec : ArgumentSpec Int := ⟨[], text "Source", ⟨.string, some 1⟩, .optional, .withoutArg, .none⟩

theorem parse_requiredSatisfied_iff_bot : ∃ s,
    parse noDouble [text "tool", text "bot"] (create [botIdSpec, optionalSpec] fun _ => .initial) = .ok true s ∧
    (RequiredSatisfied noDouble [botIdSpec, optionalSpec] (fun _ => .initial) [text "tool", text "bot"] s ↔
      ∀ spec ∈ (positionals [botIdSpec, optionalSpec]).drop
        (positionalTokens [botIdSpec, optionalSpec] [text "bot"]).length, spec.isOptional) := by
  have parsed : ∃ s, parse noDouble [text "tool", text "bot"] (create [botIdSpec, optionalSpec] fun _ => .initial) =
      .ok true s := by
    unfold parse parseOptions
    exact ⟨_, rfl⟩
  obtain ⟨s, parsed⟩ := parsed
  exact ⟨s, parsed, parse_requiredSatisfied_iff parsed (by decide +kernel)⟩

theorem required_positional_without_token : ∃ s,
    parse noDouble [text "tool", text "bot"] (create [optionalSpec, botIdSpec] fun _ => .initial) = .ok true s ∧
    ¬HelpOnly [optionalSpec, botIdSpec] [text "bot"] ∧
    botIdSpec.isRequired ∧
    bindings noDouble [optionalSpec, botIdSpec] (fun _ => .initial) [text "tool", text "bot"] =
      [(optionalSpec, text "bot")] ∧
    ¬RequiredSatisfied noDouble [optionalSpec, botIdSpec] (fun _ => .initial) [text "tool", text "bot"] s := by
  have dealt : bindings noDouble [optionalSpec, botIdSpec] (fun _ => .initial) [text "tool", text "bot"] =
      [(optionalSpec, text "bot")] := by
    unfold bindings parseOptions
    rfl
  have parsed : ∃ s, parse noDouble [text "tool", text "bot"] (create [optionalSpec, botIdSpec] fun _ => .initial) =
      .ok true s := by
    unfold parse parseOptions
    exact ⟨_, rfl⟩
  obtain ⟨s, parsed⟩ := parsed
  refine ⟨s, parsed, by decide +kernel, by decide, dealt, fun satisfied => ?_⟩
  have optional := satisfied.positional
  rw [dealt] at optional
  exact optional botIdSpec (by decide) (by decide)

end Samples

end BuildboxCommon.CommandLine
