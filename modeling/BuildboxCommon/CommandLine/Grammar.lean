import BuildboxCommon.CommandLine.Parse

set_option autoImplicit false

namespace BuildboxCommon.CommandLine

open ByteString CommandLineTypes Effect

variable {δ : Type}

def DistinctNames (specs : List (ArgumentSpec δ)) : Prop :=
  ((specs.map ArgumentSpec.name).filter (· ≠ [])).Nodup

instance (specs : List (ArgumentSpec δ)) : Decidable (DistinctNames specs) :=
  inferInstanceAs (Decidable (List.Nodup _))

def Dashed (token : Bytes) : Prop := [dash, dash] <+: token

instance (token : Bytes) : Decidable (Dashed token) := inferInstanceAs (Decidable (_ <+: _))

def Spells (name token : Bytes) : Prop :=
  token = [dash, dash] ++ name ∨ ∃ value, token = [dash, dash] ++ name ++ equals :: value

structure Grammatical (specs : List (ArgumentSpec δ)) (token : Bytes) (reading : Reading δ) : Prop where
  option_iff : (∃ name found, reading = .option name found) ↔ Dashed token
  spelled : ∀ name found, reading = .option name found → Spells name token ∧ equals ∉ name
  resolved : ∀ name found, reading = .option name found →
    ∀ spec, found = some spec ↔ spec ∈ specs ∧ spec.name = name ∧ name ≠ []
  positional : token.head? ≠ some dash → ∃ ready, reading = .positional ready

structure Plain (specs : List (ArgumentSpec δ)) (token : Bytes) : Prop where
  filled : token ≠ []
  dashes : charAt token 1 = dash → charAt token 0 = dash
  named : Spells [] token → ∀ spec ∈ specs, spec.name ≠ []

def Logged (specs : List (ArgumentSpec δ)) (token : Bytes) : Reading δ → Prop
  | .short => charAt token 0 = dash ∧ charAt token 1 ≠ dash
  | .positional _ => token ≠ [] ∧ charAt token 0 ≠ dash ∧ charAt token 1 ≠ dash
  | .option name found => charAt token 1 = dash ∧ name = (token.drop 2).takeWhile (· ≠ equals) ∧
    found = findOptionSpecByName specs name
  | .outside => token = []

section Tokens

variable {specs : List (ArgumentSpec δ)} {name token : Bytes}

theorem dashed_iff : Dashed token ↔ charAt token 0 = dash ∧ charAt token 1 = dash := by
  unfold Dashed charAt
  match token with
  | [] => simp [nul, dash]
  | [first] => simp [nul, dash]
  | first :: second :: rest => simp [List.cons_prefix_cons, eq_comm]

theorem head_iff (filled : token ≠ []) : token.head? = some dash ↔ charAt token 0 = dash := by
  cases token with
  | nil => exact absurd rfl filled
  | cons first rest => simp [charAt]

theorem spells_takeWhile (dashed : Dashed token) : Spells ((token.drop 2).takeWhile (· ≠ equals)) token := by
  obtain ⟨option, rfl⟩ := dashed
  change Spells (option.takeWhile (· ≠ equals)) ([dash, dash] ++ option)
  have parts : option.takeWhile (· ≠ equals) ++ option.dropWhile (· ≠ equals) = option :=
    List.takeWhile_append_dropWhile
  cases behind : option.dropWhile (· ≠ equals) with
  | nil =>
    rw [behind, List.append_nil] at parts
    exact .inl (by rw [parts])
  | cons first value =>
    have ended := List.head?_dropWhile_not (· ≠ equals) option
    rw [behind] at ended
    obtain rfl : first = equals := by simpa using ended
    rw [behind] at parts
    exact .inr ⟨value, by rw [List.append_assoc, parts]⟩

theorem no_equals (free : equals ∉ name) : ∀ char ∈ name, (decide (char ≠ equals)) = true := fun _ member =>
  decide_eq_true fun same => free (same ▸ member)

theorem cut_at_equals (free : equals ∉ name) (value : Bytes) :
    (name ++ equals :: value).takeWhile (· ≠ equals) = name ∧
      (name ++ equals :: value).dropWhile (· ≠ equals) = equals :: value := by
  rw [List.takeWhile_append_of_pos (no_equals free), List.dropWhile_append_of_pos (no_equals free)]
  simp

theorem takeWhile_of_spells (spells : Spells name token) (free : equals ∉ name) :
    (token.drop 2).takeWhile (· ≠ equals) = name := by
  rcases spells with rfl | ⟨value, rfl⟩
  next => exact List.takeWhile_eq_self_iff.mpr (no_equals free)
  next => exact (cut_at_equals free value).1

theorem dashed_of_spells (spells : Spells name token) : Dashed token := by
  rcases spells with rfl | ⟨value, rfl⟩
  next => exact List.prefix_append _ _
  next => exact ⟨name ++ equals :: value, by simp⟩

theorem find_iff (distinct : DistinctNames specs) (nonempty : name ≠ []) (spec : ArgumentSpec δ) :
    findOptionSpecByName specs name = some spec ↔ spec ∈ specs ∧ spec.name = name := by
  constructor
  next =>
    intro found
    exact ⟨List.mem_of_find?_eq_some found, by simpa using List.find?_some found⟩
  next =>
    rintro ⟨member, rfl⟩
    unfold findOptionSpecByName
    induction specs with
    | nil => cases member
    | cons first rest ih =>
      unfold DistinctNames at distinct
      by_cases same : first.name = spec.name
      next =>
        have filled : first.name ≠ [] := same ▸ nonempty
        rw [List.map_cons, List.filter_cons_of_pos (by simpa using filled), List.nodup_cons] at distinct
        rw [List.find?_cons_of_pos (by simpa using same)]
        rcases List.mem_cons.mp member with rfl | later
        next => rfl
        next =>
          have again : first.name ∈ (rest.map ArgumentSpec.name).filter (· ≠ []) :=
            List.mem_filter.mpr ⟨List.mem_map.mpr ⟨spec, later, same.symm⟩, by simpa using filled⟩
          exact absurd again distinct.1
      next =>
        have later : spec ∈ rest := (List.mem_cons.mp member).resolve_left fun here => same (by rw [here])
        rw [List.find?_cons_of_neg (by simpa using same)]
        apply ih
        next =>
          have sub : ((rest.map ArgumentSpec.name).filter (· ≠ [])).Sublist
              (((first :: rest).map ArgumentSpec.name).filter (· ≠ [])) :=
            (List.sublist_cons_self _ _).filter _
          exact distinct.sublist sub
        next => exact later

theorem find_nil_iff : findOptionSpecByName specs [] = none ↔ ∀ spec ∈ specs, spec.name ≠ [] := by
  simp [findOptionSpecByName]

theorem option_grammatical_iff (distinct : DistinctNames specs) (second : charAt token 1 = dash) (filled : token ≠ []) :
    let optionName := (token.drop 2).takeWhile (· ≠ equals)
    Grammatical specs token (.option optionName (findOptionSpecByName specs optionName)) ↔ Plain specs token := by
  intro optionName
  have free : equals ∉ optionName := fun member => by simpa using List.mem_takeWhile_imp member
  constructor
  next =>
    intro grammatical
    have dashed := grammatical.option_iff.mp ⟨_, _, rfl⟩
    refine ⟨filled, fun _ => (dashed_iff.mp dashed).1, ?_⟩
    intro bare
    have empty : optionName = [] := takeWhile_of_spells bare (by simp)
    have resolved := grammatical.resolved _ _ rfl
    rw [empty] at resolved
    apply find_nil_iff.mp
    cases found : findOptionSpecByName specs [] with
    | none => rfl
    | some spec => exact absurd rfl ((resolved spec).mp found).2.2
  next =>
    intro plain
    have dashed := dashed_iff.mpr ⟨plain.dashes second, second⟩
    have spells := spells_takeWhile dashed
    constructor
    next => exact iff_of_true ⟨_, _, rfl⟩ dashed
    next =>
      rintro name found same
      obtain ⟨rfl, -⟩ := Reading.option.inj same
      exact ⟨spells, free⟩
    next =>
      rintro name found same spec
      obtain ⟨rfl, rfl⟩ := Reading.option.inj same
      by_cases empty : optionName = []
      next =>
        have bare : Spells [] token := empty ▸ spells
        rw [empty, find_nil_iff.mpr (plain.named bare)]
        simp
      next =>
        rw [find_iff distinct empty]
        simp [empty]
    next => exact fun other => absurd ((head_iff filled).mpr (plain.dashes second)) other

theorem logged_grammatical_iff (distinct : DistinctNames specs) {reading : Reading δ}
    (logged : Logged specs token reading) :
    Grammatical specs token reading ↔ Plain specs token := by
  cases reading with
  | short =>
    obtain ⟨first, second⟩ := logged
    have undashed : ¬Dashed token := fun dashed => second (dashed_iff.mp dashed).2
    have filled : token ≠ [] := by rintro rfl; cases first
    refine iff_of_true ⟨?_, ?_, ?_, ?_⟩ ⟨filled, fun dashed => absurd dashed second, ?_⟩
    next => simp [undashed]
    next => simp
    next => simp
    next => exact fun other => absurd ((head_iff filled).mpr first) other
    next => exact fun bare => absurd (dashed_of_spells bare) undashed
  | positional ready =>
    obtain ⟨filled, first, second⟩ := logged
    have undashed : ¬Dashed token := fun dashed => second (dashed_iff.mp dashed).2
    refine iff_of_true ⟨?_, ?_, ?_, ?_⟩ ⟨filled, fun dashed => absurd dashed second, ?_⟩
    next => simp [undashed]
    next => simp
    next => simp
    next => exact fun _ => ⟨ready, rfl⟩
    next => exact fun bare => absurd (dashed_of_spells bare) undashed
  | option name found =>
    obtain ⟨second, rfl, rfl⟩ := logged
    have filled : token ≠ [] := by rintro rfl; cases second
    exact option_grammatical_iff distinct second filled
  | outside =>
    obtain rfl : token = [] := logged
    refine iff_of_false (fun grammatical => ?_) fun plain => plain.filled rfl
    obtain ⟨ready, impossible⟩ := grammatical.positional (by simp)
    cases impossible

end Tokens

section Readings

variable {specs : List (ArgumentSpec δ)} {inv : List (ArgumentSpec δ) → List (Bytes × Reading δ) → Prop} {α : Type}

theorem modify_keeps {update : CommandLine δ → CommandLine δ}
    (quiet : ∀ s, (update s).spec = s.spec ∧ (update s).readings = s.readings) :
    Keeps (fun s => inv s.spec s.readings) (modify update : Parsing δ Unit) fun _ => True := by
  intro s start
  refine ⟨trivial, ?_⟩
  change inv (update s).spec (update s).readings
  rw [(quiet s).1, (quiet s).2]
  exact start

theorem print_keeps (message : Bytes) :
    Keeps (fun s : CommandLine δ => inv s.spec s.readings) (print message) fun _ => True :=
  modify_keeps fun _ => ⟨rfl, rfl⟩

theorem parseError_keeps (lineNumber : Nat) (message : Bytes) :
    Keeps (fun s : CommandLine δ => inv s.spec s.readings) (parseError lineNumber message) fun _ => True :=
  print_keeps _

theorem findNextPositionalSpec_keeps :
    Keeps (fun s : CommandLine δ => inv s.spec s.readings) findNextPositionalSpec fun _ => True :=
  fun _ start => ⟨trivial, start⟩

theorem assign_keeps (spec : ArgumentSpec δ) (change : ArgumentValue δ → ArgumentValue δ) :
    Keeps (fun s => inv s.spec s.readings) (assign spec change) fun _ => True := by
  unfold assign
  split
  next => exact .pure trivial
  next => exact modify_keeps fun _ => ⟨rfl, rfl⟩

theorem converted_keeps (optionValue : Bytes) (spec : ArgumentSpec δ) (result : Except Exn α) :
    Keeps (fun s => inv s.spec s.readings) (converted optionValue spec result) fun _ => True := by
  unfold converted
  split
  next => exact .pure trivial
  next => exact (print_keeps _).andThen fun _ => .pure trivial
  next => exact (print_keeps _).andThen fun _ => .pure trivial
  next => exact .throw _

variable [Zero δ] (stod : Bytes → Except Exn δ)

theorem collect_keeps (spec : ArgumentSpec δ) (append : ArgumentValue δ → ArgumentValue δ) :
    Keeps (fun s => inv s.spec s.readings) (collect spec append) fun _ => True := by
  refine .get fun s start => ?_
  split
  next => exact (assign_keeps spec append).andThen fun _ => .pure trivial
  next =>
    have updated {parsedArgs : List (Bytes × ArgumentMetaData δ)} :
        Keeps (fun s => inv s.spec s.readings) (set { s with parsedArgs := parsedArgs } : Parsing δ PUnit)
          fun _ => True := fun _ _ => ⟨trivial, start⟩
    exact updated.andThen fun _ => (assign_keeps spec append).andThen fun _ => .pure trivial

theorem buildArgumentValue_keeps (optionValue : Bytes) (spec : ArgumentSpec δ) :
    Keeps (fun s => inv s.spec s.readings) (buildArgumentValue stod optionValue spec) fun _ => True := by
  unfold buildArgumentValue
  split
  next => exact (assign_keeps _ _).andThen fun _ => .pure trivial
  next =>
    refine (converted_keeps _ _ _).andThen fun val => ?_
    split
    next => exact .pure trivial
    next => exact (assign_keeps _ _).andThen fun _ => .pure trivial
  next =>
    refine (converted_keeps _ _ _).andThen fun val => ?_
    split
    next => exact .pure trivial
    next => exact (assign_keeps _ _).andThen fun _ => .pure trivial
  next => exact (assign_keeps _ _).andThen fun _ => .pure trivial
  next => exact collect_keeps _ _
  next => exact collect_keeps _ _
  next => exact .throw _

omit [Zero δ] in
theorem emplace_keeps (name : Bytes) (argumentValue : ArgumentValue δ) (spec : ArgumentSpec δ) :
    Keeps (fun s => inv s.spec s.readings) (emplace name argumentValue spec) fun _ => True :=
  modify_keeps fun _ => ⟨rfl, rfl⟩

theorem addOption_keeps (optionName optionValue : Bytes) (spec : ArgumentSpec δ) :
    Keeps (fun s => inv s.spec s.readings) (addOption stod optionName optionValue spec) fun _ => True := by
  refine (buildArgumentValue_keeps stod optionValue spec).andThen fun built => ?_
  cases built with
  | none => exact .pure trivial
  | some argumentValue => exact (emplace_keeps _ _ _).andThen fun _ => .pure trivial

omit [Zero δ] in
theorem readyForPositionals_keeps (currentArg : Bytes) (later : List Bytes) :
    Keeps (fun s : CommandLine δ => inv s.spec s.readings) (readyForPositionals currentArg later) fun _ => True := by
  refine .get fun s start => .ite (fun _ => (parseError_keeps _ _).andThen fun _ => .pure trivial) fun _ => ?_
  split
  next => exact .pure trivial
  next =>
    dsimp only
    split
    next =>
      refine .ite (fun _ => ?_) fun _ => ?_
      next => exact (parseError_keeps _ _).andThen fun _ => .pure trivial
      next => exact (parseError_keeps _ _).andThen fun _ => .pure trivial
    next => exact (parseError_keeps _ _).andThen fun _ => .pure trivial

theorem applyDefaultValue_keeps (spec : ArgumentSpec δ) :
    Keeps (fun s => inv s.spec s.readings) (applyDefaultValue spec) fun _ => True := by
  refine .get fun s start => .ite (fun _ => .pure trivial) fun _ => ?_
  refine .ite (fun _ => (parseError_keeps _ _).andThen fun _ => .pure trivial) fun _ => ?_
  refine .ite (fun _ => .pure trivial) fun _ => .ite (fun _ => .pure trivial) fun _ => ?_
  refine .ite (fun _ => (parseError_keeps _ _).andThen fun _ => .pure trivial) fun _ => ?_
  exact (emplace_keeps _ _ _).andThen fun _ => .pure trivial

theorem applyDefaultValues_keeps (specs : List (ArgumentSpec δ)) :
    Keeps (fun s => inv s.spec s.readings) (applyDefaultValues specs) fun _ => True := by
  induction specs with
  | nil => exact .pure trivial
  | cons spec specs ih =>
    exact (applyDefaultValue_keeps spec).andThen fun applied => .ite (fun _ => ih) fun _ => .pure trivial

theorem bindPositionals_keeps (args : List Bytes) :
    Keeps (fun s => inv s.spec s.readings) (bindPositionals stod args) fun _ => True := by
  induction args with
  | nil => exact .pure trivial
  | cons positional args ih =>
    refine findNextPositionalSpec_keeps.andThen fun found => ?_
    cases found with
    | none => exact (print_keeps _).andThen fun _ => ih
    | some spec =>
      refine (buildArgumentValue_keeps stod positional spec).andThen fun built => ?_
      cases built with
      | none => exact .pure trivial
      | some argumentValue => exact ih

theorem parsePositionals_keeps (args : List Bytes) :
    Keeps (fun s => inv s.spec s.readings) (parsePositionals stod args) fun _ => True := by
  refine .get fun s start => .ite (fun _ => ?_) fun _ => bindPositionals_keeps stod args
  exact (parseError_keeps _ _).andThen fun _ => .pure trivial

def AllLogged (specs found : List (ArgumentSpec δ)) (readings : List (Bytes × Reading δ)) : Prop :=
  found = specs ∧ ∀ entry ∈ readings, Logged specs entry.1 entry.2

omit [Zero δ] in
theorem read_logged {token : Bytes} {reading : Reading δ} (logged : Logged specs token reading) :
    Keeps (fun s => AllLogged specs s.spec s.readings) (read token reading) fun _ => True := by
  rintro s ⟨same, all⟩
  refine ⟨trivial, same, fun entry member => ?_⟩
  rcases List.mem_append.mp member with earlier | here
  next => exact all entry earlier
  next =>
    obtain rfl := List.mem_singleton.mp here
    exact logged

theorem parseOptions_logged : (args : List Bytes) →
    Keeps (fun s => AllLogged specs s.spec s.readings) (parseOptions stod args) fun _ => True
  | [] => .pure trivial
  | currentArg :: rest => by
    unfold parseOptions
    refine .ite (fun short => ?_) fun long => .ite (fun empty => ?_) fun filled => .ite
      (fun positional => ?_) fun option => ?_
    next =>
      have logged : Logged specs currentArg .short := short
      exact (read_logged logged).andThen fun _ => (parseError_keeps _ _).andThen fun _ => .pure trivial
    next =>
      have logged : Logged specs currentArg .outside := empty
      exact (read_logged logged).andThen fun _ => .throw _
    next =>
      refine (readyForPositionals_keeps currentArg rest).andThen fun ready => ?_
      have logged : Logged specs currentArg (.positional ready) := ⟨filled, positional⟩
      exact (read_logged logged).andThen fun _ => .pure trivial
    next =>
      -- Both tests have failed, so the second character is a dash.
      have second : charAt currentArg 1 = dash := by tauto
      refine .get fun s start => ?_
      rw [start.1]
      have logged : Logged specs currentArg (.option _ _) := ⟨second, rfl, rfl⟩
      refine (read_logged logged).andThen fun _ => ?_
      split
      next => exact (parseError_keeps _ _).andThen fun _ => .pure trivial
      next spec found =>
        refine .ite (fun separate => ?_) fun joined => ?_
        next =>
          cases rest with
          | nil => exact (parseError_keeps _ _).andThen fun _ => .pure trivial
          | cons optionValue later =>
            refine .ite (fun another => (parseError_keeps _ _).andThen fun _ => .pure trivial) fun _ => ?_
            refine (addOption_keeps stod _ _ _).andThen fun added => .ite (fun _ => ?_) fun _ => .pure trivial
            exact parseOptions_logged later
        next =>
          refine (addOption_keeps stod _ _ _).andThen fun added => .ite (fun _ => ?_) fun _ => .pure trivial
          exact parseOptions_logged rest

theorem parse_logged (argv : List Bytes) :
    Keeps (fun s => AllLogged specs s.spec s.readings) (parse stod argv) fun _ => True := by
  unfold parse
  split
  next => exact (print_keeps _).andThen fun _ => .pure trivial
  next processName args =>
    have named : Keeps (fun s => AllLogged specs s.spec s.readings)
        (modify fun s : CommandLine δ => { s with processName := processName }) fun _ => True :=
      modify_keeps fun _ => ⟨rfl, rfl⟩
    refine named.andThen fun _ => (parseOptions_logged stod args).andThen fun ended => ?_
    refine .get fun s start => .ite (fun _ => .pure trivial) fun _ => .ite (fun _ => .pure trivial) fun _ => ?_
    split
    next => exact (print_keeps _).andThen fun _ => .pure trivial
    next =>
      refine (applyDefaultValues_keeps s.spec).andThen fun applied => .ite (fun _ => ?_) fun _ => .pure trivial
      exact parsePositionals_keeps stod ended.2

end Readings

section Parser

variable [Zero δ] (stod : Bytes → Except Exn δ) (specs : List (ArgumentSpec δ)) (bound : Nat → ArgumentValue δ)
  (argv : List Bytes)

def optionPhase : List (Bytes × Reading δ) := (exitState (parse stod argv (create specs bound))).readings

variable {specs}

theorem parse_grammatical_iff (distinct : DistinctNames specs) :
    (∀ entry ∈ optionPhase stod specs bound argv, Grammatical specs entry.1 entry.2) ↔
      ∀ entry ∈ optionPhase stod specs bound argv, Plain specs entry.1 := by
  have start : AllLogged specs (create specs bound).spec (create specs bound).readings :=
    ⟨rfl, fun entry member => absurd member List.not_mem_nil⟩
  have logged := ((parse_logged stod argv).exit start).2
  exact forall₂_congr fun entry member => logged_grammatical_iff distinct (logged entry member)

section Samples

def fooSpec : ArgumentSpec Int := ⟨text "foo", [], ⟨.bool, none⟩, .optional, .withoutArg, .none⟩

def botIdSpec : ArgumentSpec Int := ⟨[], text "BOT Id", ⟨.string, some 0⟩, .required, .withoutArg, .none⟩

def noDouble (_ : Bytes) : Except Exn Int := .error (.invalidArgument [])

theorem parse_grammatical_iff_foo :
    (∀ entry ∈ optionPhase noDouble [fooSpec, botIdSpec] (fun _ => .initial) [text "tool", text "--foo", text "bot"],
      Grammatical [fooSpec, botIdSpec] entry.1 entry.2) ↔
    ∀ entry ∈ optionPhase noDouble [fooSpec, botIdSpec] (fun _ => .initial) [text "tool", text "--foo", text "bot"],
      Plain [fooSpec, botIdSpec] entry.1 :=
  parse_grammatical_iff noDouble _ _ (by decide)

theorem word_taken_for_option : DistinctNames [fooSpec, botIdSpec] ∧
    optionPhase noDouble [fooSpec, botIdSpec] (fun _ => .initial) [text "tool", text "x-foo"] =
      [(text "x-foo", .option (text "foo") (some fooSpec))] ∧
    ¬Grammatical [fooSpec, botIdSpec] (text "x-foo") (.option (text "foo") (some fooSpec)) ∧
    optionPhase noDouble [fooSpec, botIdSpec] (fun _ => .initial) [text "tool", text "--=bot"] =
      [(text "--=bot", .option [] (some botIdSpec))] ∧
    ¬Grammatical [fooSpec, botIdSpec] (text "--=bot") (.option [] (some botIdSpec)) := by
  refine ⟨by decide, ?_, fun grammatical => ?_, ?_, fun grammatical => ?_⟩
  next =>
    unfold optionPhase parse parseOptions
    rfl
  next => exact absurd (grammatical.option_iff.mp ⟨_, _, rfl⟩) (by decide)
  next =>
    unfold optionPhase parse parseOptions
    rfl
  next => exact absurd rfl ((grammatical.resolved _ _ rfl botIdSpec).mp rfl).2.2

end Samples

end Parser

end BuildboxCommon.CommandLine
