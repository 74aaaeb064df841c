import BuildboxCommon.CommandLine.Positionals

set_option autoImplicit false

namespace BuildboxCommon.CommandLine

open ByteString CommandLineTypes Effect

variable {δ : Type}

section Getters

def lookup (s : CommandLine δ) (name : Bytes) : Except Exn (ArgumentMetaData δ) :=
  match OrderedEntries.get name s.parsedArgs with
  | none => .error (.runtimeError (text "argument \"" ++ name ++ text "\" not found"))
  | some stored => .ok stored

def getString (s : CommandLine δ) (name : Bytes) : Except Exn Bytes := do
  let stored ← lookup s name
  return stored.argumentValue.str

def getInt (s : CommandLine δ) (name : Bytes) : Except Exn Int := do
  let stored ← lookup s name
  return stored.argumentValue.int

def getBool (s : CommandLine δ) (name : Bytes) : Except Exn Bool := do
  let stored ← lookup s name
  match stored.argumentValue.bool with
  | some value => return value
  | none => throw .undefined

end Getters

def Agrees (s : CommandLine δ) (spec : ArgumentSpec δ) (address : Nat) : Prop :=
  match spec.dataType with
  | .string => getString s spec.name = .ok (s.bound address).str
  | .int => getInt s spec.name = .ok (s.bound address).int
  | .bool => ∃ value, getBool s spec.name = .ok value ∧ (s.bound address).bool = some value
  | _ => True

theorem agrees_iff {s : CommandLine δ} {spec : ArgumentSpec δ} {address : Nat} {stored : ArgumentMetaData δ}
    (isScalar : IsScalar spec.dataType) (found : OrderedEntries.get spec.name s.parsedArgs = some stored)
    (known : scalar stored.argumentValue spec.dataType ≠ .none) : Agrees s spec address ↔
      scalar (s.bound address) spec.dataType = scalar stored.argumentValue spec.dataType := by
  unfold Agrees getString getInt getBool lookup
  rw [found]
  rcases isScalar with string | int | bool
  next =>
    rw [string]
    exact ⟨fun same => congrArg DefaultValue.string (Except.ok.inj same).symm,
      fun same => congrArg Except.ok (DefaultValue.string.inj same).symm⟩
  next =>
    rw [int]
    exact ⟨fun same => congrArg DefaultValue.int (Except.ok.inj same).symm,
      fun same => congrArg Except.ok (DefaultValue.int.inj same).symm⟩
  next =>
    rw [bool] at known ⊢
    unfold scalar at known ⊢
    cases value : stored.argumentValue.bool with
    | none => simp [value] at known
    | some value =>
      cases (s.bound address).bool with
      | none => simp
      | some bound => simp [bind, Except.bind, pure, Except.pure, value, eq_comm]

section Inputs

variable (specs : List (ArgumentSpec δ))

def texts (args : List Bytes) : List (ArgumentSpec δ × Bytes) :=
  given specs args ++ if HelpOnly specs args then [] else (positionals specs).zip (positionalTokens specs args)

structure Consistent (before : Nat → ArgumentValue δ) (args : List Bytes) (spec : ArgumentSpec δ) : Prop where
  named : ∀ entry, (given specs args).find? (fun entry => entry.1.name = spec.name) = some entry →
    assigned before (texts specs args) spec.typeInfo = conversion entry
  filled : ¬HelpOnly specs args → spec.hasDefaultValue → (∀ entry ∈ given specs args, entry.1.name ≠ spec.name) →
    assigned before (texts specs args) spec.typeInfo = spec.defaultValue

end Inputs

theorem assigned_assigned {before after : Nat → ArgumentValue δ} {first : List (ArgumentSpec δ × Bytes)}
    (settled : ∀ dataType address, scalar (after address) dataType = assigned before first ⟨dataType, some address⟩)
    (second : List (ArgumentSpec δ × Bytes)) (dataType : DataType) (address : Nat) :
    assigned after second ⟨dataType, some address⟩ = assigned before (first ++ second) ⟨dataType, some address⟩ := by
  have earlier := settled dataType address
  unfold assigned at earlier ⊢
  rw [List.reverse_append, List.find?_append]
  cases second.reverse.find? fun entry => entry.1.typeInfo = ⟨dataType, some address⟩ with
  | some entry => rfl
  | none => exact earlier

section Parser

variable [Zero δ] {stod : Bytes → Except Exn δ} {specs : List (ArgumentSpec δ)} {before : Nat → ArgumentValue δ}
  {argv : List Bytes} {s : CommandLine δ}

def Quiet (kept : CommandLine δ → Prop) : Prop :=
  ∀ s idx out readings, kept s → kept { s with idxLastPositionalFound := idx, out := out, readings := readings }

-- What each text and the defaults keep holds of all texts in the end; behind the options less may be kept.
theorem parse_invariant {inv placed : List (ArgumentSpec δ × Bytes) → CommandLine δ → Prop}
    (same : ∀ done s, inv done s → s.spec = specs) (quiet : ∀ done, Quiet (inv done))
    (turned : ∀ done s, inv done s → placed done s) (calm : ∀ done, Quiet (placed done))
    (added : ∀ done value, ∀ spec ∈ specs, Runs (inv done) (addOption stod spec.name value spec)
      (fun ok s => ok = true → inv (done ++ [(spec, value)]) s) fun _ => True)
    (filled : ∀ done spec, Runs (inv done) (applyDefaultValue spec) (fun _ => inv done) fun _ => True)
    (built : ∀ done spec positional, spec.name = [] → Runs (placed done) (buildArgumentValue stod positional spec)
      (fun result s => ∀ value, result = some value → placed (done ++ [(spec, positional)]) s) fun _ => True)
    (start : ∀ processName, inv [] { create specs before with processName := processName })
    (parsed : parse stod argv (create specs before) = .ok true s) : placed (texts specs argv.tail) s := by
  have silent (done : List (ArgumentSpec δ × Bytes)) : Silent (inv done) := fun s out readings held =>
    quiet done s s.idxLastPositionalFound out readings held
  have options := parseOptions_runs stod same silent added argv.tail [] _ (start (argv.headD []))
  have mirrored := parseOptions_mirrors stod argv.tail _ (create_mirrors specs before (argv.headD []))
  have defaults (done : List (ArgumentSpec δ × Bytes)) (specs : List (ArgumentSpec δ)) :
      Runs (inv done) (applyDefaultValues specs) (fun _ => inv done) fun _ => True := by
    induction specs with
    | nil => exact .pure fun _ => id
    | cons spec specs ih => exact (filled done spec).bind fun _ => .ite (fun _ => ih) fun _ => .pure fun _ => id
  unfold texts
  rcases parse_phases parsed with ⟨left, ended, only⟩ | ⟨left, given, stored, ended, more, valid, applied, positionals⟩
  next =>
    rw [ended] at options mirrored
    rw [if_pos ((mirrored rfl).1.helpOnly_iff.mp only), List.append_nil]
    exact turned _ _ (options rfl).1
  next =>
    rw [ended] at options mirrored
    obtain ⟨held, rfl⟩ := options rfl
    have mirrors := (mirrored rfl).1
    have defaulted := applyDefaultValues_defaulted given.spec [] given (defaulted_start mirrors.sorted)
    have held := defaults _ given.spec given held
    rw [applied] at defaulted held
    have all : remaining stored = CommandLine.positionals specs := by
      rw [remaining, (defaulted rfl).spec, (defaulted rfl).idx, mirrors.spec, mirrors.idx, List.drop_zero]
    rw [if_neg (mt mirrors.helpOnly_iff.mpr more), ← all]
    exact (bindPositionals_invariant (fun done s idx out held => calm done s idx out s.readings held) built positionals
      (turned _ _ held)).2

theorem Passes.bound (passes : Passes stod specs before argv s) (dataType : DataType) (address : Nat) :
    scalar (s.bound address) dataType = assigned before (texts specs argv.tail) ⟨dataType, some address⟩ := by
  unfold texts
  rcases passes with ⟨only, mirrors⟩ | ⟨options, defaults, more, mirrors, valid, defaulted, bindings, positionals⟩
  next =>
    rw [if_pos only, List.append_nil]
    exact mirrors.bound dataType address
  next =>
    have placed := (defaulted.placed mirrors positionals).2
    rw [if_neg more, placed.bound, defaulted.bound]
    exact assigned_assigned mirrors.bound _ dataType address

theorem Passes.stored_given (passes : Passes stod specs before argv s) {name : Bytes} {entry : ArgumentSpec δ × Bytes}
    (first : (given specs argv.tail).find? (fun entry => entry.1.name = name) = some entry) :
    (OrderedEntries.get name s.parsedArgs).map (fun stored => scalar stored.argumentValue entry.1.dataType) =
      some (conversion entry) := by
  rcases passes with ⟨only, mirrors⟩ | ⟨options, defaults, more, mirrors, valid, defaulted, bindings, positionals⟩
  next => exact mirrors.stored name entry first
  next =>
    have placed := (defaulted.placed mirrors positionals).2
    have kept := mirrors.stored name entry first
    obtain ⟨stored, found, value⟩ := Option.map_eq_some_iff.mp kept
    rw [placed.stored, defaulted.kept name stored found, Option.map_some, value]

theorem Passes.isSome_given (passes : Passes stod specs before argv s) {entry : ArgumentSpec δ × Bytes}
    (member : entry ∈ given specs argv.tail) : (OrderedEntries.get entry.1.name s.parsedArgs).isSome := by
  have found : ((given specs argv.tail).find? fun other => other.1.name = entry.1.name).isSome :=
    List.find?_isSome.mpr ⟨entry, member, by simp⟩
  obtain ⟨first, found⟩ := Option.isSome_iff_exists.mp found
  have stored := congrArg Option.isSome (passes.stored_given found)
  rwa [Option.isSome_map] at stored

theorem Passes.stored_default (distinct : DistinctNames specs) (passes : Passes stod specs before argv s)
    {spec : ArgumentSpec δ} (member : spec ∈ specs) (filled : spec.name ≠ []) (isScalar : IsScalar spec.dataType)
    (unseen : ∀ entry ∈ given specs argv.tail, entry.1.name ≠ spec.name) :
    ((OrderedEntries.get spec.name s.parsedArgs).isSome ↔ ¬HelpOnly specs argv.tail ∧ spec.hasDefaultValue) ∧
      ∀ stored, OrderedEntries.get spec.name s.parsedArgs = some stored →
        scalar stored.argumentValue spec.dataType = spec.defaultValue := by
  rcases passes with ⟨only, mirrors⟩ | ⟨options, defaults, more, mirrors, valid, defaulted, bindings, positionals⟩
  next =>
    have absent : ¬(OrderedEntries.get spec.name s.parsedArgs).isSome := by
      rw [mirrors.present]
      exact fun ⟨entry, given, same⟩ => unseen entry given same
    refine ⟨iff_of_false absent fun more => more.1 only, fun stored found => absurd ?_ absent⟩
    rw [found, Option.isSome_some]
  next =>
    have placed := (defaulted.placed mirrors positionals).2
    have kept := placed.stored spec.name spec.dataType
    have absent : OrderedEntries.get spec.name options.parsedArgs = none := by
      rw [← Option.not_isSome_iff_eq_none, mirrors.present]
      exact fun ⟨entry, given, same⟩ => unseen entry given same
    have filled' (stored : ArgumentMetaData δ)
      (found : OrderedEntries.get spec.name defaults.parsedArgs = some stored) :
        spec.hasDefaultValue ∧ scalar stored.argumentValue spec.dataType = spec.defaultValue := by
      rcases defaulted.filled spec.name stored found with earlier | ⟨other, member', same, -, has, value⟩
      next =>
        rw [absent] at earlier
        cases earlier
      next =>
        have here := (find_iff distinct filled spec).mpr ⟨member, rfl⟩
        rw [(find_iff distinct filled other).mpr ⟨member', same⟩] at here
        obtain rfl := Option.some.inj here
        exact ⟨has, value isScalar⟩
    have present : (OrderedEntries.get spec.name s.parsedArgs).isSome =
        (OrderedEntries.get spec.name defaults.parsedArgs).isSome := by
      simpa using congrArg Option.isSome kept
    constructor
    next =>
      rw [present]
      constructor
      next =>
        intro found
        obtain ⟨stored, found⟩ := Option.isSome_iff_exists.mp found
        exact ⟨more, (filled' stored found).1⟩
      next => exact fun has => defaulted.complete spec member filled has.2
    next =>
      intro stored found
      rw [found, Option.map_some, eq_comm, Option.map_eq_some_iff] at kept
      obtain ⟨default, found', value⟩ := kept
      rw [← value]
      exact (filled' default found').2

section Agreement

variable {spec : ArgumentSpec δ} {address : Nat} (distinct : DistinctNames specs) (member : spec ∈ specs)
  (passes : Passes stod specs before argv s) (filled : spec.name ≠ []) (isScalar : IsScalar spec.dataType)
  (bindable : spec.typeInfo.bindable = some address)

include bindable

omit [Zero δ] in
theorem typeInfo_eq : spec.typeInfo = ⟨spec.dataType, some address⟩ := by
  rw [← bindable]
  rfl

include distinct member passes filled isScalar

theorem agrees_iff_given {entry : ArgumentSpec δ × Bytes}
    (first : (given specs argv.tail).find? (fun entry => entry.1.name = spec.name) = some entry) :
    ((OrderedEntries.get spec.name s.parsedArgs).isSome → Agrees s spec address) ↔
      Consistent specs before argv.tail spec := by
  have value := passes.bound spec.dataType address
  rw [← typeInfo_eq bindable] at value
  have named : entry.1.name = spec.name := by simpa using List.find?_some first
  have same : entry.1 = spec := by
    have here := (find_iff distinct filled spec).mpr ⟨member, rfl⟩
    have listed := (scan_sound argv.tail).1 entry (List.mem_of_find?_eq_some first)
    rw [(find_iff distinct filled entry.1).mpr ⟨listed, named⟩] at here
    exact Option.some.inj here
  obtain ⟨stored, found, converted⟩ := Option.map_eq_some_iff.mp (passes.stored_given first)
  rw [same] at converted
  have known : scalar stored.argumentValue spec.dataType ≠ .none := by
    rcases isScalar with string | int | bool
    next => rw [string]; exact nofun
    next => rw [int]; exact nofun
    next =>
      rw [converted]
      simp [conversion, same, bool]
  rw [agrees_iff isScalar found known, value, converted, found]
  constructor
  next =>
    intro agrees
    refine ⟨fun other again => ?_, fun _ _ unseen => absurd named (unseen entry (List.mem_of_find?_eq_some first))⟩
    rw [first] at again
    obtain rfl := Option.some.inj again
    exact agrees rfl
  next => exact fun consistent _ => consistent.named entry first

theorem agrees_iff_default
    (first : (given specs argv.tail).find? (fun entry => entry.1.name = spec.name) = none) :
    ((OrderedEntries.get spec.name s.parsedArgs).isSome → Agrees s spec address) ↔
      Consistent specs before argv.tail spec := by
  have value := passes.bound spec.dataType address
  rw [← typeInfo_eq bindable] at value
  have unseen (entry : ArgumentSpec δ × Bytes) (listed : entry ∈ given specs argv.tail) : entry.1.name ≠ spec.name := by
    simpa using List.find?_eq_none.mp first entry listed
  obtain ⟨present, default⟩ := passes.stored_default distinct member filled isScalar unseen
  have agrees (has : ¬HelpOnly specs argv.tail ∧ spec.hasDefaultValue) :
      Agrees s spec address ↔ assigned before (texts specs argv.tail) spec.typeInfo = spec.defaultValue := by
    obtain ⟨stored, found⟩ := Option.isSome_iff_exists.mp (present.mpr has)
    have converted := default stored found
    have known : scalar stored.argumentValue spec.dataType ≠ .none := by
      rw [converted]
      intro nothing
      have has := has.2
      simp [ArgumentSpec.hasDefaultValue, DefaultValue.hasValue, nothing, DefaultValue.dataType] at has
    rw [agrees_iff isScalar found known, value, converted]
  rw [present]
  constructor
  next =>
    intro all
    refine ⟨fun entry again => ?_, fun more has _ => (agrees ⟨more, has⟩).mp (all ⟨more, has⟩)⟩
    rw [first] at again
    cases again
  next => exact fun consistent has => (agrees has).mpr (consistent.filled has.1 has.2 unseen)

end Agreement

theorem parse_agrees_iff (distinct : DistinctNames specs)
    (parsed : parse stod argv (create specs before) = .ok true s) :
    (∀ spec ∈ specs, ∀ address, spec.name ≠ [] → IsScalar spec.dataType → spec.typeInfo.bindable = some address →
      (OrderedEntries.get spec.name s.parsedArgs).isSome → Agrees s spec address) ↔
    ∀ spec ∈ specs, ∀ address, spec.name ≠ [] → IsScalar spec.dataType → spec.typeInfo.bindable = some address →
      Consistent specs before argv.tail spec := by
  have passes := parse_passes parsed
  refine forall₂_congr fun spec member => forall_congr' fun address => forall₃_congr fun filled isScalar bindable => ?_
  cases first : (given specs argv.tail).find? fun entry => entry.1.name = spec.name with
  | some entry => exact agrees_iff_given distinct member passes filled isScalar bindable first
  | none => exact agrees_iff_default distinct member passes filled isScalar bindable first

end Parser

section Samples

def levelSpec : ArgumentSpec Int := ⟨text "level", [], ⟨.int, some 0⟩, .optional, .withArg, .none⟩

theorem parse_agrees_iff_level : ∃ s,
    parse noDouble [text "tool", text "--level=3"] (create [levelSpec] fun _ => .initial) = .ok true s ∧
    ((∀ spec ∈ [levelSpec], ∀ address, spec.name ≠ [] → IsScalar spec.dataType → spec.typeInfo.bindable = some address →
      (OrderedEntries.get spec.name s.parsedArgs).isSome → Agrees s spec address) ↔
    ∀ spec ∈ [levelSpec], ∀ address, spec.name ≠ [] → IsScalar spec.dataType → spec.typeInfo.bindable = some address →
      Consistent [levelSpec] (fun _ => .initial) [text "--level=3"] spec) := by
  have parsed : ∃ s, parse noDouble [text "tool", text "--level=3"] (create [levelSpec] fun _ => .initial) =
      .ok true s := by
    unfold parse parseOptions
    exact ⟨_, rfl⟩
  obtain ⟨s, parsed⟩ := parsed
  exact ⟨s, parsed, parse_agrees_iff (by decide) parsed⟩

def levelAfter : EStateM.Result Exn (CommandLine Int) Bool → Option (Option Int × Int)
  | .ok true s => some ((getInt s (text "level")).toOption, (s.bound 0).int)
  | _ => none

-- The map keeps the first value, the variable the last.
theorem repeated_option_disagrees : ∃ s,
    parse noDouble [text "tool", text "--level=3", text "--level=4"] (create [levelSpec] fun _ => .initial) =
      .ok true s ∧
    DistinctNames [levelSpec] ∧ IsScalar levelSpec.dataType ∧ levelSpec.typeInfo.bindable = some 0 ∧
    (OrderedEntries.get levelSpec.name s.parsedArgs).isSome ∧
    getInt s (text "level") = .ok 3 ∧ (s.bound 0).int = 4 ∧ ¬Agrees s levelSpec 0 := by
  have run : levelAfter (parse noDouble [text "tool", text "--level=3", text "--level=4"]
      (create [levelSpec] fun _ => .initial)) = some (some 3, 4) := by decide +kernel
  cases parsed : parse noDouble [text "tool", text "--level=3", text "--level=4"]
      (create [levelSpec] fun _ => .initial) with
  | error e s =>
    rw [parsed] at run
    cases run
  | ok accepted s =>
    rw [parsed] at run
    cases accepted with
    | false => cases run
    | true =>
      obtain ⟨stored, bound⟩ := Prod.mk.inj (Option.some.inj run)
      have found : getInt s (text "level") = .ok 3 := by
        cases value : getInt s (text "level") with
        | error e => rw [value] at stored; cases stored
        | ok value' =>
          rw [value] at stored
          obtain rfl := Option.some.inj stored
          rfl
      refine ⟨s, rfl, by decide, .inr (.inl rfl), rfl, ?_, found, bound, fun agrees => ?_⟩
      next =>
        unfold getInt lookup at found
        cases present : OrderedEntries.get levelSpec.name s.parsedArgs with
        | none =>
          change OrderedEntries.get (text "level") s.parsedArgs = none at present
          rw [present] at found
          cases found
        | some _ => rfl
      next =>
        have both : (.ok 3 : Except Exn Int) = .ok (s.bound 0).int := found.symm.trans agrees
        rw [bound] at both
        cases both

end Samples

end BuildboxCommon.CommandLine
