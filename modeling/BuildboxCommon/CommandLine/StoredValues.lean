import BuildboxCommon.CommandLine.Occurrences

set_option autoImplicit false

namespace BuildboxCommon.CommandLine

open ByteString CommandLineTypes Effect

variable {δ : Type}

def scalar (value : ArgumentValue δ) : DataType → DefaultValue δ
  | .string => .string value.str
  | .int => .int value.int
  | .bool => value.bool.elim .none .bool
  | _ => .none

def conversion (entry : ArgumentSpec δ × Bytes) : DefaultValue δ :=
  match entry.1.dataType with
  | .string => .string entry.2
  | .int => (stoi (cString entry.2)).toOption.elim .none .int
  | .bool => .bool (entry.2 = text "true" ∨ entry.2 = [] ∧ entry.1.constraint = .withoutArg)
  | _ => .none

def assigned (before : Nat → ArgumentValue δ) (done : List (ArgumentSpec δ × Bytes)) (variable' : TypeInfo) :
    DefaultValue δ :=
  match done.reverse.find? fun entry => entry.1.typeInfo = variable' with
  | some entry => conversion entry
  | none => variable'.bindable.elim .none fun address => scalar (before address) variable'.dataType

structure Built (s : CommandLine δ) (entry : ArgumentSpec δ × Bytes) (value : ArgumentValue δ) (s' : CommandLine δ) :
    Prop where
  spec : s'.spec = s.spec
  idx : s'.idxLastPositionalFound = s.idxLastPositionalFound
  sorted : OrderedEntries.Sorted s.parsedArgs → OrderedEntries.Sorted s'.parsedArgs
  stored : OrderedEntries.Sorted s.parsedArgs → ∀ name dataType,
    (OrderedEntries.get name s'.parsedArgs).map (fun stored => scalar stored.argumentValue dataType) =
      (OrderedEntries.get name s.parsedArgs).map fun stored => scalar stored.argumentValue dataType
  bound : ∀ dataType address, scalar (s'.bound address) dataType =
    if entry.1.typeInfo = ⟨dataType, some address⟩ then conversion entry else scalar (s.bound address) dataType
  value : scalar value entry.1.dataType = conversion entry

def assignedTo (spec : ArgumentSpec δ) (change : ArgumentValue δ → ArgumentValue δ)
    (bound : Nat → ArgumentValue δ) (address : Nat) : ArgumentValue δ :=
  if spec.typeInfo.bindable = some address then change (bound address) else bound address

theorem assign_ok (spec : ArgumentSpec δ) (change : ArgumentValue δ → ArgumentValue δ) (s : CommandLine δ) :
    assign spec change s = .ok () { s with bound := assignedTo spec change s.bound } := by
  unfold assign assignedTo
  cases spec.typeInfo.bindable with
  | none => simp
  | some own =>
    simp only [Option.some.injEq, eq_comm (a := own)]
    rfl

theorem Built.present {s s' : CommandLine δ} {entry : ArgumentSpec δ × Bytes} {value : ArgumentValue δ}
    (built : Built s entry value s') (sorted : OrderedEntries.Sorted s.parsedArgs) (name : Bytes) :
    (OrderedEntries.get name s'.parsedArgs).isSome = (OrderedEntries.get name s.parsedArgs).isSome := by
  simpa using congrArg Option.isSome (built.stored sorted name .unknown)

section Built

variable {entry : ArgumentSpec δ × Bytes}

theorem scalar_assigned {change : ArgumentValue δ → ArgumentValue δ}
    (own : ∀ value, scalar (change value) entry.1.dataType = conversion entry)
    (others : ∀ value dataType, dataType ≠ entry.1.dataType → scalar (change value) dataType = scalar value dataType)
    (bound : Nat → ArgumentValue δ) (dataType : DataType) (address : Nat) :
    scalar (assignedTo entry.1 change bound address) dataType =
      if entry.1.typeInfo = ⟨dataType, some address⟩ then conversion entry else scalar (bound address) dataType := by
  unfold assignedTo
  by_cases here : entry.1.typeInfo.bindable = some address
  next =>
    rw [if_pos here]
    by_cases same : dataType = entry.1.dataType
    next =>
      subst same
      rw [if_pos (by rw [← here]; rfl), own]
    next =>
      rw [if_neg fun equal => same (by rw [ArgumentSpec.dataType, equal]), others _ _ same]
  next => rw [if_neg here, if_neg fun equal => here (by rw [equal])]

theorem assign_built {change : ArgumentValue δ → ArgumentValue δ} {value : ArgumentValue δ}
    (own : ∀ value, scalar (change value) entry.1.dataType = conversion entry)
    (others : ∀ value dataType, dataType ≠ entry.1.dataType → scalar (change value) dataType = scalar value dataType)
    (built : scalar value entry.1.dataType = conversion entry) (s : CommandLine δ) :
    Built s entry value { s with bound := assignedTo entry.1 change s.bound } where
  spec := rfl
  idx := rfl
  sorted := id
  stored := fun _ _ _ => rfl
  bound := scalar_assigned own others s.bound
  value := built

theorem assign_runs (spec : ArgumentSpec δ) (text : Bytes) {change : ArgumentValue δ → ArgumentValue δ}
    {value : ArgumentValue δ} (own : ∀ value, scalar (change value) spec.dataType = conversion (spec, text))
    (others : ∀ value dataType, dataType ≠ spec.dataType → scalar (change value) dataType = scalar value dataType)
    (built : scalar value spec.dataType = conversion (spec, text)) (s : CommandLine δ) :
    Runs (fun s' => s' = s) (do
      assign spec change
      return some value)
      (fun result s' => ∀ value, result = some value → Built s (spec, text) value s') fun _ => True := by
  rintro s rfl
  rw [bind_ok _ (assign_ok _ _ _)]
  intro value equal
  obtain rfl := Option.some.inj equal
  exact assign_built own others built s

variable [Zero δ] (stod : Bytes → Except Exn δ)

omit [Zero δ] in
theorem converted_runs {α : Type} (optionValue : Bytes) (spec : ArgumentSpec δ) (result : Except Exn α)
    (s : CommandLine δ) : Runs (fun s' => s' = s) (converted optionValue spec result)
      (fun found s' => ∀ val, found = some val → result = .ok val ∧ s' = s) fun _ => True := by
  have failing (message : Bytes) : Runs (fun s' => s' = s) (do
      print message
      return none) (fun found s' => ∀ val, found = some val → result = .ok val ∧ s' = s) fun _ => True := by
    have printed : Runs (fun s' => s' = s) (print message) (fun _ _ => True) fun _ => True := .modify fun _ _ => trivial
    exact printed.bind fun _ => .pure fun _ _ _ => by simp
  cases result with
  | ok val =>
    refine .pure fun s' same other equal => ?_
    exact ⟨by rw [Option.some.inj equal], same⟩
  | error e =>
    cases e
    case invalidArgument => exact failing _
    case outOfRange => exact failing _
    all_goals exact .throw fun _ _ => trivial

theorem collect_built {append : ArgumentValue δ → ArgumentValue δ} {spec : ArgumentSpec δ} {text : Bytes}
    (same : ∀ value dataType, scalar (append value) dataType = scalar value dataType)
    (none' : ∀ value : ArgumentValue δ, scalar value spec.dataType = .none) (unread : conversion (spec, text) = .none)
    (s : CommandLine δ) : Runs (fun s' => s' = s) (collect spec append)
      (fun result s' => ∀ value, result = some value → Built s (spec, text) value s') fun _ => True := by
  have built (s : CommandLine δ) (value : ArgumentValue δ) :
      Built s (spec, text) value { s with bound := assignedTo spec append s.bound } :=
    assign_built (fun value => (none' _).trans unread.symm) (fun value dataType _ => same value dataType)
      ((none' value).trans unread.symm) s
  rintro s rfl
  unfold collect
  rw [get_bind]
  cases found : OrderedEntries.get spec.name s.parsedArgs with
  | none =>
    simp only
    rw [bind_ok _ (assign_ok _ _ _)]
    exact fun value equal => built s value
  | some stored =>
    simp only
    let appended : ArgumentMetaData δ := { stored with argumentValue := append stored.argumentValue }
    let between := { s with parsedArgs := OrderedEntries.alter spec.name (fun _ => appended) s.parsedArgs }
    have after := built between .initial
    have updated : (set between : Parsing δ PUnit) s = .ok ⟨⟩ between := rfl
    rw [bind_ok _ updated, bind_ok _ (assign_ok _ _ _)]
    intro value equal
    obtain rfl := Option.some.inj equal
    refine ⟨rfl, rfl, OrderedEntries.sorted_alter _, fun sorted name dataType => ?_, after.bound, after.value⟩
    change Option.map _ (OrderedEntries.get name (OrderedEntries.alter spec.name (fun _ => appended) s.parsedArgs)) = _
    rw [OrderedEntries.get_alter _ _ sorted]
    split_ifs with here
    next => rw [here, found, Option.map_some, Option.map_some, same]
    next => rfl

theorem buildArgumentValue_built (text : Bytes) (spec : ArgumentSpec δ) (s : CommandLine δ) :
    Runs (fun s' => s' = s) (buildArgumentValue stod text spec)
      (fun result s' => ∀ value, result = some value → Built s (spec, text) value s') fun _ => True := by
  unfold buildArgumentValue
  split
  next string =>
    have converts : conversion (spec, text) = .string text := by simp only [conversion, string]
    refine assign_runs spec text (fun value => ?_) (fun value dataType other => ?_) ?_ s
    next => rw [string, converts]; rfl
    next => rw [string] at other; cases dataType <;> trivial
    next => rw [string, converts]; rfl
  next int =>
    refine (converted_runs _ _ _ s).bind fun found => ?_
    cases found with
    | none => exact .pure fun _ _ => by simp
    | some val =>
      intro s' held
      obtain ⟨read, rfl⟩ := held val rfl
      have converts : conversion (spec, text) = .int val := by simp only [conversion, int, read]; rfl
      refine assign_runs spec text (fun value => ?_) (fun value dataType other => ?_) ?_ s' s' rfl
      next => rw [int, converts]; rfl
      next => rw [int] at other; cases dataType <;> trivial
      next => rw [int, converts]; rfl
  next double =>
    refine (converted_runs _ _ _ s).bind fun found => ?_
    cases found with
    | none => exact .pure fun _ _ => by simp
    | some val =>
      intro s' held
      obtain ⟨-, rfl⟩ := held val rfl
      refine assign_runs spec text (fun value => ?_) (fun value dataType other => ?_) ?_ s' s' rfl
      next => simp only [conversion, double]; rfl
      next => cases dataType <;> rfl
      next => simp only [conversion, double]; rfl
  next bool =>
    have converts : conversion (spec, text) = .bool (decide ((if text = [] ∧ spec.constraint = .withoutArg
        then ByteString.text "true" else text) = ByteString.text "true")) := by
      simp only [conversion, bool]
      split_ifs with bare
      next => simp [bare]
      next => simp [bare]
    refine assign_runs spec text (fun value => ?_) (fun value dataType other => ?_) ?_ s
    next => rw [bool, converts]; rfl
    next => rw [bool] at other; cases dataType <;> trivial
    next => rw [bool, converts]; rfl
  next stringArray =>
    refine collect_built (fun value dataType => ?_) (fun value => ?_) ?_ s
    next => cases dataType <;> rfl
    next => rw [stringArray]; rfl
    next => simp only [conversion, stringArray]
  next stringPairArray =>
    refine collect_built (fun value dataType => ?_) (fun value => ?_) ?_ s
    next => cases dataType <;> rfl
    next => rw [stringPairArray]; rfl
    next => simp only [conversion, stringPairArray]
  next => exact .throw fun _ _ => trivial

end Built

structure Mirrors (specs : List (ArgumentSpec δ)) (before : Nat → ArgumentValue δ)
    (done : List (ArgumentSpec δ × Bytes)) (s : CommandLine δ) : Prop where
  spec : s.spec = specs
  idx : s.idxLastPositionalFound = 0
  sorted : OrderedEntries.Sorted s.parsedArgs
  present : ∀ name, (OrderedEntries.get name s.parsedArgs).isSome ↔ ∃ entry ∈ done, entry.1.name = name
  stored : ∀ name entry, done.find? (fun entry => entry.1.name = name) = some entry →
    (OrderedEntries.get name s.parsedArgs).map (fun stored => scalar stored.argumentValue entry.1.dataType) =
      some (conversion entry)
  bound : ∀ dataType address, scalar (s.bound address) dataType = assigned before done ⟨dataType, some address⟩

theorem assigned_append (before : Nat → ArgumentValue δ) (done : List (ArgumentSpec δ × Bytes))
    (entry : ArgumentSpec δ × Bytes) (variable' : TypeInfo) :
    assigned before (done ++ [entry]) variable' =
      if entry.1.typeInfo = variable' then conversion entry else assigned before done variable' := by
  unfold assigned
  rw [List.reverse_append, List.reverse_singleton, List.singleton_append]
  by_cases here : entry.1.typeInfo = variable'
  next => rw [List.find?_cons_of_pos (by simpa using here), if_pos here]
  next => rw [List.find?_cons_of_neg (by simpa using here), if_neg here]

section Options

variable {specs : List (ArgumentSpec δ)} {before : Nat → ArgumentValue δ} {done : List (ArgumentSpec δ × Bytes)}

theorem create_mirrors (specs : List (ArgumentSpec δ)) (before : Nat → ArgumentValue δ) (processName : Bytes) :
    Mirrors specs before [] { create specs before with processName := processName } where
  spec := rfl
  idx := rfl
  sorted := OrderedEntries.sorted_nil
  present := by simp [create]
  stored := by simp
  bound := fun _ _ => rfl

theorem Mirrors.silent : Silent (Mirrors specs before done) := fun _ _ _ mirrors =>
  ⟨mirrors.spec, mirrors.idx, mirrors.sorted, mirrors.present, mirrors.stored, mirrors.bound⟩

theorem Mirrors.emplaced {s s' : CommandLine δ} {spec : ArgumentSpec δ} {text : Bytes} {value : ArgumentValue δ}
    (mirrors : Mirrors specs before done s) (built : Built s (spec, text) value s') :
    Mirrors specs before (done ++ [(spec, text)]) { s' with
      parsedArgs := OrderedEntries.alter spec.name (fun stored => stored.getD ⟨value, spec⟩) s'.parsedArgs } where
  spec := built.spec.trans mirrors.spec
  idx := built.idx.trans mirrors.idx
  sorted := OrderedEntries.sorted_alter _ (built.sorted mirrors.sorted)
  present := by
    intro name
    rw [OrderedEntries.get_alter _ _ (built.sorted mirrors.sorted)]
    split_ifs with here
    next => simp [here]
    next => simp [built.present mirrors.sorted, mirrors.present, Ne.symm here]
  stored := by
    intro name entry found
    rw [List.find?_append, Option.or_eq_some_iff] at found
    rw [OrderedEntries.get_alter _ _ (built.sorted mirrors.sorted)]
    rcases found with earlier | ⟨unseen, here⟩
    next =>
      have kept := (built.stored mirrors.sorted name entry.1.dataType).trans (mirrors.stored name entry earlier)
      split_ifs with here
      next =>
        subst here
        obtain ⟨stored, found, value⟩ := Option.map_eq_some_iff.mp kept
        rw [found, Option.getD_some, Option.map_some, value]
      next => exact kept
    next =>
      obtain rfl : entry = (spec, text) := by simpa using List.mem_of_find?_eq_some here
      obtain rfl : spec.name = name := by simpa using List.find?_some here
      have absent : OrderedEntries.get spec.name s'.parsedArgs = none := by
        rw [← Option.not_isSome_iff_eq_none, built.present mirrors.sorted, mirrors.present]
        rintro ⟨earlier, member, same⟩
        have other := List.find?_eq_none.mp unseen earlier member
        exact other (by simpa using same)
      rw [if_pos rfl, absent, Option.getD_none, Option.map_some, built.value]
  bound := by
    intro dataType address
    rw [assigned_append, built.bound, mirrors.bound]

theorem Mirrors.helpOnly_iff {args : List Bytes} {s : CommandLine δ}
    (mirrors : Mirrors specs before (given specs args) s) :
    s.parsedArgs.length = 1 ∧ (OrderedEntries.get (text "help") s.parsedArgs).isSome ↔ HelpOnly specs args := by
  have stored (entry : Bytes × ArgumentMetaData δ) (member : entry ∈ s.parsedArgs) :
      ∃ one ∈ given specs args, one.1.name = entry.1 := by
    rw [← mirrors.present, (OrderedEntries.mem_iff_get mirrors.sorted entry.1 entry.2).mp member, Option.isSome_some]
  constructor
  next =>
    rintro ⟨single, found⟩
    obtain ⟨only, entries⟩ := List.length_eq_one_iff.mp single
    obtain ⟨help, member, named⟩ := (mirrors.present _).mp found
    refine ⟨List.ne_nil_of_mem member, fun entry given => ?_⟩
    have here := (mirrors.present entry.1.name).mpr ⟨entry, given, rfl⟩
    rw [entries, OrderedEntries.get_cons] at here found
    split_ifs at found with help
    next =>
      split_ifs at here with same
      next => exact same.trans help.symm
      next => cases here
    next => cases found
  next =>
    rintro ⟨filled, help⟩
    obtain ⟨entry, member⟩ := List.exists_mem_of_ne_nil _ filled
    have found := (mirrors.present _).mpr ⟨entry, member, help entry member⟩
    refine ⟨?_, found⟩
    have named (entry : Bytes × ArgumentMetaData δ) (member : entry ∈ s.parsedArgs) : entry.1 = text "help" := by
      obtain ⟨one, given, same⟩ := stored entry member
      exact same.symm.trans (help one given)
    have sorted := mirrors.sorted
    match entries : s.parsedArgs with
    | [] => simp [entries] at found
    | [only] => rfl
    | first :: second :: later =>
      rw [entries] at named sorted
      have less := (List.pairwise_cons.mp sorted).1 second List.mem_cons_self
      rw [named first List.mem_cons_self, named second (by simp)] at less
      exact absurd less (lt_irrefl _)

variable [Zero δ] (stod : Bytes → Except Exn δ)

theorem addOption_mirrors (value : Bytes) (spec : ArgumentSpec δ) :
    Runs (Mirrors specs before done) (addOption stod spec.name value spec)
      (fun ok s => ok = true → Mirrors specs before (done ++ [(spec, value)]) s) fun _ => True := by
  intro s mirrors
  refine Runs.bind (buildArgumentValue_built stod value spec s) (fun result => ?_) s rfl
  cases result with
  | none => exact .pure fun _ _ => by simp
  | some argumentValue =>
    have emplaced : Runs (fun s' => ∀ value', some argumentValue = some value' → Built s (spec, value) value' s')
        (emplace spec.name argumentValue spec)
          (fun _ => Mirrors specs before (done ++ [(spec, value)])) fun _ => True :=
      .modify fun s' built => mirrors.emplaced (built argumentValue rfl)
    exact emplaced.bind fun _ => .pure fun _ held _ => held

theorem parseOptions_mirrors (args : List Bytes) :
    Runs (Mirrors specs before []) (parseOptions stod args)
      (fun ended s => ended.1 = true → Mirrors specs before (given specs args) s ∧
        ended.2 = positionalTokens specs args)
      fun _ => True := by
  have same : ∀ done s, Mirrors specs before done s → s.spec = specs := fun _ _ mirrors => mirrors.spec
  have runs := parseOptions_runs stod same (fun _ => Mirrors.silent)
    (fun _ value spec _ => addOption_mirrors stod value spec) args []
  rwa [List.nil_append] at runs

end Options

section Defaults

def IsScalar (dataType : DataType) : Prop := dataType = .string ∨ dataType = .int ∨ dataType = .bool

structure Defaulted (start : CommandLine δ) (done : List (ArgumentSpec δ)) (s : CommandLine δ) : Prop where
  spec : s.spec = start.spec
  idx : s.idxLastPositionalFound = start.idxLastPositionalFound
  bound : s.bound = start.bound
  sorted : OrderedEntries.Sorted s.parsedArgs
  kept : ∀ name stored, OrderedEntries.get name start.parsedArgs = some stored →
    OrderedEntries.get name s.parsedArgs = some stored
  filled : ∀ name stored, OrderedEntries.get name s.parsedArgs = some stored →
    OrderedEntries.get name start.parsedArgs = some stored ∨ ∃ spec ∈ done, spec.name = name ∧ name ≠ [] ∧
      spec.hasDefaultValue ∧ (IsScalar spec.dataType → scalar stored.argumentValue spec.dataType = spec.defaultValue)
  complete : ∀ spec ∈ done, spec.name ≠ [] → spec.hasDefaultValue → (OrderedEntries.get spec.name s.parsedArgs).isSome

variable {start : CommandLine δ} {done : List (ArgumentSpec δ)}

theorem defaulted_start {s : CommandLine δ} (sorted : OrderedEntries.Sorted s.parsedArgs) : Defaulted s [] s :=
  ⟨rfl, rfl, rfl, sorted, fun _ _ => id, fun _ _ => .inl, by simp⟩

theorem Defaulted.skip {s : CommandLine δ} {spec : ArgumentSpec δ} (defaulted : Defaulted start done s)
    (settled : spec.name ≠ [] → spec.hasDefaultValue → (OrderedEntries.get spec.name s.parsedArgs).isSome) :
    Defaulted start (done ++ [spec]) s where
  spec := defaulted.spec
  idx := defaulted.idx
  bound := defaulted.bound
  sorted := defaulted.sorted
  kept := defaulted.kept
  filled := fun name stored found => (defaulted.filled name stored found).imp_right
    fun ⟨spec, member, default⟩ => ⟨spec, List.mem_append_left _ member, default⟩
  complete := by
    intro other member
    rcases List.mem_append.mp member with earlier | here
    next => exact defaulted.complete other earlier
    next =>
      obtain rfl := List.mem_singleton.mp here
      exact settled

theorem Defaulted.emplaced {s : CommandLine δ} {spec : ArgumentSpec δ} {value : ArgumentValue δ}
    (defaulted : Defaulted start done s) (filled : spec.name ≠ []) (has : spec.hasDefaultValue)
    (absent : OrderedEntries.get spec.name s.parsedArgs = none)
    (own : IsScalar spec.dataType → scalar value spec.dataType = spec.defaultValue) :
    Defaulted start (done ++ [spec]) { s with
      parsedArgs := OrderedEntries.alter spec.name (fun stored => stored.getD ⟨value, spec⟩) s.parsedArgs } where
  spec := defaulted.spec
  idx := defaulted.idx
  bound := defaulted.bound
  sorted := OrderedEntries.sorted_alter _ defaulted.sorted
  kept := by
    intro name stored found
    have kept := defaulted.kept name stored found
    rw [OrderedEntries.get_alter _ _ defaulted.sorted, if_neg, kept]
    rintro rfl
    rw [absent] at kept
    cases kept
  filled := by
    intro name stored found
    rw [OrderedEntries.get_alter _ _ defaulted.sorted] at found
    split_ifs at found with here
    next =>
      subst here
      rw [absent, Option.getD_none, Option.some.injEq] at found
      subst found
      exact .inr ⟨spec, List.mem_append_right _ List.mem_cons_self, rfl, filled, has, own⟩
    next =>
      exact (defaulted.filled name stored found).imp_right
        fun ⟨spec, member, default⟩ => ⟨spec, List.mem_append_left _ member, default⟩
  complete := by
    intro other member named default
    rw [OrderedEntries.get_alter _ _ defaulted.sorted]
    split_ifs with here
    next => rfl
    next =>
      rcases List.mem_append.mp member with earlier | same
      next => exact defaulted.complete other earlier named default
      next => exact absurd (by rw [List.mem_singleton.mp same]) here

variable [Zero δ]

theorem applyDefaultValue_defaulted (spec : ArgumentSpec δ) :
    Runs (Defaulted start done) (applyDefaultValue spec)
      (fun ok s => ok = true → Defaulted start (done ++ [spec]) s) fun _ => True := by
  have failing (s : CommandLine δ) (lineNumber : Nat) (message : Bytes) : Runs (fun s' => s' = s) (do
      parseError lineNumber message
      return false) (fun ok s => ok = true → Defaulted start (done ++ [spec]) s) fun _ => True := by
    have printed : Runs (fun s' => s' = s) (parseError lineNumber message) (fun _ _ => True) fun _ => True :=
      .modify fun _ _ => trivial
    exact printed.bind fun _ => .pure fun _ _ => by simp
  refine .get fun s defaulted => .ite (fun bare => ?_) fun named => .ite (fun clash => failing s _ _) fun _ =>
    .ite (fun present => ?_) fun absent => .ite (fun without => ?_) fun has => .ite
      (fun other => failing s _ _) fun same => ?_
  next =>
    rintro _ rfl _
    exact defaulted.skip fun named => absurd bare named
  next =>
    rintro _ rfl _
    exact defaulted.skip fun _ _ => present
  next =>
    rintro _ rfl _
    exact defaulted.skip fun _ has => by simp [has] at without
  next =>
    rintro _ rfl _
    have typed : spec.dataType = spec.defaultValue.dataType := not_not.mp same
    refine defaulted.emplaced named (by simpa using has) (by simpa using absent) fun isScalar => ?_
    rw [typed] at isScalar ⊢
    revert isScalar
    cases spec.defaultValue with
    | none => exact fun _ => rfl
    | double value => simp [IsScalar, DefaultValue.dataType]
    | string value => exact fun _ => rfl
    | int value => exact fun _ => rfl
    | bool value => exact fun _ => rfl

theorem applyDefaultValues_defaulted (specs : List (ArgumentSpec δ)) (done : List (ArgumentSpec δ)) :
    Runs (Defaulted start done) (applyDefaultValues specs)
      (fun ok s => ok = true → Defaulted start (done ++ specs) s) fun _ => True := by
  induction specs generalizing done with
  | nil => exact .pure fun s defaulted _ => by rwa [List.append_nil]
  | cons spec specs ih =>
    refine (applyDefaultValue_defaulted spec).bind fun ok => ?_
    cases ok with
    | false => exact .pure fun _ _ => by simp
    | true =>
      have onwards := ih (done ++ [spec])
      rw [List.append_assoc, List.singleton_append] at onwards
      exact onwards.mono (fun s held => held rfl) fun _ _ => id

end Defaults

end BuildboxCommon.CommandLine
