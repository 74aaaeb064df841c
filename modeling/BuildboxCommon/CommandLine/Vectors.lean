import BuildboxCommon.CommandLine.BoundVariables

set_option autoImplicit false

namespace BuildboxCommon.CommandLine

open ByteString CommandLineTypes Effect

variable {δ : Type}

def getVS (s : CommandLine δ) (name : Bytes) (defaultValue : List Bytes) : List Bytes :=
  match OrderedEntries.get name s.parsedArgs with
  | none => defaultValue
  | some stored => stored.argumentValue.vs

def getVPS (s : CommandLine δ) (name : Bytes) (defaultValue : List (Bytes × Bytes)) : List (Bytes × Bytes) :=
  match OrderedEntries.get name s.parsedArgs with
  | none => defaultValue
  | some stored => stored.argumentValue.vps

def pairOf (text : Bytes) : Bytes × Bytes := (split text equals).2

section Collected

def vectors (value : ArgumentValue δ) : List Bytes × List (Bytes × Bytes) := (value.vs, value.vps)

def collected (entries : List (ArgumentSpec δ × Bytes)) : List Bytes × List (Bytes × Bytes) :=
  ((entries.filter fun entry => entry.1.dataType = .stringArray).map Prod.snd,
    (entries.filter fun entry => entry.1.dataType = .stringPairArray).map fun entry => pairOf entry.2)

def join (first second : List Bytes × List (Bytes × Bytes)) : List Bytes × List (Bytes × Bytes) :=
  (first.1 ++ second.1, first.2 ++ second.2)

@[simp] theorem join_nil (pair : List Bytes × List (Bytes × Bytes)) : join pair ([], []) = pair := by simp [join]

@[simp] theorem nil_join (pair : List Bytes × List (Bytes × Bytes)) : join ([], []) pair = pair := rfl

theorem join_assoc (first second third : List Bytes × List (Bytes × Bytes)) :
    join (join first second) third = join first (join second third) := by
  simp [join, List.append_assoc]

@[simp] theorem collected_nil : collected ([] : List (ArgumentSpec δ × Bytes)) = ([], []) := rfl

theorem collected_append (first second : List (ArgumentSpec δ × Bytes)) :
    collected (first ++ second) = join (collected first) (collected second) := by
  simp [collected, join]

theorem collected_filter_concat (entries : List (ArgumentSpec δ × Bytes)) (entry : ArgumentSpec δ × Bytes)
    (wanted : ArgumentSpec δ × Bytes → Prop) [DecidablePred wanted] :
    collected ((entries ++ [entry]).filter fun entry => wanted entry) =
      if wanted entry then join (collected (entries.filter fun entry => wanted entry)) (collected [entry])
      else collected (entries.filter fun entry => wanted entry) := by
  rw [List.filter_append, collected_append]
  split
  next holds => rw [List.filter_cons_of_pos (by simpa using holds), List.filter_nil]
  next fails => rw [List.filter_cons_of_neg (by simpa using fails), List.filter_nil, collected_nil, join_nil]

def storedVectors (s : CommandLine δ) (name : Bytes) : List Bytes × List (Bytes × Bytes) :=
  (getVS s name [], getVPS s name [])

theorem storedVectors_some {s : CommandLine δ} {name : Bytes} {stored : ArgumentMetaData δ}
    (found : OrderedEntries.get name s.parsedArgs = some stored) :
    storedVectors s name = vectors stored.argumentValue := by
  simp only [storedVectors, getVS, getVPS, found, vectors]

theorem storedVectors_none {s : CommandLine δ} {name : Bytes} (absent : OrderedEntries.get name s.parsedArgs = none) :
    storedVectors s name = ([], []) := by
  simp only [storedVectors, getVS, getVPS, absent]

theorem storedVectors_alter {s s' : CommandLine δ} (sorted : OrderedEntries.Sorted s.parsedArgs) {name : Bytes}
    {change : Option (ArgumentMetaData δ) → ArgumentMetaData δ}
    (altered : s'.parsedArgs = OrderedEntries.alter name change s.parsedArgs) (probe : Bytes) :
    storedVectors s' probe =
      if probe = name then vectors (change (OrderedEntries.get name s.parsedArgs)).argumentValue
      else storedVectors s probe := by
  have found := OrderedEntries.get_alter name change sorted probe
  rw [← altered] at found
  split
  next here =>
    rw [if_pos here] at found
    exact storedVectors_some found
  next elsewhere =>
    rw [if_neg elsewhere] at found
    simp only [storedVectors, getVS, getVPS, found]

end Collected

structure Appended (s : CommandLine δ) (entry : ArgumentSpec δ × Bytes) (value : ArgumentValue δ) (s' : CommandLine δ) :
    Prop where
  stored : ∀ name, storedVectors s' name =
    if entry.1.name = name ∧ (OrderedEntries.get name s.parsedArgs).isSome then
      join (storedVectors s name) (collected [entry]) else storedVectors s name
  bound : ∀ address, vectors (s'.bound address) =
    if entry.1.typeInfo.bindable = some address then join (vectors (s.bound address)) (collected [entry])
    else vectors (s.bound address)
  value : OrderedEntries.get entry.1.name s.parsedArgs = none → vectors value = collected [entry]

section Appended

variable {spec : ArgumentSpec δ} {text : Bytes}

theorem vectors_assignedTo {change : ArgumentValue δ → ArgumentValue δ} {items : List Bytes × List (Bytes × Bytes)}
    (appends : ∀ value, vectors (change value) = join (vectors value) items) (bound : Nat → ArgumentValue δ)
      (address : Nat) :
    vectors (assignedTo spec change bound address) =
      if spec.typeInfo.bindable = some address then join (vectors (bound address)) items
      else vectors (bound address) := by
  unfold assignedTo
  split
  next => exact appends _
  next => rfl

theorem assign_appends {change : ArgumentValue δ → ArgumentValue δ} {value : ArgumentValue δ}
    (nothing : collected [(spec, text)] = ([], [])) (kept : ∀ value, vectors (change value) = vectors value)
    (empty : vectors value = ([], [])) (s : CommandLine δ) : Runs (fun s' => s' = s) (do
      assign spec change
      return some value)
      (fun result s' => ∀ value, result = some value → Appended s (spec, text) value s') fun _ => True := by
  rintro s rfl
  rw [bind_ok _ (assign_ok _ _ _)]
  intro value same
  obtain rfl := Option.some.inj same
  refine ⟨fun name => ?_, fun address => ?_, fun _ => empty.trans nothing.symm⟩
  next =>
    rw [nothing, join_nil, ite_self]
    rfl
  next =>
    rw [nothing]
    exact vectors_assignedTo (fun value => by rw [kept, join_nil]) s.bound address

variable [Zero δ]

theorem collect_appends {append : ArgumentValue δ → ArgumentValue δ}
    (appends : ∀ value, vectors (append value) = join (vectors value) (collected [(spec, text)])) (s : CommandLine δ)
    (sorted : OrderedEntries.Sorted s.parsedArgs) : Runs (fun s' => s' = s) (collect spec append)
      (fun result s' => ∀ value, result = some value → Appended s (spec, text) value s') fun _ => True := by
  rintro s rfl
  have bound := @vectors_assignedTo δ spec append _ appends s.bound
  unfold collect
  rw [get_bind]
  cases found : OrderedEntries.get spec.name s.parsedArgs with
  | none =>
    simp only
    rw [bind_ok _ (assign_ok _ _ _)]
    intro value same
    obtain rfl := Option.some.inj same
    refine ⟨fun name => ?_, bound, fun _ => appends _⟩
    rw [if_neg]
    next => rfl
    next =>
      rintro ⟨rfl, present⟩
      rw [found] at present
      cases present
  | some stored =>
    simp only
    let appended : ArgumentMetaData δ := { stored with argumentValue := append stored.argumentValue }
    let between := { s with parsedArgs := OrderedEntries.alter spec.name (fun _ => appended) s.parsedArgs }
    have updated : (set between : Parsing δ PUnit) s = .ok ⟨⟩ between := rfl
    rw [bind_ok _ updated, bind_ok _ (assign_ok _ _ _)]
    intro value same
    refine ⟨fun name => ?_, bound, fun absent => ?_⟩
    next =>
      have altered : ({ between with bound := assignedTo spec append between.bound } : CommandLine δ).parsedArgs =
        OrderedEntries.alter spec.name (fun _ => appended) s.parsedArgs := rfl
      rw [storedVectors_alter sorted altered]
      by_cases here : name = spec.name
      next =>
        subst here
        rw [if_pos rfl, if_pos ⟨rfl, found ▸ rfl⟩, storedVectors_some found]
        exact appends _
      next => rw [if_neg here, if_neg fun both => here both.1.symm]
    next =>
      rw [found] at absent
      cases absent

variable (stod : Bytes → Except Exn δ)

theorem buildArgumentValue_appends (text : Bytes) (spec : ArgumentSpec δ) (s : CommandLine δ)
    (sorted : OrderedEntries.Sorted s.parsedArgs) :
    Runs (fun s' => s' = s) (buildArgumentValue stod text spec)
      (fun result s' => ∀ value, result = some value → Appended s (spec, text) value s') fun _ => True := by
  have nothing (scalar : spec.dataType ≠ .stringArray ∧ spec.dataType ≠ .stringPairArray) :
      collected [(spec, text)] = ([], []) := by
    simp [collected, scalar]
  unfold buildArgumentValue
  split
  next string =>
    exact assign_appends (nothing (by rw [string]; decide)) (fun _ => by rfl) (by rfl) s
  next int =>
    refine (converted_runs _ _ _ s).bind fun found => ?_
    cases found with
    | none => exact .pure fun _ _ => by simp
    | some val =>
      intro s' held
      obtain ⟨-, rfl⟩ := held val rfl
      exact assign_appends (nothing (by rw [int]; decide)) (fun _ => by rfl) (by rfl) s' s' rfl
  next double =>
    refine (converted_runs _ _ _ s).bind fun found => ?_
    cases found with
    | none => exact .pure fun _ _ => by simp
    | some val =>
      intro s' held
      obtain ⟨-, rfl⟩ := held val rfl
      exact assign_appends (nothing (by rw [double]; decide)) (fun _ => by rfl) (by rfl) s' s' rfl
  next bool =>
    exact assign_appends (nothing (by rw [bool]; decide)) (fun _ => by rfl) (by rfl) s
  next stringArray =>
    refine collect_appends (fun value => ?_) s sorted
    simp [vectors, join, collected, stringArray]
  next stringPairArray =>
    refine collect_appends (fun value => ?_) s sorted
    simp [vectors, join, collected, stringPairArray, pairOf]
  next => exact .throw fun _ _ => trivial

end Appended

structure Gathered (specs : List (ArgumentSpec δ)) (before : Nat → ArgumentValue δ)
    (done : List (ArgumentSpec δ × Bytes)) (s : CommandLine δ) : Prop where
  spec : s.spec = specs
  sorted : OrderedEntries.Sorted s.parsedArgs
  stored : ∀ name, name ≠ [] ∨ (OrderedEntries.get name s.parsedArgs).isSome →
    storedVectors s name = collected (done.filter fun entry => entry.1.name = name)
  bound : ∀ address, vectors (s.bound address) =
    join (vectors (before address)) (collected (done.filter fun entry => entry.1.typeInfo.bindable = some address))

structure Optioned (specs : List (ArgumentSpec δ)) (before : Nat → ArgumentValue δ)
    (done : List (ArgumentSpec δ × Bytes)) (s : CommandLine δ) : Prop extends Gathered specs before done s where
  present : ∀ entry ∈ done, (OrderedEntries.get entry.1.name s.parsedArgs).isSome

section Gathered

variable {specs : List (ArgumentSpec δ)} {before : Nat → ArgumentValue δ} {done : List (ArgumentSpec δ × Bytes)}

theorem create_optioned (specs : List (ArgumentSpec δ)) (before : Nat → ArgumentValue δ) (processName : Bytes) :
    Optioned specs before [] { create specs before with processName := processName } where
  spec := rfl
  sorted := OrderedEntries.sorted_nil
  stored := fun _ _ => rfl
  bound := fun _ => (join_nil _).symm
  present := nofun

theorem Gathered.quiet : Quiet (Gathered specs before done) := fun _ _ _ _ gathered =>
  ⟨gathered.spec, gathered.sorted, gathered.stored, gathered.bound⟩

theorem Optioned.quiet : Quiet (Optioned specs before done) := fun s idx out readings optioned =>
  ⟨Gathered.quiet s idx out readings optioned.toGathered, optioned.present⟩

theorem Gathered.assigned {s s' : CommandLine δ} {entry : ArgumentSpec δ × Bytes} {value : ArgumentValue δ}
    (gathered : Gathered specs before done s) (appended : Appended s entry value s') (address : Nat) :
    vectors (s'.bound address) = join (vectors (before address))
      (collected ((done ++ [entry]).filter fun entry => entry.1.typeInfo.bindable = some address)) := by
  rw [collected_filter_concat done entry fun entry => entry.1.typeInfo.bindable = some address, appended.bound,
    gathered.bound]
  split
  next => rw [join_assoc]
  next => rfl

theorem Optioned.storedVectors_eq {s : CommandLine δ} (optioned : Optioned specs before done s) (name : Bytes) :
    storedVectors s name = collected (done.filter fun entry => entry.1.name = name) := by
  cases found : OrderedEntries.get name s.parsedArgs with
  | some stored => exact optioned.stored name (.inr (by rw [found, Option.isSome_some]))
  | none =>
    have unseen : (done.filter fun entry => entry.1.name = name) = [] := by
      refine List.filter_eq_nil_iff.mpr fun entry listed same => ?_
      have present := optioned.present entry listed
      rw [of_decide_eq_true same, found] at present
      cases present
    rw [storedVectors_none found, unseen, collected_nil]

theorem Optioned.emplaced {s s' : CommandLine δ} {spec : ArgumentSpec δ} {text : Bytes} {value : ArgumentValue δ}
    (optioned : Optioned specs before done s) (built : Built s (spec, text) value s')
    (appended : Appended s (spec, text) value s') :
    Optioned specs before (done ++ [(spec, text)]) { s' with
      parsedArgs := OrderedEntries.alter spec.name (fun stored => stored.getD ⟨value, spec⟩) s'.parsedArgs } where
  spec := built.spec.trans optioned.spec
  sorted := OrderedEntries.sorted_alter _ (built.sorted optioned.sorted)
  bound := fun address => optioned.assigned appended address
  stored := by
    intro name _
    have before := optioned.storedVectors_eq name
    have between := appended.stored name
    have present := built.present optioned.sorted spec.name
    rw [collected_filter_concat done (spec, text) fun entry => entry.1.name = name, ← before]
    rw [storedVectors_alter (built.sorted optioned.sorted) rfl]
    by_cases here : name = spec.name
    next =>
      subst here
      rw [if_pos rfl, if_pos rfl]
      cases found : OrderedEntries.get spec.name s'.parsedArgs with
      | none =>
        have absent : OrderedEntries.get spec.name s.parsedArgs = none := by simpa [found] using present.symm
        rw [Option.getD_none, appended.value absent, storedVectors_none absent, nil_join]
      | some stored =>
        have earlier : (OrderedEntries.get spec.name s.parsedArgs).isSome := by simpa [found] using present.symm
        rw [if_pos ⟨rfl, earlier⟩, storedVectors_some found] at between
        rw [Option.getD_some, between]
    next =>
      rw [if_neg here, if_neg fun same => here same.symm, between, if_neg fun both => here both.1.symm]
  present := by
    intro entry listed
    rw [OrderedEntries.get_alter spec.name _ (built.sorted optioned.sorted)]
    split
    next => rfl
    next other =>
      rcases List.mem_append.mp listed with earlier | last
      next => rw [built.present optioned.sorted, optioned.present entry earlier]
      next => exact absurd (congrArg (fun entry => entry.1.name) (List.mem_singleton.mp last)) other

-- A positional argument has no name. Its text is only stored behind one that an option without a name got.
theorem Gathered.placed {s s' : CommandLine δ} {spec : ArgumentSpec δ} {text : Bytes} {value : ArgumentValue δ}
    (gathered : Gathered specs before done s) (built : Built s (spec, text) value s')
    (appended : Appended s (spec, text) value s') (bare : spec.name = []) :
    Gathered specs before (done ++ [(spec, text)]) s' where
  spec := built.spec.trans gathered.spec
  sorted := built.sorted gathered.sorted
  bound := fun address => gathered.assigned appended address
  stored := by
    intro name known
    rw [built.present gathered.sorted] at known
    rw [collected_filter_concat done (spec, text) fun entry => entry.1.name = name, appended.stored,
      gathered.stored name known]
    by_cases here : spec.name = name
    next =>
      have present := known.resolve_left fun named => named (here.symm.trans bare)
      rw [if_pos ⟨here, present⟩, if_pos here]
    next => rw [if_neg here, if_neg fun both => here both.1]

theorem Optioned.defaulted {s : CommandLine δ} {spec : ArgumentSpec δ} {value : ArgumentValue δ}
    (optioned : Optioned specs before done s) (empty : vectors value = ([], [])) :
    Optioned specs before done { s with
      parsedArgs := OrderedEntries.alter spec.name (fun stored => stored.getD ⟨value, spec⟩) s.parsedArgs } where
  spec := optioned.spec
  sorted := OrderedEntries.sorted_alter _ optioned.sorted
  bound := optioned.bound
  stored := by
    intro name _
    rw [storedVectors_alter optioned.sorted rfl, ← optioned.storedVectors_eq name]
    split
    next here =>
      rw [here]
      cases found : OrderedEntries.get spec.name s.parsedArgs with
      | none => rw [Option.getD_none, storedVectors_none found, empty]
      | some stored => rw [Option.getD_some, storedVectors_some found]
    next => rfl
  present := by
    intro entry listed
    rw [OrderedEntries.get_alter spec.name _ optioned.sorted]
    split
    next => rfl
    next => exact optioned.present entry listed

variable [Zero δ] (stod : Bytes → Except Exn δ)

theorem buildArgumentValue_gathers {inv : CommandLine δ → Prop}
    (sorted : ∀ s, inv s → OrderedEntries.Sorted s.parsedArgs)
    (text : Bytes) (spec : ArgumentSpec δ) :
    Runs inv (buildArgumentValue stod text spec) (fun result s' => ∀ value, result = some value →
      ∃ s, inv s ∧ Built s (spec, text) value s' ∧ Appended s (spec, text) value s') fun _ => True := by
  intro s held
  have built := buildArgumentValue_built stod text spec s s rfl
  have appended := buildArgumentValue_appends stod text spec s (sorted s held) s rfl
  cases run : buildArgumentValue stod text spec s with
  | error e s' => trivial
  | ok result s' =>
    rw [run] at built appended
    exact fun value same => ⟨s, held, built value same, appended value same⟩

theorem addOption_gathers (value : Bytes) (spec : ArgumentSpec δ) :
    Runs (Optioned specs before done) (addOption stod spec.name value spec)
      (fun ok s => ok = true → Optioned specs before (done ++ [(spec, value)]) s) fun _ => True := by
  refine (buildArgumentValue_gathers stod (fun _ optioned => optioned.sorted) value spec).bind fun result => ?_
  cases result with
  | none => exact .pure fun _ _ => by simp
  | some argumentValue =>
    intro s' held
    obtain ⟨s, optioned, built, appended⟩ := held argumentValue rfl
    exact fun _ => optioned.emplaced built appended

theorem applyDefaultValue_gathers (spec : ArgumentSpec δ) :
    Runs (Optioned specs before done) (applyDefaultValue spec) (fun _ => Optioned specs before done) fun _ => True := by
  have failing (lineNumber : Nat) (message : Bytes) : Runs (Optioned specs before done) (do
      parseError lineNumber message
      return false) (fun _ => Optioned specs before done) fun _ => True := by
    have printed : Runs (Optioned specs before done) (parseError lineNumber message)
      (fun _ => Optioned specs before done)
        fun _ => True := .modify fun s optioned => Optioned.quiet s _ _ s.readings optioned
    exact printed.bind fun _ => .pure fun _ => id
  refine .get fun s optioned => Runs.starting ?_ optioned
  refine .ite (fun _ => .pure fun _ => id) fun _ => .ite (fun _ => failing _ _) fun _ =>
    .ite (fun _ => .pure fun _ => id) fun _ => .ite (fun _ => .pure fun _ => id) fun _ =>
    .ite (fun _ => failing _ _) fun _ => ?_
  have emplaced (value : ArgumentValue δ) (empty : vectors value = ([], [])) :
      Runs (Optioned specs before done) (emplace spec.name value spec)
        (fun _ => Optioned specs before done) fun _ => True :=
    .modify fun s optioned => optioned.defaulted empty
  refine (emplaced _ ?_).bind fun _ => .pure fun _ => id
  cases spec.defaultValue <;> rfl

variable {stod}

theorem parse_gathers {argv : List Bytes} {s : CommandLine δ}
    (parsed : parse stod argv (create specs before) = .ok true s) :
    Gathered specs before (texts specs argv.tail) s := by
  refine parse_invariant (fun _ _ optioned => optioned.spec) (fun _ => Optioned.quiet)
    (fun _ _ optioned => optioned.toGathered)
    (fun _ => Gathered.quiet) (fun _ value spec _ => addOption_gathers stod value spec)
    (fun _ spec => applyDefaultValue_gathers spec) (fun done spec positional bare => ?_)
      (create_optioned specs before) parsed
  refine (buildArgumentValue_gathers stod (fun _ gathered => gathered.sorted) positional spec).mono (fun _ => id)
    fun result s held value same => ?_
  obtain ⟨between, gathered, built, appended⟩ := held value same
  exact gathered.placed built appended bare

end Gathered

section Occurrences

variable (specs : List (ArgumentSpec δ)) (args : List Bytes) (spec : ArgumentSpec δ)

def occurrences : List Bytes := ((given specs args).filter fun entry => entry.1.name = spec.name).map Prod.snd

def OwnVariable : Prop := ∀ entry ∈ texts specs args, entry.1.typeInfo = spec.typeInfo → entry.1.name = spec.name

instance : Decidable (OwnVariable specs args spec) := inferInstanceAs (Decidable (∀ _ ∈ _, _))

variable {specs args spec}

theorem spec_of_name (distinct : DistinctNames specs) (member : spec ∈ specs) (named : spec.name ≠ [])
    {entry : ArgumentSpec δ × Bytes} (listed : entry ∈ given specs args) (same : entry.1.name = spec.name) :
    entry.1 = spec := by
  have here := (find_iff distinct named spec).mpr ⟨member, rfl⟩
  rw [(find_iff distinct named entry.1).mpr ⟨(scan_sound args).1 entry listed, same⟩] at here
  exact Option.some.inj here

theorem collected_occurrences (distinct : DistinctNames specs) (member : spec ∈ specs) (named : spec.name ≠ []) :
    collected ((given specs args).filter fun entry => entry.1.name = spec.name) =
      (if spec.dataType = .stringArray then occurrences specs args spec else [],
        if spec.dataType = .stringPairArray then (occurrences specs args spec).map pairOf else []) := by
  have typed (entry : ArgumentSpec δ × Bytes) (listed : entry ∈ (given specs args).filter fun entry =>
      entry.1.name = spec.name) : entry.1 = spec := by
    obtain ⟨listed, same⟩ := List.mem_filter.mp listed
    exact spec_of_name distinct member named listed (of_decide_eq_true same)
  have kind (dataType : DataType) : (((given specs args).filter fun entry => entry.1.name = spec.name).filter
      fun entry => entry.1.dataType = dataType) =
      if spec.dataType = dataType then (given specs args).filter fun entry => entry.1.name = spec.name else [] := by
    split
    next same => exact List.filter_eq_self.mpr fun entry listed => by simp [typed entry listed, same]
    next other => exact List.filter_eq_nil_iff.mpr fun entry listed => by simp [typed entry listed, other]
  unfold collected occurrences
  rw [kind, kind]
  split_ifs <;> simp

theorem name_of_positional {entry : ArgumentSpec δ × Bytes} {tokens : List Bytes}
    (listed : entry ∈ (positionals specs).zip tokens) : entry.1.name = [] := by
  have positional := (List.mem_filter.mp (List.of_mem_zip listed).1).2
  simpa [ArgumentSpec.isPositional] using positional

theorem texts_of_name (named : spec.name ≠ []) : ((texts specs args).filter fun entry => entry.1.name = spec.name) =
    (given specs args).filter fun entry => entry.1.name = spec.name := by
  rw [texts, List.filter_append]
  refine (congrArg _ (List.filter_eq_nil_iff.mpr fun entry listed => ?_)).trans (List.append_nil _)
  have bare : entry.1.name = [] := by
    split at listed
    next => cases listed
    next => exact name_of_positional listed
  simpa [bare] using named.symm

theorem texts_of_variable (distinct : DistinctNames specs) (member : spec ∈ specs) (named : spec.name ≠ [])
    (own : OwnVariable specs args spec) :
    ((texts specs args).filter fun entry => entry.1.typeInfo = spec.typeInfo) =
      (given specs args).filter fun entry => entry.1.name = spec.name := by
  rw [← texts_of_name named]
  refine List.filter_congr fun entry listed => decide_eq_decide.mpr ⟨own entry listed, fun same => ?_⟩
  have kept : entry ∈ (texts specs args).filter fun entry => entry.1.name = spec.name :=
    List.mem_filter.mpr ⟨listed, decide_eq_true same⟩
  rw [texts_of_name named] at kept
  rw [spec_of_name distinct member named (List.mem_filter.mp kept).1 same]

theorem collected_variable (distinct : DistinctNames specs) (member : spec ∈ specs) (named : spec.name ≠ [])
    (own : OwnVariable specs args spec) {address : Nat} (bindable : spec.typeInfo.bindable = some address) :
    (spec.dataType = .stringArray → (collected ((texts specs args).filter fun entry =>
      entry.1.typeInfo.bindable = some address)).1 = occurrences specs args spec) ∧
    (spec.dataType = .stringPairArray → (collected ((texts specs args).filter fun entry =>
      entry.1.typeInfo.bindable = some address)).2 = (occurrences specs args spec).map pairOf) := by
  have typed : (((texts specs args).filter fun entry => entry.1.typeInfo.bindable = some address).filter
      fun entry => entry.1.dataType = spec.dataType) =
        (given specs args).filter fun entry => entry.1.name = spec.name := by
    rw [← texts_of_variable distinct member named own, List.filter_filter]
    refine List.filter_congr fun entry _ => ?_
    rw [← Bool.decide_and, decide_eq_decide, ← bindable]
    exact ⟨fun both => congrArg₂ TypeInfo.mk both.1 both.2, fun same => ⟨congrArg TypeInfo.dataType same,
      congrArg TypeInfo.bindable same⟩⟩
  unfold collected occurrences
  constructor
  next =>
    intro array
    rw [array] at typed
    rw [typed]
  next =>
    intro array
    rw [array] at typed
    rw [typed, List.map_map]
    rfl

variable [Zero δ] {stod : Bytes → Except Exn δ} {before : Nat → ArgumentValue δ} {argv : List Bytes} {s : CommandLine δ}

theorem parse_collects (distinct : DistinctNames specs) (parsed : parse stod argv (create specs before) = .ok true s)
    (member : spec ∈ specs) (named : spec.name ≠ []) :
    (spec.dataType = .stringArray → getVS s spec.name [] = occurrences specs argv.tail spec ∧
      ∀ address, spec.typeInfo.bindable = some address → OwnVariable specs argv.tail spec → (before address).vs = [] →
        (s.bound address).vs = occurrences specs argv.tail spec) ∧
    (spec.dataType = .stringPairArray → getVPS s spec.name [] = (occurrences specs argv.tail spec).map pairOf ∧
      ∀ address, spec.typeInfo.bindable = some address → OwnVariable specs argv.tail spec → (before address).vps = [] →
        (s.bound address).vps = (occurrences specs argv.tail spec).map pairOf) := by
  have gathered := parse_gathers parsed
  have stored := gathered.stored spec.name (.inl named)
  rw [texts_of_name named, collected_occurrences distinct member named] at stored
  constructor
  next =>
    intro array
    refine ⟨(congrArg Prod.fst stored).trans (if_pos array), fun address bindable own empty => ?_⟩
    have bound := congrArg Prod.fst (gathered.bound address)
    have mine := (collected_variable distinct member named own bindable).1 array
    simpa only [vectors, join, empty, List.nil_append, mine] using bound
  next =>
    intro array
    refine ⟨(congrArg Prod.snd stored).trans (if_pos array), fun address bindable own empty => ?_⟩
    have bound := congrArg Prod.snd (gathered.bound address)
    have mine := (collected_variable distinct member named own bindable).2 array
    simpa only [vectors, join, empty, List.nil_append, mine] using bound

end Occurrences

section Samples

def runnerArgSpec : ArgumentSpec Int := ⟨text "runner-arg", [], ⟨.stringArray, some 0⟩, .optional, .withArg, .none⟩

def extraArgSpec : ArgumentSpec Int := ⟨text "extra-arg", [], ⟨.stringArray, some 0⟩, .optional, .withArg, .none⟩

def vectorsAfter : EStateM.Result Exn (CommandLine Int) Bool → Option (List Bytes × List Bytes)
  | .ok true s => some (getVS s (text "runner-arg") [], (s.bound 0).vs)
  | _ => none

theorem of_vectorsAfter {ended : EStateM.Result Exn (CommandLine Int) Bool} {stored bound : List Bytes}
    (after : vectorsAfter ended = some (stored, bound)) :
    ∃ s, ended = .ok true s ∧ getVS s (text "runner-arg") [] = stored ∧ (s.bound 0).vs = bound := by
  unfold vectorsAfter at after
  split at after
  next s =>
    obtain ⟨left, right⟩ := Prod.mk.inj (Option.some.inj after)
    exact ⟨s, rfl, left, right⟩
  next => cases after

theorem parse_collects_runnerArg : ∃ s,
    parse noDouble [text "tool", text "--runner-arg=a", text "--runner-arg", text "b"]
      (create [runnerArgSpec] fun _ => .initial) = .ok true s ∧
    getVS s (text "runner-arg") [] = [text "a", text "b"] ∧ (s.bound 0).vs = [text "a", text "b"] := by
  have run : vectorsAfter (parse noDouble [text "tool", text "--runner-arg=a", text "--runner-arg", text "b"]
      (create [runnerArgSpec] fun _ => .initial)) = some ([text "a", text "b"], [text "a", text "b"]) := by
    decide +kernel
  obtain ⟨s, parsed, -⟩ := of_vectorsAfter run
  have collects := (parse_collects (by decide) parsed (List.mem_singleton.mpr rfl) (by decide)).1 rfl
  have twice : occurrences [runnerArgSpec] [text "--runner-arg=a", text "--runner-arg", text "b"] runnerArgSpec =
    [text "a", text "b"] := by decide +kernel
  have own : OwnVariable [runnerArgSpec] [text "--runner-arg=a", text "--runner-arg", text "b"] runnerArgSpec := by
    decide +kernel
  exact ⟨s, parsed, collects.1.trans twice, (collects.2 0 rfl own rfl).trans twice⟩

theorem shared_vector : ∃ s,
    parse noDouble [text "tool", text "--runner-arg=a", text "--extra-arg=b"]
      (create [runnerArgSpec, extraArgSpec] fun _ => .initial) = .ok true s ∧
    DistinctNames [runnerArgSpec, extraArgSpec] ∧ runnerArgSpec.typeInfo = ⟨.stringArray, some 0⟩ ∧
    occurrences [runnerArgSpec, extraArgSpec] [text "--runner-arg=a", text "--extra-arg=b"] runnerArgSpec = [text "a"] ∧
    (s.bound 0).vs = [text "a", text "b"] := by
  have run : vectorsAfter (parse noDouble [text "tool", text "--runner-arg=a", text "--extra-arg=b"]
      (create [runnerArgSpec, extraArgSpec] fun _ => .initial)) = some ([text "a"], [text "a", text "b"]) := by
    decide +kernel
  obtain ⟨s, parsed, -, bound⟩ := of_vectorsAfter run
  exact ⟨s, parsed, by decide, rfl, by decide +kernel, bound⟩

end Samples

end BuildboxCommon.CommandLine
