import BuildboxCommon.CommandLine.BoundVariables

set_option autoImplicit false

namespace BuildboxCommon.CommandLine

open ByteString CommandLineTypes Effect

variable {δ : Type}

def token (name value : Bytes) : Bytes := [dash, dash] ++ (name ++ equals :: value)

section Scan

variable {specs : List (ArgumentSpec δ)} {spec : ArgumentSpec δ}

theorem scan_token (found : findOptionSpecByName specs spec.name = some spec) (free : equals ∉ spec.name)
    (value : Bytes) (rest : List Bytes) : scan specs (token spec.name value :: rest) =
      ((spec, value) :: (scan specs rest).1, (scan specs rest).2) := by
  obtain ⟨name, behind⟩ := cut_at_equals free value
  have option : (token spec.name value).drop 2 = spec.name ++ equals :: value := rfl
  rw [scan_joined rest rfl (by rw [option, name]; exact found) (by rw [option]; simp), option, behind]
  rfl

theorem given_tokens {entries : List (ArgumentSpec δ × Bytes)}
    (known : ∀ entry ∈ entries, findOptionSpecByName specs entry.1.name = some entry.1 ∧ equals ∉ entry.1.name) :
    scan specs (entries.map fun entry => token entry.1.name entry.2) = (entries, []) := by
  induction entries with
  | nil => rfl
  | cons entry entries ih =>
    obtain ⟨found, free⟩ := known entry List.mem_cons_self
    rw [List.map_cons, scan_token found free, ih fun other member => known other (List.mem_cons_of_mem _ member)]

end Scan

section Forward

variable [Zero δ] (stod : Bytes → Except Exn δ) {specs : List (ArgumentSpec δ)}

theorem addOption_string {spec : ArgumentSpec δ} (string : spec.dataType = .string) (value : Bytes)
    (s : CommandLine δ) :
    ∃ s', addOption stod spec.name value spec s = .ok true s' ∧ s'.spec = s.spec := by
  have built : ∃ s', buildArgumentValue stod value spec s =
    .ok (some { (.initial : ArgumentValue δ) with str := value }) s' ∧
      s'.spec = s.spec := by
    unfold buildArgumentValue
    rw [string]
    exact ⟨_, bind_ok _ (assign_ok _ _ _), rfl⟩
  obtain ⟨s', built, kept⟩ := built
  unfold addOption
  rw [bind_ok _ built]
  exact ⟨_, rfl, kept⟩

theorem parseOptions_token {spec : ArgumentSpec δ} (found : findOptionSpecByName specs spec.name = some spec)
    (free : equals ∉ spec.name) (string : spec.dataType = .string) (value : Bytes) (rest : List Bytes)
    {s : CommandLine δ} (same : s.spec = specs) :
    ∃ s', s'.spec = specs ∧ parseOptions stod (token spec.name value :: rest) s = parseOptions stod rest s' := by
  obtain ⟨name, behind⟩ := cut_at_equals free value
  have option : (token spec.name value).drop 2 = spec.name ++ equals :: value := rfl
  obtain ⟨s', added, kept⟩ := addOption_string stod string value
    { s with readings := s.readings ++ [(token spec.name value, .option spec.name (some spec))] }
  refine ⟨s', kept.trans same, ?_⟩
  have sign : equals ∈ spec.name ++ equals :: value := by simp
  have short : ¬(charAt (token spec.name value) 0 = dash ∧ charAt (token spec.name value) 1 ≠ dash) := fun h => h.2 rfl
  have filled : token spec.name value ≠ [] := List.cons_ne_nil _ _
  have word : ¬(charAt (token spec.name value) 0 ≠ dash ∧ charAt (token spec.name value) 1 ≠ dash) := fun h => h.1 rfl
  rw [parseOptions, if_neg short, if_neg filled, if_neg word]
  simp only [option, name, behind, List.drop_succ_cons, List.drop_zero]
  rw [get_bind, same, found]
  have noted : read (token spec.name value) (.option spec.name (some spec)) s =
      .ok () { s with readings := s.readings ++ [(token spec.name value, .option spec.name (some spec))] } := rfl
  rw [bind_ok _ noted]
  simp only [sign, not_true_eq_false, and_false, if_false]
  rw [bind_ok _ added]
  rfl

theorem parseOptions_tokens {entries : List (ArgumentSpec δ × Bytes)}
    (known : ∀ entry ∈ entries, findOptionSpecByName specs entry.1.name = some entry.1 ∧ equals ∉ entry.1.name ∧
      entry.1.dataType = .string) (rest : List Bytes) {s : CommandLine δ} (same : s.spec = specs) :
    ∃ s', s'.spec = specs ∧ parseOptions stod (entries.map (fun entry => token entry.1.name entry.2) ++ rest) s =
      parseOptions stod rest s' := by
  induction entries generalizing s with
  | nil => exact ⟨s, same, rfl⟩
  | cons entry entries ih =>
    obtain ⟨found, free, string⟩ := known entry List.mem_cons_self
    obtain ⟨between, still, first⟩ := parseOptions_token stod found free string entry.2
      (entries.map (fun entry => token entry.1.name entry.2) ++ rest) same
    obtain ⟨s', kept, others⟩ := ih (fun other member => known other (List.mem_cons_of_mem _ member)) still
    exact ⟨s', kept, first.trans others⟩

theorem parseOptions_bare {name : Bytes} {rest : List Bytes} {s : CommandLine δ} (free : equals ∉ name)
    (unfit : ∀ spec, findOptionSpecByName s.spec name = some spec → spec.hasArgument ∧
      ∀ value ∈ rest.head?, charAt value 0 = dash ∧ charAt value 1 = dash) :
    ∃ left s', parseOptions stod (([dash, dash] ++ name) :: rest) s = .ok (false, left) s' := by
  have option : ([dash, dash] ++ name).drop 2 = name := rfl
  have whole : name.takeWhile (· ≠ equals) = name := List.takeWhile_eq_self_iff.mpr (no_equals free)
  have short : ¬(charAt ([dash, dash] ++ name) 0 = dash ∧ charAt ([dash, dash] ++ name) 1 ≠ dash) := fun h => h.2 rfl
  have filled : [dash, dash] ++ name ≠ [] := List.cons_ne_nil _ _
  have word : ¬(charAt ([dash, dash] ++ name) 0 ≠ dash ∧ charAt ([dash, dash] ++ name) 1 ≠ dash) := fun h => h.1 rfl
  rw [parseOptions, if_neg short, if_neg filled, if_neg word]
  simp only [option, whole]
  rw [get_bind]
  have noted : read ([dash, dash] ++ name) (.option name (findOptionSpecByName s.spec name)) s = .ok ()
      { s with
        readings := s.readings ++ [([dash, dash] ++ name, .option name (findOptionSpecByName s.spec name))] } := rfl
  rw [bind_ok _ noted]
  cases found : findOptionSpecByName s.spec name with
  | none => exact ⟨_, _, rfl⟩
  | some spec =>
    obtain ⟨wants, another⟩ := unfit spec found
    simp only [wants, free, not_false_eq_true, and_self, if_true]
    cases rest with
    | nil => exact ⟨_, _, rfl⟩
    | cons value later =>
      simp only [another value rfl, and_self, if_true]
      exact ⟨_, _, rfl⟩

theorem applyDefaultValues_accepts {specs : List (ArgumentSpec δ)}
    (sound : ∀ spec ∈ specs, spec.hasDefaultValue → ¬spec.isRequired ∧ spec.dataType = spec.defaultValue.dataType)
    (s : CommandLine δ) : ∃ s', applyDefaultValues specs s = .ok true s' := by
  induction specs generalizing s with
  | nil => exact ⟨s, rfl⟩
  | cons spec specs ih =>
    have one : ∃ between, applyDefaultValue spec s = .ok true between := by
      unfold applyDefaultValue
      rw [get_bind]
      split_ifs with bare clash present without other
      next => exact ⟨_, rfl⟩
      next => exact absurd clash.1 (sound spec List.mem_cons_self clash.2).1
      next => exact ⟨_, rfl⟩
      next => exact ⟨_, rfl⟩
      next => exact absurd (sound spec List.mem_cons_self (by simpa using without)).2 other
      next => exact ⟨_, rfl⟩
    obtain ⟨between, one⟩ := one
    obtain ⟨s', others⟩ := ih (fun other member => sound other (List.mem_cons_of_mem _ member)) between
    refine ⟨s', ?_⟩
    unfold applyDefaultValues
    rw [bind_ok _ one]
    exact others

theorem parse_accepts {before : Nat → ArgumentValue δ} {processName : Bytes} {args : List Bytes}
    {options : CommandLine δ}
    (ended : parseOptions stod args { create specs before with processName := processName } = .ok (true, []) options)
    (more : ¬HelpOnly specs args) (named : ∀ spec ∈ specs, spec.name ≠ [])
    (complete : ∀ spec ∈ specs, spec.isRequired → ∃ entry ∈ given specs args, entry.1.name = spec.name)
    (sound : ∀ spec ∈ specs, spec.hasDefaultValue → ¬spec.isRequired ∧ spec.dataType = spec.defaultValue.dataType) :
    ∃ s, parse stod (processName :: args) (create specs before) = .ok true s := by
  have mirrored := parseOptions_mirrors stod args _ (create_mirrors specs before processName)
  rw [ended] at mirrored
  obtain ⟨mirrors, -⟩ := mirrored rfl
  have only := mt mirrors.helpOnly_iff.mp more
  have valid : validateRequiredArgs options = none := by
    unfold validateRequiredArgs
    simp only [ite_eq_left_iff, reduceCtorEq, imp_false, not_not]
    rw [List.filter_eq_nil_iff, mirrors.spec]
    intro spec member missing
    obtain ⟨-, required, absent⟩ := of_decide_eq_true missing
    have present := (mirrors.present spec.name).mpr (complete spec member required)
    rw [absent] at present
    cases present
  obtain ⟨defaults, applied⟩ := applyDefaultValues_accepts (mirrors.spec ▸ sound) options
  have renamed : (modify fun s : CommandLine δ => { s with processName := processName } : Parsing δ PUnit)
      (create specs before) = .ok ⟨⟩ { create specs before with processName := processName } := rfl
  have kept : defaults.spec = specs := by
    have defaulted := applyDefaultValues_defaulted options.spec [] options (defaulted_start mirrors.sorted)
    rw [applied] at defaulted
    exact (defaulted rfl).spec.trans mirrors.spec
  have free : defaults.spec.countP isRequiredPositional = 0 := by
    rw [kept, List.countP_eq_zero]
    intro spec member
    simp [isRequiredPositional, ArgumentSpec.isPositional, named spec member]
  refine ⟨defaults, ?_⟩
  unfold parse
  simp only
  rw [bind_ok _ renamed, bind_ok _ ended, get_bind]
  simp only [Bool.not_true, Bool.false_eq_true, if_false, if_neg only, valid]
  rw [bind_ok _ applied]
  simp only [if_true, parsePositionals]
  rw [get_bind, free, List.length_nil, if_neg (lt_irrefl 0)]
  rfl

end Forward

end BuildboxCommon.CommandLine
