import BuildboxCommon.CommandLine.Acceptance
import BuildboxCommon.Shared.Simulation

set_option autoImplicit false

namespace BuildboxCommon.CommandLine

open ByteString CommandLineTypes Effect

variable {δ α β : Type}

def Alike (specs : List (ArgumentSpec δ)) (s t : CommandLine δ) : Prop :=
  s.spec = specs ∧ ∃ readings, t = { s with readings := readings }

def Blind (specs : List (ArgumentSpec δ)) (program : Parsing δ α) : Prop :=
  Simulates (Alike specs) program program Eq

section Blind

variable {specs : List (ArgumentSpec δ)}

theorem Blind.pure (a : α) : Blind specs (pure a : Parsing δ α) := Simulates.pure rfl

theorem Blind.throw (e : Exn) : Blind specs (throw e : Parsing δ α) := Simulates.throw e

theorem Blind.bind {program : Parsing δ α} {rest : α → Parsing δ β} (first : Blind specs program)
    (second : ∀ a, Blind specs (rest a)) : Blind specs (program >>= rest) := by
  refine Simulates.bind first fun a b same => ?_
  subst same
  exact second a

theorem Blind.ite {condition : Prop} [Decidable condition] {program other : Parsing δ α}
    (yes : Blind specs program) (no : Blind specs other) : Blind specs (if condition then program else other) :=
  Simulates.ite .rfl (fun _ => yes) fun _ => no

theorem blind_get {rest : CommandLine δ → Parsing δ α} (each : ∀ s readings, s.spec = specs →
    Simulates (Alike specs) (rest s) (rest { s with readings := readings }) Eq) : Blind specs (get >>= rest) := by
  refine Simulates.get fun s t alike => ?_
  obtain ⟨same, readings, rfl⟩ := alike
  exact each s readings same

theorem blind_modify {change : CommandLine δ → CommandLine δ} (kept : ∀ s, (change s).spec = s.spec)
    (same : ∀ s readings, ∃ more, change { s with readings := readings } = { change s with readings := more }) :
    Blind specs (modify change : Parsing δ PUnit) := by
  refine Simulates.modify fun s t alike => ?_
  obtain ⟨listed, readings, rfl⟩ := alike
  exact ⟨(kept s).trans listed, same s readings⟩

theorem simulates_set {s t : CommandLine δ} (alike : Alike specs s t) :
    Simulates (Alike specs) (set s : Parsing δ PUnit) (set t) Eq := fun _ _ _ => ⟨rfl, alike⟩

theorem print_blind (message : Bytes) : Blind specs (print message : Parsing δ Unit) :=
  blind_modify (fun _ => rfl) fun _ readings => ⟨readings, rfl⟩

theorem parseError_blind (lineNumber : Nat) (message : Bytes) :
    Blind specs (parseError lineNumber message : Parsing δ Unit) :=
  print_blind _

theorem read_blind (token : Bytes) (reading : Reading δ) : Blind specs (read token reading : Parsing δ Unit) :=
  blind_modify (fun _ => rfl) fun _ readings => ⟨readings ++ [(token, reading)], rfl⟩

theorem rejection_blind (lineNumber : Nat) (message : Bytes) (answer : α) : Blind specs (do
    parseError lineNumber message
    return answer : Parsing δ α) :=
  (parseError_blind lineNumber message).bind fun _ => .pure answer

theorem assign_blind (spec : ArgumentSpec δ) (change : ArgumentValue δ → ArgumentValue δ) :
    Blind specs (assign spec change) := by
  unfold assign
  cases spec.typeInfo.bindable with
  | none => exact .pure ()
  | some address => exact blind_modify (fun _ => rfl) fun _ readings => ⟨readings, rfl⟩

theorem converted_blind (optionValue : Bytes) (spec : ArgumentSpec δ) (result : Except Exn α) :
    Blind specs (converted optionValue spec result) := by
  cases result with
  | ok val => exact .pure _
  | error e =>
    cases e
    case invalidArgument => exact (print_blind _).bind fun _ => .pure none
    case outOfRange => exact (print_blind _).bind fun _ => .pure none
    all_goals exact .throw _

theorem findNextPositionalSpec_blind : Blind specs (findNextPositionalSpec : Parsing δ (Option (ArgumentSpec δ))) := by
  refine blind_get fun s readings same => ?_
  have moved : Alike specs { s with idxLastPositionalFound := (nextPositionalSpec s.idxLastPositionalFound
      (s.spec.drop s.idxLastPositionalFound)).1 } { s with
      idxLastPositionalFound := (nextPositionalSpec s.idxLastPositionalFound (s.spec.drop s.idxLastPositionalFound)).1
      readings := readings } := ⟨same, readings, rfl⟩
  exact (simulates_set moved).bind fun _ _ _ => .pure rfl

variable [Zero δ]

theorem collect_blind (spec : ArgumentSpec δ) (append : ArgumentValue δ → ArgumentValue δ) :
    Blind specs (collect spec append) := by
  refine blind_get fun s readings same => ?_
  dsimp only
  cases OrderedEntries.get spec.name s.parsedArgs with
  | none => exact (assign_blind spec append).bind fun _ => .pure _
  | some stored =>
    refine Simulates.bind (simulates_set ⟨same, readings, rfl⟩) fun _ _ _ => ?_
    exact (assign_blind spec append).bind fun _ => .pure _

variable (stod : Bytes → Except Exn δ)

theorem buildArgumentValue_blind (optionValue : Bytes) (spec : ArgumentSpec δ) :
    Blind specs (buildArgumentValue stod optionValue spec) := by
  have assigned (change : ArgumentValue δ → ArgumentValue δ) (value : ArgumentValue δ) : Blind specs (do
      assign spec change
      return some value) := (assign_blind spec change).bind fun _ => .pure _
  unfold buildArgumentValue
  cases spec.dataType with
  | string => exact assigned _ _
  | int =>
    refine (converted_blind optionValue spec _).bind fun found => ?_
    cases found with
    | none => exact .pure none
    | some val => exact assigned _ _
  | double =>
    refine (converted_blind optionValue spec _).bind fun found => ?_
    cases found with
    | none => exact .pure none
    | some val => exact assigned _ _
  | bool => exact assigned _ _
  | stringArray => exact collect_blind _ _
  | stringPairArray => exact collect_blind _ _
  | unknown => exact .throw _

omit [Zero δ] in
theorem emplace_blind (name : Bytes) (argumentValue : ArgumentValue δ) (spec : ArgumentSpec δ) :
    Blind specs (emplace name argumentValue spec) :=
  blind_modify (fun _ => rfl) fun _ readings => ⟨readings, rfl⟩

theorem addOption_blind (optionName optionValue : Bytes) (spec : ArgumentSpec δ) :
    Blind specs (addOption stod optionName optionValue spec) := by
  refine (buildArgumentValue_blind stod optionValue spec).bind fun built => ?_
  cases built with
  | none => exact .pure false
  | some argumentValue => exact (emplace_blind _ _ _).bind fun _ => .pure true

omit [Zero δ] in
theorem readyForPositionals_blind (currentArg : Bytes) (later : List Bytes) :
    Blind specs (readyForPositionals currentArg later : Parsing δ Bool) := by
  refine blind_get fun s readings same => ?_
  have valid : validateRequiredArgs { s with readings := readings } = validateRequiredArgs s := rfl
  rw [valid]
  refine Simulates.ite .rfl (fun _ => rejection_blind _ _ _) fun _ => ?_
  cases validateRequiredArgs s with
  | none => exact Blind.pure true
  | some errorMsg =>
    cases later with
    | nil => exact rejection_blind _ _ _
    | cons nextArg later => exact Blind.ite (rejection_blind _ _ _) (rejection_blind _ _ _)

theorem applyDefaultValue_blind (spec : ArgumentSpec δ) : Blind specs (applyDefaultValue spec) := by
  refine blind_get fun s readings same => ?_
  refine Simulates.ite .rfl (fun _ => .pure rfl) fun _ => Simulates.ite .rfl (fun _ => rejection_blind _ _ _) fun _ =>
    Simulates.ite .rfl (fun _ => .pure rfl) fun _ => Simulates.ite .rfl (fun _ => .pure rfl) fun _ =>
    Simulates.ite .rfl (fun _ => rejection_blind _ _ _) fun _ => ?_
  exact (emplace_blind _ _ _).bind fun _ => .pure true

theorem applyDefaultValues_blind (defaults : List (ArgumentSpec δ)) : Blind specs (applyDefaultValues defaults) := by
  induction defaults with
  | nil => exact .pure true
  | cons spec defaults ih => exact (applyDefaultValue_blind spec).bind fun _ => .ite ih (.pure false)

theorem bindPositionals_blind (args : List Bytes) : Blind specs (bindPositionals stod args) := by
  induction args with
  | nil => exact .pure true
  | cons positional args ih =>
    refine findNextPositionalSpec_blind.bind fun found => ?_
    cases found with
    | none => exact (print_blind _).bind fun _ => ih
    | some spec =>
      refine (buildArgumentValue_blind stod positional spec).bind fun built => ?_
      cases built with
      | none => exact .pure false
      | some value => exact ih

theorem parsePositionals_blind (args : List Bytes) : Blind specs (parsePositionals stod args) := by
  refine blind_get fun s readings same => ?_
  exact Simulates.ite .rfl (fun _ => rejection_blind _ _ _) fun _ => bindPositionals_blind stod args

theorem parseOptions_blind : (args : List Bytes) → Blind specs (parseOptions stod args)
  | [] => .pure _
  | currentArg :: rest => by
    unfold parseOptions
    refine .ite ?_ (.ite ?_ (.ite ?_ ?_))
    next => exact (read_blind _ _).bind fun _ => rejection_blind _ _ _
    next => exact (read_blind _ _).bind fun _ => .throw _
    next => exact (readyForPositionals_blind _ _).bind fun ready => (read_blind _ _).bind fun _ => .pure _
    next =>
      refine blind_get fun s readings same => ?_
      refine Simulates.bind (read_blind _ _) fun _ _ _ => ?_
      dsimp only
      cases findOptionSpecByName s.spec ((currentArg.drop 2).takeWhile (· ≠ equals)) with
      | none => exact rejection_blind _ _ _
      | some spec =>
        have onwards (ok : Bool) : Blind specs (if ok = true then parseOptions stod rest else
            pure (false, currentArg :: rest)) :=
          .ite (parseOptions_blind rest) (.pure _)
        have joined := (addOption_blind stod ((currentArg.drop 2).takeWhile (· ≠ equals))
          (((currentArg.drop 2).dropWhile (· ≠ equals)).drop 1) spec).bind onwards
        refine Blind.ite ?_ joined
        cases rest with
        | nil => exact rejection_blind _ _ _
        | cons optionValue later =>
          refine Blind.ite (rejection_blind _ _ _) ?_
          exact (addOption_blind stod _ optionValue spec).bind fun ok =>
            .ite (parseOptions_blind later) (.pure _)

end Blind

section Spelling

variable [Zero δ] (stod : Bytes → Except Exn δ) {specs : List (ArgumentSpec δ)} {spec : ArgumentSpec δ}

def addAndGoOn (spec : ArgumentSpec δ) (value : Bytes) (more failed : List Bytes) : Parsing δ (Bool × List Bytes) := do
  if ← addOption stod spec.name value spec then parseOptions stod more else return (false, failed)

def optionStep (spec : ArgumentSpec δ) (currentArg : Bytes) (rest : List Bytes) : Parsing δ (Bool × List Bytes) := do
  read currentArg (.option spec.name (some spec))
  if spec.hasArgument ∧ equals ∉ currentArg.drop 2 then
    match rest with
    | [] =>
      parseError 306 (text "option \"" ++ spec.name ++
        text "\" is configured to accept an argument but none was provided")
      return (false, [currentArg])
    | optionValue :: later =>
      if charAt optionValue 0 = dash ∧ charAt optionValue 1 = dash then
        parseError 319 (text "option \"" ++ spec.name ++
          text "\" is configured to accept an argument but none was provided")
        return (false, optionValue :: later)
      else addAndGoOn stod spec optionValue later (optionValue :: later)
  else addAndGoOn stod spec (((currentArg.drop 2).dropWhile (· ≠ equals)).drop 1) rest (currentArg :: rest)

theorem parseOptions_option {currentArg : Bytes} (rest : List Bytes) (second : charAt currentArg 1 = dash)
    (found : findOptionSpecByName specs ((currentArg.drop 2).takeWhile (· ≠ equals)) = some spec) {s : CommandLine δ}
    (same : s.spec = specs) : parseOptions stod (currentArg :: rest) s = optionStep stod spec currentArg rest s := by
  have named : (currentArg.drop 2).takeWhile (· ≠ equals) = spec.name := by
    simpa [eq_comm] using List.find?_some found
  have filled : currentArg ≠ [] := by
    rintro rfl
    cases second
  rw [parseOptions, if_neg (fun short => short.2 second), if_neg filled, if_neg (fun word => word.2 second)]
  rw [get_bind, same, found]
  simp only [named]
  rfl

def EndAlike (ended ended' : Bool × List Bytes) : Prop := ended.1 = ended'.1 ∧ (ended.1 = true → ended.2 = ended'.2)

theorem addAndGoOn_simulates {more more' : List Bytes}
    (onwards : Simulates (Alike specs) (parseOptions stod more) (parseOptions stod more') EndAlike) (value : Bytes)
    (failed failed' : List Bytes) :
    Simulates (Alike specs) (addAndGoOn stod spec value more failed) (addAndGoOn stod spec value more' failed')
      EndAlike := by
  refine Simulates.bind (addOption_blind stod spec.name value spec) fun ok ok' same => ?_
  subst same
  exact .ite .rfl (fun _ => onwards) fun _ => .pure ⟨rfl, by simp⟩

omit [Zero δ] in
theorem read_simulates (token token' : Bytes) (reading : Reading δ) :
    Simulates (Alike specs) (read token reading) (read token' reading) Eq := by
  refine Simulates.modify fun s t alike => ?_
  obtain ⟨same, readings, rfl⟩ := alike
  exact ⟨same, readings ++ [(token', reading)], rfl⟩

theorem option_simulates {currentArg currentArg' : Bytes} {rest rest' : List Bytes}
    (second : charAt currentArg 1 = dash)
    (second' : charAt currentArg' 1 = dash)
    (found : findOptionSpecByName specs ((currentArg.drop 2).takeWhile (· ≠ equals)) = some spec)
    (found' : findOptionSpecByName specs ((currentArg'.drop 2).takeWhile (· ≠ equals)) = some spec)
    (alike : Simulates (Alike specs) (optionStep stod spec currentArg rest) (optionStep stod spec currentArg' rest')
      EndAlike) :
    Simulates (Alike specs) (parseOptions stod (currentArg :: rest)) (parseOptions stod (currentArg' :: rest'))
      EndAlike := by
  refine alike.congr fun s t related => ?_
  obtain ⟨same, readings, rfl⟩ := related
  exact ⟨parseOptions_option stod rest second found same, parseOptions_option stod rest' second' found' same⟩

theorem parseOptions_behind {args args' : List Bytes}
    (behind : Simulates (Alike specs) (parseOptions stod args) (parseOptions stod args') EndAlike) (front : List Bytes)
    (reached : positionalTokens specs front = []) :
    Simulates (Alike specs) (parseOptions stod (front ++ args)) (parseOptions stod (front ++ args')) EndAlike := by
  unfold positionalTokens at reached
  induction front using scan.induct specs with
  | case1 => exact behind
  | case2 token rest other =>
    rw [scan_positional rest other] at reached
    cases reached
  | case3 token rest second option unknown =>
    rw [scan, if_neg second] at reached
    simp only [option, unknown] at reached
    cases reached
  | case4 token second option spec found separate =>
    rw [scan, if_neg second] at reached
    simp only [option, found, if_pos separate] at reached
    cases reached
  | case5 token second option spec found separate value later ih =>
    have dashed := not_not.mp second
    rw [scan_separate value later dashed found separate] at reached
    refine option_simulates stod dashed dashed found found ?_
    refine Simulates.bind (read_blind _ _) fun _ _ _ => .ite .rfl (fun _ => ?_) fun joined => absurd separate joined
    refine .ite .rfl (fun _ => ?_) fun _ => addAndGoOn_simulates stod (ih reached) _ _ _
    exact Simulates.bind (parseError_blind _ _) fun _ _ _ => .pure ⟨rfl, by simp⟩
  | case6 token rest second option spec found joined ih =>
    have dashed := not_not.mp second
    rw [scan_joined rest dashed found joined] at reached
    refine option_simulates stod dashed dashed found found ?_
    refine Simulates.bind (read_blind _ _) fun _ _ _ => .ite .rfl (fun separate => absurd separate joined) fun _ => ?_
    exact addAndGoOn_simulates stod (ih reached) _ _ _

theorem parseOptions_spelled (found : findOptionSpecByName specs spec.name = some spec) (free : equals ∉ spec.name)
    (wants : spec.hasArgument) {value : Bytes} (plain : ¬Dashed value) (rest : List Bytes) :
    Simulates (Alike specs) (parseOptions stod (([dash, dash] ++ spec.name) :: value :: rest))
      (parseOptions stod (token spec.name value :: rest)) EndAlike := by
  obtain ⟨name, behind⟩ := cut_at_equals free value
  have bare : ([dash, dash] ++ spec.name).drop 2 = spec.name := rfl
  have whole : spec.name.takeWhile (· ≠ equals) = spec.name := List.takeWhile_eq_self_iff.mpr (no_equals free)
  have option : (token spec.name value).drop 2 = spec.name ++ equals :: value := rfl
  have sign : ¬(spec.hasArgument = true ∧ equals ∉ (token spec.name value).drop 2) := by simp [option]
  refine option_simulates stod rfl rfl (by rw [bare, whole, found]) (by rw [option, name, found]) ?_
  refine Simulates.bind (read_simulates _ _ _) fun _ _ _ => ?_
  rw [if_pos ⟨wants, free⟩, if_neg sign]
  dsimp only
  rw [if_neg (mt dashed_iff.mpr plain), option, behind]
  have same : Simulates (Alike specs) (parseOptions stod rest) (parseOptions stod rest) EndAlike :=
    (parseOptions_blind stod rest).mono fun ended _ same => same ▸ ⟨rfl, fun _ => rfl⟩
  exact addAndGoOn_simulates stod same value _ _

def SameParse (first second : EStateM.Result Exn (CommandLine δ) Bool) : Prop :=
  match first, second with
  | .ok parsed s, .ok parsed' t => parsed = parsed' ∧ s.parsedArgs = t.parsedArgs ∧ s.bound = t.bound
  | .error e s, .error e' t => e = e' ∧ s.parsedArgs = t.parsedArgs ∧ s.bound = t.bound
  | _, _ => False

omit [Zero δ] in
theorem sameParse_of_simulates {program other : Parsing δ Bool} (simulates : Simulates (Alike specs) program other Eq)
    {s t : CommandLine δ} (alike : Alike specs s t) : SameParse (program s) (other t) := by
  cases run : program s with
  | ok parsed s' =>
    obtain ⟨parsed', t', run', same, -, readings, rfl⟩ := simulates.of_ok alike run
    rw [run']
    exact ⟨same, rfl, rfl⟩
  | error e s' =>
    obtain ⟨t', run', -, readings, rfl⟩ := simulates.of_error alike run
    rw [run']
    exact ⟨rfl, rfl, rfl⟩

theorem parse_simulates {args args' : List Bytes}
    (options : Simulates (Alike specs) (parseOptions stod args) (parseOptions stod args') EndAlike)
      (processName : Bytes) :
    Simulates (Alike specs) (parse stod (processName :: args)) (parse stod (processName :: args')) Eq := by
  unfold parse
  refine Simulates.bind (blind_modify (fun _ => rfl) fun _ readings => ⟨readings, rfl⟩) fun _ _ _ => ?_
  refine options.bind fun ended ended' same => ?_
  obtain ⟨result, left⟩ := ended
  obtain ⟨result', left'⟩ := ended'
  obtain ⟨rfl, same⟩ := same
  cases result with
  | false => exact Simulates.get fun s t _ => .pure rfl
  | true =>
    obtain rfl : left = left' := same rfl
    refine blind_get fun s readings same => ?_
    have valid : validateRequiredArgs { s with readings := readings } = validateRequiredArgs s := rfl
    rw [valid]
    refine Simulates.ite .rfl (fun never => absurd never (by simp)) fun _ => .ite .rfl (fun _ => .pure rfl) fun _ => ?_
    cases validateRequiredArgs s with
    | some errorMsg => exact (print_blind _).bind fun _ => .pure false
    | none =>
      exact (applyDefaultValues_blind s.spec).bind fun _ => .ite (parsePositionals_blind stod left) (.pure false)

theorem parse_spelled (distinct : DistinctNames specs) (free : ∀ spec ∈ specs, equals ∉ spec.name)
    (member : spec ∈ specs) (named : spec.name ≠ []) (wants : spec.hasArgument) {front : List Bytes}
    (reached : positionalTokens specs front = []) {value : Bytes} (plain : ¬Dashed value) (rest : List Bytes)
    (processName : Bytes) (before : Nat → ArgumentValue δ) :
    SameParse (parse stod (processName :: (front ++ ([dash, dash] ++ spec.name) :: value :: rest))
      (create specs before))
      (parse stod (processName :: (front ++ token spec.name value :: rest)) (create specs before)) := by
  have found := (find_iff distinct named spec).mpr ⟨member, rfl⟩
  have spelled := parseOptions_spelled stod found (free spec member) wants plain rest
  have options := parseOptions_behind stod spelled front reached
  exact sameParse_of_simulates (parse_simulates stod options processName) ⟨rfl, _, rfl⟩

section Samples

theorem parse_spelled_level :
    SameParse (parse noDouble [text "tool", text "--foo", text "--level", text "3", text "bot"]
        (create [fooSpec, levelSpec, botIdSpec] fun _ => .initial))
      (parse noDouble [text "tool", text "--foo", text "--level=3", text "bot"]
        (create [fooSpec, levelSpec, botIdSpec] fun _ => .initial)) :=
  @parse_spelled Int _ noDouble [fooSpec, levelSpec, botIdSpec] levelSpec (by decide) (by decide) (by decide)
    (by decide) rfl [text "--foo"] (by decide +kernel) (text "3") (by decide) [text "bot"] (text "tool") _

end Samples

end Spelling

end BuildboxCommon.CommandLine
