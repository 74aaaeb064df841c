import BuildboxCommon.CommandLine.Grammar

set_option autoImplicit false

namespace BuildboxCommon.CommandLine

open ByteString CommandLineTypes Effect

variable {δ : Type}

section Tokens

variable (specs : List (ArgumentSpec δ))

def scan : List Bytes → List (ArgumentSpec δ × Bytes) × List Bytes
  | [] => ([], [])
  | token :: rest =>
    if charAt token 1 ≠ dash then ([], token :: rest)
    else
      let option := token.drop 2
      match findOptionSpecByName specs (option.takeWhile (· ≠ equals)) with
      | none => ([], token :: rest)
      | some spec =>
        if spec.hasArgument ∧ equals ∉ option then
          match rest with
          | [] => ([], [token])
          | value :: later => ((spec, value) :: (scan later).1, (scan later).2)
        else ((spec, (option.dropWhile (· ≠ equals)).drop 1) :: (scan rest).1, (scan rest).2)

def given (args : List Bytes) : List (ArgumentSpec δ × Bytes) := (scan specs args).1

def positionalTokens (args : List Bytes) : List Bytes := (scan specs args).2

def positionals : List (ArgumentSpec δ) := specs.filter ArgumentSpec.isPositional

def HelpOnly (args : List Bytes) : Prop :=
  given specs args ≠ [] ∧ ∀ entry ∈ given specs args, entry.1.name = text "help"

instance (args : List Bytes) : Decidable (HelpOnly specs args) := inferInstanceAs (Decidable (_ ∧ _))

variable {specs} {token : Bytes} {spec : ArgumentSpec δ}

theorem scan_positional (rest : List Bytes) (other : charAt token 1 ≠ dash) :
    scan specs (token :: rest) = ([], token :: rest) := by
  rw [scan, if_pos other]

theorem scan_separate (value : Bytes) (later : List Bytes) (second : charAt token 1 = dash)
    (found : findOptionSpecByName specs ((token.drop 2).takeWhile (· ≠ equals)) = some spec)
    (separate : spec.hasArgument ∧ equals ∉ token.drop 2) :
    scan specs (token :: value :: later) = ((spec, value) :: (scan specs later).1, (scan specs later).2) := by
  rw [scan, if_neg (not_not_intro second)]
  simp only [found, if_pos separate]

theorem scan_joined (rest : List Bytes) (second : charAt token 1 = dash)
    (found : findOptionSpecByName specs ((token.drop 2).takeWhile (· ≠ equals)) = some spec)
    (joined : ¬(spec.hasArgument ∧ equals ∉ token.drop 2)) :
    scan specs (token :: rest) =
      ((spec, ((token.drop 2).dropWhile (· ≠ equals)).drop 1) :: (scan specs rest).1, (scan specs rest).2) := by
  rw [scan, if_neg (not_not_intro second)]
  simp only [found, if_neg joined]

theorem scan_sound (args : List Bytes) :
    (∀ entry ∈ given specs args, entry.1 ∈ specs) ∧ positionalTokens specs args <:+ args := by
  unfold given positionalTokens
  induction args using scan.induct specs with
  | case1 => simp [scan]
  | case2 token rest other => simp [scan_positional rest other]
  | case3 token rest second option unknown =>
    rw [scan, if_neg second]
    simp only [option, unknown]
    simp
  | case4 token second option spec found separate =>
    rw [scan, if_neg second]
    simp only [option, found, if_pos separate]
    simp
  | case5 token second option spec found separate value later ih =>
    rw [scan_separate value later (not_not.mp second) found separate]
    refine ⟨List.forall_mem_cons.mpr ⟨List.mem_of_find?_eq_some found, ih.1⟩, ?_⟩
    exact ih.2.trans ((List.suffix_cons value later).trans (List.suffix_cons token _))
  | case6 token rest second option spec found joined ih =>
    rw [scan_joined rest (not_not.mp second) found joined]
    refine ⟨List.forall_mem_cons.mpr ⟨List.mem_of_find?_eq_some found, ih.1⟩, ?_⟩
    exact ih.2.trans (List.suffix_cons token rest)

end Tokens

section Runs

variable {specs : List (ArgumentSpec δ)} {kept : CommandLine δ → Prop}

def Silent (kept : CommandLine δ → Prop) : Prop :=
  ∀ s out readings, kept s → kept { s with out := out, readings := readings }

theorem Silent.parseError (silent : Silent kept) (lineNumber : Nat) (message : Bytes) :
    Runs kept (parseError lineNumber message) (fun _ => kept) fun _ => True :=
  .modify fun s start => silent s _ s.readings start

theorem Silent.read (silent : Silent kept) (token : Bytes) (reading : Reading δ) :
    Runs kept (read token reading) (fun _ => kept) fun _ => True :=
  .modify fun s start => silent s s.out _ start

theorem Silent.rejects {α : Type} {after : Bool × α → CommandLine δ → Prop} (silent : Silent kept) (lineNumber : Nat)
    (message : Bytes) (rest : α) (vacuous : ∀ s, after (false, rest) s) :
    Runs kept (do
      CommandLine.parseError lineNumber message
      return (false, rest)) after fun _ => True :=
  (silent.parseError lineNumber message).bind fun _ => .pure fun s _ => vacuous s

theorem Silent.readyForPositionals (silent : Silent kept) (currentArg : Bytes) (later : List Bytes) :
    Runs kept (readyForPositionals currentArg later) (fun _ => kept) fun _ => True := by
  have failing (lineNumber : Nat) (message : Bytes) : Runs kept (do
      CommandLine.parseError lineNumber message
      return false) (fun _ => kept) fun _ => True :=
    (silent.parseError lineNumber message).bind fun _ => .pure fun _ => id
  refine .get fun s start => Runs.starting ?_ start
  refine .ite (fun _ => failing _ _) fun _ => ?_
  split
  next => exact .pure fun _ => id
  next =>
    dsimp only
    split
    next =>
      refine .ite (fun _ => ?_) fun _ => ?_
      next => exact failing _ _
      next => exact failing _ _
    next => exact failing _ _

variable [Zero δ] (stod : Bytes → Except Exn δ)
  {inv : List (ArgumentSpec δ × Bytes) → CommandLine δ → Prop}

theorem option_runs {done : List (ArgumentSpec δ × Bytes)} {spec : ArgumentSpec δ} {value : Bytes}
    {args more failed : List Bytes}
    (added : Runs (inv done) (addOption stod spec.name value spec)
      (fun ok s => ok = true → inv (done ++ [(spec, value)]) s) fun _ => True)
    (onwards : Runs (inv (done ++ [(spec, value)])) (parseOptions stod more)
      (fun ended s => ended.1 = true →
        inv (done ++ [(spec, value)] ++ given specs more) s ∧ ended.2 = positionalTokens specs more) fun _ => True)
    (scanned : scan specs args = ((spec, value) :: (scan specs more).1, (scan specs more).2)) :
    Runs (inv done)
      (do if ← addOption stod spec.name value spec then parseOptions stod more else return (false, failed))
      (fun ended s => ended.1 = true → inv (done ++ given specs args) s ∧ ended.2 = positionalTokens specs args)
      fun _ => True := by
  refine added.bind fun ok => ?_
  cases ok with
  | false => exact .pure fun _ _ => by simp
  | true =>
    unfold given positionalTokens at onwards ⊢
    rw [scanned]
    refine onwards.mono (fun s held => held rfl) fun ended s held returned => ?_
    rw [← List.append_cons] at held
    exact held returned

theorem parseOptions_runs (same : ∀ done s, inv done s → s.spec = specs) (silent : ∀ done, Silent (inv done))
    (added : ∀ done value, ∀ spec ∈ specs, Runs (inv done) (addOption stod spec.name value spec)
      (fun ok s => ok = true → inv (done ++ [(spec, value)]) s) fun _ => True) :
    (args : List Bytes) → (done : List (ArgumentSpec δ × Bytes)) → Runs (inv done) (parseOptions stod args)
      (fun ended s => ended.1 = true → inv (done ++ given specs args) s ∧ ended.2 = positionalTokens specs args)
      fun _ => True
  | [], done => .pure fun s start _ => ⟨by simpa [given, scan] using start, rfl⟩
  | currentArg :: rest, done => by
    unfold parseOptions
    refine .ite (fun short => ?_) fun long => .ite (fun empty => ?_) fun filled => .ite
      (fun positional => ?_) fun option => ?_
    next => exact ((silent done).read _ _).bind fun _ => (silent done).rejects _ _ _ (by simp)
    next => exact ((silent done).read _ _).bind fun _ => .throw fun _ _ => trivial
    next =>
      refine ((silent done).readyForPositionals currentArg rest).bind fun ready => ?_
      refine ((silent done).read _ _).bind fun _ => .pure fun s held _ => ?_
      unfold given positionalTokens
      rw [scan_positional rest positional.2, List.append_nil]
      exact ⟨held, rfl⟩
    next =>
      have second : charAt currentArg 1 = dash := by tauto
      refine .get fun s start => Runs.starting ?_ start
      rw [same done s start]
      refine ((silent done).read _ _).bind fun _ => ?_
      split
      next => exact (silent done).rejects _ _ _ (by simp)
      next spec found =>
        have member : spec ∈ specs := List.mem_of_find?_eq_some found
        have named : (currentArg.drop 2).takeWhile (· ≠ equals) = spec.name := by
          simpa [eq_comm] using List.find?_some found
        rw [named]
        refine .ite (fun separate => ?_) fun joined => ?_
        next =>
          cases rest with
          | nil => exact (silent done).rejects _ _ _ (by simp)
          | cons optionValue later =>
            refine .ite (fun another => (silent done).rejects _ _ _ (by simp)) fun _ => ?_
            have onwards := parseOptions_runs same silent added later (done ++ [(spec, optionValue)])
            exact option_runs stod (added done _ spec member) onwards
              (scan_separate optionValue later second found separate)
        next =>
          have onwards := parseOptions_runs same silent added rest
            (done ++ [(spec, ((currentArg.drop 2).dropWhile (· ≠ equals)).drop 1)])
          exact option_runs stod (added done _ spec member) onwards (scan_joined rest second found joined)

end Runs

end BuildboxCommon.CommandLine
