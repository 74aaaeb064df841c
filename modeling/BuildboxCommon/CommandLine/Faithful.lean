import BuildboxCommon.CommandLine.Vectors

set_option autoImplicit false

namespace BuildboxCommon.CommandLine

open ByteString CommandLineTypes Effect

variable {δ : Type}

section Texts

def signless (text : Bytes) : Bytes := if text.head? = some 43 ∨ text.head? = some dash then text.tail else text

structure Decimal (text : Bytes) (value : Int) : Prop where
  filled : signless text ≠ []
  digits : ∀ char ∈ signless text, isDigit char
  spelled : value = if text.head? = some dash then -(decimal (signless text) : Int) else decimal (signless text)
  range : -2 ^ 31 ≤ value ∧ value < 2 ^ 31

def Answers (entry : ArgumentSpec δ × Bytes) (answer : Bool) : Prop :=
  if answer then entry.2 = text "true" ∨ entry.2 = [] ∧ entry.1.constraint = .withoutArg else entry.2 = text "false"

structure SplitAt (text : Bytes) (pair : Bytes × Bytes) : Prop where
  joined : text = pair.1 ++ equals :: pair.2
  first : equals ∉ pair.1
  filled : pair.1 ≠ [] ∧ pair.2 ≠ []

def Represents (entry : ArgumentSpec δ × Bytes) (value : DefaultValue δ) : Prop :=
  match entry.1.dataType with
  | .string => value = .string entry.2
  | .int => ∃ number, Decimal entry.2 number ∧ value = .int number
  | .bool => ∃ answer, Answers entry answer ∧ value = .bool answer
  | _ => True

def Representable (entry : ArgumentSpec δ × Bytes) : Prop :=
  (∃ value : DefaultValue δ, Represents entry value) ∧
    (entry.1.dataType = .stringPairArray → ∃ pair, SplitAt entry.2 pair)

def Spotless (entry : ArgumentSpec δ × Bytes) : Prop :=
  match entry.1.dataType with
  | .int => ∀ char ∈ signless entry.2, isDigit char
  | .bool => entry.2 = text "true" ∨ entry.2 = text "false" ∨ entry.2 = [] ∧ entry.1.constraint = .withoutArg
  | .stringPairArray => (split entry.2 equals).1 = true
  | _ => True

def Converts (entry : ArgumentSpec δ × Bytes) : Prop :=
  entry.1.dataType = .int → ∃ value, stoi (cString entry.2) = .ok value

theorem digit_not_other {char : UInt8} (digit : isDigit char) : char ≠ nul ∧ isSpace char = false := by
  simp only [isDigit, decide_eq_true_eq, UInt8.le_iff_toNat_le] at digit
  constructor
  next =>
    rintro rfl
    exact absurd digit (by decide)
  next =>
    simp only [isSpace, decide_eq_false_iff_not, UInt8.le_iff_toNat_le, not_or, not_and, ← UInt8.toNat_inj]
    have low : (48 : UInt8).toNat = 48 := rfl
    have space : (32 : UInt8).toNat = 32 := rfl
    have tab : (9 : UInt8).toNat = 9 := rfl
    have ret : (13 : UInt8).toNat = 13 := rfl
    omega

theorem plain_number {text : Bytes} (digits : ∀ char ∈ signless text, isDigit char) :
    ∀ char ∈ text, char ≠ nul ∧ isSpace char = false := by
  intro char member
  by_cases sign : text.head? = some 43 ∨ text.head? = some dash
  next =>
    unfold signless at digits
    rw [if_pos sign] at digits
    cases text with
    | nil => cases member
    | cons first rest =>
      rcases List.mem_cons.mp member with rfl | later
      next =>
        simp only [List.head?_cons, Option.some.injEq] at sign
        rcases sign with rfl | rfl <;> decide
      next => exact digit_not_other (digits char later)
  next =>
    unfold signless at digits
    rw [if_neg sign] at digits
    exact digit_not_other (digits char member)

theorem decimal_of_stoi {text : Bytes} {value : Int} (digits : ∀ char ∈ signless text, isDigit char)
    (converted : stoi (cString text) = .ok value) : Decimal text value := by
  have plain := plain_number digits
  have whole : cString text = text := cString_of_nulFree fun member => (plain nul member).1 rfl
  have trimmed : text.dropWhile isSpace = text := by
    cases text with
    | nil => rfl
    | cons first rest => rw [List.dropWhile_cons_of_neg (by simp [(plain first List.mem_cons_self).2])]
  have all : (signless text).takeWhile isDigit = signless text := List.takeWhile_eq_self_iff.mpr digits
  have same : (if text.head? = some 43 ∨ text.head? = some dash then text.tail else text) = signless text := rfl
  rw [whole] at converted
  unfold stoi at converted
  simp only [trimmed, same, all] at converted
  generalize number : (if text.head? = some dash then -(decimal (signless text) : Int)
    else decimal (signless text)) = result at converted
  by_cases empty : signless text = []
  next =>
    rw [if_pos empty] at converted
    cases converted
  next =>
    rw [if_neg empty] at converted
    by_cases outside : result < -2 ^ 31 ∨ 2 ^ 31 ≤ result
    next =>
      rw [if_pos outside] at converted
      cases converted
    next =>
      rw [if_neg outside] at converted
      obtain rfl := Except.ok.inj converted
      exact ⟨empty, digits, number.symm, by omega⟩

theorem splitAt_iff (text : Bytes) (pair : Bytes × Bytes) :
    SplitAt text pair ↔ (split text equals).1 = true ∧ pair = pairOf text := by
  constructor
  next =>
    intro splits
    obtain ⟨name, behind⟩ := cut_at_equals splits.first pair.2
    have present : equals ∈ text := by simp [splits.joined]
    rw [← splits.joined] at name behind
    simp only [pairOf, split, if_pos present, name, behind, List.drop_succ_cons, List.drop_zero]
    exact ⟨decide_eq_true splits.filled, trivial⟩
  next =>
    rintro ⟨accepted, rfl⟩
    have present : equals ∈ text := by
      by_contra absent
      simp [split, if_neg absent] at accepted
    have parts : text.takeWhile (· ≠ equals) ++ text.dropWhile (· ≠ equals) = text := List.takeWhile_append_dropWhile
    simp only [pairOf, split, if_pos present, decide_eq_true_eq] at accepted ⊢
    cases behind : text.dropWhile (· ≠ equals) with
    | nil =>
      rw [behind] at accepted
      exact absurd rfl accepted.2
    | cons first value =>
      have ended := List.head?_dropWhile_not (· ≠ equals) text
      rw [behind] at ended
      obtain rfl : first = equals := by simpa using ended
      rw [behind] at parts accepted
      refine ⟨parts.symm, fun member => ?_, accepted⟩
      simpa using List.mem_takeWhile_imp member

variable {entry : ArgumentSpec δ × Bytes}

theorem represents_conversion (spotless : Spotless entry) (converts : Converts entry) :
    Represents entry (conversion entry) := by
  unfold Spotless at spotless
  unfold Represents conversion
  cases kind : entry.1.dataType with
  | string => rfl
  | int =>
    rw [kind] at spotless
    obtain ⟨value, read⟩ := converts kind
    simp only [read]
    exact ⟨value, decimal_of_stoi spotless read, rfl⟩
  | bool =>
    rw [kind] at spotless
    have apart : text "false" ≠ text "true" ∧ text "false" ≠ [] := by decide
    rcases spotless with same | same | bare
    next => exact ⟨true, .inl same, by simp [same]⟩
    next => exact ⟨false, same, by simp [same, apart]⟩
    next => exact ⟨true, .inr bare, by simp [bare]⟩
  | double => trivial
  | stringArray => trivial
  | stringPairArray => trivial
  | unknown => trivial

theorem representable_iff (converts : Converts entry) : Representable entry ↔ Spotless entry := by
  constructor
  next =>
    rintro ⟨⟨value, represents⟩, pairs⟩
    unfold Represents at represents
    unfold Spotless
    cases kind : entry.1.dataType with
    | int =>
      rw [kind] at represents
      obtain ⟨number, decimal, -⟩ := represents
      exact decimal.digits
    | bool =>
      rw [kind] at represents
      obtain ⟨answer, answers, -⟩ := represents
      cases answer with
      | false => exact .inr (.inl answers)
      | true => exact answers.imp_right .inr
    | stringPairArray =>
      obtain ⟨pair, splits⟩ := pairs kind
      exact ((splitAt_iff _ _).mp splits).1
    | string => trivial
    | double => trivial
    | stringArray => trivial
    | unknown => trivial
  next =>
    intro spotless
    refine ⟨⟨_, represents_conversion spotless converts⟩, fun kind => ⟨_, (splitAt_iff _ _).mpr ⟨?_, rfl⟩⟩⟩
    unfold Spotless at spotless
    rwa [kind] at spotless

end Texts

section Parser

variable [Zero δ] {stod : Bytes → Except Exn δ} {specs : List (ArgumentSpec δ)} {before : Nat → ArgumentValue δ}
  {argv : List Bytes} {s : CommandLine δ}

omit [Zero δ] in
theorem Built.converts {entry : ArgumentSpec δ × Bytes} {value : ArgumentValue δ} {s s' : CommandLine δ}
    (built : Built s entry value s') : Converts entry := by
  intro kind
  have converted := built.value
  unfold scalar conversion at converted
  rw [kind] at converted
  cases read : stoi (cString entry.2) with
  | ok number => exact ⟨number, rfl⟩
  | error e =>
    rw [read] at converted
    cases converted

theorem parse_converts (parsed : parse stod argv (create specs before) = .ok true s) :
    ∀ entry ∈ texts specs argv.tail, Converts entry := by
  have built (done : List (ArgumentSpec δ × Bytes)) (spec : ArgumentSpec δ) (text : Bytes) :
      Runs (fun s => s.spec = specs ∧ ∀ entry ∈ done, Converts entry) (buildArgumentValue stod text spec)
        (fun result s => ∀ value, result = some value →
          s.spec = specs ∧ ∀ entry ∈ done ++ [(spec, text)], Converts entry) fun _ => True := by
    intro s held
    have built := buildArgumentValue_built stod text spec s s rfl
    cases run : buildArgumentValue stod text spec s with
    | error e s' => trivial
    | ok result s' =>
      rw [run] at built
      intro value same
      have built := built value same
      refine ⟨built.spec.trans held.1, fun entry member => ?_⟩
      rcases List.mem_append.mp member with earlier | here
      next => exact held.2 entry earlier
      next => exact List.mem_singleton.mp here ▸ built.converts
  refine (parse_invariant (fun _ _ held => held.1) (fun _ _ _ _ _ held => held) (fun _ _ held => held)
    (fun _ _ _ _ _ held => held) (fun done value spec _ => ?_) (fun done spec => ?_)
    (fun done spec positional _ => built done spec positional) (fun _ => ⟨rfl, by simp⟩) parsed).2
  next =>
    refine (built done spec value).bind fun result => ?_
    cases result with
    | none => exact .pure fun _ _ => by simp
    | some argumentValue => exact fun s held _ => held argumentValue rfl
  next =>
    intro s held
    have kept := @applyDefaultValue_keeps δ (fun listed _ => listed = specs) _ spec s held.1
    cases run : applyDefaultValue spec s with
    | error e s' => trivial
    | ok ok s' =>
      rw [run] at kept
      exact ⟨kept.2, held.2⟩

variable (specs before argv s)

def Pairs (texts : List Bytes) (pairs : List (Bytes × Bytes)) : Prop := List.Forall₂ SplitAt texts pairs

structure Faithful : Prop where
  representable : ∀ entry ∈ texts specs argv.tail, Representable entry
  stored : ∀ name entry, (given specs argv.tail).find? (fun entry => entry.1.name = name) = some entry →
    ∃ value, (OrderedEntries.get name s.parsedArgs).map (fun stored => scalar stored.argumentValue entry.1.dataType) =
      some value ∧ Represents entry value
  bound : ∀ dataType address entry, (texts specs argv.tail).reverse.find? (fun entry =>
    entry.1.typeInfo = ⟨dataType, some address⟩) = some entry → Represents entry (scalar (s.bound address) dataType)
  storedPairs : ∀ entry ∈ given specs argv.tail,
    Pairs (((texts specs argv.tail).filter fun other =>
      other.1.name = entry.1.name ∧ other.1.dataType = .stringPairArray).map Prod.snd) (getVPS s entry.1.name [])
  boundPairs : ∀ address, ∃ pairs, (s.bound address).vps = (before address).vps ++ pairs ∧
    Pairs (((texts specs argv.tail).filter fun entry =>
      entry.1.typeInfo = ⟨.stringPairArray, some address⟩).map Prod.snd) pairs

variable {specs before argv s}

omit [Zero δ] in
theorem pairs_of_spotless {entries : List (ArgumentSpec δ × Bytes)}
    (typed : ∀ entry ∈ entries, entry.1.dataType = .stringPairArray) (spotless : ∀ entry ∈ entries, Spotless entry) :
    Pairs (entries.map Prod.snd) ((entries.map Prod.snd).map pairOf) := by
  refine List.forall₂_map_right_iff.mpr (List.forall₂_same.mpr fun text member => ?_)
  obtain ⟨entry, listed, rfl⟩ := List.mem_map.mp member
  have accepted := spotless entry listed
  unfold Spotless at accepted
  rw [typed entry listed] at accepted
  exact (splitAt_iff _ _).mpr ⟨accepted, rfl⟩

omit [Zero δ] in
theorem pairs_of_name (entries : List (ArgumentSpec δ × Bytes)) (name : Bytes) :
    (collected (entries.filter fun entry => entry.1.name = name)).2 =
      ((entries.filter fun entry =>
        entry.1.name = name ∧ entry.1.dataType = .stringPairArray).map Prod.snd).map pairOf := by
  have typed : (entries.filter fun entry => entry.1.name = name ∧ entry.1.dataType = .stringPairArray) =
      (entries.filter fun entry => entry.1.name = name).filter fun entry => entry.1.dataType = .stringPairArray := by
    rw [List.filter_filter]
    refine List.filter_congr fun entry _ => ?_
    rw [← Bool.decide_and, decide_eq_decide]
    exact and_comm
  rw [typed, List.map_map]
  rfl

omit [Zero δ] in
theorem pairs_of_variable (entries : List (ArgumentSpec δ × Bytes)) (address : Nat) :
    (collected (entries.filter fun entry => entry.1.typeInfo.bindable = some address)).2 =
      ((entries.filter fun entry => entry.1.typeInfo = ⟨.stringPairArray, some address⟩).map Prod.snd).map pairOf := by
  have typed : (entries.filter fun entry => entry.1.typeInfo = ⟨.stringPairArray, some address⟩) =
      (entries.filter fun entry => entry.1.typeInfo.bindable = some address).filter
        fun entry => entry.1.dataType = .stringPairArray := by
    rw [List.filter_filter]
    refine List.filter_congr fun entry _ => ?_
    rw [← Bool.decide_and, decide_eq_decide]
    exact ⟨fun same => ⟨congrArg TypeInfo.dataType same, congrArg TypeInfo.bindable same⟩,
      fun both => congrArg₂ TypeInfo.mk both.1 both.2⟩
  rw [typed, List.map_map]
  rfl

theorem parse_faithful_iff (parsed : parse stod argv (create specs before) = .ok true s) :
    Faithful specs before argv s ↔ ∀ entry ∈ texts specs argv.tail, Spotless entry := by
  have passes := parse_passes parsed
  have converts := parse_converts parsed
  constructor
  next =>
    intro faithful entry member
    exact (representable_iff (converts entry member)).mp (faithful.representable entry member)
  next =>
    intro spotless
    have represents (entry : ArgumentSpec δ × Bytes) (member : entry ∈ texts specs argv.tail) :
        Represents entry (conversion entry) := represents_conversion (spotless entry member) (converts entry member)
    have option {entry : ArgumentSpec δ × Bytes} (member : entry ∈ given specs argv.tail) :
        entry ∈ texts specs argv.tail := List.mem_append_left _ member
    refine ⟨fun entry member => (representable_iff (converts entry member)).mpr (spotless entry member),
      fun name entry first => ?_, fun dataType address entry last => ?_, fun entry member => ?_, fun address => ?_⟩
    next =>
      exact ⟨_, passes.stored_given first, represents entry (option (List.mem_of_find?_eq_some first))⟩
    next =>
      rw [passes.bound, assigned, last]
      exact represents entry (List.mem_reverse.mp (List.mem_of_find?_eq_some last))
    next =>
      have stored : getVPS s entry.1.name [] = _ :=
        congrArg Prod.snd ((parse_gathers parsed).stored entry.1.name (.inr (passes.isSome_given member)))
      rw [stored, pairs_of_name]
      refine pairs_of_spotless (fun other listed => ?_) fun other listed => spotless other (List.mem_filter.mp listed).1
      exact (of_decide_eq_true (List.mem_filter.mp listed).2).2
    next =>
      refine ⟨_, congrArg Prod.snd ((parse_gathers parsed).bound address), ?_⟩
      rw [pairs_of_variable]
      refine pairs_of_spotless (fun entry listed => ?_) fun entry listed => spotless entry (List.mem_filter.mp listed).1
      have typed := of_decide_eq_true (List.mem_filter.mp listed).2
      rw [ArgumentSpec.dataType, typed]

end Parser

section Samples

def platformSpec : ArgumentSpec Int := ⟨text "platform", [], ⟨.stringPairArray, none⟩, .optional, .withArg, .none⟩

def flagSpec : ArgumentSpec Int := ⟨text "flag", [], ⟨.bool, none⟩, .optional, .withArg, .none⟩

def valuesAfter : EStateM.Result Exn (CommandLine Int) Bool → Option (List (Bytes × Bytes) × Option Int × Option Bool)
  | .ok true s =>
    some (getVPS s (text "platform") [], (getInt s (text "level")).toOption, (getBool s (text "flag")).toOption)
  | _ => none

theorem of_valuesAfter {ended : EStateM.Result Exn (CommandLine Int) Bool} {pairs : List (Bytes × Bytes)}
    {number : Option Int} {answer : Option Bool} (after : valuesAfter ended = some (pairs, number, answer)) :
    ∃ s, ended = .ok true s ∧ getVPS s (text "platform") [] = pairs ∧ (getInt s (text "level")).toOption = number ∧
      (getBool s (text "flag")).toOption = answer := by
  unfold valuesAfter at after
  split at after
  next s =>
    obtain ⟨first, rest⟩ := Prod.mk.inj (Option.some.inj after)
    obtain ⟨second, third⟩ := Prod.mk.inj rest
    exact ⟨s, rfl, first, second, third⟩
  next => cases after

theorem parse_faithful_iff_platform : ∃ s,
    parse noDouble [text "tool", text "--platform=ISA=x86"] (create [platformSpec] fun _ => .initial) = .ok true s ∧
    (Faithful [platformSpec] (fun _ => .initial) [text "tool", text "--platform=ISA=x86"] s ↔
      ∀ entry ∈ texts [platformSpec] [text "--platform=ISA=x86"], Spotless entry) := by
  have run : valuesAfter (parse noDouble [text "tool", text "--platform=ISA=x86"]
      (create [platformSpec] fun _ => .initial)) = some ([(text "ISA", text "x86")], none, none) := by decide +kernel
  obtain ⟨s, parsed, -⟩ := of_valuesAfter run
  exact ⟨s, parsed, parse_faithful_iff parsed⟩

theorem unrepresentable_accepted : ∃ s,
    parse noDouble [text "tool", text "--platform=ab", text "--level=12abc", text "--flag=yes"]
      (create [platformSpec, levelSpec, flagSpec] fun _ => .initial) = .ok true s ∧
    getVPS s (text "platform") [] = [([], [])] ∧ (getInt s (text "level")).toOption = some 12 ∧
    (getBool s (text "flag")).toOption = some false ∧
    ¬Faithful [platformSpec, levelSpec, flagSpec] (fun _ => .initial)
      [text "tool", text "--platform=ab", text "--level=12abc", text "--flag=yes"] s := by
  have run : valuesAfter (parse noDouble [text "tool", text "--platform=ab", text "--level=12abc", text "--flag=yes"]
      (create [platformSpec, levelSpec, flagSpec] fun _ => .initial)) = some ([([], [])], some 12, some false) := by
    decide +kernel
  obtain ⟨s, parsed, pairs, number, answer⟩ := of_valuesAfter run
  refine ⟨s, parsed, pairs, number, answer, fun faithful => ?_⟩
  have listed : (platformSpec, text "ab") ∈ texts [platformSpec, levelSpec, flagSpec]
      [text "--platform=ab", text "--level=12abc", text "--flag=yes"] := by decide +kernel
  obtain ⟨pair, splits⟩ := (faithful.representable _ listed).2 rfl
  have present : equals ∈ pair.1 ++ equals :: pair.2 := by simp
  rw [← splits.joined] at present
  exact absurd present (by decide)

end Samples

end BuildboxCommon.CommandLine
