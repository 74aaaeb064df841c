import BuildboxCommon.NumberConversions

set_option autoImplicit false

namespace BuildboxCommon.Metrics

open ByteString Numerals NumberConversions

namespace MetricsConfigUtil

def colon : UInt8 := 58

def findLastOf (char : UInt8) (str : Bytes) : Option Nat :=
  if char ∈ str then some ((str.rdropWhile (· ≠ char)).length - 1) else none

structure HostPort where
  server : Bytes
  port : UInt16
deriving DecidableEq

def defaultPort : UInt16 := 8125

def parseHostPortString (nullOutput : Bool) (inputString : Bytes) : EStateM Exn HostPort Unit :=
  if nullOutput then throw (.invalidArgument (text "null pointer detected in output parameters"))
  else
    match findLastOf colon inputString with
    | none => set (⟨inputString, defaultPort⟩ : HostPort)
    | some splitAt =>
      if splitAt + 2 < inputString.length then
        match stoul (inputString.drop (splitAt + 1)) with
        | .error (.invalidArgument _) =>
          throw (.invalidArgument (text "Invalid port specified (cannot be parsed to int): '" ++
            inputString.drop (splitAt + 1) ++ text "'"))
        | .error e => throw e
        | .ok port =>
          -- The first narrowing comes before the comparison.
          let tmp := port % 2 ^ 32
          if 65535 < tmp then throw (.runtimeError (text "Invalid port specified (value too large): '" ++
            inputString.drop (splitAt + 1) ++ text "'"))
          else set (⟨inputString.take (min splitAt inputString.length), UInt16.ofNat tmp⟩ : HostPort)
      else set (⟨inputString.take (min splitAt inputString.length), defaultPort⟩ : HostPort)

def Digits (port : Bytes) : Prop := port ≠ [] ∧ ∀ char ∈ port, CommandLine.isDigit char = true

instance decidableDigits (port : Bytes) : Decidable (Digits port) :=
  decidable_of_iff (port ≠ [] ∧ port.all CommandLine.isDigit = true) (and_congr_right' List.all_eq_true)

structure Faithful (host port : Bytes) : Prop where
  yields : Digits port → CommandLine.decimal port ≤ 65535 → ∀ s,
    parseHostPortString false (host ++ colon :: port) s = .ok () ⟨host, UInt16.ofNat (CommandLine.decimal port)⟩
  default : port = [] → ∀ s, parseHostPortString false (host ++ colon :: port) s = .ok () ⟨host, defaultPort⟩
  refuses : Digits port → 65535 < CommandLine.decimal port → ∀ s,
    ∃ e, parseHostPortString false (host ++ colon :: port) s = .error e s ∧ e ≠ .undefined
  written : port ≠ [] → ∀ s s', parseHostPortString false (host ++ colon :: port) s = .ok () s' → s'.server = host ∧
    ∃ numeral rest, scan decimals port = some (numeral, rest) ∧ (s'.port.toNat : Int) = numeral.value

variable {host port : Bytes} {s : HostPort}

theorem findLastOf_append (host : Bytes) (plain : colon ∉ port) :
    findLastOf colon (host ++ colon :: port) = some host.length := by
  rw [findLastOf, if_pos (by simp), rdropWhile_separator host plain]
  simp

theorem parse_short (plain : colon ∉ port) (short : port.length ≤ 1) :
    parseHostPortString false (host ++ colon :: port) s = .ok () ⟨host, defaultPort⟩ := by
  have few : ¬host.length + 2 < (host ++ colon :: port).length := by
    rw [List.length_append, List.length_cons]
    omega
  simp only [parseHostPortString, findLastOf_append host plain, if_neg few, Bool.false_eq_true, if_false]
  simp
  rfl

theorem parse_long (plain : colon ∉ port) (long : 2 ≤ port.length) :
    parseHostPortString false (host ++ colon :: port) s = match stoul port with
      | .error (.invalidArgument _) =>
        .error (.invalidArgument (text "Invalid port specified (cannot be parsed to int): '" ++
          port ++ text "'")) s
      | .error e => .error e s
      | .ok number =>
        if 65535 < number % 2 ^ 32 then
          .error (.runtimeError (text "Invalid port specified (value too large): '" ++ port ++ text "'")) s
        else .ok () ⟨host, UInt16.ofNat (number % 2 ^ 32)⟩ := by
  have many : host.length + 2 < (host ++ colon :: port).length := by
    rw [List.length_append, List.length_cons]
    omega
  have rest : (host ++ colon :: port).drop (host.length + 1) = port := by
    simp
  have front : (host ++ colon :: port).take (min host.length (host ++ colon :: port).length) = host := by simp
  simp only [parseHostPortString, findLastOf_append host plain, if_pos many, Bool.false_eq_true, if_false, rest, front]
  cases stoul port with
  | error e => cases e <;> rfl
  | ok number =>
    simp only
    split_ifs <;> rfl

theorem parse_read (plain : colon ∉ port) (long : 2 ≤ port.length) {numeral : Numeral decimals} {rest : Bytes}
    (read : scan decimals port = some (numeral, rest)) : parseHostPortString false (host ++ colon :: port) s =
      if magnitude decimals numeral.digits < 2 ^ 64 then
        if 65535 < numeral.value % 2 ^ 32 then
          .error (.runtimeError (text "Invalid port specified (value too large): '" ++ port ++ text "'")) s
        else .ok () ⟨host, UInt16.ofNat (numeral.value % 2 ^ 32).toNat⟩
      else .error .outOfRange s := by
  rw [parse_long plain long, stoul, read]
  by_cases small : magnitude decimals numeral.digits < 2 ^ 64
  next =>
    have narrowed : (numeral.value % 2 ^ 64).toNat % 2 ^ 32 = (numeral.value % 2 ^ 32).toNat := by omega
    have large : 65535 < (numeral.value % 2 ^ 32).toNat ↔ 65535 < numeral.value % 2 ^ 32 := by omega
    simp only [if_pos small, narrowed, large]
  next => simp only [if_neg small]

theorem parse_unread (plain : colon ∉ port) (long : 2 ≤ port.length) (unread : scan decimals port = none) :
    parseHostPortString false (host ++ colon :: port) s =
      .error (.invalidArgument (text "Invalid port specified (cannot be parsed to int): '" ++ port ++ text "'")) s := by
  rw [parse_long plain long, stoul, unread]

theorem parse_digits (plain : colon ∉ port) (long : 2 ≤ port.length) (digits : Digits port) :
    parseHostPortString false (host ++ colon :: port) s =
      if CommandLine.decimal port < 2 ^ 64 then
        if 65535 < (CommandLine.decimal port : Int) % 2 ^ 32 then
          .error (.runtimeError (text "Invalid port specified (value too large): '" ++ port ++ text "'")) s
        else .ok () ⟨host, UInt16.ofNat ((CommandLine.decimal port : Int) % 2 ^ 32).toNat⟩
      else .error .outOfRange s :=
  parse_read plain long (scan_digits digits.2 digits.1)

structure Unmistaken (port : Bytes) : Prop where
  longer : port.length ≠ 1
  unwrapped : ∀ numeral rest, scan decimals port = some (numeral, rest) → magnitude decimals numeral.digits < 2 ^ 64 →
    numeral.value % 2 ^ 32 ≤ 65535 → 0 ≤ numeral.value ∧ numeral.value ≤ 65535

theorem digit_lt {char : UInt8} (digit : CommandLine.isDigit char = true) : char.toNat - 48 < 10 := by
  simp only [CommandLine.isDigit, decide_eq_true_eq, UInt8.le_iff_toNat_le] at digit
  have nine : (57 : UInt8).toNat = 57 := rfl
  omega

theorem value_single {char : UInt8} {numeral : Numeral decimals} {rest : Bytes}
    (read : scan decimals [char] = some (numeral, rest)) : numeral.value < 10 := by
  obtain ⟨parts, -⟩ := scan_iff.mp read
  obtain ⟨first, others, filled⟩ := List.exists_cons_of_ne_nil numeral.present
  have count := congrArg List.length parts
  simp only [Numeral.render, filled, List.length_append, List.length_cons, List.length_nil] at count
  obtain rfl : others = [] := List.eq_nil_of_length_eq_zero (by omega)
  have digit := digit_lt (numeral.numeric first (filled ▸ List.mem_cons_self))
  have value := numeral.natAbs_value
  rw [filled, magnitude_decimals, CommandLine.decimal, List.foldl_cons, List.foldl_nil] at value
  omega

theorem toNat_narrowed {value : Int} (narrow : value % 2 ^ 32 ≤ 65535) :
    ((UInt16.ofNat (value % 2 ^ 32).toNat).toNat : Int) = value % 2 ^ 32 := by
  rw [UInt16.toNat_ofNat_of_lt' (by rw [UInt16.size]; omega)]
  omega

theorem two_le_of_present (longer : port.length ≠ 1) (present : port ≠ []) : 2 ≤ port.length := by
  have filled := List.length_pos_iff.mpr present
  omega

namespace Faithful

theorem longer (faithful : Faithful host port) (plain : colon ∉ port) : port.length ≠ 1 := by
  intro single
  obtain ⟨char, rfl⟩ := List.length_eq_one_iff.mp single
  obtain ⟨-, numeral, rest, read, value⟩ := faithful.written (by simp) ⟨[], 0⟩ _ (parse_short plain single.le)
  have low := value_single read
  have default : (defaultPort.toNat : Int) = 8125 := rfl
  simp only at value
  omega

theorem unwrapped (faithful : Faithful host port) (plain : colon ∉ port) {numeral : Numeral decimals} {rest : Bytes}
    (read : scan decimals port = some (numeral, rest)) (small : magnitude decimals numeral.digits < 2 ^ 64)
    (narrow : numeral.value % 2 ^ 32 ≤ 65535) : 0 ≤ numeral.value ∧ numeral.value ≤ 65535 := by
  have present : port ≠ [] := by
    rw [(scan_iff.mp read).1]
    exact List.append_ne_nil_of_left_ne_nil numeral.render_ne_nil rest
  have long := two_le_of_present (faithful.longer plain) present
  have returned := @parse_read host port ⟨[], 0⟩ plain long numeral rest read
  rw [if_pos small, if_neg (not_lt.mpr narrow)] at returned
  obtain ⟨-, numeral', rest', read', value⟩ := faithful.written present _ _ returned
  obtain ⟨rfl, rfl⟩ := Prod.mk.inj (Option.some.inj (read.symm.trans read'))
  simp only [toNat_narrowed narrow] at value
  omega

end Faithful

namespace Unmistaken

theorem refuses (unmistaken : Unmistaken port) (plain : colon ∉ port) (digits : Digits port)
    (large : 65535 < CommandLine.decimal port) :
    ∃ e, parseHostPortString false (host ++ colon :: port) s = .error e s ∧ e ≠ .undefined := by
  rw [parse_digits plain (two_le_of_present unmistaken.longer digits.1) digits]
  split_ifs with small wraps
  next => exact ⟨_, rfl, nofun⟩
  next =>
    obtain ⟨-, high⟩ := unmistaken.unwrapped _ _ (scan_digits digits.2 digits.1) small (not_lt.mp wraps)
    have value : (CommandLine.decimal port : Int) ≤ 65535 := high
    omega
  next => exact ⟨_, rfl, nofun⟩

theorem written (unmistaken : Unmistaken port) (plain : colon ∉ port) (present : port ≠ []) {s' : HostPort}
    (returned : parseHostPortString false (host ++ colon :: port) s = .ok () s') : s'.server = host ∧
      ∃ numeral rest, scan decimals port = some (numeral, rest) ∧ (s'.port.toNat : Int) = numeral.value := by
  have long := two_le_of_present unmistaken.longer present
  cases read : scan decimals port with
  | none =>
    rw [parse_unread plain long read] at returned
    cases returned
  | some parts =>
    rw [parse_read plain long read] at returned
    split_ifs at returned with small large
    cases returned
    have narrow := not_lt.mp large
    obtain ⟨low, high⟩ := unmistaken.unwrapped parts.1 parts.2 read small narrow
    refine ⟨rfl, parts.1, parts.2, rfl, ?_⟩
    simp only [toNat_narrowed narrow]
    omega

end Unmistaken

theorem parseHostPortString_faithful_iff (host : Bytes) (plain : colon ∉ port) :
    Faithful host port ↔ Unmistaken port := by
  constructor
  next =>
    intro faithful
    exact ⟨faithful.longer plain, fun _ _ read small narrow => faithful.unwrapped plain read small narrow⟩
  next =>
    intro unmistaken
    refine ⟨fun digits small s => ?_, fun empty s => ?_, fun digits large s => unmistaken.refuses plain digits large,
      fun present s s' returned => unmistaken.written plain present returned⟩
    next =>
      have long := two_le_of_present unmistaken.longer digits.1
      have narrowed : ((CommandLine.decimal port : Int) % 2 ^ 32).toNat = CommandLine.decimal port := by omega
      rw [parse_digits plain long digits, if_pos (by omega), if_neg (by omega), narrowed]
    next => exact parse_short plain (empty ▸ Nat.zero_le 1)

theorem parseHostPortString_localhost : Faithful (text "localhost") (text "80") := by
  refine (parseHostPortString_faithful_iff (text "localhost") (by decide)).mpr
    ⟨by decide, fun numeral rest read _ _ => ?_⟩
  have digits : Digits (text "80") := by decide
  obtain ⟨rfl, rfl⟩ := Prod.mk.inj (Option.some.inj ((scan_digits digits.2 digits.1).symm.trans read))
  have number : CommandLine.decimal (text "80") = 80 := by decide
  show 0 ≤ (CommandLine.decimal (text "80") : Int) ∧ (CommandLine.decimal (text "80") : Int) ≤ 65535
  rw [number]
  decide

theorem parseHostPortString_mistaken :
    (parseHostPortString false (text "localhost:1") ⟨[], 0⟩ = .ok () ⟨text "localhost", 8125⟩ ∧
      parseHostPortString false (text "localhost:4294967297") ⟨[], 0⟩ = .ok () ⟨text "localhost", 1⟩) ∧
      ¬Faithful (text "localhost") (text "1") ∧ ¬Faithful (text "localhost") (text "4294967297") := by
  have short : parseHostPortString false (text "localhost:1") ⟨[], 0⟩ = .ok () ⟨text "localhost", 8125⟩ := by rfl
  have wrapped : parseHostPortString false (text "localhost:4294967297") ⟨[], 0⟩ =
    .ok () ⟨text "localhost", 1⟩ := by rfl
  refine ⟨⟨short, wrapped⟩, fun faithful => ?_, fun faithful => ?_⟩
  next =>
    have yields := faithful.yields (by decide) (by decide) ⟨[], 0⟩
    have same := (EStateM.Result.ok.inj (short.symm.trans yields)).2
    exact absurd (congrArg HostPort.port same) (by decide)
  next =>
    obtain ⟨e, refused, -⟩ := faithful.refuses (by decide) (by decide) ⟨[], 0⟩
    cases wrapped.symm.trans refused

end MetricsConfigUtil

end BuildboxCommon.Metrics
