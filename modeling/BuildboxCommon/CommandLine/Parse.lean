import BuildboxCommon.CommandLine.CommandLineTypes
import BuildboxCommon.Shared.Effect
import BuildboxCommon.Shared.OrderedEntries
import Mathlib.Algebra.Order.Ring.Int

set_option autoImplicit false

namespace BuildboxCommon

open ByteString CommandLineTypes Effect

structure ArgumentMetaData (δ : Type) where
  argumentValue : ArgumentValue δ
  spec : ArgumentSpec δ

inductive CommandLine.Reading (δ : Type) where
  | short
  | positional (ready : Bool)
  | option (name : Bytes) (found : Option (ArgumentSpec δ))
  -- An empty token is read behind its end.
  | outside

-- The readings are a record of the option phase that the code does not keep.
structure CommandLine (δ : Type) where
  spec : List (ArgumentSpec δ)
  parsedArgs : List (Bytes × ArgumentMetaData δ)
  processName : Bytes
  idxLastPositionalFound : Nat
  bound : Nat → ArgumentValue δ
  out : Bytes
  readings : List (Bytes × CommandLine.Reading δ)

namespace CommandLine

def dash : UInt8 := 45
def equals : UInt8 := 61
def newline : UInt8 := 10

-- One behind its end a string has a NUL byte.
def charAt (str : Bytes) (pos : Nat) : UInt8 := str.getD pos nul

def isSpace (char : UInt8) : Bool := char = 32 ∨ (9 ≤ char ∧ char ≤ 13)

def isDigit (char : UInt8) : Bool := 48 ≤ char ∧ char ≤ 57

def decimal (digits : Bytes) : Nat := digits.foldl (fun value digit => 10 * value + (digit.toNat - 48)) 0

def stoi (str : Bytes) : Except Exn Int :=
  let trimmed := str.dropWhile isSpace
  let unsigned := if trimmed.head? = some 43 ∨ trimmed.head? = some dash then trimmed.tail else trimmed
  let digits := unsigned.takeWhile isDigit
  let value : Int := if trimmed.head? = some dash then -decimal digits else decimal digits
  if digits = [] then .error (.invalidArgument (text "stoi"))
  else if value < -2 ^ 31 ∨ 2 ^ 31 ≤ value then .error .outOfRange
  else .ok value

def split (str : Bytes) (delim : UInt8) : Bool × Bytes × Bytes :=
  if delim ∈ str then
    let s1 := str.takeWhile (· ≠ delim)
    let s2 := (str.dropWhile (· ≠ delim)).drop 1
    (s1 ≠ [] ∧ s2 ≠ [], s1, s2)
  else (false, [], [])

def linePrefix (lineNumber : Nat) : Bytes :=
  text "[buildboxcommon_commandline.cpp:" ++ text (toString lineNumber) ++ text "]"

variable {δ : Type}

section Specification

variable (specs : List (ArgumentSpec δ))

def existsInSpec (argvArg : Bytes) : Bool := specs.any fun spec => spec.name = argvArg

def findOptionSpecByName (argvArg : Bytes) : Option (ArgumentSpec δ) := specs.find? fun spec => spec.name = argvArg

def nextPositionalSpec (idx : Nat) : List (ArgumentSpec δ) → Nat × Option (ArgumentSpec δ)
  | [] => (idx, none)
  | spec :: rest => if spec.name = [] then (idx + 1, some spec) else nextPositionalSpec (idx + 1) rest

end Specification

abbrev Parsing (δ α : Type) := EStateM Exn (CommandLine δ) α

def print (message : Bytes) : Parsing δ Unit := modify fun s => { s with out := s.out ++ message }

def parseError (lineNumber : Nat) (message : Bytes) : Parsing δ Unit :=
  print (linePrefix lineNumber ++ text ": parse error: " ++ message ++ [newline])

def read (token : Bytes) (reading : Reading δ) : Parsing δ Unit :=
  modify fun s => { s with readings := s.readings ++ [(token, reading)] }

def findNextPositionalSpec : Parsing δ (Option (ArgumentSpec δ)) := do
  let s ← get
  let (idx, found) := nextPositionalSpec s.idxLastPositionalFound (s.spec.drop s.idxLastPositionalFound)
  set { s with idxLastPositionalFound := idx }
  return found

def assign (spec : ArgumentSpec δ) (change : ArgumentValue δ → ArgumentValue δ) : Parsing δ Unit :=
  match spec.typeInfo.bindable with
  | none => return ()
  | some address => modify fun s =>
    { s with bound := fun other => if other = address then change (s.bound other) else s.bound other }

def converted {α : Type} (optionValue : Bytes) (spec : ArgumentSpec δ) : Except Exn α → Parsing δ (Option α)
  | .ok val => return some val
  | .error (.invalidArgument _) => do
    print (linePrefix 235 ++ text ": invalid_argument error caught converting argument \"" ++ optionValue ++
      text "\" to " ++ (if spec.dataType = .double then text "double" else text "int") ++ [newline])
    return none
  | .error .outOfRange => do
    print (linePrefix 244 ++ text ": out_of_range error caught converting argument \"" ++ optionValue ++
      text "\" to " ++ (if spec.dataType = .double then text "double" else text "int") ++ [newline])
    return none
  | .error e => throw e

section Parser

variable [Zero δ] (stod : Bytes → Except Exn δ)

-- An option that is there already gets its value appended in place.
def collect (spec : ArgumentSpec δ) (append : ArgumentValue δ → ArgumentValue δ) :
    Parsing δ (Option (ArgumentValue δ)) := do
  let s ← get
  match OrderedEntries.get spec.name s.parsedArgs with
  | none =>
    assign spec append
    return some (append .initial)
  | some stored =>
    let appended := { stored with argumentValue := append stored.argumentValue }
    set { s with parsedArgs := OrderedEntries.alter spec.name (fun _ => appended) s.parsedArgs }
    assign spec append
    return some .initial

def buildArgumentValue (optionValue : Bytes) (spec : ArgumentSpec δ) : Parsing δ (Option (ArgumentValue δ)) :=
  match spec.dataType with
  | .string => do
    assign spec fun value => { value with str := optionValue }
    return some { (.initial : ArgumentValue δ) with str := optionValue }
  | .int => do
    match ← converted optionValue spec (stoi (cString optionValue)) with
    | none => return none
    | some val =>
      assign spec fun value => { value with int := val }
      return some { (.initial : ArgumentValue δ) with int := val }
  | .double => do
    match ← converted optionValue spec (stod (cString optionValue)) with
    | none => return none
    | some val =>
      assign spec fun value => { value with double := val }
      return some { (.initial : ArgumentValue δ) with double := val }
  | .bool => do
    let tmpVal := if optionValue = [] ∧ spec.constraint = .withoutArg then text "true" else optionValue
    let val : Bool := tmpVal = text "true"
    assign spec fun value => { value with bool := some val }
    return some { (.initial : ArgumentValue δ) with bool := some val }
  | .stringArray => collect spec fun value => { value with vs := value.vs ++ [optionValue] }
  | .stringPairArray =>
    let pair := (split optionValue equals).2
    collect spec fun value => { value with vps := value.vps ++ [pair] }
  | .unknown => throw (.runtimeError (text "unexpected type encountered: COMMANDLINE_DT_UNKNOWN"))

def emplace (name : Bytes) (argumentValue : ArgumentValue δ) (spec : ArgumentSpec δ) : Parsing δ Unit :=
  modify fun s =>
    let parsedArgs := OrderedEntries.alter name (fun stored => stored.getD ⟨argumentValue, spec⟩) s.parsedArgs
    { s with parsedArgs := parsedArgs }

def validateRequiredArgs (s : CommandLine δ) : Option Bytes :=
  let missing := s.spec.filter fun spec =>
    spec.name ≠ [] ∧ spec.isRequired ∧ OrderedEntries.get spec.name s.parsedArgs = none
  let filler := List.replicate ((linePrefix 543).length + 2) 32
  if missing = [] then none
  else some (s.processName ++ text ": " ++ text (toString missing.length) ++ text " required argument(s) missing\n" ++
    missing.flatMap fun spec => filler ++ text "\"--" ++ spec.name ++ text "\"\n")

def readyForPositionals (currentArg : Bytes) (later : List Bytes) : Parsing δ Bool := do
  let s ← get
  if existsInSpec s.spec currentArg then
    parseError 446 (text "long option format is required for argument \"" ++ currentArg ++ text "\"")
    return false
  else
    match validateRequiredArgs s with
    | none => return true
    | some errorMsg =>
      match later with
      | nextArg :: _ =>
        if charAt nextArg 0 = dash ∧ charAt nextArg 1 = dash then
          parseError 468 (text "positional arguments must come after options")
        else parseError 474 errorMsg
      | [] => parseError 480 errorMsg
      return false

def addOption (optionName optionValue : Bytes) (spec : ArgumentSpec δ) : Parsing δ Bool := do
  match ← buildArgumentValue stod optionValue spec with
  | none => return false
  | some argumentValue =>
    emplace optionName argumentValue spec
    return true

def parseOptions : List Bytes → Parsing δ (Bool × List Bytes)
  | [] => return (true, [])
  | currentArg :: rest => do
    if charAt currentArg 0 = dash ∧ charAt currentArg 1 ≠ dash then
      read currentArg .short
      parseError 264 (text "unrecognized short option format for argument \"" ++ currentArg ++ text "\"")
      return (false, currentArg :: rest)
    else if currentArg = [] then
      read currentArg .outside
      throw .undefined
    else if charAt currentArg 0 ≠ dash ∧ charAt currentArg 1 ≠ dash then
      let ready ← readyForPositionals currentArg rest
      read currentArg (.positional ready)
      return (ready, currentArg :: rest)
    else
      -- Not only a token that starts with two dashes gets here.
      let option := currentArg.drop 2
      let optionName := option.takeWhile (· ≠ equals)
      let s ← get
      read currentArg (.option optionName (findOptionSpecByName s.spec optionName))
      match findOptionSpecByName s.spec optionName with
      | none =>
        parseError 296 (text "option \"" ++ optionName ++ text "\" not part of argument specification")
        return (false, currentArg :: rest)
      | some spec =>
        if spec.hasArgument ∧ equals ∉ option then
          match rest with
          | [] =>
            parseError 306 (text "option \"" ++ optionName ++
              text "\" is configured to accept an argument but none was provided")
            return (false, [currentArg])
          | optionValue :: later =>
            if charAt optionValue 0 = dash ∧ charAt optionValue 1 = dash then
              parseError 319 (text "option \"" ++ optionName ++
                text "\" is configured to accept an argument but none was provided")
              return (false, optionValue :: later)
            else if ← addOption stod optionName optionValue spec then parseOptions later
            else return (false, optionValue :: later)
        else if ← addOption stod optionName ((option.dropWhile (· ≠ equals)).drop 1) spec then parseOptions rest
        else return (false, currentArg :: rest)

def applyDefaultValue (spec : ArgumentSpec δ) : Parsing δ Bool := do
  let s ← get
  if spec.name = [] then return true
  else if spec.isRequired ∧ spec.hasDefaultValue then
    parseError 352 (text "option \"" ++ spec.name ++
      text ("\" is specified as REQUIRED and is specifying a default value which is not allowed" ++
        "(only optional arguments are allowed default values), please fix the specification"))
    return false
  else if (OrderedEntries.get spec.name s.parsedArgs).isSome then return true
  else if !spec.hasDefaultValue then return true
  else if spec.dataType ≠ spec.defaultValue.dataType then
    parseError 372 (text "option \"" ++ spec.name ++ text "\" is specified as type " ++
      text (toString spec.dataType.number) ++ text " but the default value is specified with type " ++
      text (toString spec.defaultValue.dataType.number) ++ text ", please fix the specification")
    return false
  else
    let argumentValue : ArgumentValue δ := match spec.defaultValue with
      | .string value => { (.initial : ArgumentValue δ) with str := value }
      | .int value => { (.initial : ArgumentValue δ) with int := value }
      | .double value => { (.initial : ArgumentValue δ) with double := value }
      | .bool value => { (.initial : ArgumentValue δ) with bool := some value }
      | .none => .initial
    emplace spec.name argumentValue spec
    return true

def applyDefaultValues : List (ArgumentSpec δ) → Parsing δ Bool
  | [] => return true
  | spec :: specs => do
    if ← applyDefaultValue spec then applyDefaultValues specs else return false

def isRequiredPositional (spec : ArgumentSpec δ) : Bool := spec.isPositional && spec.isRequired

def bindPositionals : List Bytes → Parsing δ Bool
  | [] => return true
  | positional :: args => do
    match ← findNextPositionalSpec with
    | none =>
      print (linePrefix 425 ++ text ": parse warning: unexpected positional argument \"" ++ positional ++
        text "\" found, but not defined in specification\n")
      bindPositionals args
    | some spec =>
      match ← buildArgumentValue stod positional spec with
      | none => return false
      | some _ => bindPositionals args

def parsePositionals (args : List Bytes) : Parsing δ Bool := do
  let s ← get
  if args.length < s.spec.countP isRequiredPositional then
    parseError 414 (text "required positional argument(s) missing from command line")
    return false
  else bindPositionals stod args

def parse (argv : List Bytes) : Parsing δ Bool := do
  match argv with
  | [] =>
    print (text "invalid argc/argv parameters\n")
    return false
  | processName :: args =>
    modify fun s => { s with processName := processName }
    let (result, args) ← parseOptions stod args
    let s ← get
    if !result then return false
    else if s.parsedArgs.length = 1 ∧ (OrderedEntries.get (text "help") s.parsedArgs).isSome then return true
    else
      match validateRequiredArgs s with
      | some errorMsg =>
        print (linePrefix 524 ++ text ": " ++ errorMsg ++ [newline])
        return false
      | none => if ← applyDefaultValues s.spec then parsePositionals stod args else return false

end Parser

def create (specs : List (ArgumentSpec δ)) (bound : Nat → ArgumentValue δ) : CommandLine δ :=
  ⟨specs, [], [], 0, bound, [], []⟩

end CommandLine

end BuildboxCommon
