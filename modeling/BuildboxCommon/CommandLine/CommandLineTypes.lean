import BuildboxCommon.Exceptions

set_option autoImplicit false

namespace BuildboxCommon.CommandLineTypes

open ByteString

inductive DataType where
  | string
  | int
  | double
  | bool
  | stringArray
  | stringPairArray
  | unknown
deriving DecidableEq

def DataType.number : DataType → Nat
  | .string => 0
  | .int => 1
  | .double => 2
  | .bool => 3
  | .stringArray => 4
  | .stringPairArray => 5
  | .unknown => 6

-- The address of a bound variable is a number. Variables of two types differ even if their numbers agree.
structure TypeInfo where
  dataType : DataType
  bindable : Option Nat
deriving DecidableEq

inductive Occurrence where
  | optional
  | required
deriving DecidableEq

inductive Constraint where
  | withArg
  | withoutArg
deriving DecidableEq

-- Values of type `double` are not looked into: `δ` is their type.
variable {δ : Type}

inductive DefaultValue (δ : Type) where
  | none
  | string (value : Bytes)
  | int (value : Int)
  | double (value : δ)
  | bool (value : Bool)
deriving DecidableEq

def DefaultValue.dataType : DefaultValue δ → DataType
  | .none => .unknown
  | .string _ => .string
  | .int _ => .int
  | .double _ => .double
  | .bool _ => .bool

def DefaultValue.hasValue (value : DefaultValue δ) : Bool := value.dataType ≠ .unknown

structure ArgumentSpec (δ : Type) where
  name : Bytes
  desc : Bytes
  typeInfo : TypeInfo
  occurrence : Occurrence
  constraint : Constraint
  defaultValue : DefaultValue δ
deriving DecidableEq

namespace ArgumentSpec

variable (spec : ArgumentSpec δ)

def isOptional : Bool := spec.occurrence = .optional
def isRequired : Bool := !spec.isOptional
def hasArgument : Bool := spec.constraint = .withArg
def isPositional : Bool := spec.name = []
def dataType : DataType := spec.typeInfo.dataType
def hasDefaultValue : Bool := spec.defaultValue.hasValue

end ArgumentSpec

structure ArgumentValue (δ : Type) where
  str : Bytes
  int : Int
  double : δ
  -- Not initialised by the constructor.
  bool : Option Bool
  vs : List Bytes
  vps : List (Bytes × Bytes)
deriving DecidableEq

def ArgumentValue.initial [Zero δ] : ArgumentValue δ := ⟨[], 0, 0, none, [], []⟩

end BuildboxCommon.CommandLineTypes
