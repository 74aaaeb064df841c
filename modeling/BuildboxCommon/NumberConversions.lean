import BuildboxCommon.CommandLine.Faithful
import BuildboxCommon.Shared.Numerals

set_option autoImplicit false

namespace BuildboxCommon

open ByteString Numerals
open CommandLine (dash decimal digit_not_other isDigit isSpace)

def decimals : Alphabet UInt8 where
  base := 10
  plus := 43
  minus := dash
  space := isSpace
  digit := isDigit
  value digit := digit.toNat - 48
  digit_plain char digit := by
    refine ⟨(digit_not_other digit).2, ?_, ?_⟩ <;> rintro rfl <;> revert digit <;> decide
  signs_plain := by decide
  distinct := by decide

def IntRange (value : Int) : Prop := -2 ^ 31 ≤ value ∧ value < 2 ^ 31

instance decidableIntRange (value : Int) : Decidable (IntRange value) := inferInstanceAs (Decidable (_ ∧ _))

namespace NumberConversions

-- The value, and how many characters belong to it. A NUL byte ends the number like any other character.
def stoi (str : Bytes) : Except Exn (Int × Nat) :=
  match scan decimals str with
  | none => .error (.invalidArgument (text "stoi"))
  | some (numeral, _) =>
    if IntRange numeral.value then .ok (numeral.value, numeral.render.length) else .error .outOfRange

-- `unsigned long` has 64 bits. A number with a minus sign wraps around.
def stoul (str : Bytes) : Except Exn Nat :=
  match scan decimals str with
  | none => .error (.invalidArgument (text "stoul"))
  | some (numeral, _) =>
    if magnitude decimals numeral.digits < 2 ^ 64 then .ok (numeral.value % 2 ^ 64).toNat else .error .outOfRange

theorem magnitude_decimals (digits : Bytes) : magnitude decimals digits = decimal digits := rfl

end NumberConversions

end BuildboxCommon
