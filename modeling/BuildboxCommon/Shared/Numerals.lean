import Mathlib.Algebra.Order.Ring.Int
import Mathlib.Data.List.TakeWhile

set_option autoImplicit false

namespace Numerals

inductive Sign where
  | unsigned
  | plus
  | minus
deriving DecidableEq

structure Alphabet (α : Type) where
  base : Nat
  plus : α
  minus : α
  space : α → Bool
  digit : α → Bool
  value : α → Nat
  digit_plain : ∀ char, digit char = true → space char = false ∧ char ≠ plus ∧ char ≠ minus
  signs_plain : space plus = false ∧ space minus = false
  distinct : plus ≠ minus

variable {α : Type} (A : Alphabet α)

def magnitude (digits : List α) : Nat := digits.foldl (fun number digit => A.base * number + A.value digit) 0

def signText : Sign → List α
  | .unsigned => []
  | .plus => [A.plus]
  | .minus => [A.minus]

@[ext]
structure Numeral where
  spaces : List α
  sign : Sign
  digits : List α
  blank : ∀ char ∈ spaces, A.space char = true
  numeric : ∀ char ∈ digits, A.digit char = true
  present : digits ≠ []

variable {A}

def Numeral.render (numeral : Numeral A) : List α := numeral.spaces ++ signText A numeral.sign ++ numeral.digits

def Numeral.value (numeral : Numeral A) : Int :=
  match numeral.sign with
  | .minus => -(magnitude A numeral.digits : Int)
  | .unsigned | .plus => magnitude A numeral.digits

def Ends (A : Alphabet α) (rest : List α) : Prop := ∀ char, rest.head? = some char → A.digit char = false

theorem Numeral.natAbs_value (numeral : Numeral A) : numeral.value.natAbs = magnitude A numeral.digits := by
  cases sign : numeral.sign <;> simp [value, sign]

theorem Numeral.render_ne_nil (numeral : Numeral A) : numeral.render ≠ [] :=
  List.append_ne_nil_of_right_ne_nil _ numeral.present

variable [DecidableEq α]

def readSign (A : Alphabet α) : List α → Sign × List α
  | [] => (.unsigned, [])
  | char :: rest =>
    if char = A.plus then (.plus, rest) else if char = A.minus then (.minus, rest) else (.unsigned, char :: rest)

def scan (A : Alphabet α) (chars : List α) : Option (Numeral A × List α) :=
  let signed := readSign A (chars.dropWhile A.space)
  if present : signed.2.takeWhile A.digit ≠ [] then
    some (⟨chars.takeWhile A.space, signed.1, signed.2.takeWhile A.digit, fun _ => List.mem_takeWhile_imp,
      fun _ => List.mem_takeWhile_imp, present⟩, signed.2.dropWhile A.digit)
  else none

theorem readSign_append (chars : List α) : signText A (readSign A chars).1 ++ (readSign A chars).2 = chars := by
  cases chars with
  | nil => rfl
  | cons char rest =>
    simp only [readSign]
    split_ifs with plus minus
    next => simp [signText, plus]
    next => simp [signText, minus]
    next => simp [signText]

theorem readSign_signText (sign : Sign) {digits : List α} (numeric : ∀ char ∈ digits, A.digit char = true)
    (present : digits ≠ []) (rest : List α) :
      readSign A (signText A sign ++ digits ++ rest) = (sign, digits ++ rest) := by
  cases sign with
  | unsigned =>
    obtain ⟨first, others, rfl⟩ := List.exists_cons_of_ne_nil present
    obtain ⟨-, plus, minus⟩ := A.digit_plain first (numeric first List.mem_cons_self)
    simp [signText, readSign, plus, minus]
  | plus => simp [signText, readSign]
  | minus => simp [signText, readSign, A.distinct.symm]

omit [DecidableEq α] in
theorem takeWhile_of_ends {digits rest : List α} (numeric : ∀ char ∈ digits, A.digit char = true) (ends : Ends A rest) :
    (digits ++ rest).takeWhile A.digit = digits ∧ (digits ++ rest).dropWhile A.digit = rest := by
  have none : rest.takeWhile A.digit = [] ∧ rest.dropWhile A.digit = rest := by
    cases rest with
    | nil => exact ⟨rfl, rfl⟩
    | cons first others => simp [ends first rfl]
  rw [List.takeWhile_append_of_pos numeric, List.dropWhile_append_of_pos numeric, none.1, none.2, List.append_nil]
  exact ⟨rfl, rfl⟩

omit [DecidableEq α] in
theorem head_plain (sign : Sign) {digits : List α} (numeric : ∀ char ∈ digits, A.digit char = true)
    (present : digits ≠ []) (rest : List α) :
    ∃ first others, signText A sign ++ digits ++ rest = first :: others ∧ A.space first = false := by
  cases sign with
  | unsigned =>
    obtain ⟨first, others, rfl⟩ := List.exists_cons_of_ne_nil present
    exact ⟨first, others ++ rest, rfl, (A.digit_plain first (numeric first List.mem_cons_self)).1⟩
  | plus => exact ⟨A.plus, digits ++ rest, rfl, A.signs_plain.1⟩
  | minus => exact ⟨A.minus, digits ++ rest, rfl, A.signs_plain.2⟩

theorem scan_iff {chars rest : List α} {numeral : Numeral A} :
    scan A chars = some (numeral, rest) ↔ chars = numeral.render ++ rest ∧ Ends A rest := by
  constructor
  next =>
    intro read
    simp only [scan, Option.dite_none_right_eq_some, Option.some.injEq, Prod.mk.injEq] at read
    obtain ⟨present, rfl, rfl⟩ := read
    refine ⟨?_, fun char first => ?_⟩
    next =>
      simp only [Numeral.render, List.append_assoc, List.takeWhile_append_dropWhile, readSign_append]
    next =>
      have ended := List.head?_dropWhile_not A.digit (readSign A (chars.dropWhile A.space)).2
      rw [first] at ended
      simpa using ended
  next =>
    rintro ⟨rfl, ends⟩
    obtain ⟨spaces, sign, digits, blank, numeric, present⟩ := numeral
    obtain ⟨first, others, behind, plain⟩ := head_plain sign numeric present rest
    have taken : (spaces ++ (signText A sign ++ digits ++ rest)).takeWhile A.space = spaces := by
      rw [List.takeWhile_append_of_pos blank, behind, List.takeWhile_cons_of_neg (by simp [plain]), List.append_nil]
    have dropped : (spaces ++ (signText A sign ++ digits ++ rest)).dropWhile A.space =
      signText A sign ++ digits ++ rest := by
      rw [List.dropWhile_append_of_pos blank, behind, List.dropWhile_cons_of_neg (by simp [plain])]
    obtain ⟨all, left⟩ := takeWhile_of_ends numeric ends
    have whole : spaces ++ signText A sign ++ digits ++ rest = spaces ++ (signText A sign ++ digits ++ rest) := by
      simp only [List.append_assoc]
    simp only [scan, Numeral.render, whole, taken, dropped, readSign_signText sign numeric present, all, left]
    rw [dif_pos present]

def Numeral.ofDigits (digits : List α) (numeric : ∀ char ∈ digits, A.digit char = true) (present : digits ≠ []) :
    Numeral A :=
  ⟨[], .unsigned, digits, fun _ member => absurd member List.not_mem_nil, numeric, present⟩

theorem scan_digits {digits : List α} (numeric : ∀ char ∈ digits, A.digit char = true) (present : digits ≠ []) :
    scan A digits = some (.ofDigits digits numeric present, []) :=
  scan_iff.mpr ⟨by simp [Numeral.render, Numeral.ofDigits, signText], fun _ first => nomatch first⟩

end Numerals
