import BuildboxCommon.NumberConversions

set_option autoImplicit false

namespace BuildboxCommon.ReloadTokenAuthenticator

open ByteString Numerals NumberConversions

-- In the C locale. A byte above 127 is a negative `char`, which C leaves undefined; glibc returns it as it is.
def toupper (char : UInt8) : UInt8 := if 97 ≤ char ∧ char ≤ 122 then char - 32 else char

def prefixToMult : List (UInt8 × Int) := [(77, 60), (72, 60 * 60)]

def suffixOf (refreshTime : Bytes) : Nat × Int :=
  match refreshTime.getLast?.bind fun back => prefixToMult.lookup (toupper back) with
  | some multiplier => (1, multiplier)
  | none => (0, 60)

def parseTime (refreshTimeChar : Bytes) : Except Exn Int :=
  let refreshTime := cString refreshTimeChar
  if refreshTime = [] then .error (.invalidArgument (text "Empty string cannot be specified for reload token interval"))
  else
    let (suffix, multiplier) := suffixOf refreshTime
    match stoi refreshTime with
    | .error e => .error e
    | .ok (duration, pos) =>
      -- The product comes before the position is looked at.
      if IntRange (duration * multiplier) then
        if refreshTime.length - suffix ≠ pos then
          .error (.invalidArgument (text "Invalid value specified for reload access time"))
        else .ok (duration * multiplier)
      else .error .undefined

def Spells (refreshTime : Bytes) (number multiplier : Int) : Prop :=
  ∃ (numeral : Numeral decimals) (suffix : Bytes), refreshTime = numeral.render ++ suffix ∧ numeral.value = number ∧
    ((suffix = [] ∨ suffix = text "m" ∨ suffix = text "M") ∧ multiplier = 60 ∨
      (suffix = text "h" ∨ suffix = text "H") ∧ multiplier = 3600)

structure Faithful (refreshTimeChar : Bytes) : Prop where
  defined : parseTime refreshTimeChar ≠ .error .undefined
  returned : ∀ seconds, parseTime refreshTimeChar = .ok seconds → ∃ number multiplier,
    Spells (cString refreshTimeChar) number multiplier ∧ IntRange number ∧ seconds = number * multiplier ∧
      IntRange seconds
  accepted : ∀ number multiplier, Spells (cString refreshTimeChar) number multiplier → IntRange number →
    IntRange (number * multiplier) → parseTime refreshTimeChar = .ok (number * multiplier)

variable {refreshTime : Bytes}

theorem toupper_eq {upper : UInt8} (letter : 65 ≤ upper ∧ upper ≤ 90) (char : UInt8) :
    toupper char = upper ↔ char = upper ∨ char = upper + 32 := by
  unfold toupper
  grind

theorem lookup_toupper (back : UInt8) : prefixToMult.lookup (toupper back) =
    if [back] = text "m" ∨ [back] = text "M" then some 60
    else if [back] = text "h" ∨ [back] = text "H" then some 3600
    else none := by
  have minutes : [back] = text "m" ∨ [back] = text "M" ↔ toupper back = 77 := by
    rw [toupper_eq (by decide), or_comm]
    exact or_congr List.singleton_inj List.singleton_inj
  have hours : [back] = text "h" ∨ [back] = text "H" ↔ toupper back = 72 := by
    rw [toupper_eq (by decide), or_comm]
    exact or_congr List.singleton_inj List.singleton_inj
  rw [if_congr minutes rfl (if_congr hours rfl rfl)]
  by_cases minute : toupper back = 77
  next =>
    rw [if_pos minute, minute]
    rfl
  next =>
    by_cases hour : toupper back = 72
    next =>
      rw [if_neg minute, if_pos hour, hour]
      rfl
    next => simp [prefixToMult, List.lookup_cons, minute, hour, beq_false_of_ne]

theorem suffixOf_cases (refreshTime : Bytes) :
    (∃ front back multiplier, refreshTime = front ++ [back] ∧ suffixOf refreshTime = (1, multiplier) ∧
      (([back] = text "m" ∨ [back] = text "M") ∧ multiplier = 60 ∨
        ([back] = text "h" ∨ [back] = text "H") ∧ multiplier = 3600)) ∨
      suffixOf refreshTime = (0, 60) := by
  cases last : refreshTime.getLast? with
  | none => exact .inr (by simp [suffixOf, last])
  | some back =>
    obtain ⟨front, rfl⟩ := List.getLast?_eq_some_iff.mp last
    by_cases minute : [back] = text "m" ∨ [back] = text "M"
    next => exact .inl ⟨front, back, 60, rfl, by simp [suffixOf, lookup_toupper, minute], .inl ⟨minute, rfl⟩⟩
    next =>
      by_cases hour : [back] = text "h" ∨ [back] = text "H"
      next => exact .inl ⟨front, back, 3600, rfl, by simp [suffixOf, lookup_toupper, minute, hour], .inr ⟨hour, rfl⟩⟩
      next => exact .inr (by simp [suffixOf, lookup_toupper, minute, hour])

theorem suffixOf_concat (front : Bytes) (back : UInt8) : suffixOf (front ++ [back]) =
    match prefixToMult.lookup (toupper back) with
    | some multiplier => (1, multiplier)
    | none => (0, 60) := by
  simp only [suffixOf, List.getLast?_concat, Option.bind_some]

theorem suffixOf_digit (front : Bytes) {back : UInt8} (digit : CommandLine.isDigit back = true) :
    suffixOf (front ++ [back]) = (0, 60) := by
  have other (letter : UInt8) (plain : CommandLine.isDigit letter = false) : [back] ≠ [letter] := by
    rintro same
    rw [List.singleton_inj.mp same, plain] at digit
    cases digit
  have minute : ¬([back] = text "m" ∨ [back] = text "M") := not_or.mpr ⟨other 109 (by decide), other 77 (by decide)⟩
  have hour : ¬([back] = text "h" ∨ [back] = text "H") := not_or.mpr ⟨other 104 (by decide), other 72 (by decide)⟩
  rw [suffixOf_concat, lookup_toupper, if_neg minute, if_neg hour]

theorem read_of_spells {number multiplier : Int} (spells : Spells refreshTime number multiplier) :
    ∃ numeral rest, scan decimals refreshTime = some (numeral, rest) ∧ numeral.value = number ∧
      suffixOf refreshTime = (rest.length, multiplier) := by
  obtain ⟨numeral, suffix, rfl, rfl, units⟩ := spells
  have letter (back : UInt8) (plain : CommandLine.isDigit back = false) :
      scan decimals (numeral.render ++ [back]) = some (numeral, [back]) := by
    refine scan_iff.mpr ⟨rfl, fun char head => ?_⟩
    obtain rfl : back = char := Option.some.inj head
    exact plain
  obtain ⟨rfl | rfl | rfl, rfl⟩ | ⟨rfl | rfl, rfl⟩ := units
  next =>
    refine ⟨numeral, [], scan_iff.mpr ⟨rfl, fun char head => nomatch head⟩, rfl, ?_⟩
    obtain ⟨digits, digit, last⟩ := (List.eq_nil_or_concat' numeral.digits).resolve_left numeral.present
    have numeric := numeral.numeric digit (last ▸ List.mem_concat_self)
    rw [List.append_nil, Numeral.render, last, ← List.append_assoc, suffixOf_digit _ numeric]
    rfl
  next => exact ⟨numeral, [109], letter 109 (by decide), rfl, suffixOf_concat _ 109⟩
  next => exact ⟨numeral, [77], letter 77 (by decide), rfl, suffixOf_concat _ 77⟩
  next => exact ⟨numeral, [104], letter 104 (by decide), rfl, suffixOf_concat _ 104⟩
  next => exact ⟨numeral, [72], letter 72 (by decide), rfl, suffixOf_concat _ 72⟩

theorem spells_of_read {numeral : Numeral decimals} {rest : Bytes}
    (read : scan decimals refreshTime = some (numeral, rest)) (whole : refreshTime.length - (suffixOf refreshTime).1 =
      numeral.render.length) : Spells refreshTime numeral.value (suffixOf refreshTime).2 := by
  obtain ⟨parts, -⟩ := scan_iff.mp read
  have count : refreshTime.length = numeral.render.length + rest.length := by rw [parts, List.length_append]
  obtain ⟨front, back, multiplier, ended, suffix, units⟩ | suffix := suffixOf_cases refreshTime
  next =>
    have longer : refreshTime.length = front.length + 1 := by rw [ended, List.length_append, List.length_singleton]
    rw [suffix] at whole ⊢
    have same : numeral.render.length = front.length := by omega
    obtain ⟨-, rfl⟩ := List.append_inj (parts.symm.trans ended) same
    exact ⟨numeral, [back], parts, rfl, units.imp_left fun ⟨minute, multiplier⟩ => ⟨.inr minute, multiplier⟩⟩
  next =>
    rw [suffix] at whole ⊢
    obtain rfl : rest = [] := List.eq_nil_of_length_eq_zero (by omega)
    exact ⟨numeral, [], parts, rfl, .inl ⟨.inl rfl, rfl⟩⟩

theorem parseTime_of_read {numeral : Numeral decimals} {rest refreshTimeChar : Bytes}
    (read : scan decimals (cString refreshTimeChar) = some (numeral, rest)) : parseTime refreshTimeChar =
      if IntRange numeral.value then
        if IntRange (numeral.value * (suffixOf (cString refreshTimeChar)).2) then
          if (cString refreshTimeChar).length - (suffixOf (cString refreshTimeChar)).1 ≠ numeral.render.length then
            .error (.invalidArgument (text "Invalid value specified for reload access time"))
          else .ok (numeral.value * (suffixOf (cString refreshTimeChar)).2)
        else .error .undefined
      else .error .outOfRange := by
  have filled : cString refreshTimeChar ≠ [] := by
    intro empty
    have parts := (scan_iff.mp read).1
    rw [empty] at parts
    exact numeral.render_ne_nil (List.append_eq_nil_iff.mp parts.symm).1
  simp only [parseTime, if_neg filled, stoi, read]
  by_cases range : IntRange numeral.value
  next => simp only [if_pos range]
  next => simp only [if_neg range]

theorem parseTime_of_unread {refreshTimeChar : Bytes} (unread : scan decimals (cString refreshTimeChar) = none) :
    ∃ what, parseTime refreshTimeChar = .error (.invalidArgument what) := by
  by_cases empty : cString refreshTimeChar = []
  next => exact ⟨_, if_pos empty⟩
  next => exact ⟨text "stoi", by simp only [parseTime, if_neg empty, stoi, unread]⟩

theorem parseTime_faithful_iff (refreshTimeChar : Bytes) : Faithful refreshTimeChar ↔
    ∀ numeral rest, scan decimals (cString refreshTimeChar) = some (numeral, rest) → IntRange numeral.value →
      IntRange (numeral.value * (suffixOf (cString refreshTimeChar)).2) := by
  constructor
  next =>
    intro faithful numeral rest read range
    by_contra large
    exact faithful.defined (by rw [parseTime_of_read read, if_pos range, if_neg large])
  next =>
    intro fits
    refine ⟨fun undefined => ?_, fun seconds returned => ?_, fun number multiplier spells range small => ?_⟩
    next =>
      cases read : scan decimals (cString refreshTimeChar) with
      | none =>
        obtain ⟨what, thrown⟩ := parseTime_of_unread read
        rw [thrown] at undefined
        cases undefined
      | some parts =>
        rw [parseTime_of_read read] at undefined
        by_cases range : IntRange parts.1.value
        next =>
          rw [if_pos range, if_pos (fits parts.1 parts.2 read range)] at undefined
          split_ifs at undefined
          cases undefined
        next =>
          rw [if_neg range] at undefined
          cases undefined
    next =>
      cases read : scan decimals (cString refreshTimeChar) with
      | none =>
        obtain ⟨what, thrown⟩ := parseTime_of_unread read
        rw [thrown] at returned
        cases returned
      | some parts =>
        rw [parseTime_of_read read] at returned
        split_ifs at returned with range small whole
        obtain rfl := Except.ok.inj returned
        exact ⟨_, _, spells_of_read read (not_not.mp whole), range, rfl, small⟩
    next =>
      obtain ⟨numeral, rest, read, rfl, suffix⟩ := read_of_spells spells
      have count : (cString refreshTimeChar).length = numeral.render.length + rest.length := by
        rw [(scan_iff.mp read).1, List.length_append]
      rw [parseTime_of_read read, suffix, if_pos range, if_pos small, if_neg]
      simp [count]

theorem parseTime_overflows : parseTime (text "35791395") = .error .undefined ∧ ¬Faithful (text "35791395") := by
  have overflows : parseTime (text "35791395") = .error .undefined := by decide
  exact ⟨overflows, fun faithful => faithful.defined overflows⟩

end BuildboxCommon.ReloadTokenAuthenticator
