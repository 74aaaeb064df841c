import BuildboxCommon.Metrics.MetricValues

set_option autoImplicit false

namespace BuildboxCommon.Metrics

open Aggregation ByteString

section Server

def bar : UInt8 := 124
def plus : UInt8 := 43
def minus : UInt8 := 45

def isDigit (char : UInt8) : Bool := decide (48 ≤ char.toNat) && decide (char.toNat ≤ 57)

def readNumber (digits : Bytes) : Option Int :=
  if !digits.isEmpty && digits.all isDigit then
    some (digits.foldl (fun (number : Nat) digit => 10 * number + (digit.toNat - 48)) 0 : Nat)
  else none

def readValue (gauge : Int) (value : Bytes) : Option Int :=
  if value.head? = some plus then (readNumber value.tail).map (gauge + ·)
  else if value.head? = some minus then (readNumber value.tail).map (gauge - ·)
  else readNumber value

def readLines (name : Bytes) (gauge : Int) (lines : Bytes) : Option Int :=
  if name ++ text ":" <+: lines then
    let rest := lines.drop (name ++ text ":").length
    let ending := rest.dropWhile (· ≠ bar)
    (readValue gauge (rest.takeWhile (· ≠ bar))).bind fun gauge =>
      if ending = text "|g" then some gauge
      else if _more : text "|g\n" <+: ending then readLines name gauge (ending.drop 3)
      else none
  else none
termination_by lines.length
decreasing_by
  have three : 3 ≤ ending.length := _more.length_le
  have short : ending.length ≤ rest.length := (List.dropWhile_suffix _).length_le
  have dropped : rest.length ≤ lines.length := (List.drop_suffix _ _).length_le
  change (ending.drop 3).length < lines.length
  rw [List.length_drop]
  omega

end Server

section Lines

variable {name value : Bytes} {gauge : Int}

theorem readLines_bar (unbarred : bar ∉ value) (ending : Bytes) :
    readLines name gauge (name ++ text ":" ++ value ++ bar :: ending) =
      (readValue gauge value).bind fun gauge =>
        if bar :: ending = text "|g" then some gauge
        else if text "|g\n" <+: bar :: ending then readLines name gauge ((bar :: ending).drop 3)
        else none := by
  have taken : (value ++ bar :: ending).takeWhile (· ≠ bar) = value := by
    rw [List.takeWhile_append_of_pos (by simpa using fun char member => ne_of_mem_of_not_mem member unbarred)]
    simp
  have dropped : (value ++ bar :: ending).dropWhile (· ≠ bar) = bar :: ending := by
    rw [List.dropWhile_append_of_pos (by simpa using fun char member => ne_of_mem_of_not_mem member unbarred)]
    simp
  rw [readLines, if_pos (by simp), List.append_assoc (name ++ text ":"), List.drop_left]
  simp only [taken, dropped]
  rfl

theorem readLines_last (unbarred : bar ∉ value) :
    readLines name gauge (name ++ text ":" ++ value ++ text "|g") = readValue gauge value := by
  refine (readLines_bar unbarred (text "g")).trans ?_
  have last : bar :: text "g" = text "|g" := by decide
  simp [last]

theorem readLines_next (unbarred : bar ∉ value) (lines : Bytes) :
    readLines name gauge (name ++ text ":" ++ value ++ (text "|g\n" ++ lines)) =
      (readValue gauge value).bind fun gauge => readLines name gauge lines := by
  have more : bar :: (text "g\n" ++ lines) = text "|g\n" ++ lines := rfl
  rw [← more, readLines_bar unbarred, more]
  have differs : text "|g\n" ++ lines ≠ text "|g" := fun same => by
    have lengths := congrArg List.length same
    rw [List.length_append] at lengths
    have long : (text "|g\n").length = 3 := by decide
    have short : (text "|g").length = 2 := by decide
    omega
  have rest : (text "|g\n" ++ lines).drop 3 = lines := rfl
  simp [differs, rest]

end Lines

section Numbers

theorem digit_toNat {char : Char} (digit : char.isDigit = true) :
    char.toNat.toUInt8.toNat = char.toNat ∧ isDigit char.toNat.toUInt8 = true := by
  have range : 48 ≤ char.toNat ∧ char.toNat ≤ 57 := by
    simpa [Char.isDigit, Char.le_def, UInt32.le_iff_toNat_le] using digit
  have same : char.toNat.toUInt8.toNat = char.toNat := by
    rw [Nat.toUInt8, UInt8.toNat_ofNat']
    omega
  exact ⟨same, by simp [isDigit, same, range]⟩

theorem text_toString (n : Nat) : text (toString n) = (Nat.toDigits 10 n).map fun char => char.toNat.toUInt8 := by
  rw [text, Nat.toString_eq_ofList_toDigits]
  simp

theorem digit_of_mem {n : Nat} {char : Char} (member : char ∈ Nat.toDigits 10 n) : char.isDigit = true :=
  Nat.isDigit_of_mem_toDigits (by decide) (by decide) member

theorem isDigit_of_mem_text {n : Nat} {digit : UInt8} (member : digit ∈ text (toString n)) : isDigit digit = true := by
  rw [text_toString] at member
  obtain ⟨char, digits, rfl⟩ := List.mem_map.mp member
  exact (digit_toNat (digit_of_mem digits)).2

theorem text_toString_ne_nil (n : Nat) : text (toString n) ≠ [] := by
  rw [text_toString, Ne, List.map_eq_nil_iff]
  exact Nat.toDigits_ne_nil

theorem readNumber_toString (n : Nat) : readNumber (text (toString n)) = some (n : Int) := by
  have value : (text (toString n)).foldl (fun (number : Nat) digit => 10 * number + (digit.toNat - 48)) 0 = n := by
    rw [text_toString, List.foldl_map]
    refine Eq.trans ?_ (Nat.ofDigitChars_ten_toDigits (n := n))
    rw [Nat.ofDigitChars_eq_foldl]
    refine List.foldl_ext _ _ _ fun number char member => ?_
    rw [(digit_toNat (digit_of_mem member)).1]
    rfl
  have digits : (!(text (toString n)).isEmpty && (text (toString n)).all isDigit) = true := by
    rw [Bool.and_eq_true, Bool.not_eq_true', List.isEmpty_eq_false_iff, List.all_eq_true]
    exact ⟨text_toString_ne_nil n, fun _ => isDigit_of_mem_text⟩
  rw [readNumber, if_pos digits, value]

theorem not_mem_toString {n : Nat} {char : UInt8} (other : isDigit char = false) : char ∉ text (toString n) :=
  fun member => Bool.noConfusion (other.symm.trans (isDigit_of_mem_text member))

theorem readValue_toString (gauge : Int) (n : Nat) : readValue gauge (text (toString n)) = some (n : Int) := by
  have first (sign : UInt8) (other : isDigit sign = false) : (text (toString n)).head? ≠ some sign := by
    intro same
    exact not_mem_toString other (List.mem_of_head? same)
  rw [readValue, if_neg (first plus (by decide)), if_neg (first minus (by decide)), readNumber_toString]

theorem readValue_plus (gauge : Int) (n : Nat) :
    readValue gauge (text "+" ++ text (toString n)) = some (gauge + n) := by
  have sign : text "+" = [plus] := by decide
  simpa [readValue, sign] using readNumber_toString n

theorem readValue_minus (gauge : Int) (n : Nat) :
    readValue gauge (text "-" ++ text (toString n)) = some (gauge - n) := by
  have sign : text "-" = [minus] := by decide
  have other : minus ≠ plus := by decide
  simpa [readValue, sign, other] using readNumber_toString n

end Numbers

section Gauge

theorem text_append (a b : String) : text (a ++ b) = text a ++ text b := by
  simp [text]

theorem text_toString_neg {v : Int} (negative : v < 0) : text (toString v) = text "-" ++ text (toString v.natAbs) := by
  obtain ⟨n, rfl⟩ := Int.eq_negSucc_of_lt_zero negative
  exact text_append "-" (toString (n + 1))

theorem text_toString_nonneg {v : Int} (nonneg : 0 ≤ v) : text (toString v) = text (toString v.natAbs) := by
  obtain ⟨n, rfl⟩ := Int.eq_ofNat_of_zero_le nonneg
  rfl

theorem readLines_toStatsD (name : Bytes) (gauge : Int) (value : GaugeMetricValue) :
    readLines name gauge (value.toStatsD name) = some (GaugeMetricValue.update gauge value) := by
  obtain ⟨v, isDelta⟩ := value
  have unbarred (n : Nat) : bar ∉ text (toString n) := not_mem_toString (by decide)
  have signed (sign : Bytes) (n : Nat) (none : bar ∉ sign) : bar ∉ sign ++ text (toString n) := by
    simpa [none] using unbarred n
  unfold GaugeMetricValue.toStatsD GaugeMetricValue.update
  rcases Int.lt_or_le v 0 with negative | nonneg
  next =>
    have size : (v.natAbs : Int) = -v := Int.ofNat_natAbs_of_nonpos (Int.le_of_lt negative)
    cases isDelta with
    | true =>
      simp only [if_true, if_neg (Int.not_le.mpr negative), ge_iff_le]
      rw [readLines_last (signed (text "-") _ (by decide)), readValue_minus, size, Int.sub_neg]
    | false =>
      simp only [Bool.false_eq_true, if_false, if_pos negative]
      have lines : name ++ text ":" ++ (text "0|g\n" ++ name ++ text ":" ++ text (toString v)) ++ text "|g" =
          name ++ text ":" ++ text (toString 0) ++ (text "|g\n" ++
            (name ++ text ":" ++ (text "-" ++ text (toString v.natAbs)) ++ text "|g")) := by
        rw [text_toString_neg negative, show text "0|g\n" = text (toString 0) ++ text "|g\n" by decide]
        simp only [List.append_assoc]
      rw [lines, readLines_next (unbarred 0), readValue_toString, Option.bind_some,
        readLines_last (signed (text "-") _ (by decide)), readValue_minus, size]
      simp
  next =>
    have size : (v.natAbs : Int) = v := Int.natAbs_of_nonneg nonneg
    cases isDelta with
    | true =>
      simp only [if_true, if_pos nonneg, ge_iff_le]
      rw [readLines_last (signed (text "+") _ (by decide)), readValue_plus, size]
    | false =>
      simp only [Bool.false_eq_true, if_false, if_neg (Int.not_lt.mpr nonneg), List.nil_append]
      rw [text_toString_nonneg nonneg, readLines_last (unbarred _), readValue_toString, size]

end Gauge

section Published

variable {V : Type} [ValueType V]

def publishedFor (order : IterationOrder (id : Bytes → Bytes) V) (name : Bytes) (collector : MetricCollector V) :
    List Bytes :=
  collector.snapshots.flatMap fun snapshot =>
    ((order.visit snapshot).filter fun entry => entry.1 = name).map fun entry => ValueType.toStatsD entry.2 entry.1

omit [ValueType V] in
theorem filter_entries (entries : List (Bytes × V)) (distinct : (entries.map Prod.fst).Nodup) (name : Bytes) :
    (entries.filter fun entry => entry.1 = name) =
      ((entries.find? fun entry => entry.1 = name).map Prod.snd).toList.map fun value => (name, value) := by
  induction entries with
  | nil => rfl
  | cons entry entries ih =>
    obtain ⟨other, value⟩ := entry
    rw [List.map_cons, List.nodup_cons] at distinct
    by_cases same : other = name
    next =>
      subst same
      have none : (entries.filter fun entry => entry.1 = other) = [] := by
        rw [List.filter_eq_nil_iff]
        intro entry member alike
        exact distinct.1 (List.mem_map.mpr ⟨entry, member, of_decide_eq_true alike⟩)
      simp [none]
    next => simpa [same] using ih distinct.2

omit [ValueType V] in
theorem filter_visit (order : IterationOrder (id : Bytes → Bytes) V) (snapshot : MetricsMap V) (name : Bytes) :
    ((order.visit snapshot).filter fun entry => entry.1 = name) =
      (snapshot.find name).toList.map fun value => (name, value) := by
  have visited := (order.perm snapshot).filter fun entry => entry.1 = name
  rw [filter_entries snapshot.entries snapshot.distinct name] at visited
  change List.Perm _ ((snapshot.find name).toList.map fun value => (name, value)) at visited
  cases found : snapshot.find name with
  | none =>
    rw [found] at visited
    exact visited.eq_nil
  | some value =>
    rw [found] at visited
    exact List.perm_singleton.mp visited

theorem publishedFor_eq (order : IterationOrder (id : Bytes → Bytes) V) (name : Bytes) (collector : MetricCollector V) :
    publishedFor order name collector = collector.snapshots.flatMap fun snapshot =>
      (snapshot.find name).toList.map fun value => ValueType.toStatsD value name := by
  unfold publishedFor
  simp only [filter_visit, List.map_map]
  rfl

theorem readLines_snapshots (name : Bytes) (gauge : Int) (snapshots : List (MetricsMap GaugeMetricValue)) :
    (snapshots.flatMap fun snapshot =>
      (snapshot.find name).toList.map fun value => ValueType.toStatsD value name).foldlM (readLines name) gauge =
        some ((snapshots.map fun snapshot => snapshot.find name).foldl (applied GaugeMetricValue.update) gauge) := by
  induction snapshots generalizing gauge with
  | nil => rfl
  | cons snapshot snapshots ih =>
    rw [List.flatMap_cons, List.foldlM_append, List.map_cons, List.foldl_cons]
    cases found : snapshot.find name with
    | none => exact ih gauge
    | some value =>
      have read : readLines name gauge (ValueType.toStatsD value name) = some (GaugeMetricValue.update gauge value) :=
        readLines_toStatsD name gauge value
      simpa [read, applied] using ih (GaugeMetricValue.update gauge value)

structure NothingLost : Prop where
  grouped : ∀ {V : Type} [ValueType V] (calls : List (Call V)) (name : Bytes), ∃ groups : List (List V),
    groups.flatten = stored name calls ∧
      found name (MetricCollector.run calls) = groups.map (total ValueType.aggregate)
  counted : ∀ (calls : List (Call CountingMetricValue)) (name : Bytes),
    sum CountingMetricValue.value (found name (MetricCollector.run calls)) =
      ((stored name calls).map CountingMetricValue.value).sum
  timed : ∀ (calls : List (Call TotalDurationMetricValue)) (name : Bytes),
    sum TotalDurationMetricValue.value (found name (MetricCollector.run calls)) =
      ((stored name calls).map TotalDurationMetricValue.value).sum
  gauged : ∀ (calls : List (Call GaugeMetricValue)) (order : IterationOrder (id : Bytes → Bytes) GaugeMetricValue)
    (name : Bytes) (initial : Int), ∃ gauge,
      (publishedFor order name (MetricCollector.run calls)).foldlM (readLines name) initial = some gauge ∧
        applied GaugeMetricValue.update gauge ((MetricCollector.run calls).metrics.find name) =
          (stored name calls).foldl GaugeMetricValue.update initial

theorem nothing_lost : NothingLost where
  grouped calls name := ⟨groups name [] calls, by simp [groups_flatten], found_run name calls⟩
  counted calls name := sum_found (fun _ _ => rfl) name calls
  timed calls name := sum_found (fun _ _ => rfl) name calls
  gauged calls order name initial := by
    refine ⟨_, (congrArg _ (publishedFor_eq order name _)).trans (readLines_snapshots name initial _), ?_⟩
    have all := foldl_found (show Faithful ValueType.aggregate GaugeMetricValue.update from update_faithful) name calls
      initial
    rwa [found, List.map_append, List.foldl_append] at all

end Published

end BuildboxCommon.Metrics
