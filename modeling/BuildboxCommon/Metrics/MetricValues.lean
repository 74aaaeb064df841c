import BuildboxCommon.Metrics.MetricCollector
import Mathlib.Algebra.Order.Ring.Int

set_option autoImplicit false

namespace BuildboxCommon.Metrics

open Aggregation ByteString

structure CountingMetricValue where
  value : Int

def CountingMetricValue.aggregate (value other : CountingMetricValue) : CountingMetricValue :=
  ⟨value.value + other.value⟩

def CountingMetricValue.toStatsD (value : CountingMetricValue) (myName : Bytes) : Bytes :=
  myName ++ text ":" ++ text (toString value.value) ++ text "|c"

instance countingMetricValueType : ValueType CountingMetricValue :=
  ⟨CountingMetricValue.aggregate, CountingMetricValue.toStatsD⟩

structure TotalDurationMetricValue where
  value : Int

def TotalDurationMetricValue.aggregate (value other : TotalDurationMetricValue) : TotalDurationMetricValue :=
  ⟨value.value + other.value⟩

def TotalDurationMetricValue.toStatsD (value : TotalDurationMetricValue) (myName : Bytes) : Bytes :=
  myName ++ text ":" ++ text (toString (value.value.tdiv 1000)) ++ text "|ms"

instance totalDurationMetricValueType : ValueType TotalDurationMetricValue :=
  ⟨TotalDurationMetricValue.aggregate, TotalDurationMetricValue.toStatsD⟩

structure GaugeMetricValue where
  value : Int
  isDelta : Bool

namespace GaugeMetricValue

def aggregate (value other : GaugeMetricValue) : GaugeMetricValue :=
  if other.isDelta then { value with value := value.value + other.value } else ⟨other.value, false⟩

def toStatsD (value : GaugeMetricValue) (name : Bytes) : Bytes :=
  name ++ text ":" ++
    (if value.isDelta then
      (if value.value ≥ 0 then text "+" else text "-") ++ text (toString value.value.natAbs)
    else
      -- A negative value would be read as a delta.
      (if value.value < 0 then text "0|g\n" ++ name ++ text ":" else []) ++ text (toString value.value)) ++
    text "|g"

def update (gauge : Int) (value : GaugeMetricValue) : Int :=
  if value.isDelta then gauge + value.value else value.value

end GaugeMetricValue

instance gaugeMetricValueType : ValueType GaugeMetricValue := ⟨GaugeMetricValue.aggregate, GaugeMetricValue.toStatsD⟩

theorem update_faithful : Faithful GaugeMetricValue.aggregate GaugeMetricValue.update := by
  intro gauge first second
  unfold GaugeMetricValue.aggregate GaugeMetricValue.update
  cases second.isDelta with
  | true => cases first.isDelta <;> simp [Int.add_assoc]
  | false => simp

section Sums

variable {V : Type} [ValueType V]

def sum (value : V → Int) (found : List (Option V)) : Int := (found.map fun entry => (entry.map value).getD 0).sum

theorem sum_found {value : V → Int}
    (adds : ∀ first second : V, value (ValueType.aggregate first second) = value first + value second) (name : Bytes)
    (calls : List (Call V)) :
    sum value (found name (MetricCollector.run calls)) = ((stored name calls).map value).sum := by
  have faithful : Faithful ValueType.aggregate fun (s : Int) v => s + value v := by
    intro s first second
    change s + value (ValueType.aggregate first second) = s + value first + value second
    rw [adds, Int.add_assoc]
  have same := foldl_found faithful name calls 0
  have entries (l : List (Option V)) (s : Int) :
    l.foldl (applied fun (s : Int) v => s + value v) s = s + sum value l := by
    induction l generalizing s with
    | nil => simp [sum]
    | cons entry l ih =>
      cases entry with
      | none => simpa [applied, sum] using ih s
      | some v => simpa [applied, sum, Int.add_assoc] using ih (s + value v)
  have values (l : List V) (s : Int) : l.foldl (fun (s : Int) v => s + value v) s = s + (l.map value).sum := by
    induction l generalizing s with
    | nil => simp
    | cons v l ih => simpa [Int.add_assoc] using ih (s + value v)
  rwa [entries, values, Int.zero_add, Int.zero_add] at same

end Sums

end BuildboxCommon.Metrics
