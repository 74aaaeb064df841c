import BuildboxCommon.Shared.Aggregation
import BuildboxCommon.Shared.Bytes
import BuildboxCommon.Shared.UnorderedMap

set_option autoImplicit false

namespace BuildboxCommon.Metrics

open Aggregation ByteString

class ValueType (V : Type) where
  aggregate : V → V → V
  toStatsD : V → Bytes → Bytes

abbrev MetricsMap (V : Type) := UnorderedMap (id : Bytes → Bytes) V

structure MetricCollector (V : Type) where
  metrics : MetricsMap V
  snapshots : List (MetricsMap V)

inductive Call (V : Type) where
  | store (name : Bytes) (value : V)
  | getSnapshot

namespace MetricCollector

variable {V : Type} [ValueType V]

def start : MetricCollector V := ⟨.empty, []⟩

def store (collector : MetricCollector V) (name : Bytes) (value : V) : MetricCollector V :=
  match collector.metrics.find name with
  | some entry => { collector with metrics := collector.metrics.assign name (ValueType.aggregate entry value) }
  | none => { collector with metrics := collector.metrics.emplace name value }

def getSnapshot (collector : MetricCollector V) : MetricCollector V :=
  ⟨.empty, collector.snapshots ++ [collector.metrics]⟩

def step (collector : MetricCollector V) : Call V → MetricCollector V
  | .store name value => collector.store name value
  | .getSnapshot => collector.getSnapshot

-- The calls in the order in which they got the mutex.
def run (calls : List (Call V)) : MetricCollector V := calls.foldl step start

def gatherStatsD (order : IterationOrder (id : Bytes → Bytes) V) (snapshot : MetricsMap V) : List Bytes :=
  (order.visit snapshot).map fun entry => ValueType.toStatsD entry.2 entry.1

theorem find_store (collector : MetricCollector V) (name probe : Bytes) (value : V) :
    (collector.store name value).metrics.find probe =
      if probe = name then
        some ((collector.metrics.find name).elim value fun entry => ValueType.aggregate entry value)
      else collector.metrics.find probe := by
  unfold store
  cases found : collector.metrics.find name with
  | some entry => exact UnorderedMap.find_assign _ _ _ _
  | none =>
    refine (UnorderedMap.find_emplace _ _ _ _).trans ?_
    rw [found]
    rfl

@[simp] theorem store_snapshots (collector : MetricCollector V) (name : Bytes) (value : V) :
    (collector.store name value).snapshots = collector.snapshots := by
  unfold store
  cases collector.metrics.find name <;> rfl

end MetricCollector

section Groups

variable {V : Type}

def stored (name : Bytes) : List (Call V) → List V
  | [] => []
  | .store other value :: calls => if other = name then value :: stored name calls else stored name calls
  | .getSnapshot :: calls => stored name calls

def groups (name : Bytes) : List V → List (Call V) → List (List V)
  | pending, [] => [pending]
  | pending, .store other value :: calls => groups name (if other = name then pending ++ [value] else pending) calls
  | pending, .getSnapshot :: calls => pending :: groups name [] calls

theorem groups_flatten (name : Bytes) (pending : List V) (calls : List (Call V)) :
    (groups name pending calls).flatten = pending ++ stored name calls := by
  induction calls generalizing pending with
  | nil => simp [groups, stored]
  | cons call calls ih =>
    cases call with
    | store other value => by_cases same : other = name <;> simp [groups, stored, same, ih]
    | getSnapshot => simp [groups, stored, ih]

variable [ValueType V]

def found (name : Bytes) (collector : MetricCollector V) : List (Option V) :=
  (collector.snapshots ++ [collector.metrics]).map fun snapshot => snapshot.find name

theorem found_foldl_step (name : Bytes) (collector : MetricCollector V) (pending : List V) (calls : List (Call V))
    (open' : collector.metrics.find name = total ValueType.aggregate pending) :
    found name (calls.foldl MetricCollector.step collector) =
      collector.snapshots.map (fun snapshot => snapshot.find name) ++
        (groups name pending calls).map (total ValueType.aggregate) := by
  induction calls generalizing collector pending with
  | nil => simp [found, groups, open']
  | cons call calls ih =>
    rw [List.foldl_cons]
    cases call with
    | store other value =>
      have next := ih (collector.store other value) (if other = name then pending ++ [value] else pending) (by
        rw [MetricCollector.find_store]
        by_cases same : other = name
        next => rw [if_pos same.symm, if_pos same, total_append_singleton, same, open']
        next => rw [if_neg (Ne.symm same), if_neg same, open'])
      rw [MetricCollector.store_snapshots] at next
      exact next
    | getSnapshot =>
      have next := ih collector.getSnapshot [] rfl
      refine next.trans ?_
      simp [MetricCollector.getSnapshot, groups, open']

theorem found_run (name : Bytes) (calls : List (Call V)) :
    found name (MetricCollector.run calls) = (groups name [] calls).map (total ValueType.aggregate) :=
  found_foldl_step name MetricCollector.start [] calls rfl

theorem foldl_found {σ : Type} {apply : σ → V → σ} (faithful : Faithful ValueType.aggregate apply) (name : Bytes)
    (calls : List (Call V)) (s : σ) :
    (found name (MetricCollector.run calls)).foldl (applied apply) s = (stored name calls).foldl apply s := by
  rw [found_run, foldl_applied_total faithful, groups_flatten, List.nil_append]

end Groups

end BuildboxCommon.Metrics
