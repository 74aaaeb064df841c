import BuildboxCommon.Metrics.Publications
import Mathlib.Algebra.Order.BigOperators.Group.List
import Mathlib.Algebra.Order.Ring.Nat

set_option autoImplicit false

namespace BuildboxCommon.Metrics.PublisherDaemon

open ByteString Locks Transitions

variable {ι : Type} {types : ι → CollectorType}

def Publication.rank : Publication ι → Nat
  | .gathering valueTypes _ => valueTypes.length + 2
  | .opening _ => 1
  | .writing _ => 0

def Owner.rank (config : Config ι) : Owner ι → Nat
  | .between | .destroyed => 0
  | .publishing publication => publication.rank + 1
  | .joining _ => config.valueTypeList.length + 4
  | .notifying _ => config.valueTypeList.length + 7
  | .signalling _ => config.valueTypeList.length + 8
  | .locking _ => config.valueTypeList.length + 9

def Publisher.rank (config : Config ι) : Publisher ι → Nat
  | .absent | .exited | .waiting => 0
  | .testing timedOut => if timedOut then config.valueTypeList.length + 6 else 1
  | .locking => 2
  | .waking timedOut => if timedOut then config.valueTypeList.length + 7 else 2
  | .publishing publication => publication.rank + 3

def collected (types : ι → CollectorType) (collectors : ∀ i, (types i).Container) (valueTypes : List ι) : Nat :=
  (valueTypes.map fun i => ((types i).lines (collectors i)).length).sum

def State.unwritten (config : Config ι) (s : State types) : Nat :=
  s.owner.lines.length + s.publisher.lines.length + collected types s.collectors config.valueTypeList

def State.ahead (config : Config ι) (s : State types) : Nat :=
  s.unwritten config + s.owner.rank config + s.publisher.rank config

def State.remaining (config : Config ι) (s : State types) : Nat := if s.terminated then 0 else s.ahead config

theorem State.remaining_le_ahead (config : Config ι) (s : State types) : s.remaining config ≤ s.ahead config := by
  unfold State.remaining
  split
  next => exact Nat.zero_le _
  next => exact le_rfl

theorem State.remaining_of_terminated (config : Config ι) (s : State types) :
    State.remaining config { s with terminated := true } = 0 := rfl

variable [DecidableEq ι] {config : Config ι} {s s' : State types}

theorem collected_update (types : ι → CollectorType) (collectors : ∀ i, (types i).Container)
    {valueTypes : List ι} {i : ι}
    (listed : i ∈ valueTypes) :
    ((types i).lines (collectors i)).length +
      collected types (Function.update collectors i (types i).empty) valueTypes ≤
      collected types collectors valueTypes := by
  have each (j : ι) : ((types j).lines (Function.update collectors i (types i).empty j)).length ≤
    ((types j).lines (collectors j)).length := by
    by_cases same : j = i
    next =>
      subst same
      rw [Function.update_self, CollectorType.lines_empty]
      exact Nat.zero_le _
    next => rw [Function.update_of_ne same]
  obtain ⟨before, after, rfl⟩ := List.append_of_mem listed
  have first := List.sum_le_sum fun j (_ : j ∈ before) => each j
  have last := List.sum_le_sum fun j (_ : j ∈ after) => each j
  simp only [collected, List.map_append, List.map_cons, List.sum_append, List.sum_cons, Function.update_self,
    CollectorType.lines_empty, List.length_nil]
  omega

structure Listed (config : Config ι) (s : State types) : Prop where
  owner : s.owner.left config <:+ config.valueTypeList
  publisher : s.publisher.left <:+ config.valueTypeList

omit [DecidableEq ι] in
theorem listed_construct (types : ι → CollectorType) (config : Config ι) : Listed config (construct types config) where
  owner := List.suffix_rfl
  publisher := by
    unfold construct
    cases config.enabled <;> exact List.nil_suffix

theorem left_publish (opening : Opening) (publication : Publication ι) :
    (publish config opening s publication).2.elim [] Publication.left <:+ publication.left := by
  cases publication with
  | opening statsDMetrics => exact List.nil_suffix
  | writing statsDMetrics => cases statsDMetrics <;> exact List.nil_suffix
  | gathering valueTypes statsDMetrics =>
    cases valueTypes with
    | nil => exact List.nil_suffix
    | cons i valueTypes => exact List.suffix_cons i valueTypes

theorem Listed.step {choice : Choice types} (listed : Listed config s) (enabled : config.enabled = true)
    (taken : step config choice s = some s') : Listed config s' := by
  rcases step_cases enabled taken with ⟨j, name, value, rfl⟩ | ⟨opening, publication, owner, rfl⟩ |
    ⟨opening, publication, mutex, publisher, rfl⟩ | apart
  next =>
    unfold store
    split
    next => exact ⟨listed.owner, listed.publisher⟩
    next => exact listed
  next =>
    have before := listed.owner
    rw [owner] at before
    have after := List.IsSuffix.trans (@left_publish _ _ _ config s opening publication) before
    refine ⟨?_, by rw [publish_publisher]; exact listed.publisher⟩
    cases rest : (publish config opening s publication).2 with
    | none => exact List.nil_suffix
    | some rest' =>
      rw [rest] at after
      exact after
  next =>
    have before := listed.publisher
    rw [publisher] at before
    have after := List.IsSuffix.trans (@left_publish _ _ _ config s opening publication) before
    refine ⟨by rw [publish_owner]; exact listed.owner, ?_⟩
    cases rest : (publish config opening s publication).2 with
    | none => exact List.nil_suffix
    | some rest' =>
      rw [rest] at after
      exact after
  next => exact ⟨apart.left ▸ listed.owner, apart.listed listed.publisher⟩

theorem unwritten_publish (opening : Opening) {publication : Publication ι}
    (listed : publication.left <:+ config.valueTypeList) :
    ((publish config opening s publication).2.elim [] Publication.lines).length +
      ((publish config opening s publication).2.elim 0 fun rest => rest.rank + 1) +
      collected types (publish config opening s publication).1.collectors config.valueTypeList <
    publication.lines.length + (publication.rank + 1) + collected types s.collectors config.valueTypeList := by
  cases publication with
  | opening statsDMetrics => simp [publish, Publication.lines, Publication.rank]
  | writing statsDMetrics =>
    cases statsDMetrics with
    | nil => simp [publish, Publication.lines, Publication.rank]
    | cons line statsDMetrics => simp [publish, Publication.lines, Publication.rank]
  | gathering valueTypes statsDMetrics =>
    cases valueTypes with
    | nil => simp [publish, Publication.lines, Publication.rank]
    | cons i valueTypes =>
      have less := collected_update types s.collectors (listed.subset List.mem_cons_self)
      simp only [publish, Publication.lines, Publication.rank, Option.elim_some, List.length_append, List.length_cons]
      omega

omit [DecidableEq ι] in
theorem remaining_lt (alive : s.terminated = false) (less : s'.ahead config < s.ahead config) :
    s'.remaining config < s.remaining config := by
  have whole : s.remaining config = s.ahead config := by simp [State.remaining, alive]
  rw [whole]
  exact lt_of_le_of_lt (State.remaining_le_ahead config s') less

omit [DecidableEq ι] in
theorem remaining_pos (alive : s.terminated = false) (active : 0 < s.owner.rank config ∨ 0 < s.publisher.rank config) :
    0 < s.remaining config := by
  have whole : s.remaining config = s.ahead config := by simp [State.remaining, alive]
  rw [whole, State.ahead]
  omega

theorem proceedOwner_remaining {opening : Opening} (listed : Listed config s) (alive : s.terminated = false)
    (taken : proceedOwner config opening s = some s') : s'.remaining config < s.remaining config := by
  unfold proceedOwner at taken
  split at taken
  next => cases taken
  next => cases taken
  next last owner =>
    obtain ⟨mutex, -, rfl⟩ := Option.map_eq_some_iff.mp taken
    refine remaining_lt alive ?_
    simp [State.ahead, State.unwritten, owner, Owner.rank, Owner.lines]
  next last owner =>
    obtain rfl := Option.some.inj taken
    refine remaining_lt alive ?_
    simp [State.ahead, State.unwritten, owner, Owner.rank, Owner.lines]
  next last owner =>
    obtain rfl := Option.some.inj taken
    have same : s.publisher.notified.lines = s.publisher.lines := by cases s.publisher <;> rfl
    have few : s.publisher.notified.rank config ≤ s.publisher.rank config + 2 := by
      cases s.publisher <;> simp [Publisher.notified, Publisher.rank]
    refine remaining_lt alive ?_
    simp only [State.ahead, State.unwritten, owner, Owner.rank, Owner.lines, same]
    omega
  next last owner =>
    have none : (afterStop config last).lines = [] := by cases last <;> rfl
    have less : (afterStop config last).rank config < (Owner.joining last).rank config := by
      cases last <;> simp [afterStop, Owner.rank, Publication.rank]
    have nothing : (Owner.joining last : Owner ι).lines = [] := rfl
    split at taken
    next =>
      split at taken
      next =>
        obtain rfl := Option.some.inj taken
        refine remaining_lt alive ?_
        simp only [State.ahead, State.unwritten, owner, nothing, none]
        omega
      next => cases taken
    next =>
      obtain rfl := Option.some.inj taken
      refine remaining_lt alive ?_
      simp only [State.ahead, State.unwritten, owner, nothing, none]
      omega
  next publication owner =>
    split at taken
    next =>
      obtain rfl := Option.some.inj taken
      rw [State.remaining_of_terminated]
      exact remaining_pos alive (.inl (by simp [owner, Owner.rank]))
    next =>
      obtain rfl := Option.some.inj taken
      have before := listed.owner
      rw [owner] at before
      have less := @unwritten_publish _ _ _ _ s opening publication before
      refine remaining_lt alive ?_
      simp only [State.ahead, State.unwritten, owner, Owner.rank, Owner.lines, publish_publisher]
      cases rest : (publish config opening s publication).2 with
      | none =>
        simp only [rest, Option.elim_none, List.length_nil] at less ⊢
        omega
      | some rest' =>
        simp only [rest, Option.elim_some] at less ⊢
        omega

theorem proceedPublisher_remaining {opening : Opening} (listed : Listed config s) (alive : s.terminated = false)
    (taken : proceedPublisher config opening s = some s') : s'.remaining config < s.remaining config := by
  unfold proceedPublisher at taken
  split at taken
  next => cases taken
  next => cases taken
  next => cases taken
  next locking =>
    obtain ⟨mutex, -, rfl⟩ := Option.map_eq_some_iff.mp taken
    refine remaining_lt alive ?_
    simp [State.ahead, State.unwritten, locking, Publisher.rank, Publisher.lines]
  next timedOut waking =>
    obtain ⟨mutex, -, rfl⟩ := Option.map_eq_some_iff.mp taken
    refine remaining_lt alive ?_
    cases timedOut <;> simp [State.ahead, State.unwritten, waking, Publisher.rank, Publisher.lines]
  next timedOut testing =>
    split at taken
    next =>
      obtain rfl := Option.some.inj taken
      refine remaining_lt alive ?_
      cases timedOut <;> simp [State.ahead, State.unwritten, testing, Publisher.rank, Publisher.lines]
    next =>
      split at taken
      next timedOut =>
        obtain rfl := Option.some.inj taken
        refine remaining_lt alive ?_
        simp [State.ahead, State.unwritten, testing, timedOut, Publisher.rank, Publisher.lines, Publication.lines,
          Publication.rank]
      next timedOut =>
        obtain rfl := Option.some.inj taken
        refine remaining_lt alive ?_
        simp [State.ahead, State.unwritten, testing, timedOut, Publisher.rank, Publisher.lines]
  next publication publishing =>
    split at taken
    next =>
      obtain rfl := Option.some.inj taken
      rw [State.remaining_of_terminated]
      exact remaining_pos alive (.inr (by simp [publishing, Publisher.rank]))
    next =>
      have before := listed.publisher
      rw [publishing] at before
      have less := @unwritten_publish _ _ _ _ s opening publication before
      split at taken
      next between rest published =>
        obtain rfl := Option.some.inj taken
        have same : between.owner = s.owner := by rw [← publish_owner config opening s publication, published]
        rw [published] at less
        refine remaining_lt alive ?_
        simp only [State.ahead, State.unwritten, publishing, Publisher.rank, Publisher.lines, same]
        simp only [Option.elim_some] at less
        omega
      next between published =>
        obtain rfl := Option.some.inj taken
        have same : between.owner = s.owner := by rw [← publish_owner config opening s publication, published]
        rw [published] at less
        refine remaining_lt alive ?_
        simp only [State.ahead, State.unwritten, publishing, Publisher.rank, Publisher.lines, same]
        simp only [Option.elim_none] at less
        simp only [List.length_nil] at less ⊢
        omega

section Stuck

variable {opening : Opening} (ordered : Ordered config s) (publisher : proceedPublisher config opening s = none)

include ordered publisher

theorem publisher_of_stuck (released : s.owner.hold = .released) :
    s.publisher = .absent ∨ s.publisher = .waiting ∨ s.publisher = .exited := by
  have locks (also : s.publisher.hold = .released) : s.shutDownMutex.lock .publisher ≠ none :=
    (ordered.mutex.lock_ne_none_iff .publisher).mpr fun thread => by
      cases thread with
      | owner => exact released
      | publisher => exact also
  unfold proceedPublisher at publisher
  cases at' : s.publisher with
  | absent => exact .inl rfl
  | waiting => exact .inr (.inl rfl)
  | exited => exact .inr (.inr rfl)
  | locking =>
    simp only [at', Option.map_eq_none_iff] at publisher
    exact absurd publisher (locks (by rw [at']; rfl))
  | waking timedOut =>
    simp only [at', Option.map_eq_none_iff] at publisher
    exact absurd publisher (locks (by rw [at']; rfl))
  | testing timedOut =>
    simp only [at'] at publisher
    split at publisher
    next => cases publisher
    next => split at publisher <;> cases publisher
  | publishing publication =>
    simp only [at'] at publisher
    split at publisher
    next => cases publisher
    next => split at publisher <;> cases publisher

theorem owner_of_stuck (owner : proceedOwner config opening s = none) : s.owner = .between ∨ s.owner = .destroyed := by
  have quiet := publisher_of_stuck ordered publisher
  unfold proceedOwner at owner
  cases at' : s.owner with
  | between => exact .inl rfl
  | destroyed => exact .inr rfl
  | locking last =>
    rw [at'] at quiet
    simp only [at', Option.map_eq_none_iff] at owner
    refine absurd owner ((ordered.mutex.lock_ne_none_iff .owner).mpr fun thread => ?_)
    cases thread with
    | owner => simp [State.hold, at', Owner.hold]
    | publisher => rcases quiet rfl with absent | waiting | exited <;> simp [State.hold, Publisher.hold, *]
  | signalling last => simp [at'] at owner
  | notifying last => simp [at'] at owner
  | joining last =>
    rw [at'] at quiet
    have set := ordered.signalled (by rw [at']; rfl)
    have enabled := ordered.enabled (by rw [at']; simp) (by rw [at']; simp)
    rcases quiet rfl with absent | waiting | exited
    next => cases enabled.symm.trans (ordered.started.mp absent)
    next =>
      obtain ⟨last', notifying⟩ := ordered.noticed waiting set
      cases at'.symm.trans notifying
    next =>
      simp only [at', exited] at owner
      split at owner <;> cases owner
  | publishing publication =>
    simp only [at'] at owner
    split at owner <;> cases owner

end Stuck

theorem proceed_remaining {thread : Thread} {opening : Opening} (listed : Listed config s)
    (taken : step config (.proceed thread opening) s = some s') : s'.remaining config < s.remaining config := by
  obtain ⟨alive, taken⟩ := step_iff.mp taken
  cases thread with
  | owner => exact proceedOwner_remaining listed alive taken
  | publisher => exact proceedPublisher_remaining listed alive taken

theorem run_remaining {turns : List (Thread × Opening)} (enabled : config.enabled = true) (listed : Listed config s)
    (taken : run (step config) s (turns.map fun turn => .proceed turn.1 turn.2) = some s') :
    turns.length + s'.remaining config ≤ s.remaining config := by
  induction turns generalizing s with
  | nil =>
    obtain rfl := Option.some.inj taken
    exact (Nat.zero_add _).le
  | cons turn turns ih =>
    obtain ⟨between, first, rest⟩ := Option.bind_eq_some_iff.mp taken
    have less := proceed_remaining listed first
    have onwards := ih (listed.step enabled first) rest
    rw [List.length_cons]
    omega

theorem terminated_step {thread : Thread} {opening : Opening}
    (granted : config.publishMethod = .stdErr ∨ opening.refused = false)
    (taken : step config (.proceed thread opening) s = some s') : s'.terminated = s.terminated := by
  obtain ⟨-, taken⟩ := step_iff.mp taken
  have quiet (publication : Publication ι) : throws config opening publication = false := by
    cases publication with
    | opening statsDMetrics => rcases granted with stdErr | opened <;> simp [throws, *]
    | gathering | writing => rfl
  cases thread with
  | owner =>
    simp only [advance, proceedOwner, quiet] at taken
    split at taken
    next => cases taken
    next => cases taken
    next last owner =>
      obtain ⟨mutex, -, rfl⟩ := Option.map_eq_some_iff.mp taken
      rfl
    next last owner =>
      obtain rfl := Option.some.inj taken
      rfl
    next last owner =>
      obtain rfl := Option.some.inj taken
      rfl
    next last owner =>
      split at taken
      next =>
        split at taken
        next =>
          obtain rfl := Option.some.inj taken
          rfl
        next => cases taken
      next =>
        obtain rfl := Option.some.inj taken
        rfl
    next publication owner =>
      obtain rfl := Option.some.inj taken
      exact publish_terminated config opening s publication
  | publisher =>
    simp only [advance, proceedPublisher, quiet] at taken
    split at taken
    next => cases taken
    next => cases taken
    next => cases taken
    next locking =>
      obtain ⟨mutex, -, rfl⟩ := Option.map_eq_some_iff.mp taken
      rfl
    next timedOut waking =>
      obtain ⟨mutex, -, rfl⟩ := Option.map_eq_some_iff.mp taken
      rfl
    next timedOut testing =>
      split at taken
      next =>
        obtain rfl := Option.some.inj taken
        rfl
      next => split at taken <;> exact Option.some.inj taken ▸ rfl
    next publication publishing =>
      have same := publish_terminated config opening s publication
      simp only [Bool.false_eq_true, if_false] at taken
      split at taken
      next between rest published =>
        obtain rfl := Option.some.inj taken
        rwa [published] at same
      next between published =>
        obtain rfl := Option.some.inj taken
        rwa [published] at same

theorem terminated_run {turns : List (Thread × Opening)}
    (granted : ∀ turn ∈ turns, config.publishMethod = .stdErr ∨ turn.2.refused = false)
    (taken : run (step config) s (turns.map fun turn => .proceed turn.1 turn.2) = some s') :
      s'.terminated = s.terminated := by
  induction turns generalizing s with
  | nil =>
    obtain rfl := Option.some.inj taken
    rfl
  | cons turn turns ih =>
    obtain ⟨between, first, rest⟩ := Option.bind_eq_some_iff.mp taken
    have here := terminated_step (granted turn List.mem_cons_self) first
    exact (ih (fun other member => granted other (List.mem_cons_of_mem _ member)) rest).trans here

omit [DecidableEq ι] in
theorem Listed.remaining_le (listed : Listed config s) :
    s.remaining config ≤ s.unwritten config + 2 * config.valueTypeList.length + 16 := by
  have owner : s.owner.rank config ≤ config.valueTypeList.length + 9 := by
    have few := listed.owner.length_le
    cases at' : s.owner with
    | publishing publication =>
      rw [at'] at few
      cases publication with
      | gathering valueTypes statsDMetrics => exact Nat.add_le_add_right few 3 |>.trans (Nat.le_add_right _ 6)
      | opening statsDMetrics => exact Nat.le_add_left 2 _ |>.trans (Nat.le_add_right _ 7)
      | writing statsDMetrics => exact Nat.le_add_left 1 _ |>.trans (Nat.le_add_right _ 8)
    | _ => simp [Owner.rank]
  have publisher : s.publisher.rank config ≤ config.valueTypeList.length + 7 := by
    have few := listed.publisher.length_le
    cases at' : s.publisher with
    | publishing publication =>
      rw [at'] at few
      cases publication with
      | gathering valueTypes statsDMetrics => exact Nat.add_le_add_right few 5 |>.trans (Nat.le_add_right _ 2)
      | opening statsDMetrics => exact Nat.le_add_left 4 _ |>.trans (Nat.le_add_right _ 3)
      | writing statsDMetrics => exact Nat.le_add_left 3 _ |>.trans (Nat.le_add_right _ 4)
    | testing timedOut => cases timedOut <;> simp [Publisher.rank]
    | waking timedOut => cases timedOut <;> simp [Publisher.rank]
    | _ => simp [Publisher.rank]
  have most := s.remaining_le_ahead config
  unfold State.ahead at most
  omega

theorem stop_returns (config : Config ι) (enabled : config.enabled = true) (choices : List (Choice types))
    (s s' : State types)
    (reached : run (step config) (construct types config) choices = some s) (turns : List (Thread × Opening))
    (taken : run (step config) s (turns.map fun turn => .proceed turn.1 turn.2) = some s') :
    turns.length ≤ s.unwritten config + 2 * config.valueTypeList.length + 16 ∧
      ((∀ thread opening, step config (.proceed thread opening) s' = none) →
        s'.owner = .between ∨ s'.owner = .destroyed ∨ s'.terminated = true) ∧
      ((∀ turn ∈ turns, config.publishMethod = .stdErr ∨ turn.2.refused = false) → s'.terminated = s.terminated) := by
  have listed : Listed config s := run_invariant (fun _ _ _ taken listed => listed.step enabled taken) reached
    (listed_construct types config)
  refine ⟨?_, fun stuck => ?_, fun granted => terminated_run granted taken⟩
  next =>
    have bounded := run_remaining enabled listed taken
    have most := listed.remaining_le
    omega
  next =>
    have whole : run (step config) (construct types config) (choices ++ turns.map fun turn => .proceed turn.1 turn.2) =
        some s' := by
      rw [run_append, reached]
      exact taken
    cases ended : s'.terminated with
    | true => exact .inr (.inr rfl)
    | false =>
      have stuck (thread : Thread) : advance config (.proceed thread ⟨[], false⟩) s' = none := by
        have none := stuck thread ⟨[], false⟩
        rwa [step, ended, if_neg Bool.false_ne_true] at none
      exact (owner_of_stuck (ordered_run whole) (stuck .publisher) (stuck .owner)).imp_right .inl

theorem stop_returns_waiting :
    ∃ s s' : State fun _ : Unit => nonAggregatable Nat fun _ name => name,
      run (step ⟨true, true, [()], .file⟩) (construct _ ⟨true, true, [()], .file⟩)
        [.proceed .publisher ⟨[], false⟩, .proceed .publisher ⟨[], false⟩, .stop] = some s ∧
      run (step ⟨true, true, [()], .file⟩) s (([Thread.owner, .owner, .owner, .publisher, .publisher, .owner].map
        fun thread => (thread, Opening.mk [] false)).map fun turn => .proceed turn.1 turn.2) = some s' ∧
      6 ≤ s.unwritten ⟨true, true, [()], .file⟩ + 2 * 1 + 16 ∧
        (s'.owner = .between ∨ s'.owner = .destroyed ∨ s'.terminated = true) ∧ s'.terminated = s.terminated := by
  have returns := @stop_returns Unit (fun _ => nonAggregatable Nat fun _ name => name) _ ⟨true, true, [()], .file⟩ rfl
    [.proceed .publisher ⟨[], false⟩, .proceed .publisher ⟨[], false⟩, .stop] _ _ rfl
    ([Thread.owner, .owner, .owner, .publisher, .publisher, .owner].map fun thread => (thread, Opening.mk [] false)) rfl
  exact ⟨_, _, rfl, rfl, returns.1, returns.2.1 fun thread opening => by cases thread <;> rfl,
    returns.2.2 (by simp)⟩

end BuildboxCommon.Metrics.PublisherDaemon
