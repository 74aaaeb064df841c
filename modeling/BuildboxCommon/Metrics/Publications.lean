import BuildboxCommon.Metrics.PublisherDaemon

set_option autoImplicit false

namespace BuildboxCommon.Metrics

open ByteString Transitions

def CollectorType.collect (type : CollectorType) (values : List (Bytes × type.Value)) : type.Container :=
  values.foldl (fun container entry => type.store container entry.1 entry.2) type.empty

theorem CollectorType.collect_append (type : CollectorType) (values : List (Bytes × type.Value)) (name : Bytes)
    (value : type.Value) :
    type.collect (values ++ [(name, value)]) = type.store (type.collect values) name value := by
  simp [collect]

namespace PublisherDaemon

variable {ι : Type} {types : ι → CollectorType}

def Publication.lines : Publication ι → List Bytes
  | .gathering _ statsDMetrics | .opening statsDMetrics | .writing statsDMetrics => statsDMetrics

def Owner.lines : Owner ι → List Bytes
  | .publishing publication => publication.lines
  | .between | .locking _ | .signalling _ | .notifying _ | .joining _ | .destroyed => []

def Publisher.lines : Publisher ι → List Bytes
  | .publishing publication => publication.lines
  | .absent | .locking | .testing _ | .waiting | .waking _ | .exited => []

def Publication.left : Publication ι → List ι
  | .gathering valueTypes _ => valueTypes
  | .opening _ | .writing _ => []

def Owner.left (config : Config ι) : Owner ι → List ι
  | .publishing publication => publication.left
  | .destroyed => []
  | .between | .locking _ | .signalling _ | .notifying _ | .joining _ => config.valueTypeList

def Publisher.left : Publisher ι → List ι
  | .publishing publication => publication.left
  | .absent | .locking | .testing _ | .waiting | .waking _ | .exited => []

def linesOf (snapshots : List (Σ i, (types i).Container)) : List Bytes :=
  snapshots.flatMap fun snapshot => (types snapshot.1).lines snapshot.2

variable [DecidableEq ι]

def snapshotsOf (i : ι) (snapshots : List (Σ i, (types i).Container)) : List (types i).Container :=
  snapshots.filterMap fun snapshot => if same : snapshot.1 = i then some (same ▸ snapshot.2) else none

def Conserved (i : ι) (before : List (Bytes × (types i).Value)) (left : List ι) (s : State types) : Prop :=
  ∃ (groups : List (List (Bytes × (types i).Value))) (pending : List (Bytes × (types i).Value)),
    snapshotsOf i s.snapshots = groups.map (types i).collect ∧ s.collectors i = (types i).collect pending ∧
      groups.flatten ++ pending = s.stored i ∧ before <+: s.stored i ∧ (i ∉ left → before <+: groups.flatten)

variable {config : Config ι} {s s' : State types} {i : ι} {before : List (Bytes × (types i).Value)}
    {left left' : List ι}

namespace Conserved

variable (conserved : Conserved i before left s)

include conserved

theorem congr (collectors : s'.collectors = s.collectors) (stored : s'.stored = s.stored)
    (snapshots : s'.snapshots = s.snapshots)
    (same : left' = left) : Conserved i before left' s' := by
  obtain ⟨groups, pending, taken, collected, all, earlier, visited⟩ := conserved
  exact ⟨groups, pending, by rw [snapshots, taken], by rw [collectors, collected], by rw [stored, all],
    by rw [stored]; exact earlier,
    by rw [same]; exact visited⟩

theorem store (j : ι) (name : Bytes) (value : (types j).Value) :
    Conserved i before left (store config s j name value) := by
  unfold PublisherDaemon.store
  split
  next =>
    obtain ⟨groups, pending, taken, collected, all, earlier, visited⟩ := conserved
    by_cases same : i = j
    next =>
      subst same
      have extended : Function.update s.stored i (s.stored i ++ [(name, value)]) i = s.stored i ++ [(name, value)] :=
        Function.update_self i _ s.stored
      refine ⟨groups, pending ++ [(name, value)], taken, (Function.update_self i _ s.collectors).trans ?_, ?_,
        ?_, visited⟩
      next => rw [collected, CollectorType.collect_append]
      next => exact (List.append_assoc _ _ _).symm.trans (all ▸ extended.symm)
      next =>
        change before <+: Function.update s.stored i (s.stored i ++ [(name, value)]) i
        rw [extended]
        exact earlier.trans (List.prefix_append _ _)
    next =>
      have stays : Function.update s.stored j (s.stored j ++ [(name, value)]) i = s.stored i :=
        Function.update_of_ne same _ s.stored
      refine ⟨groups, pending, taken, (Function.update_of_ne same _ s.collectors).trans collected,
        all.trans stays.symm, ?_, visited⟩
      change before <+: Function.update s.stored j (s.stored j ++ [(name, value)]) i
      rwa [stays]
  next => exact conserved

theorem publish (opening : Opening) (publication : Publication ι)
    (visits : i ∉ left' → i ∉ left ∨
      ∃ valueTypes statsDMetrics, publication = .gathering (i :: valueTypes) statsDMetrics) :
    Conserved i before left' (publish config opening s publication).1 := by
  obtain ⟨groups, pending, taken, collected, all, earlier, visited⟩ := conserved
  -- Where the collector is not visited.
  have skipped (elsewhere : ∀ valueTypes statsDMetrics, publication ≠ .gathering (i :: valueTypes) statsDMetrics)
    (out : i ∉ left') :
    before <+: groups.flatten :=
    visited ((visits out).resolve_right fun found => by
      obtain ⟨valueTypes, statsDMetrics, same⟩ := found
      exact elsewhere valueTypes statsDMetrics same)
  cases publication with
  | opening statsDMetrics => exact ⟨groups, pending, taken, collected, all, earlier, skipped fun _ _ => by simp⟩
  | writing statsDMetrics =>
    cases statsDMetrics with
    | nil => exact ⟨groups, pending, taken, collected, all, earlier, skipped fun _ _ => by simp⟩
    | cons line statsDMetrics => exact ⟨groups, pending, taken, collected, all, earlier, skipped fun _ _ => by simp⟩
  | gathering valueTypes statsDMetrics =>
    cases valueTypes with
    | nil => exact ⟨groups, pending, taken, collected, all, earlier, skipped fun _ _ => by simp⟩
    | cons j valueTypes =>
      by_cases same : j = i
      next =>
        subst same
        refine ⟨groups ++ [pending], [], ?_, ?_, ?_, earlier, fun _ => ?_⟩
        next => simp [PublisherDaemon.publish, snapshotsOf, List.filterMap_append, ← taken, collected]
        next => simp [PublisherDaemon.publish, CollectorType.collect]
        next => simpa [PublisherDaemon.publish] using all
        next =>
          rw [List.flatten_append, List.flatten_singleton, all]
          exact earlier
      next =>
        refine ⟨groups, pending, ?_, ?_, all, earlier, skipped fun _ _ => by simp [same]⟩
        next =>
          rw [← taken]
          simp [PublisherDaemon.publish, snapshotsOf, List.filterMap_append, same]
        next => simp [PublisherDaemon.publish, Function.update_of_ne (Ne.symm same), collected]

end Conserved

theorem lines_publish {opening : Opening} {publication : Publication ι}
    (written : s.output.filterMap Line.statsD ++ publication.lines = linesOf s.snapshots) :
    (publish config opening s publication).1.output.filterMap Line.statsD ++
      (publish config opening s publication).2.elim [] Publication.lines =
      linesOf (publish config opening s publication).1.snapshots := by
  cases publication with
  | opening statsDMetrics =>
    refine Eq.trans ?_ written
    simp [publish, Publication.lines]
  | writing statsDMetrics =>
    cases statsDMetrics with
    | nil => exact written
    | cons line statsDMetrics =>
      refine Eq.trans ?_ written
      simp [publish, Publication.lines, Line.statsD]
  | gathering valueTypes statsDMetrics =>
    cases valueTypes with
    | nil => exact written
    | cons j valueTypes =>
      have more := congrArg (· ++ (types j).lines (s.collectors j)) written
      simpa [publish, Publication.lines, linesOf] using more

def Plain (config : Config ι) (s : State types) : Prop :=
  config.publishMethod ≠ .stdErr → s.output = (s.output.filterMap Line.statsD).map .metric

theorem Plain.publish {opening : Opening} {publication : Publication ι} (plain : Plain config s) :
    Plain config (publish config opening s publication).1 := by
  intro other
  have plain := plain other
  cases publication with
  | opening statsDMetrics =>
    have none : header config opening = [] := by
      unfold header
      split
      next stdErr => exact absurd stdErr other
      all_goals rfl
    simpa only [PublisherDaemon.publish, none, List.append_nil] using plain
  | writing statsDMetrics =>
    cases statsDMetrics with
    | nil => exact plain
    | cons line statsDMetrics =>
      simp only [PublisherDaemon.publish, List.filterMap_append, List.map_append, ← plain]
      rfl
  | gathering valueTypes statsDMetrics => cases valueTypes <;> exact plain

def Written (s : State types) : Prop :=
  s.output.filterMap Line.statsD ++ (s.owner.lines ++ s.publisher.lines) = linesOf s.snapshots

structure Apart (config : Config ι) (s s' : State types) : Prop where
  collectors : s'.collectors = s.collectors
  output : s'.output = s.output
  stored : s'.stored = s.stored
  snapshots : s'.snapshots = s.snapshots
  owner : s'.owner.lines = s.owner.lines
  publisher : s'.publisher.lines = s.publisher.lines
  left : s'.owner.left config = s.owner.left config
  listed : s.publisher.left <:+ config.valueTypeList → s'.publisher.left <:+ config.valueTypeList

theorem step_cases {choice : Choice types} (enabled : config.enabled = true) (taken : step config choice s = some s') :
    (∃ i name value, s' = store config s i name value) ∨
    (∃ opening publication, s.owner = .publishing publication ∧
      s' = { (publish config opening s publication).1 with
        owner := (publish config opening s publication).2.elim .destroyed .publishing }) ∨
    (∃ opening publication mutex, s.publisher = .publishing publication ∧
      s' = { (publish config opening s publication).1 with
        publisher := (publish config opening s publication).2.elim .locking .publishing, shutDownMutex := mutex }) ∨
    Apart config s s' := by
  obtain ⟨-, taken⟩ := step_iff.mp taken
  cases choice with
  | store i name value => exact .inl ⟨i, name, value, (Option.some.inj taken).symm⟩
  | stop =>
    simp only [advance] at taken
    split at taken
    next between =>
      obtain rfl := Option.some.inj taken
      rw [enabled, if_pos rfl]
      exact .inr (.inr (.inr ⟨rfl, rfl, rfl, rfl, by rw [between]; rfl, rfl, by rw [between]; rfl, id⟩))
    next => cases taken
  | destroy =>
    simp only [advance] at taken
    split at taken
    next between =>
      obtain rfl := Option.some.inj taken
      rw [enabled, if_pos rfl]
      exact .inr (.inr (.inr ⟨rfl, rfl, rfl, rfl, by rw [between]; rfl, rfl, by rw [between]; rfl, id⟩))
    next => cases taken
  | elapse =>
    simp only [advance] at taken
    split at taken
    next waiting =>
      obtain rfl := Option.some.inj taken
      exact .inr (.inr (.inr ⟨rfl, rfl, rfl, rfl, rfl, by rw [waiting]; rfl, rfl, fun _ => List.nil_suffix⟩))
    next => cases taken
  | wake =>
    simp only [advance] at taken
    split at taken
    next waiting =>
      obtain rfl := Option.some.inj taken
      exact .inr (.inr (.inr ⟨rfl, rfl, rfl, rfl, rfl, by rw [waiting]; rfl, rfl, fun _ => List.nil_suffix⟩))
    next => cases taken
  | proceed thread opening =>
    cases thread with
    | owner =>
      simp only [advance, proceedOwner] at taken
      split at taken
      next => cases taken
      next => cases taken
      next last owner =>
        obtain ⟨mutex, -, rfl⟩ := Option.map_eq_some_iff.mp taken
        exact .inr (.inr (.inr ⟨rfl, rfl, rfl, rfl, by rw [owner]; rfl, rfl, by rw [owner]; rfl, id⟩))
      next last owner =>
        obtain rfl := Option.some.inj taken
        exact .inr (.inr (.inr ⟨rfl, rfl, rfl, rfl, by rw [owner]; rfl, rfl, by rw [owner]; rfl, id⟩))
      next last owner =>
        obtain rfl := Option.some.inj taken
        refine .inr (.inr (.inr ⟨rfl, rfl, rfl, rfl, by rw [owner]; rfl, ?_, by rw [owner]; rfl, ?_⟩))
        next => cases s.publisher <;> rfl
        next => cases s.publisher <;> exact id
      next last owner =>
        have lines : (afterStop config last).lines = [] := by cases last <;> rfl
        have left : (afterStop config last).left config = config.valueTypeList := by cases last <;> rfl
        split at taken
        next =>
          split at taken
          next =>
            obtain rfl := Option.some.inj taken
            exact .inr (.inr (.inr ⟨rfl, rfl, rfl, rfl, by rw [lines, owner]; rfl, rfl, by rw [left, owner]; rfl, id⟩))
          next => cases taken
        next =>
          obtain rfl := Option.some.inj taken
          exact .inr (.inr (.inr ⟨rfl, rfl, rfl, rfl, by rw [lines, owner]; rfl, rfl, by rw [left, owner]; rfl, id⟩))
      next publication owner =>
        split at taken
        next =>
          obtain rfl := Option.some.inj taken
          exact .inr (.inr (.inr ⟨rfl, rfl, rfl, rfl, rfl, rfl, rfl, id⟩))
        next => exact .inr (.inl ⟨opening, publication, owner, (Option.some.inj taken).symm⟩)
    | publisher =>
      simp only [advance, proceedPublisher] at taken
      split at taken
      next => cases taken
      next => cases taken
      next => cases taken
      next locking =>
        obtain ⟨mutex, -, rfl⟩ := Option.map_eq_some_iff.mp taken
        exact .inr (.inr (.inr ⟨rfl, rfl, rfl, rfl, rfl, by rw [locking]; rfl, rfl, fun _ => List.nil_suffix⟩))
      next timedOut waking =>
        obtain ⟨mutex, -, rfl⟩ := Option.map_eq_some_iff.mp taken
        exact .inr (.inr (.inr ⟨rfl, rfl, rfl, rfl, rfl, by rw [waking]; rfl, rfl, fun _ => List.nil_suffix⟩))
      next timedOut testing =>
        split at taken
        next =>
          obtain rfl := Option.some.inj taken
          exact .inr (.inr (.inr ⟨rfl, rfl, rfl, rfl, rfl, by rw [testing]; rfl, rfl, fun _ => List.nil_suffix⟩))
        next =>
          split at taken
          next =>
            obtain rfl := Option.some.inj taken
            exact .inr (.inr (.inr ⟨rfl, rfl, rfl, rfl, rfl, by rw [testing]; rfl, rfl, fun _ => List.suffix_rfl⟩))
          next =>
            obtain rfl := Option.some.inj taken
            exact .inr (.inr (.inr ⟨rfl, rfl, rfl, rfl, rfl, by rw [testing]; rfl, rfl, fun _ => List.nil_suffix⟩))
      next publication publishing =>
        split at taken
        next =>
          obtain rfl := Option.some.inj taken
          exact .inr (.inr (.inr ⟨rfl, rfl, rfl, rfl, rfl, rfl, rfl, id⟩))
        next =>
          refine .inr (.inr (.inl ⟨opening, publication, ?_⟩))
          split at taken
          next between rest published =>
            obtain rfl := Option.some.inj taken
            exact ⟨between.shutDownMutex, publishing, by rw [published]; rfl⟩
          next between published =>
            obtain rfl := Option.some.inj taken
            exact ⟨between.shutDownMutex.unlock, publishing, by rw [published]; rfl⟩

theorem Written.step {choice : Choice types} (written : Written s) (ordered : Ordered config s)
    (enabled : config.enabled = true)
    (taken : step config choice s = some s') : Written s' := by
  unfold Written at *
  rcases step_cases enabled taken with ⟨i, name, value, rfl⟩ | ⟨opening, publication, owner, rfl⟩ |
    ⟨opening, publication, mutex, publisher, rfl⟩ | apart
  next =>
    unfold store
    split <;> exact written
  next =>
    have none : s.publisher.lines = [] := by
      have alone := ordered.not_publishing (by rw [owner]; rfl)
      cases at' : s.publisher with
      | publishing other => exact absurd at' (alone other)
      | _ => rfl
    rw [none, List.append_nil, owner] at written
    have more := @lines_publish _ _ _ config _ opening _ written
    rw [publish_publisher, none, List.append_nil, ← more]
    cases (publish config opening s publication).2 <;> rfl
  next =>
    have none : s.owner.lines = [] := by
      cases at' : s.owner with
      | publishing other => exact absurd publisher (ordered.not_publishing (by rw [at']; rfl) publication)
      | _ => rfl
    rw [none, List.nil_append, publisher] at written
    have more := @lines_publish _ _ _ config _ opening _ written
    rw [publish_owner, none, List.nil_append, ← more]
    cases (publish config opening s publication).2 <;> rfl
  next => rw [apart.output, apart.owner, apart.publisher, apart.snapshots, written]

theorem Plain.step {choice : Choice types} (plain : Plain config s) (enabled : config.enabled = true)
    (taken : step config choice s = some s') : Plain config s' := by
  rcases step_cases enabled taken with ⟨i, name, value, rfl⟩ | ⟨opening, publication, owner, rfl⟩ |
    ⟨opening, publication, mutex, publisher, rfl⟩ | apart
  next =>
    unfold store
    split <;> exact plain
  next => exact plain.publish
  next => exact plain.publish
  next =>
    unfold Plain
    rw [apart.output]
    exact plain

theorem Conserved.step {choice : Choice types} (conserved : Conserved i before (s.owner.left config) s)
    (enabled : config.enabled = true)
    (taken : PublisherDaemon.step config choice s = some s') : Conserved i before (s'.owner.left config) s' := by
  rcases step_cases enabled taken with ⟨j, name, value, rfl⟩ | ⟨opening, publication, owner, rfl⟩ |
    ⟨opening, publication, mutex, publisher, rfl⟩ | apart
  next =>
    have more := @Conserved.store _ _ _ config _ _ _ _ conserved j name value
    have same : (PublisherDaemon.store config s j name value).owner = s.owner := by
      unfold PublisherDaemon.store
      split <;> rfl
    rwa [same]
  next =>
    refine (conserved.publish opening publication ?_).congr rfl rfl rfl rfl
    intro out
    rw [owner]
    cases publication with
    | opening statsDMetrics => exact .inl List.not_mem_nil
    | writing statsDMetrics => exact .inl List.not_mem_nil
    | gathering valueTypes statsDMetrics =>
      cases valueTypes with
      | nil => exact .inl List.not_mem_nil
      | cons j valueTypes =>
        by_cases same : i = j
        next => exact .inr ⟨valueTypes, statsDMetrics, by rw [same]⟩
        next => exact .inl (List.not_mem_cons_of_ne_of_not_mem same out)
  next =>
    refine (conserved.publish opening publication ?_).congr rfl rfl rfl rfl
    intro out
    rw [publish_owner] at out
    exact .inl out
  next => exact conserved.congr apart.collectors apart.stored apart.snapshots apart.left

theorem conserved_run {choices : List (Choice types)} (enabled : config.enabled = true)
    (taken : run (step config) s choices = some s')
    (conserved : Conserved i before (s.owner.left config) s) : Conserved i before (s'.owner.left config) s' := by
  have each (choice : Choice types) (s s' : State types) (taken : step config choice s = some s')
      (conserved : Conserved i before (s.owner.left config) s) : Conserved i before (s'.owner.left config) s' :=
    conserved.step enabled taken
  exact run_invariant each taken conserved

theorem conserved_construct (config : Config ι) (i : ι) : Conserved i [] left (construct types config) :=
  ⟨[], [], rfl, rfl, rfl, List.nil_prefix, fun _ => List.nil_prefix⟩

theorem plain_run {choices : List (Choice types)} (enabled : config.enabled = true)
    (reached : run (step config) (construct types config) choices = some s) : Plain config s := by
  have each (choice : Choice types) (s s' : State types) (taken : step config choice s = some s')
    (plain : Plain config s) :
    Plain config s' := plain.step enabled taken
  exact run_invariant each reached fun _ => rfl

theorem written_run {choices : List (Choice types)} (enabled : config.enabled = true)
    (reached : run (step config) (construct types config) choices = some s) : Written s := by
  have each (choice : Choice types) (s s' : State types) (taken : step config choice s = some s')
      (both : Ordered config s ∧ Written s) : Ordered config s' ∧ Written s' :=
    ⟨both.1.step taken, both.2.step both.1 enabled taken⟩
  have written : Written (construct types config) := by
    simp [Written, construct, enabled, Owner.lines, Publisher.lines, linesOf]
  exact (run_invariant each reached ⟨ordered_construct types config, written⟩).2

theorem destructor_publishes (config : Config ι) (enabled : config.enabled = true) (choices : List (Choice types))
    (s s' : State types)
    (reached : run (step config) (construct types config) choices = some s) (more : List (Choice types))
    (taken : run (step config) s more = some s') (alive : s.owner = .between) (gone : s'.owner = .destroyed) :
    s'.output.filterMap Line.statsD = linesOf s'.snapshots ∧
      (config.publishMethod ≠ .stdErr → s'.output = (linesOf s'.snapshots).map .metric) ∧ ∀ i ∈ config.valueTypeList,
      ∃ groups : List (List (Bytes × (types i).Value)), snapshotsOf i s'.snapshots = groups.map (types i).collect ∧
        s.stored i <+: groups.flatten ∧ groups.flatten <+: s'.stored i := by
  have whole : run (step config) (construct types config) (choices ++ more) = some s' := by
    rw [run_append, reached]
    exact taken
  have written : s'.output.filterMap Line.statsD = linesOf s'.snapshots := by
    have written := written_run enabled whole
    have exited := (ordered_run whole).not_publishing (by rw [gone]; rfl)
    have none : s'.publisher.lines = [] := by
      cases at' : s'.publisher with
      | publishing publication => exact absurd at' (exited publication)
      | _ => rfl
    rwa [Written, none, gone, List.append_nil, Owner.lines, List.append_nil] at written
  refine ⟨written, fun other => ?_, fun i listed => ?_⟩
  next => rw [← written, ← plain_run enabled whole other]
  next =>
    obtain ⟨groups, pending, snapshots, collected, all, -, -⟩ :=
      conserved_run enabled reached (conserved_construct config i)
    have unvisited : i ∈ s.owner.left config := by rwa [alive]
    have start : Conserved i (s.stored i) (s.owner.left config) s :=
      ⟨groups, pending, snapshots, collected, all, List.prefix_rfl, fun out => absurd unvisited out⟩
    obtain ⟨groups', pending', snapshots', -, all', -, visited⟩ := conserved_run enabled taken start
    rw [gone] at visited
    exact ⟨groups', snapshots', visited List.not_mem_nil, pending', all'⟩

theorem destructor_publishes_pair :
    ∃ s s' : State fun _ : Unit => nonAggregatable Nat fun _ name => name,
      run (step ⟨true, true, [()], .stdErr⟩) (construct _ ⟨true, true, [()], .stdErr⟩) ([.store () [97] (1 : Nat)] ++
        List.replicate 2 (.proceed .publisher ⟨[49], false⟩) ++ [.elapse] ++
        List.replicate 7 (.proceed .publisher ⟨[49], false⟩) ++ [.store () [98] (2 : Nat)]) = some s ∧
      run (step ⟨true, true, [()], .stdErr⟩) s ([.destroy] ++ List.replicate 3 (.proceed .owner ⟨[50], false⟩) ++
        List.replicate 2 (.proceed .publisher ⟨[50], false⟩) ++ List.replicate 6 (.proceed .owner ⟨[50], false⟩)) =
          some s' ∧
      s'.output = [.header [49], .metric [97], .header [50], .metric [98]] ∧
      s'.output.filterMap Line.statsD = linesOf s'.snapshots ∧ ∀ i ∈ [()], ∃ groups : List (List (Bytes × Nat)),
        snapshotsOf i s'.snapshots = groups.map (nonAggregatable Nat fun _ name => name).collect ∧
          s.stored i <+: groups.flatten ∧ groups.flatten <+: s'.stored i := by
  have publishes := @destructor_publishes Unit (fun _ => nonAggregatable Nat fun _ name => name) _
    ⟨true, true, [()], .stdErr⟩ rfl
    ([.store () [97] (1 : Nat)] ++ List.replicate 2 (.proceed .publisher ⟨[49], false⟩) ++ [.elapse] ++
      List.replicate 7 (.proceed .publisher ⟨[49], false⟩) ++ [.store () [98] (2 : Nat)]) _ _ rfl
    ([.destroy] ++ List.replicate 3 (.proceed .owner ⟨[50], false⟩) ++
      List.replicate 2 (.proceed .publisher ⟨[50], false⟩) ++
      List.replicate 6 (.proceed .owner ⟨[50], false⟩)) rfl rfl rfl
  exact ⟨_, _, rfl, rfl, rfl, publishes.1, publishes.2.2⟩

end PublisherDaemon

end BuildboxCommon.Metrics
