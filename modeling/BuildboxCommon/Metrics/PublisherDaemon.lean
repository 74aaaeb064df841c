import BuildboxCommon.Metrics.MetricCollector
import BuildboxCommon.Shared.Locks
import BuildboxCommon.Shared.Transitions

set_option autoImplicit false

namespace BuildboxCommon.Metrics

open ByteString Locks Transitions

structure CollectorType where
  Value : Type
  Container : Type
  empty : Container
  store : Container → Bytes → Value → Container
  lines : Container → List Bytes
  lines_empty : lines empty = []

def aggregatable (V : Type) [ValueType V] (order : IterationOrder (id : Bytes → Bytes) V) : CollectorType where
  Value := V
  Container := MetricsMap V
  empty := .empty
  store := fun metrics name value => (MetricCollector.store ⟨metrics, []⟩ name value).metrics
  lines := MetricCollector.gatherStatsD order
  lines_empty := by
    have none : order.visit .empty = [] := List.perm_nil.mp (order.perm .empty)
    rw [MetricCollector.gatherStatsD, none, List.map_nil]

def nonAggregatable (V : Type) (toStatsD : V → Bytes → Bytes) : CollectorType where
  Value := V
  Container := List (Bytes × V)
  empty := []
  store := fun metrics name value => metrics ++ [(name, value)]
  lines := fun metrics => metrics.map fun entry => toStatsD entry.2 entry.1
  lines_empty := rfl

namespace PublisherDaemon

inductive Thread where
  | owner
  | publisher
deriving DecidableEq

inductive PublishMethod where
  | stdErr
  | file
  | udp
deriving DecidableEq

inductive Line where
  | header (now : Bytes)
  | metric (statsD : Bytes)

def Line.text : Line → Bytes
  | .header now => now ++ ByteString.text " buildbox Metrics:\n"
  | .metric statsD => statsD ++ ByteString.text "\n"

def Line.statsD : Line → Option Bytes
  | .header _ => none
  | .metric statsD => some statsD

inductive Publication (ι : Type) where
  | gathering (valueTypes : List ι) (statsDMetrics : List Bytes)
  | opening (statsDMetrics : List Bytes)
  | writing (statsDMetrics : List Bytes)

inductive Owner (ι : Type) where
  | between
  | locking (last : Bool)
  | signalling (last : Bool)
  | notifying (last : Bool)
  | joining (last : Bool)
  | publishing (publication : Publication ι)
  | destroyed

inductive Publisher (ι : Type) where
  | absent
  | locking
  | testing (timedOut : Bool)
  | waiting
  | waking (timedOut : Bool)
  | publishing (publication : Publication ι)
  | exited

def Owner.hold {ι : Type} : Owner ι → Hold
  | .signalling _ => .exclusive
  | .between | .locking _ | .notifying _ | .joining _ | .publishing _ | .destroyed => .released

def Publisher.hold {ι : Type} : Publisher ι → Hold
  | .testing _ | .publishing _ => .exclusive
  | .absent | .locking | .waiting | .waking _ | .exited => .released

def Publisher.notified {ι : Type} : Publisher ι → Publisher ι
  | .waiting => .waking false
  | .absent => .absent
  | .locking => .locking
  | .testing timedOut => .testing timedOut
  | .waking timedOut => .waking timedOut
  | .publishing publication => .publishing publication
  | .exited => .exited

structure Config (ι : Type) where
  enabled : Bool
  metricsEnabled : Bool
  valueTypeList : List ι
  publishMethod : PublishMethod

structure Opening where
  now : Bytes
  refused : Bool

structure State {ι : Type} (types : ι → CollectorType) where
  owner : Owner ι
  publisher : Publisher ι
  shutDownMutex : Lock Thread
  shutDown : Bool
  joinable : Bool
  terminated : Bool
  collectors : ∀ i, (types i).Container
  output : List Line
  -- What was stored, and the snapshots that were taken: the oldest in front. No call looks at these.
  stored : ∀ i, List (Bytes × (types i).Value)
  snapshots : List (Σ i, (types i).Container)

inductive Choice {ι : Type} (types : ι → CollectorType) where
  | store (i : ι) (name : Bytes) (value : (types i).Value)
  | stop
  | destroy
  | proceed (thread : Thread) (opening : Opening)
  | elapse
  | wake

variable {ι : Type} {types : ι → CollectorType}

def construct (types : ι → CollectorType) (config : Config ι) : State types where
  owner := .between
  publisher := if config.enabled then .locking else .absent
  shutDownMutex := .free
  shutDown := false
  joinable := config.enabled
  terminated := false
  collectors := fun i => (types i).empty
  output := []
  stored := fun _ => []
  snapshots := []

variable {config : Config ι} {s s' : State types}

def State.hold (s : State types) : Thread → Hold
  | .owner => s.owner.hold
  | .publisher => s.publisher.hold

@[simp] theorem Publisher.notified_hold (publisher : Publisher ι) : publisher.notified.hold = publisher.hold := by
  cases publisher <;> rfl

def Owner.signalled : Owner ι → Bool
  | .notifying _ | .joining _ => true
  | .between | .locking _ | .signalling _ | .publishing _ | .destroyed => false

def Owner.stopped : Owner ι → Bool
  | .publishing _ | .destroyed => true
  | .between | .locking _ | .signalling _ | .notifying _ | .joining _ => false

structure Ordered (config : Config ι) (s : State types) : Prop where
  mutex : Tracks s.shutDownMutex s.hold id
  started : s.publisher = .absent ↔ config.enabled = false
  disabled : config.enabled = false → s.joinable = false ∧ (s.owner = .between ∨ s.owner = .destroyed)
  signalled : s.owner.signalled → s.shutDown = true
  -- No wake-up is lost.
  noticed : s.publisher = .waiting → s.shutDown = true → ∃ last, s.owner = .notifying last
  joined : s.joinable = false → s.publisher = .absent ∨ s.publisher = .exited
  stopped : s.owner.stopped → s.joinable = false

theorem tracks_owner {mutex : Lock Thread} {hold : Hold} (tracks : Tracks mutex (Function.update s.hold .owner hold) id)
    (owner : s'.owner.hold = hold) (publisher : s'.publisher.hold = s.publisher.hold) : Tracks mutex s'.hold id := by
  have same : s'.hold = Function.update s.hold .owner hold := by
    funext thread
    cases thread with
    | owner => exact owner
    | publisher => exact publisher
  rwa [same]

theorem tracks_publisher {mutex : Lock Thread} {hold : Hold}
    (tracks : Tracks mutex (Function.update s.hold .publisher hold) id) (owner : s'.owner.hold = s.owner.hold)
    (publisher : s'.publisher.hold = hold) : Tracks mutex s'.hold id := by
  have same : s'.hold = Function.update s.hold .publisher hold := by
    funext thread
    cases thread with
    | owner => exact owner
    | publisher => exact publisher
  rwa [same]

theorem ordered_construct (types : ι → CollectorType) (config : Config ι) :
    Ordered config (construct types config) where
  mutex := .free _ fun thread => by
    cases thread with
    | owner => rfl
    | publisher =>
      simp only [State.hold, construct]
      split <;> rfl
  started := by
    simp only [construct]
    split <;> simp_all
  disabled := fun disabled => ⟨disabled, .inl rfl⟩
  signalled := fun never => by cases never
  noticed := fun waiting => by
    simp only [construct] at waiting
    split at waiting <;> cases waiting
  joined := fun disabled => by
    have disabled : config.enabled = false := disabled
    simp [construct, disabled]
  stopped := fun never => by cases never

namespace Ordered

variable (ordered : Ordered config s)

include ordered

theorem enabled (active : s.owner ≠ .between) (alive : s.owner ≠ .destroyed) : config.enabled = true := by
  by_contra disabled
  rcases (ordered.disabled (Bool.not_eq_true _ ▸ disabled)).2 with between | destroyed
  next => exact active between
  next => exact alive destroyed

-- The publications of the owner and of the thread do not overlap.
theorem not_publishing (stopped : s.owner.stopped) (publication : Publication ι) :
    s.publisher ≠ .publishing publication := by
  intro publishing
  rcases ordered.joined (ordered.stopped stopped) with absent | exited
  next => cases publishing.symm.trans absent
  next => cases publishing.symm.trans exited

end Ordered

def afterStop (config : Config ι) (last : Bool) : Owner ι :=
  if last then .publishing (.gathering config.valueTypeList []) else .between

@[simp] theorem afterStop_hold (config : Config ι) (last : Bool) : (afterStop config last).hold = .released := by
  cases last <;> rfl

@[simp] theorem afterStop_signalled (config : Config ι) (last : Bool) : (afterStop config last).signalled = false := by
  cases last <;> rfl

-- The constructors of `FileWriter` and `UDPWriter` throw. Nothing catches this, in the thread or in the destructor.
def throws (config : Config ι) (opening : Opening) : Publication ι → Bool
  | .opening _ => config.publishMethod ≠ .stdErr ∧ opening.refused
  | .gathering _ _ | .writing _ => false

def header (config : Config ι) (opening : Opening) : List Line :=
  match config.publishMethod with
  | .stdErr => [.header opening.now]
  | .file | .udp => []

@[simp] theorem header_statsD (config : Config ι) (opening : Opening) :
  (header config opening).filterMap Line.statsD = [] := by
  unfold header
  split <;> rfl

variable [DecidableEq ι]

def publish (config : Config ι) (opening : Opening) (s : State types) :
    Publication ι → State types × Option (Publication ι)
  | .gathering [] statsDMetrics => (s, some (.opening statsDMetrics))
  | .gathering (i :: valueTypes) statsDMetrics =>
    ({ s with
        collectors := Function.update s.collectors i (types i).empty
        snapshots := s.snapshots ++ [⟨i, s.collectors i⟩] },
      some (.gathering valueTypes (statsDMetrics ++ (types i).lines (s.collectors i))))
  | .opening statsDMetrics => ({ s with output := s.output ++ header config opening }, some (.writing statsDMetrics))
  | .writing [] => (s, none)
  | .writing (line :: statsDMetrics) => ({ s with output := s.output ++ [.metric line] }, some (.writing statsDMetrics))

def store (config : Config ι) (s : State types) (i : ι) (name : Bytes) (value : (types i).Value) : State types :=
  if config.metricsEnabled then
    { s with
      collectors := Function.update s.collectors i ((types i).store (s.collectors i) name value)
      stored := Function.update s.stored i (s.stored i ++ [(name, value)]) }
  else s

def proceedOwner (config : Config ι) (opening : Opening) (s : State types) : Option (State types) :=
  match s.owner with
  | .between | .destroyed => none
  | .locking last => (s.shutDownMutex.lock .owner).map fun mutex =>
    { s with owner := .signalling last, shutDownMutex := mutex }
  | .signalling last => some
    { s with owner := .notifying last, shutDown := true, shutDownMutex := s.shutDownMutex.unlock }
  | .notifying last => some
    { s with
      owner := .joining last
      publisher := s.publisher.notified }
  | .joining last =>
    if s.joinable then
      match s.publisher with
      | .exited => some { s with owner := afterStop config last, joinable := false }
      | _ => none
    else some { s with owner := afterStop config last }
  | .publishing publication =>
    if throws config opening publication then some { s with terminated := true }
    else some
      { (publish config opening s publication).1 with
        owner := (publish config opening s publication).2.elim .destroyed .publishing }

def proceedPublisher (config : Config ι) (opening : Opening) (s : State types) : Option (State types) :=
  match s.publisher with
  | .absent | .waiting | .exited => none
  | .locking => (s.shutDownMutex.lock .publisher).map fun mutex =>
    { s with publisher := .testing false, shutDownMutex := mutex }
  | .waking timedOut => (s.shutDownMutex.lock .publisher).map fun mutex =>
    { s with publisher := .testing timedOut, shutDownMutex := mutex }
  | .testing timedOut =>
    if s.shutDown then some { s with publisher := .exited, shutDownMutex := s.shutDownMutex.unlock }
    else if timedOut then some { s with publisher := .publishing (.gathering config.valueTypeList []) }
    else some { s with publisher := .waiting, shutDownMutex := s.shutDownMutex.unlock }
  | .publishing publication =>
    if throws config opening publication then some { s with terminated := true }
    else
      match publish config opening s publication with
      | (s', some rest) => some { s' with publisher := .publishing rest }
      | (s', none) => some { s' with publisher := .locking, shutDownMutex := s'.shutDownMutex.unlock }

def advance (config : Config ι) (choice : Choice types) (s : State types) : Option (State types) :=
  match choice with
  | .store i name value => some (store config s i name value)
  | .stop =>
    match s.owner with
    | .between => some { s with owner := if config.enabled then .locking false else .between }
    | _ => none
  | .destroy =>
    match s.owner with
    | .between => some { s with owner := if config.enabled then .locking true else .destroyed }
    | _ => none
  | .proceed .owner opening => proceedOwner config opening s
  | .proceed .publisher opening => proceedPublisher config opening s
  | .elapse =>
    match s.publisher with
    | .waiting => some { s with publisher := .waking true }
    | _ => none
  | .wake =>
    match s.publisher with
    | .waiting => some { s with publisher := .waking false }
    | _ => none

def step (config : Config ι) (choice : Choice types) (s : State types) : Option (State types) :=
  if s.terminated then none else advance config choice s

theorem step_iff {choice : Choice types} :
    step config choice s = some s' ↔ s.terminated = false ∧ advance config choice s = some s' := by
  unfold step
  cases s.terminated <;> simp

section Publish

variable (config : Config ι) (opening : Opening) (s : State types) (publication : Publication ι)

theorem publish_eq : ∃ collectors snapshots output, (publish config opening s publication).1 =
    { s with collectors := collectors, snapshots := snapshots, output := output } := by
  cases publication with
  | gathering valueTypes statsDMetrics => cases valueTypes <;> exact ⟨_, _, _, rfl⟩
  | opening statsDMetrics => exact ⟨_, _, _, rfl⟩
  | writing statsDMetrics => cases statsDMetrics <;> exact ⟨_, _, _, rfl⟩

@[simp] theorem publish_owner : (publish config opening s publication).1.owner = s.owner := by
  obtain ⟨collectors, snapshots, output, same⟩ := publish_eq config opening s publication
  rw [same]

@[simp] theorem publish_publisher : (publish config opening s publication).1.publisher = s.publisher := by
  obtain ⟨collectors, snapshots, output, same⟩ := publish_eq config opening s publication
  rw [same]

@[simp] theorem publish_shutDownMutex : (publish config opening s publication).1.shutDownMutex = s.shutDownMutex := by
  obtain ⟨collectors, snapshots, output, same⟩ := publish_eq config opening s publication
  rw [same]

@[simp] theorem publish_shutDown : (publish config opening s publication).1.shutDown = s.shutDown := by
  obtain ⟨collectors, snapshots, output, same⟩ := publish_eq config opening s publication
  rw [same]

@[simp] theorem publish_joinable : (publish config opening s publication).1.joinable = s.joinable := by
  obtain ⟨collectors, snapshots, output, same⟩ := publish_eq config opening s publication
  rw [same]

@[simp] theorem publish_terminated : (publish config opening s publication).1.terminated = s.terminated := by
  obtain ⟨collectors, snapshots, output, same⟩ := publish_eq config opening s publication
  rw [same]

end Publish

namespace Ordered

variable (ordered : Ordered config s)

include ordered

theorem store (i : ι) (name : Bytes) (value : (types i).Value) : Ordered config (store config s i name value) := by
  unfold PublisherDaemon.store
  split
  next =>
    exact ⟨ordered.mutex, ordered.started, ordered.disabled, ordered.signalled, ordered.noticed, ordered.joined,
      ordered.stopped⟩
  next => exact ordered

theorem publish (opening : Opening) (publication : Publication ι) :
    Ordered config (publish config opening s publication).1 := by
  have same : (PublisherDaemon.publish config opening s publication).1.hold = s.hold := by
    funext thread
    cases thread <;> simp [State.hold]
  exact {
    mutex := by rw [same, publish_shutDownMutex]; exact ordered.mutex
    started := by rw [publish_publisher]; exact ordered.started
    disabled := by rw [publish_owner, publish_joinable]; exact ordered.disabled
    signalled := by rw [publish_owner, publish_shutDown]; exact ordered.signalled
    noticed := by rw [publish_owner, publish_publisher, publish_shutDown]; exact ordered.noticed
    joined := by rw [publish_publisher, publish_joinable]; exact ordered.joined
    stopped := by rw [publish_owner, publish_joinable]; exact ordered.stopped }

omit [DecidableEq ι] in
theorem join {last joinable : Bool} (owner : s.owner = .joining last)
    (gone : s.publisher = .absent ∨ s.publisher = .exited)
    (unjoinable : joinable = false) :
    Ordered config { s with owner := afterStop config last, joinable := joinable } := by
  have enabled := ordered.enabled (by rw [owner]; simp) (by rw [owner]; simp)
  have same : s.hold .owner = .released := by simp [State.hold, owner, Owner.hold]
  exact { ordered with
    mutex := tracks_owner (ordered.mutex.keep same.symm) (afterStop_hold config last) rfl
    disabled := fun disabled => by cases disabled.symm.trans enabled
    signalled := fun never => by
      rw [afterStop_signalled] at never
      cases never
    noticed := fun waiting => by
      rcases gone with absent | exited
      next => cases waiting.symm.trans absent
      next => cases waiting.symm.trans exited
    joined := fun _ => gone
    stopped := fun _ => unjoinable }

omit [DecidableEq ι] in
theorem terminate : Ordered config { s with terminated := true } :=
  ⟨ordered.mutex, ordered.started, ordered.disabled, ordered.signalled, ordered.noticed, ordered.joined,
    ordered.stopped⟩

theorem proceedOwner {opening : Opening} (taken : proceedOwner config opening s = some s') : Ordered config s' := by
  unfold PublisherDaemon.proceedOwner at taken
  split at taken
  next => cases taken
  next => cases taken
  next last owner =>
    obtain ⟨mutex, got, rfl⟩ := Option.map_eq_some_iff.mp taken
    have enabled := ordered.enabled (by rw [owner]; simp) (by rw [owner]; simp)
    exact { ordered with
      mutex := tracks_owner (ordered.mutex.lock got rfl) rfl rfl
      disabled := fun disabled => by cases disabled.symm.trans enabled
      signalled := fun never => by cases never
      noticed := fun waiting set => by
        obtain ⟨last', notifying⟩ := ordered.noticed waiting set
        cases owner.symm.trans notifying
      stopped := fun never => by cases never }
  next last owner =>
    obtain rfl := Option.some.inj taken
    have enabled := ordered.enabled (by rw [owner]; simp) (by rw [owner]; simp)
    have owns : id (s.hold .owner) = .exclusive := by simp [State.hold, owner, Owner.hold]
    exact { ordered with
      mutex := tracks_owner (ordered.mutex.unlock owns rfl) rfl rfl
      disabled := fun disabled => by cases disabled.symm.trans enabled
      signalled := fun _ => rfl
      noticed := fun _ _ => ⟨last, rfl⟩
      stopped := fun never => by cases never }
  next last owner =>
    obtain rfl := Option.some.inj taken
    have enabled := ordered.enabled (by rw [owner]; simp) (by rw [owner]; simp)
    have set := ordered.signalled (by rw [owner]; rfl)
    have same : s.hold .owner = .released := by simp [State.hold, owner, Owner.hold]
    have started := ordered.started
    have joined := ordered.joined
    exact {
      mutex := tracks_owner (ordered.mutex.keep same.symm) rfl (Publisher.notified_hold _)
      started := by
        cases at' : s.publisher <;> simp_all [Publisher.notified]
      disabled := fun disabled => by cases disabled.symm.trans enabled
      signalled := fun _ => set
      noticed := fun waiting => by
        cases at' : s.publisher <;> simp [at', Publisher.notified] at waiting
      joined := fun unjoinable => by
        rcases joined unjoinable with absent | exited
        next => simp [absent, Publisher.notified]
        next => simp [exited, Publisher.notified]
      stopped := fun never => by cases never }
  next last owner =>
    split at taken
    next =>
      split at taken
      next exited =>
        obtain rfl := Option.some.inj taken
        exact ordered.join owner (.inr exited) rfl
      next => cases taken
    next unjoinable =>
      obtain rfl := Option.some.inj taken
      have unjoinable := Bool.eq_false_of_not_eq_true unjoinable
      exact ordered.join owner (ordered.joined unjoinable) unjoinable
  next publication owner =>
    split at taken
    next =>
      obtain rfl := Option.some.inj taken
      exact ordered.terminate
    next =>
      obtain rfl := Option.some.inj taken
      have kept := ordered.publish opening publication
      have same : (PublisherDaemon.publish config opening s publication).1.hold .owner = .released := by
        simp [State.hold, owner, Owner.hold]
      have enabled := ordered.enabled (by rw [owner]; simp) (by rw [owner]; simp)
      have unjoinable := kept.stopped (by rw [publish_owner, owner]; rfl)
      exact { kept with
        mutex := by
          refine tracks_owner (kept.mutex.keep same.symm) ?_ rfl
          cases (PublisherDaemon.publish config opening s publication).2 <;> rfl
        disabled := fun disabled => by cases disabled.symm.trans enabled
        signalled := fun never => by
          cases rest : (PublisherDaemon.publish config opening s publication).2 <;> simp [rest,
            Owner.signalled] at never
        noticed := fun waiting => by
          rcases kept.joined unjoinable with absent | exited
          next => cases waiting.symm.trans absent
          next => cases waiting.symm.trans exited
        stopped := fun _ => unjoinable }

theorem proceedPublisher {opening : Opening} (taken : proceedPublisher config opening s = some s') :
    Ordered config s' := by
  unfold PublisherDaemon.proceedPublisher at taken
  -- A thread that takes steps was started and is not joined yet.
  have running (present : s.publisher ≠ .absent) (alive : s.publisher ≠ .exited) :
    config.enabled ≠ false ∧ s.joinable ≠ false :=
    ⟨fun disabled => present (ordered.started.mpr disabled), fun joined => (ordered.joined joined).elim present alive⟩
  split at taken
  next => cases taken
  next => cases taken
  next => cases taken
  next locking =>
    obtain ⟨mutex, got, rfl⟩ := Option.map_eq_some_iff.mp taken
    obtain ⟨enabled, joinable⟩ := running (by rw [locking]; simp) (by rw [locking]; simp)
    exact { ordered with
      mutex := tracks_publisher (ordered.mutex.lock got rfl) rfl rfl
      started := iff_of_false (by simp) enabled
      noticed := fun waiting => by cases waiting
      joined := fun joined => absurd joined joinable }
  next timedOut waking =>
    obtain ⟨mutex, got, rfl⟩ := Option.map_eq_some_iff.mp taken
    obtain ⟨enabled, joinable⟩ := running (by rw [waking]; simp) (by rw [waking]; simp)
    exact { ordered with
      mutex := tracks_publisher (ordered.mutex.lock got rfl) rfl rfl
      started := iff_of_false (by simp) enabled
      noticed := fun waiting => by cases waiting
      joined := fun joined => absurd joined joinable }
  next timedOut testing =>
    obtain ⟨enabled, joinable⟩ := running (by rw [testing]; simp) (by rw [testing]; simp)
    have owns : id (s.hold .publisher) = .exclusive := by simp [State.hold, testing, Publisher.hold]
    split at taken
    next set =>
      obtain rfl := Option.some.inj taken
      exact { ordered with
        mutex := tracks_publisher (ordered.mutex.unlock owns rfl) rfl rfl
        started := iff_of_false (by simp) enabled
        noticed := fun waiting => by cases waiting
        joined := fun _ => .inr rfl }
    next unset =>
      split at taken
      next =>
        obtain rfl := Option.some.inj taken
        exact { ordered with
          mutex := tracks_publisher (ordered.mutex.keep owns.symm) rfl rfl
          started := iff_of_false (by simp) enabled
          noticed := fun waiting => by cases waiting
          joined := fun joined => absurd joined joinable }
      next =>
        obtain rfl := Option.some.inj taken
        exact { ordered with
          mutex := tracks_publisher (ordered.mutex.unlock owns rfl) rfl rfl
          started := iff_of_false (by simp) enabled
          noticed := fun _ set => absurd set unset
          joined := fun joined => absurd joined joinable }
  next publication publishing =>
    split at taken
    next =>
      obtain rfl := Option.some.inj taken
      exact ordered.terminate
    next =>
      obtain ⟨enabled, joinable⟩ := running (by rw [publishing]; simp) (by rw [publishing]; simp)
      have kept := ordered.publish opening publication
      have owns : id ((PublisherDaemon.publish config opening s publication).1.hold .publisher) = .exclusive := by
        simp [State.hold, publishing, Publisher.hold]
      rw [← publish_joinable config opening s publication] at joinable
      split at taken
      next between rest published =>
        obtain rfl := Option.some.inj taken
        rw [published] at kept owns joinable
        exact { kept with
          mutex := tracks_publisher (kept.mutex.keep owns.symm) rfl rfl
          started := iff_of_false (by simp) enabled
          noticed := fun waiting => by cases waiting
          joined := fun joined => absurd joined joinable }
      next between published =>
        obtain rfl := Option.some.inj taken
        rw [published] at kept owns joinable
        exact { kept with
          mutex := tracks_publisher (kept.mutex.unlock owns rfl) rfl rfl
          started := iff_of_false (by simp) enabled
          noticed := fun waiting => by cases waiting
          joined := fun joined => absurd joined joinable }

omit [DecidableEq ι] in
theorem awaken (timedOut : Bool) (waiting : s.publisher = .waiting) :
    Ordered config { s with publisher := .waking timedOut } := by
  have same : s.hold .publisher = .released := by simp [State.hold, waiting, Publisher.hold]
  have present : s.publisher ≠ .absent := by simp [waiting]
  have alive : s.publisher ≠ .exited := by simp [waiting]
  exact { ordered with
    mutex := tracks_publisher (ordered.mutex.keep same.symm) rfl rfl
    started := iff_of_false (by simp) fun disabled => present (ordered.started.mpr disabled)
    noticed := fun waiting => by cases waiting
    joined := fun joined => ((ordered.joined joined).elim present alive).elim }

omit [DecidableEq ι] in
theorem call {owner : Owner ι} (between : s.owner = .between) (released : owner.hold = .released)
    (unsignalled : owner.signalled = false)
    (disabled : config.enabled = false → owner = .between ∨ owner = .destroyed)
    (stopped : owner.stopped → config.enabled = false) : Ordered config { s with owner := owner } := by
  have same : s.hold .owner = .released := by simp [State.hold, between, Owner.hold]
  exact { ordered with
    mutex := tracks_owner (ordered.mutex.keep same.symm) released rfl
    disabled := fun off => ⟨(ordered.disabled off).1, disabled off⟩
    signalled := fun set => by cases unsignalled.symm.trans set
    noticed := fun waiting set => by
      obtain ⟨last, notifying⟩ := ordered.noticed waiting set
      cases between.symm.trans notifying
    stopped := fun past => (ordered.disabled (stopped past)).1 }

theorem step {choice : Choice types} (taken : step config choice s = some s') : Ordered config s' := by
  obtain ⟨-, taken⟩ := step_iff.mp taken
  cases choice with
  | store i name value =>
    obtain rfl := Option.some.inj taken
    exact ordered.store i name value
  | stop =>
    simp only [advance] at taken
    split at taken
    next between =>
      obtain rfl := Option.some.inj taken
      cases enabled : config.enabled with
      | false => exact ordered.call between rfl rfl (fun _ => .inl rfl) fun never => by cases never
      | true =>
        exact ordered.call between rfl rfl (fun disabled => by cases enabled.symm.trans disabled) fun never => by cases never
    next => cases taken
  | destroy =>
    simp only [advance] at taken
    split at taken
    next between =>
      obtain rfl := Option.some.inj taken
      cases enabled : config.enabled with
      | false => exact ordered.call between rfl rfl (fun _ => .inr rfl) fun _ => enabled
      | true =>
        exact ordered.call between rfl rfl (fun disabled => by cases enabled.symm.trans disabled) fun never => by cases never
    next => cases taken
  | proceed thread opening =>
    cases thread with
    | owner => exact ordered.proceedOwner taken
    | publisher => exact ordered.proceedPublisher taken
  | elapse =>
    simp only [advance] at taken
    split at taken
    next waiting =>
      obtain rfl := Option.some.inj taken
      exact ordered.awaken true waiting
    next => cases taken
  | wake =>
    simp only [advance] at taken
    split at taken
    next waiting =>
      obtain rfl := Option.some.inj taken
      exact ordered.awaken false waiting
    next => cases taken

end Ordered

theorem ordered_run {choices : List (Choice types)}
    (reached : run (step config) (construct types config) choices = some s) :
    Ordered config s :=
  run_invariant (fun _ _ _ taken ordered => ordered.step taken) reached (ordered_construct types config)

end PublisherDaemon

end BuildboxCommon.Metrics
