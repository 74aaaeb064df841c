import BuildboxCommon.StandardOutput.StatFileMonitor

set_option autoImplicit false

namespace BuildboxCommon.StatFileMonitor

open ByteString Transitions

inductive Member where
  | readBufferSize
  | readBuffer
  | readBufferOffset
deriving DecidableEq

structure Process where
  uninitialized : List Member
  thread : State
  chunks : List Bytes
  corrupted : Bool

inductive Event where
  | construct
  | take (choice : Choice)
deriving DecidableEq

def start (file : Bytes) : Process := ⟨[.readBufferSize, .readBuffer, .readBufferOffset], create file, [], false⟩

namespace Process

def bufferFreeBytes (p : Process) (readBufferSize : UInt64) : UInt64 :=
  readBufferSize - UInt64.ofNat p.thread.readBuffer.length - 1

def handedOver (s : State) : Choice → List Bytes
  | .monitor _ =>
    match s.location with
    | .delivering _ => [s.readBuffer]
    | _ => []
  | _ => []

def move (p : Process) (readBufferSize : UInt64) (choice : Choice) : Option Process :=
  (StatFileMonitor.step readBufferSize.toNat choice p.thread).map fun thread =>
    { p with
      thread := thread
      chunks := p.chunks ++ handedOver p.thread choice }

def NeedsBuffer (p : Process) : Choice → Bool
  | .monitor _ => p.thread.location = .reading
  | _ => false

def step (readBufferSize : UInt64) : Event → Process → Option Process
  | .construct, p =>
    match p.uninitialized with
    | [] => none
    | _ :: rest => some { p with uninitialized := rest }
  | .take choice, p =>
    if p.corrupted then none
    else if choice = .requestStop ∧ p.uninitialized ≠ [] then none
    else if p.NeedsBuffer choice ∧ p.uninitialized ≠ [] then some { p with corrupted := true }
    else p.move readBufferSize choice

end Process

structure Streaming (readBufferSize : UInt64) (p : Process) : Prop where
  defined : p.corrupted = false
  content : p.chunks.flatten ++ p.thread.readBuffer <+: p.thread.file
  room : p.thread.location = .reading → 0 < p.bufferFreeBytes readBufferSize ∧
    p.thread.readBuffer.length + (p.bufferFreeBytes readBufferSize).toNat ≤ readBufferSize.toNat
  within : p.thread.readBuffer.length < readBufferSize.toNat
  large : ∀ chunk ∈ p.chunks.dropLast, minWriteBatchSizeBytes < chunk.length

def Constructed (event : Event) (p : Process) : Prop :=
  ∀ choice, event = .take choice → p.NeedsBuffer choice = true → p.uninitialized = []

instance decidableConstructed : (event : Event) → (p : Process) → Decidable (Constructed event p)
  | .construct, _ => .isTrue (by simp [Constructed])
  | .take choice, p => decidable_of_iff (p.NeedsBuffer choice = true → p.uninitialized = []) (by simp [Constructed])

def State.Bounded (s : State) (limit : Nat) : Prop :=
  match s.location with
  | .polling | .statting | .reading | .waiting _ | .ended => s.readBuffer.length ≤ minWriteBatchSizeBytes
  | .deciding _ => s.readBuffer.length < limit
  | .delivering lastWrite =>
    s.readBuffer.length < limit ∧ (lastWrite = false → minWriteBatchSizeBytes < s.readBuffer.length)

structure Buffered (readBufferSize : UInt64) (p : Process) : Prop where
  defined : p.corrupted = false
  monitored : Monitored p.thread
  delivered : p.chunks.flatten = p.thread.delivered
  bounded : p.thread.Bounded readBufferSize.toNat
  batches : p.thread.location ≠ .ended → ∀ chunk ∈ p.chunks, minWriteBatchSizeBytes < chunk.length
  large : ∀ chunk ∈ p.chunks.dropLast, minWriteBatchSizeBytes < chunk.length

variable {readBufferSize : UInt64} {p p' : Process} {s s' : State}

theorem bufferFreeBytes_toNat (fits : p.thread.readBuffer.length < readBufferSize.toNat) :
    (p.bufferFreeBytes readBufferSize).toNat = p.thread.freeBytes readBufferSize.toNat := by
  have most := readBufferSize.toNat_lt
  have size : UInt64.size = 2 ^ 64 := rfl
  have offset : (UInt64.ofNat p.thread.readBuffer.length).toNat = p.thread.readBuffer.length :=
    UInt64.toNat_ofNat_of_lt' (by omega)
  have used : (readBufferSize - UInt64.ofNat p.thread.readBuffer.length).toNat =
      readBufferSize.toNat - p.thread.readBuffer.length := by
    rw [UInt64.toNat_sub_of_le _ _ (UInt64.le_iff_toNat_le.mpr (by omega)), offset]
  have one : (1 : UInt64).toNat = 1 := rfl
  rw [Process.bufferFreeBytes, UInt64.toNat_sub_of_le _ _ (UInt64.le_iff_toNat_le.mpr (by omega)), used, one]
  rfl

theorem State.Bounded.limited {limit : Nat} (bounded : s.Bounded limit) (enough : 102 < limit) :
    s.readBuffer.length < limit := by
  unfold State.Bounded minWriteBatchSizeBytes at bounded
  split at bounded <;> omega

theorem Buffered.streaming (buffered : Buffered readBufferSize p) (enough : 102 < readBufferSize.toNat) :
    Streaming readBufferSize p := by
  have limited := buffered.bounded.limited enough
  constructor
  case defined => exact buffered.defined
  case content =>
    rw [buffered.delivered, buffered.monitored.content]
    exact List.take_prefix _ _
  case room =>
    intro location
    have bounded := buffered.bounded
    simp only [State.Bounded, location, minWriteBatchSizeBytes] at bounded
    rw [UInt64.lt_iff_toNat_lt, bufferFreeBytes_toNat limited, State.freeBytes]
    exact ⟨by simp; omega, by omega⟩
  case within => exact limited
  case large => exact buffered.large

theorem State.Bounded.advance {limit bytesRead : Nat} (bounded : s.Bounded limit) (enough : 102 < limit)
    (taken : s.advance limit bytesRead = some s') : s'.Bounded limit := by
  unfold State.advance at taken
  cases location : s.location with
  | polling | statting =>
    simp only [location, Option.some.injEq] at taken
    simp only [State.Bounded, location] at bounded
    subst taken
    grind [State.Bounded]
  | reading =>
    simp only [location, Option.ite_none_right_eq_some, Option.some.injEq] at taken
    simp only [State.Bounded, location, minWriteBatchSizeBytes] at bounded
    obtain ⟨⟨few, -⟩, rfl⟩ := taken
    simp only [State.Bounded, State.read, State.freeBytes, List.length_append, List.length_take] at few ⊢
    omega
  | deciding n =>
    simp only [location, Option.some.injEq] at taken
    simp only [State.Bounded, location] at bounded
    subst taken
    grind [State.Bounded]
  | delivering lastWrite =>
    simp only [location, Option.some.injEq] at taken
    subst taken
    cases lastWrite <;> simp [State.Bounded, State.deliver]
  | waiting n =>
    simp only [location, Option.some.injEq] at taken
    simp only [State.Bounded, location] at bounded
    subst taken
    grind [State.Bounded]
  | ended => simp [location] at taken

theorem State.bounded_of_same {limit : Nat} (bounded : s.Bounded limit) (location : s'.location = s.location)
    (buffer : s'.readBuffer = s.readBuffer) : s'.Bounded limit := by
  rw [State.Bounded, location, buffer]
  exact bounded

theorem handedOver_advance {bytesRead : Nat} {limit : Nat} (taken : s.advance limit bytesRead = some s') :
    s'.delivered = s.delivered ++ (Process.handedOver s (.monitor bytesRead)).flatten := by
  unfold State.advance at taken
  cases location : s.location with
  | polling | statting | deciding | waiting =>
    simp only [location, Option.some.injEq] at taken
    simp [← taken, Process.handedOver, location]
  | reading =>
    simp only [location, Option.ite_none_right_eq_some, Option.some.injEq] at taken
    simp [← taken.2, Process.handedOver, location, State.read]
  | delivering lastWrite =>
    simp only [location, Option.some.injEq] at taken
    simp [← taken, Process.handedOver, location, State.deliver]
  | ended => simp [location] at taken

-- A small chunk is handed over in the last step only.
theorem handedOver_large {bytesRead : Nat} {limit : Nat} (bounded : s.Bounded limit)
    (taken : s.advance limit bytesRead = some s') (goesOn : s'.location ≠ .ended) :
    ∀ chunk ∈ Process.handedOver s (.monitor bytesRead), minWriteBatchSizeBytes < chunk.length := by
  intro chunk member
  cases location : s.location with
  | delivering lastWrite =>
    simp only [State.Bounded, location] at bounded
    simp only [State.advance, location, Option.some.injEq] at taken
    simp only [Process.handedOver, location, List.mem_singleton] at member
    subst taken member
    cases lastWrite with
    | true => simp [State.deliver] at goesOn
    | false => exact bounded.2 rfl
  | polling | statting | reading | deciding | waiting | ended => simp [Process.handedOver, location] at member

theorem handedOver_dropLast (chunks : List Bytes) (s : State) (choice : Choice) :
    (chunks ++ Process.handedOver s choice).dropLast ⊆ chunks := by
  have few : Process.handedOver s choice = [] ∨ Process.handedOver s choice = [s.readBuffer] := by
    unfold Process.handedOver
    split
    next => split <;> simp
    next => simp
  rcases few with none | one
  next =>
    rw [none, List.append_nil]
    exact List.dropLast_subset chunks
  next => rw [one, List.dropLast_concat]; exact List.Subset.refl chunks

theorem Buffered.monitor {bytesRead : Nat} (buffered : Buffered readBufferSize p) (enough : 102 < readBufferSize.toNat)
    (taken : p.thread.advance readBufferSize.toNat bytesRead = some s') :
    Buffered readBufferSize { p with
      thread := s'
      chunks := p.chunks ++ Process.handedOver p.thread (.monitor bytesRead) } := by
  have running : p.thread.location ≠ .ended := by
    intro ended
    simp [State.advance, ended] at taken
  have batches := buffered.batches running
  constructor
  case defined => exact buffered.defined
  case monitored => exact buffered.monitored.advance taken
  case delivered =>
    rw [List.flatten_append, buffered.delivered]
    exact (handedOver_advance taken).symm
  case bounded => exact buffered.bounded.advance enough taken
  case batches =>
    intro goesOn chunk member
    rcases List.mem_append.mp member with old | new
    next => exact batches chunk old
    next => exact handedOver_large buffered.bounded taken goesOn chunk new
  case large =>
    exact fun chunk member => batches chunk (handedOver_dropLast _ _ _ member)

theorem step_beside {choice : Choice} {limit : Nat} (other : ∀ bytesRead, choice ≠ .monitor bytesRead)
    (taken : StatFileMonitor.step limit choice s = some s') : s'.location = s.location ∧ s'.readBuffer = s.readBuffer ∧
      s'.delivered = s.delivered ∧ Process.handedOver s choice = [] := by
  cases choice with
  | monitor bytesRead => exact absurd rfl (other bytesRead)
  | append data =>
    simp only [StatFileMonitor.step, Option.ite_none_left_eq_some, Option.some.injEq] at taken
    simp [← taken.2, Process.handedOver]
  | close =>
    simp only [StatFileMonitor.step, Option.ite_none_left_eq_some, Option.some.injEq] at taken
    simp [← taken.2, Process.handedOver]
  | requestStop =>
    simp only [StatFileMonitor.step, Option.some.injEq] at taken
    simp [← taken, Process.handedOver]

theorem Buffered.move {choice : Choice} (buffered : Buffered readBufferSize p) (enough : 102 < readBufferSize.toNat)
    (taken : p.move readBufferSize choice = some p') : Buffered readBufferSize p' := by
  obtain ⟨s', stepped, rfl⟩ := Option.map_eq_some_iff.mp taken
  by_cases monitor : ∃ bytesRead, choice = .monitor bytesRead
  next =>
    obtain ⟨bytesRead, rfl⟩ := monitor
    exact buffered.monitor enough stepped
  next =>
    obtain ⟨location, buffer, delivered, nothing⟩ := step_beside (not_exists.mp monitor) stepped
    rw [nothing, List.append_nil]
    exact
      { defined := buffered.defined
        monitored := buffered.monitored.step stepped
        delivered := buffered.delivered.trans delivered.symm
        bounded := State.bounded_of_same buffered.bounded location buffer
        batches := location ▸ buffered.batches
        large := buffered.large }

theorem Buffered.step {event : Event} (buffered : Buffered readBufferSize p) (enough : 102 < readBufferSize.toNat)
    (constructed : Constructed event p) (taken : p.step readBufferSize event = some p') :
    Buffered readBufferSize p' := by
  cases event with
  | construct =>
    obtain ⟨defined, monitored, delivered, bounded, batches, large⟩ := buffered
    cases missing : p.uninitialized with
    | nil => simp [Process.step, missing] at taken
    | cons member rest =>
      simp only [Process.step, missing, Option.some.injEq] at taken
      exact taken ▸ ⟨defined, monitored, delivered, bounded, batches, large⟩
  | take choice =>
    have ready : ¬(p.NeedsBuffer choice = true ∧ p.uninitialized ≠ []) := fun early =>
      early.2 (constructed choice rfl early.1)
    simp only [Process.step, buffered.defined, Bool.false_eq_true, if_false, if_neg ready,
      Option.ite_none_left_eq_some] at taken
    exact buffered.move enough taken.2

theorem step_of_early {event : Event} (early : ¬Constructed event p) (taken : p.step readBufferSize event = some p')
    (defined : p.corrupted = false) : p' = { p with corrupted := true } := by
  simp only [Constructed, not_forall] at early
  obtain ⟨choice, rfl, needs, missing⟩ := early
  have other : ¬(choice = .requestStop ∧ p.uninitialized ≠ []) := by
    rintro ⟨rfl, -⟩
    cases needs
  simp only [Process.step, defined, Bool.false_eq_true, if_false, if_neg other, if_pos (And.intro needs missing),
    Option.some.injEq] at taken
  exact taken.symm

theorem corrupted_stays {event : Event} (taken : p.step readBufferSize event = some p')
    (corrupted : p.corrupted = true) :
    p'.corrupted = true := by
  cases event with
  | take choice => simp [Process.step, corrupted] at taken
  | construct =>
    cases missing : p.uninitialized with
    | nil => simp [Process.step, missing] at taken
    | cons member rest =>
      simp only [Process.step, missing, Option.some.injEq] at taken
      exact taken ▸ corrupted

theorem start_buffered (file : Bytes) : Buffered readBufferSize (start file) where
  defined := rfl
  monitored := create_monitored file
  delivered := rfl
  bounded := Nat.zero_le _
  batches := by simp [start]
  large := by simp [start]

theorem streaming_iff (enough : 102 < readBufferSize.toNat) {file : Bytes} {events : List Event}
    (reached : run (Process.step readBufferSize) (start file) events = some p) :
    Streaming readBufferSize p ↔ Along (Process.step readBufferSize) Constructed (start file) events := by
  constructor
  next =>
    intro streaming
    have final : ¬p.corrupted = true := by simp [streaming.defined]
    have keeps : ∀ event p p', Constructed event p → Process.step readBufferSize event p = some p' →
        Buffered readBufferSize p → Buffered readBufferSize p' :=
      fun _ _ _ constructed taken buffered => buffered.step enough constructed taken
    exact along_of_final keeps (fun _ _ _ early taken buffered => step_of_early early taken buffered.defined ▸ rfl)
      (fun _ _ _ taken corrupted => corrupted_stays taken corrupted) reached (start_buffered file) final
  next =>
    intro along
    have buffered : Buffered readBufferSize p := run_along
      (fun _ _ _ constructed taken buffered => buffered.step enough constructed taken) along reached
        (start_buffered file)
    exact buffered.streaming enough

section Samples

def constructing : List Event := [.construct, .construct, .construct]

def pending : Process := ⟨[], ⟨[120], false, 1, [120], [], false, .waiting 1⟩, [], false⟩

theorem streaming_pending : Streaming 4096 pending :=
  (@streaming_iff 4096 pending (by decide) [120]
    (constructing ++ [.take (.monitor 0), .take (.monitor 0), .take (.monitor 1), .take (.monitor 0)]) rfl).mpr
      (by decide)

def early : Process := ⟨[.readBufferSize, .readBuffer, .readBufferOffset], ⟨[120], false, 0, [], [], false, .reading⟩,
    [], true⟩

theorem read_before_constructed :
    run (Process.step 4096) (start [120]) [.take (.monitor 0), .take (.monitor 0), .take (.monitor 1)] = some early ∧
      ¬Streaming 4096 early :=
  ⟨rfl, fun streaming => Bool.noConfusion streaming.defined⟩

end Samples

end BuildboxCommon.StatFileMonitor
