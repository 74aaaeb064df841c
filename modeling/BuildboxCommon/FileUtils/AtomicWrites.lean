import BuildboxCommon.FileUtils.TemporaryFiles

set_option autoImplicit false

namespace BuildboxCommon.WriteFileAtomically

open ByteString FileUtils LexicalPath PathResolution Posix Posix.Disk Transitions

variable {κ : Type} [DecidableEq κ] {arguments : Arguments κ} {initial disk : Disk} {s s' : State κ} {thread : κ}
  {temp : TemporaryFile} {choice : Choice κ} {choices : List (Choice κ)} {settled : Nat → Bytes → Prop}

theorem writeAt_file {stream offset : Nat} {contents : Bytes} {permissions : Fin 0o10000} {mtime : Int}
    (object : disk.files.object stream = .regular contents permissions mtime) (data : Bytes) :
    Rewritten stream disk (writeAt disk stream offset data) ∧ (contents.length = offset →
      (writeAt disk stream offset data).files.object stream = .regular (contents ++ data) permissions mtime) := by
  simp only [writeAt, object]
  refine ⟨.store object _ _ _, ?_⟩
  rintro rfl
  rw [object_store, Function.update_self]
  simp

theorem take_chunk (data : Bytes) (written count : Nat) : data.take written ++ (data.drop written).take count =
    data.take (written + ((data.drop written).take count).length) := by
  rw [List.take_add, ← List.prefix_iff_eq_take.mp (List.take_prefix count (data.drop written))]

theorem openTruncated_file {path contents : Bytes} {node : Nat} {permissions : Fin 0o10000} {mtime : Int}
    (reached : disk.files.pathname true disk.files.currentDirectory path = .ok node)
    (object : disk.files.object node = .regular contents permissions mtime) (mode : Nat) :
    disk.openTruncated path mode =
      .ok (disk.store node (.regular [] permissions mtime) (disk.fits_regular _ _ _), node) := by
  simp only [openTruncated, reached, object]

namespace Invariant

variable (inv : Invariant arguments initial settled s)

include inv

theorem failed (live : (s.calls thread).live = some temp) (errno : Nat) :
    Invariant arguments initial settled (s.moved thread s.disk (.removing temp (.error errno))) :=
  inv.same live rfl rfl trivial

theorem step_beginning (beginning : s.calls choice.thread = .beginning) (clears : clear arguments choice s = true)
    (taken : step arguments choice s = some s') : Invariant arguments initial settled s' := by
  have failed (errno : Nat) :
    Invariant arguments initial settled (s.moved choice.thread s.disk (.finished (.error errno))) :=
    inv.idle (by rw [beginning]; rfl) rfl rfl trivial (by rw [beginning]; rfl)
  simp only [step, beginning] at taken
  simp only [clear, beginning, inv.target_eq] at clears
  cases refusal : choice.refusal with
  | some errno =>
    simp only [refusal, Option.some.injEq] at taken
    exact taken ▸ failed errno
  | none =>
    simp only [refusal] at taken clears
    cases located : s.disk.locate (arguments.tempFile choice.thread choice.suffix) with
    | error errno =>
      simp only [located, Option.some.injEq] at taken
      exact taken ▸ failed errno
    | ok place =>
      cases made : s.disk.mkstemp (arguments.tempFile choice.thread choice.suffix) with
      | error errno =>
        simp only [located, made, Option.some.injEq] at taken
        exact taken ▸ failed errno
      | ok disk =>
        simp only [located, made, Option.ite_none_left_eq_some, Option.some.injEq] at taken
        simp only [located, made, decide_eq_true_eq] at clears
        obtain ⟨fresh, rfl⟩ := taken
        obtain ⟨normal, aims, unseen⟩ := clears
        refine inv.created beginning located made fresh ?_ (fun target aimed => ?_) fun reached => unseen ?_
        next => exact toOption_eq_some.mp normal
        next => exact toOption_eq_some.mp (aims.trans aimed)
        next => rw [reached]; rfl

theorem step_opening (opening : s.calls choice.thread = .opening temp) (taken : step arguments choice s = some s') :
    Invariant arguments initial settled s' := by
  have live : (s.calls choice.thread).live = some temp := by rw [opening]; rfl
  obtain ⟨contents, permissions, mtime, object⟩ := (inv.there choice.thread temp live).file
  simp only [step, opening, openTruncated_file (inv.pathname live) object] at taken
  cases refusal : choice.refusal with
  | some errno =>
    simp only [refusal, Option.some.injEq] at taken
    exact taken ▸ inv.failed live errno
  | none =>
    simp only [refusal, Option.some.injEq] at taken
    subst taken
    refine inv.rewritten live (.store object _ _ _) rfl rfl ⟨rfl, Nat.zero_le _, permissions, mtime, ?_⟩
    rw [object_store, Function.update_self, List.take_zero]

theorem step_writing {stream written : Nat} (writing : s.calls choice.thread = .writing temp stream written)
    (taken : step arguments choice s = some s') : Invariant arguments initial settled s' := by
  have live : (s.calls choice.thread).live = some temp := by rw [writing]; rfl
  have filled := inv.filled choice.thread
  rw [writing] at filled
  obtain ⟨rfl, within, permissions, mtime, object⟩ := filled
  simp only [step, writing] at taken
  cases refusal : choice.refusal with
  | some errno =>
    simp only [refusal, Option.some.injEq] at taken
    exact taken ▸ inv.rewritten live (writeAt_file object choice.junk).1 rfl rfl trivial
  | none =>
    simp only [refusal] at taken
    split_ifs at taken with more
    next =>
      obtain rfl := Option.some.inj taken
      obtain ⟨rewritten, appended⟩ := @writeAt_file _ _ written _ _ _ object
        (((arguments.data choice.thread).drop written).take (choice.count + 1))
      refine inv.rewritten live rewritten rfl rfl ⟨rfl, ?_, permissions, mtime, ?_⟩
      next =>
        rw [List.length_take, List.length_drop]
        omega
      next =>
        rw [appended (List.length_take_of_le within), take_chunk]
    next =>
      obtain rfl := Option.some.inj taken
      rw [List.take_of_length_le (Nat.not_lt.mp more)] at object
      exact inv.same live rfl rfl ⟨permissions, mtime, object⟩

theorem step_removing {outcome : Except Nat Unit} (removing : s.calls choice.thread = .removing temp outcome)
    (taken : step arguments choice s = some s') : Invariant arguments initial settled s' := by
  have has : (s.calls choice.thread).temp = some temp := by rw [removing]; rfl
  have located := inv.located has
  simp only [step, removing] at taken
  cases outcome with
  | ok done =>
    have gone := inv.filled choice.thread
    rw [removing] at gone
    cases removed : s.disk.unlink temp.name with
    | ok disk =>
      obtain ⟨⟨node, found⟩, -⟩ := unlink_ok located removed
      rw [show s.disk.find temp.place.1 temp.place.2.1 = none from gone] at found
      cases found
    | error errno =>
      simp only [removed, Option.some.injEq] at taken
      exact taken ▸ inv.idle (by rw [removing]; rfl) rfl rfl trivial (by rw [removing]; rfl)
  | error errno =>
    have live : (s.calls choice.thread).live = some temp := by rw [removing]; rfl
    obtain ⟨found, ⟨contents, permissions, mtime, object⟩, -⟩ := inv.there choice.thread temp live
    have plain : ¬s.disk.files.graph.IsDirectory temp.fd := by
      rintro ⟨parent, entries, kind⟩
      rw [leaf_of_regular object] at kind
      cases kind
    simp only [unlink_iff.mpr ⟨_, _, _, located, found, plain, rfl⟩, Option.some.injEq] at taken
    refine taken ▸ inv.touched live (.of_detach object found) (.inr ⟨rfl, ?_⟩) rfl trivial rfl
    rw [find_detached _ (locate_directory located).1, if_pos ⟨rfl, rfl⟩]

theorem step (clears : clear arguments choice s = true)
    (taken : WriteFileAtomically.step arguments choice s = some s') :
    Invariant arguments initial settled s' := by
  cases call : s.calls choice.thread with
  | beginning => exact inv.step_beginning call clears taken
  | created temp =>
    have live : (s.calls choice.thread).live = some temp := by rw [call]; rfl
    obtain ⟨contents, permissions, mtime, object⟩ := (inv.there choice.thread temp live).file
    simp only [WriteFileAtomically.step, call, Option.some.injEq] at taken
    subst taken
    split
    next => exact inv.same live rfl rfl trivial
    next =>
      split_ifs
      next => exact inv.rewritten live (CopyFile.setMode_file object _).1 rfl rfl trivial
      next => exact inv.same live rfl rfl trivial
  | opening temp => exact inv.step_opening call taken
  | writing temp stream written => exact inv.step_writing call taken
  | replacing temp =>
    have live : (s.calls choice.thread).live = some temp := by rw [call]; rfl
    simp only [WriteFileAtomically.step, call] at taken
    cases refusal : choice.refusal with
    | some errno =>
      simp only [refusal, Option.some.injEq] at taken
      exact taken ▸ inv.failed live errno
    | none =>
      cases renames : s.disk.rename temp.name (cString arguments.path) with
      | error errno =>
        simp only [refusal, renames, Option.some.injEq] at taken
        exact taken ▸ inv.failed live errno
      | ok disk =>
        simp only [refusal, renames, Option.some.injEq] at taken
        exact taken ▸ inv.renamed call renames
  | removing temp outcome => exact inv.step_removing call taken
  | finished outcome =>
    simp only [WriteFileAtomically.step, call] at taken
    cases taken

end Invariant

omit [DecidableEq κ] in
theorem begin_invariant (arguments : Arguments κ) (initial : Disk) :
    Invariant arguments initial (fun _ _ => False) (begin initial) := by
  refine ⟨.refl initial, fun _ _ => False.elim, ?_, ?_, ?_, ?_, fun _ => trivial, ?_, fun _ _ _ _ _ => rfl,
    fun nowhere => ⟨rfl, fun place located => ?_⟩, ?_, ?_, fun _ => rfl, rfl, fun thread => ?_⟩
  next => exact fun node new used => absurd used (Nat.not_lt.mpr new)
  next => exact fun place member => absurd member List.not_mem_nil
  next => exact fun thread temp has => nomatch has
  next => exact fun thread temp live => nomatch live
  next => exact fun first second temp other has => nomatch has
  next =>
    rw [Arguments.target, show initial.locate arguments.path = .ok place from located] at nowhere
    cases nowhere
  next => exact fun place aimed some => absurd rfl some
  next => exact fun some => absurd rfl some
  next => simp [begin, Call.renamed]

omit [DecidableEq κ] in
-- What the observer sees is decided by the call that renamed last.
theorem Invariant.view (inv : Invariant arguments initial settled s) : view arguments.path s.disk =
    match s.renamed.getLast? with
    | none => WriteFileAtomically.view arguments.path initial
    | some thread => some (.file (arguments.data thread)) := by
  have seen := inv.seen
  cases last : s.renamed.getLast? with
  | none => simpa only [last] using seen
  | some thread =>
    simp only [last] at seen ⊢
    obtain ⟨node, found, ⟨permissions, mtime, object⟩, -, -⟩ := seen
    have some : s.renamed ≠ [] := by
      intro none
      simp [none] at last
    cases aimed : arguments.target initial with
    | none => exact absurd (inv.lost aimed).1 some
    | some place =>
      have located := inv.aimed_now aimed (inv.begun some)
      exact view_file (pathname_of_locate located (found place aimed) object) object

omit [DecidableEq κ] in
theorem Invariant.settle (inv : Invariant arguments initial settled s) {node : Nat} {contents : Bytes}
    {permissions : Fin 0o10000} {mtime : Int}
    (reached : s.disk.files.pathname true s.disk.files.currentDirectory arguments.path = .ok node)
    (object : s.disk.files.object node = .regular contents permissions mtime) :
    Invariant arguments initial (fun other data => other = node ∧ data = contents) s := by
  refine { inv with unwritten := ?_ }
  rintro other data ⟨rfl, rfl⟩
  refine ⟨CopyFile.used_of_pathname reached, fun thread temp live same => ?_, permissions, mtime, object⟩
  exact (inv.there thread temp live).unseen (same ▸ reached)

theorem step_renamed (taken : step arguments choice s = some s') : s'.renamed = s.renamed ∨
    ∃ temp, s.calls choice.thread = .replacing temp ∧ s'.calls choice.thread = .removing temp (.ok ()) ∧
      s'.renamed = s.renamed ++ [choice.thread] := by
  cases call : s.calls choice.thread with
  | replacing temp =>
    simp only [step, call] at taken
    split at taken
    next => exact .inl (Option.some.inj taken ▸ rfl)
    next =>
      split at taken
      next => exact .inl (Option.some.inj taken ▸ rfl)
      next =>
        obtain rfl := Option.some.inj taken
        exact .inr ⟨temp, rfl, Function.update_self _ _ _, rfl⟩
  | beginning | created | opening | writing | removing | finished =>
    simp only [step, call] at taken
    grind [State.moved]

def Clear (arguments : Arguments κ) (choice : Choice κ) (s : State κ) : Prop := clear arguments choice s = true

omit [DecidableEq κ] in
instance decidableClear (arguments : Arguments κ) (choice : Choice κ) (s : State κ) : Decidable
    (Clear arguments choice s) :=
  inferInstanceAs (Decidable (_ = true))

section Runs

variable (along : Along (step arguments) (Clear arguments) (begin initial) choices)
  (reached : run (step arguments) (begin initial) choices = some s)

include along reached

theorem run_invariant_kept : Invariant arguments initial (fun _ _ => False) s :=
  run_along (fun _ _ _ clears taken inv => inv.step clears taken) along reached (begin_invariant arguments initial)

end Runs

structure Atomic (arguments : Arguments κ) (initial : Disk) (choices : List (Choice κ)) (s : State κ) : Prop where
  seen : view arguments.path s.disk = view arguments.path initial ∨
    ∃ thread, view arguments.path s.disk = some (.file (arguments.data thread))
  opened : ∀ earlier later between node contents permissions mtime, choices = earlier ++ later →
    run (step arguments) (begin initial) earlier = some between →
      between.disk.files.pathname true between.disk.files.currentDirectory arguments.path = .ok node →
        between.disk.files.object node = .regular contents permissions mtime →
          ∃ permissions mtime, s.disk.files.object node = .regular contents permissions mtime
  thrown : ∀ earlier choice later before after errno, choices = earlier ++ choice :: later →
    run (step arguments) (begin initial) earlier = some before → step arguments choice before = some after →
      s.calls choice.thread = .finished (.error errno) →
        view arguments.path after.disk = view arguments.path before.disk
  returned : ∀ thread, s.calls thread = .finished (.ok ()) → ∃ earlier choice later before after temp,
    choices = earlier ++ choice :: later ∧ run (step arguments) (begin initial) earlier = some before ∧
      step arguments choice before = some after ∧ before.calls thread = .replacing temp ∧
        after.calls thread = .removing temp (.ok ()) ∧
          view arguments.path after.disk = some (.file (arguments.data thread))
  cleared : (∀ thread, s.calls thread = .beginning ∨ ∃ outcome, s.calls thread = .finished outcome) →
    ∀ place ∈ s.handed, s.disk.find place.1 place.2.1 = none

theorem writeFileAtomically_atomic
    (along : Along (step arguments) (Clear arguments) (begin initial) choices)
    (reached : run (step arguments) (begin initial) choices = some s) : Atomic arguments initial choices s := by
  have inv := run_invariant_kept along reached
  refine ⟨?_, ?_, ?_, ?_, ?_⟩
  next =>
    have seen := inv.view
    cases last : s.renamed.getLast? with
    | none => exact .inl (by simpa only [last] using seen)
    | some thread => exact .inr ⟨thread, by simpa only [last] using seen⟩
  next =>
    rintro earlier later between node contents permissions mtime rfl reached' leads object
    obtain ⟨first, rest⟩ := along.append reached'
    rw [run_append, reached', Option.bind_some] at reached
    have settled := (run_invariant_kept first reached').settle leads object
    have later := run_along (fun _ _ _ clears taken inv => inv.step clears taken) rest reached settled
    exact (later.unwritten node contents ⟨rfl, rfl⟩).2.2
  next =>
    rintro earlier choice later before after errno rfl reached' taken threw
    obtain ⟨first, clears, -⟩ := along.append reached'
    have old := run_invariant_kept first reached'
    have new := old.step clears taken
    obtain same | ⟨temp, -, -, grown⟩ := step_renamed taken
    next => rw [new.view, old.view, same]
    next =>
      rw [run_append, reached', Option.bind_some, run, taken, Option.bind_some] at reached
      have stays (choice' : Choice κ) (s s' : State κ) (taken : step arguments choice' s = some s')
          (member : choice.thread ∈ s.renamed) : choice.thread ∈ s'.renamed := by
        obtain same | ⟨temp, -, -, grown⟩ := step_renamed taken
        next => rwa [same]
        next => exact grown ▸ List.mem_append_left _ member
      have member := run_invariant stays reached (by rw [grown]; exact List.mem_concat_self)
      rw [inv.outcome, threw] at member
      cases member
  next =>
    intro thread returned
    have member : thread ∈ s.renamed := (inv.outcome thread).mpr (by rw [returned]; rfl)
    obtain ⟨earlier, choice, later, before, after, rfl, reached', taken, absent, present⟩ :=
      @run_crossing _ _ _ (fun s : State κ => thread ∈ s.renamed) _ _ _ reached List.not_mem_nil member
    obtain ⟨first, clears, -⟩ := along.append reached'
    have new := (run_invariant_kept first reached').step clears taken
    obtain same | ⟨temp, replacing, removing, grown⟩ := step_renamed taken
    next => exact absurd (same ▸ present) absent
    next =>
      obtain rfl : thread = choice.thread := by
        rw [grown, List.mem_append, List.mem_singleton] at present
        exact present.resolve_left absent
      refine ⟨earlier, choice, later, before, after, temp, rfl, reached', taken, replacing, removing, ?_⟩
      rw [new.view, grown, List.getLast?_concat]
  next =>
    intro finished place member
    obtain ⟨known, absent, apart⟩ := inv.picked place member
    refine (inv.rest place.1 known place.2.1 (fun thread temp live => ?_) fun _ aimed => ?_).trans absent
    next =>
      obtain beginning | ⟨outcome, ended⟩ := finished thread
      next => simp [beginning, Call.live] at live
      next => simp [ended, Call.live] at live
    next => exact apart aimed.place_eq

section Samples

def firstSuffix : TempSuffix := ⟨text "CCCCCC", rfl, List.all_eq_true.mp (by decide)⟩

def secondSuffix : TempSuffix := ⟨text "BBBBBB", rfl, List.all_eq_true.mp (by decide)⟩

def writers : Arguments Bool where
  path := text "/f"
  data thread := if thread then text "second" else text "first"
  mode _ := 0o644
  intermediateDirectory _ := []
  tempPrefix _ := text "buildbox"

def overlapping : List (Choice Bool) :=
  [false, false, false, true, false, false, true, false, true, false, true, true, true, true].map fun thread =>
    ⟨thread, none, if thread then secondSuffix else firstSuffix, 9, []⟩

theorem writeFileAtomically_overlapping :
    ∃ s, run (step writers) (begin CreateDirectory.bareDisk) overlapping = some s ∧
    view writers.path s.disk = some (.file (text "second")) ∧
      Atomic writers CreateDirectory.bareDisk overlapping s := by
  have last : (run (step writers) (begin CreateDirectory.bareDisk) overlapping).map
    (fun s => view writers.path s.disk) = some (some (.file (text "second"))) := by decide +kernel
  obtain ⟨s, reached, seen⟩ := Option.map_eq_some_iff.mp last
  have along : Along (step writers) (Clear writers) (begin CreateDirectory.bareDisk) overlapping := by decide +kernel
  exact ⟨s, reached, seen, writeFileAtomically_atomic along reached⟩

def linkDisk : Disk :=
  ((CreateDirectory.bareDisk.create 0 ⟨text "e", by constructor <;> decide⟩ (.directory 0o755)).create 1
    ⟨text "s", by constructor <;> decide⟩ (.directory 0o755)).create 0 ⟨text "link", by constructor <;> decide⟩
      (.symlink (text "/e/s"))

def writer : Arguments Unit where
  path := text "/link/../f"
  data _ := text "data"
  mode _ := 0o644
  intermediateDirectory _ := []
  tempPrefix _ := text "buildbox"

def alone : List (Choice Unit) := List.replicate 7 ⟨(), none, firstSuffix, 9, []⟩

theorem writeFileAtomically_stray : ∃ s, run (step writer) (begin linkDisk) alone = some s ∧
    (∀ thread, s.calls thread = .finished (.ok ())) ∧ ¬Atomic writer linkDisk alone s := by
  have stray : (run (step writer) (begin linkDisk) alone).map (fun s =>
      (s.calls (), s.handed.map fun place => (s.disk.find place.1 place.2.1).isSome)) =
        some (.finished (.ok ()), [true]) := by decide +kernel
  obtain ⟨s, reached, same⟩ := Option.map_eq_some_iff.mp stray
  obtain ⟨finished, left⟩ := Prod.mk.inj same
  refine ⟨s, reached, fun _ => finished, fun atomic => ?_⟩
  obtain ⟨place, picked, found⟩ := List.map_eq_singleton_iff.mp left
  rw [atomic.cleared (fun _ => .inr ⟨_, finished⟩) place (picked ▸ List.mem_singleton_self _)] at found
  cases found

end Samples

end BuildboxCommon.WriteFileAtomically
