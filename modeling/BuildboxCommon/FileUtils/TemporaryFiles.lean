import BuildboxCommon.FileUtils.WriteFileAtomically

set_option autoImplicit false

namespace BuildboxCommon.WriteFileAtomically

open ByteString FileUtils LexicalPath PathResolution Posix Posix.Disk

variable {κ : Type} {arguments : Arguments κ} {initial disk : Disk} {s s' : State κ} {thread : κ} {temp : TemporaryFile}
  {call : Call} {settled : Nat → Bytes → Prop}

structure Spares (arguments : Arguments κ) (initial : Disk) (thread : κ) (s s' : State κ) : Prop where
  calls : ∀ other, other ≠ thread → s'.calls other = s.calls other
  handed : ∀ place ∈ s.handed, place ∈ s'.handed
  alike : Alike s.disk s'.disk
  files : ∀ node < s.disk.next, (∀ temp, (s.calls thread).live = some temp → temp.fd ≠ node) →
    ∀ contents permissions mtime, s.disk.files.object node = .regular contents permissions mtime →
      s'.disk.files.object node = .regular contents permissions mtime
  finds : ∀ other temp, other ≠ thread → (s.calls other).temp = some temp →
    s'.disk.find temp.place.1 temp.place.2.1 = s.disk.find temp.place.1 temp.place.2.1
  located : ∀ name place, (without (arguments.target initial) s.disk).locate name = .ok place →
    (without (arguments.target initial) s'.disk).locate name = .ok place
  leads : ∀ node < s.disk.next, s'.disk.files.pathname true s'.disk.files.currentDirectory arguments.path = .ok node →
    s.disk.files.pathname true s.disk.files.currentDirectory arguments.path = .ok node ∨
      ∃ temp, (s.calls thread).temp = some temp ∧ temp.fd = node
  fresh : ∀ temp, (s'.calls thread).live = some temp → (s.calls thread).live = some temp ∨ s.disk.next ≤ temp.fd

structure Owns (arguments : Arguments κ) (initial : Disk) (thread : κ) (s s' : State κ) : Prop where
  placed : ∀ temp, (s'.calls thread).temp = some temp → Placed arguments initial s' temp
  there : ∀ temp, (s'.calls thread).live = some temp → There arguments s'.disk temp
  filled : (s'.calls thread).Filled (arguments.data thread) s'.disk
  distinct : ∀ temp, (s'.calls thread).temp = some temp → ∀ other file, other ≠ thread →
    (s.calls other).temp = some file → temp.place ≠ file.place ∧ temp.fd ≠ file.fd

def Rests (arguments : Arguments κ) (initial : Disk) (thread : κ) (s s' : State κ) : Prop :=
  ∀ here < initial.next, ∀ probe,
    (∀ temp, (s'.calls thread).live = some temp → ¬(here = temp.place.1 ∧ probe = temp.place.2.1)) →
      (s'.renamed ≠ [] → ¬At (arguments.target initial) here probe) →
        s'.disk.find here probe = initial.find here probe ∨
        s'.disk.find here probe = s.disk.find here probe ∧
          ∀ temp, (s.calls thread).live = some temp → ¬(here = temp.place.1 ∧ probe = temp.place.2.1)

theorem mem_renamed {other : κ} (differs : other ≠ thread)
    (renames : s'.renamed = s.renamed ∨ s'.renamed = s.renamed ++ [thread]) :
    other ∈ s'.renamed ↔ other ∈ s.renamed := by
  obtain same | grown := renames
  next => rw [same]
  next => simp [grown, differs]

namespace Spares

variable (spares : Spares arguments initial thread s s') (inv : Invariant arguments initial settled s)

include spares

theorem apart {node : Nat} (used : node < s.disk.next)
    (apart : ∀ other temp, (s.calls other).live = some temp → temp.fd ≠ node) (other : κ) (temp : TemporaryFile)
    (live : (s'.calls other).live = some temp) : temp.fd ≠ node := by
  by_cases same : other = thread
  next =>
    subst same
    obtain old | new := spares.fresh temp live
    next => exact apart other temp old
    next => exact (used.trans_le new).ne'
  next => exact apart other temp (spares.calls other same ▸ live)

include inv

theorem placed {other : κ} (has : (s.calls other).temp = some temp) :
    Placed arguments initial s' temp := by
  have before := inv.placed other temp has
  exact ⟨spares.handed _ before.handed, before.new, before.used.trans_le spares.alike.next,
    spares.located _ _ before.located⟩

theorem file_kept {other : κ} (differs : other ≠ thread) (has : (s.calls other).temp = some temp)
    (contents : Bytes) (permissions : Fin 0o10000) (mtime : Int)
    (object : s.disk.files.object temp.fd = .regular contents permissions mtime) :
    s'.disk.files.object temp.fd = .regular contents permissions mtime := by
  refine spares.files temp.fd (inv.placed other temp has).used (fun own live => ?_) _ _ _ object
  exact (inv.distinct thread other own temp (Call.temp_of_live live) has differs.symm).2

theorem there {other : κ} (differs : other ≠ thread) (live : (s.calls other).live = some temp) :
    There arguments s'.disk temp := by
  have has := Call.temp_of_live live
  obtain ⟨found, ⟨contents, permissions, mtime, object⟩, unseen⟩ := inv.there other temp live
  refine ⟨(spares.finds other temp differs has).trans found,
    ⟨_, _, _, spares.file_kept inv differs has _ _ _ object⟩, fun reached => ?_⟩
  obtain before | ⟨own, mine, same⟩ := spares.leads _ (inv.placed other temp has).used reached
  next => exact unseen before
  next => exact (inv.distinct thread other own temp mine has differs.symm).2 same

theorem filled {other : κ} (differs : other ≠ thread) : (s.calls other).Filled (arguments.data other) s'.disk :=
  (inv.filled other).mono (fun _ has => spares.file_kept inv differs has)
    fun file has gone => (spares.finds other file differs has).trans gone

theorem seen (same : s'.renamed = s.renamed) (views : view arguments.path s'.disk = view arguments.path s.disk)
    (entry : ∀ place, arguments.target initial = some place →
      s'.disk.find place.1 place.2.1 = s.disk.find place.1 place.2.1) :
    match s'.renamed.getLast? with
    | none => view arguments.path s'.disk = view arguments.path initial
    | some winner => ∃ node, Replaced arguments initial s' winner node := by
  have seen := inv.seen
  rw [same]
  cases last : s.renamed.getLast? with
  | none =>
    simp only [last] at seen ⊢
    exact views.trans seen
  | some winner =>
    simp only [last] at seen ⊢
    obtain ⟨node, found, ⟨permissions, mtime, object⟩, used, others⟩ := seen
    exact ⟨node, fun place aimed => (entry place aimed).trans (found place aimed),
      ⟨permissions, mtime, spares.files node used (others thread) _ _ _ object⟩, used.trans_le spares.alike.next,
      spares.apart used others⟩

theorem invariant (owns : Owns arguments initial thread s s') (rests : Rests arguments initial thread s s')
    (leaves : ∀ node, s.disk.next ≤ node → node < s'.disk.next → (s'.disk.files.object node).outline = .leaf)
    (picked : ∀ place ∈ s'.handed, Picked arguments initial place)
    (lost : arguments.target initial = none → s'.renamed = [] ∧ ∀ place, s'.disk.locate arguments.path ≠ .ok place)
    (aimed : ∀ place, arguments.target initial = some place → s'.handed ≠ [] →
      (without (some place) s.disk).locate arguments.path = .ok place)
    (begun : s'.renamed ≠ [] → s'.handed ≠ []) (unused : s'.handed = [] → s'.disk = initial)
    (seen : match s'.renamed.getLast? with
      | none => view arguments.path s'.disk = view arguments.path initial
      | some winner => ∃ node, Replaced arguments initial s' winner node)
    (renames : s'.renamed = s.renamed ∨ s'.renamed = s.renamed ++ [thread])
    (outcome : thread ∈ s'.renamed ↔ (s'.calls thread).renamed = true) : Invariant arguments initial settled s' := by
  refine ⟨inv.alike.trans spares.alike, ?_, ?_, picked, ?_, ?_, ?_, ?_, ?_, lost, ?_, begun, unused, seen, ?_⟩
  next =>
    intro node contents fixed
    obtain ⟨used, apart, permissions, mtime, object⟩ := inv.unwritten node contents fixed
    exact ⟨used.trans_le spares.alike.next, spares.apart used apart, permissions, mtime,
      spares.files node used (apart thread) _ _ _ object⟩
  next =>
    intro node new used
    by_cases old : node < s.disk.next
    next => exact (spares.alike.outline node old).trans (inv.leaves node new old)
    next => exact leaves node (Nat.not_lt.mp old) used
  next =>
    intro other temp has
    by_cases same : other = thread
    next => exact owns.placed temp (same ▸ has)
    next => exact spares.placed inv (spares.calls other same ▸ has)
  next =>
    intro other temp live
    by_cases same : other = thread
    next => exact owns.there temp (same ▸ live)
    next => exact spares.there inv same (spares.calls other same ▸ live)
  next =>
    intro other
    by_cases same : other = thread
    next => exact same ▸ owns.filled
    next => exact (spares.calls other same).symm ▸ spares.filled inv same
  next =>
    intro first second temp file has has' differs
    by_cases mine : first = thread
    next =>
      subst mine
      exact owns.distinct temp has second file differs.symm (spares.calls second differs.symm ▸ has')
    next =>
      rw [spares.calls first mine] at has
      by_cases yours : second = thread
      next =>
        subst yours
        obtain ⟨places, fds⟩ := owns.distinct file has' first temp mine has
        exact ⟨places.symm, fds.symm⟩
      next => exact inv.distinct first second temp file has (spares.calls second yours ▸ has') differs
  next =>
    intro here known probe away unnamed
    obtain before | ⟨left, own⟩ := rests here known probe (away thread) unnamed
    next => exact before
    next =>
      refine left.trans (inv.rest here known probe (fun other temp live => ?_) fun some => unnamed ?_)
      next =>
        by_cases same : other = thread
        next => exact own temp (same ▸ live)
        next => exact away other temp ((spares.calls other same).symm ▸ live)
      next =>
        obtain same | grown := renames
        next => rwa [same]
        next => simp [grown]
  next => exact fun place same some => same ▸ spares.located _ _ (same ▸ aimed place same some)
  next =>
    intro other
    by_cases same : other = thread
    next => exact same ▸ outcome
    next => rw [mem_renamed same renames, spares.calls other same, inv.outcome other]

end Spares

theorem view_created {path : Bytes} {here : Nat} {entry : Name} (vacant : disk.Vacant here entry)
    (unseen : (disk.create here entry (.regular [] 0o600)).files.pathname true
      (disk.create here entry (.regular [] 0o600)).files.currentDirectory path ≠ .ok disk.next) :
    view path (disk.create here entry (.regular [] 0o600)) = view path disk := by
  refine view_congr (fun node => ⟨fun reached => ?_, (vacant.preserves _).pathname⟩) fun node reached => ?_
  next => exact (vacant.agrees_back [] 0o600).pathname reached fun same => unseen (same ▸ reached)
  next =>
    have old := CopyFile.used_of_pathname reached
    exact seen_of_outline ((vacant.alike [] 0o600).outline node old) fun _ _ _ =>
      (vacant.within _).regular vacant.directory old

namespace Invariant

variable (inv : Invariant arguments initial settled s)

include inv

theorem elsewhere {place : Nat × Name} (fresh : place ∉ s.handed) (has : (s.calls thread).temp = some temp) :
    temp.place ≠ place := by
  rintro rfl
  exact fresh (inv.placed thread temp has).handed

theorem picked_of_vacant {here : Nat} {entry : Name} (vacant : s.disk.Vacant here entry)
    (fresh : (here, entry) ∉ s.handed)
    (apart : arguments.target initial ≠ some (here, entry)) : Picked arguments initial (here, entry) := by
  have known : here < initial.next := by
    by_contra new
    obtain ⟨parent, entries, permissions, mtime, kind⟩ := (FileSystem.isDirectory_iff here).mp vacant.directory
    have leaf := inv.leaves here (Nat.not_lt.mp new) vacant.used
    rw [kind] at leaf
    cases leaf
  refine ⟨known, ?_, apart⟩
  refine (inv.rest here known entry.1 (fun other file live same => ?_) fun _ aimed => ?_).symm.trans vacant.absent
  next => exact inv.elsewhere fresh (Call.temp_of_live live) (place_ext_iff.mpr same).symm
  next => exact apart aimed.place_eq

variable [DecidableEq κ]

theorem touched_spares (live : (s.calls thread).live = some temp) (touched : Touched temp.place temp.fd s.disk disk)
    (remains : ∀ file, call.live = some file → file = temp) :
    Spares arguments initial thread s (s.moved thread disk call) := by
  have mine := Call.temp_of_live live
  refine ⟨fun other differs => Function.update_of_ne differs _ _, fun _ member => member, touched.alike,
    fun node used apart => touched.others node used (apart temp live).symm, fun other file differs has => ?_,
    fun _ _ => touched.locate_without inv.held, fun _ _ reached => .inl (touched.pathname_back reached),
    fun file live' => .inl ?_⟩
  next => exact touched.finds _ _ (mt place_ext_iff.mpr (inv.distinct other thread file temp has mine differs).1)
  next =>
    rw [calls_moved, if_pos rfl] at live'
    rwa [remains file live']

theorem created_spares {here : Nat} {entry : Name} (vacant : s.disk.Vacant here entry)
    (fresh : (here, entry) ∉ s.handed)
    (name : Bytes) : Spares arguments initial thread s
      { s.moved thread (s.disk.create here entry (.regular [] 0o600)) (.created ⟨(here, entry), s.disk.next, name⟩) with
        handed := (here, entry) :: s.handed } := by
  have within := vacant.within (.regular [] 0o600)
  refine ⟨fun other differs => Function.update_of_ne differs _ _, fun _ member => List.mem_cons_of_mem _ member,
    vacant.alike [] 0o600, fun node used _ _ _ _ => within.regular vacant.directory used, fun other file _ has => ?_,
    fun _ _ => vacant.locate_without [] 0o600 inv.held, fun node used reached => .inl ?_, fun file live => .inr ?_⟩
  next => exact vacant.find_elsewhere [] 0o600 (inv.elsewhere fresh has) (locate_directory (inv.located has)).2
  next => exact (vacant.agrees_back [] 0o600).pathname reached used.ne
  next =>
    have live : ((s.moved thread (s.disk.create here entry (.regular [] 0o600))
      (.created ⟨(here, entry), s.disk.next, name⟩)).calls thread).live = some file := live
    rw [calls_moved, if_pos rfl] at live
    obtain rfl := Option.some.inj live
    exact le_rfl

theorem renamed_spares {target : Nat × Name} (live : (s.calls thread).live = some temp)
    (aimed : arguments.target initial = some target) (moved : Renamed temp.place target temp.fd s.disk disk)
    (reached : disk.files.pathname true disk.files.currentDirectory arguments.path = .ok temp.fd) :
    Spares arguments initial thread s
      { s.moved thread disk (.removing temp (.ok ())) with renamed := s.renamed ++ [thread] } := by
  have has := Call.temp_of_live live
  have there := inv.there thread temp live
  obtain ⟨contents, permissions, mtime, object⟩ := there.file
  refine ⟨fun other differs => Function.update_of_ne differs _ _, fun _ member => member, moved.alike,
    fun node used _ => moved.files node used, fun other file differs has' => ?_, fun _ _ located => ?_,
    fun node _ leads => .inr ⟨temp, has, Except.ok.inj (reached.symm.trans leads)⟩, fun file live => ?_⟩
  next =>
    have picked := inv.picked _ (inv.placed other file has').handed
    have elsewhere : file.place ≠ target := fun same => picked.apart (same ▸ aimed)
    have apart := (inv.distinct other thread file temp has' has differs).1
    refine (moved.finds _ _).trans ?_
    rw [if_neg (mt place_ext_iff.mpr elsewhere), if_neg (mt place_ext_iff.mpr apart)]
  next =>
    rw [aimed] at located ⊢
    exact moved.locate_without there.found (leaf_of_regular object) (aimed ▸ inv.held) located
  next =>
    have live : ((s.moved thread disk (.removing temp (.ok ()))).calls thread).live = some file := live
    rw [calls_moved, if_pos rfl] at live
    cases live

theorem touched (live : (s.calls thread).live = some temp) (touched : Touched temp.place temp.fd s.disk disk)
    (next : call.temp = some temp ∧ (disk.find temp.place.1 temp.place.2.1 = some temp.fd ∧
        ∃ contents permissions mtime, disk.files.object temp.fd = .regular contents permissions mtime) ∨
      call.temp = none ∧ disk.find temp.place.1 temp.place.2.1 = none)
    (remains : call.live = call.temp) (filled : call.Filled (arguments.data thread) disk)
      (unrenamed : call.renamed = false) :
    Invariant arguments initial settled (s.moved thread disk call) := by
  have mine := Call.temp_of_live live
  have placed := inv.placed thread temp mine
  have there := inv.there thread temp live
  have picked := inv.picked temp.place placed.handed
  have calls : (s.moved thread disk call).calls thread = call := Function.update_self _ _ _
  have own (file : TemporaryFile) (has : call.temp = some file) : file = temp ∧
      disk.find temp.place.1 temp.place.2.1 = some temp.fd ∧
        ∃ contents permissions mtime, disk.files.object temp.fd = .regular contents permissions mtime := by
    obtain ⟨has', found⟩ | ⟨none, -⟩ := next
    next => exact ⟨Option.some.inj (has.symm.trans has'), found⟩
    next =>
      rw [none] at has
      cases has
  have spares : Spares arguments initial thread s (s.moved thread disk call) :=
    inv.touched_spares live touched fun file live' => (own file (remains ▸ live')).1
  have owns : Owns arguments initial thread s (s.moved thread disk call) := by
    refine ⟨fun file has => ?_, fun file live' => ?_, ?_, fun file has other file' differs has' => ?_⟩
    next =>
      obtain ⟨rfl, -⟩ := own file (calls ▸ has)
      exact spares.placed inv mine
    next =>
      rw [calls, remains] at live'
      obtain ⟨rfl, found, regular⟩ := own file live'
      exact ⟨found, regular, fun reached => there.unseen (touched.pathname_back reached)⟩
    next => exact calls.symm ▸ filled
    next =>
      obtain ⟨rfl, -⟩ := own file (calls ▸ has)
      exact inv.distinct thread other file file' mine has' differs.symm
  have rests : Rests arguments initial thread s (s.moved thread disk call) := by
    intro here known probe away unnamed
    by_cases entry : here = temp.place.1 ∧ probe = temp.place.2.1
    next =>
      obtain ⟨rfl, rfl⟩ := entry
      obtain ⟨has, -⟩ | ⟨-, gone⟩ := next
      next => exact absurd ⟨rfl, rfl⟩ (away temp (by rw [calls, remains, has]))
      next => exact .inl (gone.trans picked.absent.symm)
    next =>
      refine .inr ⟨touched.finds here probe entry, fun file live' => ?_⟩
      rwa [← Option.some.inj (live.symm.trans live')]
  refine spares.invariant inv owns rests (fun node new used => ?_) inv.picked (fun nowhere => ?_) inv.aimed inv.begun
    (fun none => ?_) ?_ (.inl rfl) ?_
  next => exact absurd (used.trans_eq touched.next) (Nat.not_lt.mpr new)
  next =>
    obtain ⟨none, lost⟩ := inv.lost nowhere
    exact ⟨none, fun place located => lost place (touched.agrees_back.locate located)⟩
  next =>
    have handed := placed.handed
    rw [show s.handed = [] from none] at handed
    cases handed
  next =>
    refine spares.seen inv rfl (view_touched touched there.unseen) fun place aimed => ?_
    exact touched.finds _ _ (mt place_ext_iff.mpr fun same => picked.apart (same ▸ aimed))
  next =>
    rw [calls, unrenamed, ← Call.not_renamed_of_live live]
    exact inv.outcome thread

theorem idle (dead : (s.calls thread).live = none) (done : call.temp = none) (lives : call.live = none)
    (filled : call.Filled (arguments.data thread) s.disk) (outcome : call.renamed = (s.calls thread).renamed) :
    Invariant arguments initial settled (s.moved thread s.disk call) := by
  have calls : (s.moved thread s.disk call).calls thread = call := Function.update_self _ _ _
  have none (file : TemporaryFile) : (s.calls thread).live ≠ some file := by simp [dead]
  have spares : Spares arguments initial thread s (s.moved thread s.disk call) :=
    ⟨fun other differs => Function.update_of_ne differs _ _, fun _ member => member, .refl _,
      fun _ _ _ _ _ _ object => object,
      fun _ _ _ _ => rfl, fun _ _ located => located, fun _ _ => .inl, fun _ live => by simp [lives] at live⟩
  have owns : Owns arguments initial thread s (s.moved thread s.disk call) :=
    ⟨fun _ has => by simp [done] at has, fun _ live => by simp [lives] at live, calls.symm ▸ filled,
      fun _ has => by simp [done] at has⟩
  refine spares.invariant inv owns (fun _ _ _ _ _ => .inr ⟨rfl, fun file live => absurd live (none file)⟩)
    (fun node new used => absurd used (Nat.not_lt.mpr new)) inv.picked inv.lost inv.aimed inv.begun inv.unused
    (spares.seen inv rfl rfl fun _ _ => rfl) (.inl rfl) ?_
  rw [calls, outcome]
  exact inv.outcome thread

theorem created {name : Bytes} {place : Nat × Name} (beginning : s.calls thread = .beginning)
    (located : s.disk.locate name = .ok place) (made : s.disk.mkstemp name = .ok disk) (fresh : place ∉ s.handed)
    (normal : (without (arguments.target initial) s.disk).locate (normalizePath name) = .ok place)
    (aims : ∀ target, arguments.target initial = some target →
      (without (arguments.target initial) s.disk).locate arguments.path = .ok target)
    (unseen : disk.files.pathname true disk.files.currentDirectory arguments.path ≠ .ok s.disk.next) :
    Invariant arguments initial settled { s.moved thread disk (.created ⟨place, s.disk.next, normalizePath name⟩) with
      handed := place :: s.handed } := by
  obtain ⟨here, entry⟩ := place
  obtain ⟨absent, rfl⟩ := createNew_ok located made
  have vacant : s.disk.Vacant here entry :=
    ⟨(locate_directory located).1, (locate_directory located).2, absent⟩
  have object := object_create vacant.directory vacant.used entry (.regular [] 0o600)
  have next := next_create vacant.directory vacant.used entry (.regular [] 0o600)
  have finds := find_created entry vacant.directory vacant.used (.regular [] 0o600)
  have found := finds here vacant.used entry.1
  rw [if_pos ⟨rfl, rfl⟩] at found
  have apart : arguments.target initial ≠ some (here, entry) := fun same =>
    unseen (pathname_of_locate
      ((vacant.preserves _).locate ((without_agrees inv.held).locate (aims _ same))) found object)
  have nothing (file : TemporaryFile) : (s.calls thread).live ≠ some file := by simp [beginning, Call.live]
  set s' : State κ := { s.moved thread (s.disk.create here entry (.regular [] 0o600))
    (.created ⟨(here, entry), s.disk.next, normalizePath name⟩) with handed := (here, entry) :: s.handed }
  have calls : s'.calls thread = .created ⟨(here, entry), s.disk.next, normalizePath name⟩ := Function.update_self _ _ _
  have mine (file : TemporaryFile) (has : (s'.calls thread).temp = some file) :
      file = ⟨(here, entry), s.disk.next, normalizePath name⟩ := by
    rw [calls] at has
    exact (Option.some.inj has).symm
  have spares : Spares arguments initial thread s s' := inv.created_spares vacant fresh (normalizePath name)
  have owns : Owns arguments initial thread s s' := by
    refine ⟨fun file has => ?_, fun file live => ?_, by rw [calls]; trivial,
      fun file has other file' differs has' => ?_⟩
    next =>
      obtain rfl := mine file has
      exact ⟨List.mem_cons_self, inv.alike.next, next ▸ Nat.lt_succ_self _,
        vacant.locate_without [] 0o600 inv.held normal⟩
    next =>
      obtain rfl := mine file (Call.temp_of_live live)
      exact ⟨found, ⟨_, _, _, object⟩, unseen⟩
    next =>
      obtain rfl := mine file has
      exact ⟨(inv.elsewhere fresh has').symm, (inv.placed other file' has').used.ne'⟩
  have rests : Rests arguments initial thread s s' := by
    intro there old probe away unnamed
    have own := away _ (by rw [calls]; rfl)
    refine .inr ⟨(finds there (old.trans_le inv.alike.next) probe).trans (if_neg own), fun file live => ?_⟩
    exact absurd live (nothing file)
  refine spares.invariant inv owns rests (fun node new used => ?_) (fun place member => ?_) (fun nowhere => ?_)
    (fun place same _ => same ▸ aims place same) (fun _ => List.cons_ne_nil _ _)
      (fun none => absurd none (List.cons_ne_nil _ _))
    ?_ (.inl rfl) ?_
  next =>
    obtain rfl : node = s.disk.next := by
      have last : node < s.disk.next + 1 := used.trans_eq next
      omega
    exact congrArg FileObject.outline object
  next =>
    rcases List.mem_cons.mp member with rfl | old
    next => exact inv.picked_of_vacant vacant fresh apart
    next => exact inv.picked place old
  next =>
    obtain ⟨none, lost⟩ := inv.lost nowhere
    exact ⟨none, fun place located => lost place ((vacant.agrees_back [] 0o600).locate located)⟩
  next =>
    refine spares.seen inv rfl (view_created vacant unseen) fun place same => ?_
    exact vacant.find_elsewhere [] 0o600 (fun alike => apart (alike ▸ same)) (inv.held _ _ same).2
  next =>
    rw [calls, Call.renamed]
    exact (inv.outcome thread).trans (by rw [beginning, Call.renamed])

theorem renamed (replacing : s.calls thread = .replacing temp)
    (renames : s.disk.rename temp.name (cString arguments.path) = .ok disk) :
    Invariant arguments initial settled
      { s.moved thread disk (.removing temp (.ok ())) with renamed := s.renamed ++ [thread] } := by
  have has : (s.calls thread).temp = some temp := by rw [replacing]; rfl
  have live : (s.calls thread).live = some temp := by rw [replacing]; rfl
  have placed := inv.placed thread temp has
  have picked := inv.picked temp.place placed.handed
  have there := inv.there thread temp live
  have handed : s.handed ≠ [] := List.ne_nil_of_mem placed.handed
  have filled := inv.filled thread
  rw [replacing] at filled
  obtain ⟨permissions, mtime, object⟩ := filled
  cases aimed : arguments.target initial with
  | none =>
    obtain ⟨-, lost⟩ := inv.lost aimed
    cases located : s.disk.locate (cString arguments.path) with
    | ok place => exact absurd (locate_congr (cString_cString _).symm located) (lost place)
    | error errno => simp [Disk.rename, inv.located has, located] at renames
  | some target =>
  have located := inv.aimed_now aimed handed
  have differs : s.disk.find target.1 target.2.1 ≠ some temp.fd := fun found =>
    there.unseen (pathname_of_locate located found object)
  have moved := Renamed.of_rename (inv.located has)
    (locate_congr (cString_cString _) located) there.found differs renames
  have held : Held (some target) s.disk := aimed ▸ inv.held
  have away : temp.place ≠ target := fun same => picked.apart (same ▸ aimed)
  have found : disk.find target.1 target.2.1 = some temp.fd := by rw [moved.finds, if_pos ⟨rfl, rfl⟩]
  have aims := moved.locate_without there.found (leaf_of_regular object) held (inv.aimed target aimed handed)
  have now := (without_agrees (moved.alike.held held)).locate aims
  have reached := pathname_of_locate now found (moved.files _ placed.used _ _ _ object)
  set s' : State κ := { s.moved thread disk (.removing temp (.ok ())) with renamed := s.renamed ++ [thread] }
  have calls : s'.calls thread = .removing temp (.ok ()) := Function.update_self _ _ _
  have dead (file : TemporaryFile) : (s'.calls thread).live ≠ some file := by simp [calls, Call.live]
  have spares : Spares arguments initial thread s s' := inv.renamed_spares live aimed moved reached
  have owns : Owns arguments initial thread s s' := by
    refine ⟨fun file has' => ?_, fun file live => absurd live (dead file), ?_,
      fun file has' other file' differs has'' => ?_⟩
    next =>
      rw [calls] at has'
      obtain rfl := Option.some.inj has'
      exact spares.placed inv has
    next =>
      rw [calls]
      show disk.find temp.place.1 temp.place.2.1 = none
      rw [moved.finds, if_neg (mt place_ext_iff.mpr away), if_pos ⟨rfl, rfl⟩]
    next =>
      rw [calls] at has'
      obtain rfl := Option.some.inj has'
      exact inv.distinct thread other temp file' has has'' differs.symm
  have rests : Rests arguments initial thread s s' := by
    intro here used probe away unnamed
    have apart := unnamed (List.concat_ne_nil thread s.renamed)
    have finds := moved.finds here probe
    rw [if_neg (mt at_some_iff.mpr (aimed ▸ apart))] at finds
    split_ifs at finds with own
    next =>
      obtain ⟨rfl, rfl⟩ := own
      exact .inl (finds.trans picked.absent.symm)
    next =>
      refine .inr ⟨finds, fun file live' => ?_⟩
      rwa [← Option.some.inj (live.symm.trans live')]
  refine spares.invariant inv owns rests (fun node new used => ?_) inv.picked (fun nowhere => ?_) inv.aimed
    (fun _ => handed)
    (fun none => absurd none handed) ?_ (.inr rfl) ?_
  next => exact absurd (used.trans_eq moved.next) (Nat.not_lt.mpr new)
  next =>
    rw [aimed] at nowhere
    cases nowhere
  next =>
    show match (s.renamed ++ [thread]).getLast? with | none => _ | some winner => _
    rw [List.getLast?_concat]
    refine ⟨temp.fd, fun place same => ?_, ⟨permissions, mtime, moved.files _ placed.used _ _ _ object⟩,
      placed.used.trans_eq moved.next.symm, fun other file live' => ?_⟩
    next =>
      obtain rfl := Option.some.inj (aimed.symm.trans same)
      exact found
    next =>
      have differs : other ≠ thread := fun same => dead file (same ▸ live')
      rw [spares.calls other differs] at live'
      exact (inv.distinct other thread file temp (Call.temp_of_live live') has differs).2
  next => simp [s', Call.renamed]

theorem rewritten (live : (s.calls thread).live = some temp) (rewritten : Rewritten temp.fd s.disk disk)
    (temps : call.temp = some temp) (lives : call.live = some temp)
      (filled : call.Filled (arguments.data thread) disk) :
    Invariant arguments initial settled (s.moved thread disk call) := by
  have touched := Touched.of_rewritten rewritten (inv.there thread temp live).found
  have found : disk.find temp.place.1 temp.place.2.1 = some temp.fd := by
    rw [← (inv.there thread temp live).found]
    simp only [Disk.find, rewritten.graph]
  exact inv.touched live touched (.inl ⟨temps, found, rewritten.became⟩) (lives.trans temps.symm) filled
    (Call.not_renamed_of_live lives)

theorem same (live : (s.calls thread).live = some temp) (temps : call.temp = some temp) (lives : call.live = some temp)
    (filled : call.Filled (arguments.data thread) s.disk) :
    Invariant arguments initial settled (s.moved thread s.disk call) := by
  obtain ⟨contents, permissions, mtime, object⟩ := (inv.there thread temp live).file
  exact inv.rewritten live (.refl object) temps lives filled

end Invariant

end BuildboxCommon.WriteFileAtomically
