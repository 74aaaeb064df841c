import BuildboxCommon.StagedDirectory.FallbackStagedDirectory

set_option autoImplicit false

namespace BuildboxCommon

open ByteString Client Effect FileUtils LexicalPath PathResolution Posix StagedDirectory StagedDirectoryUtils

variable {ι σ : Type}

section Downward

theorem getWorkingDirectory_relative {command : Command} {workingDirectory : Bytes}
    (started : getWorkingDirectory command = .ok workingDirectory) : isGlobal workingDirectory = false := by
  unfold getWorkingDirectory at started
  by_cases empty : command.workingDirectory = []
  next =>
    rw [if_pos empty] at started
    obtain rfl := Except.ok.inj started
    rfl
  rw [if_neg empty] at started
  simp only at started
  split_ifs at started with global above
  obtain rfl := Except.ok.inj started
  rw [← Bool.not_eq_true, ← head_slash_iff]
  exact global

theorem prefixed_relative {name workingDirectory path : Bytes} (relative : isGlobal workingDirectory = false)
    (returned : pathInInputRoot name workingDirectory = .ok path) : isGlobal (workingDirectory ++ name) = false := by
  cases workingDirectory with
  | cons byte bytes => exact relative
  | nil =>
    rw [List.nil_append]
    by_contra global
    rw [Bool.not_eq_false, ← head_slash_iff] at global
    have present : name ≠ [] := by
      rintro rfl
      cases global
    have slashes : assertNoInvalidSlashes name = .error _ := if_pos ⟨present, .inl global⟩
    rw [pathInInputRoot, slashes] at returned
    cases returned

theorem pathInInputRoot_inside {name workingDirectory path : Bytes}
    (returned : pathInInputRoot name workingDirectory = .ok path) :
    ¬(path = dotdot ∨ path.take 3 = dotdot ++ [slash]) := by
  have same := pathInInputRoot_eq returned
  intro above
  have rejected : assertPathInsideInputRoot (normalizePath (workingDirectory ++ name)) = .error _ :=
    if_pos (same ▸ above)
  unfold pathInInputRoot at returned
  cases slashes : assertNoInvalidSlashes name with
  | error thrown => simp [slashes, bind, Except.bind] at returned
  | ok _ => simp [slashes, rejected, bind, Except.bind] at returned

theorem pathInInputRoot_downward {command : Command} {name workingDirectory path : Bytes}
    (started : getWorkingDirectory command = .ok workingDirectory)
    (returned : pathInInputRoot name workingDirectory = .ok path) : ∃ names, Downward path names := by
  have inside := pathInInputRoot_inside returned
  have relative := prefixed_relative (getWorkingDirectory_relative started) returned
  have absolute : (normalForm (workingDirectory ++ name)).absolute = false :=
    (normalForm_absolute _).trans ((isGlobal_cString _).trans relative)
  rw [pathInInputRoot_eq returned, take_three_iff, normalizePath_eq_render, leadsUp_iff, Nat.not_lt,
    Nat.le_zero] at inside
  refine ⟨(normalForm (workingDirectory ++ name)).names, (normalForm (workingDirectory ++ name)).proper, ?_⟩
  rw [pathInInputRoot_eq returned, normalizePath_eq_render, NormalPath.render, absolute, NormalPath.segments, inside]
  simp

theorem StagedDirectory.Reached.downward {command : Command} {call : Call} (reached : Reached command call) :
    ∃ names, Downward call.path names := by
  obtain ⟨name, -, workingDirectory, started, returned⟩ := reached
  exact pathInInputRoot_downward started returned

end Downward

namespace FallbackStagedDirectory

variable {fs : FileSystem ι} (staged : FallbackStagedDirectory fs)

theorem stageDirectory : fs.graph.IsDirectory staged.stageDirectoryFd :=
  (FileSystem.openat_ok staged.opened).directory rfl

theorem dPath_nulFree : NulFree staged.dPath := by
  rw [← staged.normalised]
  exact normalizePath_nulFree _

theorem dPath_render : staged.dPath = (normalForm staged.dPath).render := by
  rw [← normalizePath_eq_render, staged.normalised]

theorem makePathAbsolute_ok {path absolutePath : Bytes} {names : List Bytes} (downward : Downward path names)
    (absolute : makePathAbsolute path staged.dPath = .ok absolutePath) :
    (normalForm staged.dPath).absolute = true ∧ (normalForm absolutePath).absolute = true ∧
      (normalForm absolutePath).names = (normalForm staged.dPath).names ++ names ∧
      absolutePath = (normalForm absolutePath).render := by
  have relative : path.head? ≠ some slash := by
    rw [Ne, head_slash_iff, downward.relative]
    simp
  unfold makePathAbsolute at absolute
  split_ifs at absolute with global
  rw [not_or, not_not] at global
  simp only [ne_eq, downward.no_trailing_slash, false_and, if_false, Except.ok.injEq] at absolute
  subst absolute
  have whole : NulFree (staged.dPath ++ slash :: path) := by
    rw [← List.singleton_append, nulFree_append, nulFree_append]
    exact ⟨staged.dPath_nulFree, by decide, downward.nulFree⟩
  have rooted : isGlobal staged.dPath = true := (head_slash_iff _).mp global.2
  have rooted' : isGlobal (staged.dPath ++ slash :: path) = true := by
    obtain ⟨byte, bytes, shape⟩ := List.exists_cons_of_ne_nil global.1
    rw [shape] at rooted ⊢
    exact rooted
  have base : (normalForm staged.dPath).names = walk [] (steps staged.dPath) := by
    simp [normalForm, cString_of_nulFree staged.dPath_nulFree, rooted]
  have joined : (normalForm (staged.dPath ++ slash :: path)).names = walk [] (steps staged.dPath) ++ names := by
    simp only [normalForm, cString_of_nulFree whole, rooted', dite_true]
    rw [steps_join, walk_append, downward.walk]
  rw [normalForm_normalizePath]
  refine ⟨?_, ?_, base ▸ joined, normalizePath_eq_render _⟩
  next => rw [normalForm_absolute, cString_of_nulFree staged.dPath_nulFree, rooted]
  next => rw [normalForm_absolute, cString_of_nulFree whole, rooted']

theorem pathname_absolutePath {path absolutePath : Bytes} {names : List Bytes} {fd : ι} (downward : Downward path names)
    (absolute : makePathAbsolute path staged.dPath = .ok absolutePath)
    (descent : fs.graph.Descent staged.stageDirectoryFd names fd) (plain : ¬fs.graph.IsLink fd) :
    fs.pathname true fs.currentDirectory absolutePath = .ok fd := by
  obtain ⟨rooted, rooted', joined, shape⟩ := staged.makePathAbsolute_ok downward absolute
  have reached := (FileSystem.openat_ok staged.opened).reached
  rw [staged.dPath_render] at reached
  have root := FileSystem.isDirectory_root rooted reached
  rw [FileSystem.pathname_render rooted root] at reached
  cases walked : fs.graph.resolve true fs.symlinkLimit fs.root ((normalForm staged.dPath).names.map .down) with
  | error fault =>
    rw [show (!(⟨true, false⟩ : OpenFlags).noFollow) = true from rfl, walked] at reached
    cases reached
  | ok here =>
    rw [show (!(⟨true, false⟩ : OpenFlags).noFollow) = true from rfl, walked] at reached
    obtain rfl := Except.ok.inj reached
    rw [shape, FileSystem.pathname_render rooted' root, joined, List.map_append]
    cases names with
    | nil =>
      cases descent
      rw [List.map_nil, List.append_nil, walked]
      rfl
    | cons name names =>
      obtain ⟨left, continued⟩ := Graph.resolve_append walked
      rw [continued true _ (by simp), Graph.resolve_descent descent plain]
      rfl

structure Inside (names : List Bytes) (fd : ι) : Prop where
  descent : fs.graph.Descent staged.stageDirectoryFd names fd
  plain : ¬fs.graph.IsLink fd

inductive ConfinedAccess (command : Command) : Access ι → Prop where
  | captured {output : Bytes} {names : List Bytes} {fd : ι} (reached : Reached command ⟨.file, output⟩)
    (downward : Downward output names) (inside : staged.Inside names fd) : ConfinedAccess command (.captured output fd)
  | handed {output absolutePath : Bytes} {names : List Bytes} {fd : ι} (reached : Reached command ⟨.directory, output⟩)
    (downward : Downward output names) (inside : staged.Inside names fd) (directory : fs.graph.IsDirectory fd)
    (denoted : fs.pathname true fs.currentDirectory absolutePath = .ok fd) :
    ConfinedAccess command (.handed output absolutePath)
  | hashed {names : List Bytes} {fd : ι} (inside : staged.Inside names fd) : ConfinedAccess command (.hashed fd)
  | sent {names : List Bytes} {fd : ι} (inside : staged.Inside names fd) : ConfinedAccess command (.sent fd)

section Steps

variable (around : Surroundings ι) (staged : FallbackStagedDirectory around.fs) (command : Command)

def TakenForPath (exchanges : List Exchange) (fd : ι) : Prop :=
  ∃ output names dirfd nd, ∃ message ∈ NestedDirectory.messages around.hash around.directories nd,
    Reached command ⟨.directory, output⟩ ∧ Downward output names ∧ staged.Inside names dirfd ∧
    Captured around.fs around.hash [] dirfd nd ∧
    (NestedDirectory.digestOf around.hash around.directories message).key ∈
      (exchanges.flatMap reported).map Digest.key ∧
    utf8 message = false ∧ around.fs.openat around.fs.currentDirectory
      (cString (around.directories.serializeAsString message)) ⟨false, false⟩ = .ok fd

def Accounted (exchanges : List Exchange) (access : Access ι) : Prop :=
  staged.ConfinedAccess command access ∨ ∃ fd, access = .sent fd ∧ TakenForPath around staged command exchanges fd

def Confined (start s : Session ι σ) : Prop :=
  ∃ exchanges accesses, start.Extends exchanges accesses s ∧
    ∀ access ∈ accesses, Accounted around staged command exchanges access

variable {around staged command} {start s : Session ι σ}

theorem TakenForPath.later {exchanges : List Exchange} {fd : ι}
    (taken : TakenForPath around staged command exchanges fd)
    (more : List Exchange) : TakenForPath around staged command (exchanges ++ more) fd := by
  obtain ⟨output, names, dirfd, nd, message, member, reached, downward, inside, captured, wanted, refused,
    opened⟩ := taken
  refine ⟨output, names, dirfd, nd, message, member, reached, downward, inside, captured, ?_, refused, opened⟩
  rw [List.flatMap_append, List.map_append]
  exact List.mem_append_left _ wanted

theorem Accounted.later {exchanges : List Exchange} {access : Access ι}
    (accounted : Accounted around staged command exchanges access) (more : List Exchange) :
    Accounted around staged command (exchanges ++ more) access := by
  rcases accounted with confined | ⟨fd, rfl, taken⟩
  next => exact .inl confined
  next => exact .inr ⟨fd, rfl, taken.later more⟩

theorem Confined.add (confined : Confined around staged command start s) {accesses : List (Access ι)}
    (inside : ∀ exchanges, s.exchanges = start.exchanges ++ exchanges →
      ∀ access ∈ accesses, Accounted around staged command exchanges access) (server : σ) (more : List Exchange) :
    Confined around staged command start ⟨server, s.exchanges ++ more, s.accesses ++ accesses⟩ := by
  obtain ⟨exchanges, before, extends', all⟩ := confined
  refine ⟨exchanges ++ more, before ++ accesses, extends'.trans ⟨rfl, rfl⟩, fun access member => ?_⟩
  rcases List.mem_append.mp member with old | new
  next => exact (all access old).later more
  next => exact (inside exchanges extends'.exchanges access new).later more

theorem Confined.exchanged (confined : Confined around staged command start s) (server : σ) (more : List Exchange) :
    Confined around staged command start { s with server := server, exchanges := s.exchanges ++ more } := by
  simpa using confined.add (fun _ _ => List.forall_mem_nil _) server more

theorem Confined.access (confined : Confined around staged command start s) {accesses : List (Access ι)}
    (inside : ∀ access ∈ accesses, staged.ConfinedAccess command access) :
    Confined around staged command start { s with accesses := s.accesses ++ accesses } := by
  simpa using confined.add (fun _ _ access member => .inl (inside access member)) s.server []

theorem recordAccess_confined {access : Access ι} (inside : staged.ConfinedAccess command access) :
    Keeps (Confined around staged command start) (recordAccess access : EStateM Exn (Session ι σ) Unit) fun _ => True :=
  fun _ confined => ⟨trivial, confined.access (by simpa using inside)⟩

theorem recorded_confined {α : Type} {entry : Except Exn α → Exchange} (rpc : EStateM Exn σ α) :
    Keeps (Confined around staged command start) (recorded entry rpc : EStateM Exn (Session ι σ) α) fun _ => True := by
  intro s confined
  unfold recorded
  cases rpc s.server with
  | ok a server => exact ⟨trivial, confined.exchanged server _⟩
  | error e server => exact confined.exchanged server _

theorem uploadDescriptor_confined (client : Client σ) {names : List Bytes} {fd : ι} (inside : staged.Inside names fd)
    (digest : Digest) : Keeps (Confined around staged command start) (client.uploadDescriptor around.fs fd digest)
      fun _ => True := by
  refine (recordAccess_confined (.sent inside)).bind fun _ _ => ?_
  cases around.fs.read fd with
  | ok contents => exact recorded_confined _
  | error errno => exact recorded_confined _

variable (client : Client σ) (around) (staged) {path : Bytes} {names : List Bytes} {dirfd : ι}

theorem captureFile_confined (reached : Reached command ⟨.file, path⟩) :
    Keeps (Confined around staged command start) (staged.captureFile client around command path) fun _ => True := by
  obtain ⟨names, downward⟩ := reached.downward
  unfold captureFile captureFileWith
  cases opened : staged.openFile path with
  | error thrown =>
    cases thrown
    case systemError => exact .ite (fun _ => .pure trivial) fun _ => .throw _
    all_goals exact .throw _
  | ok fd =>
    obtain ⟨descent, plain⟩ := openFileInInputRoot_ok downward staged.stageDirectory opened
    have inside : staged.Inside names fd := ⟨descent, plain⟩
    refine (recordAccess_confined (.captured reached downward inside)).bind fun _ _ => ?_
    refine (recordAccess_confined (.hashed inside)).bind fun _ _ => ?_
    cases around.fs.read fd with
    | error errno => exact .throw _
    | ok contents => exact (uploadDescriptor_confined client inside _).bind fun _ _ => .pure trivial

section Directory

theorem Inside.below (inside : staged.Inside names dirfd) {reading : Reading ι}
    (lower : reading.Below around.fs dirfd) :
    staged.Inside (names ++ reading.names) reading.fd :=
  ⟨inside.descent.append lower.descent, not_link_of_read lower.readable.choose_spec⟩

theorem Confined.hashing {s : Session ι σ} (confined : Confined around staged command start s)
    (inside : staged.Inside names dirfd) {readings : List (Reading ι)}
    (lower : ∀ reading ∈ readings, reading.Below around.fs dirfd) :
    Confined around staged command start (s.hashing readings) := by
  refine confined.access fun access member => ?_
  obtain ⟨reading, listed, rfl⟩ := List.mem_map.mp member
  exact .hashed (inside.below around staged (lower reading listed))

theorem missingDigests_confined (byteSizeLong : Digest → Nat) (order : IterationOrder Digest.key Bytes)
    (map : DigestStringMap) :
    Keeps (Confined around staged command start) (client.missingDigests byteSizeLong order map) fun _ => True := by
  have asks : Keeps (Confined around staged command start)
      (client.findMissingBlobs byteSizeLong ((order.visit map).map Prod.fst)) fun _ => True :=
    .foldlM (fun _ _ _ => (recorded_confined _).bind fun _ _ => .pure trivial) []
  refine asks.bind fun missing _ => .foldlM (fun found digest _ => ?_) UnorderedMap.empty
  cases map.find digest with
  | none => exact .throw _
  | some blob => exact .pure trivial

theorem missingEntries_confined (inside : staged.Inside names dirfd)
    (opens : ∀ opened, around.fs.openat around.fs.currentDirectory (cString path) ⟨true, false⟩ = .ok opened →
      opened = dirfd) :
    Keeps (Confined around staged command start) (client.missingEntries around path) fun _ => True := by
  have captures : Keeps (Confined around staged command start) (makeNestedDirectory around.fs around.hash [] false
      around.stack around.fs.currentDirectory [] (cString path) UnorderedMap.empty) fun _ => True := by
    intro s confined
    have ended := @makeNestedDirectory_captures ι σ around.fs around.hash [] dirfd around.stack
      around.fs.currentDirectory [] (cString path) opens .empty s s rfl
    cases run : makeNestedDirectory around.fs around.hash [] false around.stack around.fs.currentDirectory []
        (cString path) .empty s with
    | ok result s' =>
      rw [run] at ended
      obtain ⟨-, all, -, -, rfl⟩ := ended
      exact ⟨trivial, confined.hashing around staged inside fun reading member => (all reading).mp member⟩
    | error e s' =>
      rw [run] at ended
      obtain ⟨readings, lower, rfl⟩ := ended
      exact confined.hashing around staged inside lower
  refine captures.bind fun result _ => ?_
  exact (missingDigests_confined around staged client _ _ _).bind fun _ _ => .pure trivial

variable {output : Bytes} (reached : Reached command ⟨.directory, output⟩) (downward : Downward output names)

include reached downward

theorem sent_accounted (inside : staged.Inside names dirfd) {nd : NestedDirectory} {root : Digest}
    {missing : DigestStringMap} {before between : Session ι σ} {queries : List Exchange}
    (found : FoundMissing around path before between nd root missing dirfd queries) {entry : Digest × Bytes}
    (listed : entry ∈ around.order.visit missing) {fd : ι} (unparsed : around.directories.parses entry.2 = false)
    (opened : around.fs.openat around.fs.currentDirectory (cString entry.2) ⟨false, false⟩ = .ok fd)
    (earlier : List Exchange) : Accounted around staged command (earlier ++ queries) (.sent fd) := by
  rcases found.entry_cases listed with ⟨message, member, same, serialised⟩ | ⟨reading, last, -, -, path'⟩
  next =>
    have parses := around.directories.parses_serialize message
    rw [serialised, unparsed] at parses
    have stored := (UnorderedMap.find_eq_some missing entry.1 entry.2).mpr
      ⟨entry.1, rfl, (around.order.perm missing).mem_iff.mp listed⟩
    refine .inr ⟨fd, rfl, output, names, dirfd, nd, message, member, reached, downward, inside, found.captured, ?_,
      parses.symm, serialised ▸ opened⟩
    rw [same, List.flatMap_append, List.map_append]
    exact List.mem_append_right _ ((found.missing entry.1 entry.2).mp stored).1
  next =>
    obtain ⟨before, after, split, -⟩ := last
    have member : reading ∈ readingOrder around.fs around.stack dirfd := by simp [split]
    rw [← path', found.openat_entityPath member, Except.ok.injEq] at opened
    exact .inl (.sent (opened ▸ inside.below around staged ((found.all reading).mp member)))

theorem uploadDirectory_confined (inside : staged.Inside names dirfd)
    (opens : ∀ opened, around.fs.openat around.fs.currentDirectory (cString path) ⟨true, false⟩ = .ok opened →
      opened = dirfd) :
    Keeps (Confined around staged command start) (client.uploadDirectory around path) fun _ => True := by
  have built : Keeps (Confined around staged command start) (client.directoryUploads around path) fun result =>
      ∀ request ∈ result.2.2, request.path = [] := by
    intro s confined
    have kept := missingEntries_confined around staged client inside opens s confined
    cases run : client.missingEntries around path s with
    | error e s' =>
      rw [run] at kept
      rw [directoryUploads, bind_error _ run]
      exact kept
    | ok result s' =>
      rw [run] at kept
      obtain ⟨nd, root, missing⟩ := result
      obtain ⟨opened, queries, found⟩ := missingEntries_ok run
      obtain rfl := opens opened found.opened
      -- No exchanges are added while the requests are built.
      have reads : Keeps (fun after => Confined around staged command start after ∧
        after.exchanges = s.exchanges ++ queries)
          ((around.order.visit missing).mapM (uploadRequestOf around)) fun requests =>
            requests.map UploadRequest.path = (around.order.visit missing).map fun _ => [] := by
        refine .mapM fun entry listed => uploadRequestOf_keeps fun fd unparsed opened after held =>
          ⟨trivial, ?_, held.2⟩
        obtain ⟨earlier, accesses, extends', -⟩ := confined
        have accounted := sent_accounted around staged reached downward inside found listed unparsed opened earlier
        have added : Confined around staged command start
          ⟨after.server, after.exchanges ++ [], after.accesses ++ [.sent fd]⟩ := by
          refine held.1.add (fun exchanges same => ?_) after.server []
          rw [held.2, extends'.exchanges, List.append_assoc] at same
          rw [← List.append_cancel_left same]
          simpa using accounted
        simpa using added
      have started : s'.exchanges = s.exchanges ++ queries := by
        obtain ⟨server, rfl⟩ := found.session
        rfl
      have block : Keeps (fun after => Confined around staged command start after ∧
        after.exchanges = s.exchanges ++ queries)
          (do return (nd, root, ← (around.order.visit missing).mapM (uploadRequestOf around))) fun result =>
            ∀ request ∈ result.2.2, request.path = [] := by
        refine reads.bind fun requests same => .pure fun request member => ?_
        obtain ⟨-, -, inline⟩ := List.mem_map.mp (same ▸ List.mem_map_of_mem member)
        exact inline.symm
      have ended := block s' ⟨kept.2, started⟩
      rw [directoryUploads, bind_ok _ run]
      dsimp only
      cases rest : (do return (nd, root, ← (around.order.visit missing).mapM (uploadRequestOf around)) :
          EStateM Exn (Session ι σ) _) s' with
      | error e after =>
        rw [rest] at ended
        exact ended.1
      | ok requests after =>
        rw [rest] at ended
        exact ⟨ended.1, ended.2.1⟩
  refine built.bind fun result inline => ?_
  have uploads := @uploadBlobs_runs ι σ client around.fs around.sorting (Confined around staged command start)
    (fun s server exchange _ _ confined => confined.exchanged server [exchange]) result.2.2 inline false
  exact (Keeps.of_runs uploads).bind fun _ _ => .pure trivial

omit downward in
theorem captureDirectory_confined :
    Keeps (Confined around staged command start) (staged.captureDirectory client around output) fun _ => True := by
  obtain ⟨names, downward⟩ := reached.downward
  have checks : Keeps (Confined around staged command start)
      (liftExcept (directoryInInputRoot around.fs staged.stageDirectoryFd output)) fun inside =>
        directoryInInputRoot around.fs staged.stageDirectoryFd output = .ok inside :=
    .liftExcept fun _ checked => checked
  have joins : Keeps (Confined around staged command start) (liftExcept (makePathAbsolute output staged.dPath))
      fun absolutePath => makePathAbsolute output staged.dPath = .ok absolutePath :=
        .liftExcept fun _ absolute => absolute
  refine checks.bind fun inside checked => ?_
  cases inside with
  | false => exact .pure trivial
  | true =>
    obtain ⟨dirfd, descent, directory⟩ := directoryInInputRoot_true downward staged.stageDirectory checked
    have inside : staged.Inside names dirfd := ⟨descent, directory.not_link⟩
    refine joins.bind fun absolutePath absolute => ?_
    have denoted := staged.pathname_absolutePath downward absolute descent directory.not_link
    refine (recordAccess_confined (.handed reached downward inside directory denoted)).bind fun _ _ => ?_
    have opens (opened : ι) (found : around.fs.openat around.fs.currentDirectory (cString absolutePath)
        ⟨true, false⟩ = .ok opened) : opened = dirfd := by
      have reached := (FileSystem.openat_ok found).reached
      rw [FileSystem.pathname, cString_cString] at reached
      exact Except.ok.inj (reached.symm.trans denoted)
    have uploads : Keeps (Confined around staged command start) (uploadDirectory client around absolutePath)
        fun _ => True := by
      refine (uploadDirectory_confined around staged client reached downward inside opens).bind fun result _ => ?_
      have tree := @uploadString_runs ι σ client (Confined around staged command start)
        (fun s server exchange _ _ confined => confined.exchanged server [exchange])
        (around.trees.serializeAsString result.2.1) (makeDigest around.hash (around.trees.serializeAsString result.2.1))
      exact (Keeps.of_runs tree).bind fun _ _ => .pure trivial
    exact uploads.bind fun _ _ => .pure trivial

end Directory

theorem captureAllOutputs_confined (command : Command) (start : Session ι σ) (result : ActionResult) :
    ∃ exchanges accesses, start.Extends exchanges accesses
        (exitState (staged.captureAllOutputs client around command ⟨start, result⟩)).world ∧
      (∀ access ∈ accesses, (∀ fd, access ≠ .sent fd) → staged.ConfinedAccess command access) ∧
      ((∀ fd, TakenForPath around staged command exchanges fd → ∃ names, staged.Inside names fd) →
        ∀ access ∈ accesses, staged.ConfinedAccess command access) := by
  have keeps := captureAllOutputs_keeps (Confined around staged command start) staged.dPath (fun _ => around.fs.lstat)
    (fun path reached => captureFile_confined around staged client reached)
    (fun path reached => captureDirectory_confined around staged client reached)
  obtain ⟨exchanges, accesses, extends', all⟩ :=
    keeps.exit (s := ⟨start, result⟩) ⟨[], [], .refl start, List.forall_mem_nil _⟩
  refine ⟨exchanges, accesses, extends', fun access member unsent => ?_, fun inside access member => ?_⟩
  next =>
    rcases all access member with confined | ⟨fd, rfl, -⟩
    next => exact confined
    next => exact absurd rfl (unsent fd)
  next =>
    rcases all access member with confined | ⟨fd, rfl, taken⟩
    next => exact confined
    next =>
      obtain ⟨names, inside⟩ := inside fd taken
      exact .sent inside

end Steps

section Samples

-- Outside the staged directory `s` there is a file whose name is the encoding of its directory `d`, in which a symlink
-- has a name that is not UTF-8.
def refusedDirectory : Directory := ⟨[], [], [⟨[255], text "x", none⟩], none⟩

def refusedBytes : Bytes := [26, 6, 10, 1, 255, 18, 1, 120]

def besideStage : FileSystem (Fin 5) where
  root := 0
  currentDirectory := 0
  object
    | 0 => .directory 0 [(text "s", 1), (refusedBytes, 4)] 0o755 0
    | 1 => .directory 0 [(text "d", 2)] 0o755 0
    | 2 => .directory 1 [([255], 3)] 0o755 0
    | 3 => .symlink (text "x")
    | 4 => .regular (text "secret") 0o600 0
  denied _ := none
  symlinkLimit := 40
  named := by
    intro directory parent entries permissions mtime found entry member
    match directory with
    | 0 =>
      obtain ⟨-, rfl, -⟩ := FileObject.directory.inj found
      simp only [List.mem_cons, List.not_mem_nil, or_false] at member
      rcases member with rfl | rfl <;> exact ⟨by decide, by decide, by decide, by decide, by decide⟩
    | 1 | 2 =>
      obtain ⟨-, rfl, -⟩ := FileObject.directory.inj found
      obtain rfl := List.mem_singleton.mp member
      exact ⟨by decide, by decide, by decide, by decide, by decide⟩
    | 3 | 4 => cases found

noncomputable def besideSurroundings : Surroundings (Fin 5) where
  fs := besideStage
  hash := patch [(refusedBytes, hexDigest 0x30f29b6639bcb3413e0698f7cf9bc32b82cd056bb9792dbfc17cb67eea7cf046),
    ([10, 8] ++ refusedBytes, hexDigest 0x0573a44defb5415a51d23ba780c1675c0afbdc6aed6db8da6e2709d079097128)] id
  directories := .ofSamples [] [(refusedDirectory, refusedBytes)] (fun _ => false) (by decide) (by decide) (by simp)
    (by decide)
  trees := (Codec.ofSamples [(⟨refusedDirectory, []⟩, [10, 8] ++ refusedBytes)] (by decide) (by decide)).toEncoding
  byteSizeLong digest := digest.hashOther.length + 4
  order := .asStored
  sorting := .stable _ _
  stack := 100

noncomputable def stagedBeside : FallbackStagedDirectory besideSurroundings.fs where
  dPath := text "/s"
  stageDirectoryFd := (1 : Fin 5)
  normalised := by decide
  opened := by decide

def acceptingStub : Stub Unit :=
  { pickyStub with
    batchUpdateBlobs := fun blobs => pure (⟨StatusCode.ok, []⟩, blobs.map fun blob => ⟨blob.1, ⟨StatusCode.ok, []⟩⟩)
    finishWrite := pure (⟨StatusCode.ok, []⟩, 10) }

def acceptingClient : Client Unit := { pickyClient with stub := acceptingStub }

def outputD : Command := ⟨[], [], [text "d"], [], []⟩

def SendsSecret (s : Session (Fin 5) Unit) : Prop := Access.sent 4 ∈ s.accesses

theorem directoryUploads_beside : ∃ result between, acceptingClient.directoryUploads besideSurroundings (text "/s/d")
    ⟨(), [], [.handed (text "d") (text "/s/d")]⟩ = .ok result between ∧ SendsSecret between ∧
      ∀ request ∈ result.2.2, request.path = [] := by
  refine ⟨_, _, rfl, List.mem_append_right _ (List.mem_singleton.mpr rfl), fun request member => ?_⟩
  rw [List.mem_singleton.mp member]

theorem captureDirectory_sends :
    SendsSecret (exitState (stagedBeside.captureDirectory acceptingClient besideSurroundings
    (text "d") ⟨(), [], []⟩)) := by
  obtain ⟨result, between, built, sent, inline⟩ := directoryUploads_beside
  have started : stagedBeside.captureDirectory acceptingClient besideSurroundings (text "d") ⟨(), [], []⟩ =
      (uploadDirectory acceptingClient besideSurroundings (text "/s/d") >>= fun treeDigest =>
        pure ⟨text "d", treeDigest⟩) ⟨(), [], [.handed (text "d") (text "/s/d")]⟩ := rfl
  have blobs : Keeps SendsSecret
    (acceptingClient.uploadBlobs besideSurroundings.fs besideSurroundings.sorting result.2.2
      false) fun _ => True := .of_runs (uploadBlobs_runs _ _ (fun _ _ _ _ _ kept => kept) inline false)
  have tree (str : Bytes) (digest : Digest) :
    Keeps SendsSecret (acceptingClient.uploadString str digest) fun _ => True :=
    .of_runs (uploadString_runs _ (fun _ _ _ _ _ kept => kept) str digest)
  have returns {α : Type} (a : α) : Keeps SendsSecret (pure a : EStateM Exn (Session (Fin 5) Unit) α) fun _ => True :=
    .pure trivial
  have directory : SendsSecret (exitState (acceptingClient.uploadDirectory besideSurroundings (text "/s/d")
      ⟨(), [], [.handed (text "d") (text "/s/d")]⟩)) := by
    rw [Client.uploadDirectory, bind_ok _ built]
    exact (blobs.andThen fun results => returns _).exit sent
  rw [started]
  refine Keeps.exit_bind ?_ fun _ => returns _
  exact Keeps.exit_bind directory fun uploaded => (tree _ _).andThen fun _ => returns _

def stagedObjects : List (Fin 5) := [1, 2, 3]

theorem mem_stagedObjects {here fd : Fin 5} {names : List Bytes} (descent : besideStage.graph.Descent here names fd)
    (member : here ∈ stagedObjects) : fd ∈ stagedObjects := by
  induction descent with
  | here => exact member
  | @inside here next target name names entered below ih =>
    apply ih
    simp only [stagedObjects, List.mem_cons, List.not_mem_nil, or_false] at member
    rcases member with rfl | rfl | rfl
    next =>
      have directory : besideStage.graph.object 1 = .directory 0 [(text "d", 2)] := rfl
      obtain ⟨rfl, rfl⟩ := Prod.mk.inj (List.mem_singleton.mp (Graph.enter_down_listed directory entered))
      decide
    next =>
      have directory : besideStage.graph.object 2 = .directory 1 [([255], 3)] := rfl
      obtain ⟨rfl, rfl⟩ := Prod.mk.inj (List.mem_singleton.mp (Graph.enter_down_listed directory entered))
      decide
    next => cases entered

def HasSentSecret (s : Capturing (Session (Fin 5) Unit)) : Prop := SendsSecret s.world

theorem onWorld_sends {α : Type} {program : EStateM Exn (Session (Fin 5) Unit) α} {s : Capturing (Session (Fin 5) Unit)}
    (sent : SendsSecret (exitState (program s.world))) : HasSentSecret (exitState (onWorld program s)) := by
  unfold onWorld
  cases run : program s.world with
  | ok a world => rwa [run] at sent
  | error thrown world => rwa [run] at sent

theorem captureAllOutputs_sends : HasSentSecret (exitState (stagedBeside.captureAllOutputs acceptingClient
    besideSurroundings outputD ⟨⟨(), [], []⟩, ⟨[], []⟩⟩)) := by
  have returns {α : Type} (a : α) : Keeps SendsSecret (pure a : EStateM Exn (Session (Fin 5) Unit) α) fun _ => True :=
    .pure trivial
  have returns' {α : Type} (a : α) : Keeps HasSentSecret (pure a : EStateM Exn (Capturing (Session (Fin 5) Unit)) α)
      fun _ => True := .pure trivial
  have captured : SendsSecret (exitState (StagedDirectory.captureDirectory (text "d") (text "d")
      (stagedBeside.captureDirectory acceptingClient besideSurroundings) ⟨(), [], []⟩)) :=
    Keeps.exit_bind captureDirectory_sends fun _ => returns _
  have run : stagedBeside.captureAllOutputs acceptingClient besideSurroundings outputD ⟨⟨(), [], []⟩, ⟨[], []⟩⟩ =
      (captureDirectoryAndAddToResult (stagedBeside.captureDirectory acceptingClient besideSurroundings) (text "d")
        (text "d") >>= fun _ => pure ⟨⟩) ⟨⟨(), [], []⟩, ⟨[], []⟩⟩ := rfl
  rw [run]
  refine Keeps.exit_bind ?_ fun _ => returns' _
  have added (outputDirectory : OutputDirectory) :
    Keeps HasSentSecret (modify fun s => { s with result := { s.result with
      outputDirectories := s.result.outputDirectories ++ [outputDirectory] } } :
        EStateM Exn (Capturing (Session (Fin 5) Unit)) PUnit) fun _ => True := fun _ sent => ⟨trivial, sent⟩
  exact Keeps.exit_bind (onWorld_sends captured) fun outputDirectory =>
    .ite (fun _ => added outputDirectory) fun _ => returns' _

theorem directory_sent_as_path : ∃ exchanges accesses, Session.Extends ⟨(), [], []⟩ exchanges accesses
    (exitState (stagedBeside.captureAllOutputs acceptingClient besideSurroundings outputD
      ⟨⟨(), [], []⟩, ⟨[], []⟩⟩)).world ∧ Access.sent 4 ∈ accesses ∧ ∀ names, ¬stagedBeside.Inside names 4 := by
  refine ⟨_, _, ⟨(List.nil_append _).symm, (List.nil_append _).symm⟩, captureAllOutputs_sends, fun names inside => ?_⟩
  have member := mem_stagedObjects inside.descent (by decide)
  exact absurd member (by decide)

end Samples

end FallbackStagedDirectory

end BuildboxCommon
