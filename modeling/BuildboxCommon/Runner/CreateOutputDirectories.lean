import BuildboxCommon.FileUtils.BelowDirectory
import BuildboxCommon.FileUtils.JoinNormalized
import BuildboxCommon.StagedDirectory.CapturedOutputs
import Mathlib.Algebra.Order.BigOperators.Group.List
import Mathlib.Algebra.Order.Group.Nat

set_option autoImplicit false

namespace BuildboxCommon

open ByteString FileUtils LexicalPath PathResolution Posix

namespace Runner

open StagedDirectory

def createDirectoryIfNeeded (fuel : Nat) (workingDir output : Bytes) (volume : Volume) :
    Option (Except Nat Unit × Volume) :=
  if output.contains slash then
    FileUtils.createDirectory 0o777 fuel (workingDir ++ slash :: CreateDirectory.parentPath output) volume
  else some (.ok (), volume)

def forEachOutput (fuel : Nat) (workingDir : Bytes) : List Bytes → Volume → Option (Except Nat Unit × Volume)
  | [], volume => some (.ok (), volume)
  | output :: outputs, volume =>
    match createDirectoryIfNeeded fuel workingDir output volume with
    | some (.ok (), volume) => forEachOutput fuel workingDir outputs volume
    | stopped => stopped

def createOutputDirectories (fuel : Nat) (command : Command) (workingDir : Bytes) (volume : Volume) :
    Option (Except Nat Unit × Volume) :=
  if command.outputPaths.length > 0 then forEachOutput fuel workingDir command.outputPaths volume
  else
    match forEachOutput fuel workingDir command.outputFiles volume with
    | some (.ok (), volume) => forEachOutput fuel workingDir command.outputDirectories volume
    | stopped => stopped

theorem forEachOutput_append (fuel : Nat) (workingDir : Bytes) (first second : List Bytes) (volume : Volume) :
    forEachOutput fuel workingDir (first ++ second) volume =
      match forEachOutput fuel workingDir first volume with
      | some (.ok (), volume) => forEachOutput fuel workingDir second volume
      | stopped => stopped := by
  induction first generalizing volume with
  | nil => rfl
  | cons output first ih =>
    simp only [List.cons_append, forEachOutput]
    split
    next => exact ih _
    next stopped _ =>
      split
      next => simp_all
      next => rfl

theorem createOutputDirectories_eq (fuel : Nat) (command : Command) (workingDir : Bytes) (volume : Volume) :
    createOutputDirectories fuel command workingDir volume =
      forEachOutput fuel workingDir (declaredOutputs command) volume := by
  unfold createOutputDirectories declaredOutputs
  by_cases used : command.outputPaths = []
  next => simp [used, forEachOutput_append]
  next => simp [used, List.length_pos_iff]

end Runner

namespace FileUtils

variable {b m w : NormalPath} {names : List Bytes}

theorem NormalPath.join_below (flat : w.ups = 0) : b.Below (b.join w) w.names := by
  refine ⟨rfl, ?_, ?_⟩
  next =>
    cases absolute : b.absolute with
    | true => simp [join, absolute, b.anchored absolute]
    | false => simp [join, absolute, displacement, Displacement.comp, flat]
  next => simp [join, displacement, Displacement.comp, flat, List.rdrop]

theorem NormalPath.Below.join (below : b.Below m names)
    (stays : ((⟨0, names⟩ : Displacement Bytes).comp w.displacement).ups = 0) :
    b.Below (m.join w) ((⟨0, names⟩ : Displacement Bytes).comp w.displacement).names := by
  obtain ⟨absolute, ups, named⟩ := below
  have short : w.ups ≤ names.length := by
    simp only [Displacement.comp, displacement] at stays
    omega
  refine ⟨absolute, ?_, ?_⟩
  next =>
    rw [← ups]
    cases anchored : m.absolute with
    | true => simp [NormalPath.join, anchored, m.anchored anchored]
    | false =>
      simp only [NormalPath.join, anchored, displacement, Displacement.comp, named, List.length_append,
        Bool.false_eq_true, if_false]
      omega
  next =>
    simp only [NormalPath.join, displacement, Displacement.comp, named, List.rdrop, List.length_append]
    rw [List.take_append, List.take_of_length_le (by omega), List.append_assoc]
    congr 3
    omega

theorem dropLast_extend (d : Displacement Bytes) (step : Step Bytes) : (d.extend step).names.dropLast <+: d.names := by
  cases step with
  | stay => exact List.dropLast_prefix _
  | down name => simp [Displacement.extend]
  | up =>
    cases shape : d.names with
    | nil => simp [Displacement.extend, shape]
    | cons name rest =>
      simp only [Displacement.extend, shape]
      exact (List.dropLast_prefix _).trans (List.dropLast_prefix _)

end FileUtils

namespace Runner

open StagedDirectory

def directoryPart (output : Bytes) : Bytes := if output.contains slash then CreateDirectory.parentPath output else []

theorem steps_single {segment : Bytes} (plain : slash ∉ segment) :
    steps (cString segment) = [classify (cString segment)] := by
  have plain : slash ∉ cString segment := fun member => plain (List.takeWhile_subset _ member)
  have alone := List.splitOn_intercalate slash (by simpa using plain) (by simp : [cString segment] ≠ [])
  rw [List.intercalate_singleton] at alone
  rw [steps, alone, List.map_singleton]

theorem split_last {output : Bytes} (present : slash ∈ output) :
    ∃ last, slash ∉ last ∧ output = CreateDirectory.parentPath output ++ slash :: last := by
  obtain ⟨last, first, shape, plain⟩ := List.eq_append_cons_of_mem (List.mem_reverse.mpr present)
  have whole : output = first.reverse ++ slash :: last.reverse := by
    rw [← List.reverse_reverse output, shape]
    simp
  have plain : slash ∉ last.reverse := mt List.mem_reverse.mp plain
  exact ⟨last.reverse, plain, by rw [whole, CreateDirectory.parentPath_slash _ plain]⟩

theorem displacement_output (output : Bytes) :
    displacement (steps (cString output)) = displacement (steps (cString (directoryPart output))) ∨
      ∃ step, displacement (steps (cString output)) =
        (displacement (steps (cString (directoryPart output)))).extend step := by
  unfold directoryPart
  by_cases present : slash ∈ output
  next =>
    rw [if_pos (by simpa using present)]
    obtain ⟨last, plain, shape⟩ := split_last present
    by_cases free : NulFree (CreateDirectory.parentPath output)
    next =>
      refine .inr ⟨classify (cString last), ?_⟩
      conv_lhs => rw [shape]
      rw [cString_slash free, steps_join, steps_single plain, displacement_snoc, cString_of_nulFree free]
    next =>
      left
      conv_lhs => rw [shape]
      rw [cString_append_of_nul free]
  next =>
    rw [if_neg (by simpa using present), steps_single present]
    exact .inr ⟨classify (cString output), by simp [displacement, steps, classify, Displacement.extend]⟩

theorem faithful_of_relative {path : Bytes} (relative : isGlobal path = false) :
    displacement (steps (cString path)) = (normalForm path).displacement :=
  (displacement_normalForm ((isGlobal_cString path).trans relative)).symm

theorem isGlobal_directoryPart {output : Bytes} (relative : isGlobal output = false) :
    isGlobal (directoryPart output) = false := by
  unfold directoryPart
  split
  next present =>
    obtain ⟨last, -, shape⟩ := split_last (show slash ∈ output by simpa using present)
    cases first : CreateDirectory.parentPath output with
    | nil => rfl
    | cons byte bytes =>
      rw [first] at shape
      rw [shape] at relative
      exact relative
  next => rfl

section Accepted

variable {command : Command} {workingDirectory output : Bytes}

def way (workingDirectory output : Bytes) : Displacement Bytes :=
  (⟨0, (normalForm workingDirectory).names⟩ : Displacement Bytes).comp (normalForm (directoryPart output)).displacement

structure Rooted (command : Command) (workingDirectory : Bytes) : Prop where
  relative : (normalForm command.workingDirectory).absolute = false
  flat : (normalForm command.workingDirectory).ups = 0
  start : workingDirectory = workingDirectoryPrefix command.workingDirectory

theorem rooted_of_valid (named : NulFree command.workingDirectory) (valid : ValidOutputs command workingDirectory) :
    Rooted command workingDirectory := by
  have inside : ¬WorkingDirectoryOutside command.workingDirectory := by
    intro outside
    obtain ⟨thrown, raised, -⟩ := getWorkingDirectory_error named outside
    have started := valid.started
    rw [raised] at started
    cases started
  have started := valid.started
  rw [getWorkingDirectory_ok named inside] at started
  rw [WorkingDirectoryOutside, not_or, Bool.not_eq_true] at inside
  obtain ⟨relative, stays⟩ := inside
  rw [leaves_steps_iff named relative] at stays
  refine ⟨?_, Nat.eq_zero_of_not_pos stays, (Except.ok.inj started).symm⟩
  rw [normalForm_absolute, cString_of_nulFree named, relative]

theorem Rooted.location (rooted : Rooted command workingDirectory) (relative : isGlobal output = false) :
    normalForm (workingDirectory ++ output) = (normalForm command.workingDirectory).join (normalForm output) := by
  rw [rooted.start, workingDirectoryPrefix]
  split
  next empty =>
    have absolute : (normalForm output).absolute = false := by rw [normalForm_absolute, isGlobal_cString, relative]
    have base : (normalForm ([] : Bytes)).absolute = false ∧ (normalForm ([] : Bytes)).displacement = ⟨0, []⟩ := by
      decide
    rw [empty]
    refine eq_of_displacement (absolute.trans base.1.symm) ?_
    rw [NormalPath.displacement_join, base.1, base.2]
    simp [Displacement.comp, NormalPath.displacement, List.rdrop]
  next =>
    have joined := normalForm_slash (normalizePath_nulFree command.workingDirectory)
      (by rw [normalizePath_eq_render]; exact render_nonempty _) (faithful_of_relative relative)
    rw [normalForm_normalizePath] at joined
    rw [List.append_assoc, List.singleton_append, joined]

theorem accepted_output (accepted : (pathInInputRoot output workingDirectory).isOk = true) :
    isGlobal output = false ∧ (normalForm (workingDirectory ++ output)).ups = 0 := by
  unfold pathInInputRoot at accepted
  cases slashes : assertNoInvalidSlashes output with
  | error thrown => simp [slashes, bind, Except.bind, Except.isOk, Except.toBool] at accepted
  | ok _ =>
    cases inside : assertPathInsideInputRoot (normalizePath (workingDirectory ++ output)) with
    | error thrown => simp [slashes, inside, bind, Except.bind, Except.isOk, Except.toBool] at accepted
    | ok _ =>
      unfold assertNoInvalidSlashes at slashes
      unfold assertPathInsideInputRoot at inside
      split_ifs at slashes inside with invalid outside
      rw [take_three_iff, normalizePath_eq_render, leadsUp_iff] at outside
      refine ⟨?_, Nat.eq_zero_of_not_pos outside⟩
      rw [← Bool.not_eq_true, ← head_slash_iff]
      intro leading
      have present : output ≠ [] := by
        rintro rfl
        cases leading
      exact invalid ⟨present, .inl leading⟩

theorem Rooted.way (rooted : Rooted command workingDirectory)
    (accepted : (pathInInputRoot output workingDirectory).isOk = true) :
    (Runner.way command.workingDirectory output).ups = 0 ∧
      (normalForm (workingDirectory ++ output)).names.dropLast <+:
        (Runner.way command.workingDirectory output).names := by
  obtain ⟨relative, stays⟩ := accepted_output accepted
  have whole : (normalForm (workingDirectory ++ output)).displacement =
      (⟨0, (normalForm command.workingDirectory).names⟩ : Displacement Bytes).comp
        (displacement (steps (cString output))) := by
    rw [rooted.location relative, NormalPath.displacement_join, rooted.relative, if_neg (by simp),
      faithful_of_relative relative, NormalPath.displacement, rooted.flat]
  have part := faithful_of_relative (isGlobal_directoryPart relative)
  obtain same | ⟨step, further⟩ := displacement_output output
  next =>
    rw [same, part] at whole
    have names := congrArg Displacement.names whole
    have ups := congrArg Displacement.ups whole
    exact ⟨ups.symm.trans stays, names ▸ List.dropLast_prefix _⟩
  next =>
    rw [further, part, ← Displacement.extend_comp] at whole
    have names := congrArg Displacement.names whole
    have ups := congrArg Displacement.ups whole
    have grows := ups_le_extend (Runner.way command.workingDirectory output) step
    refine ⟨Nat.eq_zero_of_le_zero (grows.trans (ups.symm.trans stays).le), ?_⟩
    change (normalForm (workingDirectory ++ output)).names = _ at names
    rw [names]
    exact dropLast_extend _ step

end Accepted

section Staged

variable {command : Command} {root workingDir workingDirectory output : Bytes} {node fuel : Nat} {volume : Volume}

def namesBelow (root path : Bytes) : List Bytes := (normalForm path).names.drop (normalForm root).names.length

def WorkingDirectoryPath (root workingDirectory workingDir : Bytes) : Prop :=
  workingDir = root ++ slash :: workingDirectory ∨ workingDirectory = [] ∧ workingDir = root

structure Ready (root workingDir : Bytes) (command : Command) (node : Nat) (volume : Volume) : Prop where
  leads : volume.disk.Leads (normalForm root) node
  kept : volume.removed node = false
  working : ∃ here, volume.disk.files.graph.Descent node (namesBelow root workingDir) here ∧
    volume.disk.files.graph.IsDirectory here
  plain : ∀ output ∈ declaredOutputs command, slash ∈ output →
    volume.disk.Plain node (namesBelow root (workingDir ++ slash :: CreateDirectory.parentPath output))

def ParentThere (root location : Bytes) (node : Nat) (disk : Disk) : Prop :=
  location ≠ dot → ∃ parent, disk.files.graph.IsDirectory parent ∧
    disk.files.graph.Descent node (normalForm location).names.dropLast parent ∧
    disk.files.pathname true disk.files.currentDirectory
      ((normalForm (root ++ slash :: location)).ancestor
        ((normalForm (root ++ slash :: location)).names.length - 1)).render =
        .ok parent

theorem join_nothing (b : NormalPath) : b.join (normalForm []) = b := by
  have base : (normalForm ([] : Bytes)).displacement = ⟨0, []⟩ := by decide
  refine eq_of_displacement rfl ?_
  rw [NormalPath.displacement_join, base]
  split
  next absolute => simp [NormalPath.displacement_absolute absolute, Displacement.act, List.rdrop]
  next => simp [Displacement.comp, NormalPath.displacement, List.rdrop]

structure Spelled (root workingDir : Bytes) (command : Command) : Prop where
  free : NulFree root
  present : root ≠ []
  named : NulFree command.workingDirectory
  path : WorkingDirectoryPath root command.workingDirectory workingDir

theorem Spelled.placed (spelled : Spelled root workingDir command) (rooted : Rooted command workingDirectory) :
    NulFree workingDir ∧ workingDir ≠ [] ∧
      normalForm workingDir = (normalForm root).join (normalForm command.workingDirectory) := by
  obtain ⟨free, present, named, rfl | ⟨empty, rfl⟩⟩ := spelled
  next =>
    have relative := rooted.relative
    rw [normalForm_absolute, isGlobal_cString] at relative
    refine ⟨?_, by simp, normalForm_slash free present (faithful_of_relative relative)⟩
    rw [← List.singleton_append, nulFree_append, nulFree_append]
    exact ⟨free, by decide, named⟩
  next => exact ⟨free, present, by rw [empty, join_nothing]⟩

theorem Spelled.below_working (spelled : Spelled root workingDir command) (rooted : Rooted command workingDirectory) :
    (normalForm root).Below (normalForm workingDir) (normalForm command.workingDirectory).names := by
  rw [(spelled.placed rooted).2.2]
  exact NormalPath.join_below rooted.flat

theorem namesBelow_eq {path : Bytes} {names : List Bytes} (below : (normalForm root).Below (normalForm path) names) :
    namesBelow root path = names := by
  rw [namesBelow, below.names, List.drop_left]

theorem Spelled.below_output (spelled : Spelled root workingDir command) (rooted : Rooted command workingDirectory)
    (accepted : (pathInInputRoot output workingDirectory).isOk = true) : (normalForm root).Below
      (normalForm (workingDir ++ slash :: directoryPart output)) (way command.workingDirectory output).names := by
  obtain ⟨free, present, -⟩ := spelled.placed rooted
  have relative := isGlobal_directoryPart (accepted_output accepted).1
  rw [normalForm_slash free present (faithful_of_relative relative)]
  exact (spelled.below_working rooted).join (rooted.way accepted).1

theorem way_plain (plain : slash ∉ output) :
    (way command.workingDirectory output).names = (normalForm command.workingDirectory).names := by
  have base : (normalForm ([] : Bytes)).displacement = ⟨0, []⟩ := by decide
  rw [way, directoryPart, if_neg (by simpa using plain), base]
  simp [Displacement.comp, List.rdrop]

open CreateDirectory

structure Underway (root : Bytes) (command : Command) (node : Nat) (volume : Volume) : Prop where
  site : Site (normalForm root) node
    ((declaredOutputs command).map fun output => (way command.workingDirectory output).names)
    volume
  working : ∃ here, volume.disk.files.graph.Descent node (normalForm command.workingDirectory).names here

theorem Underway.later {ways : List (List Bytes)} {outcome : Except Nat Unit} {final : Volume}
    (underway : Underway root command node volume) (extended : Extended node ways volume outcome final) :
    Underway root command node final := by
  obtain ⟨here, descent⟩ := underway.working
  exact ⟨underway.site.planted extended.planted extended.removed,
    here, extended.planted.descent underway.site.leads.used descent⟩

theorem Ready.underway (spelled : Spelled root workingDir command) (rooted : Rooted command workingDirectory)
    (valid : ValidOutputs command workingDirectory) (ready : Ready root workingDir command node volume) :
    Underway root command node volume := by
  obtain ⟨here, descent, directory⟩ := ready.working
  rw [namesBelow_eq (spelled.below_working rooted)] at descent
  refine ⟨⟨ready.leads, ready.kept, fun names member => ?_⟩, here, descent⟩
  obtain ⟨output, declared, rfl⟩ := List.mem_map.mp member
  by_cases present : slash ∈ output
  next =>
    have plain := ready.plain output declared present
    have below := spelled.below_output rooted (valid.within output declared)
    rw [directoryPart, if_pos (by simpa using present)] at below
    rwa [namesBelow_eq below] at plain
  next =>
    rw [way_plain present]
    exact Disk.plain_of_descent descent directory

theorem createDirectoryIfNeeded_extended (spelled : Spelled root workingDir command)
    (rooted : Rooted command workingDirectory)
    (underway : Underway root command node volume) (declared : output ∈ declaredOutputs command)
    (accepted : (pathInInputRoot output workingDirectory).isOk = true)
    (enough : (normalForm (workingDir ++ slash :: directoryPart output)).names.length < fuel) :
    ∃ outcome final, createDirectoryIfNeeded fuel workingDir output volume = some (outcome, final) ∧
      Extended node [(way command.workingDirectory output).names] volume outcome final := by
  have below := spelled.below_output rooted accepted
  have member := List.mem_map_of_mem (f := fun output => (way command.workingDirectory output).names) declared
  unfold createDirectoryIfNeeded
  split
  next present =>
    rw [directoryPart, if_pos present] at below enough
    obtain ⟨⟨outcome, final⟩, run⟩ := underway.site.terminates below enough
    exact ⟨outcome, final, run, underway.site.extended member below run⟩
  next absent =>
    refine ⟨_, _, rfl, .same, rfl, fun _ names same => ?_, fun granted => ⟨rfl, granted⟩⟩
    rw [List.mem_singleton.mp same, way_plain (by simpa using absent)]
    exact underway.working

theorem forEachOutput_extended {outputs : List Bytes} (spelled : Spelled root workingDir command)
    (rooted : Rooted command workingDirectory) (underway : Underway root command node volume)
    (declared : ∀ output ∈ outputs, output ∈ declaredOutputs command)
    (accepted : ∀ output ∈ outputs, (pathInInputRoot output workingDirectory).isOk = true)
    (enough : ∀ output ∈ outputs, (normalForm (workingDir ++ slash :: directoryPart output)).names.length < fuel) :
    ∃ outcome final, forEachOutput fuel workingDir outputs volume = some (outcome, final) ∧
      Extended node (outputs.map fun output => (way command.workingDirectory output).names) volume outcome final := by
  induction outputs generalizing volume with
  | nil => exact ⟨_, _, rfl, .same, rfl, fun _ => nofun, fun granted => ⟨rfl, granted⟩⟩
  | cons output outputs ih =>
    rw [List.forall_mem_cons] at declared accepted enough
    obtain ⟨first, between, run, extended⟩ :=
      createDirectoryIfNeeded_extended spelled rooted underway declared.1 accepted.1 enough.1
    cases first with
    | error errno => exact ⟨_, _, by simp only [forEachOutput, run], extended.stopped _⟩
    | ok =>
      have onwards := underway.later extended
      obtain ⟨outcome, final, rest, others⟩ := ih onwards declared.2 accepted.2 enough.2
      exact ⟨outcome, final, by simp only [forEachOutput, run, rest], extended.trans onwards.site.leads.used others⟩

theorem Underway.parentThere (underway : Underway root command node volume) (rooted : Rooted command workingDirectory)
    (spelled : Spelled root workingDir command) (declared : output ∈ declaredOutputs command)
    (accepted : (pathInInputRoot output workingDirectory).isOk = true) {found : Nat}
    (descent : volume.disk.files.graph.Descent node (way command.workingDirectory output).names found) :
    ParentThere root (location workingDirectory output) node volume.disk := by
  intro elsewhere
  obtain ⟨-, within⟩ := rooted.way accepted
  obtain ⟨rest, shape⟩ := id within
  have plain := underway.site.plain _ (List.mem_map_of_mem declared)
  rw [← shape] at descent
  obtain ⟨parent, above, -⟩ := descent.split
  have directory := plain _ within parent above
  have normal : normalForm (location workingDirectory output) = normalForm (workingDirectory ++ output) :=
    normalForm_normalizePath _
  have flat := (accepted_output accepted).2
  have below : (normalForm root).Below (normalForm (root ++ slash :: location workingDirectory output))
      (normalForm (workingDirectory ++ output)).names := by
    rw [location, normalizePath_eq_render, normalForm_join_render spelled.free spelled.present]
    exact NormalPath.join_below flat
  have some : (normalForm (workingDirectory ++ output)).names ≠ [] := by
    intro empty
    have relative : (normalForm (workingDirectory ++ output)).absolute = false := by
      rw [rooted.location (accepted_output accepted).1]
      exact rooted.relative
    apply elsewhere
    rw [location, normalizePath_eq_render, NormalPath.render, NormalPath.segments, flat, empty, relative]
    rfl
  refine ⟨parent, directory, by rwa [normal], ?_⟩
  have further := below.ancestor ((normalForm (workingDirectory ++ output)).names.length - 1)
  rw [← List.dropLast_eq_take] at further
  have count : (normalForm (root ++ slash :: location workingDirectory output)).names.length - 1 =
      (normalForm root).names.length + ((normalForm (workingDirectory ++ output)).names.length - 1) := by
    have positive := List.length_pos_of_ne_nil some
    rw [below.names, List.length_append]
    omega
  rw [count]
  exact (underway.site.leads.below further above directory).pathname

theorem createOutputDirectories_prepares (spelled : Spelled root workingDir command)
    (valid : ValidOutputs command workingDirectory) (ready : Ready root workingDir command node volume) :
    ∃ bound, ∀ fuel ≥ bound, ∃ outcome final,
      createOutputDirectories fuel command workingDir volume = some (outcome, final) ∧
        Disk.Planted node volume.disk final.disk ∧ ((∀ call, volume.refusals call = none) → outcome = .ok ()) ∧
          (outcome = .ok () → ∀ output ∈ declaredOutputs command,
            ParentThere root (location workingDirectory output) node final.disk) := by
  have rooted := rooted_of_valid spelled.named valid
  have underway := ready.underway spelled rooted valid
  let lengths := (declaredOutputs command).map fun output =>
    (normalForm (workingDir ++ slash :: directoryPart output)).names.length
  refine ⟨lengths.sum + 1, fun fuel large => ?_⟩
  have enough : ∀ output ∈ declaredOutputs command,
      (normalForm (workingDir ++ slash :: directoryPart output)).names.length < fuel := by
    intro output declared
    have member : (normalForm (workingDir ++ slash :: directoryPart output)).names.length ∈ lengths :=
      List.mem_map_of_mem declared
    have small := List.single_le_sum (fun _ _ => Nat.zero_le _) _ member
    omega
  obtain ⟨outcome, final, run, extended⟩ :=
    forEachOutput_extended spelled rooted underway (fun _ declared => declared) valid.within enough
  refine ⟨outcome, final, by rw [createOutputDirectories_eq, run], extended.planted,
    fun granted => (extended.returns granted).1, fun returned output declared => ?_⟩
  obtain ⟨found, descent⟩ := extended.made returned _ (List.mem_map_of_mem declared)
  exact (underway.later extended).parentThere rooted spelled declared (valid.within output declared) descent

end Staged

section Samples

def outputInside : Command where
  workingDirectory := []
  outputFiles := []
  outputDirectories := []
  outputPaths := [text "a/../out/x"]
  outputNodeProperties := []

def bareVolume : Volume where
  disk := CreateDirectory.bareDisk
  removed := fun _ => false
  refusals := fun _ => none
  root := CreateDirectory.bareDisk_isDirectory _
  current := CreateDirectory.bareDisk_isDirectory _
  parents := fun _ _ _ _ _ _ _ => CreateDirectory.bareDisk_isDirectory _
  held := nofun
  empty := nofun
  named := fun _ _ _ _ => rfl

theorem createOutputDirectories_prepares_inside : ∃ bound, ∀ fuel ≥ bound, ∃ outcome final,
    createOutputDirectories fuel outputInside (text "/") bareVolume = some (outcome, final) ∧
      Disk.Planted 0 bareVolume.disk final.disk ∧ ((∀ call, bareVolume.refusals call = none) → outcome = .ok ()) ∧
        (outcome = .ok () → ∀ output ∈ declaredOutputs outputInside,
          ParentThere (text "/") (location [] output) 0 final.disk) := by
  have spelled : Spelled (text "/") (text "/") outputInside := ⟨by decide, by decide, by decide, .inr ⟨rfl, rfl⟩⟩
  have valid : ValidOutputs outputInside [] := ⟨rfl, by decide⟩
  have isRoot : bareVolume.disk.Leads (normalForm (text "/")) 0 :=
    .of_pathname (by decide) (CreateDirectory.bareDisk_isDirectory 0)
  have plain (names : List Bytes) : bareVolume.disk.Plain 0 names :=
    fun _ _ _ _ => CreateDirectory.bareDisk_isDirectory _
  have ready : Ready (text "/") (text "/") outputInside 0 bareVolume :=
    ⟨isRoot, rfl, ⟨0, .here 0, CreateDirectory.bareDisk_isDirectory 0⟩, fun _ _ _ => plain _⟩
  exact createOutputDirectories_prepares spelled valid ready

end Samples

end Runner

end BuildboxCommon
