import Jiji.Cli.NetworkSetup
import Jiji.Control.Machine

/-!
# Projects that share a host

Setup reads the markers that other projects have left, unless the installed generation
was already made for its plan.  The markers are texts; they are read back as written.  A
run that fails goes back to the generation that was installed before it, which may have
been installed for other ranges than the plan of the run.
-/

namespace Jiji
namespace Cli

open Std Control Replication Network

section Text

/-- A text without white space. -/
def Solid (text : List Char) : Prop :=
  ∀ character ∈ text, Agent.isWhitespace character = false

theorem solid_hexText (count value : ℕ) : Solid (hexText count value).toList :=
  fun _ member => Agent.isWhitespace_of_isAlphanum (isAlphanum_of_mem_hexText member)

theorem solid_display (cidr : Ipv4Cidr) : Solid cidr.display.toList := by
  intro character member
  obtain digit | rfl | rfl := Ipv4Cidr.mem_display member
  · exact Agent.isWhitespace_of_isAlphanum (by simp [Char.isAlphanum, digit])
  · decide
  · decide

theorem splitWhitespace_three
    (solidFirst : Solid first)
    (solidSecond : Solid second)
    (solidThird : Solid third)
    (nonempty : first ≠ [] ∧ second ≠ [] ∧ third ≠ []) :
    splitWhitespace (first ++ ' ' :: (second ++ ' ' :: third)) = [first, second, third] := by
  have blank : Agent.isWhitespace ' ' = true := by decide
  unfold splitWhitespace
  rw [List.splitOnP_append_cons_of_forall_mem solidFirst _ blank,
    List.splitOnP_append_cons_of_forall_mem solidSecond _ blank,
    List.splitOnP_eq_singleton solidThird]
  simp [nonempty]

variable (sha : Sha256)

/-- The marker of a plan is read back as its owner and its two ranges. -/
theorem readRanges_marker (directory : String) (plan : NetworkPlan) :
    readRanges directory (addressRangeMarker sha plan) =
      some (projectMarkerIdentity sha plan.project,
        [plan.managementCidr.display, plan.containerCidr.display]) := by
  let identity := (projectMarkerIdentity sha plan.project).toList
  let management := plan.managementCidr.display.toList
  let container := plan.containerCidr.display.toList
  have text : (addressRangeMarker sha plan).toList =
      (identity ++ ' ' :: (management ++ ' ' :: container)) ++ ['\n'] := by
    have blank : " ".toList = [' '] := rfl
    have lineEnd : "\n".toList = ['\n'] := rfl
    simp only [addressRangeMarker, String.toList_append, blank, lineEnd, List.append_assoc,
      List.nil_append, List.cons_append, identity, management, container]
  have solidIdentity : Solid identity := solid_hexText _ _
  have solidManagement : Solid management := solid_display _
  have solidContainer : Solid container := solid_display _
  have oneLine : ∀ character ∈ identity ++ ' ' :: (management ++ ' ' :: container),
      decide (character ≠ '\n') = true := by
    intro character member
    refine decide_eq_true ?_
    rintro rfl
    have broken : Agent.isWhitespace '\n' = true := by decide
    simp only [List.mem_append, List.mem_cons] at member
    obtain inIdentity | blank | inManagement | blank | inContainer := member
    · exact absurd (solidIdentity _ inIdentity) (by simp [broken])
    · exact absurd blank (by decide)
    · exact absurd (solidManagement _ inManagement) (by simp [broken])
    · exact absurd blank (by decide)
    · exact absurd (solidContainer _ inContainer) (by simp [broken])
  have nonempty : identity ≠ [] ∧ management ≠ [] ∧ container ≠ [] := by
    refine ⟨List.ne_nil_of_length_pos ?_, ?_, ?_⟩
    · exact (length_hexText 64 (sha.text plan.project).toNat).symm ▸ Nat.succ_pos 63
    · simp [management, Ipv4Cidr.toList_display]
    · simp [container, Ipv4Cidr.toList_display]
  unfold readRanges
  rw [text, if_neg (by simp), List.takeWhile_append_of_pos oneLine,
    List.takeWhile_cons_of_neg (by decide), List.append_nil,
    splitWhitespace_three solidIdentity solidManagement solidContainer nonempty]
  simp [identity, management, container]

end Text

section Runs

/-- How far a run of setup gets on a host. -/
inductive SetupCourse
  | refused
  | stopped
  | staging (files : ℕ)
  | rolledBack (commands deletions : ℕ)
  | succeeded

/-- A run of setup, as one host sees it. -/
structure SetupRun where
  plan : NetworkPlan
  server : Network.ServerPlan
  publicKeys : ExtTreeMap String String
  course : SetupCourse

variable (sha : Sha256)

/-- The generation that a run installs. -/
def SetupRun.generation (run : SetupRun) : String :=
  artifactGeneration sha (run.plan.meshGeneration sha) run.publicKeys

/-- The activation script of a run on a host in a given state. -/
def SetupRun.script (run : SetupRun) (network : InstalledNetwork) : List MeshCommand :=
  renderActivationCommand run.server (run.plan.meshGeneration sha) (run.generation sha)
    (activationNeeded network (run.generation sha))

/-- The network of the project after a run that passed its preflight checks. -/
def SetupRun.proceed (run : SetupRun) (network : InstalledNetwork) : Option InstalledNetwork :=
  let stage := fun count => stageHost sha run.plan run.server run.publicKeys
    (run.generation sha) count network
  match run.course with
  | .refused => some network
  | .stopped => some network
  | .staging files => some (stage files).2
  | .rolledBack commands deletions =>
      match stage StagedFile.all.length with
      | (.error _, staged) => some staged
      | (.ok (), staged) => do
          let reached ← staged.execute (interrupted (run.script sha network) commands deletions)
          reached.execute (renderRollbackCommand network.current run.server
            (activationNeeded network (run.generation sha)))
  | .succeeded =>
      match stage StagedFile.all.length with
      | (.error _, staged) => some staged
      | (.ok (), staged) => staged.execute (run.script sha network)

/-- The networks of a host by one run after another. -/
def setupMachine : Machine NetworkHost SetupRun where
  advance host run :=
    let slug := systemdUnitSlug sha run.plan.project
    let network := (host[slug]?).getD .vacant
    match run.course, preflight sha host network run.plan with
    | .refused, _ => some host
    | _, .error _ => some host
    | _, .ok checked => (run.proceed sha checked).map (host.insert slug)

/-- The ranges that a project has recorded for its installed generation. -/
def InstalledNetwork.ranges (network : InstalledNetwork) : List Ipv4Cidr :=
  match network.marker.bind (readRanges "") with
  | none => []
  | some (_, values) => values.filterMap fun value => (Ipv4Cidr.fromStr value).toOption

end Runs

section Staging

variable {sha : Sha256}

/-- A file is written when there is none, or kept when it is the same. -/
theorem writeGenerationFile_eq_ok_iff
    {α : Type}
    [DecidableEq α]
    {existing written : Option α}
    {content : α} :
    writeGenerationFile existing content = .ok written ↔
      (∀ old, existing = some old → old = content) ∧ written = some content := by
  unfold writeGenerationFile
  rw [Fallible.guarded_eq_ok_iff]
  cases existing with
  | none => simp [eq_comm]
  | some old => simp [eq_comm]

/-- The files of a generation once one of them was written. -/
def StagedFile.written
    (sha : Sha256)
    (plan : NetworkPlan)
    (server : Network.ServerPlan)
    (publicKeys : ExtTreeMap String String)
    (files : GenerationFiles) : StagedFile → GenerationFiles
  | .wireguardConf => { files with wireguardConf := some (renderWireguard server publicKeys) }
  | .addressRanges => { files with addressRanges := some (addressRangeMarker sha plan) }
  | .meshGeneration =>
      { files with meshGeneration := some (plan.meshGeneration sha ++ "\n") }

/-- One staged file is written as the plan says, and the others are left alone. -/
theorem stageFile_eq_ok
    {server : Network.ServerPlan}
    {publicKeys : ExtTreeMap String String}
    {files next : GenerationFiles}
    {file : StagedFile}
    (staged : stageFile sha plan server publicKeys files file = .ok next) :
    next = file.written sha plan server publicKeys files := by
  cases file with
  | wireguardConf | addressRanges | meshGeneration =>
      obtain ⟨written, wrote, result⟩ := Fallible.bind_eq_ok_iff.mp staged
      obtain ⟨_, rfl⟩ := writeGenerationFile_eq_ok_iff.mp wrote
      exact (Except.ok.inj result).symm

variable
  (plan : NetworkPlan)
  (server : Network.ServerPlan)
  (publicKeys : ExtTreeMap String String)
  (generation : String)
  (network : InstalledNetwork)

/-- Staging touches one generation, and writes no marker but that of the plan. -/
theorem stageHost_extends (count : ℕ) :
    let staged := (stageHost sha plan server publicKeys generation count network).2
    staged.current = network.current ∧
      (∀ other ≠ generation, staged.generations other = network.generations other) ∧
      ((staged.generations generation).addressRanges =
          (network.generations generation).addressRanges ∨
        (staged.generations generation).addressRanges = some (addressRangeMarker sha plan)) := by
  unfold stageHost
  split
  · refine ⟨rfl, fun other different => Function.update_of_ne different _ _, ?_⟩
    simp only [Function.update_self]
    refine Fallible.each_of (fun files : GenerationFiles =>
      files.addressRanges = (network.generations generation).addressRanges ∨
        files.addressRanges = some (addressRangeMarker sha plan)) (Or.inl rfl) ?_
    intro _ files next file _ _ kept staged
    obtain ⟨result, wrote, same⟩ := Fallible.map_eq_ok_iff.mp staged
    obtain rfl : result = next := congrArg Prod.snd same
    obtain rfl := stageFile_eq_ok wrote
    cases file with
    | wireguardConf | meshGeneration => exact kept
    | addressRanges => exact Or.inr rfl
  · exact ⟨rfl, fun _ _ => rfl, Or.inl rfl⟩

variable {plan server publicKeys generation network}

/-- A generation that was staged as a whole has the marker of the plan. -/
theorem stageHost_complete
    (needed : activationNeeded network generation = true)
    (complete : stageHost sha plan server publicKeys generation StagedFile.all.length network =
      (.ok (), staged)) :
    (staged.generations generation).addressRanges = some (addressRangeMarker sha plan) := by
  have written : ∀ {files next : GenerationFiles} {file : StagedFile} {value : Unit},
      (stageFile sha plan server publicKeys files file).map (((), ·)) = .ok (value, next) →
      next = file.written sha plan server publicKeys files := by
    intro files next file value staged
    obtain ⟨result, wrote, same⟩ := Fallible.map_eq_ok_iff.mp staged
    obtain rfl : result = next := congrArg Prod.snd same
    exact stageFile_eq_ok wrote
  unfold stageHost at complete
  rw [if_pos needed] at complete
  obtain ⟨result, rfl⟩ := Prod.mk.inj complete
  obtain ⟨final, path⟩ := Fallible.each_ok_iff.mp result
  simp only [Function.update_self]
  rw [stageFiles, Fallible.each_eq_of_path path]
  cases path with
  | cons first path => cases path with
    | cons second path => cases path with
      | cons third path => cases path with
        | nil =>
            obtain rfl := written first
            obtain rfl := written second
            rw [written third]
            rfl

end Staging

section Invariant

/-- The names that are derived from the projects of some plans are all different. -/
structure CollisionFree (sha : Sha256) (plans : Set NetworkPlan) : Prop where
  identity : ∀ plan ∈ plans, ∀ other ∈ plans,
    projectMarkerIdentity sha plan.project = projectMarkerIdentity sha other.project →
      plan.project = other.project
  slug : ∀ plan ∈ plans, ∀ other ∈ plans,
    systemdUnitSlug sha plan.project = systemdUnitSlug sha other.project →
      plan.project = other.project

/-- Every marker is that of a plan of the project, and an installed generation has one. -/
structure InstalledNetwork.Recorded
    (sha : Sha256)
    (plans : Set NetworkPlan)
    (slug : String)
    (network : InstalledNetwork) : Prop where
  addressRanges : ∀ generation text,
    (network.generations generation).addressRanges = some text →
      ∃ plan ∈ plans, systemdUnitSlug sha plan.project = slug ∧
        text = addressRangeMarker sha plan
  installed : ∀ generation, network.current = some generation →
    (network.generations generation).addressRanges.isSome

/-- No range of one list overlaps one of the other. -/
def Apart (ranges others : List Ipv4Cidr) : Prop :=
  ∀ range ∈ ranges, ∀ other ∈ others, range.overlaps other = false

theorem Apart.symm {ranges others : List Ipv4Cidr} (apart : Apart ranges others) :
    Apart others ranges := by
  intro other otherMember range member
  rw [Ipv4Cidr.overlaps_comm]
  exact apart range member other otherMember

/-- The ranges of a plan. -/
def planRanges (plan : NetworkPlan) : List Ipv4Cidr := [plan.managementCidr, plan.containerCidr]

/-- What holds of a host between two runs. -/
structure HostRecorded (sha : Sha256) (plans : Set NetworkPlan) (host : NetworkHost) :
    Prop where
  recorded : ∀ (slug : String) (network : InstalledNetwork), host[slug]? = some network →
    network.Recorded sha plans slug
  apart : ∀ (slug other : String) (network neighbour : InstalledNetwork), slug ≠ other →
    host[slug]? = some network → host[other]? = some neighbour →
    Apart network.ranges neighbour.ranges

variable
  {sha : Sha256}
  {plans : Set NetworkPlan}
  {slug : String}
  {network : InstalledNetwork}

theorem InstalledNetwork.ranges_of_marker
    (marked : network.marker = some (addressRangeMarker sha plan)) :
    network.ranges = planRanges plan := by
  simp [ranges, marked, readRanges_marker, Ipv4Cidr.fromStr_display, planRanges,
    Except.toOption]

namespace InstalledNetwork

theorem recorded_vacant : vacant.Recorded sha plans slug where
  addressRanges _ _ absurdity := by cases absurdity
  installed _ absurdity := by cases absurdity

/-- The record depends on the files and on the link alone. -/
theorem Recorded.congr
    {other : InstalledNetwork}
    (recorded : network.Recorded sha plans slug)
    (sameFiles : other.generations = network.generations)
    (sameCurrent : other.current = network.current) :
    other.Recorded sha plans slug where
  addressRanges := sameFiles ▸ recorded.addressRanges
  installed := sameFiles ▸ sameCurrent ▸ recorded.installed

theorem marker_congr
    {other : InstalledNetwork}
    (sameFiles : other.generations = network.generations)
    (sameCurrent : other.current = network.current) :
    other.marker = network.marker := by
  unfold marker
  rw [sameFiles, sameCurrent]

/-- An installed generation has the marker of a plan of the project. -/
theorem Recorded.marker_eq
    (recorded : network.Recorded sha plans slug)
    (installed : network.current = some generation) :
    ∃ plan ∈ plans, systemdUnitSlug sha plan.project = slug ∧
      network.marker = some (addressRangeMarker sha plan) := by
  obtain ⟨text, stands⟩ := Option.isSome_iff_exists.mp (recorded.installed _ installed)
  obtain ⟨plan, known, slugEq, rfl⟩ := recorded.addressRanges _ _ stands
  exact ⟨plan, known, slugEq, by simp [marker, installed, stands]⟩

/-- Staging keeps the record and what is recorded for the installed generation. -/
theorem Recorded.stageHost
    {run : SetupRun}
    (recorded : network.Recorded sha plans slug)
    (known : run.plan ∈ plans)
    (slug_eq : systemdUnitSlug sha run.plan.project = slug)
    (count : ℕ) :
    let staged := (Cli.stageHost sha run.plan run.server run.publicKeys (run.generation sha)
      count network).2
    staged.Recorded sha plans slug ∧ staged.current = network.current ∧
      staged.marker = network.marker := by
  by_cases needed : activationNeeded network (run.generation sha) = true
  · obtain ⟨sameCurrent, others, extended⟩ :=
      stageHost_extends run.plan run.server run.publicKeys (run.generation sha) network count
    have different : ∀ generation, network.current = some generation →
        generation ≠ run.generation sha := by
      rintro generation installed rfl
      simp [activationNeeded, installed] at needed
    refine ⟨⟨?_, ?_⟩, sameCurrent, ?_⟩
    · intro generation text stands
      by_cases same : generation = run.generation sha
      · subst same
        obtain unchanged | written := extended
        · exact recorded.addressRanges _ _ (unchanged ▸ stands)
        · exact ⟨run.plan, known, slug_eq, Option.some.inj (stands.symm.trans written)⟩
      · rw [others generation same] at stands
        exact recorded.addressRanges _ _ stands
    · intro generation installed
      rw [sameCurrent] at installed
      rw [others generation (different generation installed)]
      exact recorded.installed generation installed
    · cases installed : network.current with
      | none => simp [marker, sameCurrent, installed]
      | some generation =>
          simp only [marker, sameCurrent, installed, Option.bind_some]
          rw [others generation (different generation installed)]
  · rw [Cli.stageHost, if_neg needed]
    exact ⟨recorded, rfl, rfl⟩

end InstalledNetwork

/-- Other projects have not recorded a range that overlaps one of a plan. -/
theorem apart_of_inspectConflicts
    {plan : NetworkPlan}
    {directory : String}
    (inspected : inspectConflicts sha host plan = .ok ())
    (stands : host[directory]? = some network)
    {other : NetworkPlan}
    (marked : network.marker = some (addressRangeMarker sha other))
    (foreign : projectMarkerIdentity sha other.project ≠
      projectMarkerIdentity sha plan.project) :
    Apart (planRanges plan) (planRanges other) := by
  have member : (directory, network) ∈ host.toList :=
    ExtTreeMap.mem_toList_iff_getElem?_eq_some.mpr stands
  have checked := Fallible.forM_eq_ok_iff.mp inspected _ member
  simp only [marked, Option.bind_some, readRanges_marker, if_neg foreign] at checked
  have passed : ∀ existing ∈ planRanges other, ∀ range ∈ planRanges plan,
      existing.overlaps range = false := by
    intro existing existingMember
    have values : existing.display ∈ [other.managementCidr.display, other.containerCidr.display] :=
      List.mem_map_of_mem (f := Ipv4Cidr.display) existingMember
    have rejected := Fallible.forM_eq_ok_iff.mp checked _ values
    simp only [checkRange, Ipv4Cidr.fromStr_display, rejectProjectRangeOverlap] at rejected
    split at rejected
    · cases rejected
    · rename_i clear
      simp only [Bool.or_eq_true, not_or, Bool.not_eq_true] at clear
      simp only [planRanges, List.forall_mem_cons, List.not_mem_nil, false_imp_iff,
        implies_true, and_true]
      exact clear
  exact Apart.symm passed

/-- A project that is absent from a host has nothing recorded there. -/
theorem HostRecorded.own
    (invariant : HostRecorded sha plans host)
    (slug : String) :
    ((host[slug]?).getD .vacant).Recorded sha plans slug ∧
      ∀ (other : String) (neighbour : InstalledNetwork), other ≠ slug →
        host[other]? = some neighbour →
        Apart ((host[slug]?).getD .vacant).ranges neighbour.ranges := by
  cases stands : host[slug]? with
  | none =>
      exact ⟨InstalledNetwork.recorded_vacant, fun _ _ _ _ _ absent =>
        absurd absent List.not_mem_nil⟩
  | some network =>
      exact ⟨invariant.recorded _ _ stands, fun other neighbour different standing =>
        invariant.apart _ _ _ _ different.symm stands standing⟩

/-- A plan that passes the checks of a host meets no range that another project has
recorded there, and the checks write nothing new. -/
theorem HostRecorded.preflight
    {plan : NetworkPlan}
    {checked : InstalledNetwork}
    (free : CollisionFree sha plans)
    (invariant : HostRecorded sha plans host)
    (known : plan ∈ plans)
    (passed : Cli.preflight sha host
      ((host[systemdUnitSlug sha plan.project]?).getD .vacant) plan = .ok checked) :
    checked = (host[systemdUnitSlug sha plan.project]?).getD .vacant ∧
      ∀ (other : String) (neighbour : InstalledNetwork),
        other ≠ systemdUnitSlug sha plan.project → host[other]? = some neighbour →
        Apart (planRanges plan) neighbour.ranges := by
  set slug := systemdUnitSlug sha plan.project with slugEq
  set network := (host[slug]?).getD .vacant
  obtain ⟨recorded, apart⟩ := invariant.own slug
  unfold Cli.preflight at passed
  split at passed
  case h_1 generation installed _ =>
    obtain ⟨written, wrote, result⟩ := Fallible.bind_eq_ok_iff.mp passed
    obtain ⟨immutable, rfl⟩ := writeGenerationFile_eq_ok_iff.mp wrote
    have stands : (network.generations generation).addressRanges =
        some (addressRangeMarker sha plan) := by
      obtain ⟨text, present⟩ := Option.isSome_iff_exists.mp (recorded.installed _ installed)
      rw [present, immutable text present]
    refine ⟨?_, ?_⟩
    · rw [← Except.ok.inj result, ← stands, Function.update_eq_self]
    · intro other neighbour otherSlug standing
      have marked : network.marker = some (addressRangeMarker sha plan) := by
        simp [InstalledNetwork.marker, installed, stands]
      rw [← InstalledNetwork.ranges_of_marker marked]
      exact apart other neighbour otherSlug standing
  case h_2 =>
    obtain ⟨_, inspected, result⟩ := Fallible.bind_eq_ok_iff.mp passed
    refine ⟨(Except.ok.inj result).symm, ?_⟩
    intro other neighbour otherSlug standing
    cases installed : neighbour.current with
    | none =>
        have unmarked : neighbour.ranges = [] := by
          simp [InstalledNetwork.ranges, InstalledNetwork.marker, installed]
        rw [unmarked]
        exact fun _ _ _ absent => absurd absent List.not_mem_nil
    | some generation =>
        obtain ⟨foreign, foreignKnown, foreignSlug, marked⟩ :=
          (invariant.recorded _ _ standing).marker_eq installed
        rw [InstalledNetwork.ranges_of_marker marked]
        refine apart_of_inspectConflicts inspected standing marked fun same => otherSlug ?_
        rw [← foreignSlug, slugEq, free.identity _ foreignKnown _ known same]

/-- A run keeps the record of its project, and installs the ranges that were recorded
before or those of its plan. -/
theorem InstalledNetwork.Recorded.proceed
    {run : SetupRun}
    (recorded : network.Recorded sha plans slug)
    (known : run.plan ∈ plans)
    (slug_eq : systemdUnitSlug sha run.plan.project = slug)
    (proceeds : run.proceed sha network = some final) :
    final.Recorded sha plans slug ∧
      (final.ranges = network.ranges ∨ final.ranges = planRanges run.plan) := by
  have sameRanges : ∀ {other : InstalledNetwork}, other.marker = network.marker →
      other.ranges = network.ranges := by
    intro other same
    unfold ranges
    rw [same]
  have kept : ∀ {count result staged}, Cli.stageHost sha run.plan run.server run.publicKeys
      (run.generation sha) count network = (result, staged) →
      staged.Recorded sha plans slug ∧ staged.current = network.current ∧
        staged.marker = network.marker := by
    intro count result staged stages
    have kept := recorded.stageHost known slug_eq count
    rwa [stages] at kept
  have settled : activationNeeded network (run.generation sha) = false →
      network.current = some (run.generation sha) := by
    simp [activationNeeded]
  unfold SetupRun.proceed at proceeds
  cases course : run.course with
  | refused | stopped =>
      simp only [course, Option.some.injEq] at proceeds
      subst proceeds
      exact ⟨recorded, Or.inl rfl⟩
  | staging files =>
      simp only [course, Option.some.injEq] at proceeds
      subst proceeds
      obtain ⟨stagedRecorded, _, sameMarker⟩ := kept rfl
      exact ⟨stagedRecorded, Or.inl (sameRanges sameMarker)⟩
  | rolledBack commands deletions =>
      simp only [course] at proceeds
      split at proceeds
      · rename_i stages
        obtain rfl := Option.some.inj proceeds
        obtain ⟨stagedRecorded, _, sameMarker⟩ := kept stages
        exact ⟨stagedRecorded, Or.inl (sameRanges sameMarker)⟩
      · rename_i staged stages
        obtain ⟨stagedRecorded, sameCurrent, sameMarker⟩ := kept stages
        obtain ⟨reached, activated, undone⟩ := Option.bind_eq_some_iff.mp proceeds
        obtain ⟨reachedFiles, reachedCurrent⟩ := execute_files activated
        obtain ⟨finalFiles, finalCurrent⟩ := execute_files undone
        have restored : final.current = staged.current := by
          cases needed : activationNeeded network (run.generation sha) with
          | false =>
              rw [finalCurrent, needed, reachedCurrent, SetupRun.script, needed,
                foldl_installs_idle]
              rfl
          | true => rw [finalCurrent, needed, foldl_installs_rollback, sameCurrent]
        have files := finalFiles.trans reachedFiles
        exact ⟨stagedRecorded.congr files restored,
          Or.inl (sameRanges ((marker_congr files restored).trans sameMarker))⟩
  | succeeded =>
      simp only [course] at proceeds
      split at proceeds
      · rename_i stages
        obtain rfl := Option.some.inj proceeds
        obtain ⟨stagedRecorded, _, sameMarker⟩ := kept stages
        exact ⟨stagedRecorded, Or.inl (sameRanges sameMarker)⟩
      · rename_i staged stages
        obtain ⟨stagedRecorded, sameCurrent, sameMarker⟩ := kept stages
        obtain ⟨files, finalCurrent⟩ := execute_files proceeds
        rw [SetupRun.script, foldl_installs_activation _ _ _ _ _
          (fun idle => sameCurrent.trans (settled idle))] at finalCurrent
        cases needed : activationNeeded network (run.generation sha) with
        | false =>
            have restored := finalCurrent.trans (sameCurrent.trans (settled needed)).symm
            exact ⟨stagedRecorded.congr files restored,
              Or.inl (sameRanges ((marker_congr files restored).trans sameMarker))⟩
        | true =>
            have marked := stageHost_complete needed stages
            refine ⟨⟨files ▸ stagedRecorded.addressRanges, ?_⟩, Or.inr ?_⟩
            · intro generation installed
              obtain rfl := Option.some.inj (finalCurrent.symm.trans installed)
              rw [files, marked]
              rfl
            · have marker : final.marker = some (addressRangeMarker sha run.plan) := by
                simp [InstalledNetwork.marker, finalCurrent, files, marked]
              exact ranges_of_marker marker

theorem HostRecorded.step
    (free : CollisionFree sha plans)
    (invariant : HostRecorded sha plans host)
    (known : run.plan ∈ plans)
    (advanced : (setupMachine sha).advance host run = some next) :
    HostRecorded sha plans next := by
  simp only [setupMachine] at advanced
  split at advanced
  · obtain rfl := Option.some.inj advanced
    exact invariant
  · obtain rfl := Option.some.inj advanced
    exact invariant
  · rename_i passed _
    obtain ⟨rfl, clear⟩ := invariant.preflight free known passed
    obtain ⟨final, proceeds, rfl⟩ := Option.map_eq_some_iff.mp advanced
    set slug := systemdUnitSlug sha run.plan.project
    obtain ⟨recorded, apart⟩ := invariant.own slug
    obtain ⟨finalRecorded, ranges⟩ := recorded.proceed known rfl proceeds
    have finalApart : ∀ (other : String) (neighbour : InstalledNetwork), other ≠ slug →
        host[other]? = some neighbour → Apart final.ranges neighbour.ranges := by
      intro other neighbour different standing
      obtain same | planned := ranges
      · exact same ▸ apart other neighbour different standing
      · exact planned ▸ clear other neighbour different standing
    refine ⟨?_, ?_⟩
    · intro other network standing
      rw [ExtTreeMap.getElem?_insert] at standing
      split at standing
      · rename_i same
        obtain rfl : slug = other := by simpa using same
        exact Option.some.inj standing ▸ finalRecorded
      · exact invariant.recorded _ _ standing
    · intro first second network neighbour different standing alsoStanding
      rw [ExtTreeMap.getElem?_insert] at standing alsoStanding
      split at standing
      · rename_i same
        obtain rfl : slug = first := by simpa using same
        rw [if_neg (by simpa using different)] at alsoStanding
        exact Option.some.inj standing ▸ finalApart _ _ different.symm alsoStanding
      · split at alsoStanding
        · rename_i elsewhere same
          obtain rfl : slug = second := by simpa using same
          exact Option.some.inj alsoStanding ▸ (finalApart _ _ different standing).symm
        · exact invariant.apart _ _ _ _ different standing alsoStanding

/-- On a host that started without any network, the ranges that different projects have
recorded for their installed generations do not overlap, whatever runs of setup
succeeded or were rolled back. -/
theorem installed_ranges_never_overlap
    {host : NetworkHost}
    (free : CollisionFree sha plans)
    (reached : (setupMachine sha).Reaches (fun _ run => run.plan ∈ plans) ∅ host)
    {plan other : NetworkPlan}
    (known : plan ∈ plans)
    (alsoKnown : other ∈ plans)
    (different : plan.project ≠ other.project)
    {network neighbour : InstalledNetwork}
    (installed : host[systemdUnitSlug sha plan.project]? = some network)
    (alsoInstalled : host[systemdUnitSlug sha other.project]? = some neighbour) :
    ∀ range ∈ network.ranges, ∀ taken ∈ neighbour.ranges, range.overlaps taken = false := by
  have invariant : HostRecorded sha plans host := by
    refine reached.invariant ?_ ?_
    · exact ⟨fun _ _ stands => by simp at stands, fun _ _ _ _ _ stands => by simp at stands⟩
    · intro state run next holds planned advanced
      exact holds.step free planned advanced
  exact invariant.apart _ _ _ _ (fun same => different (free.slug _ known _ alsoKnown same))
    installed alsoInstalled

end Invariant

section Sample

def sampleCidr (second : Fin 256) : Ipv4Cidr where
  network := Ipv4Addr.ofOctets 10 second 0 0
  prefixLength := 16
  prefixLength_le := by decide
  canonical := by
    revert second
    decide +kernel

/-- A plan of a project with two ranges. -/
def samplePlan (project : String) (management container : Ipv4Cidr) : NetworkPlan where
  enabled := true
  project := project
  managementCidr := management
  containerCidr := container
  servers := []

def sampleServer : Network.ServerPlan where
  name := "s"
  publicHost := "192.0.2.1"
  managementAddress := Ipv4Addr.ofOctets 10 0 0 1
  containerSubnet := sampleCidr 1
  bridgeGateway := (sampleCidr 1).network + 1
  dnsAddress := (sampleCidr 1).network + 2
  proxyAddress := (sampleCidr 1).network + 3
  wireguardPort := 51820
  wireguardInterface := "jiji0"
  bridgeInterface := "jijib0"
  bridgeName := "jiji-a"
  peers := []

/-- Two projects, one of which first asks for a range of the other. -/
def sampleRuns : List SetupRun :=
  [⟨samplePlan "a" (sampleCidr 0) (sampleCidr 1), sampleServer, ∅, .succeeded⟩,
    ⟨samplePlan "b" (sampleCidr 2) (sampleCidr 1), sampleServer, ∅, .succeeded⟩,
    ⟨samplePlan "b" (sampleCidr 2) (sampleCidr 3), sampleServer, ∅, .succeeded⟩,
    ⟨samplePlan "a" (sampleCidr 4) (sampleCidr 5), sampleServer, ∅, .rolledBack 9 0⟩]

def samplePlans : List NetworkPlan := sampleRuns.map SetupRun.plan

def sampleNetworkHost : Option NetworkHost :=
  ((setupMachine sampleSha).checked fun _ run => run.plan ∈ samplePlans).run ∅ sampleRuns

/-- The ranges that a project has recorded on the sample host. -/
def sampleRanges (project : String) : Option (List Ipv4Cidr) :=
  (sampleNetworkHost.bind (·[systemdUnitSlug sampleSha project]?)).map InstalledNetwork.ranges

theorem installed_ranges_never_overlap_two_projects :
    ∃ host network neighbour,
      (setupMachine sampleSha).Reaches (fun _ run => run.plan ∈ {plan | plan ∈ samplePlans}) ∅
        host ∧
      host[systemdUnitSlug sampleSha "a"]? = some network ∧
      host[systemdUnitSlug sampleSha "b"]? = some neighbour ∧
      network.ranges = [sampleCidr 0, sampleCidr 1] ∧
      neighbour.ranges = [sampleCidr 2, sampleCidr 3] ∧
      ∀ range ∈ network.ranges, ∀ taken ∈ neighbour.ranges, range.overlaps taken = false := by
  have first : sampleRanges "a" = some [sampleCidr 0, sampleCidr 1] := by decide +kernel
  have second : sampleRanges "b" = some [sampleCidr 2, sampleCidr 3] := by decide +kernel
  obtain ⟨network, present, ranges⟩ := Option.map_eq_some_iff.mp first
  obtain ⟨host, ran, installed⟩ := Option.bind_eq_some_iff.mp present
  obtain ⟨neighbour, alsoPresent, otherRanges⟩ := Option.map_eq_some_iff.mp second
  rw [ran] at alsoPresent
  have reached : (setupMachine sampleSha).Reaches
      (fun _ run => run.plan ∈ {plan | plan ∈ samplePlans}) ∅ host :=
    Machine.reaches_of_checked ran fun _ _ allowed => of_decide_eq_true allowed
  have free : CollisionFree sampleSha {plan | plan ∈ samplePlans} := by
    constructor
    · change ∀ plan ∈ samplePlans, ∀ other ∈ samplePlans, _
      decide +kernel
    · change ∀ plan ∈ samplePlans, ∀ other ∈ samplePlans, _
      decide +kernel
  refine ⟨host, network, neighbour, reached, installed, alsoPresent, ranges, otherRanges, ?_⟩
  have known : samplePlan "a" (sampleCidr 0) (sampleCidr 1) ∈ {plan | plan ∈ samplePlans} := by
    change _ ∈ samplePlans
    decide
  have alsoKnown : samplePlan "b" (sampleCidr 2) (sampleCidr 3) ∈
      {plan | plan ∈ samplePlans} := by
    change _ ∈ samplePlans
    decide
  exact installed_ranges_never_overlap free reached known alsoKnown (by decide) installed
    alsoPresent

end Sample

end Cli
end Jiji
