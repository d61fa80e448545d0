import ResourceMetrics.Proofs.ContainerDetection
import ResourceMetrics.Proofs.HostAgreement
import ResourceMetrics.Proofs.ServiceStart

/-! A service after its start. The container is settled then, and no metric reads the two files that
it was found by: two trees that differ in nothing else give the same host and the same container. -/

namespace ResourceMetrics

open ResourceMetrics.FileTree ResourceMetrics.Path

/-- The names of the two files that the container is found by. -/
def detectionNames : List Bytes := [Path.ofString "mountinfo", Path.ofString "cgroup"]

/-- Where the two files are, for paths that start in a directory. -/
def detectionPlaces (directory : Location) (procRoot : Path) : List Location :=
  [(procRoot.join mountTableFile).location directory,
    (procRoot.join membershipFile).location directory]

/-- A path below a directory that does not lead through one of the two files. -/
def ReadByMetrics (q : Path) : Prop := q.isAbsolute = false ∧ ∀ s ∈ q.segments, s ∉ detectionNames

instance (q : Path) : Decidable (ReadByMetrics q) := inferInstanceAs (Decidable (_ ∧ _))

theorem mem_detectionPlaces {directory place : Location} {procRoot : Path}
    (h : place ∈ detectionPlaces directory procRoot) :
    ∃ parent name, place = parent ++ [Path.ofString "self"] ++ [name] ∧ name ∈ detectionNames := by
  rcases List.mem_pair.1 h with rfl | rfl
  · obtain ⟨parent, hplace⟩ := location_mountTableFile procRoot directory
    exact ⟨parent, Path.ofString "mountinfo", by simp [hplace], by simp [detectionNames]⟩
  · obtain ⟨parent, hplace⟩ := location_membershipFile procRoot directory
    exact ⟨parent, Path.ofString "cgroup", by simp [hplace], by simp [detectionNames]⟩

/-- Two trees differ at most in the two files. No root starts below one of them, and where a root
leads through one no directory is there. -/
structure DetectionFilesApart (procRoot : Path) (roots : List Path) (t t' : FileTree) : Prop where
  agree : AgreeOff (detectionPlaces t.directory procRoot) t t'
  apart : ∀ root ∈ roots,
    Off (detectionPlaces t.directory procRoot) (root.origin t.directory) = true
  passed : ∀ root ∈ roots, ∀ place ∈ detectionPlaces t.directory procRoot,
    root.Passes t.directory place →
      t.entry? place ≠ some .directory ∧ t'.entry? place ≠ some .directory

theorem DetectionFilesApart.sameFrom {procRoot : Path} {roots : List Path} {t t' : FileTree}
    (h : DetectionFilesApart procRoot roots t t') :
    SameFrom detectionNames (detectionPlaces t.directory procRoot) roots t t' where
  agree := h.agree
  apart := h.apart
  passed := h.passed
  named place hplace := by
    obtain ⟨parent, name, rfl, hname⟩ := mem_detectionPlaces hplace
    have hstep : ∀ name ∈ detectionNames, IsStep name := by decide +kernel
    exact ⟨_, name, rfl, hname, hstep name hname⟩

/-- A root that starts at the root of the tree starts below no file. -/
theorem off_origin_of_isAbsolute {directory : Location} {procRoot root : Path}
    (h : root.isAbsolute = true) :
    Off (detectionPlaces directory procRoot) (root.origin directory) = true := by
  rw [origin, if_pos h]
  refine off_iff.2 fun place hplace hbelow => ?_
  obtain ⟨parent, name, rfl, -⟩ := mem_detectionPlaces hplace
  exact List.append_ne_nil_of_right_ne_nil _ (List.cons_ne_nil name []) (List.prefix_nil.1 hbelow)

theorem DetectionFilesApart.cpuFile_eq {procRoot : Path} {roots : List Path} {t t' : FileTree}
    (h : DetectionFilesApart procRoot roots t t') {sysRoot file : Path} (hsys : sysRoot ∈ roots)
    (hfile : ReadByMetrics file) : t.contents? ((sysRoot.join HostFiles.cpuDirectory).join file) =
      t'.contents? ((sysRoot.join HostFiles.cpuDirectory).join file) :=
  have hdirectory : ReadByMetrics HostFiles.cpuDirectory := by decide +kernel
  h.sameFrom.available_parse hsys ((Extends.refl _ _).join hdirectory.1 hdirectory.2) hfile.1
    hfile.2 .ok

section Host

variable {t t' : FileTree} {roots : List Path} {host : HostFiles}
  (h : DetectionFilesApart host.procRoot roots t t') (hproc : host.procRoot ∈ roots)

include h hproc

/-- The two files are none of those that the host is read from. -/
theorem DetectionFilesApart.sameHost (hsys : host.sysRoot ∈ roots) : host.Agree t t' where
  stat :=
    have hfile : ReadByMetrics (Path.ofString "stat") := by decide +kernel
    h.sameFrom.available_parse hproc (.refl _ _) hfile.1 hfile.2 .ok
  meminfo :=
    have hfile : ReadByMetrics (Path.ofString "meminfo") := by decide +kernel
    h.sameFrom.available_parse hproc (.refl _ _) hfile.1 hfile.2 .ok
  processStat :=
    have hfile : ReadByMetrics (Path.ofString "self/stat") := by decide +kernel
    h.sameFrom.available_parse hproc (.refl _ _) hfile.1 hfile.2 .ok
  descriptors := by
    -- The directory of descriptors is not the one that the two files are in.
    have hfile : ReadByMetrics (Path.ofString "self/fd") := by decide +kernel
    apply FileTree.SameEntries.of_eq
    apply h.sameFrom.available_list hproc (.refl _ _) hfile.1 hfile.2
    intro place hplace hlocation
    obtain ⟨parent, name, rfl, -⟩ := mem_detectionPlaces hplace
    obtain ⟨parent', hlast⟩ := location_join (p := host.procRoot) hfile.1 (by decide +kernel)
      t.directory
    have hsegments : (Path.ofString "self/fd").segments =
        [Path.ofString "self"] ++ [Path.ofString "fd"] := by decide +kernel
    rw [hlocation, List.dropLast_concat, hsegments, ← List.append_assoc] at hlast
    exact absurd (List.append_inj_right' hlast rfl) (by decide +kernel)
  online := h.cpuFile_eq hsys (by decide +kernel)

theorem hostSource_eq (hsys : host.sysRoot ∈ roots) {α : Type} [LoadScale α] :
    (host.source t : HostSource LoadWindows α) = host.source t' := by
  have hagree := h.sameHost hproc hsys
  have hpossible := HostFiles.cpuCount_of_contents? (h.cpuFile_eq hsys
    (by decide +kernel : ReadByMetrics (Path.ofString "possible")))
  unfold HostFiles.source HostFiles.load
  simp only [hagree.meminfo_eq, hagree.processStat_eq, hagree.hostTicks_eq, hagree.sample_eq,
    hagree.openDescriptors_eq, hagree.onlineCpus_eq, hpossible]

end Host

section Group

variable {t t' : FileTree} {roots : List Path} {procRoot dir : Path}
  (h : DetectionFilesApart procRoot roots t t') (hdir : dir ∈ roots)

include h hdir

theorem groupFile_eq {β : Type} (name : String) (hname : ReadByMetrics (Path.ofString name))
    (format : Bytes → Except StatError β) :
    ControlGroup.file? t dir name format = ControlGroup.file? t' dir name format :=
  h.sameFrom.available_parse hdir (.refl _ _) hname.1 hname.2 format

theorem groupSource_eq {σ : Type} :
    (ControlGroup.source dir t : ContainerSource σ) = ControlGroup.source dir t' := by
  have hamounts : ∀ name ∈ ControlGroup.amountFiles, ReadByMetrics (Path.ofString name) := by
    decide +kernel
  have hsets : ∀ name ∈ ControlGroup.setFiles, ReadByMetrics (Path.ofString name) := by
    decide +kernel
  refine ControlGroup.source_of_files
    (fun name hname _ => groupFile_eq h hdir name (hamounts name hname)) fun name hname => ?_
  unfold ControlGroup.cpus
  rw [groupFile_eq h hdir name (hsets name hname)]

end Group

/-- The roots of all paths that the metrics of a host and its container read. -/
def metricRoots (host : HostFiles) (group : Option Path) : List Path :=
  host.procRoot :: host.sysRoot :: group.toList

/-- The monitor looks at neither of the two files. -/
theorem linuxMonitor_eq {α : Type} [LoadScale α] {host : HostFiles} {group : Option Path}
    {t t' : FileTree} (h : DetectionFilesApart host.procRoot (metricRoots host group) t t') :
    (linuxMonitor host group t : Monitor LoadWindows α) = linuxMonitor host group t' := by
  unfold linuxMonitor
  rw [hostSource_eq h (by simp [metricRoots]) (by simp [metricRoots])]
  cases group with
  | none => rfl
  | some dir =>
      have hsource : (ControlGroup.source dir t : ContainerSource LoadWindows) =
          ControlGroup.source dir t' := groupSource_eq h (by simp [metricRoots])
      rw [Option.map_some, hsource]
      rfl

namespace Service

variable (config : Config) (limit : Counter) (tree : FileTree) (system : SystemAccount)

/-- How a service comes to its container, and that it keeps it. -/
structure DetectionLaw : Prop where
  outcome : ∀ {r : Except DetectionError Path},
    detectGroup tree config.procRoot = r ↔ DetectionOutcome tree config.procRoot r
  /-- What is behind the first line of the right type does not matter. -/
  behind : ∀ {t : FileTree} {head contents contents' : Bytes} {front : List Bytes} {line : Bytes}
    {entry : MountEntry}, tree.Holds (config.procRoot.join mountTableFile) contents →
      t.Holds (config.procRoot.join mountTableFile) contents' → tree.directory = t.directory →
      (∀ location, location ≠ (config.procRoot.join mountTableFile).location tree.directory →
        tree.entry? location = t.entry? location) →
      GoesOn head contents → GoesOn head contents' → lines head = front ++ [line] →
      (∀ l ∈ front, GroupMount.Passed l) → GroupMount.IsEntry line entry →
      entry.fsType = GroupMount.fsType →
        detectGroup tree config.procRoot = detectGroup t config.procRoot
  starts : (∃ service note, start config limit tree system = .ok (service, note)) ↔
    ∀ metric, ¬Faults (hostFiles config limit system) (findGroup config tree).1 tree metric
  container : ∀ {service : Service} {note : StartNote},
    start config limit tree system = .ok (service, note) → ∀ dir,
      service.group = some dir ↔
        config.containerSupport = true ∧ detectGroup tree config.procRoot = .ok dir
  present : ∀ {service : Service} {note : StartNote},
    start config limit tree system = .ok (service, note) → ∀ t : FileTree,
      (service.monitor t).container.isSome = true ↔
        config.containerSupport = true ∧ ∃ dir, detectGroup tree config.procRoot = .ok dir
  /-- Later changes of the two files change no metric. -/
  kept : ∀ {service : Service} {note : StartNote},
    start config limit tree system = .ok (service, note) → ∀ t t' : FileTree,
      DetectionFilesApart config.procRoot (metricRoots service.host service.group) t t' →
        service.monitor t = service.monitor t'

theorem detectionLaw : DetectionLaw config limit tree system where
  outcome := detectGroup_eq_iff
  behind hcontents hcontents' hdirectory hothers hhead hhead' hlines hfront hentry htype :=
    detectGroup_eq_of_goesOn hcontents hcontents' hdirectory hothers hhead hhead' hlines hfront
      hentry htype
  starts := start_answers_iff config limit tree system
  container hstart dir := by
    obtain ⟨_, _, _, rfl, _⟩ := (start_eq_ok_iff config limit tree system).1 hstart
    exact findGroup_eq_some_iff config tree
  present hstart t := by
    obtain ⟨_, _, _, rfl, _⟩ := (start_eq_ok_iff config limit tree system).1 hstart
    change ((findGroup config tree).1.map fun dir => ControlGroup.source dir t).isSome = true ↔ _
    rw [Option.isSome_map, Option.isSome_iff_exists]
    simp only [findGroup_eq_some_iff, exists_and_left]
  kept hstart t t' hfiles := by
    obtain ⟨_, _, _, rfl, _⟩ := (start_eq_ok_iff config limit tree system).1 hstart
    exact linuxMonitor_eq hfiles

/-- A process in a group of its own, which it sees below the mounted part of the hierarchy. -/
def groupedTree : FileTree :=
  FileTree.ofList
    [(Path.ofString "/proc/self/mountinfo",
        .file (Path.ofString
          "35 24 0:30 /pods/pod1 /sys/fs/cgroup rw - cgroup2 cgroup2 rw\nno mount\n")),
      (Path.ofString "/proc/self/cgroup", .file (Path.ofString "0::/pods/pod1/app\n")),
      (Path.ofString "/sys/fs/cgroup/app", .directory)] []

def appGroup : Path := Path.ofString "/sys/fs/cgroup/app"

/-- The same tree once the mount table is gone and the process is in no group. -/
def ungroupedTree : FileTree :=
  (groupedTree.remove (Path.ofString "/proc/self/mountinfo")).write
    (Path.ofString "/proc/self/cgroup") (.file [])

/-- The container that is found at the start stays, though it could not be found any more. -/
theorem detectionLaw_grouped : ∃ service note,
    start {} 1024 groupedTree = .ok (service, note) ∧ service.group = some appGroup ∧
      detectGroup ungroupedTree (Path.ofString "/proc") =
        .error (.mount (.opening (Path.ofString "/proc/self/mountinfo") .notFound)) ∧
      service.monitor groupedTree = service.monitor ungroupedTree := by
  have hlaw := detectionLaw {} 1024 groupedTree {}
  have hgroup : findGroup {} groupedTree = (some appGroup, .containerActive) := by decide +kernel
  obtain ⟨snapshot, session, hsnapshot⟩ : ∃ snapshot session,
      (linuxMonitor (hostFiles {} 1024 {}) (some appGroup) groupedTree :
        Monitor LoadWindows Binary64).snapshot { source := {} } = .ok snapshot session :=
    ⟨_, _, rfl⟩
  have hstart : start {} 1024 groupedTree =
      .ok (⟨hostFiles {} 1024 {}, some appGroup, session⟩, .containerActive) := by
    rw [start_eq_ok_iff, hgroup]
    exact ⟨snapshot, session, hsnapshot, rfl, rfl⟩
  have habsolute : ∀ root ∈ metricRoots (hostFiles {} 1024 {}) (some appGroup),
      root.isAbsolute = true := by
    decide +kernel
  refine ⟨_, _, hstart, rfl, by decide +kernel, hlaw.kept hstart _ _ ⟨⟨?_, ?_⟩, ?_, ?_⟩⟩
  · decide +kernel
  · decide +kernel
  · exact fun root hroot => off_origin_of_isAbsolute (habsolute root hroot)
  · intro root _ place hplace _
    have hplaces : ∀ place ∈ detectionPlaces groupedTree.directory (Path.ofString "/proc"),
        groupedTree.entry? place ≠ some .directory ∧
          ungroupedTree.entry? place ≠ some .directory := by
      decide +kernel
    exact hplaces place hplace

end Service

end ResourceMetrics
