import Mathlib
import ResourceMetrics.Proofs.CpuListText
import ResourceMetrics.Proofs.HostAgreement
import ResourceMetrics.Proofs.LinuxFaults
import ResourceMetrics.Proofs.ProcessorBounds

/-! CPU sets in files, whatever their spelling. A file shows the set that its first line spells, or
none, and all that is made of it is made of the set: its size where processors are counted, and its
members in ascending order where loads are averaged. So a monitor does not tell two spellings of one
set apart. A list without a CPU is no set: the number of CPUs online is then the system's own
account, and the container has the next set that there is. -/

namespace ResourceMetrics

open Reading

variable {α : Type}

namespace FileTree

/-- The set that the first line of a file spells, empty if it spells none. -/
def shownCpus (tree : FileTree) (path : Path) : Set CpuIndex :=
  {cpu | ∃ contents set, tree.contents? path = some contents ∧ CpuSet.FirstLine contents set ∧
    cpu ∈ set}

/-- The list that a file is read as, empty if it cannot be read. -/
def readCpus (tree : FileTree) (path : Path) : List CpuIndex :=
  (available (tree.parse path CpuSet.read)).getD []

variable {tree : FileTree} {path : Path}

theorem shownCpus_eq {contents : Bytes} {set : Set CpuIndex}
    (hcontents : tree.contents? path = some contents) (hset : CpuSet.FirstLine contents set) :
    tree.shownCpus path = set := by
  ext cpu
  constructor
  · rintro ⟨contents', set', hcontents', hset', hcpu⟩
    obtain rfl := Option.some.inj (hcontents.symm.trans hcontents')
    exact hset'.unique hset ▸ hcpu
  · exact fun hcpu => ⟨contents, set, hcontents, hset, hcpu⟩

theorem shownCpus_eq_empty (h : ∀ contents set, tree.contents? path = some contents →
    ¬CpuSet.FirstLine contents set) : tree.shownCpus path = ∅ := by
  rw [Set.eq_empty_iff_forall_notMem]
  rintro cpu ⟨contents, set, hcontents, hset, -⟩
  exact h contents set hcontents hset

/-- A file that cannot be read shows no CPU, and neither does one whose first line is no list. -/
theorem lists_readCpus (tree : FileTree) (path : Path) :
    CpuList.Lists (tree.readCpus path) (tree.shownCpus path) := by
  have hnone : CpuList.Lists [] ∅ := ⟨.nil, fun cpu => iff_of_false nofun nofun⟩
  rw [readCpus, available_parse]
  cases hcontents : tree.contents? path with
  | none =>
      rw [shownCpus_eq_empty fun contents set h => nomatch hcontents.symm.trans h]
      exact hnone
  | some contents =>
      rw [Option.bind_some]
      cases hread : CpuSet.read contents with
      | ok cpus =>
          obtain ⟨set, hset, hlists⟩ := CpuSet.read_eq_ok_iff.1 hread
          rw [shownCpus_eq hcontents hset]
          exact hlists
      | error cause =>
          rw [shownCpus_eq_empty]
          · exact hnone
          · intro contents' set hcontents' hset
            obtain rfl := Option.some.inj (hcontents.symm.trans hcontents')
            obtain ⟨cpus, hcpus, -⟩ := hset.exists_read
            cases hread.symm.trans hcpus

theorem shownCpus_eq_readCpus (tree : FileTree) (path : Path) :
    tree.shownCpus path = {cpu | cpu ∈ tree.readCpus path} :=
  Set.ext fun cpu => ((tree.lists_readCpus path).mem_iff cpu).symm

theorem readCpus_eq_iff {t t' : FileTree} :
    t.readCpus path = t'.readCpus path ↔ t.shownCpus path = t'.shownCpus path := by
  constructor
  · intro h
    rw [shownCpus_eq_readCpus, shownCpus_eq_readCpus, h]
  · intro h
    exact (t.lists_readCpus path).unique (h ▸ t'.lists_readCpus path)

end FileTree

namespace HostFiles

/-- A number of CPUs is that of a set, or the system's own account if there is none. -/
noncomputable def countOf (cpus : Set CpuIndex) (account : UInt32) : Option UInt32 :=
  if cpus.ncard = 0 then if 0 < account then some account else none else count32? cpus.ncard

/-- The list of the CPUs online. -/
def onlineList (host : HostFiles) : Path :=
  (host.sysRoot.join cpuDirectory).join (Path.ofString "online")

theorem cpuCount_eq (host : HostFiles) (tree : FileTree) (file : Path) (account : UInt32) :
    host.cpuCount tree file account =
      countOf (tree.shownCpus ((host.sysRoot.join cpuDirectory).join file)) account := by
  have hlength := (tree.lists_readCpus ((host.sysRoot.join cpuDirectory).join file)).length_eq
  rw [cpuCount, countOf, ← hlength, FileTree.readCpus]
  cases available (tree.parse ((host.sysRoot.join cpuDirectory).join file) CpuSet.read) with
  | none => rfl
  | some cpus =>
      cases cpus with
      | nil => rfl
      | cons cpu cpus => rfl

theorem card_cpuIndex : Nat.card CpuIndex = UInt32.size := by
  rw [Nat.card_eq_fintype_card, ← FinEnum.card_eq_fintypeCard]
  exact FinEnum.card_UInt32

theorem counted {cpus : Set CpuIndex} (hsome : cpus.Nonempty) (hmost : cpus ≠ Set.univ)
    (account : UInt32) : (countOf cpus account).map UInt32.toNat = some cpus.ncard ∧
      (count32 cpus.ncard).toNat = cpus.ncard := by
  have hpos : cpus.ncard ≠ 0 := ((Set.ncard_pos cpus.toFinite).2 hsome).ne'
  have hfit : cpus.ncard < UInt32.size := card_cpuIndex ▸ Set.ncard_lt_card hmost
  have hcount : count32? cpus.ncard = some (UInt32.ofNat cpus.ncard) := if_pos hfit
  rw [countOf, if_neg hpos, count32, hcount, Option.map_some, Option.getD_some,
    UInt32.toNat_ofNat_of_lt' hfit]
  exact ⟨rfl, rfl⟩

end HostFiles

namespace ControlGroup

variable (dir : Path) (tree : FileTree)

/-- The set that an interface file shows. -/
def shownCpus (name : String) : Set CpuIndex := tree.shownCpus (dir.join (Path.ofString name))

/-- The set of the container: the effective one, or the configured one if that is empty. -/
def groupCpus : Set CpuIndex :=
  {cpu | cpu ∈ shownCpus dir tree "cpuset.cpus.effective" ∨
    shownCpus dir tree "cpuset.cpus.effective" = ∅ ∧ cpu ∈ shownCpus dir tree "cpuset.cpus"}

theorem lists_cpus (name : String) : CpuList.Lists (cpus dir tree name) (shownCpus dir tree name) :=
  tree.lists_readCpus (dir.join (Path.ofString name))

theorem lists_cpuSet : CpuList.Lists (cpuSet dir tree) (groupCpus dir tree) := by
  have heffective := lists_cpus dir tree "cpuset.cpus.effective"
  have hconfigured := lists_cpus dir tree "cpuset.cpus"
  unfold cpuSet groupCpus
  split
  · rename_i hempty
    have hnone := heffective.eq_nil_iff.1 (List.isEmpty_iff.1 hempty)
    refine ⟨hconfigured.ascending, fun cpu => ?_⟩
    rw [hconfigured.mem_iff, Set.mem_ofPred_eq, hnone]
    simp
  · rename_i hempty
    have hsome := mt heffective.eq_nil_iff.2 (mt List.isEmpty_iff.2 hempty)
    refine ⟨heffective.ascending, fun cpu => ?_⟩
    rw [heffective.mem_iff, Set.mem_ofPred_eq]
    simp [hsome]

/-- The number of processors by the bounds of shares and quota, on top of a first number. -/
def boundedCpus (base : UInt32) : Except Overflow UInt32 := do
  let bounded := Monitor.sharesBound base (← shares dir tree)
  match positive? (quota dir tree) with
  | none => pure (max bounded 1)
  | some quota =>
    pure (max (Monitor.quotaBound bounded quota ((cpuMax? dir tree).map (·.period))) 1)

end ControlGroup

namespace Monitor

variable [LoadScale α] (host : HostFiles) (dir : Path) (tree : FileTree)

omit [LoadScale α] in
theorem base_eq (size : Nat) (hostCpus : UInt32) :
    (if 0 < count32 size then count32 size else hostCpus) =
      if size = 0 then hostCpus else count32 size := by
  have hpos : 0 < count32 size ↔ ¬size = 0 := by
    rw [UInt32.lt_iff_toNat_lt, toNat_count32, UInt32.toNat_zero]
    omega
  rw [if_congr hpos rfl rfl, ite_not]

/-- The size of the set is what the bounds start from, or the number of CPUs online if it is
empty. -/
theorem availableProcessors_of_sets :
    (linuxMonitor host (some dir) tree : Monitor LoadWindows α).availableProcessors =
      Reading.ofExcept (ControlGroup.boundedCpus dir tree
        (if (ControlGroup.groupCpus dir tree).ncard = 0 then
          (HostFiles.countOf (tree.shownCpus host.onlineList) host.systemOnlineCpus).getD 1
        else count32 (ControlGroup.groupCpus dir tree).ncard)) := by
  unfold availableProcessors ControlGroup.boundedCpus ControlGroup.quota
  rw [← (ControlGroup.lists_cpuSet dir tree).length_eq, HostFiles.onlineList, ← host.cpuCount_eq,
    ← base_eq]
  simp only [linuxMonitor, HostFiles.source, Option.map_some, ControlGroup.cpuSet_source,
    pure_bind]
  simp only [ControlGroup.source]
  cases ControlGroup.shares dir tree with
  | error overflow => rfl
  | ok shares =>
      have hshares : (Reading.ofExcept (.ok shares) : Reading LoadWindows _) = pure shares := rfl
      simp only [hshares, pure_bind]
      cases positive? ((ControlGroup.cpuMax? dir tree).bind (·.quota)) with
      | none => rfl
      | some quota => rfl

/-- A set is the whole host exactly if it has as many CPUs as are online. -/
theorem cpuSetLoad_of_sets :
    (linuxMonitor host (some dir) tree : Monitor LoadWindows α).cpuSetLoad
        (ControlGroup.source dir tree) =
      if (HostFiles.countOf (tree.shownCpus host.onlineList) host.systemOnlineCpus).map
          UInt32.toNat = some (ControlGroup.groupCpus dir tree).ncard then host.load tree .host
      else (linuxMonitor host (some dir) tree).meanLoad (ControlGroup.cpuSet dir tree) := by
  rw [cpuSetLoad_eq, ← (ControlGroup.lists_cpuSet dir tree).length_eq, HostFiles.onlineList,
    ← host.cpuCount_eq]

end Monitor

/-- Interface files of the container, if there is one. -/
def groupFiles (group : Option Path) (names : List String) : List Path :=
  group.toList.flatMap fun dir => names.map fun name => dir.join (Path.ofString name)

theorem mem_groupFiles {dir : Path} {names : List String} {name : String} (h : name ∈ names) :
    dir.join (Path.ofString name) ∈ groupFiles (some dir) names :=
  List.mem_flatMap.2 ⟨dir, List.mem_singleton_self dir, List.mem_map_of_mem h⟩

/-- The files of a host and a container that hold CPU lists. -/
def cpuLists (host : HostFiles) (group : Option Path) : List Path :=
  [host.onlineList, (host.sysRoot.join HostFiles.cpuDirectory).join (Path.ofString "possible")] ++
    groupFiles group ControlGroup.setFiles

/-- The other files that they are read from. -/
def otherFiles (host : HostFiles) (group : Option Path) : List Path :=
  [host.procRoot.join (Path.ofString "stat"), host.procRoot.join (Path.ofString "meminfo"),
    host.procRoot.join (Path.ofString "self/stat")] ++ groupFiles group ControlGroup.amountFiles

/-- Two trees differ at most in how the lists of CPUs spell their sets. -/
structure Respelled (host : HostFiles) (group : Option Path) (t t' : FileTree) : Prop where
  lists : ∀ path ∈ cpuLists host group, t.shownCpus path = t'.shownCpus path
  others : ∀ path ∈ otherFiles host group, t.contents? path = t'.contents? path
  descriptors : t.SameEntries t' (host.procRoot.join (Path.ofString "self/fd"))

namespace Respelled

variable {host : HostFiles} {group : Option Path} {dir : Path} {t t' : FileTree}

theorem containerSource_eq (h : Respelled host (some dir) t t') {σ : Type} :
    (ControlGroup.source dir t : ContainerSource σ) = ControlGroup.source dir t' := by
  refine ControlGroup.source_of_files (fun name hname _ format => ?_) fun name hname => ?_
  · have hpath := h.others _ (List.mem_append_right _ (mem_groupFiles hname))
    unfold ControlGroup.file?
    rw [FileTree.available_parse, FileTree.available_parse, hpath]
  · have hpath := h.lists _ (List.mem_append_right _ (mem_groupFiles hname))
    exact FileTree.readCpus_eq_iff.2 hpath

variable [LoadScale α]

theorem hostSource_eq (h : Respelled host group t t') :
    (host.source t : HostSource LoadWindows α) = host.source t' := by
  have hmeminfo : host.meminfo t = host.meminfo t' :=
    HostFiles.meminfo_of_contents? (h.others _ (by simp [otherFiles]))
  have hstat : host.processStat t = host.processStat t' :=
    HostFiles.processStat_of_contents? (h.others _ (by simp [otherFiles]))
  have hticks : host.hostTicks t = host.hostTicks t' :=
    HostFiles.hostTicks_of_contents? (h.others _ (by simp [otherFiles]))
  have hsample (key : LoadKey) : host.sample t key = host.sample t' key := by
    cases key with
    | _ => simp only [HostFiles.sample, hstat, hticks]
  have hcount (file : Path) (hfile : (host.sysRoot.join HostFiles.cpuDirectory).join file ∈
      cpuLists host group) (account : UInt32) :
      host.cpuCount t file account = host.cpuCount t' file account := by
    rw [host.cpuCount_eq, host.cpuCount_eq, h.lists _ hfile]
  unfold HostFiles.source HostFiles.load
  simp only [hmeminfo, hstat, hticks, hsample,
    HostFiles.openDescriptors_of_sameEntries h.descriptors,
    hcount (Path.ofString "online") (by simp [cpuLists, HostFiles.onlineList]),
    hcount (Path.ofString "possible") (by simp [cpuLists])]

/-- A monitor does not tell two spellings of one set apart. -/
theorem linuxMonitor_eq (h : Respelled host group t t') :
    (linuxMonitor host group t : Monitor LoadWindows α) = linuxMonitor host group t' := by
  unfold linuxMonitor
  rw [h.hostSource_eq]
  cases group with
  | none => rfl
  | some dir => rw [Option.map_some, Option.map_some, h.containerSource_eq]

end Respelled

/-- What a list of CPUs in a file comes to. -/
structure SpellingLaw (α : Type) [LoadScale α] (host : HostFiles) (tree : FileTree) : Prop where
  /-- A file is read exactly if its first line is a CPU list, and then as the members of its set. -/
  read_iff : ∀ {contents : Bytes} {cpus : List CpuIndex}, CpuSet.read contents = .ok cpus ↔
    ∃ set, CpuSet.FirstLine contents set ∧ CpuList.Lists cpus set
  accepted : ∀ {contents : Bytes} {set : Set CpuIndex}, CpuSet.FirstLine contents set →
    ∃ cpus, CpuSet.read contents = .ok cpus
  shown : ∀ {path : Path} {contents : Bytes} {set : Set CpuIndex},
    tree.contents? path = some contents → CpuSet.FirstLine contents set →
      tree.shownCpus path = set
  online : host.cpuCount tree (Path.ofString "online") host.systemOnlineCpus =
    HostFiles.countOf (tree.shownCpus host.onlineList) host.systemOnlineCpus
  /-- A count is the number of the CPUs, if there is one and not every index is among them. -/
  counted : ∀ {cpus : Set CpuIndex} {account : UInt32}, cpus.Nonempty → cpus ≠ Set.univ →
    (HostFiles.countOf cpus account).map UInt32.toNat = some cpus.ncard ∧
      (count32 cpus.ncard).toNat = cpus.ncard
  set : ∀ dir, CpuList.Lists (ControlGroup.cpuSet dir tree) (ControlGroup.groupCpus dir tree)
  processors : ∀ dir,
    (linuxMonitor host (some dir) tree : Monitor LoadWindows α).availableProcessors =
      Reading.ofExcept (ControlGroup.boundedCpus dir tree
        (if (ControlGroup.groupCpus dir tree).ncard = 0 then
          (HostFiles.countOf (tree.shownCpus host.onlineList) host.systemOnlineCpus).getD 1
        else count32 (ControlGroup.groupCpus dir tree).ncard))
  load : ∀ dir, (linuxMonitor host (some dir) tree : Monitor LoadWindows α).cpuSetLoad
      (ControlGroup.source dir tree) =
    if (HostFiles.countOf (tree.shownCpus host.onlineList) host.systemOnlineCpus).map
        UInt32.toNat = some (ControlGroup.groupCpus dir tree).ncard then host.load tree .host
    else (linuxMonitor host (some dir) tree).meanLoad (ControlGroup.cpuSet dir tree)
  same : ∀ {group : Option Path} {t : FileTree}, Respelled host group tree t →
    (linuxMonitor host group tree : Monitor LoadWindows α) = linuxMonitor host group t

theorem spellingLaw [LoadScale α] (host : HostFiles) (tree : FileTree) :
    SpellingLaw α host tree where
  read_iff := CpuSet.read_eq_ok_iff
  accepted hset := by
    obtain ⟨cpus, hread, -⟩ := hset.exists_read
    exact ⟨cpus, hread⟩
  shown := FileTree.shownCpus_eq
  online := host.cpuCount_eq tree _ _
  counted hsome hmost := HostFiles.counted hsome hmost _
  set dir := ControlGroup.lists_cpuSet dir tree
  processors dir := Monitor.availableProcessors_of_sets host dir tree
  load dir := Monitor.cpuSetLoad_of_sets host dir tree
  same h := h.linuxMonitor_eq

/-- A tree with the ticks of CPUs, a list of those online and a set of the container `group`. -/
def cpuTree (stat online effective : String) : FileTree where
  entries :=
    [([Path.ofString "proc"], .directory),
      ([Path.ofString "proc", Path.ofString "stat"], .file (Path.ofString stat)),
      ([Path.ofString "sys"], .directory),
      ([Path.ofString "sys", Path.ofString "devices"], .directory),
      ([Path.ofString "sys", Path.ofString "devices", Path.ofString "system"], .directory),
      ([Path.ofString "sys", Path.ofString "devices", Path.ofString "system",
        Path.ofString "cpu"], .directory),
      ([Path.ofString "sys", Path.ofString "devices", Path.ofString "system",
        Path.ofString "cpu", Path.ofString "online"], .file (Path.ofString online)),
      ([Path.ofString "group"], .directory),
      ([Path.ofString "group", Path.ofString "cpuset.cpus.effective"],
        .file (Path.ofString effective))]

def spelledTree (online effective : String) : FileTree :=
  cpuTree "cpu  200 0 0 200 0 0 0 0\ncpu0 100 0 0 100 0 0 0 0\n" online effective

def smallGroup : Path := Path.ofString "group"

/-- Four CPUs online, of which the container has two. -/
def spelledPlain : FileTree := spelledTree "0-3\n" "0-1\n"

/-- The same sets, with empty parts, a stride, overlaps, repetitions and a sign. -/
def spelledAside : FileTree := spelledTree "3,,1-2,0-2:2\n" " 1,0-1,+0\n"

theorem respelled_aside :
    Respelled HostFiles.relative (some smallGroup) spelledPlain spelledAside where
  lists := by
    have hread : (cpuLists HostFiles.relative (some smallGroup)).map spelledPlain.readCpus =
        (cpuLists HostFiles.relative (some smallGroup)).map spelledAside.readCpus := by cbv
    exact fun path hpath => FileTree.readCpus_eq_iff.1 (List.map_inj_left.1 hread path hpath)
  others := by
    have hsame : (otherFiles HostFiles.relative (some smallGroup)).map spelledPlain.contents? =
        (otherFiles HostFiles.relative (some smallGroup)).map spelledAside.contents? := by cbv
    exact List.map_inj_left.1 hsame
  descriptors := .of_eq (by cbv)

/-- The law for two trees that spell four CPUs online and two of the container. -/
theorem spellingLaw_aside :
    Respelled HostFiles.relative (some smallGroup) spelledPlain spelledAside ∧
      spelledPlain ≠ spelledAside ∧
      (linuxMonitor HostFiles.relative (some smallGroup) spelledPlain : Monitor LoadWindows Rat) =
        linuxMonitor HostFiles.relative (some smallGroup) spelledAside ∧
      (∃ set, CpuSet.FirstLine (Path.ofString " 1,0-1,+0\n") set ∧ CpuList.Lists [0, 1] set) ∧
      (HostFiles.countOf {0, 1} 1).map UInt32.toNat = some ({0, 1} : Set CpuIndex).ncard := by
  have hlaw := spellingLaw (α := Rat) HostFiles.relative spelledPlain
  refine ⟨respelled_aside, by decide +kernel, hlaw.same respelled_aside,
    hlaw.read_iff.1 (by cbv), ?_⟩
  refine (hlaw.counted (Set.insert_nonempty 0 {1}) fun hall => ?_).1
  have htwo : (2 : CpuIndex) ∈ ({0, 1} : Set CpuIndex) := hall ▸ Set.mem_univ 2
  simp at htwo

def comma : Bytes := Path.ofString ",\n"

/-- Both sets are written as a list of empty parts, and so have no CPU. -/
def spelledCommas : FileTree := spelledTree ",\n" ",\n"

theorem spells_comma : CpuList.Spells [','] ∅ := by
  obtain ⟨set, hspells, hlists⟩ := CpuList.read_eq_ok_iff.1
    (show CpuList.read [','] = .ok [] by cbv)
  rwa [hlists.eq_nil_iff.1 rfl] at hspells

def everyIndex : Text := "0-4294967295".toList

def spelledEvery : FileTree := spelledTree "0-4294967295\n" "0-1\n"

theorem spells_everyIndex : CpuList.Spells everyIndex Set.univ := by
  have hpieces : everyIndex.splitOn ',' = [everyIndex] := by cbv
  have hpart : CpuList.PartText everyIndex ⟨0, 4294967295, 1⟩ :=
    CpuList.readPart_eq_ok_iff.1 (by cbv)
  refine ⟨fun piece hpiece _ => ⟨_, List.mem_singleton.1 (hpieces ▸ hpiece) ▸ hpart⟩, fun cpu => ?_⟩
  refine iff_of_true (Set.mem_univ cpu) ⟨everyIndex, by simp [hpieces], _, hpart, ?_⟩
  exact ⟨UInt32.zero_le, UInt32.le_iff_toNat_le.2 (Nat.le_pred_of_lt cpu.toNat_lt_size), one_dvd _⟩

/-- Where a list has no CPU, the number of CPUs online is the system's own account, and a set
without a CPU is not the whole host. Where it has every index, there is no number in 32 bits. -/
theorem cpuCount_extremes :
    firstLine comma = .ok [','] ∧ CpuSet.FirstLine comma ∅ ∧
      spelledCommas.contents? HostFiles.relative.onlineList = some comma ∧
      spelledCommas.contents? (smallGroup.join (Path.ofString "cpuset.cpus.effective")) =
        some comma ∧
      (∅ : Set CpuIndex).ncard = 0 ∧
      HostFiles.relative.cpuCount spelledCommas (Path.ofString "online")
        HostFiles.relative.systemOnlineCpus = some 1 ∧
      (HostFiles.relative.load spelledCommas .host : Reading LoadWindows (Option Rat)) {} =
        .ok (some (1 / 2)) { host := ⟨200, 400⟩ } ∧
      (linuxMonitor HostFiles.relative (some smallGroup) spelledCommas :
        Monitor LoadWindows Rat).load { source := {} } = .ok none { source := {} } ∧
      CpuSet.FirstLine (Path.ofString "0-4294967295\n") Set.univ ∧
      (Set.univ : Set CpuIndex).ncard = 2 ^ 32 ∧
      HostFiles.relative.cpuCount spelledEvery (Path.ofString "online")
        HostFiles.relative.systemOnlineCpus = none := by
  have hncard : (Set.univ : Set CpuIndex).ncard = 2 ^ 32 := by
    rw [Set.ncard_univ, HostFiles.card_cpuIndex]
    rfl
  have hevery : CpuSet.FirstLine (Path.ofString "0-4294967295\n") Set.univ :=
    ⟨everyIndex, by cbv, spells_everyIndex⟩
  have hshown : spelledEvery.shownCpus HostFiles.relative.onlineList = Set.univ :=
    FileTree.shownCpus_eq (by cbv) hevery
  refine ⟨by cbv, ⟨[','], by cbv, spells_comma⟩, by cbv, by cbv, Set.ncard_empty _, by cbv, by cbv,
    by cbv, hevery, hncard, ?_⟩
  rw [HostFiles.cpuCount_eq, ← HostFiles.onlineList, hshown, HostFiles.countOf, hncard]
  rfl

end ResourceMetrics
