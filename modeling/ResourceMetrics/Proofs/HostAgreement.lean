import ResourceMetrics.ControlGroup
import ResourceMetrics.HostFiles

/-! Trees that agree in what a host or a container is read from. What a format makes of a file
depends on the contents alone, and a directory counts by its entries, in whatever order they are
listed. So all that is read of a host is the same if five of its files are. -/

namespace ResourceMetrics

namespace FileTree

/-- The contents of a file, if it can be opened and read. -/
def contents? (tree : FileTree) (path : Path) : Option Bytes :=
  available (tree.parse path (Except.ok : Bytes → Except Empty Bytes))

/-- Two trees list the same entries, in whatever order, or both list none. -/
def SameEntries (t t' : FileTree) (path : Path) : Prop :=
  Option.Rel List.Perm (available (t.list path)) (available (t'.list path))

theorem SameEntries.of_eq {t t' : FileTree} {path : Path}
    (h : available (t.list path) = available (t'.list path)) : t.SameEntries t' path := by
  unfold SameEntries
  rw [h]
  cases available (t'.list path) with
  | none => exact .none
  | some listed => exact .some (List.Perm.refl listed)

variable {ε β : Type} {tree : FileTree} {path : Path}

/-- What a format makes of a file depends on its contents alone. -/
theorem parse_of_contents? {contents : Bytes} (h : tree.contents? path = some contents)
    (format : Bytes → Except ε β) :
    tree.parse path format = (format contents).mapError (.parsing path) := by
  unfold contents? parse at h
  unfold parse
  cases hopen : tree.openFile path with
  | error cause =>
      rw [hopen] at h
      cases h
  | ok entry =>
      rw [hopen] at h
      cases entry with
      | directory => cases h
      | file bytes =>
          rw [← Option.some.inj h]
          dsimp only [Entry.contents]
          cases format bytes with
          | error cause => rfl
          | ok b => rfl

theorem parse_of_contents?_eq_none (h : tree.contents? path = none)
    (format : Bytes → Except ε β) :
    ∃ cause, tree.parse path format = .error (.opening path cause) ∨
      tree.parse path format = .error (.reading path cause) := by
  unfold contents? parse at h
  unfold parse
  cases hopen : tree.openFile path with
  | error cause => exact ⟨cause, Or.inl rfl⟩
  | ok entry =>
      rw [hopen] at h
      cases entry with
      | directory => exact ⟨.isADirectory, Or.inr rfl⟩
      | file bytes => cases h

theorem available_parse (tree : FileTree) (path : Path) (format : Bytes → Except ε β) :
    available (tree.parse path format) =
      (tree.contents? path).bind fun contents => available (format contents) := by
  cases h : tree.contents? path with
  | none =>
      obtain ⟨cause, hparse | hparse⟩ := parse_of_contents?_eq_none h format
      · rw [hparse]
        rfl
      · rw [hparse]
        rfl
  | some contents =>
      rw [parse_of_contents? h, Option.bind_some]
      cases format contents with
      | error cause => rfl
      | ok b => rfl

end FileTree

namespace HostFiles

theorem hostTicks_of_unreadable {host : HostFiles} {tree : FileTree}
    (h : tree.contents? (host.procRoot.join (Path.ofString "stat")) = none) :
    host.hostTicks tree = .ok none := by
  obtain ⟨cause, hparse | hparse⟩ := FileTree.parse_of_contents?_eq_none h HostTicks.read
  · rw [hostTicks, hparse]
  · rw [hostTicks, hparse]

section SameContents

variable {host : HostFiles} {t t' : FileTree}

theorem meminfo_of_contents?
    (h : t.contents? (host.procRoot.join (Path.ofString "meminfo")) =
      t'.contents? (host.procRoot.join (Path.ofString "meminfo"))) :
    host.meminfo t = host.meminfo t' := by
  unfold meminfo
  rw [FileTree.available_parse, FileTree.available_parse, h]

theorem processStat_of_contents?
    (h : t.contents? (host.procRoot.join (Path.ofString "self/stat")) =
      t'.contents? (host.procRoot.join (Path.ofString "self/stat"))) :
    host.processStat t = host.processStat t' := by
  unfold processStat
  rw [FileTree.available_parse, FileTree.available_parse, h]

/-- Also a fault is one of the contents. -/
theorem hostTicks_of_contents?
    (h : t.contents? (host.procRoot.join (Path.ofString "stat")) =
      t'.contents? (host.procRoot.join (Path.ofString "stat"))) :
    host.hostTicks t = host.hostTicks t' := by
  cases hcontents : t.contents? (host.procRoot.join (Path.ofString "stat")) with
  | none =>
      rw [hostTicks_of_unreadable hcontents, hostTicks_of_unreadable (h.symm.trans hcontents)]
  | some contents =>
      rw [hostTicks, hostTicks, FileTree.parse_of_contents? hcontents,
        FileTree.parse_of_contents? (h.symm.trans hcontents)]

theorem openDescriptors_of_sameEntries
    (h : t.SameEntries t' (host.procRoot.join (Path.ofString "self/fd"))) :
    host.openDescriptors t = host.openDescriptors t' := by
  unfold FileTree.SameEntries at h
  unfold openDescriptors
  generalize available (t.list _) = listed, available (t'.list _) = listed' at h ⊢
  cases h with
  | none => rfl
  | some hperm => simp only [Option.bind_some, hperm.length_eq]

theorem cpuCount_of_contents? {file : Path}
    (h : t.contents? ((host.sysRoot.join cpuDirectory).join file) =
      t'.contents? ((host.sysRoot.join cpuDirectory).join file)) (account : UInt32) :
    host.cpuCount t file account = host.cpuCount t' file account := by
  unfold cpuCount
  rw [FileTree.available_parse, FileTree.available_parse, h]

end SameContents

/-- Two trees hold the same in what a host is read from: three files of the process file system, a
listing of descriptors and the list of the CPUs online. -/
structure Agree (host : HostFiles) (t t' : FileTree) : Prop where
  stat : t.contents? (host.procRoot.join (Path.ofString "stat")) =
    t'.contents? (host.procRoot.join (Path.ofString "stat"))
  meminfo : t.contents? (host.procRoot.join (Path.ofString "meminfo")) =
    t'.contents? (host.procRoot.join (Path.ofString "meminfo"))
  processStat : t.contents? (host.procRoot.join (Path.ofString "self/stat")) =
    t'.contents? (host.procRoot.join (Path.ofString "self/stat"))
  descriptors : t.SameEntries t' (host.procRoot.join (Path.ofString "self/fd"))
  online : t.contents? ((host.sysRoot.join cpuDirectory).join (Path.ofString "online")) =
    t'.contents? ((host.sysRoot.join cpuDirectory).join (Path.ofString "online"))

namespace Agree

variable {host : HostFiles} {t t' : FileTree}

theorem refl (host : HostFiles) (t : FileTree) : host.Agree t t where
  stat := rfl
  meminfo := rfl
  processStat := rfl
  descriptors := .of_eq rfl
  online := rfl

variable (h : host.Agree t t')

include h

theorem meminfo_eq : host.meminfo t = host.meminfo t' := meminfo_of_contents? h.meminfo

theorem processStat_eq : host.processStat t = host.processStat t' :=
  processStat_of_contents? h.processStat

theorem hostTicks_eq : host.hostTicks t = host.hostTicks t' := hostTicks_of_contents? h.stat

theorem sample_eq (key : LoadKey) : host.sample t key = host.sample t' key := by
  cases key with
  | _ => simp only [sample, h.processStat_eq, h.hostTicks_eq]

theorem openDescriptors_eq : host.openDescriptors t = host.openDescriptors t' :=
  openDescriptors_of_sameEntries h.descriptors

theorem onlineCpus_eq (account : UInt32) :
    host.cpuCount t (Path.ofString "online") account =
      host.cpuCount t' (Path.ofString "online") account :=
  cpuCount_of_contents? h.online account

end Agree

end HostFiles

namespace ControlGroup

/-- The interface files apart from the two that hold CPU sets. -/
def amountFiles : List String :=
  ["memory.max", "memory.swap.max", "memory.current", "memory.swap.current", "cpu.max", "cpu.stat",
    "cpu.weight"]

def setFiles : List String := ["cpuset.cpus", "cpuset.cpus.effective"]

/-- A container source goes by what its files are read as. -/
theorem source_of_files {dir : Path} {t t' : FileTree}
    (hfiles : ∀ name ∈ amountFiles, ∀ {β : Type} (format : Bytes → Except StatError β),
      file? t dir name format = file? t' dir name format)
    (hcpus : ∀ name ∈ setFiles, cpus dir t name = cpus dir t' name) {σ : Type} :
    (source dir t : ContainerSource σ) = source dir t' := by
  have hlimit : memoryLimit dir t = memoryLimit dir t' := by
    unfold memoryLimit
    rw [hfiles "memory.max" (by decide)]
  have hcombined : combinedLimit dir t = combinedLimit dir t' := by
    unfold combinedLimit
    rw [hfiles "memory.swap.max" (by decide), hlimit]
  have husage : memoryUsage dir t = memoryUsage dir t' := hfiles "memory.current" (by decide) _
  have hcombinedUsage : combinedUsage dir t = combinedUsage dir t' := by
    unfold combinedUsage
    rw [hfiles "memory.swap.current" (by decide), husage]
  have hmax : cpuMax? dir t = cpuMax? dir t' := hfiles "cpu.max" (by decide) _
  have hstat : cpuStat? dir t = cpuStat? dir t' := hfiles "cpu.stat" (by decide) _
  have hshares : shares dir t = shares dir t' := by
    unfold shares
    rw [hfiles "cpu.weight" (by decide)]
  have hcpuUsage : cpuUsage dir t = cpuUsage dir t' := by
    unfold cpuUsage
    rw [hstat]
  unfold source
  rw [hlimit, hcombined, husage, hcombinedUsage, hmax, hstat, hshares, hcpuUsage,
    hcpus "cpuset.cpus" (by decide), hcpus "cpuset.cpus.effective" (by decide)]

end ControlGroup

end ResourceMetrics
