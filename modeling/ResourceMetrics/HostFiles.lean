import ResourceMetrics.CpuLimit
import ResourceMetrics.CpuTicks
import ResourceMetrics.FileTree
import ResourceMetrics.KeyValue
import ResourceMetrics.LoadHistory
import ResourceMetrics.ProcessStat
import ResourceMetrics.Sources

/-!
A host source over the process and system file systems. Files are read anew for each reading; a
file that cannot be read or parsed answers nothing. The only state are the load windows: a load is
the average since boot the first time and then the load since the last reading of its kind.
-/

namespace ResourceMetrics

/-- What the system itself says of a host, apart from its files. -/
structure SystemAccount where
  /-- Ticks of the kernel's clock in a second. -/
  ticksPerSecond : Counter := 100
  ticksPerSecond_pos : 0 < ticksPerSecond := by decide
  systemOnlineCpus : UInt32 := 1
  systemConfiguredCpus : UInt32 := 1

/-- Where the files of a host are and how to read them. -/
structure HostFiles extends SystemAccount where
  procRoot : Path
  sysRoot : Path
  /-- The limit on open descriptors that is in force. -/
  descriptorLimit : Counter

theorem ticksPerSecond_max_pos (n : Counter) : 0 < max n 1 := by
  have h : (1 : Counter) ≤ max n 1 := by
    show 1 ≤ if n ≤ 1 then 1 else n
    split
    · exact UInt64.le_refl 1
    · rename_i hn
      exact UInt64.le_of_lt (UInt64.not_le.mp hn)
  exact UInt64.lt_of_lt_of_le (by decide) h

namespace HostFiles

/-- Sets the clock's rate, which is at least one tick in a second. -/
def withTicksPerSecond (host : HostFiles) (rate : Counter) : HostFiles :=
  { host with
    ticksPerSecond := max rate 1
    ticksPerSecond_pos := ticksPerSecond_max_pos rate }

/-- The time that a number of ticks takes, in nanoseconds. -/
def nanoseconds (host : HostFiles) (ticks : Counter) : Option Counter :=
  Counter.ofNat? (ticks.toNat * 1000000000 / host.ticksPerSecond.toNat)

def meminfo (host : HostFiles) (tree : FileTree) : Option Meminfo :=
  available (tree.parse (host.procRoot.join (Path.ofString "meminfo")) Meminfo.read)

def processStat (host : HostFiles) (tree : FileTree) : Option ProcessStat :=
  available (tree.parse (host.procRoot.join (Path.ofString "self/stat")) ProcessStat.read)

/-- The ticks of the host, a fault if some sum of them exceeds a counter. -/
def hostTicks (host : HostFiles) (tree : FileTree) : Except Overflow (Option HostTicks) :=
  match tree.parse (host.procRoot.join (Path.ofString "stat")) HostTicks.read with
  | .ok ticks => .ok (some ticks)
  | .error (.parsing _ (.overflow fault)) => .error fault
  | .error _ => .ok none

def cpuDirectory : Path := Path.ofString "devices/system/cpu"

/-- The number of CPUs in a list of the system, or by the system's own account if the list is
empty or cannot be read. -/
def cpuCount (host : HostFiles) (tree : FileTree) (file : Path) (account : UInt32) :
    Option UInt32 :=
  match available (tree.parse ((host.sysRoot.join cpuDirectory).join file) CpuSet.read) with
  | some (cpu :: cpus) => count32? (cpu :: cpus).length
  | _ => if 0 < account then some account else none

/-- Descriptors that are open, not counting the one that the listing itself takes. -/
def openDescriptors (host : HostFiles) (tree : FileTree) : Option Counter :=
  (available (tree.list (host.procRoot.join (Path.ofString "self/fd")))).bind fun entries =>
    Counter.ofNat? (entries.length - 1)

/-- The value of a descriptor limit that means that there is none. -/
def noDescriptorLimit : Counter := Counter.largest

variable {α : Type} [LoadScale α]

/-- Records a sample under its key and answers the load since the last one. -/
def loadSinceLast (key : LoadKey) (sample : CpuTicks) : Reading LoadWindows α := fun windows =>
  .ok (sample.loadSince (windows.last key)) (windows.record key sample)

/-- The sample under a key, from the files as they are. The process is set against the whole
host. -/
def sample (host : HostFiles) (tree : FileTree) : LoadKey → Except Overflow (Option CpuTicks)
  | .host => do
    let some ticks ← host.hostTicks tree | pure none
    pure (some ticks.all)
  | .cpu index => do
    let some ticks ← host.hostTicks tree | pure none
    pure (ticks.cpu? index)
  | .process => do
    let some stat := host.processStat tree | pure none
    let busy ← stat.ticks
    let some ticks ← host.hostTicks tree | pure none
    pure (some ⟨busy, ticks.all.total⟩)

/-- The load under a key since the last reading. If there is no sample now, no window moves. -/
def load (host : HostFiles) (tree : FileTree) (key : LoadKey) :
    Reading LoadWindows (Option α) := do
  match ← Reading.ofExcept (host.sample tree key) with
  | some sample => some <$> loadSinceLast key sample
  | none => pure none

/-- The host source over the files of a tree. -/
def source (host : HostFiles) (tree : FileTree) : HostSource LoadWindows α where
  totalSwap := pure ((host.meminfo tree).map (·.swapTotal))
  freeSwap := pure ((host.meminfo tree).map (·.swapFree))
  totalMemory := pure ((host.meminfo tree).map (·.memTotal))
  freeMemory := pure ((host.meminfo tree).map (·.memFree))
  load := host.load tree .host
  cpuLoad index := host.load tree (.cpu index)
  totalTime := Reading.ofExcept do
    let ticks ← host.hostTicks tree
    pure (ticks.bind fun ticks => host.nanoseconds ticks.all.total)
  onlineCpus := pure (host.cpuCount tree (Path.ofString "online") host.systemOnlineCpus)
  configuredCpus :=
    pure (host.cpuCount tree (Path.ofString "possible") host.systemConfiguredCpus)
  processLoad := host.load tree .process
  processTime := Reading.ofExcept do
    let some stat := host.processStat tree | pure none
    let ticks ← stat.ticks
    pure (host.nanoseconds ticks)
  committedMemory := pure ((host.processStat tree).map (·.virtualBytes))
  openDescriptors := pure (host.openDescriptors tree)
  maxDescriptors :=
    pure (if host.descriptorLimit = noDescriptorLimit then none else some host.descriptorLimit)

end HostFiles

end ResourceMetrics
