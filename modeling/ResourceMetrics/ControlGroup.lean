import ResourceMetrics.CpuLimit
import ResourceMetrics.FileTree
import ResourceMetrics.KeyValue
import ResourceMetrics.Sources

/-!
A container source over the interface files of one directory. They are read anew for each
reading, and a file that cannot be read or parsed answers nothing.
-/

namespace ResourceMetrics

namespace ControlGroup

/-- The parsed contents of an interface file. -/
def file? {β : Type} (tree : FileTree) (dir : Path) (name : String)
    (format : Bytes → Except StatError β) : Option β :=
  available (tree.parse (dir.join (Path.ofString name)) format)

variable (dir : Path) (tree : FileTree)

def memoryLimit : Option Counter := do
  let limit ← file? tree dir "memory.max" MemoryLimit.read
  limit

/-- The limit on memory and swap together; none if either is not set or the sum is too large. -/
def combinedLimit : Option Counter := do
  let limit ← file? tree dir "memory.swap.max" MemoryLimit.read
  let swap ← limit
  let memory ← memoryLimit dir tree
  memory.add? swap

def memoryUsage : Option Counter := file? tree dir "memory.current" MemoryAmount.read

/-- The use of memory and swap together. No swap is in use if that is not known. -/
def combinedUsage : Option Counter := do
  let memory ← memoryUsage dir tree
  let swap := (file? tree dir "memory.swap.current" MemoryAmount.read).getD 0
  memory.add? swap

def cpuMax? : Option CpuMax := file? tree dir "cpu.max" CpuMax.read

def cpuStat? : Option CpuStat := file? tree dir "cpu.stat" CpuStat.read

/-- The shares that the weight was set for, a fault if the weight is far out of range. -/
def shares : Except Overflow (Option Counter) :=
  match file? tree dir "cpu.weight" CpuWeight.read with
  | some weight => weight.shares?
  | none => .ok none

/-- CPU time in nanoseconds. -/
def cpuUsage : Option Counter := do
  let stat ← cpuStat? dir tree
  stat.usageMicros.mul? 1000

def cpus (name : String) : List CpuIndex := (file? tree dir name CpuSet.read).getD []

/-- The container source over the directory of a control group. -/
def source {σ : Type} : ContainerSource σ where
  memoryLimit := pure (memoryLimit dir tree)
  combinedLimit := pure (combinedLimit dir tree)
  memoryUsage := pure (memoryUsage dir tree)
  combinedUsage := pure (combinedUsage dir tree)
  quota := pure ((cpuMax? dir tree).bind (·.quota))
  period := pure ((cpuMax? dir tree).map (·.period))
  elapsedPeriods := pure ((cpuStat? dir tree).map (·.periods))
  shares := Reading.ofExcept (shares dir tree)
  cpuUsage := pure (cpuUsage dir tree)
  configuredCpus := pure (cpus dir tree "cpuset.cpus")
  effectiveCpus := pure (cpus dir tree "cpuset.cpus.effective")

end ControlGroup

end ResourceMetrics
