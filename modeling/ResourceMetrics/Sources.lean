import ResourceMetrics.Counter
import ResourceMetrics.CpuList

/-!
What the host and the container of a process can be asked. A reading may answer nothing, changes
the state of its source at will, and may fault; a fault leaves the state as it was reached. Two
readings of one thing need not agree.
-/

namespace ResourceMetrics

/-- A reading from a source with state in `σ`. -/
abbrev Reading (σ : Type) := EStateM Overflow σ

/-- A computation that may fault, as a reading that leaves the state alone. -/
def Reading.ofExcept {σ β : Type} : Except Overflow β → Reading σ β
  | .ok b => pure b
  | .error fault => throw fault

/-- What a reading makes of a file: an error means that the metric is not available. -/
def available {ε β : Type} : Except ε β → Option β
  | .ok b => some b
  | .error _ => none

/-- Counters of the whole machine. Sizes are in bytes, times in nanoseconds, loads in the unit
interval since the last reading of the same kind. -/
structure HostSource (σ α : Type) where
  totalSwap : Reading σ (Option Counter)
  freeSwap : Reading σ (Option Counter)
  totalMemory : Reading σ (Option Counter)
  freeMemory : Reading σ (Option Counter)
  load : Reading σ (Option α)
  cpuLoad : CpuIndex → Reading σ (Option α)
  /-- Time of all CPUs since boot. -/
  totalTime : Reading σ (Option Counter)
  onlineCpus : Reading σ (Option UInt32)
  configuredCpus : Reading σ (Option UInt32)
  /-- The part of the host's CPU time that this process used. -/
  processLoad : Reading σ (Option α)
  processTime : Reading σ (Option Counter)
  committedMemory : Reading σ (Option Counter)
  openDescriptors : Reading σ (Option Counter)
  maxDescriptors : Reading σ (Option Counter)

/-- Limits of a container and what it uses. A limit that is not set is missing, and so is an
empty set of CPUs. -/
structure ContainerSource (σ : Type) where
  memoryLimit : Reading σ (Option Counter)
  /-- The limit on memory and swap together. -/
  combinedLimit : Reading σ (Option Counter)
  memoryUsage : Reading σ (Option Counter)
  combinedUsage : Reading σ (Option Counter)
  /-- CPU time in microseconds that is granted in each period. -/
  quota : Reading σ (Option Counter)
  /-- Length of a period in microseconds. -/
  period : Reading σ (Option Counter)
  elapsedPeriods : Reading σ (Option Counter)
  shares : Reading σ (Option Counter)
  /-- CPU time used so far, in nanoseconds. -/
  cpuUsage : Reading σ (Option Counter)
  configuredCpus : Reading σ (List CpuIndex)
  effectiveCpus : Reading σ (List CpuIndex)

end ResourceMetrics
