import ResourceMetrics.Monitor

/-!
A host and a container whose answers are given in advance, to try a monitor on readings that no
real machine would show at will. Each reading first uses up the answers queued for it, one each
time, and after that gives its standing answer.
-/

namespace ResourceMetrics

/-- The answers of one reading. -/
structure Script (β : Type) where
  queued : List β := []
  standing : β
  deriving Repr

def Script.next {β : Type} (s : Script β) : β × Script β :=
  match s.queued with
  | [] => (s.standing, s)
  | b :: rest => (b, { s with queued := rest })

/-- A reading that is never known. -/
abbrev Script.none {β : Type} : Script (Option β) := { standing := Option.none }

structure HostScript (α : Type) where
  totalSwap : Script (Option Counter) := .none
  freeSwap : Script (Option Counter) := .none
  totalMemory : Script (Option Counter) := .none
  freeMemory : Script (Option Counter) := .none
  load : Script (Option α) := .none
  /-- The loads of all CPUs by index; those beyond the list are not known. -/
  cpuLoads : Script (List (Option α)) := { standing := [] }
  totalTime : Script (Option Counter) := .none
  onlineCpus : Script (Option UInt32) := .none
  configuredCpus : Script (Option UInt32) := .none
  processLoad : Script (Option α) := .none
  processTime : Script (Option Counter) := .none
  committedMemory : Script (Option Counter) := .none
  openDescriptors : Script (Option Counter) := .none
  maxDescriptors : Script (Option Counter) := .none

structure ContainerScript where
  memoryLimit : Script (Option Counter) := .none
  combinedLimit : Script (Option Counter) := .none
  memoryUsage : Script (Option Counter) := .none
  combinedUsage : Script (Option Counter) := .none
  quota : Script (Option Counter) := .none
  period : Script (Option Counter) := .none
  elapsedPeriods : Script (Option Counter) := .none
  shares : Script (Option Counter) := .none
  cpuUsage : Script (Option Counter) := .none
  configuredCpus : Script (List CpuIndex) := { standing := [] }
  effectiveCpus : Script (List CpuIndex) := { standing := [] }

/-- The scripts of both sources, and how often the combined usage has been read. -/
structure Scenario (α : Type) where
  host : HostScript α := {}
  container : ContainerScript := {}
  combinedUsageReads : Nat := 0

namespace Scenario

variable {α : Type}

/-- Plays the next answer of a script of the host. -/
def playHost {β : Type} (get : HostScript α → Script β)
    (set : HostScript α → Script β → HostScript α) : Reading (Scenario α) β := fun s =>
  let (b, rest) := (get s.host).next
  .ok b { s with host := set s.host rest }

/-- Plays the next answer of a script of the container. -/
def playContainer {β : Type} (get : ContainerScript → Script β)
    (set : ContainerScript → Script β → ContainerScript) : Reading (Scenario α) β := fun s =>
  let (b, rest) := (get s.container).next
  .ok b { s with container := set s.container rest }

def hostSource : HostSource (Scenario α) α where
  totalSwap := playHost (·.totalSwap) ({ · with totalSwap := · })
  freeSwap := playHost (·.freeSwap) ({ · with freeSwap := · })
  totalMemory := playHost (·.totalMemory) ({ · with totalMemory := · })
  freeMemory := playHost (·.freeMemory) ({ · with freeMemory := · })
  load := playHost (·.load) ({ · with load := · })
  cpuLoad index := do
    let loads ← playHost (·.cpuLoads) ({ · with cpuLoads := · })
    pure (loads[index.toNat]?.join)
  totalTime := playHost (·.totalTime) ({ · with totalTime := · })
  onlineCpus := playHost (·.onlineCpus) ({ · with onlineCpus := · })
  configuredCpus := playHost (·.configuredCpus) ({ · with configuredCpus := · })
  processLoad := playHost (·.processLoad) ({ · with processLoad := · })
  processTime := playHost (·.processTime) ({ · with processTime := · })
  committedMemory := playHost (·.committedMemory) ({ · with committedMemory := · })
  openDescriptors := playHost (·.openDescriptors) ({ · with openDescriptors := · })
  maxDescriptors := playHost (·.maxDescriptors) ({ · with maxDescriptors := · })

def countCombinedUsage : Reading (Scenario α) Unit := fun s =>
  .ok () { s with combinedUsageReads := s.combinedUsageReads + 1 }

def containerSource : ContainerSource (Scenario α) where
  memoryLimit := playContainer (·.memoryLimit) ({ · with memoryLimit := · })
  combinedLimit := playContainer (·.combinedLimit) ({ · with combinedLimit := · })
  memoryUsage := playContainer (·.memoryUsage) ({ · with memoryUsage := · })
  combinedUsage := do
    countCombinedUsage
    playContainer (·.combinedUsage) ({ · with combinedUsage := · })
  quota := playContainer (·.quota) ({ · with quota := · })
  period := playContainer (·.period) ({ · with period := · })
  elapsedPeriods := playContainer (·.elapsedPeriods) ({ · with elapsedPeriods := · })
  shares := playContainer (·.shares) ({ · with shares := · })
  cpuUsage := playContainer (·.cpuUsage) ({ · with cpuUsage := · })
  configuredCpus := playContainer (·.configuredCpus) ({ · with configuredCpus := · })
  effectiveCpus := playContainer (·.effectiveCpus) ({ · with effectiveCpus := · })

/-- The monitor over a scenario, with or without a container. -/
def monitor (hasContainer : Bool) : Monitor (Scenario α) α where
  host := hostSource
  container := if hasContainer then some containerSource else none

end Scenario

end ResourceMetrics
