import ResourceMetrics.CpuLimit
import ResourceMetrics.Monitor

/-!
The processors of a container are those of its CPU set, narrowed by its shares and its quota. Its
load is what it used of what it was granted: the quota of the elapsed periods, or the part of the
host's time that its processors make up, or else the load of the CPUs of its set. Only the first
two move the history.
-/

namespace ResourceMetrics

variable {σ α : Type}

/-- The CPUs of the container: the effective set, or the configured one if that is empty. -/
def ContainerSource.cpuSet (container : ContainerSource σ) : Reading σ (List CpuIndex) := do
  let effective ← container.effectiveCpus
  if effective.isEmpty then container.configuredCpus else pure effective

/-- How many units of the given size hold an amount, in 32 bits. -/
def unitsFor (amount unit : Counter) : UInt32 :=
  count32 ((amount.toNat + unit.toNat - 1) / unit.toNat)

namespace Monitor

/-- The bound that shares set, if there are any. -/
def sharesBound (cpus : UInt32) (shares : Option Counter) : UInt32 :=
  match positive? shares with
  | some shares => min cpus (unitsFor shares (UInt64.ofNat sharesPerCpu))
  | none => cpus

/-- The bound that a quota sets, given the period. -/
def quotaBound (cpus : UInt32) (quota : Counter) (period : Option Counter) : UInt32 :=
  match positive? period with
  | some period => min cpus (unitsFor quota period)
  | none => cpus

/-- Number of processors that the process can use, at least 1. -/
def availableProcessors (m : Monitor σ α) : Reading σ UInt32 := do
  let hostCpus := (← m.host.onlineCpus).getD 1
  match m.container with
  | none => pure (max hostCpus 1)
  | some container =>
    let size := count32 (← container.cpuSet).length
    let base := if 0 < size then size else hostCpus
    let bounded := sharesBound base (← container.shares)
    match positive? (← container.quota) with
    | none => pure (max bounded 1)
    | some quota => pure (max (quotaBound bounded quota (← container.period)) 1)

theorem one_le_max (cpus : UInt32) : 1 ≤ max cpus 1 := by
  show 1 ≤ if cpus ≤ 1 then 1 else cpus
  split
  · exact UInt32.le_refl 1
  · rename_i h
    exact UInt32.le_of_lt (UInt32.not_le.1 h)

/-- The CPU time that a quota granted in the elapsed periods, in nanoseconds. -/
def grantedTime (quota : Counter) (periods : Option Counter) : Option Counter := do
  let micros ← quota.mul? (← periods)
  micros.mul? 1000

/-- A part of an amount, rounded down. -/
def scaleDown (amount : Counter) (part whole : UInt32) : Option Counter :=
  Counter.ofNat? (amount.toNat * part.toNat / whole.toNat)

/-- The part of the host's CPU time that the container's processors make up. -/
def capacity (m : Monitor σ α) : Reading σ (Option Counter) := do
  let some time ← m.host.totalTime | pure none
  let some hostCpus := (← m.host.onlineCpus).filter (0 < ·) | pure none
  let cpus ← m.availableProcessors
  pure (scaleDown time (min cpus hostCpus) hostCpus)

variable [LoadScale α]

/-- Adds the loads of CPUs in order, up to the first whose load is not known. -/
def sumLoads (m : Monitor σ α) : α → List CpuIndex → Reading σ (Option α)
  | sum, [] => pure (some sum)
  | sum, cpu :: rest => do
    match ← m.host.cpuLoad cpu with
    | some load => sumLoads m (sum + load) rest
    | none => pure none

/-- The mean load of CPUs, which there is for none of an empty set. -/
def meanLoad (m : Monitor σ α) (cpus : List CpuIndex) : Reading σ (Option α) :=
  if cpus.isEmpty then pure none
  else do
    let sum ← m.sumLoads Load.zero cpus
    pure (sum.map (Load.mean · cpus.length))

/-- The load of a CPU set. One as large as the number of CPUs online is the whole host. -/
def cpuSetLoad (m : Monitor σ α) (container : ContainerSource σ) : Reading σ (Option α) := do
  let cpus ← container.cpuSet
  let online ← m.host.onlineCpus
  if online.map UInt32.toNat = some cpus.length then m.host.load else m.meanLoad cpus

/-- Moves the history to new samples and answers the load since the last ones. -/
def advance (usage total : Option Counter) : Reading (Session σ) (Option α) := fun s =>
  .ok (s.history.load? usage total) { s with history := .ofSamples usage total }

def load (m : Monitor σ α) : Reading (Session σ) (Option α) :=
  match m.container with
  | none => m.host.load.inSession
  | some container => do
    match positive? (← container.quota.inSession) with
    | some quota =>
      let usage ← container.cpuUsage.inSession
      let periods ← container.elapsedPeriods.inSession
      advance usage (grantedTime quota periods)
    | none =>
      match positive? (← container.shares.inSession) with
      | some _ =>
        let usage ← container.cpuUsage.inSession
        let capacity ← m.capacity.inSession
        advance usage capacity
      | none => (m.cpuSetLoad container).inSession

end Monitor

end ResourceMetrics
