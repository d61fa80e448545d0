import ResourceMetrics.MonitorCpu
import ResourceMetrics.MonitorMemory

/-!
What a monitor reports: each metric as a number that is always there, with -1 for what cannot be
determined, and all of them together as a snapshot.
-/

namespace ResourceMetrics

/-- The value of a metric: presence of something, a number of processors, a size, time or number
of descriptors, or a load. -/
inductive MetricValue (α : Type)
  | flag (b : Bool)
  | processors (n : UInt32)
  | amount (n : Int)
  | load (x : α)
  deriving Repr, DecidableEq

inductive Metric
  | containerPresent
  | availableProcessors
  | totalSwap
  | freeSwap
  | totalMemory
  | freeMemory
  | load
  | processLoad
  | processTime
  | committedMemory
  | openDescriptors
  | maxDescriptors
  deriving Repr, DecidableEq

/-- The largest amount that is reported; larger ones are reported as it. -/
def largestAmount : Int := 9223372036854775807

/-- An amount as it is reported. -/
def reportAmount : Option Counter → Int
  | none => -1
  | some n => min (n.toNat : Int) largestAmount

/-- An amount is reported as missing only if it is. -/
theorem reportAmount_eq_neg_one_iff {n : Option Counter} : reportAmount n = -1 ↔ n = none := by
  cases n with
  | none => exact iff_of_true rfl rfl
  | some n =>
    simp only [reportAmount, largestAmount, reduceCtorEq, iff_false]
    omega

/-- A load as it is reported. -/
def reportLoad {α : Type} [LoadScale α] (load : Option α) : α := load.getD LoadScale.unknown

structure Snapshot (α : Type) where
  containerPresent : Bool
  availableProcessors : UInt32
  totalSwap : Int
  freeSwap : Int
  totalMemory : Int
  freeMemory : Int
  load : α
  processLoad : α
  processTime : Int
  committedMemory : Int
  openDescriptors : Int
  maxDescriptors : Int
  deriving Repr, DecidableEq

namespace Monitor

variable {σ α : Type} [LoadScale α]

/-- An amount as it is reported within a session. -/
def amount (r : Reading σ (Option Counter)) : Reading (Session σ) Int :=
  reportAmount <$> r.inSession

def reportedLoad (m : Monitor σ α) : Reading (Session σ) α := reportLoad <$> m.load

def reportedProcessLoad (m : Monitor σ α) : Reading (Session σ) α :=
  reportLoad <$> m.host.processLoad.inSession

/-- Reads one metric. -/
def read (m : Monitor σ α) : Metric → Reading (Session σ) (MetricValue α)
  | .containerPresent => pure (.flag m.container.isSome)
  | .availableProcessors => .processors <$> m.availableProcessors.inSession
  | .totalSwap => .amount <$> amount m.totalSwap
  | .freeSwap => .amount <$> amount m.freeSwap
  | .totalMemory => .amount <$> amount m.totalMemory
  | .freeMemory => .amount <$> amount m.freeMemory
  | .load => .load <$> m.reportedLoad
  | .processLoad => .load <$> m.reportedProcessLoad
  | .processTime => .amount <$> amount m.host.processTime
  | .committedMemory => .amount <$> amount m.host.committedMemory
  | .openDescriptors => .amount <$> amount m.host.openDescriptors
  | .maxDescriptors => .amount <$> amount m.host.maxDescriptors

/-- Reads every metric once, in the order of the fields. -/
def snapshot (m : Monitor σ α) : Reading (Session σ) (Snapshot α) := do
  let availableProcessors ← m.availableProcessors.inSession
  let totalSwap ← amount m.totalSwap
  let freeSwap ← amount m.freeSwap
  let totalMemory ← amount m.totalMemory
  let freeMemory ← amount m.freeMemory
  let load ← m.reportedLoad
  let processLoad ← m.reportedProcessLoad
  let processTime ← amount m.host.processTime
  let committedMemory ← amount m.host.committedMemory
  let openDescriptors ← amount m.host.openDescriptors
  let maxDescriptors ← amount m.host.maxDescriptors
  pure
    { containerPresent := m.container.isSome
      availableProcessors, totalSwap, freeSwap, totalMemory, freeMemory, load, processLoad
      processTime, committedMemory, openDescriptors, maxDescriptors }

end Monitor

end ResourceMetrics
