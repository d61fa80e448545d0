import ResourceMetrics.MemoryAmount

/-!
The interface files of the CPU controllers: the quota granted in each period, the weight against
sibling groups, and the CPUs that may be used. A weight stands for a number of CPU shares; it is
turned back into shares as a multiple of 1024, one multiple for each whole CPU.
-/

namespace ResourceMetrics

/-- The CPU time in microseconds that may be used in each period, none if unlimited. -/
structure CpuMax where
  quota : Option Counter := none
  period : Counter := 100000
  deriving Repr, DecidableEq

namespace CpuMax

def readQuota : Option Text → Except StatError (Option Counter)
  | none => .ok none
  | some t => if t = unlimitedWord then .ok none else some <$> readValue 1 t

def readPeriod : Option Text → Except StatError Counter
  | none => .ok ({} : CpuMax).period
  | some t => readValue 1 t

/-- Reads the quota and then the period; either may be missing and further words do not
matter. -/
def read (contents : Bytes) : Except StatError CpuMax := do
  let line ← firstLine contents
  let quota ← readQuota line.words[0]?
  let period ← readPeriod line.words[1]?
  pure ⟨quota, period⟩

end CpuMax

structure CpuWeight where
  weight : Counter := 100
  deriving Repr, DecidableEq

/-- The shares that stand for one whole CPU. -/
def sharesPerCpu : Nat := 1024

/-- The widths of the scales of shares and of weights, which start at 2 and at 1. -/
def shareSpan : Counter := 262142

def weightSpan : Nat := 9999

namespace CpuWeight

def read (contents : Bytes) : Except StatError CpuWeight := do
  let line ← firstLine contents
  let weight ← readValue 1 line.trim
  pure ⟨weight⟩

/-- The nearest positive multiple of `sharesPerCpu`, the lower one of two equally near. -/
def nearestWholeCpus (shares : Nat) : Nat :=
  if shares ≤ sharesPerCpu then sharesPerCpu
  else
    let lower := shares / sharesPerCpu * sharesPerCpu
    if shares - lower ≤ lower + sharesPerCpu - shares then lower else lower + sharesPerCpu

/-- The CPU shares that a weight was set for: those of which the weight is
`1 + (shares - 2) * 9999 / 262142`, brought to whole CPUs. The default weight and zero mean that
none were asked for. Nothing guards the product, so a weight far out of range faults. -/
def shares? (w : CpuWeight) : Except Overflow (Option Counter) :=
  if w.weight = ({} : CpuWeight).weight || w.weight = 0 then .ok none
  else do
    let scaled ← Counter.mulOrFault shareSpan w.weight
    let shares := (scaled.toNat - 1) / weightSpan + 2
    pure (some (UInt64.ofNat (nearestWholeCpus shares)))

end CpuWeight

namespace CpuSet

/-- Reads the CPU list on the first line; an empty line is the empty set. -/
def read (contents : Bytes) : Except StatError (List CpuIndex) := do
  let line ← firstLine contents
  match CpuList.read line.trim with
  | .ok cpus => pure cpus
  | .error cause => throw (.invalidCpuList line.trim cause)

end CpuSet

end ResourceMetrics
