import ResourceMetrics.Monitor

/-!
A container limits memory alone and memory with swap; the difference is the swap it may use. Its
free swap takes a pair of usages that are read one after the other, so a page that moves in
between can make the pair contradict itself or the limit. Such a pair is read again, a fixed
number of times.
-/

namespace ResourceMetrics

/-- Makes an attempt until it answers, at most the given number of times. -/
def Reading.retry {σ β : Type} (attempt : Reading σ (Option β)) : Nat → Reading σ (Option β)
  | 0 => pure none
  | n + 1 => do
    match ← attempt with
    | some b => pure (some b)
    | none => retry attempt n

namespace ContainerSource

variable {σ : Type}

/-- The swap that the container may use. A combined limit below the memory limit leaves none. -/
def swapLimit (container : ContainerSource σ) : Reading σ (Option Counter) := do
  let some combined ← container.combinedLimit | pure none
  let some memory ← container.memoryLimit | pure none
  pure (some (combined.monus memory))

/-- One attempt at the free swap. It fails if a usage is missing or zero, or if the two usages do
not fit each other or the limit. -/
def sampleFreeSwap (container : ContainerSource σ) (limit : Counter) :
    Reading σ (Option Counter) := do
  let some combined := positive? (← container.combinedUsage) | pure none
  let some memory := positive? (← container.memoryUsage) | pure none
  pure do
    let swap ← combined.sub? memory
    limit.sub? swap

/-- The memory that the limit leaves, none if there is no limit or the usage is not known. -/
def freeMemory (container : ContainerSource σ) : Reading σ (Option Counter) := do
  let some usage := positive? (← container.memoryUsage) | pure none
  let some limit ← container.memoryLimit | pure none
  pure (some (limit.monus usage))

end ContainerSource

namespace Monitor

variable {σ α : Type}

/-- How often the pair of usages is read before the host is asked. -/
def maxSwapAttempts : Nat := 10

def totalSwap (m : Monitor σ α) : Reading σ (Option Counter) :=
  match m.container with
  | none => m.host.totalSwap
  | some container => do
    match ← container.swapLimit with
    | some limit => pure (some limit)
    | none => m.host.totalSwap

/-- The swap not in use. Both limits are read first; if they leave no swap, no usage is read. -/
def freeSwap (m : Monitor σ α) : Reading σ (Option Counter) :=
  match m.container with
  | none => m.host.freeSwap
  | some container => do
    let combined ← container.combinedLimit
    let memory ← container.memoryLimit
    match combined, memory with
    | some combined, some memory =>
      match positive? (combined.sub? memory) with
      | none => pure (some 0)
      | some limit =>
        match ← (container.sampleFreeSwap limit).retry maxSwapAttempts with
        | some free => pure (some free)
        | none => m.host.freeSwap
    | _, _ => m.host.freeSwap

def totalMemory (m : Monitor σ α) : Reading σ (Option Counter) :=
  match m.container with
  | none => m.host.totalMemory
  | some container => do
    match ← container.memoryLimit with
    | some limit => pure (some limit)
    | none => m.host.totalMemory

def freeMemory (m : Monitor σ α) : Reading σ (Option Counter) :=
  match m.container with
  | none => m.host.freeMemory
  | some container => do
    match ← container.freeMemory with
    | some free => pure (some free)
    | none => m.host.freeMemory

end Monitor

end ResourceMetrics
