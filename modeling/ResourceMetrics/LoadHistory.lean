import ResourceMetrics.CpuTicks
import ResourceMetrics.Load

/-!
A load is measured over a window that a call opens where an earlier one closed it. There are two
kinds. The `LoadHistory` of a container moves with every call: a missing sample is stored as zero
and answers no load. The `LoadWindows` of the host, one for each key, move only when the counters
could be read.
-/

namespace ResourceMetrics

/-- The last pair of cumulative samples, zeros before the first. -/
structure LoadHistory where
  usage : Counter := 0
  total : Counter := 0
  deriving Repr, DecidableEq

namespace LoadHistory

variable {α : Type} [LoadScale α]

/-- The load between the stored samples and new ones. A total of zero counts as missing. If
either counter did not grow, nothing was used. -/
def load? (last : LoadHistory) (usage total : Option Counter) : Option α := do
  let usage ← usage
  let total ← positive? total
  pure <|
    if last.usage < usage ∧ last.total < total then
      Load.ratio (usage - last.usage) (total - last.total)
    else Load.zero

/-- The history that new samples leave behind, whether or not they gave a load. -/
def ofSamples (usage total : Option Counter) : LoadHistory := ⟨usage.getD 0, total.getD 0⟩

end LoadHistory

/-- The load between two samples of ticks: zero if no time passed or the ticks went back. -/
def CpuTicks.loadSince {α : Type} [LoadScale α] (now last : CpuTicks) : α :=
  if last.total < now.total then Load.ratio (now.busy.monus last.busy) (now.total - last.total)
  else Load.zero

/-- What a window of the host measures. -/
inductive LoadKey
  | host
  | cpu (index : CpuIndex)
  | process
  deriving Repr, DecidableEq

/-- The last sample under each key, zeros before the first. For the process, `busy` are its own
ticks and `total` those of the host. -/
structure LoadWindows where
  host : CpuTicks := {}
  cpus : List (CpuIndex × CpuTicks) := []
  process : CpuTicks := {}
  deriving Repr, DecidableEq

namespace LoadWindows

def last (windows : LoadWindows) : LoadKey → CpuTicks
  | .host => windows.host
  | .cpu index => (windows.cpus.lookup index).getD {}
  | .process => windows.process

/-- Puts a sample in place of the one for the same CPU. -/
def replace (index : CpuIndex) (sample : CpuTicks) :
    List (CpuIndex × CpuTicks) → List (CpuIndex × CpuTicks)
  | [] => [(index, sample)]
  | c :: rest => if c.1 = index then (index, sample) :: rest else c :: replace index sample rest

def record (windows : LoadWindows) (key : LoadKey) (sample : CpuTicks) : LoadWindows :=
  match key with
  | .host => { windows with host := sample }
  | .cpu index => { windows with cpus := replace index sample windows.cpus }
  | .process => { windows with process := sample }

theorem lookup_replace_self (index : CpuIndex) (sample : CpuTicks)
    (cpus : List (CpuIndex × CpuTicks)) :
    (replace index sample cpus).lookup index = some sample := by
  induction cpus with
  | nil => simp [replace]
  | cons c rest ih =>
    obtain ⟨i, old⟩ := c
    by_cases h : i = index
    · simp [replace, h]
    · simp [replace, h, List.lookup_cons, beq_false_of_ne (Ne.symm h), ih]

theorem lookup_replace_of_ne {index other : CpuIndex} (h : other ≠ index) (sample : CpuTicks)
    (cpus : List (CpuIndex × CpuTicks)) :
    (replace index sample cpus).lookup other = cpus.lookup other := by
  induction cpus with
  | nil => simp [replace, List.lookup_cons, beq_false_of_ne h]
  | cons c rest ih =>
    obtain ⟨i, old⟩ := c
    by_cases hi : i = index
    · simp [replace, hi, List.lookup_cons, beq_false_of_ne h]
    · simp [replace, hi, List.lookup_cons, ih]

@[simp] theorem last_record_self (windows : LoadWindows) (key : LoadKey) (sample : CpuTicks) :
    (windows.record key sample).last key = sample := by
  cases key with
  | host => rfl
  | cpu index => simp [record, last, lookup_replace_self]
  | process => rfl

theorem last_record_of_ne (windows : LoadWindows) (sample : CpuTicks) :
    ∀ {key other : LoadKey}, other ≠ key →
      (windows.record key sample).last other = windows.last other
  | .host, .host, h | .process, .process, h => absurd rfl h
  | .host, .cpu _, _ | .host, .process, _ | .process, .host, _ | .process, .cpu _, _ => rfl
  | .cpu _, .host, _ | .cpu _, .process, _ => rfl
  | .cpu index, .cpu other, h => by
    have hne : other ≠ index := fun e => h (congrArg LoadKey.cpu e)
    simp [record, last, lookup_replace_of_ne hne]

end LoadWindows

end ResourceMetrics
