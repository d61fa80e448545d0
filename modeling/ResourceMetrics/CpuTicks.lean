import ResourceMetrics.StatError

/-!
The leading lines of the host's `stat` file give the ticks that each CPU, and all together, spent
in each state since boot. Ticks are counted as busy unless they are idle or wait for I/O. Nothing
guards the sum of a line, so a line whose ticks exceed a counter faults.
-/

namespace ResourceMetrics

structure CpuTicks where
  busy : Counter := 0
  total : Counter := 0
  deriving Repr, DecidableEq

/-- Why the CPU lines could not be read: a faulty value, or a sum that exceeds a counter. -/
inductive TickError
  | invalid (cause : StatError)
  | overflow (fault : Overflow)
  deriving Repr, DecidableEq

def TickError.message : TickError → String
  | .invalid cause => cause.message
  | .overflow fault => fault.message

/-- Columns of idle ticks and of ticks waiting for I/O, from zero. -/
def idleColumn (column : Nat) : Bool := column = 3 || column = 4

/-- Guest ticks stand after these columns and are part of user ticks already. -/
def tickColumns : Nat := 8

namespace CpuTicks

/-- Adds the ticks of one column. -/
def addColumn (ticks : CpuTicks) (column : Nat) (n : Counter) : Except Overflow CpuTicks := do
  let total ← ticks.total.addOrFault n
  if idleColumn column then pure { ticks with total }
  else do
    let busy ← ticks.busy.addOrFault n
    pure ⟨busy, total⟩

/-- Adds the columns from the given one on. -/
def readColumns (line : Nat) : Nat → CpuTicks → List Text → Except TickError CpuTicks
  | _, ticks, [] => .ok ticks
  | column, ticks, t :: rest =>
    match readValue line t with
    | .error cause => .error (.invalid cause)
    | .ok n =>
      match ticks.addColumn column n with
      | .error fault => .error (.overflow fault)
      | .ok ticks => readColumns line (column + 1) ticks rest

def read (line : Nat) (columns : List Text) : Except TickError CpuTicks :=
  readColumns line 0 {} (columns.take tickColumns)

end CpuTicks

/-- The ticks of the whole host and of each CPU that is online, in file order. -/
structure HostTicks where
  all : CpuTicks := {}
  perCpu : List (CpuIndex × CpuTicks) := []
  deriving Repr, DecidableEq

namespace HostTicks

/-- The ticks of one CPU, by the first line for it. -/
def cpu? (ticks : HostTicks) (cpu : CpuIndex) : Option CpuTicks := ticks.perCpu.lookup cpu

/-- Splits a CPU line into what follows `cpu` in its first word and the columns. -/
def cpuLine? (line : Text) : Option (Text × List Text) :=
  match line.words with
  | ('c' :: 'p' :: 'u' :: label) :: columns => some (label, columns)
  | _ => none

/-- Reads the CPU lines from the one with the given number on, up to the first other line. -/
def readLines : Nat → List Bytes → Except TickError (List (Text × CpuTicks))
  | _, [] => .ok []
  | number, line :: rest =>
    match lineText line with
    | .error cause => .error (.invalid cause)
    | .ok text =>
      match cpuLine? text with
      | none => .ok []
      | some (label, columns) => do
        let ticks ← CpuTicks.read number columns
        let others ← readLines (number + 1) rest
        pure ((label, ticks) :: others)

/-- The CPU that a label names, if it is a number. -/
def labelCpu? (label : Text) : Option CpuIndex := (Numeral.read32 label).toOption

/-- Sorts the lines by their labels. The last line without one is for all CPUs, a number names a
CPU, and lines with other labels are dropped. -/
def ofLines (labelled : List (Text × CpuTicks)) : HostTicks where
  all := (((labelled.filter (·.1.isEmpty)).getLast?).map (·.2)).getD {}
  perCpu := labelled.filterMap fun l => (labelCpu? l.1).map (·, l.2)

def read (contents : Bytes) : Except TickError HostTicks := do
  let labelled ← readLines 1 (lines contents)
  pure (ofLines labelled)

end HostTicks

end ResourceMetrics
