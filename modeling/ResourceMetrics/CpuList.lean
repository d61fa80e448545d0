import ResourceMetrics.Blank
import ResourceMetrics.Numeral

/-!
The kernel writes a set of CPUs as parts joined by commas: a single index `N`, a range `A-B`, or
every `S`-th index of a range, `A-B:S`. Parts may overlap and come in any order, and empty parts
count for nothing; the set is answered in ascending order with each CPU once.
-/

namespace ResourceMetrics

abbrev CpuIndex := UInt32

namespace CpuList

/-- What is wrong with a part. -/
inductive Problem
  | notAnIndex (cause : NumeralError)
  | badStart (cause : NumeralError)
  | badEnd (cause : NumeralError)
  | badStride (cause : NumeralError)
  | zeroStride
  | reversed
  deriving Repr, DecidableEq

def Problem.message : Problem → String
  | .notAnIndex cause =>
    "part was not a range but could not be parsed as an integer either: " ++ cause.message
  | .badStart cause => "range start could not be parsed as an integer: " ++ cause.message
  | .badEnd cause => "range end could not be parsed as an integer: " ++ cause.message
  | .badStride cause => "range stride could not be parsed as an integer: " ++ cause.message
  | .zeroStride => "range stride must not be zero"
  | .reversed => "range start must be <= end"

/-- A problem with the piece of text that has it. -/
structure Error where
  value : Text
  problem : Problem
  deriving Repr, DecidableEq

def Error.message (e : Error) : String :=
  "invalid cpulist syntax: '" ++ String.ofList e.value ++ "' is invalid: " ++ e.problem.message

/-- The indices from `first` to `last` in steps of `stride`. -/
structure Part where
  first : CpuIndex
  last : CpuIndex
  stride : CpuIndex
  deriving Repr, DecidableEq

/-- The CPUs that a part stands for, in ascending order. -/
def Part.cpus (p : Part) : List CpuIndex :=
  (List.range ((p.last.toNat - p.first.toNat) / p.stride.toNat + 1)).map fun i =>
    UInt32.ofNat (p.first.toNat + i * p.stride.toNat)

def readIndex (problem : NumeralError → Problem) (t : Text) : Except Error CpuIndex :=
  match Numeral.read32 t with
  | .ok n => .ok n
  | .error cause => .error ⟨t, problem cause⟩

/-- Reads a stride, which is 1 if none is written. A problem with the value of a number, here and
below, shows the number and not its spelling. -/
def readStride : Option Text → Except Error CpuIndex
  | none => .ok 1
  | some t => do
    let stride ← readIndex .badStride t
    if stride = 0 then throw ⟨Numeral.write stride.toNat, .zeroStride⟩ else pure stride

/-- The end of a range and, after the first colon, its stride. -/
def cutStride (t : Text) : Text × Option Text :=
  match t.cut? ':' with
  | none => (t, none)
  | some (last, stride) => (last, some stride)

/-- Reads one part. All its numbers are read before the range is looked at as a whole. -/
def readPart (t : Text) : Except Error Part :=
  match t.cut? '-' with
  | none => do
    let cpu ← readIndex .notAnIndex t
    pure ⟨cpu, cpu, 1⟩
  | some (first, rest) => do
    let first ← readIndex .badStart first
    let last ← readIndex .badEnd (cutStride rest).1
    let stride ← readStride (cutStride rest).2
    if last < first then
      throw ⟨Numeral.write first.toNat ++ '-' :: Numeral.write last.toNat, .reversed⟩
    else pure ⟨first, last, stride⟩

def parts (t : Text) : List Text := (t.splitOn ',').filter (!·.isEmpty)

/-- Drops the repetitions from an ascending list. -/
def dropRepeats (cpus : List CpuIndex) : List CpuIndex :=
  cpus.foldr (fun cpu rest => if rest.head? = some cpu then rest else cpu :: rest) []

/-- The set of CPUs in a collection of indices, ascending and without repetition. -/
def ofIndices (cpus : List CpuIndex) : List CpuIndex := dropRepeats (cpus.mergeSort (· ≤ ·))

/-- Reads a CPU list; the first part with a problem decides the error. -/
def read (t : Text) : Except Error (List CpuIndex) := do
  let ps ← (parts t).mapM readPart
  pure (ofIndices (ps.flatMap Part.cpus))

end CpuList

end ResourceMetrics
