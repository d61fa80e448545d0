import ResourceMetrics.StatError

/-!
`cpu.stat` and `meminfo` hold one pair of a key and a value on each line. A `KeyTable` names the
keys of interest and says how a value under each of them goes into the result. Where keys may not
repeat, reading stops as soon as every key has been seen, so what follows never matters.
-/

namespace ResourceMetrics

structure KeyTable (α : Type) where
  initial : α
  fields : List (Text × (α → Counter → α))
  /-- Whether a key may occur more than once. -/
  repeats : Bool

/-- The key and the value of a line: its first two words, the key without one final colon. -/
def keyValue? (line : Text) : Option (Text × Text) :=
  match line.words with
  | key :: value :: _ =>
    some (if key.getLast? = some ':' then key.dropLast else key, value)
  | _ => none

namespace KeyTable

variable {α : Type}

def handler? (table : KeyTable α) (key : Text) : Option (α → Counter → α) :=
  table.fields.lookup key

/-- The known key of a line with its value and what the table does with it. -/
def entry? (table : KeyTable α) (line : Text) : Option (Text × Text × (α → Counter → α)) := do
  let (key, value) ← keyValue? line
  let handle ← table.handler? key
  pure (key, value, handle)

def complete (table : KeyTable α) (seen : List Text) : Bool :=
  table.fields.all fun field => seen.contains field.1

/-- Takes up one line. A value that is no number is reported before a repeated key. -/
def step (table : KeyTable α) (number : Nat) (seen : List Text) (result : α) (line : Text) :
    Except StatError (List Text × α) :=
  match table.entry? line with
  | none => .ok (seen, result)
  | some (key, value, handle) =>
    match Numeral.read64 value with
    | .error cause => .error (.invalidKeyValue key value number cause)
    | .ok n =>
      if !table.repeats && seen.contains key then .error (.duplicateField key number)
      else .ok (key :: seen, handle result n)

/-- Reads the lines from the one with the given number on. -/
def readLines (table : KeyTable α) : Nat → List Text → α → List Bytes → Except StatError α
  | _, _, result, [] => .ok result
  | number, seen, result, line :: rest => do
    let text ← lineText line
    let (seen, result) ← table.step number seen result text
    if !table.repeats && table.complete seen then pure result
    else readLines table (number + 1) seen result rest

def read (table : KeyTable α) (contents : Bytes) : Except StatError α :=
  table.readLines 1 [] table.initial (lines contents)

end KeyTable

/-- The counters of `cpu.stat` that matter here: CPU time in microseconds and elapsed quota
periods. -/
structure CpuStat where
  usageMicros : Counter := 0
  periods : Counter := 0
  deriving Repr, DecidableEq

namespace CpuStat

def table : KeyTable CpuStat where
  initial := {}
  fields :=
    [("usage_usec".toList, fun stat n => { stat with usageMicros := n }),
     ("nr_periods".toList, fun stat n => { stat with periods := n })]
  repeats := false

def read (contents : Bytes) : Except StatError CpuStat := table.read contents

end CpuStat

/-- The host's memory and swap in bytes. -/
structure Meminfo where
  memTotal : Counter := 0
  memFree : Counter := 0
  swapTotal : Counter := 0
  swapFree : Counter := 0
  deriving Repr, DecidableEq

namespace Meminfo

/-- The file counts in units of 1024 bytes. -/
def ofKibibytes (n : Counter) : Counter := n.mulSaturating 1024

def table : KeyTable Meminfo where
  initial := {}
  fields :=
    [("MemTotal".toList, fun info n => { info with memTotal := ofKibibytes n }),
     ("MemFree".toList, fun info n => { info with memFree := ofKibibytes n }),
     ("SwapTotal".toList, fun info n => { info with swapTotal := ofKibibytes n }),
     ("SwapFree".toList, fun info n => { info with swapFree := ofKibibytes n })]
  repeats := false

def read (contents : Bytes) : Except StatError Meminfo := table.read contents

end Meminfo

end ResourceMetrics
