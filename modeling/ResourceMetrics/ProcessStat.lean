import ResourceMetrics.StatError

/-!
The second field of the stat line of a process is the command name in parentheses. It may hold
anything, blanks and parentheses included, so fields are counted from the last closing parenthesis.
-/

namespace ResourceMetrics

/-- CPU time of a process in ticks and its address space in bytes. -/
structure ProcessStat where
  userTicks : Counter := 0
  systemTicks : Counter := 0
  virtualBytes : Counter := 0
  deriving Repr, DecidableEq

namespace ProcessStat

def userTicksField : Nat := 11

def systemTicksField : Nat := 12

def virtualBytesField : Nat := 20

/-- All ticks of the process, a fault if they exceed a counter. -/
def ticks (stat : ProcessStat) : Except Overflow Counter :=
  stat.userTicks.addOrFault stat.systemTicks

/-- A numeric field of the line, counted from zero after the command name. -/
def readField (line : Text) (fields : List Text) (index : Nat) : Except StatError Counter :=
  match fields[index]? with
  | some t => readValue 1 t
  | none => .error (.truncatedProcessLine line)

def ofLine (line : Text) : Except StatError ProcessStat :=
  match line.afterLast? ')' with
  | none => .error (.truncatedProcessLine line)
  | some rest => do
    let userTicks ← readField line rest.words userTicksField
    let systemTicks ← readField line rest.words systemTicksField
    let virtualBytes ← readField line rest.words virtualBytesField
    pure ⟨userTicks, systemTicks, virtualBytes⟩

def read (contents : Bytes) : Except StatError ProcessStat := do
  let line ← firstLine contents
  ofLine line

end ProcessStat

end ResourceMetrics
