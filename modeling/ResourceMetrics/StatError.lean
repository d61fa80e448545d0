import ResourceMetrics.Counter
import ResourceMetrics.CpuList
import ResourceMetrics.Lines

/-!
Why the contents of a stat file could not be read. Positions count lines from one.
-/

namespace ResourceMetrics

inductive StatError
  | duplicateField (field : Text) (line : Nat)
  | invalidKeyValue (key value : Text) (line : Nat) (cause : NumeralError)
  | invalidValue (value : Text) (line : Nat) (cause : NumeralError)
  | invalidCpuList (value : Text) (cause : CpuList.Error)
  | truncatedProcessLine (line : Text)
  | notUtf8
  deriving Repr, DecidableEq

def notUtf8Message : String := "stream did not contain valid UTF-8"

def StatError.message : StatError → String
  | .duplicateField field line =>
    "duplicate field '" ++ String.ofList field ++ "' at line " ++ line.repr
  | .invalidKeyValue key value line cause =>
    "invalid value for '" ++ String.ofList key ++ "' at line " ++ line.repr ++ ": '" ++
      String.ofList value ++ "': " ++ cause.message
  | .invalidValue value line cause =>
    "invalid value at line " ++ line.repr ++ ": '" ++ String.ofList value ++ "': " ++ cause.message
  | .invalidCpuList value cause =>
    "invalid cpu list '" ++ String.ofList value ++ "': " ++ cause.message
  | .truncatedProcessLine line =>
    "truncated process stat line: `" ++ String.ofList line.trimEnd ++ "`"
  | .notUtf8 => notUtf8Message

/-- The text of one line of a stat file. -/
def lineText (line : Bytes) : Except StatError Text :=
  match Utf8.decode? line with
  | some t => .ok t
  | none => .error .notUtf8

/-- The text of the first line, empty if there is none. Later bytes are never looked at. -/
def firstLine (contents : Bytes) : Except StatError Text :=
  lineText ((lines contents).headD [])

/-- A value of a stat file, with the line that it stands on. -/
def readValue (line : Nat) (t : Text) : Except StatError Counter :=
  match Numeral.read64 t with
  | .ok n => .ok n
  | .error cause => .error (.invalidValue t line cause)

end ResourceMetrics
