import ResourceMetrics.Blank
import ResourceMetrics.MountEscape

/-!
A line of a mount table describes one mount: five fields and more before a lone dash, the type of
the file system and more after it. The fourth field is the root of the mount within its file system,
the fifth is where it is mounted.
-/

namespace ResourceMetrics

structure MountEntry where
  root : Text
  mountPoint : Text
  fsType : Text
  deriving Repr, DecidableEq

/-- What is missing from a line, with the line. -/
inductive MountEntryError
  | missingSeparator (line : Text)
  | tooFewFields (found : Nat) (line : Text)
  | missingFsType (line : Text)
  deriving Repr, DecidableEq

namespace MountEntryError

def quoted (line : Text) : String := "`" ++ String.ofList line.trimEnd ++ "`"

def message : MountEntryError → String
  | .missingSeparator line => "missing separator ` - ` in line: " ++ quoted line
  | .tooFewFields found line =>
    "expected at least 5 fields before the separator, found " ++ found.repr ++ " in line: " ++
      quoted line
  | .missingFsType line =>
    "missing filesystem type after the separator in line: " ++ quoted line

end MountEntryError

namespace MountEntry

/-- Splits a line at the first dash between two spaces. -/
def cutSeparator? : Text → Option (Text × Text)
  | ' ' :: '-' :: ' ' :: rest => some ([], rest)
  | c :: cs => (cutSeparator? cs).map fun p => (c :: p.1, p.2)
  | [] => none

/-- Reads a line. What comes first in it is missed first. -/
def read (line : Text) : Except MountEntryError MountEntry :=
  match cutSeparator? line with
  | none => .error (.missingSeparator line)
  | some (before, after) =>
    match before.words with
    | _ :: _ :: _ :: root :: mountPoint :: _ =>
      match after.words with
      | fsType :: _ => .ok ⟨MountEscape.decode root, MountEscape.decode mountPoint, fsType⟩
      | [] => .error (.missingFsType line)
    | few => .error (.tooFewFields few.length line)

end MountEntry

end ResourceMetrics
